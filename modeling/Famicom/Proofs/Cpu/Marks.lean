import Famicom.Proofs.Cpu.Frame

/-!
# The two flags that are none

The unused flag is always set and the break mark never, however the processor got where it is :
both are as `Marked` says, and no action changes that, be it left with an answer or with a fault
(`LeavesMarked`). The flags that come off the stack pass through `restored`, which puts the two
where they belong before anything else can fail. They differ in the byte on the stack only, so the
flags that come back are those that went there (`restored_toByte_pushed`,
`restored_toByte_interrupted`).
-/

namespace Famicom

namespace Status

/-- Bit 5 is set and bit 4 is not. -/
def Marked (s : Status) : Prop := s.unused = true ∧ s.breakMark = false

theorem marked_powerUp : powerUp.Marked := ⟨rfl, rfl⟩

theorem marked_restored (b : UInt8) : (restored b).Marked := ⟨rfl, rfl⟩

theorem Marked.restored_toByte_pushed {s : Status} (h : s.Marked) :
    restored s.pushed.toByte = s := by
  obtain ⟨c, z, i, d, b, u, v, n⟩ := s
  obtain ⟨rfl, rfl⟩ := h
  rw [restored, ofByte_toByte]
  rfl

theorem Marked.restored_toByte_interrupted {s : Status} (h : s.Marked) :
    restored s.interrupted.toByte = s := by
  obtain ⟨c, z, i, d, b, u, v, n⟩ := s
  obtain ⟨rfl, rfl⟩ := h
  rw [restored, ofByte_toByte]
  rfl

/-- The byte of the flags shows the two where they belong. -/
theorem Marked.toByte_bits {s : Status} (h : s.Marked) :
    s.toByte &&& 0x20 = 0x20 ∧ s.toByte &&& 0x10 = 0 ∧ (s.toByte ||| 0x10) &&& 0x10 = 0x10 := by
  obtain ⟨c, z, i, d, b, u, v, n⟩ := s
  obtain ⟨rfl, rfl⟩ := h
  revert c z i d v n
  decide

theorem Marked.toByte_pushed {s : Status} (h : s.Marked) :
    s.pushed.toByte = s.toByte ||| 0x10 := by
  obtain ⟨c, z, i, d, b, u, v, n⟩ := s
  obtain ⟨rfl, rfl⟩ := h
  revert c z i d v n
  decide

theorem Marked.toByte_interrupted {s : Status} (h : s.Marked) :
    s.interrupted.toByte = s.toByte := by
  obtain ⟨c, z, i, d, b, u, v, n⟩ := s
  obtain ⟨rfl, rfl⟩ := h
  rfl

end Status

namespace Action

/-- The computations of the action leave the two flags alone. -/
def KeepsMarks : Action → Prop
  | .load use | .pull use =>
    ∀ (r : Registers) (value : UInt8), r.status.Marked → (use r value).status.Marked
  | .modify change use =>
    (∀ (value : UInt8) (s : Status), s.Marked → (change value s).2.Marked) ∧
      ∀ (r : Registers) (value : UInt8), r.status.Marked → (use r value).status.Marked
  | .adjust f => ∀ r : Registers, r.status.Marked → (f r).status.Marked
  | .store _ | .branch _ | .jump | .call | .ret | .retInterrupt | .trap | .push _ => True

theorem keepsMarks (m : Mnemonic) : m.action.KeepsMarks := by
  cases m with
  | plp => exact fun _ value _ => Status.marked_restored value
  | _ =>
    first
    | exact trivial
    | exact fun _ _ h => h
    | exact fun _ h => h
    | exact ⟨fun _ _ h => h, fun _ _ h => h⟩

end Action

namespace CpuM

variable {α γ β : Type}

/-- However the action ends, the two flags are where they belong if they were so before. -/
def LeavesMarked (m : CpuM β α) : Prop :=
  Relates (fun s t => s.cpu.status.Marked → t.cpu.status.Marked) m

namespace LeavesMarked

theorem seq {m : CpuM β α} {f : α → CpuM β γ} (hm : LeavesMarked m)
    (hf : ∀ a, LeavesMarked (f a)) : LeavesMarked (m >>= f) :=
  Relates.seq hm hf (fun _ h => h) fun _ _ _ h h' hs => h' (h hs)

theorem pure (a : α) : LeavesMarked (Pure.pure a : CpuM β α) := fun _ h => h

theorem cpu : LeavesMarked (cpu : CpuM β Cpu) := fun _ h => h

theorem update {f : Cpu → Cpu} (hf : ∀ c, c.status.Marked → (f c).status.Marked) :
    LeavesMarked (update f : CpuM β Unit) :=
  fun s => hf s.cpu

/-- A change of the processor after which nothing can fail. -/
theorem finish {f : Cpu → Cpu} (hf : ∀ c, c.status.Marked → (f c).status.Marked) (n : Nat) :
    LeavesMarked (do CpuM.update f; return n : CpuM β Nat) :=
  seq (update hf) fun _ => pure n

theorem charge (n : Nat) : LeavesMarked (charge n : CpuM β Nat) := finish (fun _ h => h) n

variable [AddressSpace β]

theorem readByte (a : UInt16) : LeavesMarked (readByte a : CpuM β UInt8) := by
  intro s hs
  rw [left_readByte]
  exact hs

theorem writeByte (a : UInt16) (value : UInt8) :
    LeavesMarked (writeByte a value : CpuM β Unit) := by
  intro s hs
  rw [left_writeByte]
  exact hs

theorem fetchClosed : FetchClosed fun _ (m _ : CpuM β _) => LeavesMarked m where
  pure := pure
  seq := seq
  cpu := cpu
  readByte := readByte
  goto _ := update fun _ h => h

/-! ## The stack and the operand -/

theorem pushByte (value : UInt8) : LeavesMarked (CpuM.push value : CpuM β Unit) :=
  seq cpu fun _ => seq (writeByte _ _) fun _ => update fun _ h => h

theorem pushWord (w : UInt16) : LeavesMarked (pushWord w : CpuM β Unit) :=
  seq (pushByte _) fun _ => pushByte _

theorem pull : LeavesMarked (CpuM.pull : CpuM β UInt8) :=
  seq (update fun _ h => h) fun _ => seq cpu fun _ => readByte _

theorem pullWord : LeavesMarked (pullWord : CpuM β UInt16) :=
  seq pull fun _ => seq pull fun _ => pure _

theorem store (operand : Operand) (value : UInt8) :
    LeavesMarked (operand.store value : CpuM β Unit) := by
  cases operand with
  | implied => exact pure _
  | accumulator => exact update fun _ h => h
  | address a => exact writeByte a value

theorem enterHandler (request : Interrupt) :
    LeavesMarked (enterHandler request : CpuM β Unit) :=
  seq (update fun _ h => h) fun _ => seq (fetchClosed.readWord _ _) fun _ => update fun _ h => h

/-! ## Instructions and requests -/

theorem run {action : Action} (hkeeps : action.KeepsMarks) (operand : Operand) :
    LeavesMarked (action.run operand : CpuM β Nat) := by
  have hload := fetchClosed.load (β := β) operand
  cases action with
  | load use => exact seq hload fun value => finish (fun _ h => hkeeps _ value h) 0
  | store value => exact seq cpu fun _ => seq (store operand _) fun _ => pure _
  | modify change use =>
    -- The flags that the change puts in place are computed from those it finds.
    refine seq hload fun old s hs => ?_
    have hchanged := hkeeps.1 old s.cpu.status hs
    generalize hresult : change old s.cpu.status = changed at hchanged
    have hrest : LeavesMarked (do
        CpuM.update fun c => { c with status := changed.2 }
        operand.store changed.1
        compute fun r => use r changed.1
        return 0 : CpuM β Nat) :=
      seq (update fun _ _ => hchanged) fun _ => seq (store operand _) fun _ =>
        finish (fun _ h => hkeeps.2 _ _ h) 0
    rw [← hresult] at hrest
    exact hrest s hs
  | adjust f => exact finish (fun _ h => hkeeps _ h) 0
  | branch taken =>
    refine seq cpu fun c => ?_
    split
    · exact seq (update fun _ h => h) fun _ => pure _
    · exact pure _
  | jump => exact finish (fun _ h => h) 0
  | call => exact seq cpu fun _ => seq (pushWord _) fun _ => finish (fun _ h => h) 0
  | ret => exact seq pullWord fun _ => finish (fun _ h => h) 0
  | retInterrupt =>
    exact seq pull fun value => seq (update fun _ _ => Status.marked_restored value) fun _ =>
      seq pullWord fun _ => finish (fun _ h => h) 0
  | trap =>
    exact seq cpu fun _ => seq (pushWord _) fun _ => seq (pushByte _) fun _ =>
      seq (enterHandler _) fun _ => pure _
  | push value => exact seq cpu fun _ => seq (pushByte _) fun _ => pure _
  | pull use => exact seq pull fun value => finish (fun _ h => hkeeps _ value h) 0

theorem serve (request : Interrupt) : LeavesMarked (serve request : CpuM β Unit) := by
  cases request with
  | reset => exact seq (update fun _ h => h) fun _ => enterHandler _
  | nmi | irq =>
    exact seq cpu fun _ => seq (pushWord _) fun _ => seq (pushByte _) fun _ => enterHandler _

theorem fetchInstruction : LeavesMarked (fetchInstruction : CpuM β Instruction) := by
  refine seq cpu fun c => (readByte _).seq fun opcode => ?_
  split
  · exact pure _
  · exact fun _ h => h

theorem execute (i : Instruction) : LeavesMarked (execute i : CpuM β Nat) :=
  seq (update fun _ h => h) fun _ => seq (fetchClosed.resolve _) fun _ =>
    seq (run (Action.keepsMarks _) _) fun _ => pure _

theorem work (request : Option Interrupt) : LeavesMarked (work request : CpuM β Nat) := by
  cases request with
  | some request => exact seq (serve request) fun _ => pure _
  | none => exact seq fetchInstruction execute

/-- Whatever a step does and however it ends, it leaves the two flags as they are. -/
theorem step : LeavesMarked (step : CpuM β Nat) := by
  intro s hs
  have hwork := (seq (work s.cpu.served) fun n => charge n) ⟨begun s.cpu, s.bus⟩ hs
  unfold left at hwork ⊢
  rw [step_eq]
  exact hwork

end LeavesMarked

theorem step_marked [AddressSpace β] {s t : System β} {n : Nat} (h : step s = .ok n t)
    (hs : s.cpu.status.Marked) : t.cpu.status.Marked := by
  have hleft := LeavesMarked.step s hs
  rwa [left_of_ok h] at hleft

end CpuM

end Famicom
