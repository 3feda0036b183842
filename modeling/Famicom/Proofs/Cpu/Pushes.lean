import Famicom.Proofs.Cpu.Marks
import Famicom.Proofs.Cpu.Recording
import Famicom.Proofs.Cpu.Run
import Famicom.Proofs.Cpu.Stack

/-!
# The flags on the stack

Flags go to the stack by instruction, with the break mark set, and by request, without it. So a
handler that finds them there can tell which of the two it serves, if the flags in the processor
never carry the mark themselves (`Cpu.marked_after`).

What a step writes is seen on a recorded bus (`writes`). `Pushes bytes m s` says of an action that
from `s` on it pushes these bytes and writes nothing else; where it fails on the way it has written
the first of them, the refused one included. This composes along an action (`Pushes.seq`), and
what only reads pushes nothing (`Pushes.readClosed`).
-/

namespace Famicom

variable {β : Type}

/-! ## What is written -/

/-- The address and the byte of a write, refused or not. -/
def BusCycle.written : BusCycle → Option (UInt16 × UInt8)
  | .read .. => none
  | .write a value _ => some (a, value)

/-- The writes recorded so far, oldest first. -/
def Recorded.writes (r : Recorded β) : List (UInt16 × UInt8) :=
  r.cycles.filterMap BusCycle.written

variable [AddressSpace β]

theorem writes_read (a : UInt16) (r : Recorded β) :
    (AddressSpace.read a r).2.writes = r.writes := by
  show List.filterMap BusCycle.written (r.cycles ++ [_]) = _
  rw [List.filterMap_append]
  exact List.append_nil _

theorem writes_write (a : UInt16) (value : UInt8) (r : Recorded β) :
    (AddressSpace.write a value r).2.writes = r.writes ++ [(a, value)] := by
  show List.filterMap BusCycle.written (r.cycles ++ [_]) = _
  rw [List.filterMap_append]
  rfl

/-- The bytes that are pushed when a request is served. A reset pushes none. -/
def Interrupt.entryBytes (c : Cpu) : Interrupt → List UInt8
  | .reset => []
  | .nmi | .irq => [highByte c.pc, lowByte c.pc, c.status.interrupted.toByte]

theorem Interrupt.entryBytes_begun (c : Cpu) (request : Interrupt) :
    request.entryBytes (CpuM.begun c) = request.entryBytes c := by
  cases request <;> rfl

namespace CpuM

/-- The cells that pushed bytes go to, each with its byte. -/
def pushesFrom : UInt8 → List UInt8 → List (UInt16 × UInt8)
  | _, [] => []
  | sp, value :: bytes => (stackAddress sp, value) :: pushesFrom (sp - 1) bytes

theorem pushesFrom_append (sp : UInt8) (bytes more : List UInt8) :
    pushesFrom sp (bytes ++ more) =
      pushesFrom sp bytes ++ pushesFrom (sp - .ofNat bytes.length) more := by
  induction bytes generalizing sp with
  | nil => simp [pushesFrom]
  | cons value bytes ih =>
    have hnext : sp - 1 - .ofNat bytes.length = sp - .ofNat (value :: bytes).length := by
      rw [List.length_cons, UInt8.ofNat_add]
      grind
    rw [List.cons_append, pushesFrom, ih, hnext]
    rfl

/-- The writes of a step, however it ends. -/
def writes (s : System β) : List (UInt16 × UInt8) := (accesses s).filterMap BusCycle.written

/-! ## Actions that push -/

variable {α γ : Type}

/-- From `s` on the action pushes these bytes and writes nothing else. If it fails it has come to
some of them. -/
structure Pushes (bytes : List UInt8) (m : CpuM (Recorded β) α) (s : System (Recorded β)) :
    Prop where
  all : ∀ a t, m s = .ok a t → t.bus.writes = s.bus.writes ++ pushesFrom s.cpu.sp bytes ∧
    t.cpu.sp = s.cpu.sp - .ofNat bytes.length
  part : ∀ e t, m s = .error e t →
    ∃ first, first <+: pushesFrom s.cpu.sp bytes ∧ t.bus.writes = s.bus.writes ++ first

namespace Pushes

variable {bytes more : List UInt8} {s : System (Recorded β)}

omit [AddressSpace β] in
/-- Only what the action does from `s` on counts. -/
theorem congr {m m' : CpuM (Recorded β) α} (hm : Pushes bytes m s) (h : m' s = m s) :
    Pushes bytes m' s where
  all a t h' := hm.all a t (h.symm.trans h')
  part e t h' := hm.part e t (h.symm.trans h')

omit [AddressSpace β] in
theorem seq {m : CpuM (Recorded β) α} {f : α → CpuM (Recorded β) γ} (hm : Pushes bytes m s)
    (hf : ∀ a t, m s = .ok a t → Pushes more (f a) t) : Pushes (bytes ++ more) (m >>= f) s where
  all c u h := by
    obtain ⟨a, t, hok, h⟩ := bind_eq_ok.1 h
    obtain ⟨hfirst, hsp⟩ := hm.all a t hok
    obtain ⟨hsecond, hsp'⟩ := (hf a t hok).all c u h
    rw [hsecond, hfirst, hsp', hsp, pushesFrom_append, List.append_assoc, List.length_append,
      UInt8.ofNat_add]
    exact ⟨rfl, by grind⟩
  part e u h := by
    rw [pushesFrom_append]
    rcases bind_eq_error.1 h with h | ⟨a, t, hok, h⟩
    · obtain ⟨first, hfirst, hwrites⟩ := hm.part e u h
      exact ⟨first, hfirst.trans (List.prefix_append _ _), hwrites⟩
    · obtain ⟨hall, hsp⟩ := hm.all a t hok
      obtain ⟨first, hfirst, hwrites⟩ := (hf a t hok).part e u h
      rw [hsp] at hfirst
      exact ⟨_, (List.prefix_append_right_inj _).2 hfirst,
        by rw [hwrites, hall, List.append_assoc]⟩

omit [AddressSpace β] in
/-- An action that leaves the writes and the stack pointer alone, however it ends. -/
theorem nothing {m : CpuM (Recorded β) α} (hwrites : (left m s).bus.writes = s.bus.writes)
    (hsp : (left m s).cpu.sp = s.cpu.sp) : Pushes [] m s where
  all a t h := by
    rw [left_of_ok h] at hwrites hsp
    simp [pushesFrom, hwrites, hsp]
  part e t h := by
    rw [left_of_error h] at hwrites
    exact ⟨[], List.nil_prefix, by rw [hwrites, List.append_nil]⟩

theorem readByte (a : UInt16) (s : System (Recorded β)) : Pushes [] (readByte a) s := by
  have hleft := left_readByte a s
  exact nothing (by rw [hleft, writes_read]) (by rw [hleft])

theorem readClosed :
    ReadClosed fun _ (m _ : CpuM (Recorded β) _) => ∀ s, Pushes [] m s where
  pure _ _ := nothing rfl rfl
  seq hm hf s := (hm s).seq fun a t _ => hf a t
  cpu _ := nothing rfl rfl
  readByte := readByte
  goto _ _ := nothing rfl rfl
  flags _ _ := nothing rfl rfl

theorem pushByte (value : UInt8) (s : System (Recorded β)) :
    Pushes [value] (CpuM.push value) s where
  all u t h := by
    obtain ⟨hwrite, hcpu⟩ := push_eq_ok.1 h
    have hwrites := writes_write (stackAddress s.cpu.sp) value s.bus
    rw [hwrite] at hwrites
    exact ⟨hwrites, by rw [hcpu]; rfl⟩
  part e t h := by
    rw [CpuM.push, cpu_bind] at h
    rcases bind_eq_error.1 h with h | ⟨_, _, -, h⟩
    · have ht := left_writeByte (stackAddress s.cpu.sp) value s
      rw [left_of_error h] at ht
      exact ⟨_, List.prefix_refl _, by rw [ht, writes_write]; rfl⟩
    · cases h

theorem pushWord (w : UInt16) (s : System (Recorded β)) :
    Pushes [highByte w, lowByte w] (pushWord w) s :=
  (pushByte _ s).seq fun _ t _ => pushByte _ t

/-- The address to come back to and the flags go to the stack, and nothing after them. -/
theorem entry (w : UInt16) (value : UInt8) {m : CpuM (Recorded β) α} (hm : ∀ t, Pushes [] m t)
    (s : System (Recorded β)) :
    Pushes [highByte w, lowByte w, value] (do CpuM.pushWord w; CpuM.push value; m) s :=
  (pushWord w s).seq fun _ t _ => (pushByte value t).seq fun _ u _ => hm u

/-- The bytes of a request go to the stack before its handler is found. -/
theorem serve {request : Interrupt} (hrequest : request ≠ .reset) (s : System (Recorded β)) :
    Pushes (request.entryBytes s.cpu) (serve request) s := by
  cases request with
  | reset => exact absurd rfl hrequest
  | nmi =>
    exact (entry _ _ (readClosed.enterHandler .nmi) s).congr rfl
  | irq =>
    exact (entry _ _ (readClosed.enterHandler .irq) s).congr rfl

theorem fetchInstruction (s : System (Recorded β)) : Pushes [] fetchInstruction s := by
  refine (readClosed.cpu s).seq fun c t _ => (readByte _ t).seq fun opcode u _ => ?_
  split <;> exact nothing rfl rfl

/-- Without an operand the action runs right behind the opcode. -/
theorem execute {i : Instruction} (hmode : i.mode = .implied) {s : System (Recorded β)}
    (hrun : Pushes bytes (i.mnemonic.action.run .implied)
      ⟨{ s.cpu with pc := s.cpu.pc + 1 }, s.bus⟩) : Pushes bytes (execute i) s := by
  have hrest : Pushes (bytes ++ []) (do
      let extra ← i.mnemonic.action.run .implied
      return i.cycles + (if i.pagePenalty && false then 1 else 0) + extra)
      ⟨{ s.cpu with pc := s.cpu.pc + 1 }, s.bus⟩ :=
    hrun.seq fun _ _ _ => nothing rfl rfl
  rw [List.append_nil] at hrest
  refine ⟨fun a t h => hrest.all a t ?_, fun e t h => hrest.part e t ?_⟩ <;>
    rwa [CpuM.execute, update_bind, hmode] at h

end Pushes

/-! ## Steps that push -/

/-- The step writes these bytes to the stack and nothing else, or the first of them if it fails. -/
def StepPushes (s : System β) (bytes : List UInt8) : Prop :=
  writes s <+: pushesFrom s.cpu.sp bytes ∧
    ((∃ n t, step s = .ok n t) → writes s = pushesFrom s.cpu.sp bytes)

theorem stepPushes_of_work {s : System β} {bytes : List UInt8}
    (h : Pushes bytes (work s.cpu.served) ⟨begun s.cpu, ⟨s.bus, []⟩⟩) : StepPushes s bytes := by
  have hstep : Pushes (bytes ++ []) (work s.cpu.served >>= charge) ⟨begun s.cpu, ⟨s.bus, []⟩⟩ :=
    h.seq fun _ _ _ => .nothing rfl rfl
  rw [List.append_nil] at hstep
  have hrecorded := step_eq (recorded s)
  unfold StepPushes writes accesses
  rw [step_recorded]
  cases hend : step (recorded s) with
  | ok n u =>
    rw [hend] at hrecorded
    have hwrites := (hstep.all n u hrecorded.symm).1
    rw [left_of_ok hend]
    replace hwrites : u.bus.cycles.filterMap BusCycle.written = pushesFrom s.cpu.sp bytes := hwrites
    exact ⟨hwrites ▸ List.prefix_refl _, fun _ => hwrites⟩
  | error e u =>
    rw [hend] at hrecorded
    obtain ⟨first, hfirst, hwrites⟩ := hstep.part e u hrecorded.symm
    rw [left_of_error hend]
    refine ⟨?_, fun ⟨_, _, hok⟩ => by cases hok⟩
    have hu : u.bus.cycles.filterMap BusCycle.written = first := hwrites
    rwa [hu]

theorem stepPushes_of_served {s : System β} {request : Interrupt}
    (hserved : s.cpu.served = some request) (hrequest : request ≠ .reset) :
    StepPushes s (request.entryBytes s.cpu) := by
  have hserve := Pushes.serve hrequest (⟨begun s.cpu, ⟨s.bus, []⟩⟩ : System (Recorded β))
  refine stepPushes_of_work ?_
  rw [hserved, ← Interrupt.entryBytes_begun, ← List.append_nil (request.entryBytes _)]
  exact hserve.seq fun _ _ _ => .nothing rfl rfl

/-- The step comes to an instruction with this mnemonic. -/
def Starts (mnemonic : Mnemonic) (s : System β) : Prop :=
  s.cpu.served = none ∧ ∃ opcode i, (AddressSpace.read s.cpu.pc s.bus).1 = .ok opcode ∧
    Instruction.decode? opcode = some i ∧ i.mnemonic = mnemonic

theorem Starts.pushes {mnemonic : Mnemonic} {s : System β} {bytes : List UInt8}
    (h : Starts mnemonic s)
    (himplied : ∀ i ∈ Instruction.table, i.mnemonic = mnemonic → i.mode = .implied)
    (hrun : ∀ t : System (Recorded β),
      t.cpu = { s.cpu with pc := s.cpu.pc + 1, origin := s.cpu.pc } →
        Pushes bytes (mnemonic.action.run .implied) t) : StepPushes s bytes := by
  obtain ⟨hserved, opcode, i, hread, hdecode, rfl⟩ := h
  have hmode := himplied i (Instruction.mem_table_of_decode? hdecode) rfl
  have hbegun : begun s.cpu = { s.cpu with origin := s.cpu.pc } := by
    simp [begun, hserved]
  refine stepPushes_of_work ?_
  rw [hserved, hbegun, work, ← List.nil_append bytes]
  refine Pushes.seq (Pushes.fetchInstruction _) fun j t hfetch => ?_
  obtain ⟨opcode', hopcode, hj⟩ := fetchInstruction_eq_ok.1 hfetch
  obtain ⟨hanswer, hcpu⟩ := readByte_eq_ok.1 hopcode
  -- The recorder answers as the bus beneath.
  have hsame : (AddressSpace.read s.cpu.pc s.bus).1 = .ok opcode' := congrArg Prod.fst hanswer
  rw [hread] at hsame
  cases hsame
  obtain rfl : i = j := Option.some_inj.1 (hdecode.symm.trans hj)
  exact Pushes.execute hmode (hrun _ (by rw [hcpu]))

/-! ## The two instructions that push the flags -/

theorem implied_of_php_or_brk {i : Instruction} (h : i ∈ Instruction.table) :
    i.mnemonic = .php ∨ i.mnemonic = .brk → i.mode = .implied := by
  revert i
  decide +kernel

theorem Starts.php {s : System β} (h : Starts .php s) :
    StepPushes s [s.cpu.status.pushed.toByte] := by
  refine h.pushes (fun i hi hphp => implied_of_php_or_brk hi (.inl hphp)) fun t ht => ?_
  have hpush : Pushes ([t.cpu.status.pushed.toByte] ++ [])
      (do CpuM.push t.cpu.status.pushed.toByte; return 0) t :=
    (Pushes.pushByte _ t).seq fun _ _ _ => .nothing rfl rfl
  rw [show s.cpu.status = t.cpu.status by rw [ht]]
  exact hpush.congr rfl

theorem Starts.brk {s : System β} (h : Starts .brk s) :
    StepPushes s [highByte (s.cpu.pc + 2), lowByte (s.cpu.pc + 2),
      s.cpu.status.pushed.toByte] := by
  refine h.pushes (fun i hi hbrk => implied_of_php_or_brk hi (.inr hbrk)) fun t ht => ?_
  have henter (u : System (Recorded β)) :
      Pushes [] (do enterHandler .irq; return 0 : CpuM (Recorded β) Nat) u :=
    (Pushes.readClosed.enterHandler .irq u).seq fun _ _ _ => .nothing rfl rfl
  have hpc : s.cpu.pc + 2 = t.cpu.pc + 1 := by
    rw [ht]
    exact (UInt16.add_assoc s.cpu.pc 1 1).symm
  rw [hpc, show s.cpu.status = t.cpu.status by rw [ht]]
  exact (Pushes.entry _ _ henter t).congr rfl

end CpuM

/-! ## Wherever the processor got -/

theorem Cpu.marked_perform (c : Cpu) (action : CpuAction) (h : c.status.Marked) :
    (c.perform action).status.Marked := by
  have hraise (request : Interrupt) : (c.raise request).status.Marked := by
    rw [CpuM.raise_eq]
    exact h
  cases action with
  | raise request => exact hraise request
  | reset => exact hraise .reset
  | stall cycles => exact h
  | step bus => exact CpuM.LeavesMarked.step ⟨c, bus⟩ h

theorem Cpu.marked_after {c : Cpu} (h : c.status.Marked) (run : List CpuAction) :
    (c.after run).status.Marked :=
  after_of_perform marked_perform h run

open CpuM in
/-- From power-up on bit 5 of the flags is set and bit 4 is not, whatever the host does and whatever
bytes come off the stack. So the flags are pushed with the mark by instruction and as they are by
request, and the byte on the stack tells the one from the other. -/
theorem status_on_stack (start : Cpu) (hstart : start = .initial ∨ ∃ c : Cpu, start = c.powerUp)
    (run : List CpuAction) :
    let c := start.after run
    let p := c.status.toByte
    (c.status.Marked ∧ p &&& 0x20 = 0x20 ∧ p &&& 0x10 = 0 ∧ (p ||| 0x10) &&& 0x10 = 0x10) ∧
    ∀ (β : Type) [AddressSpace β] (bus : β), let s : System β := ⟨c, bus⟩
      (Starts .php s → StepPushes s [p ||| 0x10]) ∧
      (Starts .brk s →
        StepPushes s [highByte (c.pc + 2), lowByte (c.pc + 2), p ||| 0x10]) ∧
      (∀ request, c.served = some request → request ≠ .reset →
        StepPushes s [highByte c.pc, lowByte c.pc, p]) ∧
      ∀ [PlainStack β] (n : Nat) (t : System β), step s = .ok n t →
        (Starts .brk s → t.stack 1 = [p ||| 0x10]) ∧
        (c.served = some .irq → t.stack 1 = [p]) := by
  intro c p
  have hmarked : c.status.Marked := by
    refine Cpu.marked_after ?_ run
    obtain rfl | ⟨c, rfl⟩ := hstart
    · exact Status.marked_powerUp
    · exact Status.marked_powerUp
  have hpushed : c.status.pushed.toByte = p ||| 0x10 := hmarked.toByte_pushed
  have hinterrupted : c.status.interrupted.toByte = p := hmarked.toByte_interrupted
  refine ⟨⟨hmarked, hmarked.toByte_bits⟩, fun β _ bus => ?_⟩
  intro s
  refine ⟨fun h => ?_, fun h => ?_, fun request hserved hrequest => ?_,
    fun n t h => ⟨fun hbrk => ?_, fun hserved => ?_⟩⟩
  · exact hpushed ▸ h.php
  · exact hpushed ▸ h.brk
  · have hpushes := stepPushes_of_served (s := s) hserved hrequest
    cases request with
    | reset => exact absurd rfl hrequest
    | nmi | irq => exact hinterrupted ▸ hpushes
  · have hruns : Runs .brk s t := ⟨hbrk.1, ⟨n, h⟩, hbrk.2⟩
    have htop := hruns.trap.2 0 (by decide)
    exact congrArg (List.take 1) (hpushed ▸ htop)
  · have htop := (step_of_served hserved (by decide) h).2 0 (by decide)
    exact congrArg (List.take 1) (hinterrupted ▸ htop)

open CpuM in
/-- All bits of the byte are set that `PLP` takes off the stack, and of the byte that `BRK` pushes
then; the flags between the two lack the mark. -/
theorem status_on_stack_all_ones :
    let memory : Memory 0x10000 := ((Memory.zeros _).write 0x0000 0x28).write 0x0101 0xFF
    let c := Cpu.initial.after [.step memory]
    c.status.toByte = 0xEF ∧ StepPushes ⟨c, memory⟩ [0x00, 0x03, 0xFF] := by
  intro memory c
  have hpc : c.pc = 0x0001 := by decide +kernel
  have hp : c.status.toByte = 0xEF := by decide +kernel
  have hserved : c.served = none := by decide +kernel
  have hread : (AddressSpace.read c.pc memory).1 = .ok 0x00 := by rw [hpc]; rfl
  obtain ⟨-, hstep⟩ := status_on_stack Cpu.initial (.inl rfl) [.step memory]
  have hbrk := (hstep _ memory).2.1 ⟨hserved, 0x00, _, hread, rfl, rfl⟩
  rw [show Cpu.initial.after [.step memory] = c from rfl, hpc, hp] at hbrk
  exact ⟨hp, hbrk⟩

end Famicom
