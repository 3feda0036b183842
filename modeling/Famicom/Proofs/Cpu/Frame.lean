import Famicom.Proofs.Cpu.Closure

/-!
# What a step leaves alone

Whether it succeeds or faults, a step touches the bus in one order : reads and pushes
as many as it likes, and at last one write to the operand, or none. So what is known
of the bus after it follows from a relation that reads and pushes keep (`Routine`)
and from what one write does to it (`Closing`).

`Relates R m` says that the action `m` leaves every system related by `R` to the one
it starts in. The actions are built from a few others, and so are these statements :
`Routine.seq` joins two of them, `Routine.seqClosing` and `Routine.closingSeq` do so
where one of the two may hold the write at last. All of them also keep the clock, the
interrupt latch and the start of the instruction (`Carries`); only the end of a step
moves the clock and only its beginning the latch. `step_of_ok` and `left_step` put
this together.
-/

namespace Famicom.CpuM

variable {α γ β : Type}

/-! ## Relations between the ends of an action -/

/-- However the action ends, the system it leaves is related to the one it starts in. -/
def Relates (R : System β → System β → Prop) (m : CpuM β α) : Prop :=
  ∀ s, R s (left m s)

/-- A fault ends the first action, and then the second one counts as doing nothing. -/
theorem Relates.seq {R T U : System β → System β → Prop} {m : CpuM β α} {f : α → CpuM β γ}
    (hm : Relates R m) (hf : ∀ a, Relates T (f a)) (refl : ∀ s, T s s)
    (comp : ∀ s t u, R s t → T t u → U s u) : Relates U (m >>= f) := by
  intro s
  have h := hm s
  cases hs : m s with
  | ok a t =>
    rw [left_of_ok hs] at h
    have hleft : left (m >>= f) s = left (f a) t := by
      unfold left
      rw [bind_of_ok hs]
    rw [hleft]
    exact comp s t _ h (hf a t)
  | error e t =>
    rw [left_of_error hs] at h
    rw [left_of_error (bind_of_error hs f)]
    exact comp s t t h (refl t)

/-- The clock, the latch and the start of the instruction are as before, and the buses are
related by `B`. -/
structure Carries (B : β → β → Prop) (s t : System β) : Prop where
  cycles : t.cpu.cycles = s.cpu.cycles
  pending : t.cpu.pending = s.cpu.pending
  origin : t.cpu.origin = s.cpu.origin
  bus : B s.bus t.bus

theorem Carries.refl {B : β → β → Prop} (h : ∀ b, B b b) (s : System β) : Carries B s s :=
  ⟨rfl, rfl, rfl, h _⟩

theorem Carries.comp {B C D : β → β → Prop} (h : ∀ b c d, B b c → C c d → D b d)
    (s t u : System β) (hst : Carries B s t) (htu : Carries C t u) : Carries D s u :=
  ⟨htu.cycles.trans hst.cycles, htu.pending.trans hst.pending, htu.origin.trans hst.origin,
    h _ _ _ hst.bus htu.bus⟩

variable [AddressSpace β]

/-- A relation of buses that reads and pushes keep. -/
structure Routine (B : β → β → Prop) : Prop where
  refl : ∀ b, B b b
  trans : ∀ {b c d}, B b c → B c d → B b d
  read : ∀ a b, B b (AddressSpace.read a b).2
  push : ∀ sp value b, B b (AddressSpace.write (stackAddress sp) value b).2

/-- The bus `d` comes from `b` by accesses that keep `B` and at last a write, or none. -/
def Closing (B : β → β → Prop) (b d : β) : Prop :=
  ∃ c, B b c ∧ (d = c ∨ ∃ a value, d = (AddressSpace.write a value c).2)

variable {B : β → β → Prop}

/-- If the write at last keeps `B` as well, all of the step does. -/
theorem Closing.elim {b d : β} (h : Closing B b d)
    (write : ∀ a value c, B b c → B b (AddressSpace.write a value c).2) : B b d := by
  obtain ⟨c, hbc, rfl | ⟨a, value, rfl⟩⟩ := h
  · exact hbc
  · exact write a value c hbc

theorem Carries.closing {s t : System β} (h : Carries B s t) : Carries (Closing B) s t :=
  ⟨h.cycles, h.pending, h.origin, t.bus, h.bus, Or.inl rfl⟩

/-- The write at last is in the first action, and the second one leaves the bus alone. -/
theorem Routine.closingSeq {m : CpuM β α} {f : α → CpuM β γ}
    (hm : Relates (Carries (Closing B)) m) (hf : ∀ a, Relates (Carries Eq) (f a)) :
    Relates (Carries (Closing B)) (m >>= f) :=
  hm.seq hf (Carries.refl fun _ => rfl) (Carries.comp fun _ _ _ h e => e ▸ h)

namespace Routine

/-- Nothing need be known of the bus. -/
theorem anything : Routine fun _ _ : β => True where
  refl _ := trivial
  trans _ _ := trivial
  read _ _ := trivial
  push _ _ _ := trivial

variable (hB : Routine B)

include hB

theorem closing (b : β) : Closing B b b := ⟨b, hB.refl b, Or.inl rfl⟩

theorem seq {m : CpuM β α} {f : α → CpuM β γ} (hm : Relates (Carries B) m)
    (hf : ∀ a, Relates (Carries B) (f a)) : Relates (Carries B) (m >>= f) :=
  hm.seq hf (Carries.refl hB.refl) (Carries.comp fun _ _ _ => hB.trans)

/-- The write at last is in the second action. -/
theorem seqClosing {m : CpuM β α} {f : α → CpuM β γ} (hm : Relates (Carries B) m)
    (hf : ∀ a, Relates (Carries (Closing B)) (f a)) : Relates (Carries (Closing B)) (m >>= f) :=
  hm.seq hf (Carries.refl hB.closing) (Carries.comp fun _ _ _ h ⟨c, hc, hd⟩ =>
    ⟨c, hB.trans h hc, hd⟩)

/-! ## The processor alone -/

theorem pure (a : α) : Relates (Carries B) (Pure.pure a : CpuM β α) :=
  Carries.refl hB.refl

theorem cpu : Relates (Carries B) (cpu : CpuM β Cpu) :=
  Carries.refl hB.refl

/-- A change of the processor that leaves clock, latch and start of the instruction alone. -/
theorem update {f : Cpu → Cpu}
    (hf : ∀ c, (f c).cycles = c.cycles ∧ (f c).pending = c.pending ∧ (f c).origin = c.origin) :
    Relates (Carries B) (update f : CpuM β Unit) := by
  intro s
  obtain ⟨hc, hp, ho⟩ := hf s.cpu
  exact ⟨hc, hp, ho, hB.refl _⟩

theorem compute (f : Registers → Registers) : Relates (Carries B) (compute f : CpuM β Unit) :=
  hB.update fun _ => ⟨rfl, rfl, rfl⟩

theorem jump (target : UInt16) : Relates (Carries B) (jump target : CpuM β Unit) :=
  hB.update fun _ => ⟨rfl, rfl, rfl⟩

/-! ## Accesses -/

theorem readByte (a : UInt16) : Relates (Carries B) (readByte a : CpuM β UInt8) := by
  intro s
  rw [left_readByte]
  exact ⟨rfl, rfl, rfl, hB.read a _⟩

theorem readClosed : ReadClosed fun _ (m _ : CpuM β _) => Relates (Carries B) m where
  pure := hB.pure
  seq := hB.seq
  cpu := hB.cpu
  readByte := hB.readByte
  goto _ := hB.update fun _ => ⟨rfl, rfl, rfl⟩
  flags _ := hB.update fun _ => ⟨rfl, rfl, rfl⟩

theorem pushByte (value : UInt8) : Relates (Carries B) (CpuM.push value : CpuM β Unit) := by
  refine hB.seq hB.cpu fun c => hB.seq (fun s => ?_) fun _ => hB.update fun _ => ⟨rfl, rfl, rfl⟩
  rw [left_writeByte]
  exact ⟨rfl, rfl, rfl, hB.push _ _ _⟩

theorem pushWord (w : UInt16) : Relates (Carries B) (pushWord w : CpuM β Unit) :=
  hB.seq (hB.pushByte _) fun _ => hB.pushByte _

theorem pull : Relates (Carries B) (CpuM.pull : CpuM β UInt8) :=
  hB.seq (hB.update fun _ => ⟨rfl, rfl, rfl⟩) fun _ => hB.seq hB.cpu fun _ => hB.readByte _

theorem pullWord : Relates (Carries B) (pullWord : CpuM β UInt16) :=
  hB.seq hB.pull fun _ => hB.seq hB.pull fun _ => hB.pure _

/-- This is the write at last. -/
theorem store (operand : Operand) (value : UInt8) :
    Relates (Carries (Closing B)) (operand.store value : CpuM β Unit) := by
  intro s
  cases operand with
  | implied => exact Carries.refl hB.closing s
  | accumulator => exact ⟨rfl, rfl, rfl, hB.closing _⟩
  | address a =>
    show Carries (Closing B) s (left (writeByte a value) s)
    rw [left_writeByte]
    exact ⟨rfl, rfl, rfl, s.bus, hB.refl _, Or.inr ⟨a, value, rfl⟩⟩

/-! ## Instructions and requests -/

/-- Only `store` and `modify` write to their operand, and nothing follows but computation. -/
theorem run (operand : Operand) (action : Action) :
    Relates (Carries (Closing B)) (action.run operand : CpuM β Nat) := by
  have routine {m : CpuM β Nat} (h : Relates (Carries B) m) : Relates (Carries (Closing B)) m :=
    fun s => (h s).closing
  cases action with
  | load use =>
    exact routine (hB.seq (hB.readClosed.load operand) fun _ => hB.seq (hB.compute _) fun _ =>
      hB.pure _)
  | store value =>
    exact hB.seqClosing hB.cpu fun _ => closingSeq (hB.store operand _) fun _ =>
      Carries.refl fun _ => rfl
  | modify change use =>
    exact hB.seqClosing (hB.readClosed.load operand) fun _ => hB.seqClosing hB.cpu fun _ =>
      hB.seqClosing (hB.update fun _ => ⟨rfl, rfl, rfl⟩) fun _ =>
      closingSeq (hB.store operand _) fun _ _ => ⟨rfl, rfl, rfl, rfl⟩
  | adjust f => exact routine (hB.seq (hB.compute f) fun _ => hB.pure _)
  | branch taken =>
    refine routine (hB.seq hB.cpu fun c => ?_)
    split
    · exact hB.seq (hB.jump _) fun _ => hB.pure _
    · exact hB.pure _
  | jump => exact routine (hB.seq (hB.jump _) fun _ => hB.pure _)
  | call =>
    exact routine (hB.seq hB.cpu fun _ => hB.seq (hB.pushWord _) fun _ => hB.seq (hB.jump _)
      fun _ => hB.pure _)
  | ret => exact routine (hB.seq hB.pullWord fun _ => hB.seq (hB.jump _) fun _ => hB.pure _)
  | retInterrupt =>
    exact routine (hB.seq hB.pull fun _ => hB.seq (hB.compute _) fun _ => hB.seq hB.pullWord
      fun _ => hB.seq (hB.jump _) fun _ => hB.pure _)
  | trap =>
    exact routine (hB.seq hB.cpu fun _ => hB.seq (hB.pushWord _) fun _ => hB.seq (hB.pushByte _)
      fun _ => hB.seq (hB.readClosed.enterHandler _) fun _ => hB.pure _)
  | push value =>
    exact routine (hB.seq hB.cpu fun _ => hB.seq (hB.pushByte _) fun _ => hB.pure _)
  | pull use => exact routine (hB.seq hB.pull fun _ => hB.seq (hB.compute _) fun _ => hB.pure _)

theorem serve (request : Interrupt) : Relates (Carries B) (serve request : CpuM β Unit) := by
  cases request with
  | reset => exact hB.seq (hB.update fun _ => ⟨rfl, rfl, rfl⟩) fun _ => hB.readClosed.enterHandler _
  | nmi | irq =>
    exact hB.seq hB.cpu fun _ => hB.seq (hB.pushWord _) fun _ => hB.seq (hB.pushByte _) fun _ =>
      hB.readClosed.enterHandler _

theorem fetchInstruction : Relates (Carries B) (fetchInstruction : CpuM β Instruction) := by
  refine hB.seq hB.cpu fun c => hB.seq (hB.readByte _) fun opcode => ?_
  split
  · exact hB.pure _
  · exact Carries.refl hB.refl

theorem execute (i : Instruction) : Relates (Carries (Closing B)) (execute i : CpuM β Nat) :=
  hB.seqClosing (hB.update fun _ => ⟨rfl, rfl, rfl⟩) fun _ =>
    hB.seqClosing (hB.readClosed.resolve _) fun _ => closingSeq (hB.run _ _) fun _ =>
      Carries.refl fun _ => rfl

theorem work (request : Option Interrupt) :
    Relates (Carries (Closing B)) (work request : CpuM β Nat) := by
  cases request with
  | some request =>
    exact fun s => (hB.seq (hB.serve request) (fun _ => hB.pure _) s).closing
  | none => exact hB.seqClosing hB.fetchInstruction hB.execute

end Routine

/-! ## A step -/

/-- A successful step moves the clock by its cost and empties the latch of the request it
serves. -/
theorem step_of_ok (hB : Routine B) {s t : System β} {n : Nat} (h : step s = .ok n t) :
    t.cpu.cycles = s.cpu.cycles + n ∧ t.cpu.pending = (begun s.cpu).pending ∧
      Closing B s.bus t.bus := by
  obtain ⟨u, hu, rfl⟩ := step_eq_ok.1 h
  have hwork := hB.work s.cpu.served ⟨begun s.cpu, s.bus⟩
  rw [left_of_ok hu] at hwork
  exact ⟨congrArg (· + n) hwork.cycles, hwork.pending, hwork.bus⟩

/-- The clock advances by the cost. -/
theorem step_clock {s t : System β} {n : Nat} (h : step s = .ok n t) :
    t.cpu.cycles = s.cpu.cycles + n :=
  (step_of_ok .anything h).1

/-- However a step ends, it has treated the bus as a step does. -/
theorem left_step (hB : Routine B) (s : System β) : Closing B s.bus (left step s).bus := by
  have hleft : left step s = left (CpuM.work s.cpu.served >>= charge) ⟨begun s.cpu, s.bus⟩ := by
    unfold left
    rw [step_eq]
  rw [hleft]
  exact (hB.work s.cpu.served).seq (T := fun s t => t.bus = s.bus)
    (U := fun s t => Closing B s.bus t.bus) (fun _ _ => rfl) (fun _ => rfl)
    (fun _ _ _ h e => e ▸ h.bus) ⟨begun s.cpu, s.bus⟩

end Famicom.CpuM
