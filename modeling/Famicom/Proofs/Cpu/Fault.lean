import Famicom.Board
import Famicom.Proofs.Cpu.FaultFree
import Famicom.Proofs.Cpu.Recording

/-!
# Where a step breaks off

A step that faults stops in the middle of its accesses. Up to there it has only passed through
accesses that were answered (`Passes`) : flags, program counter and stack pointer may have moved,
but A, X, Y and the clock have not, and what was stored was pushed on the stack (`Pushed`). The
access that is refused is the last one, and the report names it and the start of the step
(`Breaks`).

The reason is an order that all actions keep. Whatever changes A, X or Y, or writes to the
operand, comes after all other accesses, and nothing that follows the write can be refused. So an
action is a cautious part (`Cautious`), of which all this holds wherever it is left, followed by a
part that cannot fail; `Stops` is what is left of `Cautious` for the two together.

An instruction that pushes leaves the stack pointer to its pushes, and one that pulls moves it
without storing. Both are ways to use the stack (`StackUse`), and the walk over the actions is the
same for the two until the stack is reached. `step_error_cases` states the two ways in which a
step ends with a fault, at a byte that is no opcode and at a refused access.
-/

namespace Famicom

variable {β : Type}

/-! ## Refused accesses and stored bytes -/

/-- The fault of an outcome. -/
def refused {α : Type} : Except BusFault α → Option BusFault
  | .ok _ => none
  | .error fault => some fault

namespace BusCycle

/-- The fault with which devices refuse the access of a cycle, if they do. -/
def refusal [AddressSpace β] (b : β) : BusCycle → Option BusFault
  | read a _ => refused (AddressSpace.read a b).1
  | write a value _ => refused (AddressSpace.write a value b).1

/-- Where the cycle stored a byte, if it did. -/
def stored : BusCycle → Option UInt16
  | write a _ true => some a
  | _ => none

theorem stored_of_faulted {x : BusCycle} (h : x.faulted) : x.stored = none := by
  cases x with
  | read => rfl
  | write a value answered =>
    cases answered with
    | false => rfl
    | true => cases h

end BusCycle

/-- The addresses at which a byte was stored, in order. -/
def storedAt (cycles : List BusCycle) : List UInt16 := cycles.filterMap BusCycle.stored

/-- What of the processor stands until the last access of a step is answered. -/
def Cpu.lasting (c : Cpu) : UInt8 × UInt8 × UInt8 × Nat × Option Interrupt × UInt16 :=
  (c.a, c.x, c.y, c.cycles, c.pending, c.origin)

namespace CpuM

/-! ## Uses of the stack -/

/-- Bytes were pushed to these cells, one after the other, and took the stack pointer from one
value to the other. -/
inductive Pushed : UInt8 → List UInt16 → UInt8 → Prop where
  | nil (sp : UInt8) : Pushed sp [] sp
  | cons {sp final : UInt8} {cells : List UInt16} (rest : Pushed (sp - 1) cells final) :
      Pushed sp (stackAddress sp :: cells) final

theorem Pushed.append {p q r : UInt8} {cells more : List UInt16} (h : Pushed p cells q)
    (h' : Pushed q more r) : Pushed p (cells ++ more) r := by
  induction h with
  | nil => exact h'
  | cons _ ih => exact .cons (ih h')

theorem Pushed.final_eq {sp final : UInt8} {cells : List UInt16} (h : Pushed sp cells final) :
    final = sp - .ofNat cells.length := by
  induction h with
  | nil => simp
  | cons _ ih =>
    rw [ih, List.length_cons, UInt8.ofNat_add]
    grind

/-- Nothing was stored, wherever the stack pointer went. -/
def Unpushed (_ : UInt8) (cells : List UInt16) (_ : UInt8) : Prop := cells = []

/-- A way in which stored bytes and a moving stack pointer go together : nothing but pushes is
stored. -/
structure StackUse (U : UInt8 → List UInt16 → UInt8 → Prop) : Prop where
  refl : ∀ sp, U sp [] sp
  append : ∀ {p q r cells more}, U p cells q → U q more r → U p (cells ++ more) r
  pushed : ∀ {p q cells}, U p cells q → ∃ final, Pushed p cells final ∧ (cells ≠ [] → q = final)

theorem stackUse_pushed : StackUse Pushed where
  refl := .nil
  append h h' := h.append h'
  pushed h := ⟨_, h, fun _ => rfl⟩

theorem stackUse_unpushed : StackUse Unpushed where
  refl _ := rfl
  append h h' := by rw [Unpushed, h, h', List.append_nil]
  pushed h := by
    cases h
    exact ⟨_, .nil _, fun hne => absurd rfl hne⟩

variable {α γ : Type} {U : UInt8 → List UInt16 → UInt8 → Prop}

/-! ## Passing and breaking off -/

variable [AddressSpace β]

/-- From `s` to `t` the accesses in `log` were made and answered. -/
structure Passes (U : UInt8 → List UInt16 → UInt8 → Prop) (log : List BusCycle)
    (s t : System (Recorded β)) : Prop where
  lasting : t.cpu.lasting = s.cpu.lasting
  cycles : t.bus.cycles = s.bus.cycles ++ log
  bus : t.bus.bus = log.foldl BusCycle.replay s.bus.bus
  answered : ∀ x ∈ log, x.faulted = false
  stack : U s.cpu.sp (storedAt log) t.cpu.sp

/-- From `s` on accesses were made and answered until one was refused. That was the last one,
and its fault and the start of the instruction are what `e` reports. -/
def Breaks (U : UInt8 → List UInt16 → UInt8 → Prop) (s : System (Recorded β)) (e : CpuFault)
    (t : System (Recorded β)) : Prop :=
  ∃ log last fault u, Passes U log s u ∧ last.faulted ∧ last.refusal u.bus.bus = some fault ∧
    e = .bus s.cpu.origin fault ∧
    t = ⟨u.cpu, ⟨last.replay u.bus.bus, u.bus.cycles ++ [last]⟩⟩

/-- An action that fails breaks off. -/
def Stops (U : UInt8 → List UInt16 → UInt8 → Prop) (m : CpuM (Recorded β) α) : Prop :=
  ∀ s e t, m s = .error e t → Breaks U s e t

/-- An action passes if it succeeds and breaks off if it fails. -/
structure Cautious (U : UInt8 → List UInt16 → UInt8 → Prop) (m : CpuM (Recorded β) α) : Prop where
  passes : ∀ s a t, m s = .ok a t → ∃ log, Passes U log s t
  stops : Stops U m

omit [AddressSpace β] in
theorem Succeeds.not_error {m : CpuM β α} (h : Succeeds m) {s t : System β} {e : CpuFault} :
    m s ≠ .error e t := by
  obtain ⟨a, u, hok⟩ := h s
  rw [hok]
  exact fun heq => by cases heq

theorem readByte_recorded {a : UInt16} {value : UInt8} {s t : System (Recorded β)}
    (h : readByte a s = .ok value t) : ∃ d, AddressSpace.read a s.bus.bus = (.ok value, d) ∧
      t = ⟨s.cpu, ⟨d, s.bus.cycles ++ [.read a true]⟩⟩ := by
  obtain ⟨c, b, cycles⟩ := s
  rcases hbus : AddressSpace.read a b with ⟨_ | v, d⟩ <;>
    simp only [CpuM.readByte, AddressSpace.read, hbus] at h <;> cases h
  exact ⟨d, rfl, rfl⟩

/-- Nothing follows that could be refused. -/
theorem Stops.seq {m : CpuM (Recorded β) α} {f : α → CpuM (Recorded β) γ} (hm : Stops U m)
    (hf : ∀ a, Succeeds (f a)) : Stops U (m >>= f) := by
  intro s e t h
  rcases bind_eq_error.1 h with h | ⟨a, u, -, h⟩
  · exact hm s e t h
  · exact absurd h (hf a).not_error

/-- A change of flags, program counter and stack pointer. -/
theorem Cautious.update {f : Cpu → Cpu}
    (hf : ∀ c : Cpu, (f c).lasting = c.lasting ∧ U c.sp [] (f c).sp) :
    Cautious U (update f : CpuM (Recorded β) Unit) where
  passes s _ t h := by
    obtain rfl := update_eq_ok.1 h
    exact ⟨[], (hf _).1, (List.append_nil _).symm, rfl, List.forall_mem_nil _, (hf _).2⟩
  stops s e t h := absurd h (Succeeds.update f).not_error

namespace StackUse

variable (hU : StackUse U)

include hU

theorem nothing (s : System (Recorded β)) : Passes U [] s s :=
  ⟨rfl, (List.append_nil _).symm, rfl, List.forall_mem_nil _, hU.refl _⟩

theorem trans {log more : List BusCycle} {s t u : System (Recorded β)} (h : Passes U log s t)
    (h' : Passes U more t u) : Passes U (log ++ more) s u where
  lasting := h'.lasting.trans h.lasting
  cycles := by rw [h'.cycles, h.cycles, List.append_assoc]
  bus := by rw [h'.bus, h.bus, List.foldl_append]
  answered x hx := (List.mem_append.1 hx).elim (h.answered x) (h'.answered x)
  stack := by
    rw [storedAt, List.filterMap_append]
    exact hU.append h.stack h'.stack

/-- What comes before is part of the recording. -/
theorem breaks {log : List BusCycle} {s t u : System (Recorded β)} {e : CpuFault}
    (h : Passes U log s t) (h' : Breaks U t e u) : Breaks U s e u := by
  obtain ⟨more, last, fault, v, hmore, hlast, hfault, rfl, rfl⟩ := h'
  have horigin : t.cpu.origin = s.cpu.origin := congrArg (·.2.2.2.2.2) h.lasting
  exact ⟨log ++ more, last, fault, v, hU.trans h hmore, hlast, hfault, by rw [horigin], rfl⟩

/-- The cautious part comes first. -/
theorem seqStops {m : CpuM (Recorded β) α} {f : α → CpuM (Recorded β) γ} (hm : Cautious U m)
    (hf : ∀ a, Stops U (f a)) : Stops U (m >>= f) := by
  intro s e u h
  rcases bind_eq_error.1 h with h | ⟨a, t, hok, h⟩
  · exact hm.stops s e u h
  · obtain ⟨log, hpass⟩ := hm.passes s a t hok
    exact hU.breaks hpass (hf a t e u h)

theorem seq {m : CpuM (Recorded β) α} {f : α → CpuM (Recorded β) γ} (hm : Cautious U m)
    (hf : ∀ a, Cautious U (f a)) : Cautious U (m >>= f) where
  passes s c u h := by
    obtain ⟨a, t, hok, h⟩ := bind_eq_ok.1 h
    obtain ⟨log, hpass⟩ := hm.passes s a t hok
    obtain ⟨more, hmore⟩ := (hf a).passes t c u h
    exact ⟨log ++ more, hU.trans hpass hmore⟩
  stops := hU.seqStops hm fun a => (hf a).stops

/-! ## The processor alone -/

theorem pure (a : α) : Cautious U (Pure.pure a : CpuM (Recorded β) α) where
  passes s b t h := by
    obtain ⟨-, rfl⟩ := pure_eq_ok.1 h
    exact ⟨[], hU.nothing _⟩
  stops s e t h := absurd h (Succeeds.pure a).not_error

theorem cpu : Cautious U (cpu : CpuM (Recorded β) Cpu) where
  passes s c t h := by
    obtain ⟨-, rfl⟩ := cpu_eq_ok.1 h
    exact ⟨[], hU.nothing _⟩
  stops s e t h := absurd h Succeeds.cpu.not_error

/-! ## Accesses -/

theorem readByte (a : UInt16) : Cautious U (readByte a : CpuM (Recorded β) UInt8) where
  passes := by
    rintro ⟨c, r⟩ value t h
    obtain ⟨d, hbus, rfl⟩ := readByte_recorded h
    refine ⟨[.read a true], rfl, rfl, ?_, List.forall_mem_singleton.2 rfl, hU.refl _⟩
    simp [BusCycle.replay, hbus]
  stops := by
    rintro ⟨c, b, cycles⟩ e t h
    rcases hbus : AddressSpace.read a b with ⟨fault | v, d⟩ <;>
      simp only [CpuM.readByte, AddressSpace.read, hbus] at h <;> cases h
    refine ⟨[], .read a false, fault, _, hU.nothing _, rfl, ?_, rfl, ?_⟩
    · simp [BusCycle.refusal, refused, hbus]
    · simp [BusCycle.replay, answered, hbus]

theorem readClosed : ReadClosed fun _ (m _ : CpuM (Recorded β) _) => Cautious U m where
  pure := hU.pure
  seq := hU.seq
  cpu := hU.cpu
  readByte := hU.readByte
  goto _ := Cautious.update fun _ => ⟨rfl, hU.refl _⟩
  flags _ := Cautious.update fun _ => ⟨rfl, hU.refl _⟩

theorem writeByte_stops (a : UInt16) (value : UInt8) :
    Stops U (writeByte a value : CpuM (Recorded β) Unit) := by
  rintro ⟨c, b, cycles⟩ e t h
  rcases hbus : AddressSpace.write a value b with ⟨fault | _, d⟩ <;>
    simp only [CpuM.writeByte, AddressSpace.write, hbus] at h <;> cases h
  refine ⟨[], .write a value false, fault, _, hU.nothing _, rfl, ?_, rfl, ?_⟩
  · simp [BusCycle.refusal, refused, hbus]
  · simp [BusCycle.replay, answered, hbus]

/-- Where the operand is no cell of the memory nothing can be refused. -/
theorem store (operand : Operand) (value : UInt8) :
    Stops U (operand.store value : CpuM (Recorded β) Unit) := by
  cases operand with
  | implied => exact (hU.pure ()).stops
  | accumulator =>
    rintro ⟨c, r⟩ e t h
    cases h
  | address a => exact hU.writeByte_stops a value

end StackUse

/-! ## The stack -/

theorem push_cautious (value : UInt8) :
    Cautious Pushed (CpuM.push value : CpuM (Recorded β) Unit) where
  passes := by
    rintro ⟨c, b, cycles⟩ _ t h
    simp only [CpuM.push, cpu_bind, bind_eq_ok, writeByte_eq_ok, update_eq_ok] at h
    obtain ⟨_, ⟨c', r⟩, ⟨hwrite, hcpu⟩, rfl⟩ := h
    obtain rfl : c' = c := hcpu
    rcases hbus : AddressSpace.write (stackAddress c'.sp) value b with ⟨_ | v, d⟩ <;>
      simp only [AddressSpace.write, hbus] at hwrite <;> cases hwrite
    refine ⟨[.write (stackAddress c'.sp) value true], rfl, rfl, ?_,
      List.forall_mem_singleton.2 rfl, .cons (.nil _)⟩
    simp [BusCycle.replay, hbus]
  stops := stackUse_pushed.seqStops stackUse_pushed.cpu fun _ =>
    Stops.seq (stackUse_pushed.writeByte_stops _ _) fun _ => Succeeds.update _

theorem pushWord_cautious (w : UInt16) :
    Cautious Pushed (pushWord w : CpuM (Recorded β) Unit) :=
  stackUse_pushed.seq (push_cautious _) fun _ => push_cautious _

theorem pull_cautious : Cautious Unpushed (CpuM.pull : CpuM (Recorded β) UInt8) :=
  stackUse_unpushed.seq (Cautious.update fun _ => ⟨rfl, rfl⟩) fun _ =>
    stackUse_unpushed.seq stackUse_unpushed.cpu fun _ => stackUse_unpushed.readByte _

theorem pullWord_cautious : Cautious Unpushed (pullWord : CpuM (Recorded β) UInt16) :=
  stackUse_unpushed.seq pull_cautious fun _ => stackUse_unpushed.seq pull_cautious fun _ =>
    stackUse_unpushed.pure _

/-! ## Instructions and requests -/

theorem Stops.of_succeeds {m : CpuM (Recorded β) α} (h : Succeeds m) : Stops U m :=
  fun _ _ _ herror => absurd herror h.not_error

/-- The last access of an action is followed by computation alone. -/
theorem run_stops (action : Action) : ∃ U, StackUse U ∧
    ∀ operand, Stops U (action.run operand : CpuM (Recorded β) Nat) := by
  have hpush := stackUse_pushed
  have hpull := stackUse_unpushed
  have finish (f : Cpu → Cpu) : Succeeds (do update f; return 0 : CpuM (Recorded β) Nat) :=
    (Succeeds.update f).seq fun _ => .pure _
  cases action with
  | load use =>
    exact ⟨Pushed, hpush, fun operand =>
      (hpush.readClosed.load operand).stops.seq fun _ => finish _⟩
  | store value =>
    exact ⟨Pushed, hpush, fun operand => hpush.seqStops hpush.cpu fun _ =>
      (hpush.store operand _).seq fun _ => .pure _⟩
  | modify change use =>
    exact ⟨Pushed, hpush, fun operand => hpush.seqStops (hpush.readClosed.load operand) fun _ =>
      hpush.seqStops hpush.cpu fun _ =>
      hpush.seqStops (Cautious.update fun _ => ⟨rfl, .nil _⟩) fun _ =>
      (hpush.store operand _).seq fun _ => finish _⟩
  | adjust f => exact ⟨Pushed, hpush, fun _ => .of_succeeds (finish _)⟩
  | branch taken =>
    refine ⟨Pushed, hpush, fun _ => .of_succeeds (Succeeds.cpu.seq fun c => ?_)⟩
    split
    · exact (Succeeds.update _).seq fun _ => .pure _
    · exact .pure _
  | jump => exact ⟨Pushed, hpush, fun _ => .of_succeeds (finish _)⟩
  | call =>
    exact ⟨Pushed, hpush, fun _ => hpush.seqStops hpush.cpu fun _ =>
      (pushWord_cautious _).stops.seq fun _ => finish _⟩
  | ret => exact ⟨Unpushed, hpull, fun _ => pullWord_cautious.stops.seq fun _ => finish _⟩
  | retInterrupt =>
    exact ⟨Unpushed, hpull, fun _ => hpull.seqStops pull_cautious fun _ =>
      hpull.seqStops (hpull.readClosed.flags _) fun _ => pullWord_cautious.stops.seq fun _ =>
      finish _⟩
  | trap =>
    exact ⟨Pushed, hpush, fun _ => hpush.seqStops hpush.cpu fun _ =>
      hpush.seqStops (pushWord_cautious _) fun _ => hpush.seqStops (push_cautious _) fun _ =>
      (hpush.readClosed.enterHandler _).stops.seq fun _ => .pure _⟩
  | push value =>
    exact ⟨Pushed, hpush, fun _ => hpush.seqStops hpush.cpu fun _ =>
      (push_cautious _).stops.seq fun _ => .pure _⟩
  | pull use => exact ⟨Unpushed, hpull, fun _ => pull_cautious.stops.seq fun _ => finish _⟩

theorem execute_stops (i : Instruction) : ∃ U, StackUse U ∧
    Stops U (execute i : CpuM (Recorded β) Nat) := by
  obtain ⟨U, hU, hrun⟩ := run_stops (β := β) i.mnemonic.action
  exact ⟨U, hU, hU.seqStops (Cautious.update fun _ => ⟨rfl, hU.refl _⟩) fun _ =>
    hU.seqStops (hU.readClosed.resolve _) fun _ => (hrun _).seq fun _ => .pure _⟩

theorem serve_stops (request : Interrupt) : ∃ U, StackUse U ∧
    Stops U (serve request : CpuM (Recorded β) Unit) := by
  have hpush := stackUse_pushed
  have hpull := stackUse_unpushed
  cases request with
  | reset =>
    exact ⟨Unpushed, hpull, hpull.seqStops (Cautious.update fun _ => ⟨rfl, rfl⟩) fun _ =>
      (hpull.readClosed.enterHandler _).stops⟩
  | nmi | irq =>
    exact ⟨Pushed, hpush, hpush.seqStops hpush.cpu fun _ =>
      hpush.seqStops (pushWord_cautious _) fun _ => hpush.seqStops (push_cautious _) fun _ =>
      (hpush.readClosed.enterHandler _).stops⟩

theorem fetchInstruction_eq_error {e : CpuFault} {s t : System β} :
    fetchInstruction s = .error e t ↔ readByte s.cpu.pc s = .error e t ∨
      ∃ opcode, readByte s.cpu.pc s = .ok opcode t ∧ Instruction.decode? opcode = none ∧
        e = .unknownOpcode opcode s.cpu.origin := by
  rw [fetchInstruction, cpu_bind, bind_eq_error]
  refine or_congr_right (exists_congr fun opcode => ?_)
  cases hdecode : Instruction.decode? opcode with
  | some i => simp [Pure.pure, EStateM.pure]
  | none =>
    constructor
    · rintro ⟨u, hread, h⟩
      cases h
      exact ⟨hread, rfl, rfl⟩
    · rintro ⟨hread, -, rfl⟩
      exact ⟨t, hread, rfl⟩

theorem step_eq_error {e : CpuFault} {s t : System β} :
    step s = .error e t ↔ work s.cpu.served ⟨begun s.cpu, s.bus⟩ = .error e t := by
  rw [step_eq, bind_eq_error]
  refine or_iff_left ?_
  rintro ⟨n, u, -, h⟩
  have hcharge : Succeeds (charge n : CpuM β Nat) := (Succeeds.update _).seq fun _ => .pure _
  exact hcharge.not_error h

/-- A step that fails came upon a byte that is no opcode, or broke off at an access. -/
theorem step_error_cases {e : CpuFault} {s t : System β} (h : step s = .error e t) :
    (s.cpu.served = none ∧ accesses s = [.read s.cpu.pc true] ∧
      t.cpu = { s.cpu with origin := s.cpu.pc } ∧
      ∃ opcode, (AddressSpace.read s.cpu.pc s.bus).1 = .ok opcode ∧
        Instruction.decode? opcode = none ∧ e = .unknownOpcode opcode s.cpu.pc) ∨
    ∃ U u, StackUse U ∧ Breaks U ⟨begun s.cpu, ⟨s.bus, []⟩⟩ e u ∧ t.cpu = u.cpu ∧
      accesses s = u.bus.cycles := by
  rw [step_recorded] at h
  cases hstep : step (recorded s) with
  | ok n u =>
    rw [hstep] at h
    cases h
  | error e' u =>
    rw [hstep] at h
    cases h
    have haccesses : accesses s = u.bus.cycles := by rw [accesses, left_of_error hstep]
    have hwork := step_eq_error.1 hstep
    cases hserved : s.cpu.served with
    | some request =>
      rw [show (recorded s).cpu.served = some request from hserved] at hwork
      obtain ⟨U, hU, hserve⟩ := serve_stops (β := β) request
      exact Or.inr ⟨U, u, hU, (hserve.seq fun _ => .pure _) _ _ _ hwork, rfl, haccesses⟩
    | none =>
      rw [show (recorded s).cpu.served = none from hserved] at hwork
      rcases bind_eq_error.1 hwork with hfetch | ⟨i, v, hfetch, hexecute⟩
      · rcases fetchInstruction_eq_error.1 hfetch with hread | ⟨opcode, hread, hdecode, rfl⟩
        · exact Or.inr ⟨Pushed, u, stackUse_pushed,
            (stackUse_pushed.readByte _).stops _ _ _ hread, rfl, haccesses⟩
        · obtain ⟨d, hbus, rfl⟩ := readByte_recorded hread
          refine Or.inl ⟨rfl, haccesses, ?_, opcode, ?_, hdecode, rfl⟩
          · simp [System.map, recorded, begun, hserved]
          · exact congrArg Prod.fst hbus
      · obtain ⟨opcode, hread, -⟩ := fetchInstruction_eq_ok.1 hfetch
        obtain ⟨U, hU, hexecutes⟩ := execute_stops (β := β) i
        obtain ⟨log, hpass⟩ := (hU.readByte _).passes _ _ _ hread
        exact Or.inr ⟨U, u, hU, hU.breaks hpass (hexecutes _ _ _ hexecute), rfl, haccesses⟩

/-- Where a step fails the registers, the clock and the latch are those with which it began. -/
theorem step_error_lasting {e : CpuFault} {s t : System β} (h : step s = .error e t) :
    t.cpu.lasting = (begun s.cpu).lasting := by
  rcases step_error_cases h with ⟨hserved, -, hcpu, -⟩ |
    ⟨U, u, -, ⟨log, last, fault, v, hpass, -, -, -, rfl⟩, hcpu, -⟩
  · simp [hcpu, Cpu.lasting, begun, hserved]
  · rw [hcpu]
    exact hpass.lasting

/-- Where a step fails nothing was stored but what it pushed. -/
theorem step_error_pushed {e : CpuFault} {s t : System β} (h : step s = .error e t) :
    ∃ sp, Pushed s.cpu.sp (storedAt (accesses s)) sp ∧
      (storedAt (accesses s) ≠ [] → t.cpu.sp = sp) := by
  rcases step_error_cases h with ⟨-, haccesses, -, -⟩ |
    ⟨U, u, hU, ⟨log, last, fault, v, hpass, hlast, -, -, rfl⟩, hcpu, haccesses⟩
  · rw [haccesses]
    exact ⟨_, .nil _, fun hne => absurd rfl hne⟩
  · have hstored : storedAt (accesses s) = storedAt log := by
      rw [haccesses, hpass.cycles]
      simp [storedAt, BusCycle.stored_of_faulted hlast]
    rw [hcpu, hstored]
    exact hU.pushed hpass.stack

/-- What a step that fails has done, and what it reports. -/
theorem step_fault_report (s : System β) :
    (∀ e t, step s = .error e t →
      t.cpu.a = s.cpu.a ∧ t.cpu.x = s.cpu.x ∧ t.cpu.y = s.cpu.y ∧ t.cpu.cycles = s.cpu.cycles ∧
      t.cpu.pending = (if s.cpu.served.isSome then none else s.cpu.pending) ∧
      ∃ sp, Pushed s.cpu.sp (storedAt (accesses s)) sp ∧
        (storedAt (accesses s) ≠ [] → t.cpu.sp = sp)) ∧
    (∀ pc fault t, step s = .error (.bus pc fault) t → pc = s.cpu.pc ∧
      ∃ log last, accesses s = log ++ [last] ∧ (∀ x ∈ log, x.faulted = false) ∧ last.faulted ∧
        last.refusal (log.foldl BusCycle.replay s.bus) = some fault) ∧
    (∀ opcode pc, (∃ t, step s = .error (.unknownOpcode opcode pc) t) ↔
      s.cpu.served = none ∧ (AddressSpace.read s.cpu.pc s.bus).1 = .ok opcode ∧
        Instruction.decode? opcode = none ∧ pc = s.cpu.pc) ∧
    ∀ opcode pc t, step s = .error (.unknownOpcode opcode pc) t →
      accesses s = [.read s.cpu.pc true] ∧ t.cpu = { s.cpu with origin := s.cpu.pc } := by
  refine ⟨fun e t h => ?_, fun pc fault t h => ?_, fun opcode pc => ⟨?_, ?_⟩,
    fun opcode pc t h => ?_⟩
  · have hlasting := step_error_lasting h
    simp only [Cpu.lasting, Prod.mk.injEq] at hlasting
    obtain ⟨ha, hx, hy, hcycles, hpending, -⟩ := hlasting
    exact ⟨ha, hx, hy, hcycles, hpending, step_error_pushed h⟩
  · rcases step_error_cases h with ⟨-, -, -, opcode, -, -, he⟩ |
      ⟨U, u, hU, ⟨log, last, fault', v, hpass, hlast, hfault, he, rfl⟩, -, haccesses⟩
    · cases he
    · obtain ⟨rfl, rfl⟩ := CpuFault.bus.inj he
      refine ⟨rfl, log, last, ?_, hpass.answered, hlast, ?_⟩
      · rw [haccesses, hpass.cycles]
        rfl
      · rw [← hfault, hpass.bus]
  · rintro ⟨t, h⟩
    rcases step_error_cases h with ⟨hserved, -, -, opcode', hread, hdecode, he⟩ |
      ⟨U, u, -, ⟨_, _, _, _, -, -, -, he, -⟩, -⟩
    · obtain ⟨rfl, rfl⟩ := CpuFault.unknownOpcode.inj he
      exact ⟨hserved, hread, hdecode, rfl⟩
    · cases he
  · rintro ⟨hserved, hread, hdecode, rfl⟩
    exact step_unknownOpcode hserved hread hdecode
  · rcases step_error_cases h with ⟨-, haccesses, hcpu, -⟩ |
      ⟨U, u, -, ⟨_, _, _, _, -, -, -, he, -⟩, -⟩
    · exact ⟨haccesses, hcpu⟩
    · cases he

/-- An entry into the handler of `BRK` that finds no vector. -/
theorem step_fault_report_missing_vector :
    let s : System Board := ⟨Cpu.initial, Board.initial⟩
    ∃ t, step s = .error (.bus 0x0000 ⟨.read, 0xFFFE⟩) t ∧ t.cpu.a = 0 ∧ t.cpu.cycles = 0 ∧
      t.cpu.sp = 0xFD ∧ storedAt (accesses s) = [0x0100, 0x01FF, 0x01FE] := by
  intro s
  have hstep : ∃ t, step s = .error (.bus 0x0000 ⟨.read, 0xFFFE⟩) t := ⟨_, rfl⟩
  have hstored : storedAt (accesses s) = [0x0100, 0x01FF, 0x01FE] := by decide +kernel
  obtain ⟨t, h⟩ := hstep
  obtain ⟨ha, -, -, hcycles, -, sp, hpushed, hsp⟩ := (step_fault_report s).1 _ t h
  rw [hstored] at hpushed hsp
  exact ⟨t, h, ha, hcycles, (hsp (by simp)).trans hpushed.final_eq, hstored⟩

end CpuM

end Famicom
