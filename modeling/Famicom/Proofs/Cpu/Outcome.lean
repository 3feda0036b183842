import Famicom.Cpu.Step

/-!
# How actions end

An action of the processor ends with an answer or with a fault, and either way leaves a
system behind (`left`). The `_eq_ok` lemmas take a successful action apart : one for
each action that is not made of others, and `bind_eq_ok` for the rest. `run_performed` does so
for the operations of instructions, one case for each kind (`Performed`). `step_eq` is a
step past its beginning, when the request it serves has left the latch.

`run_cycles` is what an action adds to the cost of its instruction. `two_le_step` and `step_le`
bound the cycles of a step. The upper bound takes every table entry for the dearest one, a crossed
page and a taken branch included.
-/

namespace Famicom.CpuM

variable {α γ β : Type}

/-! ## Outcomes -/

/-- The system that an action leaves behind, be it with an answer or with a fault. -/
def left (m : CpuM β α) (s : System β) : System β :=
  match m s with
  | .ok _ t | .error _ t => t

theorem left_of_ok {m : CpuM β α} {s t : System β} {a : α} (h : m s = .ok a t) : left m s = t := by
  rw [left, h]

theorem left_of_error {m : CpuM β α} {s t : System β} {e : CpuFault} (h : m s = .error e t) :
    left m s = t := by
  rw [left, h]

theorem bind_of_ok {m : CpuM β α} {s t : System β} {a : α} (h : m s = .ok a t)
    (f : α → CpuM β γ) : (m >>= f) s = f a t := by
  show EStateM.bind m f s = _
  simp only [EStateM.bind, h]

theorem bind_of_error {m : CpuM β α} {s t : System β} {e : CpuFault} (h : m s = .error e t)
    (f : α → CpuM β γ) : (m >>= f) s = .error e t := by
  show EStateM.bind m f s = _
  simp only [EStateM.bind, h]

theorem bind_eq_ok {m : CpuM β α} {f : α → CpuM β γ} {s u : System β} {c : γ} :
    (m >>= f) s = .ok c u ↔ ∃ a t, m s = .ok a t ∧ f a t = .ok c u := by
  cases hm : m s with
  | ok a t =>
    rw [bind_of_ok hm]
    constructor
    · exact fun h => ⟨a, t, rfl, h⟩
    · rintro ⟨_, _, h, hf⟩
      cases h
      exact hf
  | error e t =>
    show EStateM.bind m f s = _ ↔ _
    simp [EStateM.bind, hm]

theorem bind_eq_error {m : CpuM β α} {f : α → CpuM β γ} {s u : System β} {e : CpuFault} :
    (m >>= f) s = .error e u ↔ m s = .error e u ∨ ∃ a t, m s = .ok a t ∧ f a t = .error e u := by
  cases hm : m s with
  | ok a t =>
    rw [bind_of_ok hm]
    constructor
    · exact fun h => Or.inr ⟨a, t, rfl, h⟩
    · rintro (h | ⟨_, _, h, hf⟩) <;> cases h
      exact hf
  | error e' t => simp [bind_of_error hm]

theorem pure_eq_ok {a b : α} {s t : System β} :
    (pure a : CpuM β α) s = .ok b t ↔ b = a ∧ t = s := by
  show EStateM.Result.ok a s = _ ↔ _
  simp [eq_comm]

theorem cpu_eq_ok {c : Cpu} {s t : System β} : cpu s = .ok c t ↔ c = s.cpu ∧ t = s := by
  simp [cpu, eq_comm]

theorem update_eq_ok {f : Cpu → Cpu} {s t : System β} {u : Unit} :
    update f s = .ok u t ↔ t = ⟨f s.cpu, s.bus⟩ := by
  simp [update, eq_comm]

theorem cpu_bind (f : Cpu → CpuM β α) (s : System β) : (cpu >>= f) s = f s.cpu s := rfl

theorem update_bind (g : Cpu → Cpu) (f : Unit → CpuM β α) (s : System β) :
    (update g >>= f) s = f () ⟨g s.cpu, s.bus⟩ :=
  rfl

variable [AddressSpace β]

theorem readByte_eq_ok {a : UInt16} {value : UInt8} {s t : System β} :
    readByte a s = .ok value t ↔
      AddressSpace.read a s.bus = (.ok value, t.bus) ∧ t.cpu = s.cpu := by
  obtain ⟨c, b⟩ := s
  obtain ⟨c', b'⟩ := t
  simp only [readByte]
  rcases AddressSpace.read a b with ⟨_ | v, d⟩
  · simp
  · simp only [EStateM.Result.ok.injEq, System.mk.injEq, Prod.mk.injEq, Except.ok.injEq]
    grind

theorem writeByte_eq_ok {a : UInt16} {value : UInt8} {s t : System β} {u : Unit} :
    writeByte a value s = .ok u t ↔
      AddressSpace.write a value s.bus = (.ok (), t.bus) ∧ t.cpu = s.cpu := by
  obtain ⟨c, b⟩ := s
  obtain ⟨c', b'⟩ := t
  simp only [writeByte]
  rcases AddressSpace.write a value b with ⟨_ | v, d⟩
  · simp
  · simp [eq_comm, and_comm]

theorem left_readByte (a : UInt16) (s : System β) :
    left (readByte a) s = ⟨s.cpu, (AddressSpace.read a s.bus).2⟩ := by
  obtain ⟨c, b⟩ := s
  simp only [left, readByte]
  rcases AddressSpace.read a b with ⟨_ | _, _⟩ <;> rfl

theorem left_writeByte (a : UInt16) (value : UInt8) (s : System β) :
    left (writeByte a value) s = ⟨s.cpu, (AddressSpace.write a value s.bus).2⟩ := by
  obtain ⟨c, b⟩ := s
  simp only [left, writeByte]
  rcases AddressSpace.write a value b with ⟨_ | _, _⟩ <;> rfl

theorem push_eq_ok {value : UInt8} {s t : System β} {u : Unit} :
    push value s = .ok u t ↔
      AddressSpace.write (stackAddress s.cpu.sp) value s.bus = (.ok (), t.bus) ∧
        t.cpu = { s.cpu with sp := s.cpu.sp - 1 } := by
  simp only [push, cpu_bind, bind_eq_ok, writeByte_eq_ok, update_eq_ok]
  constructor
  · rintro ⟨_, v, ⟨hwrite, hcpu⟩, rfl⟩
    exact ⟨hwrite, by rw [hcpu]⟩
  · obtain ⟨c, b⟩ := t
    rintro ⟨hwrite, rfl⟩
    exact ⟨(), ⟨s.cpu, b⟩, ⟨hwrite, rfl⟩, rfl⟩

theorem enterHandler_eq_ok {request : Interrupt} {s t : System β} {u : Unit} :
    enterHandler request s = .ok u t ↔ ∃ lo hi v w,
      readByte request.vector ⟨{ s.cpu with status := s.cpu.status.masking }, s.bus⟩ = .ok lo v ∧
        readByte (request.vector + 1) v = .ok hi w ∧
        t = ⟨{ w.cpu with pc := word lo hi }, w.bus⟩ := by
  simp only [enterHandler, compute, jump, readWord, update_bind, bind_eq_ok, update_eq_ok,
    pure_eq_ok]
  constructor
  · rintro ⟨_, _, ⟨lo, v, hlo, hi, w, hhi, rfl, rfl⟩, rfl⟩
    exact ⟨lo, hi, v, _, hlo, hhi, rfl⟩
  · rintro ⟨lo, hi, v, w, hlo, hhi, rfl⟩
    exact ⟨_, _, ⟨lo, v, hlo, hi, w, hhi, rfl, rfl⟩, rfl⟩

/-! ## What an action has done -/

/-- How a successful action on a located operand leads from one system to another. -/
def Performed (operand : Operand) (s t : System β) : Action → Prop
  | .load use => ∃ value u, operand.load s = .ok value u ∧
      t = ⟨{ u.cpu with toRegisters := use u.cpu.toRegisters value }, u.bus⟩
  | .store value => operand.store (value s.cpu.toRegisters) s = .ok () t
  | .modify change use => ∃ old value status u v, operand.load s = .ok old u ∧
      change old u.cpu.status = (value, status) ∧
      operand.store value ⟨{ u.cpu with status }, u.bus⟩ = .ok () v ∧
      t = ⟨{ v.cpu with toRegisters := use v.cpu.toRegisters value }, v.bus⟩
  | .adjust f => t = ⟨{ s.cpu with toRegisters := f s.cpu.toRegisters }, s.bus⟩
  | .branch taken => t = if taken s.cpu.status then ⟨{ s.cpu with pc := operand.target }, s.bus⟩
      else s
  | .jump => t = ⟨{ s.cpu with pc := operand.target }, s.bus⟩
  | .call => ∃ u, pushWord (s.cpu.pc - 1) s = .ok () u ∧
      t = ⟨{ u.cpu with pc := operand.target }, u.bus⟩
  | .ret => ∃ w u, pullWord s = .ok w u ∧ t = ⟨{ u.cpu with pc := w + 1 }, u.bus⟩
  | .retInterrupt => ∃ value w u v, CpuM.pull s = .ok value u ∧
      pullWord ⟨{ u.cpu with status := .restored value }, u.bus⟩ = .ok w v ∧
      t = ⟨{ v.cpu with pc := w }, v.bus⟩
  | .trap => ∃ u v, pushWord (s.cpu.pc + 1) s = .ok () u ∧
      CpuM.push s.cpu.status.pushed.toByte u = .ok () v ∧ enterHandler .irq v = .ok () t
  | .push value => CpuM.push (value s.cpu.toRegisters) s = .ok () t
  | .pull use => ∃ value u, CpuM.pull s = .ok value u ∧
      t = ⟨{ u.cpu with toRegisters := use u.cpu.toRegisters value }, u.bus⟩

theorem run_performed {operand : Operand} {action : Action} {s t : System β} {n : Nat}
    (h : action.run operand s = .ok n t) : Performed operand s t action := by
  cases action with
  | load use | pull use =>
    simp only [Action.run, compute, bind_eq_ok, pure_eq_ok, update_bind] at h
    obtain ⟨value, u, hvalue, -, rfl⟩ := h
    exact ⟨value, u, hvalue, rfl⟩
  | store value | push value =>
    simp only [Action.run, cpu_bind, bind_eq_ok, pure_eq_ok] at h
    obtain ⟨⟨⟩, u, hwrite, -, rfl⟩ := h
    exact hwrite
  | modify change use =>
    simp only [Action.run, compute, cpu_bind, update_bind, bind_eq_ok, pure_eq_ok] at h
    obtain ⟨old, u, hload, ⟨⟩, v, hstore, -, rfl⟩ := h
    exact ⟨old, _, _, u, v, hload, rfl, hstore, rfl⟩
  | adjust f =>
    simp only [Action.run, compute, update_bind, pure_eq_ok] at h
    exact h.2
  | branch taken =>
    simp only [Action.run, jump, cpu_bind] at h
    split at h
    · exact (pure_eq_ok.1 h).2.trans (if_pos ‹_›).symm
    · exact (pure_eq_ok.1 h).2.trans (if_neg ‹_›).symm
  | jump =>
    simp only [Action.run, jump, update_bind, pure_eq_ok] at h
    exact h.2
  | call =>
    simp only [Action.run, jump, cpu_bind, bind_eq_ok, pure_eq_ok, update_bind] at h
    obtain ⟨⟨⟩, u, hpush, -, rfl⟩ := h
    exact ⟨u, hpush, rfl⟩
  | ret =>
    simp only [Action.run, jump, bind_eq_ok, pure_eq_ok, update_bind] at h
    obtain ⟨w, u, hpull, -, rfl⟩ := h
    exact ⟨w, u, hpull, rfl⟩
  | retInterrupt =>
    simp only [Action.run, jump, compute, update_bind, bind_eq_ok, pure_eq_ok] at h
    obtain ⟨value, u, hvalue, w, v, hword, -, rfl⟩ := h
    exact ⟨value, w, u, v, hvalue, hword, rfl⟩
  | trap =>
    simp only [Action.run, cpu_bind, bind_eq_ok, pure_eq_ok] at h
    obtain ⟨⟨⟩, u, hword, ⟨⟩, v, hpush, ⟨⟩, w, henter, -, rfl⟩ := h
    exact ⟨u, v, hword, hpush, henter⟩

/-! ## A step past its beginning -/

/-- A request changes the latch alone. -/
theorem raise_eq (c : Cpu) (request : Interrupt) :
    c.raise request = { c with pending := (c.raise request).pending } := by
  unfold Cpu.raise
  split
  · split <;> rfl
  · rfl

/-- The processor once it has noted where the step begins and taken the request it serves. -/
def begun (c : Cpu) : Cpu :=
  { c with origin := c.pc, pending := if c.served.isSome then none else c.pending }

omit [AddressSpace β] in
theorem takeRequest_eq (c : Cpu) (b : β) :
    takeRequest ⟨{ c with origin := c.pc }, b⟩ = .ok c.served ⟨begun c, b⟩ := by
  have h : Cpu.served { c with origin := c.pc } = c.served := rfl
  rw [takeRequest, bind_of_ok (cpu_eq_ok.2 ⟨rfl, rfl⟩), h]
  by_cases hs : c.served.isSome
  · rw [if_pos hs, bind_of_ok (a := ()) (update_eq_ok.2 rfl), begun, if_pos hs]
    exact pure_eq_ok.2 ⟨rfl, rfl⟩
  · rw [if_neg hs, begun, if_neg hs]
    exact pure_eq_ok.2 ⟨rfl, rfl⟩

/-- What a step does between its beginning and the charge at its end : it serves a request
or runs one instruction. The answer is the cost. -/
def work : Option Interrupt → CpuM β Nat
  | some request => do
    serve request
    return Interrupt.entryCycles
  | none => do execute (← fetchInstruction)

theorem step_eq (s : System β) :
    step s = (work s.cpu.served >>= charge) ⟨begun s.cpu, s.bus⟩ := by
  rw [step, bind_of_ok (m := beginStep) (a := ()) (update_eq_ok.2 rfl),
    bind_of_ok (takeRequest_eq _ _)]
  cases s.cpu.served <;> simp only [work, bind_assoc, pure_bind]

omit [AddressSpace β] in
theorem charge_eq_ok {cycles n : Nat} {s t : System β} :
    charge cycles s = .ok n t ↔ n = cycles ∧ t = ⟨s.cpu.stall cycles, s.bus⟩ := by
  simp only [charge, bind_eq_ok, update_eq_ok, pure_eq_ok]
  grind

/-! ## The cost of a step -/

theorem branchCycles_le (next target : UInt16) : Action.branchCycles next target ≤ 2 := by
  unfold Action.branchCycles
  split <;> omega

/-- What an action adds to the base cost, for a processor behind the instruction : nothing, unless
it is a branch that goes. -/
def addedCycles (operand : Operand) (c : Cpu) : Action → Nat
  | .branch taken => if taken c.status then Action.branchCycles c.pc operand.target else 0
  | _ => 0

theorem run_cycles {operand : Operand} {action : Action} {s t : System β} {n : Nat}
    (h : action.run operand s = .ok n t) : n = addedCycles operand s.cpu action := by
  cases action with
  | branch taken =>
    simp only [Action.run, jump, cpu_bind] at h
    split at h
    · exact (pure_eq_ok.1 h).1.trans (if_pos ‹_›).symm
    · exact (pure_eq_ok.1 h).1.trans (if_neg ‹_›).symm
  | _ =>
    simp only [Action.run, bind_eq_ok, pure_eq_ok] at h
    unfold addedCycles
    grind

/-- An action adds two cycles at most. -/
theorem run_le {operand : Operand} {action : Action} {s t : System β} {n : Nat}
    (h : action.run operand s = .ok n t) : n ≤ 2 := by
  rw [run_cycles h]
  cases action with
  | branch taken =>
    have htaken := branchCycles_le s.cpu.pc operand.target
    simp only [addedCycles]
    split <;> omega
  | _ => exact Nat.zero_le 2

theorem cycles_le_of_mem_table {i : Instruction} (h : i ∈ Instruction.table) : i.cycles ≤ 8 := by
  revert i
  decide +kernel

theorem two_le_cycles_of_mem_table {i : Instruction} (h : i ∈ Instruction.table) :
    2 ≤ i.cycles := by
  revert i
  decide +kernel

theorem fetchInstruction_eq_ok {i : Instruction} {s t : System β} :
    fetchInstruction s = .ok i t ↔
      ∃ opcode, readByte s.cpu.pc s = .ok opcode t ∧ Instruction.decode? opcode = some i := by
  simp only [fetchInstruction, bind_eq_ok, cpu_eq_ok]
  constructor
  · rintro ⟨_, _, ⟨rfl, rfl⟩, opcode, u, hr, h⟩
    cases hd : Instruction.decode? opcode with
    | some j =>
      simp only [hd, pure_eq_ok] at h
      obtain ⟨rfl, rfl⟩ := h
      exact ⟨opcode, hr, hd⟩
    | none =>
      simp only [hd] at h
      cases h
  · rintro ⟨opcode, hr, hd⟩
    refine ⟨_, _, ⟨rfl, rfl⟩, opcode, t, hr, ?_⟩
    rw [hd]
    exact pure_eq_ok.2 ⟨rfl, rfl⟩

theorem work_le {request : Option Interrupt} {s t : System β} {n : Nat}
    (h : work request s = .ok n t) : n ≤ 11 := by
  cases request with
  | some request =>
    simp only [work, bind_eq_ok, pure_eq_ok] at h
    obtain ⟨-, -, -, rfl, -⟩ := h
    decide
  | none =>
    simp only [work, bind_eq_ok, fetchInstruction_eq_ok, execute, pure_eq_ok] at h
    obtain ⟨i, _, ⟨opcode, -, hd⟩, _, _, -, r, _, -, extra, _, hrun, rfl, -⟩ := h
    have hi := cycles_le_of_mem_table (Instruction.mem_table_of_decode? hd)
    have hextra := run_le hrun
    split <;> omega

theorem two_le_work {request : Option Interrupt} {s t : System β} {n : Nat}
    (h : work request s = .ok n t) : 2 ≤ n := by
  cases request with
  | some request =>
    simp only [work, bind_eq_ok, pure_eq_ok] at h
    obtain ⟨-, -, -, rfl, -⟩ := h
    decide
  | none =>
    simp only [work, bind_eq_ok, fetchInstruction_eq_ok, execute, pure_eq_ok] at h
    obtain ⟨i, _, ⟨opcode, -, hd⟩, _, _, -, r, _, -, extra, _, -, rfl, -⟩ := h
    have hi := two_le_cycles_of_mem_table (Instruction.mem_table_of_decode? hd)
    omega

theorem step_eq_ok {s t : System β} {n : Nat} :
    step s = .ok n t ↔ ∃ u, work s.cpu.served ⟨begun s.cpu, s.bus⟩ = .ok n u ∧
      t = ⟨u.cpu.stall n, u.bus⟩ := by
  simp only [step_eq, bind_eq_ok, charge_eq_ok]
  constructor
  · rintro ⟨_, u, h, rfl, rfl⟩
    exact ⟨u, h, rfl⟩
  · rintro ⟨u, h, rfl⟩
    exact ⟨n, u, h, rfl, rfl⟩

/-- A step takes eleven cycles at most. -/
theorem step_le {s t : System β} {n : Nat} (h : step s = .ok n t) : n ≤ 11 := by
  obtain ⟨u, hu, -⟩ := step_eq_ok.1 h
  exact work_le hu

/-- A step takes two cycles at least. -/
theorem two_le_step {s t : System β} {n : Nat} (h : step s = .ok n t) : 2 ≤ n := by
  obtain ⟨u, hu, -⟩ := step_eq_ok.1 h
  exact two_le_work hu

end Famicom.CpuM
