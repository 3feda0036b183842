import Famicom.Proofs.Cpu.Fetch

/-!
# Where a step continues

An action starts with the program counter behind its instruction, and most leave it there. A
jump and a call continue at their operand, a branch does so if its flag tells it to
(`Mnemonic.condition`), and a return, a return from a handler and `BRK` continue at an address they
find in memory. `Action.destination` is the address for all but the last three, and
`step_continues` says that a step goes there.
-/

namespace Famicom

/-! ## Destinations -/

namespace Mnemonic

/-- The flag that a branch looks at, and the value of it that makes the branch go. -/
def condition (s : Status) : Mnemonic → Bool
  | .bcc => s.carry = false
  | .bcs => s.carry = true
  | .bne => s.zero = false
  | .beq => s.zero = true
  | .bpl => s.negative = false
  | .bmi => s.negative = true
  | .bvc => s.overflow = false
  | .bvs => s.overflow = true
  | _ => false

/-- Only a branch has a flag to look at. -/
theorem isBranch_of_condition {s : Status} {m : Mnemonic} (h : m.condition s) : m.isBranch := by
  cases m <;> first | rfl | exact absurd h Bool.false_ne_true

/-- The mnemonics that continue elsewhere, whatever the flags are. -/
def diverts : List Mnemonic := [.jmp, .jsr, .rts, .rti, .brk]

/-- The mnemonics that may continue at their operand. -/
def redirects (m : Mnemonic) : Bool := m.isBranch || m == .jmp || m == .jsr

end Mnemonic

/-- Where an action continues, for a processor behind the instruction; none if the address is in
memory. -/
def Action.destination (operand : Operand) (c : Cpu) : Action → Option UInt16
  | .branch taken => some (if taken c.status then operand.target else c.pc)
  | .jump | .call => some operand.target
  | .ret | .retInterrupt | .trap => none
  | .load _ | .store _ | .modify .. | .adjust _ | .push _ | .pull _ => some c.pc

namespace Mnemonic

variable (operand : Operand) (c : Cpu)

theorem destination_of_isBranch {m : Mnemonic} (h : m.isBranch) :
    m.action.destination operand c =
      some (if m.condition c.status then operand.target else c.pc) := by
  cases m <;> first | contradiction | simp [action, Action.destination, condition]

theorem destination_of_jump {m : Mnemonic} (h : m = .jmp ∨ m = .jsr) :
    m.action.destination operand c = some operand.target := by
  rcases h with rfl | rfl <;> rfl

/-- A branch that goes and a jump continue at the operand. -/
theorem destination_of_redirects {m : Mnemonic} (h : m.redirects)
    (hgoes : m.isBranch → m.condition c.status) :
    m.action.destination operand c = some operand.target := by
  by_cases hbranch : m.isBranch
  · rw [destination_of_isBranch _ _ hbranch, if_pos (hgoes hbranch)]
  · exact destination_of_jump _ _ (by simpa [redirects, hbranch] using h)

theorem destination_of_ordinary {m : Mnemonic} (hbranch : ¬ m.isBranch) (hdiverts : m ∉ diverts) :
    m.action.destination operand c = some c.pc := by
  cases m <;> first | rfl | exact absurd rfl hbranch | exact absurd (by decide) hdiverts

end Mnemonic

namespace CpuM

variable {β : Type} [AddressSpace β]

/-! ## The program counter -/

theorem push_pc {value : UInt8} {s t : System β} {u : Unit} (h : CpuM.push value s = .ok u t) :
    t.cpu.pc = s.cpu.pc := by
  simp only [CpuM.push, cpu_bind, bind_eq_ok, writeByte_eq_ok, update_eq_ok] at h
  obtain ⟨_, v, ⟨-, hcpu⟩, rfl⟩ := h
  simp [hcpu]

theorem pull_pc {value : UInt8} {s t : System β} (h : CpuM.pull s = .ok value t) :
    t.cpu.pc = s.cpu.pc := by
  simp only [CpuM.pull, update_bind, cpu_bind] at h
  rw [(readByte_eq_ok.1 h).2]

theorem load_pc {operand : Operand} {value : UInt8} {s t : System β}
    (h : operand.load s = .ok value t) : t.cpu.pc = s.cpu.pc := by
  cases operand with
  | implied | accumulator => rw [(pure_eq_ok.1 h).2]
  | address a => rw [(readByte_eq_ok.1 h).2]

theorem store_pc {operand : Operand} {value : UInt8} {s t : System β} {u : Unit}
    (h : operand.store value s = .ok u t) : t.cpu.pc = s.cpu.pc := by
  cases operand with
  | implied => rw [(pure_eq_ok.1 h).2]
  | accumulator =>
    cases h
    rfl
  | address a => rw [(writeByte_eq_ok.1 h).2]

theorem run_pc {operand : Operand} {action : Action} {s t : System β} {n : Nat} {a : UInt16}
    (h : action.run operand s = .ok n t) (ha : action.destination operand s.cpu = some a) :
    t.cpu.pc = a := by
  have hdone := run_performed h
  cases action with
  | ret | retInterrupt | trap => cases ha
  | branch taken =>
    cases ha
    rw [show t = _ from hdone]
    split <;> rfl
  | jump | adjust f =>
    cases ha
    rw [show t = _ from hdone]
  | call =>
    cases ha
    obtain ⟨u, -, rfl⟩ := hdone
    rfl
  | load use =>
    cases ha
    obtain ⟨value, u, hload, rfl⟩ := hdone
    have hu := load_pc hload
    exact hu
  | store value =>
    cases ha
    exact store_pc hdone
  | modify change use =>
    cases ha
    obtain ⟨old, value, status, u, v, hload, -, hstore, rfl⟩ := hdone
    have hu := load_pc hload
    have hv := store_pc hstore
    exact hv.trans hu
  | push value =>
    cases ha
    exact push_pc hdone
  | pull use =>
    cases ha
    obtain ⟨value, u, hpull, rfl⟩ := hdone
    have hu := pull_pc hpull
    exact hu

/-- A step goes where its instruction says. -/
theorem step_continues {s t : System β} {n : Nat} (hserved : s.cpu.served = none)
    (h : step s = .ok n t) : ∃ i bytes pointer d, Fetched s i bytes pointer d ∧
      ∀ a, i.mnemonic.action.destination (i.operand s.cpu bytes pointer) (s.cpu.behind i) =
        some a → t.cpu.pc = a := by
  obtain ⟨i, bytes, pointer, d, extra, u, hfetched, hrun, rfl⟩ := step_fetched hserved h
  refine ⟨i, bytes, pointer, d, hfetched, fun a ha => ?_⟩
  have hpc := run_pc hrun ha
  exact hpc

end CpuM

end Famicom
