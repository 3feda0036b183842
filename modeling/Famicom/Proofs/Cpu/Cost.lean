import Famicom.Proofs.Cpu.FaultFree
import Famicom.Proofs.Cpu.Flow
import Famicom.Proofs.Cpu.Frame

/-!
# What a step costs

The cycles of an instruction come from three places : the table has the base cost, the addressing
mode notices that an index left the page of its base (`Instruction.pageCycles`), and a branch that
goes looks at the page it goes to (`Instruction.branchCycles`). `step_cycles` says that a step
costs their sum and that the clock has advanced by it.

No instruction pays at the second place and at the third, and those that write their operand pay at
neither : they make the access that corrects the address whether the page is crossed or not, and
the table has it. So the dearest step is no dearer than the dearest table entry, which `step_le`
does not see.
-/

namespace Famicom

/-! ## The parts of the cost -/

/-- The mnemonic stores a register in its operand or changes the operand in place. -/
def Mnemonic.writesOperand (m : Mnemonic) : Bool :=
  match m.action with
  | .store _ | .modify .. => true
  | _ => false

namespace Mnemonic

variable {m : Mnemonic}

theorem not_isBranch_of_writesOperand (h : m.writesOperand) : ¬ m.isBranch := by
  cases m <;> first | exact Bool.false_ne_true | exact absurd h Bool.false_ne_true

theorem action_of_isBranch (h : m.isBranch) :
    ∃ taken, m.action = .branch taken ∧ ∀ s, taken s = m.condition s := by
  cases m <;> first
    | exact ⟨_, rfl, fun s => by simp [condition]⟩
    | exact absurd h Bool.false_ne_true

theorem addedCycles_of_not_isBranch (h : ¬ m.isBranch) (operand : Operand) (c : Cpu) :
    CpuM.addedCycles operand c m.action = 0 := by
  cases m <;> first | rfl | exact absurd rfl h

end Mnemonic

namespace Instruction

variable {i : Instruction}

/-- One cycle, if the instruction pays for a crossed page and the index carries out of the low byte
of its base. -/
def pageCycles (i : Instruction) (r : Registers) (bytes pointer : List UInt8) : Nat :=
  if i.pagePenalty && i.mode.crosses r bytes pointer then 1 else 0

/-- What a branch that goes adds : one cycle, or two if its target is in another page than the next
instruction. -/
def branchCycles (i : Instruction) (c : Cpu) (bytes pointer : List UInt8) : Nat :=
  let next := c.pc + .ofNat i.size
  let target := (i.operand c bytes pointer).target
  if i.mnemonic.condition c.status then
    if next.toNat / 256 = target.toNat / 256 then 1 else 2
  else 0

theorem pageCycles_le (i : Instruction) (r : Registers) (bytes pointer : List UInt8) :
    i.pageCycles r bytes pointer ≤ if i.pagePenalty then 1 else 0 := by
  unfold pageCycles
  cases i.pagePenalty with
  | false => exact Nat.le_refl 0
  | true =>
    rw [if_pos rfl]
    split <;> omega

theorem pageCycles_of_free (h : i.pagePenalty = false) (r : Registers)
    (bytes pointer : List UInt8) : i.pageCycles r bytes pointer = 0 := by
  have hle := pageCycles_le i r bytes pointer
  rw [h] at hle
  exact Nat.le_zero.1 hle

theorem branchCycles_le (i : Instruction) (c : Cpu) (bytes pointer : List UInt8) :
    i.branchCycles c bytes pointer ≤ if i.mnemonic.isBranch then 2 else 0 := by
  simp only [branchCycles]
  split
  · rw [if_pos (Mnemonic.isBranch_of_condition ‹_›)]
    split <;> omega
  · exact Nat.zero_le _

theorem branchCycles_of_not_isBranch (h : ¬ i.mnemonic.isBranch) (c : Cpu)
    (bytes pointer : List UInt8) : i.branchCycles c bytes pointer = 0 := by
  have hle := branchCycles_le i c bytes pointer
  rw [if_neg h] at hle
  exact Nat.le_zero.1 hle

/-- Where the action starts, the flags are those of the start and the next instruction is at the
program counter. -/
theorem addedCycles_eq (i : Instruction) (c : Cpu) (bytes pointer : List UInt8) :
    CpuM.addedCycles (i.operand c bytes pointer) (c.behind i) i.mnemonic.action =
      i.branchCycles c bytes pointer := by
  by_cases hbranch : i.mnemonic.isBranch
  · obtain ⟨taken, haction, htaken⟩ := Mnemonic.action_of_isBranch hbranch
    simp only [haction, CpuM.addedCycles, htaken, branchCycles, Action.branchCycles, samePage_iff]
    rfl
  · rw [branchCycles_of_not_isBranch hbranch, Mnemonic.addedCycles_of_not_isBranch hbranch]

/-! ## What the table has -/

/-- The instructions that pay for more than their base cost are not the dearest. -/
theorem dearest_of_mem_table (h : i ∈ table) :
    i.cycles + (if i.pagePenalty then 1 else 0) + (if i.mnemonic.isBranch then 2 else 0) ≤ 8 := by
  revert i
  decide +kernel

theorem pagePenalty_of_writesOperand (h : i ∈ table) (hwrites : i.mnemonic.writesOperand) :
    i.pagePenalty = false := by
  revert i
  decide +kernel

theorem pagePenalty_of_isBranch (h : i ∈ table) (hbranch : i.mnemonic.isBranch) :
    i.pagePenalty = false := by
  revert i
  decide +kernel

end Instruction

/-! ## The cost of a step -/

namespace CpuM

variable {β : Type} [AddressSpace β]

theorem step_cycles_fetched {s t : System β} {n : Nat} (hserved : s.cpu.served = none)
    (h : step s = .ok n t) : ∃ i bytes pointer d, Fetched s i bytes pointer d ∧
      n = i.cycles + i.pageCycles s.cpu.toRegisters bytes pointer +
        i.branchCycles s.cpu bytes pointer := by
  obtain ⟨i, bytes, pointer, d, extra, u, hfetched, hrun, hn, -⟩ := step_executed hserved h
  have hextra := run_cycles hrun
  rw [Instruction.addedCycles_eq] at hextra
  exact ⟨i, bytes, pointer, d, hfetched, by rw [hn, hextra]; rfl⟩

theorem cycles_of_served {s t : System β} {n : Nat} {request : Interrupt}
    (hserved : s.cpu.served = some request) (h : step s = .ok n t) : n = 7 := by
  obtain ⟨u, hwork, -⟩ := step_eq_ok.1 h
  rw [hserved] at hwork
  simp only [work, bind_eq_ok, pure_eq_ok] at hwork
  obtain ⟨-, -, -, rfl, -⟩ := hwork
  rfl

/-- No step costs more than the dearest table entry. -/
theorem step_le_eight {s t : System β} {n : Nat} (h : step s = .ok n t) : n ≤ 8 := by
  cases hserved : s.cpu.served with
  | some request =>
    rw [cycles_of_served hserved h]
    decide
  | none =>
    obtain ⟨i, bytes, pointer, d, hfetched, rfl⟩ := step_cycles_fetched hserved h
    have hpage := i.pageCycles_le s.cpu.toRegisters bytes pointer
    have hbranch := i.branchCycles_le s.cpu bytes pointer
    have hdearest := Instruction.dearest_of_mem_table (Instruction.mem_table_of_decode? hfetched.1)
    omega

/-- A step advances the clock by its cost, which is that of entering a handler or the sum of the
three parts. Instructions that write their operand and branches that do not go cost what the table
says. -/
theorem step_cycles {s t : System β} {n : Nat} (h : step s = .ok n t) :
    t.cpu.cycles = s.cpu.cycles + n ∧ 2 ≤ n ∧ n ≤ 8 ∧
      (∀ request, s.cpu.served = some request → n = 7) ∧
      (s.cpu.served = none → ∃ i bytes pointer d, Fetched s i bytes pointer d ∧
        n = i.cycles + i.pageCycles s.cpu.toRegisters bytes pointer +
          i.branchCycles s.cpu bytes pointer ∧
        (i.mnemonic.writesOperand → n = i.cycles) ∧
        (i.mnemonic.isBranch → ¬ i.mnemonic.condition s.cpu.status → n = i.cycles)) := by
  refine ⟨step_clock h, two_le_step h, step_le_eight h,
    fun _ hserved => cycles_of_served hserved h, fun hserved => ?_⟩
  obtain ⟨i, bytes, pointer, d, hfetched, hn⟩ := step_cycles_fetched hserved h
  have hi := Instruction.mem_table_of_decode? hfetched.1
  refine ⟨i, bytes, pointer, d, hfetched, hn, fun hwrites => ?_, fun hbranch hstays => ?_⟩
  · have hfree := Instruction.pagePenalty_of_writesOperand hi hwrites
    rw [hn, Instruction.pageCycles_of_free hfree,
      Instruction.branchCycles_of_not_isBranch (Mnemonic.not_isBranch_of_writesOperand hwrites),
      Nat.add_zero]
  · have hfree := Instruction.pagePenalty_of_isBranch hi hbranch
    rw [hn, Instruction.pageCycles_of_free hfree, Instruction.branchCycles, if_neg hstays,
      Nat.add_zero]

/-- A branch that goes to the page behind that of the next instruction. -/
theorem step_cycles_branch_across_page :
    let s : System (Memory 0x10000) :=
      ⟨{ Cpu.initial with pc := 0x00F0 }, ((Memory.zeros _).write 0xF0 0xD0).write 0xF1 0x20⟩
    ∃ t, step s = .ok 4 t ∧ t.cpu.cycles = s.cpu.cycles + 4 := by
  intro s
  have hread : (AddressSpace.read s.cpu.pc s.bus).1 = .ok 0xD0 := by rfl
  have hstep : ∃ n t, step s = .ok n t := step_succeeds rfl hread rfl
  obtain ⟨n, t, h⟩ := hstep
  obtain ⟨hclock, -, -, -, hinstruction⟩ := step_cycles h
  obtain ⟨i, bytes, pointer, d, hfetched, hn, -, -⟩ := hinstruction rfl
  obtain rfl := hfetched.instruction hread rfl
  obtain ⟨-, b, hbytes, hpointer⟩ := hfetched
  obtain ⟨hb, rfl⟩ := hbytes.unique (.cons rfl (.cons rfl (.nil s.bus)))
  obtain rfl := (List.cons.inj hb).2
  obtain ⟨rfl, -⟩ := hpointer.unique (.nil s.bus)
  have hfour : n = 4 := hn.trans (by decide +kernel +zetaReduce)
  rw [hfour] at h hclock
  exact ⟨t, h, hclock⟩

end CpuM

end Famicom
