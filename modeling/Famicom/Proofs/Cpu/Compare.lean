import Famicom.Proofs.Cpu.Cost
import Famicom.Proofs.Cpu.Footprint

/-!
# Comparison and subtraction

A comparison sets the flags of a subtraction and drops the difference. The two are computed in
different ways : the comparison looks at the order of the two bytes, the subtraction adds the
complement and looks at the sum (`Registers.subtract_flags`).

To set two steps side by side, which find different opcodes and so are made on different buses,
`Meets` names what the first one meets : the operand bytes, the pointer and the value of the
operand. Where another instruction of the same mode meets the same, the accesses are the same, and
so are the cycles as far as the table says so (`step_meets`, `Instruction.cost_of_cmp_of_sbc`).
-/

namespace Famicom

variable {β γ : Type} [AddressSpace β] [AddressSpace γ]

/-! ## The flags -/

namespace Registers

/-- The registers with the carry set. -/
def withCarry (r : Registers) : Registers := { r with status := { r.status with carry := true } }

/-- With the carry set, subtraction leaves the difference. -/
theorem subtract_withCarry_a (r : Registers) (value : UInt8) :
    (r.withCarry.subtract value).a = r.a - value := by
  have ha := r.a.toNat_lt
  have hvalue := value.toNat_lt
  have hsum : (r.withCarry.subtract value).a =
      UInt8.ofNat (r.a.toNat + (~~~value).toNat + 1) := rfl
  rw [hsum, ← UInt8.toNat_inj, UInt8.toNat_ofNat', UInt8.toNat_sub, toNat_complement]
  omega

/-- A comparison leaves the flags of the subtraction. -/
theorem subtract_flags (r : Registers) (value : UInt8) :
    let difference := (r.withCarry.subtract value).status
    let compared := r.status.comparing r.a value
    difference.carry = compared.carry ∧ difference.zero = compared.zero ∧
      difference.negative = compared.negative := by
  have ha := r.a.toNat_lt
  have hvalue := value.toNat_lt
  refine ⟨?carry, ?zero, ?negative⟩
  case carry =>
    show decide (0xFF < r.a.toNat + (~~~value).toNat + 1) = decide (value ≤ r.a)
    rw [decide_eq_decide, UInt8.le_iff_toNat_le, toNat_complement]
    omega
  case zero =>
    show ((r.withCarry.subtract value).a == 0) = (r.a == value)
    rw [subtract_withCarry_a, Bool.eq_iff_iff, beq_iff_eq, beq_iff_eq, ← UInt8.toNat_inj,
      ← UInt8.toNat_inj, UInt8.toNat_sub, UInt8.toNat_zero]
    omega
  case negative =>
    show ((r.withCarry.subtract value).a &&& 0x80 != 0) = (r.a - value &&& 0x80 != 0)
    rw [subtract_withCarry_a]

end Registers

/-! ## The instructions -/

namespace Mnemonic

/-- The mnemonics that compare a register. -/
def comparisons : List Mnemonic := [.cmp, .cpx, .cpy]

/-- The register that the mnemonic compares. -/
def compared (m : Mnemonic) (r : Registers) : UInt8 :=
  match m with
  | .cpx => r.x
  | .cpy => r.y
  | _ => r.a

theorem action_of_mem_comparisons {m : Mnemonic} (h : m ∈ comparisons) :
    m.action = .load fun r value =>
      { r with status := r.status.comparing (m.compared r) value } := by
  fin_cases h <;> rfl

end Mnemonic

namespace Instruction

variable {i j : Instruction}

theorem mode_of_comparison (h : i ∈ table) (hm : i.mnemonic ∈ Mnemonic.comparisons) :
    ¬ (i.mode = .implied ∨ i.mode = .accumulator) := by
  revert i
  decide +kernel

/-- In each mode of a comparison there are a subtraction and a comparison of the accumulator. -/
theorem exists_of_comparison (h : i ∈ table) (hm : i.mnemonic ∈ Mnemonic.comparisons) :
    ∀ m ∈ [Mnemonic.sbc, .cmp], ∃ j ∈ table, j.mnemonic = m ∧ j.mode = i.mode := by
  revert i
  decide +kernel

/-- Comparison and subtraction cost the same in each mode. -/
theorem cost_of_cmp_of_sbc (hi : i ∈ table) (hj : j ∈ table) (hcmp : i.mnemonic = .cmp)
    (hsbc : j.mnemonic = .sbc) (hmode : j.mode = i.mode) :
    j.cycles = i.cycles ∧ j.pagePenalty = i.pagePenalty := by
  -- all pairs of the table would be too many to go through
  have hall : ∀ i ∈ table.filter (·.mnemonic = .cmp), ∀ j ∈ table.filter (·.mnemonic = .sbc),
      j.mode = i.mode → j.cycles = i.cycles ∧ j.pagePenalty = i.pagePenalty := by
    decide +kernel
  exact hall i (by simp [hi, hcmp]) j (by simp [hj, hsbc]) hmode

end Instruction

/-! ## Steps that meet an operand -/

namespace CpuM

/-- No request is let through, and the step that starts at `s` reads the instruction `i` with these
operand bytes and this pointer and then `value` at the operand. -/
structure Meets (s : System β) (i : Instruction) (bytes pointer : List UInt8) (value : UInt8) :
    Prop where
  served : s.cpu.served = none
  operand : ∃ a d, Fetched s i bytes pointer d ∧ i.operand s.cpu bytes pointer = .address a ∧
    (AddressSpace.read a d).1 = .ok value

variable {s : System β} {i : Instruction} {bytes pointer : List UInt8} {value : UInt8}
  {use : Registers → UInt8 → Registers}

/-- What a load does with what it meets. -/
theorem step_meets [FaultFree β] (h : Meets s i bytes pointer value)
    (haction : i.mnemonic.action = .load use) :
    ∃ t, step s = .ok (i.cycles + i.pageCycles s.cpu.toRegisters bytes pointer) t ∧
      t.cpu.toRegisters = use s.cpu.toRegisters value ∧
      places s = readsOf (addressesFrom s.cpu.pc (i.mode.fetched + 1)) ++
        readsOf (i.mode.pointer s.cpu.toRegisters bytes) ++
        i.mnemonic.touches (i.operand s.cpu bytes pointer) s.cpu.sp := by
  obtain ⟨hserved, a, d, hfetched, hoperand, hvalue⟩ := h
  obtain ⟨n, t, hstep⟩ := step_succeeds hserved hfetched.read hfetched.1
  obtain ⟨j, _, _, _, extra, u, hfetched', hrun, hn, rfl⟩ := step_executed hserved hstep
  obtain ⟨rfl, rfl, rfl, rfl⟩ := hfetched.unique hfetched'
  obtain ⟨j, _, _, _, hfetched', hplaces⟩ := places_fetched hserved hstep
  obtain ⟨rfl, rfl, rfl, rfl⟩ := hfetched.unique hfetched'
  have hextra : extra = 0 := by
    rw [run_cycles hrun, haction]
    rfl
  rw [haction, hoperand] at hrun
  obtain ⟨value', v, hload, rfl⟩ := run_performed hrun
  have hread : readByte a ⟨s.cpu.behind i, d⟩ = .ok value' v := hload
  obtain ⟨hread, hcpu⟩ := readByte_eq_ok.1 hread
  obtain rfl : value = value' := by
    rw [hread] at hvalue
    cases hvalue
    rfl
  obtain rfl : n = _ := by rw [hn, hextra]
  refine ⟨_, hstep, ?_, hplaces⟩
  show use v.cpu.toRegisters value = _
  rw [hcpu]
  rfl

/-- A load that is at the program counter and has an address meets an operand. -/
theorem exists_meets [FaultFree β] (hserved : s.cpu.served = none)
    (hread : (AddressSpace.read s.cpu.pc s.bus).1 = .ok i.opcode)
    (hdecode : Instruction.decode? i.opcode = some i)
    (hmode : ¬ (i.mode = .implied ∨ i.mode = .accumulator)) :
    ∃ bytes pointer value, Meets s i bytes pointer value := by
  obtain ⟨n, t, hstep⟩ := step_succeeds hserved hread hdecode
  obtain ⟨j, bytes, pointer, d, hfetched, -⟩ := step_cycles_fetched hserved hstep
  obtain rfl := hfetched.instruction hread hdecode
  obtain ⟨a, ha⟩ := Instruction.exists_operand_eq_address hmode s.cpu bytes pointer
  exact ⟨bytes, pointer, _, hserved, a, d, hfetched, ha, read_eq_byteAt a d⟩

/-- The step of a comparison, by the register and the value that it compares. -/
theorem step_comparison [FaultFree β] (h : Meets s i bytes pointer value)
    (hm : i.mnemonic ∈ Mnemonic.comparisons) :
    ∃ t, step s = .ok (i.cycles + i.pageCycles s.cpu.toRegisters bytes pointer) t ∧
      t.cpu.toRegisters = { s.cpu.toRegisters with
        status := s.cpu.status.comparing (i.mnemonic.compared s.cpu.toRegisters) value } ∧
      places s = readsOf (addressesFrom s.cpu.pc (i.mode.fetched + 1)) ++
        readsOf (i.mode.pointer s.cpu.toRegisters bytes) ++
        [(.read, (i.operand s.cpu bytes pointer).target)] := by
  obtain ⟨t, hstep, hregs, hplaces⟩ := step_meets h (Mnemonic.action_of_mem_comparisons hm)
  have htouches (operand : Operand) (sp : UInt8) :
      i.mnemonic.touches operand sp = [(.read, operand.target)] := by
    generalize i.mnemonic = m at hm
    fin_cases hm <;> rfl
  rw [htouches] at hplaces
  exact ⟨t, hstep, hregs, hplaces⟩

/-- The three flags of a comparison are the same. -/
def SameOrder (s t : Status) : Prop :=
  s.carry = t.carry ∧ s.zero = t.zero ∧ s.negative = t.negative

/-- A step at a subtraction with the carry set, beside one at a comparison that meets the same. -/
theorem step_subtraction [FaultFree β] [FaultFree γ] {t : System β} {n : Nat}
    (h : Meets s i bytes pointer value) (hcmp : i.mnemonic = .cmp) (hstep : step s = .ok n t)
    {u : System γ} {j : Instruction} (hu : Meets u j bytes pointer value)
    (hsbc : j.mnemonic = .sbc) (hmode : j.mode = i.mode)
    (hcpu : u.cpu = { s.cpu with toRegisters := s.cpu.toRegisters.withCarry }) :
    ∃ v, step u = .ok n v ∧ places u = places s ∧ SameOrder t.cpu.status v.cpu.status := by
  have htable (k : Instruction) {δ : Type} [AddressSpace δ] {w : System δ}
      (hw : Meets w k bytes pointer value) : k ∈ Instruction.table := by
    obtain ⟨-, a, d, hfetched, -⟩ := hw
    exact Instruction.mem_table_of_decode? hfetched.1
  obtain ⟨hcycles, hpaged⟩ :=
    Instruction.cost_of_cmp_of_sbc (htable i h) (htable j hu) hcmp hsbc hmode
  obtain ⟨t', hstep', hregs, hplaces⟩ := step_comparison h (by simp [hcmp, Mnemonic.comparisons])
  have haction : j.mnemonic.action = .load Registers.subtract := by rw [hsbc]; rfl
  obtain ⟨v, hv, hregs', hplaces'⟩ := step_meets hu haction
  rw [hstep] at hstep'
  cases hstep'
  have hcost : j.pageCycles u.cpu.toRegisters bytes pointer =
      i.pageCycles s.cpu.toRegisters bytes pointer := by
    rw [Instruction.pageCycles, hpaged, hmode, hcpu]
    rfl
  rw [hcycles, hcost] at hv
  refine ⟨v, hv, ?_, ?_⟩
  · rw [hplaces, hplaces', Instruction.operand, hsbc, hmode, hcpu]
    rfl
  · obtain ⟨hcarry, hzero, hnegative⟩ := s.cpu.toRegisters.subtract_flags value
    rw [hregs, hregs', hcpu, hcmp]
    exact ⟨hcarry.symm, hzero.symm, hnegative.symm⟩

/-- A comparison of any register : the flags, and the instructions beside it. A subtraction in the
same mode with the same operand, from the same processor with the carry set, makes the same
accesses, costs the same and leaves the same carry, zero and negative flag. A comparison of the
accumulator, where it holds what the index register holds here, leaves the same flags. -/
theorem step_compare [FaultFree β] (hserved : s.cpu.served = none)
    (hread : (AddressSpace.read s.cpu.pc s.bus).1 = .ok i.opcode)
    (hdecode : Instruction.decode? i.opcode = some i) (hm : i.mnemonic ∈ Mnemonic.comparisons) :
    let register := i.mnemonic.compared s.cpu.toRegisters
    (∀ m ∈ [Mnemonic.sbc, .cmp], ∃ j ∈ Instruction.table, j.mnemonic = m ∧ j.mode = i.mode) ∧
    ∃ bytes pointer value n t, Meets s i bytes pointer value ∧ step s = .ok n t ∧
      t.cpu.a = s.cpu.a ∧ t.cpu.x = s.cpu.x ∧ t.cpu.y = s.cpu.y ∧
      t.cpu.status.overflow = s.cpu.status.overflow ∧
      (t.cpu.status.carry = true ↔ value.toNat ≤ register.toNat) ∧
      (t.cpu.status.zero = true ↔ register = value) ∧
      (i.mnemonic = .cmp → ∀ {γ : Type} [AddressSpace γ] [FaultFree γ] (u : System γ)
        (j : Instruction), j.mnemonic = .sbc → j.mode = i.mode → Meets u j bytes pointer value →
        u.cpu = { s.cpu with toRegisters := s.cpu.toRegisters.withCarry } →
        ∃ v, step u = .ok n v ∧ places u = places s ∧ SameOrder t.cpu.status v.cpu.status) ∧
      ∀ {γ : Type} [AddressSpace γ] [FaultFree γ] (u : System γ) (j : Instruction)
        (bytes' pointer' : List UInt8), j.mnemonic = .cmp → Meets u j bytes' pointer' value →
        u.cpu.a = register → ∃ m v, step u = .ok m v ∧ SameOrder t.cpu.status v.cpu.status := by
  intro register
  have htable := Instruction.mem_table_of_decode? hdecode
  obtain ⟨bytes, pointer, value, hmeets⟩ :=
    exists_meets hserved hread hdecode (Instruction.mode_of_comparison htable hm)
  obtain ⟨t, hstep, hregs, -⟩ := step_comparison hmeets hm
  have hstatus : t.cpu.status = s.cpu.status.comparing register value := by rw [hregs]
  refine ⟨Instruction.exists_of_comparison htable hm, bytes, pointer, value, _, t, hmeets, hstep,
    by rw [hregs], by rw [hregs], by rw [hregs], by rw [hstatus]; rfl, ?carry, ?zero,
    fun hcmp _ _ _ u j hsbc hmode hu hcpu => step_subtraction hmeets hcmp hstep hu hsbc hmode hcpu,
    fun u j bytes' pointer' hcmp hu ha => ?flags⟩
  case carry =>
    rw [hstatus, ← UInt8.le_iff_toNat_le]
    exact decide_eq_true_iff
  case zero =>
    rw [hstatus]
    exact beq_iff_eq
  case flags =>
    obtain ⟨v, hv, hregs', -⟩ := step_comparison hu (by simp [hcmp, Mnemonic.comparisons])
    refine ⟨_, v, hv, ?_⟩
    rw [hstatus, hregs', hcmp]
    rw [← ha]
    exact ⟨rfl, rfl, rfl⟩

/-- `CMP ($10),Y` and `SBC ($10),Y` where the index carries into the next page : one cycle more, and
the accumulator is less than the operand. -/
theorem step_compare_across_page :
    let memory (opcode : UInt8) : Memory 0x10000 :=
      ((((Memory.zeros _).write 0x00 opcode).write 0x01 0x10).write 0x10 0xFF).write 0x100 0x80
    let c : Cpu := { Cpu.initial with a := 0x7F, y := 0x01 }
    let s : System (Memory 0x10000) := ⟨c, memory 0xD1⟩
    let u : System (Memory 0x10000) :=
      ⟨{ c with toRegisters := c.toRegisters.withCarry }, memory 0xF1⟩
    ∃ t v, step s = .ok 6 t ∧ step u = .ok 6 v ∧ places u = places s ∧
      t.cpu.a = 0x7F ∧ ¬ t.cpu.status.carry = true ∧ ¬ t.cpu.status.zero = true ∧
      SameOrder t.cpu.status v.cpu.status := by
  intro memory c s u
  have hread : (AddressSpace.read s.cpu.pc s.bus).1 = .ok 0xD1 := by rfl
  obtain ⟨-, bytes, pointer, value, n, t, hmeets, hstep, ha, -, -, -, hcarry, hzero, hsbc, -⟩ :=
    step_compare (s := s) (i := .paged 0xD1 .cmp .indirectY 5) rfl hread rfl (by decide)
  obtain ⟨t', hstep', -⟩ := step_comparison hmeets (by decide)
  obtain ⟨-, a, d, ⟨-, b, hbytes, hpointer⟩, hoperand, hvalue⟩ := hmeets
  have hcode : Reads [0x00, 0x01] [0xD1, 0x10] s.bus s.bus := .cons rfl (.cons rfl (.nil _))
  have hbase : Reads [0x10, 0x11] [0xFF, 0x00] s.bus s.bus := .cons rfl (.cons rfl (.nil _))
  obtain ⟨hb, rfl⟩ := hbytes.unique hcode
  obtain rfl := (List.cons.inj hb).2
  obtain ⟨rfl, rfl⟩ := hpointer.unique hbase
  obtain rfl : 0x0100 = a := Operand.address.inj (Eq.trans (by decide +kernel +zetaReduce) hoperand)
  obtain rfl : 0x80 = value := Except.ok.inj (Eq.trans (by rfl) hvalue)
  obtain rfl : n = 6 := by
    rw [hstep] at hstep'
    cases hstep'
    decide +kernel +zetaReduce
  have hbeside : Meets u (.paged 0xF1 .sbc .indirectY 5) [0x10] [0xFF, 0x00] 0x80 :=
    ⟨rfl, 0x0100, u.bus, ⟨rfl, u.bus, .cons rfl (.cons rfl (.nil _)),
      .cons rfl (.cons rfl (.nil _))⟩, by decide +kernel +zetaReduce, rfl⟩
  obtain ⟨v, hv, hplaces, hflags⟩ := hsbc rfl u (.paged 0xF1 .sbc .indirectY 5) rfl rfl hbeside rfl
  exact ⟨t, v, hstep, hv, hplaces, ha, mt hcarry.1 (by decide), mt hzero.1 (by decide), hflags⟩

end CpuM

end Famicom
