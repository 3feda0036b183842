import Famicom.Proofs.Cpu.Straight

/-!
# Shifts of long numbers

A number of several bytes is shifted by one bit if its bytes are rotated through the carry one after
the other : to the left from the low byte on, to the right from the high byte on. One rotation is an
equation of numbers : twice the byte plus the carry that goes in is the new byte plus 256 times the
carry that comes out, or the other way round (`ByteOp.rotateLeft_law`, `ByteOp.rotateRight_law`). By
induction on the bytes the whole chain satisfies the same equation, with the power of 256 that the
number has bytes (`numberAt_rotateLeft`, `numberAt_rotateRight`), and since the two equations are
each other's mirror images, one chain undoes the other.

The bytes of the number are RAM, and nothing else is asked of the bus but that the code can be read.
So the number may be in work RAM and the code in PRG ROM (`long_shift_two_bytes`).

A shift is a rotation of a carry that is clear (`effects_chain_asl`, `effects_chain_lsr`). It stands
at the beginning of a chain, for later the carry is needed.
-/

namespace Famicom

/-! ## One byte -/

namespace ByteOp

theorem rotateLeft_law (value : UInt8) (s : Status) :
    (rotateLeft value s).1.toNat + 256 * (rotateLeft value s).2.carry.toNat =
      2 * value.toNat + s.carry.toNat := by
  have hbits (c : Bool) : (value <<< 1 ||| if c then 0x01 else 0).toNat +
      256 * (value &&& 0x80 != 0).toNat = 2 * value.toNat + c.toNat := by
    obtain ⟨bits⟩ := value
    revert bits c
    decide +kernel
  exact hbits s.carry

theorem rotateRight_law (value : UInt8) (s : Status) :
    2 * (rotateRight value s).1.toNat + (rotateRight value s).2.carry.toNat =
      value.toNat + 256 * s.carry.toNat := by
  have hbits (c : Bool) : 2 * (value >>> 1 ||| if c then 0x80 else 0).toNat +
      (value &&& 0x01 != 0).toNat = value.toNat + 256 * c.toNat := by
    obtain ⟨bits⟩ := value
    revert bits c
    decide +kernel
  exact hbits s.carry

theorem shiftLeft_eq (value : UInt8) (s : Status) :
    shiftLeft value s = rotateLeft value { s with carry := false } := by
  simp [shiftLeft, rotateLeft]

theorem shiftRight_eq (value : UInt8) (s : Status) :
    shiftRight value s = rotateRight value { s with carry := false } := by
  simp [shiftRight, rotateRight]

end ByteOp

/-! ## Chains -/

/-- The same operation on each byte, in the order of the addresses. -/
def rotations (m : Mnemonic) (cells : List UInt16) : List Command :=
  cells.map fun a => (m, .address a)

theorem rotations_cons (m : Mnemonic) (a : UInt16) (cells : List UInt16) :
    rotations m (a :: cells) = (m, .address a) :: rotations m cells := rfl

/-- One operation on the first byte and another one on all others. -/
def chain (first rest : Mnemonic) : List UInt16 → List Command
  | [] => []
  | a :: cells => (first, .address a) :: rotations rest cells

section Chains

variable {β : Type} [AddressSpace β] {m : Mnemonic} {change : ByteOp} {a : UInt16}
  {cells : List UInt16}

theorem effects_inPlace_cons (hm : m.action = .inPlace change) (ops : List Command)
    (r : Registers) (b : β) :
    Command.effects ((m, .address a) :: ops) r b =
      Command.effects ops { r with status := (change (byteAt b a) r.status).2 }
        (AddressSpace.write a (change (byteAt b a) r.status).1 b).2 := by
  rw [Command.effects, hm]
  rfl

theorem written_rotations (hm : m.action = .inPlace change) (cells : List UInt16) :
    Command.written (rotations m cells) = cells := by
  induction cells with
  | nil => rfl
  | cons a cells ih =>
    show m.action.written (.address a) ++ Command.written (rotations m cells) = _
    rw [hm, ih]
    rfl

theorem written_chain {first rest : Mnemonic} {change' : ByteOp}
    (hfirst : first.action = .inPlace change) (hrest : rest.action = .inPlace change')
    (cells : List UInt16) : Command.written (chain first rest cells) = cells := by
  cases cells with
  | nil => rfl
  | cons a cells =>
    show first.action.written (.address a) ++ Command.written (rotations rest cells) = _
    rw [hfirst, written_rotations hrest]
    rfl

/-- Operations on RAM leave it RAM, and all other bytes as they are. -/
theorem ramAmong_rotations {writable : List UInt16} {seen : UInt16 → Bool} {b : β}
    (hram : RamAmong writable seen b) (hm : m.action = .inPlace change)
    (hcells : ∀ a ∈ cells, a ∈ writable) (r : Registers) :
    RamAmong writable seen (Command.effects (rotations m cells) r b).2 ∧ ∀ x, seen x → x ∉ cells →
      byteAt (Command.effects (rotations m cells) r b).2 x = byteAt b x := by
  have hwritten := written_rotations hm cells
  have heffects := Command.ramAmong_effects hram (hwritten.symm ▸ hcells) r
  rwa [hwritten] at heffects

section Law

variable {writable : List UInt16} {seen : UInt16 → Bool} {b : β}
  (hram : RamAmong writable seen b) (hcells : ∀ a ∈ cells, a ∈ writable) (h : cells.Nodup)

include hram hcells h

/-- The number is doubled, with the carry at its low end. What does not fit is in the carry. -/
theorem numberAt_rotateLeft (r : Registers) :
    numberAt (Command.effects (rotations .rol cells) r b).2 cells + 256 ^ cells.length *
        (Command.effects (rotations .rol cells) r b).1.status.carry.toNat =
      2 * numberAt b cells + r.status.carry.toNat := by
  induction cells generalizing r b with
  | nil =>
    show number [] + 256 ^ 0 * r.status.carry.toNat = 2 * number [] + _
    simp [number]
  | cons a cells ih =>
    obtain ⟨ha, hnodup⟩ := List.nodup_cons.1 h
    obtain ⟨hcell, hothers⟩ := List.forall_mem_cons.1 hcells
    let result := ByteOp.rotateLeft (byteAt b a) r.status
    let p : Registers := { r with status := result.2 }
    let d := (AddressSpace.write a result.1 b).2
    have hbyte : result.1.toNat + 256 * p.status.carry.toNat =
      2 * (byteAt b a).toNat + r.status.carry.toNat := ByteOp.rotateLeft_law _ _
    have hafter : RamAmong writable seen d := hram.after_write hcell _
    have hrest := ih hafter hothers hnodup p
    have hchain : Command.effects (rotations .rol (a :: cells)) r b =
        Command.effects (rotations .rol cells) p d := effects_inPlace_cons rfl _ r b
    have hstays : byteAt (Command.effects (rotations .rol cells) p d).2 a = result.1 := by
      have hkept := (ramAmong_rotations (m := .rol) hafter rfl hothers p).2
      rw [hkept a (hram.seen_of_mem hcell) ha, hram.byteAt_write_self hcell]
    rw [numberAt_write hram hcell (fun x hx => hram.seen_of_mem (hothers x hx)) ha] at hrest
    rw [hchain, numberAt_cons, numberAt_cons, hstays, List.length_cons, Nat.pow_succ,
      Nat.mul_right_comm]
    omega

/-- The number is halved, with the carry at its high end. What is left over is in the carry. -/
theorem numberAt_rotateRight (r : Registers) :
    2 * numberAt (Command.effects (rotations .ror cells.reverse) r b).2 cells +
        (Command.effects (rotations .ror cells.reverse) r b).1.status.carry.toNat =
      numberAt b cells + 256 ^ cells.length * r.status.carry.toNat := by
  induction cells with
  | nil =>
    show 2 * number [] + r.status.carry.toNat = number [] + 256 ^ 0 * _
    simp [number]
  | cons a cells ih =>
    -- the low byte comes last, with the carry that the others have left
    obtain ⟨ha, hnodup⟩ := List.nodup_cons.1 h
    obtain ⟨hcell, hothers⟩ := List.forall_mem_cons.1 hcells
    let p := Command.effects (rotations .ror cells.reverse) r b
    have hrest : 2 * numberAt p.2 cells + p.1.status.carry.toNat =
      numberAt b cells + 256 ^ cells.length * r.status.carry.toNat := ih hothers hnodup
    let result := ByteOp.rotateRight (byteAt p.2 a) p.1.status
    have hbyte : 2 * result.1.toNat + result.2.carry.toNat =
      (byteAt p.2 a).toNat + 256 * p.1.status.carry.toNat := ByteOp.rotateRight_law _ _
    have hchain : Command.effects (rotations .ror (a :: cells).reverse) r b =
        ({ p.1 with status := result.2 }, (AddressSpace.write a result.1 p.2).2) := by
      rw [List.reverse_cons, rotations, List.map_append, Command.effects_append]
      exact effects_inPlace_cons rfl [] p.1 p.2
    obtain ⟨hafter, hkept⟩ : RamAmong writable seen p.2 ∧ _ :=
      ramAmong_rotations hram rfl (by simpa using hothers) r
    have hbefore : byteAt p.2 a = byteAt b a :=
      hkept a (hram.seen_of_mem hcell) (by rwa [List.mem_reverse])
    rw [hbefore] at hbyte
    rw [hchain, numberAt_cons, numberAt_cons, hafter.byteAt_write_self hcell,
      numberAt_write hafter hcell (fun x hx => hram.seen_of_mem (hothers x hx)) ha,
      List.length_cons, Nat.pow_succ, Nat.mul_right_comm]
    show 2 * (result.1.toNat + 256 * numberAt p.2 cells) + result.2.carry.toNat = _
    omega

end Law

/-! ## Chains that begin with a shift -/

/-- The registers with the carry cleared. -/
def Registers.withoutCarry (r : Registers) : Registers :=
  { r with status := { r.status with carry := false } }

theorem chain_self (m : Mnemonic) (cells : List UInt16) : chain m m cells = rotations m cells := by
  cases cells <;> rfl

theorem effects_chain_asl (hne : cells ≠ []) (r : Registers) (b : β) :
    Command.effects (chain .asl .rol cells) r b =
      Command.effects (rotations .rol cells) r.withoutCarry b := by
  obtain ⟨a, cells, rfl⟩ := List.exists_cons_of_ne_nil hne
  rw [chain, rotations_cons, effects_inPlace_cons rfl, effects_inPlace_cons rfl,
    ByteOp.shiftLeft_eq]
  rfl

theorem effects_chain_lsr (hne : cells ≠ []) (r : Registers) (b : β) :
    Command.effects (chain .lsr .ror cells) r b =
      Command.effects (rotations .ror cells) r.withoutCarry b := by
  obtain ⟨a, cells, rfl⟩ := List.exists_cons_of_ne_nil hne
  rw [chain, rotations_cons, effects_inPlace_cons rfl, effects_inPlace_cons rfl,
    ByteOp.shiftRight_eq]
  rfl

end Chains

/-! ## The shifted number -/

/-- The power of two that is the highest bit of numbers of `count` bytes. -/
theorem pow_eq_two_mul_pow {count : Nat} (h : count ≠ 0) :
    256 ^ count = 2 * 2 ^ (8 * count - 1) := by
  rw [← Nat.pow_succ', show (256 : Nat) = 2 ^ 8 from rfl, ← Nat.pow_mul]
  congr 1
  omega

theorem testBit_high {count k : Nat} (h : k < 2 * 2 ^ count) :
    k.testBit count = decide (2 ^ count ≤ k) := by
  by_cases hhigh : 2 ^ count ≤ k
  · rw [decide_eq_true hhigh]
    exact Nat.testBit_of_two_pow_le_and_two_pow_add_one_gt hhigh (by rwa [Nat.pow_succ'])
  · rw [decide_eq_false hhigh]
    exact Nat.testBit_lt_two_pow (Nat.lt_of_not_le hhigh)

/-- A number of `count` bytes and a carry that are doubled. -/
theorem double_and_carry {count k result : Nat} {carry out : Bool} (hcount : count ≠ 0)
    (hk : k < 256 ^ count) (hresult : result < 256 ^ count)
    (h : result + 256 ^ count * out.toNat = 2 * k + carry.toNat) :
    result = (2 * k + carry.toNat) % 256 ^ count ∧ out = k.testBit (8 * count - 1) := by
  constructor
  · exact ((Nat.div_mod_unique (Nat.zero_lt_of_lt hk)).2 ⟨h, hresult⟩).2.symm
  · rw [pow_eq_two_mul_pow hcount] at hk hresult h
    rw [testBit_high hk]
    cases out <;> cases carry <;> simp at h ⊢ <;> omega

/-- A number of `count` bytes and a carry that are halved. -/
theorem half_and_carry {count k result : Nat} {carry out : Bool} (hcount : count ≠ 0)
    (h : 2 * result + out.toNat = k + 256 ^ count * carry.toNat) :
    result = k / 2 + carry.toNat * 2 ^ (8 * count - 1) ∧ out = k.testBit 0 := by
  rw [pow_eq_two_mul_pow hcount, Nat.mul_assoc, Nat.mul_comm (2 ^ _)] at h
  rw [Nat.testBit_zero]
  cases out <;> simp at h ⊢ <;> omega

/-! ## Running the chains -/

/-- The mnemonics that shift their operand. -/
def Mnemonic.shifts : List Mnemonic := [.asl, .lsr, .rol, .ror]

theorem exists_change_of_mem_shifts {m : Mnemonic} (h : m ∈ Mnemonic.shifts) :
    ∃ change, m.action = .inPlace change := by
  simp only [Mnemonic.shifts, List.mem_cons, List.not_mem_nil, or_false] at h
  rcases h with rfl | rfl | rfl | rfl <;> exact ⟨_, rfl⟩

theorem straight_of_mem_shifts {m : Mnemonic} (h : m ∈ Mnemonic.shifts) :
    m.action.Straight := by
  simp only [Mnemonic.shifts, List.mem_cons, List.not_mem_nil, or_false] at h
  rcases h with rfl | rfl | rfl | rfl <;> exact ⟨fun _ _ => rfl, fun _ _ => ⟨rfl, rfl, rfl⟩⟩

theorem length_chain (first rest : Mnemonic) (cells : List UInt16) :
    (chain first rest cells).length = cells.length := by
  cases cells with
  | nil => rfl
  | cons a cells => simp [chain, rotations]

theorem mem_written_chain {first rest : Mnemonic} (hfirst : first ∈ Mnemonic.shifts)
    (hrest : rest ∈ Mnemonic.shifts) {cells : List UInt16} :
    ∀ a ∈ cells, a ∈ Command.written (chain first rest cells) := by
  obtain ⟨_, hfirst⟩ := exists_change_of_mem_shifts hfirst
  obtain ⟨_, hrest⟩ := exists_change_of_mem_shifts hrest
  rw [written_chain hfirst hrest]
  exact fun _ => id

theorem mem_shifts_of_mem_chain {first rest : Mnemonic} (hfirst : first ∈ Mnemonic.shifts)
    (hrest : rest ∈ Mnemonic.shifts) {cells : List UInt16} :
    ∀ op ∈ chain first rest cells, op.1 ∈ Mnemonic.shifts := by
  intro op hop
  cases cells with
  | nil => cases hop
  | cons a cells =>
    rcases List.mem_cons.1 hop with rfl | hop
    · exact hfirst
    · obtain ⟨x, -, rfl⟩ := List.mem_map.1 hop
      exact hrest

section Runs

variable {β : Type} [AddressSpace β] {s : System β} {cells : List UInt16}

theorem run_shifts {ops : List Command} (hops : ∀ op ∈ ops, op.1 ∈ Mnemonic.shifts)
    (h : Ready s ops) : ∃ cost t, CpuM.steps ops.length s = .ok cost t ∧
      t.cpu.toRegisters = (Command.effects ops s.cpu.toRegisters s.bus).1 ∧
      t.bus = (Command.effects ops s.cpu.toRegisters s.bus).2 :=
  h.run fun op hop => straight_of_mem_shifts (hops op hop)

/-- What a chain to the left does to the number, where it does to the memory what rotations do from
the registers `r`. -/
theorem chain_left {first : Mnemonic} (hfirst : first ∈ Mnemonic.shifts) (hne : cells ≠ [])
    (hnodup : cells.Nodup) {r : Registers}
    (hr : Command.effects (chain first .rol cells) s.cpu.toRegisters s.bus =
      Command.effects (rotations .rol cells) r s.bus)
    (h : Ready s (chain first .rol cells)) :
    ∃ cost t, CpuM.steps cells.length s = .ok cost t ∧
      numberAt t.bus cells =
        (2 * numberAt s.bus cells + r.status.carry.toNat) % 256 ^ cells.length ∧
      t.cpu.status.carry = (numberAt s.bus cells).testBit (8 * cells.length - 1) := by
  obtain ⟨cost, t, hsteps, hregs, hbus⟩ :=
    run_shifts (mem_shifts_of_mem_chain hfirst (by decide)) h
  rw [length_chain] at hsteps
  obtain ⟨seen, hram⟩ := h.ram
  have hlaw := numberAt_rotateLeft hram (mem_written_chain hfirst (by decide)) hnodup r
  rw [← hr, ← hregs, ← hbus] at hlaw
  exact ⟨cost, t, hsteps,
    double_and_carry (mt List.length_eq_zero_iff.1 hne) (numberAt_lt _ _) (numberAt_lt _ _) hlaw⟩

theorem chain_right {first : Mnemonic} (hfirst : first ∈ Mnemonic.shifts) (hne : cells ≠ [])
    (hnodup : cells.Nodup) {r : Registers}
    (hr : Command.effects (chain first .ror cells.reverse) s.cpu.toRegisters s.bus =
      Command.effects (rotations .ror cells.reverse) r s.bus)
    (h : Ready s (chain first .ror cells.reverse)) :
    ∃ cost t, CpuM.steps cells.length s = .ok cost t ∧
      numberAt t.bus cells =
        numberAt s.bus cells / 2 + r.status.carry.toNat * 2 ^ (8 * cells.length - 1) ∧
      t.cpu.status.carry = (numberAt s.bus cells).testBit 0 := by
  obtain ⟨cost, t, hsteps, hregs, hbus⟩ :=
    run_shifts (mem_shifts_of_mem_chain hfirst (by decide)) h
  rw [length_chain, List.length_reverse] at hsteps
  obtain ⟨seen, hram⟩ := h.ram
  have hcells : ∀ a ∈ cells, a ∈ Command.written (chain first .ror cells.reverse) :=
    fun a ha => mem_written_chain hfirst (by decide) a (List.mem_reverse.2 ha)
  have hlaw := numberAt_rotateRight hram hcells hnodup r
  rw [← hr, ← hregs, ← hbus] at hlaw
  exact ⟨cost, t, hsteps, half_and_carry (mt List.length_eq_zero_iff.1 hne) hlaw⟩

/-- The chain to the right takes back what the chain to the left has done. -/
theorem chain_left_right (hnodup : cells.Nodup)
    (h : Ready s (chain .rol .rol cells ++ chain .ror .ror cells.reverse)) :
    ∃ cost t, CpuM.steps (cells.length + cells.length) s = .ok cost t ∧
      numberAt t.bus cells = numberAt s.bus cells ∧
      t.cpu.status.carry = s.cpu.status.carry := by
  have hops : ∀ op ∈ chain .rol .rol cells ++ chain .ror .ror cells.reverse,
      op.1 ∈ Mnemonic.shifts := by
    intro op hop
    rcases List.mem_append.1 hop with hop | hop <;>
      exact mem_shifts_of_mem_chain (by decide) (by decide) op hop
  obtain ⟨cost, t, hsteps, hregs, hbus⟩ := run_shifts hops h
  rw [List.length_append, length_chain, length_chain, List.length_reverse] at hsteps
  obtain ⟨seen, hram⟩ := h.ram
  have hcells : ∀ a ∈ cells,
      a ∈ Command.written (chain .rol .rol cells ++ chain .ror .ror cells.reverse) := by
    intro a ha
    rw [Command.written, List.flatMap_append]
    exact List.mem_append_left _ (mem_written_chain (by decide) (by decide) a ha)
  rw [chain_self, chain_self, Command.effects_append] at hregs hbus
  have hleft := numberAt_rotateLeft hram hcells hnodup s.cpu.toRegisters
  have hafter := (ramAmong_rotations (m := .rol) hram rfl hcells s.cpu.toRegisters).1
  have hright := numberAt_rotateRight hafter hcells hnodup
    (Command.effects (rotations .rol cells) s.cpu.toRegisters s.bus).1
  rw [← hregs, ← hbus, hleft] at hright
  refine ⟨cost, t, hsteps, ?_⟩
  cases hin : s.cpu.status.carry <;> cases hout : t.cpu.status.carry <;>
    simp [hin, hout] at hright ⊢ <;> omega

/-- On the accumulator a shift does what it does on a byte in memory. -/
theorem shift_accumulator {m : Mnemonic} (hm : m ∈ Mnemonic.shifts) {u : System β} {a : UInt16}
    (hs : Ready s [(m, .address a)]) (hu : Ready u [(m, .accumulator)])
    (hvalue : u.cpu.a = byteAt s.bus a) (hstatus : u.cpu.status = s.cpu.status) :
    ∃ cost t cost' v, CpuM.step s = .ok cost t ∧ CpuM.step u = .ok cost' v ∧
      v.cpu.a = byteAt t.bus a ∧ v.cpu.status = t.cpu.status := by
  have hops (operand : Operand) : ∀ op ∈ [(m, operand)], op.1 ∈ Mnemonic.shifts := by
    simpa using hm
  obtain ⟨change, hchange⟩ := exists_change_of_mem_shifts hm
  obtain ⟨cost, t, hsteps, hregs, hbus⟩ := run_shifts (hops _) hs
  obtain ⟨cost', v, hsteps', hregs', -⟩ := run_shifts (hops _) hu
  obtain ⟨seen, hram⟩ := hs.ram
  have ha : a ∈ Command.written [(m, .address a)] := by
    simp [Command.written, hchange, Action.written, Action.inPlace, Operand.addresses]
  rw [List.length_singleton, CpuM.steps_one] at hsteps hsteps'
  rw [effects_inPlace_cons hchange] at hregs hbus
  have haccumulator : Command.effects [(m, .accumulator)] u.cpu.toRegisters u.bus =
      ({ u.cpu.toRegisters with
        a := (change u.cpu.a u.cpu.status).1
        status := (change u.cpu.a u.cpu.status).2 }, u.bus) := by
    rw [Command.effects, hchange]
    rfl
  rw [haccumulator, hvalue, hstatus] at hregs'
  refine ⟨cost, t, cost', v, hsteps, hsteps', ?_, ?_⟩
  · rw [hbus, hregs']
    exact (hram.byteAt_write_self ha _).symm
  · rw [hregs, hregs']
    rfl

end Runs

/-- Long shifts and rotations of a number in RAM. The chain to the left leaves the number doubled
and its highest bit in the carry, the chain to the right leaves it halved and its lowest bit in
the carry, and the second one after the first one restores what was there. On the accumulator
each operation does what it does on a byte in memory. -/
theorem long_shift {β : Type} [AddressSpace β] {cells : List UInt16}
    (hne : cells ≠ []) (hnodup : cells.Nodup) (s : System β) :
    let n := cells.length
    let k := numberAt s.bus cells
    let c := s.cpu.status.carry.toNat
    (Ready s (chain .rol .rol cells) → ∃ cost t, CpuM.steps n s = .ok cost t ∧
      numberAt t.bus cells = (2 * k + c) % 256 ^ n ∧
      t.cpu.status.carry = k.testBit (8 * n - 1)) ∧
    (Ready s (chain .asl .rol cells) → ∃ cost t, CpuM.steps n s = .ok cost t ∧
      numberAt t.bus cells = 2 * k % 256 ^ n ∧ t.cpu.status.carry = k.testBit (8 * n - 1)) ∧
    (Ready s (chain .ror .ror cells.reverse) → ∃ cost t, CpuM.steps n s = .ok cost t ∧
      numberAt t.bus cells = k / 2 + c * 2 ^ (8 * n - 1) ∧ t.cpu.status.carry = k.testBit 0) ∧
    (Ready s (chain .lsr .ror cells.reverse) → ∃ cost t, CpuM.steps n s = .ok cost t ∧
      numberAt t.bus cells = k / 2 ∧ t.cpu.status.carry = k.testBit 0) ∧
    (Ready s (chain .rol .rol cells ++ chain .ror .ror cells.reverse) →
      ∃ cost t, CpuM.steps (n + n) s = .ok cost t ∧
        numberAt t.bus cells = k ∧ t.cpu.status.carry = s.cpu.status.carry) ∧
    ∀ m ∈ Mnemonic.shifts, ∀ (u : System β) (a : UInt16), Ready s [(m, .address a)] →
      Ready u [(m, .accumulator)] → u.cpu.a = byteAt s.bus a → u.cpu.status = s.cpu.status →
      ∃ cost t cost' v, CpuM.step s = .ok cost t ∧ CpuM.step u = .ok cost' v ∧
        v.cpu.a = byteAt t.bus a ∧ v.cpu.status = t.cpu.status := by
  intro n k c
  have hreverse : cells.reverse ≠ [] := mt List.reverse_eq_nil_iff.1 hne
  refine ⟨fun h => ?rol, fun h => ?asl, fun h => ?ror, fun h => ?lsr, chain_left_right hnodup,
    fun m hm u a => shift_accumulator hm⟩
  case rol => exact chain_left (by decide) hne hnodup (by rw [chain_self]) h
  case asl => exact chain_left (by decide) hne hnodup (effects_chain_asl hne _ _) h
  case ror => exact chain_right (by decide) hne hnodup (by rw [chain_self]) h
  case lsr =>
    obtain ⟨cost, t, hsteps, hnumber, hcarry⟩ :=
      chain_right (by decide) hne hnodup (effects_chain_lsr hreverse _ _) h
    exact ⟨cost, t, hsteps, hnumber.trans (by simp [Registers.withoutCarry, k]), hcarry⟩

/-- `$81C3` in work RAM, and a carry that is set. The code is in PRG ROM. -/
theorem long_shift_two_bytes :
    let cartridge (code : List UInt8) : Cartridge :=
      { prg := ⟨code.toArray⟩
        chr := .rom .empty
        prgRam := .zeros _
        mirroring := .vertical
        battery := false
        mapper := 0 }
    let board (code : List UInt8) : Board :=
      { Board.initial.insert (cartridge code) with
        ram := ((Memory.zeros _).write 0x0A 0xC3).write 0x0B 0x81 }
    let s (code : List UInt8) : System Board :=
      ⟨{ Cpu.initial with
          a := 0xC3, pc := 0x8000, status := { Status.powerUp with carry := true } }, board code⟩
    (∃ cost t, CpuM.steps 2 (s [0x26, 0x0A, 0x26, 0x0B]) = .ok cost t ∧
      numberAt t.bus [0x0A, 0x0B] = 0x0387 ∧ t.cpu.status.carry = true) ∧
    (∃ cost t, CpuM.steps 2 (s [0x06, 0x0A, 0x26, 0x0B]) = .ok cost t ∧
      numberAt t.bus [0x0A, 0x0B] = 0x0386 ∧ t.cpu.status.carry = true) ∧
    (∃ cost t, CpuM.steps 2 (s [0x66, 0x0B, 0x66, 0x0A]) = .ok cost t ∧
      numberAt t.bus [0x0A, 0x0B] = 0xC0E1 ∧ t.cpu.status.carry = true) ∧
    (∃ cost t, CpuM.steps 2 (s [0x46, 0x0B, 0x66, 0x0A]) = .ok cost t ∧
      numberAt t.bus [0x0A, 0x0B] = 0x40E1 ∧ t.cpu.status.carry = true) ∧
    (∃ cost t, CpuM.steps 4 (s [0x26, 0x0A, 0x26, 0x0B, 0x66, 0x0B, 0x66, 0x0A]) = .ok cost t ∧
      numberAt t.bus [0x0A, 0x0B] = 0x81C3 ∧ t.cpu.status.carry = true) ∧
    ∃ cost t cost' v, CpuM.step (s [0x66, 0x0A]) = .ok cost t ∧ CpuM.step (s [0x6A]) = .ok cost' v ∧
      v.cpu.a = byteAt t.bus 0x0A ∧ v.cpu.status = t.cpu.status := by
  intro cartridge board s
  have hne : ([0x0A, 0x0B] : List UInt16) ≠ [] := List.cons_ne_nil _ _
  have hlaw (code : List UInt8) := long_shift hne (by decide) (s code)
  have hram {cells : List UInt16} (hcells : cells.all (· ≤ 0x07FF)) (code : List UInt8) :
      RamAmong cells (fun x => x ∈ cells ∨ 0x8000 ≤ x) (s code).bus :=
    Board.ramAmong_prg (by simpa using hcells) rfl
  refine ⟨?rol, ?asl, ?ror, ?lsr, ?back, ?accumulator⟩
  case rol =>
    obtain ⟨cost, t, hsteps, hnumber, hcarry⟩ := (hlaw [0x26, 0x0A, 0x26, 0x0B]).1
      (.of_codeCost? rfl (hram rfl _) (by decide +kernel))
    exact ⟨cost, t, hsteps, hnumber.trans (by decide +kernel), hcarry.trans (by decide +kernel)⟩
  case asl =>
    obtain ⟨cost, t, hsteps, hnumber, hcarry⟩ := (hlaw [0x06, 0x0A, 0x26, 0x0B]).2.1
      (.of_codeCost? rfl (hram rfl _) (by decide +kernel))
    exact ⟨cost, t, hsteps, hnumber.trans (by decide +kernel), hcarry.trans (by decide +kernel)⟩
  case ror =>
    obtain ⟨cost, t, hsteps, hnumber, hcarry⟩ := (hlaw [0x66, 0x0B, 0x66, 0x0A]).2.2.1
      (.of_codeCost? rfl (hram rfl _) (by decide +kernel))
    exact ⟨cost, t, hsteps, hnumber.trans (by decide +kernel), hcarry.trans (by decide +kernel)⟩
  case lsr =>
    obtain ⟨cost, t, hsteps, hnumber, hcarry⟩ := (hlaw [0x46, 0x0B, 0x66, 0x0A]).2.2.2.1
      (.of_codeCost? rfl (hram rfl _) (by decide +kernel))
    exact ⟨cost, t, hsteps, hnumber.trans (by decide +kernel), hcarry.trans (by decide +kernel)⟩
  case back =>
    obtain ⟨cost, t, hsteps, hnumber, hcarry⟩ :=
      (hlaw [0x26, 0x0A, 0x26, 0x0B, 0x66, 0x0B, 0x66, 0x0A]).2.2.2.2.1
        (.of_codeCost? rfl (hram rfl _) (by decide +kernel))
    exact ⟨cost, t, hsteps, hnumber.trans (by decide +kernel), hcarry⟩
  case accumulator =>
    exact (hlaw [0x66, 0x0A]).2.2.2.2.2 .ror (by decide) (s [0x6A]) 0x0A
      (.of_codeCost? rfl (hram rfl _) (by decide +kernel))
      (.of_codeCost? rfl (hram rfl _) (by decide +kernel))
      (by decide +kernel) rfl

end Famicom
