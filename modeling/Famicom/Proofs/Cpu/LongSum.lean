import Famicom.Proofs.Cpu.Straight

/-!
# Sums of long numbers

A number of several bytes is added to another one column by column, from the low bytes on : load a
byte of the first number, add a byte of the second one, store the sum. Load and store leave the
carry as it is, so that the carry out of one column goes into the next. With subtraction in place of
addition the bytes of the second number are complemented on their way, so the difference is a sum
too (`Mnemonic.Adds`).

`numberAt_effects_program` is the law of the columns : the stored number, and behind it the carry,
is the sum of the two numbers and the first carry. It is an induction from the low column on, each
step of which is the law of one addition (`Registers.add_law`). The overflow flag is the one that
the high column leaves : it tells that the sum of the two numbers as signed ones (`signedAt`) does
not fit into as many bytes (`overflow_effects_program`). No part of this depends on the decimal
flag (`effects_program_withDecimal`).
-/

namespace Famicom

/-! ## Signed numbers -/

/-- The number that these bytes stand for in two's complement, the low one first. -/
def signedNumber (bytes : List UInt8) : Int := (number bytes : Int).bmod (256 ^ bytes.length)

/-- The whole number is one that `count` bytes stand for in two's complement. -/
def FitsSigned (count : Nat) (z : Int) : Prop := -256 ^ count ≤ 2 * z ∧ 2 * z < 256 ^ count

instance (count : Nat) (z : Int) : Decidable (FitsSigned count z) :=
  inferInstanceAs (Decidable (_ ∧ _))

theorem exists_pow_eq_two_mul {bytes : List UInt8} (h : bytes ≠ []) :
    ∃ half, 256 ^ bytes.length = 2 * half := by
  cases bytes with
  | nil => exact absurd rfl h
  | cons value bytes =>
    refine ⟨128 * 256 ^ bytes.length, ?_⟩
    rw [List.length_cons, Nat.pow_succ]
    omega

/-- Numbers below the half stand for themselves. -/
theorem signedNumber_eq {bytes : List UInt8} {half : Nat} (h : 256 ^ bytes.length = 2 * half) :
    signedNumber bytes =
      if number bytes < half then (number bytes : Int) else number bytes - (2 * half : Int) := by
  have hlt := number_lt bytes
  rw [h] at hlt
  have hmod : (number bytes : Int) % (2 * half : Nat) = number bytes :=
    Int.emod_eq_of_lt (by omega) (by omega)
  have hhalf : (((2 * half : Nat) : Int) + 1) / 2 = half := by omega
  rw [signedNumber, h, Int.bmod_def, hmod, hhalf]
  split <;> split <;> omega

/-- The sign comes from the high bytes. -/
theorem signedNumber_cons (value : UInt8) {bytes : List UInt8} (h : bytes ≠ []) :
    signedNumber (value :: bytes) = value.toNat + 256 * signedNumber bytes := by
  obtain ⟨half, hhalf⟩ := exists_pow_eq_two_mul h
  have hwhole : 256 ^ (value :: bytes).length = 2 * (256 * half) := by
    rw [List.length_cons, Nat.pow_succ]
    omega
  have hvalue := value.toNat_lt
  rw [signedNumber_eq hhalf, signedNumber_eq hwhole, number_cons]
  split <;> split <;> push_cast <;> omega

/-- A number and its complement add up to all ones. -/
theorem number_complement (bytes : List UInt8) :
    number (bytes.map (~~~ ·)) + number bytes + 1 = 256 ^ bytes.length := by
  induction bytes with
  | nil => rfl
  | cons value bytes ih =>
    have hvalue := value.toNat_lt
    rw [List.map_cons, number_cons, number_cons, toNat_complement, List.length_cons, Nat.pow_succ]
    omega

theorem signedNumber_complement {bytes : List UInt8} (h : bytes ≠ []) :
    signedNumber (bytes.map (~~~ ·)) = -1 - signedNumber bytes := by
  obtain ⟨half, hhalf⟩ := exists_pow_eq_two_mul h
  have hcomplement : 256 ^ (bytes.map (~~~ ·)).length = 2 * half := by
    rw [List.length_map, hhalf]
  have hsum := number_complement bytes
  rw [signedNumber_eq hhalf, signedNumber_eq hcomplement]
  split <;> split <;> omega

/-- Adding a low byte does not decide whether a number fits, unless there are no other bytes. -/
theorem fitsSigned_succ {count : Nat} (h : count ≠ 0) {low : Nat} (hlow : low < 256) (z : Int) :
    FitsSigned (count + 1) (low + 256 * z) ↔ FitsSigned count z := by
  obtain ⟨half, hhalf⟩ : ∃ half : Int, 256 ^ count = 2 * half := by
    refine ⟨128 * 256 ^ (count - 1), ?_⟩
    obtain ⟨count, rfl⟩ := Nat.exists_eq_succ_of_ne_zero h
    rw [Nat.succ_sub_one, Int.pow_succ]
    omega
  simp only [FitsSigned, Int.pow_succ, hhalf]
  omega

/-- The number in two's complement whose bytes are at these addresses, the low one first. -/
def signedAt {β : Type} [AddressSpace β] (b : β) (addresses : List UInt16) : Int :=
  signedNumber (addresses.map (byteAt b))

theorem signedAt_cons {β : Type} [AddressSpace β] (b : β) (a : UInt16) {addresses : List UInt16}
    (h : addresses ≠ []) :
    signedAt b (a :: addresses) = (byteAt b a).toNat + 256 * signedAt b addresses :=
  signedNumber_cons _ (mt List.map_eq_nil_iff.1 h)

/-! ## One addition -/

theorem signedNumber_singleton (value : UInt8) : signedNumber [value] =
    if value.toNat < 128 then (value.toNat : Int) else value.toNat - 256 := by
  have hone : 256 ^ [value].length = 2 * 128 := rfl
  have hnumber : number [value] = value.toNat := number_cons value []
  rw [signedNumber_eq hone, hnumber]
  rfl

theorem msb_eq_decide (value : UInt8) : value.toBitVec.msb = decide (128 ≤ value.toNat) :=
  BitVec.msb_eq_decide _

theorem and_128_ne_zero (value : UInt8) : (value &&& 0x80 != 0) = value.toBitVec.msb := by
  obtain ⟨bits⟩ := value
  revert bits
  decide +kernel

namespace Registers

/-- The overflow flag compares the signs of the summands with the sign of the sum. -/
theorem overflow_add (r : Registers) (value : UInt8) :
    (r.add value).status.overflow = true ↔
      (128 ≤ r.a.toNat ↔ 128 ≤ value.toNat) ∧
        ¬ (128 ≤ r.a.toNat ↔ 128 ≤ (r.add value).a.toNat) := by
  have hoverflow : (r.add value).status.overflow =
      (~~~(r.a ^^^ value) &&& (r.a ^^^ (r.add value).a) &&& 0x80 != 0) := rfl
  rw [hoverflow, and_128_ne_zero]
  simp only [UInt8.toBitVec_and, UInt8.toBitVec_not, UInt8.toBitVec_xor, BitVec.msb_and,
    BitVec.msb_not, BitVec.msb_xor, msb_eq_decide]
  by_cases ha : 128 ≤ r.a.toNat <;> by_cases hv : 128 ≤ value.toNat <;> simp [ha, hv]

/-- The sum of two bytes and the carry is in the accumulator and the carry. The overflow flag tells
that the sum of the signed bytes does not fit into one. -/
theorem add_law (r : Registers) (value : UInt8) :
    (r.add value).a.toNat + 256 * (r.add value).status.carry.toNat =
        r.a.toNat + value.toNat + r.status.carry.toNat ∧
      ((r.add value).status.overflow = true ↔
        ¬ FitsSigned 1 (signedNumber [r.a] + signedNumber [value] + r.status.carry.toNat)) := by
  have ha := r.a.toNat_lt
  have hvalue := value.toNat_lt
  have hbit := r.status.carry.toNat_le
  have htotal : r.a.toNat + value.toNat + (if r.status.carry then 1 else 0) =
      r.a.toNat + value.toNat + r.status.carry.toNat := by
    cases r.status.carry <;> rfl
  have hsum : (r.add value).a.toNat = (r.a.toNat + value.toNat + r.status.carry.toNat) % 256 := by
    rw [← htotal]
    rfl
  have hcarry : (r.add value).status.carry =
      decide (0xFF < r.a.toNat + value.toNat + r.status.carry.toNat) := by
    rw [← htotal]
    rfl
  constructor
  · rw [hsum, hcarry]
    by_cases hout : 0xFF < r.a.toNat + value.toNat + r.status.carry.toNat <;>
      simp only [hout, decide_true, decide_false, Bool.toNat_true, Bool.toNat_false] <;> omega
  · rw [overflow_add, hsum, signedNumber_singleton, signedNumber_singleton, FitsSigned]
    split <;> split <;> omega

end Registers

/-! ## Columns -/

/-- Where the bytes of one column are. -/
structure Column where
  first : UInt16
  second : UInt16
  result : UInt16
  deriving DecidableEq, Repr

/-- Load the first byte, do an operation with the second one, store the result. -/
def Column.sum (m : Mnemonic) (c : Column) : List Command :=
  [(.lda, .address c.first), (m, .address c.second), (.sta, .address c.result)]

/-- The work on all columns, the first one first. -/
def program (m : Mnemonic) (columns : List Column) : List Command := columns.flatMap (Column.sum m)

/-- The results are kept apart from each other and from the operands. -/
structure Apart (columns : List Column) : Prop where
  nodup : (columns.map Column.result).Nodup
  operands : ∀ c ∈ columns, ∀ d ∈ columns, c.result ≠ d.first ∧ c.result ≠ d.second

/-- The operands of the column are seen, and its result is in a cell. -/
structure Column.Within (cells : List UInt16) (seen : UInt16 → Bool) (c : Column) : Prop where
  first : seen c.first
  second : seen c.second
  result : c.result ∈ cells

/-- The mnemonic adds the byte of its operand, or what becomes of that byte on the way. -/
def Mnemonic.Adds (m : Mnemonic) (f : UInt8 → UInt8) : Prop :=
  m.action = .load fun r value => r.add (f value)

theorem Mnemonic.adds_adc : Mnemonic.adc.Adds id := rfl

theorem Mnemonic.adds_sbc : Mnemonic.sbc.Adds (~~~ ·) := rfl

section Columns

variable {β : Type} [AddressSpace β] {m : Mnemonic} {f : UInt8 → UInt8} {columns : List Column}

theorem effects_program_cons (hm : m.Adds f) (c : Column) (columns : List Column) (r : Registers)
    (b : β) :
    let q := (r.setA (byteAt b c.first)).add (f (byteAt b c.second))
    Command.effects (program m (c :: columns)) r b =
      Command.effects (program m columns) q (AddressSpace.write c.result q.a b).2 := by
  show Command.effects (program m columns) _ _ = _
  rw [hm]
  rfl

theorem written_program (hm : m.Adds f) (columns : List Column) :
    Command.written (program m columns) = columns.map Column.result := by
  induction columns with
  | nil => rfl
  | cons c columns ih =>
    have hhead : Command.written (c.sum m) = [c.result] := by
      show [] ++ (m.action.written _ ++ _) = _
      rw [hm]
      rfl
    show Command.written (c.sum m ++ program m columns) = _
    rw [Command.written, List.flatMap_append]
    exact congrArg₂ (· ++ ·) hhead ih

/-- The columns are within what code for them looks at. -/
theorem within_of_code {seen : UInt16 → Bool} {r : Registers} {b : β} {pc : UInt16} {cost : Nat}
    (h : Code (columns.map Column.result) seen r b pc (program m columns) cost) :
    ∀ c ∈ columns, c.Within (columns.map Column.result) seen := by
  intro c hc
  have hseen (op : Command) (hop : op ∈ c.sum m) : ∀ a ∈ op.2.addresses, seen a :=
    h.seen_of_mem op (List.mem_flatMap.2 ⟨c, hc, hop⟩)
  exact ⟨hseen (.lda, .address c.first) (by simp [Column.sum]) _ List.mem_cons_self,
    hseen (m, .address c.second) (by simp [Column.sum]) _ List.mem_cons_self,
    List.mem_map_of_mem hc⟩

/-- The bytes of the second number as they are added. -/
def addends (f : UInt8 → UInt8) (b : β) (columns : List Column) : List UInt8 :=
  (columns.map Column.second).map (f ∘ byteAt b)

theorem addends_cons (f : UInt8 → UInt8) (b : β) (c : Column) (columns : List Column) :
    addends f b (c :: columns) = f (byteAt b c.second) :: addends f b columns := rfl

/-! ## The law of the columns -/

namespace Apart

variable {c : Column}

theorem tail (h : Apart (c :: columns)) : Apart columns where
  nodup := (List.nodup_cons.1 h.nodup).2
  operands c hc d hd := h.operands c (List.mem_cons_of_mem _ hc) d (List.mem_cons_of_mem _ hd)

variable {cells : List UInt16} {seen : UInt16 → Bool} {b : β} (h : Apart (c :: columns))
  (hram : RamAmong cells seen b) (hin : ∀ d ∈ c :: columns, d.Within cells seen) (value : UInt8)

include h hram hin

/-- The result of the first column stays as it is stored. -/
theorem byteAt_result (hm : m.Adds f) (r : Registers) :
    byteAt (Command.effects (program m columns) r
      (AddressSpace.write c.result value b).2).2 c.result = value := by
  obtain ⟨-, -, hc⟩ := hin c List.mem_cons_self
  have hresult := (List.nodup_cons.1 h.nodup).1
  have hwritten : ∀ a ∈ Command.written (program m columns), a ∈ cells := by
    rw [written_program hm]
    exact List.forall_mem_map.2 fun d hd => (hin d (List.mem_cons_of_mem _ hd)).result
  rw [← written_program hm] at hresult
  have hrest := (Command.ramAmong_effects (hram.after_write hc value) hwritten r).2
  rw [hrest c.result (hram.seen_of_mem hc) hresult, hram.byteAt_write_self hc]

/-- The result of the first column meets no operand of the others. -/
theorem byteAt_operands {d : Column} (hd : d ∈ columns) :
    byteAt (AddressSpace.write c.result value b).2 d.first = byteAt b d.first ∧
      byteAt (AddressSpace.write c.result value b).2 d.second = byteAt b d.second := by
  obtain ⟨-, -, hc⟩ := hin c List.mem_cons_self
  obtain ⟨hfirst, hsecond, -⟩ := hin d (List.mem_cons_of_mem _ hd)
  obtain ⟨hne, hne'⟩ := h.operands c List.mem_cons_self d (List.mem_cons_of_mem _ hd)
  exact ⟨hram.byteAt_write_of_ne hc value hfirst hne.symm,
    hram.byteAt_write_of_ne hc value hsecond hne'.symm⟩

theorem firsts_write :
    (columns.map Column.first).map (byteAt (AddressSpace.write c.result value b).2) =
      (columns.map Column.first).map (byteAt b) := by
  simp only [List.map_map]
  exact List.map_congr_left fun d hd => (h.byteAt_operands hram hin value hd).1

theorem addends_write :
    addends f (AddressSpace.write c.result value b).2 columns = addends f b columns := by
  simp only [addends, List.map_map]
  exact List.map_congr_left fun d hd => congrArg f (h.byteAt_operands hram hin value hd).2

end Apart

section Law

variable {cells : List UInt16} {seen : UInt16 → Bool} {b : β} (hm : m.Adds f)
  (h : Apart columns) (hram : RamAmong cells seen b) (hin : ∀ c ∈ columns, c.Within cells seen)

include hm h hram hin

/-- The results and behind them the carry are the sum. -/
theorem numberAt_effects_program (r : Registers) :
    numberAt (Command.effects (program m columns) r b).2 (columns.map Column.result) +
        256 ^ columns.length * (Command.effects (program m columns) r b).1.status.carry.toNat =
      numberAt b (columns.map Column.first) + number (addends f b columns) +
        r.status.carry.toNat := by
  induction columns generalizing r b with
  | nil =>
    show number [] + 256 ^ 0 * r.status.carry.toNat = number [] + number [] + _
    simp [number]
  | cons c columns ih =>
    let p := (r.setA (byteAt b c.first)).add (f (byteAt b c.second))
    have hbyte : p.a.toNat + 256 * p.status.carry.toNat =
        (byteAt b c.first).toNat + (f (byteAt b c.second)).toNat + r.status.carry.toNat :=
      (Registers.add_law (r.setA (byteAt b c.first)) (f (byteAt b c.second))).1
    have hc := (hin c List.mem_cons_self).result
    have hrest := ih h.tail (hram.after_write hc p.a)
      (fun d hd => hin d (List.mem_cons_of_mem _ hd)) p
    have hprogram : Command.effects (program m (c :: columns)) r b =
        Command.effects (program m columns) p (AddressSpace.write c.result p.a b).2 :=
      effects_program_cons hm c columns r b
    rw [hprogram, List.map_cons, List.map_cons, numberAt_cons, numberAt_cons,
      addends_cons, number_cons, h.byteAt_result hram hin p.a hm, List.length_cons, Nat.pow_succ,
      Nat.mul_right_comm]
    simp only [numberAt, h.firsts_write hram hin, h.addends_write hram hin] at hrest ⊢
    omega

/-- The overflow flag tells that the sum of the signed numbers does not fit. -/
theorem overflow_effects_program (hne : columns ≠ []) (r : Registers) :
    (Command.effects (program m columns) r b).1.status.overflow = true ↔
      ¬ FitsSigned columns.length (signedAt b (columns.map Column.first) +
        signedNumber (addends f b columns) + r.status.carry.toNat) := by
  induction columns generalizing r b with
  | nil => exact absurd rfl hne
  | cons c columns ih =>
    let p := (r.setA (byteAt b c.first)).add (f (byteAt b c.second))
    obtain ⟨hbyte, hover⟩ := Registers.add_law (r.setA (byteAt b c.first)) (f (byteAt b c.second))
    replace hbyte : p.a.toNat + 256 * p.status.carry.toNat =
      (byteAt b c.first).toNat + (f (byteAt b c.second)).toNat + r.status.carry.toNat := hbyte
    rw [effects_program_cons hm]
    -- the flag of a low column is overwritten, only its carry counts
    rcases eq_or_ne columns [] with rfl | hrest
    · exact hover
    · have hfirsts : columns.map Column.first ≠ [] := mt List.map_eq_nil_iff.1 hrest
      have hadds : addends f b columns ≠ [] := by simpa [addends] using hrest
      have hlength : columns.length ≠ 0 := mt List.length_eq_zero_iff.1 hrest
      have htotal : signedAt b ((c :: columns).map Column.first) +
          signedNumber (addends f b (c :: columns)) + r.status.carry.toNat =
          p.a.toNat + 256 * (signedAt b (columns.map Column.first) +
            signedNumber (addends f b columns) + p.status.carry.toNat) := by
        rw [List.map_cons, signedAt_cons b _ hfirsts, addends_cons, signedNumber_cons _ hadds]
        omega
      have hc := (hin c List.mem_cons_self).result
      rw [htotal, List.length_cons, fitsSigned_succ hlength p.a.toNat_lt, ih h.tail
        (hram.after_write hc p.a) (fun d hd => hin d (List.mem_cons_of_mem _ hd)) hrest, signedAt,
        h.firsts_write hram hin, h.addends_write hram hin]
      rfl

end Law

/-- The decimal flag set to `d`. -/
def Registers.withDecimal (d : Bool) (r : Registers) : Registers :=
  { r with status := { r.status with decimal := d } }

/-- Whichever the decimal flag is, it stays and has no influence. -/
theorem effects_program_withDecimal (hm : m.Adds f) (columns : List Column) (d : Bool)
    (r : Registers) (b : β) :
    Command.effects (program m columns) (r.withDecimal d) b =
      ((Command.effects (program m columns) r b).1.withDecimal d,
        (Command.effects (program m columns) r b).2) := by
  induction columns generalizing r b with
  | nil => rfl
  | cons c columns ih =>
    have hadd (value byte : UInt8) : ((r.withDecimal d).setA value).add byte =
        ((r.setA value).add byte).withDecimal d := rfl
    rw [effects_program_cons hm, effects_program_cons hm, hadd]
    exact ih _ _

theorem straight_program (hm : m.Adds f) (columns : List Column) :
    ∀ op ∈ program m columns, op.1.action.Straight := by
  have hcolumn (c : Column) : ∀ op ∈ c.sum m, op.1.action.Straight := by
    rintro op (_ | ⟨_, _ | ⟨_, _ | ⟨_, ⟨⟩⟩⟩⟩)
    · exact fun _ _ => ⟨rfl, rfl, rfl⟩
    · rw [hm]
      exact fun _ _ => ⟨rfl, rfl, rfl⟩
    · trivial
  intro op hop
  obtain ⟨c, -, hc⟩ := List.mem_flatMap.1 hop
  exact hcolumn c op hc

theorem length_program (m : Mnemonic) (columns : List Column) :
    (program m columns).length = 3 * columns.length := by
  induction columns with
  | nil => rfl
  | cons c columns ih =>
    show (c.sum m ++ program m columns).length = _
    rw [List.length_append, ih, List.length_cons]
    show 3 + _ = _
    omega

/-- The system with the decimal flag set to `d`. -/
def System.withDecimal (d : Bool) (s : System β) : System β :=
  ⟨{ s.cpu with toRegisters := s.cpu.toRegisters.withDecimal d }, s.bus⟩

/-- A processor at the code works on all columns : the sum with its carry, the overflow flag, and
that another decimal flag changes nothing but itself. -/
theorem run_program (hm : m.Adds f) (hne : columns ≠ []) (hapart : Apart columns)
    {s : System β} (h : Ready s (program m columns)) :
    ∃ k t, CpuM.steps (3 * columns.length) s = .ok k t ∧
      numberAt t.bus (columns.map Column.result) +
          256 ^ columns.length * t.cpu.status.carry.toNat =
        numberAt s.bus (columns.map Column.first) + number (addends f s.bus columns) +
          s.cpu.status.carry.toNat ∧
      (t.cpu.status.overflow = true ↔
        ¬ FitsSigned columns.length (signedAt s.bus (columns.map Column.first) +
          signedNumber (addends f s.bus columns) + s.cpu.status.carry.toNat)) ∧
      ∀ d, ∃ u, CpuM.steps (3 * columns.length) (s.withDecimal d) = .ok k u ∧
        u.cpu.toRegisters = t.cpu.toRegisters.withDecimal d ∧ u.bus = t.bus := by
  obtain ⟨hserved, seen, k, hram, hcode⟩ := h
  have hstraight := straight_program hm columns
  rw [← length_program m]
  obtain ⟨t, hsteps, hregs, hbus⟩ := hcode.run hserved hram hstraight fun _ ha => ha
  rw [written_program hm] at hram hcode
  have hin := within_of_code hcode
  have hsum := numberAt_effects_program hm hapart hram hin s.cpu.toRegisters
  have hover := overflow_effects_program hm hapart hram hin hne s.cpu.toRegisters
  rw [← hregs, ← hbus] at hsum
  rw [← hregs] at hover
  refine ⟨k, t, hsteps, hsum, hover, fun d => ?_⟩
  have hcode' : Code (columns.map Column.result) seen (s.cpu.toRegisters.withDecimal d) s.bus
      s.cpu.pc (program m columns) k := hcode.congr rfl rfl fun _ _ _ => rfl
  obtain ⟨u, hsteps', hregs', hbus'⟩ := Code.run (s := s.withDecimal d) hserved hram hcode'
    hstraight fun a ha => by rwa [written_program hm] at ha
  obtain ⟨heffects, hmemory⟩ := Prod.ext_iff.1
    (effects_program_withDecimal hm columns d s.cpu.toRegisters s.bus)
  rw [hregs, hbus]
  exact ⟨u, hsteps', hregs'.trans heffects, hbus'.trans hmemory⟩

end Columns

/-- The sum with the complement is the difference. It carries where nothing is borrowed. -/
theorem difference_and_borrow {whole first second complement c result : Nat} {carry : Bool}
    (hc : c ≤ 1) (hresult : result < whole) (hcomplement : complement + second + 1 = whole)
    (h : result + whole * carry.toNat = first + complement + c) :
    (result : Int) = (first - second - (1 - c) : Int) % whole ∧
      (carry = true ↔ second + (1 - c) ≤ first) := by
  constructor
  · have hdifference : (result + whole * (carry.toNat - 1) : Int) = first - second - (1 - c) := by
      rw [Int.mul_sub]
      zify at h hcomplement
      omega
    exact ((Int.ediv_emod_unique (by omega)).2 ⟨hdifference, by omega, by omega⟩).2.symm
  · cases carry <;> simp at h ⊢ <;> omega

/-- Long addition and long subtraction : the result, the carry and the overflow flag of the whole
numbers, whichever the decimal flag is. -/
theorem long_sum {β : Type} [AddressSpace β] {columns : List Column}
    (hne : columns ≠ []) (hapart : Apart columns) (s : System β) :
    let n := columns.length
    let first := columns.map Column.first
    let second := columns.map Column.second
    let result := columns.map Column.result
    let c := s.cpu.status.carry.toNat
    (Ready s (program .adc columns) → ∃ k t, CpuM.steps (3 * n) s = .ok k t ∧
      numberAt t.bus result = (numberAt s.bus first + numberAt s.bus second + c) % 256 ^ n ∧
      t.cpu.status.carry.toNat = (numberAt s.bus first + numberAt s.bus second + c) / 256 ^ n ∧
      (t.cpu.status.overflow = true ↔
        ¬ FitsSigned n (signedAt s.bus first + signedAt s.bus second + c)) ∧
      ∀ d, ∃ u, CpuM.steps (3 * n) (s.withDecimal d) = .ok k u ∧
        u.cpu.toRegisters = t.cpu.toRegisters.withDecimal d ∧ u.bus = t.bus) ∧
    (Ready s (program .sbc columns) → ∃ k t, CpuM.steps (3 * n) s = .ok k t ∧
      (numberAt t.bus result : Int) =
        (numberAt s.bus first - numberAt s.bus second - (1 - c) : Int) % 256 ^ n ∧
      (t.cpu.status.carry = true ↔ numberAt s.bus second + (1 - c) ≤ numberAt s.bus first) ∧
      (t.cpu.status.overflow = true ↔
        ¬ FitsSigned n (signedAt s.bus first - signedAt s.bus second - (1 - c))) ∧
      ∀ d, ∃ u, CpuM.steps (3 * n) (s.withDecimal d) = .ok k u ∧
        u.cpu.toRegisters = t.cpu.toRegisters.withDecimal d ∧ u.bus = t.bus) := by
  intro n first second result c
  have hc : c ≤ 1 := s.cpu.status.carry.toNat_le
  have hlt (t : System β) : numberAt t.bus result < 256 ^ n := by
    simpa [result] using numberAt_lt t.bus result
  constructor
  · intro hready
    obtain ⟨k, t, hsteps, hsum, hover, hdecimal⟩ :=
      run_program Mnemonic.adds_adc hne hapart hready
    obtain ⟨hcarry, hresult⟩ :=
      (Nat.div_mod_unique (Nat.zero_lt_of_lt (hlt t))).2 ⟨hsum, hlt t⟩
    exact ⟨k, t, hsteps, hresult.symm, hcarry.symm, hover, hdecimal⟩
  · intro hready
    obtain ⟨k, t, hsteps, hsum, hover, hdecimal⟩ :=
      run_program Mnemonic.adds_sbc hne hapart hready
    let complement := (second.map (byteAt s.bus)).map (~~~ ·)
    have hadds : addends (~~~ ·) s.bus columns = complement := (List.map_map ..).symm
    have hcomplement : number complement + numberAt s.bus second + 1 = 256 ^ n := by
      rw [numberAt, number_complement, List.length_map, List.length_map]
    have hsigned : signedNumber complement = -1 - signedAt s.bus second :=
      signedNumber_complement (by simpa [second] using hne)
    rw [hadds] at hsum hover
    obtain ⟨hresult, hcarry⟩ := difference_and_borrow hc (hlt t) hcomplement hsum
    refine ⟨k, t, hsteps, by exact_mod_cast hresult, hcarry, ?_, hdecimal⟩
    have hshift : signedAt s.bus first - signedAt s.bus second - (1 - c) =
        signedAt s.bus first + signedNumber complement + c := by
      rw [hsigned]
      omega
    rw [hshift]
    exact hover

/-- `$7EFF + $0201` leaves the signed numbers of two bytes, `$7EFF - $0201` does not. The second
numbers stand in the code, as immediate operands. -/
theorem long_sum_two_bytes :
    let memory (opcode : UInt8) : Memory 0x10000 :=
      [0xA5, 0x10, opcode, 0x01, 0x85, 0x14, 0xA5, 0x11, opcode, 0x02, 0x85, 0x15, 0, 0, 0, 0,
        0xFF, 0x7E].zipIdx.foldl (fun m (value, i) => m.write i value) (Memory.zeros _)
    (∃ k t, CpuM.steps 6 ⟨Cpu.initial, memory 0x69⟩ = .ok k t ∧
      numberAt t.bus [0x14, 0x15] = 0x8100 ∧ t.cpu.status.carry.toNat = 0 ∧
      t.cpu.status.overflow = true) ∧
    ∃ k t, CpuM.steps 6 ⟨Cpu.initial, memory 0xE9⟩ = .ok k t ∧
      (numberAt t.bus [0x14, 0x15] : Int) = 0x7CFD ∧ t.cpu.status.carry = true ∧
      ¬ t.cpu.status.overflow = true := by
  intro memory
  let columns : List Column := [⟨0x10, 0x03, 0x14⟩, ⟨0x11, 0x09, 0x15⟩]
  have hapart : Apart columns := ⟨by decide, by decide⟩
  have hne : columns ≠ [] := List.cons_ne_nil _ _
  constructor
  · obtain ⟨k, t, hsteps, hsum, hcarry, hover, -⟩ :=
      (long_sum hne hapart ⟨Cpu.initial, memory 0x69⟩).1
        (.of_codeCost? rfl (PlainMemory.ramAmong _ _) (by decide +kernel))
    exact ⟨k, t, hsteps, hsum.trans (by decide +kernel), hcarry.trans (by decide +kernel),
      hover.2 (by decide +kernel)⟩
  · obtain ⟨k, t, hsteps, hdifference, hcarry, hover, -⟩ :=
      (long_sum hne hapart ⟨Cpu.initial, memory 0xE9⟩).2
        (.of_codeCost? rfl (PlainMemory.ramAmong _ _) (by decide +kernel))
    exact ⟨k, t, hsteps, hdifference.trans (by decide +kernel), hcarry.2 (by decide +kernel),
      mt hover.1 (by decide +kernel)⟩

end Famicom
