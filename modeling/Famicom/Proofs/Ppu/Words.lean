import Famicom.Ppu.Registers
import Famicom.Proofs.Word

/-!
# Scroll positions as words

The picture unit is known by operations on words : parts of a position are masked out, shifted into
place, or added to. On the fields of a position masking is an operation on each of them
(`ofWord_and`, `ofWord_or`, `ofWord_xor`), a mask takes a field as a whole or not at all, and a
shifted byte fills the fields it is meant for. So every movement of a position and every write to it
is the operation on words that it is known by (`ScrollWord`).

The two additions to a word are no operations on fields : a sum may carry from one field into the
next. They are made only where this does not happen (`toWord_add_column`, `toWord_add_row`).
-/

namespace Famicom

/-! ## Operations on words -/

namespace ScrollWord

/-- The next tile column. -/
def nextColumn (v : UInt16) : UInt16 :=
  if v &&& 0x001F = 31 then (v &&& ~~~0x001F) ^^^ 0x0400 else v + 1

/-- The tile row of a word, as a number. -/
def row (v : UInt16) : UInt16 := (v &&& 0x03E0) >>> 5

/-- Another tile row. -/
def withRow (v row : UInt16) : UInt16 :=
  let placed : UInt16 := row <<< 5
  (v &&& ~~~0x03E0) ||| placed

/-- The next row of picture elements. -/
def nextRow (v : UInt16) : UInt16 :=
  if v &&& 0x7000 ≠ 0x7000 then v + 0x1000
  else
    let v := v &&& ~~~0x7000
    if row v = 29 then withRow (v ^^^ 0x0800) 0
    else if row v = 31 then withRow v 0
    else withRow v (row v + 1)

/-- Take the column and the horizontal nametable of another word. -/
def copyHorizontal (v t : UInt16) : UInt16 := (v &&& 0xFBE0) ||| (t &&& 0x041F)

/-- Take the rows and the vertical nametable of another word. -/
def copyVertical (v t : UInt16) : UInt16 := (v &&& 0x841F) ||| (t &&& 0x7BE0)

/-- Select the nametable. -/
def selectNametable (t : UInt16) (value : UInt8) : UInt16 :=
  let nametable : UInt16 := (value &&& 0x03).toUInt16 <<< 10
  (t &&& 0xF3FF) ||| nametable

/-- Set the column. -/
def scrollColumn (t : UInt16) (value : UInt8) : UInt16 :=
  let coarse : UInt16 := (value >>> 3).toUInt16
  (t &&& 0xFFE0) ||| coarse

/-- Set the rows. -/
def scrollRow (t : UInt16) (value : UInt8) : UInt16 :=
  let fine : UInt16 := (value &&& 0x07).toUInt16 <<< 12
  let coarse : UInt16 := (value >>> 3).toUInt16 <<< 5
  (t &&& 0x0C1F) ||| fine ||| coarse

/-- Set the high byte of an address. -/
def setHigh (t : UInt16) (value : UInt8) : UInt16 :=
  let high : UInt16 := (value &&& 0x3F).toUInt16 <<< 8
  (t &&& 0x00FF) ||| high

/-- Set the low byte of an address. -/
def setLow (t : UInt16) (value : UInt8) : UInt16 := (t &&& 0xFF00) ||| value.toUInt16

/-- Step on in fifteen bits. -/
def advance (v : UInt16) (step : UInt16) : UInt16 := (v + step) &&& 0x7FFF

/-- The sum of two words is one, and it differs from the first in a field alone. -/
def AddsWithin (field v addend : UInt16) : Prop :=
  (v + addend).toNat = v.toNat + addend.toNat ∧ (v + addend) &&& ~~~field = v &&& ~~~field

end ScrollWord

namespace VramAddress

/-! ## Words and fields -/

theorem ofWord_eq (w : UInt16) : ofWord w =
    ⟨w.toBitVec.extractLsb' 0 5, w.toBitVec.extractLsb' 5 5, w.toBitVec.getLsbD 10,
      w.toBitVec.getLsbD 11, w.toBitVec.extractLsb' 12 3, w.toBitVec.getLsbD 15⟩ := by
  have hslice (start width : Nat) : (BitVec.ofNat width (w.toNat / 2 ^ start)) =
      w.toBitVec.extractLsb' start width := by
    refine BitVec.eq_of_toNat_eq ?_
    rw [BitVec.toNat_ofNat, BitVec.extractLsb'_toNat, Nat.shiftRight_eq_div_pow]
    rfl
  have h0 := hslice 0 5
  rw [Nat.pow_zero, Nat.div_one] at h0
  simp only [ofWord, mk.injEq]
  exact ⟨h0, hslice 5 5, rfl, rfl, hslice 12 3, rfl⟩

theorem toWord_ofWord (w : UInt16) : (ofWord w).toWord = w := by
  have hbit (n i : Nat) : (n.testBit i).toNat = n / 2 ^ i % 2 := (Nat.toNat_testBit n i)
  refine UInt16.toNat_inj.1 ?_
  have hw := w.toNat_lt
  simp only [toNat_toWord, toNat, ofWord, BitVec.toNat_ofNat, hbit]
  omega

/-- A word is known by its fields. -/
theorem toWord_eq {v : VramAddress} {w : UInt16} (h : ofWord w = v) : v.toWord = w := by
  rw [← h, toWord_ofWord]

/-- An operation on each field and each bit outside the fields. -/
def zipWith (f : ∀ {n}, BitVec n → BitVec n → BitVec n) (g : Bool → Bool → Bool)
    (v w : VramAddress) : VramAddress :=
  ⟨f v.coarseX w.coarseX, f v.coarseY w.coarseY, g v.nametableX w.nametableX,
    g v.nametableY w.nametableY, f v.fineY w.fineY, g v.spare w.spare⟩

theorem ofWord_and (a b : UInt16) :
    ofWord (a &&& b) = zipWith (· &&& ·) and (ofWord a) (ofWord b) := by
  simp [ofWord_eq, zipWith, BitVec.extractLsb'_and]

theorem ofWord_or (a b : UInt16) :
    ofWord (a ||| b) = zipWith (· ||| ·) or (ofWord a) (ofWord b) := by
  simp [ofWord_eq, zipWith, BitVec.extractLsb'_or]

theorem ofWord_xor (a b : UInt16) :
    ofWord (a ^^^ b) = zipWith (· ^^^ ·) xor (ofWord a) (ofWord b) := by
  simp [ofWord_eq, zipWith, BitVec.extractLsb'_xor]

@[simp] theorem and_ones₅ (x : BitVec 5) : x &&& 31#5 = x := BitVec.and_allOnes

@[simp] theorem and_ones₃ (x : BitVec 3) : x &&& 7#3 = x := BitVec.and_allOnes

/-- Clear the column. -/
theorem toWord_and_not_column (v : VramAddress) :
    v.toWord &&& ~~~0x001F = ({ v with coarseX := 0 } : VramAddress).toWord := by
  have hrest : ofWord (~~~0x001F) = ⟨0, 31, true, true, 7, true⟩ := by decide
  refine (toWord_eq ?_).symm
  rw [ofWord_and, hrest, ofWord_toWord]
  simp [zipWith]

/-- Clear the fine row. -/
theorem toWord_and_not_fine (v : VramAddress) :
    v.toWord &&& ~~~0x7000 = ({ v with fineY := 0 } : VramAddress).toWord := by
  have hrest : ofWord (~~~0x7000) = ⟨31, 31, true, true, 0, true⟩ := by decide
  refine (toWord_eq ?_).symm
  rw [ofWord_and, hrest, ofWord_toWord]
  simp [zipWith]

/-- The nametable to the right or left. -/
theorem toWord_xor_nametableX (v : VramAddress) :
    v.toWord ^^^ 0x0400 = ({ v with nametableX := !v.nametableX } : VramAddress).toWord := by
  have hbit : ofWord 0x0400 = ⟨0, 0, true, false, 0, false⟩ := by decide
  refine (toWord_eq ?_).symm
  rw [ofWord_xor, hbit, ofWord_toWord]
  simp [zipWith]

/-- The nametable above or below. -/
theorem toWord_xor_nametableY (v : VramAddress) :
    v.toWord ^^^ 0x0800 = ({ v with nametableY := !v.nametableY } : VramAddress).toWord := by
  have hbit : ofWord 0x0800 = ⟨0, 0, false, true, 0, false⟩ := by decide
  refine (toWord_eq ?_).symm
  rw [ofWord_xor, hbit, ofWord_toWord]
  simp [zipWith]

/-! ## Parts of another position -/

theorem toWord_copyHorizontal (v t : VramAddress) :
    (v.copyHorizontal t).toWord = ScrollWord.copyHorizontal v.toWord t.toWord := by
  have hv : ofWord 0xFBE0 = ⟨0, 31, false, true, 7, true⟩ := by decide
  have ht : ofWord 0x041F = ⟨31, 0, true, false, 0, false⟩ := by decide
  refine toWord_eq ?_
  rw [ScrollWord.copyHorizontal, ofWord_or, ofWord_and, ofWord_and, hv, ht, ofWord_toWord,
    ofWord_toWord]
  simp [zipWith, copyHorizontal]

theorem toWord_copyVertical (v t : VramAddress) :
    (v.copyVertical t).toWord = ScrollWord.copyVertical v.toWord t.toWord := by
  have hv : ofWord 0x841F = ⟨31, 0, true, false, 0, true⟩ := by decide
  have ht : ofWord 0x7BE0 = ⟨0, 31, false, true, 7, false⟩ := by decide
  refine toWord_eq ?_
  rw [ScrollWord.copyVertical, ofWord_or, ofWord_and, ofWord_and, hv, ht, ofWord_toWord,
    ofWord_toWord]
  simp [zipWith, copyVertical]

/-! ## Parts of a byte -/

theorem toWord_selectNametable (t : VramAddress) (value : UInt8) :
    (t.selectNametable value).toWord = ScrollWord.selectNametable t.toWord value := by
  have ht : ofWord 0xF3FF = ⟨31, 31, false, false, 7, true⟩ := by decide
  have hvalue : ofWord ((value &&& 0x03).toUInt16 <<< 10) =
      ⟨0, 0, value &&& 1 != 0, value &&& 2 != 0, 0, false⟩ := by
    obtain ⟨bits⟩ := value
    revert bits
    decide +kernel
  refine toWord_eq ?_
  simp only [ScrollWord.selectNametable]
  rw [ofWord_or, ofWord_and, ht, hvalue, ofWord_toWord]
  simp [zipWith, selectNametable]

theorem toWord_scrollColumn (t : VramAddress) (value : UInt8) :
    (t.scrollColumn value).toWord = ScrollWord.scrollColumn t.toWord value := by
  have ht : ofWord 0xFFE0 = ⟨0, 31, true, true, 7, true⟩ := by decide
  have hvalue : ofWord (value >>> 3).toUInt16 =
      ⟨value.toBitVec.extractLsb' 3 5, 0, false, false, 0, false⟩ := by
    obtain ⟨bits⟩ := value
    revert bits
    decide +kernel
  refine toWord_eq ?_
  simp only [ScrollWord.scrollColumn]
  rw [ofWord_or, ofWord_and, ht, hvalue, ofWord_toWord]
  simp [zipWith, scrollColumn]

theorem toWord_scrollRow (t : VramAddress) (value : UInt8) :
    (t.scrollRow value).toWord = ScrollWord.scrollRow t.toWord value := by
  have ht : ofWord 0x0C1F = ⟨31, 0, true, true, 0, false⟩ := by decide
  have hfine : ofWord ((value &&& 0x07).toUInt16 <<< 12) =
      ⟨0, 0, false, false, value.toBitVec.extractLsb' 0 3, false⟩ := by
    obtain ⟨bits⟩ := value
    revert bits
    decide +kernel
  have hcoarse : ofWord ((value >>> 3).toUInt16 <<< 5) =
      ⟨0, value.toBitVec.extractLsb' 3 5, false, false, 0, false⟩ := by
    obtain ⟨bits⟩ := value
    revert bits
    decide +kernel
  refine toWord_eq ?_
  simp only [ScrollWord.scrollRow]
  rw [ofWord_or, ofWord_or, ofWord_and, ht, hfine, hcoarse, ofWord_toWord]
  simp [zipWith, scrollRow]

theorem toWord_setHigh (t : VramAddress) (value : UInt8) :
    (t.setHigh value).toWord = ScrollWord.setHigh t.toWord value := by
  have hlow : (lowByte t.toWord).toUInt16 = t.toWord &&& 0x00FF := by
    refine UInt16.toNat_inj.1 ?_
    rw [UInt8.toNat_toUInt16, toNat_lowByte, UInt16.toNat_and]
    exact (Nat.and_two_pow_sub_one_eq_mod _ 8).symm
  rw [setHigh, toWord_ofWord, word, hlow, UInt16.or_comm]
  rfl

theorem or_and_distrib (a b m : UInt16) : (a ||| b) &&& m = (a &&& m) ||| (b &&& m) := by
  refine UInt16.toNat_inj.1 ?_
  simp only [UInt16.toNat_and, UInt16.toNat_or, Nat.and_or_distrib_right]

theorem toWord_setLow (t : VramAddress) (value : UInt8) :
    (t.setLow value).toWord = ScrollWord.setLow t.toWord value := by
  have hparts (lo hi : UInt8) : word lo hi = word 0 hi ||| lo.toUInt16 := by simp [word]
  have hhigh (hi : UInt8) : word 0 hi &&& 0xFF00 = word 0 hi := by
    obtain ⟨bits⟩ := hi
    revert bits
    decide +kernel
  have hlow (lo : UInt8) : lo.toUInt16 &&& 0xFF00 = 0 := by
    obtain ⟨bits⟩ := lo
    revert bits
    decide +kernel
  have hmask (lo hi : UInt8) : word lo hi &&& 0xFF00 = word 0 hi := by
    rw [hparts, or_and_distrib, hhigh, hlow, UInt16.or_zero]
  have hmasked : t.toWord &&& 0xFF00 = word 0 (highByte t.toWord) := by
    rw [← hmask (lowByte t.toWord), word_lowByte_highByte]
  rw [setLow, toWord_ofWord, hparts, ScrollWord.setLow, hmasked]

/-! ## The address on the bus -/

/-- The bus has fourteen of the sixteen bits. -/
theorem toNat_busAddress (v : VramAddress) : v.busAddress.toNat = v.toNat % 0x4000 := by
  rw [busAddress, UInt16.toNat_and, toNat_toWord]
  exact Nat.and_two_pow_sub_one_eq_mod v.toNat 14

theorem busAddress_le (v : VramAddress) : v.busAddress ≤ 0x3FFF := by
  rw [UInt16.le_iff_toNat_le, toNat_busAddress]
  exact Nat.le_of_lt_succ (Nat.mod_lt _ (by decide))

/-! ## Sums -/

theorem toWord_advance (v : VramAddress) (step : UInt16) :
    (v.advance step.toNat).toWord = ScrollWord.advance v.toWord step := by
  refine UInt16.toNat_inj.1 ?_
  have hmask : ((v.toNat + step.toNat) % 2 ^ 16) &&& 0x7FFF = (v.toNat + step.toNat) % 0x8000 :=
    (Nat.and_two_pow_sub_one_eq_mod _ 15).trans (by omega)
  rw [advance, toWord_ofWord, ScrollWord.advance, UInt16.toNat_and, UInt16.toNat_add, toNat_toWord]
  refine Eq.trans ?_ hmask.symm
  exact Nat.mod_eq_of_lt (by omega)

/-- A field that is not full takes one more. -/
theorem toNat_add_one {width : Nat} {field : BitVec width} (h : field ≠ .allOnes width) :
    (field + 1).toNat = field.toNat + 1 := by
  have hne : field.toNat ≠ 2 ^ width - 1 := fun hfull =>
    h (BitVec.eq_of_toNat_eq (hfull.trans BitVec.toNat_allOnes.symm))
  have hlt := field.isLt
  show (field + BitVec.ofNat width 1).toNat = _
  rw [BitVec.toNat_add, BitVec.toNat_ofNat, Nat.add_mod_mod]
  exact Nat.mod_eq_of_lt (by omega)

/-- Where the column is not the last one, one more does not carry out of it. -/
theorem toNat_add_column {v : VramAddress} (h : v.coarseX ≠ 31) :
    ({ v with coarseX := v.coarseX + 1 } : VramAddress).toNat = v.toNat + 1 := by
  simp only [toNat, toNat_add_one h]
  omega

/-- Where the fine row is not the last one, one more does not carry out of it. -/
theorem toNat_add_row {v : VramAddress} (h : v.fineY ≠ 7) :
    ({ v with fineY := v.fineY + 1 } : VramAddress).toNat = v.toNat + 0x1000 := by
  simp only [toNat, toNat_add_one h]
  omega

/-- Positions that differ by a word as numbers differ by it as words. -/
theorem toWord_add {v w : VramAddress} {addend : UInt16} (h : w.toNat = v.toNat + addend.toNat) :
    w.toWord = v.toWord + addend := by
  refine UInt16.toNat_inj.1 ?_
  have hfits := w.toNat_lt
  rw [toNat_toWord, UInt16.toNat_add, toNat_toWord, h]
  exact (Nat.mod_eq_of_lt (by omega)).symm

theorem toWord_add_column {v : VramAddress} (h : v.coarseX ≠ 31) :
    ({ v with coarseX := v.coarseX + 1 } : VramAddress).toWord = v.toWord + 1 :=
  toWord_add (toNat_add_column h)

theorem toWord_add_row {v : VramAddress} (h : v.fineY ≠ 7) :
    ({ v with fineY := v.fineY + 1 } : VramAddress).toWord = v.toWord + 0x1000 :=
  toWord_add (toNat_add_row h)

/-! ## Movements of the beam -/

/-- The five low bits of a word are the column. -/
theorem toWord_and_column (v : VramAddress) : v.toWord &&& 0x001F = 31 ↔ v.coarseX = 31 := by
  have hlt := v.coarseX.isLt
  have hmask : (v.toWord &&& 0x001F).toNat = v.coarseX.toNat := by
    rw [UInt16.toNat_and, toNat_toWord]
    refine (Nat.and_two_pow_sub_one_eq_mod _ 5).trans ?_
    simp only [toNat]
    omega
  rw [← UInt16.toNat_inj, hmask, BitVec.toNat_eq]
  rfl

theorem toWord_nextColumn (v : VramAddress) :
    v.nextColumn.toWord = ScrollWord.nextColumn v.toWord := by
  unfold nextColumn ScrollWord.nextColumn
  by_cases h : v.coarseX = 31
  · rw [if_pos h, if_pos (v.toWord_and_column.2 h), toWord_and_not_column, toWord_xor_nametableX]
  · rw [if_neg h, if_neg (mt v.toWord_and_column.1 h)]
    exact toWord_add_column h

/-- Bits 12 to 14 are the fine row. -/
theorem toWord_and_fine (v : VramAddress) : v.toWord &&& 0x7000 = 0x7000 ↔ v.fineY = 7 := by
  have hmask : ofWord 0x7000 = ⟨0, 0, false, false, 7, false⟩ := by decide
  have hand : ofWord (v.toWord &&& 0x7000) = ⟨0, 0, false, false, v.fineY, false⟩ := by
    rw [ofWord_and, hmask, ofWord_toWord]
    simp [zipWith]
  constructor
  · intro h
    rw [h, hmask] at hand
    exact (congrArg fineY hand).symm
  · intro h
    rw [h, ← hmask] at hand
    rw [← toWord_ofWord (_ &&& _), hand, toWord_ofWord]

/-- Bits 5 to 9 are the row. -/
theorem row_toWord (v : VramAddress) : ScrollWord.row v.toWord = .ofNat v.coarseY.toNat := by
  have hmask : ofWord 0x03E0 = ⟨0, 31, false, false, 0, false⟩ := by decide
  have hand : ofWord (v.toWord &&& 0x03E0) = ⟨0, v.coarseY, false, false, 0, false⟩ := by
    rw [ofWord_and, hmask, ofWord_toWord]
    simp [zipWith]
  have hrow (row : BitVec 5) :
      (⟨0, row, false, false, 0, false⟩ : VramAddress).toWord >>> 5 = .ofNat row.toNat := by
    revert row
    decide +kernel
  rw [ScrollWord.row, ← toWord_ofWord (_ &&& _), hand, hrow]

theorem row_eq_iff (v : VramAddress) (row : BitVec 5) :
    ScrollWord.row v.toWord = .ofNat row.toNat ↔ v.coarseY = row := by
  have hlt (r : BitVec 5) : r.toNat < UInt16.size := Nat.lt_trans r.isLt (by decide)
  rw [row_toWord, ← UInt16.toNat_inj, UInt16.toNat_ofNat_of_lt' (hlt _),
    UInt16.toNat_ofNat_of_lt' (hlt _), BitVec.toNat_eq]

/-- A tile row is put in place of another. -/
theorem withRow_toWord (v : VramAddress) (row : BitVec 5) :
    ScrollWord.withRow v.toWord (.ofNat row.toNat) =
      ({ v with coarseY := row } : VramAddress).toWord := by
  have hrest : ofWord (~~~0x03E0) = ⟨31, 0, true, true, 7, true⟩ := by decide
  have hrow : ofWord (UInt16.ofNat row.toNat <<< 5) = ⟨0, row, false, false, 0, false⟩ := by
    revert row
    decide +kernel
  refine (toWord_eq ?_).symm
  rw [ScrollWord.withRow, ofWord_or, ofWord_and, hrest, hrow, ofWord_toWord]
  simp [zipWith]

/-- Where the row is not the last one, one more is a row. -/
theorem withRow_add_one {v : VramAddress} (h : v.coarseY ≠ 31) :
    ScrollWord.withRow v.toWord (ScrollWord.row v.toWord + 1) =
      ({ v with coarseY := v.coarseY + 1 } : VramAddress).toWord := by
  have hsum : ScrollWord.row v.toWord + 1 = .ofNat (v.coarseY + 1).toNat := by
    rw [row_toWord, toNat_add_one h]
    exact (UInt16.ofNat_add _ 1).symm
  rw [hsum, withRow_toWord]

theorem toWord_nextRow (v : VramAddress) : v.nextRow.toWord = ScrollWord.nextRow v.toWord := by
  unfold nextRow ScrollWord.nextRow
  by_cases hfine : v.fineY = 7
  · have hlastFine : ¬ v.fineY ≠ 7 := fun h => h hfine
    have hlastWord : ¬ v.toWord &&& 0x7000 ≠ 0x7000 := fun h => h (v.toWord_and_fine.2 hfine)
    have h29 : ScrollWord.row ({ v with fineY := 0 } : VramAddress).toWord = 29 ↔ v.coarseY = 29 :=
      row_eq_iff _ 29
    have h31 : ScrollWord.row ({ v with fineY := 0 } : VramAddress).toWord = 31 ↔ v.coarseY = 31 :=
      row_eq_iff _ 31
    rw [if_neg hlastFine, if_neg hlastWord, toWord_and_not_fine]
    dsimp only
    by_cases hlast : v.coarseY = 29
    · rw [if_pos hlast, if_pos (h29.2 hlast), toWord_xor_nametableY]
      exact (withRow_toWord { v with fineY := 0, nametableY := !v.nametableY } 0).symm
    rw [if_neg hlast, if_neg (mt h29.1 hlast)]
    by_cases hbelow : v.coarseY = 31
    · have hwrap : v.coarseY + 1 = 0 := by
        rw [hbelow]
        rfl
      rw [if_pos (h31.2 hbelow), hwrap]
      exact (withRow_toWord { v with fineY := 0 } 0).symm
    · rw [if_neg (mt h31.1 hbelow)]
      exact (withRow_add_one (v := { v with fineY := 0 }) hbelow).symm
  · rw [if_pos hfine, if_pos (mt v.toWord_and_fine.1 hfine)]
    exact toWord_add_row hfine

end VramAddress

/-! ## Where the sums are made -/

namespace ScrollWord

theorem addsWithin_column {v : UInt16} (h : v &&& 0x001F ≠ 31) : AddsWithin 0x001F v 1 := by
  obtain ⟨p, rfl⟩ : ∃ p : VramAddress, p.toWord = v := ⟨_, VramAddress.toWord_ofWord v⟩
  have hx : p.coarseX ≠ 31 := mt p.toWord_and_column.2 h
  unfold AddsWithin
  rw [← VramAddress.toWord_add_column hx, VramAddress.toNat_toWord, VramAddress.toNat_toWord,
    VramAddress.toNat_add_column hx, VramAddress.toWord_and_not_column,
    VramAddress.toWord_and_not_column]
  exact ⟨rfl, rfl⟩

theorem addsWithin_fine {v : UInt16} (h : v &&& 0x7000 ≠ 0x7000) : AddsWithin 0x7000 v 0x1000 := by
  obtain ⟨p, rfl⟩ : ∃ p : VramAddress, p.toWord = v := ⟨_, VramAddress.toWord_ofWord v⟩
  have hy : p.fineY ≠ 7 := mt p.toWord_and_fine.2 h
  unfold AddsWithin
  rw [← VramAddress.toWord_add_row hy, VramAddress.toNat_toWord, VramAddress.toNat_toWord,
    VramAddress.toNat_add_row hy, VramAddress.toWord_and_not_fine,
    VramAddress.toWord_and_not_fine]
  exact ⟨rfl, rfl⟩

/-- A row is a number of five bits, like a column. -/
theorem row_and_column (v : UInt16) : row v &&& 0x001F = row v := by
  obtain ⟨p, rfl⟩ : ∃ p : VramAddress, p.toWord = v := ⟨_, VramAddress.toWord_ofWord v⟩
  rw [VramAddress.row_toWord]
  generalize p.coarseY = row
  revert row
  decide

theorem addsWithin_row {v : UInt16} (h : row v ≠ 31) : AddsWithin 0x001F (row v) 1 :=
  addsWithin_column (by rwa [row_and_column])

end ScrollWord

end Famicom
