import Famicom.Word

/-!
# Words and their bytes

`word` and the pair of `lowByte` and `highByte` undo each other, and a word of two bytes is the
number that they stand for (`word_eq_ofNat`). The page of an address is its number of 256s
(`samePage_iff`), and an index leaves it when the low byte carries (`samePage_word_add_iff`).
-/

namespace Famicom

theorem toNat_word (lo hi : UInt8) : (word lo hi).toNat = 256 * hi.toNat + lo.toNat := by
  have hlo := lo.toNat_lt
  have hhi := hi.toNat_lt
  simp only [word, UInt16.toNat_or, UInt16.toNat_shiftLeft, UInt8.toNat_toUInt16]
  rw [show (8 : UInt16).toNat % 16 = 8 from rfl, Nat.mod_eq_of_lt (by rw [Nat.shiftLeft_eq]; omega),
    ← Nat.shiftLeft_add_eq_or_of_lt hlo, Nat.shiftLeft_eq]
  omega

theorem toNat_complement (b : UInt8) : (~~~b).toNat = 255 - b.toNat := UInt8.toNat_not b

/-- The number of a word, which counts modulo 2^16. -/
theorem eq_ofNat {w : UInt16} {n : Nat} (h : w.toNat = n % 65536) : w = .ofNat n :=
  UInt16.toNat_inj.1 (h.trans UInt16.toNat_ofNat'.symm)

theorem toUInt16_eq_ofNat (b : UInt8) : b.toUInt16 = .ofNat b.toNat := by
  have hb := b.toNat_lt
  refine eq_ofNat ?_
  rw [UInt8.toNat_toUInt16]
  omega

theorem word_eq_ofNat (lo hi : UInt8) : word lo hi = .ofNat (lo.toNat + 256 * hi.toNat) := by
  have hlo := lo.toNat_lt
  have hhi := hi.toNat_lt
  refine eq_ofNat ?_
  rw [toNat_word]
  omega

theorem toNat_lowByte (w : UInt16) : (lowByte w).toNat = w.toNat % 256 := by
  simp [lowByte]

theorem toNat_highByte (w : UInt16) : (highByte w).toNat = w.toNat / 256 := by
  have hw := w.toNat_lt
  simp only [highByte, UInt16.toNat_toUInt8, UInt16.toNat_shiftRight]
  rw [show (8 : UInt16).toNat % 16 = 8 from rfl, Nat.shiftRight_eq_div_pow]
  omega

theorem lowByte_word (lo hi : UInt8) : lowByte (word lo hi) = lo := by
  have hlo := lo.toNat_lt
  refine UInt8.toNat_inj.1 ?_
  rw [toNat_lowByte, toNat_word]
  omega

theorem highByte_word (lo hi : UInt8) : highByte (word lo hi) = hi := by
  have hlo := lo.toNat_lt
  refine UInt8.toNat_inj.1 ?_
  rw [toNat_highByte, toNat_word]
  omega

theorem word_lowByte_highByte (w : UInt16) : word (lowByte w) (highByte w) = w := by
  refine UInt16.toNat_inj.1 ?_
  rw [toNat_word, toNat_lowByte, toNat_highByte]
  omega

theorem eq_of_bytes {v w : UInt16} (h : [lowByte v, highByte v] = [lowByte w, highByte w]) :
    v = w := by
  injection h with hlo h
  injection h with hhi
  rw [← word_lowByte_highByte v, hlo, hhi, word_lowByte_highByte]

/-- A negative offset is widened with a page of ones. -/
theorem signExtend_eq (b : UInt8) :
    signExtend b = if b.toNat < 0x80 then b.toUInt16 else word b 0xFF := by
  have hones : (0xFF : UInt8).toUInt16 <<< 8 = 0xFF00 := by decide
  rw [signExtend, word, hones, UInt16.or_comm]
  rfl

theorem toNat_nextInPage (a : UInt16) :
    (nextInPage a).toNat = a.toNat / 256 * 256 + (a.toNat + 1) % 256 := by
  rw [nextInPage, toNat_word, UInt8.toNat_add, toNat_lowByte, toNat_highByte,
    show (1 : UInt8).toNat = 1 from rfl]
  omega

theorem samePage_iff {v w : UInt16} : samePage v w ↔ v.toNat / 256 = w.toNat / 256 := by
  rw [samePage, beq_iff_eq, ← UInt8.toNat_inj, toNat_highByte, toNat_highByte]

/-- A sum past the last address continues at the first one, which is another page as well. -/
theorem samePage_word_add_iff (lo hi index : UInt8) :
    samePage (word lo hi) (word lo hi + index.toUInt16) ↔ lo.toNat + index.toNat ≤ 0xFF := by
  have hlo := lo.toNat_lt
  have hhi := hi.toNat_lt
  have hindex := index.toNat_lt
  rw [samePage_iff, UInt16.toNat_add, UInt8.toNat_toUInt16, toNat_word]
  omega

end Famicom
