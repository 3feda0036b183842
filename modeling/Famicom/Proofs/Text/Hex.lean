import Famicom.CommandLine

/-!
# Hexadecimal read back

The digits that `byteDigits` and `wordDigits` print are read back by the command line
(`digitsValue?`), which takes the very addresses that listings and traces print
(`address?_hex16`).
-/

namespace Famicom.Text

open CommandLine

theorem digitValue?_hexDigit : ∀ n < 16, digitValue? 16 (hexDigit n) = some n := by
  decide

theorem digitsValue?_cons_hexDigit {d : Nat} (h : d < 16) (n : Nat) (rest : List Char) :
    digitsValue? 16 n (hexDigit d :: rest) = digitsValue? 16 (n * 16 + d) rest := by
  rw [digitsValue?, digitValue?_hexDigit d h]

theorem digitsValue?_byteDigits (b : UInt8) : digitsValue? 16 0 (byteDigits b) = some b.toNat := by
  have hb := b.toNat_lt
  rw [byteDigits, digitsValue?_cons_hexDigit (by omega), digitsValue?_cons_hexDigit (by omega),
    digitsValue?]
  exact congrArg some (by omega)

theorem digitsValue?_wordDigits (w : UInt16) :
    digitsValue? 16 0 (wordDigits w) = some w.toNat := by
  have hw := w.toNat_lt
  rw [wordDigits, digitsValue?_cons_hexDigit (by omega), digitsValue?_cons_hexDigit (by omega),
    digitsValue?_cons_hexDigit (by omega), digitsValue?_cons_hexDigit (by omega), digitsValue?]
  exact congrArg some (by omega)

/-- A digit is none of the characters that the command line skips. -/
theorem hexDigit_ne : ∀ n < 16, hexDigit n ≠ '$' ∧ hexDigit n ≠ 'x' ∧ hexDigit n ≠ '+' := by
  decide

/-- The command line reads the addresses that are printed. -/
theorem address?_hex16 (w : UInt16) : address? ("$" ++ hex16 w) = some w := by
  have hw := w.toNat_lt
  have hfirst := hexDigit_ne (w.toNat / 4096) (by omega)
  have hsecond := hexDigit_ne (w.toNat / 256 % 16) (by omega)
  have hdrop : ("$" ++ hex16 w).toList.dropWhile (· == '$') = wordDigits w := by
    rw [String.toList_append, hex16, String.toList_ofList]
    simp [wordDigits, hfirst.1]
  have hmarks : dropHexMarks (wordDigits w) = wordDigits w := by
    refine dropHexMarks.eq_2 _ fun rest h => ?_
    exact hsecond.2.1 (List.cons.inj (List.cons.inj h).2).1
  have hplus : ¬ (wordDigits w).head? = some '+' := by
    simpa [wordDigits] using hfirst.2.2
  have hnumber : number? 16 0x10000 (wordDigits w) = some w.toNat := by
    simp only [number?, if_neg hplus, digitsValue?_wordDigits]
    simp [wordDigits, hw]
  rw [address?, hdrop, hmarks, hnumber]
  simp

end Famicom.Text
