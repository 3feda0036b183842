import Famicom.Text.Hex
import Mathlib.Algebra.GroupWithZero.Nat

/-!
# Columns

A line that is put together from fields of fixed widths shows each of them in columns of its own
(`columns_join`). Numbers in hexadecimal have a fixed width by themselves; a decimal number that is
padded on the left may outgrow its columns, but its digits end where the next field begins
(`decimalNumber?_padLeft`).
-/

namespace Famicom.Text

/-! ## Widths -/

@[simp] theorem length_hex8 (b : UInt8) : (hex8 b).length = 2 := by
  rw [hex8, String.length_ofList, length_byteDigits]

@[simp] theorem length_hex16 (w : UInt16) : (hex16 w).length = 4 := by
  rw [hex16, String.length_ofList, length_wordDigits]

theorem length_padRight {text : String} {width : Nat} (h : text.length ≤ width) :
    (padRight width text).length = width := by
  rw [padRight, String.length_append, String.length_ofList, List.length_replicate]
  omega

theorem length_padLeft {text : String} {width : Nat} (h : text.length ≤ width) :
    (padLeft width text).length = width := by
  rw [padLeft, String.length_append, String.length_ofList, List.length_replicate]
  omega

/-- Texts of two characters, with one between each two of them. -/
theorem length_intercalate_le {separator : String} (hseparator : separator.length = 1) :
    ∀ {texts : List String}, (∀ text ∈ texts, text.length = 2) →
      (separator.intercalate texts).length ≤ 3 * texts.length - 1
  | [], _ => by simp
  | [text], h => by simp [h text]
  | text :: next :: texts, h => by
    have hrest := length_intercalate_le hseparator fun t ht => h t (List.mem_cons_of_mem text ht)
    rw [String.intercalate_cons_cons, String.length_append, String.length_append, hseparator,
      h text List.mem_cons_self]
    simp only [List.length_cons] at hrest ⊢
    omega

/-! ## Fields -/

/-- The characters of a line from the column `first` on, `width` of them at most. -/
def columns (first width : Nat) (line : String) : String :=
  .ofList ((line.toList.drop first).take width)

theorem columns_columns {second width narrow : Nat} (h : second + narrow ≤ width) (first : Nat)
    (line : String) :
    columns second narrow (columns first width line) = columns (first + second) narrow line := by
  have hwidth : min narrow (width - second) = narrow := Nat.min_eq_left (by omega)
  simp only [columns, String.toList_ofList, List.drop_take, List.drop_drop, List.take_take, hwidth]

theorem drop_join (earlier later : List String) :
    (String.join (earlier ++ later)).toList.drop (earlier.map String.length).sum =
      (String.join later).toList := by
  rw [String.join_append, String.toList_append, ← String.length_join, ← String.length_toList,
    List.drop_left]

/-- A field stands behind the widths of those in front of it. -/
theorem columns_join (earlier later : List String) (field : String) :
    columns (earlier.map String.length).sum field.length
      (String.join (earlier ++ field :: later)) = field := by
  rw [columns, drop_join, String.join_cons, String.toList_append, ← String.length_toList,
    List.take_left, String.ofList_toList]

/-! ## Decimal numbers -/

/-- The number that the next digits make in decimal, after blanks. -/
def decimalNumber? (text : List Char) : Option Nat :=
  let digits := (text.dropWhile (· == ' ')).takeWhile Char.isDigit
  if digits.isEmpty then none else some (Nat.ofDigitChars 10 digits 0)

theorem not_mem_decimal {c : Char} (h : c.isDigit = false) (n : Nat) : c ∉ (toString n).toList := by
  rw [Nat.toString_eq_ofList_toDigits, String.toList_ofList]
  intro hc
  rw [Nat.isDigit_of_mem_toDigits (by decide) (by decide) hc] at h
  cases h

theorem not_mem_padLeft {c : Char} {text : String} (hblank : c ≠ ' ') (h : c ∉ text.toList)
    (width : Nat) : c ∉ (padLeft width text).toList := by
  rw [padLeft, String.toList_append, String.toList_ofList, List.mem_append, not_or]
  exact ⟨fun hc => hblank (List.eq_of_mem_replicate hc), h⟩

theorem decimalNumber?_blanks (blanks n : Nat) {rest : List Char}
    (h : rest.takeWhile Char.isDigit = []) :
    decimalNumber? (List.replicate blanks ' ' ++ ((toString n).toList ++ rest)) = some n := by
  have hblanks : ∀ c ∈ List.replicate blanks ' ', (c == ' ') = true :=
    fun c hc => beq_iff_eq.2 (List.eq_of_mem_replicate hc)
  have hdigits : ∀ c ∈ Nat.toDigits 10 n, c.isDigit :=
    fun c hc => Nat.isDigit_of_mem_toDigits (by decide) (by decide) hc
  have hfirst : (Nat.toDigits 10 n ++ rest).dropWhile (· == ' ') = Nat.toDigits 10 n ++ rest := by
    obtain ⟨c, cs, hcs⟩ := List.exists_cons_of_ne_nil (Nat.toDigits_ne_nil (n := n) (b := 10))
    have hc : c ≠ ' ' := by
      rintro rfl
      exact absurd (hdigits ' ' (hcs ▸ List.mem_cons_self)) (by decide)
    simp [hcs, hc]
  rw [Nat.toString_eq_ofList_toDigits, String.toList_ofList, decimalNumber?,
    List.dropWhile_append_of_pos hblanks, hfirst, List.takeWhile_append_of_pos hdigits, h,
    List.append_nil, Nat.ofDigitChars_ten_toDigits]
  simp [Nat.toDigits_ne_nil]

theorem decimalNumber?_padLeft (width n : Nat) {rest : List Char}
    (h : rest.takeWhile Char.isDigit = []) :
    decimalNumber? ((padLeft width (toString n)).toList ++ rest) = some n := by
  rw [padLeft, String.toList_append, String.toList_ofList, List.append_assoc]
  exact decimalNumber?_blanks _ n h

theorem decimalNumber?_toString (n : Nat) : decimalNumber? (toString n).toList = some n := by
  have hnumber : decimalNumber? ((toString n).toList ++ []) = some n :=
    decimalNumber?_blanks 0 n rfl
  rwa [List.append_nil] at hnumber

end Famicom.Text
