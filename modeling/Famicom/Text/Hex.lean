/-!
# Hexadecimal text and columns

Bytes and words are printed in upper-case hexadecimal of fixed width (`hex8`,
`hex16`), which is what keeps the columns of a listing in place. `padRight` and
`padLeft` fill a text up to a width and leave a longer text alone.
-/

namespace Famicom.Text

/-- The digit of a value below 16. -/
def hexDigit (n : Nat) : Char :=
  if n < 10 then Char.ofNat (48 + n) else Char.ofNat (55 + n)

/-- The two digits of a byte. -/
def byteDigits (b : UInt8) : List Char :=
  [hexDigit (b.toNat / 16), hexDigit (b.toNat % 16)]

/-- The four digits of a word. -/
def wordDigits (w : UInt16) : List Char :=
  [hexDigit (w.toNat / 4096), hexDigit (w.toNat / 256 % 16), hexDigit (w.toNat / 16 % 16),
    hexDigit (w.toNat % 16)]

/-- A byte as two upper-case digits. -/
def hex8 (b : UInt8) : String := String.ofList (byteDigits b)

/-- A word as four upper-case digits. -/
def hex16 (w : UInt16) : String := String.ofList (wordDigits w)

@[simp] theorem length_byteDigits (b : UInt8) : (byteDigits b).length = 2 := rfl

@[simp] theorem length_wordDigits (w : UInt16) : (wordDigits w).length = 4 := rfl

/-- The text followed by blanks up to `width` characters. -/
def padRight (width : Nat) (text : String) : String :=
  text ++ String.ofList (List.replicate (width - text.length) ' ')

/-- The text preceded by blanks up to `width` characters. -/
def padLeft (width : Nat) (text : String) : String :=
  String.ofList (List.replicate (width - text.length) ' ') ++ text

/-- The bytes of a list in order, two digits each, with nothing between them. -/
def hexBytes (bytes : List UInt8) : String :=
  String.ofList (bytes.flatMap byteDigits)

end Famicom.Text
