import Famicom.Text.Unprintable

/-!
# Quoted text

A text in double quotes, as a debugging dump shows it. A double quote and a
backslash are preceded by a backslash, the common control characters have their
letter, and every other character that would not show as a mark of its own
(`isUnprintable`) is written as `\u` with its number in braces.
-/

namespace Famicom.Text

/-- The lower-case hexadecimal digits of a number, without leading zeros. -/
def lowerHex (n : Nat) : List Char := Nat.toDigits 16 n

/-- A character as it stands between the quotes. -/
def escape (c : Char) : List Char :=
  match c with
  | '"' => ['\\', '"']
  | '\\' => ['\\', '\\']
  | '\n' => ['\\', 'n']
  | '\r' => ['\\', 'r']
  | '\t' => ['\\', 't']
  | '\x00' => ['\\', '0']
  | c =>
    if isUnprintable c then '\\' :: 'u' :: '\x7b' :: lowerHex c.toNat ++ ['\x7d'] else [c]

/-- The text in double quotes, with the characters that need it escaped. -/
def quote (text : String) : String :=
  String.ofList ('"' :: text.toList.flatMap escape ++ ['"'])

end Famicom.Text
