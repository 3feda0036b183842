/-!
# Bytes and words

The machine's bytes are `UInt8` and its addresses `UInt16`. `word` joins two
bytes, `lowByte` and `highByte` take a word apart, and `signExtend` widens a
byte that stands for a signed offset. The high byte of an address is its page :
`samePage` compares two pages, and `nextInPage` steps to the next address without
leaving the page.
-/

namespace Famicom

/-- The word with low byte `lo` and high byte `hi`. -/
def word (lo hi : UInt8) : UInt16 :=
  hi.toUInt16 <<< 8 ||| lo.toUInt16

/-- The low eight bits of a word. -/
def lowByte (w : UInt16) : UInt8 := w.toUInt8

/-- The high eight bits of a word, the page of an address. -/
def highByte (w : UInt16) : UInt8 := (w >>> 8).toUInt8

/-- A byte in two's complement, widened to a word with the same value modulo 2^16. -/
def signExtend (b : UInt8) : UInt16 :=
  if b < 0x80 then b.toUInt16 else b.toUInt16 ||| 0xFF00

/-- Two addresses lie in the same page of 256 bytes. -/
def samePage (a b : UInt16) : Bool := highByte a == highByte b

/-- The address after `a` inside its page : the last one is followed by the first. -/
def nextInPage (a : UInt16) : UInt16 := word (lowByte a + 1) (highByte a)

end Famicom
