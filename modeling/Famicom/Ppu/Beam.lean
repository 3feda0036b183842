/-!
# The beam

A frame has 262 scanlines of 341 dots. The picture fills the first 240 lines; the
vertical blank begins on line 241 and ends on line 261, which prepares the next
frame. `Beam.advance` moves the beam by one dot. An odd frame drops the last dot of
its last line if the picture is being rendered at that moment.
-/

namespace Famicom

/-- The position of the beam, and the frames it has completed. -/
structure Beam where
  scanline : Nat
  dot : Nat
  frame : Nat
  deriving DecidableEq, Repr

namespace Beam

/-- The top left of the first frame. -/
def start : Beam := ⟨0, 0, 0⟩

/-- The dots of a scanline. -/
def dotsPerLine : Nat := 341

/-- The last scanline of a frame, on which the next one is prepared. -/
def lastLine : Nat := 261

/-- The scanline on which the vertical blank begins. -/
def blankLine : Nat := 241

/-- The dots of a frame that drops none. -/
def dotsPerFrame : Nat := dotsPerLine * (lastLine + 1)

/-- The last dot of the beam's line. -/
def lastDot (b : Beam) (rendering : Bool) : Nat :=
  if b.scanline = lastLine ∧ b.frame % 2 = 1 ∧ rendering then dotsPerLine - 2 else dotsPerLine - 1

/-- Move by one dot. -/
def advance (b : Beam) (rendering : Bool) : Beam :=
  if b.dot < b.lastDot rendering then { b with dot := b.dot + 1 }
  else if b.scanline < lastLine then { b with scanline := b.scanline + 1, dot := 0 }
  else ⟨0, 0, b.frame + 1⟩

/-- The beam has just entered the vertical blank. -/
def entersBlank (b : Beam) : Bool := b.scanline == blankLine && b.dot == 1

/-- The beam has just left the vertical blank. -/
def leavesBlank (b : Beam) : Bool := b.scanline == lastLine && b.dot == 1

/-- The beam is on a line that fetches tiles : one of the picture, or the last. -/
def fetching (b : Beam) : Bool := b.scanline < 240 || b.scanline == lastLine

end Beam

end Famicom
