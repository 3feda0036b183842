import Famicom.Word

/-!
# VRAM addresses

The picture unit keeps the address it works at as a scroll position : a tile column
and row (`coarseX`, `coarseY`), the row inside the tile (`fineY`) and one of four
nametables. As a word (`toWord`, `ofWord`) these are, from bit 0 on, five bits of
column, five of row, two of nametable and three of fine row. Bit 15 has no meaning;
it is kept as `spare`.

Rendering moves the position (`nextColumn`, `nextRow`) and reloads parts of it from a
second address (`copyHorizontal`, `copyVertical`). Rows 30 and 31 lie below the
picture : from row 29 the position wraps into the next nametable, from row 31 it
wraps in place.
-/

namespace Famicom

/-- A scroll position. -/
structure VramAddress where
  coarseX : BitVec 5
  coarseY : BitVec 5
  nametableX : Bool
  nametableY : Bool
  fineY : BitVec 3
  spare : Bool
  deriving DecidableEq, Repr

namespace VramAddress

/-- The position with the fields of a word. -/
def ofWord (w : UInt16) : VramAddress :=
  let n := w.toNat
  ⟨.ofNat 5 n, .ofNat 5 (n / 0x20), n.testBit 10, n.testBit 11, .ofNat 3 (n / 0x1000), n.testBit 15⟩

/-- The number with the fields of the position. -/
def toNat (v : VramAddress) : Nat :=
  v.coarseX.toNat + 0x20 * v.coarseY.toNat + 0x400 * v.nametableX.toNat
    + 0x800 * v.nametableY.toNat + 0x1000 * v.fineY.toNat + 0x8000 * v.spare.toNat

/-- The word with the fields of the position. -/
def toWord (v : VramAddress) : UInt16 := UInt16.ofNat v.toNat

theorem toNat_lt (v : VramAddress) : v.toNat < 0x10000 := by
  have := v.coarseX.isLt
  have := v.coarseY.isLt
  have := v.fineY.isLt
  have := v.nametableX.toNat_lt
  have := v.nametableY.toNat_lt
  have := v.spare.toNat_lt
  unfold toNat
  omega

@[simp] theorem toNat_toWord (v : VramAddress) : v.toWord.toNat = v.toNat := by
  simpa [toWord] using v.toNat_lt

/-- The position at the top left of the first nametable. -/
def origin : VramAddress := ofWord 0

theorem ofWord_toWord (v : VramAddress) : ofWord v.toWord = v := by
  obtain ⟨cx, cy, nx, ny, fy, s⟩ := v
  have hx := cx.isLt
  have hy := cy.isLt
  have hf := fy.isLt
  simp only [ofWord, toNat_toWord, mk.injEq]
  simp only [toNat, Nat.testBit_eq_decide_div_mod_eq]
  refine ⟨BitVec.eq_of_toNat_eq ?_, BitVec.eq_of_toNat_eq ?_, ?_, ?_,
    BitVec.eq_of_toNat_eq ?_, ?_⟩ <;>
    cases nx <;> cases ny <;> cases s <;>
    simp only [BitVec.toNat_ofNat, Bool.toNat_true, Bool.toNat_false, decide_eq_true_eq,
      decide_eq_false_iff_not] <;> omega

/-- The fourteen bits that address the picture unit's memory. -/
def busAddress (v : VramAddress) : UInt16 := v.toWord &&& 0x3FFF

/-- The address `step` further on, in fifteen bits. -/
def advance (v : VramAddress) (step : Nat) : VramAddress :=
  ofWord (UInt16.ofNat ((v.toNat + step) % 0x8000))

/-! ## Movement of the beam -/

/-- The next tile column; the one after the last is the first of the neighbouring
nametable. -/
def nextColumn (v : VramAddress) : VramAddress :=
  if v.coarseX = 31 then { v with coarseX := 0, nametableX := !v.nametableX }
  else { v with coarseX := v.coarseX + 1 }

/-- The next row of picture elements. -/
def nextRow (v : VramAddress) : VramAddress :=
  if v.fineY ≠ 7 then { v with fineY := v.fineY + 1 }
  else if v.coarseY = 29 then { v with fineY := 0, coarseY := 0, nametableY := !v.nametableY }
  else { v with fineY := 0, coarseY := v.coarseY + 1 }

/-- Take the column and the horizontal nametable of another position. -/
def copyHorizontal (v t : VramAddress) : VramAddress :=
  { v with coarseX := t.coarseX, nametableX := t.nametableX }

/-- Take the rows and the vertical nametable of another position. -/
def copyVertical (v t : VramAddress) : VramAddress :=
  { v with coarseY := t.coarseY, nametableY := t.nametableY, fineY := t.fineY }

/-! ## Writes from the processor -/

/-- Select the nametable by the two low bits of a byte. -/
def selectNametable (t : VramAddress) (value : UInt8) : VramAddress :=
  { t with nametableX := value &&& 1 != 0, nametableY := value &&& 2 != 0 }

/-- Set the column by the five high bits of a byte. -/
def scrollColumn (t : VramAddress) (value : UInt8) : VramAddress :=
  { t with coarseX := value.toBitVec.extractLsb' 3 5 }

/-- Set the row by the five high bits of a byte and the fine row by the others. The bit
above them is cleared. -/
def scrollRow (t : VramAddress) (value : UInt8) : VramAddress :=
  { t with
    coarseY := value.toBitVec.extractLsb' 3 5
    fineY := value.toBitVec.extractLsb' 0 3
    spare := false }

/-- Set bits 8 to 13 by the six low bits of a byte and clear the two above them. -/
def setHigh (t : VramAddress) (value : UInt8) : VramAddress :=
  ofWord (word (lowByte t.toWord) (value &&& 0x3F))

/-- Set the low eight bits. -/
def setLow (t : VramAddress) (value : UInt8) : VramAddress :=
  ofWord (word value (highByte t.toWord))

end VramAddress

end Famicom
