import Famicom.Ppu.VramAddress

/-!
# Picture registers

The registers that the processor reaches, and the two scroll positions behind them :
the `current` one, at which the picture unit works, and the `latched` one, which the
processor prepares. Scroll and address are written in two halves; `secondWrite`
remembers which half comes next, and reading the status starts over.
-/

namespace Famicom

/-- The three flags of the status register. -/
structure PpuStatus where
  spriteOverflow : Bool
  spriteZeroHit : Bool
  verticalBlank : Bool
  deriving DecidableEq, Repr

namespace PpuStatus

/-- No flag is set. -/
def clear : PpuStatus := ⟨false, false, false⟩

/-- The flags in the three high bits of a byte. -/
def ofByte (b : UInt8) : PpuStatus := ⟨b &&& 0x20 != 0, b &&& 0x40 != 0, b &&& 0x80 != 0⟩

/-- The flags as the three high bits of a byte. -/
def toByte (s : PpuStatus) : UInt8 :=
  (if s.spriteOverflow then 0x20 else 0) ||| (if s.spriteZeroHit then 0x40 else 0) |||
  (if s.verticalBlank then 0x80 else 0)

theorem ofByte_toByte (s : PpuStatus) : ofByte s.toByte = s := by
  obtain ⟨o, h, v⟩ := s
  cases o <;> cases h <;> cases v <;> rfl

end PpuStatus

/-- The registers of the picture unit. -/
structure PpuRegisters where
  control : UInt8
  mask : UInt8
  status : PpuStatus
  oamAddress : UInt8
  current : VramAddress
  latched : VramAddress
  fineX : UInt8
  secondWrite : Bool
  deriving DecidableEq, Repr

namespace PpuRegisters

/-- The registers at power-up. -/
def initial : PpuRegisters where
  control := 0
  mask := 0
  status := .clear
  oamAddress := 0
  current := .origin
  latched := .origin
  fineX := 0
  secondWrite := false

/-- The vertical blank interrupts the processor. -/
def interruptEnabled (r : PpuRegisters) : Bool := r.control &&& 0x80 != 0

/-- Background or sprites are shown, so the beam moves the scroll position. -/
def rendering (r : PpuRegisters) : Bool := r.mask &&& 0x18 != 0

/-- How far an access to the data register moves the address : along a row or down a column. -/
def stride (r : PpuRegisters) : Nat := if r.control &&& 0x04 != 0 then 32 else 1

/-- Write the control register, which also selects a nametable. -/
def writeControl (r : PpuRegisters) (value : UInt8) : PpuRegisters :=
  { r with control := value, latched := r.latched.selectNametable value }

/-- Read the status. This ends the report of the vertical blank and starts the pairs of
writes over. -/
def readStatus (r : PpuRegisters) : PpuStatus × PpuRegisters :=
  (r.status, { r with status := { r.status with verticalBlank := false }, secondWrite := false })

/-- Write half of the scroll position, the column first. -/
def writeScroll (r : PpuRegisters) (value : UInt8) : PpuRegisters :=
  if r.secondWrite then
    { r with latched := r.latched.scrollRow value, secondWrite := false }
  else
    { r with
      latched := r.latched.scrollColumn value
      fineX := value &&& 0x07
      secondWrite := true }

/-- Write half of the address, the high byte first. The second half puts it to use. -/
def writeAddress (r : PpuRegisters) (value : UInt8) : PpuRegisters :=
  if r.secondWrite then
    let address := r.latched.setLow value
    { r with latched := address, current := address, secondWrite := false }
  else
    { r with latched := r.latched.setHigh value, secondWrite := true }

/-- Move on after an access to the data register. -/
def advance (r : PpuRegisters) : PpuRegisters :=
  { r with current := r.current.advance r.stride }

/-- Move to the next tile column. -/
def nextColumn (r : PpuRegisters) : PpuRegisters := { r with current := r.current.nextColumn }

/-- Move to the next row. -/
def nextRow (r : PpuRegisters) : PpuRegisters := { r with current := r.current.nextRow }

/-- Return to the latched column. -/
def copyHorizontal (r : PpuRegisters) : PpuRegisters :=
  { r with current := r.current.copyHorizontal r.latched }

/-- Return to the latched row. -/
def copyVertical (r : PpuRegisters) : PpuRegisters :=
  { r with current := r.current.copyVertical r.latched }

end PpuRegisters

end Famicom
