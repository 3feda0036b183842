import Famicom.Cpu.Basic

/-!
# Arithmetic

The computations of the instructions, without their accesses. Shifts, rotations,
increment and decrement map a byte and the flags to a byte and the flags
(`ByteOp`); addition and comparison work on the registers. Addition is always
binary, the decimal flag has no part in it. Subtraction is addition of the
complement.
-/

namespace Famicom

/-- A change of one byte that also sets flags. -/
abbrev ByteOp := UInt8 → Status → UInt8 × Status

namespace ByteOp

/-- The result together with the flags it shows. -/
def result (value : UInt8) (s : Status) : UInt8 × Status := (value, s.showing value)

/-- Shift left; the carry takes the bit that falls out. -/
def shiftLeft : ByteOp := fun b s => result (b <<< 1) { s with carry := b &&& 0x80 != 0 }

/-- Shift right; the carry takes the bit that falls out. -/
def shiftRight : ByteOp := fun b s => result (b >>> 1) { s with carry := b &&& 0x01 != 0 }

/-- Rotate left through the carry. -/
def rotateLeft : ByteOp := fun b s =>
  result (b <<< 1 ||| if s.carry then 0x01 else 0) { s with carry := b &&& 0x80 != 0 }

/-- Rotate right through the carry. -/
def rotateRight : ByteOp := fun b s =>
  result (b >>> 1 ||| if s.carry then 0x80 else 0) { s with carry := b &&& 0x01 != 0 }

/-- Add one. -/
def increment : ByteOp := fun b s => result (b + 1) s

/-- Subtract one. -/
def decrement : ByteOp := fun b s => result (b - 1) s

end ByteOp

/-- The flags after a comparison of a register with a value. -/
def Status.comparing (s : Status) (register value : UInt8) : Status :=
  { s.showing (register - value) with carry := value ≤ register, zero := register == value }

namespace Registers

/-- Set the accumulator and the flags that show it. -/
def setA (r : Registers) (value : UInt8) : Registers :=
  { r with a := value, status := r.status.showing value }

/-- Set the X register and the flags that show it. -/
def setX (r : Registers) (value : UInt8) : Registers :=
  { r with x := value, status := r.status.showing value }

/-- Set the Y register and the flags that show it. -/
def setY (r : Registers) (value : UInt8) : Registers :=
  { r with y := value, status := r.status.showing value }

/-- Add a value and the carry to the accumulator. The overflow flag tells that the sum
of two numbers of one sign has the other sign. -/
def add (r : Registers) (value : UInt8) : Registers :=
  let total := r.a.toNat + value.toNat + if r.status.carry then 1 else 0
  let sum := UInt8.ofNat total
  { r with
    a := sum
    status := { r.status with
      carry := 0xFF < total
      overflow := ~~~(r.a ^^^ value) &&& (r.a ^^^ sum) &&& 0x80 != 0 }.showing sum }

/-- Subtract a value and the missing carry from the accumulator. -/
def subtract (r : Registers) (value : UInt8) : Registers := r.add (~~~value)

/-- Compare the accumulator with a value. -/
def compareA (r : Registers) (value : UInt8) : Registers :=
  { r with status := r.status.comparing r.a value }

/-- Compare the X register with a value. -/
def compareX (r : Registers) (value : UInt8) : Registers :=
  { r with status := r.status.comparing r.x value }

/-- Compare the Y register with a value. -/
def compareY (r : Registers) (value : UInt8) : Registers :=
  { r with status := r.status.comparing r.y value }

/-- Test a value against the accumulator; its two high bits go to the flags. -/
def testBits (r : Registers) (value : UInt8) : Registers :=
  { r with status := { r.status with
      zero := r.a &&& value == 0
      overflow := value &&& 0x40 != 0
      negative := value &&& 0x80 != 0 } }

end Registers

end Famicom
