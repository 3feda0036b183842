import Famicom.Cpu.Basic
import Famicom.Cpu.Instruction

/-!
# Operands

`AddressingMode.resolve` consumes the operand bytes of an instruction, with the
program counter just behind the opcode, and says where the operand is. An indexed
address is `crossed` if the index carried it out of the page of its base. Pointers
in page zero and the pointer of an indirect jump stay in their page : the high byte
behind a pointer at the end of a page comes from the start of that page.
-/

namespace Famicom

/-- Where the operand of an instruction is. -/
inductive Operand where
  | implied
  | accumulator
  | address (a : UInt16)
  deriving DecidableEq, Repr

namespace Operand

/-- The address of the operand, zero if it has none. -/
def target : Operand → UInt16
  | .address a => a
  | .implied | .accumulator => 0

end Operand

/-- A resolved operand, and whether indexing left the page of the base. -/
structure Resolved where
  operand : Operand
  crossed : Bool
  deriving DecidableEq, Repr

namespace Resolved

/-- An operand at a plain address. -/
def direct (a : UInt16) : Resolved := ⟨.address a, false⟩

/-- An operand at `base` plus `index`. -/
def indexed (base : UInt16) (index : UInt8) : Resolved :=
  let a := base + index.toUInt16
  ⟨.address a, !samePage base a⟩

end Resolved

namespace CpuM

variable {β : Type} [AddressSpace β]

/-- Read the pointer in page zero at `p`. -/
def readPointer (p : UInt8) : CpuM β UInt16 := readWord p.toUInt16 (p + 1).toUInt16

end CpuM

open CpuM in
/-- Consume the operand bytes at the program counter and locate the operand. -/
def AddressingMode.resolve {β : Type} [AddressSpace β] : AddressingMode → CpuM β Resolved
  | .implied => return ⟨.implied, false⟩
  | .accumulator => return ⟨.accumulator, false⟩
  | .immediate => do
    let pc := (← cpu).pc
    jump (pc + 1)
    return .direct pc
  | .zeroPage => return .direct (← fetchByte).toUInt16
  | .zeroPageX => do
    let base ← fetchByte
    return .direct (base + (← cpu).x).toUInt16
  | .zeroPageY => do
    let base ← fetchByte
    return .direct (base + (← cpu).y).toUInt16
  | .absolute => return .direct (← fetchWord)
  | .absoluteX => do
    let base ← fetchWord
    return .indexed base (← cpu).x
  | .absoluteY => do
    let base ← fetchWord
    return .indexed base (← cpu).y
  | .indirect => do
    let pointer ← fetchWord
    return .direct (← readWord pointer (nextInPage pointer))
  | .indirectX => do
    let base ← fetchByte
    return .direct (← readPointer (base + (← cpu).x))
  | .indirectY => do
    let base ← readPointer (← fetchByte)
    return .indexed base (← cpu).y
  | .relative => do
    let offset ← fetchByte
    return .direct ((← cpu).pc + signExtend offset)

end Famicom
