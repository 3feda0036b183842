import Famicom.Cpu.Basic
import Famicom.Cpu.OpcodeTable

/-!
# Trace lines

A trace line shows the instruction the processor is about to run, what its operand
holds at that moment, the registers, the position of the beam and the cycle count,
each in a fixed column :

    C000  4C F5 C5  JMP $C5F5                       A:00 X:00 Y:00 P:24 SP:FD PPU:  0, 21 CYC:7

Memory is looked at with `peek`, so tracing disturbs no device. What cannot be seen
is shown as question marks. A star in front of the mnemonic marks an undocumented
instruction.

What is seen of the operand is a value of its own, `OperandView`, and its wording a
function of that value (`OperandView.text`) : the view holds the addresses that the
instruction will work with.
-/

namespace Famicom

/-! ## The operand -/

/-- A register that indexes an address. -/
inductive IndexRegister where
  | x
  | y
  deriving DecidableEq, Repr

namespace IndexRegister

/-- The name of the register. -/
def name : IndexRegister → String
  | .x => "X"
  | .y => "Y"

/-- What the register holds. -/
def value (r : IndexRegister) (c : Cpu) : UInt8 :=
  match r with
  | .x => c.x
  | .y => c.y

end IndexRegister

/-- What an observer sees of an operand before the instruction runs. Addresses that depend
on memory out of sight are missing, and so is what they hold. -/
inductive OperandView where
  | implied
  | accumulator
  | immediate (value : UInt8)
  /-- Where a jump, a call or a branch leads. -/
  | destination (target : UInt16)
  | zeroPage (address : UInt8) (held : Option UInt8)
  | zeroPageIndexed (base : UInt8) (index : IndexRegister) (address : UInt8) (held : Option UInt8)
  | absolute (address : UInt16) (held : Option UInt8)
  | absoluteIndexed (base : UInt16) (index : IndexRegister) (address : UInt16) (held : Option UInt8)
  /-- Where a jump through a pointer leads. -/
  | indirect (pointer : UInt16) (target : Option UInt16)
  | indirectX (base pointer : UInt8) (address : Option UInt16) (held : Option UInt8)
  | indirectY (pointer : UInt8) (base address : Option UInt16) (held : Option UInt8)
  deriving DecidableEq, Repr

open Text

/-- A byte, or question marks for one that cannot be seen. -/
def byteText : Option UInt8 → String
  | some value => hex8 value
  | none => "??"

/-- A word, or question marks for one that cannot be seen. -/
def wordText : Option UInt16 → String
  | some value => hex16 value
  | none => "????"

/-- The operand in writing : its syntax, the address behind `@` where indexing or a pointer
leads to one, and what is held there behind the last equals sign. -/
def OperandView.text : OperandView → String
  | .implied => ""
  | .accumulator => "A"
  | .immediate value => "#$" ++ hex8 value
  | .destination target => "$" ++ hex16 target
  | .zeroPage address held => "$" ++ hex8 address ++ " = " ++ byteText held
  | .zeroPageIndexed base index address held =>
    "$" ++ hex8 base ++ "," ++ index.name ++ " @ " ++ hex8 address ++ " = " ++ byteText held
  | .absolute address held => "$" ++ hex16 address ++ " = " ++ byteText held
  | .absoluteIndexed base index address held =>
    "$" ++ hex16 base ++ "," ++ index.name ++ " @ " ++ hex16 address ++ " = " ++ byteText held
  | .indirect pointer target => "($" ++ hex16 pointer ++ ") = " ++ wordText target
  | .indirectX base pointer address held =>
    "($" ++ hex8 base ++ ",X) @ " ++ hex8 pointer ++ " = " ++ wordText address ++ " = "
      ++ byteText held
  | .indirectY pointer base address held =>
    "($" ++ hex8 pointer ++ "),Y = " ++ wordText base ++ " @ " ++ wordText address ++ " = "
      ++ byteText held

namespace Trace

variable {β : Type} [AddressSpace β]

/-! ## Looking -/

/-- Look at a byte. -/
def look (a : UInt16) : StateM β (Option UInt8) := AddressSpace.peek a

/-- Look at the word whose bytes are at `lo` and `hi`. The second look is saved if the
first sees nothing. -/
def lookWord (lo hi : UInt16) : StateM β (Option UInt16) := do
  match ← look lo with
  | none => return none
  | some l =>
    match ← look hi with
    | none => return none
    | some h => return some (word l h)

/-- Look at the pointer in page zero at `p`. -/
def lookPointer (p : UInt8) : StateM β (Option UInt16) := lookWord p.toUInt16 (p + 1).toUInt16

/-- Look at the byte at an address that may itself be unknown. -/
def lookAt : Option UInt16 → StateM β (Option UInt8)
  | none => return none
  | some a => look a

/-- Look at `count` bytes from `address` on. -/
def lookBytes : Nat → UInt16 → StateM β (List (Option UInt8))
  | 0, _ => return []
  | count + 1, address => do
    let value ← look address
    let values ← lookBytes count (address + 1)
    return value :: values

/-- View an indexed operand in page zero. -/
def viewZeroPage (c : Cpu) (base : UInt8) (index : IndexRegister) : StateM β OperandView := do
  let a := base + index.value c
  return .zeroPageIndexed base index a (← look a.toUInt16)

/-- View an indexed operand. -/
def viewAbsolute (c : Cpu) (base : UInt16) (index : IndexRegister) : StateM β OperandView := do
  let a := base + (index.value c).toUInt16
  return .absoluteIndexed base index a (← look a)

/-- View the operand of the instruction at the program counter. An operand byte that cannot
be seen counts as zero. -/
def viewOperand (c : Cpu) (i : Instruction) (operand : List (Option UInt8)) :
    StateM β OperandView := do
  let lo := (operand.getD 0 none).getD 0
  let address := word lo ((operand.getD 1 none).getD 0)
  match i.mode with
  | .implied => return .implied
  | .accumulator => return .accumulator
  | .immediate => return .immediate lo
  | .zeroPage => return .zeroPage lo (← look lo.toUInt16)
  | .zeroPageX => viewZeroPage c lo .x
  | .zeroPageY => viewZeroPage c lo .y
  | .absolute =>
    if i.mnemonic = .jmp ∨ i.mnemonic = .jsr then
      return .destination address
    else
      return .absolute address (← look address)
  | .absoluteX => viewAbsolute c address .x
  | .absoluteY => viewAbsolute c address .y
  | .indirect => return .indirect address (← lookWord address (nextInPage address))
  | .indirectX => do
    let pointer := lo + c.x
    let target ← lookPointer pointer
    return .indirectX lo pointer target (← lookAt target)
  | .indirectY => do
    let base ← lookPointer lo
    let target := base.map (· + c.y.toUInt16)
    return .indirectY lo base target (← lookAt target)
  | .relative => return .destination (c.pc + UInt16.ofNat i.size + signExtend lo)

/-! ## The line -/

/-- What the line says of the instruction : its bytes, whether it is undocumented, and its
mnemonic with the operand. -/
structure Statement where
  bytes : String
  undocumented : Bool
  text : String

/-- The statement at the program counter. -/
def statement (c : Cpu) : StateM β Statement := do
  match (← look c.pc).bind Instruction.decode? with
  | some i =>
    let raw ← lookBytes i.size c.pc
    let operand := (← viewOperand c i (raw.drop 1)).text
    let name := i.mnemonic.name
    return ⟨" ".intercalate (raw.map byteText), i.undocumented,
      if operand.isEmpty then name else name ++ " " ++ operand⟩
  | none => return ⟨byteText (← look c.pc), false, "???"⟩

/-- The columns of the registers, the beam and the cycle count. -/
def stateColumns (c : Cpu) (scanline dot : Nat) : String :=
  "A:" ++ hex8 c.a ++ " X:" ++ hex8 c.x ++ " Y:" ++ hex8 c.y ++ " P:" ++ hex8 c.status.toByte
    ++ " SP:" ++ hex8 c.sp ++ " PPU:" ++ padLeft 3 (toString scanline) ++ ","
    ++ padLeft 3 (toString dot) ++ " CYC:" ++ toString c.cycles

/-- The trace line of the instruction at the program counter, with the beam at this
position. -/
def line (c : Cpu) (scanline dot : Nat) : StateM β String := do
  let s ← statement c
  return hex16 c.pc ++ "  " ++ padRight 8 s.bytes ++ " " ++ (if s.undocumented then "*" else " ")
    ++ padRight 32 s.text ++ stateColumns c scanline dot

end Trace

end Famicom
