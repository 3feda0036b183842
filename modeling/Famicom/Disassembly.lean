import Famicom.Cpu.OpcodeTable
import Famicom.AddressSpace
import Famicom.Word

/-!
# Disassembly

A listing is a sequence of records. A record (`Disassembly`) covers the bytes of one
instruction, or a single byte where no instruction can be read : an undefined
opcode, or an instruction that the bytes at hand do not complete. `disassemble`
lists the bytes of a program, so the raw bytes of its records are the program again;
`disassembleFrom` lists live memory as far as an observer can see it.
-/

namespace Famicom

/-! ## Operands in writing -/

open Text in
/-- The operand of an instruction in writing. The operand bytes follow the opcode, a
missing one counts as zero, and `next` is the address behind the instruction, from
which a branch counts. -/
def AddressingMode.operandText (mode : AddressingMode) (operand : List UInt8) (next : UInt16) :
    String :=
  let lo := operand.getD 0 0
  let address := word lo (operand.getD 1 0)
  match mode with
  | .implied => ""
  | .accumulator => "A"
  | .immediate => "#$" ++ hex8 lo
  | .zeroPage => "$" ++ hex8 lo
  | .zeroPageX => "$" ++ hex8 lo ++ ",X"
  | .zeroPageY => "$" ++ hex8 lo ++ ",Y"
  | .absolute => "$" ++ hex16 address
  | .absoluteX => "$" ++ hex16 address ++ ",X"
  | .absoluteY => "$" ++ hex16 address ++ ",Y"
  | .indirect => "($" ++ hex16 address ++ ")"
  | .indirectX => "($" ++ hex8 lo ++ ",X)"
  | .indirectY => "($" ++ hex8 lo ++ "),Y"
  | .relative => "$" ++ hex16 (next + signExtend lo)

/-! ## Records -/

/-- One line of a listing. -/
structure Disassembly where
  address : UInt16
  opcode : UInt8
  /-- The instruction that the bytes spell, if they spell one. -/
  instruction : Option Instruction
  raw : List UInt8
  operand : String
  deriving DecidableEq, Repr

namespace Disassembly

/-- The number of bytes the record covers. -/
def length (d : Disassembly) : Nat := d.raw.length

/-- The record of a byte that starts no instruction. -/
def undecoded (address : UInt16) (opcode : UInt8) : Disassembly :=
  ⟨address, opcode, none, [opcode], ""⟩

/-- The record at `address` of a byte and what follows it. -/
def decode (address : UInt16) (opcode : UInt8) (rest : List UInt8) : Disassembly :=
  match Instruction.decode? opcode with
  | none => undecoded address opcode
  | some i =>
    let operand := rest.take i.mode.operandSize
    if operand.length = i.mode.operandSize then
      ⟨address, opcode, some i, opcode :: operand,
        i.mode.operandText operand (address + UInt16.ofNat i.size)⟩
    else undecoded address opcode

/-- A record covers its opcode at least. -/
theorem length_decode_pos (address : UInt16) (opcode : UInt8) (rest : List UInt8) :
    0 < (decode address opcode rest).length := by
  unfold decode length
  split
  · exact Nat.one_pos
  · simp only
    split
    · exact Nat.succ_pos _
    · exact Nat.one_pos

/-- The mnemonic and the operand, or question marks for a byte without instruction. -/
def statement (d : Disassembly) : String :=
  match d.instruction with
  | none => "???"
  | some i => if d.operand.isEmpty then i.mnemonic.name else i.mnemonic.name ++ " " ++ d.operand

/-- The bytes in hexadecimal, separated by blanks. -/
def rawText (d : Disassembly) : String := " ".intercalate (d.raw.map Text.hex8)

/-- The line of the record : address, bytes and statement in columns. -/
def line (d : Disassembly) : String :=
  Text.hex16 d.address ++ "   " ++ Text.padRight 8 d.rawText ++ "   " ++ d.statement

end Disassembly

/-! ## Listings -/

/-- Put the records of `bytes`, placed at `address`, behind those in `done`, which are in
reverse order. -/
def disassembleOnto (done : List Disassembly) (bytes : List UInt8) (address : UInt16) :
    List Disassembly :=
  match bytes with
  | [] => done.reverse
  | opcode :: rest =>
    let record := Disassembly.decode address opcode rest
    disassembleOnto (record :: done) (rest.drop (record.length - 1))
      (address + UInt16.ofNat record.length)
termination_by bytes.length
decreasing_by
  simp only [List.length_drop, List.length_cons]
  omega

/-- The listing of a program placed at `origin`. -/
def disassemble (bytes : List UInt8) (origin : UInt16) : List Disassembly :=
  disassembleOnto [] bytes origin

section Live

variable {β : Type} [AddressSpace β]

/-- What an observer sees of `count` bytes from `address` on, up to the first refusal. -/
def peekBytes : Nat → UInt16 → β → List UInt8 × β
  | 0, _, s => ([], s)
  | count + 1, address, s =>
    match AddressSpace.peek address s with
    | (none, s) => ([], s)
    | (some value, s) =>
      match peekBytes count (address + 1) s with
      | (values, s) => (value :: values, s)

/-- Put up to `count` records of live memory behind those in `done`, which are in reverse
order. -/
def disassembleLiveOnto (done : List Disassembly) :
    Nat → UInt16 → β → List Disassembly × β
  | 0, _, s => (done.reverse, s)
  | count + 1, address, s =>
    match AddressSpace.peek address s with
    | (none, s) => (done.reverse, s)
    | (some opcode, s) =>
      let size := ((Instruction.decode? opcode).map Instruction.size).getD 1
      match peekBytes (size - 1) (address + 1) s with
      | (rest, s) =>
        let record := Disassembly.decode address opcode rest
        disassembleLiveOnto (record :: done) count (address + UInt16.ofNat record.length) s

/-- The listing of at most `count` instructions of live memory. It ends in front of the
first address that cannot be seen. -/
def disassembleFrom (address : UInt16) (count : Nat) (s : β) : List Disassembly × β :=
  disassembleLiveOnto [] count address s

end Live

end Famicom
