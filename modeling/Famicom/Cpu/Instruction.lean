/-!
# Instructions

An instruction is a mnemonic in an addressing mode. The mode fixes how many operand
bytes follow the opcode and hence the size; `cycles` is the base cost, to which a
crossed page (`pagePenalty`) and a taken branch add at run time. The last eight
mnemonics and some encodings of others are undocumented : the processor executes
them, no manual lists them.
-/

namespace Famicom

/-! ## Mnemonics -/

/-- The operations of the processor. The last eight combine two others each. -/
inductive Mnemonic where
  | adc | and | asl | bcc | bcs | beq | bit | bmi | bne | bpl | brk | bvc | bvs | clc | cld
  | cli | clv | cmp | cpx | cpy | dec | dex | dey | eor | inc | inx | iny | jmp | jsr | lda
  | ldx | ldy | lsr | nop | ora | pha | php | pla | plp | rol | ror | rti | rts | sbc | sec
  | sed | sei | sta | stx | sty | tax | tay | tsx | txa | txs | tya
  | lax | sax | dcp | isc | slo | rla | sre | rra
  deriving DecidableEq, Repr

namespace Mnemonic

/-- The spelling in listings and traces. -/
def name : Mnemonic → String
  | .adc => "ADC" | .and => "AND" | .asl => "ASL" | .bcc => "BCC" | .bcs => "BCS"
  | .beq => "BEQ" | .bit => "BIT" | .bmi => "BMI" | .bne => "BNE" | .bpl => "BPL"
  | .brk => "BRK" | .bvc => "BVC" | .bvs => "BVS" | .clc => "CLC" | .cld => "CLD"
  | .cli => "CLI" | .clv => "CLV" | .cmp => "CMP" | .cpx => "CPX" | .cpy => "CPY"
  | .dec => "DEC" | .dex => "DEX" | .dey => "DEY" | .eor => "EOR" | .inc => "INC"
  | .inx => "INX" | .iny => "INY" | .jmp => "JMP" | .jsr => "JSR" | .lda => "LDA"
  | .ldx => "LDX" | .ldy => "LDY" | .lsr => "LSR" | .nop => "NOP" | .ora => "ORA"
  | .pha => "PHA" | .php => "PHP" | .pla => "PLA" | .plp => "PLP" | .rol => "ROL"
  | .ror => "ROR" | .rti => "RTI" | .rts => "RTS" | .sbc => "SBC" | .sec => "SEC"
  | .sed => "SED" | .sei => "SEI" | .sta => "STA" | .stx => "STX" | .sty => "STY"
  | .tax => "TAX" | .tay => "TAY" | .tsx => "TSX" | .txa => "TXA" | .txs => "TXS"
  | .tya => "TYA" | .lax => "LAX" | .sax => "SAX" | .dcp => "DCP" | .isc => "ISB"
  | .slo => "SLO" | .rla => "RLA" | .sre => "SRE" | .rra => "RRA"

/-- Every mnemonic, in alphabetical order with the undocumented ones last. -/
def all : List Mnemonic :=
  [adc, and, asl, bcc, bcs, beq, bit, bmi, bne, bpl, brk, bvc, bvs, clc, cld, cli, clv, cmp,
    cpx, cpy, dec, dex, dey, eor, inc, inx, iny, jmp, jsr, lda, ldx, ldy, lsr, nop, ora, pha,
    php, pla, plp, rol, ror, rti, rts, sbc, sec, sed, sei, sta, stx, sty, tax, tay, tsx, txa,
    txs, tya, lax, sax, dcp, isc, slo, rla, sre, rra]

/-- The conditional branches. -/
def isBranch : Mnemonic → Bool
  | .bcc | .bcs | .beq | .bmi | .bne | .bpl | .bvc | .bvs => true
  | _ => false

theorem mem_all (m : Mnemonic) : m ∈ all := by
  cases m <;> decide

end Mnemonic

/-! ## Addressing modes -/

/-- How an instruction finds its operand. -/
inductive AddressingMode where
  | implied
  | accumulator
  | immediate
  | zeroPage
  | zeroPageX
  | zeroPageY
  | absolute
  | absoluteX
  | absoluteY
  | indirect
  | indirectX
  | indirectY
  | relative
  deriving DecidableEq, Repr

namespace AddressingMode

/-- Every addressing mode. -/
def all : List AddressingMode :=
  [implied, accumulator, immediate, zeroPage, zeroPageX, zeroPageY, absolute, absoluteX, absoluteY,
    indirect, indirectX, indirectY, relative]

/-- The number of bytes that follow the opcode. -/
def operandSize : AddressingMode → Nat
  | .implied | .accumulator => 0
  | .immediate | .zeroPage | .zeroPageX | .zeroPageY | .indirectX | .indirectY | .relative => 1
  | .absolute | .absoluteX | .absoluteY | .indirect => 2

theorem mem_all (m : AddressingMode) : m ∈ all := by
  cases m <;> decide

theorem operandSize_le (m : AddressingMode) : m.operandSize ≤ 2 := by
  cases m <;> decide

end AddressingMode

/-! ## Instructions -/

/-- What one opcode stands for. -/
structure Instruction where
  opcode : UInt8
  mnemonic : Mnemonic
  mode : AddressingMode
  /-- The cost without page crossings and taken branches. -/
  cycles : Nat
  /-- One cycle more if the indexed address leaves the page of its base. -/
  pagePenalty : Bool := false
  /-- No manual lists the opcode. -/
  undocumented : Bool := false
  deriving DecidableEq, Repr

/-- The length in bytes, opcode included. -/
def Instruction.size (i : Instruction) : Nat := 1 + i.mode.operandSize

theorem Instruction.size_pos (i : Instruction) : 0 < i.size := by
  unfold Instruction.size
  omega

end Famicom
