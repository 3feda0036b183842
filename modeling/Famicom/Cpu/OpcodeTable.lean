import Famicom.Cpu.Instruction

/-!
# The opcode table

`Instruction.table` lists the defined opcodes in ascending order, 151 documented and
80 undocumented ones. `decode?` finds the instruction of an opcode; the bytes that
halt the processor and those whose result varies between chips are absent.
`encoding?` goes the other way, from a mnemonic and a mode, and prefers a documented
encoding where there are several.
-/

namespace Famicom

namespace Instruction

/-- A documented instruction of fixed cost. -/
def plain (opcode : UInt8) (mnemonic : Mnemonic) (mode : AddressingMode) (cycles : Nat) :
    Instruction :=
  ⟨opcode, mnemonic, mode, cycles, false, false⟩

/-- A documented instruction that pays for a crossed page. -/
def paged (opcode : UInt8) (mnemonic : Mnemonic) (mode : AddressingMode) (cycles : Nat) :
    Instruction :=
  ⟨opcode, mnemonic, mode, cycles, true, false⟩

/-- An undocumented instruction of fixed cost. -/
def hidden (opcode : UInt8) (mnemonic : Mnemonic) (mode : AddressingMode) (cycles : Nat) :
    Instruction :=
  ⟨opcode, mnemonic, mode, cycles, false, true⟩

/-- An undocumented instruction that pays for a crossed page. -/
def hiddenPaged (opcode : UInt8) (mnemonic : Mnemonic) (mode : AddressingMode) (cycles : Nat) :
    Instruction :=
  ⟨opcode, mnemonic, mode, cycles, true, true⟩

/-- The defined opcodes in ascending order. -/
def table : List Instruction :=
  [plain 0x00 .brk .implied 7, plain 0x01 .ora .indirectX 6, hidden 0x03 .slo .indirectX 8,
    hidden 0x04 .nop .zeroPage 3, plain 0x05 .ora .zeroPage 3, plain 0x06 .asl .zeroPage 5,
    hidden 0x07 .slo .zeroPage 5, plain 0x08 .php .implied 3, plain 0x09 .ora .immediate 2,
    plain 0x0A .asl .accumulator 2, hidden 0x0C .nop .absolute 4, plain 0x0D .ora .absolute 4,
    plain 0x0E .asl .absolute 6, hidden 0x0F .slo .absolute 6, plain 0x10 .bpl .relative 2,
    paged 0x11 .ora .indirectY 5, hidden 0x13 .slo .indirectY 8, hidden 0x14 .nop .zeroPageX 4,
    plain 0x15 .ora .zeroPageX 4, plain 0x16 .asl .zeroPageX 6, hidden 0x17 .slo .zeroPageX 6,
    plain 0x18 .clc .implied 2, paged 0x19 .ora .absoluteY 4, hidden 0x1A .nop .implied 2,
    hidden 0x1B .slo .absoluteY 7, hiddenPaged 0x1C .nop .absoluteX 4,
    paged 0x1D .ora .absoluteX 4, plain 0x1E .asl .absoluteX 7, hidden 0x1F .slo .absoluteX 7,
    plain 0x20 .jsr .absolute 6, plain 0x21 .and .indirectX 6, hidden 0x23 .rla .indirectX 8,
    plain 0x24 .bit .zeroPage 3, plain 0x25 .and .zeroPage 3, plain 0x26 .rol .zeroPage 5,
    hidden 0x27 .rla .zeroPage 5, plain 0x28 .plp .implied 4, plain 0x29 .and .immediate 2,
    plain 0x2A .rol .accumulator 2, plain 0x2C .bit .absolute 4, plain 0x2D .and .absolute 4,
    plain 0x2E .rol .absolute 6, hidden 0x2F .rla .absolute 6, plain 0x30 .bmi .relative 2,
    paged 0x31 .and .indirectY 5, hidden 0x33 .rla .indirectY 8, hidden 0x34 .nop .zeroPageX 4,
    plain 0x35 .and .zeroPageX 4, plain 0x36 .rol .zeroPageX 6, hidden 0x37 .rla .zeroPageX 6,
    plain 0x38 .sec .implied 2, paged 0x39 .and .absoluteY 4, hidden 0x3A .nop .implied 2,
    hidden 0x3B .rla .absoluteY 7, hiddenPaged 0x3C .nop .absoluteX 4,
    paged 0x3D .and .absoluteX 4, plain 0x3E .rol .absoluteX 7, hidden 0x3F .rla .absoluteX 7,
    plain 0x40 .rti .implied 6, plain 0x41 .eor .indirectX 6, hidden 0x43 .sre .indirectX 8,
    hidden 0x44 .nop .zeroPage 3, plain 0x45 .eor .zeroPage 3, plain 0x46 .lsr .zeroPage 5,
    hidden 0x47 .sre .zeroPage 5, plain 0x48 .pha .implied 3, plain 0x49 .eor .immediate 2,
    plain 0x4A .lsr .accumulator 2, plain 0x4C .jmp .absolute 3, plain 0x4D .eor .absolute 4,
    plain 0x4E .lsr .absolute 6, hidden 0x4F .sre .absolute 6, plain 0x50 .bvc .relative 2,
    paged 0x51 .eor .indirectY 5, hidden 0x53 .sre .indirectY 8, hidden 0x54 .nop .zeroPageX 4,
    plain 0x55 .eor .zeroPageX 4, plain 0x56 .lsr .zeroPageX 6, hidden 0x57 .sre .zeroPageX 6,
    plain 0x58 .cli .implied 2, paged 0x59 .eor .absoluteY 4, hidden 0x5A .nop .implied 2,
    hidden 0x5B .sre .absoluteY 7, hiddenPaged 0x5C .nop .absoluteX 4,
    paged 0x5D .eor .absoluteX 4, plain 0x5E .lsr .absoluteX 7, hidden 0x5F .sre .absoluteX 7,
    plain 0x60 .rts .implied 6, plain 0x61 .adc .indirectX 6, hidden 0x63 .rra .indirectX 8,
    hidden 0x64 .nop .zeroPage 3, plain 0x65 .adc .zeroPage 3, plain 0x66 .ror .zeroPage 5,
    hidden 0x67 .rra .zeroPage 5, plain 0x68 .pla .implied 4, plain 0x69 .adc .immediate 2,
    plain 0x6A .ror .accumulator 2, plain 0x6C .jmp .indirect 5, plain 0x6D .adc .absolute 4,
    plain 0x6E .ror .absolute 6, hidden 0x6F .rra .absolute 6, plain 0x70 .bvs .relative 2,
    paged 0x71 .adc .indirectY 5, hidden 0x73 .rra .indirectY 8, hidden 0x74 .nop .zeroPageX 4,
    plain 0x75 .adc .zeroPageX 4, plain 0x76 .ror .zeroPageX 6, hidden 0x77 .rra .zeroPageX 6,
    plain 0x78 .sei .implied 2, paged 0x79 .adc .absoluteY 4, hidden 0x7A .nop .implied 2,
    hidden 0x7B .rra .absoluteY 7, hiddenPaged 0x7C .nop .absoluteX 4,
    paged 0x7D .adc .absoluteX 4, plain 0x7E .ror .absoluteX 7, hidden 0x7F .rra .absoluteX 7,
    hidden 0x80 .nop .immediate 2, plain 0x81 .sta .indirectX 6, hidden 0x82 .nop .immediate 2,
    hidden 0x83 .sax .indirectX 6, plain 0x84 .sty .zeroPage 3, plain 0x85 .sta .zeroPage 3,
    plain 0x86 .stx .zeroPage 3, hidden 0x87 .sax .zeroPage 3, plain 0x88 .dey .implied 2,
    hidden 0x89 .nop .immediate 2, plain 0x8A .txa .implied 2, plain 0x8C .sty .absolute 4,
    plain 0x8D .sta .absolute 4, plain 0x8E .stx .absolute 4, hidden 0x8F .sax .absolute 4,
    plain 0x90 .bcc .relative 2, plain 0x91 .sta .indirectY 6, plain 0x94 .sty .zeroPageX 4,
    plain 0x95 .sta .zeroPageX 4, plain 0x96 .stx .zeroPageY 4, hidden 0x97 .sax .zeroPageY 4,
    plain 0x98 .tya .implied 2, plain 0x99 .sta .absoluteY 5, plain 0x9A .txs .implied 2,
    plain 0x9D .sta .absoluteX 5, plain 0xA0 .ldy .immediate 2, plain 0xA1 .lda .indirectX 6,
    plain 0xA2 .ldx .immediate 2, hidden 0xA3 .lax .indirectX 6, plain 0xA4 .ldy .zeroPage 3,
    plain 0xA5 .lda .zeroPage 3, plain 0xA6 .ldx .zeroPage 3, hidden 0xA7 .lax .zeroPage 3,
    plain 0xA8 .tay .implied 2, plain 0xA9 .lda .immediate 2, plain 0xAA .tax .implied 2,
    plain 0xAC .ldy .absolute 4, plain 0xAD .lda .absolute 4, plain 0xAE .ldx .absolute 4,
    hidden 0xAF .lax .absolute 4, plain 0xB0 .bcs .relative 2, paged 0xB1 .lda .indirectY 5,
    hiddenPaged 0xB3 .lax .indirectY 5, plain 0xB4 .ldy .zeroPageX 4,
    plain 0xB5 .lda .zeroPageX 4, plain 0xB6 .ldx .zeroPageY 4, hidden 0xB7 .lax .zeroPageY 4,
    plain 0xB8 .clv .implied 2, paged 0xB9 .lda .absoluteY 4, plain 0xBA .tsx .implied 2,
    paged 0xBC .ldy .absoluteX 4, paged 0xBD .lda .absoluteX 4, paged 0xBE .ldx .absoluteY 4,
    hiddenPaged 0xBF .lax .absoluteY 4, plain 0xC0 .cpy .immediate 2,
    plain 0xC1 .cmp .indirectX 6, hidden 0xC2 .nop .immediate 2, hidden 0xC3 .dcp .indirectX 8,
    plain 0xC4 .cpy .zeroPage 3, plain 0xC5 .cmp .zeroPage 3, plain 0xC6 .dec .zeroPage 5,
    hidden 0xC7 .dcp .zeroPage 5, plain 0xC8 .iny .implied 2, plain 0xC9 .cmp .immediate 2,
    plain 0xCA .dex .implied 2, plain 0xCC .cpy .absolute 4, plain 0xCD .cmp .absolute 4,
    plain 0xCE .dec .absolute 6, hidden 0xCF .dcp .absolute 6, plain 0xD0 .bne .relative 2,
    paged 0xD1 .cmp .indirectY 5, hidden 0xD3 .dcp .indirectY 8, hidden 0xD4 .nop .zeroPageX 4,
    plain 0xD5 .cmp .zeroPageX 4, plain 0xD6 .dec .zeroPageX 6, hidden 0xD7 .dcp .zeroPageX 6,
    plain 0xD8 .cld .implied 2, paged 0xD9 .cmp .absoluteY 4, hidden 0xDA .nop .implied 2,
    hidden 0xDB .dcp .absoluteY 7, hiddenPaged 0xDC .nop .absoluteX 4,
    paged 0xDD .cmp .absoluteX 4, plain 0xDE .dec .absoluteX 7, hidden 0xDF .dcp .absoluteX 7,
    plain 0xE0 .cpx .immediate 2, plain 0xE1 .sbc .indirectX 6, hidden 0xE2 .nop .immediate 2,
    hidden 0xE3 .isc .indirectX 8, plain 0xE4 .cpx .zeroPage 3, plain 0xE5 .sbc .zeroPage 3,
    plain 0xE6 .inc .zeroPage 5, hidden 0xE7 .isc .zeroPage 5, plain 0xE8 .inx .implied 2,
    plain 0xE9 .sbc .immediate 2, plain 0xEA .nop .implied 2, hidden 0xEB .sbc .immediate 2,
    plain 0xEC .cpx .absolute 4, plain 0xED .sbc .absolute 4, plain 0xEE .inc .absolute 6,
    hidden 0xEF .isc .absolute 6, plain 0xF0 .beq .relative 2, paged 0xF1 .sbc .indirectY 5,
    hidden 0xF3 .isc .indirectY 8, hidden 0xF4 .nop .zeroPageX 4, plain 0xF5 .sbc .zeroPageX 4,
    plain 0xF6 .inc .zeroPageX 6, hidden 0xF7 .isc .zeroPageX 6, plain 0xF8 .sed .implied 2,
    paged 0xF9 .sbc .absoluteY 4, hidden 0xFA .nop .implied 2, hidden 0xFB .isc .absoluteY 7,
    hiddenPaged 0xFC .nop .absoluteX 4, paged 0xFD .sbc .absoluteX 4,
    plain 0xFE .inc .absoluteX 7, hidden 0xFF .isc .absoluteX 7]

/-- The instruction of an opcode. -/
def decode? (opcode : UInt8) : Option Instruction :=
  table.find? fun i => i.opcode == opcode

/-- The instructions with this mnemonic and mode, in ascending order of their opcodes. -/
def encodings (mnemonic : Mnemonic) (mode : AddressingMode) : List Instruction :=
  table.filter fun i => i.mnemonic == mnemonic && i.mode == mode

/-- The instruction with this mnemonic and mode : a documented one if there is any, then
the one of lowest opcode. -/
def encoding? (mnemonic : Mnemonic) (mode : AddressingMode) : Option Instruction :=
  let found := encodings mnemonic mode
  (found.find? fun i => !i.undocumented).or found.head?

theorem mem_table_of_decode? {opcode : UInt8} {i : Instruction} (h : decode? opcode = some i) :
    i ∈ table :=
  List.mem_of_find?_eq_some h

theorem opcode_of_decode? {opcode : UInt8} {i : Instruction} (h : decode? opcode = some i) :
    i.opcode = opcode := by
  simpa using List.find?_some h

end Instruction

end Famicom
