import Famicom.Proofs.Listing.Program
import Famicom.Proofs.Text.Hex
import Famicom.Proofs.Word
import Mathlib.Data.List.Nodup

/-!
# Listings read back

A listing loses nothing. The mnemonic and the operand of a record, as they are printed, tell its
bytes to a reader who knows its address (`assemble?`). He takes the operand apart at the dollar
sign and behind the digits (`WrittenOperand.ofText`) : what is around the digits, and how many
they are, is the shape of an addressing mode (`AddressingMode.shape`). Only two modes share theirs,
the one of absolute addresses and the one of branches, and no mnemonic has both. So the mnemonic
and the shape determine the opcode (`Instruction.eq_of_name_of_shape`), unless an undocumented
opcode does once more what a documented one does (`Instruction.isAlias`).

The digits give back the operand bytes (`operandBytes?_operandDigits`). Those of a branch are its
target, and the way there from the next instruction is a difference of words, across the end of
the address space as well.

`listing_lossless` states this of the records of all listings, of programs and of live memory.
-/

namespace Famicom

open Text

/-! ## Operands taken apart -/

/-- The character is a hexadecimal digit. -/
def Text.isHexDigit (c : Char) : Bool := (CommandLine.digitValue? 16 c).isSome

theorem Text.isHexDigit_hexDigit {n : Nat} (h : n < 16) : isHexDigit (hexDigit n) := by
  rw [isHexDigit, digitValue?_hexDigit n h]
  rfl

theorem Text.isHexDigit_of_mem_byteDigits {b : UInt8} : ∀ c ∈ byteDigits b, isHexDigit c := by
  have hb := b.toNat_lt
  intro c hc
  simp only [byteDigits, List.mem_cons, List.not_mem_nil, or_false] at hc
  rcases hc with rfl | rfl <;> exact isHexDigit_hexDigit (by omega)

theorem Text.isHexDigit_of_mem_wordDigits {w : UInt16} : ∀ c ∈ wordDigits w, isHexDigit c := by
  have hw := w.toNat_lt
  intro c hc
  simp only [wordDigits, List.mem_cons, List.not_mem_nil, or_false] at hc
  rcases hc with rfl | rfl | rfl | rfl <;> exact isHexDigit_hexDigit (by omega)

/-- What is written around the digits of an operand, and how many these are. The dollar sign in
front of them is left out. -/
structure OperandShape where
  before : String
  width : Nat
  behind : String
  deriving DecidableEq, Repr

/-- An operand in writing : what stands in front of the dollar sign, the digits behind it, and the
rest. -/
structure WrittenOperand where
  before : String
  digits : List Char
  behind : String
  deriving DecidableEq, Repr

namespace WrittenOperand

/-- Take an operand apart. -/
def ofText (text : String) : WrittenOperand :=
  let number := (text.toList.dropWhile (· != '$')).drop 1
  ⟨.ofList (text.toList.takeWhile (· != '$')), number.takeWhile isHexDigit,
    .ofList (number.dropWhile isHexDigit)⟩

/-- The shape of the operand. -/
def shape (w : WrittenOperand) : OperandShape := ⟨w.before, w.digits.length, w.behind⟩

theorem ofText_around {before behind : String} {digits : List Char} (hbefore : '$' ∉ before.toList)
    (hdigits : ∀ c ∈ digits, isHexDigit c) (hbehind : behind.toList.takeWhile isHexDigit = []) :
    ofText (before ++ "$" ++ .ofList digits ++ behind) = ⟨before, digits, behind⟩ := by
  have hfront : ∀ c ∈ before.toList, (c != '$') = true :=
    fun c hc => bne_iff_ne.2 fun h => hbefore (h ▸ hc)
  have hrest : behind.toList.dropWhile isHexDigit = behind.toList := by
    have hsplit := List.takeWhile_append_dropWhile (p := isHexDigit) (l := behind.toList)
    rwa [hbehind] at hsplit
  simp [ofText, List.takeWhile_append_of_pos hfront, List.dropWhile_append_of_pos hfront,
    List.takeWhile_append_of_pos hdigits, List.dropWhile_append_of_pos hdigits, hbehind, hrest]

end WrittenOperand

/-! ## Operands of an addressing mode -/

theorem lowByte_toUInt16 (b : UInt8) : lowByte b.toUInt16 = b := UInt8.toUInt8_toUInt16 b

theorem lowByte_signExtend (b : UInt8) : lowByte (signExtend b) = b := by
  rw [signExtend_eq]
  split
  · exact lowByte_toUInt16 b
  · exact lowByte_word b 0xFF

namespace AddressingMode

/-- How an operand of this mode is written. -/
def shape : AddressingMode → OperandShape
  | .implied => ⟨"", 0, ""⟩
  | .accumulator => ⟨"A", 0, ""⟩
  | .immediate => ⟨"#", 2, ""⟩
  | .zeroPage => ⟨"", 2, ""⟩
  | .zeroPageX => ⟨"", 2, ",X"⟩
  | .zeroPageY => ⟨"", 2, ",Y"⟩
  | .absolute | .relative => ⟨"", 4, ""⟩
  | .absoluteX => ⟨"", 4, ",X"⟩
  | .absoluteY => ⟨"", 4, ",Y"⟩
  | .indirect => ⟨"(", 4, ")"⟩
  | .indirectX => ⟨"(", 2, ",X)"⟩
  | .indirectY => ⟨"(", 2, "),Y"⟩

/-- The digits in an operand of this mode. -/
def operandDigits (mode : AddressingMode) (operand : List UInt8) (next : UInt16) : List Char :=
  let lo := operand.getD 0 0
  match mode with
  | .implied | .accumulator => []
  | .immediate | .zeroPage | .zeroPageX | .zeroPageY | .indirectX | .indirectY => byteDigits lo
  | .absolute | .absoluteX | .absoluteY | .indirect => wordDigits (word lo (operand.getD 1 0))
  | .relative => wordDigits (next + signExtend lo)

/-- The operand bytes that the digits stand for. The address of the next instruction is taken away
from the target of a branch. -/
def operandBytes? (mode : AddressingMode) (next : UInt16) (digits : List Char) :
    Option (List UInt8) :=
  (CommandLine.digitsValue? 16 0 digits).map fun number =>
    let w : UInt16 := if mode = .relative then .ofNat number - next else .ofNat number
    [lowByte w, highByte w].take mode.operandSize

variable (mode : AddressingMode) (operand : List UInt8) (next : UInt16)

theorem length_operandDigits : (mode.operandDigits operand next).length = mode.shape.width := by
  cases mode <;> rfl

theorem isHexDigit_of_mem_operandDigits : ∀ c ∈ mode.operandDigits operand next, isHexDigit c := by
  cases mode with
  | implied | accumulator => exact List.forall_mem_nil _
  | immediate | zeroPage | zeroPageX | zeroPageY | indirectX | indirectY =>
    exact isHexDigit_of_mem_byteDigits
  | absolute | absoluteX | absoluteY | indirect | relative => exact isHexDigit_of_mem_wordDigits

variable {mode} in
theorem operandText_eq_around (h : mode.shape.width ≠ 0) : mode.operandText operand next =
    mode.shape.before ++ "$" ++ .ofList (mode.operandDigits operand next) ++ mode.shape.behind := by
  cases mode with
  | implied | accumulator => exact absurd rfl h
  | _ =>
    refine String.toList_inj.1 ?_
    simp [operandText, operandDigits, shape, hex8, hex16]

/-- An operand is taken apart into what the mode puts around the digits, and the digits. -/
theorem ofText_operandText : WrittenOperand.ofText (mode.operandText operand next) =
    ⟨mode.shape.before, mode.operandDigits operand next, mode.shape.behind⟩ := by
  by_cases hwidth : mode.shape.width = 0
  · cases mode with
    | implied => exact (by decide : WrittenOperand.ofText "" = ⟨"", [], ""⟩)
    | accumulator => exact (by decide : WrittenOperand.ofText "A" = ⟨"A", [], ""⟩)
    | _ => exact absurd hwidth (by decide)
  · rw [operandText_eq_around operand next hwidth]
    refine WrittenOperand.ofText_around ?_ (mode.isHexDigit_of_mem_operandDigits operand next) ?_
    · cases mode <;> decide
    · cases mode <;> decide

variable {operand} in
/-- The digits give back the operand bytes. -/
theorem operandBytes?_operandDigits (h : operand.length = mode.operandSize) :
    mode.operandBytes? next (mode.operandDigits operand next) = some operand := by
  cases mode with
  | implied | accumulator =>
    obtain rfl := List.length_eq_zero_iff.1 h
    rfl
  | immediate | zeroPage | zeroPageX | zeroPageY | indirectX | indirectY =>
    obtain ⟨lo, rfl⟩ := List.length_eq_one_iff.1 h
    simp only [operandBytes?, operandDigits, List.getD_cons_zero, digitsValue?_byteDigits,
      Option.map_some, reduceCtorEq, if_false, ← toUInt16_eq_ofNat, lowByte_toUInt16]
    rfl
  | absolute | absoluteX | absoluteY | indirect =>
    obtain ⟨lo, hi, rfl⟩ := List.length_eq_two.1 h
    simp only [operandBytes?, operandDigits, List.getD_cons_zero, List.getD_cons_succ,
      digitsValue?_wordDigits, Option.map_some, reduceCtorEq, if_false, UInt16.ofNat_toNat,
      lowByte_word, highByte_word]
    rfl
  | relative =>
    obtain ⟨lo, rfl⟩ := List.length_eq_one_iff.1 h
    have hoffset : next + signExtend lo - next = signExtend lo := by
      rw [UInt16.add_comm, UInt16.add_sub_cancel]
    simp only [operandBytes?, operandDigits, List.getD_cons_zero, digitsValue?_wordDigits,
      Option.map_some, if_true, UInt16.ofNat_toNat, hoffset, lowByte_signExtend]
    rfl

/-- The targets of branches are written as absolute addresses are. -/
theorem eq_of_shape {m n : AddressingMode} (h : m.shape = n.shape)
    (hrelative : m = relative ↔ n = relative) : m = n := by
  cases m <;> cases n <;> first | rfl | exact absurd h (by decide) | simp at hrelative

end AddressingMode

/-! ## Instructions read back -/

theorem Mnemonic.name_injective : Function.Injective Mnemonic.name := by
  have hnodup : (all.map name).Nodup := by decide +kernel
  intro m n h
  exact List.inj_on_of_nodup_map hnodup (mem_all m) (mem_all n) h

namespace Instruction

/-- The opcode is an undocumented one that does what documented ones do : nothing, or a
subtraction. -/
def isAlias (i : Instruction) : Bool :=
  i.undocumented && (i.mnemonic == .nop || i.mnemonic == .sbc)

theorem relative_iff_isBranch {i : Instruction} (h : i ∈ table) :
    i.mode = .relative ↔ i.mnemonic.isBranch := by
  revert i
  decide +kernel

/-- Aliases apart, there is one opcode for a mnemonic in an addressing mode. -/
theorem eq_of_mnemonic_of_mode {i j : Instruction} (hi : i ∈ table) (hj : j ∈ table)
    (hialias : ¬ i.isAlias) (hjalias : ¬ j.isAlias) (hmnemonic : i.mnemonic = j.mnemonic)
    (hmode : i.mode = j.mode) : i = j := by
  have hnodup : ∀ mode ∈ AddressingMode.all,
      ((table.filter fun i => i.mode == mode && !i.isAlias).map (·.mnemonic)).Nodup := by
    decide +kernel
  have hmem {k : Instruction} (hk : k ∈ table) (halias : ¬ k.isAlias) (hmode : k.mode = i.mode) :
      k ∈ table.filter fun k => k.mode == i.mode && !k.isAlias :=
    List.mem_filter.2 ⟨hk, by simp [halias, hmode]⟩
  exact List.inj_on_of_nodup_map (hnodup i.mode (AddressingMode.mem_all _)) (hmem hi hialias rfl)
    (hmem hj hjalias hmode.symm) hmnemonic

theorem eq_of_name_of_shape {i j : Instruction} (hi : i ∈ table) (hj : j ∈ table)
    (hialias : ¬ i.isAlias) (hjalias : ¬ j.isAlias) (hname : i.mnemonic.name = j.mnemonic.name)
    (hshape : i.mode.shape = j.mode.shape) : i = j := by
  have hmnemonic := Mnemonic.name_injective hname
  refine eq_of_mnemonic_of_mode hi hj hialias hjalias hmnemonic
    (AddressingMode.eq_of_shape hshape ?_)
  rw [relative_iff_isBranch hi, relative_iff_isBranch hj, hmnemonic]

/-- The instruction with this name and an operand of this shape, no alias. -/
def ofWriting? (name : String) (shape : OperandShape) : Option Instruction :=
  table.find? fun i => !i.isAlias && i.mnemonic.name == name && i.mode.shape == shape

theorem ofWriting?_eq {i : Instruction} (h : i ∈ table) (halias : ¬ i.isAlias) :
    ofWriting? i.mnemonic.name i.mode.shape = some i := by
  have hsome : (ofWriting? i.mnemonic.name i.mode.shape).isSome :=
    List.find?_isSome.2 ⟨i, h, by simp [halias]⟩
  obtain ⟨j, hj⟩ := Option.isSome_iff_exists.1 hsome
  obtain ⟨⟨hjalias, hname⟩, hshape⟩ : (¬ j.isAlias ∧ j.mnemonic.name = i.mnemonic.name) ∧
      j.mode.shape = i.mode.shape := by simpa using List.find?_some hj
  rw [hj, eq_of_name_of_shape (List.mem_of_find?_eq_some hj) h hjalias halias hname hshape]

end Instruction

/-! ## Records read back -/

/-- The bytes at an address that are listed with this mnemonic and this operand. -/
def assemble? (address : UInt16) (name operand : String) : Option (List UInt8) :=
  let written := WrittenOperand.ofText operand
  (Instruction.ofWriting? name written.shape).bind fun i =>
    (i.mode.operandBytes? (address + .ofNat i.size) written.digits).map (i.opcode :: ·)

/-- The record is one of a listing, of a program or of live memory. -/
inductive Disassembly.Listed (d : Disassembly) : Prop
  | program {bytes : List UInt8} {origin : UInt16} (h : d ∈ disassemble bytes origin)
  | live {β : Type} [AddressSpace β] {start : UInt16} {count : Nat} {s : β}
    (h : d ∈ (disassembleFrom start count s).1)

theorem exists_decode_of_mem_disassemble {bytes : List UInt8} {origin : UInt16} {d : Disassembly}
    (h : d ∈ disassemble bytes origin) :
    ∃ address opcode rest, d = .decode address opcode rest := by
  induction bytes, origin using disassemble_induction with
  | nil address => simp [disassemble_nil] at h
  | cons opcode rest address ih =>
    rw [disassemble_cons] at h
    rcases List.mem_cons.1 h with rfl | h
    · exact ⟨address, opcode, rest, rfl⟩
    · exact ih h

theorem exists_decode_of_mem_disassembleLiveOnto {β : Type} [AddressSpace β] {d : Disassembly}
    {done : List Disassembly} {count : Nat} {start : UInt16} {s : β}
    (hdone : d ∈ done → ∃ address opcode rest, d = .decode address opcode rest)
    (h : d ∈ (disassembleLiveOnto done count start s).1) :
    ∃ address opcode rest, d = .decode address opcode rest := by
  induction count generalizing done start s with
  | zero => exact hdone (List.mem_reverse.1 h)
  | succ count ih =>
    rw [disassembleLiveOnto] at h
    split at h
    · exact hdone (List.mem_reverse.1 h)
    · refine ih (fun hmem => ?_) h
      rcases List.mem_cons.1 hmem with rfl | hmem
      · exact ⟨_, _, _, rfl⟩
      · exact hdone hmem

namespace Disassembly

/-- A record with an instruction is read back from its mnemonic and its operand. -/
theorem assemble?_decode {address : UInt16} {opcode : UInt8} {rest : List UInt8} {i : Instruction}
    (hi : (decode address opcode rest).instruction = some i) (halias : ¬ i.isAlias) :
    assemble? address i.mnemonic.name (decode address opcode rest).operand =
      some (decode address opcode rest).raw := by
  rcases decode_cases address opcode rest with ⟨j, hj, hfits, hrecord⟩ | ⟨-, hrecord⟩
  · rw [hrecord] at hi ⊢
    obtain rfl : j = i := Option.some_inj.1 hi
    have hlength : (rest.take j.mode.operandSize).length = j.mode.operandSize := by
      rw [Instruction.size] at hfits
      exact List.length_take_of_le (by omega)
    have hinstruction := Instruction.ofWriting?_eq (Instruction.mem_table_of_decode? hj) halias
    simp only [assemble?, AddressingMode.ofText_operandText, WrittenOperand.shape,
      AddressingMode.length_operandDigits, hinstruction, Option.bind_some,
      AddressingMode.operandBytes?_operandDigits j.mode _ hlength, Option.map_some,
      Instruction.opcode_of_decode? hj]
  · rw [hrecord] at hi
    cases hi

theorem Listed.exists_decode {d : Disassembly} (h : d.Listed) :
    ∃ opcode rest, d = decode d.address opcode rest := by
  obtain ⟨address, opcode, rest, rfl⟩ : ∃ address opcode rest, d = decode address opcode rest := by
    cases h with
    | program h => exact exists_decode_of_mem_disassemble h
    | live h =>
      exact exists_decode_of_mem_disassembleLiveOnto (fun h => absurd h List.not_mem_nil) h
  exact ⟨opcode, rest, by rw [address_decode]⟩

section Listed

variable {d : Disassembly} {i : Instruction} (h : d.Listed) (hi : d.instruction = some i)

include h hi

theorem Listed.decode?_head : d.raw.head?.bind Instruction.decode? = some i := by
  obtain ⟨opcode, rest, hd⟩ := h.exists_decode
  rw [hd] at hi ⊢
  rw [head?_raw_decode, Option.bind_some]
  exact ((instruction_decode _ opcode rest).1 hi).1

theorem Listed.assemble?_eq (halias : ¬ i.isAlias) :
    assemble? d.address i.mnemonic.name d.operand = some d.raw := by
  obtain ⟨opcode, rest, hd⟩ := h.exists_decode
  rw [hd] at hi
  have hread := assemble?_decode hi halias
  rwa [← hd] at hread

end Listed

/-- Two records at one address that show the same name and the same operand have the same bytes,
namely those that are read back. -/
theorem listing_lossless {d e : Disassembly} (hd : d.Listed) (he : e.Listed) {i j : Instruction}
    (hi : d.instruction = some i) (hj : e.instruction = some j) (hialias : ¬ i.isAlias)
    (hjalias : ¬ j.isAlias) (haddress : d.address = e.address)
    (hname : i.mnemonic.name = j.mnemonic.name) (hoperand : d.operand = e.operand) :
    i = j ∧ d.raw = e.raw ∧ assemble? d.address i.mnemonic.name d.operand = some d.raw := by
  have hdread := hd.assemble?_eq hi hialias
  have heread := he.assemble?_eq hj hjalias
  rw [← haddress, ← hname, ← hoperand, hdread] at heread
  have hraw : d.raw = e.raw := Option.some_inj.1 heread
  refine ⟨?_, hraw, hdread⟩
  -- Equal bytes begin with the same opcode.
  have hdecode := hd.decode?_head hi
  rw [hraw, he.decode?_head hj] at hdecode
  exact (Option.some_inj.1 hdecode).symm

/-- `BNE $FFFE` at the beginning of the address space, in a program and in a memory. -/
theorem listing_lossless_branch_back :
    let d : Disassembly :=
      ⟨0x0000, 0xD0, some (.plain 0xD0 .bne .relative 2), [0xD0, 0xFC], "$FFFE"⟩
    let b := ((Memory.zeros 0x10000).write 0 0xD0).write 1 0xFC
    d ∈ disassemble [0xD0, 0xFC] 0x0000 ∧ d ∈ (disassembleFrom 0x0000 1 b).1 ∧
    assemble? 0x0000 "BNE" "$FFFE" = some [0xD0, 0xFC] := by
  intro d b
  have hprogram : d ∈ disassemble [0xD0, 0xFC] 0x0000 := by
    have hdecode : decode 0x0000 0xD0 [0xFC] = d := by decide +kernel
    rw [disassemble_cons, hdecode]
    exact List.mem_cons_self
  have hlive : d ∈ (disassembleFrom 0x0000 1 b).1 := by
    have hlisting : (disassembleFrom 0x0000 1 b).1 = [d] := by decide +kernel
    rw [hlisting]
    exact List.mem_cons_self
  exact ⟨hprogram, hlive, (listing_lossless (.program hprogram) (.live hlive) rfl rfl (by decide)
    (by decide) rfl rfl rfl).2.2⟩

end Disassembly

end Famicom
