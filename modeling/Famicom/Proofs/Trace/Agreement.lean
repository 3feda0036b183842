import Famicom.Proofs.Listing.Live
import Famicom.Proofs.Trace.Layout
import Famicom.Proofs.Trace.Prediction

/-!
# A trace line and the listing

A trace line words the operand of an instruction with code of its own, and still shows the
instruction as a listing of live memory does. The wording of a view is the operand as it is listed,
and behind it a note on where the operand is and what it holds (`text_viewOperand`). Of the
instruction both see the same bytes, as long as none of them is hidden and looking at one
does not change another (`lookBytes_eq_inSight`).

In columns (`line_shows_listing`) : the bytes of the record stand in the columns of the bytes, its
mnemonic, or the question marks in its place, in three columns of the statement, and its operand
behind them with the note.
-/

namespace Famicom

open Text

/-! ## Operands and notes -/

namespace OperandView

/-- What the wording of a view adds to the operand as it is listed. -/
def note : OperandView → String
  | .implied | .accumulator | .immediate _ | .destination _ => ""
  | .zeroPage _ held | .absolute _ held => " = " ++ byteText held
  | .zeroPageIndexed _ _ address held => " @ " ++ hex8 address ++ " = " ++ byteText held
  | .absoluteIndexed _ _ address held => " @ " ++ hex16 address ++ " = " ++ byteText held
  | .indirect _ target => " = " ++ wordText target
  | .indirectX _ pointer address held =>
    " @ " ++ hex8 pointer ++ " = " ++ wordText address ++ " = " ++ byteText held
  | .indirectY _ base address held =>
    " = " ++ wordText base ++ " @ " ++ wordText address ++ " = " ++ byteText held

theorem note_cases (view : OperandView) :
    view.note = "" ∨ ∃ rest, view.note = " = " ++ rest ∨ view.note = " @ " ++ rest := by
  cases view with
  | implied | accumulator | immediate | destination => exact .inl rfl
  | zeroPage | absolute | indirect => exact .inr ⟨_, .inl rfl⟩
  | zeroPageIndexed | absoluteIndexed | indirectX =>
    simp only [note, String.append_assoc]
    exact .inr ⟨_, .inr rfl⟩
  | indirectY =>
    simp only [note, String.append_assoc]
    exact .inr ⟨_, .inl rfl⟩

end OperandView

namespace Trace

variable {β : Type} [AddressSpace β]

/-- The view of an operand is worded as the operand is listed, with its note behind. -/
theorem text_viewOperand (c : Cpu) (i : Instruction) (operand : List UInt8) (b : β) :
    (viewOperand c i (operand.map some) b).1.text =
      i.mode.operandText operand (c.pc + .ofNat i.size) ++
        (viewOperand c i (operand.map some) b).1.note := by
  cases hmode : i.mode with
  | absolute =>
    by_cases hjump : i.mnemonic = .jmp ∨ i.mnemonic = .jsr
    · simp only [viewOperand, hmode, if_pos hjump, pure_run, getD_map_some, OperandView.text,
        OperandView.note, AddressingMode.operandText, String.append_empty]
    · simp only [viewOperand, hmode, if_neg hjump, bind_run, pure_run, getD_map_some,
        OperandView.text, OperandView.note, AddressingMode.operandText, String.append_assoc]
  | _ =>
    refine String.toList_inj.1 ?_
    simp only [viewOperand, viewZeroPage, viewAbsolute, hmode, bind_run, pure_run, getD_map_some,
      OperandView.text, OperandView.note, AddressingMode.operandText, IndexRegister.name]
    simp

/-! ## Bytes in sight -/

section Unmoved

variable {b : β} (h : ∀ a, (AddressSpace.peek a b).2 = b)

include h

theorem lookBytes_eq_inSight {count : Nat} {a : UInt16}
    (hvisible : ∀ x ∈ addressesFrom a count, visible b x) :
    lookBytes count a b = ((inSight b a count).map some, b) ∧
      (inSight b a count).length = count := by
  induction count generalizing a with
  | zero => exact ⟨rfl, rfl⟩
  | succ count ih =>
    obtain ⟨value, hpeek⟩ := Option.isSome_iff_exists.1 (hvisible a (by simp [addressesFrom]))
    have hlook : look a b = (some value, b) := Prod.ext hpeek (h a)
    obtain ⟨hrest, hlength⟩ := ih (a := a + 1) fun x hx => hvisible x (by simp [addressesFrom, hx])
    rw [inSight_succ hpeek]
    refine ⟨?_, congrArg Nat.succ hlength⟩
    simp only [lookBytes, bind_run, pure_run, hlook, hrest, List.map_cons]

theorem disassembleFrom_one_of_visible {a : UInt16} {opcode : UInt8}
    (hpeek : (AddressSpace.peek a b).1 = some opcode) :
    (disassembleFrom a 1 b).1 = [.decode a opcode (inSight b (a + 1) 2)] := by
  rw [disassembleFrom, disassembleLiveOnto_succ h hpeek [] 0 (Nat.le_refl 2)]
  rfl

/-- The record and the statement of an instruction that is in sight are made from the same bytes. -/
theorem record_and_statement {c : Cpu} {opcode : UInt8} {i : Instruction}
    (hpeek : (AddressSpace.peek c.pc b).1 = some opcode)
    (hdecode : Instruction.decode? opcode = some i)
    (hvisible : ∀ x ∈ addressesFrom c.pc i.size, visible b x) :
    ∃ operand, (disassembleFrom c.pc 1 b).1 = [⟨c.pc, opcode, some i, opcode :: operand,
        i.mode.operandText operand (c.pc + .ofNat i.size)⟩] ∧
      let text := (viewOperand c i (operand.map some) b).1.text
      (statement c b).1 = ⟨" ".intercalate ((opcode :: operand).map hex8), i.undocumented,
        if text.isEmpty then i.mnemonic.name else i.mnemonic.name ++ " " ++ text⟩ := by
  obtain rfl := Instruction.opcode_of_decode? hdecode
  obtain ⟨hlook, hlength⟩ := lookBytes_eq_inSight h hvisible
  have hsize : i.size = i.mode.operandSize + 1 := Nat.add_comm _ _
  rw [hsize, inSight_succ hpeek] at hlook hlength
  have htake : (inSight b (c.pc + 1) 2).take i.mode.operandSize =
      inSight b (c.pc + 1) i.mode.operandSize := by
    rw [take_inSight, Nat.min_eq_left i.mode.operandSize_le]
  refine ⟨inSight b (c.pc + 1) i.mode.operandSize, ?_, ?_⟩
  · rw [disassembleFrom_one_of_visible h hpeek, Disassembly.decode, hdecode]
    simp only [htake, Nat.succ.inj hlength, if_true]
  · exact statement_of_bytes (Prod.ext hpeek (h c.pc)) hdecode (hsize ▸ hlook)

end Unmoved

/-! ## Columns -/

/-- The statement of a line has a column for the mnemonic and one for the operand. -/
theorem padRight_statement {name : String} (hname : name.length = 3) (operand : String) :
    padRight 32 (if operand.isEmpty then name else name ++ " " ++ operand) =
      String.join [name, " ", padRight 28 operand] := by
  have hblank : " ".length = 1 := rfl
  split
  · rename_i hempty
    rw [String.isEmpty_iff.1 hempty, padRight, padRight, hname]
    refine String.toList_inj.1 ?_
    simp [List.replicate_succ]
  · have hwidth : 32 - (name ++ " " ++ operand).length = 28 - operand.length := by
      rw [String.length_append, String.length_append, hname, hblank]
      omega
    rw [padRight, padRight, hwidth]
    simp [String.append_assoc]

theorem columns_statement {c : Cpu} {b : β} {name operand : String} (hname : name.length = 3)
    (hoperand : operand.length ≤ 28) (htext : (statement c b).1.text =
      if operand.isEmpty then name else name ++ " " ++ operand) (scanline dot : Nat) :
    let text := (line c scanline dot b).1
    columns 16 3 text = name ∧ columns 19 1 text = " " ∧
      columns 20 28 text = padRight 28 operand := by
  intro text
  have hstatement : columns 16 32 text = String.join [name, " ", padRight 28 operand] := by
    rw [← padRight_statement hname, ← htext]
    exact columns_line (n := 5) rfl (by decide)
  have hinside (second narrow : Nat) (h : second + narrow ≤ 32) :
      columns (16 + second) narrow text =
        columns second narrow (String.join [name, " ", padRight 28 operand]) := by
    rw [← hstatement, columns_columns h]
  have hblank : " ".length = 1 := rfl
  have hfirst := columns_join [] [" ", padRight 28 operand] name
  have hsecond := columns_join [name] [padRight 28 operand] " "
  have hthird := columns_join [name, " "] [] (padRight 28 operand)
  rw [length_padRight hoperand] at hthird
  simp only [List.map_cons, List.map_nil, List.sum_cons, List.sum_nil, List.nil_append,
    List.cons_append, hname, hblank] at hfirst hsecond hthird
  exact ⟨(hinside 0 3 (by decide)).trans hfirst, (hinside 3 1 (by decide)).trans hsecond,
    (hinside 4 28 (by decide)).trans hthird⟩

theorem name_ne_question_marks (m : Mnemonic) : m.name ≠ "???" := by
  cases m <;> decide

/-- To an observer who changes nothing and sees the instruction at the program counter, the trace
line shows it as the listing does : with the same bytes, the same mnemonic or question marks for it,
and the same operand, behind which there may be a note. -/
theorem line_shows_listing {b : β} (h : ∀ a, (AddressSpace.peek a b).2 = b) {c : Cpu}
    {opcode : UInt8} (hpeek : (AddressSpace.peek c.pc b).1 = some opcode)
    (hvisible : ∀ x ∈ addressesFrom c.pc
      (((Instruction.decode? opcode).map Instruction.size).getD 1), visible b x)
    (scanline dot : Nat) :
    let text := (line c scanline dot b).1
    ∃ record note, (disassembleFrom c.pc 1 b).1 = [record] ∧
      (note = "" ∨ ∃ rest, note = " = " ++ rest ∨ note = " @ " ++ rest) ∧
      (record.rawText.length ≤ 8 ∧ columns 6 8 text = padRight 8 record.rawText) ∧
      columns 16 3 text = (record.instruction.map (·.mnemonic.name)).getD "???" ∧
      (columns 16 3 text = "???" ↔ record.instruction = none) ∧
      columns 19 1 text = " " ∧
      ((record.operand ++ note).length ≤ 28 ∧
        columns 20 28 text = padRight 28 (record.operand ++ note)) := by
  intro text
  have hbytes : columns 6 8 text = padRight 8 (statement c b).1.bytes :=
    columns_line (n := 2) rfl (by decide)
  have hfits := (statement_fits c b).1
  cases hdecode : Instruction.decode? opcode with
  | none =>
    have hinstruction : instructionAt b c.pc = none := by
      rw [instructionAt, hpeek, Option.bind_some, hdecode]
    have hrecord : (disassembleFrom c.pc 1 b).1 = [.undecoded c.pc opcode] := by
      rw [disassembleFrom_one_of_visible h hpeek, Disassembly.decode, hdecode]
    have hstatement : (statement c b).1 = ⟨hex8 opcode, false, "???"⟩ := by
      have hlook : (look c.pc b).1 = some opcode := hpeek
      rw [statement_of_none hinstruction, show (look c.pc b).2 = b from h c.pc, hlook]
      rfl
    obtain ⟨hname, hblank, hoperand⟩ := columns_statement (rfl : "???".length = 3)
      (by decide : "".length ≤ 28) (by rw [hstatement]; rfl) scanline dot
    rw [hstatement] at hbytes hfits
    exact ⟨_, "", hrecord, .inl rfl, ⟨hfits, hbytes⟩, hname, iff_of_true hname rfl, hblank,
      (by decide : ("" ++ "").length ≤ 28), hoperand⟩
  | some i =>
    rw [hdecode] at hvisible
    obtain ⟨operand, hrecord, hstatement⟩ := record_and_statement h hpeek hdecode hvisible
    have hview := text_viewOperand c i operand b
    have hnote := (viewOperand c i (operand.map some) b).1.note_cases
    have hlength := (viewOperand c i (operand.map some) b).1.length_text_le
    obtain ⟨hname, hblank, hoperand⟩ := columns_statement i.mnemonic.length_name
      (Nat.le_trans hlength (by decide)) (congrArg Statement.text hstatement) scanline dot
    rw [hstatement] at hbytes hfits
    rw [hview] at hlength hoperand
    refine ⟨_, _, hrecord, hnote, ⟨hfits, hbytes⟩, hname, ?_, hblank,
      Nat.le_trans hlength (by decide), hoperand⟩
    refine iff_of_false (fun hmarks => ?_) (Option.some_ne_none i)
    exact name_ne_question_marks i.mnemonic (hname.symm.trans hmarks)

/-- `LDA ($10),Y` across the end of the address space. -/
theorem line_shows_listing_across_end :
    let b := ((Memory.zeros 0x10000).write 0xFFFF 0xB1).write 0x0000 0x10
    let text := (line { Cpu.initial with pc := 0xFFFF } 0 21 b).1
    columns 6 8 text = "B1 10   " ∧ columns 16 3 text = "LDA" ∧
      ∃ note, columns 20 28 text = padRight 28 ("($10),Y" ++ note) := by
  intro b text
  have hlast : (AddressSpace.peek 0xFFFF b).1 = some 0xB1 :=
    congrArg some (by simp [b, Memory.read_write] : b.read 0xFFFF = 0xB1)
  have hfirst : (AddressSpace.peek 0x0000 b).1 = some 0x10 :=
    congrArg some (by simp [b, Memory.read_write] : b.read 0x0000 = 0x10)
  have hsecond : (AddressSpace.peek 0x0001 b).1 = some 0x00 :=
    congrArg some (by simp [b, Memory.read_write, Memory.zeros, Memory.read_filled] :
      b.read 0x0001 = 0x00)
  obtain ⟨record, note, hrecord, -, ⟨-, hbytes⟩, hname, -, -, -, hoperand⟩ :=
    line_shows_listing (b := b) (fun _ => rfl) (c := { Cpu.initial with pc := 0xFFFF }) hlast
      (fun _ _ => rfl) 0 21
  have hlisting : (disassembleFrom 0xFFFF 1 b).1 = [⟨0xFFFF, 0xB1,
      some (.paged 0xB1 .lda .indirectY 5), [0xB1, 0x10], "($10),Y"⟩] := by
    rw [disassembleFrom_one_of_visible (fun _ => rfl) hlast,
      inSight_succ (a := 0xFFFF + 1) hfirst, inSight_succ (a := 0xFFFF + 1 + 1) hsecond]
    decide +kernel
  obtain rfl := List.singleton_inj.1 (hrecord.symm.trans hlisting)
  exact ⟨hbytes.trans (by decide +kernel), hname, note, hoperand⟩

end Trace

end Famicom
