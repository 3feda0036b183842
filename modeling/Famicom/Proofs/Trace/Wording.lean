import Famicom.Proofs.Text.Hex
import Famicom.Proofs.Trace.Observer

/-!
# What can be read off a trace line

Four characters stand nowhere in a trace line but in its operand (`marks`, `Plain`) : a number
follows the dollar sign, the at sign and the equals sign, and question marks stand for what is
out of sight. So a reader who knows the addressing mode finds the address that the
instruction works with (`shownAddress`) and the byte it holds (`shownValue`) without knowing where
the columns begin. Both are those of the view that the line words (`shownAddress_around`,
`shownValue_around`), whatever stands in front of the operand and behind it.
-/

namespace Famicom

open Text

/-! ## Marks -/

/-- The characters that guide a reader to the numbers of an operand, and the one for a digit that is
out of sight. -/
def marks : List Char := ['$', '@', '=', '?']

/-- The text has no marks. -/
def Plain (text : String) : Prop := ∀ c ∈ text.toList, c ∉ marks

instance (text : String) : Decidable (Plain text) :=
  List.decidableBAll (· ∉ marks) text.toList

theorem plain_append {text more : String} : Plain (text ++ more) ↔ Plain text ∧ Plain more := by
  simp only [Plain, String.toList_append, List.mem_append]
  grind

namespace Plain

variable {text : String}

theorem not_mem (h : Plain text) {mark : Char} (hm : mark ∈ marks) : mark ∉ text.toList :=
  fun hc => h mark hc hm

theorem blanks (n : Nat) : Plain (String.ofList (List.replicate n ' ')) := by
  intro c hc
  rw [String.toList_ofList] at hc
  rw [List.eq_of_mem_replicate hc]
  decide

theorem padRight (h : Plain text) (width : Nat) : Plain (padRight width text) :=
  plain_append.2 ⟨h, blanks _⟩

theorem padLeft (h : Plain text) (width : Nat) : Plain (padLeft width text) :=
  plain_append.2 ⟨blanks _, h⟩

theorem hexDigit : ∀ n < 16, Text.hexDigit n ∉ marks := by
  decide

theorem hex8 (b : UInt8) : Plain (hex8 b) := by
  have hb := b.toNat_lt
  intro c hc
  simp only [Text.hex8, String.toList_ofList, byteDigits, List.mem_cons, List.not_mem_nil,
    or_false] at hc
  rcases hc with rfl | rfl <;> exact hexDigit _ (by omega)

theorem hex16 (w : UInt16) : Plain (hex16 w) := by
  have hw := w.toNat_lt
  intro c hc
  simp only [Text.hex16, String.toList_ofList, wordDigits, List.mem_cons, List.not_mem_nil,
    or_false] at hc
  rcases hc with rfl | rfl | rfl | rfl <;> exact hexDigit _ (by omega)

theorem decimal (n : Nat) : Plain (toString n) := by
  intro c hc hm
  have hmark : c.isDigit = false := by
    simp only [marks, List.mem_cons, List.not_mem_nil, or_false] at hm
    rcases hm with rfl | rfl | rfl | rfl <;> rfl
  have hdigits : c ∈ Nat.toDigits 10 n := by simpa [Nat.repr] using hc
  have hdigit := Nat.isDigit_of_mem_toDigits (by decide) (by decide) hdigits
  rw [hmark] at hdigit
  cases hdigit

theorem name (m : Mnemonic) : Plain m.name := by
  cases m <;> decide

theorem intercalate {separator : String} (hseparator : Plain separator) :
    ∀ {texts : List String}, (∀ text ∈ texts, Plain text) → Plain (separator.intercalate texts)
  | [], _ => by simp [Plain]
  | [text], h => by simpa using h text (by simp)
  | text :: next :: texts, h => by
    rw [String.intercalate_cons_cons, plain_append, plain_append]
    exact ⟨⟨h text (by simp), hseparator⟩,
      hseparator.intercalate fun t ht => h t (List.mem_cons_of_mem _ ht)⟩

end Plain

/-! ## Reading -/

/-- The text behind the first mark of this kind. -/
def behind (mark : Char) : List Char → Option (List Char)
  | [] => none
  | c :: rest => if c = mark then some rest else behind mark rest

/-- The text behind the last mark of this kind. -/
def behindLast (mark : Char) : List Char → Option (List Char)
  | [] => none
  | c :: rest => (behindLast mark rest).or (if c = mark then some rest else none)

/-- The number that the next `n` characters make in hexadecimal, after blanks. -/
def hexNumber? (n : Nat) (text : List Char) : Option Nat :=
  let digits := (text.dropWhile (· == ' ')).take n
  if digits.length = n then CommandLine.digitsValue? 16 0 digits else none

theorem behind_append {mark : Char} {text : List Char} (h : mark ∉ text) (rest : List Char) :
    behind mark (text ++ rest) = behind mark rest := by
  induction text with
  | nil => rfl
  | cons c text ih =>
    rw [List.mem_cons, not_or] at h
    rw [List.cons_append, behind, if_neg (Ne.symm h.1), ih h.2]

theorem behindLast_of_not_mem {mark : Char} {text : List Char} (h : mark ∉ text) :
    behindLast mark text = none := by
  induction text with
  | nil => rfl
  | cons c text ih =>
    rw [List.mem_cons, not_or] at h
    rw [behindLast, ih h.2, if_neg (Ne.symm h.1)]
    rfl

theorem behindLast_append {mark : Char} {rest : List Char} (h : mark ∉ rest) (text : List Char) :
    behindLast mark (text ++ mark :: rest) = some rest := by
  induction text with
  | nil => simp [behindLast, behindLast_of_not_mem h]
  | cons c text ih => simp [behindLast, ih]

theorem Plain.behind {text : String} (h : Plain text) {mark : Char} (hm : mark ∈ marks)
    (rest : List Char) : behind mark (text.toList ++ rest) = Famicom.behind mark rest :=
  behind_append (h.not_mem hm) rest

@[simp] theorem hexNumber?_blank (n : Nat) (text : List Char) :
    hexNumber? n (' ' :: text) = hexNumber? n text := by
  simp [hexNumber?]

theorem hexDigit_ne_blank : ∀ n < 16, hexDigit n ≠ ' ' := by
  decide

@[simp] theorem hexNumber?_hex8 (b : UInt8) (rest : List Char) :
    hexNumber? 2 ((hex8 b).toList ++ rest) = some b.toNat := by
  have hb := b.toNat_lt
  have hblank := hexDigit_ne_blank (b.toNat / 16) (by omega)
  have hnumber := digitsValue?_byteDigits b
  rw [byteDigits] at hnumber
  simp [hexNumber?, hex8, byteDigits, hblank, hnumber]

@[simp] theorem hexNumber?_hex16 (w : UInt16) (rest : List Char) :
    hexNumber? 4 ((hex16 w).toList ++ rest) = some w.toNat := by
  have hw := w.toNat_lt
  have hblank := hexDigit_ne_blank (w.toNat / 4096) (by omega)
  have hnumber := digitsValue?_wordDigits w
  rw [wordDigits] at hnumber
  simp [hexNumber?, hex16, wordDigits, hblank, hnumber]

/-- Question marks are no number. -/
@[simp] theorem hexNumber?_byteText (value : Option UInt8) (rest : List Char) :
    hexNumber? 2 ((byteText value).toList ++ rest) = value.map UInt8.toNat := by
  cases value with
  | none => rfl
  | some value => exact hexNumber?_hex8 value rest

@[simp] theorem hexNumber?_wordText (value : Option UInt16) (rest : List Char) :
    hexNumber? 4 ((wordText value).toList ++ rest) = value.map UInt16.toNat := by
  cases value with
  | none => rfl
  | some value => exact hexNumber?_hex16 value rest

/-- The word of `n` digits behind the first mark of this kind. -/
def wordBehind (mark : Char) (n : Nat) (line : String) : Option UInt16 :=
  ((behind mark line.toList).bind (hexNumber? n)).map UInt16.ofNat

/-- The address that a line shows for an operand of this mode : where the instruction works, or
where it leads. -/
def shownAddress (line : String) : AddressingMode → Option UInt16
  | .implied | .accumulator | .immediate => none
  | .zeroPage => wordBehind '$' 2 line
  | .absolute | .relative => wordBehind '$' 4 line
  | .zeroPageX | .zeroPageY => wordBehind '@' 2 line
  | .absoluteX | .absoluteY | .indirectY => wordBehind '@' 4 line
  | .indirect | .indirectX => wordBehind '=' 4 line

/-- The byte that a line shows behind its last equals sign. -/
def shownValue (line : String) : Option UInt8 :=
  ((behindLast '=' line.toList).bind (hexNumber? 2)).map UInt8.ofNat

/-! ## The operand -/

namespace OperandView

/-- Where the instruction works or leads, as far as it is in sight. -/
def address : OperandView → Option UInt16
  | .implied | .accumulator | .immediate _ => none
  | .zeroPage address _ | .zeroPageIndexed _ _ address _ => some address.toUInt16
  | .destination address | .absolute address _ | .absoluteIndexed _ _ address _ => some address
  | .indirect _ address | .indirectX _ _ address _ | .indirectY _ _ address _ => address

/-- What the operand holds, as far as it is in sight. -/
def held : OperandView → Option UInt8
  | .implied | .accumulator | .immediate _ | .destination _ | .indirect .. => none
  | .zeroPage _ held | .zeroPageIndexed _ _ _ held | .absolute _ held
  | .absoluteIndexed _ _ _ held | .indirectX _ _ _ held | .indirectY _ _ _ held => held

/-- The view shows what the operand holds. -/
def isData : OperandView → Bool
  | .implied | .accumulator | .immediate _ | .destination _ | .indirect .. => false
  | _ => true

/-- Nothing that the view shows is out of sight. -/
def complete : OperandView → Bool
  | .implied | .accumulator | .immediate _ | .destination _ => true
  | .zeroPage _ held | .zeroPageIndexed _ _ _ held | .absolute _ held
  | .absoluteIndexed _ _ _ held => held.isSome
  | .indirect _ target => target.isSome
  | .indirectX _ _ address held => address.isSome && held.isSome
  | .indirectY _ base address held => base.isSome && address.isSome && held.isSome

/-- The view is one of an operand of this mode. -/
def fits (mode : AddressingMode) : OperandView → Prop
  | .implied => mode = .implied
  | .accumulator => mode = .accumulator
  | .immediate _ => mode = .immediate
  | .destination _ => mode = .absolute ∨ mode = .relative
  | .zeroPage .. => mode = .zeroPage
  | .zeroPageIndexed .. => mode = .zeroPageX ∨ mode = .zeroPageY
  | .absolute .. => mode = .absolute
  | .absoluteIndexed .. => mode = .absoluteX ∨ mode = .absoluteY
  | .indirect .. => mode = .indirect
  | .indirectX .. => mode = .indirectX
  | .indirectY .. => mode = .indirectY

end OperandView

theorem Plain.indexName (index : IndexRegister) : Plain index.name := by
  cases index <;> decide

theorem behind_wordText (value : Option UInt16) (rest : List Char) :
    behind '@' ((wordText value).toList ++ rest) = behind '@' rest := by
  cases value with
  | none => rfl
  | some value => exact (Plain.hex16 value).behind (by decide) rest

/-- The address is found wherever the operand stands in the line. -/
theorem shownAddress_around {view : OperandView} {mode : AddressingMode} (h : view.fits mode)
    {head : String} (hhead : Plain head) (tail : String) :
    shownAddress (head ++ view.text ++ tail) mode = view.address := by
  have hback : UInt16.ofNat ∘ UInt16.toNat = id := funext fun _ => UInt16.ofNat_toNat
  cases view with
  | implied | accumulator | immediate =>
    obtain rfl := h
    rfl
  | destination | zeroPageIndexed | absoluteIndexed =>
    rcases h with rfl | rfl <;>
      simp (disch := decide) [shownAddress, wordBehind, OperandView.text, OperandView.address,
        behind, hhead.behind, (Plain.hex8 _).behind, (Plain.hex16 _).behind,
        (Plain.indexName _).behind]
  | zeroPage | absolute | indirect | indirectX | indirectY =>
    obtain rfl := h
    simp (disch := decide) [shownAddress, wordBehind, OperandView.text, OperandView.address,
      behind, hhead.behind, (Plain.hex8 _).behind, (Plain.hex16 _).behind, behind_wordText, hback]

/-- A value that the view shows is worded last. -/
theorem exists_text_eq {view : OperandView} (h : view.isData) :
    ∃ front, view.text = front ++ " = " ++ byteText view.held := by
  cases view with
  | implied | accumulator | immediate | destination | indirect => cases h
  | _ => exact ⟨_, rfl⟩

theorem equals_not_mem_byteText (value : Option UInt8) : '=' ∉ (byteText value).toList := by
  cases value with
  | none => decide
  | some value => exact (Plain.hex8 value).not_mem (by decide)

/-- The value is found wherever the operand stands in the line. -/
theorem shownValue_around {view : OperandView} (h : view.isData) (head : String) {tail : String}
    (htail : Plain tail) : shownValue (head ++ view.text ++ tail) = view.held := by
  have hback : UInt8.ofNat ∘ UInt8.toNat = id := funext fun _ => UInt8.ofNat_toNat
  obtain ⟨front, htext⟩ := exists_text_eq h
  have hrest : '=' ∉ ' ' :: ((byteText view.held).toList ++ tail.toList) := by
    simp [equals_not_mem_byteText, htail.not_mem (show '=' ∈ marks by decide)]
  have hsplit : (head ++ view.text ++ tail).toList = (head ++ front ++ " ").toList ++
      '=' :: ' ' :: ((byteText view.held).toList ++ tail.toList) := by
    simp [htext]
  rw [shownValue, hsplit, behindLast_append hrest]
  simp [hback]

theorem question_not_mem_byteText {value : Option UInt8} (h : value.isSome) :
    '?' ∉ (byteText value).toList := by
  obtain ⟨value, rfl⟩ := Option.isSome_iff_exists.1 h
  exact (Plain.hex8 value).not_mem (by decide)

theorem question_not_mem_wordText {value : Option UInt16} (h : value.isSome) :
    '?' ∉ (wordText value).toList := by
  obtain ⟨value, rfl⟩ := Option.isSome_iff_exists.1 h
  exact (Plain.hex16 value).not_mem (by decide)

/-- Where nothing is out of sight there is no question mark. -/
theorem question_not_mem_around {view : OperandView} (h : view.complete) {head tail : String}
    (hhead : Plain head) (htail : Plain tail) : '?' ∉ (head ++ view.text ++ tail).toList := by
  have hbyte (b : UInt8) : '?' ∉ (hex8 b).toList := (Plain.hex8 b).not_mem (by decide)
  have hword (w : UInt16) : '?' ∉ (hex16 w).toList := (Plain.hex16 w).not_mem (by decide)
  have hname (index : IndexRegister) : '?' ∉ index.name.toList :=
    (Plain.indexName index).not_mem (by decide)
  have htext : '?' ∉ view.text.toList := by
    cases view <;>
      simp_all [OperandView.complete, OperandView.text, question_not_mem_byteText,
        question_not_mem_wordText]
  have hmark : '?' ∈ marks := by decide
  simp [htext, hhead.not_mem hmark, htail.not_mem hmark]

namespace Trace

variable {β : Type} [AddressSpace β]

/-! ## The line -/

theorem plain_stateColumns (c : Cpu) (scanline dot : Nat) :
    Plain (stateColumns c scanline dot) := by
  unfold stateColumns
  simp only [plain_append, Plain.hex8, Plain.decimal, Plain.padLeft, and_true]
  decide

/-- What an observer takes for the instruction at an address. -/
def instructionAt (b : β) (a : UInt16) : Option Instruction :=
  (AddressSpace.peek a b).1.bind Instruction.decode?

theorem statement_of_none {c : Cpu} {b : β} (h : instructionAt b c.pc = none) :
    (statement c b).1 = ⟨byteText (look c.pc (look c.pc b).2).1, false, "???"⟩ := by
  have hlook : (look c.pc b).1.bind Instruction.decode? = none := h
  simp only [statement, bind_run, pure_run, hlook]

theorem statement_of_some {c : Cpu} {b : β} {i : Instruction} (h : instructionAt b c.pc = some i) :
    let raw := lookBytes i.size c.pc (look c.pc b).2
    let view := (viewOperand c i (raw.1.drop 1) raw.2).1
    (statement c b).1 = ⟨" ".intercalate (raw.1.map byteText), i.undocumented,
      if view.text.isEmpty then i.mnemonic.name else i.mnemonic.name ++ " " ++ view.text⟩ := by
  have hlook : (look c.pc b).1.bind Instruction.decode? = some i := h
  simp only [statement, bind_run, pure_run, hlook]

section

variable {c : Cpu} {b : β} {i : Instruction} {bytes : List UInt8}
  (hlook : look c.pc b = (some i.opcode, b)) (hdecode : Instruction.decode? i.opcode = some i)
  (hbytes : lookBytes i.size c.pc b = ((i.opcode :: bytes).map some, b))

include hlook hdecode hbytes

/-- The statement of an instruction whose bytes are in sight. -/
theorem statement_of_bytes :
    let operand := (viewOperand c i (bytes.map some) b).1.text
    (statement c b).1 = ⟨" ".intercalate ((i.opcode :: bytes).map hex8), i.undocumented,
      if operand.isEmpty then i.mnemonic.name else i.mnemonic.name ++ " " ++ operand⟩ := by
  have hpeek : (AddressSpace.peek c.pc b).1 = some i.opcode := congrArg Prod.fst hlook
  have hinstruction : instructionAt b c.pc = some i := by
    rw [instructionAt, hpeek, Option.bind_some, hdecode]
  rw [statement_of_some hinstruction, hlook, hbytes]
  simp only [List.map_map, List.map_cons, List.drop_succ_cons, List.drop_zero]
  rfl

/-- It words the view of its operand, and the rest of it is plain. -/
theorem exists_statement_eq : ∃ raw front, Plain raw ∧ Plain front ∧ (statement c b).1 =
    ⟨raw, i.undocumented, front ++ (viewOperand c i (bytes.map some) b).1.text⟩ := by
  rw [statement_of_bytes hlook hdecode hbytes]
  generalize (viewOperand c i (bytes.map some) b).1 = view
  have hraw : Plain (" ".intercalate ((i.opcode :: bytes).map hex8)) := by
    refine Plain.intercalate (by decide) fun text htext => ?_
    obtain ⟨value, -, rfl⟩ := List.mem_map.1 htext
    exact .hex8 value
  -- A mnemonic without operand is not followed by a blank.
  by_cases hempty : view.text.isEmpty
  · refine ⟨_, i.mnemonic.name, hraw, .name _, ?_⟩
    rw [if_pos hempty, String.isEmpty_iff.1 hempty, String.append_empty]
  · refine ⟨_, i.mnemonic.name ++ " ", hraw, plain_append.2 ⟨.name _, by decide⟩, ?_⟩
    rw [if_neg hempty]

/-- So does a line. -/
theorem exists_line_eq (scanline dot : Nat) :
    ∃ head tail, Plain head ∧ Plain tail ∧ (line c scanline dot b).1 =
      head ++ (viewOperand c i (bytes.map some) b).1.text ++ tail := by
  obtain ⟨raw, front, hraw, hfront, hstatement⟩ := exists_statement_eq hlook hdecode hbytes
  generalize (viewOperand c i (bytes.map some) b).1 = view at hstatement ⊢
  refine ⟨hex16 c.pc ++ "  " ++ padRight 8 raw ++ " " ++ (if i.undocumented then "*" else " ")
      ++ front,
    String.ofList (List.replicate (32 - (front ++ view.text).length) ' ')
      ++ stateColumns c scanline dot,
    ?_, plain_append.2 ⟨.blanks _, plain_stateColumns c scanline dot⟩, ?_⟩
  · simp only [plain_append, Plain.hex16, hraw.padRight, hfront]
    cases i.undocumented <;> decide
  · simp only [line, bind_run, pure_run, hstatement, padRight]
    simp only [String.append_assoc]

end

end Trace

end Famicom
