import Famicom.Ppu.Beam
import Famicom.Proofs.Listing.Program
import Famicom.Proofs.Text.Columns
import Famicom.Proofs.Trace.Wording

/-!
# The columns of a trace line

A trace line is a row of fields (`Trace.fields`), and whatever the observer sees, the fields up
to the position of the beam have fixed widths (`Trace.widths`) : no instruction has more than three
bytes, and no view of an operand is worded in more than 26 characters
(`OperandView.length_text_le`), so none of the padded fields overruns its own. Hence every field up
to there stands in columns of its own (`columns_line`). The position fits as well as long as it is
one of a beam.

What the line says of the machine can therefore be read off it (`Snapshot.ofLine?`), the registers
in their columns and the three decimal numbers in front of a comma, behind it and behind the last
colon. This is the machine itself (`ofLine?_line`), so two machines with the same line agree in all
of it (`line_layout`).
-/

namespace Famicom

open Text

/-! ## Widths -/

@[simp] theorem length_byteText (value : Option UInt8) : (byteText value).length = 2 := by
  cases value with
  | none => rfl
  | some value => exact length_hex8 value

@[simp] theorem length_wordText (value : Option UInt16) : (wordText value).length = 4 := by
  cases value with
  | none => rfl
  | some value => exact length_hex16 value

@[simp] theorem IndexRegister.length_name (r : IndexRegister) : r.name.length = 1 := by
  cases r <;> rfl

@[simp] theorem Mnemonic.length_name (m : Mnemonic) : m.name.length = 3 := by
  cases m <;> rfl

/-- The longest views are those through a pointer with an index behind it. -/
theorem OperandView.length_text_le (view : OperandView) : view.text.length ≤ 26 := by
  cases view with
  | implied => exact Nat.zero_le _
  | _ =>
    simp only [text, String.length_append, length_hex8, length_hex16, length_byteText,
      length_wordText, IndexRegister.length_name]
    decide

namespace Trace

variable {β : Type} [AddressSpace β]

theorem length_lookBytes (count : Nat) (a : UInt16) (b : β) :
    (lookBytes count a b).1.length = count := by
  induction count generalizing a b with
  | zero => rfl
  | succ count ih =>
    simp only [lookBytes, bind_run, pure_run, List.length_cons]
    rw [ih]

/-! ## The statement -/

theorem undocumented_statement (c : Cpu) (b : β) :
    (statement c b).1.undocumented = (instructionAt b c.pc).any (·.undocumented) := by
  cases h : instructionAt b c.pc with
  | none =>
    rw [statement_of_none h]
    rfl
  | some i =>
    rw [statement_of_some h]
    rfl

/-- The bytes and the text of a statement fit into their columns. -/
theorem statement_fits (c : Cpu) (b : β) :
    (statement c b).1.bytes.length ≤ 8 ∧ (statement c b).1.text.length ≤ 32 := by
  cases h : instructionAt b c.pc with
  | none =>
    rw [statement_of_none h]
    exact ⟨by simp, (by decide : "???".length ≤ 32)⟩
  | some i =>
    obtain ⟨raw, view, hraw, hstatement⟩ : ∃ (raw : List (Option UInt8)) (view : OperandView),
        raw.length = i.size ∧ (statement c b).1 = ⟨" ".intercalate (raw.map byteText),
          i.undocumented, if view.text.isEmpty then i.mnemonic.name
            else i.mnemonic.name ++ " " ++ view.text⟩ :=
      ⟨_, _, length_lookBytes _ _ _, statement_of_some h⟩
    rw [hstatement]
    constructor
    · have hbytes : (" ".intercalate (raw.map byteText)).length ≤
          3 * (raw.map byteText).length - 1 := length_intercalate_le rfl (by simp)
      have hsize := i.size_le_three
      rw [List.length_map, hraw] at hbytes
      exact Nat.le_trans hbytes (by omega)
    · have hview := view.length_text_le
      have hblank : " ".length = 1 := rfl
      simp only
      split
      · simp
      · simp only [String.length_append, Mnemonic.length_name]
        omega

/-! ## Fields -/

/-- The fields of a line, with the texts between them. -/
def fields (c : Cpu) (s : Statement) (scanline dot : Nat) : List String :=
  [hex16 c.pc, "  ", padRight 8 s.bytes, " ", if s.undocumented then "*" else " ",
    padRight 32 s.text, "A:", hex8 c.a, " X:", hex8 c.x, " Y:", hex8 c.y, " P:",
    hex8 c.status.toByte, " SP:", hex8 c.sp, " PPU:", padLeft 3 (toString scanline), ",",
    padLeft 3 (toString dot), " CYC:", toString c.cycles]

/-- The widths of the fields in front of the position of the beam. -/
def widths : List Nat := [4, 2, 8, 1, 1, 32, 2, 2, 3, 2, 3, 2, 3, 2, 4, 2, 5]

/-- The widths of the position and of the texts around it. -/
def positionWidths : List Nat := [3, 1, 3, 5]

variable (c : Cpu) (scanline dot : Nat) (b : β)

theorem line_eq_join : (line c scanline dot b).1 =
    String.join (fields c (statement c b).1 scanline dot) := by
  simp only [line, bind_run, pure_run]
  unfold stateColumns
  simp only [fields, String.join_cons, String.join_nil, String.append_assoc, String.append_empty]

theorem map_length_fields : (fields c (statement c b).1 scanline dot).map String.length =
    widths ++ [(padLeft 3 (toString scanline)).length, 1, (padLeft 3 (toString dot)).length, 5,
      (toString c.cycles).length] := by
  obtain ⟨hbytes, htext⟩ := statement_fits c b
  have hmark : (if (statement c b).1.undocumented then "*" else " ").length = 1 := by
    cases (statement c b).1.undocumented <;> rfl
  have hlabels : ["  ", " ", "A:", " X:", " Y:", " P:", " SP:", " PPU:", ",", " CYC:"].map
      String.length = [2, 1, 2, 3, 3, 3, 4, 5, 1, 5] := by
    decide +kernel
  simp only [List.map_cons, List.map_nil, List.cons.injEq, and_true] at hlabels
  simp only [fields, widths, List.map_cons, List.map_nil, length_hex16, length_hex8, hmark,
    length_padRight hbytes, length_padRight htext, hlabels, List.cons_append, List.nil_append]

theorem map_length_take_fields {n : Nat} (h : n ≤ widths.length) :
    ((fields c (statement c b).1 scanline dot).take n).map String.length = widths.take n := by
  rw [List.map_take, map_length_fields, List.take_append_of_le_length h]

section Split

variable {c scanline dot b} {n : Nat} {field : String} {later : List String}

variable (hfields : (fields c (statement c b).1 scanline dot).drop n = field :: later)

include hfields

theorem line_eq_join_split : (line c scanline dot b).1 =
    String.join ((fields c (statement c b).1 scanline dot).take n ++ field :: later) := by
  rw [line_eq_join, ← hfields, List.take_append_drop]

theorem length_field (h : n < widths.length) : field.length = widths[n] := by
  have hlengths := congrArg (List.drop n) (map_length_fields c scanline dot b)
  rw [← List.map_drop, hfields, List.map_cons, List.drop_append_of_le_length (Nat.le_of_lt h),
    List.drop_eq_getElem_cons h, List.cons_append] at hlengths
  exact (List.cons.inj hlengths).1

/-- Behind the widths of the first fields the line goes on with the other ones. -/
theorem drop_line (h : n ≤ widths.length) : (line c scanline dot b).1.toList.drop
    (widths.take n).sum = field.toList ++ (String.join later).toList := by
  rw [line_eq_join_split hfields, ← map_length_take_fields c scanline dot b h, drop_join,
    String.join_cons, String.toList_append]

/-- Every field up to the position stands in columns of its own. -/
theorem columns_line (h : n < widths.length) :
    columns (widths.take n).sum widths[n] (line c scanline dot b).1 = field := by
  rw [line_eq_join_split hfields, ← map_length_take_fields c scanline dot b (Nat.le_of_lt h),
    ← length_field hfields h, columns_join]

end Split

/-! ## The machine read off its line -/

/-- What a trace line says of the machine. -/
structure Snapshot where
  pc : UInt16
  a : UInt8
  x : UInt8
  y : UInt8
  status : Status
  sp : UInt8
  scanline : Nat
  dot : Nat
  cycles : Nat
  deriving DecidableEq, Repr

/-- What there is to say of the processor, with the beam at this position. -/
def snapshot (c : Cpu) (scanline dot : Nat) : Snapshot :=
  ⟨c.pc, c.a, c.x, c.y, c.status, c.sp, scanline, dot, c.cycles⟩

/-- Read a line. The registers have their columns; the position and the cycle count are found by the
punctuation. -/
def Snapshot.ofLine? (line : String) : Option Snapshot := do
  let text := line.toList
  let pc ← hexNumber? 4 text
  let a ← hexNumber? 2 (text.drop 50)
  let x ← hexNumber? 2 (text.drop 55)
  let y ← hexNumber? 2 (text.drop 60)
  let status ← hexNumber? 2 (text.drop 65)
  let sp ← hexNumber? 2 (text.drop 71)
  let position := text.drop 78
  let scanline ← decimalNumber? position
  let dot ← (behind ',' position).bind decimalNumber?
  let cycles ← (behindLast ':' position).bind decimalNumber?
  return ⟨.ofNat pc, .ofNat a, .ofNat x, .ofNat y, .ofByte (.ofNat status), .ofNat sp, scanline,
    dot, cycles⟩

/-- The position and the cycle count, told apart by the punctuation. -/
theorem numbers_of_position (text : List Char) (h : text = (padLeft 3 (toString scanline)).toList ++
      (String.join [",", padLeft 3 (toString dot), " CYC:", toString c.cycles]).toList) :
    decimalNumber? text = some scanline ∧
      (behind ',' text).bind decimalNumber? = some dot ∧
      (behindLast ':' text).bind decimalNumber? = some c.cycles := by
  have hcomma : ',' ∉ (padLeft 3 (toString scanline)).toList :=
    not_mem_padLeft (by decide) (not_mem_decimal (by decide) scanline) 3
  have hcolon : ':' ∉ (toString c.cycles).toList := not_mem_decimal (by decide) c.cycles
  have hfirst : text = (padLeft 3 (toString scanline)).toList ++
      ',' :: ((padLeft 3 (toString dot)).toList ++
        ' ' :: ("CYC:" ++ toString c.cycles).toList) := by
    simp [h]
  have hlast : text = (padLeft 3 (toString scanline) ++ "," ++ padLeft 3 (toString dot) ++
      " CYC").toList ++ ':' :: (toString c.cycles).toList := by
    simp [h]
  refine ⟨?_, ?_, ?_⟩
  · rw [hfirst, decimalNumber?_padLeft 3 scanline rfl]
  · rw [hfirst, behind_append hcomma, behind, if_pos rfl, Option.bind_some,
      decimalNumber?_padLeft 3 dot rfl]
  · rw [hlast, behindLast_append hcolon, Option.bind_some, decimalNumber?_toString]

theorem ofLine?_line :
    Snapshot.ofLine? (line c scanline dot b).1 = some (snapshot c scanline dot) := by
  have hpc : (line c scanline dot b).1.toList = (hex16 c.pc).toList ++ _ :=
    drop_line (n := 0) rfl (by decide)
  have ha : (line c scanline dot b).1.toList.drop 50 = (hex8 c.a).toList ++ _ :=
    drop_line (n := 7) rfl (by decide)
  have hx : (line c scanline dot b).1.toList.drop 55 = (hex8 c.x).toList ++ _ :=
    drop_line (n := 9) rfl (by decide)
  have hy : (line c scanline dot b).1.toList.drop 60 = (hex8 c.y).toList ++ _ :=
    drop_line (n := 11) rfl (by decide)
  have hstatus : (line c scanline dot b).1.toList.drop 65 = (hex8 c.status.toByte).toList ++ _ :=
    drop_line (n := 13) rfl (by decide)
  have hsp : (line c scanline dot b).1.toList.drop 71 = (hex8 c.sp).toList ++ _ :=
    drop_line (n := 15) rfl (by decide)
  obtain ⟨hscanline, hdot, hcycles⟩ := numbers_of_position c scanline dot
    ((line c scanline dot b).1.toList.drop 78) (drop_line (n := 17) rfl (by decide))
  have hpc : hexNumber? 4 (line c scanline dot b).1.toList = some c.pc.toNat := by
    rw [hpc, hexNumber?_hex16]
  simp only [Snapshot.ofLine?, hpc, ha, hx, hy, hstatus, hsp, hscanline, hdot, hcycles,
    hexNumber?_hex8, Option.bind_eq_bind, Option.bind_some, UInt8.ofNat_toNat, UInt16.ofNat_toNat,
    Status.ofByte_toByte]
  rfl

/-- The columns of a trace line and what is read off it. In order : the program counter, the mark of
an undocumented instruction and the first register stand in fixed columns; the bytes and the
statement fit into theirs, and no field in front of the position overruns its width, nor does the
position of a beam; and lines that are equal are lines of machines that agree. -/
theorem line_layout {γ : Type} [AddressSpace γ] (c' : Cpu) (scanline' dot' : Nat) (b' : γ) :
    let s := (statement c b).1
    let text := (line c scanline dot b).1
    columns 0 4 text = hex16 c.pc ∧
    columns 15 1 text = (if (instructionAt b c.pc).any (·.undocumented) then "*" else " ") ∧
    columns 48 2 text = "A:" ∧
    (s.bytes.length ≤ 8 ∧ columns 6 8 text = padRight 8 s.bytes) ∧
    (s.text.length ≤ 32 ∧ columns 16 32 text = padRight 32 s.text) ∧
    text = String.join (fields c s scanline dot) ∧
    widths <+: (fields c s scanline dot).map String.length ∧
    (scanline ≤ Beam.lastLine → dot < Beam.dotsPerLine →
      widths ++ positionWidths <+: (fields c s scanline dot).map String.length) ∧
    Snapshot.ofLine? text = some (snapshot c scanline dot) ∧
    (text = (line c' scanline' dot' b').1 →
      c.pc = c'.pc ∧ c.a = c'.a ∧ c.x = c'.x ∧ c.y = c'.y ∧ c.status = c'.status ∧ c.sp = c'.sp ∧
        scanline = scanline' ∧ dot = dot' ∧ c.cycles = c'.cycles) := by
  intro s text
  have hfits := statement_fits c b
  refine ⟨columns_line (n := 0) rfl (by decide), ?_, columns_line (n := 6) rfl (by decide),
    ⟨hfits.1, columns_line (n := 2) rfl (by decide)⟩,
    ⟨hfits.2, columns_line (n := 5) rfl (by decide)⟩, line_eq_join c scanline dot b, ?_, ?_,
    ofLine?_line c scanline dot b, fun heq => ?_⟩
  · rw [← undocumented_statement c b]
    exact columns_line (n := 4) rfl (by decide)
  · rw [map_length_fields]
    exact List.prefix_append _ _
  · intro hscanline hdot
    have hwidth {n : Nat} (h : n < 1000) : (padLeft 3 (toString n)).length = 3 :=
      length_padLeft ((Nat.length_repr_le_iff (by decide)).2 h)
    rw [Beam.lastLine] at hscanline
    rw [Beam.dotsPerLine] at hdot
    rw [map_length_fields, hwidth (by omega), hwidth (by omega)]
    exact ⟨[(toString c.cycles).length], List.append_assoc _ _ _⟩
  · have hread := ofLine?_line c' scanline' dot' b'
    rw [← heq, ofLine?_line c scanline dot b] at hread
    simpa [snapshot] using hread

end Trace

end Famicom
