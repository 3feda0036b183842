import Famicom.Proofs.Cpu.Flow
import Famicom.Proofs.Cpu.Footprint
import Famicom.Proofs.Trace.Observer
import Famicom.Proofs.Trace.Wording

/-!
# A trace line and the step behind it

A trace line is made before the step, from what an observer sees, by code of its own for every
addressing mode. `Trace.Tells` says that the view of an operand is right : it names the operand that
the step will find, and the byte there, and misses them only where the pointer or the byte
itself is out of sight. `tells_of_redirects` and `tells_of_worksInMemory` show this of the view for
the two ways to use an operand, to go there and to work there; the bytes of the instruction
and of its pointer are then those that the step fetches (`Fetched.tells`). With the wording of the
view this says what the line shows (`Fetched.shownAddress_line`, `Fetched.shownValue_line`) and
when it has a question mark (`Fetched.exists_not_visible`).

`line_foretells_step` puts this together with the accesses and the destination of the step. The
address that the line shows is where the step reads or writes, or where it continues; the value is
what is there before; and a question mark means that one of the locations they come from cannot be
seen.
-/

namespace Famicom

variable {β : Type} [AddressSpace β]

/-! ## The view of an operand -/

/-- The mode leads to an address, of which a trace line tells. -/
def AddressingMode.hasAddress : AddressingMode → Bool
  | .implied | .accumulator | .immediate => false
  | _ => true

/-- The instruction works on a byte in memory. -/
def Instruction.worksInMemory (i : Instruction) : Bool :=
  i.mode.hasAddress && !i.mnemonic.redirects

namespace Instruction

/-- Three modes serve instructions that continue at their operand. -/
theorem mode_of_redirects {i : Instruction} (h : i ∈ table) : i.mnemonic.redirects →
    i.mode = .relative ∨ i.mode = .indirect ∨
      i.mode = .absolute ∧ (i.mnemonic = .jmp ∨ i.mnemonic = .jsr) := by
  revert i
  decide +kernel

/-- Two of these modes serve no others. -/
theorem mode_of_worksInMemory {i : Instruction} (h : i ∈ table) :
    i.worksInMemory → i.mode ≠ .relative ∧ i.mode ≠ .indirect := by
  revert i
  decide +kernel

end Instruction

theorem getD_map_some (bytes : List UInt8) (k : Nat) :
    ((bytes.map some).getD k none).getD 0 = bytes.getD k 0 := by
  simp only [List.getD_eq_getElem?_getD, List.getElem?_map]
  cases bytes[k]? <;> rfl

namespace Trace

/-- The view tells where the operand is and what it holds, unless the pointer or the operand is
out of sight. -/
structure Tells (b : β) (i : Instruction) (pointers : List UInt16) (a : UInt16)
    (view : OperandView) : Prop where
  fits : view.fits i.mode
  address : i.mode.hasAddress → view.address = if pointers.all (visible b) then some a else none
  held : i.worksInMemory → view.isData ∧
    view.held = if (pointers ++ [a]).all (visible b) then some (byteAt b a) else none
  complete : pointers.all (visible b) → (i.worksInMemory → visible b a) → view.complete

namespace Tells

variable {b : β} {i : Instruction} {pointers : List UInt16} {a : UInt16} {view : OperandView}

/-- An operand that no instruction works on is only followed. -/
theorem of_redirects (hredirects : i.mnemonic.redirects) (hfits : view.fits i.mode)
    (haddress : view.address = if pointers.all (visible b) then some a else none)
    (hcomplete : pointers.all (visible b) → view.complete) : Tells b i pointers a view where
  fits := hfits
  address _ := haddress
  held h := by simp [Instruction.worksInMemory, hredirects] at h
  complete hpointers _ := hcomplete hpointers

theorem of_works (hb : Candid b) (hworks : i.worksInMemory) (hfits : view.fits i.mode)
    (hdata : view.isData)
    (hseen : pointers.all (visible b) →
      view.address = some a ∧ view.held = (look a b).1 ∧ view.complete = view.held.isSome)
    (hunseen : ¬ pointers.all (visible b) → view.address = none ∧ view.held = none) :
    Tells b i pointers a view where
  fits := hfits
  address _ := by
    split
    · exact (hseen ‹_›).1
    · exact (hunseen ‹_›).1
  held _ := by
    refine ⟨hdata, ?_⟩
    by_cases hpointers : pointers.all (visible b)
    · rw [(hseen hpointers).2.1, hb.look_fst, List.all_append, hpointers]
      simp
    · rw [(hunseen hpointers).2, if_neg (by simp_all)]
  complete hpointers ha := by
    obtain ⟨-, hheld, hcomplete⟩ := hseen hpointers
    rw [hcomplete, hheld, hb.look_fst, if_pos (ha hworks)]
    rfl

/-- Out of sight of the pointer it does not matter where the operand is. -/
theorem congr {x : UInt16} (h : Tells b i pointers a view)
    (hx : pointers.all (visible b) → a = x) : Tells b i pointers x view := by
  by_cases hpointers : pointers.all (visible b)
  · exact hx hpointers ▸ h
  · have hall (y : UInt16) : ¬ (pointers ++ [y]).all (visible b) := by simp_all
    refine ⟨h.fits, fun haddress => ?_, fun hworks => ?_, fun hseen => absurd hseen hpointers⟩
    · rw [h.address haddress, if_neg hpointers, if_neg hpointers]
    · rw [(h.held hworks).2, if_neg (hall a), if_neg (hall x)]
      exact ⟨(h.held hworks).1, rfl⟩

end Tells

variable {b : β} (hb : Candid b) {i : Instruction} (c : Cpu) (bytes : List UInt8)

include hb

/-- The view of a branch, a jump or a call tells where it leads. -/
theorem tells_of_redirects (hi : i ∈ Instruction.table) (hredirects : i.mnemonic.redirects) :
    Tells b i (i.mode.pointer c.toRegisters bytes)
      (i.operand c bytes ((i.mode.pointer c.toRegisters bytes).map (byteAt b))).target
      (viewOperand c i (bytes.map some) b).1 := by
  obtain hmode | hmode | ⟨hmode, hjump⟩ := Instruction.mode_of_redirects hi hredirects
  · have hview : (viewOperand c i (bytes.map some) b).1 =
        .destination (c.pc + .ofNat i.size + signExtend (bytes.getD 0 0)) := by
      simp only [viewOperand, hmode, getD_map_some]
      rfl
    rw [hview, Instruction.operand_of_relative hmode, hmode]
    exact .of_redirects hredirects (.inr hmode) rfl fun _ => rfl
  · let lo := word (bytes.getD 0 0) (bytes.getD 1 0)
    have hview : (viewOperand c i (bytes.map some) b).1 =
        .indirect lo (lookWord lo (nextInPage lo) b).1 := by
      simp only [viewOperand, hmode, getD_map_some]
      rfl
    rw [hview, Instruction.operand, hmode]
    refine .of_redirects hredirects hmode ?_ fun h => ?_
    · split
      · exact congrArg Prod.fst (hb.lookWord_eq ‹_›)
      · obtain ⟨d, hlook⟩ := hb.exists_lookWord_eq ‹_›
        exact congrArg Prod.fst hlook
    · exact congrArg (fun x => x.1.isSome) (hb.lookWord_eq h)
  · have hview : (viewOperand c i (bytes.map some) b).1 =
        .destination (word (bytes.getD 0 0) (bytes.getD 1 0)) := by
      simp only [viewOperand, hmode, getD_map_some, if_pos hjump]
      rfl
    rw [hview, Instruction.operand, hmode]
    exact .of_redirects hredirects (.inl hmode) rfl fun _ => rfl

/-- The view of an operand in memory tells where it is and what it holds. -/
theorem tells_of_worksInMemory (hi : i ∈ Instruction.table) (hworks : i.worksInMemory) :
    Tells b i (i.mode.pointer c.toRegisters bytes)
      (i.operand c bytes ((i.mode.pointer c.toRegisters bytes).map (byteAt b))).target
      (viewOperand c i (bytes.map some) b).1 := by
  have hmode := Instruction.mode_of_worksInMemory hi hworks
  obtain ⟨opcode, mnemonic, mode, cycles, pagePenalty, undocumented⟩ := i
  cases mode
  case implied | accumulator | immediate => cases hworks
  case relative => exact absurd rfl hmode.1
  case indirect => exact absurd rfl hmode.2
  case zeroPage =>
    simp only [viewOperand, getD_map_some]
    exact .of_works hb hworks rfl rfl (fun _ => ⟨rfl, rfl, rfl⟩) fun h => absurd rfl h
  case zeroPageX | absoluteX =>
    simp only [viewOperand, viewZeroPage, viewAbsolute, getD_map_some]
    exact .of_works hb hworks (.inl rfl) rfl (fun _ => ⟨rfl, rfl, rfl⟩) fun h => absurd rfl h
  case zeroPageY | absoluteY =>
    simp only [viewOperand, viewZeroPage, viewAbsolute, getD_map_some]
    exact .of_works hb hworks (.inr rfl) rfl (fun _ => ⟨rfl, rfl, rfl⟩) fun h => absurd rfl h
  case absolute =>
    have hjump : ¬ (mnemonic = .jmp ∨ mnemonic = .jsr) := by
      rintro (rfl | rfl) <;> cases hworks
    simp only [viewOperand, getD_map_some, if_neg hjump]
    exact .of_works hb hworks rfl rfl (fun _ => ⟨rfl, rfl, rfl⟩) fun h => absurd rfl h
  case indirectX | indirectY =>
    simp only [viewOperand, getD_map_some, lookPointer, bind_run, pure_run]
    refine .of_works hb hworks rfl rfl (fun h => ?_) fun h => ?_
    · rw [hb.lookWord_eq h]
      exact ⟨rfl, rfl, rfl⟩
    · obtain ⟨d, hlook⟩ := hb.exists_lookWord_eq h
      rw [hlook]
      exact ⟨rfl, rfl⟩

/-- Once the instruction is in sight, the line words the view of its operand, and the rest of it is
plain. -/
theorem exists_line_eq_of_candid (hdecode : Instruction.decode? i.opcode = some i)
    (hopcode : byteAt b c.pc = i.opcode) (hvisible : (addressesFrom c.pc i.size).all (visible b))
    (scanline dot : Nat) : ∃ head tail, Plain head ∧ Plain tail ∧ (line c scanline dot b).1 =
      head ++ (viewOperand c i ((i.operandBytes c.pc b).map some) b).1.text ++ tail := by
  have hsize : addressesFrom c.pc i.size = c.pc :: addressesFrom (c.pc + 1) i.mode.operandSize := by
    rw [Instruction.size, Nat.add_comm]
    rfl
  have hlook : look c.pc b = (some i.opcode, b) := by
    rw [hb.look_eq (List.all_eq_true.1 hvisible c.pc (by simp [hsize])), hopcode]
  have hbytes : lookBytes i.size c.pc b =
      ((i.opcode :: i.operandBytes c.pc b).map some, b) := by
    rw [hb.lookBytes_eq (List.all_eq_true.1 hvisible), hsize, ← hopcode]
    rfl
  exact exists_line_eq hlook hdecode hbytes scanline dot

omit hb in
theorem complete_viewOperand (h : ¬ i.mode.hasAddress) (seen : List (Option UInt8)) :
    (viewOperand c i seen b).1.complete := by
  cases hmode : i.mode <;> simp only [hmode, AddressingMode.hasAddress] at h <;>
    simp only [viewOperand, hmode] <;> first | rfl | exact absurd trivial h

end Trace

/-! ## The accesses of the step -/

namespace Instruction

theorem not_immediate_of_hasAddress {i : Instruction} (h : i.mode.hasAddress) :
    i.mode ≠ .immediate := by
  rintro himmediate
  rw [himmediate] at h
  cases h

/-- An instruction that works in memory does so at its operand and nowhere else. -/
theorem touches_of_worksInMemory {i : Instruction} (h : i ∈ table) (hworks : i.worksInMemory)
    (c : Cpu) (bytes pointer : List UInt8) (sp : UInt8) :
    ∃ directions ≠ [], i.mnemonic.touches (i.operand c bytes pointer) sp =
      directions.map (·, (i.operand c bytes pointer).target) := by
  have hm : i.mnemonic ∈ [Mnemonic.lda, .ldx, .ldy, .lax, .adc, .sbc, .and, .ora, .eor, .cmp,
      .cpx, .cpy, .bit, .nop, .sta, .stx, .sty, .sax, .inc, .dec, .dcp, .isc, .slo, .rla, .sre,
      .rra, .asl, .lsr, .rol, .ror] := by
    revert i
    decide +kernel
  have hmode : ¬ (i.mode = .implied ∨ i.mode = .accumulator) := by
    rintro (hmode | hmode) <;> simp [worksInMemory, hmode, AddressingMode.hasAddress] at hworks
  obtain ⟨a, ha⟩ := exists_operand_eq_address hmode c bytes pointer
  rw [ha]
  generalize i.mnemonic = m at hm
  fin_cases hm <;> first
    | exact ⟨[.read], by simp, rfl⟩
    | exact ⟨[.write], by simp, rfl⟩
    | exact ⟨[.read, .write], by simp, rfl⟩

end Instruction

namespace CpuM

variable {s : System β} {i : Instruction} {bytes pointer : List UInt8} {d : β}

/-- The operand bytes are those an observer sees, and so are those of the pointer if he sees it. -/
theorem Fetched.of_candid (h : Fetched s i bytes pointer d) (hb : Candid s.bus)
    (hmode : i.mode ≠ .immediate)
    (hvisible : (addressesFrom s.cpu.pc i.size).all (visible s.bus)) :
    bytes = i.operandBytes s.cpu.pc s.bus ∧
      ((i.mode.pointer s.cpu.toRegisters bytes).all (visible s.bus) →
        pointer = (i.mode.pointer s.cpu.toRegisters bytes).map (byteAt s.bus)) := by
  obtain ⟨-, b, hbytes, hpointer⟩ := h
  rw [Instruction.fetched_eq hmode, Nat.add_comm, ← Instruction.size] at hbytes
  obtain ⟨hall, rfl⟩ := hbytes.unique (hb.reads (List.all_eq_true.1 hvisible))
  rw [Instruction.size, Nat.add_comm] at hall
  refine ⟨(List.cons.inj hall).2, fun hseen => ?_⟩
  exact (hpointer.unique (hb.reads (List.all_eq_true.1 hseen))).1

/-- The view tells of the operand that the step finds. -/
theorem Fetched.tells (h : Fetched s i bytes pointer d) (hb : Candid s.bus)
    (haddress : i.mode.hasAddress)
    (hvisible : (addressesFrom s.cpu.pc i.size).all (visible s.bus)) :
    Trace.Tells s.bus i (i.mode.pointer s.cpu.toRegisters bytes)
      (i.operand s.cpu bytes pointer).target
      (Trace.viewOperand s.cpu i ((i.operandBytes s.cpu.pc s.bus).map some) s.bus).1 := by
  have hi := Instruction.mem_table_of_decode? h.1
  obtain ⟨hbytes, hpointer⟩ :=
    h.of_candid hb (Instruction.not_immediate_of_hasAddress haddress) hvisible
  rw [← hbytes]
  by_cases hredirects : i.mnemonic.redirects
  · exact (Trace.tells_of_redirects hb s.cpu bytes hi hredirects).congr
      fun hseen => by rw [hpointer hseen]
  · have hworks : i.worksInMemory := by simp [Instruction.worksInMemory, haddress, hredirects]
    exact (Trace.tells_of_worksInMemory hb s.cpu bytes hi hworks).congr
      fun hseen => by rw [hpointer hseen]

/-! ## The line before the step -/

section

open Trace

variable (h : Fetched s i bytes pointer d) (hb : Candid s.bus)
  (hvisible : (addressesFrom s.cpu.pc i.size).all (visible s.bus)) (scanline dot : Nat)

include h hb hvisible

theorem Fetched.exists_line_eq : ∃ head tail, Plain head ∧ Plain tail ∧
    (line s.cpu scanline dot s.bus).1 =
      head ++ (viewOperand s.cpu i ((i.operandBytes s.cpu.pc s.bus).map some) s.bus).1.text ++
        tail := by
  have hopcode : byteAt s.bus s.cpu.pc = i.opcode := by rw [byteAt, h.read]
  exact exists_line_eq_of_candid hb s.cpu h.1 hopcode hvisible scanline dot

/-- The address that the line shows is the operand. -/
theorem Fetched.shownAddress_line (haddress : i.mode.hasAddress) :
    shownAddress (line s.cpu scanline dot s.bus).1 i.mode =
      if (i.mode.pointer s.cpu.toRegisters bytes).all (visible s.bus) then
        some (i.operand s.cpu bytes pointer).target
      else none := by
  obtain ⟨head, tail, hhead, -, hline⟩ := h.exists_line_eq hb hvisible scanline dot
  have htells := h.tells hb haddress hvisible
  rw [hline, shownAddress_around htells.fits hhead, htells.address haddress]

/-- The value that the line shows is what the operand holds. -/
theorem Fetched.shownValue_line (hworks : i.worksInMemory) :
    shownValue (line s.cpu scanline dot s.bus).1 =
      if (i.mode.pointer s.cpu.toRegisters bytes ++
          [(i.operand s.cpu bytes pointer).target]).all (visible s.bus) then
        some (byteAt s.bus (i.operand s.cpu bytes pointer).target)
      else none := by
  obtain ⟨head, tail, -, htail, hline⟩ := h.exists_line_eq hb hvisible scanline dot
  obtain ⟨hdata, hheld⟩ := (h.tells hb (Bool.and_elim_left hworks) hvisible).held hworks
  rw [hline, shownValue_around hdata head htail, hheld]

/-- A question mark stands for the pointer or the operand. -/
theorem Fetched.exists_not_visible (hmark : '?' ∈ (line s.cpu scanline dot s.bus).1.toList) :
    (∃ p ∈ i.mode.pointer s.cpu.toRegisters bytes, ¬ visible s.bus p) ∨
      i.worksInMemory ∧ ¬ visible s.bus (i.operand s.cpu bytes pointer).target := by
  obtain ⟨head, tail, hhead, htail, hline⟩ := h.exists_line_eq hb hvisible scanline dot
  by_contra hall
  push Not at hall
  have hcomplete :
      (viewOperand s.cpu i ((i.operandBytes s.cpu.pc s.bus).map some) s.bus).1.complete := by
    by_cases haddress : i.mode.hasAddress
    · exact (h.tells hb haddress hvisible).complete (List.all_eq_true.2 hall.1) hall.2
    · exact complete_viewOperand s.cpu haddress _
  exact question_not_mem_around hcomplete hhead htail (hline ▸ hmark)

end

open Trace in
/-- The trace line is right about the next step. In order : the address it shows is the operand of
the step, in digits unless a byte of the pointer is out of sight; if the instruction works in
memory, the step reads or writes there behind the fetch, and the value that the line shows is the
byte there before the step; a jump, a call, and a branch whose condition holds continue there; and
a question mark has a cause. -/
theorem line_foretells_step [FaultFree β] {s : System β} {i : Instruction} (scanline dot : Nat)
    (hserved : s.cpu.served = none) (hcandid : Candid s.bus)
    (hdecode : Instruction.decode? i.opcode = some i)
    (hopcode : (AddressSpace.peek s.cpu.pc s.bus).1 = some i.opcode)
    (hvisible : (addressesFrom s.cpu.pc i.size).all (visible s.bus)) :
    let line := (Trace.line s.cpu scanline dot s.bus).1
    ∃ n t bytes pointer d, step s = .ok n t ∧ Fetched s i bytes pointer d ∧
      let pointers := i.mode.pointer s.cpu.toRegisters bytes
      let a := (i.operand s.cpu bytes pointer).target
      (i.mode.hasAddress →
        shownAddress line i.mode = if pointers.all (visible s.bus) then some a else none) ∧
      (i.worksInMemory →
        (∃ directions ≠ [], places s = readsOf (addressesFrom s.cpu.pc i.size) ++
          readsOf pointers ++ directions.map (·, a)) ∧
        shownValue line =
          if (pointers ++ [a]).all (visible s.bus) then some (byteAt s.bus a) else none) ∧
      (i.mnemonic.redirects → (i.mnemonic.isBranch → i.mnemonic.condition s.cpu.status) →
        t.cpu.pc = a) ∧
      ('?' ∈ line.toList →
        (∃ p ∈ pointers, ¬ visible s.bus p) ∨ i.worksInMemory ∧ ¬ visible s.bus a) := by
  intro line
  have hi := Instruction.mem_table_of_decode? hdecode
  obtain ⟨hpeek, hread⟩ := hcandid.peek_and_read (a := s.cpu.pc) (by simp [visible, hopcode])
  have hbyte : byteAt s.bus s.cpu.pc = i.opcode := by
    rw [hpeek] at hopcode
    exact Option.some_inj.1 hopcode
  rw [hbyte] at hread
  obtain ⟨n, t, hstep⟩ := step_succeeds hserved (by rw [hread]) hdecode
  obtain ⟨j, bytes, pointer, d, hfetched, hplaces⟩ := places_fetched hserved hstep
  obtain rfl := hfetched.instruction (by rw [hread]) hdecode
  obtain ⟨k, values, target, e, hfetched', hcontinues⟩ := step_continues hserved hstep
  obtain ⟨rfl, rfl, rfl, rfl⟩ := hfetched.unique hfetched'
  refine ⟨n, t, bytes, pointer, d, hstep, hfetched,
    hfetched.shownAddress_line hcandid hvisible scanline dot,
    fun hworks => ⟨?_, hfetched.shownValue_line hcandid hvisible scanline dot hworks⟩,
    fun hredirects hgoes => hcontinues _ (Mnemonic.destination_of_redirects _ _ hredirects hgoes),
    hfetched.exists_not_visible hcandid hvisible scanline dot⟩
  obtain ⟨directions, hne, hdata⟩ :=
    Instruction.touches_of_worksInMemory hi hworks s.cpu bytes pointer s.cpu.sp
  have himmediate := Instruction.not_immediate_of_hasAddress (Bool.and_elim_left hworks)
  refine ⟨directions, hne, ?_⟩
  rw [hplaces, hdata, Instruction.fetched_eq himmediate, Nat.add_comm, Instruction.size]

/-- `LDA ($FF),Y` with a pointer whose high byte is at the start of page zero. -/
theorem line_foretells_step_wrapping_pointer :
    let s : System (Memory 0x10000) :=
      ⟨{ Cpu.initial with y := 0x02, pc := 0x0010 },
        ((((Memory.zeros _).write 0x10 0xB1).write 0x11 0xFF).write 0xFF 0x34).write 0x36 0x5A⟩
    shownAddress (Trace.line s.cpu 0 21 s.bus).1 .indirectY = some 0x0036 ∧
      shownValue (Trace.line s.cpu 0 21 s.bus).1 = some 0x5A ∧
      ∃ n t, step s = .ok n t ∧ ∃ direction, (direction, 0x0036) ∈ places s := by
  intro s
  obtain ⟨n, t, bytes, pointer, d, hstep, hfetched, haddress, hworks, -, -⟩ :=
    line_foretells_step (s := s) (i := .paged 0xB1 .lda .indirectY 5) 0 21 rfl s.bus.candid rfl rfl
      (by decide +kernel +zetaReduce)
  obtain ⟨-, b, hbytes, hpointer⟩ := hfetched
  obtain ⟨hb, rfl⟩ := hbytes.unique (.cons rfl (.cons rfl (.nil s.bus)))
  obtain rfl := (List.cons.inj hb).2
  obtain ⟨rfl, -⟩ := hpointer.unique (.cons rfl (.cons rfl (.nil s.bus)))
  obtain ⟨⟨directions, hne, hplaces⟩, hvalue⟩ := hworks rfl
  refine ⟨(haddress rfl).trans (by decide +kernel +zetaReduce),
    hvalue.trans (by decide +kernel +zetaReduce), n, t, hstep, ?_⟩
  rw [hplaces]
  obtain ⟨direction, hdirection⟩ := List.exists_mem_of_ne_nil _ hne
  refine ⟨direction, List.mem_append_right _ (List.mem_map.2 ⟨direction, hdirection, ?_⟩)⟩
  exact congrArg (direction, ·) (by decide +kernel +zetaReduce)

end CpuM

end Famicom
