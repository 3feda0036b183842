import Famicom.Disassembly
import Famicom.Proofs.Cpu.Fetch
import Mathlib.Algebra.GroupWithZero.Nat

/-!
# The listing of a program

A listing takes a program apart into records and leaves nothing out : their raw bytes, put together
again, are the program. Where a record lies therefore follows from the records in front of it, and
whether it has an instruction from its opcode and the bytes that are left (`Disassembly.Tells`). An
instruction that the program does not complete gives up its opcode alone, and the listing goes on
with the byte behind.

`disassemble` is a loop whose stride depends on the bytes. `disassemble_cons` is one round of it,
`Disassembly.raw_decode_append` says what a round takes from the program, and the rest is an
induction over what is left of the program (`disassemble_induction`).
-/

namespace Famicom

/-! ## One record -/

theorem Instruction.size_le_three (i : Instruction) : i.size ≤ 3 :=
  Nat.add_le_add_left i.mode.operandSize_le 1

namespace Disassembly

/-- A record has the instruction of its opcode if the bytes at hand complete it, and is a single
byte otherwise. -/
theorem decode_cases (address : UInt16) (opcode : UInt8) (rest : List UInt8) :
    (∃ i, Instruction.decode? opcode = some i ∧ i.size ≤ rest.length + 1 ∧
      decode address opcode rest =
        ⟨address, opcode, some i, opcode :: rest.take i.mode.operandSize,
          i.mode.operandText (rest.take i.mode.operandSize) (address + .ofNat i.size)⟩) ∨
    ((∀ i, Instruction.decode? opcode = some i → ¬i.size ≤ rest.length + 1) ∧
      decode address opcode rest = undecoded address opcode) := by
  unfold decode
  cases Instruction.decode? opcode with
  | none => exact .inr ⟨fun i h => absurd h (Option.some_ne_none i).symm, rfl⟩
  | some i =>
    have hsize : i.size ≤ rest.length + 1 ↔ i.mode.operandSize ≤ rest.length := by
      rw [Instruction.size]
      omega
    by_cases hfits : i.mode.operandSize ≤ rest.length
    · have hlength := List.length_take_of_le hfits
      exact .inl ⟨i, rfl, hsize.2 hfits, if_pos hlength⟩
    · have hlength : (rest.take i.mode.operandSize).length ≠ i.mode.operandSize := by
        rw [List.length_take]
        omega
      refine .inr ⟨fun j hj => ?_, if_neg hlength⟩
      obtain rfl := Option.some_inj.1 hj
      exact mt hsize.1 hfits

variable (address : UInt16) (opcode : UInt8) (rest : List UInt8)

theorem address_decode : (decode address opcode rest).address = address := by
  rcases decode_cases address opcode rest with ⟨i, -, -, h⟩ | ⟨-, h⟩ <;>
    exact congrArg Disassembly.address h

theorem opcode_decode : (decode address opcode rest).opcode = opcode := by
  rcases decode_cases address opcode rest with ⟨i, -, -, h⟩ | ⟨-, h⟩ <;>
    exact congrArg Disassembly.opcode h

theorem head?_raw_decode : (decode address opcode rest).raw.head? = some opcode := by
  rcases decode_cases address opcode rest with ⟨i, -, -, h⟩ | ⟨-, h⟩ <;>
    exact congrArg (·.raw.head?) h

theorem instruction_decode {i : Instruction} :
    (decode address opcode rest).instruction = some i ↔
      Instruction.decode? opcode = some i ∧ i.size ≤ rest.length + 1 := by
  rcases decode_cases address opcode rest with ⟨j, hj, hfits, h⟩ | ⟨hshort, h⟩
  · rw [h, hj]
    refine ⟨fun hi => ⟨hi, ?_⟩, And.left⟩
    rwa [← Option.some_inj.1 hi]
  · rw [h]
    exact ⟨nofun, fun hi => absurd hi.2 (hshort i hi.1)⟩

theorem length_decode : (decode address opcode rest).length =
    ((decode address opcode rest).instruction.map Instruction.size).getD 1 := by
  rcases decode_cases address opcode rest with ⟨i, -, hfits, h⟩ | ⟨-, h⟩
  · rw [Instruction.size] at hfits
    rw [h, length, List.length_cons, List.length_take_of_le (by omega), Nat.add_comm]
    rfl
  · rw [h]
    rfl

/-- A record is as long as its instruction at most, and does not reach beyond the bytes at hand. -/
theorem length_decode_le : (decode address opcode rest).length ≤ 3 ∧
    (decode address opcode rest).length ≤ rest.length + 1 := by
  rw [length_decode]
  cases hinstruction : (decode address opcode rest).instruction with
  | none => exact ⟨by decide, Nat.le_add_left 1 _⟩
  | some i =>
    exact ⟨i.size_le_three, ((instruction_decode address opcode rest).1 hinstruction).2⟩

/-- A record takes its raw bytes from the front of the program. -/
theorem raw_decode_append : (decode address opcode rest).raw ++
    rest.drop ((decode address opcode rest).length - 1) = opcode :: rest := by
  rcases decode_cases address opcode rest with ⟨i, -, hfits, h⟩ | ⟨-, h⟩
  · have hlength : (rest.take i.mode.operandSize).length = i.mode.operandSize := by
      rw [Instruction.size] at hfits
      exact List.length_take_of_le (by omega)
    rw [h, length, List.length_cons, Nat.add_sub_cancel, hlength, List.cons_append,
      List.take_append_drop]
  · rw [h]
    rfl

end Disassembly

/-! ## One round -/

theorem disassembleOnto_eq (done : List Disassembly) (bytes : List UInt8) (address : UInt16) :
    disassembleOnto done bytes address = done.reverse ++ disassemble bytes address := by
  match bytes with
  | [] =>
    rw [disassemble, disassembleOnto, disassembleOnto, List.reverse_nil, List.append_nil]
  | opcode :: rest =>
    rw [disassemble, disassembleOnto, disassembleOnto, disassembleOnto_eq,
      disassembleOnto_eq [_], List.reverse_cons, List.append_assoc]
    rfl
termination_by bytes.length
decreasing_by
  all_goals
    simp only [List.length_drop, List.length_cons]
    omega

theorem disassemble_nil (address : UInt16) : disassemble [] address = [] := by
  rw [disassemble, disassembleOnto, List.reverse_nil]

/-- A round of the listing puts one record in front of the listing of what is left. -/
theorem disassemble_cons (opcode : UInt8) (rest : List UInt8) (address : UInt16) :
    disassemble (opcode :: rest) address =
      let record := Disassembly.decode address opcode rest
      record :: disassemble (rest.drop (record.length - 1)) (address + .ofNat record.length) := by
  rw [disassemble, disassembleOnto, disassembleOnto_eq]
  rfl

/-- What holds of the empty program, and of a program if it holds of what its first record leaves,
holds of every program. -/
theorem disassemble_induction {motive : List UInt8 → UInt16 → Prop}
    (nil : ∀ address, motive [] address)
    (cons : ∀ opcode rest address,
      motive (rest.drop ((Disassembly.decode address opcode rest).length - 1))
        (address + .ofNat (Disassembly.decode address opcode rest).length) →
      motive (opcode :: rest) address)
    (bytes : List UInt8) (address : UInt16) : motive bytes address := by
  match bytes with
  | [] => exact nil address
  | opcode :: rest => exact cons opcode rest address (disassemble_induction nil cons _ _)
termination_by bytes.length
decreasing_by
  simp only [List.length_drop, List.length_cons]
  omega

/-! ## All rounds -/

theorem flatMap_raw_disassemble (bytes : List UInt8) (origin : UInt16) :
    (disassemble bytes origin).flatMap (·.raw) = bytes := by
  induction bytes, origin using disassemble_induction with
  | nil address => rw [disassemble_nil, List.flatMap_nil]
  | cons opcode rest address ih =>
    rw [disassemble_cons, List.flatMap_cons, ih, Disassembly.raw_decode_append]

/-- The record stands at an offset of a program that is placed at `origin`, and has an instruction
if there is one. -/
structure Disassembly.Tells (d : Disassembly) (bytes : List UInt8) (origin : UInt16)
    (offset : Nat) : Prop where
  address : d.address = origin + .ofNat offset
  opcode : d.raw.head? = some d.opcode
  instruction : ∀ i, d.instruction = some i ↔
    Instruction.decode? d.opcode = some i ∧ offset + i.size ≤ bytes.length
  length : d.raw.length = (d.instruction.map Instruction.size).getD 1

theorem Disassembly.tells_decode (opcode : UInt8) (rest : List UInt8) (origin : UInt16) :
    (decode origin opcode rest).Tells (opcode :: rest) origin 0 where
  address := (address_decode origin opcode rest).trans (UInt16.add_zero origin).symm
  opcode := by rw [head?_raw_decode, opcode_decode]
  instruction i := by
    rw [instruction_decode, opcode_decode, Nat.zero_add, List.length_cons]
  length := length_decode origin opcode rest

/-- What a record tells about what an earlier one leaves it tells about the program. -/
theorem Disassembly.Tells.behind {d : Disassembly} {opcode : UInt8} {rest : List UInt8}
    {origin : UInt16} {offset : Nat} :
    let record := decode origin opcode rest
    d.Tells (rest.drop (record.length - 1)) (origin + .ofNat record.length) offset →
      d.Tells (opcode :: rest) origin (record.length + offset) := by
  intro record h
  have hpos : 0 < record.length := length_decode_pos origin opcode rest
  have hle : record.length ≤ rest.length + 1 := (length_decode_le origin opcode rest).2
  refine ⟨?_, h.opcode, fun i => (h.instruction i).trans (and_congr_right fun _ => ?_), h.length⟩
  · rw [h.address, UInt16.ofNat_add, UInt16.add_assoc]
  · rw [List.length_drop, List.length_cons]
    omega

theorem tells_of_disassemble {bytes : List UInt8} {origin : UInt16}
    {earlier later : List Disassembly} {record : Disassembly}
    (h : disassemble bytes origin = earlier ++ record :: later) :
    record.Tells bytes origin (earlier.map Disassembly.length).sum := by
  induction bytes, origin using disassemble_induction generalizing earlier with
  | nil address =>
    rw [disassemble_nil] at h
    exact absurd h.symm (List.append_ne_nil_of_right_ne_nil _ (List.cons_ne_nil _ _))
  | cons opcode rest address ih =>
    rw [disassemble_cons] at h
    cases earlier with
    | nil =>
      obtain ⟨rfl, -⟩ := List.cons.inj h
      exact Disassembly.tells_decode opcode rest address
    | cons first earlier =>
      obtain ⟨rfl, hrest⟩ := List.cons.inj h
      exact (ih hrest).behind

theorem raw_ne_nil_of_mem_disassemble {bytes : List UInt8} {origin : UInt16} {d : Disassembly}
    (h : d ∈ disassemble bytes origin) : d.raw ≠ [] := by
  obtain ⟨earlier, later, hsplit⟩ := List.append_of_mem h
  have hhead := (tells_of_disassemble hsplit).opcode
  intro hnil
  rw [hnil] at hhead
  exact Option.some_ne_none _ hhead.symm

/-- Records that have raw bytes are no more than these bytes. -/
theorem length_le_length_flatMap_raw {listing : List Disassembly}
    (h : ∀ d ∈ listing, d.raw ≠ []) : listing.length ≤ (listing.flatMap (·.raw)).length := by
  induction listing with
  | nil => exact Nat.le_refl 0
  | cons d listing ih =>
    have hpos := List.length_pos_iff.2 (h d List.mem_cons_self)
    have hrest := ih fun e he => h e (List.mem_cons_of_mem d he)
    rw [List.length_cons, List.flatMap_cons, List.length_append]
    omega

/-- The records of a listing part the program among them. -/
theorem disassemble_partitions (bytes : List UInt8) (origin : UInt16) :
    (disassemble bytes origin).flatMap (·.raw) = bytes ∧
    (disassemble bytes origin).length ≤ bytes.length ∧
    ∀ earlier record later, disassemble bytes origin = earlier ++ record :: later →
      record.Tells bytes origin (earlier.map Disassembly.length).sum := by
  have hraw := flatMap_raw_disassemble bytes origin
  have hrecords := length_le_length_flatMap_raw fun d (hd : d ∈ disassemble bytes origin) =>
    raw_ne_nil_of_mem_disassemble hd
  rw [hraw] at hrecords
  exact ⟨hraw, hrecords, fun _ _ _ => tells_of_disassemble⟩

/-- A jump that lacks its last byte is listed as an opcode without instruction, here behind a byte
at the end of the address space. -/
theorem disassemble_partitions_incomplete_jump :
    let jump := Disassembly.undecoded 0x0000 0x4C
    disassemble [0x02, 0x4C, 0x02] 0xFFFF =
      [.undecoded 0xFFFF 0x02, jump, .undecoded 0x0001 0x02] ∧
    jump.Tells [0x02, 0x4C, 0x02] 0xFFFF 1 := by
  intro jump
  have hlisting : disassemble [0x02, 0x4C, 0x02] 0xFFFF =
      [.undecoded 0xFFFF 0x02, jump, .undecoded 0x0001 0x02] := by
    have hfirst : Disassembly.decode 0xFFFF 0x02 [0x4C, 0x02] = .undecoded 0xFFFF 0x02 := by
      decide +kernel
    have hjump : Disassembly.decode 0x0000 0x4C [0x02] = jump := by decide +kernel
    have hlast : Disassembly.decode 0x0001 0x02 [] = .undecoded 0x0001 0x02 := by decide +kernel
    rw [disassemble_cons, hfirst]
    change _ :: disassemble [0x4C, 0x02] 0x0000 = _
    rw [disassemble_cons, hjump]
    change _ :: _ :: disassemble [0x02] 0x0001 = _
    rw [disassemble_cons, hlast]
    exact congrArg (_ :: _ :: _ :: ·) (disassemble_nil _)
  obtain ⟨-, -, htells⟩ := disassemble_partitions [0x02, 0x4C, 0x02] 0xFFFF
  exact ⟨hlisting, htells [.undecoded 0xFFFF 0x02] jump [.undecoded 0x0001 0x02] hlisting⟩

end Famicom
