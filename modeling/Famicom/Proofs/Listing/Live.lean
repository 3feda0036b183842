import Famicom.Proofs.Listing.Program
import Famicom.Proofs.Observation

/-!
# The listing of live memory

Live memory is listed through an observer, who looks at one byte after the other and may not see all
of them. What is in sight from an address on (`inSight`) ends in front of the first byte that is
not. The listing of live memory is the listing of these bytes as if they were a program
(`disassembleFrom_eq_take`) : an instruction that reaches into what is hidden is one that the
program does not complete, and the listing comes to the hidden byte one record at a time.

So the records lie one behind the other, and no byte of theirs is hidden. As every record has a
byte, a hidden address ends the listing before it has come around to where it started
(`live_listing`).
-/

namespace Famicom

variable {β : Type} [AddressSpace β]

/-- What an observer sees from an address on : the bytes in front of the first one that is hidden,
and no more than `count`. -/
def inSight (b : β) (start : UInt16) (count : Nat) : List UInt8 :=
  ((addressesFrom start count).takeWhile (visible b)).filterMap fun a => (AddressSpace.peek a b).1

/-! ## Bytes in sight -/

section InSight

variable {b : β} {a : UInt16} {opcode : UInt8}

theorem inSight_of_hidden (h : (AddressSpace.peek a b).1 = none) (count : Nat) :
    inSight b a count = [] := by
  have hhidden : visible b a = false := by simp [visible, h]
  cases count <;> simp [inSight, addressesFrom, hhidden]

theorem inSight_succ (h : (AddressSpace.peek a b).1 = some opcode) (count : Nat) :
    inSight b a (count + 1) = opcode :: inSight b (a + 1) count := by
  have hvisible : visible b a = true := by simp [visible, h]
  simp [inSight, addressesFrom, hvisible, h]

theorem take_inSight (a : UInt16) (count k : Nat) :
    (inSight b a count).take k = inSight b a (min k count) := by
  induction count generalizing a k with
  | zero => simp [inSight, addressesFrom]
  | succ count ih =>
    cases hpeek : (AddressSpace.peek a b).1 with
    | none => rw [inSight_of_hidden hpeek, inSight_of_hidden hpeek, List.take_nil]
    | some value =>
      cases k with
      | zero => simp [inSight, addressesFrom]
      | succ k =>
        rw [inSight_succ hpeek, List.take_succ_cons, ih, Nat.succ_min_succ, inSight_succ hpeek]

/-- Behind bytes that are in sight the same observer looks on. -/
theorem drop_inSight {count k : Nat} (h : k ≤ (inSight b a count).length) :
    (inSight b a count).drop k = inSight b (a + .ofNat k) (count - k) := by
  induction k generalizing a count with
  | zero => exact congrArg (inSight b · count) (UInt16.add_zero a).symm
  | succ k ih =>
    cases hpeek : (AddressSpace.peek a b).1 with
    | none =>
      rw [inSight_of_hidden hpeek] at h
      exact absurd h (Nat.not_succ_le_zero k)
    | some value =>
      cases count with
      | zero => exact absurd h (Nat.not_succ_le_zero k)
      | succ count =>
        rw [inSight_succ hpeek] at h ⊢
        rw [List.drop_succ_cons, ih (Nat.le_of_succ_le_succ h), add_one_add_ofNat,
          Nat.succ_sub_succ]

/-- The bytes in sight are seen where they lie. -/
theorem peek_getElem_inSight {count k : Nat} (h : k < (inSight b a count).length) :
    (AddressSpace.peek (a + .ofNat k) b).1 = some (inSight b a count)[k] := by
  have hdrop := drop_inSight (Nat.le_of_lt h)
  rw [List.drop_eq_getElem_cons h] at hdrop
  cases hpeek : (AddressSpace.peek (a + .ofNat k) b).1 with
  | none =>
    rw [inSight_of_hidden hpeek] at hdrop
    exact absurd hdrop (List.cons_ne_nil _ _)
  | some value =>
    cases hrest : count - k with
    | zero =>
      rw [hrest] at hdrop
      exact absurd hdrop (List.cons_ne_nil _ _)
    | succ rest =>
      rw [hrest, inSight_succ hpeek] at hdrop
      rw [(List.cons.inj hdrop).1]

end InSight

/-! ## Records -/

/-- A record needs no more bytes than its opcode calls for. -/
theorem Disassembly.decode_take (address : UInt16) (opcode : UInt8) (rest : List UInt8) {k : Nat}
    (h : ((Instruction.decode? opcode).map Instruction.size).getD 1 ≤ k + 1) :
    decode address opcode (rest.take k) = decode address opcode rest := by
  unfold decode
  cases hdecode : Instruction.decode? opcode with
  | none => rfl
  | some i =>
    rw [hdecode, Option.map_some, Option.getD_some, Instruction.size] at h
    have hk : min i.mode.operandSize k = i.mode.operandSize := Nat.min_eq_left (by omega)
    simp only [List.take_take, hk]

theorem Instruction.size_decode?_le (opcode : UInt8) :
    ((Instruction.decode? opcode).map Instruction.size).getD 1 ≤ 3 := by
  cases Instruction.decode? opcode with
  | none => decide
  | some i => exact i.size_le_three

section Unmoved

variable {b : β} (h : ∀ a, (AddressSpace.peek a b).2 = b)

include h

theorem peekBytes_eq_inSight (count : Nat) (a : UInt16) :
    peekBytes count a b = (inSight b a count, b) := by
  induction count generalizing a with
  | zero => rfl
  | succ count ih =>
    have hstays := h a
    rcases hpeek : AddressSpace.peek a b with ⟨_ | value, c⟩ <;> rw [hpeek] at hstays <;>
      obtain rfl : c = b := hstays
    · rw [inSight_of_hidden (congrArg Prod.fst hpeek), peekBytes, hpeek]
    · rw [inSight_succ (congrArg Prod.fst hpeek), peekBytes, hpeek]
      simp only [ih]

theorem disassembleLiveOnto_of_hidden {a : UInt16} (hpeek : (AddressSpace.peek a b).1 = none)
    (done : List Disassembly) (count : Nat) :
    disassembleLiveOnto done count a b = (done.reverse, b) := by
  have hlook : AddressSpace.peek a b = (none, b) := Prod.ext hpeek (h a)
  cases count with
  | zero => rfl
  | succ count => rw [disassembleLiveOnto, hlook]

/-- A round of the listing, whatever the observer sees beyond the record. -/
theorem disassembleLiveOnto_succ {a : UInt16} {opcode : UInt8}
    (hpeek : (AddressSpace.peek a b).1 = some opcode) (done : List Disassembly) (count : Nat)
    {seen : Nat} (hseen : 2 ≤ seen) :
    let record := Disassembly.decode a opcode (inSight b (a + 1) seen)
    disassembleLiveOnto done (count + 1) a b =
      disassembleLiveOnto (record :: done) count (a + .ofNat record.length) b := by
  have hlook : AddressSpace.peek a b = (some opcode, b) := Prod.ext hpeek (h a)
  have hsize := Instruction.size_decode?_le opcode
  rw [disassembleLiveOnto, hlook]
  simp only [peekBytes_eq_inSight h]
  rw [← Disassembly.decode_take a opcode (inSight b (a + 1) seen)
    (Nat.le_add_of_sub_le (Nat.le_refl _)), take_inSight, Nat.min_eq_left (by omega)]

/-- The listing of live memory is that of the bytes in sight. -/
theorem disassembleLiveOnto_eq (done : List Disassembly) (start : UInt16) {count seen : Nat}
    (hseen : 3 * count ≤ seen) : (disassembleLiveOnto done count start b).1 =
      done.reverse ++ (disassemble (inSight b start seen) start).take count := by
  induction count generalizing done start seen with
  | zero => exact (List.append_nil _).symm
  | succ count ih =>
    cases hpeek : (AddressSpace.peek start b).1 with
    | none =>
      rw [disassembleLiveOnto_of_hidden h hpeek, inSight_of_hidden hpeek, disassemble_nil,
        List.take_nil, List.append_nil]
    | some opcode =>
      obtain ⟨seen, rfl⟩ : ∃ rest, seen = rest + 1 := ⟨seen - 1, by omega⟩
      have htwo : 2 ≤ seen := by omega
      rw [disassembleLiveOnto_succ h hpeek done count htwo, inSight_succ hpeek, disassemble_cons,
        List.take_succ_cons]
      have hpos := Disassembly.length_decode_pos start opcode (inSight b (start + 1) seen)
      obtain ⟨hthree, hrest⟩ :=
        Disassembly.length_decode_le start opcode (inSight b (start + 1) seen)
      generalize Disassembly.decode start opcode (inSight b (start + 1) seen) = record at *
      -- The record has three bytes at most, so enough is in sight for the other rounds.
      have hleft : 3 * count ≤ seen - (record.length - 1) := by omega
      rw [drop_inSight (by omega), add_one_add_ofNat, Nat.sub_add_cancel hpos,
        ih (record :: done) _ hleft, List.reverse_cons, List.append_assoc]
      rfl

theorem disassembleFrom_eq_take (start : UInt16) (count : Nat) :
    (disassembleFrom start count b).1 =
      (disassemble (inSight b start (3 * count)) start).take count :=
  disassembleLiveOnto_eq h [] start (Nat.le_refl _)

/-! ## Records in sight -/

theorem tells_of_disassembleFrom {start : UInt16} {count : Nat} {earlier later : List Disassembly}
    {record : Disassembly}
    (hsplit : (disassembleFrom start count b).1 = earlier ++ record :: later) :
    record.Tells (inSight b start (3 * count)) start (earlier.map Disassembly.length).sum := by
  have hwhole := List.take_append_drop count (disassemble (inSight b start (3 * count)) start)
  rw [← disassembleFrom_eq_take h, hsplit, List.append_assoc, List.cons_append] at hwhole
  exact tells_of_disassemble hwhole.symm

theorem flatMap_raw_disassembleFrom_prefix (start : UInt16) (count : Nat) :
    (disassembleFrom start count b).1.flatMap (·.raw) <+: inSight b start (3 * count) := by
  rw [disassembleFrom_eq_take h]
  have hraw := flatMap_raw_disassemble (inSight b start (3 * count)) start
  rw [← List.take_append_drop count (disassemble _ start), List.flatMap_append] at hraw
  exact ⟨_, hraw⟩

/-- The listing shows the bytes that the observer sees, from where it starts and without a gap. -/
theorem peek_getElem_disassembleFrom {start : UInt16} {count k : Nat}
    (hk : k < ((disassembleFrom start count b).1.flatMap (·.raw)).length) :
    (AddressSpace.peek (start + .ofNat k) b).1 =
      some ((disassembleFrom start count b).1.flatMap (·.raw))[k] := by
  have hseen := flatMap_raw_disassembleFrom_prefix h start count
  rw [hseen.getElem hk]
  exact peek_getElem_inSight _

theorem length_disassembleFrom_le {hidden : UInt16}
    (hhidden : (AddressSpace.peek hidden b).1 = none) (start : UInt16) (count : Nat) :
    (disassembleFrom start count b).1.length ≤ (hidden - start).toNat := by
  have hrecords : (disassembleFrom start count b).1.length ≤
      ((disassembleFrom start count b).1.flatMap (·.raw)).length := by
    refine length_le_length_flatMap_raw fun d hd => ?_
    rw [disassembleFrom_eq_take h] at hd
    exact raw_ne_nil_of_mem_disassemble (List.mem_of_mem_take hd)
  refine Nat.le_trans hrecords (Nat.not_lt.1 fun hk => ?_)
  have hseen := peek_getElem_disassembleFrom h hk
  rw [UInt16.ofNat_toNat, UInt16.add_comm, UInt16.sub_add_cancel, hhidden] at hseen
  exact Option.some_ne_none _ hseen.symm

/-- To an observer who changes nothing, the listing of live memory is that of the bytes in sight :
it shows no byte that is hidden, and ends where one is. -/
theorem live_listing (start : UInt16) (count : Nat) :
    let seen := inSight b start (3 * count)
    let listing := (disassembleFrom start count b).1
    listing = (disassemble seen start).take count ∧
    (∀ earlier record later, listing = earlier ++ record :: later →
      record.Tells seen start (earlier.map Disassembly.length).sum) ∧
    (∀ (k : Nat) (hk : k < (listing.flatMap (·.raw)).length),
      (AddressSpace.peek (start + .ofNat k) b).1 = some (listing.flatMap (·.raw))[k]) ∧
    ∀ hidden, (AddressSpace.peek hidden b).1 = none →
      listing.length ≤ (hidden - start).toNat ∧ listing.length < 65536 := by
  refine ⟨disassembleFrom_eq_take h start count, fun _ _ _ => tells_of_disassembleFrom h,
    fun _ => peek_getElem_disassembleFrom h, fun hidden hhidden => ?_⟩
  have hlength := length_disassembleFrom_le h hhidden start count
  exact ⟨hlength, Nat.lt_of_le_of_lt hlength (UInt16.toNat_lt _)⟩

end Unmoved

/-- Two bytes in front of the registers, a listing of any length has two records at most. -/
theorem live_listing_in_front_of_registers :
    (∀ a, (AddressSpace.peek a Board.initial).2 = Board.initial) ∧
    (AddressSpace.peek 0x2000 Board.initial).1 = none ∧
    (disassembleFrom 0x1FFE 1000000 Board.initial).1.length ≤ 2 := by
  have hpeek (a : UInt16) : (AddressSpace.peek a Board.initial).2 = Board.initial :=
    Board.peek_snd a Board.initial
  have hhidden : (AddressSpace.peek 0x2000 Board.initial).1 = none := by decide +kernel
  obtain ⟨-, -, -, hends⟩ := live_listing hpeek 0x1FFE 1000000
  exact ⟨hpeek, hhidden, (hends 0x2000 hhidden).1⟩

end Famicom
