import Famicom.Disassembly
import Famicom.Proofs.Cpu.FaultFree
import Famicom.Proofs.Cpu.Flow
import Famicom.Proofs.Text.Hex

/-!
# Listings and steps

A listing knows where the next instruction begins, and where a branch leads, from the operand size
of the mode and the bytes behind the opcode; the processor finds out by fetching. On a bus that
shows a memory (`FlatMemory`) both see the same bytes, so the record at the program counter
(`disassembleFrom_of_some`) tells where the next step continues, and a byte without instruction is
one at which it stops. `step_follows_listing` reads the address of a branch, a jump or a call
off the operand as it is printed.
-/

namespace Famicom

variable {β : Type} [AddressSpace β]

/-! ## The bytes of a memory -/

/-- The bus shows a memory : it answers every access, an observer sees what a read would answer,
and neither of the two changes a byte. -/
class FlatMemory (β : Type) [AddressSpace β] : Prop extends FaultFree β where
  peek : ∀ (a : UInt16) (b : β), (AddressSpace.peek a b).1 = some (byteAt b a)
  byteAt_read : ∀ (a : UInt16) (b : β), byteAt (AddressSpace.read a b).2 = byteAt b
  byteAt_peek : ∀ (a : UInt16) (b : β), byteAt (AddressSpace.peek a b).2 = byteAt b

instance : FlatMemory (Memory 0x10000) where
  peek _ _ := rfl
  byteAt_read _ _ := rfl
  byteAt_peek _ _ := rfl

theorem Reads.eq_map [FlatMemory β] {addresses : List UInt16} {bytes : List UInt8} {b c : β}
    (h : Reads addresses bytes b c) : bytes = addresses.map (byteAt b) := by
  induction h with
  | nil => rfl
  | @cons a value _ _ b c _ head _ ih =>
    have hvalue : byteAt b a = value := by simp [byteAt, head]
    have hc : c = (AddressSpace.read a b).2 := by rw [head]
    rw [ih, hc, FlatMemory.byteAt_read, ← hvalue]
    rfl

/-! ## One record -/

variable [FlatMemory β]

theorem peekBytes_eq (count : Nat) (a : UInt16) (b : β) :
    (peekBytes count a b).1 = (addressesFrom a count).map (byteAt b) := by
  induction count generalizing a b with
  | zero => rfl
  | succ count ih =>
    have hseen := FlatMemory.peek a b
    have hbytes := FlatMemory.byteAt_peek a b
    rcases hpeek : AddressSpace.peek a b with ⟨seen, c⟩
    simp only [hpeek] at hseen hbytes
    have hrest := ih (a + 1) c
    rcases hvalues : peekBytes count (a + 1) c with ⟨values, d⟩
    rw [hvalues, hbytes] at hrest
    simp only [peekBytes, hpeek, hseen, hvalues, addressesFrom, List.map_cons, hrest]

/-- The record is that of the opcode and the bytes that its size reaches. -/
theorem disassembleFrom_one (a : UInt16) (b : β) :
    (disassembleFrom a 1 b).1 = [Disassembly.decode a (byteAt b a)
      ((addressesFrom (a + 1) (((Instruction.decode? (byteAt b a)).map Instruction.size).getD 1
        - 1)).map (byteAt b))] := by
  have hseen := FlatMemory.peek a b
  have hbytes := FlatMemory.byteAt_peek a b
  rcases hpeek : AddressSpace.peek a b with ⟨seen, c⟩
  simp only [hpeek] at hseen hbytes
  simp only [disassembleFrom, disassembleLiveOnto, hpeek, hseen, peekBytes_eq, hbytes]
  rfl

theorem disassembleFrom_of_none {a : UInt16} {b : β}
    (h : Instruction.decode? (byteAt b a) = none) :
    (disassembleFrom a 1 b).1 = [.undecoded a (byteAt b a)] := by
  rw [disassembleFrom_one, Disassembly.decode, h]

theorem disassembleFrom_of_some {a : UInt16} {b : β} {i : Instruction}
    (h : Instruction.decode? (byteAt b a) = some i) :
    (disassembleFrom a 1 b).1 = [⟨a, byteAt b a, some i, byteAt b a :: i.operandBytes a b,
      i.mode.operandText (i.operandBytes a b) (a + .ofNat i.size)⟩] := by
  have hsize : i.size - 1 = i.mode.operandSize := by
    rw [Instruction.size]
    omega
  have hlength : (i.operandBytes a b).length = i.mode.operandSize := by
    simp [Instruction.operandBytes]
  simp only [disassembleFrom_one, Disassembly.decode, h, Option.map_some, Option.getD_some, hsize]
  rw [← Instruction.operandBytes, List.take_of_length_le (Nat.le_of_eq hlength), if_pos hlength]

/-! ## Where the operand leads -/

namespace Instruction

theorem mode_of_isBranch {i : Instruction} (h : i ∈ table) :
    i.mnemonic.isBranch → i.mode = .relative := by
  revert i
  decide +kernel

theorem mode_of_jsr {i : Instruction} (h : i ∈ table) :
    i.mnemonic = .jsr → i.mode = .absolute := by
  revert i
  decide +kernel

omit [AddressSpace β] [FlatMemory β] in
/-- A printed target is the operand. -/
theorem operandText_eq {i : Instruction} (h : i.mode = .relative ∨ i.mode = .absolute) (c : Cpu)
    (bytes pointer : List UInt8) : i.mode.operandText bytes (c.pc + .ofNat i.size) =
      "$" ++ Text.hex16 (i.operand c bytes pointer).target := by
  rcases h with h | h
  · rw [operand_of_relative h, h]
    rfl
  · rw [operand, h]
    rfl

end Instruction

namespace CpuM

/-- The command line reads the operand off its listing. -/
theorem Fetched.address?_operandText {s : System β} {i : Instruction} {bytes pointer : List UInt8}
    {d : β} (h : Fetched s i bytes pointer d) (hmode : i.mode = .relative ∨ i.mode = .absolute) :
    CommandLine.address? (i.mode.operandText (i.operandBytes s.cpu.pc s.bus)
      (s.cpu.pc + .ofNat i.size)) = some (i.operand s.cpu bytes pointer).target := by
  obtain ⟨-, b, hbytes, -⟩ := h
  have himmediate : i.mode ≠ .immediate := by
    rcases hmode with hmode | hmode <;> simp [hmode]
  have hmap := (List.cons.inj hbytes.eq_map).2
  rw [Instruction.fetched_eq himmediate] at hmap
  rw [show i.operandBytes s.cpu.pc s.bus = bytes from hmap.symm,
    Instruction.operandText_eq hmode s.cpu bytes pointer, Text.address?_hex16]

/-- The record at the program counter describes the next step. -/
theorem step_follows_listing {s : System β} (hserved : s.cpu.served = none) :
    ∃ record, (disassembleFrom s.cpu.pc 1 s.bus).1 = [record] ∧
      (record.instruction = none →
        ∃ t, step s = .error (.unknownOpcode record.opcode s.cpu.pc) t) ∧
      ∀ i, record.instruction = some i → ∃ n t, step s = .ok n t ∧
        (¬ i.mnemonic.isBranch → i.mnemonic ∉ Mnemonic.diverts →
          t.cpu.pc = record.address + .ofNat record.length) ∧
        (i.mnemonic.isBranch →
          if i.mnemonic.condition s.cpu.status then
            CommandLine.address? record.operand = some t.cpu.pc
          else t.cpu.pc = record.address + .ofNat record.length) ∧
        (i.mnemonic = .jmp ∧ i.mode = .absolute ∨ i.mnemonic = .jsr →
          CommandLine.address? record.operand = some t.cpu.pc) := by
  have hread := read_eq_byteAt s.cpu.pc s.bus
  cases hdecode : Instruction.decode? (byteAt s.bus s.cpu.pc) with
  | none =>
    refine ⟨_, disassembleFrom_of_none hdecode, fun _ => ?_, fun i hi => by cases hi⟩
    exact step_unknownOpcode hserved hread hdecode
  | some i =>
    refine ⟨_, disassembleFrom_of_some hdecode, fun hi => (by cases hi), fun j hj => ?_⟩
    obtain rfl := Option.some_inj.1 hj
    obtain ⟨n, t, hstep⟩ := step_succeeds hserved hread hdecode
    obtain ⟨j, bytes, pointer, d, hfetched, hcontinues⟩ := step_continues hserved hstep
    obtain rfl := hfetched.instruction hread hdecode
    have hi := Instruction.mem_table_of_decode? hdecode
    have hlength : (byteAt s.bus s.cpu.pc :: j.operandBytes s.cpu.pc s.bus).length = j.size := by
      simp [Instruction.operandBytes, Instruction.size, Nat.add_comm]
    refine ⟨n, t, hstep, fun hbranch hdiverts => ?_, fun hbranch => ?_, fun hjump => ?_⟩
    · rw [Disassembly.length, hlength]
      exact hcontinues _ (Mnemonic.destination_of_ordinary _ _ hbranch hdiverts)
    · have hpc := hcontinues _ (Mnemonic.destination_of_isBranch _ _ hbranch)
      rw [Disassembly.length, hlength, hpc]
      have hmode := Instruction.mode_of_isBranch hi hbranch
      split
      · rw [if_pos ‹_›]
        exact hfetched.address?_operandText (.inl hmode)
      · exact if_neg ‹_›
    · have hmode : j.mode = .absolute := by
        rcases hjump with ⟨-, hmode⟩ | hjsr
        · exact hmode
        · exact Instruction.mode_of_jsr hi hjsr
      have hjmp : j.mnemonic = .jmp ∨ j.mnemonic = .jsr := hjump.imp_left And.left
      rw [hcontinues _ (Mnemonic.destination_of_jump _ _ hjmp)]
      exact hfetched.address?_operandText (.inr hmode)

/-- `BNE $FFFE` at the beginning of the memory goes back across it. -/
theorem step_follows_listing_back_to_end :
    let s : System (Memory 0x10000) :=
      ⟨Cpu.initial, ((Memory.zeros _).write 0x0000 0xD0).write 0x0001 0xFC⟩
    ∃ n t, step s = .ok n t ∧ t.cpu.pc = 0xFFFE := by
  intro s
  obtain ⟨record, hrecord, -, hstep⟩ := step_follows_listing (s := s) rfl
  have hlisted := disassembleFrom_of_some (a := s.cpu.pc) (b := s.bus)
    (i := .plain 0xD0 .bne .relative 2) rfl
  obtain rfl := List.singleton_inj.1 (hrecord.symm.trans hlisted)
  obtain ⟨n, t, hok, -, hbranch, -⟩ := hstep _ rfl
  refine ⟨n, t, hok, ?_⟩
  have hpc : CommandLine.address? _ = some t.cpu.pc := hbranch rfl
  exact Option.some_inj.1 (hpc.symm.trans (by decide +kernel +zetaReduce))

end CpuM

end Famicom
