import Famicom.Proofs.Cpu.FaultFree

/-!
# Combined instructions

Seven of the undocumented mnemonics do the work of two documented ones on one operand
(`Mnemonic.parts`). Six of them change the operand in place and take the new value into the
registers without reading it again; where the operand is a cell of plain memory (`RamAt`) a second
read would answer just that value, so the two instructions one after the other lead to the same
registers and the same devices. The flags need no care of their own : the second half starts from
those the first one leaves, in both cases. The seventh, `LAX`, loads two registers at once. The
eighth, `SAX`, has no such pair : it stores a value that no register holds.
-/

namespace Famicom

variable {β : Type} [AddressSpace β]

/-- The cell at the address is plain memory : a read changes nothing, and what is written to it is
what it answers. -/
structure RamAt (a : UInt16) (b : β) : Prop where
  read : ∃ value, AddressSpace.read a b = (.ok value, b)
  write : ∀ value, ∃ c, AddressSpace.write a value b = (.ok (), c) ∧
    AddressSpace.read a c = (.ok value, c)

theorem Memory.ramAt (a : UInt16) (m : Memory 0x10000) : RamAt a m where
  read := ⟨_, rfl⟩
  write value := by
    refine ⟨m.write a.toNat value, rfl, ?_⟩
    show ((.ok ((m.write a.toNat value).read a.toNat), _) : Except BusFault UInt8 × _) = _
    rw [Memory.read_write, if_pos rfl]

namespace Mnemonic

/-- The two mnemonics whose work a combined one does, in order. -/
def parts : Mnemonic → Option (Mnemonic × Mnemonic)
  | .dcp => some (.dec, .cmp)
  | .isc => some (.inc, .sbc)
  | .slo => some (.asl, .ora)
  | .rla => some (.rol, .and)
  | .sre => some (.lsr, .eor)
  | .rra => some (.ror, .adc)
  | .lax => some (.lda, .tax)
  | _ => none

/-- The mnemonics that combine two others. -/
def combined : List Mnemonic := [.dcp, .isc, .slo, .rla, .sre, .rra, .lax, .sax]

end Mnemonic

theorem Instruction.mode_of_combined {i : Instruction} (h : i ∈ table) :
    i.mnemonic ∈ Mnemonic.combined → ¬ (i.mode = .implied ∨ i.mode = .accumulator) := by
  revert i
  decide +kernel

namespace CpuM

/-- Run two actions on one operand, one after the other. -/
def inTurn (first second : Action) (operand : Operand) : CpuM β Nat := do
  let _ ← first.run operand
  second.run operand

/-- The value that is written back need not be read again. -/
theorem run_modify_eq_inTurn {a : UInt16} {s : System β} (hram : RamAt a s.bus) (change : ByteOp)
    (use : Registers → UInt8 → Registers) :
    (Action.modify change use).run (.address a) s =
      inTurn (.inPlace change) (.load use) (.address a) s := by
  obtain ⟨value, hread⟩ := hram.read
  obtain ⟨c, hwrite, hagain⟩ := hram.write (change value s.cpu.status).1
  have hload : readByte a s = .ok value s := readByte_eq_ok.2 ⟨hread, rfl⟩
  have hstore (p : Cpu) : writeByte a (change value s.cpu.status).1 ⟨p, s.bus⟩ =
      .ok () ⟨p, c⟩ := writeByte_eq_ok.2 ⟨hwrite, rfl⟩
  have hreload (p : Cpu) : readByte a ⟨p, c⟩ = .ok (change value s.cpu.status).1 ⟨p, c⟩ :=
    readByte_eq_ok.2 ⟨hagain, rfl⟩
  simp only [inTurn, Action.inPlace, Action.run, Operand.load, Operand.store, compute, bind_assoc,
    bind_of_ok hload, cpu_bind, update_bind, bind_of_ok (hstore _), pure_bind,
    bind_of_ok (hreload _)]
  rfl

/-- A load and a computation behind it are one load. -/
theorem inTurn_load_adjust (use : Registers → UInt8 → Registers) (f : Registers → Registers)
    (operand : Operand) (s : System β) :
    inTurn (.load use) (.adjust f) operand s =
      (Action.load fun r value => f (use r value)).run operand s := by
  simp only [inTurn, Action.run, bind_assoc, pure_bind]
  rfl

theorem run_eq_inTurn {m first second : Mnemonic} (hparts : m.parts = some (first, second))
    {a : UInt16} {s : System β} (hram : RamAt a s.bus) :
    m.action.run (.address a) s = inTurn first.action second.action (.address a) s := by
  cases m with
  | dcp | isc | slo | rla | sre | rra =>
    cases hparts
    exact run_modify_eq_inTurn hram _ _
  | lax =>
    cases hparts
    exact (inTurn_load_adjust Registers.setA (fun r => r.setX r.a) _ s).symm
  | _ => cases hparts

/-- A combined instruction does to the registers and to the devices what its two parts do one after
the other on the operand it locates. `SAX` stores and leaves the registers and the
flags as they are. -/
theorem combined_eq_parts [FaultFree β] {s : System β} {i : Instruction}
    (hserved : s.cpu.served = none) (hread : (AddressSpace.read s.cpu.pc s.bus).1 = .ok i.opcode)
    (hdecode : Instruction.decode? i.opcode = some i) (hcombined : i.mnemonic ∈ Mnemonic.combined) :
    ∃ bytes pointer a d, Fetched s i bytes pointer d ∧
      i.operand s.cpu bytes pointer = .address a ∧ (RamAt a d → ∃ n t, step s = .ok n t ∧
        (∀ first second, i.mnemonic.parts = some (first, second) → ∃ extra u,
          inTurn first.action second.action (.address a) ⟨s.cpu.behind i, d⟩ = .ok extra u ∧
            t.cpu.toRegisters = u.cpu.toRegisters ∧ t.bus = u.bus) ∧
        (i.mnemonic = .sax → t.cpu.toRegisters = s.cpu.toRegisters ∧
          AddressSpace.write a (s.cpu.a &&& s.cpu.x) d = (.ok (), t.bus))) := by
  obtain ⟨n, t, hstep⟩ := step_succeeds hserved hread hdecode
  obtain ⟨j, bytes, pointer, d, extra, u, hfetched, hrun, rfl⟩ := step_fetched hserved hstep
  obtain rfl := hfetched.instruction hread hdecode
  have hmode := Instruction.mode_of_combined (Instruction.mem_table_of_decode? hdecode) hcombined
  obtain ⟨a, ha⟩ := Instruction.exists_operand_eq_address hmode s.cpu bytes pointer
  rw [ha] at hrun
  refine ⟨bytes, pointer, a, d, hfetched, ha, fun hram => ⟨n, _, hstep, ?_, ?_⟩⟩
  · intro first second hparts
    rw [run_eq_inTurn hparts hram] at hrun
    exact ⟨extra, u, hrun, rfl, rfl⟩
  · intro hsax
    rw [hsax] at hrun
    have hstored : writeByte a (s.cpu.a &&& s.cpu.x) ⟨s.cpu.behind j, d⟩ = .ok () u :=
      run_performed hrun
    obtain ⟨hwrite, hu⟩ := writeByte_eq_ok.1 hstored
    refine ⟨?_, hwrite⟩
    show u.cpu.toRegisters = _
    rw [hu]
    rfl

/-- `RRA $00` at address zero : the instruction rotates its own opcode through the carry and adds
it. -/
theorem combined_eq_parts_own_opcode :
    let s : System (Memory 0x10000) :=
      ⟨{ Cpu.initial with a := 0x80, status := { Status.powerUp with carry := true } },
        (Memory.zeros _).write 0x0000 0x67⟩
    ∃ n t extra u, step s = .ok n t ∧
      inTurn Mnemonic.ror.action Mnemonic.adc.action (.address 0x0000)
        ⟨{ s.cpu with pc := 0x0002 }, s.bus⟩ = .ok extra u ∧
      t.cpu.toRegisters = u.cpu.toRegisters ∧ t.bus = u.bus := by
  intro s
  have hread : (AddressSpace.read s.cpu.pc s.bus).1 = .ok 0x67 := by rfl
  obtain ⟨bytes, pointer, a, d, ⟨-, b, hbytes, hpointer⟩, ha, hsame⟩ :=
    combined_eq_parts (s := s) (i := .hidden 0x67 .rra .zeroPage 5) rfl hread rfl (by decide)
  obtain ⟨hb, rfl⟩ := hbytes.unique (.cons rfl (.cons rfl (.nil s.bus)))
  obtain rfl := (List.cons.inj hb).2
  obtain ⟨rfl, rfl⟩ := hpointer.unique (.nil s.bus)
  obtain rfl : 0x0000 = a := Operand.address.inj (Eq.trans (by decide +kernel +zetaReduce) ha)
  obtain ⟨n, t, hstep, hparts, -⟩ := hsame (s.bus.ramAt _)
  obtain ⟨extra, u, hrun, hregs, hbus⟩ := hparts _ _ rfl
  exact ⟨n, t, extra, u, hstep, hrun, hregs, hbus⟩

end CpuM

end Famicom
