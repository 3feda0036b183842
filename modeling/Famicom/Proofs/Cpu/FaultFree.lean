import Famicom.Proofs.Cpu.Closure
import Famicom.Proofs.Cpu.Fetch

/-!
# Steps without faults

A step has two ways to fail : an access is refused, or a byte is no opcode. On a bus that
answers every access (`FaultFree`) only the second one is left. Every action that is made of
accesses and of changes of the processor comes to its end there (`Succeeds`), so a step does
whenever it finds an instruction (`step_succeeds`); at any other byte it stops, and says which
byte that is and where (`step_unknownOpcode`).
-/

namespace Famicom

variable {β : Type} [AddressSpace β]

/-- The byte at an address, zero if the bus refuses to read it. -/
def byteAt (b : β) (a : UInt16) : UInt8 :=
  match (AddressSpace.read a b).1 with
  | .ok value => value
  | .error _ => 0

/-- The operand bytes of an instruction at `a`. -/
def Instruction.operandBytes (i : Instruction) (a : UInt16) (b : β) : List UInt8 :=
  (addressesFrom (a + 1) i.mode.operandSize).map (byteAt b)

/-- Devices that answer every access. -/
class FaultFree (β : Type) [AddressSpace β] : Prop where
  read : ∀ (a : UInt16) (b : β), ∃ value c, AddressSpace.read a b = (.ok value, c)
  write : ∀ (a : UInt16) (value : UInt8) (b : β), ∃ c, AddressSpace.write a value b = (.ok (), c)

instance : FaultFree (Memory 0x10000) where
  read _ _ := ⟨_, _, rfl⟩
  write _ _ _ := ⟨_, rfl⟩

theorem read_eq_byteAt [FaultFree β] (a : UInt16) (b : β) :
    (AddressSpace.read a b).1 = .ok (byteAt b a) := by
  obtain ⟨value, c, hread⟩ := FaultFree.read a b
  simp [byteAt, hread]

namespace CpuM

variable {α γ : Type}

/-- The action comes to its end wherever it starts. -/
def Succeeds (m : CpuM β α) : Prop := ∀ s, ∃ a t, m s = .ok a t

namespace Succeeds

omit [AddressSpace β] in
theorem seq {m : CpuM β α} {f : α → CpuM β γ} (hm : Succeeds m) (hf : ∀ a, Succeeds (f a)) :
    Succeeds (m >>= f) := by
  intro s
  obtain ⟨a, t, hmt⟩ := hm s
  obtain ⟨c, u, hfu⟩ := hf a t
  exact ⟨c, u, bind_eq_ok.2 ⟨a, t, hmt, hfu⟩⟩

omit [AddressSpace β] in
theorem pure (a : α) : Succeeds (Pure.pure a : CpuM β α) := fun _ => ⟨_, _, rfl⟩

omit [AddressSpace β] in
theorem cpu : Succeeds (cpu : CpuM β Cpu) := fun _ => ⟨_, _, rfl⟩

omit [AddressSpace β] in
theorem update (f : Cpu → Cpu) : Succeeds (update f : CpuM β Unit) := fun _ => ⟨_, _, rfl⟩

variable [FaultFree β]

theorem readByte (a : UInt16) : Succeeds (readByte a : CpuM β UInt8) := by
  intro s
  obtain ⟨value, c, hread⟩ := FaultFree.read a s.bus
  exact ⟨value, ⟨s.cpu, c⟩, readByte_eq_ok.2 ⟨hread, rfl⟩⟩

theorem writeByte (a : UInt16) (value : UInt8) : Succeeds (writeByte a value : CpuM β Unit) := by
  intro s
  obtain ⟨c, hwrite⟩ := FaultFree.write a value s.bus
  exact ⟨(), ⟨s.cpu, c⟩, writeByte_eq_ok.2 ⟨hwrite, rfl⟩⟩

theorem actionClosed : ActionClosed fun _ (m _ : CpuM β _) => Succeeds m where
  pure := pure
  seq := seq
  cpu := cpu
  readByte := readByte
  update := update
  writeByte := writeByte

end Succeeds

/-! ## What a step finds -/

theorem readByte_begun {s : System β} {opcode : UInt8}
    (h : (AddressSpace.read s.cpu.pc s.bus).1 = .ok opcode) :
    readByte s.cpu.pc ⟨begun s.cpu, s.bus⟩ =
      .ok opcode ⟨begun s.cpu, (AddressSpace.read s.cpu.pc s.bus).2⟩ :=
  readByte_eq_ok.2 ⟨Prod.ext h rfl, rfl⟩

/-- A step ends well if it finds an instruction. -/
theorem step_succeeds [FaultFree β] {s : System β} {opcode : UInt8} {i : Instruction}
    (hserved : s.cpu.served = none)
    (hread : (AddressSpace.read s.cpu.pc s.bus).1 = .ok opcode)
    (hdecode : Instruction.decode? opcode = some i) : ∃ n t, step s = .ok n t := by
  obtain ⟨n, t, hexecute⟩ :=
    Succeeds.actionClosed.execute i ⟨begun s.cpu, (AddressSpace.read s.cpu.pc s.bus).2⟩
  refine ⟨n, ⟨t.cpu.stall n, t.bus⟩, step_eq_ok.2 ⟨t, ?_, rfl⟩⟩
  rw [hserved]
  exact bind_eq_ok.2
    ⟨i, _, fetchInstruction_eq_ok.2 ⟨opcode, readByte_begun hread, hdecode⟩, hexecute⟩

/-- A step stops at a byte that is no opcode, and its report names the byte and the place. -/
theorem step_unknownOpcode {s : System β} {opcode : UInt8} (hserved : s.cpu.served = none)
    (hread : (AddressSpace.read s.cpu.pc s.bus).1 = .ok opcode)
    (hdecode : Instruction.decode? opcode = none) :
    ∃ t, step s = .error (.unknownOpcode opcode s.cpu.pc) t := by
  have hfetch : fetchInstruction ⟨begun s.cpu, s.bus⟩ = .error (.unknownOpcode opcode s.cpu.pc)
      ⟨begun s.cpu, (AddressSpace.read s.cpu.pc s.bus).2⟩ := by
    rw [fetchInstruction, cpu_bind]
    refine (bind_of_ok (readByte_begun hread) _).trans ?_
    simp only [hdecode]
    rfl
  refine ⟨⟨begun s.cpu, (AddressSpace.read s.cpu.pc s.bus).2⟩, ?_⟩
  rw [step_eq, hserved]
  exact bind_of_error (bind_of_error hfetch _) _

end CpuM

end Famicom
