import Famicom.AddressSpace
import Famicom.Cpu.Status
import Famicom.Word

/-!
# The processor

`Registers` is what the arithmetic works on. `Cpu` adds the program counter, the
cycles spent since power-up, the interrupt latch and the start of the current
instruction, which fault reports name.

The latch holds one request. A request replaces a pending one of lower priority
only (`raise`). A `System β` is a processor attached to an address space, and
`CpuM β` its actions : they may stop with a `CpuFault` and then leave the system
as it stands at that point. `readByte` and `writeByte` are the only actions that
reach the address space; the stack and the operand bytes go through them.
-/

namespace Famicom

/-! ## Interrupts -/

/-- The requests that divert the processor. -/
inductive Interrupt where
  | nmi
  | irq
  | reset
  deriving DecidableEq, Repr

namespace Interrupt

/-- Where the address of the handler is stored, low byte first. -/
def vector : Interrupt → UInt16
  | .nmi => 0xFFFA
  | .reset => 0xFFFC
  | .irq => 0xFFFE

/-- Of two requests the one of higher priority is served. -/
def priority : Interrupt → Nat
  | .reset => 2
  | .nmi => 1
  | .irq => 0

/-- The cost of entering a handler. -/
def entryCycles : Nat := 7

end Interrupt

/-! ## State -/

/-- The registers that instructions compute with. -/
structure Registers where
  a : UInt8
  x : UInt8
  y : UInt8
  sp : UInt8
  status : Status
  deriving DecidableEq, Repr

/-- The processor. -/
structure Cpu extends Registers where
  pc : UInt16
  /-- Cycles since power-up. -/
  cycles : Nat
  /-- The interrupt latch. -/
  pending : Option Interrupt
  /-- Where the current instruction began. -/
  origin : UInt16
  deriving DecidableEq, Repr

namespace Cpu

/-- A processor before its first power-up. -/
def initial : Cpu where
  a := 0
  x := 0
  y := 0
  sp := 0
  status := .powerUp
  pc := 0
  cycles := 0
  pending := none
  origin := 0

/-- Cold start : registers and cycles are cleared and a reset is latched. The program
counter is left to the reset. -/
def powerUp (c : Cpu) : Cpu :=
  { c with
    a := 0, x := 0, y := 0, sp := 0, status := .powerUp, cycles := 0, pending := some .reset }

/-- Latch a request unless one of at least its priority is pending. -/
def raise (c : Cpu) (request : Interrupt) : Cpu :=
  match c.pending with
  | some current =>
    if request.priority ≤ current.priority then c else { c with pending := some request }
  | none => { c with pending := some request }

/-- Press the reset button. -/
def reset (c : Cpu) : Cpu := c.raise .reset

/-- Charge cycles during which the processor is halted. -/
def stall (c : Cpu) (cycles : Nat) : Cpu := { c with cycles := c.cycles + cycles }

/-- A pending request that the flags let through. -/
def served (c : Cpu) : Option Interrupt :=
  match c.pending with
  | some .irq => if c.status.interruptDisable then none else some .irq
  | pending => pending

end Cpu

/-! ## Faults -/

/-- Why the processor stopped. -/
inductive CpuFault where
  /-- The byte at `pc` is no defined opcode. -/
  | unknownOpcode (opcode : UInt8) (pc : UInt16)
  /-- An access of the instruction that began at `pc` was refused. -/
  | bus (pc : UInt16) (fault : BusFault)
  deriving DecidableEq, Repr

namespace CpuFault

/-- The text of the fault. -/
def message : CpuFault → String
  | .unknownOpcode opcode pc =>
    "unknown opcode $" ++ Text.hex8 opcode ++ " at PC $" ++ Text.hex16 pc
  | .bus pc fault => "bus fault at PC $" ++ Text.hex16 pc ++ ": " ++ fault.message

/-- The texts of the faults that led to this one, the nearest first. -/
def causes : CpuFault → List String
  | .unknownOpcode .. => []
  | .bus _ fault => [fault.message]

end CpuFault

/-! ## Actions -/

/-- A processor and the address space it is attached to. -/
structure System (β : Type) where
  cpu : Cpu
  bus : β

/-- An action of the processor. A fault leaves the system as it stands. -/
abbrev CpuM (β : Type) := EStateM CpuFault (System β)

namespace CpuM

variable {β : Type}

/-- The processor as it is. -/
def cpu : CpuM β Cpu := fun s => .ok s.cpu s

/-- Change the processor. -/
def update (f : Cpu → Cpu) : CpuM β Unit
  | ⟨cpu, bus⟩ => .ok () ⟨f cpu, bus⟩

/-- Change the registers. -/
def compute (f : Registers → Registers) : CpuM β Unit :=
  update fun c => { c with toRegisters := f c.toRegisters }

/-- Continue at an address. -/
def jump (target : UInt16) : CpuM β Unit :=
  update fun c => { c with pc := target }

variable [AddressSpace β]

/-- Read a byte. A refusal is reported with the start of the instruction. -/
def readByte (a : UInt16) : CpuM β UInt8
  | ⟨cpu, bus⟩ =>
    match AddressSpace.read a bus with
    | (.ok value, bus) => .ok value ⟨cpu, bus⟩
    | (.error fault, bus) => .error (.bus cpu.origin fault) ⟨cpu, bus⟩

/-- Write a byte. A refusal is reported with the start of the instruction. -/
def writeByte (a : UInt16) (value : UInt8) : CpuM β Unit
  | ⟨cpu, bus⟩ =>
    match AddressSpace.write a value bus with
    | (.ok (), bus) => .ok () ⟨cpu, bus⟩
    | (.error fault, bus) => .error (.bus cpu.origin fault) ⟨cpu, bus⟩

/-- Read the word whose bytes are at `lo` and `hi`, in this order. -/
def readWord (lo hi : UInt16) : CpuM β UInt16 := do
  let l ← readByte lo
  let h ← readByte hi
  return word l h

/-- Read the byte at the program counter and step over it. -/
def fetchByte : CpuM β UInt8 := do
  let value ← readByte (← cpu).pc
  update fun c => { c with pc := c.pc + 1 }
  return value

/-- Read the word at the program counter and step over it. -/
def fetchWord : CpuM β UInt16 := do
  let lo ← fetchByte
  let hi ← fetchByte
  return word lo hi

/-! ## The stack -/

/-- The stack cell that a stack pointer names. -/
def stackAddress (sp : UInt8) : UInt16 := word sp 0x01

/-- Store a byte on the stack; the pointer moves once the byte is stored. -/
def push (value : UInt8) : CpuM β Unit := do
  writeByte (stackAddress (← cpu).sp) value
  update fun c => { c with sp := c.sp - 1 }

/-- Take a byte off the stack; the pointer moves before the byte is read. -/
def pull : CpuM β UInt8 := do
  update fun c => { c with sp := c.sp + 1 }
  readByte (stackAddress (← cpu).sp)

/-- Push a word, high byte first. -/
def pushWord (w : UInt16) : CpuM β Unit := do
  push (highByte w)
  push (lowByte w)

/-- Pull a word, low byte first. -/
def pullWord : CpuM β UInt16 := do
  let lo ← pull
  let hi ← pull
  return word lo hi

end CpuM

end Famicom
