import Famicom.Cpu.Action
import Famicom.Cpu.OpcodeTable
import Famicom.Event

/-!
# One step

A step serves a pending request that the flags let through, or else runs one
instruction : the opcode is read and decoded, its operand located and its action
performed. The cycles are charged at the end, so a step that faults costs nothing.
An unknown opcode leaves the program counter in front of it.
-/

namespace Famicom

namespace CpuM

variable {β : Type} [AddressSpace β]

/-- Enter the handler of a request. A reset goes through the motions of pushing without
a write; the other two push the program counter and the flags. -/
def serve (request : Interrupt) : CpuM β Unit := do
  match request with
  | .reset => update fun c => { c with sp := c.sp - 3 }
  | .nmi | .irq =>
    let c ← cpu
    pushWord c.pc
    push c.status.interrupted.toByte
  enterHandler request

/-- Note where the instruction begins. -/
def beginStep : CpuM β Unit := update fun c => { c with origin := c.pc }

/-- Empty the latch and answer its request if the flags let it through. -/
def takeRequest : CpuM β (Option Interrupt) := do
  let request := (← cpu).served
  if request.isSome then
    update fun c => { c with pending := none }
  return request

/-- Read the opcode at the program counter and decode it. -/
def fetchInstruction : CpuM β Instruction := do
  let c ← cpu
  let opcode ← readByte c.pc
  match Instruction.decode? opcode with
  | some i => return i
  | none => throw (.unknownOpcode opcode c.origin)

/-- Run a decoded instruction, with the program counter at its opcode. The answer is its
whole cost. -/
def execute (i : Instruction) : CpuM β Nat := do
  update fun c => { c with pc := c.pc + 1 }
  let resolved ← i.mode.resolve
  let extra ← i.mnemonic.action.run resolved.operand
  return i.cycles + (if i.pagePenalty && resolved.crossed then 1 else 0) + extra

/-- Charge cycles and answer them. -/
def charge (cycles : Nat) : CpuM β Nat := do
  update fun c => c.stall cycles
  return cycles

/-- Serve a request or run one instruction. The answer is the number of cycles. -/
def step : CpuM β Nat := do
  beginStep
  match ← takeRequest with
  | some request =>
    serve request
    charge Interrupt.entryCycles
  | none => charge (← execute (← fetchInstruction))

/-! ## The report of a step -/

/-- The registers in front of an instruction, as reported. -/
def instructionEvent (c : Cpu) (i : Instruction) : Event :=
  .instruction c.pc i.opcode i.mnemonic.name c.a c.x c.y c.status.toByte c.sp c.cycles

/-- What a step reports : the instruction it runs, if it comes to run one. -/
def stepEvents (s : System β) : List Event :=
  if s.cpu.served.isSome then []
  else
    match fetchInstruction s with
    | .ok i _ => [instructionEvent s.cpu i]
    | .error .. => []

end CpuM

end Famicom
