import Famicom.Cpu.Addressing
import Famicom.Cpu.Arithmetic

/-!
# What mnemonics do

Every mnemonic is one of a dozen kinds of `Action`, and the kind alone decides which
accesses the instruction makes once its operand is located : a `load` reads it, a
`store` writes it, a `modify` reads and writes it, an `adjust` or a `branch`
touches nothing, the others work on the stack. The computation of an action is data
of the constructor and has no access to the bus. `Action.run` performs an action
and answers the cycles it adds to the base cost, which only branches do.
-/

namespace Famicom

/-- The kinds of operations, with what they compute. -/
inductive Action where
  /-- Read the operand and take it into the registers. -/
  | load (use : Registers → UInt8 → Registers)
  /-- Write a value computed from the registers to the operand. -/
  | store (value : Registers → UInt8)
  /-- Change the operand in place, then take the new value into the registers. -/
  | modify (change : ByteOp) (use : Registers → UInt8 → Registers)
  /-- Change the registers alone. -/
  | adjust (f : Registers → Registers)
  /-- Continue at the operand if the flags say so. -/
  | branch (taken : Status → Bool)
  /-- Continue at the operand. -/
  | jump
  /-- Push the address of the last byte of the instruction and continue at the operand. -/
  | call
  /-- Pull an address and continue behind it. -/
  | ret
  /-- Pull the flags and the address to continue at. -/
  | retInterrupt
  /-- Enter the interrupt handler by instruction. -/
  | trap
  /-- Push a value computed from the registers. -/
  | push (value : Registers → UInt8)
  /-- Pull a value and take it into the registers. -/
  | pull (use : Registers → UInt8 → Registers)

namespace Action

/-- Leave the registers as they are. -/
def ignore (r : Registers) (_ : UInt8) : Registers := r

/-- A change of the operand that the registers do not see. -/
def inPlace (change : ByteOp) : Action := .modify change ignore

/-- A change of the X register. -/
def onX (change : UInt8 → UInt8) : Action := .adjust fun r => r.setX (change r.x)

/-- A change of the Y register. -/
def onY (change : UInt8 → UInt8) : Action := .adjust fun r => r.setY (change r.y)

/-- A change of the flags. -/
def onFlags (change : Status → Status) : Action :=
  .adjust fun r => { r with status := change r.status }

end Action

/-- The action of a mnemonic. -/
def Mnemonic.action : Mnemonic → Action
  | .lda => .load Registers.setA
  | .ldx => .load Registers.setX
  | .ldy => .load Registers.setY
  | .lax => .load fun r value => { r with x := value }.setA value
  | .adc => .load Registers.add
  | .sbc => .load Registers.subtract
  | .and => .load fun r value => r.setA (r.a &&& value)
  | .ora => .load fun r value => r.setA (r.a ||| value)
  | .eor => .load fun r value => r.setA (r.a ^^^ value)
  | .cmp => .load Registers.compareA
  | .cpx => .load Registers.compareX
  | .cpy => .load Registers.compareY
  | .bit => .load Registers.testBits
  | .nop => .load Action.ignore
  | .sta => .store fun r => r.a
  | .stx => .store fun r => r.x
  | .sty => .store fun r => r.y
  | .sax => .store fun r => r.a &&& r.x
  | .asl => .inPlace .shiftLeft
  | .lsr => .inPlace .shiftRight
  | .rol => .inPlace .rotateLeft
  | .ror => .inPlace .rotateRight
  | .inc => .inPlace .increment
  | .dec => .inPlace .decrement
  | .dcp => .modify .decrement Registers.compareA
  | .isc => .modify .increment Registers.subtract
  | .slo => .modify .shiftLeft fun r value => r.setA (r.a ||| value)
  | .rla => .modify .rotateLeft fun r value => r.setA (r.a &&& value)
  | .sre => .modify .shiftRight fun r value => r.setA (r.a ^^^ value)
  | .rra => .modify .rotateRight Registers.add
  | .inx => .onX (· + 1)
  | .dex => .onX (· - 1)
  | .iny => .onY (· + 1)
  | .dey => .onY (· - 1)
  | .tax => .adjust fun r => r.setX r.a
  | .tay => .adjust fun r => r.setY r.a
  | .tsx => .adjust fun r => r.setX r.sp
  | .txa => .adjust fun r => r.setA r.x
  | .tya => .adjust fun r => r.setA r.y
  | .txs => .adjust fun r => { r with sp := r.x }
  | .clc => .onFlags fun s => { s with carry := false }
  | .cld => .onFlags fun s => { s with decimal := false }
  | .cli => .onFlags fun s => { s with interruptDisable := false }
  | .clv => .onFlags fun s => { s with overflow := false }
  | .sec => .onFlags fun s => { s with carry := true }
  | .sed => .onFlags fun s => { s with decimal := true }
  | .sei => .onFlags Status.masking
  | .bcc => .branch fun s => !s.carry
  | .bcs => .branch fun s => s.carry
  | .bne => .branch fun s => !s.zero
  | .beq => .branch fun s => s.zero
  | .bpl => .branch fun s => !s.negative
  | .bmi => .branch fun s => s.negative
  | .bvc => .branch fun s => !s.overflow
  | .bvs => .branch fun s => s.overflow
  | .jmp => .jump
  | .jsr => .call
  | .rts => .ret
  | .rti => .retInterrupt
  | .brk => .trap
  | .pha => .push fun r => r.a
  | .php => .push fun r => r.status.pushed.toByte
  | .pla => .pull Registers.setA
  | .plp => .pull fun r value => { r with status := .restored value }

namespace Operand

variable {β : Type} [AddressSpace β]

open CpuM

/-- The byte the operand holds. An implied operand holds zero. -/
def load : Operand → CpuM β UInt8
  | .implied => return 0
  | .accumulator => return (← cpu).a
  | .address a => readByte a

/-- Replace the byte the operand holds. An implied operand holds nothing. -/
def store (value : UInt8) : Operand → CpuM β Unit
  | .implied => return ()
  | .accumulator => update fun c => { c with a := value }
  | .address a => writeByte a value

end Operand

namespace CpuM

variable {β : Type} [AddressSpace β]

/-- Mask interrupt requests and continue at the handler of one. -/
def enterHandler (request : Interrupt) : CpuM β Unit := do
  compute fun r => { r with status := r.status.masking }
  jump (← readWord request.vector (request.vector + 1))

end CpuM

namespace Action

variable {β : Type} [AddressSpace β]

open CpuM

/-- The cycles that a taken branch costs : one, and one more if it leaves the page of the
next instruction. -/
def branchCycles (next target : UInt16) : Nat := if samePage next target then 1 else 2

/-- Perform an action on a located operand, with the program counter behind the
instruction. The answer is its cost beyond the base cost. -/
def run (operand : Operand) : Action → CpuM β Nat
  | .load use => do
    let value ← operand.load
    compute fun r => use r value
    return 0
  | .store value => do
    operand.store (value (← cpu).toRegisters)
    return 0
  | .modify change use => do
    let (value, status) := change (← operand.load) (← cpu).status
    update fun c => { c with status }
    operand.store value
    compute fun r => use r value
    return 0
  | .adjust f => do
    compute f
    return 0
  | .branch taken => do
    let c ← cpu
    if taken c.status then
      CpuM.jump operand.target
      return branchCycles c.pc operand.target
    else
      return 0
  | .jump => do
    CpuM.jump operand.target
    return 0
  | .call => do
    pushWord ((← cpu).pc - 1)
    CpuM.jump operand.target
    return 0
  | .ret => do
    CpuM.jump ((← pullWord) + 1)
    return 0
  | .retInterrupt => do
    let value ← CpuM.pull
    compute fun r => { r with status := .restored value }
    CpuM.jump (← pullWord)
    return 0
  | .trap => do
    let c ← cpu
    pushWord (c.pc + 1)
    CpuM.push c.status.pushed.toByte
    enterHandler .irq
    return 0
  | .push value => do
    CpuM.push (value (← cpu).toRegisters)
    return 0
  | .pull use => do
    let value ← CpuM.pull
    compute fun r => use r value
    return 0

end Action

end Famicom
