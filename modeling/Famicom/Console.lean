import Famicom.Board
import Famicom.Cpu.Step
import Famicom.Trace

/-!
# The console

A `Console` is the processor attached to the board. `step` lets the processor take
one step, makes the sprite transfer that the step may have requested, and moves the
beam by three dots for every cycle of both; an interrupt request of the picture unit
is then latched in the processor. A fault ends the step where it stands : the beam
does not move.

A transfer copies a page to sprite memory. All bytes are read before the first is
stored, and the processor is halted for 513 cycles, or for one more when the
transfer starts on an odd cycle.
-/

namespace Famicom

/-! ## Faults -/

/-- Why the console stopped. -/
inductive ConsoleFault where
  | cpu (fault : CpuFault)
  | cartridge (fault : CartridgeFault)
  /-- A byte of the page to transfer could not be read. -/
  | transfer (page : UInt8) (fault : BusFault)
  deriving DecidableEq, Repr

namespace ConsoleFault

/-- The text of the fault. -/
def message : ConsoleFault → String
  | .cpu fault => "CPU fault: " ++ fault.message
  | .cartridge fault => "cartridge rejected: " ++ fault.message
  | .transfer page fault => "OAM DMA from page $" ++ Text.hex8 page ++ " failed: " ++ fault.message

/-- The texts of the faults that led to this one, the nearest first. -/
def causes : ConsoleFault → List String
  | .cpu fault => fault.message :: fault.causes
  | .cartridge fault => fault.message :: fault.causes
  | .transfer _ fault => [fault.message]

/-- The report of the fault. That of the processor speaks for itself. -/
def event : ConsoleFault → Event
  | .cpu fault => .failure fault.message
  | fault => .failure fault.message

end ConsoleFault

/-! ## State -/

/-- The processor on the board. -/
abbrev Console := System Board

namespace Console

/-- The console before anything happened. -/
def initial : Console := ⟨.initial, .initial⟩

/-- The position of the beam, and the frames so far. -/
def beam (c : Console) : Beam := c.bus.ppu.beam

/-- Put a cartridge into the slot. -/
def insert (c : Console) (cartridge : Cartridge) : Console :=
  { c with bus := c.bus.insert cartridge }

/-- Read an image and put the cartridge into the slot. A refused image leaves the console
as it is. -/
def insertImage (c : Console) (image : ByteArray) : Except ConsoleFault Unit × Console :=
  match Cartridge.parse image with
  | .ok cartridge => (.ok (), c.insert cartridge)
  | .error fault => (.error (.cartridge fault), c)

/-- What inserting an image reports. -/
def insertEvents (image : ByteArray) : List Event :=
  Cartridge.parseEvents image ++
    match Cartridge.parse image with
    | .ok _ => []
    | .error fault => [(ConsoleFault.cartridge fault).event]

/-- Cold start. Cartridge, nametables, palette and controllers keep their contents. -/
def powerUp (c : Console) : Console where
  cpu := c.cpu.powerUp
  bus := { c.bus with ram := .zeros _, ppu := c.bus.ppu.powerUp, transferRequest := none }

/-- Press the reset button. -/
def reset (c : Console) : Console where
  cpu := c.cpu.reset
  bus := { c.bus with ppu := c.bus.ppu.reset, transferRequest := none }

/-! ## Sprite transfer -/

/-- Read `count` bytes from an address on, up to the first refusal. -/
def readBlock {β : Type} [AddressSpace β] : Nat → UInt16 → β → Except BusFault (List UInt8) × β
  | 0, _, s => (.ok [], s)
  | count + 1, a, s =>
    match AddressSpace.read a s with
    | (.error fault, s) => (.error fault, s)
    | (.ok value, s) =>
      match readBlock count (a + 1) s with
      | (.error fault, s) => (.error fault, s)
      | (.ok values, s) => (.ok (value :: values), s)

/-- The cycles that a transfer halts the processor for, when it starts at `cycles`. -/
def transferStall (cycles : Nat) : Nat := 513 + cycles % 2

/-- Copy a page to sprite memory. The answer is the number of cycles it takes. -/
def transfer (page : UInt8) : Console → Except ConsoleFault Nat × Console
  | ⟨cpu, board⟩ =>
    match readBlock 256 (word 0 page) board with
    | (.error fault, board) => (.error (.transfer page fault), ⟨cpu, board⟩)
    | (.ok bytes, board) =>
      let stall := transferStall cpu.cycles
      (.ok stall, ⟨cpu.stall stall, { board with ppu := bytes.foldl Ppu.writeOam board.ppu }⟩)

/-- Make the transfer that is requested, if there is one. -/
def serveTransfer (c : Console) : Except ConsoleFault Nat × Console :=
  match c.bus.transferRequest with
  | none => (.ok 0, c)
  | some page => transfer page { c with bus := { c.bus with transferRequest := none } }

/-! ## Steps -/

/-- The dots the beam moves in one cycle of the processor. -/
def dotsPerCycle : Nat := 3

/-- Let the picture unit catch up with a number of cycles, and latch its request. -/
def catchUp (cycles : Nat) : Console → Console
  | ⟨cpu, ⟨ram, ppu, controllers, request⟩⟩ =>
    match (ppu.ticks (cycles * dotsPerCycle)).takeInterrupt with
    | (requested, ppu) =>
      ⟨if requested then cpu.raise .nmi else cpu, ⟨ram, ppu, controllers, request⟩⟩

/-- One step of the processor, with all that follows from it. The answer is the number of
cycles. -/
def step (c : Console) : Except ConsoleFault Nat × Console :=
  match CpuM.step c with
  | .error fault c => (.error (.cpu fault), c)
  | .ok cycles c =>
    match serveTransfer c with
    | (.error fault, c) => (.error fault, c)
    | (.ok stall, c) => (.ok (cycles + stall), catchUp (cycles + stall) c)

/-- What follows the processor's step reports. -/
def aftermathEvents (cycles : Nat) (c : Console) : List Event :=
  match c.serveTransfer with
  | (.error fault, _) => [fault.event]
  | (.ok stall, after) =>
    (c.bus.transferRequest.map fun page => .spriteTransfer (word 0 page) stall).toList
      ++ after.bus.ppu.ticksEvents ((cycles + stall) * dotsPerCycle)

/-- What a step reports. -/
def stepEvents (c : Console) : List Event :=
  let recorded : System (Recorded Board) := ⟨c.cpu, ⟨c.bus, []⟩⟩
  CpuM.stepEvents c ++
    match CpuM.step recorded with
    | .error fault after =>
      c.bus.cycleEvents after.bus.cycles ++ [(ConsoleFault.cpu fault).event]
    | .ok cycles after =>
      c.bus.cycleEvents after.bus.cycles ++ aftermathEvents cycles ⟨after.cpu, after.bus.bus⟩

/-! ## Runs -/

/-- How a run went : the steps it completed, their cycles, the fault that ended it if one
did, and the console after it. -/
structure Run where
  steps : Nat
  cycles : Nat
  fault : Option ConsoleFault
  console : Console

/-- Continue a run while `going` holds, for at most `limit` steps. -/
def Run.continueWhile (going : Console → Bool) : (limit : Nat) → Run → Run
  | 0, r => r
  | limit + 1, r =>
    if going r.console then
      match r.console.step with
      | (.ok cycles, c) =>
        Run.continueWhile going limit ⟨r.steps + 1, r.cycles + cycles, none, c⟩
      | (.error fault, c) => ⟨r.steps, r.cycles, some fault, c⟩
    else r

/-- Step while `going` holds, for at most `limit` steps. -/
def runWhile (going : Console → Bool) (limit : Nat) (c : Console) : Run :=
  Run.continueWhile going limit ⟨0, 0, none, c⟩

/-- Put the reports of a run behind those in `done`, which are in reverse order. -/
def runEventsOnto (going : Console → Bool) (done : List Event) :
    (limit : Nat) → Console → List Event
  | 0, _ => done.reverse
  | limit + 1, c =>
    if going c then
      let done := c.stepEvents.reverse ++ done
      match c.step with
      | (.ok _, c) => runEventsOnto going done limit c
      | (.error _, _) => done.reverse
    else done.reverse

/-- What a run reports. -/
def runEvents (going : Console → Bool) (limit : Nat) (c : Console) : List Event :=
  runEventsOnto going [] limit c

/-- The beam is still in the frame of `c`. -/
def inFrameOf (c d : Console) : Bool := d.beam.frame == c.beam.frame

/-- More steps than a frame can take : each moves the beam by a dot at least. -/
def frameLimit : Nat := Beam.dotsPerFrame

/-- Step until the next frame begins. The answer is the number of cycles. -/
def runFrame (c : Console) : Except ConsoleFault Nat × Console :=
  let r := runWhile c.inFrameOf frameLimit c
  match r.fault with
  | some fault => (.error fault, r.console)
  | none => (.ok r.cycles, r.console)

/-- What running a frame reports. -/
def frameEvents (c : Console) : List Event := runEvents c.inFrameOf frameLimit c

/-! ## Traces -/

/-- The trace line of the next instruction. -/
def traceLine (c : Console) : String × Console :=
  match Trace.line c.cpu c.beam.scanline c.beam.dot c.bus with
  | (line, bus) => (line, { c with bus })

/-- A traced run : its lines, latest first, the fault that ended it if one did, and the
console after it. -/
structure TracedRun where
  reversedLines : List String
  fault : Option ConsoleFault
  console : Console

/-- The lines in the order of the run. -/
def TracedRun.lines (r : TracedRun) : List String := r.reversedLines.reverse

/-- Trace and step, `count` times or until a step fails, adding to the lines in `done`. -/
def traceRunOnto (done : List String) : (count : Nat) → Console → TracedRun
  | 0, c => ⟨done, none, c⟩
  | count + 1, c =>
    match c.traceLine with
    | (line, c) =>
      match c.step with
      | (.ok _, c) => traceRunOnto (line :: done) count c
      | (.error fault, c) => ⟨line :: done, some fault, c⟩

/-- Trace and step, `count` times or until a step fails. -/
def traceRun (count : Nat) (c : Console) : TracedRun := traceRunOnto [] count c

end Console

end Famicom
