import Famicom.Ppu.Beam
import Famicom.Ppu.Registers
import Famicom.Ppu.VideoSpace

/-!
# The picture unit

`Ppu` has the registers, the sprite memory, the beam and its own address space. The
processor reaches it through eight registers (`read`, `write`); every value that passes
stays on the data lines (`latch`) and is what a register that cannot be read answers.
The data register delivers memory one read late, from a buffer, except for the palette.

`tick` moves the beam by one dot. It starts and ends the vertical blank and, while
the picture is rendered, moves the scroll position. An interrupt request waits until
it is taken by `takeInterrupt`.
-/

namespace Famicom

/-- The registers of the picture unit that the processor addresses. -/
inductive PpuRegister where
  | control
  | mask
  | status
  | oamAddress
  | oamData
  | scroll
  | address
  | data
  deriving DecidableEq, Repr

/-- The register that the three low bits of an address select. -/
def PpuRegister.ofAddress (a : UInt16) : PpuRegister :=
  match a.toNat % 8 with
  | 0 => .control
  | 1 => .mask
  | 2 => .status
  | 3 => .oamAddress
  | 4 => .oamData
  | 5 => .scroll
  | 6 => .address
  | _ => .data

/-- The picture unit. -/
structure Ppu where
  regs : PpuRegisters
  /-- The sprite memory. -/
  oam : Memory 256
  /-- What the next read of the data register delivers. -/
  buffer : UInt8
  /-- The last value on the data lines. -/
  latch : UInt8
  beam : Beam
  /-- An interrupt is requested. -/
  requesting : Bool
  video : VideoSpace

/-- The scroll position follows the beam : a column on every eighth dot of a fetch, a row
at the end of the picture, and behind it back to the latched column. The last line also
goes back to the latched row. -/
def PpuRegisters.follow (r : PpuRegisters) (b : Beam) : PpuRegisters :=
  if (1 ≤ b.dot ∧ b.dot ≤ 256) ∨ b.dot = 328 ∨ b.dot = 336 then
    let r := if b.dot % 8 = 0 then r.nextColumn else r
    if b.dot = 256 then r.nextRow else r
  else if b.dot = 257 then r.copyHorizontal
  else if b.scanline = Beam.lastLine ∧ 280 ≤ b.dot ∧ b.dot ≤ 304 then r.copyVertical
  else r

namespace Ppu

/-- A picture unit with this address space and all else cleared. -/
def fresh (video : VideoSpace) : Ppu where
  regs := .initial
  oam := .zeros _
  buffer := 0
  latch := 0
  beam := .start
  requesting := false
  video := video

/-- A picture unit before anything happened. -/
def initial : Ppu := fresh .initial

/-- Cold start. The memories of the address space keep their contents. -/
def powerUp (p : Ppu) : Ppu := fresh p.video

/-- The reset line clears control and mask, the latched scroll position, the buffer and
the request. Status, sprite memory and beam survive. -/
def reset (p : Ppu) : Ppu :=
  { p with
    regs := { p.regs with
      control := 0
      mask := 0
      secondWrite := false
      latched := .origin
      fineX := 0 }
    buffer := 0
    requesting := false }

/-! ## Access by the processor -/

/-- Answer a value and leave it on the data lines. -/
def drive (p : Ppu) (value : UInt8) : Except BusFault UInt8 × Ppu :=
  (.ok value, { p with latch := value })

/-- Read at the current address. Memory is delivered from the buffer, which takes the
byte at the address; a palette entry is delivered at once, and the buffer takes the
nametable byte beneath it. What is refused are pattern addresses with an empty slot, and that
leaves the address and the buffer as they are. -/
def readData (p : Ppu) : Except BusFault UInt8 × Ppu :=
  let a := p.regs.current.busAddress
  if 0x3F00 ≤ a then
    match AddressSpace.read (a - 0x1000) p.video with
    | (.error fault, video) => (.error fault, { p with video })
    | (.ok beneath, video) =>
      match AddressSpace.read a video with
      | (.error fault, video) => (.error fault, { p with video, buffer := beneath })
      | (.ok value, video) =>
        (.ok value, { p with video, buffer := beneath, regs := p.regs.advance })
  else
    match AddressSpace.read a p.video with
    | (.error fault, video) => (.error fault, { p with video })
    | (.ok value, video) =>
      (.ok p.buffer, { p with video, buffer := value, regs := p.regs.advance })

/-- Write at the current address. -/
def writeData (p : Ppu) (value : UInt8) : Except BusFault Unit × Ppu :=
  match AddressSpace.write p.regs.current.busAddress value p.video with
  | (.error fault, video) => (.error fault, { p with video })
  | (.ok (), video) => (.ok (), { p with video, regs := p.regs.advance })

/-- Store a byte of sprite memory at its address and step on. -/
def writeOam (p : Ppu) (value : UInt8) : Ppu :=
  { p with
    oam := p.oam.write p.regs.oamAddress.toNat value
    regs := { p.regs with oamAddress := p.regs.oamAddress + 1 } }

/-- Write the control register. Enabling the interrupt during the vertical blank requests
one at once. -/
def writeControl (p : Ppu) (value : UInt8) : Ppu :=
  let regs := p.regs.writeControl value
  { p with
    regs
    requesting := p.requesting
      || (!p.regs.interruptEnabled && regs.interruptEnabled && regs.status.verticalBlank) }

/-- Read a register. -/
def read (p : Ppu) : PpuRegister → Except BusFault UInt8 × Ppu
  | .status =>
    match p.regs.readStatus with
    | (status, regs) => { p with regs }.drive (status.toByte ||| (p.latch &&& 0x1F))
  | .oamData => p.drive (p.oam.read p.regs.oamAddress.toNat)
  | .data =>
    match p.readData with
    | (.ok value, p) => p.drive value
    | (.error fault, p) => (.error fault, p)
  | .control | .mask | .oamAddress | .scroll | .address => p.drive p.latch

/-- Write a register. The value stays on the data lines even if the write is refused. -/
def write (p : Ppu) (register : PpuRegister) (value : UInt8) : Except BusFault Unit × Ppu :=
  let p := { p with latch := value }
  match register with
  | .control => (.ok (), p.writeControl value)
  | .mask => (.ok (), { p with regs := { p.regs with mask := value } })
  | .status => (.ok (), p)
  | .oamAddress => (.ok (), { p with regs := { p.regs with oamAddress := value } })
  | .oamData => (.ok (), p.writeOam value)
  | .scroll => (.ok (), { p with regs := p.regs.writeScroll value })
  | .address => (.ok (), { p with regs := p.regs.writeAddress value })
  | .data => p.writeData value

/-- The report of a write to a register. -/
def writeEvent (p : Ppu) (a : UInt16) (value : UInt8) : Event :=
  .registerWrite (0x2000 ||| (a &&& 7)) value p.beam.scanline p.beam.dot

/-- Read the address space past the buffer, at an address cut to fourteen bits. -/
def readVram (p : Ppu) (a : UInt16) : Except BusFault UInt8 × Ppu :=
  match AddressSpace.read (a &&& 0x3FFF) p.video with
  | (outcome, video) => (outcome, { p with video })

/-! ## Time -/

/-- The vertical blank begins, and requests an interrupt if that is enabled. -/
def enterBlank (p : Ppu) : Ppu :=
  { p with
    regs := { p.regs with status := { p.regs.status with verticalBlank := true } }
    requesting := p.requesting || p.regs.interruptEnabled }

/-- The vertical blank ends, and with it what the status reported of the frame. -/
def leaveBlank (p : Ppu) : Ppu := { p with regs := { p.regs with status := .clear } }

/-- Move the beam by one dot. -/
def tick (p : Ppu) : Ppu :=
  let rendering := p.regs.rendering
  let beam := p.beam.advance rendering
  let p := { p with beam }
  let p :=
    if beam.entersBlank then p.enterBlank
    else if beam.leavesBlank then p.leaveBlank
    else p
  if rendering && beam.fetching then { p with regs := p.regs.follow beam } else p

/-- Move the beam by a number of dots. -/
def ticks : Nat → Ppu → Ppu
  | 0, p => p
  | n + 1, p => ticks n p.tick

/-- The report of the tick that led here. -/
def tickEvent? (p : Ppu) : Option Event :=
  if p.beam.entersBlank then some (.verticalBlank p.beam.frame p.requesting) else none

/-- Put the reports of the next ticks behind those in `done`, which are in reverse order. -/
def ticksEventsOnto (done : List Event) : Nat → Ppu → List Event
  | 0, _ => done.reverse
  | n + 1, p =>
    let p := p.tick
    ticksEventsOnto (p.tickEvent?.toList ++ done) n p

/-- The reports of the next ticks. -/
def ticksEvents (n : Nat) (p : Ppu) : List Event := ticksEventsOnto [] n p

/-- Take the request for an interrupt, if there is one. -/
def takeInterrupt (p : Ppu) : Bool × Ppu := (p.requesting, { p with requesting := false })

end Ppu

end Famicom
