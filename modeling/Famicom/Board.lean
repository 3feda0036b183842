import Famicom.Controller
import Famicom.Ppu.Basic

/-!
# The board

`Board` holds everything the processor reaches, and its bus says where :

    0000-1FFF  work RAM of 2 KiB
    2000-3FFF  the eight registers of the picture unit
    4000-4013  sound channels; they read as zero and ignore writes
    4014       sprite transfer; a write requests the copy of a page
    4015       sound status; reads as zero and ignores writes
    4016       first controller; a write sets the strobe
    4017       second controller; a write goes to the sound unit and is ignored
    4018-401F  test mode; ignores writes
    6000-7FFF  PRG RAM of the cartridge
    8000-FFFF  PRG ROM of the cartridge; ignores writes

Every other access faults, and so do the last two ranges while the slot is empty.
The cartridge is shared with the picture unit, so its slot is found there.
-/

namespace Famicom

/-- The devices on the processor's bus. -/
structure Board where
  ram : Memory 0x800
  ppu : Ppu
  controllers : ControllerPair
  /-- The page to copy to sprite memory once the present instruction is done. -/
  transferRequest : Option UInt8

namespace Board

/-- The board before anything happened, with an empty slot. -/
def initial : Board := ⟨.zeros _, .initial, {}, none⟩

/-- The cartridge in the slot. -/
def cartridge (b : Board) : Option Cartridge := b.ppu.video.cartridge

/-- Put a cartridge into the slot. Everything else stays as it is. -/
def insert (b : Board) (cartridge : Cartridge) : Board :=
  { b with ppu := { b.ppu with video := b.ppu.video.insert (some cartridge) } }

/-! ## Devices -/

/-- A byte of work RAM. -/
def readRam (a : UInt16) (b : Board) : Except BusFault UInt8 × Board :=
  (.ok (b.ram.read a.toNat), b)

/-- Store a byte of work RAM. -/
def writeRam (a : UInt16) (value : UInt8) : Board → Except BusFault Unit × Board
  | ⟨ram, ppu, controllers, request⟩ =>
    (.ok (), ⟨ram.write a.toNat value, ppu, controllers, request⟩)

/-- Read a register of the picture unit. -/
def readPpu (a : UInt16) : Board → Except BusFault UInt8 × Board
  | ⟨ram, ppu, controllers, request⟩ =>
    match ppu.read (.ofAddress a) with
    | (outcome, ppu) => (outcome, ⟨ram, ppu, controllers, request⟩)

/-- Write a register of the picture unit. -/
def writePpu (a : UInt16) (value : UInt8) : Board → Except BusFault Unit × Board
  | ⟨ram, ppu, controllers, request⟩ =>
    match ppu.write (.ofAddress a) value with
    | (outcome, ppu) => (outcome, ⟨ram, ppu, controllers, request⟩)

/-- A location that reads as zero. -/
def readSilence (_ : UInt16) (b : Board) : Except BusFault UInt8 × Board := (.ok 0, b)

/-- A location that ignores writes. -/
def ignoreWrite (_ : UInt16) (_ : UInt8) (b : Board) : Except BusFault Unit × Board := (.ok (), b)

/-- Request the transfer of a page. -/
def requestTransfer (_ : UInt16) (page : UInt8) (b : Board) : Except BusFault Unit × Board :=
  (.ok (), { b with transferRequest := some page })

/-- Read a controller. -/
def readController (a : UInt16) : Board → Except BusFault UInt8 × Board
  | ⟨ram, ppu, controllers, request⟩ =>
    match controllers.read a with
    | (value, controllers) => (.ok value, ⟨ram, ppu, controllers, request⟩)

/-- Set the strobe of the controllers. -/
def writeStrobe (_ : UInt16) (value : UInt8) (b : Board) : Except BusFault Unit × Board :=
  (.ok (), { b with controllers := b.controllers.writeStrobe value })

/-- A byte of the cartridge, or zero without one. -/
def readCartridge (f : Cartridge → UInt16 → UInt8) (a : UInt16) (b : Board) :
    Except BusFault UInt8 × Board :=
  (.ok ((b.cartridge.map fun c => f c a).getD 0), b)

/-- Store a byte of PRG RAM. -/
def writePrgRam (a : UInt16) (value : UInt8) (b : Board) : Except BusFault Unit × Board :=
  (.ok (), (b.cartridge.map fun c => b.insert (c.writePrgRam a value)).getD b)

/-! ## Routes -/

/-- The bus while the slot is empty. -/
def emptySlotBus : Bus Board :=
  Bus.empty "cpu"
    |>.mapRead "ram" 0x0000 0x1FFF readRam
    |>.mapWrite "ram" 0x0000 0x1FFF writeRam
    |>.mapVolatile "ppu" 0x2000 0x3FFF readPpu
    |>.mapWrite "ppu" 0x2000 0x3FFF writePpu
    |>.mapRead "apu" 0x4000 0x4015 readSilence
    |>.mapWrite "apu" 0x4000 0x4013 ignoreWrite
    |>.mapWrite "apu" 0x4015 0x4015 ignoreWrite
    |>.mapWrite "apu" 0x4017 0x4017 ignoreWrite
    |>.mapWrite "test-mode" 0x4018 0x401F ignoreWrite
    |>.mapWrite "oam-dma" 0x4014 0x4014 requestTransfer
    |>.mapVolatile "joypad" 0x4016 0x4017 readController
    |>.mapWrite "joypad" 0x4016 0x4016 writeStrobe

/-- The bus with a cartridge in the slot. -/
def cartridgeBus : Bus Board :=
  emptySlotBus
    |>.mapRead "prg-ram" 0x6000 0x7FFF (readCartridge Cartridge.readPrgRam)
    |>.mapWrite "prg-ram" 0x6000 0x7FFF writePrgRam
    |>.mapRead "prg-rom" 0x8000 0xFFFF (readCartridge Cartridge.readPrg)
    |>.mapWrite "prg-rom" 0x8000 0xFFFF ignoreWrite

/-- The bus as the slot wires it. -/
def bus (b : Board) : Bus Board := if b.cartridge.isSome then cartridgeBus else emptySlotBus

/-- Accesses go through the bus. -/
instance : AddressSpace Board where
  read a b := b.bus.read a b
  write a value b := b.bus.write a value b
  peek a b := b.bus.peek a b

/-- What a write reports : one to a register of the picture unit with the position of the beam,
one to PRG ROM as dropped. -/
def writeEvents (b : Board) (a : UInt16) (value : UInt8) : List Event :=
  if 0x2000 ≤ a ∧ a ≤ 0x3FFF then [b.ppu.writeEvent a value]
  else if 0x8000 ≤ a ∧ b.cartridge.isSome then [.romWriteDropped a value]
  else []

/-- What bus cycles report that start from this board and let the beam stand. -/
def cycleEvents (b : Board) (cycles : List BusCycle) : List Event :=
  cycles.flatMap fun
    | .write a value _ => b.writeEvents a value
    | .read .. => []

end Board

end Famicom
