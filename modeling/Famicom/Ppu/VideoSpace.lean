import Famicom.Bus
import Famicom.Cartridge

/-!
# The picture unit's address space

Fourteen bits address the pattern tables on the cartridge (from 0000), the
nametables (from 2000) and the palette (from 3F00). The nametables lie in the
console's own memory, folded as the cartridge wires them; without a cartridge they
are folded horizontally and the pattern tables are missing. Palette entries have six
bits, and the backdrop entries of the sprites are those of the background.
-/

namespace Famicom

/-- The palette cell of an address. -/
def paletteIndex (a : UInt16) : Nat :=
  let index := a.toNat % 32
  if 16 ≤ index ∧ index % 4 = 0 then index - 16 else index

theorem paletteIndex_lt (a : UInt16) : paletteIndex a < 32 := by
  simp only [paletteIndex]
  split <;> omega

/-- The memories that the picture unit reaches, with the cartridge in its slot. -/
structure VideoSpace where
  cartridge : Option Cartridge
  vram : Memory 0x1000
  palette : Memory 32

namespace VideoSpace

/-- Cleared memories and an empty slot. -/
def initial : VideoSpace := ⟨none, .zeros _, .zeros _⟩

/-- How the nametables are folded. -/
def mirroring (s : VideoSpace) : Mirroring :=
  match s.cartridge with
  | some c => c.mirroring
  | none => .horizontal

/-- A byte of the pattern tables. -/
def readPattern (s : VideoSpace) (a : UInt16) : UInt8 :=
  match s.cartridge with
  | some c => c.readChr a
  | none => 0

/-- Store a byte in the pattern tables. -/
def writePattern (s : VideoSpace) (a : UInt16) (value : UInt8) : VideoSpace :=
  { s with cartridge := s.cartridge.map fun c => c.writeChr a value }

/-- A byte of the nametables. -/
def readNametable (s : VideoSpace) (a : UInt16) : UInt8 :=
  s.vram.read (s.mirroring.nametableOffset a)

/-- Store a byte in the nametables. -/
def writeNametable (s : VideoSpace) (a : UInt16) (value : UInt8) : VideoSpace :=
  let offset := s.mirroring.nametableOffset a
  match s with
  | ⟨cartridge, vram, palette⟩ => ⟨cartridge, vram.write offset value, palette⟩

/-- A palette entry. -/
def readPalette (s : VideoSpace) (a : UInt16) : UInt8 := s.palette.read (paletteIndex a)

/-- Store a palette entry. -/
def writePalette (s : VideoSpace) (a : UInt16) (value : UInt8) : VideoSpace :=
  { s with palette := s.palette.write (paletteIndex a) (value &&& 0x3F) }

/-! ## Routes -/

/-- The routes of the memories inside the console, behind those of `bus`. -/
def withMemories (bus : Bus VideoSpace) : Bus VideoSpace :=
  bus
    |>.mapRead "nametables" 0x2000 0x3EFF (fun a s => (.ok (s.readNametable a), s))
    |>.mapWrite "nametables" 0x2000 0x3EFF (fun a value s => (.ok (), s.writeNametable a value))
    |>.mapRead "palette" 0x3F00 0x3FFF (fun a s => (.ok (s.readPalette a), s))
    |>.mapWrite "palette" 0x3F00 0x3FFF (fun a value s => (.ok (), s.writePalette a value))

/-- The bus while the slot is empty. -/
def emptySlotBus : Bus VideoSpace := withMemories (Bus.empty "ppu")

/-- The bus with a cartridge in the slot. -/
def cartridgeBus : Bus VideoSpace :=
  withMemories <| Bus.empty "ppu"
    |>.mapRead "chr" 0x0000 0x1FFF (fun a s => (.ok (s.readPattern a), s))
    |>.mapWrite "chr" 0x0000 0x1FFF (fun a value s => (.ok (), s.writePattern a value))

/-- The bus as the slot wires it. -/
def bus (s : VideoSpace) : Bus VideoSpace :=
  if s.cartridge.isSome then cartridgeBus else emptySlotBus

/-- Accesses go through the bus. -/
instance : AddressSpace VideoSpace where
  read a s := s.bus.read a s
  write a value s := s.bus.write a value s
  peek a s := s.bus.peek a s

/-- Put a cartridge into the slot, or empty it. The memories keep their contents. -/
def insert (s : VideoSpace) (cartridge : Option Cartridge) : VideoSpace := { s with cartridge }

end VideoSpace

end Famicom
