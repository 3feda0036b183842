import Famicom.Event
import Famicom.Memory

/-!
# Cartridges

A cartridge image is a header of 16 bytes, an optional trainer of 512 bytes, the
PRG ROM in banks of 16 KiB and the CHR ROM in banks of 8 KiB. An image without CHR
banks is a board with 8 KiB of CHR RAM. Every board has 8 KiB of PRG RAM and is
mapped directly : PRG ROM fills the upper half of the processor's addresses and
CHR the pattern tables, both repeated as often as they fit.

`Cartridge.parse` reads an image or says why it is refused, the first of the causes
in the order of the image. `Mirroring` says how the four nametables share memory.
-/

namespace Famicom

/-! ## Mirroring -/

/-- How a board folds the four nametables. -/
inductive Mirroring where
  | horizontal
  | vertical
  | fourScreen
  deriving DecidableEq, Repr

namespace Mirroring

/-- The name in reports. -/
def name : Mirroring → String
  | .horizontal => "Horizontal"
  | .vertical => "Vertical"
  | .fourScreen => "FourScreen"

/-- The physical table behind one of the four nametables. Horizontal boards share one
between neighbours, vertical ones between the table above and the one below. -/
def table (m : Mirroring) (nametable : Nat) : Nat :=
  match m with
  | .horizontal => nametable / 2
  | .vertical => nametable % 2
  | .fourScreen => nametable

/-- The offset in nametable memory of an address in the nametable range. -/
def nametableOffset (m : Mirroring) (a : UInt16) : Nat :=
  let offset := a.toNat % 0x1000
  m.table (offset / 0x400) * 0x400 + offset % 0x400

/-- Four tables of 1 KiB hold every offset. -/
theorem nametableOffset_lt (m : Mirroring) (a : UInt16) : m.nametableOffset a < 0x1000 := by
  cases m <;> simp only [nametableOffset, table] <;> omega

end Mirroring

/-! ## Bytes of an image -/

/-- The byte at an index modulo the size, or zero if there are no bytes. -/
def cyclicByte (bytes : ByteArray) (i : Nat) : UInt8 :=
  if h : 0 < bytes.size then bytes.get (i % bytes.size) (Nat.mod_lt i h) else 0

/-- A part of an image behind the header. -/
inductive Section where
  | trainer
  | prg
  | chr
  deriving DecidableEq, Repr

/-- The name of the section in messages. -/
def Section.name : Section → String
  | .trainer => "trainer"
  | .prg => "PRG ROM"
  | .chr => "CHR ROM"

/-- Why an image is refused. -/
inductive CartridgeFault where
  /-- The image could not be read; the text is the system's. -/
  | unreadable (reason : String)
  /-- The image ends inside the header. -/
  | tooShort (size : Nat)
  /-- The image starts with four other bytes than it should. -/
  | badMagic (b₀ b₁ b₂ b₃ : UInt8)
  /-- The image ends inside a section. -/
  | truncated (part : Section) (needed available : Nat)
  deriving DecidableEq, Repr

namespace CartridgeFault

open Text in
/-- The text of the fault. -/
def message : CartridgeFault → String
  | .unreadable reason => "cannot read ROM image: " ++ reason
  | .tooShort size =>
    "image is " ++ toString size ++ " bytes, shorter than the 16-byte iNES header"
  | .badMagic b₀ b₁ b₂ b₃ =>
    "invalid iNES magic " ++ hex8 b₀ ++ " " ++ hex8 b₁ ++ " " ++ hex8 b₂ ++ " " ++ hex8 b₃
  | .truncated part needed available =>
    part.name ++ " section needs " ++ toString needed ++ " bytes but only " ++ toString available
      ++ " remain"

/-- The texts of the faults that led to this one, the nearest first. -/
def causes : CartridgeFault → List String
  | .unreadable reason => [reason]
  | _ => []

end CartridgeFault

/-! ## The header -/

/-- The header of an image : the sizes of the ROMs in banks and two bytes of flags. -/
structure Header where
  prgBanks : UInt8
  chrBanks : UInt8
  flags6 : UInt8
  flags7 : UInt8
  deriving DecidableEq, Repr

namespace Header

/-- The size of the header itself. -/
def size : Nat := 16

/-- Read the header of an image. -/
def parse (image : ByteArray) : Except CartridgeFault Header :=
  if h : image.size < 16 then .error (.tooShort image.size)
  else if image[0] = 0x4E ∧ image[1] = 0x45 ∧ image[2] = 0x53 ∧ image[3] = 0x1A then
    .ok ⟨image[4], image[5], image[6], image[7]⟩
  else .error (.badMagic image[0] image[1] image[2] image[3])

/-- The size of the trainer. -/
def trainerSize (h : Header) : Nat := if h.flags6 &&& 0x04 != 0 then 512 else 0

/-- The size of the PRG ROM. -/
def prgSize (h : Header) : Nat := h.prgBanks.toNat * 0x4000

/-- The size of the CHR ROM. -/
def chrSize (h : Header) : Nat := h.chrBanks.toNat * 0x2000

/-- The mirroring of the board; four screens take precedence. -/
def mirroring (h : Header) : Mirroring :=
  if h.flags6 &&& 0x08 != 0 then .fourScreen
  else if h.flags6 &&& 0x01 != 0 then .vertical
  else .horizontal

/-- A battery keeps the PRG RAM. -/
def battery (h : Header) : Bool := h.flags6 &&& 0x02 != 0

/-- The number of the mapper. -/
def mapper (h : Header) : UInt8 :=
  let high : UInt8 := h.flags7 &&& 0xF0
  high ||| (h.flags6 >>> 4)

end Header

/-! ## Cartridges -/

/-- The memory behind the pattern tables. -/
inductive PatternMemory where
  | rom (bytes : ByteArray)
  | ram (cells : Memory 0x2000)

namespace PatternMemory

/-- The memory can be written. -/
def isRam : PatternMemory → Bool
  | .rom _ => false
  | .ram _ => true

/-- All bytes in order. -/
def bytes : PatternMemory → ByteArray
  | .rom bytes => bytes
  | .ram cells => cells.bytes

/-- The byte at an address. -/
def read (m : PatternMemory) (a : UInt16) : UInt8 :=
  match m with
  | .rom bytes => cyclicByte bytes a.toNat
  | .ram cells => cells.read a.toNat

/-- Store a byte in RAM; ROM ignores it. -/
def write (m : PatternMemory) (a : UInt16) (value : UInt8) : PatternMemory :=
  match m with
  | .rom bytes => .rom bytes
  | .ram cells => .ram (cells.write a.toNat value)

end PatternMemory

/-- A board with its contents. -/
structure Cartridge where
  prg : ByteArray
  chr : PatternMemory
  prgRam : Memory 0x2000
  mirroring : Mirroring
  battery : Bool
  mapper : UInt8

namespace Cartridge

/-- The bytes of a section of `size` bytes at `start`. -/
def takeSection (image : ByteArray) (part : Section) (start size : Nat) :
    Except CartridgeFault ByteArray :=
  let available := image.size - start
  if available < size then .error (.truncated part size available)
  else .ok (image.extract start (start + size))

/-- Read an image. -/
def parse (image : ByteArray) : Except CartridgeFault Cartridge := do
  let header ← Header.parse image
  let _ ← takeSection image .trainer Header.size header.trainerSize
  let prgStart := Header.size + header.trainerSize
  let prg ← takeSection image .prg prgStart header.prgSize
  let chr ← takeSection image .chr (prgStart + header.prgSize) header.chrSize
  return {
    prg
    chr := if header.chrSize = 0 then .ram (.zeros _) else .rom chr
    prgRam := .zeros _
    mirroring := header.mirroring
    battery := header.battery
    mapper := header.mapper }

/-- What reading an image reports : a mapper that is not modelled as soon as the header is
read, and the board once all of it is. -/
def parseEvents (image : ByteArray) : List Event :=
  let ignored :=
    match Header.parse image with
    | .ok header => if header.mapper = 0 then [] else [.mapperIgnored header.mapper]
    | .error _ => []
  let accepted :=
    match parse image with
    | .ok c =>
      [.cartridgeAccepted c.mapper (c.prg.size / 1024) (c.chr.bytes.size / 1024) c.chr.isRam
        c.mirroring.name]
    | .error _ => []
  ignored ++ accepted

/-- The PRG ROM as the processor sees it from 8000 on. -/
def readPrg (c : Cartridge) (a : UInt16) : UInt8 := cyclicByte c.prg (a - 0x8000).toNat

/-- The PRG RAM as the processor sees it from 6000 on. -/
def readPrgRam (c : Cartridge) (a : UInt16) : UInt8 := c.prgRam.read a.toNat

/-- Store a byte in PRG RAM. -/
def writePrgRam (c : Cartridge) (a : UInt16) (value : UInt8) : Cartridge :=
  { c with prgRam := c.prgRam.write a.toNat value }

/-- A byte of the pattern tables. -/
def readChr (c : Cartridge) (a : UInt16) : UInt8 := c.chr.read a

/-- Store a byte in the pattern tables, where they are RAM. -/
def writeChr (c : Cartridge) (a : UInt16) (value : UInt8) : Cartridge :=
  { c with chr := c.chr.write a value }

end Cartridge

end Famicom
