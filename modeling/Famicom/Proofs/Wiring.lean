import Famicom.Proofs.ReadOnly

/-!
# The wired console

`Board.bus` and `VideoSpace.bus` answer which routes there are from what is in the slot. In a
console the routes stand in two tables, the one of the processor and the one of the picture unit.
The tables are made when a cartridge is inserted, and a route keeps what it was made with : the
cartridge, even after another one took its place, and the mirroring as it was.

`WiredConsole` is the console with its tables. The cartridges that left the slot are on a shelf,
where a route that was made for one of them still finds it (`VideoDevices.held_insert`).
`WiredBoard.wire` clears both tables and makes the routes anew.
-/

namespace Famicom

/-- The nametables are not empty. -/
local instance neZero_vram : NeZero 0x1000 := ⟨by decide⟩

/-! ## Behind the picture unit -/

/-- What the routes of the picture unit lead to. -/
structure VideoDevices where
  space : VideoSpace
  /-- The cartridges that left the slot, the oldest first. -/
  shelf : List Cartridge

namespace VideoDevices

/-- A handle on the cartridge in the slot : its number in the order of insertion. -/
def handle (d : VideoDevices) : Nat := d.shelf.length

/-- The cartridge that a handle leads to. -/
def held (d : VideoDevices) (handle : Nat) : Option Cartridge :=
  (d.shelf ++ d.space.cartridge.toList)[handle]?

/-- Change the cartridge that a handle leads to. -/
def alter (d : VideoDevices) (handle : Nat) (f : Cartridge → Cartridge) : VideoDevices :=
  if handle = d.handle then
    { d with space := { d.space with cartridge := d.space.cartridge.map f } }
  else { d with shelf := d.shelf.modify handle f }

/-- Put a cartridge into the slot, and the one that is there on the shelf. -/
def insert (d : VideoDevices) (cartridge : Cartridge) : VideoDevices where
  space := d.space.insert (some cartridge)
  shelf := d.shelf ++ d.space.cartridge.toList

/-- A byte of the pattern tables on the cartridge of a handle. -/
def readPattern (handle : Nat) (a : UInt16) (d : VideoDevices) :
    Except BusFault UInt8 × VideoDevices :=
  (.ok (((d.held handle).map fun c => c.readChr a).getD 0), d)

/-- Store a byte in the pattern tables on the cartridge of a handle. -/
def writePattern (handle : Nat) (a : UInt16) (value : UInt8) (d : VideoDevices) :
    Except BusFault Unit × VideoDevices :=
  (.ok (), d.alter handle fun c => c.writeChr a value)

/-- A byte of the nametables, folded in this way. -/
def readNametable (mirroring : Mirroring) (a : UInt16) (d : VideoDevices) :
    Except BusFault UInt8 × VideoDevices :=
  (.ok (d.space.vram.read (mirroring.nametableOffset a)), d)

/-- Store a byte in the nametables, folded in this way. -/
def writeNametable (mirroring : Mirroring) (a : UInt16) (value : UInt8) (d : VideoDevices) :
    Except BusFault Unit × VideoDevices :=
  (.ok (), { d with
    space := { d.space with vram := d.space.vram.write (mirroring.nametableOffset a) value } })

/-- A palette entry. -/
def readPalette (a : UInt16) (d : VideoDevices) : Except BusFault UInt8 × VideoDevices :=
  (.ok (d.space.readPalette a), d)

/-- Store a palette entry. -/
def writePalette (a : UInt16) (value : UInt8) (d : VideoDevices) :
    Except BusFault Unit × VideoDevices :=
  (.ok (), { d with space := d.space.writePalette a value })

/-- Add the routes of the memories inside the console. -/
def mapMemories (mirroring : Mirroring) (table : Bus VideoDevices) : Bus VideoDevices :=
  table
    |>.mapRead "nametables" 0x2000 0x3EFF (readNametable mirroring)
    |>.mapWrite "nametables" 0x2000 0x3EFF (writeNametable mirroring)
    |>.mapRead "palette" 0x3F00 0x3FFF readPalette
    |>.mapWrite "palette" 0x3F00 0x3FFF writePalette

/-- Clear a table and make its routes for what is in the slot. -/
def wire (d : VideoDevices) (table : Bus VideoDevices) : Bus VideoDevices :=
  match d.space.cartridge with
  | some c =>
    table.clear
      |>.mapRead "chr" 0x0000 0x1FFF (readPattern d.handle)
      |>.mapWrite "chr" 0x0000 0x1FFF (writePattern d.handle)
      |> mapMemories c.mirroring
  | none => mapMemories .horizontal table.clear

/-! ### Handles -/

/-- Nothing is on the shelf under the handle of the slot. -/
theorem held_handle (d : VideoDevices) : d.held d.handle = d.space.cartridge := by
  rw [held, handle, List.getElem?_append_right (Nat.le_refl _), Nat.sub_self]
  cases d.space.cartridge <;> rfl

theorem alter_handle (d : VideoDevices) (f : Cartridge → Cartridge) :
    d.alter d.handle f =
      { d with space := { d.space with cartridge := d.space.cartridge.map f } } :=
  if_pos rfl

/-- A handle leads to the same cartridge after another one is inserted. -/
theorem held_insert {d : VideoDevices} {handle : Nat} {c : Cartridge} (h : d.held handle = some c)
    (cartridge : Cartridge) : (d.insert cartridge).held handle = some c := by
  obtain ⟨hlt, -⟩ := List.getElem?_eq_some_iff.1 h
  exact (List.getElem?_append_left hlt).trans h

end VideoDevices

/-! ## Behind the processor -/

/-- What the routes of the processor lead to. -/
structure Devices where
  board : Board
  /-- The cartridges that left the slot, the oldest first. -/
  shelf : List Cartridge
  /-- The routes of the picture unit. -/
  videoTable : Bus VideoDevices

namespace Devices

/-- The devices behind the picture unit. -/
def video (d : Devices) : VideoDevices := ⟨d.board.ppu.video, d.shelf⟩

/-- Exchange the devices behind the picture unit. -/
def withVideo (d : Devices) (v : VideoDevices) : Devices :=
  { d with
    board := { d.board with ppu := { d.board.ppu with video := v.space } }
    shelf := v.shelf }

/-- Exchange the picture unit. -/
def withPpu (d : Devices) (ppu : Ppu) : Devices := { d with board := { d.board with ppu } }

/-- Serve on the board alone. -/
def onBoard {α : Type} (serve : Board → α × Board) (d : Devices) : α × Devices :=
  match serve d.board with
  | (outcome, board) => (outcome, { d with board })

/-! ### The picture unit -/

/-- Read a byte as the picture unit does, by its table. -/
def readVideo (a : UInt16) (d : Devices) : Except BusFault UInt8 × Devices :=
  match d.videoTable.read a d.video with
  | (outcome, v) => (outcome, d.withVideo v)

/-- Write a byte as the picture unit does, by its table. -/
def writeVideo (a : UInt16) (value : UInt8) (d : Devices) : Except BusFault Unit × Devices :=
  match d.videoTable.write a value d.video with
  | (outcome, v) => (outcome, d.withVideo v)

/-- `Ppu.readData` by the table. -/
def readData (d : Devices) : Except BusFault UInt8 × Devices :=
  let a := d.board.ppu.regs.current.busAddress
  if 0x3F00 ≤ a then
    match d.readVideo (a - 0x1000) with
    | (.error fault, d) => (.error fault, d)
    | (.ok beneath, d) =>
      match d.readVideo a with
      | (.error fault, d) => (.error fault, d.withPpu { d.board.ppu with buffer := beneath })
      | (.ok value, d) =>
        (.ok value,
          d.withPpu { d.board.ppu with buffer := beneath, regs := d.board.ppu.regs.advance })
  else
    match d.readVideo a with
    | (.error fault, d) => (.error fault, d)
    | (.ok value, d) =>
      (.ok d.board.ppu.buffer,
        d.withPpu { d.board.ppu with buffer := value, regs := d.board.ppu.regs.advance })

/-- `Ppu.writeData` by the table. -/
def writeData (value : UInt8) (d : Devices) : Except BusFault Unit × Devices :=
  match d.writeVideo d.board.ppu.regs.current.busAddress value with
  | (.error fault, d) => (.error fault, d)
  | (.ok (), d) => (.ok (), d.withPpu { d.board.ppu with regs := d.board.ppu.regs.advance })

/-- Read a register of the picture unit. Of all registers only the data register needs the
table. -/
def readPpu (a : UInt16) (d : Devices) : Except BusFault UInt8 × Devices :=
  match PpuRegister.ofAddress a with
  | .data =>
    match d.readData with
    | (.ok value, d) => (.ok value, d.withPpu { d.board.ppu with latch := value })
    | (.error fault, d) => (.error fault, d)
  | _ => onBoard (Board.readPpu a) d

/-- Write a register of the picture unit. -/
def writePpu (a : UInt16) (value : UInt8) (d : Devices) : Except BusFault Unit × Devices :=
  match PpuRegister.ofAddress a with
  | .data => (d.withPpu { d.board.ppu with latch := value }).writeData value
  | _ => onBoard (Board.writePpu a value) d

/-! ### The cartridge -/

/-- A byte of the cartridge of a handle. -/
def readCartridge (f : Cartridge → UInt16 → UInt8) (handle : Nat) (a : UInt16) (d : Devices) :
    Except BusFault UInt8 × Devices :=
  (.ok (((d.video.held handle).map fun c => f c a).getD 0), d)

/-- Store a byte of PRG RAM on the cartridge of a handle. -/
def writePrgRam (handle : Nat) (a : UInt16) (value : UInt8) (d : Devices) :
    Except BusFault Unit × Devices :=
  (.ok (), d.withVideo (d.video.alter handle fun c => c.writePrgRam a value))

/-! ### Routes -/

/-- Add the routes of the devices inside the console. -/
def mapConsole (table : Bus Devices) : Bus Devices :=
  table
    |>.mapRead "ram" 0x0000 0x1FFF (fun a => onBoard (Board.readRam a))
    |>.mapWrite "ram" 0x0000 0x1FFF (fun a value => onBoard (Board.writeRam a value))
    |>.mapVolatile "ppu" 0x2000 0x3FFF readPpu
    |>.mapWrite "ppu" 0x2000 0x3FFF writePpu
    |>.mapRead "apu" 0x4000 0x4015 (fun a => onBoard (Board.readSilence a))
    |>.mapWrite "apu" 0x4000 0x4013 (fun a value => onBoard (Board.ignoreWrite a value))
    |>.mapWrite "apu" 0x4015 0x4015 (fun a value => onBoard (Board.ignoreWrite a value))
    |>.mapWrite "apu" 0x4017 0x4017 (fun a value => onBoard (Board.ignoreWrite a value))
    |>.mapWrite "test-mode" 0x4018 0x401F (fun a value => onBoard (Board.ignoreWrite a value))
    |>.mapWrite "oam-dma" 0x4014 0x4014 (fun a page => onBoard (Board.requestTransfer a page))
    |>.mapVolatile "joypad" 0x4016 0x4017 (fun a => onBoard (Board.readController a))
    |>.mapWrite "joypad" 0x4016 0x4016 (fun a value => onBoard (Board.writeStrobe a value))

/-- Add the routes of the cartridge of a handle. -/
def mapCartridge (handle : Nat) (table : Bus Devices) : Bus Devices :=
  table
    |>.mapRead "prg-ram" 0x6000 0x7FFF (readCartridge Cartridge.readPrgRam handle)
    |>.mapWrite "prg-ram" 0x6000 0x7FFF (writePrgRam handle)
    |>.mapRead "prg-rom" 0x8000 0xFFFF (readCartridge Cartridge.readPrg handle)
    |>.mapWrite "prg-rom" 0x8000 0xFFFF (fun a value => onBoard (Board.ignoreWrite a value))

/-- Clear a table and make its routes for what is in the slot. -/
def wire (d : Devices) (table : Bus Devices) : Bus Devices :=
  if d.board.cartridge.isSome then mapCartridge d.video.handle (mapConsole table.clear)
  else mapConsole table.clear

end Devices

/-! ## The board with its tables -/

/-- The devices and the table of the processor. -/
structure WiredBoard where
  devices : Devices
  table : Bus Devices

namespace WiredBoard

/-- Accesses go through the table. -/
instance : AddressSpace WiredBoard where
  read a w :=
    match w.table.read a w.devices with
    | (outcome, devices) => (outcome, { w with devices })
  write a value w :=
    match w.table.write a value w.devices with
    | (outcome, devices) => (outcome, { w with devices })
  peek a w :=
    match w.table.peek a w.devices with
    | (seen, devices) => (seen, { w with devices })

theorem read_def (a : UInt16) (w : WiredBoard) : AddressSpace.read a w =
    Prod.map id (fun devices => { w with devices }) (w.table.read a w.devices) :=
  rfl

theorem write_def (a : UInt16) (value : UInt8) (w : WiredBoard) : AddressSpace.write a value w =
    Prod.map id (fun devices => { w with devices }) (w.table.write a value w.devices) :=
  rfl

theorem peek_def (a : UInt16) (w : WiredBoard) : AddressSpace.peek a w =
    Prod.map id (fun devices => { w with devices }) (w.table.peek a w.devices) :=
  rfl

/-- Make both tables anew. -/
def wire (w : WiredBoard) : WiredBoard where
  devices := { w.devices with videoTable := w.devices.video.wire w.devices.videoTable }
  table := w.devices.wire w.table

/-- The board without routes. -/
def bare : WiredBoard := ⟨⟨.initial, [], .empty "ppu"⟩, .empty "cpu"⟩

/-- The board before anything happened. -/
def initial : WiredBoard := bare.wire

/-- Put a cartridge into the slot and make both tables anew. -/
def insert (w : WiredBoard) (cartridge : Cartridge) : WiredBoard :=
  wire { w with devices := w.devices.withVideo (w.devices.video.insert cartridge) }

/-- Exchange all that is neither a table nor on the shelf. -/
def withBoard (w : WiredBoard) (board : Board) : WiredBoard :=
  { w with devices := { w.devices with board } }

end WiredBoard

/-! ## The console with its tables -/

/-- The processor on the board with its tables. -/
abbrev WiredConsole := System WiredBoard

namespace WiredConsole

/-- The console before anything happened. -/
def initial : WiredConsole := ⟨.initial, .initial⟩

/-- The console without its tables and the shelf. -/
def console (c : WiredConsole) : Console := ⟨c.cpu, c.bus.devices.board⟩

/-- Do what needs no table. -/
def direct (f : Console → Console) (c : WiredConsole) : WiredConsole :=
  match f c.console with
  | ⟨cpu, board⟩ => ⟨cpu, c.bus.withBoard board⟩

/-- Read an image, put the cartridge into the slot and make the tables anew. -/
def insertImage (c : WiredConsole) (image : ByteArray) :
    Except ConsoleFault Unit × WiredConsole :=
  match Cartridge.parse image with
  | .ok cartridge => (.ok (), { c with bus := c.bus.insert cartridge })
  | .error fault => (.error (.cartridge fault), c)

/-- Copy a page to sprite memory. -/
def transfer (page : UInt8) (c : WiredConsole) : Except ConsoleFault Nat × WiredConsole :=
  match Console.readBlock 256 (word 0 page) c.bus with
  | (.error fault, bus) => (.error (.transfer page fault), { c with bus })
  | (.ok bytes, bus) =>
    let stall := Console.transferStall c.cpu.cycles
    let store (d : Console) : Console :=
      ⟨d.cpu.stall stall, { d.bus with ppu := bytes.foldl Ppu.writeOam d.bus.ppu }⟩
    (.ok stall, direct store { c with bus })

/-- Make the transfer that is requested, if there is one. -/
def serveTransfer (c : WiredConsole) : Except ConsoleFault Nat × WiredConsole :=
  match c.console.bus.transferRequest with
  | none => (.ok 0, c)
  | some page =>
    let settle (d : Console) : Console := { d with bus := { d.bus with transferRequest := none } }
    transfer page (direct settle c)

/-- One step of the processor, with all that follows from it. -/
def step (c : WiredConsole) : Except ConsoleFault Nat × WiredConsole :=
  match CpuM.step c with
  | .error fault c => (.error (.cpu fault), c)
  | .ok cycles c =>
    match serveTransfer c with
    | (.error fault, c) => (.error fault, c)
    | (.ok stall, c) => (.ok (cycles + stall), direct (Console.catchUp (cycles + stall)) c)

/-- Read a byte as the picture unit does. -/
def readVideo (a : UInt16) (c : WiredConsole) : Except BusFault UInt8 × WiredConsole :=
  match c.bus.devices.readVideo a with
  | (outcome, devices) => (outcome, { c with bus := { c.bus with devices } })

/-- Write a byte as the picture unit does. -/
def writeVideo (a : UInt16) (value : UInt8) (c : WiredConsole) :
    Except BusFault Unit × WiredConsole :=
  match c.bus.devices.writeVideo a value with
  | (outcome, devices) => (outcome, { c with bus := { c.bus with devices } })

/-- The console after an operation, whether it failed or not. -/
def perform (c : WiredConsole) : Operation → WiredConsole
  | .host (.insert image) => (c.insertImage image).2
  | .host .step => c.step.2
  | .host (.read a) => { c with bus := (AddressSpace.read a c.bus).2 }
  | .host (.write a value) => { c with bus := (AddressSpace.write a value c.bus).2 }
  | .readVideo a => (c.readVideo a).2
  | .writeVideo a value => (c.writeVideo a value).2
  | .host a => direct a.perform c

/-- The console at the end of a run of operations. -/
def afterAll (c : WiredConsole) (operations : List Operation) : WiredConsole :=
  operations.foldl perform c

end WiredConsole

end Famicom
