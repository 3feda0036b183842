import Famicom.Proofs.Cpu.Recording
import Famicom.Proofs.Observation
import Famicom.Proofs.Wiring
import Mathlib.Data.List.Forall2

/-!
# The wired console is the console

A table follows a bus (`Bus.Follows`) if their routes agree one by one, in name, span and service. A
table that is made for the slot follows the bus that the slot stands for, at the picture unit
(`VideoDevices.wire_follows`) and at the processor (`WiredBoard.wire_follows`).

`WiredBoard.holding` puts a board between tables that are made for its slot. No access exchanges the
cartridge or its mirroring, so the tables are still right after it (`withBoard_holding`), and the
board answers between them as it does without (`busHom_holding`). Steps and whatever else is done
follow from the accesses, and an insertion makes the tables anew. So every run of the wired console
is the run of the console (`WiredConsole.console_afterAll`).
-/

namespace Famicom

/-! ## Tables that agree -/

/-- What is found first in one of two related lists is related to what is found first in the
other. -/
theorem find?_rel {α β : Type} {R : α → β → Prop} {l : List α} {m : List β}
    (h : List.Forall₂ R l m) {p : α → Bool} {q : β → Bool} (hpq : ∀ x y, R x y → p x = q y) :
    Option.Rel R (l.find? p) (m.find? q) := by
  induction h with
  | nil => exact .none
  | @cons x y _ _ hxy _ ih =>
    rw [List.find?_cons, List.find?_cons, hpq x y hxy]
    cases q y
    · exact ih
    · exact .some hxy

section Follows

variable {σ τ : Type}

/-- On `f s` the route serves what the other route serves on `s`. -/
structure ReadRoute.Follows (f : σ → τ) (s : σ) (r : ReadRoute τ) (t : ReadRoute σ) : Prop where
  route : r.toRoute = t.toRoute
  volatile : r.volatile = t.volatile
  serve : ∀ a, r.serve a (f s) = Prod.map id f (t.serve a s)

/-- On `f s` the route serves what the other route serves on `s`. -/
structure WriteRoute.Follows (f : σ → τ) (s : σ) (r : WriteRoute τ) (t : WriteRoute σ) : Prop where
  route : r.toRoute = t.toRoute
  serve : ∀ a value, r.serve a value (f s) = Prod.map id f (t.serve a value s)

namespace Bus

/-- The routes of two buses agree one by one. -/
structure Follows (f : σ → τ) (s : σ) (table : Bus τ) (bus : Bus σ) : Prop where
  reads : List.Forall₂ (ReadRoute.Follows f s) table.reads bus.reads
  writes : List.Forall₂ (WriteRoute.Follows f s) table.writes bus.writes

/-- What routes there are, in their order, whatever they serve. -/
def outline (b : Bus σ) : List (Route × Bool) × List Route :=
  (b.reads.map fun r => (r.toRoute, r.volatile), b.writes.map fun r => r.toRoute)

namespace Follows

variable {f : σ → τ} {s : σ} {table : Bus τ} {bus : Bus σ}

theorem clear (table : Bus τ) (name : String) : Follows f s table.clear (empty name) :=
  ⟨.nil, .nil⟩

theorem addRead (h : Follows f s table bus) {r : ReadRoute τ} {t : ReadRoute σ}
    (hr : r.Follows f s t) : Follows f s (table.addRead r) (bus.addRead t) :=
  ⟨List.rel_append h.reads (.cons hr .nil), h.writes⟩

theorem mapRead (h : Follows f s table bus) {name : String} {first last : UInt16}
    {serve : UInt16 → τ → Except BusFault UInt8 × τ}
    {serve' : UInt16 → σ → Except BusFault UInt8 × σ}
    (hserve : ∀ a, serve a (f s) = Prod.map id f (serve' a s)) :
    Follows f s (table.mapRead name first last serve) (bus.mapRead name first last serve') :=
  h.addRead ⟨rfl, rfl, hserve⟩

theorem mapVolatile (h : Follows f s table bus) {name : String} {first last : UInt16}
    {serve : UInt16 → τ → Except BusFault UInt8 × τ}
    {serve' : UInt16 → σ → Except BusFault UInt8 × σ}
    (hserve : ∀ a, serve a (f s) = Prod.map id f (serve' a s)) :
    Follows f s (table.mapVolatile name first last serve)
      (bus.mapVolatile name first last serve') :=
  h.addRead ⟨rfl, rfl, hserve⟩

theorem mapWrite (h : Follows f s table bus) {name : String} {first last : UInt16}
    {serve : UInt16 → UInt8 → τ → Except BusFault Unit × τ}
    {serve' : UInt16 → UInt8 → σ → Except BusFault Unit × σ}
    (hserve : ∀ a value, serve a value (f s) = Prod.map id f (serve' a value s)) :
    Follows f s (table.mapWrite name first last serve) (bus.mapWrite name first last serve') :=
  ⟨h.reads, List.rel_append h.writes (.cons ⟨rfl, hserve⟩ .nil)⟩

theorem outline_eq (h : Follows f s table bus) : table.outline = bus.outline := by
  have hreads : List.Forall₂ Eq table.outline.1 bus.outline.1 :=
    List.rel_map (fun _ _ hr => Prod.ext hr.route hr.volatile) h.reads
  have hwrites : List.Forall₂ Eq table.outline.2 bus.outline.2 :=
    List.rel_map (fun _ _ hr => hr.route) h.writes
  rw [List.forall₂_eq_eq_eq] at hreads hwrites
  exact Prod.ext hreads hwrites

/-- Both find a route for an address, or neither does. -/
theorem readRoute (h : Follows f s table bus) (a : UInt16) :
    Option.Rel (ReadRoute.Follows f s) (table.readRoute a) (bus.readRoute a) :=
  find?_rel h.reads fun _ _ hr => congrArg (fun r => r.span.contains a) hr.route

theorem writeRoute (h : Follows f s table bus) (a : UInt16) :
    Option.Rel (WriteRoute.Follows f s) (table.writeRoute a) (bus.writeRoute a) :=
  find?_rel h.writes fun _ _ hr => congrArg (fun r => r.span.contains a) hr.route

theorem read (h : Follows f s table bus) (a : UInt16) :
    table.read a (f s) = Prod.map id f (bus.read a s) := by
  have hroute := h.readRoute a
  unfold Bus.read
  generalize table.readRoute a = r, bus.readRoute a = t at hroute
  cases hroute with
  | none => rfl
  | some hr => exact hr.serve a

theorem write (h : Follows f s table bus) (a : UInt16) (value : UInt8) :
    table.write a value (f s) = Prod.map id f (bus.write a value s) := by
  have hroute := h.writeRoute a
  unfold Bus.write
  generalize table.writeRoute a = r, bus.writeRoute a = t at hroute
  cases hroute with
  | none => rfl
  | some hr => exact hr.serve a value

/-- What an observer sees agrees as well. -/
theorem peek (h : Follows f s table bus) (a : UInt16) :
    table.peek a (f s) = Prod.map id f (bus.peek a s) := by
  have hroute := h.readRoute a
  unfold Bus.peek
  generalize table.readRoute a = r, bus.readRoute a = t at hroute
  cases hroute with
  | none => rfl
  | @some r t hr =>
    dsimp only
    rw [hr.volatile, hr.serve a]
    cases t.volatile
    · rcases t.serve a s with ⟨_ | _, _⟩ <;> rfl
    · rfl

end Follows

end Bus

end Follows

/-! ## Behind the picture unit -/

namespace VideoDevices

variable (shelf : List Cartridge)

/-- The memories with a shelf beside them. -/
def beside (s : VideoSpace) : VideoDevices := ⟨s, shelf⟩

/-- What is stored in the cartridge is no matter to the routes. -/
theorem wire_congr {s t : VideoSpace} (h : s.plugged = t.plugged) (table : Bus VideoDevices) :
    (beside shelf s).wire table = (beside shelf t).wire table := by
  unfold VideoSpace.plugged at h
  unfold wire beside
  cases hs : s.cartridge <;> cases ht : t.cartridge <;>
    simp only [hs, ht, Option.map_none, Option.map_some, reduceCtorEq, Option.some.injEq] at h
  · rfl
  · rename_i c d
    have hmirroring : c.cleared.mirroring = d.cleared.mirroring := by rw [h]
    simp only [Cartridge.cleared] at hmirroring
    simp only [handle, hmirroring]

theorem readPattern_beside (s : VideoSpace) (a : UInt16) :
    readPattern (beside shelf s).handle a (beside shelf s) =
      (.ok (s.readPattern a), beside shelf s) := by
  rw [readPattern, held_handle, VideoSpace.readPattern, beside]
  cases s.cartridge <;> rfl

theorem writePattern_beside (s : VideoSpace) (a : UInt16) (value : UInt8) :
    writePattern (beside shelf s).handle a value (beside shelf s) =
      (.ok (), beside shelf (s.writePattern a value)) := by
  rw [writePattern, alter_handle]
  rfl

theorem mapMemories_follows {s : VideoSpace} {table : Bus VideoDevices} {bus : Bus VideoSpace}
    (h : table.Follows (beside shelf) s bus) :
    (mapMemories s.mirroring table).Follows (beside shelf) s (VideoSpace.withMemories bus) :=
  h
    |>.mapRead (fun _ => rfl)
    |>.mapWrite (fun _ _ => rfl)
    |>.mapRead (fun _ => rfl)
    |>.mapWrite (fun _ _ => rfl)

/-- Wired for the slot, a table follows the bus that the slot stands for. -/
theorem wire_follows (s : VideoSpace) (table : Bus VideoDevices) :
    ((beside shelf s).wire table).Follows (beside shelf) s s.bus := by
  unfold wire VideoSpace.bus
  cases hslot : s.cartridge with
  | none =>
    have hmirroring : s.mirroring = .horizontal := by rw [VideoSpace.mirroring, hslot]
    simp only [beside, hslot]
    exact hmirroring ▸ mapMemories_follows shelf (.clear table "ppu")
  | some c =>
    have hmirroring : s.mirroring = c.mirroring := by rw [VideoSpace.mirroring, hslot]
    simp only [beside, hslot]
    exact hmirroring ▸ mapMemories_follows shelf
      (Bus.Follows.clear table "ppu"
        |>.mapRead (readPattern_beside shelf s)
        |>.mapWrite (writePattern_beside shelf s))

end VideoDevices

/-! ## Behind the processor -/

/-- For the processor only whether there is a cartridge matters, and its handle. -/
theorem Devices.wire_congr {d e : Devices}
    (hslot : d.board.cartridge.isSome = e.board.cartridge.isSome) (hshelf : d.shelf = e.shelf)
    (table : Bus Devices) : d.wire table = e.wire table := by
  simp only [wire, hslot, video, VideoDevices.handle, hshelf]

namespace WiredBoard

/-- This board in the place of the present one, with both tables made anew. -/
def holding (w : WiredBoard) (board : Board) : WiredBoard := wire (w.withBoard board)

variable (w : WiredBoard)

/-- As long as the same cartridge is plugged in the tables need not be made anew. -/
theorem withBoard_holding {b d : Board} (h : d.plugged = b.plugged) :
    (w.holding b).withBoard d = w.holding d := by
  have hvideo := VideoDevices.wire_congr w.devices.shelf h w.devices.videoTable
  have htable := Devices.wire_congr (d := (w.withBoard d).devices) (e := (w.withBoard b).devices)
    (Board.isSome_cartridge_congr h) rfl w.table
  have hdevices : { w.devices with
      board := d
      videoTable := (VideoDevices.beside w.devices.shelf b.ppu.video).wire w.devices.videoTable } =
      (w.holding d).devices := by
    rw [← hvideo]
    rfl
  exact congrArg₂ WiredBoard.mk hdevices htable.symm

/-- What stands behind the processor. -/
def behind (b : Board) : Devices := (w.holding b).devices

theorem onBoard_behind {α : Type} {serve : Board → α × Board} {b : Board}
    (h : (serve b).2.plugged = b.plugged) :
    (w.behind b).onBoard serve = Prod.map id w.behind (serve b) :=
  congrArg (Prod.mk (serve b).1) (congrArg devices (w.withBoard_holding h))

theorem withPpu_behind {b : Board} {p : Ppu} (h : p.video.plugged = b.plugged) :
    (w.behind b).withPpu p = w.behind { b with ppu := p } :=
  congrArg devices (w.withBoard_holding (d := { b with ppu := p }) h)

theorem withVideo_behind {b : Board} {v : VideoSpace} (h : v.plugged = b.plugged) :
    (w.behind b).withVideo (.beside w.devices.shelf v) =
      w.behind { b with ppu := { b.ppu with video := v } } :=
  w.withPpu_behind (p := { b.ppu with video := v }) h

/-! ### The picture unit -/

theorem video_follows (b : Board) :
    (w.behind b).videoTable.Follows (.beside w.devices.shelf) b.ppu.video b.ppu.video.bus :=
  VideoDevices.wire_follows w.devices.shelf b.ppu.video w.devices.videoTable

theorem readVideo_behind (a : UInt16) (b : Board) :
    (w.behind b).readVideo a =
      ((AddressSpace.read a b.ppu.video).1, w.behind b) := by
  have hread : (w.behind b).videoTable.read a (w.behind b).video = _ :=
    (w.video_follows b).read a
  have hvideo : (b.ppu.video.bus.read a b.ppu.video).2 = b.ppu.video :=
    VideoSpace.read_snd a b.ppu.video
  rw [Devices.readVideo, hread]
  simp only [Prod.map, hvideo]
  exact congrArg (Prod.mk _) (w.withVideo_behind rfl)

theorem writeVideo_behind (a : UInt16) (value : UInt8) (b : Board) :
    (w.behind b).writeVideo a value =
      Prod.map id (fun v => w.behind { b with ppu := { b.ppu with video := v } })
        (AddressSpace.write a value b.ppu.video) := by
  have hwrite : (w.behind b).videoTable.write a value (w.behind b).video = _ :=
    (w.video_follows b).write a value
  rw [Devices.writeVideo, hwrite]
  exact congrArg (Prod.mk _) (w.withVideo_behind (VideoSpace.plugged_write a value b.ppu.video))

theorem readData_behind (b : Board) :
    (w.behind b).readData =
      Prod.map id (fun p => w.behind { b with ppu := p }) b.ppu.readData := by
  obtain ⟨value, hvalue⟩ := VideoSpace.exists_read_eq b.ppu.regs.current.busAddress b.ppu.video
  obtain ⟨beneath, hbeneath⟩ :=
    VideoSpace.exists_read_eq (b.ppu.regs.current.busAddress - 0x1000) b.ppu.video
  have hboard : (w.behind b).board = b := rfl
  unfold Devices.readData Ppu.readData
  simp only [readVideo_behind, hboard, hvalue, hbeneath]
  split
  · cases beneath with
    | error => rfl
    | ok =>
      simp only [readVideo_behind, hvalue]
      cases value <;> exact congrArg (Prod.mk _) (w.withPpu_behind (by rfl))
  · cases value with
    | error => rfl
    | ok => exact congrArg (Prod.mk _) (w.withPpu_behind (by rfl))

theorem writeData_behind (value : UInt8) (b : Board) :
    (w.behind b).writeData value =
      Prod.map id (fun p => w.behind { b with ppu := p }) (b.ppu.writeData value) := by
  have hboard : (w.behind b).board = b := rfl
  unfold Devices.writeData Ppu.writeData
  simp only [writeVideo_behind, hboard]
  rcases AddressSpace.write b.ppu.regs.current.busAddress value b.ppu.video with ⟨_ | _, video⟩
  · rfl
  · exact congrArg (Prod.mk _) (w.withPpu_behind (by rfl))

theorem readPpu_behind (a : UInt16) (b : Board) :
    (w.behind b).readPpu a = Prod.map id w.behind (Board.readPpu a b) := by
  have hkeeps : (Board.readPpu a b).2.plugged = b.plugged :=
    congrArg VideoSpace.plugged (b.ppu.video_read _)
  unfold Devices.readPpu
  split
  · rename_i hdata
    simp only [Board.readPpu, hdata, Ppu.read, readData_behind]
    rcases b.ppu.readData with ⟨_ | value, p⟩
    · rfl
    · exact congrArg (Prod.mk _) (w.withPpu_behind (by rfl))
  · exact w.onBoard_behind hkeeps

theorem writePpu_behind (a : UInt16) (value : UInt8) (b : Board) :
    (w.behind b).writePpu a value = Prod.map id w.behind (Board.writePpu a value b) := by
  have hkeeps : (Board.writePpu a value b).2.plugged = b.plugged := b.ppu.plugged_write _ value
  have hboard : (w.behind b).board = b := rfl
  unfold Devices.writePpu
  split
  · rename_i hdata
    have hlatch := w.withPpu_behind (b := b) (p := { b.ppu with latch := value }) rfl
    rw [hboard, hlatch, writeData_behind]
    simp only [Board.writePpu, hdata, Ppu.write]
    rfl
  · exact w.onBoard_behind hkeeps

/-! ### The cartridge -/

theorem held_behind (b : Board) :
    (w.behind b).video.held (w.behind b).video.handle = b.cartridge :=
  VideoDevices.held_handle _

theorem readCartridge_behind (f : Cartridge → UInt16 → UInt8) (a : UInt16) (b : Board) :
    (w.behind b).readCartridge f (w.behind b).video.handle a =
      Prod.map id w.behind (Board.readCartridge f a b) := by
  rw [Devices.readCartridge, held_behind]
  rfl

theorem writePrgRam_behind (a : UInt16) (value : UInt8) (b : Board) :
    (w.behind b).writePrgRam (w.behind b).video.handle a value =
      Prod.map id w.behind (Board.writePrgRam a value b) := by
  have hstored : Board.writePrgRam a value b = (.ok (), { b with
      ppu := { b.ppu with video := { b.ppu.video with
        cartridge := b.ppu.video.cartridge.map fun c => c.writePrgRam a value } } }) := by
    obtain ⟨ram, ⟨regs, oam, buffer, latch, beam, requesting, _ | c, vram, palette⟩, controllers,
      request⟩ := b <;> rfl
  rw [Devices.writePrgRam, VideoDevices.alter_handle, hstored]
  refine congrArg (Prod.mk _) (w.withVideo_behind ?_)
  simp only [VideoSpace.plugged, Board.plugged, Option.map_map]
  rfl

/-! ### The board -/

theorem mapConsole_follows (b : Board) (table : Bus Devices) :
    (Devices.mapConsole table.clear).Follows w.behind b Board.emptySlotBus :=
  Bus.Follows.clear table "cpu"
    |>.mapRead (fun _ => w.onBoard_behind rfl)
    |>.mapWrite (fun _ _ => w.onBoard_behind rfl)
    |>.mapVolatile (fun a => w.readPpu_behind a b)
    |>.mapWrite (fun a value => w.writePpu_behind a value b)
    |>.mapRead (fun _ => w.onBoard_behind rfl)
    |>.mapWrite (fun _ _ => w.onBoard_behind rfl)
    |>.mapWrite (fun _ _ => w.onBoard_behind rfl)
    |>.mapWrite (fun _ _ => w.onBoard_behind rfl)
    |>.mapWrite (fun _ _ => w.onBoard_behind rfl)
    |>.mapWrite (fun _ _ => w.onBoard_behind rfl)
    |>.mapVolatile (fun _ => w.onBoard_behind rfl)
    |>.mapWrite (fun _ _ => w.onBoard_behind rfl)

theorem mapCartridge_follows {b : Board} {table : Bus Devices} {bus : Bus Board}
    (h : table.Follows w.behind b bus) :
    (Devices.mapCartridge (w.behind b).video.handle table).Follows w.behind b
      (bus
        |>.mapRead "prg-ram" 0x6000 0x7FFF (Board.readCartridge Cartridge.readPrgRam)
        |>.mapWrite "prg-ram" 0x6000 0x7FFF Board.writePrgRam
        |>.mapRead "prg-rom" 0x8000 0xFFFF (Board.readCartridge Cartridge.readPrg)
        |>.mapWrite "prg-rom" 0x8000 0xFFFF Board.ignoreWrite) :=
  h
    |>.mapRead (fun a => w.readCartridge_behind _ a b)
    |>.mapWrite (fun a value => w.writePrgRam_behind a value b)
    |>.mapRead (fun a => w.readCartridge_behind _ a b)
    |>.mapWrite (fun _ _ => w.onBoard_behind rfl)

/-- Wired for the slot, the table follows the bus that the slot stands for. -/
theorem wire_follows (b : Board) : (w.holding b).table.Follows w.behind b b.bus := by
  have hconsole := w.mapConsole_follows b w.table
  unfold Board.bus
  split
  · rename_i hslot
    have htable : (w.holding b).table = _ := if_pos hslot
    exact htable ▸ w.mapCartridge_follows hconsole
  · rename_i hslot
    have htable : (w.holding b).table = _ := if_neg hslot
    exact htable ▸ hconsole

/-- As long as the same cartridge is plugged in the table stays. -/
theorem withDevices_holding {b d : Board} (h : d.plugged = b.plugged) :
    { w.holding b with devices := w.behind d } = w.holding d := by
  have htable := congrArg table (w.withBoard_holding h)
  exact congrArg (WiredBoard.mk (w.behind d)) htable

/-- With its tables the board answers as it does without. -/
theorem busHom_holding : CpuM.BusHom w.holding where
  read a b := by
    have hread : (w.holding b).table.read a (w.holding b).devices = _ := (w.wire_follows b).read a
    rw [read_def, hread]
    exact congrArg (Prod.mk _) (w.withDevices_holding (Board.plugged_read a b))
  write a value b := by
    have hwrite : (w.holding b).table.write a value (w.holding b).devices = _ :=
      (w.wire_follows b).write a value
    rw [write_def, hwrite]
    exact congrArg (Prod.mk _) (w.withDevices_holding (Board.plugged_write a value b))

/-- The board with the cartridge of the slot on the shelf as well. -/
def shelve : WiredBoard :=
  { w with devices := { w.devices with
    shelf := w.devices.shelf ++ w.devices.board.cartridge.toList } }

/-- However the tables stood, after an insertion they are made for the new cartridge. -/
theorem insert_eq (cartridge : Cartridge) :
    w.insert cartridge = w.shelve.holding (w.devices.board.insert cartridge) :=
  rfl

end WiredBoard

/-! ## Steps and runs -/

/-- An operation keeps the slot, or it inserts an image that is accepted. -/
theorem Operation.keepsSlot_or (o : Operation) :
    o.KeepsSlot ∨ ∃ image cartridge,
      o = .host (.insert image) ∧ Cartridge.parse image = .ok cartridge := by
  cases o with
  | host a =>
    cases a with
    | insert image =>
      cases hparse : Cartridge.parse image with
      | error fault => exact .inl ⟨fault, hparse⟩
      | ok cartridge => exact .inr ⟨image, cartridge, rfl, hparse⟩
    | _ => exact .inl trivial
  | _ => exact .inl trivial

namespace WiredConsole

open WiredBoard

variable (w : WiredBoard)

theorem direct_holding {f : Console → Console} {c : Console} (h : (f c).plugged = c.plugged) :
    direct f (c.map w.holding) = (f c).map w.holding :=
  congrArg (System.mk (f c).cpu) (w.withBoard_holding h)

theorem transfer_holding (page : UInt8) (c : Console) :
    transfer page (c.map w.holding) = Prod.map id (System.map w.holding) (c.transfer page) := by
  have hblock := Console.readBlock_map w.busHom_holding 256 (word 0 page) c.bus
  unfold transfer Console.transfer
  simp only [System.map, hblock]
  rcases Console.readBlock 256 (word 0 page) c.bus with ⟨_ | bytes, b⟩
  · rfl
  · refine congrArg (Prod.mk _) (direct_holding w (c := ⟨c.cpu, b⟩) ?_)
    exact (Board.keeps_plugged b.plugged).foldl_writeOam bytes rfl

theorem serveTransfer_holding (c : Console) :
    serveTransfer (c.map w.holding) = Prod.map id (System.map w.holding) c.serveTransfer := by
  have hrequest : (console (c.map w.holding)).bus.transferRequest = c.bus.transferRequest := rfl
  unfold serveTransfer Console.serveTransfer
  rw [hrequest]
  cases c.bus.transferRequest with
  | none => rfl
  | some page =>
    dsimp only
    rw [direct_holding w (by rfl), transfer_holding]

theorem step_holding (c : Console) :
    step (c.map w.holding) = Prod.map id (System.map w.holding) c.step := by
  unfold step Console.step
  rw [w.busHom_holding.step c]
  cases CpuM.step c with
  | error fault d => rfl
  | ok cycles d =>
    simp only [CpuM.mapResult, serveTransfer_holding]
    rcases Console.serveTransfer d with ⟨fault | stall, e⟩
    · rfl
    · exact congrArg (Prod.mk _) (direct_holding w ((Board.keeps_plugged e.plugged).catchUp _ rfl))

theorem readVideo_holding (a : UInt16) (c : Console) :
    readVideo a (c.map w.holding) =
      ((AddressSpace.read a c.bus.ppu.video).1, c.map w.holding) := by
  have hread : (w.holding c.bus).devices.readVideo a = _ := w.readVideo_behind a c.bus
  simp only [readVideo, System.map, hread]
  rfl

theorem writeVideo_holding (a : UInt16) (value : UInt8) (c : Console) :
    writeVideo a value (c.map w.holding) =
      Prod.map id (fun video => (Operation.withVideo c video).map w.holding)
        (AddressSpace.write a value c.bus.ppu.video) := by
  have hwrite : (w.holding c.bus).devices.writeVideo a value = _ :=
    w.writeVideo_behind a value c.bus
  have hkeeps := VideoSpace.plugged_write a value c.bus.ppu.video
  rcases houtcome : AddressSpace.write a value c.bus.ppu.video with ⟨outcome, video⟩
  rw [houtcome] at hwrite hkeeps
  have hbus := w.withDevices_holding (d := (Operation.withVideo c video).bus) hkeeps
  simp only [writeVideo, System.map, hwrite]
  exact congrArg (fun bus => (outcome, System.mk c.cpu bus)) hbus

/-- What keeps the slot as it is needs no new tables. -/
theorem perform_keeping {o : Operation} (h : o.KeepsSlot) (c : Console) :
    perform (c.map w.holding) o = (o.perform c).map w.holding := by
  have hkeeps := Console.plugged_perform c h
  have hdirect (a : HostAction) (ha : (a.perform c).plugged = c.plugged) :
      direct (fun d => a.perform d) (c.map w.holding) = (a.perform c).map w.holding :=
    direct_holding w ha
  cases o with
  | readVideo a =>
    have hvideo := VideoSpace.read_snd a c.bus.ppu.video
    simp only [perform, Operation.perform, readVideo_holding, hvideo]
    rfl
  | writeVideo a value => exact congrArg Prod.snd (writeVideo_holding w a value c)
  | host a =>
    cases a with
    | insert image =>
      obtain ⟨fault, hfault⟩ := h
      simp only [perform, Operation.perform, HostAction.perform, insertImage, Console.insertImage,
        hfault]
    | step => exact congrArg Prod.snd (step_holding w c)
    | read a => exact congrArg (fun r => System.mk c.cpu r.2) (w.busHom_holding.read a c.bus)
    | write a value =>
      exact congrArg (fun r => System.mk c.cpu r.2) (w.busHom_holding.write a value c.bus)
    | tick | powerUp | reset | press | assign => exact hdirect _ hkeeps

theorem afterAll_keeping {operations : List Operation} (h : ∀ o ∈ operations, o.KeepsSlot)
    (c : Console) :
    afterAll (c.map w.holding) operations = (c.afterAll operations).map w.holding := by
  induction operations generalizing c with
  | nil => rfl
  | cons o operations ih =>
    have hfirst := perform_keeping w (h o List.mem_cons_self) c
    have hrest := ih (fun p hp => h p (List.mem_cons_of_mem _ hp)) (o.perform c)
    exact (congrArg (fun d => afterAll d operations) hfirst).trans hrest

theorem insertImage_refused (c : WiredConsole) {image : ByteArray} {fault : CartridgeFault}
    (h : Cartridge.parse image = .error fault) :
    c.insertImage image = (.error (.cartridge fault), c) := by
  rw [insertImage, h]

theorem insertImage_eq (c : WiredConsole) {image : ByteArray} {cartridge : Cartridge}
    (h : Cartridge.parse image = .ok cartridge) :
    c.insertImage image = (.ok (), (c.console.insert cartridge).map c.bus.shelve.holding) := by
  rw [insertImage, h]
  exact congrArg (fun bus => (Except.ok (), System.mk c.cpu bus)) (c.bus.insert_eq cartridge)

/-- The console with its tables does what the console does. -/
theorem perform_holding (o : Operation) (c : Console) :
    ∃ v : WiredBoard, perform (c.map w.holding) o = (o.perform c).map v.holding := by
  rcases o.keepsSlot_or with hkeep | ⟨image, cartridge, rfl, hparse⟩
  · exact ⟨w, perform_keeping w hkeep c⟩
  · have hinsert := congrArg Prod.snd (insertImage_eq (c.map w.holding) hparse)
    simp only [Operation.perform, HostAction.perform, Console.insertImage, hparse]
    exact ⟨(w.holding c.bus).shelve, hinsert⟩

theorem afterAll_holding (operations : List Operation) (c : Console) :
    ∃ v : WiredBoard, afterAll (c.map w.holding) operations =
      (c.afterAll operations).map v.holding := by
  induction operations generalizing w c with
  | nil => exact ⟨w, rfl⟩
  | cons o operations ih =>
    obtain ⟨u, hu⟩ := perform_holding w o c
    obtain ⟨v, hv⟩ := ih u (o.perform c)
    exact ⟨v, (congrArg (fun d => afterAll d operations) hu).trans hv⟩

/-- Whatever is done and inserted from the beginning on, with its tables the console is the
console. -/
theorem console_afterAll (operations : List Operation) :
    (initial.afterAll operations).console = Console.initial.afterAll operations := by
  obtain ⟨v, hv⟩ := afterAll_holding bare operations Console.initial
  exact congrArg console hv

end WiredConsole

end Famicom
