import Famicom.Proofs.WiredRun

/-!
# Inserting a cartridge

An insertion is done altogether or not at all, and it leaves nothing of what was in the slot before.
In the wired console this is about the two tables. A route that was forgotten there would come
before the new ones and lead to a cartridge on the shelf, and a nametable route would fold as that
cartridge does. `WiredConsole.Serves` says that no access goes astray in such a way, and
`WiredConsole.insertion_leaves_nothing_behind` that none does after an insertion, whatever the
tables were before and whatever is done later.
-/

namespace Famicom.WiredConsole

open WiredBoard

variable (w : WiredBoard)

/-! ## What an insertion leaves -/

/-- The console with other memories behind the picture unit. -/
def withVideo (e : WiredConsole) (video : VideoSpace) : WiredConsole :=
  direct (fun c => Operation.withVideo c video) e

/-- Every access leads where the slot says, and this cartridge is in the slot. -/
structure Serves (e : WiredConsole) (cartridge : Cartridge) : Prop where
  routes : e.bus.table.outline = e.console.bus.bus.outline
  videoRoutes : e.bus.devices.videoTable.outline = e.console.bus.ppu.video.bus.outline
  read : ∀ a, AddressSpace.read a e.bus =
    Prod.map id e.bus.withBoard (AddressSpace.read a e.console.bus)
  write : ∀ a value, AddressSpace.write a value e.bus =
    Prod.map id e.bus.withBoard (AddressSpace.write a value e.console.bus)
  peek : ∀ a, AddressSpace.peek a e.bus = ((AddressSpace.peek a e.console.bus).1, e.bus)
  readVideo : ∀ a, e.readVideo a =
    Prod.map id e.withVideo (AddressSpace.read a e.console.bus.ppu.video)
  writeVideo : ∀ a value, e.writeVideo a value =
    Prod.map id e.withVideo (AddressSpace.write a value e.console.bus.ppu.video)
  prgRom : ∀ a, 0x8000 ≤ a → AddressSpace.read a e.bus = (.ok (cartridge.readPrg a), e.bus)
  prgRam : ∀ a, 0x6000 ≤ a → a ≤ 0x7FFF →
    AddressSpace.read a e.bus = (.ok (cartridge.readPrgRam a), e.bus)
  storesPrgRam : ∀ a value, 0x6000 ≤ a → a ≤ 0x7FFF → AddressSpace.write a value e.bus =
    (.ok (), e.bus.withBoard (e.console.bus.insert (cartridge.writePrgRam a value)))
  patterns : ∀ a, a ≤ 0x1FFF → e.readVideo a = (.ok (cartridge.readChr a), e)
  storesPatterns : ∀ a value, a ≤ 0x1FFF → e.writeVideo a value =
    (.ok (), e.withVideo (e.console.bus.ppu.video.insert (some (cartridge.writeChr a value))))
  nametables : ∀ a, 0x2000 ≤ a → a ≤ 0x3EFF → e.readVideo a =
    (.ok (e.console.bus.ppu.video.vram.read (cartridge.mirroring.nametableOffset a)), e)
  storesNametables : ∀ a value, 0x2000 ≤ a → a ≤ 0x3EFF → e.writeVideo a value =
    (.ok (), e.withVideo { e.console.bus.ppu.video with
      vram := e.console.bus.ppu.video.vram.write (cartridge.mirroring.nametableOffset a) value })

theorem read_holding (a : UInt16) (b : Board) : AddressSpace.read a (w.holding b) =
    Prod.map id (w.holding b).withBoard (AddressSpace.read a b) := by
  rw [w.busHom_holding.read, Prod.map, w.withBoard_holding (Board.plugged_read a b)]
  rfl

theorem write_holding (a : UInt16) (value : UInt8) (b : Board) :
    AddressSpace.write a value (w.holding b) =
      Prod.map id (w.holding b).withBoard (AddressSpace.write a value b) := by
  rw [w.busHom_holding.write, Prod.map, w.withBoard_holding (Board.plugged_write a value b)]
  rfl

theorem peek_holding (a : UInt16) (b : Board) :
    AddressSpace.peek a (w.holding b) = ((AddressSpace.peek a b).1, w.holding b) := by
  have hpeek : (w.holding b).table.peek a (w.holding b).devices = _ := (w.wire_follows b).peek a
  have hstays : (b.bus.peek a b).2 = b := Board.peek_snd a b
  rw [peek_def, hpeek, Prod.map_map, Prod.map, hstays]
  rfl

theorem readVideo_eq (a : UInt16) (c : Console) : readVideo a (c.map w.holding) =
    Prod.map id (withVideo (c.map w.holding)) (AddressSpace.read a c.bus.ppu.video) := by
  rw [readVideo_holding, Prod.map, VideoSpace.read_snd]
  rfl

theorem writeVideo_eq (a : UInt16) (value : UInt8) (c : Console) :
    writeVideo a value (c.map w.holding) =
      Prod.map id (withVideo (c.map w.holding)) (AddressSpace.write a value c.bus.ppu.video) := by
  have hkeeps := VideoSpace.plugged_write a value c.bus.ppu.video
  have hvideo := direct_holding w (c := c)
    (f := fun d => Operation.withVideo d (AddressSpace.write a value c.bus.ppu.video).2) hkeeps
  rw [writeVideo_holding, Prod.map, ← hvideo]
  rfl

/-- A console whose tables are made for its slot serves the cartridge in it. -/
theorem serves_holding {c : Console} {cartridge : Cartridge}
    (h : c.bus.cartridge = some cartridge) : Serves (c.map w.holding) cartridge where
  routes := (w.wire_follows c.bus).outline_eq
  videoRoutes := (w.video_follows c.bus).outline_eq
  read a := read_holding w a c.bus
  write a value := write_holding w a value c.bus
  peek a := peek_holding w a c.bus
  readVideo a := readVideo_eq w a c
  writeVideo a value := writeVideo_eq w a value c
  prgRom a ha := by
    refine (read_holding w a c.bus).trans ?_
    rw [Board.read_prg_of_some h ha]
    rfl
  prgRam a ha hle := by
    refine (read_holding w a c.bus).trans ?_
    rw [Board.read_prgRam_of_some h ha hle]
    rfl
  storesPrgRam a value ha hle := by
    refine (write_holding w a value c.bus).trans ?_
    rw [Board.write_prgRam_of_some h ha hle]
    rfl
  patterns a ha := by
    rw [readVideo_holding, VideoSpace.read_pattern_of_some h ha]
  storesPatterns a value ha := by
    rw [writeVideo_eq, VideoSpace.write_pattern_of_some h ha]
    rfl
  nametables a ha hle := by
    rw [readVideo_holding, VideoSpace.read_nametable_of_some h ha hle]
    rfl
  storesNametables a value ha hle := by
    rw [writeVideo_eq, VideoSpace.write_nametable_of_some h ha hle]
    rfl

/-- As long as the slot is kept the cartridge in it is served, and by the same tables. -/
theorem serves_afterAll {c : Console} {cartridge : Cartridge}
    (h : c.bus.cartridge = some cartridge) {operations : List Operation}
    (hkeep : ∀ o ∈ operations, o.KeepsSlot) :
    (w.holding (c.afterAll operations).bus).table = (w.holding c.bus).table ∧
      (w.holding (c.afterAll operations).bus).devices.videoTable =
        (w.holding c.bus).devices.videoTable ∧
      ∃ present : Cartridge, present.cleared = cartridge.cleared ∧
        Serves ((c.afterAll operations).map w.holding) present := by
  have hplugged := Console.plugged_afterAll c hkeep
  have hstays := w.withBoard_holding hplugged
  have hcleared : (c.afterAll operations).plugged = some cartridge.cleared :=
    hplugged.trans (congrArg (Option.map Cartridge.cleared) h)
  obtain ⟨present, hslot, hpresent⟩ := Option.map_eq_some_iff.1 hcleared
  exact ⟨(congrArg table hstays).symm,
    (congrArg (fun w => w.devices.videoTable) hstays).symm, present, hpresent,
    serves_holding w hslot⟩

/-- A refused image changes nothing. An accepted one changes what is in the slot, and leaves routes
that are those of a console which has had no other cartridge. It also goes on as such a console
does : every access leads to the new cartridge, and those on the shelf stay as they are. -/
theorem insertion_leaves_nothing_behind (c : WiredConsole) (image : ByteArray) :
    let d := (c.insertImage image).2
    let fresh := (initial.insertImage image).2
    c.console.insertImage image = ((c.insertImage image).1, d.console) ∧
    (∀ fault, (c.insertImage image).1 = .error fault → d = c) ∧
    ((c.insertImage image).1 = .ok () → ∃ cartridge, Cartridge.parse image = .ok cartridge ∧
      d.cpu = c.cpu ∧
      d.bus.devices.board = { c.bus.devices.board with
        ppu := { c.bus.devices.board.ppu with
          video := { c.bus.devices.board.ppu.video with cartridge := some cartridge } } } ∧
      d.bus.table.outline = fresh.bus.table.outline ∧
      d.bus.devices.videoTable.outline = fresh.bus.devices.videoTable.outline ∧
      ∀ operations, (∀ o ∈ operations, o.KeepsSlot) →
        let e := d.afterAll operations
        e.console = (c.console.insert cartridge).afterAll operations ∧
        e.bus.devices.shelf = c.bus.devices.shelf ++ c.bus.devices.board.cartridge.toList ∧
        e.bus.table = d.bus.table ∧
        e.bus.devices.videoTable = d.bus.devices.videoTable ∧
        ∃ present, present.cleared = cartridge.cleared ∧ e.Serves present) := by
  intro d fresh
  cases hparse : Cartridge.parse image with
  | error fault =>
    have hinsert := insertImage_refused c hparse
    have hd : d = c := congrArg Prod.snd hinsert
    refine ⟨?_, fun _ _ => hd, fun hok => ?_⟩
    · rw [hinsert, hd, Console.insertImage, hparse]
    · rw [hinsert] at hok
      cases hok
  | ok cartridge =>
    have hinsert := insertImage_eq c hparse
    have hd : d = (c.console.insert cartridge).map c.bus.shelve.holding :=
      congrArg Prod.snd hinsert
    have hfresh : fresh = (initial.console.insert cartridge).map initial.bus.shelve.holding :=
      congrArg Prod.snd (insertImage_eq initial hparse)
    refine ⟨?_, fun fault hfault => ?_, fun _ => ⟨cartridge, rfl, ?_, ?_, ?_, ?_, ?_⟩⟩
    · rw [hinsert, hd, Console.insertImage, hparse]
      rfl
    · rw [hinsert] at hfault
      cases hfault
    · rw [hd]
      rfl
    · rw [hd]
      rfl
    · rw [hd, hfresh]
      exact (c.bus.shelve.wire_follows _).outline_eq.trans
        (initial.bus.shelve.wire_follows _).outline_eq.symm
    · rw [hd, hfresh]
      exact (c.bus.shelve.video_follows _).outline_eq.trans
        (initial.bus.shelve.video_follows _).outline_eq.symm
    · intro operations hkeep e
      have hrun : e = ((c.console.insert cartridge).afterAll operations).map
          c.bus.shelve.holding :=
        (congrArg (fun d => afterAll d operations) hd).trans (afterAll_keeping _ hkeep _)
      rw [hrun, hd]
      exact ⟨rfl, rfl, serves_afterAll _ rfl hkeep⟩

/-- One bank and then none : the second cartridge reads as zero where the first one, which is on the
shelf, had its bank. -/
theorem insertion_leaves_nothing_behind_second_image :
    let empty : ByteArray := ⟨#[0x4E, 0x45, 0x53, 0x1A, 0, 0, 0, 0, 0, 0, 0, 0, 0, 0, 0, 0]⟩
    let first := (initial.insertImage Console.oneBankImage).2
    let second := (first.insertImage empty).2
    second.bus.devices.shelf = [Image.described Console.oneBankImage] ∧
      (AddressSpace.read 0xC123 second.bus).1 = .ok 0 ∧
      (second.insertImage ⟨#[]⟩).2 = second := by
  intro empty first second
  have hone : Cartridge.parse Console.oneBankImage = .ok (Image.described Console.oneBankImage) :=
    Cartridge.parse_eq_ok_iff.2 ⟨Console.refusal?_oneBankImage, rfl⟩
  have hempty : Cartridge.parse empty = .ok (Image.described empty) :=
    Cartridge.parse_eq_ok_iff.2 ⟨by decide, rfl⟩
  have hshort : Cartridge.parse ⟨#[]⟩ = .error (.tooShort 0) :=
    Cartridge.parse_eq_error_iff.2 (by decide)
  have hfirst : first = _ := congrArg Prod.snd (insertImage_eq initial hone)
  have hbare : first.bus.devices.shelf = [] := by
    rw [hfirst]
    rfl
  have hslot : first.bus.devices.board.cartridge = some (Image.described Console.oneBankImage) := by
    rw [hfirst]
    rfl
  obtain ⟨-, -, haccepted⟩ := insertion_leaves_nothing_behind first empty
  obtain ⟨-, hrefused, -⟩ := insertion_leaves_nothing_behind second ⟨#[]⟩
  obtain ⟨cartridge, hparse, -, -, -, -, hrun⟩ := haccepted (by rw [insertImage, hempty])
  obtain ⟨-, hshelf, -, -, present, hcleared, hserves⟩ := hrun [] (List.forall_mem_nil _)
  obtain rfl : cartridge = Image.described empty :=
    Except.ok.inj (hparse.symm.trans hempty)
  rw [Image.cleared_described] at hcleared
  have hread := hserves.prgRom 0xC123 (by decide)
  rw [Cartridge.readPrg_of_cleared (by decide) hcleared (by decide), if_pos (by decide)] at hread
  refine ⟨?_, congrArg Prod.fst hread, hrefused _ (by rw [insertImage, hshort])⟩
  rw [hbare, hslot] at hshelf
  exact hshelf

end Famicom.WiredConsole
