import Famicom.Proofs.Refusal

/-!
# What a store changes

Two memories on the processor's bus can be written and read back : work RAM, and PRG RAM while a
cartridge is in the slot. A `Cell` is a byte of either, and `Cell.named?` is the one that an address
names. Work RAM is repeated over its range, so its cells have four names each; a cell of PRG RAM has
one.

A write stores in the cell that its address names and leaves every other cell as it was
(`Board.contents_write`). This includes the writes that reach a device : what a register of the
picture unit does to the cartridge, it does to the memory behind the pattern tables
(`VideoSpace.prgRam?_write`). As PRG ROM does not change either, a read of memory finds what was
stored in its cell, or what it found before (`Board.store_seen_in_its_cell`).
-/

namespace Famicom

/-- Work RAM is not empty. -/
local instance hasCells_ram : HasCells 0x800 := ⟨by decide⟩

/-- PRG RAM is not empty. -/
local instance hasCells_prgRam : HasCells 0x2000 := ⟨by decide⟩

/-! ## Cells -/

/-- A byte that the processor can store and read back. -/
inductive Cell where
  /-- A byte of work RAM. -/
  | ram (index : Fin 0x800)
  /-- A byte of the cartridge's PRG RAM. -/
  | prgRam (index : Fin 0x2000)
  deriving DecidableEq, Repr

namespace Cell

/-- The cell that an address names. -/
def named? (a : UInt16) : Option Cell :=
  if a ≤ 0x1FFF then some (ram (.ofNat _ a.toNat))
  else if 0x6000 ≤ a ∧ a ≤ 0x7FFF then some (prgRam (.ofNat _ (a.toNat - 0x6000)))
  else none

theorem named?_ram {a : UInt16} (h : a ≤ 0x1FFF) : named? a = some (ram (.ofNat _ a.toNat)) :=
  if_pos h

theorem named?_prgRam {a : UInt16} (ha : 0x6000 ≤ a) (hle : a ≤ 0x7FFF) :
    named? a = some (prgRam (.ofNat _ (a.toNat - 0x6000))) := by
  have hhigh : ¬a ≤ 0x1FFF := fun hlow => absurd (UInt16.le_trans ha hlow) (by decide)
  rw [named?, if_neg hhigh, if_pos ⟨ha, hle⟩]

theorem named?_eq_none_iff {a : UInt16} :
    named? a = none ↔ ¬a ≤ 0x1FFF ∧ ¬(0x6000 ≤ a ∧ a ≤ 0x7FFF) := by
  unfold named?
  split_ifs with hram hprgRam <;> simp [*]

end Cell

/-! ## The memory behind the picture unit's registers -/

namespace VideoSpace

/-- The PRG RAM of the cartridge in the slot. -/
def prgRam? (s : VideoSpace) : Option (Memory 0x2000) := s.cartridge.map Cartridge.prgRam

theorem prgRam?_write (a : UInt16) (value : UInt8) (s : VideoSpace) :
    (AddressSpace.write a value s).2.prgRam? = s.prgRam? := by
  rw [write_eq]
  split_ifs
  any_goals rfl
  rw [prgRam?, writePattern, Option.map_map]
  rfl

end VideoSpace

theorem Ppu.prgRam?_write (p : Ppu) (register : PpuRegister) (value : UInt8) :
    (p.write register value).2.video.prgRam? = p.video.prgRam? := by
  rw [video_write]
  split_ifs
  · exact VideoSpace.prgRam?_write _ _ _
  · rfl

/-! ## Contents -/

namespace Board

/-- The byte in a cell. While the slot is empty the cells of PRG RAM are missing, and count as
zero. -/
def contents (b : Board) : Cell → UInt8
  | .ram i => b.ram.read i
  | .prgRam i => (b.ppu.video.prgRam?.map fun m => m.read i).getD 0

/-- The two memories hold all cells. -/
theorem contents_congr {b d : Board} (hram : d.ram = b.ram)
    (hprgRam : d.ppu.video.prgRam? = b.ppu.video.prgRam?) (cell : Cell) :
    d.contents cell = b.contents cell := by
  cases cell with
  | ram i => rw [contents, contents, hram]
  | prgRam i => rw [contents, contents, hprgRam]

theorem contents_prgRam {b : Board} {cartridge : Cartridge} (h : b.cartridge = some cartridge)
    (i : Fin 0x2000) : b.contents (.prgRam i) = cartridge.prgRam.read i := by
  have hvideo : b.ppu.video.cartridge = some cartridge := h
  rw [contents, VideoSpace.prgRam?, hvideo]
  rfl

theorem contents_write_ram {a : UInt16} (h : a ≤ 0x1FFF) (value : UInt8) (b : Board)
    (cell : Cell) : (AddressSpace.write a value b).2.contents cell =
      if Cell.named? a = some cell then value else b.contents cell := by
  rw [write_eq, if_pos h, Cell.named?_ram h]
  cases cell with
  | prgRam i => rfl
  | ram i =>
    have hstore := b.ram.read_write a.toNat i value
    refine hstore.trans (if_congr ?_ rfl rfl)
    rw [Nat.mod_eq_of_lt i.isLt, Option.some.injEq, Cell.ram.injEq, Fin.ext_iff, Fin.val_ofNat,
      eq_comm]

theorem contents_write_prgRam {b : Board} (hslot : b.cartridge.isSome) {a : UInt16}
    (ha : 0x6000 ≤ a) (hle : a ≤ 0x7FFF) (value : UInt8) (cell : Cell) :
    (AddressSpace.write a value b).2.contents cell =
      if Cell.named? a = some cell then value else b.contents cell := by
  obtain ⟨cartridge, hcartridge⟩ := Option.isSome_iff_exists.1 hslot
  rw [write_prgRam_of_some hcartridge ha hle, Cell.named?_prgRam ha hle]
  cases cell with
  | ram i => rfl
  | prgRam i =>
    have hstore := cartridge.prgRam.read_write a.toNat i value
    rw [contents_prgRam hcartridge]
    refine hstore.trans (if_congr ?_ rfl rfl)
    rw [Nat.mod_eq_of_lt i.isLt, Option.some.injEq, Cell.prgRam.injEq, Fin.ext_iff,
      Fin.val_ofNat, eq_comm]
    -- The range begins at a multiple of the size.
    simp only [UInt16.le_iff_toNat_le, UInt16.reduceToNat] at ha
    omega

/-- A write to an address without a cell changes neither memory, whether it is refused or reaches a
device. -/
theorem contents_write_of_none {a : UInt16} (h : Cell.named? a = none) (value : UInt8) (b : Board)
    (cell : Cell) : (AddressSpace.write a value b).2.contents cell = b.contents cell := by
  obtain ⟨hram, hprgRam⟩ := Cell.named?_eq_none_iff.1 h
  rw [write_eq, if_neg hram]
  split_ifs with hppu _ _ _ hcart hle
  any_goals rfl
  · exact contents_congr (b := b) (d := (writePpu a value b).2) rfl (b.ppu.prgRam?_write _ value)
      cell
  · exact absurd ⟨hcart.2, hle⟩ hprgRam

/-- A write stores in the cell that its address names, and in no other. Only work RAM is there
without a cartridge. -/
theorem contents_write {b : Board} {a : UInt16} (hslot : a ≤ 0x1FFF ∨ b.cartridge.isSome)
    (value : UInt8) (cell : Cell) : (AddressSpace.write a value b).2.contents cell =
      if Cell.named? a = some cell then value else b.contents cell := by
  by_cases hram : a ≤ 0x1FFF
  · exact contents_write_ram hram value b cell
  by_cases hprgRam : 0x6000 ≤ a ∧ a ≤ 0x7FFF
  · exact contents_write_prgRam (hslot.resolve_left hram) hprgRam.1 hprgRam.2 value cell
  · have hnone := Cell.named?_eq_none_iff.2 ⟨hram, hprgRam⟩
    rw [contents_write_of_none hnone, hnone]
    rfl

theorem isSome_cartridge_write (a : UInt16) (value : UInt8) (b : Board) :
    (AddressSpace.write a value b).2.cartridge.isSome = b.cartridge.isSome :=
  isSome_cartridge_congr (plugged_write a value b)

/-! ## Reading back -/

/-- A read finds the byte in the cell. -/
theorem read_named {b : Board} {x : UInt16} (hslot : x ≤ 0x1FFF ∨ b.cartridge.isSome) {cell : Cell}
    (h : Cell.named? x = some cell) : AddressSpace.read x b = (.ok (b.contents cell), b) := by
  unfold Cell.named? at h
  split_ifs at h with hram hprgRam <;> cases h
  · have hcell : b.ram.read (x.toNat % 0x800) = b.ram.read x.toNat :=
      b.ram.read_congr (Nat.mod_mod _ _)
    rw [read_eq, if_pos hram, readRam, contents, Fin.val_ofNat, hcell]
  · obtain ⟨cartridge, hcartridge⟩ := Option.isSome_iff_exists.1 (hslot.resolve_left hram)
    obtain ⟨ha, hle⟩ := hprgRam
    have hcell : cartridge.prgRam.read ((x.toNat - 0x6000) % 0x2000) =
        cartridge.prgRam.read x.toNat := by
      refine cartridge.prgRam.read_congr ?_
      simp only [UInt16.le_iff_toNat_le, UInt16.reduceToNat] at ha
      omega
    rw [read_prgRam_of_some hcartridge ha hle, contents_prgRam hcartridge, Fin.val_ofNat, hcell,
      Cartridge.readPrgRam]

/-- PRG ROM reads the same as before any write. -/
theorem read_prg_write {b : Board} (hslot : b.cartridge.isSome) (a : UInt16) (value : UInt8)
    {x : UInt16} (hx : 0x8000 ≤ x) :
    ∃ byte, AddressSpace.read x b = (.ok byte, b) ∧
      AddressSpace.read x (AddressSpace.write a value b).2 =
        (.ok byte, (AddressSpace.write a value b).2) := by
  obtain ⟨cartridge, hcartridge⟩ := Option.isSome_iff_exists.1 hslot
  have hplugged := plugged_write a value b
  have hbefore : b.plugged = some cartridge.cleared :=
    congrArg (Option.map Cartridge.cleared) hcartridge
  obtain ⟨present, hpresent, hcleared⟩ := Option.map_eq_some_iff.1 (hplugged.trans hbefore)
  have hprg : present.cleared.prg = cartridge.cleared.prg := congrArg Cartridge.prg hcleared
  refine ⟨cartridge.readPrg x, read_prg_of_some hcartridge hx, ?_⟩
  rw [read_prg_of_some hpresent hx]
  exact congrArg (fun prg => (Except.ok (cyclicByte prg (x - 0x8000).toNat), _)) hprg

/-- Registers, sound, test mode and PRG ROM lie at addresses without a cell. -/
theorem named?_of_device {a : UInt16} (h : 0x2000 ≤ a ∧ a ≤ 0x5FFF ∨ 0x8000 ≤ a) :
    Cell.named? a = none := by
  rw [Cell.named?_eq_none_iff]
  simp only [UInt16.le_iff_toNat_le, UInt16.reduceToNat] at h ⊢
  omega

/-- With a cartridge in the slot all memory can be read. After a write a read finds the written byte
if both addresses name the same cell, and otherwise what it found before; so a write to a device
changes nothing that is read from memory. -/
theorem store_seen_in_its_cell {b : Board} (hslot : b.cartridge.isSome) (a : UInt16) (value : UInt8)
    {x : UInt16} (hx : x ≤ 0x1FFF ∨ 0x6000 ≤ x) :
    let after := (AddressSpace.write a value b).2
    ∃ before, AddressSpace.read x b = (.ok before, b) ∧
      AddressSpace.read x after =
        (.ok (if (Cell.named? a).isSome ∧ Cell.named? a = Cell.named? x then value else before),
          after) ∧
      (0x2000 ≤ a ∧ a ≤ 0x5FFF ∨ 0x8000 ≤ a → AddressSpace.read x after = (.ok before, after)) := by
  intro after
  have hslot' : after.cartridge.isSome := by rwa [isSome_cartridge_write]
  cases hcell : Cell.named? x with
  | some cell =>
    refine ⟨b.contents cell, read_named (.inr hslot) hcell, ?_, fun hdevice => ?_⟩
    · rw [read_named (.inr hslot') hcell, contents_write (.inr hslot)]
      have hsame : Cell.named? a = some cell ↔
          (Cell.named? a).isSome ∧ Cell.named? a = some cell := by
        refine ⟨fun h => ⟨?_, h⟩, And.right⟩
        rw [h]
        rfl
      simp only [← hsame]
    · rw [read_named (.inr hslot') hcell, contents_write_of_none (named?_of_device hdevice)]
  | none =>
    have hrom : 0x8000 ≤ x := by
      obtain ⟨hram, hprgRam⟩ := Cell.named?_eq_none_iff.1 hcell
      simp only [UInt16.le_iff_toNat_le, UInt16.reduceToNat] at hx hram hprgRam ⊢
      omega
    obtain ⟨byte, hbefore, hafter⟩ := read_prg_write hslot a value hrom
    refine ⟨byte, hbefore, ?_, fun _ => hafter⟩
    have hother : ¬((Cell.named? a).isSome ∧ Cell.named? a = none) := by
      rintro ⟨hsome, hnone⟩
      rw [hnone] at hsome
      cases hsome
    rw [if_neg hother]
    exact hafter

/-- A byte stored under one name of its cell is read under another, and a byte of PRG RAM is not
one of work RAM. -/
theorem store_seen_in_its_cell_under_another_name :
    let full := (Console.initial.insertImage Console.oneBankImage).2.bus
    (AddressSpace.read 0x1801 (AddressSpace.write 0x0001 0x42 full).2).1 = .ok 0x42 ∧
      (AddressSpace.read 0x07FF (AddressSpace.write 0x67FF 0x42 full).2).1 = .ok 0 := by
  intro full
  have hfull : full.cartridge.isSome :=
    Console.isSome_cartridge_insertImage Console.insertImage_oneBankImage
  obtain ⟨_, -, hname, -⟩ :=
    store_seen_in_its_cell hfull 0x0001 0x42 (Or.inl (by decide : (0x1801 : UInt16) ≤ 0x1FFF))
  obtain ⟨before, hbefore, hother, -⟩ :=
    store_seen_in_its_cell hfull 0x67FF 0x42 (Or.inl (by decide : (0x07FF : UInt16) ≤ 0x1FFF))
  rw [if_pos (by decide)] at hname
  rw [if_neg (by decide)] at hother
  have hram : full.ram = .zeros _ := Console.insertImage_ram ..
  have hzero : (AddressSpace.read 0x07FF full).1 = .ok 0 := by
    rw [read_eq, if_pos (by decide), readRam, hram]
    exact congrArg Except.ok (Memory.read_filled 0 _)
  rw [hbefore] at hzero
  rw [hname, hother]
  exact ⟨rfl, hzero⟩

end Board

end Famicom
