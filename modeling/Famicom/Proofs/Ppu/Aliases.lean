import Famicom.Proofs.Ppu.VideoSpace
import Mathlib.Logic.Basic

/-!
# Addresses that share memory

Three memories lie behind the picture unit's addresses, and each folds its range in its own way. The
nametables repeat from 3000 on, and a board tells them apart by one or two bits of the address
(`Mirroring.nametableOffset_eq_iff`). The palette repeats every 32 bytes, and the backdrops of the
sprites are those of the background (`paletteIndex_eq_iff`). The pattern tables are not folded; as
ROM they keep nothing.

A `VideoCell` is a byte of one of the three, and `VideoSpace.named?` is the one that an address
names. A write changes the contents of this cell alone (`VideoSpace.contents_write`). Two addresses
are `Aliased` if they name the same cell and it can be written (`VideoSpace.aliased_iff`), so what
is stored at one is seen at the other, and nowhere else (`VideoSpace.store_seen_at_aliases`).
-/

namespace Famicom

/-- The pattern tables are not empty. -/
local instance hasCells_patterns : HasCells 0x2000 := ⟨by decide⟩

/-- Nor are the nametables. -/
local instance hasCells_nametables : HasCells 0x1000 := ⟨by decide⟩

/-- Nor is the palette. -/
local instance hasCells_palette : HasCells 32 := ⟨by decide⟩

/-! ## Folding -/

/-- The two addresses differ in no bit that the board looks at : horizontal boards ignore bit 10,
vertical ones bit 11, and all of them the bits above. -/
def Mirroring.Shares (m : Mirroring) (a b : UInt16) : Prop :=
  a.toNat % 0x400 = b.toNat % 0x400 ∧
    (m ≠ .horizontal → a.toNat.testBit 10 = b.toNat.testBit 10) ∧
    (m ≠ .vertical → a.toNat.testBit 11 = b.toNat.testBit 11)

instance (m : Mirroring) (a b : UInt16) : Decidable (m.Shares a b) := by
  unfold Mirroring.Shares
  infer_instance

theorem Mirroring.nametableOffset_eq_iff (m : Mirroring) (a b : UInt16) :
    m.nametableOffset a = m.nametableOffset b ↔ m.Shares a b := by
  simp only [Shares, Nat.testBit_eq_decide_div_mod_eq, decide_eq_decide, Nat.reducePow]
  cases m <;> simp only [nametableOffset, table, ne_eq, reduceCtorEq, not_true_eq_false,
    not_false_eq_true, false_implies, true_implies, true_and, and_true] <;> omega

/-- The backdrops, at the multiples of four, are repeated every 16 bytes. -/
theorem paletteIndex_eq_iff (a b : UInt16) :
    paletteIndex a = paletteIndex b ↔
      a.toNat % 32 = b.toNat % 32 ∨
        a.toNat % 4 = 0 ∧ b.toNat % 4 = 0 ∧ a.toNat % 16 = b.toNat % 16 := by
  simp only [paletteIndex]
  split_ifs <;> omega

/-- A write to the pattern tables is seen in RAM, at its own address. -/
theorem PatternMemory.read_write (m : PatternMemory) (a b : UInt16) (value : UInt8) :
    (m.write a value).read b =
      if m.isRam ∧ b.toNat % 0x2000 = a.toNat % 0x2000 then value else m.read b := by
  cases m with
  | rom bytes => rfl
  | ram cells =>
    have hcells := cells.read_write a.toNat b.toNat value
    simp only [isRam, true_and]
    exact hcells

/-! ## Cells -/

/-- A byte of the memories behind the picture unit's addresses. -/
inductive VideoCell where
  | pattern (index : Fin 0x2000)
  | nametable (index : Fin 0x1000)
  | palette (index : Fin 32)
  deriving DecidableEq, Repr

/-- What a cell keeps of a byte : palette entries have six bits. -/
def VideoCell.kept (cell : VideoCell) (value : UInt8) : UInt8 :=
  match cell with
  | palette _ => value &&& 0x3F
  | _ => value

namespace VideoSpace

/-- The pattern tables can be written. -/
def patternsAreRam (s : VideoSpace) : Bool :=
  match s.cartridge with
  | some c => c.chr.isRam
  | none => false

/-- The cell that an address names. Without a cartridge the pattern tables have none. -/
def named? (s : VideoSpace) (a : UInt16) : Option VideoCell :=
  if a ≤ 0x1FFF then if s.cartridge.isSome then some (.pattern (.ofNat _ a.toNat)) else none
  else if a ≤ 0x3EFF then some (.nametable ⟨_, s.mirroring.nametableOffset_lt a⟩)
  else if a ≤ 0x3FFF then some (.palette ⟨_, paletteIndex_lt a⟩)
  else none

/-- The byte in a cell. -/
def contents (s : VideoSpace) : VideoCell → UInt8
  | .pattern i => s.readPattern (.ofNat i)
  | .nametable i => s.vram.read i
  | .palette i => s.palette.read i

/-- A cell takes what is written to it. -/
def Writable (s : VideoSpace) : VideoCell → Prop
  | .pattern _ => s.patternsAreRam
  | _ => True

instance (s : VideoSpace) (cell : VideoCell) : Decidable (s.Writable cell) :=
  match cell with
  | .pattern _ => inferInstanceAs (Decidable (s.patternsAreRam = true))
  | .nametable _ => inferInstanceAs (Decidable True)
  | .palette _ => inferInstanceAs (Decidable True)

/-! ## Reads and writes -/

theorem read_named {s : VideoSpace} {a : UInt16} {cell : VideoCell} (h : s.named? a = some cell) :
    AddressSpace.read a s = (.ok (s.contents cell), s) := by
  rw [read_eq]
  unfold named? at h
  split_ifs at h ⊢ with hpattern <;> cases h
  · have haddress : UInt16.ofNat (a.toNat % 0x2000) = a := by
      simp only [UInt16.le_iff_toNat_le, UInt16.reduceToNat] at hpattern
      rw [Nat.mod_eq_of_lt (by omega), UInt16.ofNat_toNat]
    rw [contents, Fin.val_ofNat, haddress]
  · rfl
  · rfl

/-- The folding is that of the cartridge as it was made. -/
theorem named?_congr {s t : VideoSpace} (h : t.plugged = s.plugged) (a : UInt16) :
    t.named? a = s.named? a := by
  have hslot : t.cartridge.isSome = s.cartridge.isSome := by
    rw [← isSome_plugged, ← isSome_plugged, h]
  have hmirroring : t.mirroring = s.mirroring := by
    have hcleared (u : VideoSpace) :
        u.mirroring = (u.plugged.map Cartridge.mirroring).getD .horizontal := by
      unfold mirroring plugged
      cases u.cartridge <;> rfl
    rw [hcleared, hcleared, h]
  simp only [named?, hslot, hmirroring]

theorem contents_writePattern {s : VideoSpace} (hslot : s.cartridge.isSome) (a : UInt16)
    (value : UInt8) (cell : VideoCell) :
    (s.writePattern a value).contents cell =
      if s.patternsAreRam ∧ cell = .pattern (.ofNat _ a.toNat) then value else s.contents cell := by
  obtain ⟨cartridge, vram, palette⟩ := s
  obtain ⟨c, rfl⟩ := Option.isSome_iff_exists.1 hslot
  cases cell with
  | nametable i | palette i => simp only [reduceCtorEq, and_false, if_false]; rfl
  | pattern i =>
    have hstore := c.chr.read_write a (.ofNat i) value
    have hindex : (UInt16.ofNat i).toNat = i :=
      UInt16.toNat_ofNat_of_lt' (Nat.lt_trans i.isLt (by decide))
    refine hstore.trans (if_congr (and_congr_right fun _ => ?_) rfl rfl)
    rw [hindex, Nat.mod_eq_of_lt i.isLt, VideoCell.pattern.injEq, Fin.ext_iff, Fin.val_ofNat]

theorem contents_writeNametable (s : VideoSpace) (a : UInt16) (value : UInt8) (cell : VideoCell) :
    (s.writeNametable a value).contents cell =
      if cell = .nametable ⟨_, s.mirroring.nametableOffset_lt a⟩ then value
      else s.contents cell := by
  cases cell with
  | pattern i | palette i => simp only [reduceCtorEq, if_false]; rfl
  | nametable i =>
    have hstore := s.vram.read_write (s.mirroring.nametableOffset a) i value
    refine hstore.trans (if_congr ?_ rfl rfl)
    rw [Nat.mod_eq_of_lt i.isLt, Nat.mod_eq_of_lt (s.mirroring.nametableOffset_lt a),
      VideoCell.nametable.injEq, Fin.ext_iff]

theorem contents_writePalette (s : VideoSpace) (a : UInt16) (value : UInt8) (cell : VideoCell) :
    (s.writePalette a value).contents cell =
      if cell = .palette ⟨_, paletteIndex_lt a⟩ then value &&& 0x3F else s.contents cell := by
  cases cell with
  | pattern i | nametable i => simp only [reduceCtorEq, if_false]; rfl
  | palette i =>
    have hstore := s.palette.read_write (paletteIndex a) i (value &&& 0x3F)
    refine hstore.trans (if_congr ?_ rfl rfl)
    rw [Nat.mod_eq_of_lt i.isLt, Nat.mod_eq_of_lt (paletteIndex_lt a), VideoCell.palette.injEq,
      Fin.ext_iff]

/-- A write changes the cell that its address names, if it takes anything at all, and no other. -/
theorem contents_write {s : VideoSpace} {a : UInt16} {cell : VideoCell} (h : s.named? a = some cell)
    (value : UInt8) : (AddressSpace.write a value s).1 = .ok () ∧
      ∀ other, (AddressSpace.write a value s).2.contents other =
        if s.Writable cell ∧ other = cell then cell.kept value else s.contents other := by
  rw [write_eq]
  unfold named? at h
  split_ifs at h ⊢ with hpattern hslot <;> cases h
  · exact ⟨rfl, contents_writePattern hslot a value⟩
  · refine ⟨rfl, fun other => ?_⟩
    simp only [Writable, true_and]
    exact contents_writeNametable s a value other
  · refine ⟨rfl, fun other => ?_⟩
    simp only [Writable, true_and]
    exact contents_writePalette s a value other

/-! ## Aliases -/

/-- A byte stored at `a` is seen at `b` : in RAM the address is the same, in the nametables it is
told apart by the board, and in the palette it is the same entry. -/
def Aliased (s : VideoSpace) (a b : UInt16) : Prop :=
  a ≤ 0x1FFF ∧ a = b ∧ s.patternsAreRam ∨
  (0x2000 ≤ a ∧ a ≤ 0x3EFF) ∧ (0x2000 ≤ b ∧ b ≤ 0x3EFF) ∧ s.mirroring.Shares a b ∨
  (0x3F00 ≤ a ∧ a ≤ 0x3FFF) ∧ (0x3F00 ≤ b ∧ b ≤ 0x3FFF) ∧
    (a.toNat % 32 = b.toNat % 32 ∨
      a.toNat % 4 = 0 ∧ b.toNat % 4 = 0 ∧ a.toNat % 16 = b.toNat % 16)

instance (s : VideoSpace) (a b : UInt16) : Decidable (s.Aliased a b) := by
  unfold Aliased
  infer_instance

/-- There is memory at the address. -/
def Mapped (s : VideoSpace) (a : UInt16) : Prop := a ≤ 0x3FFF ∧ (s.cartridge = none → 0x2000 ≤ a)

theorem Mapped.named? {s : VideoSpace} {a : UInt16} (h : s.Mapped a) :
    ∃ cell, s.named? a = some cell := by
  obtain ⟨hle, hslot⟩ := h
  unfold VideoSpace.named?
  split_ifs with hpattern hsome
  · exact ⟨_, rfl⟩
  · have hnone : s.cartridge = none := by simpa using hsome
    exact absurd (UInt16.le_trans (hslot hnone) hpattern) (by decide)
  · exact ⟨_, rfl⟩
  · exact ⟨_, rfl⟩

theorem named?_eq_pattern_iff {s : VideoSpace} {a : UInt16} {i : Fin 0x2000} :
    s.named? a = some (.pattern i) ↔ a ≤ 0x1FFF ∧ s.cartridge.isSome ∧ a.toNat = i := by
  unfold named?
  by_cases hpattern : a ≤ 0x1FFF
  · have hindex : a.toNat % 0x2000 = a.toNat := by
      simp only [UInt16.le_iff_toNat_le, UInt16.reduceToNat] at hpattern
      omega
    cases s.cartridge.isSome <;> simp [hpattern, hindex, Fin.ext_iff]
  · simp only [hpattern, if_false, false_and]
    split_ifs <;> simp

theorem named?_eq_nametable_iff {s : VideoSpace} {a : UInt16} {i : Fin 0x1000} :
    s.named? a = some (.nametable i) ↔
      (0x2000 ≤ a ∧ a ≤ 0x3EFF) ∧ s.mirroring.nametableOffset a = i := by
  unfold named?
  simp only [UInt16.le_iff_toNat_le, UInt16.reduceToNat]
  split_ifs <;> simp [Fin.ext_iff] <;> omega

theorem named?_eq_palette_iff {s : VideoSpace} {a : UInt16} {i : Fin 32} :
    s.named? a = some (.palette i) ↔ (0x3F00 ≤ a ∧ a ≤ 0x3FFF) ∧ paletteIndex a = i := by
  unfold named?
  simp only [UInt16.le_iff_toNat_le, UInt16.reduceToNat]
  split_ifs <;> simp [Fin.ext_iff] <;> omega

/-- Aliases are the names of one cell that can be written. -/
theorem aliased_iff {s : VideoSpace} {a b : UInt16} {cell : VideoCell}
    (ha : s.named? a = some cell) :
    s.Aliased a b ↔ s.Writable cell ∧ s.named? b = some cell := by
  unfold Aliased
  cases cell with
  | pattern i =>
    obtain ⟨hle, hslot, hindex⟩ := named?_eq_pattern_iff.1 ha
    rw [named?_eq_pattern_iff]
    constructor
    · rintro (⟨-, rfl, hram⟩ | ⟨⟨hge, -⟩, -⟩ | ⟨⟨hge, -⟩, -⟩)
      · exact ⟨hram, hle, hslot, hindex⟩
      · exact absurd (UInt16.le_trans hge hle) (by decide)
      · exact absurd (UInt16.le_trans hge hle) (by decide)
    · rintro ⟨hram, -, -, hother⟩
      exact Or.inl ⟨hle, UInt16.toNat_inj.1 (hindex.trans hother.symm), hram⟩
  | nametable i =>
    obtain ⟨hrange, hoffset⟩ := named?_eq_nametable_iff.1 ha
    rw [named?_eq_nametable_iff, ← hoffset, @eq_comm _ (s.mirroring.nametableOffset b),
      Mirroring.nametableOffset_eq_iff]
    constructor
    · rintro (⟨hle, -⟩ | ⟨-, hother⟩ | ⟨⟨hge, -⟩, -⟩)
      · exact absurd (UInt16.le_trans hrange.1 hle) (by decide)
      · exact ⟨trivial, hother⟩
      · exact absurd (UInt16.le_trans hge hrange.2) (by decide)
    · rintro ⟨-, hother⟩
      exact Or.inr (Or.inl ⟨hrange, hother⟩)
  | palette i =>
    obtain ⟨hrange, hindex⟩ := named?_eq_palette_iff.1 ha
    rw [named?_eq_palette_iff, ← hindex, @eq_comm _ (paletteIndex b), paletteIndex_eq_iff]
    constructor
    · rintro (⟨hle, -⟩ | ⟨⟨-, hle⟩, -⟩ | ⟨-, hother⟩)
      · exact absurd (UInt16.le_trans hrange.1 hle) (by decide)
      · exact absurd (UInt16.le_trans hrange.1 hle) (by decide)
      · exact ⟨trivial, hother⟩
    · rintro ⟨-, hother⟩
      exact Or.inr (Or.inr ⟨hrange, hother⟩)

theorem kept_eq {s : VideoSpace} {a : UInt16} {cell : VideoCell} (h : s.named? a = some cell)
    (value : UInt8) : cell.kept value = if 0x3F00 ≤ a then value &&& 0x3F else value := by
  cases cell with
  | pattern i =>
    obtain ⟨hle, -, -⟩ := named?_eq_pattern_iff.1 h
    exact (if_neg fun hge => absurd (UInt16.le_trans hge hle) (by decide)).symm
  | nametable i =>
    obtain ⟨⟨-, hle⟩, -⟩ := named?_eq_nametable_iff.1 h
    exact (if_neg fun hge => absurd (UInt16.le_trans hge hle) (by decide)).symm
  | palette i =>
    obtain ⟨⟨hge, -⟩, -⟩ := named?_eq_palette_iff.1 h
    exact (if_pos hge).symm

/-- Wherever there is memory a write succeeds and can be read back. A read finds the stored byte,
six bits of it in the palette, if the two addresses are aliased, and otherwise what it found
before. -/
theorem store_seen_at_aliases {s : VideoSpace} {a x : UInt16} (ha : s.Mapped a) (hx : s.Mapped x)
    (value : UInt8) :
    let after := (AddressSpace.write a value s).2
    (AddressSpace.write a value s).1 = .ok () ∧
      ∃ before, AddressSpace.read x s = (.ok before, s) ∧
        AddressSpace.read x after =
          (.ok (if s.Aliased a x then if 0x3F00 ≤ a then value &&& 0x3F else value else before),
            after) := by
  intro after
  obtain ⟨cell, hcell⟩ := ha.named?
  obtain ⟨other, hother⟩ := hx.named?
  obtain ⟨hok, hcontents⟩ := contents_write hcell value
  have hafter : after.named? x = some other :=
    (named?_congr (plugged_write a value s) x).trans hother
  refine ⟨hok, s.contents other, read_named hother, ?_⟩
  rw [read_named hafter, hcontents, kept_eq hcell]
  simp only [aliased_iff hcell, hother, Option.some.injEq]

/-- On a vertical board the tables above each other are one, and the ones beside each other are not;
a backdrop of the sprites is one of the background, in six bits. -/
theorem store_seen_at_aliases_vertical :
    let board : Cartridge := ⟨⟨#[]⟩, .ram (.zeros _), .zeros _, .vertical, false, 0⟩
    let s := VideoSpace.initial.insert (some board)
    (AddressSpace.read 0x2C05 (AddressSpace.write 0x2405 0x77 s).2).1 = .ok 0x77 ∧
      (AddressSpace.read 0x2805 (AddressSpace.write 0x2405 0x77 s).2).1 =
        (AddressSpace.read 0x2805 s).1 ∧
      (AddressSpace.read 0x3FC4 (AddressSpace.write 0x3F34 0xFF s).2).1 = .ok 0x3F := by
  intro board s
  have mapped (a : UInt16) (h : a ≤ 0x3FFF) : s.Mapped a := ⟨h, fun hnone => nomatch hnone⟩
  obtain ⟨-, _, -, habove⟩ :=
    store_seen_at_aliases (mapped 0x2405 (by decide)) (mapped 0x2C05 (by decide)) 0x77
  obtain ⟨-, before, hbefore, hbeside⟩ :=
    store_seen_at_aliases (mapped 0x2405 (by decide)) (mapped 0x2805 (by decide)) 0x77
  obtain ⟨-, _, -, hbackdrop⟩ :=
    store_seen_at_aliases (mapped 0x3F34 (by decide)) (mapped 0x3FC4 (by decide)) 0xFF
  rw [if_pos (by decide)] at habove
  rw [if_neg (by decide)] at hbeside
  rw [if_pos (by decide)] at hbackdrop
  rw [habove, hbeside, hbefore, hbackdrop]
  exact ⟨rfl, rfl, rfl⟩

end VideoSpace

end Famicom
