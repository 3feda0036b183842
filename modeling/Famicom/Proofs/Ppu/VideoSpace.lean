import Famicom.Proofs.Board

/-!
# The map of the picture unit's address space

The routes of the picture unit's bus are disjoint, as those of the processor's bus are : `read_eq`
and `write_eq` name the memory behind each address.

A read leaves the memories as they are. A write can store in the RAM of a cartridge, and leaves all
else of it : what the cartridge would be with its RAM cleared (`Cartridge.cleared`) stays the same
as long as it is in the slot (`plugged_write`).
-/

namespace Famicom

/-! ## A cartridge without the contents of its RAM -/

namespace PatternMemory

/-- The memory behind the pattern tables, cleared if it is RAM. -/
def cleared : PatternMemory → PatternMemory
  | rom bytes => rom bytes
  | ram _ => ram (.zeros _)

theorem cleared_write (m : PatternMemory) (a : UInt16) (value : UInt8) :
    (m.write a value).cleared = m.cleared := by
  cases m <;> rfl

/-- ROM is as it was. -/
theorem eq_rom_of_cleared {m : PatternMemory} {bytes : ByteArray} (h : m.cleared = rom bytes) :
    m = rom bytes := by
  cases m with
  | rom => exact h
  | ram => cases h

end PatternMemory

/-- The cartridge as it is made, before anything is stored in its RAM. -/
def Cartridge.cleared (c : Cartridge) : Cartridge :=
  { c with chr := c.chr.cleared, prgRam := .zeros _ }

theorem Cartridge.cleared_writeChr (c : Cartridge) (a : UInt16) (value : UInt8) :
    (c.writeChr a value).cleared = c.cleared := by
  simp only [cleared, writeChr, PatternMemory.cleared_write]

namespace VideoSpace

/-- What is in the slot, whatever was stored in it. -/
def plugged (s : VideoSpace) : Option Cartridge := s.cartridge.map Cartridge.cleared

theorem isSome_plugged (s : VideoSpace) : s.plugged.isSome = s.cartridge.isSome := by
  rw [plugged, Option.isSome_map]

/-! ## Memories and addresses -/

/-- What a read finds, by the memory behind the address. -/
theorem read_eq (a : UInt16) (s : VideoSpace) :
    AddressSpace.read a s =
      if a ≤ 0x1FFF then
        if s.cartridge.isSome then (.ok (s.readPattern a), s) else (.error ⟨.read, a⟩, s)
      else if a ≤ 0x3EFF then (.ok (s.readNametable a), s)
      else if a ≤ 0x3FFF then (.ok (s.readPalette a), s)
      else (.error ⟨.read, a⟩, s) := by
  show s.bus.read a s = _
  unfold bus
  cases s.cartridge.isSome
  all_goals
    simp only [cartridgeBus, emptySlotBus, withMemories, Bus.mapRead, Bus.mapWrite, Bus.addRead,
      Bus.addWrite, Bus.empty, List.nil_append, List.cons_append, Bus.read_cons, Bus.read_nil,
      Span.contains_iff, UInt16.le_iff_toNat_le, UInt16.reduceToNat, Bool.false_eq_true, if_true,
      if_false]
    by_cases hpattern : a.toNat ≤ 0x1FFF
    · simp (disch := omega) only [if_pos, if_neg]
    by_cases hnametable : a.toNat ≤ 0x3EFF
    · simp (disch := omega) only [if_pos, if_neg]
    by_cases hpalette : a.toNat ≤ 0x3FFF <;> simp (disch := omega) only [if_pos, if_neg]

/-- What a write does, by the memory behind the address. -/
theorem write_eq (a : UInt16) (value : UInt8) (s : VideoSpace) :
    AddressSpace.write a value s =
      if a ≤ 0x1FFF then
        if s.cartridge.isSome then (.ok (), s.writePattern a value) else (.error ⟨.write, a⟩, s)
      else if a ≤ 0x3EFF then (.ok (), s.writeNametable a value)
      else if a ≤ 0x3FFF then (.ok (), s.writePalette a value)
      else (.error ⟨.write, a⟩, s) := by
  show s.bus.write a value s = _
  unfold bus
  cases s.cartridge.isSome
  all_goals
    simp only [cartridgeBus, emptySlotBus, withMemories, Bus.mapRead, Bus.mapWrite, Bus.addRead,
      Bus.addWrite, Bus.empty, List.nil_append, List.cons_append, Bus.write_cons, Bus.write_nil,
      Span.contains_iff, UInt16.le_iff_toNat_le, UInt16.reduceToNat, Bool.false_eq_true, if_true,
      if_false]
    by_cases hpattern : a.toNat ≤ 0x1FFF
    · simp (disch := omega) only [if_pos, if_neg]
    by_cases hnametable : a.toNat ≤ 0x3EFF
    · simp (disch := omega) only [if_pos, if_neg]
    by_cases hpalette : a.toNat ≤ 0x3FFF <;> simp (disch := omega) only [if_pos, if_neg]

/-! ## With a cartridge in the slot -/

section Slot

variable {s : VideoSpace} {cartridge : Cartridge} (h : s.cartridge = some cartridge) {a : UInt16}

include h

theorem read_pattern_of_some (ha : a ≤ 0x1FFF) :
    AddressSpace.read a s = (.ok (cartridge.readChr a), s) := by
  rw [read_eq, if_pos ha, readPattern, h]
  rfl

theorem write_pattern_of_some (ha : a ≤ 0x1FFF) (value : UInt8) :
    AddressSpace.write a value s = (.ok (), s.insert (some (cartridge.writeChr a value))) := by
  rw [write_eq, if_pos ha, writePattern, h]
  rfl

theorem read_nametable_of_some (ha : 0x2000 ≤ a) (hle : a ≤ 0x3EFF) :
    AddressSpace.read a s = (.ok (s.vram.read (cartridge.mirroring.nametableOffset a)), s) := by
  have hhigh : ¬a ≤ 0x1FFF := fun hlow => absurd (UInt16.le_trans ha hlow) (by decide)
  rw [read_eq, if_neg hhigh, if_pos hle, readNametable, mirroring, h]

theorem write_nametable_of_some (ha : 0x2000 ≤ a) (hle : a ≤ 0x3EFF) (value : UInt8) :
    AddressSpace.write a value s =
      (.ok (), { s with vram := s.vram.write (cartridge.mirroring.nametableOffset a) value }) := by
  have hhigh : ¬a ≤ 0x1FFF := fun hlow => absurd (UInt16.le_trans ha hlow) (by decide)
  rw [write_eq, if_neg hhigh, if_pos hle, writeNametable, mirroring, h]

end Slot

/-! ## What accesses leave -/

theorem read_snd (a : UInt16) (s : VideoSpace) : (AddressSpace.read a s).2 = s := by
  rw [read_eq]
  split_ifs <;> rfl

theorem exists_read_eq (a : UInt16) (s : VideoSpace) :
    ∃ outcome, AddressSpace.read a s = (outcome, s) :=
  ⟨_, Prod.ext rfl (read_snd a s)⟩

theorem plugged_write (a : UInt16) (value : UInt8) (s : VideoSpace) :
    (AddressSpace.write a value s).2.plugged = s.plugged := by
  rw [write_eq]
  split_ifs
  any_goals rfl
  simp only [plugged, writePattern, Option.map_map, Function.comp_def, Cartridge.cleared_writeChr]

end VideoSpace

end Famicom
