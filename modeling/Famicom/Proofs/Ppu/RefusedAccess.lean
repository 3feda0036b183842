import Famicom.Proofs.Ppu.DataPort
import Famicom.Proofs.Refusal

/-!
# Registers without a memory behind them

Of all registers only the data register can refuse an access, and it does so where the pattern
tables are missing (`Ppu.Astray`). A read of the palette makes two accesses of its own, but beneath
the palette lies a nametable, so none of the two is refused once the other was answered. That is
why a refused access has not done half of its work : a read leaves the picture unit as it was
(`read_of_astray`), and a write has only put its value on the data lines (`write_of_astray`).

The address stands where it stood, so the same access can be made again when there is a cartridge,
and meets the pattern tables of the cartridge at that address
(`refused_register_leaves_address`).
-/

namespace Famicom

theorem PpuRegister.ofAddress_eq_data_iff_and {a : UInt16} :
    ofAddress a = .data ↔ a &&& 7 = 7 := by
  rw [ofAddress_eq_data_iff, ← UInt16.toNat_inj, UInt16.toNat_and]
  exact Eq.congr_left (Nat.and_two_pow_sub_one_eq_mod a.toNat 3).symm

namespace Ppu

/-- Put a cartridge into the slot. Everything else stays as it is. -/
def insert (p : Ppu) (cartridge : Cartridge) : Ppu :=
  { p with video := p.video.insert (some cartridge) }

/-! ## Where the pattern tables are missing -/

section Astray

variable {p : Ppu} (h : p.Astray)

include h

theorem Astray.below_palette : ¬0x3F00 ≤ p.regs.current.busAddress := fun hpalette =>
  absurd (UInt16.le_trans hpalette h.2) (by decide)

theorem readData_of_astray :
    p.readData = (.error ⟨.read, p.regs.current.busAddress⟩, p) := by
  have hslot : ¬p.video.cartridge.isSome := by simp [h.1]
  simp only [readData, if_neg h.below_palette, VideoSpace.read_eq, if_pos h.2, if_neg hslot]

theorem writeData_of_astray (value : UInt8) :
    p.writeData value = (.error ⟨.write, p.regs.current.busAddress⟩, p) := by
  have hslot : ¬p.video.cartridge.isSome := by simp [h.1]
  simp only [writeData, VideoSpace.write_eq, if_pos h.2, if_neg hslot]

theorem read_of_astray :
    p.read .data = (.error ⟨.read, p.regs.current.busAddress⟩, p) := by
  simp only [read, readData_of_astray h]

theorem write_of_astray (value : UInt8) :
    p.write .data value =
      (.error ⟨.write, p.regs.current.busAddress⟩, { p with latch := value }) :=
  writeData_of_astray (p := { p with latch := value }) h value

end Astray

/-! ## With a cartridge in the slot -/

section Slot

variable (p : Ppu) (cartridge : Cartridge) (h : p.regs.current.busAddress ≤ 0x1FFF)

include h

/-- Below 2000 the data register delivers its buffer and refills it from the pattern tables. -/
theorem read_pattern_insert :
    (p.insert cartridge).read .data = (.ok p.buffer, { p.insert cartridge with
      regs := p.regs.advance
      buffer := cartridge.readChr p.regs.current.busAddress
      latch := p.buffer }) := by
  have hpalette : ¬0x3F00 ≤ (p.insert cartridge).regs.current.busAddress := fun hpalette =>
    absurd (UInt16.le_trans hpalette h) (by decide)
  have hpattern := VideoSpace.read_pattern_of_some (s := (p.insert cartridge).video) rfl h
  rw [read_data (p := p.insert cartridge) rfl, delivered, refillAddress, if_neg hpalette,
    if_neg hpalette, byteAt]
  simp only [insert] at hpattern ⊢
  rw [hpattern]

theorem write_pattern_insert (value : UInt8) :
    (p.insert cartridge).write .data value =
      (.ok (), { p.insert (cartridge.writeChr p.regs.current.busAddress value) with
        regs := p.regs.advance
        latch := value }) := by
  have hpattern := VideoSpace.write_pattern_of_some (s := (p.insert cartridge).video) rfl h value
  rw [write_data (p := p.insert cartridge) rfl]
  simp only [insert] at hpattern ⊢
  rw [hpattern]
  rfl

end Slot

/-! ## Every register -/

/-- A refused access does not count as made. -/
theorem refused_register_leaves_address (p : Ppu) (a : UInt16) (value : UInt8) :
    let register := PpuRegister.ofAddress a
    let v := p.regs.current.toWord &&& 0x3FFF
    let missing := p.video.cartridge = none ∧ a &&& 7 = 7 ∧ v < 0x2000
    ((∃ fault, (p.read register).1 = .error fault) ↔ missing) ∧
    ((∃ fault, (p.write register value).1 = .error fault) ↔ missing) ∧
    (missing →
      p.read register = (.error ⟨.read, v⟩, p) ∧
      p.write register value = (.error ⟨.write, v⟩, { p with latch := value }) ∧
      ∀ cartridge : Cartridge,
        ((p.read register).2.insert cartridge).read register =
          (.ok p.buffer, { p.insert cartridge with
            regs := p.regs.advance, buffer := cartridge.readChr v, latch := p.buffer }) ∧
        ((p.write register value).2.insert cartridge).write register value =
          (.ok (), { p.insert (cartridge.writeChr v value) with
            regs := p.regs.advance, latch := value })) := by
  intro register v missing
  have hmissing : missing ↔ register = .data ∧ p.Astray := by
    simp only [missing, register, PpuRegister.ofAddress_eq_data_iff_and, Astray, v,
      lt_pattern_end_iff, VramAddress.busAddress]
    exact and_left_comm
  have hrefused {α : Type} (outcome : Except BusFault α) (fault : BusFault)
      (h : refused outcome = if register = .data ∧ p.Astray then some fault else none) :
      (∃ fault, outcome = .error fault) ↔ missing := by
    simp only [← refused_eq_some_iff, h, hmissing]
    split_ifs with hcase <;> simp [hcase]
  refine ⟨hrefused _ _ (p.refused_register_read register),
    hrefused _ _ (p.refused_register_write register value), fun h => ?_⟩
  obtain ⟨hdata, hastray⟩ := hmissing.1 h
  rw [hdata]
  refine ⟨read_of_astray hastray, write_of_astray hastray value, fun cartridge => ⟨?_, ?_⟩⟩
  · rw [read_of_astray hastray]
    exact p.read_pattern_insert cartridge hastray.2
  · rw [write_of_astray hastray value]
    exact write_pattern_insert { p with latch := value } cartridge hastray.2 value

/-- A byte is written through a mirror of the data register, first to an empty slot and then to a
cartridge. -/
theorem refused_register_leaves_address_first_write :
    let board : Cartridge := ⟨⟨#[]⟩, .ram (.zeros _), .zeros _, .vertical, false, 0⟩
    let p := initial.after [.write .address 0x12, .write .address 0x34]
    let q := (p.write (.ofAddress 0x3FFF) 0xAB).2.insert board
    (p.write (.ofAddress 0x3FFF) 0xAB).1 = .error ⟨.write, 0x1234⟩ ∧
      ((q.write (.ofAddress 0x3FFF) 0xAB).2.readVram 0x1234).1 = .ok 0xAB := by
  intro board p q
  have hmissing : p.video.cartridge = none ∧ (0x3FFF : UInt16) &&& 7 = 7 ∧
      p.regs.current.toWord &&& 0x3FFF < 0x2000 := ⟨rfl, by decide, by decide +kernel⟩
  obtain ⟨-, -, hatomic⟩ := refused_register_leaves_address p 0x3FFF 0xAB
  obtain ⟨-, hwrite, hretry⟩ := hatomic hmissing
  refine ⟨(congrArg Prod.fst hwrite).trans (by decide +kernel), ?_⟩
  rw [(hretry board).2]
  decide +kernel

end Ppu

end Famicom
