import Famicom.Proofs.Ppu.Run
import Famicom.Proofs.Ppu.Scroll
import Famicom.Proofs.Ppu.Words
import Famicom.Proofs.ReadOnly

/-!
# Bounds of the picture unit

The beam stands on a dot of a frame, both scroll positions have fifteen bits, the fine column has
three and a colour has six (`Ppu.Bounded`). Every write to a register, every movement of the beam
and every store keeps this. For bit 15 of a position it takes all of them together : a movement
copies or keeps the bit, as do three of the writes, and so none of them could clear it.

What happens to the picture unit in a console is one of a few things (`Ppu.Kept`). A property that
each of these keeps is kept by whatever the host does, a step of any program included
(`Ppu.Kept.perform`), and holds at the end of every run (`Ppu.Kept.afterAll`).

Two movements add to a position as a word, and neither sum leaves the field it is for
(`ScrollWord.AddsWithin`) : the addition is not made where the field is full.
-/

namespace Famicom

/-- The palette is not empty. -/
local instance hasCells_colours : HasCells 32 := ⟨by decide⟩

/-! ## What is kept in every run -/

/-- A property of the picture unit that all keep that happens to it in a console. -/
structure Ppu.Kept (P : Ppu → Prop) : Prop where
  initial : P .initial
  powerUp : ∀ p, P p → P p.powerUp
  perform : ∀ a p, P p → P (PpuAction.perform p a)
  insert : ∀ cartridge p, P p → P { p with video := p.video.insert cartridge }
  store : ∀ a value p, P p → P { p with video := (AddressSpace.write a value p.video).2 }

namespace Ppu.Kept

variable {P : Ppu → Prop} (hP : Kept P)

include hP

theorem board : Board.Keeps fun b => P b.ppu where
  read a b h := by
    rw [Board.read_eq]
    split_ifs
    any_goals exact h
    exact hP.perform (.read _) b.ppu h
  write a value b h := by
    rw [Board.write_eq]
    split_ifs
    any_goals exact h
    · exact hP.perform (.write _ value) b.ppu h
    · unfold Board.writePrgRam
      cases b.cartridge with
      | none => exact h
      | some cartridge => exact hP.insert _ b.ppu h
  request _ h := h
  writeOam value b h := hP.perform (.writeOam value) b.ppu h
  tick b h := hP.perform .tick b.ppu h
  takeInterrupt b h := hP.perform .poll b.ppu h

theorem insertImage {c : Console} (image : ByteArray) (h : P c.bus.ppu) :
    P (c.insertImage image).2.bus.ppu := by
  unfold Console.insertImage
  split
  · exact hP.insert _ c.bus.ppu h
  · exact h

/-- Whatever the host does. -/
theorem operation (o : Operation) {c : Console} (h : P c.bus.ppu) : P (o.perform c).bus.ppu := by
  cases o with
  | readVideo a =>
    rw [Operation.perform, VideoSpace.read_snd]
    exact h
  | writeVideo a value => exact hP.store a value c.bus.ppu h
  | host a =>
    cases a with
    | insert image => exact hP.insertImage image h
    | powerUp => exact hP.powerUp c.bus.ppu h
    | reset => exact hP.perform .reset c.bus.ppu h
    | step => exact hP.board.step h
    | read a => exact hP.board.read a c.bus h
    | write a value => exact hP.board.write a value c.bus h
    | tick => exact hP.board.tick c.bus h
    | press | assign => exact h

/-- At the end of every run. -/
theorem afterAll (operations : List Operation) :
    P (Console.initial.afterAll operations).bus.ppu := by
  suffices ∀ c : Console, P c.bus.ppu → P (c.afterAll operations).bus.ppu from this _ hP.initial
  induction operations with
  | nil => exact fun _ h => h
  | cons o operations ih => exact fun c h => ih _ (hP.operation o h)

end Ppu.Kept

/-! ## Fifteen bits -/

namespace VramAddress

theorem spare_eq_false_iff (v : VramAddress) : v.spare = false ↔ v.toNat < 0x8000 := by
  obtain ⟨cx, cy, nx, ny, fy, spare⟩ := v
  have := cx.isLt
  have := cy.isLt
  have := nx.toNat_le
  have := ny.toNat_le
  have := fy.isLt
  cases spare
  · simp only [toNat, Bool.toNat_false, true_iff]
    omega
  · simp only [toNat, Bool.toNat_true, Bool.true_eq_false, false_iff]
    omega

theorem spare_ofWord {w : UInt16} (h : w.toNat < 0x8000) : (ofWord w).spare = false := by
  rw [spare_eq_false_iff, ← toNat_toWord, toWord_ofWord]
  exact h

theorem spare_advance (v : VramAddress) (step : Nat) : (v.advance step).spare = false := by
  refine spare_ofWord ?_
  rw [UInt16.toNat_ofNat_of_lt' (Nat.lt_trans (Nat.mod_lt _ (by decide)) (by decide))]
  exact Nat.mod_lt _ (by decide)

theorem spare_setHigh (t : VramAddress) (value : UInt8) : (t.setHigh value).spare = false := by
  refine spare_ofWord ?_
  have hhigh : (value &&& 0x3F).toNat < 0x40 :=
    Nat.lt_of_le_of_lt (UInt8.le_iff_toNat_le.1 UInt8.and_le_right) (by decide)
  have hlow := (lowByte t.toWord).toNat_lt
  rw [toNat_word]
  omega

/-- The high byte stays. -/
theorem spare_setLow (t : VramAddress) (value : UInt8) (h : t.spare = false) :
    (t.setLow value).spare = false := by
  refine spare_ofWord ?_
  rw [spare_eq_false_iff, ← toNat_toWord] at h
  have hvalue := value.toNat_lt
  rw [toNat_word, toNat_highByte]
  omega

end VramAddress

/-! ## The registers -/

/-- Both positions have fifteen bits, and the fine column has three. -/
structure PpuRegisters.Bounded (r : PpuRegisters) : Prop where
  current : r.current.spare = false
  latched : r.latched.spare = false
  fineX : r.fineX < 8

theorem PpuRegisters.bounded_initial : initial.Bounded := ⟨by decide, by decide, by decide⟩

namespace PpuRegisters.Bounded

variable {r : PpuRegisters} (h : r.Bounded)

include h

theorem writeScroll (value : UInt8) : (r.writeScroll value).Bounded := by
  unfold PpuRegisters.writeScroll
  split
  · exact ⟨h.current, rfl, h.fineX⟩
  · refine ⟨h.current, h.latched, ?_⟩
    exact UInt8.lt_of_le_of_lt UInt8.and_le_right (by decide)

theorem writeAddress (value : UInt8) : (r.writeAddress value).Bounded := by
  unfold PpuRegisters.writeAddress
  split
  · have haddress := r.latched.spare_setLow value h.latched
    exact ⟨haddress, haddress, h.fineX⟩
  · exact ⟨h.current, r.latched.spare_setHigh value, h.fineX⟩

theorem advance : r.advance.Bounded := ⟨r.current.spare_advance _, h.latched, h.fineX⟩

end PpuRegisters.Bounded

/-! ## The picture unit -/

namespace VideoSpace

/-- All entries of the palette are colours. -/
def Coloured (s : VideoSpace) : Prop := ∀ i, s.palette.read i < 0x40

theorem coloured_initial : initial.Coloured := fun i => by
  rw [show initial.palette.read i = 0 from Memory.read_filled 0 i]
  decide

theorem Coloured.toList {s : VideoSpace} (h : s.Coloured) :
    ∀ value ∈ s.palette.toList, value < 0x40 := by
  intro value hvalue
  obtain ⟨i, rfl⟩ := Memory.exists_read_of_mem_toList hvalue
  exact h i

theorem Coloured.write {s : VideoSpace} (h : s.Coloured) (a : UInt16) (value : UInt8) :
    (AddressSpace.write a value s).2.Coloured := by
  rw [write_eq]
  split_ifs
  any_goals exact h
  intro i
  simp only [writePalette, Memory.read_write]
  split_ifs
  · exact UInt8.lt_of_le_of_lt UInt8.and_le_right (by decide)
  · exact h i

end VideoSpace

namespace Ppu

/-- Beam, registers and palette are within their bounds. -/
structure Bounded (p : Ppu) : Prop where
  beam : p.beam.InRange
  regs : p.regs.Bounded
  palette : p.video.Coloured

theorem bounded_fresh {s : VideoSpace} (h : s.Coloured) : (fresh s).Bounded :=
  ⟨Beam.inRange_start, PpuRegisters.bounded_initial, h⟩

namespace Bounded

variable {p : Ppu} (h : p.Bounded)

include h

theorem read (register : PpuRegister) : (p.read register).2.Bounded := by
  refine ⟨(p.quiet_read register).beam ▸ h.beam, ?_, p.video_read register ▸ h.palette⟩
  by_cases hstatus : register = .status
  · subst hstatus
    exact ⟨h.regs.current, h.regs.latched, h.regs.fineX⟩
  · rcases p.regs_read hstatus with hregs | hregs <;> rw [hregs]
    · exact h.regs
    · exact h.regs.advance

theorem writeData (value : UInt8) : (p.writeData value).2.Bounded := by
  refine ⟨(p.quiet_writeData value).beam ▸ h.beam, ?_,
    p.video_writeData value ▸ h.palette.write p.regs.current.busAddress value⟩
  rcases p.regs_writeData value with hregs | hregs <;> rw [hregs]
  · exact h.regs
  · exact h.regs.advance

theorem write (register : PpuRegister) (value : UInt8) : (p.write register value).2.Bounded := by
  have hlatch : Bounded { p with latch := value } := ⟨h.beam, h.regs, h.palette⟩
  cases register with
  | scroll => exact ⟨h.beam, h.regs.writeScroll value, h.palette⟩
  | address => exact ⟨h.beam, h.regs.writeAddress value, h.palette⟩
  | data => exact hlatch.writeData value
  | _ => exact ⟨h.beam, ⟨h.regs.current, h.regs.latched, h.regs.fineX⟩, h.palette⟩

theorem tick : p.tick.Bounded := by
  refine ⟨tick_inRange h.beam, ?_, p.video_tick ▸ h.palette⟩
  rw [tick_eq]
  refine ⟨?_, h.regs.latched, h.regs.fineX⟩
  dsimp only
  split_ifs
  · exact (p.regs.spare_follow _).trans h.regs.current
  · exact h.regs.current

end Bounded

theorem kept_bounded : Kept Bounded where
  initial := bounded_fresh VideoSpace.coloured_initial
  powerUp _ h := bounded_fresh h.palette
  perform a p h := by
    cases a with
    | tick => exact h.tick
    | read register => exact h.read register
    | write register value => exact h.write register value
    | writeOam | poll => exact ⟨h.beam, ⟨h.regs.current, h.regs.latched, h.regs.fineX⟩, h.palette⟩
    | reset =>
      have hcleared := PpuRegisters.bounded_initial
      exact ⟨h.beam, ⟨h.regs.current, hcleared.latched, hcleared.fineX⟩, h.palette⟩
  insert _ _ h := ⟨h.beam, h.regs, h.palette⟩
  store a value _ h := ⟨h.beam, h.regs, h.palette.write a value⟩

end Ppu

namespace Console

open ScrollWord in
/-- In every console that the host can bring about the picture unit is within its bounds. A
movement of the beam is the operation on words that it is known by, and no sum in it leaves its
field. -/
theorem picture_unit_bounded (operations : List Operation) :
    let p := (initial.afterAll operations).bus.ppu
    (p.beam.dot ≤ 340 ∧ p.beam.scanline ≤ 261 ∧
      p.regs.current.toWord.toNat < 2 ^ 15 ∧ p.regs.latched.toWord.toNat < 2 ^ 15 ∧
      p.regs.fineX < 8 ∧ ∀ value ∈ p.video.palette.toList, value < 0x40) ∧
    ∀ v : VramAddress,
      v.nextColumn.toWord = nextColumn v.toWord ∧ v.nextRow.toWord = nextRow v.toWord ∧
      (v.toWord &&& 0x001F ≠ 31 → AddsWithin 0x001F v.toWord 1) ∧
      (v.toWord &&& 0x7000 ≠ 0x7000 → AddsWithin 0x7000 v.toWord 0x1000) ∧
      (row v.toWord ≠ 31 → AddsWithin 0x001F (row v.toWord) 1) := by
  intro p
  obtain ⟨⟨hline, hdot⟩, ⟨hcurrent, hlatched, hfine⟩, hpalette⟩ :=
    Ppu.kept_bounded.afterAll operations
  rw [VramAddress.spare_eq_false_iff, ← VramAddress.toNat_toWord] at hcurrent hlatched
  constructor
  · exact ⟨Nat.le_of_lt_succ hdot, hline, hcurrent, hlatched, hfine, hpalette.toList⟩
  · exact fun v => ⟨v.toWord_nextColumn, v.toWord_nextRow, addsWithin_column, addsWithin_fine,
      addsWithin_row⟩

end Console

end Famicom
