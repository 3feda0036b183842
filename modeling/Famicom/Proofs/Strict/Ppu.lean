import Famicom.Proofs.Board
import Famicom.Proofs.Ppu.Scroll
import Famicom.Proofs.Ppu.Tick
import Famicom.Proofs.Ppu.VideoSpace
import Famicom.Proofs.Ppu.Words
import Famicom.Proofs.Strict.Memory

/-!
# The strict picture unit

The address space and the registers of the picture unit need nothing to be strict : an index is
folded before it is used, and what is subtracted from an address is in it. The beam needs to be on a
dot of a frame, and the number of frames to have a width left to grow in (`Beam.advance?_eq`). A
scroll position is added to where the addition stays in its field, so the word it is in does not
overflow.
-/

namespace Famicom

/-! ## Words -/

/-- The sum of two words. -/
def wordSum? (v w : UInt16) : Option UInt16 := (sum? 16 v.toNat w.toNat).map UInt16.ofNat

/-- The difference of two words. -/
def wordDifference? (v w : UInt16) : Option UInt16 :=
  (difference? v.toNat w.toNat).map UInt16.ofNat

theorem wordSum?_eq {field v w : UInt16} (h : ScrollWord.AddsWithin field v w) :
    wordSum? v w = some (v + w) := by
  have hlt := (v + w).toNat_lt
  rw [wordSum?, sum?_eq (h.1 ▸ hlt), ← h.1, Option.map_some, UInt16.ofNat_toNat]

theorem wordDifference?_eq {v w : UInt16} (h : w ≤ v) : wordDifference? v w = some (v - w) := by
  rw [wordDifference?, difference?_eq (UInt16.le_iff_toNat_le.1 h), Option.map_some,
    ← UInt16.toNat_sub_of_le _ _ h, UInt16.ofNat_toNat]

/-! ## The address space -/

/-- The palette cell of an address. -/
def paletteIndex? (a : UInt16) : Option Nat :=
  let index := (a &&& 0x1F).toNat
  if 16 ≤ index ∧ index % 4 = 0 then difference? index 16 else some index

theorem paletteIndex?_eq (a : UInt16) : paletteIndex? a = some (paletteIndex a) := by
  have hmask : (a &&& 0x1F).toNat = a.toNat % 32 := by
    rw [UInt16.toNat_and]
    exact Nat.and_two_pow_sub_one_eq_mod _ 5
  simp only [paletteIndex?, paletteIndex, hmask]
  split_ifs with hmirror
  · exact difference?_eq hmirror.1
  · rfl

namespace VideoSpace

/-- Read a byte. -/
def read? (a : UInt16) (s : VideoSpace) : Option (Except BusFault UInt8 × VideoSpace) :=
  if a ≤ 0x1FFF then
    match s.cartridge with
    | some c => do return (.ok (← c.readChr? a), s)
    | none => return (.error ⟨.read, a⟩, s)
  else if a ≤ 0x3EFF then do return (.ok (← s.vram.read? (s.mirroring.nametableOffset a)), s)
  else if a ≤ 0x3FFF then do return (.ok (← s.palette.read? (← paletteIndex? a)), s)
  else return (.error ⟨.read, a⟩, s)

/-- Write a byte. -/
def write? (a : UInt16) (value : UInt8) (s : VideoSpace) :
    Option (Except BusFault Unit × VideoSpace) :=
  if a ≤ 0x1FFF then
    match s.cartridge with
    | some c => do return (.ok (), { s with cartridge := some (← c.writeChr? a value) })
    | none => return (.error ⟨.write, a⟩, s)
  else if a ≤ 0x3EFF then do
    return (.ok (), { s with vram := ← s.vram.write? (s.mirroring.nametableOffset a) value })
  else if a ≤ 0x3FFF then do
    return (.ok (), { s with palette := ← s.palette.write? (← paletteIndex? a) (value &&& 0x3F) })
  else return (.error ⟨.write, a⟩, s)

theorem read?_eq (a : UInt16) (s : VideoSpace) : s.read? a = some (AddressSpace.read a s) := by
  obtain ⟨cartridge, vram, palette⟩ := s
  rw [read_eq]
  cases cartridge <;>
    simp only [read?, Cartridge.readChr?_eq, Memory.read?_eq, paletteIndex?_eq,
      Option.isSome_none, Option.isSome_some, Bool.false_eq_true, if_true, if_false] <;>
    split_ifs <;> rfl

theorem write?_eq (a : UInt16) (value : UInt8) (s : VideoSpace) :
    s.write? a value = some (AddressSpace.write a value s) := by
  obtain ⟨cartridge, vram, palette⟩ := s
  rw [write_eq]
  cases cartridge <;>
    simp only [write?, Cartridge.writeChr?_eq, Memory.write?_eq, paletteIndex?_eq,
      Option.isSome_none, Option.isSome_some, Bool.false_eq_true, if_true, if_false] <;>
    split_ifs <;> rfl

end VideoSpace

/-! ## The beam -/

namespace Beam

/-- Move by one dot. -/
def advance? (b : Beam) (rendering : Bool) : Option Beam := do
  let next ← sum? 16 b.dot 1
  let dropped := b.scanline = lastLine ∧ next = dotsPerLine - 1 ∧ b.frame % 2 = 1 ∧ rendering
  let dot := if dropped then dotsPerLine else next
  if dot < dotsPerLine then return ⟨b.scanline, dot, b.frame⟩
  else
    let line ← sum? 16 b.scanline 1
    if line ≤ lastLine then return ⟨line, 0, b.frame⟩
    else return ⟨0, 0, ← sum? 64 b.frame 1⟩

theorem advance?_eq {b : Beam} {rendering : Bool} (h : b.InRange)
    (hframe : (b.advance rendering).frame < 2 ^ 64) :
    b.advance? rendering = some (b.advance rendering) := by
  have hline := h.1
  have hdot := h.2
  simp only [lastLine, dotsPerLine] at hline hdot
  have hnext : sum? 16 b.dot 1 = some (b.dot + 1) := sum?_eq (by omega)
  have hdown : sum? 16 b.scanline 1 = some (b.scanline + 1) := sum?_eq (by omega)
  have hdropped : (b.scanline = lastLine ∧ b.dot + 1 = dotsPerLine - 1 ∧ b.frame % 2 = 1 ∧
      rendering) ↔ b.dropsDot rendering := by
    rw [dropsDot_iff]
    exact and_congr_right fun _ => and_congr_left fun _ => Nat.succ_inj
  simp only [advance?, hnext, hdown, hdropped, Option.bind_eq_bind, Option.bind_some]
  rcases h.advance_cases rendering with ⟨hb, hd⟩ | ⟨hb, hd, hs⟩ | ⟨hb, hs, hd⟩ <;>
    rw [hb] at hframe ⊢
  · have hno : ¬ b.dropsDot rendering := by simp [dropsDot, hb]
    rw [if_neg hno, if_pos hd]
    rfl
  · have hno : ¬ b.dropsDot rendering := by simp [dropsDot, hb]
    rw [if_neg hno, if_neg (by omega), if_pos (Nat.succ_le_of_lt hs)]
    rfl
  · have hend : (if b.dropsDot rendering then dotsPerLine else b.dot + 1) = dotsPerLine := by
      cases hdrop : b.dropsDot rendering with
      | true => exact if_pos rfl
      | false =>
        rw [hdrop, Bool.toNat_false] at hd
        exact (if_neg Bool.false_ne_true).trans hd
    rw [hend, if_neg (Nat.lt_irrefl _), if_neg (by omega), sum?_eq hframe]
    rfl

end Beam

/-! ## The registers -/

namespace ScrollWord

/-- The next tile column. -/
def nextColumn? (v : UInt16) : Option UInt16 :=
  if v &&& 0x001F = 31 then some ((v &&& ~~~0x001F) ^^^ 0x0400) else wordSum? v 1

/-- The next row of picture elements. -/
def nextRow? (v : UInt16) : Option UInt16 :=
  if v &&& 0x7000 ≠ 0x7000 then wordSum? v 0x1000
  else
    let v := v &&& ~~~0x7000
    if row v = 29 then some (withRow (v ^^^ 0x0800) 0)
    else if row v = 31 then some (withRow v 0)
    else do return withRow v (← wordSum? (row v) 1)

theorem nextColumn?_eq (v : UInt16) : nextColumn? v = some (nextColumn v) := by
  unfold nextColumn? nextColumn
  split_ifs with hlast
  · rfl
  · exact wordSum?_eq (addsWithin_column hlast)

theorem nextRow?_eq (v : UInt16) : nextRow? v = some (nextRow v) := by
  unfold nextRow? nextRow
  dsimp only
  split_ifs with hfine h29 h31
  · exact wordSum?_eq (addsWithin_fine hfine)
  · rfl
  · rfl
  · rw [wordSum?_eq (addsWithin_row h31)]
    rfl

end ScrollWord

namespace PpuRegisters

/-- Move to the next tile column. -/
def nextColumn? (r : PpuRegisters) : Option PpuRegisters := do
  return { r with current := .ofWord (← ScrollWord.nextColumn? r.current.toWord) }

/-- Move to the next row. -/
def nextRow? (r : PpuRegisters) : Option PpuRegisters := do
  return { r with current := .ofWord (← ScrollWord.nextRow? r.current.toWord) }

/-- The scroll position follows the beam. -/
def follow? (r : PpuRegisters) (b : Beam) : Option PpuRegisters :=
  if (1 ≤ b.dot ∧ b.dot ≤ 256) ∨ b.dot = 328 ∨ b.dot = 336 then do
    let r ← if b.dot % 8 = 0 then r.nextColumn? else some r
    if b.dot = 256 then r.nextRow? else some r
  else if b.dot = 257 then some r.copyHorizontal
  else if b.scanline = Beam.lastLine ∧ 280 ≤ b.dot ∧ b.dot ≤ 304 then some r.copyVertical
  else some r

theorem nextColumn?_eq (r : PpuRegisters) : r.nextColumn? = some r.nextColumn := by
  rw [nextColumn?, ScrollWord.nextColumn?_eq, ← VramAddress.toWord_nextColumn]
  exact congrArg (fun current => some { r with current }) (VramAddress.ofWord_toWord _)

theorem nextRow?_eq (r : PpuRegisters) : r.nextRow? = some r.nextRow := by
  rw [nextRow?, ScrollWord.nextRow?_eq, ← VramAddress.toWord_nextRow]
  exact congrArg (fun current => some { r with current }) (VramAddress.ofWord_toWord _)

theorem follow?_eq (r : PpuRegisters) (b : Beam) : r.follow? b = some (r.follow b) := by
  simp only [follow?, follow, nextColumn?_eq, nextRow?_eq]
  split_ifs <;> rfl

end PpuRegisters

/-! ## Access by the processor -/

namespace Ppu

/-- Read at the current address. -/
def readData? (p : Ppu) : Option (Except BusFault UInt8 × Ppu) :=
  let a := p.regs.current.busAddress
  if 0x3F00 ≤ a then do
    match ← p.video.read? (← wordDifference? a 0x1000) with
    | (.error fault, video) => return (.error fault, { p with video })
    | (.ok beneath, video) =>
      match ← video.read? a with
      | (.error fault, video) => return (.error fault, { p with video, buffer := beneath })
      | (.ok value, video) =>
        return (.ok value, { p with video, buffer := beneath, regs := p.regs.advance })
  else do
    match ← p.video.read? a with
    | (.error fault, video) => return (.error fault, { p with video })
    | (.ok value, video) =>
      return (.ok p.buffer, { p with video, buffer := value, regs := p.regs.advance })

/-- Write at the current address. -/
def writeData? (p : Ppu) (value : UInt8) : Option (Except BusFault Unit × Ppu) := do
  match ← p.video.write? p.regs.current.busAddress value with
  | (.error fault, video) => return (.error fault, { p with video })
  | (.ok (), video) => return (.ok (), { p with video, regs := p.regs.advance })

/-- Store a byte of sprite memory at its address and step on. -/
def writeOam? (p : Ppu) (value : UInt8) : Option Ppu := do
  return { p with
    oam := ← p.oam.set? p.regs.oamAddress.toNat value
    regs := { p.regs with oamAddress := p.regs.oamAddress + 1 } }

/-- Read a register. -/
def read? (p : Ppu) : PpuRegister → Option (Except BusFault UInt8 × Ppu)
  | .oamData => do return p.drive (← p.oam.at? p.regs.oamAddress.toNat)
  | .data => do
    match ← p.readData? with
    | (.ok value, p) => return p.drive value
    | (.error fault, p) => return (.error fault, p)
  | register => some (p.read register)

/-- Write a register. -/
def write? (p : Ppu) (register : PpuRegister) (value : UInt8) :
    Option (Except BusFault Unit × Ppu) :=
  match register with
  | .oamData => do return (.ok (), ← { p with latch := value }.writeOam? value)
  | .data => { p with latch := value }.writeData? value
  | register => some (p.write register value)

theorem readData?_eq (p : Ppu) : p.readData? = some p.readData := by
  unfold readData? readData
  dsimp only
  split_ifs with hpalette
  · have hnametable : (0x1000 : UInt16) ≤ p.regs.current.busAddress :=
      UInt16.le_trans (by decide) hpalette
    rw [wordDifference?_eq hnametable]
    simp only [VideoSpace.read?_eq, Option.bind_eq_bind, Option.bind_some]
    rcases AddressSpace.read (p.regs.current.busAddress - 0x1000) p.video with ⟨_ | beneath, video⟩
    · rfl
    · dsimp only
      rcases AddressSpace.read p.regs.current.busAddress video with ⟨_ | value, video⟩ <;> rfl
  · simp only [VideoSpace.read?_eq, Option.bind_eq_bind, Option.bind_some]
    rcases AddressSpace.read p.regs.current.busAddress p.video with ⟨_ | value, video⟩ <;> rfl

theorem writeData?_eq (p : Ppu) (value : UInt8) :
    p.writeData? value = some (p.writeData value) := by
  unfold writeData? writeData
  simp only [VideoSpace.write?_eq, Option.bind_eq_bind, Option.bind_some]
  rcases AddressSpace.write p.regs.current.busAddress value p.video with ⟨_ | _, video⟩ <;> rfl

theorem writeOam?_eq (p : Ppu) (value : UInt8) : p.writeOam? value = some (p.writeOam value) := by
  rw [writeOam?, Memory.set?_eq _ p.regs.oamAddress.toNat_lt]
  rfl

theorem read?_eq (p : Ppu) (register : PpuRegister) :
    p.read? register = some (p.read register) := by
  cases register with
  | oamData =>
    rw [read?, Memory.at?_eq _ p.regs.oamAddress.toNat_lt]
    rfl
  | data =>
    simp only [read?, read, readData?_eq, Option.bind_eq_bind, Option.bind_some]
    rcases p.readData with ⟨_ | value, q⟩ <;> rfl
  | _ => rfl

theorem write?_eq (p : Ppu) (register : PpuRegister) (value : UInt8) :
    p.write? register value = some (p.write register value) := by
  cases register with
  | oamData =>
    rw [write?, writeOam?_eq]
    rfl
  | data => exact writeData?_eq { p with latch := value } value
  | _ => rfl

/-! ## Time -/

/-- Move the beam by one dot. -/
def tick? (p : Ppu) : Option Ppu := do
  let rendering := p.regs.rendering
  let beam ← p.beam.advance? rendering
  let p := { p with beam }
  let p :=
    if beam.entersBlank then p.enterBlank
    else if beam.leavesBlank then p.leaveBlank
    else p
  if rendering && beam.fetching then return { p with regs := ← p.regs.follow? beam }
  else return p

/-- Move the beam by a number of dots. -/
def ticks? : Nat → Ppu → Option Ppu
  | 0, p => some p
  | n + 1, p => do ticks? n (← p.tick?)

theorem tick?_eq {p : Ppu} (h : p.beam.InRange) (hframe : p.tick.beam.frame < 2 ^ 64) :
    p.tick? = some p.tick := by
  rw [tick_beam] at hframe
  unfold tick? tick
  simp only [Beam.advance?_eq h hframe, PpuRegisters.follow?_eq, Option.bind_eq_bind,
    Option.bind_some]
  split_ifs <;> rfl

theorem ticks?_eq {n : Nat} {p : Ppu} (h : p.beam.InRange)
    (hframe : (ticks n p).beam.frame < 2 ^ 64) : ticks? n p = some (ticks n p) := by
  induction n generalizing p with
  | zero => rfl
  | succ n ih =>
    have hrange := tick_inRange h
    have hfirst : p.tick.beam.frame < 2 ^ 64 :=
      Nat.lt_of_le_of_lt (frame_le_ticks n hrange) hframe
    rw [ticks?, tick?_eq h hfirst]
    exact ih hrange hframe

end Ppu

end Famicom
