import Famicom.Proofs.Cartridge
import Famicom.Proofs.Host
import Famicom.Proofs.Ppu.VideoSpace

/-!
# What cannot be written

A cartridge stays what its image made it, its RAM aside. Only writes of the two buses reach it, and
they leave all of it but the RAM (`VideoSpace.plugged_write`, `Board.plugged_write`). The picture
unit's registers, a sprite transfer, a step and whatever else the host does are made of such writes
and of things that do not touch the slot at all, so what is plugged in stays the same until another
image is accepted (`Console.plugged_perform`, `Console.plugged_afterAll`).

For ROM this means that every read finds the byte of the image that the address stands for, at the
end of every run (`Console.rom_reads_image`).
-/

namespace Famicom

/-! ## The picture unit -/

namespace Ppu

theorem video_readData (p : Ppu) : p.readData.2.video = p.video := by
  obtain ⟨value, hvalue⟩ := VideoSpace.exists_read_eq p.regs.current.busAddress p.video
  obtain ⟨beneath, hbeneath⟩ :=
    VideoSpace.exists_read_eq (p.regs.current.busAddress - 0x1000) p.video
  unfold readData
  dsimp only
  split
  · rw [hbeneath]
    cases beneath with
    | error => rfl
    | ok =>
      simp only [hvalue]
      cases value <;> rfl
  · rw [hvalue]
    cases value <;> rfl

/-- A read of a register leaves the memories as they are. -/
theorem video_read (p : Ppu) (register : PpuRegister) : (p.read register).2.video = p.video := by
  cases register with
  | data =>
    obtain ⟨value, hread⟩ := p.exists_read_data
    rw [hread]
    exact p.video_readData
  | _ => rfl

theorem video_writeData (p : Ppu) (value : UInt8) :
    (p.writeData value).2.video =
      (AddressSpace.write p.regs.current.busAddress value p.video).2 := by
  unfold writeData
  rcases AddressSpace.write p.regs.current.busAddress value p.video with ⟨_ | _, video⟩ <;> rfl

/-- Of all registers only the data register reaches the memories, and it does so at its address. -/
theorem video_write (p : Ppu) (register : PpuRegister) (value : UInt8) :
    (p.write register value).2.video =
      if register = .data then (AddressSpace.write p.regs.current.busAddress value p.video).2
      else p.video := by
  cases register with
  | data => exact video_writeData { p with latch := value } value
  | _ => rfl

theorem plugged_write (p : Ppu) (register : PpuRegister) (value : UInt8) :
    (p.write register value).2.video.plugged = p.video.plugged := by
  rw [video_write]
  split_ifs
  · exact VideoSpace.plugged_write _ _ _
  · rfl

theorem video_tick (p : Ppu) : p.tick.video = p.video := by
  unfold tick
  dsimp only
  split_ifs <;> rfl

end Ppu

/-! ## The board -/

namespace Board

/-- What is in the slot, whatever was stored in it. -/
def plugged (b : Board) : Option Cartridge := b.ppu.video.plugged

theorem plugged_read (a : UInt16) (b : Board) : (AddressSpace.read a b).2.plugged = b.plugged := by
  rw [read_eq]
  split_ifs
  any_goals rfl
  exact congrArg VideoSpace.plugged (b.ppu.video_read _)

theorem plugged_write (a : UInt16) (value : UInt8) (b : Board) :
    (AddressSpace.write a value b).2.plugged = b.plugged := by
  rw [write_eq]
  split_ifs
  any_goals rfl
  · exact b.ppu.plugged_write _ _
  · obtain ⟨ram, ⟨regs, oam, buffer, latch, beam, requesting, _ | c, vram, palette⟩, controllers,
      request⟩ := b <;> rfl

/-- Nothing that a step is made of reaches into the slot. -/
theorem keeps_plugged (slot : Option Cartridge) : Keeps fun b => b.plugged = slot where
  read a b h := (plugged_read a b).trans h
  write a value b h := (plugged_write a value b).trans h
  request _ h := h
  writeOam _ _ h := h
  tick b h := (congrArg VideoSpace.plugged b.ppu.video_tick).trans h
  takeInterrupt _ h := h

theorem isSome_cartridge_congr {b d : Board} (h : b.plugged = d.plugged) :
    b.cartridge.isSome = d.cartridge.isSome := by
  have hb : b.plugged.isSome = b.cartridge.isSome := b.ppu.video.isSome_plugged
  have hd : d.plugged.isSome = d.cartridge.isSome := d.ppu.video.isSome_plugged
  rw [← hb, ← hd, h]

end Board

namespace Console

/-- What is in the slot, whatever was stored in it. -/
def plugged (c : Console) : Option Cartridge := c.bus.plugged

/-- However a step ends. -/
theorem plugged_step (c : Console) : c.step.2.plugged = c.plugged :=
  (Board.keeps_plugged c.plugged).step rfl

end Console

/-! ## What the host does -/

/-- One thing the host does, the picture unit's own bus included. -/
inductive Operation where
  | host (a : HostAction)
  /-- Read a byte as the picture unit would. -/
  | readVideo (a : UInt16)
  /-- Write a byte as the picture unit would. -/
  | writeVideo (a : UInt16) (value : UInt8)

namespace Operation

/-- The console with other memories behind the picture unit. -/
def withVideo (c : Console) (video : VideoSpace) : Console :=
  { c with bus := { c.bus with ppu := { c.bus.ppu with video } } }

/-- The console after an operation, whether it failed or not. -/
def perform (c : Console) : Operation → Console
  | host a => a.perform c
  | readVideo a => withVideo c (AddressSpace.read a c.bus.ppu.video).2
  | writeVideo a value => withVideo c (AddressSpace.write a value c.bus.ppu.video).2

/-- If the operation brings an image, the image is refused. -/
def KeepsSlot : Operation → Prop
  | host (.insert image) => ∃ fault, Cartridge.parse image = .error fault
  | _ => True

end Operation

namespace Console

/-- The console at the end of a run of operations. -/
def afterAll (c : Console) (operations : List Operation) : Console :=
  operations.foldl Operation.perform c

theorem plugged_perform (c : Console) {o : Operation} (h : o.KeepsSlot) :
    (o.perform c).plugged = c.plugged := by
  cases o with
  | readVideo a => exact congrArg VideoSpace.plugged (VideoSpace.read_snd a c.bus.ppu.video)
  | writeVideo a value => exact VideoSpace.plugged_write a value c.bus.ppu.video
  | host a =>
    cases a with
    | insert image =>
      obtain ⟨fault, hfault⟩ := h
      simp only [Operation.perform, HostAction.perform, insertImage, hfault]
    | step => exact plugged_step c
    | read a => exact Board.plugged_read a c.bus
    | write a value => exact Board.plugged_write a value c.bus
    | tick => exact congrArg VideoSpace.plugged c.bus.ppu.video_tick
    | powerUp | reset | press | assign => rfl

theorem plugged_afterAll (c : Console) {operations : List Operation}
    (h : ∀ o ∈ operations, o.KeepsSlot) : (c.afterAll operations).plugged = c.plugged := by
  induction operations generalizing c with
  | nil => rfl
  | cons o operations ih =>
    have hfirst := plugged_perform c (h o List.mem_cons_self)
    have hrest := ih (o.perform c) fun p hp => h p (List.mem_cons_of_mem _ hp)
    exact hrest.trans hfirst

end Console

/-! ## Reading back -/

theorem Image.cleared_described (image : ByteArray) :
    (described image).cleared = described image := by
  simp only [Cartridge.cleared, described]
  split_ifs <;> rfl

theorem cyclicByte_eq (bytes : ByteArray) (i : Nat) :
    cyclicByte bytes i = if bytes.size = 0 then 0 else Image.byte bytes (i % bytes.size) := by
  unfold cyclicByte
  by_cases hpos : 0 < bytes.size
  · rw [dif_pos hpos, if_neg (Nat.ne_of_gt hpos)]
    exact Image.getElem_eq_byte (Nat.mod_lt i hpos)
  · rw [dif_neg hpos, if_pos (Nat.eq_zero_of_not_pos hpos)]

namespace Cartridge

/-- With a single bank the address need only be masked. -/
theorem readPrg_of_one_bank {c : Cartridge} (h : c.prg.size = 0x4000) (a : UInt16) :
    c.readPrg a = Image.byte c.prg ((a - 0x8000) &&& 0x3FFF).toNat := by
  rw [readPrg, cyclicByte_eq, h, if_neg (by decide), UInt16.toNat_and]
  exact congrArg (Image.byte c.prg) (Nat.and_two_pow_sub_one_eq_mod _ 14).symm

/-- PRG ROM repeats the PRG section of the image. -/
theorem readPrg_of_cleared {c : Cartridge} {image : ByteArray} (hfull : Image.refusal? image = none)
    (h : c.cleared = Image.described image) {a : UInt16} (ha : 0x8000 ≤ a) :
    c.readPrg a =
      if Section.prg.size image = 0 then 0
      else Image.byte image
        (Section.prg.start image + (a.toNat - 0x8000) % Section.prg.size image) := by
  have hfits := Image.fits_of_not_refused hfull .prg
  have hprg : c.prg = Section.prg.contents image := congrArg Cartridge.prg h
  rw [readPrg, cyclicByte_eq, hprg, Section.size_contents hfits, UInt16.toNat_sub_of_le _ _ ha]
  split_ifs with hzero
  · rfl
  · exact Section.byte_contents hfits (Nat.mod_lt _ (Nat.pos_of_ne_zero hzero))

/-- CHR ROM begins with the CHR section of the image. -/
theorem readChr_of_cleared {c : Cartridge} {image : ByteArray} (hfull : Image.refusal? image = none)
    (h : c.cleared = Image.described image) (hrom : Section.chr.size image ≠ 0) {a : UInt16}
    (ha : a ≤ 0x1FFF) : c.readChr a = Image.byte image (Section.chr.start image + a.toNat) := by
  have hfits := Image.fits_of_not_refused hfull .chr
  have hchr : c.chr = .rom (Section.chr.contents image) :=
    PatternMemory.eq_rom_of_cleared ((congrArg Cartridge.chr h).trans (if_neg hrom))
  -- The section holds a bank at least, and the address is one in a bank.
  have hbank : a.toNat < Section.chr.size image := by
    simp only [UInt16.le_iff_toNat_le, UInt16.reduceToNat] at ha
    simp only [Section.size] at hrom ⊢
    omega
  rw [readChr, hchr, PatternMemory.read, cyclicByte_eq, Section.size_contents hfits, if_neg hrom,
    Nat.mod_eq_of_lt hbank, Section.byte_contents hfits hbank]

end Cartridge

namespace Console

/-- An accepted image is plugged in. -/
theorem plugged_insertImage {c : Console} {image : ByteArray}
    (h : (c.insertImage image).1 = .ok ()) :
    Image.refusal? image = none ∧
      (c.insertImage image).2.plugged = some (Image.described image) := by
  unfold insertImage at h ⊢
  cases hparse : Cartridge.parse image with
  | error fault =>
    rw [hparse] at h
    cases h
  | ok cartridge =>
    obtain ⟨hnone, rfl⟩ := Cartridge.parse_eq_ok_iff.1 hparse
    exact ⟨hnone, congrArg some (Image.cleared_described image)⟩

/-- Once an image is accepted its ROMs read as its bytes, whatever is done until another image is
accepted. -/
theorem rom_reads_image {c : Console} {image : ByteArray} (hin : (c.insertImage image).1 = .ok ())
    {operations : List Operation} (hkeep : ∀ o ∈ operations, o.KeepsSlot) :
    let d := (c.insertImage image).2.afterAll operations
    let T := if Image.bit image 6 2 then 512 else 0
    let P := 16384 * (Image.byte image 4).toNat
    let C := 8192 * (Image.byte image 5).toNat
    (∀ a, 0x8000 ≤ a → AddressSpace.read a d.bus =
      (.ok (if P = 0 then 0 else Image.byte image (16 + T + (a.toNat - 0x8000) % P)), d.bus)) ∧
    (C ≠ 0 → ∀ a, a ≤ 0x1FFF → AddressSpace.read a d.bus.ppu.video =
      (.ok (Image.byte image (16 + T + P + a.toNat)), d.bus.ppu.video)) := by
  intro d T P C
  obtain ⟨hfull, hplugged⟩ := plugged_insertImage hin
  rw [← plugged_afterAll _ hkeep] at hplugged
  obtain ⟨cartridge, hslot, hcleared⟩ := Option.map_eq_some_iff.1 hplugged
  replace hslot : d.bus.ppu.video.cartridge = some cartridge := hslot
  constructor
  · intro a ha
    have hread := Cartridge.readPrg_of_cleared hfull hcleared ha
    rw [Board.read_prg_of_some hslot ha]
    exact congrArg (fun value => (Except.ok value, d.bus)) hread
  · intro hrom a ha
    have hread := Cartridge.readChr_of_cleared hfull hcleared hrom ha
    rw [VideoSpace.read_pattern_of_some hslot ha]
    exact congrArg (fun value => (Except.ok value, d.bus.ppu.video)) hread

/-- A header that announces one bank of each ROM. -/
def oneBankHeader : ByteArray := ⟨#[0x4E, 0x45, 0x53, 0x1A, 1, 1, 0, 0, 0, 0, 0, 0, 0, 0, 0, 0]⟩

/-- One bank of each ROM, full of 42. -/
def oneBankImage : ByteArray := oneBankHeader ++ ⟨Array.replicate 0x6000 0x42⟩

theorem size_oneBankImage : oneBankImage.size = 16 + 0x6000 := by
  rw [oneBankImage, ByteArray.size_append]
  simp [oneBankHeader, ByteArray.size]

theorem byte_oneBankImage (i : Nat) (h : i < 0x6000) :
    Image.byte oneBankImage (16 + i) = 0x42 := by
  have hsize : 16 + i < oneBankImage.size := by
    rw [size_oneBankImage]
    omega
  rw [← Image.getElem_eq_byte hsize]
  exact (ByteArray.getElem_append_right (Nat.le_add_right 16 i)).trans
    (Array.getElem_replicate ..)

theorem refusal?_oneBankImage : Image.refusal? oneBankImage = none := by
  have hbyte (i : Nat) (h : i < 16) :
      Image.byte oneBankImage i = Image.byte oneBankHeader i :=
    Image.byte_append _ h
  rw [Image.refusal?_eq_none_iff, (Image.sections_congr hbyte).1, Image.announced_congr hbyte,
    size_oneBankImage]
  decide

theorem insertImage_oneBankImage : (initial.insertImage oneBankImage).1 = .ok () := by
  rw [insertImage, Cartridge.parse_eq_ok_iff.2 ⟨refusal?_oneBankImage, rfl⟩]

/-- Stores to both ROMs, power, a step and a refused image, and the bytes are still there. -/
theorem rom_reads_image_one_bank :
    let d := (initial.insertImage oneBankImage).2.afterAll [.host (.write 0x8123 0),
      .writeVideo 0x0010 0xAB, .host .powerUp, .host .step, .host (.insert ⟨#[]⟩)]
    AddressSpace.read 0xC123 d.bus = (.ok 0x42, d.bus) ∧
      AddressSpace.read 0x0010 d.bus.ppu.video = (.ok 0x42, d.bus.ppu.video) := by
  intro d
  have hbyte (i : Nat) (h : i < 16) :
      Image.byte oneBankImage i = Image.byte oneBankHeader i :=
    Image.byte_append _ h
  have hkeep : ∀ o ∈ [Operation.host (.write 0x8123 0), .writeVideo 0x0010 0xAB, .host .powerUp,
      .host .step, .host (.insert ⟨#[]⟩)], o.KeepsSlot := by
    simp only [List.mem_cons, List.not_mem_nil, or_false, forall_eq_or_imp, forall_eq]
    exact ⟨trivial, trivial, trivial, trivial, _, rfl⟩
  have hend : (initial.insertImage oneBankImage).2.afterAll _ = d := rfl
  obtain ⟨hprg, hchr⟩ := rom_reads_image insertImage_oneBankImage hkeep
  rw [hend] at hprg hchr
  have hbank : 16384 * (Image.byte oneBankImage 4).toNat = 16384 := by
    rw [hbyte 4 (by decide)]
    decide
  have htrainer : Image.bit oneBankImage 6 2 = false := by
    rw [Image.bit, hbyte 6 (by decide)]
    decide
  have hrom : 8192 * (Image.byte oneBankImage 5).toNat ≠ 0 := by
    rw [hbyte 5 (by decide)]
    decide
  have hfirst := hprg 0xC123 (by decide)
  have hsecond := hchr hrom 0x0010 (by decide)
  rw [hbank, htrainer] at hfirst hsecond
  have hprgByte : Image.byte oneBankImage 307 = 0x42 := byte_oneBankImage 0x0123 (by omega)
  have hchrByte : Image.byte oneBankImage 16416 = 0x42 := byte_oneBankImage 0x4010 (by omega)
  simp only [Bool.false_eq_true, if_false, UInt16.reduceToNat, Nat.reduceAdd, Nat.reduceSub,
    Nat.reduceMod, Nat.reduceEqDiff, hprgByte, hchrByte] at hfirst hsecond
  exact ⟨hfirst, hsecond⟩

end Console

end Famicom
