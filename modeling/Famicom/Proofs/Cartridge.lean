import Famicom.Cartridge
import Mathlib.Data.Nat.Bitwise
import Mathlib.Tactic.SplitIfs

/-!
# What an image says

The header of an image announces three sections, which follow it without gaps : the trainer, the
PRG ROM and the CHR ROM. This file reads the header bit by bit (`Image.bit`), so that every section
has a size and a start (`Section.size`, `Section.start`), and an image a length that it announces
(`Image.announced`).

`Cartridge.parse_eq` compares the reader with that. An image is refused for the first reason in its
own order (`Image.refusal?`) : it ends inside the header, it starts with the wrong bytes, or it ends
inside a section. If there is no such reason the board is the one that the image describes
(`Image.described`). All that matters lies in the announced length, so bytes behind it change
nothing, and no image that ends before it is accepted (`Cartridge.parse_complete`).
-/

namespace Famicom

/-! ## The bytes of an image -/

namespace Image

/-- The byte at an index, or zero behind the end. -/
def byte (image : ByteArray) (i : Nat) : UInt8 := image[i]?.getD 0

/-- A bit of the byte at an index. -/
def bit (image : ByteArray) (i k : Nat) : Bool := (byte image i).toNat.testBit k

theorem getElem_eq_byte {image : ByteArray} {i : Nat} (h : i < image.size) :
    image[i] = byte image i := by
  rw [byte, getElem?_pos image i h]
  rfl

theorem byte_append {image : ByteArray} (more : ByteArray) {i : Nat} (h : i < image.size) :
    byte (image ++ more) i = byte image i := by
  have happend : i < (image ++ more).size := by
    rw [ByteArray.size_append]
    omega
  rw [← getElem_eq_byte happend, ← getElem_eq_byte h, ByteArray.getElem_append_left h]

theorem byte_extract {image : ByteArray} {n : Nat} (hn : n ≤ image.size) {i : Nat} (h : i < n) :
    byte (image.extract 0 n) i = byte image i := by
  have hextract : i < (image.extract 0 n).size := by
    rw [ByteArray.size_extract]
    omega
  have himage : 0 + i < image.size := by omega
  rw [← getElem_eq_byte hextract, ByteArray.getElem_extract, getElem_eq_byte himage, Nat.zero_add]

/-- The four bytes that every image starts with. -/
def Signed (image : ByteArray) : Prop :=
  byte image 0 = 0x4E ∧ byte image 1 = 0x45 ∧ byte image 2 = 0x53 ∧ byte image 3 = 0x1A

instance (image : ByteArray) : Decidable (Signed image) := by
  unfold Signed
  infer_instance

/-- The mirroring that the header asks for. -/
def mirroring (image : ByteArray) : Mirroring :=
  if bit image 6 3 then .fourScreen else if bit image 6 0 then .vertical else .horizontal

/-- The number of the mapper, whose two digits are the high ones of two bytes. -/
def mapper (image : ByteArray) : UInt8 :=
  let high : UInt8 := byte image 7 &&& 0xF0
  high ||| (byte image 6 >>> 4)

end Image

/-! ## The sections -/

namespace Section

open Image

/-- How many bytes the header announces for a section. -/
def size (image : ByteArray) : Section → Nat
  | trainer => if bit image 6 2 then 512 else 0
  | prg => 16384 * (byte image 4).toNat
  | chr => 8192 * (byte image 5).toNat

/-- Where a section starts. The sections follow the header without gaps. -/
def start (image : ByteArray) : Section → Nat
  | trainer => 16
  | prg => 16 + trainer.size image
  | chr => 16 + trainer.size image + prg.size image

/-- The bytes of a section. -/
def contents (image : ByteArray) (s : Section) : ByteArray :=
  image.extract (s.start image) (s.start image + s.size image)

/-- The image does not end before the section does. -/
def Fits (image : ByteArray) (s : Section) : Prop := s.start image + s.size image ≤ image.size

instance (image : ByteArray) (s : Section) : Decidable (s.Fits image) := by
  unfold Fits
  infer_instance

/-- The report of a section that does not fit. -/
def shortage (image : ByteArray) (s : Section) : CartridgeFault :=
  .truncated s (s.size image) (image.size - s.start image)

theorem size_contents {image : ByteArray} {s : Section} (h : s.Fits image) :
    (s.contents image).size = s.size image := by
  unfold Fits at h
  rw [contents, ByteArray.size_extract]
  omega

/-- A byte of a section is a byte of the image. -/
theorem byte_contents {image : ByteArray} {s : Section} (h : s.Fits image) {i : Nat}
    (hi : i < s.size image) : byte (s.contents image) i = byte image (s.start image + i) := by
  have hcontents : i < (s.contents image).size := by rwa [size_contents h]
  have himage : s.start image + i < image.size := by
    unfold Fits at h
    omega
  rw [← getElem_eq_byte hcontents, ← getElem_eq_byte himage]
  exact ByteArray.getElem_extract (hcontents)

/-- A section is taken whole or reported, if the image does not end before it starts. -/
theorem takeSection_eq {image : ByteArray} {s : Section} (h : s.start image ≤ image.size) :
    Cartridge.takeSection image s (s.start image) (s.size image) =
      if s.Fits image then .ok (s.contents image) else .error (s.shortage image) := by
  have hfits : image.size - s.start image < s.size image ↔ ¬s.Fits image := by
    unfold Fits
    omega
  simp only [Cartridge.takeSection, hfits, ite_not]
  rfl

end Section

/-! ## The header -/

namespace Image

/-- The header of an image. -/
def header (image : ByteArray) : Header :=
  ⟨byte image 4, byte image 5, byte image 6, byte image 7⟩

theorem header_parse_eq (image : ByteArray) :
    Header.parse image =
      if image.size < 16 then .error (.tooShort image.size)
      else if Signed image then .ok (header image)
      else .error (.badMagic (byte image 0) (byte image 1) (byte image 2) (byte image 3)) := by
  unfold Header.parse
  split_ifs with hshort hmagic
  all_goals simp_all [getElem_eq_byte, Signed, header]

/-- A mask of one bit asks for that bit. -/
theorem mask_ne_zero {mask : UInt8} {k : Nat} (hmask : mask.toNat = 2 ^ k) (b : UInt8) :
    (b &&& mask != 0) = b.toNat.testBit k := by
  have hand : (b &&& mask).toNat = (b.toNat.testBit k).toNat * 2 ^ k := by
    rw [UInt8.toNat_and, hmask, Nat.and_two_pow]
  have hzero : b &&& mask = 0 ↔ (b.toNat.testBit k).toNat * 2 ^ k = 0 := by
    rw [← hand]
    exact UInt8.toNat_inj.symm
  cases hbit : b.toNat.testBit k with
  | true => simp [bne, hzero, hbit]
  | false => simp [bne, hzero, hbit]

theorem trainerSize_header (image : ByteArray) :
    (header image).trainerSize = Section.trainer.size image := by
  rw [Header.trainerSize, mask_ne_zero (k := 2) rfl]
  rfl

theorem prgSize_header (image : ByteArray) :
    (header image).prgSize = Section.prg.size image :=
  Nat.mul_comm ..

theorem chrSize_header (image : ByteArray) :
    (header image).chrSize = Section.chr.size image :=
  Nat.mul_comm ..

theorem mirroring_header (image : ByteArray) : (header image).mirroring = mirroring image := by
  rw [Header.mirroring, mask_ne_zero (k := 3) rfl, mask_ne_zero (k := 0) rfl]
  rfl

theorem battery_header (image : ByteArray) : (header image).battery = bit image 6 1 :=
  mask_ne_zero (k := 1) rfl _

/-! ## The board behind an image -/

/-- The first reason to refuse an image, in its own order. -/
def refusal? (image : ByteArray) : Option CartridgeFault :=
  if image.size < 16 then some (.tooShort image.size)
  else if Signed image then
    ([.trainer, .prg, .chr].find? fun s : Section => ¬s.Fits image).map (Section.shortage image)
  else some (.badMagic (byte image 0) (byte image 1) (byte image 2) (byte image 3))

/-- The board that an image describes. -/
def described (image : ByteArray) : Cartridge where
  prg := Section.prg.contents image
  chr := if Section.chr.size image = 0 then .ram (.zeros _) else .rom (Section.chr.contents image)
  prgRam := .zeros _
  mirroring := mirroring image
  battery := bit image 6 1
  mapper := mapper image

/-- The length that an image announces : the header and all sections. -/
def announced (image : ByteArray) : Nat :=
  16 + Section.trainer.size image + Section.prg.size image + Section.chr.size image

/-- An image with the same header announces the same. -/
theorem sections_congr {image other : ByteArray} (h : ∀ i < 16, byte other i = byte image i) :
    (Signed other ↔ Signed image) ∧
      ∀ s : Section, s.size other = s.size image ∧ s.start other = s.start image := by
  have hbit (k : Nat) : bit other 6 k = bit image 6 k := by
    rw [bit, bit, h 6 (by decide)]
  have hsize (s : Section) : s.size other = s.size image := by
    cases s <;> simp only [Section.size, hbit, h 4 (by decide), h 5 (by decide)]
  refine ⟨?_, fun s => ⟨hsize s, ?_⟩⟩
  · simp only [Signed, h 0 (by decide), h 1 (by decide), h 2 (by decide), h 3 (by decide)]
  · cases s <;> simp only [Section.start, hsize]

theorem announced_congr {image other : ByteArray} (h : ∀ i < 16, byte other i = byte image i) :
    announced other = announced image := by
  simp only [announced, ((sections_congr h).2 _).1]

/-- The sections fit one after the other. -/
theorem fits_of_fits_chr {image : ByteArray} (h : Section.chr.Fits image) (s : Section) :
    s.Fits image := by
  unfold Section.Fits at *
  cases s <;> simp only [Section.start] at * <;> omega

theorem refusal?_eq_none_iff {image : ByteArray} :
    refusal? image = none ↔
      16 ≤ image.size ∧ Signed image ∧ announced image ≤ image.size := by
  have hchr : announced image ≤ image.size ↔ Section.chr.Fits image := Iff.rfl
  unfold refusal?
  split_ifs with hshort hsigned
  · simp [hshort]
  · simp only [Option.map_eq_none_iff, List.find?_eq_none, List.mem_cons, List.not_mem_nil,
      or_false, forall_eq_or_imp, forall_eq, decide_not, Bool.not_eq_true', decide_eq_false_iff_not,
      not_not, hchr]
    constructor
    · exact fun ⟨_, _, h⟩ => ⟨Nat.le_of_not_lt hshort, hsigned, h⟩
    · exact fun ⟨_, _, h⟩ => ⟨fits_of_fits_chr h _, fits_of_fits_chr h _, h⟩
  · simp [hsigned]

theorem fits_of_not_refused {image : ByteArray} (h : refusal? image = none) (s : Section) :
    s.Fits image :=
  fits_of_fits_chr (refusal?_eq_none_iff.1 h).2.2 s

/-- What lies behind the announced length is not looked at. -/
theorem contents_append {image : ByteArray} (more : ByteArray) {s : Section} (h : s.Fits image)
    (hheader : ∀ i < 16, byte (image ++ more) i = byte image i) :
    s.contents (image ++ more) = s.contents image := by
  obtain ⟨hsize, hstart⟩ := (sections_congr hheader).2 s
  unfold Section.Fits at h
  have hbehind : more.extract (s.start image - image.size)
      (s.start image + s.size image - image.size) = ByteArray.empty := by
    rw [ByteArray.extract_eq_empty_iff]
    omega
  rw [Section.contents, hsize, hstart, ByteArray.extract_append, hbehind, ByteArray.append_empty]
  rfl

theorem described_append {image : ByteArray} (more : ByteArray) (h : refusal? image = none) :
    refusal? (image ++ more) = none ∧ described (image ++ more) = described image := by
  obtain ⟨hlong, hsigned, hannounced⟩ := refusal?_eq_none_iff.1 h
  have hheader (i : Nat) (hi : i < 16) : byte (image ++ more) i = byte image i :=
    byte_append more (by omega)
  obtain ⟨hsign, hsections⟩ := sections_congr hheader
  have hfits := fits_of_not_refused h
  have hbit (k : Nat) : bit (image ++ more) 6 k = bit image 6 k := by
    rw [bit, bit, hheader 6 (by decide)]
  constructor
  · rw [refusal?_eq_none_iff, announced_congr hheader, hsign, ByteArray.size_append]
    exact ⟨by omega, hsigned, by omega⟩
  · simp only [described, contents_append more (hfits _) hheader, (hsections _).1, mirroring,
      mapper, hbit, hheader 6 (by decide), hheader 7 (by decide)]

/-- An image that ends before its announced length is refused. -/
theorem refusal?_extract {image : ByteArray} {n : Nat} (hn : n ≤ image.size)
    (h : n < announced image) : ∃ fault, refusal? (image.extract 0 n) = some fault := by
  refine Option.ne_none_iff_exists'.1 fun hnone => ?_
  obtain ⟨hlong, -, hannounced⟩ := refusal?_eq_none_iff.1 hnone
  have hsize : (image.extract 0 n).size = n := by
    rw [ByteArray.size_extract]
    omega
  rw [hsize] at hlong hannounced
  rw [announced_congr fun i hi => byte_extract hn (by omega)] at hannounced
  omega

end Image

namespace Cartridge

open Image

/-- An image is refused for the first reason there is, and describes its board otherwise. -/
theorem parse_eq (image : ByteArray) :
    parse image =
      match refusal? image with
      | some fault => .error fault
      | none => .ok (described image) := by
  unfold parse
  rw [header_parse_eq, refusal?]
  by_cases hshort : image.size < 16
  · simp only [if_pos hshort]
    rfl
  by_cases hsigned : Signed image
  · rw [if_neg hshort, if_neg hshort, if_pos hsigned, if_pos hsigned]
    simp only [bind, Except.bind, trainerSize_header, prgSize_header, chrSize_header]
    -- A section starts where the one before it ends, so the image reaches it if that one fits.
    rw [show takeSection image .trainer Header.size _ = _ from
      Section.takeSection_eq (s := .trainer) (Nat.le_of_not_lt hshort)]
    by_cases htrainer : Section.trainer.Fits image
    · rw [if_pos htrainer]
      dsimp only
      rw [show takeSection image .prg (Header.size + _) _ = _ from
        Section.takeSection_eq (s := .prg) htrainer]
      by_cases hprg : Section.prg.Fits image
      · rw [if_pos hprg]
        dsimp only
        rw [show takeSection image .chr (Header.size + _ + _) _ = _ from
          Section.takeSection_eq (s := .chr) hprg]
        by_cases hchr : Section.chr.Fits image
        · simp [htrainer, hprg, hchr, mirroring_header, battery_header]
          rfl
        · simp [htrainer, hprg, hchr]
      · simp [htrainer, hprg]
    · simp [htrainer]
  · rw [if_neg hshort, if_neg hshort, if_neg hsigned, if_neg hsigned]
    rfl

theorem parse_eq_ok_iff {image : ByteArray} {c : Cartridge} :
    parse image = .ok c ↔ refusal? image = none ∧ c = described image := by
  rw [parse_eq]
  cases refusal? image <;> simp [eq_comm]

theorem parse_eq_error_iff {image : ByteArray} {fault : CartridgeFault} :
    parse image = .error fault ↔ refusal? image = some fault := by
  rw [parse_eq]
  cases refusal? image <;> simp

/-- The first section that does not fit is reached. -/
theorem start_le_of_first {image : ByteArray} (hlong : 16 ≤ image.size) {s : Section}
    (h : ([.trainer, .prg, .chr].find? fun s : Section => ¬s.Fits image) = some s) :
    s.start image ≤ image.size := by
  by_cases htrainer : Section.trainer.Fits image
  · by_cases hprg : Section.prg.Fits image
    · obtain rfl : s = .chr := by
        by_cases hchr : Section.chr.Fits image <;> simp [htrainer, hprg, hchr] at h
        exact h.symm
      exact hprg
    · obtain rfl : s = .prg := by simpa [htrainer, hprg, eq_comm] using h
      exact htrainer
  · obtain rfl : s = .trainer := by simpa [htrainer, eq_comm] using h
    exact hlong

/-- An image is refused for the first reason there is, with the numbers of that reason. It is
accepted if it is as long as it announces and starts as it should, and then the board is made of its
bytes. Bytes behind the announced length change nothing, and an image of that length has no proper
beginning that is accepted. -/
theorem parse_complete (image : ByteArray) :
    (∀ fault, parse image = .error fault ↔
      (image.size < 16 ∧ fault = .tooShort image.size) ∨
      (16 ≤ image.size ∧ ¬Signed image ∧
        fault = .badMagic (byte image 0) (byte image 1) (byte image 2) (byte image 3)) ∨
      (16 ≤ image.size ∧ Signed image ∧ ∃ s,
        ([.trainer, .prg, .chr].find? fun s : Section => ¬s.Fits image) = some s ∧
        s.start image ≤ image.size ∧
        fault = .truncated s (s.size image) (image.size - s.start image))) ∧
    (∀ more c, parse image = .ok c → parse (image ++ more) = .ok c) ∧
    let T := if bit image 6 2 then 512 else 0
    let P := 16384 * (byte image 4).toNat
    let C := 8192 * (byte image 5).toNat
    ((∃ c, parse image = .ok c) ↔
      16 ≤ image.size ∧ Signed image ∧ 16 + T + P + C ≤ image.size) ∧
    (∀ c, parse image = .ok c →
      c.prg = image.extract (16 + T) (16 + T + P) ∧ c.prg.size = P ∧
      (C ≠ 0 → c.chr = .rom (image.extract (16 + T + P) (16 + T + P + C)) ∧
        c.chr.bytes.size = C) ∧
      (C = 0 → c.chr = .ram (.zeros 8192)) ∧
      c.prgRam = .zeros 8192 ∧
      c.mirroring = (if bit image 6 3 then .fourScreen
        else if bit image 6 0 then .vertical else .horizontal) ∧
      c.battery = bit image 6 1 ∧
      c.mapper = (byte image 7 &&& (0xF0 : UInt8)) ||| (byte image 6 >>> (4 : UInt8))) ∧
    (image.size = 16 + T + P + C →
      ∀ n < image.size, ∃ fault, parse (image.extract 0 n) = .error fault) := by
  refine ⟨fun fault => ?_, fun more c hc => ?_, ?_⟩
  · rw [parse_eq_error_iff, refusal?]
    split_ifs with hshort hsigned
    · constructor
      · rintro ⟨⟩
        exact Or.inl ⟨hshort, rfl⟩
      · rintro (⟨-, rfl⟩ | ⟨hlong, -⟩ | ⟨hlong, -⟩)
        · rfl
        · exact absurd hshort (Nat.not_lt_of_le hlong)
        · exact absurd hshort (Nat.not_lt_of_le hlong)
    · have hlong := Nat.le_of_not_lt hshort
      simp only [hshort, hsigned, hlong, false_and, not_true_eq_false, and_false, false_or,
        Option.map_eq_some_iff, true_and]
      refine exists_congr fun s => and_congr_right fun hfirst => ?_
      rw [and_iff_right (start_le_of_first hlong hfirst)]
      exact eq_comm
    · constructor
      · rintro ⟨⟩
        exact Or.inr (Or.inl ⟨Nat.le_of_not_lt hshort, hsigned, rfl⟩)
      · rintro (⟨h, -⟩ | ⟨-, -, rfl⟩ | ⟨-, h, -⟩)
        · exact absurd h hshort
        · rfl
        · exact absurd h hsigned
  · obtain ⟨hnone, rfl⟩ := parse_eq_ok_iff.1 hc
    obtain ⟨hlonger, hsame⟩ := described_append more hnone
    exact parse_eq_ok_iff.2 ⟨hlonger, hsame.symm⟩
  · intro T P C
    refine ⟨?_, fun c hc => ?_, fun hsize n hn => ?_⟩
    · simp only [parse_eq_ok_iff, exists_and_left, exists_eq, and_true]
      exact refusal?_eq_none_iff
    · obtain ⟨hnone, rfl⟩ := parse_eq_ok_iff.1 hc
      have hfits := fits_of_not_refused hnone
      refine ⟨rfl, Section.size_contents (hfits .prg), fun hrom => ?_, fun hram => if_pos hram,
        rfl, rfl, rfl, rfl⟩
      have hchr : (described image).chr = .rom (Section.chr.contents image) := if_neg hrom
      refine ⟨hchr, ?_⟩
      rw [hchr]
      exact Section.size_contents (hfits .chr)
    · have hannounced : announced image = image.size := hsize.symm
      obtain ⟨fault, hfault⟩ := refusal?_extract (Nat.le_of_lt hn) (hannounced ▸ hn)
      exact ⟨fault, parse_eq_error_iff.2 hfault⟩

/-- A header alone announces a board without ROM, and half a header announces nothing. -/
theorem parse_complete_without_banks :
    let image : ByteArray :=
      ⟨#[0x4E, 0x45, 0x53, 0x1A, 0, 0, 0x3A, 0x40, 0, 0, 0, 0, 0, 0, 0, 0]⟩
    ∃ c, parse image = .ok c ∧ c.prg.size = 0 ∧ c.chr = .ram (.zeros 8192) ∧
      c.mirroring = .fourScreen ∧ c.battery = true ∧ c.mapper = 0x43 ∧
      parse (image ++ ⟨#[0xFF]⟩) = .ok c ∧ ∃ fault, parse (image.extract 0 8) = .error fault := by
  intro image
  obtain ⟨-, hmore, haccepted, hboard, hless⟩ := parse_complete image
  obtain ⟨c, hc⟩ := haccepted.2 (by decide)
  obtain ⟨-, hprg, -, hchr, -, hmirroring, hbattery, hmapper⟩ := hboard c hc
  exact ⟨c, hc, hprg.trans (by decide), hchr (by decide), hmirroring.trans (by decide),
    hbattery.trans (by decide), hmapper.trans (by decide), hmore _ c hc,
    hless (by decide) 8 (by decide)⟩

end Cartridge

end Famicom
