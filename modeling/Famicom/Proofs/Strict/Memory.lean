import Famicom.Proofs.Cartridge

/-!
# Strict accesses

The machine is described with numbers of any size and with memories that take every index. This is a
convenience : its registers and counters have a width, its memories an end, and nothing is divided
by zero. A strict operation says so. It answers `none` where a sum leaves its width, a difference
is negative, a divisor is zero or an index is not one of the memory.

Under `Famicom.Proofs.Strict` the machine is described once more by strict operations, each with the
sums and indices that are made in its place, and compared with what it was. This file has the
operations themselves, the memories, and the cartridge with its image. An image is cut only where it
has bytes (`Cartridge.parse?_eq`), since each section is known to fit before the next one is looked
at.
-/

namespace Famicom

/-! ## Numbers -/

/-- The sum of two numbers of some width. -/
def sum? (width a b : Nat) : Option Nat := if a + b < 2 ^ width then some (a + b) else none

/-- The product of two numbers of some width. -/
def product? (width a b : Nat) : Option Nat := if a * b < 2 ^ width then some (a * b) else none

/-- The difference of two natural numbers. -/
def difference? (a b : Nat) : Option Nat := if b ≤ a then some (a - b) else none

/-- The remainder of a division. -/
def remainder? (a b : Nat) : Option Nat := if b = 0 then none else some (a % b)

theorem sum?_eq {width a b : Nat} (h : a + b < 2 ^ width) : sum? width a b = some (a + b) :=
  if_pos h

theorem product?_eq {width a b : Nat} (h : a * b < 2 ^ width) : product? width a b = some (a * b) :=
  if_pos h

theorem difference?_eq {a b : Nat} (h : b ≤ a) : difference? a b = some (a - b) := if_pos h

theorem remainder?_eq {a b : Nat} (h : 0 < b) : remainder? a b = some (a % b) :=
  if_neg (Nat.ne_of_gt h)

/-! ## Bytes -/

/-- The bytes from `start` to `stop`, if there are so many. -/
def slice? (bytes : ByteArray) (start stop : Nat) : Option ByteArray :=
  if start ≤ stop ∧ stop ≤ bytes.size then some (bytes.extract start stop) else none

/-- The byte at an index modulo the size, or zero if there are no bytes. -/
def repeated? (bytes : ByteArray) (i : Nat) : Option UInt8 :=
  if bytes.size = 0 then some 0 else do bytes[← remainder? i bytes.size]?

theorem cyclicByte_of_size {bytes : ByteArray} (h : 0 < bytes.size) (i : Nat) :
    bytes[i % bytes.size]? = some (cyclicByte bytes i) := by
  rw [cyclicByte, dif_pos h]
  exact getElem?_pos bytes (i % bytes.size) (Nat.mod_lt i h)

theorem repeated?_eq (bytes : ByteArray) (i : Nat) :
    repeated? bytes i = some (cyclicByte bytes i) := by
  unfold repeated?
  split_ifs with hnone
  · rw [cyclicByte, dif_neg (by omega)]
  · have hpos : 0 < bytes.size := Nat.pos_of_ne_zero hnone
    rw [remainder?_eq hpos]
    exact cyclicByte_of_size hpos i

namespace Memory

variable {size : Nat}

/-- The cell at an index. -/
def at? (m : Memory size) (i : Nat) : Option UInt8 := m.bytes[i]?

/-- Store a value in the cell at an index. -/
def set? : Memory size → Nat → UInt8 → Option (Memory size)
  | ⟨bytes, h⟩, i, value =>
    if hi : i < bytes.size then some ⟨bytes.set i value hi, (Array.size_set ..).trans h⟩ else none

/-- The cell at an index modulo the size. -/
def read? (m : Memory size) (i : Nat) : Option UInt8 := do
  m.at? (← remainder? i m.bytes.size)

/-- Store a value in the cell at an index modulo the size. -/
def write? (m : Memory size) (i : Nat) (value : UInt8) : Option (Memory size) := do
  m.set? (← remainder? i m.bytes.size) value

variable [HasCells size]

theorem at?_mod (m : Memory size) (i : Nat) : m.at? (i % size) = some (m.read i) :=
  getElem?_pos m.bytes (i % size) (m.mod_lt_size_bytes i)

theorem set?_mod (m : Memory size) (i : Nat) (value : UInt8) :
    m.set? (i % size) value = some (m.write i value) :=
  dif_pos (m.mod_lt_size_bytes i)

theorem at?_eq (m : Memory size) {i : Nat} (h : i < size) : m.at? i = some (m.read i) := by
  rw [← at?_mod, Nat.mod_eq_of_lt h]

theorem set?_eq (m : Memory size) {i : Nat} (h : i < size) (value : UInt8) :
    m.set? i value = some (m.write i value) := by
  rw [← set?_mod, Nat.mod_eq_of_lt h]

theorem remainder?_size (m : Memory size) (i : Nat) :
    remainder? i m.bytes.size = some (i % size) := by
  rw [m.size_bytes]
  exact remainder?_eq (Nat.pos_of_ne_zero (NeZero.ne size))

theorem read?_eq (m : Memory size) (i : Nat) : m.read? i = some (m.read i) := by
  rw [read?, remainder?_size]
  exact m.at?_mod i

theorem write?_eq (m : Memory size) (i : Nat) (value : UInt8) :
    m.write? i value = some (m.write i value) := by
  rw [write?, remainder?_size]
  exact m.set?_mod i value

/-- Indices that agree modulo the size name the same cell. -/
theorem write_congr (m : Memory size) {i j : Nat} (h : i % size = j % size) (value : UInt8) :
    m.write i value = m.write j value :=
  Option.some_inj.1 (by rw [← set?_mod, h, set?_mod])

end Memory

/-! ## Accesses of the cartridge -/

namespace Cartridge

/-- The PRG ROM as the processor sees it from 8000 on. In a single bank a mask finds the byte. -/
def readPrg? (c : Cartridge) (a : UInt16) : Option UInt8 :=
  let i := (a - 0x8000).toNat
  if c.prg.size = 0x4000 then c.prg[i &&& 0x3FFF]? else repeated? c.prg i

/-- The PRG RAM as the processor sees it from 6000 on. -/
def readPrgRam? (c : Cartridge) (a : UInt16) : Option UInt8 := c.prgRam.at? (a.toNat &&& 0x1FFF)

/-- Store a byte in PRG RAM. -/
def writePrgRam? (c : Cartridge) (a : UInt16) (value : UInt8) : Option Cartridge := do
  return { c with prgRam := ← c.prgRam.set? (a.toNat &&& 0x1FFF) value }

/-- A byte of the pattern tables. -/
def readChr? (c : Cartridge) (a : UInt16) : Option UInt8 := repeated? c.chr.bytes a.toNat

/-- Store a byte in the pattern tables, where they are RAM. -/
def writeChr? (c : Cartridge) (a : UInt16) (value : UInt8) : Option Cartridge :=
  match c.chr with
  | .rom _ => some c
  | .ram cells => do return { c with chr := .ram (← cells.write? a.toNat value) }

theorem readPrg?_eq (c : Cartridge) (a : UInt16) : c.readPrg? a = some (c.readPrg a) := by
  unfold readPrg? readPrg
  dsimp only
  split_ifs with hone
  · have hmask : ((a - 0x8000).toNat &&& 0x3FFF) = (a - 0x8000).toNat % c.prg.size :=
      (Nat.and_two_pow_sub_one_eq_mod _ 14).trans (by rw [hone])
    rw [hmask]
    exact cyclicByte_of_size (by omega) _
  · exact repeated?_eq _ _

theorem readPrgRam?_eq (c : Cartridge) (a : UInt16) : c.readPrgRam? a = some (c.readPrgRam a) := by
  have hmask : a.toNat &&& 0x1FFF = a.toNat % 0x2000 := Nat.and_two_pow_sub_one_eq_mod _ 13
  rw [readPrgRam?, hmask, Memory.at?_mod]
  rfl

theorem writePrgRam?_eq (c : Cartridge) (a : UInt16) (value : UInt8) :
    c.writePrgRam? a value = some (c.writePrgRam a value) := by
  have hmask : a.toNat &&& 0x1FFF = a.toNat % 0x2000 := Nat.and_two_pow_sub_one_eq_mod _ 13
  rw [writePrgRam?, hmask, Memory.set?_mod]
  rfl

theorem readChr?_eq (c : Cartridge) (a : UInt16) : c.readChr? a = some (c.readChr a) := by
  refine (repeated?_eq _ _).trans (congrArg some ?_)
  obtain ⟨prg, bytes | cells, prgRam, mirroring, battery, mapper⟩ := c
  · rfl
  · have hpos : 0 < cells.bytes.size := by
      rw [cells.size_bytes]
      decide
    refine Option.some_inj.1 ((cyclicByte_of_size hpos a.toNat).symm.trans ?_)
    rw [cells.size_bytes]
    exact cells.at?_mod a.toNat

theorem writeChr?_eq (c : Cartridge) (a : UInt16) (value : UInt8) :
    c.writeChr? a value = some (c.writeChr a value) := by
  obtain ⟨prg, chr | cells, prgRam, mirroring, battery, mapper⟩ := c
  · rfl
  · rw [writeChr?]
    dsimp only
    rw [Memory.write?_eq]
    rfl

end Cartridge

/-! ## The image -/

/-- Read the header of an image. -/
def Header.parse? (image : ByteArray) : Option (Except CartridgeFault Header) :=
  if image.size < 16 then some (.error (.tooShort image.size))
  else do
    let b₀ ← image[0]?
    let b₁ ← image[1]?
    let b₂ ← image[2]?
    let b₃ ← image[3]?
    if b₀ = 0x4E ∧ b₁ = 0x45 ∧ b₂ = 0x53 ∧ b₃ = 0x1A then
      return .ok ⟨← image[4]?, ← image[5]?, ← image[6]?, ← image[7]?⟩
    else return .error (.badMagic b₀ b₁ b₂ b₃)

theorem Header.parse?_eq (image : ByteArray) : parse? image = some (parse image) := by
  unfold parse? parse
  by_cases hshort : image.size < 16
  · rw [if_pos hshort, dif_pos hshort]
  · have hbyte (i : Nat) (hi : i < image.size) : image[i]? = some image[i] :=
      getElem?_pos image i hi
    rw [if_neg hshort, dif_neg hshort, hbyte 0 (by omega), hbyte 1 (by omega), hbyte 2 (by omega),
      hbyte 3 (by omega), hbyte 4 (by omega), hbyte 5 (by omega), hbyte 6 (by omega),
      hbyte 7 (by omega)]
    simp only [Option.bind_eq_bind, Option.bind_some]
    split_ifs <;> rfl

theorem Header.size_le_of_parse {image : ByteArray} {header : Header}
    (h : parse image = .ok header) : Header.size ≤ image.size := by
  unfold parse at h
  split at h
  · cases h
  · exact Nat.le_of_not_lt ‹_›

namespace Cartridge

/-- The bytes of a section of `size` bytes at `start`. -/
def takeSection? (image : ByteArray) (part : Section) (start size : Nat) :
    ExceptT CartridgeFault Option ByteArray :=
  let available := image.size - start
  if available < size then throw (.truncated part size available)
  else ExceptT.lift (slice? image start (start + size))

/-- Read an image. -/
def parse? (image : ByteArray) : ExceptT CartridgeFault Option Cartridge := do
  let header ← ExceptT.mk (Header.parse? image)
  let _ ← takeSection? image .trainer Header.size header.trainerSize
  let prgStart := Header.size + header.trainerSize
  let prg ← takeSection? image .prg prgStart header.prgSize
  let chr ← takeSection? image .chr (prgStart + header.prgSize) header.chrSize
  return {
    prg
    chr := if header.chrSize = 0 then .ram (.zeros _) else .rom chr
    prgRam := .zeros _
    mirroring := header.mirroring
    battery := header.battery
    mapper := header.mapper }

theorem takeSection?_eq {image : ByteArray} {start : Nat} (h : start ≤ image.size) (part : Section)
    (size : Nat) :
    (takeSection? image part start size).run = some (takeSection image part start size) := by
  unfold takeSection? takeSection
  dsimp only
  split_ifs
  · rfl
  · have hslice : slice? image start (start + size) = some (image.extract start (start + size)) :=
      if_pos ⟨Nat.le_add_right _ _, by omega⟩
    rw [hslice]
    rfl

theorem le_of_takeSection {image bytes : ByteArray} {part : Section} {start size : Nat}
    (hstart : start ≤ image.size) (h : takeSection image part start size = .ok bytes) :
    start + size ≤ image.size := by
  simp only [takeSection] at h
  split at h
  · cases h
  · omega

/-- Strict steps in turn answer what the steps answer in turn. -/
theorem bind_run_eq {ε α δ : Type} {m : ExceptT ε Option α} {outcome : Except ε α}
    {f : α → ExceptT ε Option δ} {g : α → Except ε δ} (hm : m.run = some outcome)
    (hf : ∀ a, outcome = .ok a → (f a).run = some (g a)) :
    (m >>= f).run = some (outcome >>= g) := by
  obtain rfl : m = some outcome := hm
  cases outcome with
  | error e => rfl
  | ok a => exact hf a rfl

theorem parse?_eq (image : ByteArray) : (parse? image).run = some (parse image) := by
  refine bind_run_eq (Header.parse?_eq image) fun header hheader => ?_
  have hlong := Header.size_le_of_parse hheader
  refine bind_run_eq (takeSection?_eq hlong _ _) fun _ htrainer => ?_
  have hprgStart := le_of_takeSection hlong htrainer
  refine bind_run_eq (takeSection?_eq hprgStart _ _) fun _ hprg => ?_
  have hchrStart := le_of_takeSection hprgStart hprg
  exact bind_run_eq (takeSection?_eq hchrStart _ _) fun _ _ => rfl

end Cartridge

end Famicom
