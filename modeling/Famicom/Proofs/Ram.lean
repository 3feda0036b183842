import Famicom.Proofs.Cpu.FaultFree
import Famicom.Proofs.Store

/-!
# RAM among other devices

What a program does to a number in RAM depends on few addresses : those of the number, those it
reads beside it, and those that its code is fetched from. `RamAmong cells seen b` is what these have
to be on the bus `b`. The addresses in `cells` are RAM, each one a cell of its own, and every
address that is `seen` can be read without a change. All others may be anything : registers, more
names of the same cells, or nothing at all.

A bus that is memory throughout is the simplest example (`PlainMemory`). The processor's own bus is
one as well, with bytes of work RAM and PRG RAM for cells and the program in PRG ROM among what is
seen (`Board.ramAmong`).
-/

namespace Famicom

variable {β : Type} [AddressSpace β]

/-! ## RAM -/

/-- In the states `P` of the bus the addresses in `cells` are RAM to one who looks at the addresses
that are `seen`. A write to a cell leads to such a state again. -/
structure KeepsRam (cells : List UInt16) (seen : UInt16 → Bool) (P : β → Prop) : Prop where
  seen_of_mem : ∀ a ∈ cells, seen a
  /-- A look changes nothing. -/
  read : ∀ a b, seen a → P b → AddressSpace.read a b = (.ok (byteAt b a), b)
  write : ∀ a value b, a ∈ cells → P b →
    (AddressSpace.write a value b).1 = .ok () ∧ P (AddressSpace.write a value b).2
  /-- A byte is stored at its address and at no other one. -/
  byteAt_write : ∀ a value b x, a ∈ cells → seen x → P b →
    byteAt (AddressSpace.write a value b).2 x = if x = a then value else byteAt b x

/-- From the state `b` of the bus on, the addresses in `cells` are RAM to one who looks at the
addresses that are `seen`. -/
def RamAmong (cells : List UInt16) (seen : UInt16 → Bool) (b : β) : Prop :=
  ∃ P : β → Prop, KeepsRam cells seen P ∧ P b

namespace RamAmong

variable {cells : List UInt16} {seen : UInt16 → Bool} {b : β} (h : RamAmong cells seen b)

include h

theorem seen_of_mem {a : UInt16} (ha : a ∈ cells) : seen a := by
  obtain ⟨P, hP, -⟩ := h
  exact hP.seen_of_mem a ha

theorem read {a : UInt16} (ha : seen a) : AddressSpace.read a b = (.ok (byteAt b a), b) := by
  obtain ⟨P, hP, hb⟩ := h
  exact hP.read a b ha hb

theorem reads {addresses : List UInt16} (haddresses : ∀ a ∈ addresses, seen a) :
    Reads addresses (addresses.map (byteAt b)) b b :=
  .of_forall fun a ha => h.read (haddresses a ha)

theorem write {a : UInt16} (ha : a ∈ cells) (value : UInt8) :
    (AddressSpace.write a value b).1 = .ok () := by
  obtain ⟨P, hP, hb⟩ := h
  exact (hP.write a value b ha hb).1

/-- RAM stays RAM. -/
theorem after_write {a : UInt16} (ha : a ∈ cells) (value : UInt8) :
    RamAmong cells seen (AddressSpace.write a value b).2 := by
  obtain ⟨P, hP, hb⟩ := h
  exact ⟨P, hP, (hP.write a value b ha hb).2⟩

theorem byteAt_write {a : UInt16} (ha : a ∈ cells) (value : UInt8) {x : UInt16} (hx : seen x) :
    byteAt (AddressSpace.write a value b).2 x = if x = a then value else byteAt b x := by
  obtain ⟨P, hP, hb⟩ := h
  exact hP.byteAt_write a value b x ha hx hb

theorem byteAt_write_self {a : UInt16} (ha : a ∈ cells) (value : UInt8) :
    byteAt (AddressSpace.write a value b).2 a = value :=
  (h.byteAt_write ha value (h.seen_of_mem ha)).trans (if_pos rfl)

theorem byteAt_write_of_ne {a : UInt16} (ha : a ∈ cells) (value : UInt8) {x : UInt16} (hx : seen x)
    (hne : x ≠ a) : byteAt (AddressSpace.write a value b).2 x = byteAt b x :=
  (h.byteAt_write ha value hx).trans (if_neg hne)

end RamAmong

/-! ## Memory throughout -/

/-- The bus is memory throughout : every access is answered, a read changes nothing, and a write
changes the byte at its address alone. -/
class PlainMemory (β : Type) [AddressSpace β] : Prop where
  read : ∀ (a : UInt16) (b : β), AddressSpace.read a b = (.ok (byteAt b a), b)
  write : ∀ (a : UInt16) (value : UInt8) (b : β), (AddressSpace.write a value b).1 = .ok ()
  byteAt_write : ∀ (a : UInt16) (value : UInt8) (b : β) (x : UInt16),
    byteAt (AddressSpace.write a value b).2 x = if x = a then value else byteAt b x

instance : PlainMemory (Memory 0x10000) where
  read _ _ := rfl
  write _ _ _ := rfl
  byteAt_write a value m x := by
    have ha := a.toNat_lt
    have hx := x.toNat_lt
    have hcell : x.toNat % 0x10000 = a.toNat % 0x10000 ↔ x = a := by
      rw [← UInt16.toNat_inj]
      omega
    refine (m.read_write a.toNat x.toNat value).trans ?_
    simp only [hcell]
    rfl

/-- There all addresses are RAM among all others. -/
theorem PlainMemory.ramAmong [PlainMemory β] (cells : List UInt16) (b : β) :
    RamAmong cells (fun _ => true) b :=
  ⟨fun _ => True,
    { seen_of_mem := fun _ _ => rfl
      read := fun a b _ _ => PlainMemory.read a b
      write := fun a value b _ _ => ⟨PlainMemory.write a value b, trivial⟩
      byteAt_write := fun a value b x _ _ _ => PlainMemory.byteAt_write a value b x }, trivial⟩

/-! ## The processor's bus -/

namespace Board

/-- At the address there is work RAM, or memory of a cartridge in the slot. -/
def IsMemory (b : Board) (a : UInt16) : Prop := a ≤ 0x1FFF ∨ 0x6000 ≤ a ∧ b.cartridge.isSome

variable {b : Board} {a x : UInt16}

theorem IsMemory.slot (h : b.IsMemory a) : a ≤ 0x1FFF ∨ b.cartridge.isSome := h.imp_right And.right

theorem IsMemory.write (h : b.IsMemory x) (a : UInt16) (value : UInt8) :
    (AddressSpace.write a value b).2.IsMemory x := by
  rwa [IsMemory, isSome_cartridge_write]

theorem byteAt_of_read {value : UInt8} (h : AddressSpace.read x b = (.ok value, b)) :
    byteAt b x = value := by
  rw [byteAt, h]

theorem byteAt_ram (h : a ≤ 0x1FFF) : byteAt b a = b.ram.read a.toNat :=
  byteAt_of_read (by rw [read_eq, if_pos h, readRam])

/-- Memory without a cell is PRG ROM. -/
theorem IsMemory.prg (h : b.IsMemory x) (hnone : Cell.named? x = none) :
    0x8000 ≤ x ∧ b.cartridge.isSome := by
  obtain ⟨hram, hprgRam⟩ := Cell.named?_eq_none_iff.1 hnone
  obtain ⟨hx, hslot⟩ := h.resolve_left hram
  refine ⟨?_, hslot⟩
  simp only [UInt16.le_iff_toNat_le, UInt16.reduceToNat] at hx hprgRam ⊢
  omega

theorem IsMemory.read (h : b.IsMemory x) : AddressSpace.read x b = (.ok (byteAt b x), b) := by
  obtain ⟨value, hread⟩ : ∃ value, AddressSpace.read x b = (.ok value, b) := by
    cases hcell : Cell.named? x with
    | some cell => exact ⟨_, read_named h.slot hcell⟩
    | none =>
      obtain ⟨hx, hslot⟩ := h.prg hcell
      obtain ⟨cartridge, hcartridge⟩ := Option.isSome_iff_exists.1 hslot
      exact ⟨_, read_prg_of_some hcartridge hx⟩
  rw [byteAt_of_read hread, hread]

/-- A write to a cell is seen under the names of the cell. -/
theorem IsMemory.byteAt_write (ha : b.IsMemory a) (hcell : (Cell.named? a).isSome) (value : UInt8)
    (hx : b.IsMemory x) : byteAt (AddressSpace.write a value b).2 x =
      if Cell.named? x = Cell.named? a then value else byteAt b x := by
  have hx' := hx.write a value
  cases hnamed : Cell.named? x with
  | some cell =>
    rw [byteAt_of_read (read_named hx'.slot hnamed), byteAt_of_read (read_named hx.slot hnamed),
      contents_write ha.slot]
    exact if_congr eq_comm rfl rfl
  | none =>
    obtain ⟨hrom, hslot⟩ := hx.prg hnamed
    obtain ⟨byte, hbefore, hafter⟩ := read_prg_write hslot a value hrom
    have hother : none ≠ Cell.named? a := (Option.isSome_iff_ne_none.1 hcell).symm
    rw [byteAt_of_read hbefore, byteAt_of_read hafter, if_neg hother]

theorem write_of_named (ha : b.IsMemory a) (hcell : (Cell.named? a).isSome) (value : UInt8) :
    (AddressSpace.write a value b).1 = .ok () := by
  by_cases hram : a ≤ 0x1FFF
  · rw [write_eq, if_pos hram]
    rfl
  · obtain ⟨cartridge, hcartridge⟩ := Option.isSome_iff_exists.1 (ha.slot.resolve_left hram)
    have hprgRam : 0x6000 ≤ a ∧ a ≤ 0x7FFF := by
      by_contra hprgRam
      rw [Cell.named?_eq_none_iff.2 ⟨hram, hprgRam⟩] at hcell
      cases hcell
    rw [write_prgRam_of_some hcartridge hprgRam.1 hprgRam.2]

/-- On the processor's bus bytes of work RAM and of PRG RAM are cells among the memory that is seen,
if none of them is seen under another name. -/
theorem ramAmong {cells : List UInt16} {seen : UInt16 → Bool}
    (hcells : ∀ a ∈ cells, seen a ∧ (Cell.named? a).isSome) (hseen : ∀ x, seen x → b.IsMemory x)
    (hnames : ∀ a ∈ cells, ∀ x, seen x → Cell.named? x = Cell.named? a → x = a) :
    RamAmong cells seen b := by
  refine ⟨fun d => ∀ x, seen x → d.IsMemory x, ?_, hseen⟩
  constructor
  · exact fun a ha => (hcells a ha).1
  · exact fun a d ha hd => (hd a ha).read
  · intro a value d ha hd
    obtain ⟨hsees, hcell⟩ := hcells a ha
    exact ⟨write_of_named (hd a hsees) hcell value, fun x hx => (hd x hx).write a value⟩
  · intro a value d x ha hx hd
    obtain ⟨hsees, hcell⟩ := hcells a ha
    rw [(hd a hsees).byteAt_write hcell value (hd x hx)]
    refine if_congr ⟨hnames a ha x hx, ?_⟩ rfl rfl
    rintro rfl
    rfl

/-- Bytes of work RAM are cells among themselves and the program in PRG ROM. -/
theorem ramAmong_prg {cells : List UInt16} (hcells : ∀ a ∈ cells, a ≤ 0x07FF)
    (hslot : b.cartridge.isSome) : RamAmong cells (fun x => x ∈ cells ∨ 0x8000 ≤ x) b := by
  have hlow (a : UInt16) (ha : a ∈ cells) : a.toNat ≤ 0x07FF := by
    simpa [UInt16.le_iff_toNat_le] using hcells a ha
  have hnamed (a : UInt16) (ha : a ∈ cells) :
      Cell.named? a = some (.ram (.ofNat _ a.toNat)) :=
    Cell.named?_ram (UInt16.le_trans (hcells a ha) (by decide))
  refine ramAmong ?_ ?_ ?_
  · exact fun a ha => ⟨decide_eq_true (.inl ha), by rw [hnamed a ha]; rfl⟩
  · intro x hx
    rcases of_decide_eq_true hx with hcell | hprg
    · exact .inl (UInt16.le_trans (hcells x hcell) (by decide))
    · exact .inr ⟨UInt16.le_trans (by decide) hprg, hslot⟩
  · intro a ha x hx hname
    rw [hnamed a ha] at hname
    rcases of_decide_eq_true hx with hcell | hprg
    · rw [hnamed x hcell] at hname
      have hindex := congrArg Fin.val (Cell.ram.inj (Option.some.inj hname))
      simp only [Fin.val_ofNat] at hindex
      have hla := hlow a ha
      have hlx := hlow x hcell
      rw [← UInt16.toNat_inj]
      omega
    · have hnone : Cell.named? x = none := by
        rw [Cell.named?_eq_none_iff]
        simp only [UInt16.le_iff_toNat_le, UInt16.reduceToNat] at hprg ⊢
        omega
      rw [hnone] at hname
      cases hname

end Board

end Famicom
