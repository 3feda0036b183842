import Famicom.Board
import Mathlib.Tactic.SplitIfs

/-!
# The map of the board

The routes of the processor's bus are disjoint, so the order of the table is no part
of what an access does : `read_eq` and `write_eq` name the device behind each address.

Three devices change something else than memory. A register of the picture unit may
change the unit, a controller its shift register, and a write to 4014 requests a
transfer. None moves the beam, and the picture unit requests an interrupt only at a write to
its control register (`quiet_read`, `quiet_write`, `still_write`).
-/

namespace Famicom

namespace Bus

variable {σ : Type}

theorem read_nil (name : String) (writes : List (WriteRoute σ)) (a : UInt16) (s : σ) :
    Bus.read ⟨name, [], writes⟩ a s = (.error ⟨.read, a⟩, s) :=
  rfl

/-- A route comes before those behind it. -/
theorem read_cons (name : String) (r : ReadRoute σ) (reads : List (ReadRoute σ))
    (writes : List (WriteRoute σ)) (a : UInt16) (s : σ) :
    Bus.read ⟨name, r :: reads, writes⟩ a s =
      if r.span.contains a then r.serve a s else Bus.read ⟨name, reads, writes⟩ a s := by
  unfold Bus.read Bus.readRoute
  rw [List.find?_cons]
  split_ifs with h <;> simp only [h]

theorem write_nil (name : String) (reads : List (ReadRoute σ)) (a : UInt16) (value : UInt8)
    (s : σ) : Bus.write ⟨name, reads, []⟩ a value s = (.error ⟨.write, a⟩, s) :=
  rfl

theorem write_cons (name : String) (r : WriteRoute σ) (reads : List (ReadRoute σ))
    (writes : List (WriteRoute σ)) (a : UInt16) (value : UInt8) (s : σ) :
    Bus.write ⟨name, reads, r :: writes⟩ a value s =
      if r.span.contains a then r.serve a value s
      else Bus.write ⟨name, reads, writes⟩ a value s := by
  unfold Bus.write Bus.writeRoute
  rw [List.find?_cons]
  split_ifs with h <;> simp only [h]

/-- Reads of the address disturb a device. -/
def isVolatile (bus : Bus σ) (a : UInt16) : Bool := (bus.readRoute a).any fun r => r.volatile

theorem isVolatile_nil (name : String) (writes : List (WriteRoute σ)) (a : UInt16) :
    Bus.isVolatile ⟨name, [], writes⟩ a = false :=
  rfl

theorem isVolatile_cons (name : String) (r : ReadRoute σ) (reads : List (ReadRoute σ))
    (writes : List (WriteRoute σ)) (a : UInt16) :
    Bus.isVolatile ⟨name, r :: reads, writes⟩ a =
      if r.span.contains a then r.volatile else Bus.isVolatile ⟨name, reads, writes⟩ a := by
  unfold isVolatile Bus.readRoute
  rw [List.find?_cons]
  split_ifs with h <;> simp only [h, Option.any_some]

/-- A look is a read, where it may look. -/
theorem peek_eq (bus : Bus σ) (a : UInt16) (s : σ) :
    bus.peek a s =
      if bus.isVolatile a then (none, s)
      else
        match bus.read a s with
        | (.ok value, s) => (some value, s)
        | (.error _, s) => (none, s) := by
  unfold Bus.peek Bus.read isVolatile
  cases bus.readRoute a <;> rfl

end Bus

theorem Span.contains_iff {first last a : UInt16} :
    Span.contains ⟨first, last⟩ a ↔ first.toNat ≤ a.toNat ∧ a.toNat ≤ last.toNat := by
  simp [Span.contains, UInt16.le_iff_toNat_le]

namespace Board

/-! ## Devices and addresses -/

/-- What a read does, by the device behind the address. -/
theorem read_eq (a : UInt16) (b : Board) :
    AddressSpace.read a b =
      if a ≤ 0x1FFF then readRam a b
      else if a ≤ 0x3FFF then readPpu a b
      else if a ≤ 0x4015 then readSilence a b
      else if a ≤ 0x4017 then readController a b
      else if b.cartridge.isSome ∧ 0x6000 ≤ a then
        if a ≤ 0x7FFF then readCartridge Cartridge.readPrgRam a b
        else readCartridge Cartridge.readPrg a b
      else (.error ⟨.read, a⟩, b) := by
  show b.bus.read a b = _
  have ha := a.toNat_lt
  unfold bus
  cases b.cartridge.isSome
  all_goals
    simp only [cartridgeBus, emptySlotBus, Bus.mapRead, Bus.mapWrite, Bus.mapVolatile, Bus.addRead,
      Bus.addWrite, Bus.empty, List.nil_append, List.cons_append, Bus.read_cons, Bus.read_nil,
      Span.contains_iff, UInt16.le_iff_toNat_le, UInt16.reduceToNat, Bool.false_eq_true, if_true,
      if_false, true_and, false_and]
    by_cases hram : a.toNat ≤ 0x1FFF
    · simp (disch := omega) only [if_pos]
    by_cases hppu : a.toNat ≤ 0x3FFF
    · simp (disch := omega) only [if_pos, if_neg]
    by_cases hapu : a.toNat ≤ 0x4015
    · simp (disch := omega) only [if_pos, if_neg]
    by_cases hpad : a.toNat ≤ 0x4017
    · simp (disch := omega) only [if_pos, if_neg]
    by_cases hcart : 0x6000 ≤ a.toNat
    · by_cases hprg : a.toNat ≤ 0x7FFF <;> simp (disch := omega) only [if_pos, if_neg]
    · simp (disch := omega) only [if_neg]

/-- What a look sees : the registers and the controllers are out of sight, and elsewhere it is what
a read would answer. -/
theorem peek_eq (a : UInt16) (b : Board) :
    AddressSpace.peek a b =
      if 0x2000 ≤ a ∧ a ≤ 0x3FFF ∨ 0x4016 ≤ a ∧ a ≤ 0x4017 then (none, b)
      else
        match AddressSpace.read a b with
        | (.ok value, b) => (some value, b)
        | (.error _, b) => (none, b) := by
  have hvolatile : b.bus.isVolatile a =
      decide (0x2000 ≤ a ∧ a ≤ 0x3FFF ∨ 0x4016 ≤ a ∧ a ≤ 0x4017) := by
    unfold bus
    cases b.cartridge.isSome
    all_goals
      simp only [cartridgeBus, emptySlotBus, Bus.mapRead, Bus.mapWrite, Bus.mapVolatile,
        Bus.addRead, Bus.addWrite, Bus.empty, List.nil_append, List.cons_append,
        Bus.isVolatile_cons, Bus.isVolatile_nil, Span.contains_iff, UInt16.le_iff_toNat_le,
        UInt16.reduceToNat, Bool.false_eq_true, if_true, if_false]
      split_ifs <;>
        simp only [Bool.true_eq, Bool.false_eq, decide_eq_true_eq, decide_eq_false_iff_not] <;>
        omega
  have hread : b.bus.read a b = AddressSpace.read a b := rfl
  refine (Bus.peek_eq b.bus a b).trans ?_
  simp only [hvolatile, decide_eq_true_eq, hread]
  rcases AddressSpace.read a b with ⟨_ | value, d⟩ <;> rfl

/-- The upper half of the addresses is the cartridge's. -/
theorem read_prg {a : UInt16} (h : 0x8000 ≤ a) (b : Board) :
    AddressSpace.read a b =
      if b.cartridge.isSome then readCartridge Cartridge.readPrg a b
      else (.error ⟨.read, a⟩, b) := by
  simp only [UInt16.le_iff_toNat_le, UInt16.reduceToNat] at h
  have hhigh : 0x6000 ≤ a.toNat := by omega
  rw [read_eq]
  simp only [UInt16.le_iff_toNat_le, UInt16.reduceToNat]
  simp (disch := omega) only [if_neg, hhigh, and_true]

theorem read_prg_of_some {b : Board} {cartridge : Cartridge} (h : b.cartridge = some cartridge)
    {a : UInt16} (ha : 0x8000 ≤ a) :
    AddressSpace.read a b = (.ok (cartridge.readPrg a), b) := by
  rw [read_prg ha, readCartridge, h]
  rfl

theorem read_prgRam_of_some {b : Board} {cartridge : Cartridge} (h : b.cartridge = some cartridge)
    {a : UInt16} (ha : 0x6000 ≤ a) (hle : a ≤ 0x7FFF) :
    AddressSpace.read a b = (.ok (cartridge.readPrgRam a), b) := by
  have hslot : b.cartridge.isSome ∧ 0x6000 ≤ a := ⟨by rw [h]; rfl, ha⟩
  simp only [UInt16.le_iff_toNat_le, UInt16.reduceToNat] at ha
  rw [read_eq, if_pos hslot, if_pos hle, readCartridge, h]
  simp only [UInt16.le_iff_toNat_le, UInt16.reduceToNat]
  simp (disch := omega) only [if_neg]
  rfl

/-- What a write does, by the device behind the address. -/
theorem write_eq (a : UInt16) (value : UInt8) (b : Board) :
    AddressSpace.write a value b =
      if a ≤ 0x1FFF then writeRam a value b
      else if a ≤ 0x3FFF then writePpu a value b
      else if a = 0x4014 then requestTransfer a value b
      else if a = 0x4016 then writeStrobe a value b
      else if a ≤ 0x401F then ignoreWrite a value b
      else if b.cartridge.isSome ∧ 0x6000 ≤ a then
        if a ≤ 0x7FFF then writePrgRam a value b else ignoreWrite a value b
      else (.error ⟨.write, a⟩, b) := by
  show b.bus.write a value b = _
  have ha := a.toNat_lt
  have htransfer : a = 0x4014 ↔ a.toNat = 0x4014 := UInt16.toNat_inj.symm
  have hstrobe : a = 0x4016 ↔ a.toNat = 0x4016 := UInt16.toNat_inj.symm
  unfold bus
  cases b.cartridge.isSome
  all_goals
    simp only [cartridgeBus, emptySlotBus, Bus.mapRead, Bus.mapWrite, Bus.mapVolatile, Bus.addRead,
      Bus.addWrite, Bus.empty, List.nil_append, List.cons_append, Bus.write_cons, Bus.write_nil,
      Span.contains_iff, UInt16.le_iff_toNat_le, UInt16.reduceToNat, Bool.false_eq_true, if_true,
      if_false, true_and, false_and, htransfer, hstrobe]
    by_cases hram : a.toNat ≤ 0x1FFF
    · simp (disch := omega) only [if_pos]
    by_cases hppu : a.toNat ≤ 0x3FFF
    · simp (disch := omega) only [if_pos, if_neg]
    by_cases h4014 : a.toNat = 0x4014
    · simp (disch := omega) only [if_pos, if_neg]
    by_cases h4016 : a.toNat = 0x4016
    · simp (disch := omega) only [if_pos, if_neg]
    by_cases happ : a.toNat ≤ 0x4013
    · simp (disch := omega) only [if_pos, if_neg]
    by_cases h4015 : a.toNat = 0x4015
    · simp (disch := omega) only [if_pos, if_neg]
    by_cases h4017 : a.toNat = 0x4017
    · simp (disch := omega) only [if_pos, if_neg]
    by_cases htest : a.toNat ≤ 0x401F
    · simp (disch := omega) only [if_pos, if_neg]
    by_cases hcart : 0x6000 ≤ a.toNat
    · by_cases hprg : a.toNat ≤ 0x7FFF <;> simp (disch := omega) only [if_pos, if_neg]
    · simp (disch := omega) only [if_neg]

theorem write_prgRam_of_some {b : Board} {cartridge : Cartridge} (h : b.cartridge = some cartridge)
    {a : UInt16} (ha : 0x6000 ≤ a) (hle : a ≤ 0x7FFF) (value : UInt8) :
    AddressSpace.write a value b = (.ok (), b.insert (cartridge.writePrgRam a value)) := by
  have hslot : b.cartridge.isSome ∧ 0x6000 ≤ a := ⟨by rw [h]; rfl, ha⟩
  have htransfer : a = 0x4014 ↔ a.toNat = 0x4014 := UInt16.toNat_inj.symm
  have hstrobe : a = 0x4016 ↔ a.toNat = 0x4016 := UInt16.toNat_inj.symm
  simp only [UInt16.le_iff_toNat_le, UInt16.reduceToNat] at ha
  rw [write_eq, if_pos hslot, if_pos hle, writePrgRam, h]
  simp only [UInt16.le_iff_toNat_le, UInt16.reduceToNat, htransfer, hstrobe]
  simp (disch := omega) only [if_neg]
  rfl

end Board

/-! ## The picture unit behind its registers -/

namespace Ppu

/-- From `p` to `q` the beam did not move, and the flag of the vertical blank was not set. -/
structure Still (p q : Ppu) : Prop where
  beam : q.beam = p.beam
  blank : q.regs.status.verticalBlank → p.regs.status.verticalBlank

theorem Still.refl (p : Ppu) : Still p p := ⟨rfl, id⟩

theorem Still.trans {p q r : Ppu} (hpq : Still p q) (hqr : Still q r) : Still p r :=
  ⟨hqr.beam.trans hpq.beam, fun h => hpq.blank (hqr.blank h)⟩

/-- Nor did the request or the control register change. -/
structure Quiet (p q : Ppu) : Prop extends Still p q where
  requesting : q.requesting = p.requesting
  control : q.regs.control = p.regs.control

theorem Quiet.refl (p : Ppu) : Quiet p p := ⟨Still.refl p, rfl, rfl⟩

theorem Quiet.trans {p q r : Ppu} (hpq : Quiet p q) (hqr : Quiet q r) : Quiet p r :=
  ⟨hpq.toStill.trans hqr.toStill, hqr.requesting.trans hpq.requesting,
    hqr.control.trans hpq.control⟩

theorem quiet_readData (p : Ppu) : Quiet p p.readData.2 := by
  unfold readData
  dsimp only
  split
  · split
    · exact ⟨⟨rfl, id⟩, rfl, rfl⟩
    · split <;> exact ⟨⟨rfl, id⟩, rfl, rfl⟩
  · split <;> exact ⟨⟨rfl, id⟩, rfl, rfl⟩

theorem quiet_writeData (p : Ppu) (value : UInt8) : Quiet p (p.writeData value).2 := by
  unfold writeData
  split <;> exact ⟨⟨rfl, id⟩, rfl, rfl⟩

/-- A read of the data register leaves its value on the data lines, and the rest as the access
does. -/
theorem exists_read_data (p : Ppu) :
    ∃ value, (p.read .data).2 = { p.readData.2 with latch := value } := by
  unfold read
  rcases p.readData with ⟨_ | value, q⟩
  · exact ⟨q.latch, rfl⟩
  · exact ⟨value, rfl⟩

/-- A read can take the flag of the vertical blank away, and nothing else of it. -/
theorem quiet_read (p : Ppu) (register : PpuRegister) : Quiet p (p.read register).2 := by
  cases register with
  | status => exact ⟨⟨rfl, fun h => nomatch h⟩, rfl, rfl⟩
  | data =>
    obtain ⟨value, hread⟩ := p.exists_read_data
    rw [hread]
    exact p.quiet_readData.trans ⟨⟨rfl, id⟩, rfl, rfl⟩
  | _ => exact ⟨⟨rfl, id⟩, rfl, rfl⟩

theorem quiet_write (p : Ppu) {register : PpuRegister} (value : UInt8)
    (h : register ≠ .control) : Quiet p (p.write register value).2 := by
  have hlatch : Quiet p { p with latch := value } := ⟨⟨rfl, id⟩, rfl, rfl⟩
  cases register with
  | control => exact absurd rfl h
  | scroll =>
    refine hlatch.trans ?_
    simp only [write, PpuRegisters.writeScroll]
    split <;> exact ⟨⟨rfl, id⟩, rfl, rfl⟩
  | address =>
    refine hlatch.trans ?_
    simp only [write, PpuRegisters.writeAddress]
    split <;> exact ⟨⟨rfl, id⟩, rfl, rfl⟩
  | data => exact hlatch.trans (quiet_writeData _ value)
  | _ => exact ⟨⟨rfl, id⟩, rfl, rfl⟩

theorem quiet_writeOam (p : Ppu) (value : UInt8) : Quiet p (p.writeOam value) :=
  ⟨⟨rfl, id⟩, rfl, rfl⟩

end Ppu

namespace Board

/-- The address is one of those of the control register of the picture unit. -/
def isControl (a : UInt16) : Bool :=
  0x2000 ≤ a && a ≤ 0x3FFF && PpuRegister.ofAddress a == .control

theorem isControl_iff {a : UInt16} :
    isControl a ↔ ¬a ≤ 0x1FFF ∧ a ≤ 0x3FFF ∧ PpuRegister.ofAddress a = .control := by
  simp only [isControl, Bool.and_eq_true, decide_eq_true_eq, beq_iff_eq, UInt16.le_iff_toNat_le,
    UInt16.reduceToNat, and_assoc]
  constructor <;> exact fun ⟨h₁, h₂⟩ => ⟨by omega, h₂⟩

theorem quiet_read (a : UInt16) (b : Board) : Ppu.Quiet b.ppu (AddressSpace.read a b).2.ppu := by
  rw [read_eq]
  split_ifs
  any_goals exact Ppu.Quiet.refl _
  exact b.ppu.quiet_read _

theorem write_control {a : UInt16} (h : isControl a) (value : UInt8) (b : Board) :
    AddressSpace.write a value b =
      (.ok (), { b with ppu := { b.ppu with latch := value }.writeControl value }) := by
  obtain ⟨hram, hppu, hreg⟩ := isControl_iff.1 h
  rw [write_eq, if_neg hram, if_pos hppu, writePpu, hreg]
  rfl

theorem quiet_write {a : UInt16} (h : isControl a = false) (value : UInt8) (b : Board) :
    Ppu.Quiet b.ppu (AddressSpace.write a value b).2.ppu := by
  rw [write_eq]
  split_ifs with hram hppu
  any_goals exact Ppu.Quiet.refl _
  · have hreg : PpuRegister.ofAddress a ≠ .control := fun hreg =>
      Bool.eq_false_iff.1 h (isControl_iff.2 ⟨hram, hppu, hreg⟩)
    exact b.ppu.quiet_write value hreg
  · unfold writePrgRam
    cases b.cartridge with
    | none => exact Ppu.Quiet.refl _
    | some c => exact ⟨⟨rfl, id⟩, rfl, rfl⟩

/-- No write moves the beam or sets the flag. -/
theorem still_write (a : UInt16) (value : UInt8) (b : Board) :
    Ppu.Still b.ppu (AddressSpace.write a value b).2.ppu := by
  cases h : isControl a with
  | true =>
    rw [write_control h]
    exact ⟨rfl, id⟩
  | false => exact (quiet_write h value b).toStill

end Board

end Famicom
