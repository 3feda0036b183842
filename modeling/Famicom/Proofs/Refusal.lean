import Famicom.Proofs.FailedStep
import Famicom.Proofs.Ppu.Words
import Famicom.Proofs.ReadOnly

/-!
# Which accesses are refused

An access can be refused in two places. On the processor's bus there are addresses without a device,
and which these are depends on the slot (`Board.refused_read`, `Board.refused_write`). Behind the
data register of the picture unit there is a second bus, where only the pattern tables can be
missing : they come with a cartridge (`Ppu.Astray`). The fault of such an access names the address
on the second bus.

With a cartridge in the slot nothing is missing behind the data register, and what is left without a
device lies between 4018 and 5FFF. As a step keeps the cartridge in its slot, no fault of a program
names an address outside that gap (`Console.refusal_in_gap`).
-/

namespace Famicom

theorem refused_eq_some_iff {α : Type} {outcome : Except BusFault α} {fault : BusFault} :
    refused outcome = some fault ↔ outcome = .error fault := by
  cases outcome <;> simp [refused]

/-- One of two outcomes that exclude each other. -/
theorem ite_some_eq_some_iff {α : Type} {p q : Prop} [Decidable p] [Decidable q] {x y z : α}
    (h : q → ¬p) :
    (if p then some x else if q then some y else none) = some z ↔ p ∧ z = x ∨ q ∧ z = y := by
  split_ifs with hp hq
  · have hq : ¬q := fun hq => h hq hp
    simp [hp, hq, eq_comm]
  · simp [hp, hq, eq_comm]
  · simp [hp, hq]

/-! ## The picture unit's own accesses -/

/-- The pattern tables end in front of 2000. -/
theorem lt_pattern_end_iff {a : UInt16} : a < 0x2000 ↔ a ≤ 0x1FFF := by
  simp only [UInt16.lt_iff_toNat_lt, UInt16.le_iff_toNat_le, UInt16.reduceToNat]
  omega

namespace VideoSpace

/-- Only the pattern tables can be missing. -/
theorem refused_read {a : UInt16} (h : a ≤ 0x3FFF) (s : VideoSpace) :
    refused (AddressSpace.read a s).1 =
      if s.cartridge = none ∧ a ≤ 0x1FFF then some ⟨.read, a⟩ else none := by
  rw [read_eq]
  by_cases hpattern : a ≤ 0x1FFF
  · cases hslot : s.cartridge <;> simp [hpattern, refused]
  · simp only [hpattern, and_false, if_false]
    split_ifs <;> rfl

theorem refused_write {a : UInt16} (h : a ≤ 0x3FFF) (value : UInt8) (s : VideoSpace) :
    refused (AddressSpace.write a value s).1 =
      if s.cartridge = none ∧ a ≤ 0x1FFF then some ⟨.write, a⟩ else none := by
  rw [write_eq]
  by_cases hpattern : a ≤ 0x1FFF
  · cases hslot : s.cartridge <;> simp [hpattern, refused]
  · simp only [hpattern, and_false, if_false]
    split_ifs <;> rfl

end VideoSpace

namespace Ppu

/-- The data register finds nothing at its address. -/
def Astray (p : Ppu) : Prop := p.video.cartridge = none ∧ p.regs.current.busAddress ≤ 0x1FFF

instance (p : Ppu) : Decidable p.Astray := by
  unfold Astray
  infer_instance

/-- Beneath the palette lie nametables. -/
theorem beneath_palette {a : UInt16} (h : 0x3F00 ≤ a) (hle : a ≤ 0x3FFF) :
    ¬a - 0x1000 ≤ 0x1FFF ∧ a - 0x1000 ≤ 0x3FFF := by
  have hsub := UInt16.toNat_sub_of_le a 0x1000 (UInt16.le_trans (by decide) h)
  simp only [UInt16.le_iff_toNat_le, UInt16.reduceToNat] at *
  omega

theorem refused_readData (p : Ppu) :
    refused p.readData.1 =
      if p.Astray then some ⟨.read, p.regs.current.busAddress⟩ else none := by
  have hle := p.regs.current.busAddress_le
  have hvalue := VideoSpace.refused_read hle p.video
  obtain ⟨value, hread⟩ := VideoSpace.exists_read_eq p.regs.current.busAddress p.video
  rw [hread] at hvalue
  unfold readData
  dsimp only
  split
  · -- Neither the palette nor the nametable byte beneath it can be missing.
    rename_i hpalette
    have hhigh : ¬p.regs.current.busAddress ≤ 0x1FFF := fun hlow =>
      absurd (UInt16.le_trans hpalette hlow) (by decide)
    obtain ⟨hnametable, hle'⟩ := beneath_palette hpalette hle
    have hbeneath := VideoSpace.refused_read hle' p.video
    obtain ⟨beneath, hread'⟩ :=
      VideoSpace.exists_read_eq (p.regs.current.busAddress - 0x1000) p.video
    rw [hread', if_neg fun h => hnametable h.2] at hbeneath
    rw [if_neg fun h => hhigh h.2] at hvalue
    rw [hread', if_neg fun h => hhigh h.2]
    cases beneath with
    | error => cases hbeneath
    | ok =>
      simp only [hread]
      cases value with
      | error => cases hvalue
      | ok => rfl
  · rw [hread]
    cases value <;> exact hvalue

theorem refused_writeData (p : Ppu) (value : UInt8) :
    refused (p.writeData value).1 =
      if p.Astray then some ⟨.write, p.regs.current.busAddress⟩ else none := by
  have hrefused := VideoSpace.refused_write p.regs.current.busAddress_le value p.video
  unfold writeData
  rcases hwrite : AddressSpace.write p.regs.current.busAddress value p.video with
    ⟨fault | value, video⟩ <;> rw [hwrite] at hrefused <;> exact hrefused

/-- Of all registers only the data register refuses a read. -/
theorem refused_register_read (p : Ppu) (register : PpuRegister) :
    refused (p.read register).1 =
      if register = .data ∧ p.Astray then some ⟨.read, p.regs.current.busAddress⟩ else none := by
  cases register with
  | data =>
    have h := p.refused_readData
    unfold read
    rcases hread : p.readData with ⟨_ | _, q⟩ <;> rw [hread] at h <;> simpa [drive] using h
  | _ => simp [read, drive, refused]

/-- Of all registers only the data register refuses a write. -/
theorem refused_register_write (p : Ppu) (register : PpuRegister) (value : UInt8) :
    refused (p.write register value).1 =
      if register = .data ∧ p.Astray then some ⟨.write, p.regs.current.busAddress⟩ else none := by
  cases register with
  | data =>
    have hlatched : refused (p.write .data value).1 = _ :=
      refused_writeData { p with latch := value } value
    rw [hlatched]
    simp [Astray]
  | _ => simp [write, refused]

end Ppu

/-! ## The processor's accesses -/

theorem PpuRegister.ofAddress_eq_data_iff {a : UInt16} :
    ofAddress a = .data ↔ a.toNat % 8 = 7 := by
  have hlt : a.toNat % 8 < 8 := Nat.mod_lt _ (by decide)
  unfold ofAddress
  generalize a.toNat % 8 = n at hlt
  match n, hlt with
  | 0, _ | 1, _ | 2, _ | 3, _ | 4, _ | 5, _ | 6, _ | 7, _ => decide

namespace Board

/-- The address is one of those of the data register of the picture unit. -/
def DataPort (a : UInt16) : Prop := 0x2000 ≤ a ∧ a ≤ 0x3FFF ∧ PpuRegister.ofAddress a = .data

instance (a : UInt16) : Decidable (DataPort a) := by
  unfold DataPort
  infer_instance

/-- A read is refused where no device is, and by the data register where no memory is. -/
theorem refused_read (a : UInt16) (b : Board) :
    refused (AddressSpace.read a b).1 =
      if 0x4018 ≤ a ∧ (a ≤ 0x5FFF ∨ b.cartridge = none) then some ⟨.read, a⟩
      else if DataPort a ∧ b.ppu.Astray then some ⟨.read, b.ppu.regs.current.busAddress⟩
      else none := by
  have ha := a.toNat_lt
  rw [read_eq]
  simp only [DataPort, UInt16.le_iff_toNat_le, UInt16.reduceToNat]
  by_cases hram : a.toNat ≤ 0x1FFF
  · simp (disch := omega) only [if_pos, if_neg]
    rfl
  by_cases hppu : a.toNat ≤ 0x3FFF
  · have hport : 0x2000 ≤ a.toNat := by omega
    simp (disch := omega) only [if_pos, if_neg]
    simp only [hport, hppu, true_and]
    exact b.ppu.refused_register_read _
  by_cases hpad : a.toNat ≤ 0x4017
  · by_cases hapu : a.toNat ≤ 0x4015 <;> simp (disch := omega) only [if_pos, if_neg] <;> rfl
  have hdevice : 0x4018 ≤ a.toNat := by omega
  by_cases hgap : a.toNat ≤ 0x5FFF
  · have hcart : ¬0x6000 ≤ a.toNat := by omega
    simp only [hcart, hdevice, hgap, and_false, true_or, and_true, if_true, if_false]
    simp (disch := omega) only [if_neg]
    rfl
  · have hcart : 0x6000 ≤ a.toNat := by omega
    cases hslot : b.cartridge with
    | none =>
      simp only [hdevice, Option.isSome_none, Bool.false_eq_true, false_and, or_true, and_true,
        if_true, if_false]
      simp (disch := omega) only [if_neg]
      rfl
    | some c =>
      simp only [hcart, hgap, Option.isSome_some, reduceCtorEq, or_false, and_false, and_true,
        if_true, if_false]
      simp (disch := omega) only [if_neg]
      split_ifs <;> rfl

/-- A write is refused where no device is, and by the data register where no memory is. -/
theorem refused_write (a : UInt16) (value : UInt8) (b : Board) :
    refused (AddressSpace.write a value b).1 =
      if 0x4020 ≤ a ∧ (a ≤ 0x5FFF ∨ b.cartridge = none) then some ⟨.write, a⟩
      else if DataPort a ∧ b.ppu.Astray then some ⟨.write, b.ppu.regs.current.busAddress⟩
      else none := by
  have ha := a.toNat_lt
  have htransfer : a = 0x4014 ↔ a.toNat = 0x4014 := UInt16.toNat_inj.symm
  have hstrobe : a = 0x4016 ↔ a.toNat = 0x4016 := UInt16.toNat_inj.symm
  rw [write_eq]
  simp only [DataPort, UInt16.le_iff_toNat_le, UInt16.reduceToNat, htransfer, hstrobe]
  by_cases hram : a.toNat ≤ 0x1FFF
  · simp (disch := omega) only [if_pos, if_neg]
    rfl
  by_cases hppu : a.toNat ≤ 0x3FFF
  · have hport : 0x2000 ≤ a.toNat := by omega
    simp (disch := omega) only [if_pos, if_neg]
    simp only [hport, hppu, true_and]
    exact b.ppu.refused_register_write _ _
  by_cases hlow : a.toNat ≤ 0x401F
  · simp (disch := omega) only [if_pos, if_neg]
    split_ifs <;> rfl
  have hdevice : 0x4020 ≤ a.toNat := by omega
  by_cases hgap : a.toNat ≤ 0x5FFF
  · have hcart : ¬0x6000 ≤ a.toNat := by omega
    simp only [hcart, hdevice, hgap, and_false, true_or, and_true, if_true, if_false]
    simp (disch := omega) only [if_neg]
    rfl
  · have hcart : 0x6000 ≤ a.toNat := by omega
    cases hslot : b.cartridge with
    | none =>
      simp only [hdevice, Option.isSome_none, Bool.false_eq_true, false_and, or_true, and_true,
        if_true, if_false]
      simp (disch := omega) only [if_neg]
      rfl
    | some c =>
      simp only [hcart, hgap, Option.isSome_some, reduceCtorEq, or_false, and_false, and_true,
        if_true, if_false]
      simp (disch := omega) only [if_neg]
      split_ifs
      · simp only [writePrgRam, hslot]
        rfl
      · rfl

/-- The address lies between the devices of the console and those of the cartridge. -/
def InGap (a : UInt16) : Prop := 0x4018 ≤ a ∧ a ≤ 0x5FFF

theorem not_astray {b : Board} (h : b.cartridge.isSome) : ¬b.ppu.Astray := fun hastray => by
  have hnone : b.cartridge = none := hastray.1
  rw [hnone] at h
  cases h

/-- With a cartridge in the slot only accesses in the gap are refused. -/
theorem inGap_of_refusal {b : Board} (h : b.cartridge.isSome) {x : BusCycle} {fault : BusFault}
    (hx : x.refusal b = some fault) : InGap fault.address := by
  have hslot : b.cartridge ≠ none := Option.isSome_iff_ne_none.1 h
  have hport : ¬b.ppu.Astray := not_astray h
  cases x with
  | read a answered =>
    rw [BusCycle.refusal, refused_read] at hx
    simp only [hslot, hport, or_false, and_false, if_false] at hx
    split_ifs at hx with hgap
    cases hx
    exact hgap
  | write a value answered =>
    rw [BusCycle.refusal, refused_write] at hx
    simp only [hslot, hport, or_false, and_false, if_false] at hx
    split_ifs at hx with hgap
    cases hx
    exact ⟨UInt16.le_trans (by decide) hgap.1, hgap.2⟩

theorem plugged_replay (b : Board) (log : List BusCycle) :
    (log.foldl BusCycle.replay b).plugged = b.plugged := by
  induction log generalizing b with
  | nil => rfl
  | cons x log ih =>
    refine (ih _).trans ?_
    cases x with
    | read a answered => exact plugged_read a b
    | write a value answered => exact plugged_write a value b

end Board

/-! ## A program's accesses -/

/-- The refused access behind a fault, if there is one. -/
def ConsoleFault.refusal? : ConsoleFault → Option BusFault
  | cpu (.bus _ refusal) => some refusal
  | transfer _ refusal => some refusal
  | _ => none

namespace Console

theorem inGap_of_readBlock {count : Nat} {a : UInt16} {b : Board} (h : b.cartridge.isSome)
    {fault : BusFault} (hblock : (readBlock count a b).1 = .error fault) :
    Board.InGap fault.address := by
  obtain ⟨k, -, bytes, d, hreads, hrefused⟩ := readBlock_eq_error.1 (Prod.ext hblock rfl)
  have hplugged : d.plugged = b.plugged :=
    hreads.keeps (P := fun d => d.plugged = b.plugged)
      (fun a d h => (Board.plugged_read a d).trans h) rfl
  have hslot : d.cartridge.isSome := by rwa [Board.isSome_cartridge_congr hplugged]
  have hrefusal : (BusCycle.read (a + .ofNat k) false).refusal d = some fault := by
    rw [BusCycle.refusal, hrefused]
    rfl
  exact Board.inGap_of_refusal hslot hrefusal

/-- With a cartridge in the slot a step that is refused an access is refused it in the gap. -/
theorem refusal_in_gap {c d : Console} (h : c.bus.cartridge.isSome) {fault : ConsoleFault}
    (hstep : c.step = (.error fault, d)) {refusal : BusFault}
    (hrefusal : fault.refusal? = some refusal) : Board.InGap refusal.address := by
  rcases step_eq_error.1 hstep with ⟨f, rfl, hcpu⟩ | ⟨n, e, hcpu, htransfer⟩
  · rcases CpuM.step_error_cases hcpu with ⟨-, -, -, opcode, -, -, rfl⟩ |
      ⟨U, u, -, ⟨log, last, fault, v, hpass, -, hlast, rfl, -⟩, -, -⟩
    · cases hrefusal
    · cases hrefusal
      have hplugged : v.bus.bus.plugged = c.bus.plugged := by
        rw [hpass.bus]
        exact Board.plugged_replay c.bus log
      exact Board.inGap_of_refusal (by rwa [Board.isSome_cartridge_congr hplugged]) hlast
  · obtain ⟨-, page, refusal', -, rfl, hblock⟩ := serveTransfer_eq_error htransfer
    cases hrefusal
    have hplugged := (Board.keeps_plugged c.plugged).left_step (c := c) rfl
    rw [CpuM.left_of_ok hcpu] at hplugged
    have hslot : e.bus.cartridge.isSome := by rwa [Board.isSome_cartridge_congr hplugged]
    exact inGap_of_readBlock (b := { e.bus with transferRequest := none }) hslot hblock

/-- The slot is full once an image is accepted. -/
theorem isSome_cartridge_insertImage {c : Console} {image : ByteArray}
    (h : (c.insertImage image).1 = .ok ()) : (c.insertImage image).2.bus.cartridge.isSome := by
  have hplugged := congrArg Option.isSome (plugged_insertImage h).2
  exact (VideoSpace.isSome_plugged _).symm.trans hplugged

/-- Exactly these accesses are refused, in every state of the console, and with a cartridge in the
slot a program comes upon no others. -/
theorem refused_accesses (c : Console) (a : UInt16) (value : UInt8) :
    let read := (AddressSpace.read a c.bus).1
    let write := (AddressSpace.write a value c.bus).1
    let v := c.bus.ppu.regs.current.toWord &&& 0x3FFF
    let port := 0x2000 ≤ a ∧ a ≤ 0x3FFF ∧ a.toNat % 8 = 7
    (c.bus.cartridge.isSome →
      (∀ fault, read = .error fault ↔ 0x4018 ≤ a ∧ a ≤ 0x5FFF ∧ fault = ⟨.read, a⟩) ∧
      (∀ fault, write = .error fault ↔ 0x4020 ≤ a ∧ a ≤ 0x5FFF ∧ fault = ⟨.write, a⟩) ∧
      ∀ fault d refusal, c.step = (.error fault, d) → fault.refusal? = some refusal →
        0x4018 ≤ refusal.address ∧ refusal.address ≤ 0x5FFF) ∧
    (c.bus.cartridge = none →
      (∀ fault, read = .error fault ↔
        (0x4018 ≤ a ∧ fault = ⟨.read, a⟩) ∨ (port ∧ v < 0x2000 ∧ fault = ⟨.read, v⟩)) ∧
      ∀ fault, write = .error fault ↔
        (0x4020 ≤ a ∧ fault = ⟨.write, a⟩) ∨ (port ∧ v < 0x2000 ∧ fault = ⟨.write, v⟩)) := by
  intro read write v port
  have hread := c.bus.refused_read a
  have hwrite := c.bus.refused_write a value
  have hport : port ↔ Board.DataPort a := by
    simp only [port, Board.DataPort, PpuRegister.ofAddress_eq_data_iff]
  refine ⟨fun hsome => ?_, fun hnone => ?_⟩
  · have hslot : c.bus.cartridge ≠ none := Option.isSome_iff_ne_none.1 hsome
    have hastray : ¬c.bus.ppu.Astray := Board.not_astray hsome
    simp only [hslot, hastray, or_false, and_false, if_false] at hread hwrite
    refine ⟨fun fault => ?_, fun fault => ?_, fun fault d refusal hstep hrefusal =>
      refusal_in_gap hsome hstep hrefusal⟩
    · rw [← refused_eq_some_iff, hread]
      simp [and_assoc, eq_comm]
    · rw [← refused_eq_some_iff, hwrite]
      simp [and_assoc, eq_comm]
  · have hastray : c.bus.ppu.Astray ↔ v < 0x2000 :=
      (and_iff_right hnone).trans lt_pattern_end_iff.symm
    -- The data port lies beneath the addresses without a device.
    have hlow : port → ¬0x4018 ≤ a := fun h hle =>
      absurd (UInt16.le_trans hle h.2.1) (by decide)
    have hlow' : port → ¬0x4020 ≤ a := fun h hle =>
      hlow h (UInt16.le_trans (by decide) hle)
    simp only [hnone, or_true, and_true, hastray, ← hport] at hread hwrite
    refine ⟨fun fault => ?_, fun fault => ?_⟩
    · rw [← refused_eq_some_iff, hread, ite_some_eq_some_iff fun h => hlow h.1, and_assoc]
      rfl
    · rw [← refused_eq_some_iff, hwrite, ite_some_eq_some_iff fun h => hlow' h.1, and_assoc]
      rfl

/-- An empty slot refuses the pattern tables and PRG ROM. A full one refuses neither, and still
nothing answers between the devices. -/
theorem refused_accesses_of_slots :
    let full := (initial.insertImage oneBankImage).2
    (AddressSpace.read 0x2007 initial.bus).1 = .error ⟨.read, 0x0000⟩ ∧
      (AddressSpace.write 0x8000 0x42 initial.bus).1 = .error ⟨.write, 0x8000⟩ ∧
      (AddressSpace.write 0x5FFF 0x42 full.bus).1 = .error ⟨.write, 0x5FFF⟩ ∧
      (∀ fault, (AddressSpace.read 0x2007 full.bus).1 ≠ .error fault) ∧
      ∀ fault, (AddressSpace.write 0x8000 0x42 full.bus).1 ≠ .error fault := by
  intro full
  have hfull : full.bus.cartridge.isSome :=
    isSome_cartridge_insertImage insertImage_oneBankImage
  obtain ⟨hread, -⟩ := (refused_accesses initial 0x2007 0x42).2 rfl
  obtain ⟨-, hwrite⟩ := (refused_accesses initial 0x8000 0x42).2 rfl
  obtain ⟨-, hgap, -⟩ := (refused_accesses full 0x5FFF 0x42).1 hfull
  obtain ⟨hport, -, -⟩ := (refused_accesses full 0x2007 0x42).1 hfull
  obtain ⟨-, hrom, -⟩ := (refused_accesses full 0x8000 0x42).1 hfull
  refine ⟨(hread _).2 (.inr ?_), (hwrite _).2 (.inl ?_), (hgap _).2 ?_, fun fault h => ?_,
    fun fault h => ?_⟩
  · decide
  · decide
  · decide
  · exact absurd ((hport fault).1 h).1 (by decide)
  · exact absurd ((hrom fault).1 h).2.1 (by decide)

end Console

end Famicom
