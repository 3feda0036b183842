import Famicom.Proofs.Ppu.Run
import Famicom.Proofs.Ppu.Words
import Mathlib.Algebra.Ring.Parity
import Mathlib.Data.List.DropRight

/-!
# Registers written in two halves

Scroll and address share one flag for the half that comes next. A run only toggles it or clears it
(`secondWrite_perform`), so it is the parity of the halves since the pairs were last started over
(`secondWrite_after`). `halvesWritten` counts them on the run alone.

The two registers also share the latched position. What one half has put there stays until the next
write to it (`halves_after`) : ticks and accesses to the data move the current position and nothing
else of the registers. Of the position that was latched before, both halves of an address leave
nothing (`toWord_setLow_setHigh`) and both halves of a scroll position leave the nametable, and only
an address is put to use at once.
-/

namespace Famicom

namespace PpuAction

/-- A half of the scroll position or of the address is written. -/
def writesHalf : PpuAction → Bool
  | write .scroll _ | write .address _ => true
  | _ => false

/-- The next half is a first one, whatever came before. -/
def startsOver : PpuAction → Bool
  | read .status | reset => true
  | _ => false

/-- A pair whose first half is written can still be completed. The control register is not part of
a pair but selects a nametable in the same position. -/
def leavesPair : PpuAction → Bool
  | write .control _ | write .scroll _ | write .address _ | read .status | reset => false
  | _ => true

end PpuAction

/-- The halves written since the pairs were last started over. -/
def halvesWritten (actions : List PpuAction) : Nat :=
  (actions.rtakeWhile fun a => !a.startsOver).countP (·.writesHalf)

theorem halvesWritten_concat (actions : List PpuAction) (a : PpuAction) :
    halvesWritten (actions ++ [a]) =
      if a.startsOver then 0 else halvesWritten actions + a.writesHalf.toNat := by
  unfold halvesWritten
  split_ifs with hover
  · rw [List.rtakeWhile_concat_neg _ _ _ (by simp [hover])]
    rfl
  · rw [List.rtakeWhile_concat_pos _ _ _ (by simp [hover]), List.countP_append,
      List.countP_singleton]
    cases a.writesHalf <;> rfl

/-! ## The two halves -/

namespace VramAddress

/-- Both bytes of an address replace the position as a whole. -/
theorem toWord_setLow_setHigh (t : VramAddress) (high low : UInt8) :
    ((t.setHigh high).setLow low).toWord = word low (high &&& 0x3F) := by
  rw [setLow, setHigh, toWord_ofWord, toWord_ofWord, highByte_word]

end VramAddress

theorem toNat_extractLsb'_three (value : UInt8) :
    (value.toBitVec.extractLsb' 3 5).toNat = (value >>> 3).toNat := by
  have hlt := value.toNat_lt
  rw [BitVec.extractLsb'_toNat, UInt8.toNat_shiftRight]
  refine Nat.mod_eq_of_lt ?_
  show value.toNat >>> 3 < 2 ^ 5
  rw [Nat.shiftRight_eq_div_pow]
  omega

theorem toNat_extractLsb'_zero (value : UInt8) :
    (value.toBitVec.extractLsb' 0 3).toNat = (value &&& 7).toNat := by
  rw [BitVec.extractLsb'_toNat, UInt8.toNat_and]
  exact (Nat.and_two_pow_sub_one_eq_mod _ 3).symm

/-- A byte is its five high bits and its three low bits. -/
theorem toNat_eq_shiftRight_add_and (value : UInt8) :
    value.toNat = 8 * (value >>> 3).toNat + (value &&& 7).toNat := by
  have hlow : value.toNat &&& 7 = value.toNat % 8 := Nat.and_two_pow_sub_one_eq_mod _ 3
  have hhigh : value.toNat >>> ((3 : UInt8).toNat % 8) = value.toNat / 8 :=
    Nat.shiftRight_eq_div_pow _ 3
  rw [UInt8.toNat_shiftRight, UInt8.toNat_and, hhigh, show (7 : UInt8).toNat = 7 from rfl, hlow]
  omega

namespace PpuRegisters

variable {r : PpuRegisters}

/-- What a pair of writes builds up, and the half that comes next. -/
def halves (r : PpuRegisters) : VramAddress × UInt8 × Bool := (r.latched, r.fineX, r.secondWrite)

theorem writeAddress_first (h : r.secondWrite = false) (value : UInt8) :
    r.writeAddress value = { r with latched := r.latched.setHigh value, secondWrite := true } :=
  if_neg (ne_true_of_eq_false h)

theorem writeAddress_second (h : r.secondWrite = true) (value : UInt8) :
    r.writeAddress value =
      { r with
        latched := r.latched.setLow value
        current := r.latched.setLow value
        secondWrite := false } :=
  if_pos h

theorem writeScroll_first (h : r.secondWrite = false) (value : UInt8) :
    r.writeScroll value =
      { r with
        latched := r.latched.scrollColumn value
        fineX := value &&& 7
        secondWrite := true } :=
  if_neg (ne_true_of_eq_false h)

theorem writeScroll_second (h : r.secondWrite = true) (value : UInt8) :
    r.writeScroll value = { r with latched := r.latched.scrollRow value, secondWrite := false } :=
  if_pos h

theorem secondWrite_writeAddress (r : PpuRegisters) (value : UInt8) :
    (r.writeAddress value).secondWrite = !r.secondWrite := by
  unfold writeAddress
  split_ifs with h <;> simp [h]

theorem secondWrite_writeScroll (r : PpuRegisters) (value : UInt8) :
    (r.writeScroll value).secondWrite = !r.secondWrite := by
  unfold writeScroll
  split_ifs with h <;> simp [h]

theorem current_writeScroll (r : PpuRegisters) (value : UInt8) :
    (r.writeScroll value).current = r.current := by
  unfold writeScroll
  split_ifs <;> rfl

end PpuRegisters

namespace Ppu

variable {p : Ppu}

/-! ## What an action does to them -/

/-- Ticks and accesses to the data move the current position only, and the other registers are
none of a pair. -/
theorem halves_perform {a : PpuAction} (h : a.leavesPair) :
    (a.perform p).regs.halves = p.regs.halves := by
  cases a with
  | tick =>
    show p.tick.regs.halves = p.regs.halves
    rw [tick_eq]
    rfl
  | read register =>
    have hstatus : register ≠ .status := by
      rintro rfl
      cases h
    rcases p.regs_read hstatus with hregs | hregs <;>
      exact (congrArg PpuRegisters.halves hregs :)
  | write register value =>
    cases register with
    | control | scroll | address => cases h
    | data =>
      rcases regs_writeData { p with latch := value } value with hregs | hregs <;>
        exact (congrArg PpuRegisters.halves hregs :)
    | _ => rfl
  | writeOam | poll => rfl
  | reset => cases h

theorem halves_after {actions : List PpuAction} (h : ∀ a ∈ actions, a.leavesPair) :
    (p.after actions).regs.halves = p.regs.halves := by
  induction actions generalizing p with
  | nil => rfl
  | cons a actions ih =>
    obtain ⟨ha, hactions⟩ := List.forall_mem_cons.1 h
    exact (ih hactions).trans (halves_perform ha)

/-- An action that starts the pairs over clears the flag, and every other one toggles it or leaves
it. -/
theorem secondWrite_perform (p : Ppu) (a : PpuAction) :
    (a.perform p).regs.secondWrite =
      if a.startsOver then false else p.regs.secondWrite ^^ a.writesHalf := by
  have hleft (hpair : a.leavesPair) (hover : a.startsOver = false) (hhalf : a.writesHalf = false) :
      (a.perform p).regs.secondWrite =
        if a.startsOver then false else p.regs.secondWrite ^^ a.writesHalf := by
    rw [hover, hhalf, if_neg Bool.false_ne_true, Bool.xor_false]
    exact congrArg (·.2.2) (halves_perform hpair)
  cases a with
  | read register =>
    cases register with
    | status => rfl
    | _ => exact hleft rfl rfl rfl
  | write register value =>
    cases register with
    | control => exact (Bool.xor_false _).symm
    | scroll => exact (p.regs.secondWrite_writeScroll value).trans (Bool.xor_true _).symm
    | address => exact (p.regs.secondWrite_writeAddress value).trans (Bool.xor_true _).symm
    | _ => exact hleft rfl rfl rfl
  | reset => rfl
  | tick | writeOam | poll => exact hleft rfl rfl rfl

/-- The flag is the parity of the halves. -/
theorem secondWrite_after (h : p.regs.secondWrite = false) (actions : List PpuAction) :
    (p.after actions).regs.secondWrite ↔ Odd (halvesWritten actions) := by
  induction actions using List.reverseRecOn with
  | nil =>
    rw [after, List.foldl_nil, h]
    exact iff_of_false Bool.false_ne_true Nat.not_odd_zero
  | append_singleton actions a ih =>
    rw [after_append, halvesWritten_concat]
    show (a.perform (p.after actions)).regs.secondWrite ↔ _
    rw [secondWrite_perform]
    cases a.startsOver with
    | true => exact iff_of_false Bool.false_ne_true Nat.not_odd_zero
    | false =>
      rw [if_neg Bool.false_ne_true, if_neg Bool.false_ne_true]
      cases a.writesHalf with
      | false => rwa [Bool.xor_false]
      | true =>
        rw [Bool.xor_true, Bool.toNat_true, Nat.odd_add_one, ← ih, Bool.not_eq_true',
          Bool.not_eq_true]

/-! ## Pairs -/

variable {between : List PpuAction}

/-- Between its halves a pair stands in the registers. -/
theorem exists_before_second (p : Ppu) (first : PpuAction) (h : ∀ a ∈ between, a.leavesPair)
    (second : PpuAction) :
    ∃ q : Ppu, p.after (first :: between ++ [second]) = second.perform q ∧
      q.regs.latched = (first.perform p).regs.latched ∧
      q.regs.fineX = (first.perform p).regs.fineX ∧
      q.regs.secondWrite = (first.perform p).regs.secondWrite := by
  have hhalves := halves_after (p := first.perform p) h
  refine ⟨(first.perform p).after between, ?_, congrArg (·.1) hhalves, congrArg (·.2.1) hhalves,
    congrArg (·.2.2) hhalves⟩
  rw [List.cons_append, after_cons, after_append]
  rfl

/-- The address that a pair of writes sets. -/
theorem after_address_pair (h : p.regs.secondWrite = false) (hbetween : ∀ a ∈ between, a.leavesPair)
    (first second : UInt8) :
    let q := p.after (.write .address first :: between ++ [.write .address second])
    q.regs.latched.toWord = word second (first &&& 0x3F) ∧ q.regs.current = q.regs.latched := by
  intro q
  obtain ⟨before, hafter, hlatched, -, hsecond⟩ :=
    p.exists_before_second (.write .address first) hbetween (.write .address second)
  have hbegun : (PpuAction.perform p (.write .address first)).regs = _ :=
    PpuRegisters.writeAddress_first h first
  have hregs : q.regs = before.regs.writeAddress second := congrArg Ppu.regs hafter
  rw [hbegun] at hlatched hsecond
  rw [hregs, PpuRegisters.writeAddress_second hsecond, hlatched]
  exact ⟨VramAddress.toWord_setLow_setHigh _ first second, rfl⟩

/-- The scroll position that a pair of writes sets, in the nametable that was latched before. -/
theorem after_scroll_pair (h : p.regs.secondWrite = false) (hbetween : ∀ a ∈ between, a.leavesPair)
    (first second : UInt8) :
    let q := p.after (.write .scroll first :: between ++ [.write .scroll second])
    q.regs.latched = (p.regs.latched.scrollColumn first).scrollRow second ∧
      q.regs.fineX = first &&& 7 := by
  intro q
  obtain ⟨before, hafter, hlatched, hfine, hsecond⟩ :=
    p.exists_before_second (.write .scroll first) hbetween (.write .scroll second)
  have hbegun : (PpuAction.perform p (.write .scroll first)).regs = _ :=
    PpuRegisters.writeScroll_first h first
  have hregs : q.regs = before.regs.writeScroll second := congrArg Ppu.regs hafter
  rw [hbegun] at hlatched hfine hsecond
  rw [hregs, PpuRegisters.writeScroll_second hsecond, hlatched]
  exact ⟨rfl, hfine⟩

/-- Since a cold start the flag is the parity of the halves written, counted from the last time the
pairs were started over. From a state that expects a first half, and whatever was latched there, two
writes to the address with nothing of a pair between them set both positions to the word of their
bytes. Two writes to the scroll position set column and row and leave the nametable, the bytes can
be told from these, and neither write touches the current position. -/
theorem pairs_of_writes :
    (∀ (start : Ppu) (actions : List PpuAction),
      (start.powerUp.after actions).regs.secondWrite ↔ Odd (halvesWritten actions)) ∧
    ∀ (p : Ppu) (first second : UInt8) (between : List PpuAction),
      p.regs.secondWrite = false → (∀ a ∈ between, a.leavesPair) →
      (let q := p.after (.write .address first :: between ++ [.write .address second])
       q.regs.latched.toWord = (first &&& 0x3F).toUInt16 <<< 8 ||| second.toUInt16 ∧
         q.regs.current = q.regs.latched) ∧
      (let begun := p.after [.write .scroll first]
       let before := begun.after between
       let q := before.after [.write .scroll second]
       q.regs.latched.coarseX.toNat = (first >>> 3).toNat ∧
         q.regs.fineX = first &&& 7 ∧
         q.regs.latched.coarseY.toNat = (second >>> 3).toNat ∧
         q.regs.latched.fineY.toNat = (second &&& 7).toNat ∧
         first.toNat = 8 * q.regs.latched.coarseX.toNat + q.regs.fineX.toNat ∧
         second.toNat = 8 * q.regs.latched.coarseY.toNat + q.regs.latched.fineY.toNat ∧
         q.regs.latched.nametableX = p.regs.latched.nametableX ∧
         q.regs.latched.nametableY = p.regs.latched.nametableY ∧
         begun.regs.current = p.regs.current ∧ q.regs.current = before.regs.current) := by
  refine ⟨fun start actions => secondWrite_after rfl actions, ?_⟩
  intro p first second between h hbetween
  refine ⟨after_address_pair h hbetween first second, ?_⟩
  intro begun before q
  have hq : q = p.after (.write .scroll first :: between ++ [.write .scroll second]) := by
    rw [List.cons_append, after_cons, after_append]
    rfl
  obtain ⟨hlatched, hfine⟩ := after_scroll_pair h hbetween first second
  rw [← hq] at hlatched hfine
  have hcoarseX : q.regs.latched.coarseX.toNat = (first >>> 3).toNat := by
    rw [hlatched]
    exact toNat_extractLsb'_three first
  have hcoarseY : q.regs.latched.coarseY.toNat = (second >>> 3).toNat := by
    rw [hlatched]
    exact toNat_extractLsb'_three second
  have hfineY : q.regs.latched.fineY.toNat = (second &&& 7).toNat := by
    rw [hlatched]
    exact toNat_extractLsb'_zero second
  refine ⟨hcoarseX, hfine, hcoarseY, hfineY, ?_, ?_, congrArg (·.nametableX) hlatched,
    congrArg (·.nametableY) hlatched, p.regs.current_writeScroll first,
    before.regs.current_writeScroll second⟩
  · rw [hcoarseX, hfine]
    exact toNat_eq_shiftRight_add_and first
  · rw [hcoarseY, hfineY]
    exact toNat_eq_shiftRight_add_and second

/-- The picture is shown, and between the halves the beam passes the end of a line of it, where it
moves the current position. All bits of the latched one are set before. -/
theorem pairs_of_writes_while_rendering :
    let p : Ppu := { initial with
      regs := { PpuRegisters.initial with mask := 0x18, latched := .ofWord 0xFFFF }
      beam := ⟨10, 255, 1⟩ }
    let between : List PpuAction := [.tick, .tick, .write .data 0x12, .read .oamData, .tick]
    p.regs.secondWrite = false ∧ (∀ a ∈ between, a.leavesPair) ∧
      (p.after between).regs.current ≠ p.regs.current ∧
      (let q := p.after (.write .address 0xE1 :: between ++ [.write .address 0x08])
       q.regs.latched.toWord = 0x2108 ∧ q.regs.current = q.regs.latched) := by
  intro p between
  have hfirst : p.regs.secondWrite = false := rfl
  have hbetween : ∀ a ∈ between, a.leavesPair := by decide
  exact ⟨hfirst, hbetween, by decide +kernel,
    (pairs_of_writes.2 p 0xE1 0x08 between hfirst hbetween).1⟩

end Ppu

end Famicom
