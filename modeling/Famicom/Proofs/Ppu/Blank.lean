import Famicom.Proofs.Ppu.Tick

/-!
# The vertical blank

The flag of the vertical blank can be set only while the beam is between the beginning and
the end of the blank (`Timed`), since the tick that ends the blank clears it. The blank is
6820 dots long.

`blankRequests` counts the ticks that begin the blank with the interrupt enabled; these are
the ones that request it (`ticks_requesting`). A frame is far longer than any step, so the
ticks of a step contain one at most (`blankRequests_le_one`), and none if they start inside
the blank (`blankRequests_of_inBlank`).
-/

namespace Famicom

namespace Beam

/-- The beam is between the beginning and the end of the vertical blank. -/
def InBlank (b : Beam) : Prop := 82182 ≤ b.dotsInFrame ∧ b.dotsInFrame < 89002

theorem InRange.entersBlank_iff {b : Beam} (h : b.InRange) :
    b.entersBlank ↔ b.dotsInFrame = 82182 := by
  rw [entersBlank, Bool.and_eq_true, beq_iff_eq, beq_iff_eq]
  exact (h.dotsInFrame_eq_iff (by decide)).symm

theorem InRange.leavesBlank_iff {b : Beam} (h : b.InRange) :
    b.leavesBlank ↔ b.dotsInFrame = 89002 := by
  rw [leavesBlank, Bool.and_eq_true, beq_iff_eq, beq_iff_eq]
  exact (h.dotsInFrame_eq_iff (by decide)).symm

end Beam

namespace Ppu

/-! ## The flag -/

/-- The beam is on a dot of a frame, and inside the vertical blank if the flag says so. -/
structure Timed (p : Ppu) : Prop where
  inRange : p.beam.InRange
  window : p.regs.status.verticalBlank → p.beam.InBlank

theorem timed_start {p : Ppu} (hbeam : p.beam = .start)
    (hblank : p.regs.status.verticalBlank = false) : p.Timed :=
  ⟨hbeam ▸ Beam.inRange_start, fun h => nomatch hblank.symm.trans h⟩

namespace Timed

variable {p q : Ppu}

theorem of_beam_eq (h : p.Timed) (hbeam : q.beam = p.beam)
    (hblank : q.regs.status.verticalBlank → p.regs.status.verticalBlank) : q.Timed :=
  ⟨hbeam ▸ h.inRange, fun hq => hbeam ▸ h.window (hblank hq)⟩

theorem tick (h : p.Timed) : p.tick.Timed := by
  have hrange := tick_inRange h.inRange
  refine ⟨hrange, fun hblank => ?_⟩
  rw [tick_verticalBlank] at hblank
  split_ifs at hblank with henter hleave
  · have hdot := hrange.entersBlank_iff.1 henter
    exact ⟨by omega, by omega⟩
  · have hwindow := h.window hblank
    have hdot := mt hrange.leavesBlank_iff.2 hleave
    obtain ⟨hlo, hhi⟩ := hwindow
    have hadvance := h.inRange.dotsInFrame_advance p.regs.rendering
    rw [← tick_beam] at hadvance
    rcases hadvance with ⟨-, hnext, -⟩ | ⟨-, -, hlast⟩
    · exact ⟨by omega, by omega⟩
    · -- the last dot of a frame is behind the blank
      have hdrop := (p.beam.dropsDot p.regs.rendering).toNat_le
      have hframe : Beam.dotsPerFrame = 89342 := rfl
      omega

theorem ticks (h : p.Timed) (n : Nat) : (ticks n p).Timed := by
  induction n generalizing p with
  | zero => exact h
  | succ n ih => exact ih h.tick

end Timed

/-! ## Requests -/

/-- The number of ticks, among the next ones, that begin the vertical blank and find the
interrupt enabled. -/
def blankRequests : Nat → Ppu → Nat
  | 0, _ => 0
  | n + 1, p =>
    (p.tick.beam.entersBlank && p.tick.regs.interruptEnabled).toNat + blankRequests n p.tick

theorem ticks_requesting (n : Nat) (p : Ppu) :
    (ticks n p).requesting = (p.requesting || decide (0 < blankRequests n p)) := by
  induction n generalizing p with
  | zero => exact (Bool.or_false _).symm
  | succ n ih =>
    rw [ticks, ih, tick_requesting, blankRequests, tick_interruptEnabled]
    cases p.tick.beam.entersBlank && p.regs.interruptEnabled with
    | false => simp
    | true =>
      have hpos : 0 < true.toNat + blankRequests n p.tick := Nat.add_pos_left Nat.one_pos _
      rw [decide_eq_true hpos, Bool.or_true, Bool.true_or]

theorem dots_tick {p : Ppu} (h : p.beam.InRange) :
    p.beam.dots < p.tick.beam.dots ∧ p.tick.beam.dots ≤ p.beam.dots + 2 := by
  have hdrop := (p.beam.dropsDot p.regs.rendering).toNat_le
  rw [tick_beam, h.dots_advance]
  omega

/-- A request is made on the way, when the beam comes to the beginning of a blank. -/
theorem exists_of_blankRequests_pos {n : Nat} {p : Ppu} (h : p.beam.InRange)
    (hpos : 0 < blankRequests n p) : ∃ f, p.beam.dots < 89342 * f + 82182 ∧
      89342 * f + 82182 ≤ p.beam.dots + 2 * n := by
  induction n generalizing p with
  | zero => exact absurd hpos (Nat.lt_irrefl 0)
  | succ n ih =>
    have hrange := tick_inRange h
    obtain ⟨hlt, hle⟩ := dots_tick h
    by_cases henter : p.tick.beam.entersBlank
    · have hdots : p.tick.beam.dots = 89342 * p.tick.beam.frame + p.tick.beam.dotsInFrame := rfl
      rw [hrange.entersBlank_iff.1 henter] at hdots
      exact ⟨p.tick.beam.frame, by omega, by omega⟩
    · rw [blankRequests, Bool.eq_false_iff.2 henter, Bool.false_and, Bool.toNat_false,
        Nat.zero_add] at hpos
      obtain ⟨f, hf, hf'⟩ := ih hrange hpos
      exact ⟨f, by omega, by omega⟩

/-- The blank has begun already, and the next one is too far off. -/
theorem blankRequests_of_inBlank {n : Nat} {p : Ppu} (h : p.beam.InRange)
    (hblank : p.beam.InBlank) (hn : n ≤ 1575) : blankRequests n p = 0 := by
  refine Nat.eq_zero_of_not_pos fun hpos => ?_
  obtain ⟨f, hf, hf'⟩ := exists_of_blankRequests_pos h hpos
  obtain ⟨hlo, hhi⟩ := hblank
  have hdots : p.beam.dots = 89342 * p.beam.frame + p.beam.dotsInFrame := rfl
  omega

/-- In the ticks of a step the blank begins once at most. -/
theorem blankRequests_le_one {n : Nat} {p : Ppu} (h : p.beam.InRange) (hn : n ≤ 1575) :
    blankRequests n p ≤ 1 := by
  induction n generalizing p with
  | zero => exact Nat.zero_le 1
  | succ n ih =>
    have hrange := tick_inRange h
    rw [blankRequests]
    cases henter : p.tick.beam.entersBlank with
    | false =>
      rw [Bool.false_and, Bool.toNat_false, Nat.zero_add]
      exact ih hrange (by omega)
    | true =>
      have hdot := hrange.entersBlank_iff.1 henter
      have hrest := blankRequests_of_inBlank hrange ⟨by omega, by omega⟩ (n := n) (by omega)
      rw [hrest]
      exact Bool.toNat_le _

/-! ## Before the blank -/

/-- Without rendering, and up to the blank, the beam moves and nothing else does. -/
theorem ticks_before_blank {n : Nat} {p : Ppu} (h : p.beam.InRange)
    (hrendering : p.regs.rendering = false) (hn : p.beam.dotsInFrame + n < 82182) :
    ticks n p =
      { p with beam :=
        ⟨(p.beam.dotsInFrame + n) / 341, (p.beam.dotsInFrame + n) % 341, p.beam.frame⟩ } := by
  induction n generalizing p with
  | zero =>
    obtain ⟨-, hdot⟩ := h
    have hsplit : p.beam.dotsInFrame = 341 * p.beam.scanline + p.beam.dot := rfl
    simp only [Beam.dotsPerLine] at hdot
    have hline : p.beam.dotsInFrame / 341 = p.beam.scanline := by omega
    have hrest : p.beam.dotsInFrame % 341 = p.beam.dot := by omega
    rw [Nat.add_zero, hline, hrest]
    rfl
  | succ n ih =>
    obtain ⟨hsame, hnext⟩ := dotsInFrame_tick h (by omega)
    have hrange := tick_inRange h
    have henter : p.tick.beam.entersBlank = false := by
      rw [Bool.eq_false_iff, Ne, hrange.entersBlank_iff]
      omega
    have hleave : p.tick.beam.leavesBlank = false := by
      rw [Bool.eq_false_iff, Ne, hrange.leavesBlank_iff]
      omega
    have htick : p.tick = { p with beam := p.tick.beam } := by
      rw [tick_beam, hrendering] at henter hleave ⊢
      rw [tick_eq]
      simp only [henter, hleave, hrendering, Bool.false_and, Bool.or_false, Bool.false_eq_true,
        if_false]
    have hrest := ih hrange (by rw [tick_rendering, hrendering]) (by omega)
    rw [ticks, hrest, hnext, hsame, htick, Nat.succ_add_eq_add_succ]

end Ppu

end Famicom
