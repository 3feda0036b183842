import Famicom.Ppu.Basic
import Mathlib.Tactic.SplitIfs

/-!
# What a tick does

A tick moves the beam, starts or ends the vertical blank, and moves the scroll position
while the picture is rendered. Of the registers it changes only the status and the
current address, so everything the processor wrote stands through any number of ticks.

`Beam.dots` counts the dots from the start of the first frame as if no frame dropped
one. A tick adds one to this count, and one more if it drops a dot (`Ppu.dropsDot`) :
`dots_tick`. Over a number of ticks `droppedFrames` lists the frames that lost their
last dot; they are odd, and at most one in two (`length_le_of_odd`).
-/

namespace Famicom

namespace Beam

/-- The beam stands on a dot of a frame. -/
def InRange (b : Beam) : Prop := b.scanline ≤ lastLine ∧ b.dot < dotsPerLine

/-- The dots since the frame began. -/
def dotsInFrame (b : Beam) : Nat := dotsPerLine * b.scanline + b.dot

/-- The dots since the first frame began, as if no frame dropped one. -/
def dots (b : Beam) : Nat := dotsPerFrame * b.frame + b.dotsInFrame

/-- The beam stands before the last dot of a frame, and the next frame begins without it. -/
def dropsDot (b : Beam) (rendering : Bool) : Bool :=
  b.scanline == lastLine && b.dot == dotsPerLine - 2 && (b.advance rendering).frame != b.frame

theorem dots_eq (b : Beam) : b.dots = 89342 * b.frame + 341 * b.scanline + b.dot :=
  (Nat.add_assoc _ _ _).symm

theorem inRange_start : start.InRange := ⟨by decide, by decide⟩

/-- Odd frames drop their last dot, provided the picture is rendered there. -/
theorem dropsDot_iff {b : Beam} {rendering : Bool} :
    b.dropsDot rendering ↔
      b.scanline = lastLine ∧ b.dot = dotsPerLine - 2 ∧ b.frame % 2 = 1 ∧ rendering := by
  simp only [dropsDot, Bool.and_eq_true, beq_iff_eq, bne_iff_ne, and_assoc]
  refine and_congr_right fun hs => and_congr_right fun hd => ?_
  by_cases hodd : b.frame % 2 = 1 ∧ rendering
  · have hlast : b.lastDot rendering = 339 := if_pos ⟨hs, hodd⟩
    rw [Beam.advance, hlast, hs, hd]
    exact ⟨fun _ => hodd, fun _ => Nat.succ_ne_self _⟩
  · have hlast : b.lastDot rendering = 340 := if_neg fun h => hodd h.2
    rw [Beam.advance, hlast, hs, hd]
    exact ⟨fun h => absurd rfl h, fun h => absurd h hodd⟩

/-- The beam goes on along its line, to the next line, or to the next frame. It leaves the last
line one dot early if it drops a dot there. -/
theorem InRange.advance_cases {b : Beam} (h : b.InRange) (rendering : Bool) :
    b.advance rendering = ⟨b.scanline, b.dot + 1, b.frame⟩ ∧ b.dot + 1 < dotsPerLine ∨
      b.advance rendering = ⟨b.scanline + 1, 0, b.frame⟩ ∧ b.dot + 1 = dotsPerLine ∧
        b.scanline < lastLine ∨
      b.advance rendering = ⟨0, 0, b.frame + 1⟩ ∧ b.scanline = lastLine ∧
        b.dot + 1 + (b.dropsDot rendering).toNat = dotsPerLine := by
  obtain ⟨hs, hd⟩ := h
  have hlast : b.lastDot rendering = dotsPerLine - 1 ∨
      b.lastDot rendering = dotsPerLine - 2 ∧ b.scanline = lastLine := by
    unfold lastDot
    split_ifs with hodd
    · exact Or.inr ⟨rfl, hodd.1⟩
    · exact Or.inl rfl
  simp only [dotsPerLine, lastLine] at hs hd hlast
  simp only [dotsPerLine, lastLine]
  by_cases hdot : b.dot < b.lastDot rendering
  · exact Or.inl ⟨if_pos hdot, by omega⟩
  by_cases hline : b.scanline < lastLine
  · refine Or.inr (Or.inl ⟨(if_neg hdot).trans (if_pos hline), ?_, hline⟩)
    simp only [lastLine] at hline
    omega
  · have hnext : b.advance rendering = ⟨0, 0, b.frame + 1⟩ := (if_neg hdot).trans (if_neg hline)
    simp only [lastLine] at hline
    refine Or.inr (Or.inr ⟨hnext, by omega, ?_⟩)
    have hdrop : b.dropsDot rendering = decide (b.dot = 339) := by
      rw [dropsDot, hnext, Bool.eq_iff_iff]
      simp only [lastLine, dotsPerLine, Bool.and_eq_true, beq_iff_eq, bne_iff_ne, decide_eq_true_eq]
      omega
    rw [hdrop]
    by_cases h339 : b.dot = 339
    · rw [decide_eq_true h339, Bool.toNat_true, h339]
    · rw [decide_eq_false h339, Bool.toNat_false]
      omega

theorem InRange.advance {b : Beam} (h : b.InRange) (rendering : Bool) :
    (b.advance rendering).InRange := by
  rcases h.advance_cases rendering with ⟨hnext, hd⟩ | ⟨hnext, -, hs⟩ | ⟨hnext, -, -⟩ <;> rw [hnext]
  · exact ⟨h.1, hd⟩
  · exact ⟨hs, Nat.succ_pos _⟩
  · exact inRange_start

theorem InRange.dotsInFrame_lt {b : Beam} (h : b.InRange) : b.dotsInFrame < 89342 := by
  obtain ⟨hs, hd⟩ := h
  simp only [lastLine, dotsPerLine] at hs hd
  simp only [dotsInFrame, dotsPerLine]
  omega

/-- The dots in the frame go up by one, or the next frame begins after the last of them. -/
theorem InRange.dotsInFrame_advance {b : Beam} (h : b.InRange) (rendering : Bool) :
    (b.advance rendering).frame = b.frame ∧
        (b.advance rendering).dotsInFrame = b.dotsInFrame + 1 ∧ b.dropsDot rendering = false ∨
      (b.advance rendering).frame = b.frame + 1 ∧ (b.advance rendering).dotsInFrame = 0 ∧
        b.dotsInFrame + 1 + (b.dropsDot rendering).toNat = dotsPerFrame := by
  have hno (hsame : (b.advance rendering).frame = b.frame) : b.dropsDot rendering = false := by
    rw [dropsDot, hsame, bne_self_eq_false, Bool.and_false]
  rcases h.advance_cases rendering with ⟨hnext, -⟩ | ⟨hnext, hd, -⟩ | ⟨hnext, hs, hd⟩
  · refine Or.inl ⟨by rw [hnext], ?_, hno (by rw [hnext])⟩
    rw [hnext]
    rfl
  · refine Or.inl ⟨by rw [hnext], ?_, hno (by rw [hnext])⟩
    rw [hnext]
    show dotsPerLine * b.scanline + dotsPerLine + 0 = dotsPerLine * b.scanline + b.dot + 1
    omega
  · refine Or.inr ⟨by rw [hnext], by rw [hnext]; rfl, ?_⟩
    rw [dotsInFrame, hs, dotsPerFrame, Nat.mul_succ]
    omega

theorem InRange.dotsInFrame_eq_iff {b : Beam} (h : b.InRange) {line dot : Nat}
    (hdot : dot < dotsPerLine) :
    b.dotsInFrame = dotsPerLine * line + dot ↔ b.scanline = line ∧ b.dot = dot := by
  obtain ⟨-, hd⟩ := h
  simp only [dotsPerLine] at hd hdot
  simp only [dotsInFrame, dotsPerLine]
  omega

theorem InRange.eq_of_dotsInFrame {b : Beam} (h : b.InRange) {line dot frame : Nat}
    (hdot : dot < dotsPerLine) (hframe : b.frame = frame)
    (hdots : b.dotsInFrame = dotsPerLine * line + dot) : b = ⟨line, dot, frame⟩ := by
  obtain ⟨hl, hd⟩ := (h.dotsInFrame_eq_iff hdot).1 hdots
  cases b
  simp_all

/-- The beam moves on by one dot, and by one more if it drops one. -/
theorem InRange.dots_advance {b : Beam} (h : b.InRange) (rendering : Bool) :
    (b.advance rendering).dots = b.dots + 1 + (b.dropsDot rendering).toNat := by
  rcases h.dotsInFrame_advance rendering with ⟨hf, hd, hno⟩ | ⟨hf, hd, hlen⟩
  · rw [dots, dots, hf, hd, hno, Bool.toNat_false]
    rfl
  · rw [dots, dots, hf, hd, Nat.mul_succ]
    omega

end Beam

/-- The beam changes the current address alone, and the status has no part in it. -/
theorem PpuRegisters.follow_setStatus (r : PpuRegisters) (status : PpuStatus) (b : Beam) :
    { r with status }.follow b = { r with status, current := (r.follow b).current } := by
  unfold PpuRegisters.follow
  split_ifs <;> rfl

namespace Ppu

/-! ## One tick -/

/-- A tick changes the beam, the request, the status and the current address. -/
theorem tick_eq (p : Ppu) :
    p.tick =
      let beam := p.beam.advance p.regs.rendering
      { p with
        beam
        requesting := p.requesting || beam.entersBlank && p.regs.interruptEnabled
        regs := { p.regs with
          status :=
            if beam.entersBlank then { p.regs.status with verticalBlank := true }
            else if beam.leavesBlank then .clear
            else p.regs.status
          current :=
            if p.regs.rendering && beam.fetching then (p.regs.follow beam).current
            else p.regs.current } } := by
  simp only [tick, enterBlank, leaveBlank]
  split_ifs <;>
    simp only [PpuRegisters.follow_setStatus, *, Bool.true_and, Bool.false_and, Bool.or_false]
  -- a beam in the picture leaves the status alone
  exact congrArg (fun regs => { p with regs, beam := p.beam.advance p.regs.rendering })
    (p.regs.follow_setStatus p.regs.status _)

theorem tick_beam (p : Ppu) : p.tick.beam = p.beam.advance p.regs.rendering := by
  rw [tick_eq]

theorem tick_requesting (p : Ppu) :
    p.tick.requesting = (p.requesting || p.tick.beam.entersBlank && p.regs.interruptEnabled) := by
  rw [tick_eq]

theorem tick_verticalBlank (p : Ppu) :
    p.tick.regs.status.verticalBlank =
      if p.tick.beam.entersBlank then true
      else if p.tick.beam.leavesBlank then false
      else p.regs.status.verticalBlank := by
  rw [tick_eq]
  simp only
  split_ifs <;> rfl

theorem tick_current (p : Ppu) :
    p.tick.regs.current =
      if p.regs.rendering && p.tick.beam.fetching then (p.regs.follow p.tick.beam).current
      else p.regs.current := by
  rw [tick_eq]

theorem tick_latched (p : Ppu) : p.tick.regs.latched = p.regs.latched := by
  rw [tick_eq]

theorem tick_rendering (p : Ppu) : p.tick.regs.rendering = p.regs.rendering := by
  rw [tick_eq]
  rfl

theorem tick_interruptEnabled (p : Ppu) :
    p.tick.regs.interruptEnabled = p.regs.interruptEnabled := by
  rw [tick_eq]
  rfl

theorem tick_inRange {p : Ppu} (h : p.beam.InRange) : p.tick.beam.InRange := by
  rw [tick_beam]
  exact h.advance _

/-- Only the last dot but one of a frame may be followed by another frame. -/
theorem dotsInFrame_tick {p : Ppu} (h : p.beam.InRange) (hn : p.beam.dotsInFrame + 1 < 89341) :
    p.tick.beam.frame = p.beam.frame ∧ p.tick.beam.dotsInFrame = p.beam.dotsInFrame + 1 := by
  have hadvance := h.dotsInFrame_advance p.regs.rendering
  rw [← tick_beam] at hadvance
  have hdrop := (p.beam.dropsDot p.regs.rendering).toNat_le
  have hframe : Beam.dotsPerFrame = 89342 := rfl
  omega

/-! ## Many ticks -/

theorem ticks_add (m n : Nat) (p : Ppu) : ticks (m + n) p = ticks n (ticks m p) := by
  induction m generalizing p with
  | zero => rw [Nat.zero_add, ticks]
  | succ m ih => rw [Nat.succ_add, ticks, ticks, ih]

theorem ticks_rendering (n : Nat) (p : Ppu) : (ticks n p).regs.rendering = p.regs.rendering := by
  induction n generalizing p with
  | zero => rfl
  | succ n ih => rw [ticks, ih, tick_rendering]

theorem ticks_interruptEnabled (n : Nat) (p : Ppu) :
    (ticks n p).regs.interruptEnabled = p.regs.interruptEnabled := by
  induction n generalizing p with
  | zero => rfl
  | succ n ih => rw [ticks, ih, tick_interruptEnabled]

/-- An interrupt that is not enabled is not requested. -/
theorem ticks_requesting_of_disabled {p : Ppu} (h : p.regs.interruptEnabled = false) (n : Nat) :
    (ticks n p).requesting = p.requesting := by
  induction n generalizing p with
  | zero => rfl
  | succ n ih =>
    rw [ticks, ih ((tick_interruptEnabled p).trans h), tick_requesting, h, Bool.and_false,
      Bool.or_false]

theorem ticks_inRange (n : Nat) {p : Ppu} (h : p.beam.InRange) : (ticks n p).beam.InRange := by
  induction n generalizing p with
  | zero => exact h
  | succ n ih => exact ih (tick_inRange h)

/-- Up to the last dot but one of a frame every tick is one dot further. -/
theorem dotsInFrame_ticks {n : Nat} {p : Ppu} (h : p.beam.InRange)
    (hn : p.beam.dotsInFrame + n < 89341) :
    (ticks n p).beam.frame = p.beam.frame ∧
      (ticks n p).beam.dotsInFrame = p.beam.dotsInFrame + n := by
  induction n generalizing p with
  | zero => exact ⟨rfl, rfl⟩
  | succ n ih =>
    obtain ⟨hsame, hnext⟩ := dotsInFrame_tick h (by omega)
    obtain ⟨hf, hd⟩ := ih (tick_inRange h) (by omega)
    exact ⟨hf.trans hsame, by rw [ticks, hd, hnext]; omega⟩

/-- Fewer ticks than a frame has dots lead into the next frame at most, and there less far than
there were ticks. -/
theorem ticks_frame_cases {n : Nat} {p : Ppu} (h : p.beam.InRange) (hn : n < 89341) :
    (ticks n p).beam.frame = p.beam.frame ∧
        (ticks n p).beam.dotsInFrame = p.beam.dotsInFrame + n ∨
      (ticks n p).beam.frame = p.beam.frame + 1 ∧ (ticks n p).beam.dotsInFrame < n := by
  induction n with
  | zero => exact Or.inl ⟨rfl, rfl⟩
  | succ n ih =>
    have hrange := ticks_inRange n h
    have hlast : ticks (n + 1) p = (ticks n p).tick := ticks_add n 1 p
    rw [hlast]
    rcases ih (by omega) with ⟨hf, hd⟩ | ⟨hf, hd⟩
    · have hadvance := hrange.dotsInFrame_advance (ticks n p).regs.rendering
      rw [← tick_beam] at hadvance
      omega
    · have hnext := dotsInFrame_tick hrange (by omega)
      omega

/-! ## Dropped dots -/

/-- The next tick drops the last dot of an odd frame. -/
def dropsDot (p : Ppu) : Bool := p.beam.dropsDot p.regs.rendering

/-- The frames that lose their last dot in the next ticks, in order. -/
def droppedFrames : Nat → Ppu → List Nat
  | 0, _ => []
  | n + 1, p =>
    if p.dropsDot then p.beam.frame :: droppedFrames n p.tick else droppedFrames n p.tick

/-- Every tick moves the beam by one dot, and by one more where it drops a dot. -/
theorem dots_ticks (n : Nat) {p : Ppu} (h : p.beam.InRange) :
    (ticks n p).beam.dots = p.beam.dots + n + (droppedFrames n p).length := by
  induction n generalizing p with
  | zero => rfl
  | succ n ih =>
    have htick : p.tick.beam.dots = p.beam.dots + 1 + p.dropsDot.toNat := by
      rw [tick_beam, h.dots_advance]
      rfl
    have hrest := ih (tick_inRange h)
    rw [ticks, hrest, htick, droppedFrames]
    cases p.dropsDot <;> simp <;> omega

theorem frame_tick {p : Ppu} (h : p.beam.InRange) :
    p.beam.frame + p.dropsDot.toNat ≤ p.tick.beam.frame ∧ p.tick.beam.frame ≤ p.beam.frame + 1 := by
  rw [tick_beam, dropsDot]
  rcases h.dotsInFrame_advance p.regs.rendering with ⟨hf, -, hno⟩ | ⟨hf, -, -⟩
  · rw [hf, hno, Bool.toNat_false]
    omega
  · have := (p.beam.dropsDot p.regs.rendering).toNat_le
    omega

theorem frame_le_ticks (n : Nat) {p : Ppu} (h : p.beam.InRange) :
    p.beam.frame ≤ (ticks n p).beam.frame := by
  induction n generalizing p with
  | zero => exact Nat.le_refl _
  | succ n ih =>
    have htick := (frame_tick h).1
    have hrest := ih (tick_inRange h)
    rw [ticks]
    omega

theorem dropsDot_odd {p : Ppu} (h : p.dropsDot) : p.beam.frame % 2 = 1 :=
  (Beam.dropsDot_iff.1 h).2.2.1

theorem mem_droppedFrames {n f : Nat} {p : Ppu} (h : p.beam.InRange) (hf : f ∈ droppedFrames n p) :
    p.beam.frame ≤ f ∧ f < (ticks n p).beam.frame ∧ f % 2 = 1 := by
  induction n generalizing p with
  | zero => cases hf
  | succ n ih =>
    have hrange := tick_inRange h
    have hstep := (frame_tick h).1
    have hrest (hmem : f ∈ droppedFrames n p.tick) :
        p.beam.frame ≤ f ∧ f < (ticks (n + 1) p).beam.frame ∧ f % 2 = 1 := by
      obtain ⟨hle, hlt, hodd⟩ := ih hrange hmem
      exact ⟨by omega, hlt, hodd⟩
    rw [droppedFrames] at hf
    split at hf
    · rename_i hdrop
      rcases List.mem_cons.1 hf with rfl | hmem
      · have hlast := frame_le_ticks n hrange
        rw [hdrop, Bool.toNat_true] at hstep
        exact ⟨Nat.le_refl _, by rw [ticks]; omega, dropsDot_odd hdrop⟩
      · exact hrest hmem
    · exact hrest hf

theorem pairwise_droppedFrames (n : Nat) {p : Ppu} (h : p.beam.InRange) :
    (droppedFrames n p).Pairwise (· < ·) := by
  induction n generalizing p with
  | zero => exact List.Pairwise.nil
  | succ n ih =>
    have hrange := tick_inRange h
    rw [droppedFrames]
    split
    · rename_i hdrop
      refine List.Pairwise.cons (fun f hf => ?_) (ih hrange)
      have hstep := (frame_tick h).1
      rw [hdrop, Bool.toNat_true] at hstep
      exact Nat.lt_of_lt_of_le (Nat.lt_of_succ_le hstep) (mem_droppedFrames hrange hf).1
    · exact ih hrange

/-- Without rendering no frame loses a dot. -/
theorem droppedFrames_of_not_rendering (n : Nat) {p : Ppu} (h : p.regs.rendering = false) :
    droppedFrames n p = [] := by
  induction n generalizing p with
  | zero => rfl
  | succ n ih =>
    have hno : p.dropsDot = false := by
      rw [Bool.eq_false_iff, dropsDot, Ne, Beam.dropsDot_iff, h]
      exact fun hdrop => nomatch hdrop.2.2.2
    rw [droppedFrames, hno, ih (by rw [tick_rendering, h])]
    rfl

end Ppu

/-- Among the numbers below `b` at most one in two is odd. -/
theorem length_le_of_odd {l : List Nat} {a b : Nat} (hl : l.Pairwise (· < ·))
    (h : ∀ f ∈ l, a ≤ f ∧ f < b ∧ f % 2 = 1) : l.length ≤ b / 2 - a / 2 := by
  induction hl generalizing a with
  | nil => exact Nat.zero_le _
  | @cons f l hlt _ ih =>
    obtain ⟨hle, hb, hodd⟩ := h f List.mem_cons_self
    have hrest := ih (a := f + 1) fun g hg =>
      ⟨hlt g hg, (h g (List.mem_cons_of_mem _ hg)).2⟩
    rw [List.length_cons]
    omega

end Famicom
