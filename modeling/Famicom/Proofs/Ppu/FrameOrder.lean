import Famicom.Proofs.Ppu.Run
import Mathlib.Data.List.Count
import Mathlib.Data.Prod.Lex
import Mathlib.Order.Fin.Basic

/-!
# The order of the dots

The dots of a frame are visited in the order of their lines, and on a line from left to right,
whatever the processor does in between. This is the lexicographic order of the pairs of a scanline
and a dot (`Position`), and a tick moves the beam to the next pair (`tick_position`). Only the last
dot of an odd frame is left out, if the picture is rendered on the dot before it (`SkipsDot`).

`frameTicks` lists the states of a run from which the ticks of one frame start. If the run has
come to a later frame, their dots are an interval that begins at the first dot of the frame and
ends at its last, or at the one before that (`dots_later_frame`). So every other dot is visited
exactly once in every frame.
-/

namespace Famicom

/-- A dot of a frame, by its scanline and its place on the line. -/
abbrev Position := Fin 262 ×ₗ Fin 341

/-- The dot at a place of a scanline. -/
def dotAt (line place : Nat) : Position := toLex (.ofNat _ line, .ofNat _ place)

namespace Position

/-- The number of dots before this one. -/
def index (x : Position) : Nat := 341 * (ofLex x).1 + (ofLex x).2

theorem index_lt (x : Position) : x.index < 89342 := by
  have hline := (ofLex x).1.isLt
  have hdot := (ofLex x).2.isLt
  unfold index
  omega

theorem strictMono_index : StrictMono index := by
  intro x y h
  have hdot := (ofLex x).2.isLt
  unfold index
  rcases Prod.Lex.lt_iff.1 h with hline | ⟨hline, hlt⟩
  · rw [Fin.lt_def] at hline
    omega
  · rw [Fin.lt_def] at hlt
    rw [hline]
    omega

theorem index_eq_iff {x y : Position} : x.index = y.index ↔ x = y :=
  strictMono_index.injective.eq_iff

theorem covBy_of_index {x y : Position} (h : y.index = x.index + 1) : x ⋖ y := by
  refine ⟨strictMono_index.lt_iff_lt.1 (by omega), fun z hxz hzy => ?_⟩
  have hlo := strictMono_index hxz
  have hhi := strictMono_index hzy
  omega

theorem eq_last_iff {x : Position} : x = dotAt 261 340 ↔ x.index = 89341 := index_eq_iff.symm

theorem eq_first_iff {x : Position} : x = dotAt 0 0 ↔ x.index = 0 := index_eq_iff.symm

section

variable {l : List Position} {n : Nat}

theorem pairwise_of_map_index (h : l.map index = List.range n) : l.Pairwise (· < ·) := by
  have hrange : (l.map index).Pairwise (· < ·) := h ▸ List.pairwise_lt_range
  exact (List.pairwise_map.1 hrange).imp strictMono_index.lt_iff_lt.1

theorem count_of_map_index (h : l.map index = List.range n) (x : Position) :
    l.count x = if x.index < n then 1 else 0 := by
  rw [← List.count_map_of_injective l index strictMono_index.injective, h, List.nodup_range.count]
  simp only [List.mem_range]

end

end Position

namespace Beam

/-- The dot of the frame on which the beam stands. -/
def position (b : Beam) : Position := dotAt b.scanline b.dot

theorem InRange.index_position {b : Beam} (h : b.InRange) : b.position.index = b.dotsInFrame := by
  obtain ⟨hs, hd⟩ := h
  simp only [lastLine, dotsPerLine] at hs hd
  show 341 * (b.scanline % 262) + b.dot % 341 = 341 * b.scanline + b.dot
  rw [Nat.mod_eq_of_lt (by omega), Nat.mod_eq_of_lt hd]

theorem InRange.position_eq_iff {b : Beam} (h : b.InRange) {x : Position} :
    b.position = x ↔ b.dotsInFrame = x.index := by
  rw [← Position.index_eq_iff, h.index_position]

end Beam

namespace Ppu

variable {p : Ppu}

/-! ## One tick -/

/-- The beam is at the end of an odd frame, and the next tick goes past its last dot. -/
def SkipsDot (p : Ppu) : Prop :=
  p.beam.position = dotAt 261 339 ∧ p.beam.frame % 2 = 1 ∧ p.regs.rendering

instance (p : Ppu) : Decidable p.SkipsDot := by
  unfold SkipsDot
  infer_instance

theorem dropsDot_iff_skipsDot (h : p.beam.InRange) : p.dropsDot ↔ p.SkipsDot := by
  rw [dropsDot, Beam.dropsDot_iff, SkipsDot, h.position_eq_iff, ← and_assoc,
    ← h.dotsInFrame_eq_iff (by decide)]
  rfl

/-- A tick goes to the next dot. From the last one, which may be left out, it goes to the first
dot of the next frame. -/
theorem tick_position (h : p.beam.InRange) :
    (if p.SkipsDot ∨ p.beam.position = dotAt 261 340 then p.tick.beam.position = dotAt 0 0
      else p.beam.position ⋖ p.tick.beam.position) ∧
      p.tick.beam.frame =
        if p.tick.beam.position = dotAt 0 0 then p.beam.frame + 1 else p.beam.frame := by
  have hnext := tick_inRange h
  have hadvance := h.dotsInFrame_advance p.regs.rendering
  rw [← tick_beam, ← dropsDot, ← hnext.index_position, ← h.index_position] at hadvance
  rcases hadvance with ⟨hframe, hdots, hno⟩ | ⟨hframe, hdots, hlast⟩
  · have hmiddle : ¬(p.SkipsDot ∨ p.beam.position = dotAt 261 340) := by
      rintro (hskip | hend)
      · exact Bool.eq_false_iff.1 hno ((dropsDot_iff_skipsDot h).2 hskip)
      · have hlt := p.tick.beam.position.index_lt
        have hindex := Position.eq_last_iff.1 hend
        omega
    have hfirst : p.tick.beam.position ≠ dotAt 0 0 := mt Position.eq_first_iff.1 (by omega)
    rw [if_neg hmiddle, if_neg hfirst]
    exact ⟨Position.covBy_of_index hdots, hframe⟩
  · have hend : p.SkipsDot ∨ p.beam.position = dotAt 261 340 := by
      cases hdrop : p.dropsDot with
      | true => exact Or.inl ((dropsDot_iff_skipsDot h).1 hdrop)
      | false =>
        rw [hdrop] at hlast
        exact Or.inr (Position.eq_last_iff.2 (Nat.succ.inj hlast))
    have hfirst : p.tick.beam.position = dotAt 0 0 := Position.eq_first_iff.2 hdots
    rw [if_pos hend, if_pos hfirst]
    exact ⟨hfirst, hframe⟩

/-! ## The ticks of a frame -/

/-- The states of a run from which a tick starts. -/
def tickStarts : Ppu → List PpuAction → List Ppu
  | _, [] => []
  | p, .tick :: actions => p :: tickStarts p.tick actions
  | p, a :: actions => tickStarts (a.perform p) actions

theorem tickStarts_of_ne {a : PpuAction} (h : a ≠ .tick) (actions : List PpuAction) :
    p.tickStarts (a :: actions) = (a.perform p).tickStarts actions := by
  cases a with
  | tick => exact absurd rfl h
  | _ => rfl

/-- Those of one frame. -/
def frameTicks (p : Ppu) (actions : List PpuAction) (f : Nat) : List Ppu :=
  (p.tickStarts actions).filter (·.beam.frame = f)

theorem frameTicks_of_ne {a : PpuAction} (h : a ≠ .tick) (actions : List PpuAction) (f : Nat) :
    p.frameTicks (a :: actions) f = (a.perform p).frameTicks actions f := by
  rw [frameTicks, tickStarts_of_ne h, frameTicks]

theorem frameTicks_tick (actions : List PpuAction) (f : Nat) :
    p.frameTicks (.tick :: actions) f =
      if p.beam.frame = f then p :: p.tick.frameTicks actions f
      else p.tick.frameTicks actions f := by
  simp only [frameTicks, tickStarts, List.filter_cons, decide_eq_true_eq]

theorem of_mem_tickStarts {q : Ppu} {actions : List PpuAction} (h : p.beam.InRange)
    (hq : q ∈ p.tickStarts actions) : q.beam.InRange ∧ p.beam.frame ≤ q.beam.frame := by
  induction actions generalizing p with
  | nil => cases hq
  | cons a actions ih =>
    by_cases htick : a = .tick
    · subst htick
      rcases List.mem_cons.1 hq with rfl | hq
      · exact ⟨h, Nat.le_refl _⟩
      · obtain ⟨hrange, hle⟩ := ih (tick_inRange h) hq
        have hstep := (frame_tick h).1
        exact ⟨hrange, by omega⟩
    · rw [tickStarts_of_ne htick] at hq
      have hbeam := p.beam_perform htick
      rw [← hbeam] at h ⊢
      exact ih h hq

theorem frameTicks_of_lt {actions : List PpuAction} {f : Nat} (h : p.beam.InRange)
    (hf : f < p.beam.frame) : p.frameTicks actions f = [] := by
  refine List.filter_eq_nil_iff.2 fun q hq => ?_
  have hle := (of_mem_tickStarts h hq).2
  simp only [decide_eq_true_eq]
  omega

/-- In what is left of the current frame the dots follow each other, up to the last or the last
but one. -/
theorem dots_this_frame {actions : List PpuAction} (h : p.beam.InRange)
    (hf : p.beam.frame < (p.after actions).beam.frame) :
    ∃ n, (p.frameTicks actions p.beam.frame).map (·.beam.dotsInFrame) =
        List.range' p.beam.dotsInFrame n ∧
      p.beam.dotsInFrame + n +
        ((p.frameTicks actions p.beam.frame).any dropsDot).toNat = 89342 := by
  induction actions generalizing p with
  | nil => exact absurd hf (Nat.lt_irrefl _)
  | cons a actions ih =>
    by_cases htick : a = .tick
    · subst htick
      have hrange := tick_inRange h
      have hadvance := h.dotsInFrame_advance p.regs.rendering
      rw [← tick_beam, ← dropsDot] at hadvance
      rw [frameTicks_tick, if_pos rfl]
      rcases hadvance with ⟨hframe, hdots, hno⟩ | ⟨hframe, -, hlast⟩
      · obtain ⟨n, hlist, hlength⟩ := ih hrange (by rw [hframe]; exact hf)
        rw [hframe, hdots] at hlist hlength
        refine ⟨n + 1, ?_, ?_⟩
        · rw [List.map_cons, hlist, List.range'_succ]
        · rw [List.any_cons, hno, Bool.false_or]
          omega
      · -- the rest of the run belongs to later frames
        rw [frameTicks_of_lt hrange (by omega)]
        refine ⟨1, rfl, ?_⟩
        rw [List.any_cons, List.any_nil, Bool.or_false]
        exact hlast
    · have hbeam := p.beam_perform htick
      rw [frameTicks_of_ne htick, ← hbeam]
      exact ih (hbeam ▸ h) (by rw [hbeam]; exact hf)

theorem dots_later_frame {actions : List PpuAction} {f : Nat} (h : p.beam.InRange)
    (hp : p.beam.frame < f) (hf : f < (p.after actions).beam.frame) :
    ∃ n, (p.frameTicks actions f).map (·.beam.dotsInFrame) = List.range' 0 n ∧
      n + ((p.frameTicks actions f).any dropsDot).toNat = 89342 := by
  induction actions generalizing p with
  | nil => exact absurd hf (Nat.lt_asymm hp)
  | cons a actions ih =>
    by_cases htick : a = .tick
    · subst htick
      have hrange := tick_inRange h
      rw [frameTicks_tick, if_neg (Nat.ne_of_lt hp)]
      by_cases hlater : p.tick.beam.frame < f
      · exact ih hrange hlater hf
      · -- the frame begins here, and with its first dot
        have hadvance := h.dotsInFrame_advance p.regs.rendering
        rw [← tick_beam] at hadvance
        have hfirst : p.tick.beam.frame = f ∧ p.tick.beam.dotsInFrame = 0 := by omega
        obtain ⟨rfl, hzero⟩ := hfirst
        have hframe := dots_this_frame hrange hf
        rw [hzero] at hframe
        simpa only [Nat.zero_add] using hframe
    · have hbeam := p.beam_perform htick
      rw [frameTicks_of_ne htick]
      exact ih (hbeam ▸ h) (hbeam ▸ hp) hf

theorem dots_whole_frame {actions : List PpuAction} {f : Nat} (h : p.beam = .start)
    (hf : f < (p.after actions).beam.frame) :
    ∃ n, (p.frameTicks actions f).map (·.beam.dotsInFrame) = List.range n ∧
      n + ((p.frameTicks actions f).any dropsDot).toNat = 89342 := by
  have hrange : p.beam.InRange := h ▸ Beam.inRange_start
  simp only [List.range_eq_range']
  rcases Nat.eq_zero_or_pos f with rfl | hpos
  · have hframe : p.beam.frame = 0 := h ▸ rfl
    have hdots : p.beam.dotsInFrame = 0 := h ▸ rfl
    have hthis := dots_this_frame hrange (by rw [hframe]; exact hf)
    rw [hframe, hdots] at hthis
    simpa only [Nat.zero_add] using hthis
  · exact dots_later_frame hrange (h ▸ hpos) hf

/-- A frame from its first dot to its last has the dots in their order, perhaps without the last. -/
theorem index_whole_frame {actions : List PpuAction} {f : Nat} (h : p.beam = .start)
    (hf : f < (p.after actions).beam.frame) :
    let starts := p.frameTicks actions f
    (starts.map (·.beam.position)).map Position.index =
      List.range (if ∃ q ∈ starts, q.SkipsDot then 89341 else 89342) := by
  intro starts
  have hstart (q) (hq : q ∈ starts) : q.beam.InRange :=
    (of_mem_tickStarts (h ▸ Beam.inRange_start) (List.mem_filter.1 hq).1).1
  obtain ⟨n, hdots, hlength⟩ : ∃ n, starts.map (·.beam.dotsInFrame) = List.range n ∧
      n + (starts.any dropsDot).toNat = 89342 := dots_whole_frame h hf
  have hskip : starts.any dropsDot ↔ ∃ q ∈ starts, q.SkipsDot := by
    rw [List.any_eq_true]
    exact exists_congr fun q => and_congr_right fun hq => dropsDot_iff_skipsDot (hstart q hq)
  have hn : n = if ∃ q ∈ starts, q.SkipsDot then 89341 else 89342 := by
    split_ifs with hany
    · rw [hskip.2 hany] at hlength
      exact Nat.succ.inj hlength
    · rw [Bool.eq_false_iff.2 (mt hskip.1 hany)] at hlength
      exact hlength
  rw [← hn, ← hdots, List.map_map]
  exact List.map_congr_left fun q hq => (hstart q hq).index_position

/-! ## Frames -/

/-- Over any run from power-up every tick goes to the next dot, and nothing else moves the beam. A
frame that is over has visited its dots in their order, each of them once, but for the last dot
if that was left out. -/
theorem frame_visits_every_dot (video : VideoSpace) (actions : List PpuAction) :
    let p := (fresh video).after actions
    p.beam.InRange ∧ (∀ a : PpuAction, a ≠ .tick → (a.perform p).beam = p.beam) ∧
      (if p.SkipsDot ∨ p.beam.position = dotAt 261 340 then p.tick.beam.position = dotAt 0 0
        else p.beam.position ⋖ p.tick.beam.position) ∧
      (p.tick.beam.frame =
        if p.tick.beam.position = dotAt 0 0 then p.beam.frame + 1 else p.beam.frame) ∧
      ∀ f < p.beam.frame,
        let starts := (fresh video).frameTicks actions f
        let positions := starts.map (·.beam.position)
        positions.Pairwise (· < ·) ∧
          (∀ x, positions.count x =
            if x = dotAt 261 340 ∧ ∃ q ∈ starts, q.SkipsDot then 0 else 1) ∧
          starts.length = if ∃ q ∈ starts, q.SkipsDot then 89341 else 89342 := by
  intro p
  have htimed : p.Timed := timed_after actions (timed_fresh video)
  obtain ⟨hposition, hframe⟩ := tick_position htimed.inRange
  refine ⟨htimed.inRange, fun a ha => p.beam_perform ha, hposition, hframe, ?_⟩
  intro f hf starts positions
  have hindex : positions.map Position.index =
      List.range (if ∃ q ∈ starts, q.SkipsDot then 89341 else 89342) := index_whole_frame rfl hf
  refine ⟨Position.pairwise_of_map_index hindex, fun x => ?_, ?_⟩
  · have hlt := x.index_lt
    have hlast := x.eq_last_iff
    rw [Position.count_of_map_index hindex]
    by_cases hskip : ∃ q ∈ starts, q.SkipsDot
    · simp only [hskip, hlast, if_true, and_true]
      split_ifs <;> omega
    · simp only [hskip, if_false, and_false]
      exact if_pos hlt
  · rw [← List.length_map (·.beam.position), ← List.length_map Position.index, hindex,
      List.length_range]

/-- Between ticks alone nothing turns the rendering on or off. -/
theorem rendering_of_mem_tickStarts {q : Ppu} {n : Nat}
    (hq : q ∈ p.tickStarts (List.replicate n .tick)) : q.regs.rendering = p.regs.rendering := by
  induction n generalizing p with
  | zero => cases hq
  | succ n ih =>
    rcases List.mem_cons.1 hq with rfl | hq
    · rfl
    · exact (ih hq).trans p.tick_rendering

/-- With the background shown the second frame is one dot shorter than the first. -/
theorem frame_visits_every_dot_twice :
    let actions := .write .mask 0x08 :: List.replicate (2 * 89342) .tick
    let first := (fresh .initial).frameTicks actions 0
    let second := (fresh .initial).frameTicks actions 1
    let positions := second.map (·.beam.position)
    1 < ((fresh .initial).after actions).beam.frame ∧
      (PpuAction.reset.perform ((fresh .initial).after actions)).beam =
        ((fresh .initial).after actions).beam ∧
      first.length = 89342 ∧ second.length = 89341 ∧ positions.count (dotAt 241 1) = 1 ∧
      positions.count (dotAt 261 1) = 1 ∧ positions.count (dotAt 261 340) = 0 := by
  intro actions first second positions
  obtain ⟨hrange, hbeam, -, -, hframes⟩ := frame_visits_every_dot .initial actions
  have hend : 1 < ((fresh .initial).after actions).beam.frame := by
    have hdots : 2 * 89342 ≤ ((fresh .initial).after actions).beam.dots := by
      rw [show actions = [.write .mask 0x08] ++ List.replicate (2 * 89342) .tick from rfl,
        after_append, after_replicate_tick,
        dots_ticks _ (p := (fresh .initial).after [.write .mask 0x08]) Beam.inRange_start]
      omega
    have hlt := ((fresh .initial).after actions).beam.position.index_lt
    rw [hrange.index_position] at hlt
    rw [Beam.dots, show Beam.dotsPerFrame = 89342 from rfl] at hdots
    omega
  obtain ⟨-, -, hfirst⟩ := hframes 0 (Nat.zero_lt_of_lt hend)
  obtain ⟨-, hcount, hsecond⟩ := hframes 1 hend
  have heven : ¬∃ q ∈ first, q.SkipsDot := by
    rintro ⟨q, hq, -, hodd, -⟩
    have hzero : q.beam.frame = 0 := of_decide_eq_true (List.mem_filter.1 hq).2
    omega
  have hskip : ∃ q ∈ second, q.SkipsDot := by
    have hone := hcount (dotAt 261 339)
    rw [if_neg fun h => absurd h.1 (by decide)] at hone
    obtain ⟨q, hq, hposition⟩ := List.mem_map.1 (List.count_pos_iff.1 (hone ▸ Nat.one_pos))
    obtain ⟨hstart, hframe⟩ := List.mem_filter.1 hq
    refine ⟨q, hq, hposition, ?_, rendering_of_mem_tickStarts hstart⟩
    rw [of_decide_eq_true hframe]
  rw [if_neg heven] at hfirst
  rw [if_pos hskip] at hsecond
  refine ⟨hend, hbeam .reset (by decide), hfirst, hsecond, ?_, ?_, ?_⟩
  · exact (hcount _).trans (if_neg fun h => absurd h.1 (by decide))
  · exact (hcount _).trans (if_neg fun h => absurd h.1 (by decide))
  · exact (hcount (dotAt 261 340)).trans (if_pos ⟨rfl, hskip⟩)

end Ppu

end Famicom
