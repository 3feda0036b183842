import Famicom.Proofs.Ppu.Tick
import Mathlib.Logic.Function.Iterate

/-!
# The scroll position over a frame

A scroll position is two counters. The column counts tiles modulo 64, across two nametables
(`column`), and the line counts picture elements in its nametable (`vertical`). Rendering
moves each of them on, one step at a time (`column_nextColumn`, `vertical_nextRow`), or sets
it to the latched one, and neither movement touches the other counter.

From the reload at dot 257 of the last line on, the counters are a function of the latched
position and the beam : `columnsAt` columns to the right, and one line down for each line
that is past its dot 256. `Undisturbed.scrolled` shows by induction over the ticks that this holds
up to the end of the picture, whatever the position was before.
-/

namespace Famicom

namespace VramAddress

/-! ## The two counters -/

/-- The column of tiles, counted across both nametables. -/
def column (v : VramAddress) : Nat := 32 * v.nametableX.toNat + v.coarseX.toNat

/-- The line of picture elements in its nametable, and the nametable it lies in. -/
def vertical (v : VramAddress) : Nat × Bool := (8 * v.coarseY.toNat + v.fineY.toNat, v.nametableY)

/-- The line after a line. From the last line of the picture it is in the other nametable; the
lines below, which the picture does not have, end in the same one. -/
def lineAfter : Nat × Bool → Nat × Bool
  | (239, lower) => (0, !lower)
  | (255, lower) => (0, lower)
  | (line, lower) => (line + 1, lower)

theorem column_nextColumn (v : VramAddress) : v.nextColumn.column = (v.column + 1) % 64 := by
  have hx := v.coarseX.isLt
  unfold nextColumn column
  split
  · rename_i h
    show 32 * (!v.nametableX).toNat + 0 = (32 * v.nametableX.toNat + v.coarseX.toNat + 1) % 64
    rw [h]
    cases v.nametableX <;> rfl
  · rename_i h
    have hne : v.coarseX.toNat ≠ 31 := fun h31 => h (BitVec.eq_of_toNat_eq h31)
    have hadd : (v.coarseX + 1).toNat = v.coarseX.toNat + 1 := by
      rw [BitVec.toNat_add]
      exact Nat.mod_eq_of_lt (by show v.coarseX.toNat + 1 < 2 ^ 5; omega)
    have hn := v.nametableX.toNat_le
    simp only [hadd]
    omega

theorem vertical_nextColumn (v : VramAddress) : v.nextColumn.vertical = v.vertical := by
  unfold nextColumn
  split <;> rfl

theorem spare_nextColumn (v : VramAddress) : v.nextColumn.spare = v.spare := by
  unfold nextColumn
  split <;> rfl

theorem lineAfter_of_ne {line : Nat} (lower : Bool) (h₁ : line ≠ 239) (h₂ : line ≠ 255) :
    lineAfter (line, lower) = (line + 1, lower) := by
  unfold lineAfter
  split <;> simp_all

theorem vertical_nextRow (v : VramAddress) : v.nextRow.vertical = lineAfter v.vertical := by
  obtain ⟨cx, cy, nx, ny, fy, s⟩ := v
  have hy := cy.isLt
  have hf := fy.isLt
  simp only [nextRow, vertical]
  by_cases hfine : fy = 7
  · subst hfine
    have h7 : (7 : BitVec 3).toNat = 7 := rfl
    by_cases h29 : cy = 29
    · subst h29
      rfl
    by_cases h31 : cy = 31
    · subst h31
      rfl
    -- every other tile row is followed by one of the same nametable
    have hne29 : cy.toNat ≠ 29 := fun h => h29 (BitVec.eq_of_toNat_eq h)
    have hne31 : cy.toNat ≠ 31 := fun h => h31 (BitVec.eq_of_toNat_eq h)
    have hadd : (cy + 1).toNat = cy.toNat + 1 := by
      rw [BitVec.toNat_add]
      exact Nat.mod_eq_of_lt (by show cy.toNat + 1 < 2 ^ 5; omega)
    rw [lineAfter_of_ne _ (by omega) (by omega)]
    simp only [ne_eq, not_true_eq_false, if_false, h29, hadd, h7, Prod.mk.injEq, and_true]
    show 8 * (cy.toNat + 1) + 0 = _
    omega
  · have hne : fy.toNat ≠ 7 := fun h => hfine (BitVec.eq_of_toNat_eq h)
    have hadd : (fy + 1).toNat = fy.toNat + 1 := by
      rw [BitVec.toNat_add]
      exact Nat.mod_eq_of_lt (by show fy.toNat + 1 < 2 ^ 3; omega)
    rw [lineAfter_of_ne _ (by omega) (by omega)]
    simp only [ne_eq, hfine, not_false_eq_true, if_true, hadd, Prod.mk.injEq, and_true]
    omega

theorem column_nextRow (v : VramAddress) : v.nextRow.column = v.column := by
  unfold nextRow
  split
  · rfl
  · split <;> rfl

theorem spare_nextRow (v : VramAddress) : v.nextRow.spare = v.spare := by
  unfold nextRow
  split
  · rfl
  · split <;> rfl

/-- The counters and the bit without meaning are all there is of a position. -/
theorem ext_counters {v w : VramAddress} (hcolumn : v.column = w.column)
    (hvertical : v.vertical = w.vertical) (hspare : v.spare = w.spare) : v = w := by
  obtain ⟨vx, vy, vnx, vny, vf, vs⟩ := v
  obtain ⟨wx, wy, wnx, wny, wf, ws⟩ := w
  have := vx.isLt
  have := wx.isLt
  have := vf.isLt
  have := wf.isLt
  simp only [column, vertical, Prod.mk.injEq] at hcolumn hvertical hspare
  obtain ⟨hline, rfl⟩ := hvertical
  subst hspare
  have hx : vx = wx := BitVec.eq_of_toNat_eq (by
    have := vnx.toNat_le
    have := wnx.toNat_le
    omega)
  have hy : vy = wy := BitVec.eq_of_toNat_eq (by omega)
  have hf : vf = wf := BitVec.eq_of_toNat_eq (by omega)
  subst hx hy hf
  have hn : vnx = wnx := by
    cases vnx <;> cases wnx <;> simp_all
  rw [hn]

end VramAddress

/-! ## Following the beam -/

namespace PpuRegisters

open VramAddress

theorem column_follow (r : PpuRegisters) (b : Beam) :
    (r.follow b).current.column =
      if b.dot = 257 then r.latched.column
      else if b.dot % 8 = 0 ∧ (1 ≤ b.dot ∧ b.dot ≤ 256 ∨ b.dot = 328 ∨ b.dot = 336) then
        (r.current.column + 1) % 64
      else r.current.column := by
  unfold follow
  split_ifs
  all_goals
    first
    | omega
    | simp only [nextColumn, nextRow, copyHorizontal, copyVertical, column_nextRow,
        column_nextColumn]
  all_goals rfl

theorem vertical_follow (r : PpuRegisters) (b : Beam) :
    (r.follow b).current.vertical =
      if b.dot = 256 then lineAfter r.current.vertical
      else if b.scanline = Beam.lastLine ∧ 280 ≤ b.dot ∧ b.dot ≤ 304 then r.latched.vertical
      else r.current.vertical := by
  unfold follow
  split_ifs
  all_goals
    first
    | omega
    | simp only [nextColumn, nextRow, copyHorizontal, copyVertical, vertical_nextRow,
        vertical_nextColumn]
  all_goals rfl

theorem spare_follow (r : PpuRegisters) (b : Beam) :
    (r.follow b).current.spare = r.current.spare := by
  unfold follow
  split_ifs <;>
    simp only [nextColumn, nextRow, copyHorizontal, copyVertical, spare_nextRow, spare_nextColumn]
  all_goals rfl

end PpuRegisters

/-! ## Where the beam has taken the position -/

/-- The columns between the latched position and that at a dot of a line. -/
def columnsAt (dot : Nat) : Nat :=
  if dot ≤ 256 then 2 + dot / 8 else if dot ≤ 327 then 0 else if dot ≤ 335 then 1 else 2

/-- The lines between the latched position and that of the beam, which leaves a line of the
picture at dot 256. -/
def linesAt (b : Beam) : Nat :=
  if b.scanline = 261 then 0 else b.scanline + if 256 ≤ b.dot then 1 else 0

/-- The position `v` is where the beam has taken the latched position `t`. The lines are reloaded
from dot 280 of the last line on. -/
structure TakenTo (t : VramAddress) (b : Beam) (v : VramAddress) : Prop where
  column : v.column = (t.column + columnsAt b.dot) % 64
  vertical : (b.scanline = 261 → 280 ≤ b.dot) →
    v.vertical = VramAddress.lineAfter^[linesAt b] t.vertical

theorem columnsAt_succ {dot : Nat} (h : dot + 1 < 341) :
    columnsAt (dot + 1) =
      if dot + 1 = 257 then 0
      else if (dot + 1) % 8 = 0 ∧ (1 ≤ dot + 1 ∧ dot + 1 ≤ 256 ∨ dot + 1 = 328 ∨ dot + 1 = 336) then
        columnsAt dot + 1
      else columnsAt dot := by
  unfold columnsAt
  split_ifs <;> omega

theorem VramAddress.column_lt (v : VramAddress) : v.column < 64 := by
  have hx := v.coarseX.isLt
  have hn := v.nametableX.toNat_le
  unfold column
  omega

/-- The beam goes on along its line. -/
theorem TakenTo.alongLine {t : VramAddress} {r : PpuRegisters} {line dot frame : Nat}
    (h : TakenTo t ⟨line, dot, frame⟩ r.current) (hlatched : r.latched = t) (hdot : dot + 1 < 341) :
    TakenTo t ⟨line, dot + 1, frame⟩ (r.follow ⟨line, dot + 1, frame⟩).current := by
  obtain ⟨hcolumn, hvertical⟩ := h
  simp only at hcolumn hvertical
  constructor
  · rw [PpuRegisters.column_follow, hlatched, hcolumn]
    simp only [columnsAt_succ hdot]
    have ht := t.column_lt
    split_ifs <;> omega
  · simp only
    intro hreloaded
    rw [PpuRegisters.vertical_follow, hlatched]
    by_cases h256 : dot + 1 = 256
    · have hl : linesAt ⟨line, dot + 1, frame⟩ = linesAt ⟨line, dot, frame⟩ + 1 := by
        simp only [linesAt]
        split_ifs <;> omega
      rw [if_pos h256, hvertical (by omega), hl, Function.iterate_succ_apply']
    · have hl : linesAt ⟨line, dot + 1, frame⟩ = linesAt ⟨line, dot, frame⟩ := by
        simp only [linesAt]
        split_ifs <;> omega
      rw [if_neg h256, hl]
      split_ifs with hcopy
      · have hzero : linesAt ⟨line, dot, frame⟩ = 0 := if_pos hcopy.1
        rw [hzero]
        rfl
      · simp only [Beam.lastLine] at hcopy
        exact hvertical (by omega)

/-- The beam goes to the next line, from the end of a line or one dot early. -/
theorem TakenTo.nextLine {t : VramAddress} {r : PpuRegisters} {line line' dot frame frame' : Nat}
    (h : TakenTo t ⟨line, dot, frame⟩ r.current) (hdot : 339 ≤ dot ∧ dot ≤ 340)
    (hline : line = 261 ∧ line' = 0 ∨ line < 239 ∧ line' = line + 1) :
    TakenTo t ⟨line', 0, frame'⟩ (r.follow ⟨line', 0, frame'⟩).current := by
  have hstays : r.follow ⟨line', 0, frame'⟩ = r := by
    simp [PpuRegisters.follow]
  obtain ⟨hcolumn, hvertical⟩ := h
  simp only at hcolumn hvertical
  rw [hstays]
  constructor
  · rw [hcolumn]
    simp only [columnsAt]
    split_ifs <;> omega
  · intro _
    have hl : linesAt ⟨line', 0, frame'⟩ = linesAt ⟨line, dot, frame⟩ := by
      simp only [linesAt]
      split_ifs <;> omega
    rw [hl]
    exact hvertical (by omega)

/-! ## Over the picture -/

namespace Ppu

/-- From `p` on the unit was ticked, and whatever else happened to it left the beam, the rendering
and both positions alone. -/
inductive Undisturbed (p : Ppu) : Ppu → Prop where
  | start : Undisturbed p p
  | tick {q : Ppu} : Undisturbed p q → Undisturbed p q.tick
  | aside {q r : Ppu} : Undisturbed p q → r.beam = q.beam → r.regs.rendering = q.regs.rendering →
      r.regs.current = q.regs.current → r.regs.latched = q.regs.latched → Undisturbed p r

theorem undisturbed_ticks (n : Nat) (p : Ppu) : Undisturbed p (ticks n p) := by
  suffices ∀ q, Undisturbed p q → Undisturbed p (ticks n q) from this p .start
  induction n with
  | zero => exact fun q hq => hq
  | succ n ih => exact fun q hq => ih _ hq.tick

/-- From the reload on the last line of `frame` to the end of the next picture the position follows
the beam. -/
structure Scrolled (t : VramAddress) (spare : Bool) (frame : Nat) (q : Ppu) : Prop where
  inRange : q.beam.InRange
  rendering : q.regs.rendering = true
  latched : q.regs.latched = t
  position : (q.beam.frame = frame ∧ q.beam.scanline = 261 ∧ 257 ≤ q.beam.dot ∨
      q.beam.frame = frame + 1 ∧ q.beam.scanline ≤ 239) ∧
        TakenTo t q.beam q.regs.current ∧ q.regs.current.spare = spare ∨
    q.beam.frame = frame + 1 ∧ 240 ≤ q.beam.scanline ∨ frame + 1 < q.beam.frame

theorem tick_follow {p : Ppu} (hrendering : p.regs.rendering) {b : Beam} (hb : p.tick.beam = b)
    (hfetching : b.fetching) : p.tick.regs.current = (p.regs.follow b).current := by
  rw [tick_current, hb, hrendering, hfetching]
  rfl

theorem fetching_of_le {b : Beam} (h : b.scanline ≤ 239 ∨ b.scanline = 261) : b.fetching := by
  simp only [Beam.fetching, Beam.lastLine, Bool.or_eq_true, decide_eq_true_eq, beq_iff_eq]
  omega

theorem Scrolled.tick {t : VramAddress} {spare : Bool} {frame : Nat} {q : Ppu}
    (h : Scrolled t spare frame q) : Scrolled t spare frame q.tick := by
  have hrange := tick_inRange h.inRange
  refine ⟨hrange, (tick_rendering q).trans h.rendering, (tick_latched q).trans h.latched, ?_⟩
  have hcases := h.inRange.advance_cases q.regs.rendering
  rw [← tick_beam] at hcases
  have hdrop := (q.beam.dropsDot q.regs.rendering).toNat_le
  have hposition := h.position
  rcases hbeam : q.beam with ⟨line, dot, f⟩
  rw [hbeam] at hcases hdrop hposition
  simp only [Beam.dotsPerLine, Beam.lastLine] at hcases hposition
  rcases hposition with ⟨hspan, htaken, hspare⟩ | hpast
  · rcases hcases with ⟨hnext, hd⟩ | ⟨hnext, hd, hl⟩ | ⟨hnext, hl, hd⟩
    · have hcurrent := tick_follow h.rendering hnext (fetching_of_le (by simp only; omega))
      refine Or.inl ⟨by simp only [hnext]; exact hspan.imp (by omega) id, ?_, ?_⟩
      · rw [hcurrent, hnext]
        exact htaken.alongLine h.latched hd
      · rw [hcurrent, PpuRegisters.spare_follow, hspare]
    · by_cases hend : line = 239
      · -- the picture ends here
        exact Or.inr (by simp only [hnext]; omega)
      · have hcurrent := tick_follow h.rendering hnext (fetching_of_le (by simp only; omega))
        refine Or.inl ⟨by simp only [hnext]; omega, ?_, ?_⟩
        · rw [hcurrent, hnext]
          exact htaken.nextLine (by omega) (by omega)
        · rw [hcurrent, PpuRegisters.spare_follow, hspare]
    · have hcurrent := tick_follow h.rendering hnext (fetching_of_le (by simp only; omega))
      refine Or.inl ⟨by simp only [hnext]; omega, ?_, ?_⟩
      · rw [hcurrent, hnext]
        exact htaken.nextLine (by omega) (by omega)
      · rw [hcurrent, PpuRegisters.spare_follow, hspare]
  · refine Or.inr ?_
    rcases hcases with ⟨hnext, -⟩ | ⟨hnext, -⟩ | ⟨hnext, -⟩ <;> rw [hnext] <;> simp only <;> omega

theorem Undisturbed.scrolled {t : VramAddress} {spare : Bool} {frame : Nat} {p q : Ppu}
    (hq : Undisturbed p q) (h : Scrolled t spare frame p) : Scrolled t spare frame q := by
  induction hq with
  | start => exact h
  | tick _ ih => exact ih.tick
  | aside _ hbeam hrendering hcurrent hlatched ih =>
    exact ⟨hbeam ▸ ih.inRange, hrendering.trans ih.rendering, hlatched.trans ih.latched, by
      rw [hbeam, hcurrent]
      exact ih.position⟩

/-- The reload at dot 257 sets the column; the line is still to come. -/
theorem scrolled_reload {p : Ppu} {frame : Nat} (hrendering : p.regs.rendering)
    (hreload : p.tick.beam = ⟨261, 257, frame⟩) :
    Scrolled p.regs.latched p.regs.current.spare frame p.tick := by
  have hcurrent := tick_follow hrendering hreload (fetching_of_le (Or.inr rfl))
  refine ⟨?_, (tick_rendering p).trans hrendering,
    tick_latched p, Or.inl ⟨by rw [hreload]; exact Or.inl ⟨rfl, rfl, Nat.le_refl _⟩, ?_, ?_⟩⟩
  · rw [hreload]
    exact ⟨(by decide : 261 ≤ 261), (by decide : 257 < 341)⟩
  · rw [hreload, hcurrent]
    refine ⟨?_, fun hline => ?_⟩
    · rw [PpuRegisters.column_follow]
      exact (Nat.mod_eq_of_lt p.regs.latched.column_lt).symm
    · exact absurd (hline rfl) (by decide : ¬280 ≤ 257)
  · rw [hcurrent, PpuRegisters.spare_follow]

/-- From the reload on the beam comes to every dot of the next picture. -/
theorem exists_ticks_beam {p : Ppu} {frame line dot : Nat} (hp : p.beam = ⟨261, 257, frame⟩)
    (hline : line ≤ 239) (hdot : dot ≤ 340) : ∃ n, (ticks n p).beam = ⟨line, dot, frame + 1⟩ := by
  have hrange : p.beam.InRange := by
    rw [hp]
    exact ⟨(by decide : 261 ≤ 261), (by decide : 257 < 341)⟩
  have hdots : p.beam.dotsInFrame = 89258 := by rw [hp]; rfl
  obtain ⟨m, hm⟩ : ∃ m, (ticks m p).beam = ⟨0, 0, frame + 1⟩ := by
    obtain ⟨hf, hd⟩ := dotsInFrame_ticks (n := 82) hrange (by omega)
    have hrange' := ticks_inRange 82 hrange
    have hlast : (ticks 82 p).beam = ⟨261, 339, frame⟩ :=
      hrange'.eq_of_dotsInFrame (by decide) (by rw [hf, hp]) (by rw [hd, hdots]; rfl)
    have hcases := hrange'.advance_cases (ticks 82 p).regs.rendering
    rw [← tick_beam, hlast] at hcases
    rcases hcases with ⟨hnext, -⟩ | ⟨-, -, hl⟩ | ⟨hnext, -⟩
    · -- the last dot is not dropped
      have hrange'' := tick_inRange hrange'
      have hcases := hrange''.advance_cases (ticks 82 p).tick.regs.rendering
      rw [← tick_beam, hnext] at hcases
      rcases hcases with ⟨-, hd⟩ | ⟨-, -, hl⟩ | ⟨hnext, -⟩
      · exact absurd hd (by decide : ¬341 < 341)
      · exact absurd hl (by decide : ¬261 < 261)
      · exact ⟨82 + 2, by rw [ticks_add]; exact hnext⟩
    · exact absurd hl (by decide : ¬261 < 261)
    · exact ⟨82 + 1, by rw [ticks_add]; exact hnext⟩
  have hrange' := ticks_inRange m hrange
  have hstart : (ticks m p).beam.dotsInFrame = 0 := by rw [hm]; rfl
  obtain ⟨hf, hd⟩ := dotsInFrame_ticks (n := 341 * line + dot) hrange' (by omega)
  refine ⟨m + (341 * line + dot), ?_⟩
  rw [ticks_add]
  refine (ticks_inRange _ hrange').eq_of_dotsInFrame (by show dot < 341; omega) ?_ ?_
  · rw [hf, hm]
  · rw [hd, hstart, Nat.zero_add]
    rfl

/-- Over the picture the scroll position is a function of the latched one : the column is
`columnsAt` to the right of the latched column, and the line has moved on once for every line that
is past its dot 256. -/
theorem scroll_over_picture {p : Ppu} {frame line dot : Nat} (hrendering : p.regs.rendering)
    (hreload : p.tick.beam = ⟨261, 257, frame⟩) (hline : line ≤ 239) (hdot : dot ≤ 340) :
    (∃ n, (ticks n p.tick).beam = ⟨line, dot, frame + 1⟩) ∧
      ∀ q, Undisturbed p.tick q → q.beam = ⟨line, dot, frame + 1⟩ →
        ∀ v, v = q.regs.current ↔
          v.column = (p.regs.latched.column +
              if dot ≤ 256 then 2 + dot / 8 else if dot ≤ 327 then 0 else if dot ≤ 335 then 1
              else 2) % 64 ∧
            v.vertical =
              VramAddress.lineAfter^[if dot < 256 then line else line + 1] p.regs.latched.vertical ∧
            v.spare = p.regs.current.spare := by
  refine ⟨exists_ticks_beam hreload hline hdot, fun q hq hbeam v => ?_⟩
  have hscrolled := hq.scrolled (scrolled_reload hrendering hreload)
  have hposition := hscrolled.position
  rw [hbeam] at hposition
  obtain ⟨-, ⟨hcolumn, hvertical⟩, hspare⟩ :=
    hposition.resolve_right (by simp only; omega)
  replace hvertical := hvertical fun h => absurd h (by simp only; omega)
  have hlines : linesAt ⟨line, dot, frame + 1⟩ = if dot < 256 then line else line + 1 := by
    simp only [linesAt]
    split_ifs <;> omega
  rw [hlines] at hvertical
  constructor
  · rintro rfl
    exact ⟨hcolumn, hvertical, hspare⟩
  · rintro ⟨hc, hv, hs⟩
    exact VramAddress.ext_counters (hc.trans hcolumn.symm) (hv.trans hvertical.symm)
      (hs.trans hspare.symm)

/-- The latched line is the last one below the picture, so the next line is the first of the same
nametable. -/
theorem scroll_over_picture_below :
    let t : VramAddress := ⟨29, 31, true, false, 7, false⟩
    let regs : PpuRegisters := { PpuRegisters.initial with mask := 0x08, latched := t }
    let p : Ppu := { fresh .initial with regs, beam := ⟨261, 256, 0⟩ }
    p.regs.rendering ∧ p.tick.beam = ⟨261, 257, 0⟩ ∧ t.column = 61 ∧ t.vertical = (255, false) ∧
      ∃ q, Undisturbed p.tick q ∧ q.beam = ⟨1, 250, 1⟩ ∧ q.regs.current.column = 30 ∧
        q.regs.current.vertical = (0, false) := by
  intro t regs p
  have hrendering : p.regs.rendering := by decide
  have hreload : p.tick.beam = ⟨261, 257, 0⟩ := by decide +kernel
  obtain ⟨⟨n, hn⟩, hlaw⟩ := scroll_over_picture hrendering hreload
    (by decide : 1 ≤ 239) (by decide : 250 ≤ 340)
  obtain ⟨hcolumn, hvertical, -⟩ := (hlaw _ (undisturbed_ticks n _) hn _).1 rfl
  exact ⟨hrendering, hreload, rfl, rfl, _, undisturbed_ticks n _, hn,
    hcolumn.trans (by decide +kernel), hvertical.trans (by decide +kernel)⟩

end Ppu

end Famicom
