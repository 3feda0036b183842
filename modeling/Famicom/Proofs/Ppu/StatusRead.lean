import Famicom.Proofs.Ppu.FrameOrder

/-!
# Reports of the vertical blank

The flag of the vertical blank is set by the tick that begins the blank, and taken away by the tick
that ends it and by a read of the status, which reports it. So the flag is a matter of the past : it
is set if the blank has begun, and neither has it ended nor was the status read since then
(`BlankPending`).

What matters of a run is the list of its `Moment`s, the dots its ticks lead to and the dots on
which the status is read. `Recorded` ties the flag to the moments so far. Every action keeps it
(`Recorded.perform`) and therefore every run (`Recorded.after`). Inside a blank it says that the
flag waits for the first read of the status, and that no other read sees it.
-/

namespace Famicom

/-- What bears on the flag of the vertical blank. -/
inductive Moment where
  /-- A tick led to here. -/
  | landed (b : Beam)
  /-- The status is read. -/
  | statusRead (b : Beam)
  deriving DecidableEq, Repr

namespace Moment

/-- The vertical blank begins. -/
def Begins : Moment → Prop
  | landed b => b.position = dotAt 241 1
  | statusRead _ => False

/-- The vertical blank ends, or is reported. -/
def Ends : Moment → Prop
  | landed b => b.position = dotAt 261 1
  | statusRead _ => True

end Moment

/-- The vertical blank has begun, and since then it has neither ended nor been reported. -/
def BlankPending (past : List Moment) : Prop :=
  ∃ earlier m later, past = earlier ++ m :: later ∧ m.Begins ∧ ∀ n ∈ later, ¬n.Ends

theorem not_blankPending_nil : ¬BlankPending [] := by
  rintro ⟨earlier, m, later, h, -⟩
  exact List.append_ne_nil_of_right_ne_nil _ (List.cons_ne_nil _ _) h.symm

/-- A new moment begins the blank, or leaves it pending. -/
theorem blankPending_append_singleton {past : List Moment} {m : Moment} :
    BlankPending (past ++ [m]) ↔ m.Begins ∨ ¬m.Ends ∧ BlankPending past := by
  constructor
  · rintro ⟨earlier, first, later, h, hbegins, hlater⟩
    rcases List.eq_nil_or_concat later with rfl | ⟨rest, last, rfl⟩
    · obtain rfl : m = first := by simpa using (List.append_inj' h rfl).2
      exact Or.inl hbegins
    · rw [List.concat_eq_append] at h hlater
      rw [← List.cons_append, ← List.append_assoc] at h
      obtain ⟨rfl, hlast⟩ := List.append_inj' h rfl
      obtain rfl : m = last := by simpa using hlast
      refine Or.inr ⟨hlater _ (by simp), earlier, first, rest, rfl, hbegins, fun n hn => ?_⟩
      exact hlater n (List.mem_append_left _ hn)
  · rintro (hbegins | ⟨hends, earlier, first, later, rfl, hbegins, hlater⟩)
    · exact ⟨past, m, [], rfl, hbegins, fun n hn => nomatch hn⟩
    · refine ⟨earlier, first, later ++ [m], by simp, hbegins, fun n hn => ?_⟩
      rcases List.mem_append.1 hn with hn | hn
      · exact hlater n hn
      · obtain rfl := List.mem_singleton.1 hn
        exact hends

namespace Beam

variable {b : Beam}

theorem InRange.entersBlank_iff_position (h : b.InRange) :
    b.entersBlank ↔ b.position = dotAt 241 1 := by
  rw [h.entersBlank_iff, h.position_eq_iff]
  rfl

theorem InRange.leavesBlank_iff_position (h : b.InRange) :
    b.leavesBlank ↔ b.position = dotAt 261 1 := by
  rw [h.leavesBlank_iff, h.position_eq_iff]
  rfl

/-- The blank goes from the second dot of line 241 to the first dot of line 261. -/
theorem InRange.inBlank_iff (h : b.InRange) :
    b.InBlank ↔ dotAt 241 1 ≤ b.position ∧ b.position ≤ dotAt 261 0 := by
  rw [← Position.strictMono_index.le_iff_le, ← Position.strictMono_index.le_iff_le,
    h.index_position]
  exact and_congr_right fun _ => Nat.lt_succ_iff

end Beam

namespace Ppu

variable {p : Ppu}

/-! ## The status -/

theorem status_read {register : PpuRegister} (h : register ≠ .status) :
    (p.read register).2.regs.status = p.regs.status := by
  rcases p.regs_read h with hregs | hregs <;>
    exact (congrArg PpuRegisters.status hregs :)

theorem status_write (register : PpuRegister) (value : UInt8) :
    (p.write register value).2.regs.status = p.regs.status := by
  cases register with
  | scroll | address =>
    simp only [write, PpuRegisters.writeScroll, PpuRegisters.writeAddress]
    split <;> rfl
  | data =>
    rcases regs_writeData { p with latch := value } value with hregs | hregs <;>
      exact (congrArg PpuRegisters.status hregs :)
  | _ => rfl

/-- The high bit of the answer is the flag; what is left on the data lines shows only below. -/
theorem testBit_read_status (p : Ppu) : ∃ value, (p.read .status).1 = .ok value ∧
    value.toNat.testBit 7 = p.regs.status.verticalBlank := by
  refine ⟨_, rfl, ?_⟩
  have hflag (s : PpuStatus) : s.toByte.toNat.testBit 7 = s.verticalBlank := by
    obtain ⟨o, z, v⟩ := s
    cases o <;> cases z <;> cases v <;> rfl
  rw [UInt8.toNat_or, UInt8.toNat_and, Nat.testBit_or, Nat.testBit_and,
    show (0x1F : UInt8).toNat.testBit 7 = false from rfl, Bool.and_false, Bool.or_false]
  exact hflag _

/-! ## Moments -/

/-- The moment of an action, if it is one. -/
def moment? (p : Ppu) : PpuAction → Option Moment
  | .tick => some (.landed p.tick.beam)
  | .read .status => some (.statusRead p.beam)
  | _ => none

/-- The moments of a run. -/
def history : Ppu → List PpuAction → List Moment
  | _, [] => []
  | p, a :: actions => (p.moment? a).toList ++ history (a.perform p) actions

theorem beam_of_moment?_eq_none {a : PpuAction} (h : p.moment? a = none) :
    (a.perform p).beam = p.beam := by
  refine p.beam_perform ?_
  rintro rfl
  cases h

theorem status_of_moment?_eq_none {a : PpuAction} (h : p.moment? a = none) :
    (a.perform p).regs.status = p.regs.status := by
  cases a with
  | tick => cases h
  | read register =>
    refine status_read ?_
    rintro rfl
    cases h
  | write register value => exact status_write register value
  | writeOam | poll | reset => rfl

theorem moment?_eq_some {a : PpuAction} {m : Moment} (h : p.moment? a = some m) :
    a = .tick ∧ m = .landed p.tick.beam ∨ a = .read .status ∧ m = .statusRead p.beam := by
  cases a with
  | tick => exact Or.inl ⟨rfl, (Option.some.inj h).symm⟩
  | read register =>
    cases register with
    | status => exact Or.inr ⟨rfl, (Option.some.inj h).symm⟩
    | _ => cases h
  | _ => cases h

/-- A moment sets the flag, keeps it, or takes it away. -/
theorem verticalBlank_of_moment? {a : PpuAction} {m : Moment} (h : p.beam.InRange)
    (hm : p.moment? a = some m) : (a.perform p).regs.status.verticalBlank ↔
      m.Begins ∨ ¬m.Ends ∧ p.regs.status.verticalBlank := by
  rcases moment?_eq_some hm with ⟨rfl, rfl⟩ | ⟨rfl, rfl⟩
  · have hrange := tick_inRange h
    show p.tick.regs.status.verticalBlank ↔ _
    rw [tick_verticalBlank, Moment.Begins, Moment.Ends, ← hrange.entersBlank_iff_position,
      ← hrange.leavesBlank_iff_position]
    cases p.tick.beam.entersBlank <;> cases p.tick.beam.leavesBlank <;> simp
  · simp [Moment.Begins, Moment.Ends, PpuAction.perform, read, drive, PpuRegisters.readStatus]

/-! ## The flag and the past -/

/-- The flag is what the moments so far make it. Inside a blank it is set until the status is
read. -/
structure Recorded (p : Ppu) (past : List Moment) : Prop where
  timed : p.Timed
  earlier : ∀ b, .statusRead b ∈ past → b.InRange ∧ b.dots ≤ p.beam.dots
  pending : p.regs.status.verticalBlank ↔ BlankPending past
  unread : p.beam.InBlank → (p.regs.status.verticalBlank ↔
    ∀ b, .statusRead b ∈ past → b.InBlank → b.frame ≠ p.beam.frame)

theorem recorded_fresh (video : VideoSpace) : (fresh video).Recorded [] where
  timed := timed_fresh video
  earlier _ h := nomatch h
  pending := ⟨fun h => (nomatch h), fun h => absurd h not_blankPending_nil⟩
  unread h := absurd h.1 (Nat.not_le.2 (by decide : 0 < 82182))

/-- Behind its first dot a blank only goes on. -/
theorem tick_of_inBlank (h : p.beam.InRange) (hblank : p.tick.beam.InBlank)
    (henter : p.tick.beam.entersBlank = false) :
    p.beam.InBlank ∧ p.tick.beam.frame = p.beam.frame ∧
      p.tick.regs.status.verticalBlank = p.regs.status.verticalBlank := by
  have hnext := tick_inRange h
  have hfirst := mt hnext.entersBlank_iff.2 (Bool.eq_false_iff.1 henter)
  have hleave : p.tick.beam.leavesBlank = false := by
    rw [Bool.eq_false_iff, Ne, hnext.leavesBlank_iff]
    exact Nat.ne_of_lt hblank.2
  have hflag : p.tick.regs.status.verticalBlank = p.regs.status.verticalBlank := by
    rw [tick_verticalBlank, henter, hleave]
    rfl
  obtain ⟨hlo, hhi⟩ := hblank
  have hadvance := h.dotsInFrame_advance p.regs.rendering
  rw [← tick_beam] at hadvance
  rcases hadvance with ⟨hframe, hdots, -⟩ | ⟨-, hdots, -⟩
  · exact ⟨⟨by omega, by omega⟩, hframe, hflag⟩
  · omega

namespace Recorded

variable {past : List Moment}

theorem tick (h : p.Recorded past) : p.tick.Recorded (past ++ [.landed p.tick.beam]) := by
  have hrange := h.timed.inRange
  have hlt := (dots_tick hrange).1
  have hmem (b : Beam) :
      .statusRead b ∈ past ++ [.landed p.tick.beam] ↔ .statusRead b ∈ past := by
    simp
  refine ⟨h.timed.tick, fun b hb => ?_, ?_, fun hblank => ?_⟩
  · obtain ⟨hb, hle⟩ := h.earlier b ((hmem b).1 hb)
    exact ⟨hb, by omega⟩
  · rw [blankPending_append_singleton, ← h.pending]
    exact verticalBlank_of_moment? (a := .tick) hrange rfl
  · simp only [hmem]
    cases henter : p.tick.beam.entersBlank with
    | false =>
      obtain ⟨hinside, hframe, hflag⟩ := tick_of_inBlank hrange hblank henter
      rw [hframe, hflag]
      exact h.unread hinside
    | true =>
      rw [tick_verticalBlank, if_pos henter]
      refine iff_of_true rfl ?_
      rintro b hb ⟨hlo, -⟩ hframe
      -- a read in this blank would come after its first dot
      have hle := (h.earlier b hb).2
      have hfirst := (tick_inRange hrange).entersBlank_iff.1 henter
      have hdots (x : Beam) : x.dots = 89342 * x.frame + x.dotsInFrame := rfl
      rw [hdots p.tick.beam] at hlt
      rw [hdots b] at hle
      omega

theorem readStatus (h : p.Recorded past) :
    (p.read .status).2.Recorded (past ++ [.statusRead p.beam]) := by
  have hstill := p.quiet_read .status
  have htimed : (p.read .status).2.Timed := h.timed.of_beam_eq hstill.beam hstill.blank
  refine ⟨htimed, fun b hb => ?_, ?_, fun hblank => ?_⟩
  · rw [hstill.beam]
    rcases List.mem_append.1 hb with hb | hb
    · exact h.earlier b hb
    · obtain rfl := Moment.statusRead.inj (List.mem_singleton.1 hb)
      exact ⟨h.timed.inRange, Nat.le_refl _⟩
  · rw [blankPending_append_singleton, ← h.pending]
    exact verticalBlank_of_moment? (a := .read .status) h.timed.inRange rfl
  · rw [hstill.beam] at hblank ⊢
    refine iff_of_false (fun hflag => nomatch hflag) fun hall => ?_
    exact hall p.beam (List.mem_append_right _ (List.mem_singleton_self _)) hblank rfl

theorem perform (h : p.Recorded past) (a : PpuAction) :
    (a.perform p).Recorded (past ++ (p.moment? a).toList) := by
  cases hm : p.moment? a with
  | none =>
    have hbeam := beam_of_moment?_eq_none hm
    have hflag := congrArg PpuStatus.verticalBlank (status_of_moment?_eq_none hm)
    rw [Option.toList_none, List.append_nil]
    refine ⟨h.timed.of_beam_eq hbeam fun hset => hflag ▸ hset, ?_, ?_, ?_⟩ <;>
      simp only [hbeam, hflag]
    · exact h.earlier
    · exact h.pending
    · exact h.unread
  | some m =>
    rcases moment?_eq_some hm with ⟨rfl, rfl⟩ | ⟨rfl, rfl⟩
    · exact h.tick
    · exact h.readStatus

theorem after (h : p.Recorded past) (actions : List PpuAction) :
    (p.after actions).Recorded (past ++ p.history actions) := by
  induction actions generalizing p past with
  | nil => exact (List.append_nil past).symm ▸ h
  | cons a actions ih =>
    have hrest := ih (h.perform a)
    rw [List.append_assoc] at hrest
    exact hrest

end Recorded

/-- A read of the status reports the vertical blank if it has begun since power-up, and since then
has neither ended nor been reported. So the flag is never set outside the blank, and in every
blank the first read of the status sees it, and no other. -/
theorem blank_reported_once (video : VideoSpace) (actions : List PpuAction) :
    let p := (fresh video).after actions
    let past := (fresh video).history actions
    let inBlank := fun b : Beam => dotAt 241 1 ≤ b.position ∧ b.position ≤ dotAt 261 0
    ∃ value, (p.read .status).1 = .ok value ∧
      (value.toNat.testBit 7 ↔ BlankPending past) ∧
      (p.regs.status.verticalBlank → inBlank p.beam) ∧
      (inBlank p.beam → (value.toNat.testBit 7 ↔
        ∀ b, .statusRead b ∈ past → inBlank b → b.frame ≠ p.beam.frame)) := by
  intro p past inBlank
  have h : p.Recorded past := (recorded_fresh video).after actions
  have hwindow (b : Beam) (hb : b.InRange) : b.InBlank ↔ inBlank b := hb.inBlank_iff
  obtain ⟨value, hread, hbit⟩ := p.testBit_read_status
  refine ⟨value, hread, hbit ▸ h.pending, fun hflag => ?_, fun hblank => ?_⟩
  · exact (hwindow _ h.timed.inRange).1 (h.timed.window hflag)
  · rw [hbit, h.unread ((hwindow _ h.timed.inRange).2 hblank)]
    refine forall₂_congr fun b hb => ?_
    rw [hwindow b (h.earlier b hb).1]

/-- The beam comes to the blank, and the status is read twice. -/
theorem blank_reported_once_of_two :
    let actions := List.replicate 82181 .tick ++ [.tick]
    let p := (fresh .initial).after actions
    let q := (fresh .initial).after (actions ++ [.read .status])
    p.beam = ⟨241, 1, 0⟩ ∧ q.beam = ⟨241, 1, 0⟩ ∧
      (p.read .status).1 = .ok 0x80 ∧ (q.read .status).1 = .ok 0 ∧
      BlankPending ((fresh .initial).history actions) ∧
      ¬∀ b, .statusRead b ∈ (fresh .initial).history (actions ++ [.read .status]) →
        dotAt 241 1 ≤ b.position ∧ b.position ≤ dotAt 261 0 → b.frame ≠ 0 := by
  intro actions p q
  have hp : p = PpuAction.tick.perform { fresh .initial with beam := ⟨241, 0, 0⟩ } := by
    have hdots : (fresh .initial).beam.dotsInFrame = 0 := rfl
    rw [show p = _ from after_append _ _ _, after_replicate_tick,
      ticks_before_blank Beam.inRange_start rfl (by rw [hdots]; decide), hdots]
    rfl
  have hq : q = p.after [.read .status] := after_append _ _ _
  have hbeam : q.beam = ⟨241, 1, 0⟩ := by rw [hq, hp]; rfl
  have hfirst : (p.read .status).1 = .ok 0x80 := by rw [hp]; rfl
  have hsecond : (q.read .status).1 = .ok 0 := by rw [hq, hp]; rfl
  obtain ⟨value, hread, hpending, -, -⟩ := blank_reported_once .initial actions
  obtain ⟨again, hreread, -, -, hunread⟩ :=
    blank_reported_once .initial (actions ++ [.read .status])
  obtain rfl := Except.ok.inj (hfirst.symm.trans hread)
  obtain rfl := Except.ok.inj (hsecond.symm.trans hreread)
  refine ⟨by rw [hp]; rfl, hbeam, hfirst, hsecond, hpending.1 rfl, fun hall => ?_⟩
  have hblank : dotAt 241 1 ≤ q.beam.position ∧ q.beam.position ≤ dotAt 261 0 := by
    rw [hbeam]
    decide
  have hunreported := (hunread hblank).2 fun b hb hinside => by
    rw [show q.beam.frame = 0 by rw [hbeam]]
    exact hall b hb hinside
  exact absurd hunreported (by decide)

end Ppu

end Famicom
