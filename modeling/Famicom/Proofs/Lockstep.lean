import Famicom.Proofs.Host

/-!
# The two clocks

The processor counts cycles and the beam counts dots. A run of insertions, resets and
steps keeps them together : the beam is three dots further for every cycle, and one more
for every frame that dropped its last dot (`Lockstep`). `lockstep_perform` shows this for
one action, `lockstep_after` for a run, and `clocks_in_lockstep` is the law from power-up
on.

Which frames drop a dot is decided tick by tick, where a step moves the beam
(`droppedFrames`). They are odd and distinct, so they are at most half of all.
-/

namespace Famicom

namespace HostAction

/-- The actions that leave both clocks to the console. -/
def isPlay : HostAction → Bool
  | insert _ | reset | step => true
  | _ => false

/-- The frames that lose their last dot while the beam catches up in an action. -/
def droppedFrames (c : Console) : HostAction → List Nat
  | step => (c.settled?.map fun (n, e) => e.bus.ppu.droppedFrames (n * 3)).getD []
  | _ => []

end HostAction

namespace Console

/-- The frames that lose their last dot in a run. -/
def droppedFrames : Console → List HostAction → List Nat
  | _, [] => []
  | c, a :: actions => a.droppedFrames c ++ droppedFrames (a.perform c) actions

/-! ## Keeping together -/

/-- From `c` to `d` the beam went three dots for every cycle and one more for each frame in
`dropped`. -/
structure Lockstep (c d : Console) (dropped : List Nat) : Prop where
  inRange : d.beam.InRange
  dots : d.beam.dots + 3 * c.cpu.cycles = c.beam.dots + 3 * d.cpu.cycles + dropped.length
  frame_le : c.beam.frame ≤ d.beam.frame
  sorted : dropped.Pairwise (· < ·)
  mem : ∀ f ∈ dropped, c.beam.frame ≤ f ∧ f < d.beam.frame ∧ f % 2 = 1

namespace Lockstep

theorem refl {c : Console} (h : c.beam.InRange) : Lockstep c c [] :=
  ⟨h, rfl, Nat.le_refl _, List.Pairwise.nil, fun _ hf => nomatch hf⟩

/-- Neither clock moved. -/
theorem of_eq {c d : Console} (h : c.beam.InRange) (hbeam : d.beam = c.beam)
    (hcycles : d.cpu.cycles = c.cpu.cycles) : Lockstep c d [] := by
  refine ⟨hbeam ▸ h, ?_, ?_, List.Pairwise.nil, fun _ hf => nomatch hf⟩
  · rw [hbeam, hcycles]
    rfl
  · exact Nat.le_of_eq (congrArg Beam.frame hbeam.symm)

theorem trans {c d e : Console} {l m : List Nat} (hcd : Lockstep c d l) (hde : Lockstep d e m) :
    Lockstep c e (l ++ m) := by
  have hdots := hcd.dots
  have hdots' := hde.dots
  have hle := hcd.frame_le
  have hle' := hde.frame_le
  refine ⟨hde.inRange, ?_, Nat.le_trans hle hle', ?_, ?_⟩
  · rw [List.length_append]
    omega
  · refine List.pairwise_append.2 ⟨hcd.sorted, hde.sorted, fun f hf g hg => ?_⟩
    have hlt := (hcd.mem f hf).2.1
    have hge := (hde.mem g hg).1
    omega
  · intro f hf
    rcases List.mem_append.1 hf with hf | hf
    · obtain ⟨hge, hlt, hodd⟩ := hcd.mem f hf
      exact ⟨hge, by omega, hodd⟩
    · obtain ⟨hge, hlt, hodd⟩ := hde.mem f hf
      exact ⟨by omega, hlt, hodd⟩

end Lockstep

/-- A step answers its cycles, and the beam makes three ticks for each. -/
theorem lockstep_step {c e : Console} {n : Nat} (h : c.beam.InRange)
    (he : c.settled? = some (n, e)) :
    Lockstep c (catchUp n e) (e.bus.ppu.droppedFrames (n * 3)) := by
  obtain ⟨hcycles, -, hstill, -⟩ := settled?_spec he
  have hbeam : e.beam = c.beam := hstill.beam
  have hrange : e.bus.ppu.beam.InRange := by
    rw [show e.bus.ppu.beam = c.beam from hbeam]
    exact h
  have hend : (catchUp n e).beam = (Ppu.ticks (n * 3) e.bus.ppu).beam := rfl
  have hframe : c.beam.frame = e.bus.ppu.beam.frame := by rw [← hbeam]; rfl
  refine ⟨?_, ?_, ?_, Ppu.pairwise_droppedFrames _ hrange, fun f hf => ?_⟩
  · rw [hend]
    exact Ppu.ticks_inRange _ hrange
  · rw [hend, Ppu.dots_ticks _ hrange, catchUp_cycles, hcycles, ← hbeam]
    show e.bus.ppu.beam.dots + n * 3 + _ + _ = e.bus.ppu.beam.dots + _ + _
    omega
  · rw [hend, hframe]
    exact Ppu.frame_le_ticks _ hrange
  · rw [hend, hframe]
    exact Ppu.mem_droppedFrames hrange hf

theorem lockstep_perform {c : Console} {a : HostAction} (ha : a.isPlay)
    (h : c.beam.InRange) (hok : a.succeeds c) :
    Lockstep c (a.perform c) (a.droppedFrames c) := by
  cases a with
  | insert image =>
    exact Lockstep.of_eq h (quiet_insertImage c image).beam
      (congrArg Cpu.cycles (insertImage_cpu c image))
  | reset => exact Lockstep.of_eq h rfl (reset_cycles c)
  | step =>
    obtain ⟨n, e, he, hperform⟩ := HostAction.perform_step hok
    have hlock := lockstep_step h he
    rw [hperform, HostAction.droppedFrames, he]
    exact hlock
  | _ => cases ha

theorem lockstep_after {c : Console} {actions : List HostAction} (h : c.beam.InRange)
    (hplay : ∀ a ∈ actions, a.isPlay) (hok : c.succeeds actions) :
    Lockstep c (c.after actions) (c.droppedFrames actions) := by
  induction actions generalizing c with
  | nil => exact Lockstep.refl h
  | cons a actions ih =>
    obtain ⟨hstep, hrest⟩ := succeeds_cons.1 hok
    have hfirst := lockstep_perform (hplay a List.mem_cons_self) h hstep
    exact hfirst.trans (ih hfirst.inRange (fun b hb => hplay b (List.mem_cons_of_mem _ hb)) hrest)

/-! ## Without rendering -/

theorem rendering_catchUp (n : Nat) (e : Console) :
    (catchUp n e).bus.ppu.regs.rendering = e.bus.ppu.regs.rendering :=
  Ppu.ticks_rendering _ _

theorem droppedFrames_perform {c : Console} {a : HostAction} (hok : a.succeeds c)
    (h : (a.perform c).bus.ppu.regs.rendering = false) : a.droppedFrames c = [] := by
  cases a with
  | step =>
    obtain ⟨n, e, he, hperform⟩ := HostAction.perform_step hok
    rw [hperform, rendering_catchUp] at h
    rw [HostAction.droppedFrames, he]
    exact Ppu.droppedFrames_of_not_rendering _ h
  | _ => rfl

/-- While nothing is rendered no frame loses a dot. -/
theorem droppedFrames_of_not_rendering {c : Console} {actions : List HostAction}
    (hok : c.succeeds actions)
    (h : ∀ k, (c.after (actions.take k)).bus.ppu.regs.rendering = false) :
    c.droppedFrames actions = [] := by
  induction actions generalizing c with
  | nil => rfl
  | cons a actions ih =>
    obtain ⟨hstep, hmore⟩ := succeeds_cons.1 hok
    have hfirst := droppedFrames_perform hstep (h 1)
    have hrest := ih hmore fun k => h (k + 1)
    rw [droppedFrames, hfirst, hrest]
    rfl

/-! ## The law -/

/-- From power-up on the beam makes three dots for every cycle of the processor and drops one
more in some odd frames : those that were rendered at the end of their last line. -/
theorem clocks_in_lockstep {start : Console}
    (hstart : start = .initial ∨ ∃ c : Console, start = c.powerUp) {actions : List HostAction}
    (hplay : ∀ a ∈ actions, a.isPlay) (hok : start.succeeds actions) :
    let c := start.after actions
    let dropped := start.droppedFrames actions
    let dots := 89342 * c.beam.frame + 341 * c.beam.scanline + c.beam.dot
    dots = 3 * c.cpu.cycles + dropped.length ∧
      dropped.Pairwise (· < ·) ∧ (∀ f ∈ dropped, f % 2 = 1 ∧ f < c.beam.frame) ∧
      3 * c.cpu.cycles ≤ dots ∧ dots ≤ 3 * c.cpu.cycles + c.beam.frame / 2 ∧
      ((∀ k, (start.after (actions.take k)).bus.ppu.regs.rendering = false) →
        dots = 3 * c.cpu.cycles) ∧
      ∀ n d, c.step = (.ok n, d) → d.cpu.cycles = c.cpu.cycles + n := by
  intro c dropped dots
  have hbegin : start.beam = .start ∧ start.cpu.cycles = 0 := by
    rcases hstart with rfl | ⟨c, rfl⟩ <;> exact ⟨rfl, rfl⟩
  obtain ⟨hbeam, hcycles⟩ := hbegin
  have hlock := lockstep_after (hbeam ▸ Beam.inRange_start) hplay hok
  have hdots : dots = 3 * c.cpu.cycles + dropped.length := by
    have h := hlock.dots
    rw [hbeam, hcycles, Beam.dots_eq, Beam.dots_eq] at h
    simpa [Beam.start] using h
  have hhalf : dropped.length ≤ c.beam.frame / 2 := by
    have h := length_le_of_odd hlock.sorted hlock.mem
    exact Nat.le_trans h (Nat.sub_le _ _)
  refine ⟨hdots, hlock.sorted, fun f hf => ?_, by omega, by omega, fun hno => ?_, fun n d => ?_⟩
  · obtain ⟨-, hlt, hodd⟩ := hlock.mem f hf
    exact ⟨hodd, hlt⟩
  · have hnone : dropped = [] := droppedFrames_of_not_rendering hok hno
    rw [hdots, hnone]
    rfl
  · exact cycles_of_step

/-- An empty cartridge reads as zero, so the reset leads to page zero and from there one BRK
to the next. -/
theorem clocks_in_lockstep_empty_cartridge :
    let image : ByteArray := ⟨#[0x4E, 0x45, 0x53, 0x1A, 0, 0, 0, 0, 0, 0, 0, 0, 0, 0, 0, 0]⟩
    let actions : List HostAction := [.insert image, .reset, .step, .step, .step]
    (∀ a ∈ actions, a.isPlay) ∧ initial.succeeds actions ∧
      (initial.after actions).cpu.cycles = 21 ∧
      89342 * (initial.after actions).beam.frame + 341 * (initial.after actions).beam.scanline +
          (initial.after actions).beam.dot =
        3 * 21 + (initial.droppedFrames actions).length := by
  intro image actions
  have hplay : ∀ a ∈ actions, a.isPlay := by simp [actions, HostAction.isPlay]
  have hok : initial.succeeds actions := by decide +kernel
  have hcycles : (initial.after actions).cpu.cycles = 21 := by decide +kernel
  have hlaw := (clocks_in_lockstep (Or.inl rfl) hplay hok).1
  rw [hcycles] at hlaw
  exact ⟨hplay, hok, hcycles, hlaw⟩

end Console

end Famicom
