import Famicom.Proofs.Cpu.Cost
import Famicom.Proofs.Cpu.Fault
import Famicom.Proofs.Lockstep

/-!
# Steps that fail

A step of the console fails in one of two places. Either the processor's step breaks off, and
then nothing was charged; or an instruction is complete and charged, and the page that it asks to
be copied cannot be read. The beam stands in both, for it catches up at the end of a step alone.

So the clocks stay together in the first case and part in the second : the beam stays behind by
three dots for every cycle of the instruction (`step_error_clocks`). The host may go on after a
fault. Nothing makes up for the dots then, and over a run the beam is behind by the cycles of all
those instructions (`unmatchedCycles`, `clocks_behind`).
-/

namespace Famicom

namespace Console

/-! ## The two places -/

theorem serveTransfer_eq_error {c d : Console} {fault : ConsoleFault}
    (h : serveTransfer c = (.error fault, d)) :
    d.cpu = c.cpu ∧ ∃ page refusal, c.bus.transferRequest = some page ∧
      fault = .transfer page refusal ∧
      (readBlock 256 (word 0 page) { c.bus with transferRequest := none }).1 = .error refusal := by
  unfold serveTransfer at h
  cases hrequest : c.bus.transferRequest with
  | none =>
    rw [hrequest] at h
    cases h
  | some page =>
    rw [hrequest] at h
    simp only [transfer] at h
    rcases hblock : readBlock 256 (word 0 page) { c.bus with transferRequest := none } with
      ⟨refusal | bytes, board⟩ <;> rw [hblock] at h <;> cases h
    exact ⟨rfl, page, refusal, rfl, rfl, congrArg Prod.fst hblock⟩

theorem step_eq_error {c d : Console} {fault : ConsoleFault} :
    c.step = (.error fault, d) ↔
      (∃ f, fault = .cpu f ∧ CpuM.step c = .error f d) ∨
        ∃ n e, CpuM.step c = .ok n e ∧ serveTransfer e = (.error fault, d) := by
  unfold step
  cases CpuM.step c with
  | error f e =>
    constructor
    · rintro ⟨⟩
      exact Or.inl ⟨f, rfl, rfl⟩
    · rintro (⟨_, rfl, ⟨⟩⟩ | ⟨_, _, ⟨⟩, _⟩)
      rfl
  | ok n e =>
    simp only [EStateM.Result.ok.injEq, reduceCtorEq, and_false, exists_false, false_or]
    constructor
    · intro h
      rcases htransfer : serveTransfer e with ⟨_ | stall, e'⟩ <;> simp only [htransfer] at h
      · exact ⟨n, e, ⟨rfl, rfl⟩, htransfer.trans h⟩
      · cases h
    · rintro ⟨_, _, ⟨rfl, rfl⟩, htransfer⟩
      simp only [htransfer]

theorem settled?_of_error {c d : Console} {fault : ConsoleFault} (h : c.step = (.error fault, d)) :
    c.settled? = none := by
  cases hsettled : c.settled? with
  | none => rfl
  | some p =>
    have hok := step_eq_ok.2 ⟨p.2, hsettled, rfl⟩
    rw [h] at hok
    cases hok

/-- Where the beam and the clock stand after a step that fails. -/
theorem step_error_clocks {c d : Console} {fault : ConsoleFault} (h : c.step = (.error fault, d)) :
    d.beam = c.beam ∧
      ((∃ f, fault = .cpu f ∧ CpuM.step c = .error f d ∧ d.cpu.cycles = c.cpu.cycles) ∨
        ∃ page refusal n e, fault = .transfer page refusal ∧ CpuM.step c = .ok n e ∧
          serveTransfer e = (.error fault, d) ∧ d.cpu.cycles = c.cpu.cycles + n) := by
  have hleft := still_left_step c
  rcases step_eq_error.1 h with ⟨f, rfl, hstep⟩ | ⟨n, e, hstep, htransfer⟩
  · rw [CpuM.left_of_error hstep] at hleft
    have hcycles : d.cpu.cycles = c.cpu.cycles :=
      congrArg (·.2.2.2.1) (CpuM.step_error_lasting hstep)
    exact ⟨hleft.beam, Or.inl ⟨f, rfl, hstep, hcycles⟩⟩
  · rw [CpuM.left_of_ok hstep] at hleft
    have hquiet := quiet_serveTransfer e
    rw [htransfer] at hquiet
    obtain ⟨hcpu, page, refusal, -, rfl, -⟩ := serveTransfer_eq_error htransfer
    obtain ⟨hcycles, -⟩ := CpuM.step_of_ok routine_still hstep
    refine ⟨(hleft.trans hquiet.toStill).beam,
      Or.inr ⟨page, refusal, n, e, rfl, hstep, htransfer, ?_⟩⟩
    rw [hcpu, hcycles]

end Console

/-! ## Runs -/

namespace HostAction

/-- The cycles of a step for which the beam does not move : those of an instruction whose transfer
is refused. -/
def unmatchedCycles (c : Console) : HostAction → Nat
  | step =>
    match CpuM.step c with
    | .error .. => 0
    | .ok cycles d =>
      match Console.serveTransfer d with
      | (.error _, _) => cycles
      | (.ok _, _) => 0
  | _ => 0

theorem unmatchedCycles_of_succeeds {c : Console} {a : HostAction} (h : a.succeeds c) :
    a.unmatchedCycles c = 0 := by
  cases a with
  | step =>
    obtain ⟨n, e, he, -⟩ := perform_step h
    obtain ⟨cycles, d, stall, hstep, htransfer, -⟩ := Console.settled?_eq_some he
    simp only [unmatchedCycles, hstep, htransfer]
  | _ => rfl

/-- A step that fails charges what it leaves unmatched. -/
theorem cycles_of_step_error {c d : Console} {fault : ConsoleFault}
    (h : c.step = (.error fault, d)) :
    d.cpu.cycles = c.cpu.cycles + step.unmatchedCycles c := by
  obtain ⟨-, ⟨f, -, hstep, hcycles⟩ | ⟨page, refusal, n, e, -, hstep, htransfer, hcycles⟩⟩ :=
    Console.step_error_clocks h
  · simpa only [unmatchedCycles, hstep, Nat.add_zero] using hcycles
  · simpa only [unmatchedCycles, hstep, htransfer] using hcycles

end HostAction

namespace Console

/-- The cycles in a run for which the beam did not move. -/
def unmatchedCycles : Console → List HostAction → Nat
  | _, [] => 0
  | c, a :: actions => a.unmatchedCycles c + unmatchedCycles (a.perform c) actions

theorem dots_perform {c : Console} {a : HostAction} (ha : a.isPlay) (h : c.beam.InRange) :
    (a.perform c).beam.InRange ∧
      (a.perform c).beam.dots + 3 * (c.cpu.cycles + a.unmatchedCycles c) =
        c.beam.dots + 3 * (a.perform c).cpu.cycles + (a.droppedFrames c).length := by
  by_cases hok : a.succeeds c
  · have hlock := lockstep_perform ha h hok
    rw [HostAction.unmatchedCycles_of_succeeds hok]
    exact ⟨hlock.inRange, hlock.dots⟩
  · cases a with
    | step =>
      rcases hstep : c.step with ⟨fault | n, d⟩
      -- Nothing catches up, so no frame can drop a dot either.
      · have hbeam := (step_error_clocks hstep).1
        have hcycles := HostAction.cycles_of_step_error hstep
        have hperform : HostAction.step.perform c = d := congrArg Prod.snd hstep
        rw [hperform, HostAction.droppedFrames, settled?_of_error hstep, hbeam, hcycles]
        exact ⟨h, rfl⟩
      · rw [HostAction.succeeds, hstep] at hok
        exact absurd rfl hok
    | _ => exact absurd rfl hok

theorem dots_after {c : Console} {actions : List HostAction} (h : c.beam.InRange)
    (hplay : ∀ a ∈ actions, a.isPlay) :
    (c.after actions).beam.dots + 3 * (c.cpu.cycles + c.unmatchedCycles actions) =
      c.beam.dots + 3 * (c.after actions).cpu.cycles + (c.droppedFrames actions).length := by
  induction actions generalizing c with
  | nil => rfl
  | cons a actions ih =>
    obtain ⟨hrange, hfirst⟩ := dots_perform (hplay a List.mem_cons_self) h
    have hrest := ih hrange fun b hb => hplay b (List.mem_cons_of_mem _ hb)
    rw [after_cons, unmatchedCycles, droppedFrames, List.length_append]
    omega

/-- Whatever fails on the way, the beam is behind the clock of the processor by three dots for every
unmatched cycle, and ahead by one for every frame that dropped its last dot. -/
theorem clocks_behind {start : Console}
    (hstart : start = .initial ∨ ∃ c : Console, start = c.powerUp) {actions : List HostAction}
    (hplay : ∀ a ∈ actions, a.isPlay) :
    (start.after actions).beam.dots + 3 * start.unmatchedCycles actions =
      3 * (start.after actions).cpu.cycles + (start.droppedFrames actions).length := by
  have hbegin : start.beam = .start ∧ start.cpu.cycles = 0 := by
    rcases hstart with rfl | ⟨c, rfl⟩ <;> exact ⟨rfl, rfl⟩
  obtain ⟨hbeam, hcycles⟩ := hbegin
  have hdots := dots_after (hbeam ▸ Beam.inRange_start) hplay
  rw [hbeam, hcycles, show Beam.start.dots = 0 from rfl] at hdots
  omega

/-! ## One step -/

/-- After a step that fails the beam stands. The clocks are together still if the processor faulted,
and only then : a refused transfer leaves the cycles of its instruction unmatched. -/
theorem clocks_after_fault {c d : Console} {fault : ConsoleFault} (h : c.step = (.error fault, d)) :
    d.beam = c.beam ∧
      (d.beam.dots - c.beam.dots = 3 * (d.cpu.cycles - c.cpu.cycles) ↔ ∃ f, fault = .cpu f) ∧
      ((∃ f, fault = .cpu f ∧ d.cpu.cycles = c.cpu.cycles) ∨
        ∃ page refusal n e, fault = .transfer page refusal ∧ CpuM.step c = .ok n e ∧
          2 ≤ n ∧ n ≤ 8 ∧ d.cpu.cycles = c.cpu.cycles + n) := by
  obtain ⟨hbeam, ⟨f, rfl, -, hcycles⟩ | ⟨page, refusal, n, e, rfl, hstep, -, hcycles⟩⟩ :=
    step_error_clocks h
  · refine ⟨hbeam, ?_, Or.inl ⟨f, rfl, hcycles⟩⟩
    simp [hbeam, hcycles]
  · have htwo := CpuM.two_le_step hstep
    have hmost := CpuM.step_le_eight hstep
    refine ⟨hbeam, ?_, Or.inr ⟨page, refusal, n, e, rfl, hstep, htwo, hmost, hcycles⟩⟩
    rw [hbeam, hcycles, Nat.sub_self]
    constructor
    · exact fun hdots => by omega
    · rintro ⟨_, ⟨⟩⟩

/-- Before a write to 4014 that asks for page 50, where nothing is. -/
def beforeRefusedTransfer : Console :=
  initial.after [.write 0 0xA9, .write 1 0x50, .write 2 0x8D, .write 3 0x14, .write 4 0x40, .step]

theorem beforeRefusedTransfer_step :
    beforeRefusedTransfer.step.1 = .error (.transfer 0x50 ⟨.read, 0x5000⟩) :=
  rfl

theorem clocks_after_fault_unreadable_page :
    ∃ d, beforeRefusedTransfer.step = (.error (.transfer 0x50 ⟨.read, 0x5000⟩), d) ∧
      d.beam = beforeRefusedTransfer.beam ∧
      d.cpu.cycles = beforeRefusedTransfer.cpu.cycles + 4 := by
  have hcycles : beforeRefusedTransfer.step.2.cpu.cycles =
      beforeRefusedTransfer.cpu.cycles + 4 := by
    decide +kernel
  have hstep : beforeRefusedTransfer.step = (.error _, beforeRefusedTransfer.step.2) :=
    Prod.ext beforeRefusedTransfer_step rfl
  exact ⟨_, hstep, (clocks_after_fault hstep).1, hcycles⟩

/-- Not every step that fails keeps the clocks together. -/
theorem clocks_apart_after_fault :
    ¬∀ (c d : Console) (fault : ConsoleFault), c.Reachable → c.step = (.error fault, d) →
      d.beam.dots - c.beam.dots = 3 * (d.cpu.cycles - c.cpu.cycles) := by
  intro h
  have heq := h _ _ _ ⟨_, rfl⟩ (Prod.ext beforeRefusedTransfer_step rfl)
  revert heq
  decide +kernel

end Console

end Famicom
