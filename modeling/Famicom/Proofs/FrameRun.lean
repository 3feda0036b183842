import Famicom.Proofs.Bounds
import Famicom.Proofs.Cpu.Cost
import Famicom.Proofs.Lockstep
import Famicom.Proofs.Ram

/-!
# Running one frame

`runFrame` steps until the frame counter has changed, and that it ever does is not in its text.
It rests on both bounds of a step. A step takes two cycles at least, so the beam moves by six dots
and no frame has room for more than 14891 steps (`exists_lastStep`); and it takes 522 cycles at
most, eight of the processor and 514 of a transfer, so the step that leaves the frame ends in
the next one, less far from its start than the beam moved.

The loop itself is bounded by a number of steps. The bound plays no part as long as the loop comes
to its last step before it (`LastStep.runWhile_eq`), so `runFrame_runs_one_frame` holds of a loop
without one.

A processor that jumps to itself is an example of a run without a failure, however long (`Idles`).
-/

namespace Famicom

namespace Console

/-! ## The beam over one step -/

theorem cycles_of_settled {c e : Console} {n : Nat} (h : c.settled? = some (n, e)) :
    2 ≤ n ∧ n ≤ 522 := by
  obtain ⟨cycles, d, stall, hstep, htransfer, rfl⟩ := settled?_eq_some h
  have hleast := CpuM.two_le_step hstep
  have hmost := CpuM.step_le_eight hstep
  have hstall := (serveTransfer_spec htransfer).2.1
  omega

/-- A step moves the beam by three dots a cycle, within the frame or into the next one. -/
theorem beam_of_step {c d : Console} {n : Nat} (h : c.step = (.ok n, d)) (hc : c.beam.InRange) :
    d.beam.InRange ∧ 2 ≤ n ∧ n ≤ 522 ∧
      (d.beam.frame = c.beam.frame ∧ d.beam.dotsInFrame = c.beam.dotsInFrame + 3 * n ∨
        d.beam.frame = c.beam.frame + 1 ∧ d.beam.dotsInFrame < 3 * n) := by
  obtain ⟨e, he, rfl⟩ := step_eq_ok.1 h
  obtain ⟨hleast, hmost⟩ := cycles_of_settled he
  have hstands : e.bus.ppu.beam = c.beam := (settled?_spec he).2.2.1.beam
  have hbeam : (catchUp n e).beam = (Ppu.ticks (n * dotsPerCycle) e.bus.ppu).beam := rfl
  rw [← hstands] at hc ⊢
  have hcases := Ppu.ticks_frame_cases (n := n * dotsPerCycle) hc (by
    simp only [dotsPerCycle]
    omega)
  rw [hbeam, Nat.mul_comm 3]
  exact ⟨Ppu.ticks_inRange _ hc, hleast, hmost, hcases⟩

/-! ## Steps in a row -/

/-- The console after a number of steps, whether they failed or not. -/
def stepped : Nat → Console → Console
  | 0, c => c
  | k + 1, c => stepped k c.step.2

/-- What the step after these answers. -/
def answerAt (c : Console) (k : Nat) : Except ConsoleFault Nat := (c.stepped k).step.1

theorem stepped_add (j k : Nat) (c : Console) : c.stepped (j + k) = (c.stepped j).stepped k := by
  induction j generalizing c with
  | zero => rw [Nat.zero_add, stepped]
  | succ j ih => rw [Nat.succ_add, stepped, stepped, ih]

theorem stepped_succ (k : Nat) (c : Console) : c.stepped (k + 1) = (c.stepped k).step.2 :=
  stepped_add k 1 c

variable {c : Console}

/-- Over steps that succeed the clocks keep together. -/
theorem lockstep_stepped {k : Nat} (h : c.beam.InRange)
    (hok : ∀ j < k, ∃ n, c.answerAt j = .ok n) :
    ∃ dropped, Lockstep c (c.stepped k) dropped := by
  induction k with
  | zero => exact ⟨[], .refl h⟩
  | succ k ih =>
    obtain ⟨dropped, hlock⟩ := ih fun j hj => hok j (hj.trans k.lt_succ_self)
    obtain ⟨n, hn⟩ := hok k k.lt_succ_self
    obtain ⟨e, he, hstep⟩ := settled?_of_ok hn
    rw [stepped_succ, hstep]
    exact ⟨_, hlock.trans (lockstep_step hlock.inRange he)⟩

/-! ## A jump to itself -/

/-- In work RAM the processor is at a jump to itself, and nothing interrupts it. -/
structure Idles (c : Console) : Prop where
  inRam : c.cpu.pc ≤ 0x1FFD
  code : ∃ lo hi, word lo hi = c.cpu.pc ∧
    (addressesFrom c.cpu.pc 3).map (byteAt c.bus) = [0x4C, lo, hi]
  pending : c.cpu.pending = none
  noTransfer : c.bus.transferRequest = none
  disabled : c.bus.ppu.regs.interruptEnabled = false
  noRequest : c.bus.ppu.requesting = false

namespace Idles

theorem addresses_le (h : c.Idles) : ∀ a ∈ addressesFrom c.cpu.pc 3, a ≤ 0x1FFF := by
  have hpc := h.inRam
  simp only [addressesFrom, List.forall_mem_cons, UInt16.le_iff_toNat_le, UInt16.toNat_add,
    UInt16.reduceToNat] at hpc ⊢
  refine ⟨?_, ?_, ?_, List.forall_mem_nil _⟩ <;> omega

/-- The jump is made. -/
theorem settled (h : c.Idles) : ∃ d : Console, c.settled? = some (3, d) ∧ d.bus = c.bus ∧
    d.cpu.pc = c.cpu.pc ∧ d.cpu.pending = none := by
  obtain ⟨lo, hi, hself, hcode⟩ := h.code
  have hserved : c.cpu.served = none := by rw [Cpu.served, h.pending]
  have hreads : Reads (addressesFrom c.cpu.pc 3) [0x4C, lo, hi] c.bus c.bus :=
    hcode ▸ .of_forall fun a ha => Board.IsMemory.read (.inl (h.addresses_le a ha))
  let jump : Instruction := .plain 0x4C .jmp .absolute 3
  have hfetched : CpuM.Fetched c jump [lo, hi] [] c.bus := ⟨rfl, c.bus, hreads, .nil _⟩
  obtain ⟨n, d, hstep⟩ := CpuM.step_of_fetched hserved hfetched rfl
  obtain ⟨i, bytes, pointer, b, extra, e, hfetched', hrun, rfl, rfl⟩ :=
    CpuM.step_executed hserved hstep
  obtain ⟨rfl, rfl, rfl, rfl⟩ := hfetched.unique hfetched'
  cases hrun
  exact ⟨_, settled?_of_no_transfer hstep h.noTransfer, rfl, hself, h.pending⟩

/-- The processor is where it was. -/
theorem step (h : c.Idles) : c.answerAt 0 = .ok 3 ∧ c.step.2.Idles := by
  obtain ⟨d, hd, hbus, hpc, hpending⟩ := h.settled
  have hstep : c.step = (.ok 3, catchUp 3 d) := step_eq_ok.2 ⟨d, hd, rfl⟩
  have hquiet : (Ppu.ticks (3 * dotsPerCycle) d.bus.ppu).requesting = false := by
    rw [hbus, Ppu.ticks_requesting_of_disabled h.disabled, h.noRequest]
  have hafter : (catchUp 3 d).cpu = d.cpu := by rw [catchUp_cpu, hquiet]; rfl
  refine ⟨congrArg Prod.fst hstep, ?_⟩
  rw [hstep]
  constructor
  case inRam =>
    rw [hafter, hpc]
    exact h.inRam
  case code =>
    have hram : (catchUp 3 d).bus.ram = c.bus.ram := by
      rw [← hbus]
      rfl
    have hbytes : ∀ a ∈ addressesFrom c.cpu.pc 3,
        byteAt (catchUp 3 d).bus a = byteAt c.bus a := fun a ha => by
      rw [Board.byteAt_ram (h.addresses_le a ha), Board.byteAt_ram (h.addresses_le a ha), hram]
    rw [hafter, hpc, List.map_congr_left hbytes]
    exact h.code
  case pending => rw [hafter, hpending]
  case noTransfer => exact (congrArg Board.transferRequest hbus).trans h.noTransfer
  case disabled =>
    rw [catchUp_ppu, Ppu.ticks_interruptEnabled, hbus]
    exact h.disabled
  case noRequest => rfl

theorem stepped (h : c.Idles) (k : Nat) : (c.stepped k).Idles := by
  induction k with
  | zero => exact h
  | succ k ih =>
    rw [stepped_succ]
    exact ih.step.2

theorem answerAt (h : c.Idles) (k : Nat) : c.answerAt k = .ok 3 :=
  (h.stepped k).step.1

theorem cycles_stepped (h : c.Idles) (k : Nat) :
    (c.stepped k).cpu.cycles = c.cpu.cycles + 3 * k := by
  induction k with
  | zero => rfl
  | succ k ih =>
    have hstep : (c.stepped k).step = (.ok 3, c.stepped (k + 1)) :=
      Prod.ext (h.answerAt k) (stepped_succ k c).symm
    rw [cycles_of_step hstep, ih, Nat.mul_succ, Nat.add_assoc]

/-- From the start of frame 0 it is the jump number 9927 that leads into the next frame. -/
theorem stepped_behind_frame (h : c.Idles) (hbeam : c.beam = .start) {k : Nat}
    (hframe : (c.stepped k).beam.frame = 1) (hedge : (c.stepped k).beam.dotsInFrame < 9) :
    k = 9927 ∧ (c.stepped k).beam.dotsInFrame = 1 := by
  obtain ⟨dropped, hlock⟩ := lockstep_stepped (k := k) (hbeam ▸ Beam.inRange_start)
    fun j _ => ⟨3, h.answerAt j⟩
  -- frame 0 is even, so it keeps its last dot
  have hall : dropped = [] := by
    refine List.eq_nil_iff_forall_not_mem.2 fun f hf => ?_
    obtain ⟨-, hlt, hodd⟩ := hlock.mem f hf
    omega
  have htogether := hlock.dots
  rw [hall, List.length_nil, h.cycles_stepped, hbeam, Beam.dots, hframe] at htogether
  have hframeLength : Beam.dotsPerFrame = 89342 := rfl
  have hstart : Beam.start.dots = 0 := rfl
  omega

end Idles

/-! ## The loop -/

variable {going : Console → Bool}

/-- Rounds of the loop whose steps succeed are steps in a row, and the cycles of the run are those
of the clock. -/
theorem continueWhile_of_rounds (k limit steps cycles : Nat)
    (hgoing : ∀ j < k, going (c.stepped j)) (hok : ∀ j < k, ∃ n, c.answerAt j = .ok n) :
    ∃ total, (c.stepped k).cpu.cycles = c.cpu.cycles + total ∧
      Run.continueWhile going (k + limit) ⟨steps, cycles, none, c⟩ =
        Run.continueWhile going limit ⟨steps + k, cycles + total, none, c.stepped k⟩ := by
  induction k generalizing c steps cycles with
  | zero => exact ⟨0, rfl, by rw [Nat.zero_add]; rfl⟩
  | succ k ih =>
    obtain ⟨n, hn⟩ := hok 0 (Nat.succ_pos k)
    have hstep : c.step = (.ok n, c.step.2) := Prod.ext hn rfl
    obtain ⟨total, hclock, hrest⟩ := ih (c := c.step.2) (steps + 1) (cycles + n)
      (fun j hj => hgoing (j + 1) (Nat.succ_lt_succ hj))
      (fun j hj => hok (j + 1) (Nat.succ_lt_succ hj))
    refine ⟨n + total, ?_, ?_⟩
    · rw [stepped, hclock, cycles_of_step hstep, Nat.add_assoc]
    · have hfirst : going c := hgoing 0 (Nat.succ_pos k)
      rw [Nat.succ_add, Run.continueWhile, if_pos hfirst, hstep]
      simp only
      rw [hrest, stepped, Nat.add_assoc steps, Nat.add_comm 1, Nat.add_assoc cycles]

/-- A step that fails ends the loop. -/
theorem continueWhile_of_error {fault : ConsoleFault} (limit : Nat) {steps cycles : Nat}
    (hgoing : going c) (herror : c.step.1 = .error fault) :
    Run.continueWhile going (limit + 1) ⟨steps, cycles, none, c⟩ =
      ⟨steps, cycles, some fault, c.step.2⟩ := by
  have hstep : c.step = (.error fault, c.step.2) := Prod.ext herror rfl
  rw [Run.continueWhile, if_pos hgoing, hstep]

theorem continueWhile_of_not_going (limit : Nat) {r : Run} (h : ¬ going r.console) :
    Run.continueWhile going limit r = r := by
  cases limit with
  | zero => rfl
  | succ limit => rw [Run.continueWhile, if_neg h]

/-! ## One frame -/

/-- The last step of the frame of `c`, counted from zero : the first one that fails or leaves the
frame. -/
structure LastStep (c : Console) (k : Nat) : Prop where
  inFrame : ∀ j ≤ k, (c.stepped j).beam.frame = c.beam.frame
  succeed : ∀ j < k, ∃ n, c.answerAt j = .ok n
  leaves : ∀ m, c.answerAt k = .ok m → m ≤ 522 ∧
    (c.stepped (k + 1)).beam.frame = c.beam.frame + 1 ∧
    (c.stepped (k + 1)).beam.dotsInFrame < 3 * m

namespace LastStep

theorem first (h : ∀ m, c.step.1 = .ok m → m ≤ 522 ∧ c.step.2.beam.frame = c.beam.frame + 1 ∧
    c.step.2.beam.dotsInFrame < 3 * m) : LastStep c 0 where
  inFrame j hj := by
    obtain rfl := Nat.le_zero.1 hj
    rfl
  succeed j hj := absurd hj (Nat.not_lt_zero j)
  leaves := h

theorem later {d : Console} {k n : Nat} (hstep : c.step = (.ok n, d))
    (hframe : d.beam.frame = c.beam.frame) (h : LastStep d k) : LastStep c (k + 1) := by
  have hnext (j : Nat) : c.stepped (j + 1) = d.stepped j := by rw [stepped, hstep]
  have hanswer (j : Nat) : c.answerAt (j + 1) = d.answerAt j := by rw [answerAt, hnext, answerAt]
  constructor
  · intro j hj
    cases j with
    | zero => rfl
    | succ j => rw [hnext, h.inFrame j (Nat.le_of_succ_le_succ hj), hframe]
  · intro j hj
    cases j with
    | zero => exact ⟨n, congrArg Prod.fst hstep⟩
    | succ j =>
      rw [hanswer]
      exact h.succeed j (Nat.lt_of_succ_lt_succ hj)
  · intro m hm
    rw [hanswer] at hm
    rw [hnext, ← hframe]
    exact h.leaves m hm

end LastStep

/-- There is a last step, and the beam has room for those before it. -/
theorem exists_lastStep (h : c.beam.InRange) :
    ∃ k, c.beam.dotsInFrame + 6 * k < 89342 ∧ LastStep c k := by
  have hroom := h.dotsInFrame_lt
  -- a step that stays in the frame leaves less of it
  induction hleft : 89342 - c.beam.dotsInFrame using Nat.strong_induction_on generalizing c with
  | _ left ih =>
    cases hanswer : c.step.1 with
    | error fault =>
      exact ⟨0, hroom, .first fun m hm => by rw [hanswer] at hm; cases hm⟩
    | ok n =>
      have hstep : c.step = (.ok n, c.step.2) := Prod.ext hanswer rfl
      obtain ⟨hrange, hleast, hmost, ⟨hframe, hdots⟩ | ⟨hframe, hdots⟩⟩ := beam_of_step hstep h
      · obtain ⟨k, hk, hlast⟩ := ih _ (by omega) hrange hrange.dotsInFrame_lt rfl
        exact ⟨k + 1, by omega, hlast.later hstep hframe⟩
      · refine ⟨0, hroom, .first fun m hm => ?_⟩
        rw [hanswer] at hm
        cases hm
        exact ⟨hmost, hframe, hdots⟩

theorem inFrameOf_iff {d : Console} : c.inFrameOf d ↔ d.beam.frame = c.beam.frame := by
  rw [inFrameOf, beq_iff_eq]

/-- How the loop ends, for any bound that lets it come to its last step. -/
theorem runWhile_of_lastStep {k limit : Nat} (h : LastStep c k) (hlimit : k < limit) :
    ∃ total, (c.stepped k).cpu.cycles = c.cpu.cycles + total ∧
      c.runWhile c.inFrameOf limit =
        match c.answerAt k with
        | .error fault => ⟨k, total, some fault, c.stepped (k + 1)⟩
        | .ok m => ⟨k + 1, total + m, none, c.stepped (k + 1)⟩ := by
  obtain ⟨rest, rfl⟩ := Nat.exists_eq_add_of_lt hlimit
  have hgoing (j : Nat) (hj : j ≤ k) : c.inFrameOf (c.stepped j) :=
    inFrameOf_iff.2 (h.inFrame j hj)
  obtain ⟨total, hclock, hrounds⟩ := continueWhile_of_rounds k (rest + 1) 0 0
    (fun j hj => hgoing j hj.le) h.succeed
  refine ⟨total, hclock, ?_⟩
  rw [runWhile, Nat.add_assoc, hrounds, Nat.zero_add, Nat.zero_add, stepped_succ]
  cases hanswer : c.answerAt k with
  | error fault => exact continueWhile_of_error rest (hgoing k le_rfl) hanswer
  | ok m =>
    have hstep : (c.stepped k).step = (.ok m, c.stepped (k + 1)) :=
      Prod.ext hanswer (stepped_succ k c).symm
    have hout : ¬ c.inFrameOf (c.stepped (k + 1)) := by
      rw [inFrameOf_iff, (h.leaves m hanswer).2.1]
      exact Nat.succ_ne_self _
    have hlast := hgoing k le_rfl
    rw [Run.continueWhile, if_pos hlast, hstep]
    exact continueWhile_of_not_going rest hout

namespace LastStep

variable {k : Nat}

/-- Only the last step can have failed. -/
theorem failed_iff (h : LastStep c k) {fault : ConsoleFault} :
    (∃ j ≤ k, c.answerAt j = .error fault) ↔ c.answerAt k = .error fault := by
  constructor
  · rintro ⟨j, hj, herror⟩
    rcases hj.lt_or_eq with hlt | rfl
    · obtain ⟨n, hn⟩ := h.succeed j hlt
      rw [hn] at herror
      cases herror
    · exact herror
  · exact fun herror => ⟨k, le_rfl, herror⟩

theorem runFrame_of_error (h : LastStep c k) (hk : k < frameLimit) {fault : ConsoleFault}
    (herror : c.answerAt k = .error fault) : c.runFrame = (.error fault, c.stepped (k + 1)) := by
  obtain ⟨total, -, hrun⟩ := runWhile_of_lastStep h hk
  rw [herror] at hrun
  simp only [runFrame, hrun]

/-- The answer is what the clock has advanced by. -/
theorem runFrame_of_ok (h : LastStep c k) (hk : k < frameLimit) {m : Nat}
    (hok : c.answerAt k = .ok m) : ∃ n, c.runFrame = (.ok n, c.stepped (k + 1)) ∧
      (c.stepped (k + 1)).cpu.cycles = c.cpu.cycles + n := by
  obtain ⟨total, hclock, hrun⟩ := runWhile_of_lastStep h hk
  rw [hok] at hrun
  have hstep : (c.stepped k).step = (.ok m, c.stepped (k + 1)) :=
    Prod.ext hok (stepped_succ k c).symm
  refine ⟨total + m, by simp only [runFrame, hrun], ?_⟩
  rw [cycles_of_step hstep, hclock, Nat.add_assoc]

theorem runFrame_snd (h : LastStep c k) (hk : k < frameLimit) :
    c.runFrame.2 = c.stepped (k + 1) := by
  cases hanswer : c.answerAt k with
  | error fault => rw [h.runFrame_of_error hk hanswer]
  | ok m =>
    obtain ⟨n, hrun, -⟩ := h.runFrame_of_ok hk hanswer
    rw [hrun]

theorem runFrame_eq_error_iff (h : LastStep c k) (hk : k < frameLimit) {fault : ConsoleFault} :
    c.runFrame.1 = .error fault ↔ c.answerAt k = .error fault := by
  cases hanswer : c.answerAt k with
  | error fault => rw [h.runFrame_of_error hk hanswer]
  | ok m =>
    obtain ⟨n, hrun, -⟩ := h.runFrame_of_ok hk hanswer
    rw [hrun]
    exact iff_of_false nofun nofun

theorem runFrame_eq_ok (h : LastStep c k) (hk : k < frameLimit) {n : Nat}
    (hn : c.runFrame.1 = .ok n) :
    (c.stepped (k + 1)).cpu.cycles = c.cpu.cycles + n ∧ ∃ m, c.answerAt k = .ok m := by
  cases hanswer : c.answerAt k with
  | error fault =>
    rw [h.runFrame_of_error hk hanswer] at hn
    cases hn
  | ok m =>
    obtain ⟨n', hrun, hclock⟩ := h.runFrame_of_ok hk hanswer
    rw [hrun] at hn
    cases hn
    exact ⟨hclock, m, rfl⟩

/-- Two bounds that let the loop come to its last step make no difference. -/
theorem runWhile_eq (h : LastStep c k) {limit more : Nat} (hlimit : k < limit) (hmore : k < more) :
    c.runWhile c.inFrameOf limit = c.runWhile c.inFrameOf more := by
  obtain ⟨total, hclock, hrun⟩ := runWhile_of_lastStep h hlimit
  obtain ⟨total', hclock', hrun'⟩ := runWhile_of_lastStep h hmore
  obtain rfl : total = total' := by omega
  rw [hrun, hrun']

end LastStep

/-- However the console came to be as it is, running a frame makes `k + 1` steps, no more than
14891, and all are made in the frame. Only the last can fail, and then that is the answer. Otherwise
the next frame has begun in it and the answer is what the clock has advanced by. The bound of the
loop has no part in this. -/
theorem runFrame_runs_one_frame (operations : List Operation) :
    let c := initial.afterAll operations
    ∃ k < 14891,
      (∀ j ≤ k, (c.stepped j).beam.frame = c.beam.frame) ∧
      (∀ j < k, ∃ n, c.answerAt j = .ok n) ∧
      c.runFrame.2 = c.stepped (k + 1) ∧
      (∀ fault, c.runFrame.1 = .error fault ↔ ∃ j ≤ k, c.answerAt j = .error fault) ∧
      (∀ n, c.runFrame.1 = .ok n → c.runFrame.2.cpu.cycles = c.cpu.cycles + n ∧
        c.runFrame.2.beam.frame = c.beam.frame + 1 ∧
        ∃ m, c.answerAt k = .ok m ∧
          341 * c.runFrame.2.beam.scanline + c.runFrame.2.beam.dot < 3 * m ∧
          341 * c.runFrame.2.beam.scanline + c.runFrame.2.beam.dot < 1566) ∧
      ∀ limit, 14891 ≤ limit →
        c.runWhile c.inFrameOf limit = c.runWhile c.inFrameOf frameLimit := by
  intro c
  have hrange : c.beam.InRange := (Ppu.kept_bounded.afterAll operations).beam
  obtain ⟨k, hroom, hlast⟩ := exists_lastStep hrange
  have hfew : k < 14891 := by omega
  have hk : k < frameLimit := hfew.trans_le (by decide)
  refine ⟨k, hfew, hlast.inFrame, hlast.succeed, hlast.runFrame_snd hk, fun fault => ?_,
    fun n hn => ?_, fun limit hlimit => hlast.runWhile_eq (hfew.trans_le hlimit) hk⟩
  · rw [hlast.failed_iff, hlast.runFrame_eq_error_iff hk]
  · obtain ⟨hclock, m, hm⟩ := hlast.runFrame_eq_ok hk hn
    obtain ⟨hmost, hframe, hdots⟩ := hlast.leaves m hm
    rw [hlast.runFrame_snd hk]
    exact ⟨hclock, hframe, m, hm, hdots, hdots.trans_le (Nat.mul_le_mul_left 3 hmost)⟩

/-- The first frame of a processor that jumps to itself at address 0. -/
theorem runFrame_runs_one_frame_jump_to_itself :
    ∃ d, (initial.afterAll [.host (.write 0 0x4C)]).runFrame = (.ok 29781, d) ∧
      d.beam.frame = 1 ∧ d.beam.dotsInFrame = 1 := by
  have hidles : (initial.afterAll [.host (.write 0 0x4C)]).Idles :=
    ⟨by decide, ⟨0, 0, rfl, by decide +kernel⟩, rfl, rfl, by decide, rfl⟩
  have hbeam : (initial.afterAll [.host (.write 0 0x4C)]).beam = .start := rfl
  obtain ⟨k, -, -, -, hend, hfails, hends, -⟩ := runFrame_runs_one_frame [.host (.write 0 0x4C)]
  cases hanswer : (initial.afterAll [.host (.write 0 0x4C)]).runFrame.1 with
  | error fault =>
    obtain ⟨j, -, herror⟩ := (hfails fault).1 hanswer
    rw [hidles.answerAt] at herror
    cases herror
  | ok n =>
    obtain ⟨hclock, hframe, m, hm, hedge, -⟩ := hends n hanswer
    rw [hidles.answerAt] at hm
    cases hm
    rw [hbeam] at hframe
    rw [hend] at hclock hframe hedge
    obtain ⟨hk, hdot⟩ := hidles.stepped_behind_frame hbeam hframe hedge
    rw [hidles.cycles_stepped] at hclock
    obtain rfl : n = 29781 := by omega
    exact ⟨_, Prod.ext hanswer hend, hframe, hdot⟩

end Console

end Famicom
