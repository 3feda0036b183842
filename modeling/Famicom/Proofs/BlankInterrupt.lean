import Famicom.Proofs.Cpu.Recording
import Famicom.Proofs.Host
import Mathlib.Algebra.GroupWithZero.Nat

/-!
# The interrupt of the vertical blank

The picture unit asks for its interrupt on two occasions : the vertical blank begins while
the interrupt is enabled, or a write enables it while the flag of the blank is set.
`blankEvents` counts both in one step, the first by the ticks of the beam and the second by
the bus cycles of the processor.

A request goes through two latches, and neither loses or doubles it. A step contains one
event at most (`blankEvents_le_one`) : the writes that count fall into the blank, where no
other blank can begin before the step is over. An event leaves the processor with the
request latched, and the next step serves it (`pending_step`, `serves_step`). So over a run
the services are the events, each one step later (`blank_interrupts_served_once`).
-/

namespace Famicom

/-! ## Enabling the interrupt during the blank -/

namespace Board

/-- The bus cycle enables the interrupt while the flag of the vertical blank is set. -/
def requests (b : Board) : BusCycle → Bool
  | .read .. => false
  | .write a value _ =>
    isControl a && (!b.ppu.regs.interruptEnabled && value &&& 0x80 != 0) &&
      b.ppu.regs.status.verticalBlank

/-- How many of the bus cycles enable the interrupt while the flag is set. -/
def controlRequests (b : Board) : List BusCycle → Nat
  | [] => 0
  | x :: log => (b.requests x).toNat + controlRequests (x.replay b) log

theorem replay_requesting (b : Board) (x : BusCycle) :
    (x.replay b).ppu.requesting = (b.ppu.requesting || b.requests x) := by
  cases x with
  | read a _ =>
    rw [requests, Bool.or_false]
    exact (quiet_read a b).requesting
  | write a value _ =>
    rw [BusCycle.replay]
    cases h : isControl a with
    | true =>
      rw [write_control h, requests, h]
      rfl
    | false =>
      rw [requests, h]
      simpa using (quiet_write h value b).requesting

theorem still_replay (b : Board) (x : BusCycle) : Ppu.Still b.ppu (x.replay b).ppu := by
  cases x with
  | read a _ => exact (quiet_read a b).toStill
  | write a value _ => exact still_write a value b

theorem foldl_replay_requesting (b : Board) (log : List BusCycle) :
    (log.foldl BusCycle.replay b).ppu.requesting =
      (b.ppu.requesting || decide (0 < b.controlRequests log)) := by
  induction log generalizing b with
  | nil => exact (Bool.or_false _).symm
  | cons x log ih =>
    rw [List.foldl_cons, ih, replay_requesting, controlRequests]
    cases b.requests x with
    | false => simp
    | true =>
      have hpos : 0 < true.toNat + controlRequests (x.replay b) log :=
        Nat.add_pos_left Nat.one_pos _
      rw [decide_eq_true hpos, Bool.or_true, Bool.true_or]

/-- The flag is not set on the way, so it was set from the beginning. -/
theorem verticalBlank_of_controlRequests_pos {b : Board} {log : List BusCycle}
    (h : 0 < b.controlRequests log) : b.ppu.regs.status.verticalBlank := by
  induction log generalizing b with
  | nil => exact absurd h (Nat.lt_irrefl 0)
  | cons x log ih =>
    cases hx : b.requests x with
    | true =>
      cases x with
      | read a _ => cases hx
      | write a value _ => exact (Bool.and_eq_true_iff.1 hx).2
    | false =>
      rw [controlRequests, hx, Bool.toNat_false, Nat.zero_add] at h
      exact (still_replay b x).blank (ih h)

theorem controlRequests_append (b : Board) (log more : List BusCycle) :
    b.controlRequests (log ++ more) =
      b.controlRequests log + controlRequests (log.foldl BusCycle.replay b) more := by
  induction log generalizing b with
  | nil => exact (Nat.zero_add _).symm
  | cons x log ih => rw [List.cons_append, controlRequests, controlRequests, ih, Nat.add_assoc]; rfl

/-- No stack cell is a control register. -/
theorem requests_of_isRoutine {b : Board} {x : BusCycle} (h : x.isRoutine) :
    b.requests x = false := by
  cases x with
  | read a _ => rfl
  | write a value _ =>
    have hcontrol : isControl a = false := by
      simp only [BusCycle.isRoutine, Bool.and_eq_true, decide_eq_true_eq, UInt16.le_iff_toNat_le,
        UInt16.reduceToNat] at h
      rw [Bool.eq_false_iff]
      intro hcontrol
      have hlo := (isControl_iff.1 hcontrol).1
      simp only [UInt16.le_iff_toNat_le, UInt16.reduceToNat] at hlo
      omega
    rw [requests, hcontrol]
    rfl

theorem controlRequests_of_isRoutine {b : Board} {log : List BusCycle}
    (h : ∀ x ∈ log, x.isRoutine) : b.controlRequests log = 0 := by
  induction log generalizing b with
  | nil => rfl
  | cons x log ih =>
    rw [controlRequests, requests_of_isRoutine (h x List.mem_cons_self),
      ih fun y hy => h y (List.mem_cons_of_mem _ hy)]
    rfl

end Board

namespace Console

/-- Of the bus cycles of a step one at most writes to the control register. -/
theorem controlRequests_accesses_le_one (c : Console) :
    c.bus.controlRequests (CpuM.accesses c) ≤ 1 := by
  obtain ⟨-, routine, last, hlog, hroutine, hlast⟩ := CpuM.accesses_spec c
  rw [hlog, Board.controlRequests_append, Board.controlRequests_of_isRoutine hroutine,
    Nat.zero_add]
  match last, hlast with
  | [], _ => exact Nat.zero_le 1
  | [x], _ => exact Bool.toNat_le _

/-! ## The events of a step -/

/-- How often the picture unit has reason to request an interrupt in a step : by a write during
the vertical blank, or at its beginning while the beam catches up. -/
def blankEvents (c : Console) : Nat :=
  (c.settled?.map fun (n, e) =>
    c.bus.controlRequests (CpuM.accesses c) + e.bus.ppu.blankRequests (n * 3)).getD 0

/-- The writes of a step have been seen when the beam starts to catch up. -/
theorem settled?_requesting {c e : Console} {n : Nat} (h : c.settled? = some (n, e)) :
    e.bus.ppu.requesting =
      (c.bus.ppu.requesting || decide (0 < c.bus.controlRequests (CpuM.accesses c))) := by
  obtain ⟨cycles, d, stall, hstep, htransfer, -⟩ := settled?_eq_some h
  have hquiet := quiet_serveTransfer d
  have hreplay := (CpuM.accesses_spec c).1
  rw [htransfer] at hquiet
  rw [CpuM.left_of_ok hstep] at hreplay
  rw [hquiet.requesting, hreplay, Board.foldl_replay_requesting]

theorem blankEvents_le_one {c : Console} (h : c.bus.ppu.Timed) : c.blankEvents ≤ 1 := by
  unfold blankEvents
  cases he : c.settled? with
  | none => exact Nat.zero_le 1
  | some r =>
    obtain ⟨n, e⟩ := r
    obtain ⟨-, -, hstill, hn⟩ := settled?_spec he
    have hrange : e.bus.ppu.beam.InRange := hstill.beam ▸ h.inRange
    have hticks := Ppu.blankRequests_le_one hrange (n := n * 3) (by omega)
    have hwrites := controlRequests_accesses_le_one c
    show c.bus.controlRequests (CpuM.accesses c) + e.bus.ppu.blankRequests (n * 3) ≤ 1
    rcases Nat.eq_zero_or_pos (c.bus.controlRequests (CpuM.accesses c)) with hzero | hpos
    · omega
    · -- a write that counts finds the beam inside the blank
      have hblank := h.window (Board.verticalBlank_of_controlRequests_pos hpos)
      have hnone := Ppu.blankRequests_of_inBlank hrange (hstill.beam ▸ hblank) (n := n * 3)
        (by omega)
      omega

/-- At the end of a step its request is in the latch of the processor if there was an event. -/
theorem catchUp_requesting {c e : Console} {n : Nat} (he : c.settled? = some (n, e))
    (hrequest : c.bus.ppu.requesting = false) :
    (Ppu.ticks (n * dotsPerCycle) e.bus.ppu).requesting = decide (0 < c.blankEvents) := by
  have hevents : c.blankEvents =
      c.bus.controlRequests (CpuM.accesses c) + e.bus.ppu.blankRequests (n * 3) := by
    rw [blankEvents, he]
    rfl
  rw [Ppu.ticks_requesting, settled?_requesting he, hrequest, Bool.false_or, hevents,
    ← Bool.decide_or]
  exact decide_eq_decide.2 (by rw [dotsPerCycle]; omega)

/-! ## The latch of the processor -/

theorem served_nmi_iff {c : Cpu} : c.served = some .nmi ↔ c.pending = some .nmi := by
  unfold Cpu.served
  split
  · rename_i hpending
    rw [hpending]
    split <;> simp
  · exact Iff.rfl

/-- The request of the picture unit waits to be served. -/
def waiting (c : Console) : Nat := (c.cpu.pending == some .nmi).toNat

/-- A step from here serves the request of the picture unit. -/
def services (c : Console) : Nat := (c.cpu.served == some .nmi).toNat

theorem services_eq_waiting (c : Console) : c.services = c.waiting := by
  refine congrArg Bool.toNat (Bool.eq_iff_iff.2 ?_)
  rw [beq_iff_eq, beq_iff_eq, served_nmi_iff]

/-- Between two steps of a run : the flag tells the truth, no request is left in the picture unit,
and no reset waits. -/
structure Steady (c : Console) : Prop where
  timed : c.bus.ppu.Timed
  idle : c.bus.ppu.requesting = false
  noReset : c.cpu.pending ≠ some .reset

theorem begun_pending {c : Cpu} (h : c.pending ≠ some .reset) :
    (CpuM.begun c).pending = none ∨ (CpuM.begun c).pending = some .irq := by
  unfold CpuM.begun Cpu.served
  cases hpending : c.pending with
  | none => simp
  | some request =>
    cases request with
    | reset => exact absurd hpending h
    | nmi => simp
    | irq => grind

theorem raise_nmi {c : Cpu} (h : c.pending = none ∨ c.pending = some .irq) :
    (c.raise .nmi).pending = some .nmi := by
  unfold Cpu.raise
  rcases h with h | h
  all_goals simp [h, Interrupt.priority]

/-- After a step the request waits if and only if the step had an event. -/
theorem pending_catchUp {c e : Console} {n : Nat} (h : c.Steady)
    (he : c.settled? = some (n, e)) :
    (catchUp n e).cpu.pending =
      if 0 < c.blankEvents then some .nmi else (CpuM.begun c.cpu).pending := by
  obtain ⟨-, hpending, -, -⟩ := settled?_spec he
  rw [catchUp_cpu, catchUp_requesting he h.idle]
  by_cases hevents : 0 < c.blankEvents
  · rw [if_pos (decide_eq_true hevents), if_pos hevents]
    exact raise_nmi (hpending ▸ begun_pending h.noReset)
  · rw [if_neg (by simpa using hevents), if_neg hevents, hpending]

theorem steady_catchUp {c e : Console} {n : Nat} (h : c.Steady)
    (he : c.settled? = some (n, e)) : (catchUp n e).Steady := by
  obtain ⟨-, -, hstill, -⟩ := settled?_spec he
  refine ⟨?_, rfl, ?_⟩
  · rw [catchUp_ppu]
    exact ((h.timed.of_beam_eq hstill.beam hstill.blank).ticks _).of_beam_eq rfl id
  · rw [pending_catchUp h he]
    split
    · simp
    · rcases begun_pending h.noReset with hbegun | hbegun <;> rw [hbegun] <;> simp

theorem waiting_catchUp {c e : Console} {n : Nat} (h : c.Steady)
    (he : c.settled? = some (n, e)) : (catchUp n e).waiting = c.blankEvents := by
  have hle := blankEvents_le_one h.timed
  rw [waiting, pending_catchUp h he]
  split
  · have hone : c.blankEvents = 1 := by omega
    rw [hone]
    rfl
  · have hzero : c.blankEvents = 0 := by omega
    rw [hzero]
    rcases begun_pending h.noReset with hbegun | hbegun <;> rw [hbegun] <;> rfl

/-! ## Serving -/

/-- The stall of a transfer that waits for the end of the step, if the step takes seven cycles. -/
def queuedStall (c : Console) : Nat :=
  (c.bus.transferRequest.map fun _ => transferStall (c.cpu.cycles + 7)).getD 0

theorem push_eq_ok {value : UInt8} {c d : Console} {u : Unit} (h : CpuM.push value c = .ok u d) :
    ∃ ram, d.bus = { c.bus with ram } := by
  have hsp := c.cpu.sp.toNat_lt
  have hram : CpuM.stackAddress c.cpu.sp ≤ 0x1FFF := by
    simp only [UInt16.le_iff_toNat_le, CpuM.toNat_stackAddress, UInt16.reduceToNat]
    omega
  simp only [CpuM.push, CpuM.cpu_bind, CpuM.bind_eq_ok, CpuM.writeByte_eq_ok,
    CpuM.update_eq_ok] at h
  obtain ⟨-, e, ⟨hwrite, -⟩, rfl⟩ := h
  rw [Board.write_eq, if_pos hram] at hwrite
  exact ⟨_, (Prod.mk.inj hwrite).2.symm⟩

/-- What is read from the end of the address space is a matter of the cartridge, and the read
changes nothing. -/
theorem read_prg_of_slot {a : UInt16} (h : 0x8000 ≤ a) {b d : Board}
    (hd : d.cartridge = b.cartridge) :
    AddressSpace.read a d = ((AddressSpace.read a b).1, d) := by
  rw [Board.read_prg h, Board.read_prg h, hd]
  split
  · rw [Board.readCartridge, Board.readCartridge, hd]
  · rfl

/-- The processor continues where the vector at FFFA points. -/
theorem serve_nmi {c d : Console} {u : Unit} (h : CpuM.serve .nmi c = .ok u d) :
    d.bus.transferRequest = c.bus.transferRequest ∧
      ∃ lo hi, (AddressSpace.read 0xFFFA c.bus).1 = .ok lo ∧
        (AddressSpace.read 0xFFFB c.bus).1 = .ok hi ∧ d.cpu.pc = word lo hi := by
  simp only [CpuM.serve, CpuM.pushWord, CpuM.cpu_bind, CpuM.bind_eq_ok,
    CpuM.enterHandler_eq_ok] at h
  obtain ⟨_, c₂, ⟨_, c₁, hpush₁, hpush₂⟩, _, c₃, hpush₃, lo, hi, v, w, hlo, hhi, rfl⟩ := h
  obtain ⟨r₁, h₁⟩ := push_eq_ok hpush₁
  obtain ⟨r₂, h₂⟩ := push_eq_ok hpush₂
  obtain ⟨r₃, h₃⟩ := push_eq_ok hpush₃
  have hbus : c₃.bus = { c.bus with ram := r₃ } := by rw [h₃, h₂, h₁]
  have hslot : c₃.bus.cartridge = c.bus.cartridge := by rw [hbus]; rfl
  have hread := (CpuM.readByte_eq_ok.1 hlo).1
  rw [show Interrupt.nmi.vector = 0xFFFA from rfl, read_prg_of_slot (by decide) hslot] at hread
  obtain ⟨hlo, hv⟩ := Prod.mk.inj hread
  have hread := (CpuM.readByte_eq_ok.1 hhi).1
  rw [← hv, show Interrupt.nmi.vector + 1 = 0xFFFB from rfl,
    read_prg_of_slot (by decide) hslot] at hread
  obtain ⟨hhi, hw⟩ := Prod.mk.inj hread
  refine ⟨?_, lo, hi, hlo, hhi, rfl⟩
  show w.bus.transferRequest = c.bus.transferRequest
  rw [← hw, hbus]

/-- A step that serves the request takes seven cycles, and a stall if a transfer waits. -/
theorem step_of_waiting {c : Console} {n : Nat} {e : Console} (he : c.settled? = some (n, e))
    (hserved : c.cpu.served = some .nmi) :
    n = 7 + c.queuedStall ∧ ∃ lo hi, (AddressSpace.read 0xFFFA c.bus).1 = .ok lo ∧
      (AddressSpace.read 0xFFFB c.bus).1 = .ok hi ∧ (catchUp n e).cpu.pc = word lo hi := by
  obtain ⟨cycles, d, stall, hstep, htransfer, rfl⟩ := settled?_eq_some he
  obtain ⟨hcpu, -, hstall⟩ := serveTransfer_spec htransfer
  have hcycles := (CpuM.step_of_ok routine_still hstep).1
  obtain ⟨u, hwork, hd⟩ := CpuM.step_eq_ok.1 hstep
  rw [hserved] at hwork
  simp only [CpuM.work, CpuM.bind_eq_ok, CpuM.pure_eq_ok] at hwork
  obtain ⟨_, v, hserve, rfl, rfl⟩ := hwork
  obtain ⟨hrequest, lo, hi, hlo, hhi, hpc⟩ := serve_nmi hserve
  replace hcycles : d.cpu.cycles = c.cpu.cycles + 7 := hcycles
  replace hrequest : d.bus.transferRequest = c.bus.transferRequest := by rw [hd]; exact hrequest
  refine ⟨?_, lo, hi, hlo, hhi, ?_⟩
  · rw [hstall, hrequest, hcycles]
    rfl
  · rw [catchUp_pc, hcpu, ← hpc, hd]
    rfl

/-! ## Runs -/

/-- The consoles of a run from which it takes a step. -/
def stepStarts : Console → List HostAction → List Console
  | _, [] => []
  | c, .step :: actions => c :: stepStarts (HostAction.step.perform c) actions
  | c, a :: actions => stepStarts (a.perform c) actions

end Console

/-- A step, or an access of the host that requests no interrupt. -/
def HostAction.isPassive : HostAction → Bool
  | insert _ | step | read _ | press _ => true
  | write a _ => !Board.isControl a
  | powerUp | reset | tick | assign _ => false

namespace Console

/-- Between the steps nothing happens to the request. -/
theorem passive_spec {c : Console} {a : HostAction} (ha : a.isPassive) (hstep : a ≠ .step) :
    (a.perform c).cpu = c.cpu ∧ Ppu.Quiet c.bus.ppu (a.perform c).bus.ppu := by
  cases a with
  | insert image => exact ⟨insertImage_cpu c image, quiet_insertImage c image⟩
  | step => exact absurd rfl hstep
  | read a => exact ⟨rfl, Board.quiet_read a c.bus⟩
  | write a value =>
    have hcontrol : Board.isControl a = false := by simpa [HostAction.isPassive] using ha
    exact ⟨rfl, Board.quiet_write hcontrol value c.bus⟩
  | press => exact ⟨rfl, Ppu.Quiet.refl _⟩
  | _ => cases ha

theorem Steady.passive {c : Console} (h : c.Steady) {a : HostAction} (ha : a.isPassive)
    (hstep : a ≠ .step) : (a.perform c).Steady := by
  obtain ⟨hcpu, hquiet⟩ := passive_spec (c := c) ha hstep
  refine ⟨h.timed.of_beam_eq hquiet.beam hquiet.blank, hquiet.requesting.trans h.idle, ?_⟩
  rw [hcpu]
  exact h.noReset

theorem stepStarts_of_ne {c : Console} {a : HostAction} (hstep : a ≠ .step)
    (actions : List HostAction) :
    c.stepStarts (a :: actions) = (a.perform c).stepStarts actions := by
  cases a with
  | step => exact absurd rfl hstep
  | _ => rfl

theorem steady_of_mem_stepStarts {c d : Console} {actions : List HostAction} (h : c.Steady)
    (hpassive : ∀ a ∈ actions, a.isPassive) (hok : c.succeeds actions)
    (hd : d ∈ c.stepStarts actions) : d.Steady ∧ HostAction.step.succeeds d := by
  induction actions generalizing c with
  | nil => cases hd
  | cons a actions ih =>
    obtain ⟨hfirst, hmore⟩ := succeeds_cons.1 hok
    have hrest (b : HostAction) (hb : b ∈ actions) := hpassive b (List.mem_cons_of_mem _ hb)
    by_cases hstep : a = .step
    · subst hstep
      rcases List.mem_cons.1 hd with rfl | hd
      · exact ⟨h, hfirst⟩
      · obtain ⟨n, e, he, hperform⟩ := HostAction.perform_step hfirst
        exact ih (hperform ▸ steady_catchUp h he) hrest hmore hd
    · rw [stepStarts_of_ne hstep] at hd
      exact ih (h.passive (hpassive a List.mem_cons_self) hstep) hrest hmore hd

/-- Over a run the services are the events, each one step later : what waits at the beginning is
served first, and what the last step requests still waits at the end. -/
theorem waiting_cons_events {c : Console} {actions : List HostAction} (h : c.Steady)
    (hpassive : ∀ a ∈ actions, a.isPassive) (hok : c.succeeds actions) :
    c.waiting :: (c.stepStarts actions).map blankEvents =
      (c.stepStarts actions).map services ++ [(c.after actions).waiting] := by
  induction actions generalizing c with
  | nil => rfl
  | cons a actions ih =>
    obtain ⟨hfirst, hmore⟩ := succeeds_cons.1 hok
    have hrest (b : HostAction) (hb : b ∈ actions) := hpassive b (List.mem_cons_of_mem _ hb)
    by_cases hstep : a = .step
    · subst hstep
      obtain ⟨n, e, he, hperform⟩ := HostAction.perform_step hfirst
      have hnext := ih (hperform ▸ steady_catchUp h he) hrest hmore
      rw [show (HostAction.step.perform c).waiting = c.blankEvents by
        rw [hperform]; exact waiting_catchUp h he] at hnext
      rw [stepStarts, after_cons, List.map_cons, List.map_cons, List.cons_append, ← hnext,
        services_eq_waiting]
    · have ha := hpassive a List.mem_cons_self
      have hwaiting : (a.perform c).waiting = c.waiting := by
        rw [waiting, (passive_spec ha hstep).1, waiting]
      rw [stepStarts_of_ne hstep, after_cons, ← hwaiting]
      exact ih (h.passive ha hstep) hrest hmore

/-- Every request of the picture unit is served exactly once, by the step after the one it is
made in. -/
theorem blank_interrupts_served_once {c : Console} (hreach : c.Reachable)
    (hrequest : c.bus.ppu.requesting = false)
    (hlatch : c.cpu.pending = none ∨ c.cpu.pending = some .irq) {actions : List HostAction}
    (hpassive : ∀ a ∈ actions, a.isPassive) (hok : c.succeeds actions) :
    let starts := c.stepStarts actions
    (∀ d ∈ starts,
      d.blankEvents ≤ 1 ∧
        (d.blankEvents = 1 → d.step.2.cpu.pending = some .nmi) ∧
        d.step.2.bus.ppu.requesting = false ∧
        (d.cpu.served = some .nmi ↔ d.cpu.pending = some .nmi) ∧
        (d.cpu.served = some .nmi → d.step.1 = .ok (7 + d.queuedStall) ∧
          ∃ lo hi, (AddressSpace.read 0xFFFA d.bus).1 = .ok lo ∧
            (AddressSpace.read 0xFFFB d.bus).1 = .ok hi ∧ d.step.2.cpu.pc = word lo hi)) ∧
      0 :: starts.map blankEvents = starts.map services ++ [(c.after actions).waiting] ∧
      (starts.map blankEvents).sum = (starts.map services).sum + (c.after actions).waiting := by
  intro starts
  have hsteady : c.Steady :=
    ⟨hreach.timed, hrequest, by rcases hlatch with h | h <;> rw [h] <;> simp⟩
  have hnone : c.waiting = 0 := by
    unfold waiting
    rcases hlatch with h | h <;> rw [h] <;> rfl
  have hlaw := waiting_cons_events hsteady hpassive hok
  rw [hnone] at hlaw
  refine ⟨fun d hd => ?_, hlaw, ?_⟩
  · obtain ⟨hd, hstep⟩ := steady_of_mem_stepStarts hsteady hpassive hok hd
    obtain ⟨n, e, he, hperform⟩ := HostAction.perform_step hstep
    have hend : d.step.2 = catchUp n e := hperform
    rw [hend]
    refine ⟨blankEvents_le_one hd.timed, fun hevent => ?_, rfl, served_nmi_iff, fun hserved => ?_⟩
    · rw [pending_catchUp hd he, if_pos (by omega)]
    · obtain ⟨hn, hvector⟩ := step_of_waiting he hserved
      have hanswer : d.step = (.ok n, catchUp n e) := step_eq_ok.2 ⟨e, he, rfl⟩
      exact ⟨by rw [hanswer, hn], hvector⟩
  · have hsum := congrArg List.sum hlaw
    simpa using hsum

/-- The host enables the interrupt and moves the beam to the end of line 240. The blank begins
in the step after that, and the second step serves its request. -/
theorem blank_interrupts_served_once_line_241 :
    let image : ByteArray := ⟨#[0x4E, 0x45, 0x53, 0x1A, 0, 0, 0, 0, 0, 0, 0, 0, 0, 0, 0, 0]⟩
    let c := initial.after
      ([.insert image, .write 0x2000 0x80] ++ List.replicate 82181 .tick)
    let actions : List HostAction := [.step, .step]
    c.Reachable ∧ c.bus.ppu.requesting = false ∧
      (c.cpu.pending = none ∨ c.cpu.pending = some .irq) ∧
      (∀ a ∈ actions, a.isPassive) ∧ c.succeeds actions ∧
      (c.stepStarts actions).map blankEvents = [1, 0] ∧
      (c.stepStarts actions).map services = [0, 1] ∧ (c.after actions).waiting = 0 := by
  intro image c actions
  have hc : c = { initial.after [.insert image, .write 0x2000 0x80] with
      bus := { (initial.after [.insert image, .write 0x2000 0x80]).bus with
        ppu := { (initial.after [.insert image, .write 0x2000 0x80]).bus.ppu with
          beam := ⟨241, 0, 0⟩ } } } := by
    have hbeam : (initial.after [.insert image, .write 0x2000 0x80]).bus.ppu.beam = .start := by
      decide +kernel
    have hticks := Ppu.ticks_before_blank (n := 82181) (hbeam ▸ Beam.inRange_start)
      (by decide +kernel) (by rw [hbeam]; decide)
    rw [show c = _ from after_append _ _ _, after_replicate_tick, hticks, hbeam]
    rfl
  have hreach : c.Reachable := ⟨_, rfl⟩
  have hrequest : c.bus.ppu.requesting = false := by rw [hc]; decide +kernel
  have hlatch : c.cpu.pending = none := by rw [hc]; decide +kernel
  have hpassive : ∀ a ∈ actions, a.isPassive := by simp [actions, HostAction.isPassive]
  have hok : c.succeeds actions := by rw [hc]; decide +kernel
  have hevents : (c.stepStarts actions).map blankEvents = [1, 0] := by rw [hc]; decide +kernel
  have hservices : (c.stepStarts actions).map services = [0, 1] := by rw [hc]; decide +kernel
  have hlaw := (blank_interrupts_served_once hreach hrequest (Or.inl hlatch) hpassive hok).2.1
  rw [hevents, hservices] at hlaw
  have hwaiting : (c.after actions).waiting = 0 := by simpa using hlaw.symm
  exact ⟨hreach, hrequest, Or.inl hlatch, hpassive, hok, hevents, hservices, hwaiting⟩

end Console

end Famicom
