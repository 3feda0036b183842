import Famicom.Proofs.Cpu.Fault
import Famicom.Proofs.Cpu.Pushes
import Mathlib.Data.Finset.Max

/-!
# Arbitration

Requests come at any time and meet in the latch, which holds one of them. A request raised is not
lost unless one of at least its priority is there, so of all requests that come between two steps
the latch holds the highest, whatever their order (`Cpu.pending_raised`). A step looks at the latch
once, at its beginning : it enters the handler of the request it finds there, if the flags let the
request through (`Cpu.Due`), and runs an instruction otherwise. Instructions cannot reach the latch,
so what is not served stays (`left_step_pending`), and a masked request waits for as long as it is
masked and not replaced (`Cpu.irq_waits`).

What it takes to enter a handler is the same for all requests, but for the bytes that go to the
stack first (`Entered`).
-/

namespace Famicom

/-! ## The latch -/

namespace Interrupt

/-- The request is one of these, and none of them has a higher priority. -/
def Highest (requests : List Interrupt) (request : Interrupt) : Prop :=
  request ∈ requests ∧ ∀ other ∈ requests, other.priority ≤ request.priority

theorem eq_of_priority_eq {p q : Interrupt} (h : p.priority = q.priority) : p = q := by
  cases p <;> cases q <;> first | rfl | cases h

theorem exists_highest {requests : List Interrupt} (h : requests ≠ []) :
    ∃ request, Highest requests request := by
  obtain ⟨request, hmem, hle⟩ :=
    requests.toFinset.exists_max_image priority (List.toFinset_nonempty_iff _ |>.2 h)
  refine ⟨request, List.mem_toFinset.1 hmem, fun other hother => ?_⟩
  exact hle other (List.mem_toFinset.2 hother)

/-- The highest of some requests stands for all of them when more come. -/
theorem highest_append {requests : List Interrupt} {highest : Interrupt}
    (h : Highest requests highest) (more : List Interrupt) (request : Interrupt) :
    Highest (highest :: more) request ↔ Highest (requests ++ more) request := by
  obtain ⟨hmem, hle⟩ := h
  constructor
  · rintro ⟨hrequest, hall⟩
    refine ⟨?_, fun other hother => ?_⟩
    · rcases List.mem_cons.1 hrequest with rfl | hmore
      · exact List.mem_append_left _ hmem
      · exact List.mem_append_right _ hmore
    · rcases List.mem_append.1 hother with hold | hmore
      · exact Nat.le_trans (hle other hold) (hall highest List.mem_cons_self)
      · exact hall other (List.mem_cons_of_mem _ hmore)
  · rintro ⟨hrequest, hall⟩
    have hhighest := hall highest (List.mem_append_left _ hmem)
    refine ⟨?_, fun other hother => ?_⟩
    · rcases List.mem_append.1 hrequest with hold | hmore
      · rw [eq_of_priority_eq (Nat.le_antisymm (hle request hold) hhighest)]
        exact List.mem_cons_self
      · exact List.mem_cons_of_mem _ hmore
    · rcases List.mem_cons.1 hother with rfl | hmore
      · exact hhighest
      · exact hall other (List.mem_append_right _ hmore)

end Interrupt

namespace Cpu

open Interrupt

theorem pending_raise (c : Cpu) (request r : Interrupt) :
    (c.raise request).pending = some r ↔ Highest (c.pending.toList ++ [request]) r := by
  unfold raise
  cases hpending : c.pending with
  | none => cases request <;> cases r <;> simp [Highest]
  | some current =>
    cases current <;> cases request <;> cases r <;> simp [Highest, priority, hpending]

/-- After a batch of requests the latch holds the highest of them and of what it held before. -/
theorem pending_raised (c : Cpu) (requests : List Interrupt) (r : Interrupt) :
    (c.after (requests.map .raise)).pending = some r ↔
      Highest (c.pending.toList ++ requests) r := by
  induction requests generalizing c with
  | nil =>
    show c.pending = some r ↔ _
    cases c.pending with
    | none => simp [Highest]
    | some current =>
      constructor
      · rintro ⟨rfl⟩
        simp [Highest]
      · rintro ⟨hr, -⟩
        simpa using (List.mem_singleton.1 hr).symm
  | cons request requests ih =>
    obtain ⟨current, hcurrent⟩ : ∃ current, (c.raise request).pending = some current := by
      unfold raise
      split
      · split
        · exact ⟨_, ‹_›⟩
        · exact ⟨_, rfl⟩
      · exact ⟨_, rfl⟩
    have hrest := ih (c.raise request)
    rw [hcurrent] at hrest
    refine hrest.trans ?_
    have happend := highest_append ((pending_raise c request current).1 hcurrent) requests r
    rwa [List.append_assoc] at happend

/-- Requests reach nothing but the latch. -/
theorem after_raises (c : Cpu) (requests : List Interrupt) :
    ∃ latch, c.after (requests.map .raise) = { c with pending := latch } := by
  induction requests generalizing c with
  | nil => exact ⟨c.pending, rfl⟩
  | cons request requests ih =>
    obtain ⟨latch, hrest⟩ := ih (c.raise request)
    exact ⟨latch, hrest.trans (by rw [CpuM.raise_eq c request])⟩

/-- The latch holds the request, and the flags let it through. -/
def Due (c : Cpu) (request : Interrupt) : Prop :=
  c.pending = some request ∧ (request = .irq → c.status.interruptDisable = false)

theorem served_eq_some {c : Cpu} {request : Interrupt} :
    c.served = some request ↔ c.Due request := by
  unfold served Due
  cases hpending : c.pending with
  | none => simp
  | some current =>
    cases current <;> cases request <;> cases hflag : c.status.interruptDisable <;> simp

theorem served_eq_none {c : Cpu} (h : ∀ request, ¬ c.Due request) : c.served = none :=
  Option.eq_none_iff_forall_ne_some.2 fun request hserved => h request (served_eq_some.1 hserved)

end Cpu

/-! ## Entering a handler -/

variable {β : Type} [AddressSpace β]

/-- Writing the bytes one after the other, each to its address, leads from one bus to the
other. -/
inductive Stores : List (UInt16 × UInt8) → β → β → Prop where
  | nil (b : β) : Stores [] b b
  | cons {a : UInt16} {value : UInt8} {writes : List (UInt16 × UInt8)} {b c d : β}
      (head : AddressSpace.write a value b = (.ok (), c)) (tail : Stores writes c d) :
      Stores ((a, value) :: writes) b d

theorem Stores.append {writes more : List (UInt16 × UInt8)} {b c d : β} (h : Stores writes b c)
    (h' : Stores more c d) : Stores (writes ++ more) b d := by
  induction h with
  | nil => exact h'
  | cons head _ ih => exact .cons head (ih h')

namespace CpuM

/-- From `s` the handler of the request was entered, and that led to `t` : what the request pushes
was stored and then the vector was read. -/
structure Entered (request : Interrupt) (s t : System β) : Prop where
  latch : t.cpu.pending = none
  status : t.cpu.status = { s.cpu.status with interruptDisable := true }
  vector : ∃ b lo hi, Stores (pushesFrom s.cpu.sp (request.entryBytes s.cpu)) s.bus b ∧
    Reads [request.vector, request.vector + 1] [lo, hi] b t.bus ∧ t.cpu.pc = word lo hi
  cycles : t.cpu.cycles = s.cpu.cycles + 7
  a : t.cpu.a = s.cpu.a
  x : t.cpu.x = s.cpu.x
  y : t.cpu.y = s.cpu.y

theorem enterHandler_reads {request : Interrupt} {s t : System β} {u : Unit}
    (h : enterHandler request s = .ok u t) : ∃ lo hi,
      Reads [request.vector, request.vector + 1] [lo, hi] s.bus t.bus ∧
      t.cpu = { s.cpu with status := s.cpu.status.masking, pc := word lo hi } := by
  obtain ⟨lo, hi, v, w, hlo, hhi, rfl⟩ := enterHandler_eq_ok.1 h
  obtain ⟨hread, hv⟩ := readByte_eq_ok.1 hlo
  obtain ⟨hread', hw⟩ := readByte_eq_ok.1 hhi
  exact ⟨lo, hi, .cons hread (.cons hread' (.nil _)), by rw [hw, hv]⟩

theorem pushWord_stores {w : UInt16} {s t : System β} {u : Unit} (h : pushWord w s = .ok u t) :
    Stores (pushesFrom s.cpu.sp [highByte w, lowByte w]) s.bus t.bus ∧
      t.cpu = { s.cpu with sp := s.cpu.sp - 2 } := by
  obtain ⟨_, v, hhigh, hlow⟩ := bind_eq_ok.1 h
  obtain ⟨hwrite, hv⟩ := push_eq_ok.1 hhigh
  obtain ⟨hwrite', ht⟩ := push_eq_ok.1 hlow
  rw [hv] at hwrite' ht
  have hsp : s.cpu.sp - 1 - 1 = s.cpu.sp - 2 := by grind
  exact ⟨.cons hwrite (.cons hwrite' (.nil _)), by rw [ht, ← hsp]⟩

/-- A request moves the stack pointer by three, whether it stores bytes there or not. -/
theorem serve_stores {request : Interrupt} {s t : System β} {u : Unit}
    (h : serve request s = .ok u t) : ∃ b lo hi,
      Stores (pushesFrom s.cpu.sp (request.entryBytes s.cpu)) s.bus b ∧
      Reads [request.vector, request.vector + 1] [lo, hi] b t.bus ∧
      t.cpu = { s.cpu with
        sp := s.cpu.sp - 3, status := s.cpu.status.masking, pc := word lo hi } := by
  cases request with
  | reset =>
    simp only [serve, update_bind] at h
    obtain ⟨lo, hi, hreads, hcpu⟩ := enterHandler_reads h
    exact ⟨s.bus, lo, hi, .nil _, hreads, hcpu⟩
  | nmi | irq =>
    simp only [serve, cpu_bind, bind_eq_ok] at h
    obtain ⟨_, v, hword, _, w, hflags, henter⟩ := h
    obtain ⟨hstores, hv⟩ := pushWord_stores hword
    obtain ⟨hwrite, hw⟩ := push_eq_ok.1 hflags
    obtain ⟨lo, hi, hreads, hcpu⟩ := enterHandler_reads henter
    have hsp : s.cpu.sp - 2 - 1 = s.cpu.sp - 3 := by grind
    rw [hv] at hwrite hw
    refine ⟨w.bus, lo, hi, ?_, hreads, by rw [hcpu, hw, ← hsp]⟩
    rw [show s.cpu.sp - 2 = s.cpu.sp - 1 - 1 by grind] at hwrite
    exact hstores.append (.cons hwrite (.nil _))

/-- A request that is due is served, and the cost is that of an entry. -/
theorem entered_of_step {request : Interrupt} {s t : System β} {n : Nat}
    (hserved : s.cpu.served = some request) (h : step s = .ok n t) :
    n = 7 ∧ Entered request s t := by
  obtain ⟨v, hwork, rfl⟩ := step_eq_ok.1 h
  rw [hserved] at hwork
  simp only [work, bind_eq_ok, pure_eq_ok] at hwork
  obtain ⟨_, _, hserve, rfl, rfl⟩ := hwork
  obtain ⟨b, lo, hi, hstores, hreads, hcpu⟩ := serve_stores hserve
  rw [Interrupt.entryBytes_begun] at hstores
  refine ⟨rfl, ?_⟩
  rw [hcpu]
  exact ⟨by simp [begun, hserved, Cpu.stall], rfl, ⟨b, lo, hi, hstores, hreads, rfl⟩, rfl, rfl, rfl,
    rfl⟩

/-! ## What a step does with the latch -/

/-- A step empties the latch of the request it serves and leaves it alone otherwise, however it
ends. -/
theorem left_step_pending (s : System β) :
    (left step s).cpu.pending = if s.cpu.served.isSome then none else s.cpu.pending := by
  cases h : step s with
  | ok n t =>
    rw [left_of_ok h]
    exact (step_of_ok .anything h).2.1
  | error e t =>
    have hlasting := step_error_lasting h
    rw [left_of_error h]
    exact congrArg (·.2.2.2.2.1) hlasting

/-- The latch is emptied exactly of the requests that are due. -/
theorem latch_emptied_iff (s : System β) (request : Interrupt) :
    (s.cpu.pending = some request ∧ (left step s).cpu.pending = none) ↔ s.cpu.Due request := by
  rw [left_step_pending, ← Cpu.served_eq_some]
  cases hserved : s.cpu.served with
  | none =>
    refine iff_of_false (fun ⟨hpending, hnone⟩ => ?_) nofun
    rw [show s.cpu.pending = none from hnone] at hpending
    cases hpending
  | some due =>
    have hdue := (Cpu.served_eq_some.1 hserved).1
    rw [hdue]
    exact and_iff_left rfl

/-- The step runs the instruction at the program counter. -/
def Executes (s t : System β) (n : Nat) : Prop :=
  ∃ i bytes pointer d extra u, Fetched s i bytes pointer d ∧
    i.mnemonic.action.run (i.operand s.cpu bytes pointer) ⟨s.cpu.behind i, d⟩ = .ok extra u ∧
    t = ⟨u.cpu.stall n, u.bus⟩

variable [FaultFree β]

/-- A request that is due is served. -/
theorem step_enters {s : System β} {request : Interrupt} (hdue : s.cpu.Due request) :
    ∃ t, step s = .ok 7 t ∧ Entered request s t := by
  have hserved := Cpu.served_eq_some.2 hdue
  obtain ⟨_, u, hserve⟩ := Succeeds.actionClosed.serve (β := β) request ⟨begun s.cpu, s.bus⟩
  have hwork : work s.cpu.served ⟨begun s.cpu, s.bus⟩ = .ok 7 u := by
    rw [hserved]
    exact bind_eq_ok.2 ⟨_, u, hserve, rfl⟩
  have hstep := step_eq_ok.2 ⟨u, hwork, rfl⟩
  exact ⟨_, hstep, (entered_of_step hserved hstep).2⟩

/-- If no request is due the step goes to the program counter. -/
theorem step_continues_program {s : System β} (h : ∀ request, ¬ s.cpu.Due request) :
    (∃ n t, step s = .ok n t ∧ Executes s t n) ∨
      ∃ opcode t, (AddressSpace.read s.cpu.pc s.bus).1 = .ok opcode ∧
        Instruction.decode? opcode = none ∧
        step s = .error (.unknownOpcode opcode s.cpu.pc) t := by
  have hserved := Cpu.served_eq_none h
  have hread := read_eq_byteAt s.cpu.pc s.bus
  cases hdecode : Instruction.decode? (byteAt s.bus s.cpu.pc) with
  | some i =>
    obtain ⟨n, t, hstep⟩ := step_succeeds hserved hread hdecode
    exact .inl ⟨n, t, hstep, step_fetched hserved hstep⟩
  | none =>
    obtain ⟨t, hstep⟩ := step_unknownOpcode hserved hread hdecode
    exact .inr ⟨_, t, hread, hdecode, hstep⟩

end CpuM

/-! ## Waiting -/

/-- The action ends the wait of a request of lowest priority : a step that the flags let it
through, or a request of higher priority. -/
def CpuAction.Releases (c : Cpu) : CpuAction → Prop
  | .raise request => Interrupt.irq.priority < request.priority
  | .reset => True
  | .stall _ => False
  | @CpuAction.step _ _ _ => c.status.interruptDisable = false

namespace Cpu

theorem perform_irq {c : Cpu} {action : CpuAction} (h : c.pending = some .irq)
    (hwaits : ¬ action.Releases c) : (c.perform action).pending = some .irq := by
  unfold CpuAction.Releases at hwaits
  cases action with
  | raise request =>
    have hle : request.priority ≤ Interrupt.irq.priority := Nat.le_of_not_lt hwaits
    show (c.raise request).pending = _
    simp only [raise, h, if_pos hle]
  | reset => exact absurd trivial hwaits
  | stall cycles => exact h
  | step bus =>
    have hmasked : c.status.interruptDisable = true := by simpa using hwaits
    have hserved : c.served = none := by simp [served, h, hmasked]
    have hleft := CpuM.left_step_pending ⟨c, bus⟩
    rw [show (CpuM.left CpuM.step ⟨c, bus⟩).cpu = c.perform (.step bus) from rfl, hserved] at hleft
    exact hleft.trans h

/-- A request of lowest priority stays in the latch until a step begins that the flags let it
through, or a request of higher priority comes. -/
theorem irq_waits {c : Cpu} (h : c.pending = some .irq) (run : List CpuAction) :
    (c.after run).pending = some .irq ∨ ∃ before action rest, run = before ++ action :: rest ∧
      (c.after before).pending = some .irq ∧ action.Releases (c.after before) := by
  induction run generalizing c with
  | nil => exact .inl h
  | cons action run ih =>
    by_cases hreleases : action.Releases c
    · exact .inr ⟨[], action, run, rfl, h, hreleases⟩
    · rcases ih (perform_irq h hreleases) with hwaits | ⟨before, next, rest, rfl, hrest⟩
      · exact .inl hwaits
      · exact .inr ⟨action :: before, next, rest, rfl, hrest⟩

end Cpu

open CpuM in
/-- Wherever a run has brought the processor : of a batch of requests and the one in the latch the
highest is in the latch afterwards, and nothing else changes; a step serves the request in the
latch if and only if that is due, and runs an instruction otherwise, which leaves the latch alone;
and a request of lowest priority is still there at the end of any run, unless the run comes to a
step that it is let through or to a request of higher priority. -/
theorem interrupt_arbitration (start : Cpu) (past : List CpuAction) :
    let c := start.after past
    (∀ requests : List Interrupt, ∃ latch,
      c.after (requests.map .raise) = { c with pending := latch } ∧
      (∀ r, latch = some r ↔ Interrupt.Highest (c.pending.toList ++ requests) r) ∧
      (latch = none ↔ c.pending = none ∧ requests = [])) ∧
    (∀ (β : Type) [AddressSpace β] (bus : β), let s : System β := ⟨c, bus⟩
      (∀ request, (c.pending = some request ∧ (left step s).cpu.pending = none) ↔
        c.Due request) ∧
      ((∀ request, ¬ c.Due request) → (left step s).cpu.pending = c.pending) ∧
      ∀ [FaultFree β],
        (∀ request, c.Due request → ∃ t, step s = .ok 7 t ∧ Entered request s t) ∧
        ((∀ request, ¬ c.Due request) →
          (∃ n t, step s = .ok n t ∧ Executes s t n) ∨
          ∃ opcode t, (AddressSpace.read c.pc bus).1 = .ok opcode ∧
            Instruction.decode? opcode = none ∧
            step s = .error (.unknownOpcode opcode c.pc) t)) ∧
    ∀ future, c.pending = some .irq → (c.after future).pending = some .irq ∨
      ∃ before action rest, future = before ++ action :: rest ∧
        (c.after before).pending = some .irq ∧ action.Releases (c.after before) := by
  intro c
  refine ⟨fun requests => ?_, fun β _ bus => ?_, fun future h => c.irq_waits h future⟩
  · obtain ⟨latch, hlatch⟩ := c.after_raises requests
    have hpending := c.pending_raised requests
    rw [hlatch] at hpending
    refine ⟨latch, hlatch, hpending, fun hnone => ?_, fun ⟨hnone, hempty⟩ => ?_⟩
    · by_contra hsome
      have hne : c.pending.toList ++ requests ≠ [] := fun hnil =>
        have hnils := List.append_eq_nil_iff.1 hnil
        hsome ⟨Option.toList_eq_nil_iff.1 hnils.1, hnils.2⟩
      obtain ⟨r, hr⟩ := Interrupt.exists_highest hne
      exact nomatch hnone.symm.trans ((hpending r).2 hr)
    · rw [hnone, hempty] at hpending
      exact Option.eq_none_iff_forall_ne_some.2 fun r hr => nomatch ((hpending r).1 hr).1
  · intro s
    refine ⟨latch_emptied_iff s, fun h => ?_, fun [FaultFree β] =>
      ⟨fun request hdue => step_enters hdue, fun h => step_continues_program h⟩⟩
    rw [left_step_pending, Cpu.served_eq_none h]
    rfl

open CpuM in
/-- A request that comes while it is masked is still there after `NOP` and is served after
`CLI`. -/
theorem interrupt_arbitration_unmasked :
    let memory : Memory 0x10000 :=
      (((Memory.zeros _).write 0x0000 0xEA).write 0x0001 0x58).write 0xFFFF 0x90
    let c := Cpu.initial.after [.raise .irq, .step memory, .step memory]
    (Cpu.initial.after [.raise .irq, .step memory]).pending = some .irq ∧ c.Due .irq ∧
      ∃ t, step ⟨c, memory⟩ = .ok 7 t ∧ Entered .irq ⟨c, memory⟩ t := by
  intro memory c
  have hmasked : (Cpu.initial.after [.raise .irq, .step memory]).pending = some .irq := by
    decide +kernel
  have hdue : c.Due .irq := ⟨by decide +kernel, fun _ => by decide +kernel⟩
  obtain ⟨-, hstep, -⟩ :=
    interrupt_arbitration Cpu.initial [.raise .irq, .step memory, .step memory]
  exact ⟨hmasked, hdue, (hstep _ memory).2.2.1 .irq hdue⟩

end Famicom
