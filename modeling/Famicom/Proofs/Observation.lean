import Famicom.Disassembly
import Famicom.Proofs.Host
import Famicom.Proofs.Trace.Observer

/-!
# Observation

The host can look at the machine without a part in its run : it peeks at bytes, it asks for a
trace line and it lists memory (`Observation`). Everything seen this way goes through `peek`, and a
peek of the board leaves the board as it is, be the byte shown or hidden (`Board.peek_snd`). What is
composed of such looks leaves the devices as they are, too (`Unmoved`), and so does a trace line
whatever pointers it follows, and a listing wherever it ends.

A watched run is a run with observations in between. It answers what the run without them answers,
and ends in the same console (`watched_eq`).
-/

namespace Famicom

/-! ## Looking through routes -/

/-- A look through routes leaves the devices as they are if the routes do that are not volatile. -/
theorem Bus.peek_snd {σ : Type} {bus : Bus σ} {s : σ}
    (h : ∀ r ∈ bus.reads, r.volatile = false → ∀ a, (r.serve a s).2 = s) (a : UInt16) :
    (bus.peek a s).2 = s := by
  unfold Bus.peek
  cases hroute : bus.readRoute a with
  | none => rfl
  | some r =>
    cases hvolatile : r.volatile with
    | true => simp [hvolatile]
    | false =>
      have hserve := h r (List.mem_of_find?_eq_some hroute) hvolatile a
      rcases hresult : r.serve a s with ⟨_ | value, d⟩ <;> rw [hresult] at hserve <;>
        simpa [hvolatile, hresult] using hserve

/-- A peek leaves the board as it is. -/
theorem Board.peek_snd (a : UInt16) (b : Board) : (AddressSpace.peek a b).2 = b :=
  Bus.peek_snd (fun _ hr hvolatile => serve_undisturbed hr hvolatile) a

/-! ## Trace lines and listings -/

variable {α γ β : Type}

/-- The devices are left as they are. -/
def Unmoved (b : β) (m : StateM β α) : Prop := (m b).2 = b

namespace Unmoved

theorem pure (b : β) (x : α) : Unmoved b (Pure.pure x) := rfl

theorem bind {b : β} {m : StateM β α} {f : α → StateM β γ} (hm : Unmoved b m)
    (hf : ∀ x, Unmoved b (f x)) : Unmoved b (m >>= f) := by
  rw [Unmoved, Trace.bind_run, hm]
  exact hf _

variable [AddressSpace β] {b : β} (h : ∀ a, (AddressSpace.peek a b).2 = b)

include h

theorem look (a : UInt16) : Unmoved b (Trace.look a) := h a

theorem lookWord (lo hi : UInt16) : Unmoved b (Trace.lookWord lo hi) := by
  refine (look h lo).bind fun l => ?_
  cases l with
  | none => exact pure b none
  | some l =>
    refine (look h hi).bind fun u => ?_
    cases u with
    | none => exact pure b none
    | some u => exact pure b _

theorem lookAt (a : Option UInt16) : Unmoved b (Trace.lookAt a) := by
  cases a with
  | none => exact pure b none
  | some a => exact look h a

theorem lookBytes (count : Nat) (a : UInt16) : Unmoved b (Trace.lookBytes count a) := by
  induction count generalizing a with
  | zero => exact pure b []
  | succ count ih => exact (look h a).bind fun _ => (ih (a + 1)).bind fun _ => pure b _

theorem viewOperand (c : Cpu) (i : Instruction) (operand : List (Option UInt8)) :
    Unmoved b (Trace.viewOperand c i operand) := by
  unfold Trace.viewOperand
  cases i.mode with
  | implied | accumulator | immediate | relative => exact pure b _
  | zeroPage => exact (look h _).bind fun _ => pure b _
  | zeroPageX | zeroPageY => exact (look h _).bind fun _ => pure b _
  | absolute =>
    dsimp only
    split
    · exact pure b _
    · exact (look h _).bind fun _ => pure b _
  | absoluteX | absoluteY => exact (look h _).bind fun _ => pure b _
  | indirect => exact (lookWord h _ _).bind fun _ => pure b _
  | indirectX | indirectY =>
    exact (lookWord h _ _).bind fun _ => (lookAt h _).bind fun _ => pure b _

theorem statement (c : Cpu) : Unmoved b (Trace.statement c) := by
  refine (look h c.pc).bind fun opcode => ?_
  cases opcode.bind Instruction.decode? with
  | none => exact (look h c.pc).bind fun _ => pure b _
  | some i =>
    exact (lookBytes h i.size c.pc).bind fun raw =>
      (viewOperand h c i (raw.drop 1)).bind fun _ => pure b _

theorem line (c : Cpu) (scanline dot : Nat) : Unmoved b (Trace.line c scanline dot) :=
  (statement h c).bind fun _ => pure b _

theorem peekBytes (count : Nat) (a : UInt16) : Unmoved b (Famicom.peekBytes count a) := by
  induction count generalizing a with
  | zero => rfl
  | succ count ih =>
    have hfirst := h a
    have hrest : (Famicom.peekBytes count (a + 1) b).2 = b := ih (a + 1)
    rw [Unmoved, Famicom.peekBytes]
    rcases hpeek : AddressSpace.peek a b with ⟨_ | value, d⟩ <;> rw [hpeek] at hfirst <;>
      obtain rfl : d = b := hfirst
    · rfl
    · exact hrest

theorem disassembleLiveOnto (done : List Disassembly) (count : Nat) (a : UInt16) :
    Unmoved b (Famicom.disassembleLiveOnto done count a) := by
  induction count generalizing done a with
  | zero => rfl
  | succ count ih =>
    have hfirst := h a
    rw [Unmoved, Famicom.disassembleLiveOnto]
    rcases hpeek : AddressSpace.peek a b with ⟨_ | opcode, d⟩ <;> rw [hpeek] at hfirst <;>
      obtain rfl : d = b := hfirst
    · rfl
    · have hbytes (size : Nat) : (Famicom.peekBytes size (a + 1) d).2 = d :=
        peekBytes h size (a + 1)
      dsimp only
      rw [hbytes]
      exact ih _ _

theorem disassembleFrom (a : UInt16) (count : Nat) :
    Unmoved b (Famicom.disassembleFrom a count) :=
  disassembleLiveOnto h [] count a

end Unmoved

/-! ## Watched runs -/

/-- One look at the machine. -/
inductive Observation where
  /-- Peek at a byte of the processor's bus. -/
  | peek (a : UInt16)
  /-- Ask for the trace line of the next instruction. -/
  | traceLine
  /-- List the processor's memory, for this many instructions at most. -/
  | listing (start : UInt16) (count : Nat)

/-- The console after a look. -/
def Observation.perform (c : Console) : Observation → Console
  | peek a => { c with bus := (AddressSpace.peek a c.bus).2 }
  | traceLine => c.traceLine.2
  | listing start count => { c with bus := (disassembleFrom start count c.bus).2 }

theorem Observation.perform_eq (c : Console) (o : Observation) : o.perform c = c := by
  have hpeek (a : UInt16) := Board.peek_snd a c.bus
  obtain ⟨cpu, board⟩ := c
  cases o with
  | peek a => exact congrArg (System.mk cpu) (hpeek a)
  | traceLine =>
    exact congrArg (System.mk cpu)
      (Unmoved.line hpeek cpu board.ppu.beam.scanline board.ppu.beam.dot)
  | listing start count =>
    exact congrArg (System.mk cpu) (Unmoved.disassembleFrom hpeek start count)

namespace Console

/-- The console at the end of a watched run. -/
def afterWatched (c : Console) (run : List (HostAction ⊕ Observation)) : Console :=
  run.foldl (fun c => Sum.elim (HostAction.perform c) (Observation.perform c)) c

/-- What the steps of a watched run answer. -/
def answersWatched : Console → List (HostAction ⊕ Observation) → List (Except ConsoleFault Nat)
  | _, [] => []
  | c, .inl a :: run => (a.answer? c).toList ++ answersWatched (a.perform c) run
  | c, .inr o :: run => answersWatched (o.perform c) run

/-- The observations have no part in a run. -/
theorem watched_eq (c : Console) (run : List (HostAction ⊕ Observation)) :
    c.answersWatched run = c.answers (run.filterMap Sum.getLeft?) ∧
      c.afterWatched run = c.after (run.filterMap Sum.getLeft?) := by
  induction run generalizing c with
  | nil => exact ⟨rfl, rfl⟩
  | cons x run ih =>
    cases x with
    | inl a =>
      obtain ⟨hanswers, hafter⟩ := ih (a.perform c)
      exact ⟨congrArg _ hanswers, hafter⟩
    | inr o =>
      obtain ⟨hanswers, hafter⟩ := ih c
      rw [answersWatched, afterWatched, List.foldl_cons, Sum.elim_inr, o.perform_eq]
      exact ⟨hanswers, hafter⟩

/-- A traced run ends as the run without the trace does. -/
theorem traceRunOnto_eq (done : List String) (count : Nat) (c : Console) (r : Run)
    (hr : r.console = c) (hfault : r.fault = none) :
    (traceRunOnto done count c).console = (Run.continueWhile (fun _ => true) count r).console ∧
      (traceRunOnto done count c).fault = (Run.continueWhile (fun _ => true) count r).fault := by
  induction count generalizing done c r with
  | zero => exact ⟨hr.symm, hfault.symm⟩
  | succ count ih =>
    have hline : c.traceLine.2 = c := Observation.perform_eq c .traceLine
    subst hr
    rw [traceRunOnto, Run.continueWhile]
    simp only [hline, if_true]
    rcases r.console.step with ⟨fault | n, d⟩
    · exact ⟨rfl, rfl⟩
    · exact ih _ d _ rfl rfl

theorem traceRun_eq (count : Nat) (c : Console) :
    (traceRun count c).console = (runWhile (fun _ => true) count c).console ∧
      (traceRun count c).fault = (runWhile (fun _ => true) count c).fault :=
  traceRunOnto_eq [] count c _ rfl rfl

/-- Looking at the machine changes nothing, and what is shown is what a read would find. -/
theorem observation_free (c : Console) :
    (∀ o : Observation, o.perform c = c) ∧
      (∀ a value, (AddressSpace.peek a c.bus).1 = some value →
        AddressSpace.read a c.bus = (.ok value, c.bus)) ∧
      ∀ run : List (HostAction ⊕ Observation),
        c.answersWatched run = c.answers (run.filterMap Sum.getLeft?) ∧
          c.afterWatched run = c.after (run.filterMap Sum.getLeft?) :=
  ⟨fun o => o.perform_eq c,
    fun a value h => (Board.candid c.bus a value _ (Prod.ext h rfl)).2,
    c.watched_eq⟩

/-- Work RAM is cleared at first, and the stack page is not hidden. -/
theorem observation_free_stack_page :
    (AddressSpace.peek 0x01FD initial.bus).1 = some 0 ∧
      AddressSpace.read 0x01FD initial.bus = (.ok 0, initial.bus) := by
  have hpeek : (AddressSpace.peek 0x01FD initial.bus).1 = some 0 := by decide +kernel
  exact ⟨hpeek, (observation_free initial).2.1 0x01FD 0 hpeek⟩

end Console

end Famicom
