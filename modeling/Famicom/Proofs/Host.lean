import Famicom.Proofs.Console
import Famicom.Proofs.Ppu.Blank

/-!
# What the host does

The host owns the console. It plugs in cartridges, presses power and reset, lets the
console step, and reaches past it to the bus, the beam, the buttons and the processor
itself (`HostAction`). A run is a list of such actions, `after` is the console at its end,
`answers` is what its steps answered, and `succeeds` says that none of them faulted. A console
is `Reachable` if some run leads to it from the one before anything happened; faults on the way
are no obstacle.
-/

namespace Famicom

/-- One thing the host does. -/
inductive HostAction where
  /-- Read an image and put its cartridge into the slot. -/
  | insert (image : ByteArray)
  | powerUp
  | reset
  | step
  /-- Read a byte as the processor would. -/
  | read (a : UInt16)
  /-- Write a byte as the processor would. -/
  | write (a : UInt16) (value : UInt8)
  /-- Move the beam by one dot. -/
  | tick
  /-- Hold and release buttons. -/
  | press (controllers : ControllerPair)
  /-- Set the registers, the clock and the latch of the processor. -/
  | assign (cpu : Cpu)

namespace HostAction

/-- The console after an action, whether it failed or not. -/
def perform (c : Console) : HostAction → Console
  | insert image => (c.insertImage image).2
  | powerUp => c.powerUp
  | reset => c.reset
  | step => c.step.2
  | read a => { c with bus := (AddressSpace.read a c.bus).2 }
  | write a value => { c with bus := (AddressSpace.write a value c.bus).2 }
  | tick => { c with bus := { c.bus with ppu := c.bus.ppu.tick } }
  | press controllers => { c with bus := { c.bus with controllers } }
  | assign cpu => { c with cpu }

/-- An action is no step, or the step comes to its end. -/
def succeeds (c : Console) : HostAction → Bool
  | step => c.step.1.isOk
  | _ => true

/-- What a step answers; nothing else the host does is asked for an answer. -/
def answer? (c : Console) : HostAction → Option (Except ConsoleFault Nat)
  | step => some c.step.1
  | _ => none

theorem perform_step {c : Console} (h : step.succeeds c) :
    ∃ n e, c.settled? = some (n, e) ∧ step.perform c = Console.catchUp n e := by
  have hok : c.step.1.isOk = true := h
  cases hstep : c.step.1 with
  | ok n =>
    obtain ⟨e, he, hperform⟩ := Console.settled?_of_ok hstep
    exact ⟨n, e, he, hperform⟩
  | error fault =>
    rw [hstep] at hok
    cases hok

end HostAction

namespace Console

/-- The console at the end of a run. -/
def after (c : Console) (actions : List HostAction) : Console := actions.foldl HostAction.perform c

theorem after_cons (c : Console) (a : HostAction) (actions : List HostAction) :
    c.after (a :: actions) = (a.perform c).after actions :=
  rfl

theorem after_append (c : Console) (actions more : List HostAction) :
    c.after (actions ++ more) = (c.after actions).after more :=
  List.foldl_append

theorem after_replicate_tick (n : Nat) (c : Console) :
    c.after (List.replicate n .tick) =
      { c with bus := { c.bus with ppu := c.bus.ppu.ticks n } } := by
  induction n generalizing c with
  | zero => rfl
  | succ n ih =>
    rw [List.replicate_succ, after_cons, ih]
    rfl

/-- What the steps of a run answer. -/
def answers : Console → List HostAction → List (Except ConsoleFault Nat)
  | _, [] => []
  | c, a :: actions => (a.answer? c).toList ++ answers (a.perform c) actions

/-- Every step of a run comes to its end. -/
def succeeds : Console → List HostAction → Bool
  | _, [] => true
  | c, a :: actions => a.succeeds c && succeeds (a.perform c) actions

theorem succeeds_cons {c : Console} {a : HostAction} {actions : List HostAction} :
    c.succeeds (a :: actions) ↔ a.succeeds c ∧ (a.perform c).succeeds actions := by
  rw [succeeds, Bool.and_eq_true]

/-- Some run leads to the console from the one before anything happened. -/
def Reachable (c : Console) : Prop := ∃ actions, initial.after actions = c

/-- What holds at the beginning and is kept by every action holds of all that is reachable. -/
theorem Reachable.elim {P : Console → Prop} (start : P initial)
    (keeps : ∀ c a, P c → P (HostAction.perform c a)) {c : Console} (h : c.Reachable) : P c := by
  obtain ⟨actions, rfl⟩ := h
  suffices ∀ d, P d → P (d.after actions) from this initial start
  induction actions with
  | nil => exact fun d hd => hd
  | cons a actions ih => exact fun d hd => ih _ (keeps d a hd)

/-! ## The beam under the host's hand -/

theorem insertImage_cpu (c : Console) (image : ByteArray) :
    (c.insertImage image).2.cpu = c.cpu := by
  unfold insertImage
  split <;> rfl

theorem insertImage_ram (c : Console) (image : ByteArray) :
    (c.insertImage image).2.bus.ram = c.bus.ram := by
  unfold insertImage
  split <;> rfl

theorem quiet_insertImage (c : Console) (image : ByteArray) :
    Ppu.Quiet c.bus.ppu (c.insertImage image).2.bus.ppu := by
  unfold insertImage
  split
  · exact ⟨⟨rfl, id⟩, rfl, rfl⟩
  · exact Ppu.Quiet.refl _

theorem reset_cycles (c : Console) : c.reset.cpu.cycles = c.cpu.cycles := raise_cycles _ _

/-- A step may fault; then the beam stands. -/
theorem step_cases (c : Console) :
    Ppu.Still c.bus.ppu c.step.2.bus.ppu ∨
      ∃ n e, c.settled? = some (n, e) ∧ c.step.2 = catchUp n e := by
  have hleft := still_left_step c
  cases hstep : CpuM.step c with
  | error fault d =>
    rw [CpuM.left_of_error hstep] at hleft
    rw [step, hstep]
    exact Or.inl hleft
  | ok cycles d =>
    rw [CpuM.left_of_ok hstep] at hleft
    have hquiet := quiet_serveTransfer d
    rcases htransfer : serveTransfer d with ⟨fault | stall, e⟩ <;> rw [htransfer] at hquiet
    · rw [step, hstep]
      simp only [htransfer]
      exact Or.inl (hleft.trans hquiet.toStill)
    · refine Or.inr ⟨cycles + stall, e, ?_, ?_⟩
      · simp only [settled?, hstep, htransfer]
      · simp only [step, hstep, htransfer]

theorem timed_perform {c : Console} (a : HostAction) (h : c.bus.ppu.Timed) :
    (a.perform c).bus.ppu.Timed := by
  have still {q : Ppu} (hstill : Ppu.Still c.bus.ppu q) : q.Timed :=
    h.of_beam_eq hstill.beam hstill.blank
  cases a with
  | insert image => exact still (quiet_insertImage c image).toStill
  | powerUp => exact Ppu.timed_start rfl rfl
  | step =>
    rw [HostAction.perform]
    rcases step_cases c with hstill | ⟨n, e, he, hstep⟩
    · exact still hstill
    · obtain ⟨-, -, hstill, -⟩ := settled?_spec he
      rw [hstep, catchUp_ppu]
      exact ((still hstill).ticks _).of_beam_eq rfl id
  | read a => exact still (Board.quiet_read a c.bus).toStill
  | write a value => exact still (Board.still_write a value c.bus)
  | tick => exact h.tick
  | reset | press | assign => exact h.of_beam_eq rfl id

/-- In every console that can be reached the flag of the vertical blank tells the truth. -/
theorem Reachable.timed {c : Console} (h : c.Reachable) : c.bus.ppu.Timed :=
  h.elim (P := fun c => c.bus.ppu.Timed) (Ppu.timed_start rfl rfl) fun _ a => timed_perform a

end Console

end Famicom
