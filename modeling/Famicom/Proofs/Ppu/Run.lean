import Famicom.Proofs.Board
import Famicom.Proofs.Ppu.Blank

/-!
# What happens to the picture unit

Time passes, the processor reads and writes registers, a transfer stores sprites, the console
takes the request for an interrupt, and the reset line is pulled (`PpuAction`). A run is any list
of these, and `after` is the picture unit at its end. Accesses that are refused are part of it.

Only a tick moves the beam or sets the flag of the vertical blank (`still_perform`), so what the
ticks keep of the two is kept by every run. An access through the data register changes nothing of
the registers but the current address, on which it moves (`regs_readData`, `regs_writeData`).
-/

namespace Famicom

/-- One thing that happens to the picture unit. -/
inductive PpuAction where
  /-- The beam moves by one dot. -/
  | tick
  | read (register : PpuRegister)
  | write (register : PpuRegister) (value : UInt8)
  /-- A byte of a transfer is stored in the sprite memory. -/
  | writeOam (value : UInt8)
  /-- The request for an interrupt is taken. -/
  | poll
  | reset
  deriving DecidableEq, Repr

/-- The picture unit after an action, whether it was refused or not. -/
def PpuAction.perform (p : Ppu) : PpuAction → Ppu
  | tick => p.tick
  | read register => (p.read register).2
  | write register value => (p.write register value).2
  | writeOam value => p.writeOam value
  | poll => p.takeInterrupt.2
  | reset => p.reset

namespace Ppu

/-- The picture unit at the end of a run. -/
def after (p : Ppu) (actions : List PpuAction) : Ppu := actions.foldl PpuAction.perform p

theorem after_cons (p : Ppu) (a : PpuAction) (actions : List PpuAction) :
    p.after (a :: actions) = (a.perform p).after actions :=
  rfl

theorem after_append (p : Ppu) (actions more : List PpuAction) :
    p.after (actions ++ more) = (p.after actions).after more :=
  List.foldl_append

theorem after_replicate_tick (n : Nat) (p : Ppu) :
    p.after (List.replicate n .tick) = ticks n p := by
  induction n generalizing p with
  | zero => rfl
  | succ n ih => exact ih p.tick

theorem regs_readData (p : Ppu) :
    p.readData.2.regs = p.regs ∨ p.readData.2.regs = p.regs.advance := by
  unfold readData
  dsimp only
  split
  · split
    · exact Or.inl rfl
    · split
      · exact Or.inl rfl
      · exact Or.inr rfl
  · split
    · exact Or.inl rfl
    · exact Or.inr rfl

theorem regs_writeData (p : Ppu) (value : UInt8) :
    (p.writeData value).2.regs = p.regs ∨ (p.writeData value).2.regs = p.regs.advance := by
  unfold writeData
  split
  · exact Or.inl rfl
  · exact Or.inr rfl

/-- Of the registers that can be read, the status changes by it, and the address of the data. -/
theorem regs_read (p : Ppu) {register : PpuRegister} (h : register ≠ .status) :
    (p.read register).2.regs = p.regs ∨ (p.read register).2.regs = p.regs.advance := by
  cases register with
  | status => exact absurd rfl h
  | data =>
    obtain ⟨value, hread⟩ := p.exists_read_data
    rw [hread]
    exact p.regs_readData
  | _ => exact Or.inl rfl

theorem still_perform (p : Ppu) {a : PpuAction} (h : a ≠ .tick) : Still p (a.perform p) := by
  cases a with
  | tick => exact absurd rfl h
  | read register => exact (p.quiet_read register).toStill
  | write register value =>
    by_cases hcontrol : register = .control
    · subst hcontrol
      exact ⟨rfl, id⟩
    · exact (p.quiet_write value hcontrol).toStill
  | writeOam | poll | reset => exact ⟨rfl, id⟩

theorem beam_perform (p : Ppu) {a : PpuAction} (h : a ≠ .tick) : (a.perform p).beam = p.beam :=
  (p.still_perform h).beam

theorem timed_perform {p : Ppu} (a : PpuAction) (h : p.Timed) : (a.perform p).Timed := by
  by_cases htick : a = .tick
  · subst htick
    exact h.tick
  · have hstill := p.still_perform htick
    exact h.of_beam_eq hstill.beam hstill.blank

theorem timed_after {p : Ppu} (actions : List PpuAction) (h : p.Timed) :
    (p.after actions).Timed := by
  induction actions generalizing p with
  | nil => exact h
  | cons a actions ih => exact ih (timed_perform a h)

theorem timed_fresh (video : VideoSpace) : (fresh video).Timed := timed_start rfl rfl

end Ppu

end Famicom
