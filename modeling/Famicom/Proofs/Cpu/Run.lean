import Famicom.Proofs.Cpu.Outcome

/-!
# What a host does with a processor

A host raises requests, presses the reset button, halts the processor and has it make steps, in any
order (`CpuAction`). A step comes with the bus it is made on : between two steps the host may
change the bus or put another one in its place, so nothing connects the buses of a run. A step that
fails is not the end of it, as the host may go on with the processor that the step has left.

What holds of a processor wherever a run has brought it follows from the same for one action
(`Cpu.after_of_perform`).
-/

namespace Famicom

/-- What a host does with a processor. -/
inductive CpuAction : Type 1 where
  | raise (request : Interrupt)
  | reset
  | stall (cycles : Nat)
  /-- Have it make a step on a bus. -/
  | step {β : Type} [AddressSpace β] (bus : β)

namespace Cpu

/-- The processor after an action of its host. -/
def perform (c : Cpu) : CpuAction → Cpu
  | .raise request => c.raise request
  | .reset => c.reset
  | .stall cycles => c.stall cycles
  | @CpuAction.step _ _ bus => (CpuM.left CpuM.step ⟨c, bus⟩).cpu

/-- The processor after a run of actions. -/
def after (c : Cpu) (run : List CpuAction) : Cpu := run.foldl perform c

/-- What every action keeps is kept by a run. -/
theorem after_of_perform {P : Cpu → Prop} (hP : ∀ c action, P c → P (perform c action)) {c : Cpu}
    (h : P c) (run : List CpuAction) : P (c.after run) := by
  induction run generalizing c with
  | nil => exact h
  | cons action run ih => exact ih (hP c action h)

end Cpu

end Famicom
