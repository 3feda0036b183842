import Famicom.Proofs.Cpu.Outcome

/-!
# What all actions have in common

The actions of the processor are composed of a few : a look at the processor, a change of it, and a
byte read or written. So a relation that holds of these and that composition keeps holds of all
actions, and the walk over them is made here once. The relation is between an action on one bus and
the same action on another; a property of actions is the case in which the second bus is the first
and is not looked at.

Some relations hold of few changes of the processor and of no writes. They still reach what comes
before an operand is used : its bytes are fetched, it is located and loaded (`FetchClosed`), and if
the flags may change as well, handlers are found (`ReadClosed`). The others reach all of an
instruction (`ActionClosed`).
-/

namespace Famicom.CpuM

variable {γ β : Type} [AddressSpace γ] [AddressSpace β]

/-- A relation that composition keeps and that holds of looks and reads. -/
structure Composes (R : ∀ α : Type, CpuM γ α → CpuM β α → Prop) : Prop where
  pure : ∀ {α : Type} (a : α), R α (Pure.pure a) (Pure.pure a)
  seq : ∀ {α δ : Type} {m : CpuM γ α} {m' : CpuM β α} {k : α → CpuM γ δ} {k' : α → CpuM β δ},
    R α m m' → (∀ a, R δ (k a) (k' a)) → R δ (m >>= k) (m' >>= k')
  cpu : R Cpu cpu cpu
  readByte : ∀ a, R UInt8 (readByte a) (readByte a)

/-- It holds of jumps, too. -/
structure FetchClosed (R : ∀ α : Type, CpuM γ α → CpuM β α → Prop) : Prop extends Composes R where
  goto : ∀ target : Cpu → UInt16, R Unit (update fun c => { c with pc := target c })
    (update fun c => { c with pc := target c })

/-- It holds of changes of the flags, too. -/
structure ReadClosed (R : ∀ α : Type, CpuM γ α → CpuM β α → Prop) : Prop
    extends FetchClosed R where
  flags : ∀ f : Registers → Status, R Unit (compute fun r => { r with status := f r })
    (compute fun r => { r with status := f r })

/-- It holds of every change of the processor and of writes. -/
structure ActionClosed (R : ∀ α : Type, CpuM γ α → CpuM β α → Prop) : Prop extends Composes R where
  update : ∀ f : Cpu → Cpu, R Unit (update f) (update f)
  writeByte : ∀ a value, R Unit (writeByte a value) (writeByte a value)

/-! ## Up to the operand -/

namespace FetchClosed

variable {R : ∀ α : Type, CpuM γ α → CpuM β α → Prop} (hR : FetchClosed R)

include hR

theorem readWord (lo hi : UInt16) : R UInt16 (readWord lo hi) (readWord lo hi) :=
  hR.seq (hR.readByte lo) fun _ => hR.seq (hR.readByte hi) fun _ => hR.pure _

theorem fetchByte : R UInt8 fetchByte fetchByte :=
  hR.seq hR.cpu fun _ => hR.seq (hR.readByte _) fun _ => hR.seq (hR.goto _) fun _ => hR.pure _

theorem fetchWord : R UInt16 fetchWord fetchWord :=
  hR.seq hR.fetchByte fun _ => hR.seq hR.fetchByte fun _ => hR.pure _

theorem load (operand : Operand) : R UInt8 operand.load operand.load := by
  cases operand with
  | implied => exact hR.pure _
  | accumulator => exact hR.seq hR.cpu fun _ => hR.pure _
  | address a => exact hR.readByte a

theorem resolve (mode : AddressingMode) : R Resolved mode.resolve mode.resolve := by
  cases mode with
  | implied | accumulator => exact hR.pure _
  | immediate => exact hR.seq hR.cpu fun _ => hR.seq (hR.goto _) fun _ => hR.pure _
  | zeroPage => exact hR.seq hR.fetchByte fun _ => hR.pure _
  | zeroPageX | zeroPageY | relative =>
    exact hR.seq hR.fetchByte fun _ => hR.seq hR.cpu fun _ => hR.pure _
  | absolute => exact hR.seq hR.fetchWord fun _ => hR.pure _
  | absoluteX | absoluteY =>
    exact hR.seq hR.fetchWord fun _ => hR.seq hR.cpu fun _ => hR.pure _
  | indirect => exact hR.seq hR.fetchWord fun _ => hR.seq (hR.readWord _ _) fun _ => hR.pure _
  | indirectX =>
    exact hR.seq hR.fetchByte fun _ => hR.seq hR.cpu fun _ => hR.seq (hR.readWord _ _) fun _ =>
      hR.pure _
  | indirectY =>
    exact hR.seq hR.fetchByte fun _ => hR.seq (hR.readWord _ _) fun _ => hR.seq hR.cpu fun _ =>
      hR.pure _

end FetchClosed

theorem ReadClosed.enterHandler {R : ∀ α : Type, CpuM γ α → CpuM β α → Prop} (hR : ReadClosed R)
    (request : Interrupt) : R Unit (enterHandler request) (enterHandler request) :=
  hR.seq (hR.flags _) fun _ => hR.seq (hR.readWord _ _) fun _ => hR.goto _

/-! ## All of an instruction -/

namespace ActionClosed

variable {R : ∀ α : Type, CpuM γ α → CpuM β α → Prop} (hR : ActionClosed R)

include hR

theorem readClosed : ReadClosed R where
  toComposes := hR.toComposes
  goto _ := hR.update _
  flags _ := hR.update _

theorem pushByte (value : UInt8) : R Unit (CpuM.push value) (CpuM.push value) :=
  hR.seq hR.cpu fun _ => hR.seq (hR.writeByte _ _) fun _ => hR.update _

theorem pushWord (w : UInt16) : R Unit (pushWord w) (pushWord w) :=
  hR.seq (hR.pushByte _) fun _ => hR.pushByte _

theorem pull : R UInt8 CpuM.pull CpuM.pull :=
  hR.seq (hR.update _) fun _ => hR.seq hR.cpu fun _ => hR.readByte _

theorem pullWord : R UInt16 pullWord pullWord :=
  hR.seq hR.pull fun _ => hR.seq hR.pull fun _ => hR.pure _

theorem store (operand : Operand) (value : UInt8) :
    R Unit (operand.store value) (operand.store value) := by
  cases operand with
  | implied => exact hR.pure _
  | accumulator => exact hR.update fun c => { c with a := value }
  | address a => exact hR.writeByte a value

theorem enterHandler (request : Interrupt) :
    R Unit (enterHandler request) (enterHandler request) :=
  hR.readClosed.enterHandler request

theorem run (operand : Operand) (action : Action) :
    R Nat (action.run operand) (action.run operand) := by
  have hload := hR.readClosed.load operand
  have finish (f : Cpu → Cpu) : R Nat (do CpuM.update f; return 0) (do CpuM.update f; return 0) :=
    hR.seq (hR.update f) fun _ => hR.pure _
  cases action with
  | load use => exact hR.seq hload fun _ => finish _
  | store value => exact hR.seq hR.cpu fun _ => hR.seq (hR.store operand _) fun _ => hR.pure _
  | modify change use =>
    exact hR.seq hload fun _ => hR.seq hR.cpu fun _ => hR.seq (hR.update _) fun _ =>
      hR.seq (hR.store operand _) fun _ => finish _
  | adjust f => exact finish _
  | branch taken =>
    refine hR.seq hR.cpu fun c => ?_
    split
    · exact hR.seq (hR.update _) fun _ => hR.pure _
    · exact hR.pure _
  | jump => exact finish _
  | call => exact hR.seq hR.cpu fun _ => hR.seq (hR.pushWord _) fun _ => finish _
  | ret => exact hR.seq hR.pullWord fun _ => finish _
  | retInterrupt =>
    exact hR.seq hR.pull fun _ => hR.seq (hR.update _) fun _ => hR.seq hR.pullWord fun _ => finish _
  | trap =>
    exact hR.seq hR.cpu fun _ => hR.seq (hR.pushWord _) fun _ => hR.seq (hR.pushByte _) fun _ =>
      hR.seq (hR.enterHandler _) fun _ => hR.pure _
  | push value => exact hR.seq hR.cpu fun _ => hR.seq (hR.pushByte _) fun _ => hR.pure _
  | pull use => exact hR.seq hR.pull fun _ => finish _

theorem serve (request : Interrupt) : R Unit (serve request) (serve request) := by
  cases request with
  | reset => exact hR.seq (hR.update _) fun _ => hR.enterHandler _
  | nmi | irq =>
    exact hR.seq hR.cpu fun _ => hR.seq (hR.pushWord _) fun _ => hR.seq (hR.pushByte _) fun _ =>
      hR.enterHandler _

theorem execute (i : Instruction) : R Nat (execute i) (execute i) :=
  hR.seq (hR.update _) fun _ => hR.seq (hR.readClosed.resolve _) fun _ =>
    hR.seq (hR.run _ _) fun _ => hR.pure _

end ActionClosed

end Famicom.CpuM
