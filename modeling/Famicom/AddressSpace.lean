import Famicom.Memory
import Famicom.Text.Hex

/-!
# Address spaces

An address space answers reads and writes of a 16-bit address. An access can be
refused (`BusFault`), and it can change the devices behind it, reads included : so
`AddressSpace β` threads a state of type `β` through every access. `peek` is the
look that a trace or a listing takes; it may decline.

Two instances are generic. A 64 KiB `Memory` answers every access.
`Recorded β` passes each access on to `β` and keeps the bus cycles in order, which
is how the accesses of one processor step are observed.
-/

namespace Famicom

/-! ## Faults -/

/-- The direction of an access. -/
inductive Access where
  | read
  | write
  deriving DecidableEq, Repr

/-- The direction as it stands in messages. -/
def Access.name : Access → String
  | .read => "read"
  | .write => "write"

/-- No device answers an access of this direction at this address. -/
structure BusFault where
  access : Access
  address : UInt16
  deriving DecidableEq, Repr

/-- The text of the fault. -/
def BusFault.message (f : BusFault) : String :=
  "unmapped " ++ f.access.name ++ " at $" ++ Text.hex16 f.address

/-! ## The class -/

/-- Devices of state `β` that answer the accesses of a 16-bit address space. -/
class AddressSpace (β : Type) where
  /-- The byte at an address, and the devices after the read. -/
  read : UInt16 → β → Except BusFault UInt8 × β
  /-- Store a byte at an address. -/
  write : UInt16 → UInt8 → β → Except BusFault Unit × β
  /-- The byte at an address as an observer sees it. Unless an address space says
  otherwise, this is a read whose fault goes unreported. -/
  peek : UInt16 → β → Option UInt8 × β := fun a s =>
    match read a s with
    | (.ok value, s) => (some value, s)
    | (.error _, s) => (none, s)

/-- A memory of 64 KiB answers every access. -/
instance : AddressSpace (Memory 0x10000) where
  read a m := (.ok (m.read a.toNat), m)
  write a value m := (.ok (), m.write a.toNat value)

/-! ## Recording -/

/-- One access as it appears on the bus, and whether a device answered it. -/
inductive BusCycle where
  | read (address : UInt16) (answered : Bool)
  | write (address : UInt16) (value : UInt8) (answered : Bool)
  deriving DecidableEq, Repr

/-- Whether the cycle was refused. -/
def BusCycle.faulted : BusCycle → Bool
  | .read _ answered => !answered
  | .write _ _ answered => !answered

/-- An address space together with the bus cycles so far, oldest first. -/
structure Recorded (β : Type) where
  bus : β
  cycles : List BusCycle := []

/-- An outcome is an answer rather than a fault. -/
def answered {α : Type} : Except BusFault α → Bool
  | .ok _ => true
  | .error _ => false

/-- Accesses are passed on and noted; an observer's look is passed on only. -/
instance {β : Type} [AddressSpace β] : AddressSpace (Recorded β) where
  read a r :=
    match AddressSpace.read a r.bus with
    | (outcome, bus) => (outcome, ⟨bus, r.cycles ++ [.read a (answered outcome)]⟩)
  write a value r :=
    match AddressSpace.write a value r.bus with
    | (outcome, bus) => (outcome, ⟨bus, r.cycles ++ [.write a value (answered outcome)]⟩)
  peek a r :=
    match AddressSpace.peek a r.bus with
    | (seen, bus) => (seen, ⟨bus, r.cycles⟩)

end Famicom
