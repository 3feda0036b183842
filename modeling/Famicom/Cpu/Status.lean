/-!
# Status flags

The status register is eight flags. As a byte (`toByte`, `ofByte`) it goes to the
stack and comes back. Two of the bits hold no flag of the processor : bit 4 only
tells, in a byte on the stack, whether an instruction pushed it (`pushed`) or an
interrupt did (`interrupted`), and bit 5 is always set. `restored` therefore takes
the other six from a byte and puts these two where they belong.
-/

namespace Famicom

/-- The status flags, from bit 0 to bit 7. -/
structure Status where
  carry : Bool
  zero : Bool
  interruptDisable : Bool
  decimal : Bool
  breakMark : Bool
  unused : Bool
  overflow : Bool
  negative : Bool
  deriving DecidableEq, Repr

namespace Status

/-- The flags of a byte. -/
def ofByte (b : UInt8) : Status where
  carry := b &&& 0x01 != 0
  zero := b &&& 0x02 != 0
  interruptDisable := b &&& 0x04 != 0
  decimal := b &&& 0x08 != 0
  breakMark := b &&& 0x10 != 0
  unused := b &&& 0x20 != 0
  overflow := b &&& 0x40 != 0
  negative := b &&& 0x80 != 0

/-- The byte of the flags. -/
def toByte (s : Status) : UInt8 :=
  (if s.carry then 0x01 else 0) ||| (if s.zero then 0x02 else 0) |||
  (if s.interruptDisable then 0x04 else 0) ||| (if s.decimal then 0x08 else 0) |||
  (if s.breakMark then 0x10 else 0) ||| (if s.unused then 0x20 else 0) |||
  (if s.overflow then 0x40 else 0) ||| (if s.negative then 0x80 else 0)

theorem ofByte_toByte (s : Status) : ofByte s.toByte = s := by
  obtain ⟨c, z, i, d, b, u, v, n⟩ := s
  cases c <;> cases z <;> cases i <;> cases d <;> cases b <;> cases u <;> cases v <;>
    cases n <;> rfl

/-- The flags at power-up : interrupts disabled, bit 5 set. -/
def powerUp : Status := ofByte 0x24

/-- The flags as an instruction pushes them. -/
def pushed (s : Status) : Status := { s with breakMark := true, unused := true }

/-- The flags as an interrupt pushes them. -/
def interrupted (s : Status) : Status := { s with breakMark := false, unused := true }

/-- The flags taken back from a byte on the stack. -/
def restored (b : UInt8) : Status := (ofByte b).interrupted

/-- Interrupt requests are masked from now on. -/
def masking (s : Status) : Status := { s with interruptDisable := true }

/-- Set the zero and negative flags by a result. -/
def showing (s : Status) (result : UInt8) : Status :=
  { s with zero := result == 0, negative := result &&& 0x80 != 0 }

end Status

end Famicom
