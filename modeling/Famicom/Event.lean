import Famicom.Text.Hex

/-!
# Diagnostic events

What the machine has to report beside its results : an image that was accepted, a
route that can never be reached in full, an instruction about to run, a register
write, the start of the vertical blank, a transfer, a fault, a write that went
nowhere. An `Event` carries the facts; `Event.text` is its wording and
`Event.level` its urgency. Events never change a result, so each part of the
machine states them as a function of its state.

Four of them are frequent and have a switch of their own (`EventSwitches`).
-/

namespace Famicom

/-- How urgent an event is. -/
inductive Level where
  | error
  | warning
  | information
  | detail
  | trace
  deriving DecidableEq, Repr

/-- The word that stands before the text of an event. -/
def Level.name : Level → String
  | .error => "ERROR"
  | .warning => "WARN"
  | .information => "INFO"
  | .detail => "DEBUG"
  | .trace => "TRACE"

/-- One thing to report. -/
inductive Event where
  /-- An image was accepted, with its sizes in KiB. -/
  | cartridgeAccepted (mapper : UInt8) (prgKiB chrKiB : Nat) (chrRam : Bool) (mirroring : String)
  /-- The image asks for a mapper that is not modelled. -/
  | mapperIgnored (mapper : UInt8)
  /-- A new route overlaps an earlier one, which answers where both apply. -/
  | routeShadowed (bus direction route earlier : String)
  /-- An instruction was decoded and is about to run. -/
  | instruction (pc : UInt16) (opcode : UInt8) (name : String) (a x y p sp : UInt8) (cycles : Nat)
  /-- A picture register was written while the beam stood at this position. -/
  | registerWrite (address : UInt16) (value : UInt8) (scanline dot : Nat)
  /-- The vertical blank began. -/
  | verticalBlank (frame : Nat) (raised : Bool)
  /-- A page was copied to sprite memory. -/
  | spriteTransfer (address : UInt16) (stall : Nat)
  /-- A write to PRG ROM went nowhere. -/
  | romWriteDropped (address : UInt16) (value : UInt8)
  /-- An operation failed with this message. -/
  | failure (message : String)
  deriving DecidableEq, Repr

namespace Event

/-- The urgency of an event. -/
def level : Event → Level
  | .cartridgeAccepted .. => .information
  | .mapperIgnored .. | .routeShadowed .. => .warning
  | .instruction .. | .romWriteDropped .. => .trace
  | .registerWrite .. | .verticalBlank .. | .spriteTransfer .. => .detail
  | .failure .. => .error

open Text in
/-- The wording of an event. -/
def text : Event → String
  | .cartridgeAccepted mapper prgKiB chrKiB chrRam mirroring =>
    "cartridge: mapper " ++ toString mapper.toNat ++ ", PRG " ++ toString prgKiB ++ " KiB, CHR "
      ++ toString chrKiB ++ " KiB" ++ (if chrRam then " (RAM)" else "") ++ ", " ++ mirroring
      ++ " mirroring"
  | .mapperIgnored mapper =>
    "mapper " ++ toString mapper.toNat ++ " is not emulated; mapping the image as NROM"
  | .routeShadowed bus direction route earlier =>
    bus ++ " bus: " ++ direction ++ " route " ++ route ++ " is shadowed by " ++ earlier
  | .instruction pc opcode name a x y p sp cycles =>
    hex16 pc ++ "  " ++ hex8 opcode ++ "  " ++ padRight 4 name ++ " A:" ++ hex8 a ++ " X:" ++ hex8 x
      ++ " Y:" ++ hex8 y ++ " P:" ++ hex8 p ++ " SP:" ++ hex8 sp ++ " CYC:" ++ toString cycles
  | .registerWrite address value scanline dot =>
    "PPU write $" ++ hex16 address ++ " = " ++ hex8 value ++ " at scanline " ++ toString scanline
      ++ " dot " ++ toString dot
  | .verticalBlank frame raised =>
    "VBlank frame " ++ toString frame ++ " (NMI " ++ (if raised then "raised" else "masked") ++ ")"
  | .spriteTransfer address stall =>
    "OAM DMA from $" ++ hex16 address ++ ", " ++ toString stall ++ " cycle stall"
  | .romWriteDropped address value =>
    "write $" ++ hex8 value ++ " to PRG ROM at $" ++ hex16 address ++ " dropped"
  | .failure message => message

/-- The event as one line of a journal : its level, a blank and its text. -/
def line (e : Event) : String := e.level.name ++ " " ++ e.text

end Event

/-! ## Switches -/

/-- Which of the frequent events are wanted. -/
structure EventSwitches where
  trace : Bool
  registerWrites : Bool
  transfers : Bool
  interrupts : Bool
  deriving DecidableEq, Repr

namespace EventSwitches

/-- The settings that turn a switch on. Any other setting leaves it off. -/
def isOn (setting : String) : Bool :=
  ["1", "true", "TRUE", "on", "ON"].contains setting

/-- The switches as an environment sets them; a variable it lacks leaves its switch off. -/
def ofEnvironment (setting? : String → Option String) : EventSwitches :=
  let on (name : String) : Bool := ((setting? name).map isOn).getD false
  ⟨on "DEBUG_TRACE", on "DEBUG_PPU_WRITE", on "DEBUG_DMA", on "DEBUG_NMI"⟩

/-- Every switch is on. -/
def allOn : EventSwitches := ⟨true, true, true, true⟩

/-- Whether the event is wanted. The rare ones always are. -/
def wants (s : EventSwitches) : Event → Bool
  | .instruction .. => s.trace
  | .registerWrite .. => s.registerWrites
  | .spriteTransfer .. => s.transfers
  | .verticalBlank .. => s.interrupts
  | _ => true

/-- The lines of the events that are wanted, in order. -/
def journal (s : EventSwitches) (events : List Event) : List String :=
  (events.filter s.wants).map Event.line

end EventSwitches

end Famicom
