/-!
# Controllers

A controller latches its eight buttons and hands them out one per read, A first. As
long as the strobe is high it latches over and over, so every read answers the A
button; the fall of the strobe leaves the buttons of that moment in the shift
register. After the eighth read a controller answers ones. Only the low data line
carries the answer, the others read as `openBus`.

A `ControllerPair` is two controllers with a common strobe.
-/

namespace Famicom

/-- What the unconnected data lines read as. -/
def openBus : UInt8 := 0x40

/-- A controller. The buttons are bits of a byte : A, B, select, start, up, down, left and
right, from bit 0 on. -/
structure Controller where
  buttons : UInt8 := 0
  /-- The buttons still to be handed out, the next one in bit 0. -/
  shifted : UInt8 := 0
  /-- How many buttons were handed out since the latch, eight at most. -/
  handedOut : Nat := 0
  strobe : Bool := false
  deriving DecidableEq, Repr

namespace Controller

/-- Take the buttons into the shift register. -/
def latch (c : Controller) : Controller := { c with shifted := c.buttons, handedOut := 0 }

/-- Hold the buttons of a mask and release the others. -/
def setButtons (c : Controller) (held : UInt8) : Controller :=
  let c := { c with buttons := held }
  if c.strobe then c.latch else c

/-- Hold or release the buttons of a mask and leave the others as they are. -/
def setButton (c : Controller) (mask : UInt8) (held : Bool) : Controller :=
  c.setButtons (if held then c.buttons ||| mask else c.buttons &&& ~~~mask)

/-- Set the strobe by the low bit of a byte. -/
def writeStrobe (c : Controller) (value : UInt8) : Controller :=
  let high := value &&& 1 != 0
  let latched := if c.strobe || high then c.latch else c
  { latched with strobe := high }

/-- Read one bit. -/
def read (c : Controller) : UInt8 × Controller :=
  if c.strobe then (openBus ||| c.buttons &&& 1, c)
  else if 8 ≤ c.handedOut then (openBus ||| 1, c)
  else
    (openBus ||| c.shifted &&& 1,
      { c with shifted := c.shifted >>> 1, handedOut := c.handedOut + 1 })

end Controller

/-- The two controllers of the console. -/
structure ControllerPair where
  first : Controller := {}
  second : Controller := {}
  deriving DecidableEq, Repr

namespace ControllerPair

/-- Set the strobe of both controllers. -/
def writeStrobe (p : ControllerPair) (value : UInt8) : ControllerPair :=
  ⟨p.first.writeStrobe value, p.second.writeStrobe value⟩

/-- Read the first controller at an even address and the second at an odd one. -/
def read (p : ControllerPair) (a : UInt16) : UInt8 × ControllerPair :=
  if a &&& 1 = 0 then
    match p.first.read with
    | (value, first) => (value, { p with first })
  else
    match p.second.read with
    | (value, second) => (value, { p with second })

/-- Change one controller, the first or the second. -/
def update (p : ControllerPair) (second : Bool) (f : Controller → Controller) : ControllerPair :=
  if second then { p with second := f p.second } else { p with first := f p.first }

end ControllerPair

end Famicom
