import Famicom.AddressSpace
import Famicom.Event
import Famicom.Text.Quoted

/-!
# Buses

A `Bus σ` is an ordered table of routes over devices of state `σ`. A route names a
span of addresses and serves the accesses that fall into it; reads and writes have
tables of their own. The first route that covers an address serves it, and an
address no route covers faults. A read route is volatile if reading it disturbs
its device : `peek` declines there.

Where several addresses reach one cell, the route's own service folds them. An
overlap of two routes is therefore a sign of a mistake, and registering a route
that an earlier one overlaps is reported (`shadowing`).
-/

namespace Famicom

/-! ## Spans and routes -/

/-- The addresses from `first` to `last`, both included. The span is empty if `last`
comes before `first`. -/
structure Span where
  first : UInt16
  last : UInt16
  deriving DecidableEq, Repr

namespace Span

/-- The address lies in the span. -/
def contains (s : Span) (a : UInt16) : Bool := s.first ≤ a && a ≤ s.last

/-- Neither span ends before the other begins. For two nonempty spans this says that
they share an address. -/
def overlaps (s t : Span) : Bool := s.first ≤ t.last && t.first ≤ s.last

/-- An address in both of two spans makes them overlap. -/
theorem overlaps_of_contains {s t : Span} {a : UInt16} (hs : s.contains a) (ht : t.contains a) :
    s.overlaps t := by
  simp only [contains, overlaps, Bool.and_eq_true, decide_eq_true_eq] at *
  exact ⟨UInt16.le_trans hs.1 ht.2, UInt16.le_trans ht.1 hs.2⟩

end Span

/-- A named span of addresses. -/
structure Route where
  name : String
  span : Span
  deriving DecidableEq, Repr

/-- The route as it stands in reports, for instance `ram 0000-1FFF`. -/
def Route.label (r : Route) : String :=
  r.name ++ " " ++ Text.hex16 r.span.first ++ "-" ++ Text.hex16 r.span.last

/-- A route that serves reads. -/
structure ReadRoute (σ : Type) extends Route where
  /-- Reading disturbs the device. -/
  volatile : Bool
  serve : UInt16 → σ → Except BusFault UInt8 × σ

/-- A route that serves writes. -/
structure WriteRoute (σ : Type) extends Route where
  serve : UInt16 → UInt8 → σ → Except BusFault Unit × σ

/-- The first of the routes that overlaps a new one. -/
def shadowing (earlier : List Route) (new : Route) : Option Route :=
  earlier.find? fun r => r.span.overlaps new.span

/-! ## The table -/

/-- Two ordered tables of routes. -/
structure Bus (σ : Type) where
  name : String
  reads : List (ReadRoute σ)
  writes : List (WriteRoute σ)

namespace Bus

variable {σ : Type}

/-- The bus without routes. -/
def empty (name : String) : Bus σ := ⟨name, [], []⟩

/-- Drop every route and keep the name. -/
def clear (b : Bus σ) : Bus σ := empty b.name

/-- Add a read route behind the present ones. -/
def addRead (b : Bus σ) (r : ReadRoute σ) : Bus σ := { b with reads := b.reads ++ [r] }

/-- Add a write route behind the present ones. -/
def addWrite (b : Bus σ) (r : WriteRoute σ) : Bus σ := { b with writes := b.writes ++ [r] }

/-- Route reads of a span that leave the devices undisturbed. -/
def mapRead (b : Bus σ) (name : String) (first last : UInt16)
    (serve : UInt16 → σ → Except BusFault UInt8 × σ) : Bus σ :=
  b.addRead ⟨⟨name, ⟨first, last⟩⟩, false, serve⟩

/-- Route reads of a span that disturb their device. -/
def mapVolatile (b : Bus σ) (name : String) (first last : UInt16)
    (serve : UInt16 → σ → Except BusFault UInt8 × σ) : Bus σ :=
  b.addRead ⟨⟨name, ⟨first, last⟩⟩, true, serve⟩

/-- Route writes of a span. -/
def mapWrite (b : Bus σ) (name : String) (first last : UInt16)
    (serve : UInt16 → UInt8 → σ → Except BusFault Unit × σ) : Bus σ :=
  b.addWrite ⟨⟨name, ⟨first, last⟩⟩, serve⟩

/-! ## Dispatch -/

/-- The route that serves reads of an address. -/
def readRoute (b : Bus σ) (a : UInt16) : Option (ReadRoute σ) :=
  b.reads.find? fun r => r.span.contains a

/-- The route that serves writes of an address. -/
def writeRoute (b : Bus σ) (a : UInt16) : Option (WriteRoute σ) :=
  b.writes.find? fun r => r.span.contains a

/-- The name of the route that serves reads of an address. -/
def readRouteName (b : Bus σ) (a : UInt16) : Option String :=
  (b.readRoute a).map fun r => r.name

/-- Read through the first route that covers the address. -/
def read (b : Bus σ) (a : UInt16) (s : σ) : Except BusFault UInt8 × σ :=
  match b.readRoute a with
  | some r => r.serve a s
  | none => (.error ⟨.read, a⟩, s)

/-- Write through the first route that covers the address. -/
def write (b : Bus σ) (a : UInt16) (value : UInt8) (s : σ) : Except BusFault Unit × σ :=
  match b.writeRoute a with
  | some r => r.serve a value s
  | none => (.error ⟨.write, a⟩, s)

/-- Look at an address without disturbing a device. Nothing is seen where the route is
volatile, missing or refuses. -/
def peek (b : Bus σ) (a : UInt16) (s : σ) : Option UInt8 × σ :=
  match b.readRoute a with
  | none => (none, s)
  | some r =>
    if r.volatile then (none, s)
    else
      match r.serve a s with
      | (.ok value, s) => (some value, s)
      | (.error _, s) => (none, s)

/-! ## Reports -/

/-- The report due when a read route is added. -/
def readEvents (b : Bus σ) (new : Route) : List Event :=
  (shadowing (b.reads.map (·.toRoute)) new).toList.map fun r =>
    .routeShadowed b.name "read" new.label r.label

/-- The report due when a write route is added. -/
def writeEvents (b : Bus σ) (new : Route) : List Event :=
  (shadowing (b.writes.map (·.toRoute)) new).toList.map fun r =>
    .routeShadowed b.name "write" new.label r.label

/-- The labels of routes as a quoted list in brackets. -/
def labelList (routes : List Route) : String :=
  "[" ++ ", ".intercalate (routes.map fun r => Text.quote r.label) ++ "]"

/-- The bus as a debugging dump shows it : its name and the labels of its routes. -/
def dump (b : Bus σ) : String :=
  "Bus \x7b name: " ++ Text.quote b.name ++ ", reads: " ++ labelList (b.reads.map (·.toRoute))
    ++ ", writes: " ++ labelList (b.writes.map (·.toRoute)) ++ " \x7d"

end Bus

end Famicom
