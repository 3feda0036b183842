import Famicom.Board
import Mathlib.Data.List.Find
import Mathlib.Data.List.Pairwise

/-!
# Registering routes

A bus is the sequence of its registrations (`register_registrations`), and the first route that
covers an address serves it. So a route that is registered later changes nothing at an address that
was covered (`readRoute_register`, `writeRoute_register`).

A registration is reported if it clashes with an earlier one : both routes serve the same kind of
access, and their spans overlap. Routes that share an address clash; others may, since an empty span
overlaps the spans around it. Clashing is symmetric, so whether a sequence of registrations is free
of clashes, and with it of reports (`registerEvents_eq_nil_iff`), does not depend on its order. In
such a sequence at most one route covers an address (`eq_of_covers`), and it is found in every order
(`find?_of_perm`).
-/

namespace Famicom

theorem Span.overlaps_comm (s t : Span) : s.overlaps t = t.overlaps s := Bool.and_comm _ _

/-- One call that adds a route. -/
inductive Registration (σ : Type) where
  | read (route : ReadRoute σ)
  | write (route : WriteRoute σ)

namespace Registration

variable {σ : Type}

/-- The bus with one more route. -/
def perform (b : Bus σ) : Registration σ → Bus σ
  | read route => b.addRead route
  | write route => b.addWrite route

/-- The report that is due. -/
def events (b : Bus σ) : Registration σ → List Event
  | read route => b.readEvents route.toRoute
  | write route => b.writeEvents route.toRoute

/-- The route that is added for reads. -/
def read? : Registration σ → Option (ReadRoute σ)
  | read route => some route
  | write _ => none

/-- The route that is added for writes. -/
def write? : Registration σ → Option (WriteRoute σ)
  | read _ => none
  | write route => some route

/-- Two routes for the same kind of access overlap. -/
def Clashes : Registration σ → Registration σ → Prop
  | read r, read t => r.span.overlaps t.span
  | write r, write t => r.span.overlaps t.span
  | _, _ => False

theorem Clashes.symm {r t : Registration σ} (h : r.Clashes t) : t.Clashes r := by
  cases r <;> cases t
  case read.read => exact (Span.overlaps_comm _ _).trans h
  case write.write => exact (Span.overlaps_comm _ _).trans h
  all_goals exact h

theorem clashes_of_read? {r t : Registration σ} {x y : ReadRoute σ} {a : UInt16}
    (hr : r.read? = some x) (ht : t.read? = some y) (hx : x.span.contains a)
    (hy : y.span.contains a) : r.Clashes t := by
  cases r <;> cases hr
  cases t <;> cases ht
  exact Span.overlaps_of_contains hx hy

theorem clashes_of_write? {r t : Registration σ} {x y : WriteRoute σ} {a : UInt16}
    (hr : r.write? = some x) (ht : t.write? = some y) (hx : x.span.contains a)
    (hy : y.span.contains a) : r.Clashes t := by
  cases r <;> cases hr
  cases t <;> cases ht
  exact Span.overlaps_of_contains hx hy

end Registration

theorem shadowing_eq_none_iff (earlier : List Route) (new : Route) :
    shadowing earlier new = none ↔ ∀ r ∈ earlier, ¬r.span.overlaps new.span :=
  List.find?_eq_none

namespace Bus

variable {σ : Type}

/-- The bus after a sequence of registrations. -/
def register (b : Bus σ) (routes : List (Registration σ)) : Bus σ :=
  routes.foldl Registration.perform b

/-- The reports of a sequence of registrations. -/
def registerEvents : Bus σ → List (Registration σ) → List Event
  | _, [] => []
  | b, r :: routes => r.events b ++ (r.perform b).registerEvents routes

/-- The registrations that make up a bus. -/
def registrations (b : Bus σ) : List (Registration σ) :=
  b.reads.map .read ++ b.writes.map .write

/-! ## What is registered -/

theorem reads_register (b : Bus σ) (routes : List (Registration σ)) :
    (b.register routes).reads = b.reads ++ routes.filterMap (·.read?) := by
  induction routes generalizing b with
  | nil => exact (List.append_nil _).symm
  | cons r routes ih =>
    refine (ih (r.perform b)).trans ?_
    cases r with
    | read route => exact List.append_assoc _ _ _
    | write route => rfl

theorem writes_register (b : Bus σ) (routes : List (Registration σ)) :
    (b.register routes).writes = b.writes ++ routes.filterMap (·.write?) := by
  induction routes generalizing b with
  | nil => exact (List.append_nil _).symm
  | cons r routes ih =>
    refine (ih (r.perform b)).trans ?_
    cases r with
    | read route => rfl
    | write route => exact List.append_assoc _ _ _

theorem name_register (b : Bus σ) (routes : List (Registration σ)) :
    (b.register routes).name = b.name := by
  induction routes generalizing b with
  | nil => rfl
  | cons r routes ih =>
    refine (ih (r.perform b)).trans ?_
    cases r <;> rfl

/-- Every bus is what its registrations make of an empty one. -/
theorem register_registrations (b : Bus σ) : (empty b.name).register b.registrations = b := by
  have hreads : b.registrations.filterMap (·.read?) = b.reads := by
    have hother : (b.writes.map Registration.write).filterMap (·.read?) = [] := by
      rw [List.filterMap_map]
      exact List.filterMap_eq_nil_iff.2 fun _ _ => rfl
    rw [registrations, List.filterMap_append, hother, List.append_nil, List.filterMap_map]
    exact List.filterMap_some
  have hwrites : b.registrations.filterMap (·.write?) = b.writes := by
    have hother : (b.reads.map Registration.read).filterMap (·.write?) = [] := by
      rw [List.filterMap_map]
      exact List.filterMap_eq_nil_iff.2 fun _ _ => rfl
    rw [registrations, List.filterMap_append, hother, List.nil_append, List.filterMap_map]
    exact List.filterMap_some
  generalize b.registrations = routes at hreads hwrites ⊢
  calc (empty b.name).register routes
      = ⟨((empty b.name).register routes).name, ((empty b.name).register routes).reads,
          ((empty b.name).register routes).writes⟩ := rfl
    _ = b := by
      rw [name_register, reads_register, writes_register, hreads, hwrites]
      rfl

theorem readRoute_register (b : Bus σ) (routes : List (Registration σ)) (a : UInt16) :
    (b.register routes).readRoute a =
      (b.readRoute a).or ((routes.filterMap (·.read?)).find? fun r => r.span.contains a) := by
  rw [readRoute, reads_register, List.find?_append]
  rfl

theorem writeRoute_register (b : Bus σ) (routes : List (Registration σ)) (a : UInt16) :
    (b.register routes).writeRoute a =
      (b.writeRoute a).or ((routes.filterMap (·.write?)).find? fun r => r.span.contains a) := by
  rw [writeRoute, writes_register, List.find?_append]
  rfl

theorem readRoute_isSome {b : Bus σ} {a : UInt16} (h : ∃ r ∈ b.reads, r.span.contains a) :
    (b.readRoute a).isSome :=
  List.find?_isSome.2 h

theorem writeRoute_isSome {b : Bus σ} {a : UInt16} (h : ∃ r ∈ b.writes, r.span.contains a) :
    (b.writeRoute a).isSome :=
  List.find?_isSome.2 h

/-! ## Accesses and routes -/

variable {b c : Bus σ} {a : UInt16}

/-- Whatever reads an address knows of the bus the route alone that serves it. -/
theorem read_congr (h : b.readRoute a = c.readRoute a) :
    b.read a = c.read a ∧ b.peek a = c.peek a ∧ b.readRouteName a = c.readRouteName a := by
  refine ⟨funext fun s => ?_, funext fun s => ?_, ?_⟩
  · rw [read, read, h]
  · rw [peek, peek, h]
  · rw [readRouteName, readRouteName, h]

theorem write_congr (h : b.writeRoute a = c.writeRoute a) : b.write a = c.write a := by
  funext value s
  rw [write, write, h]

/-! ## Reports -/

theorem readEvents_eq_nil_iff (b : Bus σ) (new : Route) :
    b.readEvents new = [] ↔ ∀ r ∈ b.reads, ¬r.span.overlaps new.span := by
  rw [readEvents, List.map_eq_nil_iff, Option.toList_eq_nil_iff, shadowing_eq_none_iff,
    List.forall_mem_map]

theorem writeEvents_eq_nil_iff (b : Bus σ) (new : Route) :
    b.writeEvents new = [] ↔ ∀ r ∈ b.writes, ¬r.span.overlaps new.span := by
  rw [writeEvents, List.map_eq_nil_iff, Option.toList_eq_nil_iff, shadowing_eq_none_iff,
    List.forall_mem_map]

/-- A registration is reported if it clashes with one that is there. -/
theorem events_eq_nil_iff (b : Bus σ) (r : Registration σ) :
    r.events b = [] ↔ ∀ e ∈ b.registrations, ¬e.Clashes r := by
  rw [registrations, List.forall_mem_append, List.forall_mem_map, List.forall_mem_map]
  cases r with
  | read route =>
    refine (b.readEvents_eq_nil_iff _).trans ?_
    exact (and_iff_left fun _ _ h => h).symm
  | write route =>
    refine (b.writeEvents_eq_nil_iff _).trans ?_
    exact (and_iff_right fun _ _ h => h).symm

theorem mem_registrations_perform (b : Bus σ) (r e : Registration σ) :
    e ∈ (r.perform b).registrations ↔ e ∈ b.registrations ∨ e = r := by
  cases r <;>
    simp [registrations, Registration.perform, addRead, addWrite, or_comm, or_left_comm]

/-- A sequence is free of reports if none of it clashes with the present routes or with another
registration of the sequence. -/
theorem registerEvents_eq_nil_iff (b : Bus σ) (routes : List (Registration σ)) :
    b.registerEvents routes = [] ↔
      (∀ r ∈ routes, ∀ e ∈ b.registrations, ¬e.Clashes r) ∧
        routes.Pairwise fun r t => ¬r.Clashes t := by
  induction routes generalizing b with
  | nil => simp [registerEvents]
  | cons r routes ih =>
    rw [registerEvents, List.append_eq_nil_iff, events_eq_nil_iff, ih, List.forall_mem_cons,
      List.pairwise_cons]
    simp only [mem_registrations_perform, or_imp, forall_and, forall_eq, and_assoc]

theorem registerEvents_of_perm {routes other : List (Registration σ)} (hperm : other.Perm routes)
    (h : b.registerEvents routes = []) : b.registerEvents other = [] := by
  rw [registerEvents_eq_nil_iff] at h ⊢
  obtain ⟨hpresent, hpairwise⟩ := h
  refine ⟨fun r hr => hpresent r (hperm.mem_iff.1 hr), ?_⟩
  exact (hperm.pairwise_iff fun h hsymm => h hsymm.symm).2 hpairwise

/-! ## The order of registration -/

section Lookup

variable {α : Type} {pick : Registration σ → Option α} {covers : α → Bool}
  (hclash : ∀ {r t x y}, pick r = some x → pick t = some y → covers x → covers y → r.Clashes t)
  {routes other : List (Registration σ)} (h : routes.Pairwise fun r t => ¬r.Clashes t)

include hclash h

/-- One route at most covers an address, where those that do clash. -/
theorem eq_of_covers {x y : α} (hx : x ∈ routes.filterMap pick) (hy : y ∈ routes.filterMap pick)
    (hcoversx : covers x) (hcoversy : covers y) : x = y := by
  obtain ⟨r, hr, hpickr⟩ := List.mem_filterMap.1 hx
  obtain ⟨t, ht, hpickt⟩ := List.mem_filterMap.1 hy
  by_contra hne
  have hrt : r ≠ t := by
    rintro rfl
    exact hne (Option.some.inj (hpickr.symm.trans hpickt))
  have : Std.Symm fun r t : Registration σ => ¬r.Clashes t := ⟨fun _ _ h hsymm => h hsymm.symm⟩
  exact h.forall hr ht hrt (hclash hpickr hpickt hcoversx hcoversy)

theorem find?_of_mem {r : Registration σ} {x : α} (hr : r ∈ routes) (hpick : pick r = some x)
    (hcovers : covers x) : (routes.filterMap pick).find? covers = some x := by
  have hx : x ∈ routes.filterMap pick := List.mem_filterMap.2 ⟨r, hr, hpick⟩
  obtain ⟨y, hfind⟩ := Option.isSome_iff_exists.1 (List.find?_isSome.2 ⟨x, hx, hcovers⟩)
  have hy : y ∈ routes.filterMap pick := List.mem_of_find?_eq_some hfind
  rw [hfind, eq_of_covers hclash h hx hy hcovers (List.find?_some hfind)]

theorem find?_of_perm (hperm : other.Perm routes) :
    (other.filterMap pick).find? covers = (routes.filterMap pick).find? covers := by
  refine (List.find?_eq_find?_of_perm (hperm.filterMap pick).symm ?_).symm
  rintro x ⟨hx, hcoversx⟩ y ⟨hy, hcoversy⟩
  exact eq_of_covers hclash h hx hy hcoversx hcoversy

end Lookup

variable {routes other : List (Registration σ)}

/-- A route that was registered without a report serves what it covers. -/
theorem readRoute_of_mem (h : b.registerEvents routes = []) {r : ReadRoute σ}
    (hr : .read r ∈ routes) (ha : r.span.contains a) :
    (b.register routes).readRoute a = some r := by
  obtain ⟨hpresent, hpairwise⟩ := (b.registerEvents_eq_nil_iff routes).1 h
  have hnone : b.readRoute a = none := by
    refine List.find?_eq_none.2 fun e he hcovers => ?_
    refine hpresent _ hr (.read e) ?_ (Span.overlaps_of_contains hcovers ha)
    exact List.mem_append_left _ (List.mem_map_of_mem he)
  rw [readRoute_register, hnone, Option.none_or]
  exact find?_of_mem Registration.clashes_of_read? hpairwise hr rfl ha

theorem writeRoute_of_mem (h : b.registerEvents routes = []) {r : WriteRoute σ}
    (hr : .write r ∈ routes) (ha : r.span.contains a) :
    (b.register routes).writeRoute a = some r := by
  obtain ⟨hpresent, hpairwise⟩ := (b.registerEvents_eq_nil_iff routes).1 h
  have hnone : b.writeRoute a = none := by
    refine List.find?_eq_none.2 fun e he hcovers => ?_
    refine hpresent _ hr (.write e) ?_ (Span.overlaps_of_contains hcovers ha)
    exact List.mem_append_right _ (List.mem_map_of_mem he)
  rw [writeRoute_register, hnone, Option.none_or]
  exact find?_of_mem Registration.clashes_of_write? hpairwise hr rfl ha

theorem readRoute_of_perm (hperm : other.Perm routes) (h : b.registerEvents routes = []) :
    (b.register other).readRoute a = (b.register routes).readRoute a := by
  have hpairwise := ((b.registerEvents_eq_nil_iff routes).1 h).2
  rw [readRoute_register, readRoute_register,
    find?_of_perm Registration.clashes_of_read? hpairwise hperm]

theorem writeRoute_of_perm (hperm : other.Perm routes) (h : b.registerEvents routes = []) :
    (b.register other).writeRoute a = (b.register routes).writeRoute a := by
  have hpairwise := ((b.registerEvents_eq_nil_iff routes).1 h).2
  rw [writeRoute_register, writeRoute_register,
    find?_of_perm Registration.clashes_of_write? hpairwise hperm]

/-- A further registration changes no access to an address that a route of its kind covers. Where a
sequence of registrations is free of reports, each route serves what it covers; the sequence is free
of reports in every order, and the buses of all orders serve every access alike, in what they answer
and in what they leave of the devices. -/
theorem order_of_registration :
    (∀ (b : Bus σ) (more : List (Registration σ)) (a : UInt16),
      ((∃ r ∈ b.reads, r.span.contains a) →
        (b.register more).read a = b.read a ∧ (b.register more).peek a = b.peek a ∧
          (b.register more).readRouteName a = b.readRouteName a) ∧
      ((∃ r ∈ b.writes, r.span.contains a) → (b.register more).write a = b.write a)) ∧
    ∀ (b : Bus σ) (routes : List (Registration σ)), b.registerEvents routes = [] →
      (∀ (r : ReadRoute σ) (a : UInt16), .read r ∈ routes → r.span.contains a →
        (b.register routes).read a = r.serve a) ∧
      (∀ (r : WriteRoute σ) (a : UInt16), .write r ∈ routes → r.span.contains a →
        (b.register routes).write a = r.serve a) ∧
      ∀ other : List (Registration σ), other.Perm routes →
        b.registerEvents other = [] ∧ ∀ a : UInt16,
          (b.register other).read a = (b.register routes).read a ∧
          (b.register other).write a = (b.register routes).write a ∧
          (b.register other).peek a = (b.register routes).peek a ∧
          (b.register other).readRouteName a = (b.register routes).readRouteName a := by
  constructor
  · intro b more a
    refine ⟨fun hcovered => read_congr ?_, fun hcovered => write_congr ?_⟩
    · rw [readRoute_register, Option.or_of_isSome (readRoute_isSome hcovered)]
    · rw [writeRoute_register, Option.or_of_isSome (writeRoute_isSome hcovered)]
  · intro b routes hevents
    refine ⟨fun r a hr ha => ?_, fun r a hr ha => ?_, fun other hperm => ?_⟩
    · funext s
      rw [read, readRoute_of_mem hevents hr ha]
    · funext value s
      rw [write, writeRoute_of_mem hevents hr ha]
    · refine ⟨registerEvents_of_perm hperm hevents, fun a => ?_⟩
      obtain ⟨hanswer, hpeek, hname⟩ := read_congr (readRoute_of_perm (a := a) hperm hevents)
      exact ⟨hanswer, write_congr (writeRoute_of_perm hperm hevents), hpeek, hname⟩

/-- The routes of the console are free of reports, so they may be registered backwards; and a route
over all addresses, registered behind them, is not asked for a status. -/
theorem order_of_registration_cartridgeBus :
    let routes := Board.cartridgeBus.registrations
    let start : Bus Board := empty "cpu"
    let late : Registration Board := .read ⟨⟨"late", ⟨0x0000, 0xFFFF⟩⟩, false, Board.readSilence⟩
    start.registerEvents routes = [] ∧ start.registerEvents routes.reverse = [] ∧
      (start.register routes.reverse).read 0x2002 = Board.cartridgeBus.read 0x2002 ∧
      late.events Board.cartridgeBus ≠ [] ∧
      (Board.cartridgeBus.register [late]).read 0x2002 = Board.cartridgeBus.read 0x2002 := by
  intro routes start late
  have hevents : start.registerEvents routes = [] := by decide +kernel
  have hcovered : ∃ r ∈ Board.cartridgeBus.reads, r.span.contains 0x2002 := by decide +kernel
  obtain ⟨-, -, horder⟩ := order_of_registration.2 start routes hevents
  obtain ⟨hreverse, hserve⟩ := horder routes.reverse (List.reverse_perm routes)
  have hroutes : start.register routes = Board.cartridgeBus :=
    register_registrations Board.cartridgeBus
  exact ⟨hevents, hreverse, hroutes ▸ (hserve 0x2002).1, by decide +kernel,
    ((order_of_registration.1 Board.cartridgeBus [late] 0x2002).1 hcovered).1⟩

end Bus

end Famicom
