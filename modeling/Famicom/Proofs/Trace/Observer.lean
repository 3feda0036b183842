import Famicom.Board
import Famicom.Trace
import Famicom.Proofs.Cpu.FaultFree

/-!
# What an observer sees

Listings and traces look at memory through `peek`, which may decline (`visible`). A bus is candid
(`Candid`) if it never misleads : what an observer sees is what a read would answer, and neither
the look nor the read changes anything. A memory is candid, and so is the board of the machine,
which hides the registers of its devices. On a candid bus the processor and the observer find the
same bytes wherever the observer finds any, and a word is out of sight as soon as one of its
bytes is.
-/

namespace Famicom

variable {β : Type} [AddressSpace β]

/-! ## Candid buses -/

/-- An observer sees the byte at the address. -/
def visible (b : β) (a : UInt16) : Bool := (AddressSpace.peek a b).1.isSome

/-- Wherever an observer sees a byte, a read answers it, and neither of the two changes anything. -/
def Candid (b : β) : Prop :=
  ∀ a value d, AddressSpace.peek a b = (some value, d) →
    d = b ∧ AddressSpace.read a b = (.ok value, b)

theorem Memory.candid (m : Memory 0x10000) : Candid m := by
  intro a value d h
  cases h
  exact ⟨rfl, rfl⟩

/-! ## Looking and reading -/

namespace Trace

variable {α γ : Type}

omit [AddressSpace β] in
theorem bind_run (x : StateM β α) (f : α → StateM β γ) (b : β) :
    (x >>= f) b = f (x b).1 (x b).2 :=
  rfl

omit [AddressSpace β] in
theorem pure_run (x : α) (b : β) : (pure x : StateM β α) b = (x, b) :=
  rfl

end Trace

namespace Candid

variable {b : β} (h : Candid b)

include h

theorem peek_and_read {a : UInt16} (ha : visible b a) :
    AddressSpace.peek a b = (some (byteAt b a), b) ∧
      AddressSpace.read a b = (.ok (byteAt b a), b) := by
  rcases hpeek : AddressSpace.peek a b with ⟨_ | value, d⟩
  · simp [visible, hpeek] at ha
  · obtain ⟨rfl, hread⟩ := h a value d hpeek
    have hvalue : byteAt d a = value := by simp [byteAt, hread]
    rw [hvalue]
    exact ⟨rfl, hread⟩

theorem reads {addresses : List UInt16} (ha : ∀ a ∈ addresses, visible b a) :
    Reads addresses (addresses.map (byteAt b)) b b :=
  .of_forall fun a hmem => (h.peek_and_read (ha a hmem)).2

theorem look_eq {a : UInt16} (ha : visible b a) : Trace.look a b = (some (byteAt b a), b) :=
  (h.peek_and_read ha).1

theorem look_fst (a : UInt16) :
    (Trace.look a b).1 = if visible b a then some (byteAt b a) else none := by
  split
  · rw [h.look_eq ‹_›]
  · exact Option.not_isSome_iff_eq_none.1 ‹_›

omit h in
theorem exists_look_eq {a : UInt16} (ha : ¬ visible b a) : ∃ d, Trace.look a b = (none, d) :=
  ⟨_, Prod.ext (Option.not_isSome_iff_eq_none.1 ha) rfl⟩

theorem lookBytes_eq {a : UInt16} {count : Nat} (ha : ∀ x ∈ addressesFrom a count, visible b x) :
    Trace.lookBytes count a b = (((addressesFrom a count).map (byteAt b)).map some, b) := by
  induction count generalizing a with
  | zero => rfl
  | succ count ih =>
    have hfirst := h.look_eq (ha a (by simp [addressesFrom]))
    have hrest := ih (a := a + 1) fun x hx => ha x (by simp [addressesFrom, hx])
    simp only [Trace.lookBytes, Trace.bind_run, Trace.pure_run, hfirst, hrest]
    rfl

theorem lookWord_eq {lo hi : UInt16} (ha : [lo, hi].all (visible b)) :
    Trace.lookWord lo hi b = (some (word (byteAt b lo) (byteAt b hi)), b) := by
  simp only [List.all_cons, List.all_nil, Bool.and_true, Bool.and_eq_true] at ha
  simp only [Trace.lookWord, Trace.bind_run, Trace.pure_run, h.look_eq ha.1, h.look_eq ha.2]

/-- A word is out of sight as soon as one of its bytes is. -/
theorem exists_lookWord_eq {lo hi : UInt16} (ha : ¬ [lo, hi].all (visible b)) :
    ∃ d, Trace.lookWord lo hi b = (none, d) := by
  by_cases hlo : visible b lo
  · obtain ⟨d, hlook⟩ := exists_look_eq (b := b) (a := hi) (by simp_all)
    refine ⟨d, ?_⟩
    simp only [Trace.lookWord, Trace.bind_run, Trace.pure_run, h.look_eq hlo, hlook]
  · obtain ⟨d, hlook⟩ := exists_look_eq hlo
    refine ⟨d, ?_⟩
    simp only [Trace.lookWord, Trace.bind_run, Trace.pure_run, hlook]

end Candid

/-! ## The machine's own bus -/

/-- Looking through routes is candid if the routes that are not volatile leave their devices
alone. -/
theorem Bus.peek_candid {σ : Type} {bus : Bus σ} {s : σ}
    (h : ∀ r ∈ bus.reads, r.volatile = false → ∀ a, (r.serve a s).2 = s) {a : UInt16}
    {value : UInt8} {d : σ} (hpeek : bus.peek a s = (some value, d)) :
    d = s ∧ bus.read a s = (.ok value, s) := by
  unfold Bus.peek at hpeek
  unfold Bus.read
  cases hroute : bus.readRoute a with
  | none => simp [hroute] at hpeek
  | some r =>
    have hr : r ∈ bus.reads := List.mem_of_find?_eq_some hroute
    cases hvolatile : r.volatile with
    | true => simp [hroute, hvolatile] at hpeek
    | false =>
      have hquiet := h r hr hvolatile a
      rcases hserve : r.serve a s with ⟨_ | v, e⟩
      · simp [hroute, hvolatile, hserve] at hpeek
      · simp only [hroute, hvolatile, hserve, Bool.false_eq_true, if_false, Prod.mk.injEq,
          Option.some.injEq] at hpeek
        obtain ⟨rfl, rfl⟩ := hpeek
        obtain rfl : e = s := by simpa [hserve] using hquiet
        exact ⟨rfl, hserve⟩

/-- Reading through a route that is not volatile leaves the board as it is. -/
theorem Board.serve_undisturbed {b : Board} {r : ReadRoute Board} (hr : r ∈ b.bus.reads)
    (hvolatile : r.volatile = false) (a : UInt16) : (r.serve a b).2 = b := by
  have hroute : r.volatile ∨ r.serve = readRam ∨ r.serve = readSilence ∨
      ∃ f, r.serve = readCartridge f := by
    simp only [Board.bus, cartridgeBus, emptySlotBus] at hr
    split at hr <;>
      simp only [Bus.mapRead, Bus.mapWrite, Bus.mapVolatile, Bus.addRead, Bus.addWrite, Bus.empty,
        List.nil_append, List.cons_append, List.mem_cons, List.not_mem_nil, or_false] at hr <;>
      grind
  rcases hroute with h | h | h | ⟨f, h⟩
  · rw [hvolatile] at h
    cases h
  all_goals
    rw [h]
    rfl

/-- The board hides its registers and shows its memories. -/
theorem Board.candid (b : Board) : Candid b := fun _ _ _ =>
  Bus.peek_candid fun _ hr hvolatile => serve_undisturbed hr hvolatile

end Famicom
