import Famicom.Controller
import Mathlib.Data.Nat.Bitwise
import Mathlib.Data.List.Induction

/-!
# What the controllers answer

Buttons change, the strobe is written, and ports are read, in any order (`PadAction`). What a
port answers is told from this history alone : the buttons it held when the strobe last fell
(`heldAfter`, `LastFall`), and how often it was read since.

A port knows only the part of the history that concerns it (`port_after`); the strobe is the one
thing both have in common. Behind the fall of the strobe a controller stands at a place in a byte
(`HandsOut`), a read moves it to the next place (`HandsOut.read`), and nothing but another high
strobe takes it away (`HandsOut.after`). A controller whose strobe was never high is handing out a
byte with no buttons.
-/

namespace Famicom

/-- One thing that happens to the controllers. -/
inductive PadAction where
  /-- Hold the buttons of a mask and release the others. -/
  | hold (second : Bool) (held : UInt8)
  /-- Hold or release the buttons of a mask. -/
  | press (second : Bool) (mask : UInt8) (held : Bool)
  | strobe (value : UInt8)
  | read (a : UInt16)
  deriving DecidableEq, Repr

/-- The port at an address is the second one. -/
def atSecondPort (a : UInt16) : Bool := a &&& 1 != 0

namespace PadAction

/-- Both controllers after an action. -/
def perform (p : ControllerPair) : PadAction → ControllerPair
  | hold second held => p.update second (·.setButtons held)
  | press second mask held => p.update second (·.setButton mask held)
  | strobe value => p.writeStrobe value
  | read a => (p.read a).2

/-- One controller after an action that concerns it. -/
def deliver (c : Controller) : PadAction → Controller
  | hold _ held => c.setButtons held
  | press _ mask held => c.setButton mask held
  | strobe value => c.writeStrobe value
  | read _ => c.read.2

/-- An action is for a port, the first or the second; a write to the strobe is for both. -/
def concerns (second : Bool) : PadAction → Bool
  | hold other _ | press other _ _ => other == second
  | strobe _ => true
  | read a => atSecondPort a == second

/-- An action puts the strobe high. -/
def raises : PadAction → Bool
  | strobe value => value.toNat.testBit 0
  | _ => false

/-- An action reads a port. -/
def reads (second : Bool) : PadAction → Bool
  | read a => atSecondPort a == second
  | _ => false

/-- The strobe after an action. -/
def level (high : Bool) : PadAction → Bool
  | strobe value => value.toNat.testBit 0
  | _ => high

/-- The buttons of a port after an action. -/
def held (second : Bool) (before : UInt8) : PadAction → UInt8
  | hold other mask => if other = second then mask else before
  | press other mask down =>
    if other = second then (if down then before ||| mask else before &&& ~~~mask) else before
  | _ => before

end PadAction

/-! ## Histories -/

/-- The strobe at the end of a history. -/
def strobeHigh (history : List PadAction) : Bool := history.foldl PadAction.level false

/-- The buttons of a port at the end of a history. -/
def heldAfter (second : Bool) (history : List PadAction) : UInt8 :=
  history.foldl (PadAction.held second) 0

/-- How often a history reads a port. -/
def portReads (second : Bool) (history : List PadAction) : Nat :=
  history.countP (PadAction.reads second)

/-- Behind `before` the strobe fell, and it is low since. -/
structure LastFall (history before since : List PadAction) : Prop where
  split : ∃ value, history = before ++ .strobe value :: since ∧ value.toNat.testBit 0 = false
  high : strobeHigh before
  low : ∀ a ∈ since, a.raises = false

theorem strobeHigh_concat (history : List PadAction) (a : PadAction) :
    strobeHigh (history ++ [a]) = a.level (strobeHigh history) := by
  rw [strobeHigh, List.foldl_append]
  rfl

theorem heldAfter_concat (second : Bool) (history : List PadAction) (a : PadAction) :
    heldAfter second (history ++ [a]) = a.held second (heldAfter second history) := by
  rw [heldAfter, List.foldl_append]
  rfl

/-- The strobe is high, or it was never high, or it fell once for the last time. -/
theorem strobe_cases (history : List PadAction) :
    strobeHigh history ∨ (∀ a ∈ history, a.raises = false) ∨
      ∃ before since, LastFall history before since := by
  induction history using List.reverseRecOn with
  | nil => exact Or.inr (Or.inl fun a ha => nomatch ha)
  | append_singleton history a ih =>
    rw [strobeHigh_concat]
    by_cases hraises : a.raises
    · left
      cases a with
      | strobe value => exact hraises
      | hold | press | read => cases hraises
    have hlow : a.raises = false := Bool.eq_false_iff.2 hraises
    rcases ih with hhigh | hnever | ⟨before, since, ⟨value, rfl, hvalue⟩, hhigh, hsince⟩
    · cases a with
      | strobe value =>
        exact Or.inr (Or.inr ⟨history, [], ⟨value, rfl, hlow⟩, hhigh, fun b hb => nomatch hb⟩)
      | hold | press | read => exact Or.inl hhigh
    · refine Or.inr (Or.inl (List.forall_mem_append.2 ⟨hnever, ?_⟩))
      exact List.forall_mem_singleton.2 hlow
    · refine Or.inr (Or.inr ⟨before, since ++ [a], ⟨value, ?_, hvalue⟩, hhigh, ?_⟩)
      · rw [List.append_assoc, List.cons_append]
      · exact List.forall_mem_append.2 ⟨hsince, List.forall_mem_singleton.2 hlow⟩

/-! ## One controller -/

/-- The low bit of a byte, as a byte. -/
theorem and_one_eq (value : UInt8) :
    value &&& 1 = if value.toNat.testBit 0 then 1 else 0 := by
  refine UInt8.toNat_inj.1 ?_
  have hlow : value.toNat &&& 1 = value.toNat % 2 := Nat.and_one_is_mod _
  rw [UInt8.toNat_and, show (1 : UInt8).toNat = 1 from rfl, hlow, Nat.testBit_zero]
  rcases Nat.mod_two_eq_zero_or_one value.toNat with h | h <;> rw [h] <;> rfl

/-- A bit on the low data line. -/
def padAnswer (bit : Bool) : UInt8 := if bit then 0x41 else 0x40

theorem openBus_or_and_one (value : UInt8) :
    openBus ||| value &&& 1 = padAnswer (value.toNat.testBit 0) := by
  rw [and_one_eq]
  cases value.toNat.testBit 0 <;> rfl

/-- A bit of the buttons; behind the last one there are ones. -/
def handedBit (byte : UInt8) (i : Nat) : Bool := if i < 8 then byte.toNat.testBit i else true

theorem handedBit_zero (i : Nat) : handedBit 0 i = decide (8 ≤ i) := by
  unfold handedBit
  split_ifs with h
  · rw [decide_eq_false (by omega)]
    exact Nat.zero_testBit i
  · exact (decide_eq_true (by omega)).symm

namespace Controller

variable {c : Controller}

/-- The controllers after a history, as far as it concerns one. -/
def after (c : Controller) (history : List PadAction) : Controller :=
  history.foldl PadAction.deliver c

theorem strobe_writeStrobe (c : Controller) (value : UInt8) :
    (c.writeStrobe value).strobe = value.toNat.testBit 0 := by
  show (value &&& 1 != 0) = _
  rw [and_one_eq]
  cases value.toNat.testBit 0 <;> rfl

theorem buttons_writeStrobe (c : Controller) (value : UInt8) :
    (c.writeStrobe value).buttons = c.buttons := by
  unfold writeStrobe
  dsimp only
  split_ifs <;> rfl

theorem setButtons_eq (h : c.strobe = false) (held : UInt8) :
    c.setButtons held = { c with buttons := held } :=
  if_neg (ne_true_of_eq_false h)

theorem strobe_setButtons (c : Controller) (held : UInt8) :
    (c.setButtons held).strobe = c.strobe := by
  unfold setButtons
  dsimp only
  split_ifs <;> rfl

theorem buttons_setButtons (c : Controller) (held : UInt8) :
    (c.setButtons held).buttons = held := by
  unfold setButtons
  dsimp only
  split_ifs <;> rfl

theorem strobe_read (c : Controller) : c.read.2.strobe = c.strobe := by
  unfold read
  split_ifs <;> rfl

theorem buttons_read (c : Controller) : c.read.2.buttons = c.buttons := by
  unfold read
  split_ifs <;> rfl

theorem strobe_deliver (c : Controller) (a : PadAction) :
    (a.deliver c).strobe = a.level c.strobe := by
  cases a with
  | hold other held => exact c.strobe_setButtons held
  | press other mask held => exact c.strobe_setButtons _
  | strobe value => exact c.strobe_writeStrobe value
  | read a => exact c.strobe_read

theorem buttons_deliver (c : Controller) {second : Bool} {a : PadAction} (h : a.concerns second) :
    (a.deliver c).buttons = a.held second c.buttons := by
  cases a with
  | hold other held => exact (c.buttons_setButtons held).trans (if_pos (beq_iff_eq.1 h)).symm
  | press other mask held => exact (c.buttons_setButtons _).trans (if_pos (beq_iff_eq.1 h)).symm
  | strobe value => exact c.buttons_writeStrobe value
  | read a => exact c.buttons_read

/-- The strobe is low, and of the buttons in `byte` so many were handed out, or all. -/
structure HandsOut (byte : UInt8) (count : Nat) (c : Controller) : Prop where
  strobe : c.strobe = false
  handedOut : c.handedOut = min count 8
  shifted : c.shifted.toNat = byte.toNat >>> min count 8

theorem handsOut_initial : HandsOut 0 0 {} := ⟨rfl, rfl, rfl⟩

/-- The fall of the strobe leaves the buttons of that moment. -/
theorem handsOut_of_fall (h : c.strobe) {value : UInt8} (hvalue : value.toNat.testBit 0 = false) :
    HandsOut c.buttons 0 (c.writeStrobe value) := by
  refine ⟨(c.strobe_writeStrobe value).trans hvalue, ?_, ?_⟩
  · rw [writeStrobe, h]
    rfl
  · rw [writeStrobe, h]
    rfl

namespace HandsOut

variable {byte : UInt8} {count : Nat} (h : HandsOut byte count c)

include h

theorem answer : c.read.1 = padAnswer (handedBit byte count) := by
  have hstrobe : ¬c.strobe := ne_true_of_eq_false h.strobe
  rw [Controller.read, if_neg hstrobe, h.handedOut]
  by_cases hcount : count < 8
  · rw [if_neg (by omega), handedBit, if_pos hcount, openBus_or_and_one, h.shifted,
      Nat.testBit_shiftRight, Nat.min_eq_left (by omega), Nat.add_zero]
  · rw [if_pos (by omega), handedBit, if_neg hcount]
    rfl

theorem read : HandsOut byte (count + 1) c.read.2 := by
  have hstrobe : ¬c.strobe := ne_true_of_eq_false h.strobe
  rw [Controller.read, if_neg hstrobe, h.handedOut]
  by_cases hcount : count < 8
  · rw [if_neg (by omega)]
    refine ⟨h.strobe, ?_, ?_⟩
    · show min count 8 + 1 = _
      omega
    · show (c.shifted >>> 1).toNat = _
      rw [UInt8.toNat_shiftRight, h.shifted, ← Nat.shiftRight_add]
      congr 1
      show min count 8 + 1 = _
      omega
  · rw [if_pos (by omega)]
    have hfull : min (count + 1) 8 = min count 8 := by omega
    exact ⟨h.strobe, hfull ▸ h.handedOut, hfull ▸ h.shifted⟩

theorem setButtons (held : UInt8) : HandsOut byte count (c.setButtons held) := by
  rw [setButtons_eq h.strobe]
  exact ⟨h.strobe, h.handedOut, h.shifted⟩

theorem writeStrobe {value : UInt8} (hvalue : value.toNat.testBit 0 = false) :
    HandsOut byte count (c.writeStrobe value) := by
  have hlow : (value &&& 1 != 0) = false := by
    rw [and_one_eq, hvalue]
    rfl
  rw [Controller.writeStrobe, h.strobe, hlow]
  exact ⟨rfl, h.handedOut, h.shifted⟩

/-- A place in the byte is left by reads only, as long as the strobe stays low. -/
theorem deliver {second : Bool} {a : PadAction} (ha : a.concerns second) (hlow : a.raises = false) :
    HandsOut byte (count + (a.reads second).toNat) (a.deliver c) := by
  cases a with
  | hold other held => exact h.setButtons held
  | press other mask held => exact h.setButtons _
  | strobe value => exact h.writeStrobe hlow
  | read a =>
    have hread : (PadAction.read a).reads second = true := ha
    rw [hread]
    exact h.read

theorem after (second : Bool) {history : List PadAction}
    (hlow : ∀ a ∈ history, a.raises = false) :
    HandsOut byte (count + portReads second history)
      (c.after (history.filter (·.concerns second))) := by
  induction history generalizing c count with
  | nil => exact h
  | cons a history ih =>
    obtain ⟨ha, hhistory⟩ := List.forall_mem_cons.1 hlow
    rw [portReads, List.countP_cons]
    by_cases hconcerns : a.concerns second
    · rw [List.filter_cons_of_pos hconcerns]
      have hnext := ih (h.deliver hconcerns ha) hhistory
      cases hreads : a.reads second with
      | true =>
        rw [hreads, Bool.toNat_true, Nat.add_right_comm] at hnext
        exact hnext
      | false =>
        rw [hreads] at hnext
        exact hnext
    · have hreads : ¬a.reads second := fun hreads => hconcerns (by
        cases a with
        | read a => exact hreads
        | hold | press | strobe => cases hreads)
      rw [List.filter_cons_of_neg hconcerns, if_neg hreads]
      exact ih h hhistory

end HandsOut

end Controller

/-! ## Two controllers -/

namespace ControllerPair

/-- The controllers after a history. -/
def after (p : ControllerPair) (history : List PadAction) : ControllerPair :=
  history.foldl PadAction.perform p

/-- The controller in a port. -/
def port (p : ControllerPair) (second : Bool) : Controller := if second then p.second else p.first

theorem after_append (p : ControllerPair) (history more : List PadAction) :
    p.after (history ++ more) = (p.after history).after more :=
  List.foldl_append

theorem read_fst (p : ControllerPair) (a : UInt16) :
    (p.read a).1 = (p.port (atSecondPort a)).read.1 := by
  unfold read atSecondPort port
  by_cases h : a &&& 1 = 0 <;> simp [h]

/-- An action changes the ports that it concerns, and these as if there was no other. -/
theorem port_perform (p : ControllerPair) (second : Bool) (a : PadAction) :
    (a.perform p).port second =
      if a.concerns second then a.deliver (p.port second) else p.port second := by
  cases a with
  | hold other | press other => cases other <;> cases second <;> rfl
  | strobe => cases second <;> rfl
  | read a =>
    unfold PadAction.perform PadAction.concerns PadAction.deliver read atSecondPort port
    by_cases h : a &&& 1 = 0 <;> cases second <;> simp [h]

theorem port_after (p : ControllerPair) (second : Bool) (history : List PadAction) :
    (p.after history).port second =
      (p.port second).after (history.filter (·.concerns second)) := by
  induction history generalizing p with
  | nil => rfl
  | cons a history ih =>
    refine (ih _).trans ?_
    rw [port_perform]
    by_cases h : a.concerns second
    · rw [if_pos h, List.filter_cons_of_pos h]
      rfl
    · rw [if_neg h, List.filter_cons_of_neg h]

theorem strobe_after (second : Bool) (history : List PadAction) :
    ((after {} history).port second).strobe = strobeHigh history := by
  induction history using List.reverseRecOn with
  | nil => cases second <;> rfl
  | append_singleton history a ih =>
    rw [strobeHigh_concat, ← ih, after_append]
    show ((a.perform (after {} history)).port second).strobe = _
    rw [port_perform]
    split_ifs with h
    · exact Controller.strobe_deliver _ a
    · cases a with
      | strobe value => exact absurd rfl h
      | hold | press | read => rfl

theorem buttons_after (second : Bool) (history : List PadAction) :
    ((after {} history).port second).buttons = heldAfter second history := by
  induction history using List.reverseRecOn with
  | nil => cases second <;> rfl
  | append_singleton history a ih =>
    rw [heldAfter_concat, ← ih, after_append]
    show ((a.perform (after {} history)).port second).buttons = _
    rw [port_perform]
    split_ifs with h
    · exact Controller.buttons_deliver _ h
    · cases a with
      | hold | press => exact (if_neg (mt beq_iff_eq.2 h)).symm
      | strobe value => exact absurd rfl h
      | read => rfl

/-- Behind a fall a port hands out the buttons it held there. -/
theorem handsOut_of_lastFall {history before since : List PadAction}
    (h : LastFall history before since) (second : Bool) :
    Controller.HandsOut (heldAfter second before) (portReads second since)
      ((after {} history).port second) := by
  obtain ⟨value, rfl, hvalue⟩ := h.split
  have hstrobe : ((after {} before).port second).strobe := (strobe_after second before).trans h.high
  have hfall := Controller.handsOut_of_fall hstrobe hvalue
  rw [buttons_after] at hfall
  have hrun := hfall.after second h.low
  have hperform : (PadAction.perform (after {} before) (.strobe value)).port second =
      ((after {} before).port second).writeStrobe value :=
    port_perform _ second _
  rw [Nat.zero_add, ← hperform, ← port_after] at hrun
  rw [after_append]
  exact hrun

theorem handsOut_of_never_high {history : List PadAction} (h : ∀ a ∈ history, a.raises = false)
    (second : Bool) :
    Controller.HandsOut 0 (portReads second history) ((after {} history).port second) := by
  have hrun := Controller.handsOut_initial.after second h
  rw [Nat.zero_add] at hrun
  rw [port_after]
  cases second <;> exact hrun

theorem read_of_handsOut {p : ControllerPair} {a : UInt16} {byte : UInt8} {count : Nat}
    (h : Controller.HandsOut byte count (p.port (atSecondPort a))) :
    (p.read a).1 = padAnswer (handedBit byte count) :=
  (p.read_fst a).trans h.answer

theorem read_of_high {p : ControllerPair} {a : UInt16}
    (h : (p.port (atSecondPort a)).strobe) :
    (p.read a).1 = padAnswer ((p.port (atSecondPort a)).buttons.toNat.testBit 0) := by
  rw [read_fst, Controller.read, if_pos h, openBus_or_and_one]

/-- A read answers one bit, on the low line. It is the button A that the port holds as long as the
strobe is high, and otherwise the next of the buttons that the port held when the strobe last fell,
or of none if it was never high; one of these cases is at hand. What does not concern the port may
happen or not. -/
theorem read_of_history (history : List PadAction) (a : UInt16) :
    let answer := ((after {} history).read a).1
    let second := atSecondPort a
    (answer = 0x40 ∨ answer = 0x41) ∧
      (strobeHigh history → answer = padAnswer ((heldAfter second history).toNat.testBit 0)) ∧
      (∀ before since, LastFall history before since →
        answer = padAnswer (handedBit (heldAfter second before) (portReads second since))) ∧
      ((∀ b ∈ history, b.raises = false) →
        answer = padAnswer (decide (8 ≤ portReads second history))) ∧
      (strobeHigh history ∨ (∀ b ∈ history, b.raises = false) ∨
        ∃ before since, LastFall history before since) ∧
      ∀ other : List PadAction,
        other.filter (·.concerns second) = history.filter (·.concerns second) →
        ((after {} other).read a).1 = answer := by
  intro answer second
  have hhigh (h : strobeHigh history) :
      answer = padAnswer ((heldAfter second history).toNat.testBit 0) := by
    rw [← buttons_after]
    exact read_of_high ((strobe_after second history).trans h)
  have hfall (before since : List PadAction) (h : LastFall history before since) :
      answer = padAnswer (handedBit (heldAfter second before) (portReads second since)) :=
    read_of_handsOut (handsOut_of_lastFall h second)
  have hnever (h : ∀ b ∈ history, b.raises = false) :
      answer = padAnswer (decide (8 ≤ portReads second history)) := by
    rw [← handedBit_zero]
    exact read_of_handsOut (handsOut_of_never_high h second)
  refine ⟨?_, hhigh, hfall, hnever, strobe_cases history, ?_⟩
  · obtain ⟨bit, hbit⟩ : ∃ bit, answer = padAnswer bit := by
      rcases strobe_cases history with h | h | ⟨before, since, h⟩
      · exact ⟨_, hhigh h⟩
      · exact ⟨_, hnever h⟩
      · exact ⟨_, hfall before since h⟩
    rw [hbit]
    cases bit with
    | false => exact Or.inl rfl
    | true => exact Or.inr rfl
  · intro other h
    show _ = ((after {} history).read a).1
    rw [read_fst, read_fst, port_after, port_after, h]

/-- The fourth button of the first controller is handed out behind the fall of the strobe, although
it was released, and the second controller was read in between. -/
theorem read_of_history_released :
    let history : List PadAction :=
      [.hold false 0x09, .strobe 1, .press true 0x02 true, .strobe 0, .hold false 0x00,
        .read 0x4016, .read 0x4017, .read 0x4016, .strobe 0xFE, .read 0x4016]
    LastFall history (history.take 3) (history.drop 4) ∧
      ((after {} history).read 0x4016).1 = 0x41 := by
  intro history
  have hfall : LastFall history (history.take 3) (history.drop 4) :=
    ⟨⟨0, rfl, rfl⟩, rfl, by decide⟩
  exact ⟨hfall, ((read_of_history history 0x4016).2.2.1 _ _ hfall).trans (by decide)⟩

end ControllerPair

end Famicom
