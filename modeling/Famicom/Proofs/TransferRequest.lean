import Famicom.Proofs.Cpu.Fault
import Famicom.Proofs.ReadOnly

/-!
# Requests for a transfer

A write to 4014 leaves a request behind, and the console takes it up when the step of the processor
is done. If a step could fail after such a write, the request would stay, and a later step would
make the transfer. But what is not pushed on the stack is written last : a write to 4014 is the last
access of its step (`CpuM.last_of_access`). It is never refused, and where a step fails the last
access is (`CpuM.requested?_of_error`).

So a step of the processor leaves a request if its last access is one, and otherwise the request
that was there (`CpuM.transferRequest_left_step`). The console's step leaves none, be it successful
or not, and the host finds none as long as it does not write to 4014 itself
(`Console.no_request_outlives_step`).
-/

namespace Famicom

/-- The page whose transfer a cycle requests, if it does. -/
def BusCycle.requested? : BusCycle → Option UInt8
  | write a value _ => if a = 0x4014 then some value else none
  | read .. => none

/-- The register is no stack cell. -/
theorem BusCycle.isRoutine_transferRegister (value : UInt8) (answered : Bool) :
    (write 0x4014 value answered).isRoutine = false :=
  rfl

theorem BusCycle.requested?_of_isRoutine {x : BusCycle} (h : x.isRoutine) :
    x.requested? = none := by
  cases x with
  | read => rfl
  | write a value answered =>
    refine if_neg ?_
    rintro rfl
    rw [isRoutine_transferRegister] at h
    cases h

/-! ## Accesses of the board -/

namespace Board

theorem transferRequest_read (a : UInt16) (b : Board) :
    (AddressSpace.read a b).2.transferRequest = b.transferRequest := by
  rw [read_eq]
  split_ifs <;> rfl

/-- No write to 4014 is refused. -/
theorem write_transferRegister (value : UInt8) (b : Board) :
    AddressSpace.write 0x4014 value b = (.ok (), { b with transferRequest := some value }) := by
  rw [write_eq]
  rfl

theorem transferRequest_write {a : UInt16} (h : a ≠ 0x4014) (value : UInt8) (b : Board) :
    (AddressSpace.write a value b).2.transferRequest = b.transferRequest := by
  rw [write_eq, if_neg h]
  split_ifs
  any_goals rfl
  unfold writePrgRam
  cases b.cartridge <;> rfl

/-- An access leaves the request as it is, unless it makes one. -/
theorem transferRequest_replay (b : Board) (x : BusCycle) :
    (x.replay b).transferRequest = x.requested?.or b.transferRequest := by
  cases x with
  | read a answered => exact transferRequest_read a b
  | write a value answered =>
    by_cases h : a = 0x4014
    · subst h
      rw [BusCycle.replay, write_transferRegister]
      rfl
    · rw [BusCycle.requested?, if_neg h]
      exact transferRequest_write h value b

theorem transferRequest_foldl_replay {cycles : List BusCycle} (h : ∀ x ∈ cycles, x.isRoutine)
    (b : Board) : (cycles.foldl BusCycle.replay b).transferRequest = b.transferRequest := by
  induction cycles generalizing b with
  | nil => rfl
  | cons x cycles ih =>
    rw [List.foldl_cons, ih fun y hy => h y (List.mem_cons_of_mem x hy), transferRequest_replay,
      BusCycle.requested?_of_isRoutine (h x List.mem_cons_self), Option.none_or]

end Board

/-! ## The last access of a step -/

namespace CpuM

/-- An access other than a read or a push ends the step. -/
theorem last_of_access {β : Type} [AddressSpace β] {s : System β} {log rest : List BusCycle}
    {x : BusCycle} (h : accesses s = log ++ x :: rest) (hx : x.isRoutine = false) : rest = [] := by
  obtain ⟨-, routine, last, hacc, hroutine, hlen⟩ := accesses_spec s
  rw [hacc, List.append_eq_append_iff] at h
  rcases h with ⟨front, -, rfl⟩ | ⟨_ | ⟨y, front⟩, rfl, hrest⟩
  · rw [List.length_append, List.length_cons] at hlen
    exact List.length_eq_zero_iff.1 (by omega)
  · rw [List.nil_append] at hrest
    rw [← hrest, List.length_cons] at hlen
    exact List.length_eq_zero_iff.1 (by omega)
  · obtain ⟨rfl, -⟩ := List.cons.inj hrest
    rw [hroutine x (by simp)] at hx
    cases hx

/-- The request that is there after a step was made by its last access, or was there before. -/
theorem transferRequest_left_step (s : System Board) :
    (left step s).bus.transferRequest =
      ((accesses s).getLast?.bind BusCycle.requested?).or s.bus.transferRequest := by
  obtain ⟨hbus, routine, last, hacc, hroutine, hlen⟩ := accesses_spec s
  rw [hbus, hacc, List.foldl_append]
  match last, hlen with
  | [], _ =>
    have hnone : routine.getLast?.bind BusCycle.requested? = none := by
      refine Option.bind_eq_none_iff.2 fun x hx => ?_
      exact BusCycle.requested?_of_isRoutine (hroutine x (List.mem_of_getLast? hx))
    rw [List.append_nil, hnone, Option.none_or]
    exact Board.transferRequest_foldl_replay hroutine s.bus
  | [x], _ =>
    rw [List.getLast?_concat, Option.bind_some, List.foldl_cons, List.foldl_nil,
      Board.transferRequest_replay, Board.transferRequest_foldl_replay hroutine]

/-- Where a step fails, its last access requests nothing. -/
theorem requested?_of_error {s t : System Board} {e : CpuFault} (h : step s = .error e t) :
    (accesses s).getLast?.bind BusCycle.requested? = none := by
  rcases step_error_cases h with ⟨-, hacc, -, -⟩ |
    ⟨U, u, -, ⟨log, last, fault, v, hpass, -, hfault, -, rfl⟩, -, hacc⟩
  · rw [hacc]
    rfl
  · rw [hacc, List.getLast?_concat, Option.bind_some]
    cases last with
    | read => rfl
    | write a value answered =>
      refine if_neg ?_
      rintro rfl
      rw [BusCycle.refusal, Board.write_transferRegister] at hfault
      cases hfault

theorem transferRequest_of_error {s t : System Board} {e : CpuFault} (h : step s = .error e t) :
    t.bus.transferRequest = s.bus.transferRequest := by
  rw [← left_of_error h, transferRequest_left_step, requested?_of_error h, Option.none_or]

end CpuM

/-! ## Steps of the console -/

namespace Console

/-- A request is taken up, whether its page can be read or not. -/
theorem transferRequest_serveTransfer (c : Console) :
    c.serveTransfer.2.bus.transferRequest = none := by
  unfold serveTransfer
  cases hrequest : c.bus.transferRequest with
  | none => exact hrequest
  | some page =>
    have hblock := readBlock_keeps (P := fun b : Board => b.transferRequest = none)
      (fun a b h => (Board.transferRequest_read a b).trans h) 256 (word 0 page)
      (b := { c.bus with transferRequest := none }) rfl
    simp only [transfer]
    rcases hbytes : readBlock 256 (word 0 page) { c.bus with transferRequest := none } with
      ⟨_ | bytes, board⟩ <;> rw [hbytes] at hblock <;> simp only [hbytes] <;> exact hblock

theorem transferRequest_step {c : Console} (h : c.bus.transferRequest = none) :
    c.step.2.bus.transferRequest = none := by
  cases hstep : CpuM.step c with
  | error fault d =>
    rw [step, hstep]
    exact (CpuM.transferRequest_of_error hstep).trans h
  | ok cycles d =>
    have hserve := transferRequest_serveTransfer d
    rw [step, hstep]
    dsimp only
    rcases htransfer : serveTransfer d with ⟨fault | stall, e⟩ <;> rw [htransfer] at hserve <;>
      exact hserve

theorem transferRequest_perform {c : Console} {o : Operation}
    (ho : ∀ value, o ≠ .host (.write 0x4014 value)) (h : c.bus.transferRequest = none) :
    (o.perform c).bus.transferRequest = none := by
  cases o with
  | readVideo | writeVideo => exact h
  | host a =>
    cases a with
    | insert image =>
      show (c.insertImage image).2.bus.transferRequest = none
      unfold insertImage
      split <;> exact h
    | step => exact transferRequest_step h
    | read a => exact (Board.transferRequest_read a c.bus).trans h
    | write a value =>
      have ha : a ≠ 0x4014 := by
        rintro rfl
        exact ho value rfl
      exact (Board.transferRequest_write ha value c.bus).trans h
    | powerUp | reset => rfl
    | tick | press | assign => exact h

theorem transferRequest_afterAll {c : Console} {operations : List Operation}
    (ho : ∀ value, .host (.write 0x4014 value) ∉ operations) (h : c.bus.transferRequest = none) :
    (c.afterAll operations).bus.transferRequest = none := by
  induction operations generalizing c with
  | nil => exact h
  | cons o operations ih =>
    refine ih (fun value hmem => ho value (List.mem_cons_of_mem o hmem)) ?_
    refine transferRequest_perform (fun value heq => ho value ?_) h
    exact heq ▸ List.mem_cons_self

/-- Between the operations of a host that does not write to 4014 itself no request is left, whatever
fails on the way. In a step of the processor a write to 4014 is the last access, and the step
succeeds with the request made; a step that fails leaves the request as it found it. -/
theorem no_request_outlives_step :
    (∀ operations : List Operation, (∀ value, .host (.write 0x4014 value) ∉ operations) →
      (initial.afterAll operations).bus.transferRequest = none) ∧
    (∀ (s : System Board) (log rest : List BusCycle) (value : UInt8) (answered : Bool),
      CpuM.accesses s = log ++ .write 0x4014 value answered :: rest →
        rest = [] ∧ ∃ n t, CpuM.step s = .ok n t ∧ t.bus.transferRequest = some value) ∧
    ∀ (s t : System Board) (fault : CpuFault), CpuM.step s = .error fault t →
      t.bus.transferRequest = s.bus.transferRequest := by
  refine ⟨fun operations ho => transferRequest_afterAll ho rfl,
    fun s log rest value answered h => ?_, fun s t fault => CpuM.transferRequest_of_error⟩
  obtain rfl := CpuM.last_of_access h (BusCycle.isRoutine_transferRegister _ _)
  have hlast : (CpuM.accesses s).getLast?.bind BusCycle.requested? = some value := by
    rw [h, List.getLast?_concat]
    rfl
  refine ⟨rfl, ?_⟩
  cases hstep : CpuM.step s with
  | error fault t =>
    rw [CpuM.requested?_of_error hstep] at hlast
    cases hlast
  | ok n t =>
    refine ⟨n, t, rfl, ?_⟩
    rw [← CpuM.left_of_ok hstep, CpuM.transferRequest_left_step, hlast, Option.some_or]

/-- A program asks for a page that cannot be read, and goes on. -/
theorem no_request_outlives_step_unreadable_page :
    let load : List Operation := [.host (.write 0 0xA9), .host (.write 1 0x50),
      .host (.write 2 0x8D), .host (.write 3 0x14), .host (.write 4 0x40), .host .step]
    let c := initial.afterAll load
    CpuM.accesses c = [.read 2 true, .read 3 true, .read 4 true, .write 0x4014 0x50 true] ∧
      (∃ n d, CpuM.step c = .ok n d ∧ d.bus.transferRequest = some 0x50) ∧
      c.step.1 = .error (.transfer 0x50 ⟨.read, 0x5000⟩) ∧
      c.step.2.bus.transferRequest = none := by
  intro load c
  have haccesses : CpuM.accesses c =
      [.read 2 true, .read 3 true, .read 4 true, .write 0x4014 0x50 true] := by
    decide +kernel
  obtain ⟨hrun, hlast, -⟩ := no_request_outlives_step
  refine ⟨haccesses, (hlast c [.read 2 true, .read 3 true, .read 4 true] [] 0x50 true
    haccesses).2, rfl, ?_⟩
  exact hrun (load ++ [.host .step]) (by simp [load])

end Console

end Famicom
