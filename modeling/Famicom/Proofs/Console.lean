import Famicom.Console
import Famicom.Proofs.Board
import Famicom.Proofs.Cpu.Fetch
import Famicom.Proofs.Cpu.Frame
import Famicom.Proofs.Cpu.Recording
import Famicom.Proofs.Ppu.Tick

/-!
# One step of the console

A successful step has two halves. In the first the processor takes its step and a
requested transfer is made, while the beam stands (`settled?`); in the second the beam
catches up (`catchUp`). `step_eq_ok` splits a step there.

The first half moves the clock by the answer of the step, empties the latch of the request
it serves, and takes 525 cycles at most, eleven of the processor and 514 of a transfer
(`settled?_spec`). The second half leaves the clock alone.

A block for a transfer is read address by address (`readBlock_eq_ok`), and refused where one of
these reads is (`readBlock_eq_error`).

A property of the board that each of the things keeps that a step is made of, accesses, bytes of a
transfer and dots, is kept by the step (`Board.Keeps.step`), wherever it ends.
-/

namespace Famicom

namespace Console

/-! ## The two halves -/

/-- The console when the processor and a transfer are done and the beam has yet to catch up,
with the cycles they took. -/
def settled? (c : Console) : Option (Nat × Console) :=
  match CpuM.step c with
  | .error .. => none
  | .ok cycles d =>
    match serveTransfer d with
    | (.error _, _) => none
    | (.ok stall, e) => some (cycles + stall, e)

theorem settled?_eq_some {c e : Console} {n : Nat} (h : c.settled? = some (n, e)) :
    ∃ cycles d stall, CpuM.step c = .ok cycles d ∧ serveTransfer d = (.ok stall, e) ∧
      n = cycles + stall := by
  unfold settled? at h
  split at h
  · cases h
  · rename_i cycles d hstep
    split at h
    · cases h
    · rename_i stall f htransfer
      cases h
      exact ⟨cycles, d, stall, hstep, htransfer, rfl⟩

theorem settled?_of_no_transfer {c d : Console} {n : Nat} (hstep : CpuM.step c = .ok n d)
    (hnone : d.bus.transferRequest = none) : c.settled? = some (n, d) := by
  rw [settled?, hstep]
  simp only [serveTransfer, hnone, Nat.add_zero]

theorem step_eq_ok {c d : Console} {n : Nat} :
    c.step = (.ok n, d) ↔ ∃ e, c.settled? = some (n, e) ∧ d = catchUp n e := by
  unfold step settled?
  cases CpuM.step c with
  | error => simp
  | ok cycles d' =>
    rcases htransfer : serveTransfer d' with ⟨_ | stall, f⟩
    · simp [htransfer]
    · simp only [htransfer, Prod.mk.injEq, Except.ok.injEq, Option.some.injEq]
      constructor
      · rintro ⟨rfl, rfl⟩
        exact ⟨f, ⟨rfl, rfl⟩, rfl⟩
      · rintro ⟨_, ⟨rfl, rfl⟩, rfl⟩
        exact ⟨rfl, rfl⟩

theorem settled?_of_ok {c : Console} {n : Nat} (h : c.step.1 = .ok n) :
    ∃ e, c.settled? = some (n, e) ∧ c.step.2 = catchUp n e :=
  step_eq_ok.1 (Prod.ext h rfl)

/-! ## The transfer -/

theorem readBlock_eq_ok {β : Type} [AddressSpace β] {count : Nat} {a : UInt16}
    {bytes : List UInt8} {b d : β} :
    readBlock count a b = (.ok bytes, d) ↔ Reads (addressesFrom a count) bytes b d := by
  induction count generalizing a b bytes with
  | zero =>
    constructor
    · rintro ⟨⟩
      exact .nil _
    · rintro ⟨⟩
      rfl
  | succ count ih =>
    rw [readBlock]
    constructor
    · rcases hvalue : AddressSpace.read a b with ⟨_ | value, c⟩
      · rintro ⟨⟩
      · rcases hblock : readBlock count (a + 1) c with ⟨_ | values, c'⟩ <;> simp only [hblock]
        · rintro ⟨⟩
        · rintro ⟨⟩
          exact .cons hvalue (ih.1 hblock)
    · rintro (_ | ⟨head, tail⟩)
      simp only [head, ih.2 tail]

/-- A block is refused where one of its bytes is, after all bytes before it have been read. -/
theorem readBlock_eq_error {β : Type} [AddressSpace β] {count : Nat} {a : UInt16}
    {fault : BusFault} {b d : β} :
    readBlock count a b = (.error fault, d) ↔ ∃ k < count, ∃ bytes c,
      Reads (addressesFrom a k) bytes b c ∧
        AddressSpace.read (a + .ofNat k) c = (.error fault, d) := by
  induction count generalizing a b with
  | zero => exact ⟨nofun, nofun⟩
  | succ count ih =>
    rw [readBlock]
    constructor
    · rcases hvalue : AddressSpace.read a b with ⟨_ | value, c⟩
      · rintro ⟨⟩
        exact ⟨0, Nat.succ_pos count, [], b, .nil b, (congrArg (AddressSpace.read · b)
          (UInt16.add_zero a)).trans hvalue⟩
      · rcases hblock : readBlock count (a + 1) c with ⟨_ | values, c'⟩ <;> simp only [hblock]
        · rintro ⟨⟩
          obtain ⟨k, hk, bytes, e, hbytes, hrefused⟩ := ih.1 hblock
          rw [add_one_add_ofNat] at hrefused
          exact ⟨k + 1, Nat.succ_lt_succ hk, value :: bytes, e, .cons hvalue hbytes, hrefused⟩
        · rintro ⟨⟩
    · rintro ⟨_ | k, hk, bytes, c, hbytes, hrefused⟩
      · cases hbytes
        rw [show a + .ofNat 0 = a from UInt16.add_zero a] at hrefused
        simp only [hrefused]
      · rcases hbytes with _ | ⟨head, tail⟩
        rw [← add_one_add_ofNat] at hrefused
        simp only [head, ih.2 ⟨k, Nat.lt_of_succ_lt_succ hk, _, c, tail, hrefused⟩]

/-- A block is read on one bus as on the other. -/
theorem readBlock_map {γ β : Type} [AddressSpace γ] [AddressSpace β] {f : γ → β}
    (hf : CpuM.BusHom f) (count : Nat) (a : UInt16) (b : γ) :
    readBlock count a (f b) = ((readBlock count a b).1, f (readBlock count a b).2) := by
  induction count generalizing a b with
  | zero => rfl
  | succ count ih =>
    rw [readBlock, hf.read, readBlock]
    rcases AddressSpace.read a b with ⟨_ | value, d⟩
    · rfl
    · dsimp only
      rw [ih]
      rcases readBlock count (a + 1) d with ⟨_ | values, e⟩ <;> rfl

/-- What every read keeps is kept while a block is read, wherever that ends. -/
theorem readBlock_keeps {β : Type} [AddressSpace β] {P : β → Prop}
    (hread : ∀ a b, P b → P (AddressSpace.read a b).2) (count : Nat) (a : UInt16) {b : β}
    (h : P b) : P (readBlock count a b).2 := by
  rcases hblock : readBlock count a b with ⟨fault | bytes, d⟩
  · obtain ⟨k, -, bytes, c, hreads, hrefused⟩ := readBlock_eq_error.1 hblock
    have hlast := hread (a + .ofNat k) c (hreads.keeps hread h)
    rwa [hrefused] at hlast
  · exact (readBlock_eq_ok.1 hblock).keeps hread h

theorem quiet_readBlock (count : Nat) (a : UInt16) (b : Board) :
    Ppu.Quiet b.ppu (readBlock count a b).2.ppu :=
  readBlock_keeps (P := fun d : Board => Ppu.Quiet b.ppu d.ppu)
    (fun a d h => h.trans (Board.quiet_read a d)) count a (Ppu.Quiet.refl b.ppu)

theorem quiet_foldl_writeOam (bytes : List UInt8) (p : Ppu) :
    Ppu.Quiet p (bytes.foldl Ppu.writeOam p) := by
  induction bytes generalizing p with
  | nil => exact Ppu.Quiet.refl p
  | cons value bytes ih => exact (p.quiet_writeOam value).trans (ih _)

theorem transferStall_le (cycles : Nat) : transferStall cycles ≤ 514 := by
  unfold transferStall
  omega

theorem quiet_serveTransfer (c : Console) :
    Ppu.Quiet c.bus.ppu (serveTransfer c).2.bus.ppu := by
  unfold serveTransfer
  cases c.bus.transferRequest with
  | none => exact Ppu.Quiet.refl _
  | some page =>
    have hquiet := quiet_readBlock 256 (word 0 page) { c.bus with transferRequest := none }
    simp only [transfer]
    rcases hblock : readBlock 256 (word 0 page) { c.bus with transferRequest := none } with
      ⟨_ | bytes, board⟩ <;> rw [hblock] at hquiet <;> simp only [hblock]
    · exact hquiet
    · exact hquiet.trans (quiet_foldl_writeOam _ _)

/-- A transfer charges the processor with its answer. -/
theorem serveTransfer_spec {c d : Console} {stall : Nat} (h : serveTransfer c = (.ok stall, d)) :
    d.cpu = c.cpu.stall stall ∧ stall ≤ 514 ∧
      stall = (c.bus.transferRequest.map fun _ => transferStall c.cpu.cycles).getD 0 := by
  unfold serveTransfer at h
  cases hrequest : c.bus.transferRequest with
  | none =>
    rw [hrequest] at h
    cases h
    exact ⟨rfl, Nat.zero_le _, rfl⟩
  | some page =>
    rw [hrequest] at h
    simp only [transfer] at h
    rcases hblock : readBlock 256 (word 0 page) { c.bus with transferRequest := none } with
      ⟨_ | bytes, board⟩ <;> rw [hblock] at h <;> cases h
    exact ⟨rfl, transferStall_le _, rfl⟩

/-! ## The first half -/

theorem routine_still : CpuM.Routine fun b d : Board => Ppu.Still b.ppu d.ppu where
  refl b := Ppu.Still.refl b.ppu
  trans := Ppu.Still.trans
  read a b := (Board.quiet_read a b).toStill
  push _ _ _ := Board.still_write _ _ _

/-- However the processor's step ends, the beam stands and the flag of the vertical blank is not
set. -/
theorem still_left_step (c : Console) : Ppu.Still c.bus.ppu (CpuM.left CpuM.step c).bus.ppu :=
  (CpuM.left_step routine_still c).elim fun a value _ h => h.trans (Board.still_write a value _)

theorem settled?_spec {c e : Console} {n : Nat} (h : c.settled? = some (n, e)) :
    e.cpu.cycles = c.cpu.cycles + n ∧ e.cpu.pending = (CpuM.begun c.cpu).pending ∧
      Ppu.Still c.bus.ppu e.bus.ppu ∧ n ≤ 525 := by
  obtain ⟨cycles, d, stall, hstep, htransfer, rfl⟩ := settled?_eq_some h
  obtain ⟨hcpu, hstall, -⟩ := serveTransfer_spec htransfer
  obtain ⟨hcycles, hpending, -⟩ := CpuM.step_of_ok routine_still hstep
  have hle := CpuM.step_le hstep
  have hleft := still_left_step c
  have hquiet := quiet_serveTransfer d
  rw [CpuM.left_of_ok hstep] at hleft
  rw [htransfer] at hquiet
  refine ⟨?_, ?_, hleft.trans hquiet.toStill, by omega⟩
  · rw [hcpu, Cpu.stall, hcycles, Nat.add_assoc]
  · rw [hcpu, ← hpending]
    rfl

/-! ## The second half -/

theorem catchUp_ppu (n : Nat) (e : Console) :
    (catchUp n e).bus.ppu = { Ppu.ticks (n * dotsPerCycle) e.bus.ppu with requesting := false } :=
  rfl

theorem catchUp_cpu (n : Nat) (e : Console) :
    (catchUp n e).cpu =
      if (Ppu.ticks (n * dotsPerCycle) e.bus.ppu).requesting then e.cpu.raise .nmi else e.cpu :=
  rfl

theorem raise_cycles (c : Cpu) (request : Interrupt) : (c.raise request).cycles = c.cycles := by
  rw [CpuM.raise_eq]

theorem catchUp_cycles (n : Nat) (e : Console) : (catchUp n e).cpu.cycles = e.cpu.cycles := by
  rw [catchUp_cpu]
  split
  · exact raise_cycles _ _
  · rfl

theorem catchUp_pc (n : Nat) (e : Console) : (catchUp n e).cpu.pc = e.cpu.pc := by
  rw [catchUp_cpu]
  split
  · rw [CpuM.raise_eq]
  · rfl

/-- The answer of a step is the number of cycles by which it moves the clock. -/
theorem cycles_of_step {c d : Console} {n : Nat} (h : c.step = (.ok n, d)) :
    d.cpu.cycles = c.cpu.cycles + n := by
  obtain ⟨e, he, rfl⟩ := step_eq_ok.1 h
  rw [catchUp_cycles, (settled?_spec he).1]

end Console

/-! ## What a step keeps -/

/-- A property of the board that all keep that a step is made of. -/
structure Board.Keeps (P : Board → Prop) : Prop where
  read : ∀ a b, P b → P (AddressSpace.read a b).2
  write : ∀ a value b, P b → P (AddressSpace.write a value b).2
  request : ∀ b, P b → P { b with transferRequest := none }
  writeOam : ∀ value b, P b → P { b with ppu := b.ppu.writeOam value }
  tick : ∀ b, P b → P { b with ppu := b.ppu.tick }
  takeInterrupt : ∀ b, P b → P { b with ppu := { b.ppu with requesting := false } }

namespace Board.Keeps

variable {P : Board → Prop} (hP : Keeps P)

include hP

theorem left_step {c : Console} (h : P c.bus) : P (CpuM.left CpuM.step c).bus := by
  have routine : CpuM.Routine fun b d : Board => P b → P d :=
    { refl := fun _ => id
      trans := fun h h' => h' ∘ h
      read := hP.read
      push := fun _ _ _ => hP.write _ _ _ }
  exact (CpuM.left_step routine c).elim (fun a value d h => hP.write a value d ∘ h) h

theorem readBlock (count : Nat) (a : UInt16) {b : Board} (h : P b) :
    P (Console.readBlock count a b).2 :=
  Console.readBlock_keeps hP.read count a h

theorem foldl_writeOam (bytes : List UInt8) {b : Board} (h : P b) :
    P { b with ppu := bytes.foldl Ppu.writeOam b.ppu } := by
  induction bytes generalizing b with
  | nil => exact h
  | cons value bytes ih => exact ih (hP.writeOam value b h)

theorem serveTransfer {c : Console} (h : P c.bus) : P c.serveTransfer.2.bus := by
  unfold Console.serveTransfer
  cases c.bus.transferRequest with
  | none => exact h
  | some page =>
    have hblock := hP.readBlock 256 (word 0 page) (hP.request c.bus h)
    simp only [Console.transfer]
    rcases hbytes : Console.readBlock 256 (word 0 page) { c.bus with transferRequest := none } with
      ⟨_ | bytes, board⟩ <;> rw [hbytes] at hblock <;> simp only [hbytes]
    · exact hblock
    · exact hP.foldl_writeOam bytes hblock

theorem ticks (n : Nat) {b : Board} (h : P b) : P { b with ppu := Ppu.ticks n b.ppu } := by
  induction n generalizing b with
  | zero => exact h
  | succ n ih => exact ih (hP.tick b h)

theorem catchUp (n : Nat) {c : Console} (h : P c.bus) : P (Console.catchUp n c).bus :=
  hP.takeInterrupt _ (hP.ticks _ h)

/-- However the step ends. -/
theorem step {c : Console} (h : P c.bus) : P c.step.2.bus := by
  have hleft := hP.left_step h
  cases hstep : CpuM.step c with
  | error fault d =>
    rw [CpuM.left_of_error hstep] at hleft
    rw [Console.step, hstep]
    exact hleft
  | ok cycles d =>
    rw [CpuM.left_of_ok hstep] at hleft
    have htransfer := hP.serveTransfer hleft
    rw [Console.step, hstep]
    dsimp only
    rcases hserve : Console.serveTransfer d with ⟨fault | stall, e⟩ <;> rw [hserve] at htransfer
    · exact htransfer
    · exact hP.catchUp _ htransfer

end Board.Keeps

end Famicom
