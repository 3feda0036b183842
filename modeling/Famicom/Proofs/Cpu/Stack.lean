import Famicom.Proofs.Cpu.Fetch
import Famicom.Proofs.Word

/-!
# The stack as a list

The stack lies in a page of plain memory (`PlainStack`) and the stack pointer names the
first free cell. `System.stack s n` lists the `n` bytes above the pointer, the top of the stack
first; the pointer wraps, and so does the list. A push puts a byte in front of it, as
long as fewer than 256 bytes are live, and a pull takes the first one off (`push_spec`,
`pull_spec`). Reads leave it alone (`Reads.stack`), so it is as before when the action of an
instruction starts (`step_of_not_served`).
-/

namespace Famicom

variable {β : Type} [AddressSpace β]

/-! ## Cells -/

/-- The byte in the cell that a stack pointer names. -/
def stackCell (sp : UInt8) (b : β) : UInt8 :=
  match (AddressSpace.read (CpuM.stackAddress sp) b).1 with
  | .ok value => value
  | .error _ => 0

/-- The stack page is plain memory : a write to a cell of it is what the cell holds from then on,
the other cells keep what they hold, and no read changes any of them. -/
class PlainStack (β : Type) [AddressSpace β] : Prop where
  read : ∀ (a : UInt16) (sp : UInt8) (b : β),
    stackCell sp (AddressSpace.read a b).2 = stackCell sp b
  write : ∀ (sp : UInt8) (value : UInt8) (sp' : UInt8) (b : β),
    stackCell sp' (AddressSpace.write (CpuM.stackAddress sp) value b).2 =
      if sp' = sp then value else stackCell sp' b

/-- The bytes above a stack pointer, from the top of the stack down. -/
def stackBytes (b : β) : UInt8 → Nat → List UInt8
  | _, 0 => []
  | sp, n + 1 => stackCell (sp + 1) b :: stackBytes b (sp + 1) n

/-- The topmost bytes of the stack. -/
def System.stack (s : System β) (n : Nat) : List UInt8 := stackBytes s.bus s.cpu.sp n

/-- Only the cells above the pointer matter. -/
theorem stackBytes_congr {b d : β} {sp : UInt8} {n : Nat}
    (h : ∀ k < n, stackCell (sp + .ofNat (k + 1)) d = stackCell (sp + .ofNat (k + 1)) b) :
    stackBytes d sp n = stackBytes b sp n := by
  induction n generalizing sp with
  | zero => rfl
  | succ n ih =>
    have hnext (k : Nat) : sp + 1 + .ofNat (k + 1) = sp + .ofNat (k + 1 + 1) := by
      rw [UInt8.ofNat_add (k + 1), UInt8.add_assoc, UInt8.add_comm 1]
      rfl
    rw [stackBytes, stackBytes, ih fun k hk => by rw [hnext]; exact h (k + 1) (by omega)]
    exact congrArg (· :: _) (h 0 (Nat.succ_pos n))

/-- The pointer does not come back to its cell within 255 cells. -/
theorem add_ofNat_ne {sp : UInt8} {k : Nat} (h : k + 1 < 256) : sp + .ofNat (k + 1) ≠ sp := by
  intro heq
  have hzero : UInt8.ofNat (k + 1) = 0 := UInt8.add_eq_left.1 heq
  have hnat := congrArg UInt8.toNat hzero
  rw [UInt8.toNat_ofNat_of_lt' h] at hnat
  exact Nat.succ_ne_zero k hnat

variable [PlainStack β]

/-- A write to the free cell changes none of the live ones. -/
theorem stackBytes_write (sp value : UInt8) (b : β) {n : Nat} (h : n < 256) :
    stackBytes (AddressSpace.write (CpuM.stackAddress sp) value b).2 sp n =
      stackBytes b sp n := by
  refine stackBytes_congr fun k hk => ?_
  rw [PlainStack.write, if_neg (add_ofNat_ne (by omega))]

/-- Reads change nothing on the stack. -/
theorem stackBytes_read (a : UInt16) (sp : UInt8) (b : β) (n : Nat) :
    stackBytes (AddressSpace.read a b).2 sp n = stackBytes b sp n :=
  stackBytes_congr fun _ _ => PlainStack.read a _ b

theorem Reads.stack {addresses : List UInt16} {bytes : List UInt8} {b c : β}
    (h : Reads addresses bytes b c) (sp : UInt8) (n : Nat) :
    stackBytes c sp n = stackBytes b sp n :=
  h.keeps (P := fun d => stackBytes d sp n = stackBytes b sp n)
    (fun a d hd => (stackBytes_read a sp d n).trans hd) rfl

namespace CpuM

/-! ## Pushing and pulling -/

theorem readByte_stack {a : UInt16} {value : UInt8} {s t : System β}
    (h : readByte a s = .ok value t) (n : Nat) : t.stack n = s.stack n := by
  obtain ⟨hread, hcpu⟩ := readByte_eq_ok.1 h
  have hbus : t.bus = (AddressSpace.read a s.bus).2 := by rw [hread]
  rw [System.stack, System.stack, hcpu, hbus, stackBytes_read]

/-- A push takes the free cell, unless all of the page is live. -/
theorem push_spec {value : UInt8} {s t : System β} {u : Unit} (h : push value s = .ok u t) :
    t.cpu = { s.cpu with sp := s.cpu.sp - 1 } ∧
      ∀ n < 256, t.stack (n + 1) = value :: s.stack n := by
  obtain ⟨hwrite, hcpu⟩ := push_eq_ok.1 h
  refine ⟨hcpu, fun n hn => ?_⟩
  have hbus : t.bus = (AddressSpace.write (stackAddress s.cpu.sp) value s.bus).2 := by rw [hwrite]
  have htop : s.cpu.sp - 1 + 1 = s.cpu.sp := UInt8.sub_add_cancel _ _
  show stackCell (t.cpu.sp + 1) t.bus :: stackBytes t.bus (t.cpu.sp + 1) n = _
  rw [hcpu, htop, hbus, PlainStack.write, if_pos rfl, stackBytes_write _ _ _ hn]
  rfl

theorem pull_spec {value : UInt8} {s t : System β} (h : pull s = .ok value t) :
    t.cpu = { s.cpu with sp := s.cpu.sp + 1 } ∧
      ∀ n, s.stack (n + 1) = value :: t.stack n := by
  simp only [pull, update_bind, cpu_bind] at h
  have hstack := readByte_stack h
  obtain ⟨hread, hcpu⟩ := readByte_eq_ok.1 h
  refine ⟨hcpu, fun n => ?_⟩
  have hcell : stackCell (s.cpu.sp + 1) s.bus = value := by rw [stackCell, hread]
  rw [hstack]
  show stackCell (s.cpu.sp + 1) s.bus :: stackBytes s.bus (s.cpu.sp + 1) n = _
  rw [hcell]
  rfl

theorem pushWord_spec {w : UInt16} {s t : System β} {u : Unit} (h : pushWord w s = .ok u t) :
    t.cpu = { s.cpu with sp := s.cpu.sp - 2 } ∧
      ∀ n, n + 1 < 256 → t.stack (n + 2) = lowByte w :: highByte w :: s.stack n := by
  obtain ⟨_, v, hhigh, hlow⟩ := bind_eq_ok.1 h
  obtain ⟨hcpu, hstack⟩ := push_spec hhigh
  obtain ⟨hcpu', hstack'⟩ := push_spec hlow
  have hsp : s.cpu.sp - 1 - 1 = s.cpu.sp - 2 := by grind
  refine ⟨?_, fun n hn => by rw [hstack' _ hn, hstack n (by omega)]⟩
  rw [hcpu', hcpu, ← hsp]

theorem pullWord_spec {w : UInt16} {s t : System β} (h : pullWord s = .ok w t) :
    t.cpu = { s.cpu with sp := s.cpu.sp + 2 } ∧
      ∀ n, s.stack (n + 2) = lowByte w :: highByte w :: t.stack n := by
  simp only [pullWord, bind_eq_ok, pure_eq_ok] at h
  obtain ⟨lo, v, hlo, hi, _, hhi, rfl, rfl⟩ := h
  obtain ⟨hcpu, hstack⟩ := pull_spec hlo
  obtain ⟨hcpu', hstack'⟩ := pull_spec hhi
  have hsp : s.cpu.sp + 1 + 1 = s.cpu.sp + 2 := by grind
  refine ⟨?_, fun n => by rw [hstack, hstack', lowByte_word, highByte_word]⟩
  rw [hcpu', hcpu, ← hsp]

/-! ## Up to the action of an instruction -/

omit [PlainStack β] in
/-- The step runs an instruction with this mnemonic. -/
def Runs (mnemonic : Mnemonic) (s t : System β) : Prop :=
  s.cpu.served = none ∧ (∃ n, step s = .ok n t) ∧
    ∃ opcode i, (AddressSpace.read s.cpu.pc s.bus).1 = .ok opcode ∧
      Instruction.decode? opcode = some i ∧ i.mnemonic = mnemonic

/-- An instruction has its action run behind its operand bytes, with the registers and the stack
as they were. -/
theorem step_of_not_served {s t : System β} {n : Nat} (hserved : s.cpu.served = none)
    (h : step s = .ok n t) : ∃ i operand extra u v,
      (∃ opcode, (AddressSpace.read s.cpu.pc s.bus).1 = .ok opcode ∧
        Instruction.decode? opcode = some i) ∧
      u.cpu = { s.cpu with pc := s.cpu.pc + .ofNat i.size, origin := s.cpu.pc } ∧
      (∀ n, u.stack n = s.stack n) ∧
      i.mnemonic.action.run operand u = .ok extra v ∧ t = ⟨v.cpu.stall n, v.bus⟩ := by
  obtain ⟨i, bytes, pointer, d, extra, v, hfetched, hrun, ht⟩ := step_fetched hserved h
  refine ⟨i, _, extra, ⟨s.cpu.behind i, d⟩, v, ⟨i.opcode, hfetched.read, hfetched.1⟩, rfl,
    fun n => ?_, hrun, ht⟩
  obtain ⟨-, b, hbytes, hpointer⟩ := hfetched
  exact (hpointer.stack _ n).trans (hbytes.stack _ n)

omit [PlainStack β] in
theorem Runs.instruction {mnemonic : Mnemonic} {s t : System β} (h : Runs mnemonic s t)
    {opcode : UInt8} {i : Instruction} (hread : (AddressSpace.read s.cpu.pc s.bus).1 = .ok opcode)
    (hdecode : Instruction.decode? opcode = some i) : i.mnemonic = mnemonic := by
  obtain ⟨-, -, opcode', i', hread', hdecode', hi⟩ := h
  rw [hread] at hread'
  cases hread'
  rw [hdecode] at hdecode'
  cases hdecode'
  exact hi

theorem Runs.spec {mnemonic : Mnemonic} {s t : System β} (h : Runs mnemonic s t) :
    ∃ i ∈ Instruction.table, i.mnemonic = mnemonic ∧ ∃ operand extra u v n,
      u.cpu = { s.cpu with pc := s.cpu.pc + .ofNat i.size, origin := s.cpu.pc } ∧
      (∀ n, u.stack n = s.stack n) ∧
      mnemonic.action.run operand u = .ok extra v ∧ t = ⟨v.cpu.stall n, v.bus⟩ := by
  obtain ⟨n, hstep⟩ := h.2.1
  obtain ⟨i, operand, extra, u, v, ⟨opcode, hread, hdecode⟩, hcpu, hstack, hrun, ht⟩ :=
    step_of_not_served h.1 hstep
  have hi := h.instruction hread hdecode
  exact ⟨i, Instruction.mem_table_of_decode? hdecode, hi, operand, extra, u, v, n, hcpu, hstack,
    hi ▸ hrun, ht⟩

/-- The flags change and the handler's address is taken, and the stack stays. -/
theorem enterHandler_spec {request : Interrupt} {s t : System β} {u : Unit}
    (h : enterHandler request s = .ok u t) :
    t.cpu = { s.cpu with status := s.cpu.status.masking, pc := t.cpu.pc } ∧
      ∀ n, t.stack n = s.stack n := by
  obtain ⟨lo, hi, v, w, hlo, hhi, rfl⟩ := enterHandler_eq_ok.1 h
  have hstack := readByte_stack hlo
  have hstack' := readByte_stack hhi
  have hv := (readByte_eq_ok.1 hlo).2
  have hw := (readByte_eq_ok.1 hhi).2
  refine ⟨by rw [hw, hv], fun n => ?_⟩
  show w.stack n = s.stack n
  rw [hstack', hstack]
  rfl

/-! ## Instructions that work on the stack -/

theorem size_jsr {i : Instruction} (h : i ∈ Instruction.table) :
    i.mnemonic = .jsr → i.size = 3 := by
  revert i
  decide +kernel

theorem size_brk {i : Instruction} (h : i ∈ Instruction.table) :
    i.mnemonic = .brk → i.size = 1 := by
  revert i
  decide +kernel

theorem Runs.push {mnemonic : Mnemonic} {value : Registers → UInt8} {s t : System β}
    (h : Runs mnemonic s t) (haction : mnemonic.action = .push value) :
    t.cpu.toRegisters = { s.cpu.toRegisters with sp := s.cpu.sp - 1 } ∧
      ∀ n < 256, t.stack (n + 1) = value s.cpu.toRegisters :: s.stack n := by
  obtain ⟨i, -, -, operand, extra, u, v, n, hcpu, hstack, hrun, rfl⟩ := h.spec
  have hdone := run_performed hrun
  rw [haction] at hdone
  obtain ⟨hv, hstack'⟩ := push_spec hdone
  refine ⟨?_, fun k hk => ?_⟩
  · show v.cpu.toRegisters = _
    rw [hv, hcpu]
  · have hk' := hstack' k hk
    rw [hstack, hcpu] at hk'
    exact hk'

theorem Runs.pull {mnemonic : Mnemonic} {use : Registers → UInt8 → Registers} {s t : System β}
    (h : Runs mnemonic s t) (haction : mnemonic.action = .pull use)
    (huse : ∀ r value, (use r value).sp = r.sp) :
    ∃ value, t.cpu.toRegisters = use { s.cpu.toRegisters with sp := s.cpu.sp + 1 } value ∧
      ∀ n, s.stack (n + 1) = value :: t.stack n := by
  obtain ⟨i, -, -, operand, extra, u, v, n, hcpu, hstack, hrun, rfl⟩ := h.spec
  have hdone := run_performed hrun
  rw [haction] at hdone
  obtain ⟨value, w, hpull, rfl⟩ := hdone
  obtain ⟨hw, hstack'⟩ := pull_spec hpull
  have hregs : w.cpu.toRegisters = { s.cpu.toRegisters with sp := s.cpu.sp + 1 } := by
    rw [hw, hcpu]
  refine ⟨value, congrArg (use · value) hregs, fun k => ?_⟩
  rw [← hstack, hstack']
  show value :: stackBytes w.bus w.cpu.sp k =
    value :: stackBytes w.bus (use w.cpu.toRegisters value).sp k
  rw [huse]

theorem Runs.call {s t : System β} (h : Runs .jsr s t) :
    t.cpu.sp = s.cpu.sp - 2 ∧ ∀ n, n + 1 < 256 →
      t.stack (n + 2) = lowByte (s.cpu.pc + 2) :: highByte (s.cpu.pc + 2) :: s.stack n := by
  obtain ⟨i, hi, hm, operand, extra, u, v, n, hcpu, hstack, hrun, rfl⟩ := h.spec
  obtain ⟨w, hpush, rfl⟩ := run_performed hrun
  obtain ⟨hw, hstack'⟩ := pushWord_spec hpush
  have hpc : u.cpu.pc - 1 = s.cpu.pc + 2 := by
    rw [hcpu, size_jsr hi hm]
    show s.cpu.pc + 3 - 1 = _
    grind
  refine ⟨?_, fun k hk => ?_⟩
  · show w.cpu.sp = _
    rw [hw, hcpu]
  · have hk' := hstack' k hk
    rw [hstack, hpc] at hk'
    exact hk'

theorem Runs.ret {s t : System β} (h : Runs .rts s t) :
    t.cpu.sp = s.cpu.sp + 2 ∧ ∃ w, t.cpu.pc = w + 1 ∧
      ∀ n, s.stack (n + 2) = lowByte w :: highByte w :: t.stack n := by
  obtain ⟨i, -, -, operand, extra, u, v, n, hcpu, hstack, hrun, rfl⟩ := h.spec
  obtain ⟨w, x, hpull, rfl⟩ := run_performed hrun
  obtain ⟨hx, hstack'⟩ := pullWord_spec hpull
  refine ⟨?_, w, rfl, fun k => by rw [← hstack, hstack']; rfl⟩
  show x.cpu.sp = _
  rw [hx, hcpu]

theorem Runs.retInterrupt {s t : System β} (h : Runs .rti s t) :
    t.cpu.sp = s.cpu.sp + 3 ∧ ∃ value, t.cpu.status = .restored value ∧
      ∀ n, s.stack (n + 3) = value :: lowByte t.cpu.pc :: highByte t.cpu.pc :: t.stack n := by
  obtain ⟨i, -, -, operand, extra, u, v, n, hcpu, hstack, hrun, rfl⟩ := h.spec
  obtain ⟨value, w, x, y, hpull, hpull', rfl⟩ := run_performed hrun
  obtain ⟨hx, hstack'⟩ := pull_spec hpull
  obtain ⟨hy, hstack''⟩ := pullWord_spec hpull'
  refine ⟨?_, value, ?_, fun k => ?_⟩
  · show y.cpu.sp = _
    rw [hy, hx, hcpu]
    grind
  · show y.cpu.status = _
    rw [hy]
  · rw [← hstack, hstack']
    exact congrArg (value :: ·) (hstack'' k)

/-- Both ways into a handler push the program counter and then the flags. -/
theorem entry_spec {request : Interrupt} {w : UInt16} {value : UInt8} {s t u v : System β}
    {x y z : Unit} (hword : pushWord w s = .ok x t) (hpush : CpuM.push value t = .ok y u)
    (henter : enterHandler request u = .ok z v) :
    v.cpu.sp = s.cpu.sp - 3 ∧ ∀ n, n + 2 < 256 →
      v.stack (n + 3) = value :: lowByte w :: highByte w :: s.stack n := by
  obtain ⟨ht, hstack⟩ := pushWord_spec hword
  obtain ⟨hu, hstack'⟩ := push_spec hpush
  obtain ⟨hv, hstack''⟩ := enterHandler_spec henter
  refine ⟨?_, fun n hn => by rw [hstack'', hstack' _ hn, hstack n (by omega)]⟩
  rw [hv, hu, ht]
  grind

theorem Runs.trap {s t : System β} (h : Runs .brk s t) :
    t.cpu.sp = s.cpu.sp - 3 ∧ ∀ n, n + 2 < 256 →
      t.stack (n + 3) = s.cpu.status.pushed.toByte :: lowByte (s.cpu.pc + 2) ::
        highByte (s.cpu.pc + 2) :: s.stack n := by
  obtain ⟨i, hi, hm, operand, extra, u, v, n, hcpu, hstack, hrun, rfl⟩ := h.spec
  obtain ⟨w, x, hword, hpush, henter⟩ := run_performed hrun
  obtain ⟨hsp, hentry⟩ := entry_spec hword hpush henter
  have hpc : u.cpu.pc + 1 = s.cpu.pc + 2 := by
    rw [hcpu, size_brk hi hm]
    exact UInt16.add_assoc s.cpu.pc 1 1
  rw [hcpu] at hsp
  refine ⟨hsp, fun k hk => ?_⟩
  have hk' := hentry k hk
  rw [hstack, hpc, hcpu] at hk'
  exact hk'

theorem step_of_served {request : Interrupt} {s t : System β} {n : Nat}
    (hserved : s.cpu.served = some request) (hrequest : request ≠ .reset)
    (h : step s = .ok n t) :
    t.cpu.sp = s.cpu.sp - 3 ∧ ∀ n, n + 2 < 256 →
      t.stack (n + 3) = s.cpu.status.interrupted.toByte :: lowByte s.cpu.pc ::
        highByte s.cpu.pc :: s.stack n := by
  obtain ⟨v, hwork, rfl⟩ := step_eq_ok.1 h
  rw [hserved] at hwork
  simp only [work, bind_eq_ok, pure_eq_ok] at hwork
  obtain ⟨_, _, hserve, -, rfl⟩ := hwork
  cases request with
  | reset => exact absurd rfl hrequest
  | nmi | irq =>
    simp only [serve, cpu_bind, bind_eq_ok] at hserve
    obtain ⟨_, w, hword, _, x, hpush, henter⟩ := hserve
    have hentry := entry_spec hword hpush henter
    exact hentry

end CpuM

end Famicom
