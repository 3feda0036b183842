import Famicom.Proofs.Cpu.Recording
import Famicom.Proofs.Strict.Memory
import Mathlib.Data.List.Chain

/-!
# The strict processor

The processor reaches its devices by accesses only, so it runs on a bus that may stop
(`AddressSpace (Option β)` says of devices `β` how) : once it has stopped there are no devices any
more. A strict number of the processor's own stops it in the same way (`CpuM.require`). These are
the index in the opcode table, the sums of an addition, the cycles of a step, which are counted in a
byte, and the clock.

The table has a slot for every byte, and no opcode is entered twice (`Instruction.slot?_eq`). An
addition of two bytes and a carry is far from the end of a word (`Registers.add?_eq`), and eleven
cycles are far from the end of a byte. So a strict step is the step, on the devices that have not
stopped, as long as the clock has room for it (`CpuM.step?_eq`).
-/

namespace Famicom

/-! ## The opcode table -/

namespace Instruction

/-- Enter an instruction in the slot of its opcode, which has to be free. -/
def enter? (slots : List (Option Instruction)) (i : Instruction) :
    Option (List (Option Instruction)) :=
  match slots[i.opcode.toNat]? with
  | some none => some (slots.set i.opcode.toNat (some i))
  | _ => none

/-- The slots of all opcodes. -/
def slots? : Option (List (Option Instruction)) := table.foldlM enter? (List.replicate 256 none)

/-- What is in the slot of an opcode. -/
def slot? (opcode : UInt8) : Option (Option Instruction) := do
  (← slots?)[opcode.toNat]?

theorem pairwise_table : table.Pairwise fun i j => i.opcode < j.opcode := by
  have htrans : IsTrans Instruction fun i j => i.opcode < j.opcode :=
    ⟨fun _ _ _ => UInt8.lt_trans⟩
  have hascending : table.IsChain fun i j => i.opcode < j.opcode := by decide +kernel
  exact List.isChain_iff_pairwise.1 hascending

/-- What is entered in one slot changes no other. -/
theorem getElem?_entered {slots : List (Option Instruction)} (hlength : slots.length = 256)
    (i : Instruction) (opcode : UInt8) :
    (slots.set i.opcode.toNat (some i))[opcode.toNat]? =
      if i.opcode = opcode then some (some i) else slots[opcode.toNat]? := by
  have hbyte : i.opcode.toNat < slots.length := by
    rw [hlength]
    exact i.opcode.toNat_lt
  simp only [List.getElem?_set, if_pos hbyte, UInt8.toNat_inj]

/-- Instructions of different opcodes can be entered in free slots, and each is found in its own. -/
theorem foldlM_enter? {entries : List Instruction}
    (hascending : entries.Pairwise fun i j => i.opcode < j.opcode)
    {slots : List (Option Instruction)} (hlength : slots.length = 256)
    (hfree : ∀ i ∈ entries, slots[i.opcode.toNat]? = some none) :
    ∃ filled, entries.foldlM enter? slots = some filled ∧ ∀ opcode : UInt8,
      filled[opcode.toNat]? =
        match entries.find? fun i => i.opcode == opcode with
        | some i => some (some i)
        | none => slots[opcode.toNat]? := by
  induction entries generalizing slots with
  | nil => exact ⟨slots, rfl, fun _ => rfl⟩
  | cons i entries ih =>
    obtain ⟨hfirst, hrest⟩ := List.pairwise_cons.1 hascending
    have hslot := getElem?_entered hlength i
    have henter : enter? slots i = some (slots.set i.opcode.toNat (some i)) := by
      rw [enter?, hfree i List.mem_cons_self]
    have hstill : ∀ j ∈ entries, (slots.set i.opcode.toNat (some i))[j.opcode.toNat]? =
        some none := by
      intro j hj
      rw [hslot, if_neg (UInt8.ne_of_lt (hfirst j hj))]
      exact hfree j (List.mem_cons_of_mem _ hj)
    obtain ⟨filled, hfilled, hfind⟩ := ih hrest (List.length_set.trans hlength) hstill
    refine ⟨filled, ?_, fun opcode => ?_⟩
    · rw [List.foldlM_cons, henter]
      exact hfilled
    · rw [hfind, List.find?_cons]
      by_cases hopcode : i.opcode = opcode
      · -- the instructions behind it have higher opcodes
        have hnone : entries.find? (fun j => j.opcode == opcode) = none := by
          refine List.find?_eq_none.2 fun j hj hsame => ?_
          exact UInt8.ne_of_lt (hfirst j hj) (hopcode.trans (beq_iff_eq.1 hsame).symm)
        rw [hnone, hslot, if_pos hopcode, beq_iff_eq.2 hopcode]
      · rw [hslot, if_neg hopcode, beq_eq_false_iff_ne.2 hopcode]

theorem slot?_eq (opcode : UInt8) : slot? opcode = some (decode? opcode) := by
  have hempty (k : UInt8) : (List.replicate 256 (none : Option Instruction))[k.toNat]? =
      some none := by
    rw [List.getElem?_replicate, if_pos k.toNat_lt]
  obtain ⟨filled, hfilled, hfind⟩ :=
    foldlM_enter? pairwise_table List.length_replicate fun i _ => hempty i.opcode
  replace hfilled : slots? = some filled := hfilled
  have hslot := hfind opcode
  rw [hempty, ← decode?] at hslot
  rw [slot?, hfilled]
  refine hslot.trans ?_
  cases decode? opcode <;> rfl

end Instruction

/-! ## Sums of the processor -/

/-- Add a value and the carry to the accumulator, in sums of sixteen bits. -/
def Registers.add? (r : Registers) (value : UInt8) : Option Registers := do
  let total ← sum? 16 (← sum? 16 r.a.toNat value.toNat) (if r.status.carry then 1 else 0)
  let sum := UInt8.ofNat total
  return { r with
    a := sum
    status := { r.status with
      carry := 0xFF < total
      overflow := ~~~(r.a ^^^ value) &&& (r.a ^^^ sum) &&& 0x80 != 0 }.showing sum }

theorem Registers.add?_eq (r : Registers) (value : UInt8) : r.add? value = some (r.add value) := by
  have ha := r.a.toNat_lt
  have hvalue := value.toNat_lt
  have hcarry : (if r.status.carry then 1 else 0) ≤ 1 := by split <;> omega
  rw [add?, sum?_eq (by omega), Option.bind_eq_bind, Option.bind_some, sum?_eq (by omega)]
  rfl

/-- Take a value into the registers as an instruction does that is described by `use`. Four of
them add. -/
def Mnemonic.take? (m : Mnemonic) (use : Registers → UInt8 → Registers) (r : Registers)
    (value : UInt8) : Option Registers :=
  match m with
  | .adc | .rra => r.add? value
  | .sbc | .isc => r.add? (~~~value)
  | _ => some (use r value)

/-- The use that an action makes of a value it has loaded. -/
def Action.use? : Action → Option (Registers → UInt8 → Registers)
  | .load use | .modify _ use => some use
  | _ => none

theorem Mnemonic.take?_eq {m : Mnemonic} {use : Registers → UInt8 → Registers}
    (h : m.action.use? = some use) (r : Registers) (value : UInt8) :
    m.take? use r value = some (use r value) := by
  cases m
  case adc | rra | sbc | isc =>
    cases h
    exact r.add?_eq _
  all_goals rfl

/-! ## A bus that may stop -/

namespace CpuM

variable {α β : Type}

/-- Stop. There are no devices any more. -/
def halt : CpuM (Option β) α
  | ⟨cpu, _⟩ => .error (.bus cpu.origin ⟨.read, cpu.pc⟩) ⟨cpu, none⟩

/-- Go on with an answer, or stop. -/
def require : Option α → CpuM (Option β) α
  | some a => pure a
  | none => halt

theorem require_bind {γ : Type} {answer : Option α} {a : α} (h : answer = some a)
    (f : α → CpuM (Option β) γ) : require answer >>= f = f a := by
  rw [h]
  rfl

/-- Change the registers, or stop. -/
def compute? (f : Registers → Option Registers) : CpuM (Option β) Unit := do
  let r ← require (f (← cpu).toRegisters)
  compute fun _ => r

/-- Charge cycles and answer them. The clock has 64 bits. -/
def charge? (cycles : Nat) : CpuM (Option β) Nat := do
  let clock ← require (sum? 64 (← cpu).cycles cycles)
  update fun c => { c with cycles := clock }
  return cycles

theorem commutes_compute? {f : Registers → Registers} {g : Registers → Option Registers}
    (h : ∀ r, g r = some (f r)) : Commutes (some : β → Option β) (compute f) (compute? g) := by
  intro s
  show (cpu >>= fun c => require (g c.toRegisters) >>= fun r => compute fun _ => r) _ = _
  rw [cpu_bind, require_bind (h _)]
  rfl

theorem charge?_eq {cycles : Nat} {s : System (Option β)} (h : s.cpu.cycles + cycles < 2 ^ 64) :
    charge? cycles s = charge cycles s := by
  unfold charge?
  rw [cpu_bind, require_bind (sum?_eq h)]
  rfl

variable [AddressSpace (Option β)]

/-- Perform the action of a mnemonic on a located operand. -/
def run? (operand : Operand) (m : Mnemonic) : CpuM (Option β) Nat :=
  match m.action with
  | .load use => do
    let value ← operand.load
    compute? fun r => m.take? use r value
    return 0
  | .modify change use => do
    let (value, status) := change (← operand.load) (← cpu).status
    update fun c => { c with status }
    operand.store value
    compute? fun r => m.take? use r value
    return 0
  | action => action.run operand

/-- Read the opcode at the program counter and look into its slot. -/
def fetchInstruction? : CpuM (Option β) Instruction := do
  let c ← cpu
  let opcode ← readByte c.pc
  match ← require (Instruction.slot? opcode) with
  | some i => return i
  | none => throw (.unknownOpcode opcode c.origin)

/-- Run a decoded instruction. Its cycles are summed up in a byte. -/
def execute? (i : Instruction) : CpuM (Option β) Nat := do
  update fun c => { c with pc := c.pc + 1 }
  let resolved ← i.mode.resolve
  let cycles ← require <|
    if i.pagePenalty && resolved.crossed then sum? 8 i.cycles 1 else some i.cycles
  let extra ← run? resolved.operand i.mnemonic
  require (sum? 8 cycles extra)

/-- Serve a request or run one instruction. -/
def step? : CpuM (Option β) Nat := do
  beginStep
  match ← takeRequest with
  | some request =>
    serve request
    charge? Interrupt.entryCycles
  | none => charge? (← execute? (← fetchInstruction?))

/-- What a step does between its beginning and the charge at its end. -/
def work? : Option Interrupt → CpuM (Option β) Nat
  | some request => do
    serve request
    return Interrupt.entryCycles
  | none => do execute? (← fetchInstruction?)

theorem step?_eq_work (s : System (Option β)) :
    step? s = (work? s.cpu.served >>= charge?) ⟨begun s.cpu, s.bus⟩ := by
  rw [step?, bind_of_ok (m := beginStep) (a := ()) (update_eq_ok.2 rfl),
    bind_of_ok (takeRequest_eq _ _)]
  cases s.cpu.served <;> simp only [work?, bind_assoc, pure_bind]

/-! ## The step -/

section Running

variable [AddressSpace β]

variable (hf : BusHom (some : β → Option β))

include hf

theorem commutes_run? (operand : Operand) (m : Mnemonic) :
    Commutes (some : β → Option β) (m.action.run operand) (run? operand m) := by
  have hR := hf.actionClosed
  have finish {use : Registers → UInt8 → Registers} (huse : m.action.use? = some use)
      (value : UInt8) :
      Commutes (some : β → Option β) (do compute fun r => use r value; return 0)
        (do compute? fun r => m.take? use r value; return 0) :=
    (commutes_compute? fun r => m.take?_eq huse r value).seq fun _ => BusHom.pure 0
  unfold run?
  cases haction : m.action with
  | load use =>
    rw [haction] at finish
    exact (hR.readClosed.load operand).seq fun value => finish rfl value
  | modify change use =>
    rw [haction] at finish
    exact (hR.readClosed.load operand).seq fun _ => BusHom.cpu.seq fun _ =>
      (BusHom.update _).seq fun _ => (hR.store operand _).seq fun _ => finish rfl _
  | _ => exact hR.run operand _

theorem commutes_fetchInstruction? :
    Commutes (some : β → Option β) fetchInstruction fetchInstruction? := by
  refine BusHom.cpu.seq fun c => (hf.readByte _).seq fun opcode => ?_
  rw [require_bind (Instruction.slot?_eq opcode)]
  cases Instruction.decode? opcode with
  | some i => exact BusHom.pure i
  | none => exact fun _ => rfl

theorem commutes_execute? {i : Instruction} (hi : i ∈ Instruction.table) :
    Commutes (some : β → Option β) (execute i) (execute? i) := by
  have hcycles := cycles_le_of_mem_table hi
  refine (BusHom.update _).seq fun _ => ?_
  refine (hf.actionClosed.readClosed.resolve _).seq fun resolved => ?_
  have hpenalty : (if i.pagePenalty && resolved.crossed then sum? 8 i.cycles 1
      else some i.cycles) =
      some (i.cycles + if i.pagePenalty && resolved.crossed then 1 else 0) := by
    split_ifs
    · exact sum?_eq (by omega)
    · rfl
  rw [require_bind hpenalty]
  refine (commutes_run? hf _ _).seq_of run_le fun extra hextra => ?_
  rw [sum?_eq (by split <;> omega)]
  exact BusHom.pure _

theorem commutes_work? (request : Option Interrupt) :
    Commutes (some : β → Option β) (work request) (work? request) := by
  cases request with
  | some request => exact (hf.actionClosed.serve request).seq fun _ => BusHom.pure _
  | none =>
    refine (commutes_fetchInstruction? hf).seq_of (Q := (· ∈ Instruction.table)) ?_
      fun i => commutes_execute? hf
    intro i s t h
    obtain ⟨opcode, -, hdecode⟩ := fetchInstruction_eq_ok.1 h
    exact Instruction.mem_table_of_decode? hdecode

/-- On devices that do not stop the strict step is the step, if the clock has room for it. -/
theorem step?_eq {s : System β} (hfit : (left step s).cpu.cycles < 2 ^ 64) :
    step? (s.map some) = mapResult some (step s) := by
  have hwork := commutes_work? hf s.cpu.served ⟨begun s.cpu, s.bus⟩
  rw [step?_eq_work, step_eq]
  cases h : work s.cpu.served ⟨begun s.cpu, s.bus⟩ with
  | error e t =>
    rw [h] at hwork
    rw [bind_of_error h]
    exact bind_of_error hwork _
  | ok n t =>
    rw [left_of_ok (step_eq_ok.2 ⟨t, h, rfl⟩)] at hfit
    rw [h] at hwork
    rw [bind_of_ok h]
    exact (bind_of_ok hwork _).trans (charge?_eq hfit)

end Running

end CpuM

end Famicom
