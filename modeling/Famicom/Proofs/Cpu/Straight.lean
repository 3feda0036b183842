import Famicom.Proofs.Cpu.Cost
import Famicom.Proofs.Ram
import Mathlib.Data.Nat.Digits.Defs

/-!
# Straight code

An instruction that is fetched from addresses that can be read without a change, and that works on
an operand in RAM, is a function of the registers and the memory (`Action.effect`). A `Command`
says what an instruction does and where, and `Code` that the instructions for a list of commands
stand in memory one behind the other, in whichever modes they name their operands, and that none of
the addresses they are fetched from is among those that are written to on the way. Then the steps of
a processor at the code have the effects of the commands in order, and cost what the instructions
cost (`Code.run`). Nothing is asked of the bus but that the addresses written to are RAM among those
that are looked at (`RamAmong`).

Only commands that leave the index registers and the interrupt flag alone are considered
(`Action.Straight`) : then each operand is where the registers at the beginning put it, and no
request is let through on the way.

A number of several bytes is kept in memory with its low byte first (`numberAt`).
-/

namespace Famicom

variable {β : Type} [AddressSpace β]

/-! ## Numbers in memory -/

/-- The number that these bytes stand for, the low one first. -/
def number (bytes : List UInt8) : Nat := Nat.ofDigits 256 (bytes.map UInt8.toNat)

theorem number_cons (value : UInt8) (bytes : List UInt8) :
    number (value :: bytes) = value.toNat + 256 * number bytes :=
  Nat.ofDigits_cons ..

theorem number_lt (bytes : List UInt8) : number bytes < 256 ^ bytes.length := by
  have hdigits : ∀ d ∈ bytes.map UInt8.toNat, d < 256 := by
    simpa using fun (value : UInt8) (_ : value ∈ bytes) => value.toNat_lt
  simpa [number] using Nat.ofDigits_lt_base_pow_length (by decide) hdigits

/-- The number whose bytes are at these addresses, the low one first. -/
def numberAt (b : β) (addresses : List UInt16) : Nat := number (addresses.map (byteAt b))

theorem numberAt_cons (b : β) (a : UInt16) (addresses : List UInt16) :
    numberAt b (a :: addresses) = (byteAt b a).toNat + 256 * numberAt b addresses :=
  number_cons ..

theorem numberAt_lt (b : β) (addresses : List UInt16) :
    numberAt b addresses < 256 ^ addresses.length := by
  simpa [numberAt] using number_lt (addresses.map (byteAt b))

theorem numberAt_congr {b d : β} {addresses : List UInt16}
    (h : ∀ a ∈ addresses, byteAt d a = byteAt b a) : numberAt d addresses = numberAt b addresses :=
  congrArg number (List.map_congr_left h)

theorem numberAt_write {cells addresses : List UInt16} {seen : UInt16 → Bool} {b : β}
    (h : RamAmong cells seen b) {a : UInt16} (ha : a ∈ cells) (hseen : ∀ x ∈ addresses, seen x)
    (hother : a ∉ addresses) (value : UInt8) :
    numberAt (AddressSpace.write a value b).2 addresses = numberAt b addresses :=
  numberAt_congr fun x hx =>
    h.byteAt_write_of_ne ha value (hseen x hx) fun heq => hother (heq ▸ hx)

/-! ## Commands -/

namespace Operand

/-- The byte that the operand holds. -/
def value (r : Registers) (b : β) : Operand → UInt8
  | .implied => 0
  | .accumulator => r.a
  | .address a => byteAt b a

/-- Registers and memory once the operand holds a byte. -/
def put (value : UInt8) (r : Registers) (b : β) : Operand → Registers × β
  | .implied => (r, b)
  | .accumulator => ({ r with a := value }, b)
  | .address a => (r, (AddressSpace.write a value b).2)

/-- The address of the operand, if it has one. -/
def addresses : Operand → List UInt16
  | .implied | .accumulator => []
  | .address a => [a]

section Ram

variable {cells : List UInt16} {seen : UInt16 → Bool} {s : System β}
  (h : RamAmong cells seen s.bus) {operand : Operand}

include h

theorem load_eq (hseen : ∀ a ∈ operand.addresses, seen a) :
    operand.load s = .ok (operand.value s.cpu.toRegisters s.bus) s := by
  cases operand with
  | implied | accumulator => rfl
  | address a => exact CpuM.readByte_eq_ok.2 ⟨h.read (hseen a List.mem_cons_self), rfl⟩

theorem store_eq (hcells : ∀ a ∈ operand.addresses, a ∈ cells) (value : UInt8) :
    operand.store value s =
      .ok () ⟨{ s.cpu with toRegisters := (operand.put value s.cpu.toRegisters s.bus).1 },
        (operand.put value s.cpu.toRegisters s.bus).2⟩ := by
  cases operand with
  | implied | accumulator => rfl
  | address a =>
    have hwrite := h.write (hcells a List.mem_cons_self) value
    exact CpuM.writeByte_eq_ok.2 ⟨Prod.ext hwrite rfl, rfl⟩

end Ram

end Operand

/-- What does not decide where operands are and which requests are let through may change. -/
structure Registers.Steers (r q : Registers) : Prop where
  x : q.x = r.x
  y : q.y = r.y
  masked : q.status.interruptDisable = r.status.interruptDisable

theorem Registers.Steers.served {c d : Cpu} (h : c.toRegisters.Steers d.toRegisters)
    (hpending : d.pending = c.pending) : d.served = c.served := by
  simp only [Cpu.served, hpending, h.masked]

namespace Action

/-- The action works on its operand and then goes on behind its instruction. It leaves the index
registers and the interrupt flag as they are. -/
def Straight : Action → Prop
  | .load use => ∀ (r : Registers) (value : UInt8), r.Steers (use r value)
  | .store _ => True
  | .modify change use =>
    (∀ value s, (change value s).2.interruptDisable = s.interruptDisable) ∧
      ∀ (r : Registers) (value : UInt8), r.Steers (use r value)
  | _ => False

/-- What the action does to the registers and the memory. -/
def effect (operand : Operand) (r : Registers) (b : β) : Action → Registers × β
  | .load use => (use r (operand.value r b), b)
  | .store value => operand.put (value r) r b
  | .modify change use =>
    let (value, status) := change (operand.value r b) r.status
    let (r, b) := operand.put value { r with status } b
    (use r value, b)
  | _ => (r, b)

/-- The addresses that the action writes to. -/
def written (operand : Operand) : Action → List UInt16
  | .store _ | .modify _ _ => operand.addresses
  | _ => []

theorem run_eq_effect {action : Action} (hstraight : action.Straight) {cells : List UInt16}
    {seen : UInt16 → Bool} {s : System β} (h : RamAmong cells seen s.bus) {operand : Operand}
    (hseen : ∀ a ∈ operand.addresses, seen a) (hcells : ∀ a ∈ action.written operand, a ∈ cells) :
    action.run operand s =
      .ok 0 ⟨{ s.cpu with toRegisters := (action.effect operand s.cpu.toRegisters s.bus).1 },
        (action.effect operand s.cpu.toRegisters s.bus).2⟩ := by
  have hload := operand.load_eq h hseen
  cases action with
  | load use =>
    rw [run, CpuM.bind_of_ok hload]
    rfl
  | store value =>
    rw [run, CpuM.cpu_bind, CpuM.bind_of_ok (operand.store_eq h hcells _)]
    rfl
  | modify change use =>
    have hstore (c : Cpu) (value : UInt8) := operand.store_eq (s := ⟨c, s.bus⟩) h hcells value
    simp only [run, CpuM.compute, CpuM.bind_of_ok hload, CpuM.cpu_bind, CpuM.update_bind,
      CpuM.bind_of_ok (hstore _ _)]
    rfl
  | _ => exact hstraight.elim

theorem steers_effect {action : Action} (h : action.Straight) (operand : Operand) (r : Registers)
    (b : β) : r.Steers (action.effect operand r b).1 := by
  cases action with
  | load use => exact h r _
  | store value => cases operand <;> exact ⟨rfl, rfl, rfl⟩
  | modify change use =>
    obtain ⟨hchange, huse⟩ := h
    let status := (change (operand.value r b) r.status).2
    let value := (change (operand.value r b) r.status).1
    have hput : r.Steers (operand.put value { r with status } b).1 := by
      cases operand <;> exact ⟨rfl, rfl, hchange _ _⟩
    have hused := huse (operand.put value { r with status } b).1 value
    exact ⟨hused.x.trans hput.x, hused.y.trans hput.y, hused.masked.trans hput.masked⟩
  | _ => exact h.elim

/-- RAM stays RAM, and what is not written to is as before. -/
theorem ramAmong_effect {cells : List UInt16} {seen : UInt16 → Bool} {b : β}
    (h : RamAmong cells seen b) {action : Action} {operand : Operand}
    (hcells : ∀ a ∈ action.written operand, a ∈ cells) (r : Registers) :
    RamAmong cells seen (action.effect operand r b).2 ∧
      ∀ x, seen x → x ∉ action.written operand →
        byteAt (action.effect operand r b).2 x = byteAt b x := by
  have hput (value : UInt8) (q : Registers) (hcells : ∀ a ∈ operand.addresses, a ∈ cells) :
      RamAmong cells seen (operand.put value q b).2 ∧
        ∀ x, seen x → x ∉ operand.addresses → byteAt (operand.put value q b).2 x = byteAt b x := by
    cases operand with
    | implied | accumulator => exact ⟨h, fun _ _ _ => rfl⟩
    | address a =>
      have ha := hcells a List.mem_cons_self
      refine ⟨h.after_write ha value, fun x hx hother => ?_⟩
      exact h.byteAt_write_of_ne ha value hx (mt List.mem_singleton.2 hother)
  cases action with
  | store | modify => exact hput _ _ hcells
  | _ => exact ⟨h, fun _ _ _ => rfl⟩

end Action

/-- What one instruction does : a mnemonic and where its operand is. -/
abbrev Command := Mnemonic × Operand

namespace Command

/-- What the commands do to the registers and the memory, one after the other. -/
def effects : List Command → Registers → β → Registers × β
  | [], r, b => (r, b)
  | (m, operand) :: ops, r, b =>
    let (r, b) := m.action.effect operand r b
    effects ops r b

theorem effects_append (ops more : List Command) (r : Registers) (b : β) :
    effects (ops ++ more) r b = effects more (effects ops r b).1 (effects ops r b).2 := by
  induction ops generalizing r b with
  | nil => rfl
  | cons op ops ih => exact ih _ _

/-- The addresses that the commands write to. -/
def written (ops : List Command) : List UInt16 :=
  ops.flatMap fun (m, operand) => m.action.written operand

/-- RAM stays RAM, and what is not written to is as before. -/
theorem ramAmong_effects {cells : List UInt16} {seen : UInt16 → Bool} {b : β}
    (h : RamAmong cells seen b) {ops : List Command} (hcells : ∀ a ∈ written ops, a ∈ cells)
    (r : Registers) : RamAmong cells seen (effects ops r b).2 ∧
      ∀ x, seen x → x ∉ written ops → byteAt (effects ops r b).2 x = byteAt b x := by
  induction ops generalizing r b with
  | nil => exact ⟨h, fun _ _ _ => rfl⟩
  | cons op ops ih =>
    obtain ⟨hram, hfirst⟩ :=
      Action.ramAmong_effect h (fun a ha => hcells a (List.mem_append_left _ ha)) r
    obtain ⟨hafter, hrest⟩ := ih hram (fun a ha => hcells a (List.mem_append_right _ ha)) _
    refine ⟨hafter, fun x hx hother => ?_⟩
    obtain ⟨hhead, htail⟩ := not_or.1 (mt List.mem_append.2 hother)
    exact (hrest x hx htail).trans (hfirst x hx hhead)

end Command

/-! ## Instructions in memory -/

namespace AddressingMode

variable {r q : Registers}

theorem pointer_congr (hx : q.x = r.x) (mode : AddressingMode) (bytes : List UInt8) :
    mode.pointer q bytes = mode.pointer r bytes := by
  cases mode <;> simp only [pointer, hx]

theorem locate_congr (hx : q.x = r.x) (hy : q.y = r.y) (mode : AddressingMode) (a : UInt16)
    (bytes pointer : List UInt8) :
    mode.locate q a bytes pointer = mode.locate r a bytes pointer := by
  cases mode <;> simp only [locate, hx, hy]

theorem crosses_congr (hx : q.x = r.x) (hy : q.y = r.y) (mode : AddressingMode)
    (bytes pointer : List UInt8) : mode.crosses q bytes pointer = mode.crosses r bytes pointer := by
  cases mode <;> simp only [crosses, hx, hy]

end AddressingMode

namespace Instruction

/-- The bytes behind the opcode at `pc` that are fetched. -/
def bytesAt (i : Instruction) (b : β) (pc : UInt16) : List UInt8 :=
  (addressesFrom (pc + 1) i.mode.fetched).map (byteAt b)

/-- Where the pointer of the instruction at `pc` is. -/
def pointerAt (i : Instruction) (r : Registers) (b : β) (pc : UInt16) : List UInt16 :=
  i.mode.pointer r (i.bytesAt b pc)

/-- Where the operand of the instruction at `pc` is. -/
def operandAt (i : Instruction) (r : Registers) (b : β) (pc : UInt16) : Operand :=
  i.mode.locate r (pc + 1) (i.bytesAt b pc) ((i.pointerAt r b pc).map (byteAt b))

/-- What the instruction at `pc` costs, if it is no branch. -/
def costAt (i : Instruction) (r : Registers) (b : β) (pc : UInt16) : Nat :=
  i.cycles + i.pageCycles r (i.bytesAt b pc) ((i.pointerAt r b pc).map (byteAt b))

/-- The addresses that the instruction at `pc` is fetched from. -/
def sourcesAt (i : Instruction) (r : Registers) (b : β) (pc : UInt16) : List UInt16 :=
  addressesFrom pc (i.mode.fetched + 1) ++ i.pointerAt r b pc

section Congr

variable {i : Instruction} {r q : Registers} {b d : β} {pc : UInt16}

theorem bytesAt_congr (hsources : ∀ a ∈ i.sourcesAt r b pc, byteAt d a = byteAt b a) :
    i.bytesAt d pc = i.bytesAt b pc :=
  List.map_congr_left fun a ha => hsources a (List.mem_append_left _ (List.mem_cons_of_mem pc ha))

theorem pointerAt_congr (hx : q.x = r.x)
    (hsources : ∀ a ∈ i.sourcesAt r b pc, byteAt d a = byteAt b a) :
    i.pointerAt q d pc = i.pointerAt r b pc := by
  rw [pointerAt, bytesAt_congr hsources, i.mode.pointer_congr hx, pointerAt]

theorem sourcesAt_congr (hx : q.x = r.x)
    (hsources : ∀ a ∈ i.sourcesAt r b pc, byteAt d a = byteAt b a) :
    i.sourcesAt q d pc = i.sourcesAt r b pc := by
  rw [sourcesAt, pointerAt_congr hx hsources, sourcesAt]

/-- The bytes of the pointer are the same. -/
theorem targetAt_congr (hx : q.x = r.x)
    (hsources : ∀ a ∈ i.sourcesAt r b pc, byteAt d a = byteAt b a) :
    (i.pointerAt q d pc).map (byteAt d) = (i.pointerAt r b pc).map (byteAt b) := by
  rw [pointerAt_congr hx hsources]
  exact List.map_congr_left fun a ha => hsources a (List.mem_append_right _ ha)

theorem operandAt_congr (hx : q.x = r.x) (hy : q.y = r.y)
    (hsources : ∀ a ∈ i.sourcesAt r b pc, byteAt d a = byteAt b a) :
    i.operandAt q d pc = i.operandAt r b pc := by
  rw [operandAt, bytesAt_congr hsources, targetAt_congr hx hsources, i.mode.locate_congr hx hy,
    operandAt]

theorem costAt_congr (hx : q.x = r.x) (hy : q.y = r.y)
    (hsources : ∀ a ∈ i.sourcesAt r b pc, byteAt d a = byteAt b a) :
    i.costAt q d pc = i.costAt r b pc := by
  rw [costAt, pageCycles, bytesAt_congr hsources, targetAt_congr hx hsources,
    i.mode.crosses_congr hx hy, costAt, pageCycles]

end Congr

end Instruction

/-- From `pc` on the instructions for the commands stand in memory one behind the other. Their
costs add up to `cost`. What they are fetched from and what they work on is seen, and they are
fetched from other addresses than those of `writable`. -/
inductive Code (writable : List UInt16) (seen : UInt16 → Bool) (r : Registers) (b : β) :
    UInt16 → List Command → Nat → Prop where
  | nil (pc : UInt16) : Code writable seen r b pc [] 0
  | cons {pc : UInt16} {i : Instruction} {op : Command} {ops : List Command} {cost total : Nat}
      (hdecode : Instruction.decode? (byteAt b pc) = some i)
      (hop : op = (i.mnemonic, i.operandAt r b pc))
      (hsources : ∀ a ∈ i.sourcesAt r b pc, seen a ∧ a ∉ writable)
      (hoperand : ∀ a ∈ op.2.addresses, seen a)
      (tail : Code writable seen r b (pc + .ofNat i.size) ops cost)
      (htotal : total = i.costAt r b pc + cost) : Code writable seen r b pc (op :: ops) total

namespace Code

variable {writable : List UInt16} {seen : UInt16 → Bool} {r q : Registers} {b d : β}
  {pc : UInt16} {ops : List Command} {cost : Nat}

/-- The code stays where it is if only writable bytes change. -/
theorem congr (h : Code writable seen r b pc ops cost) (hx : q.x = r.x) (hy : q.y = r.y)
    (hbytes : ∀ a, seen a → a ∉ writable → byteAt d a = byteAt b a) :
    Code writable seen q d pc ops cost := by
  induction h with
  | nil pc => exact .nil pc
  | @cons pc i op ops cost total hdecode hop hsources hoperand _ htotal ih =>
    have hsame : ∀ a ∈ i.sourcesAt r b pc, byteAt d a = byteAt b a := by
      intro a ha
      obtain ⟨hseen, hapart⟩ := hsources a ha
      exact hbytes a hseen hapart
    have hopcode : byteAt d pc = byteAt b pc :=
      hsame pc (List.mem_append_left _ List.mem_cons_self)
    refine .cons (hopcode.symm ▸ hdecode) ?_ ?_ hoperand ih ?_
    · rw [hop, Instruction.operandAt_congr hx hy hsame]
    · rw [Instruction.sourcesAt_congr hx hsame]
      exact hsources
    · rw [htotal, Instruction.costAt_congr hx hy hsame]

/-- The operands are seen. -/
theorem seen_of_mem (h : Code writable seen r b pc ops cost) :
    ∀ op ∈ ops, ∀ a ∈ op.2.addresses, seen a := by
  induction h with
  | nil => exact List.forall_mem_nil _
  | cons _ _ _ hoperand _ _ ih => exact List.forall_mem_cons.2 ⟨hoperand, ih⟩

end Code

/-- The cost of the code for the commands, if it stands there. -/
def codeCost? (writable : List UInt16) (seen : UInt16 → Bool) (r : Registers) (b : β) :
    UInt16 → List Command → Option Nat
  | _, [] => some 0
  | pc, op :: ops =>
    match Instruction.decode? (byteAt b pc) with
    | some i =>
      if op = (i.mnemonic, i.operandAt r b pc) ∧
          ((i.sourcesAt r b pc).all fun a => seen a ∧ a ∉ writable) ∧ op.2.addresses.all seen then
        (codeCost? writable seen r b (pc + .ofNat i.size) ops).map (i.costAt r b pc + ·)
      else none
    | none => none

theorem code_of_codeCost? {writable : List UInt16} {seen : UInt16 → Bool} {r : Registers} {b : β}
    {pc : UInt16} {ops : List Command} {cost : Nat}
    (h : codeCost? writable seen r b pc ops = some cost) : Code writable seen r b pc ops cost := by
  induction ops generalizing pc cost with
  | nil =>
    cases h
    exact .nil pc
  | cons op ops ih =>
    cases hdecode : Instruction.decode? (byteAt b pc) with
    | none => simp [codeCost?, hdecode] at h
    | some i =>
      simp only [codeCost?, hdecode] at h
      split at h
      · obtain ⟨hop, hsources, hoperand⟩ := ‹_ ∧ _›
        obtain ⟨rest, hrest, rfl⟩ := Option.map_eq_some_iff.1 h
        exact .cons hdecode hop (by simpa using hsources) (List.all_eq_true.1 hoperand) (ih hrest)
          rfl
      · cases h

namespace CpuM

/-- Make steps one after the other. The answer is what they cost together. -/
def steps : Nat → CpuM β Nat
  | 0 => return 0
  | count + 1 => do
    let n ← step
    return n + (← steps count)

theorem steps_one : (steps 1 : CpuM β Nat) = step := bind_pure step

section Ram

variable {cells : List UInt16} {seen : UInt16 → Bool} {s : System β}
  (h : RamAmong cells seen s.bus) {i : Instruction}
  (hdecode : Instruction.decode? (byteAt s.bus s.cpu.pc) = some i)
  (hsources : ∀ a ∈ i.sourcesAt s.cpu.toRegisters s.bus s.cpu.pc, seen a)

include h hdecode hsources

theorem fetched_of_ramAmong : Fetched s i (i.bytesAt s.bus s.cpu.pc)
    ((i.pointerAt s.cpu.toRegisters s.bus s.cpu.pc).map (byteAt s.bus)) s.bus := by
  have hopcode := Instruction.opcode_of_decode? hdecode
  refine ⟨hopcode ▸ hdecode, s.bus, ?_, h.reads fun a ha => hsources a (List.mem_append_right _ ha)⟩
  rw [hopcode]
  exact h.reads fun a ha => hsources a (List.mem_append_left _ ha)

/-- A step at a straight instruction. -/
theorem step_straight (hserved : s.cpu.served = none) (hstraight : i.mnemonic.action.Straight)
    (hoperand : ∀ a ∈ (i.operandAt s.cpu.toRegisters s.bus s.cpu.pc).addresses, seen a)
    (hcells : ∀ a ∈ i.mnemonic.action.written (i.operandAt s.cpu.toRegisters s.bus s.cpu.pc),
      a ∈ cells) :
    let after := i.mnemonic.action.effect (i.operandAt s.cpu.toRegisters s.bus s.cpu.pc)
      s.cpu.toRegisters s.bus
    ∃ t, step s = .ok (i.costAt s.cpu.toRegisters s.bus s.cpu.pc) t ∧
      t.cpu.pc = s.cpu.pc + .ofNat i.size ∧ t.cpu.pending = s.cpu.pending ∧
      t.cpu.toRegisters = after.1 ∧ t.bus = after.2 := by
  have hfetched := fetched_of_ramAmong h hdecode hsources
  have hrun := Action.run_eq_effect (s := ⟨s.cpu.behind i, s.bus⟩) hstraight h hoperand hcells
  obtain ⟨n, t, hstep⟩ := step_of_fetched hserved hfetched hrun
  obtain ⟨j, bytes, pointer, d, extra, u, hfetched', hrun', rfl, rfl⟩ := step_executed hserved hstep
  obtain ⟨rfl, rfl, rfl, rfl⟩ := hfetched.unique hfetched'
  obtain ⟨rfl, rfl⟩ := EStateM.Result.ok.inj (hrun.symm.trans hrun')
  exact ⟨_, hstep, rfl, rfl, rfl, rfl⟩

end Ram

end CpuM

/-- A processor at straight code does the commands in order, and that costs what the instructions
cost. -/
theorem Code.run {writable : List UInt16} {seen : UInt16 → Bool} {ops : List Command} {cost : Nat}
    {s : System β} (hserved : s.cpu.served = none) (hram : RamAmong writable seen s.bus)
    (hcode : Code writable seen s.cpu.toRegisters s.bus s.cpu.pc ops cost)
    (hstraight : ∀ op ∈ ops, op.1.action.Straight)
    (hwritable : ∀ a ∈ Command.written ops, a ∈ writable) :
    ∃ t, CpuM.steps ops.length s = .ok cost t ∧
      t.cpu.toRegisters = (Command.effects ops s.cpu.toRegisters s.bus).1 ∧
      t.bus = (Command.effects ops s.cpu.toRegisters s.bus).2 := by
  induction ops generalizing s cost with
  | nil =>
    cases hcode
    exact ⟨s, rfl, rfl, rfl⟩
  | cons op ops ih =>
    cases hcode with
    | @cons _ i _ _ cost _ hdecode hop hsources hoperand tail htotal =>
      subst hop htotal
      have hfirst := hstraight _ List.mem_cons_self
      have hcells := fun a ha => hwritable a (List.mem_append_left _ ha)
      obtain ⟨u, hstep, hpc, hpending, hregs, hbus⟩ := CpuM.step_straight hram hdecode
        (fun a ha => (hsources a ha).1) hserved hfirst hoperand hcells
      obtain ⟨hafter, hkept⟩ := Action.ramAmong_effect hram hcells s.cpu.toRegisters
      rw [← hbus] at hafter hkept
      have hsteers : s.cpu.toRegisters.Steers u.cpu.toRegisters := by
        rw [hregs]
        exact Action.steers_effect hfirst _ _ _
      -- the first command writes to nothing that the others are fetched from
      have hcode : Code writable seen u.cpu.toRegisters u.bus u.cpu.pc ops cost := by
        rw [hpc]
        exact tail.congr hsteers.x hsteers.y fun a hseen ha =>
          hkept a hseen fun hmem => ha (hcells a hmem)
      obtain ⟨t, hsteps, hlast, hmemory⟩ := ih ((hsteers.served hpending).trans hserved) hafter
        hcode (fun op hop => hstraight op (List.mem_cons_of_mem _ hop))
        fun a ha => hwritable a (List.mem_append_right _ ha)
      rw [hregs, hbus] at hlast hmemory
      refine ⟨t, ?_, hlast, hmemory⟩
      exact CpuM.bind_eq_ok.2 ⟨_, u, hstep, CpuM.bind_eq_ok.2 ⟨_, t, hsteps, rfl⟩⟩

/-- Code for the commands is at the program counter, what they write to is RAM among what the code
looks at, and no request is let through. -/
structure Ready (s : System β) (ops : List Command) : Prop where
  served : s.cpu.served = none
  code : ∃ seen cost, RamAmong (Command.written ops) seen s.bus ∧
    Code (Command.written ops) seen s.cpu.toRegisters s.bus s.cpu.pc ops cost

namespace Ready

variable {s : System β} {ops : List Command}

theorem ram (h : Ready s ops) : ∃ seen, RamAmong (Command.written ops) seen s.bus := by
  obtain ⟨-, seen, -, hram, -⟩ := h
  exact ⟨seen, hram⟩

theorem run (h : Ready s ops) (hstraight : ∀ op ∈ ops, op.1.action.Straight) :
    ∃ cost t, CpuM.steps ops.length s = .ok cost t ∧
      t.cpu.toRegisters = (Command.effects ops s.cpu.toRegisters s.bus).1 ∧
      t.bus = (Command.effects ops s.cpu.toRegisters s.bus).2 := by
  obtain ⟨hserved, seen, cost, hram, hcode⟩ := h
  exact ⟨cost, hcode.run hserved hram hstraight fun _ ha => ha⟩

/-- The code can be looked for. -/
theorem of_codeCost? {seen : UInt16 → Bool} (hserved : s.cpu.served = none)
    (hram : RamAmong (Command.written ops) seen s.bus)
    (hcost : (codeCost? (Command.written ops) seen s.cpu.toRegisters s.bus s.cpu.pc ops).isSome) :
    Ready s ops :=
  ⟨hserved, seen, _, hram, code_of_codeCost? (Option.some_get hcost).symm⟩

end Ready

end Famicom
