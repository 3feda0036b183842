import Famicom.Proofs.Cpu.Outcome
import Famicom.Proofs.Word

/-!
# What stands at the program counter

Before an action starts the processor has only read : the bytes of the instruction, in
ascending order, and the two bytes of a pointer if the mode goes through one (`Reads`). Which
addresses the pointer has is a function of the operand bytes and the index registers
(`AddressingMode.pointer`), and where the operand is a function of these and the bytes of
the pointer (`AddressingMode.locate`), as is whether an index left the page of its base
(`AddressingMode.crosses`). The operand byte of an immediate instruction is the operand
itself, so it is left to the action (`AddressingMode.fetched`).

`Fetched s i bytes pointer d` : the step that starts at `s` reads the instruction `i` with these
operand bytes and this pointer, which leads to the bus `d`. `step_executed` takes a successful
step apart into what is fetched and the action on the operand it names, and its cost into the base
cost, the price of a crossed page and what the action adds; `step_fetched` leaves out the cost.
-/

namespace Famicom

variable {β : Type} [AddressSpace β]

/-! ## Reads in a row -/

/-- Reading the addresses one after the other answers the bytes and leads from one bus to
the other. -/
inductive Reads : List UInt16 → List UInt8 → β → β → Prop where
  | nil (b : β) : Reads [] [] b b
  | cons {a : UInt16} {value : UInt8} {addresses : List UInt16} {bytes : List UInt8} {b c d : β}
      (head : AddressSpace.read a b = (.ok value, c)) (tail : Reads addresses bytes c d) :
      Reads (a :: addresses) (value :: bytes) b d

namespace Reads

variable {addresses more : List UInt16} {bytes values : List UInt8} {b c d : β}

theorem append (h : Reads addresses bytes b c) (h' : Reads more values c d) :
    Reads (addresses ++ more) (bytes ++ values) b d := by
  induction h with
  | nil => exact h'
  | cons head _ ih => exact .cons head (ih h')

/-- Where no read changes the bus, each address is read as if it were alone. -/
theorem of_forall {f : UInt16 → UInt8}
    (h : ∀ a ∈ addresses, AddressSpace.read a b = (.ok (f a), b)) :
    Reads addresses (addresses.map f) b b := by
  induction addresses with
  | nil => exact .nil b
  | cons a addresses ih =>
    exact .cons (h a List.mem_cons_self) (ih fun a' ha' => h a' (List.mem_cons_of_mem a ha'))

/-- What every read keeps is as before. -/
theorem keeps {P : β → Prop} (hread : ∀ a b, P b → P (AddressSpace.read a b).2)
    (h : Reads addresses bytes b c) (hb : P b) : P c := by
  induction h with
  | nil => exact hb
  | @cons a _ _ _ b _ _ head _ ih =>
    have hfirst := hread a b hb
    rw [head] at hfirst
    exact ih hfirst

theorem length_eq (h : Reads addresses bytes b c) : bytes.length = addresses.length := by
  induction h with
  | nil => rfl
  | cons _ _ ih => exact congrArg (· + 1) ih

theorem exists_head {a : UInt16} (h : Reads (a :: addresses) bytes b d) :
    ∃ value values c, bytes = value :: values ∧ AddressSpace.read a b = (.ok value, c) ∧
      Reads addresses values c d := by
  cases h with
  | cons head tail => exact ⟨_, _, _, rfl, head, tail⟩

/-- The bus determines what is read and where that leads. -/
theorem unique (h : Reads addresses bytes b c) (h' : Reads addresses values b d) :
    bytes = values ∧ c = d := by
  induction h generalizing values with
  | nil =>
    cases h'
    exact ⟨rfl, rfl⟩
  | cons head _ ih =>
    cases h' with
    | cons head' tail' =>
      rw [head] at head'
      cases head'
      obtain ⟨rfl, rfl⟩ := ih tail'
      exact ⟨rfl, rfl⟩

end Reads

/-- `count` addresses from `a` on. The last address is followed by the first. -/
def addressesFrom (a : UInt16) : Nat → List UInt16
  | 0 => []
  | count + 1 => a :: addressesFrom (a + 1) count

@[simp] theorem length_addressesFrom (a : UInt16) (count : Nat) :
    (addressesFrom a count).length = count := by
  induction count generalizing a with
  | zero => rfl
  | succ count ih => simp [addressesFrom, ih]

theorem add_one_add_ofNat (a : UInt16) (k : Nat) : a + 1 + .ofNat k = a + .ofNat (k + 1) := by
  rw [UInt16.ofNat_add, UInt16.add_comm (.ofNat k), ← UInt16.add_assoc]
  rfl

theorem addressesFrom_eq_map (a : UInt16) (count : Nat) :
    addressesFrom a count = (List.range count).map fun i => a + .ofNat i := by
  induction count generalizing a with
  | zero => rfl
  | succ count ih =>
    have hzero : a + .ofNat 0 = a := UInt16.add_zero a
    rw [addressesFrom, ih, List.range_succ_eq_map, List.map_cons, List.map_map, hzero]
    exact congrArg (List.cons a) (List.map_congr_left fun i _ => add_one_add_ofNat a i)

/-! ## Addressing modes as functions -/

namespace AddressingMode

/-- The number of operand bytes that are read before the action. -/
def fetched : AddressingMode → Nat
  | .immediate => 0
  | mode => mode.operandSize

/-- Where the mode finds the two bytes of a pointer, the low one first. -/
def pointer (mode : AddressingMode) (r : Registers) (bytes : List UInt8) : List UInt16 :=
  let lo := bytes.getD 0 0
  let address := word lo (bytes.getD 1 0)
  match mode with
  | .indirect => [address, nextInPage address]
  | .indirectX => [(lo + r.x).toUInt16, (lo + r.x + 1).toUInt16]
  | .indirectY => [lo.toUInt16, (lo + 1).toUInt16]
  | _ => []

/-- Where the operand is, for operand bytes that stand at `a`. -/
def locate (mode : AddressingMode) (r : Registers) (a : UInt16) (bytes pointer : List UInt8) :
    Operand :=
  let lo := bytes.getD 0 0
  let address := word lo (bytes.getD 1 0)
  let target := word (pointer.getD 0 0) (pointer.getD 1 0)
  match mode with
  | .implied => .implied
  | .accumulator => .accumulator
  | .immediate => .address a
  | .zeroPage => .address lo.toUInt16
  | .zeroPageX => .address (lo + r.x).toUInt16
  | .zeroPageY => .address (lo + r.y).toUInt16
  | .absolute => .address address
  | .absoluteX => .address (address + r.x.toUInt16)
  | .absoluteY => .address (address + r.y.toUInt16)
  | .indirect | .indirectX => .address target
  | .indirectY => .address (target + r.y.toUInt16)
  | .relative => .address (a + 1 + signExtend lo)

/-- The index carries out of the low byte of its base. Two modes have the base behind the opcode,
the third one finds it at the pointer. -/
def crosses (mode : AddressingMode) (r : Registers) (bytes pointer : List UInt8) : Bool :=
  match mode with
  | .absoluteX => 0xFF < (bytes.getD 0 0).toNat + r.x.toNat
  | .absoluteY => 0xFF < (bytes.getD 0 0).toNat + r.y.toNat
  | .indirectY => 0xFF < (pointer.getD 0 0).toNat + r.y.toNat
  | _ => false

end AddressingMode

theorem Resolved.crossed_indexed (lo hi index : UInt8) :
    (indexed (word lo hi) index).crossed = decide (0xFF < lo.toNat + index.toNat) := by
  have hpage := samePage_word_add_iff lo hi index
  simp only [indexed]
  rw [Bool.eq_iff_iff, Bool.not_eq_true', Bool.eq_false_iff, Ne, hpage, decide_eq_true_eq]
  omega

/-- The operand of the instruction at the program counter. -/
def Instruction.operand (i : Instruction) (c : Cpu) (bytes pointer : List UInt8) : Operand :=
  i.mode.locate c.toRegisters (c.pc + 1) bytes pointer

/-- The operand bytes are fetched, unless the operand byte is the operand. -/
theorem Instruction.fetched_eq {i : Instruction} (h : i.mode ≠ .immediate) :
    i.mode.fetched = i.mode.operandSize := by
  cases hmode : i.mode <;> first | rfl | exact absurd hmode h

/-- Only two modes have no address in memory. -/
theorem Instruction.exists_operand_eq_address {i : Instruction}
    (h : ¬ (i.mode = .implied ∨ i.mode = .accumulator)) (c : Cpu) (bytes pointer : List UInt8) :
    ∃ a, i.operand c bytes pointer = .address a := by
  unfold operand
  cases hmode : i.mode <;> simp_all [AddressingMode.locate]

/-- A branch counts from behind the instruction. -/
theorem Instruction.operand_of_relative {i : Instruction} (h : i.mode = .relative) (c : Cpu)
    (bytes pointer : List UInt8) : i.operand c bytes pointer =
      .address (c.pc + .ofNat i.size + signExtend (bytes.getD 0 0)) := by
  have hnext : c.pc + 1 + 1 = c.pc + .ofNat i.size := by
    rw [UInt16.add_assoc, size, h]
    rfl
  rw [operand, h, AddressingMode.locate, hnext]

/-- The processor when the action of the instruction starts. -/
def Cpu.behind (c : Cpu) (i : Instruction) : Cpu :=
  { c with pc := c.pc + .ofNat i.size, origin := c.pc }

theorem Cpu.behind_eq (c : Cpu) (i : Instruction) :
    { c with pc := c.pc + 1 + .ofNat i.mode.operandSize, origin := c.pc } = c.behind i := by
  simp only [behind, Instruction.size, UInt16.ofNat_add, ← UInt16.add_assoc]
  rfl

namespace CpuM

/-! ## Locating an operand -/

theorem fetchByte_spec {value : UInt8} {s t : System β} (h : fetchByte s = .ok value t) :
    Reads [s.cpu.pc] [value] s.bus t.bus ∧ t.cpu = { s.cpu with pc := s.cpu.pc + 1 } := by
  simp only [fetchByte, cpu_bind, bind_eq_ok, readByte_eq_ok, update_eq_ok, pure_eq_ok] at h
  obtain ⟨_, u, ⟨hread, hcpu⟩, _, _, rfl, rfl, rfl⟩ := h
  exact ⟨.cons hread (.nil _), by simp [hcpu]⟩

theorem fetchWord_spec {w : UInt16} {s t : System β} (h : fetchWord s = .ok w t) :
    ∃ lo hi, w = word lo hi ∧ Reads (addressesFrom s.cpu.pc 2) [lo, hi] s.bus t.bus ∧
      t.cpu = { s.cpu with pc := s.cpu.pc + 2 } := by
  simp only [fetchWord, bind_eq_ok, pure_eq_ok] at h
  obtain ⟨lo, u, hlo, hi, v, hhi, rfl, rfl⟩ := h
  obtain ⟨hlo, hu⟩ := fetchByte_spec hlo
  obtain ⟨hhi, hv⟩ := fetchByte_spec hhi
  rw [hu] at hhi hv
  refine ⟨lo, hi, rfl, hlo.append hhi, ?_⟩
  rw [hv, UInt16.add_assoc]
  rfl

theorem readWord_spec {l h w : UInt16} {s t : System β} (hw : readWord l h s = .ok w t) :
    ∃ lo hi, w = word lo hi ∧ Reads [l, h] [lo, hi] s.bus t.bus ∧ t.cpu = s.cpu := by
  simp only [readWord, bind_eq_ok, readByte_eq_ok, pure_eq_ok] at hw
  obtain ⟨lo, u, ⟨hlo, hu⟩, hi, v, ⟨hhi, hv⟩, rfl, rfl⟩ := hw
  exact ⟨lo, hi, rfl, .cons hlo (.cons hhi (.nil _)), hv.trans hu⟩

/-- An operand is located by reading its bytes and then its pointer. -/
theorem resolve_spec {mode : AddressingMode} {r : Resolved} {s t : System β}
    (h : mode.resolve s = .ok r t) :
    ∃ bytes pointer b, Reads (addressesFrom s.cpu.pc mode.fetched) bytes s.bus b ∧
      Reads (mode.pointer s.cpu.toRegisters bytes) pointer b t.bus ∧
      r.operand = mode.locate s.cpu.toRegisters s.cpu.pc bytes pointer ∧
      r.crossed = mode.crosses s.cpu.toRegisters bytes pointer ∧
      t.cpu = { s.cpu with pc := s.cpu.pc + .ofNat mode.operandSize } := by
  cases mode with
  | implied | accumulator =>
    obtain ⟨rfl, rfl⟩ := pure_eq_ok.1 h
    exact ⟨[], [], _, .nil _, .nil _, rfl, rfl, by simp [AddressingMode.operandSize]⟩
  | immediate =>
    simp only [AddressingMode.resolve, jump, cpu_bind, update_bind, pure_eq_ok] at h
    obtain ⟨rfl, rfl⟩ := h
    exact ⟨[], [], _, .nil _, .nil _, rfl, rfl, rfl⟩
  | zeroPage =>
    simp only [AddressingMode.resolve, bind_eq_ok, pure_eq_ok] at h
    obtain ⟨lo, u, hlo, rfl, rfl⟩ := h
    obtain ⟨hreads, hcpu⟩ := fetchByte_spec hlo
    exact ⟨[lo], [], _, hreads, .nil _, rfl, rfl, hcpu⟩
  | zeroPageX | zeroPageY =>
    simp only [AddressingMode.resolve, bind_eq_ok, cpu_bind, pure_eq_ok] at h
    obtain ⟨lo, u, hlo, rfl, rfl⟩ := h
    obtain ⟨hreads, hcpu⟩ := fetchByte_spec hlo
    exact ⟨[lo], [], _, hreads, .nil _, by rw [hcpu]; rfl, rfl, hcpu⟩
  | absolute =>
    simp only [AddressingMode.resolve, bind_eq_ok, pure_eq_ok] at h
    obtain ⟨w, u, hw, rfl, rfl⟩ := h
    obtain ⟨lo, hi, rfl, hreads, hcpu⟩ := fetchWord_spec hw
    exact ⟨[lo, hi], [], _, hreads, .nil _, rfl, rfl, hcpu⟩
  | absoluteX | absoluteY =>
    simp only [AddressingMode.resolve, bind_eq_ok, cpu_bind, pure_eq_ok] at h
    obtain ⟨w, u, hw, rfl, rfl⟩ := h
    obtain ⟨lo, hi, rfl, hreads, hcpu⟩ := fetchWord_spec hw
    refine ⟨[lo, hi], [], _, hreads, .nil _, by rw [hcpu]; rfl, ?_, hcpu⟩
    rw [Resolved.crossed_indexed, hcpu]
    rfl
  | indirect =>
    simp only [AddressingMode.resolve, bind_eq_ok, pure_eq_ok] at h
    obtain ⟨w, u, hw, target, v, htarget, rfl, rfl⟩ := h
    obtain ⟨lo, hi, rfl, hreads, hcpu⟩ := fetchWord_spec hw
    obtain ⟨tlo, thi, rfl, hpointer, hv⟩ := readWord_spec htarget
    exact ⟨[lo, hi], [tlo, thi], _, hreads, hpointer, rfl, rfl, hv.trans hcpu⟩
  | indirectX =>
    simp only [AddressingMode.resolve, readPointer, bind_eq_ok, cpu_bind, pure_eq_ok] at h
    obtain ⟨lo, u, hlo, target, v, htarget, rfl, rfl⟩ := h
    obtain ⟨hreads, hcpu⟩ := fetchByte_spec hlo
    obtain ⟨tlo, thi, rfl, hpointer, hv⟩ := readWord_spec htarget
    rw [hcpu] at hpointer
    exact ⟨[lo], [tlo, thi], _, hreads, hpointer, rfl, rfl, hv.trans hcpu⟩
  | indirectY =>
    simp only [AddressingMode.resolve, readPointer, bind_eq_ok, cpu_bind, pure_eq_ok] at h
    obtain ⟨lo, u, hlo, base, v, hbase, rfl, rfl⟩ := h
    obtain ⟨hreads, hcpu⟩ := fetchByte_spec hlo
    obtain ⟨tlo, thi, rfl, hpointer, hv⟩ := readWord_spec hbase
    refine ⟨[lo], [tlo, thi], _, hreads, hpointer, ?_, ?_, hv.trans hcpu⟩
    · rw [hv, hcpu]
      rfl
    · rw [Resolved.crossed_indexed, hv, hcpu]
      rfl
  | relative =>
    simp only [AddressingMode.resolve, bind_eq_ok, cpu_bind, pure_eq_ok] at h
    obtain ⟨lo, u, hlo, rfl, rfl⟩ := h
    obtain ⟨hreads, hcpu⟩ := fetchByte_spec hlo
    exact ⟨[lo], [], _, hreads, .nil _, by rw [hcpu]; rfl, rfl, hcpu⟩

theorem exists_fetchByte {bytes : List UInt8} {s : System β} {b : β}
    (h : Reads (addressesFrom s.cpu.pc 1) bytes s.bus b) : ∃ value, bytes = [value] ∧
      fetchByte s = .ok value ⟨{ s.cpu with pc := s.cpu.pc + 1 }, b⟩ := by
  obtain ⟨value, rest, c, rfl, head, tail⟩ := h.exists_head
  cases tail
  have hread : readByte s.cpu.pc s = .ok value ⟨s.cpu, b⟩ := readByte_eq_ok.2 ⟨head, rfl⟩
  rw [fetchByte, cpu_bind, bind_of_ok hread]
  exact ⟨value, rfl, rfl⟩

theorem exists_fetchWord {bytes : List UInt8} {s : System β} {b : β}
    (h : Reads (addressesFrom s.cpu.pc 2) bytes s.bus b) : ∃ lo hi, bytes = [lo, hi] ∧
      fetchWord s = .ok (word lo hi) ⟨{ s.cpu with pc := s.cpu.pc + 1 + 1 }, b⟩ := by
  obtain ⟨lo, rest, c, rfl, head, tail⟩ := h.exists_head
  obtain ⟨_, ⟨⟩, hlo⟩ := exists_fetchByte (s := s) (.cons head (.nil c))
  obtain ⟨hi, rfl, hhi⟩ := exists_fetchByte (s := ⟨{ s.cpu with pc := s.cpu.pc + 1 }, c⟩) tail
  rw [fetchWord, bind_of_ok hlo, bind_of_ok hhi]
  exact ⟨lo, hi, rfl, rfl⟩

theorem exists_readWord {l h : UInt16} {bytes : List UInt8} {s : System β} {b : β}
    (hreads : Reads [l, h] bytes s.bus b) : ∃ w, readWord l h s = .ok w ⟨s.cpu, b⟩ := by
  obtain ⟨lo, rest, c, rfl, head, tail⟩ := hreads.exists_head
  obtain ⟨hi, _, _, rfl, next, last⟩ := tail.exists_head
  cases last
  have hlo : readByte l s = .ok lo ⟨s.cpu, c⟩ := readByte_eq_ok.2 ⟨head, rfl⟩
  have hhi : readByte h ⟨s.cpu, c⟩ = .ok hi ⟨s.cpu, b⟩ := readByte_eq_ok.2 ⟨next, rfl⟩
  rw [readWord, bind_of_ok hlo, bind_of_ok hhi]
  exact ⟨_, rfl⟩

/-- An operand is located if its bytes and those of its pointer can be read. -/
theorem exists_resolve {mode : AddressingMode} {s : System β} {bytes pointer : List UInt8}
    {b d : β} (hbytes : Reads (addressesFrom s.cpu.pc mode.fetched) bytes s.bus b)
    (hpointer : Reads (mode.pointer s.cpu.toRegisters bytes) pointer b d) :
    ∃ r t, mode.resolve s = .ok r t := by
  cases mode with
  | implied | accumulator | immediate => exact ⟨_, _, rfl⟩
  | zeroPage | zeroPageX | zeroPageY | relative =>
    obtain ⟨lo, rfl, hlo⟩ := exists_fetchByte hbytes
    rw [AddressingMode.resolve, bind_of_ok hlo]
    exact ⟨_, _, rfl⟩
  | absolute | absoluteX | absoluteY =>
    obtain ⟨lo, hi, rfl, hword⟩ := exists_fetchWord hbytes
    rw [AddressingMode.resolve, bind_of_ok hword]
    exact ⟨_, _, rfl⟩
  | indirect =>
    obtain ⟨lo, hi, rfl, hword⟩ := exists_fetchWord hbytes
    obtain ⟨target, htarget⟩ := exists_readWord
      (s := ⟨{ s.cpu with pc := s.cpu.pc + 1 + 1 }, b⟩) hpointer
    exact ⟨_, _, bind_eq_ok.2 ⟨_, _, hword, bind_eq_ok.2 ⟨target, _, htarget, rfl⟩⟩⟩
  | indirectX =>
    obtain ⟨lo, rfl, hlo⟩ := exists_fetchByte hbytes
    obtain ⟨target, htarget⟩ := exists_readWord
      (s := ⟨{ s.cpu with pc := s.cpu.pc + 1 }, b⟩) hpointer
    rw [AddressingMode.resolve, bind_of_ok hlo, cpu_bind]
    exact ⟨_, _, bind_eq_ok.2 ⟨target, _, htarget, rfl⟩⟩
  | indirectY =>
    obtain ⟨lo, rfl, hlo⟩ := exists_fetchByte hbytes
    obtain ⟨target, htarget⟩ := exists_readWord
      (s := ⟨{ s.cpu with pc := s.cpu.pc + 1 }, b⟩) hpointer
    exact ⟨_, _, bind_eq_ok.2 ⟨_, _, hlo, bind_eq_ok.2 ⟨target, _, htarget, rfl⟩⟩⟩

/-! ## A step up to its action -/

/-- The step reads the instruction `i` with these operand bytes and this pointer, which leads to
the bus `d`. -/
def Fetched (s : System β) (i : Instruction) (bytes pointer : List UInt8) (d : β) : Prop :=
  Instruction.decode? i.opcode = some i ∧ ∃ b,
    Reads (addressesFrom s.cpu.pc (i.mode.fetched + 1)) (i.opcode :: bytes) s.bus b ∧
    Reads (i.mode.pointer s.cpu.toRegisters bytes) pointer b d

namespace Fetched

variable {s : System β} {i j : Instruction} {bytes values pointer target : List UInt8} {d e : β}

theorem read (h : Fetched s i bytes pointer d) :
    (AddressSpace.read s.cpu.pc s.bus).1 = .ok i.opcode := by
  obtain ⟨-, b, hbytes, -⟩ := h
  cases hbytes with
  | cons head _ => rw [head]

/-- The byte at the program counter is what the step finds there. -/
theorem instruction (h : Fetched s i bytes pointer d) {opcode : UInt8}
    (hread : (AddressSpace.read s.cpu.pc s.bus).1 = .ok opcode)
    (hdecode : Instruction.decode? opcode = some j) : i = j := by
  rw [h.read] at hread
  cases hread
  exact Option.some_inj.1 (h.1.symm.trans hdecode)

/-- The system determines what is fetched. -/
theorem unique (h : Fetched s i bytes pointer d) (h' : Fetched s j values target e) :
    i = j ∧ bytes = values ∧ pointer = target ∧ d = e := by
  obtain rfl := h.instruction h'.read h'.1
  obtain ⟨-, b, hbytes, hpointer⟩ := h
  obtain ⟨-, c, hvalues, htarget⟩ := h'
  obtain ⟨hall, rfl⟩ := hbytes.unique hvalues
  obtain rfl := (List.cons.inj hall).2
  obtain ⟨rfl, rfl⟩ := hpointer.unique htarget
  exact ⟨rfl, rfl, rfl, rfl⟩

end Fetched

/-- An instruction is fetched, and its action does the rest but for the charge. The cost is the base
cost, one cycle more for a crossed page where the instruction pays for it, and what the action
adds. -/
theorem step_executed {s t : System β} {n : Nat} (hserved : s.cpu.served = none)
    (h : step s = .ok n t) : ∃ i bytes pointer d extra u, Fetched s i bytes pointer d ∧
      i.mnemonic.action.run (i.operand s.cpu bytes pointer) ⟨s.cpu.behind i, d⟩ = .ok extra u ∧
      n = i.cycles +
        (if i.pagePenalty && i.mode.crosses s.cpu.toRegisters bytes pointer then 1 else 0) + extra ∧
      t = ⟨u.cpu.stall n, u.bus⟩ := by
  obtain ⟨u, hwork, ht⟩ := step_eq_ok.1 h
  have hbegun : begun s.cpu = { s.cpu with origin := s.cpu.pc } := by
    simp [begun, hserved]
  rw [hserved, hbegun] at hwork
  simp only [work, bind_eq_ok, fetchInstruction_eq_ok, readByte_eq_ok, execute, update_bind,
    pure_eq_ok] at hwork
  obtain ⟨i, v, ⟨opcode, ⟨hread, hv⟩, hdecode⟩, r, w, hresolve, extra, _, hrun, hn, rfl⟩ := hwork
  obtain rfl := Instruction.opcode_of_decode? hdecode
  obtain ⟨bytes, pointer, b, hbytes, hpointer, hoperand, hcrossed, hw⟩ := resolve_spec hresolve
  rw [hv] at hbytes hpointer hoperand hcrossed hw
  have hbehind : w = ⟨s.cpu.behind i, w.bus⟩ := by
    obtain ⟨c, d⟩ := w
    rw [← Cpu.behind_eq]
    exact congrArg (System.mk · d) hw
  rw [hoperand, hbehind] at hrun
  rw [hcrossed] at hn
  exact ⟨i, bytes, pointer, w.bus, extra, u, ⟨hdecode, b, .cons hread hbytes, hpointer⟩, hrun, hn,
    ht⟩

theorem step_fetched {s t : System β} {n : Nat} (hserved : s.cpu.served = none)
    (h : step s = .ok n t) : ∃ i bytes pointer d extra u, Fetched s i bytes pointer d ∧
      i.mnemonic.action.run (i.operand s.cpu bytes pointer) ⟨s.cpu.behind i, d⟩ = .ok extra u ∧
      t = ⟨u.cpu.stall n, u.bus⟩ := by
  obtain ⟨i, bytes, pointer, d, extra, u, hfetched, hrun, -, ht⟩ := step_executed hserved h
  exact ⟨i, bytes, pointer, d, extra, u, hfetched, hrun, ht⟩

/-- A step comes to its end if an instruction can be fetched and its action comes to its own. -/
theorem step_of_fetched {s u : System β} {i : Instruction} {bytes pointer : List UInt8} {d : β}
    {extra : Nat} (hserved : s.cpu.served = none) (h : Fetched s i bytes pointer d)
    (hrun : i.mnemonic.action.run (i.operand s.cpu bytes pointer) ⟨s.cpu.behind i, d⟩ =
      .ok extra u) : ∃ n t, step s = .ok n t := by
  obtain ⟨hdecode, b, hbytes, hpointer⟩ := h
  obtain ⟨_, _, c, ⟨⟩, head, tail⟩ := hbytes.exists_head
  obtain ⟨r, w, hresolve⟩ := exists_resolve
    (s := ⟨{ s.cpu with pc := s.cpu.pc + 1, origin := s.cpu.pc }, c⟩) tail hpointer
  obtain ⟨bytes', pointer', b', hbytes', hpointer', hoperand, -, hw⟩ := resolve_spec hresolve
  obtain ⟨rfl, rfl⟩ := tail.unique hbytes'
  obtain ⟨rfl, rfl⟩ := hpointer.unique hpointer'
  replace hoperand : r.operand = i.operand s.cpu bytes pointer := hoperand
  have hbehind : w = ⟨s.cpu.behind i, w.bus⟩ := by
    rw [← Cpu.behind_eq]
    exact congrArg (System.mk · w.bus) hw
  rw [hbehind] at hresolve
  have hbegun : begun s.cpu = { s.cpu with origin := s.cpu.pc } := by
    simp [begun, hserved]
  have hopcode : readByte s.cpu.pc ⟨{ s.cpu with origin := s.cpu.pc }, s.bus⟩ =
      .ok i.opcode ⟨{ s.cpu with origin := s.cpu.pc }, c⟩ := readByte_eq_ok.2 ⟨head, rfl⟩
  have hwork : work s.cpu.served ⟨begun s.cpu, s.bus⟩ =
      .ok (i.cycles + (if i.pagePenalty && r.crossed then 1 else 0) + extra) u := by
    rw [hserved, hbegun, work, bind_of_ok (fetchInstruction_eq_ok.2 ⟨i.opcode, hopcode, hdecode⟩),
      execute, update_bind, bind_of_ok hresolve, hoperand, bind_of_ok hrun]
    rfl
  exact ⟨_, _, step_eq_ok.2 ⟨u, hwork, rfl⟩⟩

end CpuM

end Famicom
