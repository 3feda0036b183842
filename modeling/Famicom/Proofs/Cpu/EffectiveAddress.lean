import Famicom.Proofs.Cpu.FaultFree

/-!
# Effective addresses

`AddressingMode.locate` finds an operand by sums of bytes and words, which wrap silently. Here the
same is said in whole numbers, the way manuals do : a pointer is at `AddressingMode.pointerPlaces`
and the operand at `AddressingMode.effective`, and each reduction is written out, modulo 256
where the mode stays in page zero and modulo 65536 where it may go round. A pointer stays in its
page, so its high byte may stand in front of its low byte. An index crosses a page if it carries
out of the low byte of its base (`AddressingMode.base`).

`resolve_effective` says that on a bus without faults every mode comes to its end, with the
program counter behind the operand bytes, nothing else of the processor changed, and the operand
where these numbers put it.
-/

namespace Famicom

/-! ## In whole numbers -/

/-- The offset that a byte stands for in two's complement. -/
def signed (b : Nat) : Int := if b < 128 then b else b - 256

namespace Operand

/-- The operand at the address with a number. -/
def atNumber (n : Nat) : Operand := .address (.ofNat n)

end Operand

namespace AddressingMode

/-- Where the mode finds a pointer, low byte first, for the operand bytes `b₁` and `b₂`. -/
def pointerPlaces (mode : AddressingMode) (x b₁ b₂ : Nat) : List Nat :=
  match mode with
  | .indirect =>
    let p := b₁ + 256 * b₂
    [p, p / 256 * 256 + (p + 1) % 256]
  | .indirectX =>
    let z := (b₁ + x) % 256
    [z, (z + 1) % 256]
  | .indirectY => [b₁, (b₁ + 1) % 256]
  | _ => []

/-- Where the operand is, for the operand bytes `b₁` and `b₂`, which stand at `pc`, and a pointer of
the bytes `lo` and `hi`. -/
def effective (mode : AddressingMode) (pc x y b₁ b₂ lo hi : Nat) : Operand :=
  match mode with
  | .implied => .implied
  | .accumulator => .accumulator
  | .immediate => .atNumber pc
  | .zeroPage => .atNumber b₁
  | .zeroPageX => .atNumber ((b₁ + x) % 256)
  | .zeroPageY => .atNumber ((b₁ + y) % 256)
  | .absolute => .atNumber (b₁ + 256 * b₂)
  | .absoluteX => .atNumber ((b₁ + 256 * b₂ + x) % 65536)
  | .absoluteY => .atNumber ((b₁ + 256 * b₂ + y) % 65536)
  | .indirect | .indirectX => .atNumber (lo + 256 * hi)
  | .indirectY => .atNumber ((lo + 256 * hi + y) % 65536)
  | .relative => .atNumber ((pc + 1 + signed b₁) % 65536).toNat

/-- The modes that add an index to an address of two bytes. -/
def crossing : List AddressingMode := [.absoluteX, .absoluteY, .indirectY]

/-- The address to which a mode of `crossing` adds its index. -/
def base (mode : AddressingMode) (b₁ b₂ lo hi : Nat) : Nat :=
  if mode = .indirectY then lo + 256 * hi else b₁ + 256 * b₂

/-- The index of a mode of `crossing`. -/
def index (mode : AddressingMode) (x y : Nat) : Nat :=
  if mode = .absoluteX then x else y

/-! ## Words and numbers -/

/-- The sum of a place in page zero and an index stays in the page. -/
theorem sum_eq_ofNat (b index : UInt8) :
    (b + index).toUInt16 = .ofNat ((b.toNat + index.toNat) % 256) := by
  rw [toUInt16_eq_ofNat, UInt8.toNat_add]

theorem nextInPage_eq_ofNat (w : UInt16) :
    nextInPage w = .ofNat (w.toNat / 256 * 256 + (w.toNat + 1) % 256) := by
  have hw := w.toNat_lt
  refine eq_ofNat ?_
  rw [toNat_nextInPage]
  omega

/-- The sum of an address and an index goes round. -/
theorem word_add_eq_ofNat (lo hi index : UInt8) : word lo hi + index.toUInt16 =
    .ofNat ((lo.toNat + 256 * hi.toNat + index.toNat) % 65536) := by
  refine eq_ofNat ?_
  rw [UInt16.toNat_add, UInt8.toNat_toUInt16, toNat_word]
  omega

theorem add_signExtend_eq_ofNat (w : UInt16) (b : UInt8) :
    w + 1 + signExtend b = .ofNat ((w.toNat + 1 + signed b.toNat) % 65536).toNat := by
  have hb := b.toNat_lt
  refine eq_ofNat ?_
  rw [UInt16.toNat_add, UInt16.toNat_add, signExtend_eq, signed,
    show (1 : UInt16).toNat = 1 from rfl]
  split
  · rw [UInt8.toNat_toUInt16]
    omega
  · rw [toNat_word, show (0xFF : UInt8).toNat = 255 from rfl]
    omega

variable (mode : AddressingMode) (r : Registers) (a : UInt16) (bytes pointer : List UInt8)

theorem pointer_eq : mode.pointer r bytes =
    (mode.pointerPlaces r.x.toNat (bytes.getD 0 0).toNat (bytes.getD 1 0).toNat).map .ofNat := by
  cases mode with
  | indirect =>
    simp only [pointer, pointerPlaces, List.map_cons, List.map_nil]
    rw [nextInPage_eq_ofNat, ← word_eq_ofNat, toNat_word, Nat.add_comm (256 * _)]
  | indirectX | indirectY =>
    simp only [pointer, pointerPlaces, List.map_cons, List.map_nil, toUInt16_eq_ofNat,
      UInt8.toNat_add]
    rfl
  | _ => rfl

theorem locate_eq : mode.locate r a bytes pointer =
    mode.effective a.toNat r.x.toNat r.y.toNat (bytes.getD 0 0).toNat (bytes.getD 1 0).toNat
      (pointer.getD 0 0).toNat (pointer.getD 1 0).toNat := by
  cases mode with
  | implied | accumulator => rfl
  | immediate => exact congrArg Operand.address UInt16.ofNat_toNat.symm
  | zeroPage => exact congrArg Operand.address (toUInt16_eq_ofNat _)
  | zeroPageX | zeroPageY => exact congrArg Operand.address (sum_eq_ofNat _ _)
  | absolute | indirect | indirectX => exact congrArg Operand.address (word_eq_ofNat _ _)
  | absoluteX | absoluteY | indirectY => exact congrArg Operand.address (word_add_eq_ofNat _ _ _)
  | relative => exact congrArg Operand.address (add_signExtend_eq_ofNat _ _)

theorem crosses_iff : mode.crosses r bytes pointer ↔ mode ∈ crossing ∧
    255 < mode.base (bytes.getD 0 0).toNat (bytes.getD 1 0).toNat (pointer.getD 0 0).toNat
      (pointer.getD 1 0).toNat % 256 + mode.index r.x.toNat r.y.toNat := by
  have hbyte (b : UInt8) (n : Nat) : (b.toNat + 256 * n) % 256 = b.toNat := by
    have hb := b.toNat_lt
    omega
  cases mode with
  | absoluteX | absoluteY | indirectY =>
    simp only [crosses, decide_eq_true_eq, base, index, hbyte, reduceCtorEq, if_false, if_true]
    exact (and_iff_right (by decide)).symm
  | _ => simp [crosses, crossing]

end AddressingMode

/-! ## Operands as they are resolved -/

namespace CpuM

variable {β : Type} [AddressSpace β]

/-- The operand bytes are read from the program counter on, then the pointer from where the mode has
it, and the numbers that these bytes stand for say where the operand is and whether the index
crossed a page. -/
theorem resolve_effective [FaultFree β] (i : Instruction) (s : System β) :
    ∃ r t bytes pointer b, i.mode.resolve s = .ok r t ∧
      t.cpu = { s.cpu with pc := t.cpu.pc } ∧
      t.cpu.pc.toNat = (s.cpu.pc.toNat + (i.size - 1)) % 65536 ∧
      let x := s.cpu.x.toNat
      let y := s.cpu.y.toNat
      let b₁ := (bytes.getD 0 0).toNat
      let b₂ := (bytes.getD 1 0).toNat
      let lo := (pointer.getD 0 0).toNat
      let hi := (pointer.getD 1 0).toNat
      Reads (addressesFrom s.cpu.pc i.mode.fetched) bytes s.bus b ∧
      Reads ((i.mode.pointerPlaces x b₁ b₂).map .ofNat) pointer b t.bus ∧
      r.operand = i.mode.effective s.cpu.pc.toNat x y b₁ b₂ lo hi ∧
      (r.crossed ↔ i.mode ∈ AddressingMode.crossing ∧
        255 < i.mode.base b₁ b₂ lo hi % 256 + i.mode.index x y) := by
  obtain ⟨r, t, h⟩ := Succeeds.actionClosed.readClosed.resolve i.mode s
  obtain ⟨bytes, pointer, b, hbytes, hpointer, hoperand, hcrossed, hcpu⟩ := resolve_spec h
  have hpc : t.cpu.pc = s.cpu.pc + .ofNat i.mode.operandSize := by rw [hcpu]
  rw [AddressingMode.pointer_eq] at hpointer
  refine ⟨r, t, bytes, pointer, b, h, by rw [hpc, hcpu], ?_, hbytes, hpointer, ?_, ?_⟩
  · have hsize := i.mode.operandSize_le
    rw [hpc, UInt16.toNat_add, UInt16.toNat_ofNat', Instruction.size]
    omega
  · rw [hoperand, AddressingMode.locate_eq]
  · rw [hcrossed, AddressingMode.crosses_iff]

/-- A jump through a pointer at the end of a page, whose high byte is at the start of that page. -/
theorem resolve_effective_pointer_at_page_end :
    let s : System (Memory 0x10000) :=
      ⟨{ Cpu.initial with pc := 1 },
        ((((Memory.zeros _).write 1 0xFF).write 2 0x01).write 0x1FF 0x34).write 0x100 0x12⟩
    ∃ r t, AddressingMode.indirect.resolve s = .ok r t ∧ r.operand = .address 0x1234 ∧
      t.cpu.pc = 3 := by
  intro s
  obtain ⟨r, t, bytes, pointer, b, h, -, hpc, hbytes, hpointer, hoperand, -⟩ :=
    resolve_effective (.plain 0x6C .jmp .indirect 5) s
  obtain ⟨rfl, rfl⟩ := hbytes.unique (.cons rfl (.cons rfl (.nil s.bus)))
  obtain ⟨rfl, -⟩ := hpointer.unique (.cons rfl (.cons rfl (.nil s.bus)))
  refine ⟨r, t, h, hoperand.trans ?_, UInt16.toNat_inj.1 (hpc.trans ?_)⟩
  all_goals decide +kernel +zetaReduce

end CpuM

end Famicom
