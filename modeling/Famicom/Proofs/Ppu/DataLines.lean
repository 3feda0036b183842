import Famicom.Proofs.Ppu.Run

/-!
# What stays on the data lines

Every byte that passes between the processor and the picture unit stays on the data lines until the
next one : a byte that is written, even where the write is refused, and a byte that a read answers
(`PpuAction.passed?`). A read that is refused answers nothing, and neither time nor a transfer nor
the reset line puts anything there (`latch_perform`). So the lines hold the last byte of the run
(`latch_after`).

A register that cannot be read answers what the lines hold, and the status has it in its low bits,
where it has no flags (`latch_shows_last_byte`). These answers are bytes of the run themselves.
-/

namespace Famicom

/-- Registers that the processor can write and not read. -/
def PpuRegister.isWriteOnly : PpuRegister → Bool
  | control | mask | oamAddress | scroll | address => true
  | status | oamData | data => false

/-- The byte that passes between the processor and the picture unit, if an action passes one. -/
def PpuAction.passed? (p : Ppu) : PpuAction → Option UInt8
  | read register => (p.read register).1.toOption
  | write _ value => some value
  | tick | writeOam _ | poll | reset => none

/-- The flags leave the five low bits of the status to the data lines. -/
theorem PpuStatus.toByte_and (s : PpuStatus) : s.toByte &&& 0x1F = 0 := by
  obtain ⟨o, h, v⟩ := s
  cases o <;> cases h <;> cases v <;> rfl

namespace Ppu

/-- The bytes that pass during a run. -/
def passed : Ppu → List PpuAction → List UInt8
  | _, [] => []
  | p, a :: actions => (a.passed? p).toList ++ passed (a.perform p) actions

/-! ## One action -/

theorem latch_readData (p : Ppu) : p.readData.2.latch = p.latch := by
  unfold readData
  dsimp only
  split
  · split
    · rfl
    · split <;> rfl
  · split <;> rfl

theorem latch_writeData (p : Ppu) (value : UInt8) : (p.writeData value).2.latch = p.latch := by
  unfold writeData
  split <;> rfl

theorem latch_tick (p : Ppu) : p.tick.latch = p.latch := by
  rw [tick_eq]

/-- A read leaves its answer on the lines, and what was there if it is refused. -/
theorem latch_read (p : Ppu) (register : PpuRegister) :
    (p.read register).2.latch = (p.read register).1.toOption.getD p.latch := by
  cases register with
  | data =>
    have hkept := p.latch_readData
    unfold read
    rcases hread : p.readData with ⟨_ | value, q⟩
    · rw [hread] at hkept
      exact hkept
    · rfl
  | _ => rfl

theorem latch_write (p : Ppu) (register : PpuRegister) (value : UInt8) :
    (p.write register value).2.latch = value := by
  cases register with
  | data => exact latch_writeData { p with latch := value } value
  | _ => rfl

theorem latch_perform (p : Ppu) (a : PpuAction) :
    (a.perform p).latch = (a.passed? p).getD p.latch := by
  cases a with
  | tick => exact p.latch_tick
  | read register => exact p.latch_read register
  | write register value => exact p.latch_write register value
  | writeOam | poll | reset => rfl

/-! ## A run -/

theorem latch_after (p : Ppu) (actions : List PpuAction) :
    (p.after actions).latch = (p.passed actions).getLast?.getD p.latch := by
  induction actions generalizing p with
  | nil => rfl
  | cons a actions ih =>
    rw [after_cons, ih, latch_perform, passed, List.getLast?_append]
    cases (passed (a.perform p) actions).getLast? with
    | some value => rfl
    | none => cases a.passed? p <;> rfl

theorem read_of_isWriteOnly {register : PpuRegister} (h : register.isWriteOnly) (p : Ppu) :
    (p.read register).1 = .ok p.latch := by
  cases register with
  | status | oamData | data => cases h
  | _ => rfl

/-- The low bits of the status are those of the byte on the lines. -/
theorem read_status_and (p : Ppu) :
    ∃ value, (p.read .status).1 = .ok value ∧ value &&& 0x1F = p.latch &&& 0x1F := by
  refine ⟨_, rfl, ?_⟩
  have hparts (a b : UInt8) : (a ||| b) &&& 0x1F = (a &&& 0x1F) ||| (b &&& 0x1F) := by
    rw [← UInt8.toNat_inj]
    simp only [UInt8.toNat_and, UInt8.toNat_or, Nat.and_or_distrib_right]
  rw [hparts, PpuStatus.toByte_and, UInt8.and_assoc, UInt8.and_self, UInt8.zero_or]

/-- After any run from power-up the registers that cannot be read answer the last byte that passed,
or zero, and so do the low bits of the status. -/
theorem latch_shows_last_byte (p : Ppu) (actions : List PpuAction) :
    let q := p.powerUp.after actions
    let last := (p.powerUp.passed actions).getLast?.getD 0
    (∀ register : PpuRegister, register.isWriteOnly → (q.read register).1 = .ok last) ∧
      ∃ value, (q.read .status).1 = .ok value ∧ value &&& 0x1F = last &&& 0x1F := by
  intro q last
  have hlatch : q.latch = last := p.powerUp.latch_after actions
  refine ⟨fun register h => ?_, ?_⟩
  · rw [read_of_isWriteOnly h, hlatch]
  · obtain ⟨value, hread, hlow⟩ := q.read_status_and
    exact ⟨value, hread, hlow.trans (by rw [hlatch])⟩

/-- A sprite byte is read from where the reset line found it, a read of missing pattern tables is
refused, and time passes : the sprite byte is what is left. -/
theorem latch_shows_last_byte_refused_read :
    let q := initial.powerUp.after [.write .oamData 0x5A, .write .oamAddress 0x00, .read .oamData,
      .reset, .writeOam 0xFF, .read .data, .tick]
    (q.read .scroll).1 = .ok 0x5A := by
  intro q
  obtain ⟨hwriteOnly, -⟩ := latch_shows_last_byte initial [.write .oamData 0x5A,
    .write .oamAddress 0x00, .read .oamData, .reset, .writeOam 0xFF, .read .data, .tick]
  exact (hwriteOnly .scroll rfl).trans (congrArg Except.ok (by decide +kernel))

end Ppu

end Famicom
