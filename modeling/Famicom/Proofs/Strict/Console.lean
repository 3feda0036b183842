import Famicom.Proofs.Bounds
import Famicom.Proofs.FailedStep
import Famicom.Proofs.Strict.Cpu
import Famicom.Proofs.Strict.Ppu

/-!
# The strict console

Board, processor and picture unit are put together with strict operations, and the host's operations
are performed on them (`Operation.perform?`). The cycles of a step and of a transfer are counted in
32 bits, and so are the dots they last.

A run never stops (`Console.strict_run`) : whatever images, programs, buttons and accesses there
are, the strict console is the console, up to the point where the clock or the number of frames
needs more than 64 bits. Two things keep it going. No access depends on the state of the devices,
since every index is folded (`Board.busHom_some`); and the dots depend on the beam being on a frame,
which is kept (`Ppu.kept_bounded`).
-/

namespace Famicom

/-! ## Controllers -/

/-- Read one bit. The bits handed out are counted in a byte. -/
def Controller.read? (c : Controller) : Option (UInt8 × Controller) :=
  if c.strobe then some (openBus ||| c.buttons &&& 1, c)
  else if 8 ≤ c.handedOut then some (openBus ||| 1, c)
  else do
    return (openBus ||| c.shifted &&& 1,
      { c with shifted := c.shifted >>> 1, handedOut := ← sum? 8 c.handedOut 1 })

theorem Controller.read?_eq (c : Controller) : c.read? = some c.read := by
  unfold read? read
  split_ifs with hstrobe hdone
  · rfl
  · rfl
  · rw [sum?_eq (by omega)]
    rfl

/-- Read the first controller at an even address and the second at an odd one. -/
def ControllerPair.read? (p : ControllerPair) (a : UInt16) : Option (UInt8 × ControllerPair) :=
  if a &&& 1 = 0 then do
    let (value, first) ← p.first.read?
    return (value, { p with first })
  else do
    let (value, second) ← p.second.read?
    return (value, { p with second })

theorem ControllerPair.read?_eq (p : ControllerPair) (a : UInt16) :
    p.read? a = some (p.read a) := by
  simp only [read?, read, Controller.read?_eq]
  split_ifs <;> rfl

/-! ## The board -/

namespace Board

/-- Read a byte. -/
def read? (a : UInt16) (b : Board) : Option (Except BusFault UInt8 × Board) :=
  if a ≤ 0x1FFF then do return (.ok (← b.ram.read? (a &&& 0x07FF).toNat), b)
  else if a ≤ 0x3FFF then do
    let (outcome, ppu) ← b.ppu.read? (.ofAddress a)
    return (outcome, { b with ppu })
  else if a ≤ 0x4015 then some (.ok 0, b)
  else if a ≤ 0x4017 then do
    let (value, controllers) ← b.controllers.read? a
    return (.ok value, { b with controllers })
  else if 0x6000 ≤ a then
    match b.cartridge with
    | some c => do return (.ok (← if a ≤ 0x7FFF then c.readPrgRam? a else c.readPrg? a), b)
    | none => some (.error ⟨.read, a⟩, b)
  else some (.error ⟨.read, a⟩, b)

/-- Write a byte. -/
def write? (a : UInt16) (value : UInt8) (b : Board) : Option (Except BusFault Unit × Board) :=
  if a ≤ 0x1FFF then do
    return (.ok (), { b with ram := ← b.ram.write? (a &&& 0x07FF).toNat value })
  else if a ≤ 0x3FFF then do
    let (outcome, ppu) ← b.ppu.write? (.ofAddress a) value
    return (outcome, { b with ppu })
  else if a = 0x4014 then some (.ok (), { b with transferRequest := some value })
  else if a = 0x4016 then
    some (.ok (), { b with controllers := b.controllers.writeStrobe value })
  else if a ≤ 0x401F then some (.ok (), b)
  else if 0x6000 ≤ a then
    match b.cartridge with
    | some c =>
      if a ≤ 0x7FFF then do return (.ok (), b.insert (← c.writePrgRam? a value))
      else some (.ok (), b)
    | none => some (.error ⟨.write, a⟩, b)
  else some (.error ⟨.write, a⟩, b)

/-- Look at an address. Registers and controllers are out of sight. -/
def peek? (a : UInt16) (b : Board) : Option (Option UInt8 × Board) :=
  if 0x2000 ≤ a ∧ a ≤ 0x3FFF ∨ 0x4016 ≤ a ∧ a ≤ 0x4017 then some (none, b)
  else do
    match ← b.read? a with
    | (.ok value, b) => return (some value, b)
    | (.error _, b) => return (none, b)

theorem ram_index (a : UInt16) : (a &&& 0x07FF).toNat % 0x800 = a.toNat % 0x800 := by
  have hmask : (a &&& 0x07FF).toNat = a.toNat % 0x800 := by
    rw [UInt16.toNat_and]
    exact Nat.and_two_pow_sub_one_eq_mod _ 11
  rw [hmask, Nat.mod_mod]

theorem read?_eq (a : UInt16) (b : Board) : b.read? a = some (AddressSpace.read a b) := by
  have hram := b.ram.read_congr (ram_index a)
  rw [read_eq]
  cases hslot : b.cartridge with
  | none =>
    simp only [read?, hslot, Memory.read?_eq, Ppu.read?_eq, ControllerPair.read?_eq, hram,
      Option.isSome_none, Bool.false_eq_true, false_and, if_false]
    split_ifs <;> rfl
  | some c =>
    simp only [read?, hslot, Memory.read?_eq, Ppu.read?_eq, ControllerPair.read?_eq, hram,
      Cartridge.readPrgRam?_eq, Cartridge.readPrg?_eq, readCartridge, Option.isSome_some, true_and]
    split_ifs <;> rfl

theorem write?_eq (a : UInt16) (value : UInt8) (b : Board) :
    b.write? a value = some (AddressSpace.write a value b) := by
  have hram := b.ram.write_congr (ram_index a) value
  rw [write_eq]
  cases hslot : b.cartridge with
  | none =>
    simp only [write?, hslot, Memory.write?_eq, Ppu.write?_eq, hram, Option.isSome_none,
      Bool.false_eq_true, false_and, if_false]
    split_ifs <;> rfl
  | some c =>
    simp only [write?, hslot, Memory.write?_eq, Ppu.write?_eq, hram, Cartridge.writePrgRam?_eq,
      writePrgRam, Option.isSome_some, true_and]
    split_ifs <;> rfl

theorem peek?_eq (a : UInt16) (b : Board) : b.peek? a = some (AddressSpace.peek a b) := by
  rw [peek_eq, peek?, read?_eq]
  split_ifs
  · rfl
  · simp only [Option.bind_eq_bind, Option.bind_some]
    rcases AddressSpace.read a b with ⟨_ | value, d⟩ <;> rfl

/-- An access that stops leaves no board. -/
instance : AddressSpace (Option Board) where
  read a b :=
    match b.bind (read? a) with
    | some (outcome, b) => (outcome, some b)
    | none => (.error ⟨.read, a⟩, none)
  write a value b :=
    match b.bind (write? a value) with
    | some (outcome, b) => (outcome, some b)
    | none => (.error ⟨.write, a⟩, none)

/-- No access stops. -/
theorem busHom_some : CpuM.BusHom (some : Board → Option Board) where
  read a b := by
    show (match b.read? a with | some (outcome, b) => (outcome, some b) | none => _) = _
    rw [read?_eq]
  write a value b := by
    show (match b.write? a value with | some (outcome, b) => (outcome, some b) | none => _) = _
    rw [write?_eq]

end Board

/-! ## Steps -/

namespace Console

/-- Copy a page to sprite memory. The clock and the answer have a width. -/
def transfer? (page : UInt8) : Console → Option (Except ConsoleFault Nat × Console)
  | ⟨cpu, board⟩ =>
    match readBlock 256 (word 0 page) (some board) with
    | (_, none) => none
    | (.error fault, some board) => some (.error (.transfer page fault), ⟨cpu, board⟩)
    | (.ok bytes, some board) => do
      let ppu ← bytes.foldlM Ppu.writeOam? board.ppu
      let stall ← sum? 32 513 (cpu.cycles % 2)
      let cycles ← sum? 64 cpu.cycles stall
      return (.ok stall, ⟨{ cpu with cycles }, { board with ppu }⟩)

/-- Make the transfer that is requested, if there is one. -/
def serveTransfer? (c : Console) : Option (Except ConsoleFault Nat × Console) :=
  match c.bus.transferRequest with
  | none => some (.ok 0, c)
  | some page => transfer? page { c with bus := { c.bus with transferRequest := none } }

/-- Let the picture unit catch up with a number of cycles, and latch its request. -/
def catchUp? (cycles : Nat) : Console → Option Console
  | ⟨cpu, ⟨ram, ppu, controllers, request⟩⟩ => do
    let dots ← product? 32 cycles dotsPerCycle
    match (← ppu.ticks? dots).takeInterrupt with
    | (requested, ppu) =>
      return ⟨if requested then cpu.raise .nmi else cpu, ⟨ram, ppu, controllers, request⟩⟩

/-- One step of the processor, with all that follows from it. -/
def step? (c : Console) : Option (Except ConsoleFault Nat × Console) :=
  match CpuM.step? ⟨c.cpu, some c.bus⟩ with
  | .error fault ⟨cpu, board⟩ => do return (.error (.cpu fault), ⟨cpu, ← board⟩)
  | .ok cycles ⟨cpu, board⟩ => do
    match ← serveTransfer? ⟨cpu, ← board⟩ with
    | (.error fault, c) => return (.error fault, c)
    | (.ok stall, c) =>
      let total ← sum? 32 cycles stall
      return (.ok total, ← catchUp? total c)

/-- The clock and the number of frames have 64 bits. -/
def CountersFit (c : Console) : Prop := c.cpu.cycles < 2 ^ 64 ∧ c.beam.frame < 2 ^ 64

instance (c : Console) : Decidable c.CountersFit := by
  unfold CountersFit
  infer_instance

theorem foldlM_writeOam? (bytes : List UInt8) (p : Ppu) :
    bytes.foldlM Ppu.writeOam? p = some (bytes.foldl Ppu.writeOam p) := by
  induction bytes generalizing p with
  | nil => rfl
  | cons value bytes ih =>
    rw [List.foldlM_cons, Ppu.writeOam?_eq]
    exact ih _

theorem transfer?_eq {page : UInt8} {c : Console} (hfit : (transfer page c).2.cpu.cycles < 2 ^ 64) :
    transfer? page c = some (transfer page c) := by
  obtain ⟨cpu, board⟩ := c
  have hmap := readBlock_map Board.busHom_some 256 (word 0 page) board
  simp only [transfer?, transfer, hmap] at hfit ⊢
  rcases hblock : readBlock 256 (word 0 page) board with ⟨fault | bytes, d⟩
  · rfl
  · rw [hblock] at hfit
    have hstall : sum? 32 513 (cpu.cycles % 2) = some (transferStall cpu.cycles) :=
      sum?_eq (by omega)
    have hclock : sum? 64 cpu.cycles (transferStall cpu.cycles) = _ := sum?_eq hfit
    simp only [foldlM_writeOam?, hstall, hclock, Option.bind_eq_bind, Option.bind_some]
    rfl

/-- A transfer that fails charges nothing. -/
theorem le_serveTransfer (c : Console) : c.cpu.cycles ≤ (serveTransfer c).2.cpu.cycles := by
  rcases h : serveTransfer c with ⟨fault | stall, d⟩
  · rw [(serveTransfer_eq_error h).1]
  · rw [(serveTransfer_spec h).1]
    exact Nat.le_add_right _ _

theorem serveTransfer?_eq {c : Console} (hfit : (serveTransfer c).2.cpu.cycles < 2 ^ 64) :
    serveTransfer? c = some (serveTransfer c) := by
  unfold serveTransfer? serveTransfer at *
  cases hrequest : c.bus.transferRequest with
  | none => rfl
  | some page =>
    rw [hrequest] at hfit
    exact transfer?_eq hfit

/-- Eleven cycles of the processor and 514 of a transfer last less than 2000 dots. -/
theorem catchUp?_eq {n : Nat} {c : Console} (hn : n ≤ 525) (h : c.bus.ppu.beam.InRange)
    (hfit : (catchUp n c).beam.frame < 2 ^ 64) : catchUp? n c = some (catchUp n c) := by
  obtain ⟨cpu, ram, ppu, controllers, request⟩ := c
  have hdots : product? 32 n dotsPerCycle = some (n * dotsPerCycle) :=
    product?_eq (by unfold dotsPerCycle; omega)
  have hticks : ppu.ticks? (n * dotsPerCycle) = some (ppu.ticks (n * dotsPerCycle)) :=
    Ppu.ticks?_eq h hfit
  simp only [catchUp?, hdots, hticks, Option.bind_eq_bind, Option.bind_some]
  rfl

/-- A strict step is the step, whether it ends or fails. -/
theorem step?_eq {c : Console} (h : c.bus.ppu.beam.InRange) (hfit : c.step.2.CountersFit) :
    c.step? = some c.step := by
  have hcpu (hclock : (CpuM.left CpuM.step c).cpu.cycles < 2 ^ 64) :
      CpuM.step? ⟨c.cpu, some c.bus⟩ = CpuM.mapResult some (CpuM.step c) :=
    CpuM.step?_eq Board.busHom_some hclock
  cases hstep : CpuM.step c with
  | error fault d =>
    have hend : c.step = (.error (.cpu fault), d) := by rw [step, hstep]
    rw [hend] at hfit ⊢
    rw [hstep, CpuM.left_of_error hstep] at hcpu
    rw [step?, hcpu hfit.1]
    rfl
  | ok cycles d =>
    have hclock := le_serveTransfer d
    rw [hstep, CpuM.left_of_ok hstep] at hcpu
    rcases htransfer : serveTransfer d with ⟨fault | stall, e⟩
    · have hend : c.step = (.error fault, e) := step_eq_error.2 (.inr ⟨cycles, d, hstep, htransfer⟩)
      rw [hend] at hfit ⊢
      have hserve := serveTransfer?_eq (c := d) (by rw [htransfer]; exact hfit.1)
      rw [htransfer] at hclock hserve
      rw [step?, hcpu (Nat.lt_of_le_of_lt hclock hfit.1)]
      simp only [CpuM.mapResult, System.map, Option.bind_eq_bind, Option.bind_some, hserve]
      rfl
    · have hsettled : c.settled? = some (cycles + stall, e) := by
        simp only [settled?, hstep, htransfer]
      have hend : c.step = (.ok (cycles + stall), catchUp (cycles + stall) e) :=
        step_eq_ok.2 ⟨e, hsettled, rfl⟩
      obtain ⟨-, -, hstill, hle⟩ := settled?_spec hsettled
      rw [hend] at hfit ⊢
      have hfitClock : e.cpu.cycles < 2 ^ 64 := catchUp_cycles _ e ▸ hfit.1
      have hserve := serveTransfer?_eq (c := d) (by rw [htransfer]; exact hfitClock)
      rw [htransfer] at hclock hserve
      have htotal : sum? 32 cycles stall = some (cycles + stall) := sum?_eq (by omega)
      have hdots := catchUp?_eq hle (hstill.beam ▸ h) hfit.2
      rw [step?, hcpu (Nat.lt_of_le_of_lt hclock hfitClock)]
      simp only [CpuM.mapResult, System.map, Option.bind_eq_bind, Option.bind_some, hserve, htotal,
        hdots]
      rfl

end Console

/-! ## Runs -/

/-- The console after an operation. -/
def Operation.perform? (c : Console) : Operation → Option Console
  | .host (.insert image) => do
    match ← Cartridge.parse? image with
    | .ok cartridge => return c.insert cartridge
    | .error _ => return c
  | .host .step => do return (← c.step?).2
  | .host (.read a) => do return { c with bus := (← c.bus.read? a).2 }
  | .host (.write a value) => do return { c with bus := (← c.bus.write? a value).2 }
  | .host .tick => do return { c with bus := { c.bus with ppu := ← c.bus.ppu.tick? } }
  | .readVideo a => do return withVideo c (← c.bus.ppu.video.read? a).2
  | .writeVideo a value => do return withVideo c (← c.bus.ppu.video.write? a value).2
  | o => some (o.perform c)

namespace Console

/-- The console at the end of a run. -/
def afterAll? (c : Console) (operations : List Operation) : Option Console :=
  operations.foldlM Operation.perform? c

theorem perform?_eq {c : Console} {o : Operation} (h : c.bus.ppu.beam.InRange)
    (hfit : (o.perform c).CountersFit) : o.perform? c = some (o.perform c) := by
  cases o with
  | readVideo a =>
    rw [Operation.perform?, VideoSpace.read?_eq]
    rfl
  | writeVideo a value =>
    rw [Operation.perform?, VideoSpace.write?_eq]
    rfl
  | host a =>
    cases a with
    | insert image =>
      have hparse : Cartridge.parse? image = some (Cartridge.parse image) :=
        Cartridge.parse?_eq image
      rw [Operation.perform?, hparse]
      simp only [Operation.perform, HostAction.perform, insertImage, Option.bind_eq_bind,
        Option.bind_some]
      cases Cartridge.parse image <;> rfl
    | step =>
      rw [Operation.perform?, step?_eq h hfit]
      rfl
    | read a =>
      rw [Operation.perform?, Board.read?_eq]
      rfl
    | write a value =>
      rw [Operation.perform?, Board.write?_eq]
      rfl
    | tick =>
      rw [Operation.perform?, Ppu.tick?_eq h hfit.2]
      rfl
    | powerUp | reset | press | assign => rfl

theorem afterAll?_eq {c : Console} {operations : List Operation} (h : c.bus.ppu.Bounded)
    (hfit : ∀ count, (c.afterAll (operations.take count)).CountersFit) :
    c.afterAll? operations = some (c.afterAll operations) := by
  induction operations generalizing c with
  | nil => rfl
  | cons o operations ih =>
    rw [afterAll?, List.foldlM_cons, perform?_eq h.beam (hfit 1)]
    exact ih (Ppu.kept_bounded.operation o h) fun count => hfit (count + 1)

/-- No run stops. As long as the clock and the number of frames stay in 64 bits, every sum, index
and division on the way is one that the machine can make, and so is that of a look at any address
in the end. -/
theorem strict_run (operations : List Operation)
    (hfit : ∀ count, (initial.afterAll (operations.take count)).CountersFit) :
    initial.afterAll? operations = some (initial.afterAll operations) ∧
      ∀ a, (initial.afterAll operations).bus.peek? a =
        some (AddressSpace.peek a (initial.afterAll operations).bus) :=
  ⟨afterAll?_eq (Ppu.kept_bounded.afterAll []) hfit, fun a => Board.peek?_eq a _⟩

/-- A NOP is stored at the address where the processor starts, and run. -/
theorem strict_run_nop :
    let operations : List Operation := [.host (.write 0 0xEA), .host .step, .host .tick]
    (∀ count, (initial.afterAll (operations.take count)).CountersFit) ∧
      initial.afterAll? operations = some (initial.afterAll operations) := by
  intro operations
  have hfit (count : Nat) : (initial.afterAll (operations.take count)).CountersFit := by
    match count with
    | 0 | 1 | 2 => decide +kernel
    | count + 3 =>
      have hall : operations.take (count + 3) = operations :=
        List.take_of_length_le (Nat.le_add_left 3 count)
      rw [hall]
      decide +kernel
  exact ⟨hfit, (strict_run operations hfit).1⟩

end Console

end Famicom
