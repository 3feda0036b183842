import Famicom.Proofs.Host
import Famicom.Proofs.Cpu.Recording

/-!
# Cold start

Power and one step later nothing of the past is left. The step serves the reset, which fetches the
program counter from the cartridge, and everything else of the processor, the picture unit and the
work RAM was cleared by the power switch. What stays is the contents of the cartridge, of the
nametables and of the palette, and the controllers.

Two consoles that agree there may still differ in two ways. A cartridge has marks in its header that
nothing reads (`Cartridge.unmarked`), and the processor remembers where its last instruction began,
which is overwritten before it is used. Consoles are `Alike` if they agree in all else. Every step
answers alike consoles the same and leaves them alike (`Alike.step`), and so does all that the host
does (`Alike.perform`); `coldStart_alike` says that power and one step make consoles alike.
-/

namespace Famicom

/-! ## What the marks do not change -/

namespace Bus

variable {σ : Type} {f : σ → σ} {bus : Bus σ}

/-- A map of devices that every route commutes with is one that the bus commutes with. -/
theorem read_commutes
    (h : ∀ r ∈ bus.reads, ∀ a s, r.serve a (f s) = ((r.serve a s).1, f (r.serve a s).2))
    (a : UInt16) (s : σ) : bus.read a (f s) = ((bus.read a s).1, f (bus.read a s).2) := by
  unfold Bus.read
  cases hroute : bus.readRoute a with
  | none => rfl
  | some r => exact h r (List.mem_of_find?_eq_some hroute) a s

theorem write_commutes
    (h : ∀ r ∈ bus.writes, ∀ a value s,
      r.serve a value (f s) = ((r.serve a value s).1, f (r.serve a value s).2))
    (a : UInt16) (value : UInt8) (s : σ) :
    bus.write a value (f s) = ((bus.write a value s).1, f (bus.write a value s).2) := by
  unfold Bus.write
  cases hroute : bus.writeRoute a with
  | none => rfl
  | some r => exact h r (List.mem_of_find?_eq_some hroute) a value s

end Bus

/-- The cartridge without the marks of its header that nothing reads. -/
def Cartridge.unmarked (c : Cartridge) : Cartridge := { c with battery := false, mapper := 0 }

namespace VideoSpace

/-- The same memories behind an unmarked cartridge. -/
def unmarked (s : VideoSpace) : VideoSpace :=
  { s with cartridge := s.cartridge.map Cartridge.unmarked }

theorem bus_unmarked (s : VideoSpace) : s.unmarked.bus = s.bus := by
  simp [bus, unmarked]

/-- A cartridge adds routes and takes none away. -/
theorem routes_subset (s : VideoSpace) :
    s.bus.reads ⊆ cartridgeBus.reads ∧ s.bus.writes ⊆ cartridgeBus.writes := by
  unfold bus
  split
  · exact ⟨List.Subset.refl _, List.Subset.refl _⟩
  · exact ⟨List.subset_cons_self _ _, List.subset_cons_self _ _⟩

theorem mirroring_unmarked (s : VideoSpace) : s.unmarked.mirroring = s.mirroring := by
  obtain ⟨_ | c, vram, palette⟩ := s <;> rfl

theorem readPattern_unmarked (s : VideoSpace) (a : UInt16) :
    s.unmarked.readPattern a = s.readPattern a := by
  obtain ⟨_ | c, vram, palette⟩ := s <;> rfl

theorem readNametable_unmarked (s : VideoSpace) (a : UInt16) :
    s.unmarked.readNametable a = s.readNametable a := by
  rw [readNametable, mirroring_unmarked]
  rfl

theorem writePattern_unmarked (s : VideoSpace) (a : UInt16) (value : UInt8) :
    s.unmarked.writePattern a value = (s.writePattern a value).unmarked := by
  obtain ⟨_ | c, vram, palette⟩ := s <;> rfl

theorem writeNametable_unmarked (s : VideoSpace) (a : UInt16) (value : UInt8) :
    s.unmarked.writeNametable a value = (s.writeNametable a value).unmarked := by
  rw [writeNametable, mirroring_unmarked]
  rfl

theorem read_unmarked (a : UInt16) (s : VideoSpace) :
    AddressSpace.read a s.unmarked =
      ((AddressSpace.read a s).1, (AddressSpace.read a s).2.unmarked) := by
  show s.unmarked.bus.read a s.unmarked = _
  rw [bus_unmarked]
  refine Bus.read_commutes (fun r hr x t => ?_) a s
  have hroute := s.routes_subset.1 hr
  simp only [cartridgeBus, withMemories, Bus.mapRead, Bus.mapWrite, Bus.addRead, Bus.addWrite,
    Bus.empty, List.nil_append, List.cons_append, List.mem_cons, List.not_mem_nil,
    or_false] at hroute
  rcases hroute with rfl | rfl | rfl
  · simp only [readPattern_unmarked]
  · simp only [readNametable_unmarked]
  · rfl

theorem write_unmarked (a : UInt16) (value : UInt8) (s : VideoSpace) :
    AddressSpace.write a value s.unmarked =
      ((AddressSpace.write a value s).1, (AddressSpace.write a value s).2.unmarked) := by
  show s.unmarked.bus.write a value s.unmarked = _
  rw [bus_unmarked]
  refine Bus.write_commutes (fun r hr x v t => ?_) a value s
  have hroute := s.routes_subset.2 hr
  simp only [cartridgeBus, withMemories, Bus.mapRead, Bus.mapWrite, Bus.addRead, Bus.addWrite,
    Bus.empty, List.nil_append, List.cons_append, List.mem_cons, List.not_mem_nil,
    or_false] at hroute
  rcases hroute with rfl | rfl | rfl
  · simp only [writePattern_unmarked]
  · simp only [writeNametable_unmarked]
  · rfl

end VideoSpace

namespace Ppu

/-- The same unit behind an unmarked cartridge. -/
def unmarked (p : Ppu) : Ppu := { p with video := p.video.unmarked }

theorem readData_unmarked (p : Ppu) :
    p.unmarked.readData = (p.readData.1, p.readData.2.unmarked) := by
  obtain ⟨regs, oam, buffer, latch, beam, requesting, video⟩ := p
  simp only [readData, unmarked, VideoSpace.read_unmarked]
  split
  · rcases AddressSpace.read (regs.current.busAddress - 0x1000) video with ⟨_ | beneath, v⟩
    · rfl
    · simp only [VideoSpace.read_unmarked]
      rcases AddressSpace.read regs.current.busAddress v with ⟨_ | _, _⟩ <;> rfl
  · rcases AddressSpace.read regs.current.busAddress video with ⟨_ | _, _⟩ <;> rfl

theorem writeData_unmarked (p : Ppu) (value : UInt8) :
    p.unmarked.writeData value = ((p.writeData value).1, (p.writeData value).2.unmarked) := by
  obtain ⟨regs, oam, buffer, latch, beam, requesting, video⟩ := p
  simp only [writeData, unmarked, VideoSpace.write_unmarked]
  rcases AddressSpace.write regs.current.busAddress value video with ⟨_ | _, _⟩ <;> rfl

theorem read_unmarked (p : Ppu) (register : PpuRegister) :
    p.unmarked.read register = ((p.read register).1, (p.read register).2.unmarked) := by
  cases register with
  | data =>
    simp only [read, readData_unmarked]
    rcases p.readData with ⟨_ | _, _⟩ <;> rfl
  | _ => rfl

theorem write_unmarked (p : Ppu) (register : PpuRegister) (value : UInt8) :
    p.unmarked.write register value =
      ((p.write register value).1, (p.write register value).2.unmarked) := by
  cases register with
  | data => exact writeData_unmarked { p with latch := value } value
  | _ => rfl

theorem foldl_writeOam_unmarked (bytes : List UInt8) (p : Ppu) :
    bytes.foldl writeOam p.unmarked = (bytes.foldl writeOam p).unmarked := by
  induction bytes generalizing p with
  | nil => rfl
  | cons value bytes ih => exact ih (p.writeOam value)

theorem tick_unmarked (p : Ppu) : p.unmarked.tick = p.tick.unmarked := by
  unfold tick
  dsimp only [unmarked]
  split_ifs <;> rfl

theorem ticks_unmarked (n : Nat) (p : Ppu) : ticks n p.unmarked = (ticks n p).unmarked := by
  induction n generalizing p with
  | zero => rfl
  | succ n ih => rw [ticks, tick_unmarked, ih, ticks]

end Ppu

namespace Board

/-- The same board with an unmarked cartridge. -/
def unmarked (b : Board) : Board := { b with ppu := b.ppu.unmarked }

theorem cartridge_unmarked (b : Board) :
    b.unmarked.cartridge = b.cartridge.map Cartridge.unmarked :=
  rfl

theorem readCartridge_unmarked {f : Cartridge → UInt16 → UInt8}
    (hf : ∀ c a, f c.unmarked a = f c a) (a : UInt16) (b : Board) :
    readCartridge f a b.unmarked = ((readCartridge f a b).1, (readCartridge f a b).2.unmarked) := by
  simp only [readCartridge, cartridge_unmarked, Option.map_map, Function.comp_def, hf]

theorem writePrgRam_unmarked (a : UInt16) (value : UInt8) (b : Board) :
    writePrgRam a value b.unmarked =
      ((writePrgRam a value b).1, (writePrgRam a value b).2.unmarked) := by
  simp only [writePrgRam, cartridge_unmarked]
  cases b.cartridge <;> rfl

theorem busHom_unmarked : CpuM.BusHom unmarked where
  read a b := by
    rw [read_eq, read_eq, cartridge_unmarked, Option.isSome_map]
    split_ifs
    any_goals rfl
    · simp only [readPpu, unmarked, Ppu.read_unmarked]
    · exact readCartridge_unmarked (fun _ _ => rfl) a b
    · exact readCartridge_unmarked (fun _ _ => rfl) a b
  write a value b := by
    rw [write_eq, write_eq, cartridge_unmarked, Option.isSome_map]
    split_ifs
    any_goals rfl
    · simp only [writePpu, unmarked, Ppu.write_unmarked]
    · exact writePrgRam_unmarked a value b

end Board

namespace Console

/-- The same console with an unmarked cartridge. -/
def unmarked (c : Console) : Console := c.map Board.unmarked

theorem transfer_unmarked (page : UInt8) (c : Console) :
    transfer page c.unmarked = ((transfer page c).1, (transfer page c).2.unmarked) := by
  obtain ⟨cpu, board⟩ := c
  simp only [transfer, unmarked, System.map, readBlock_map Board.busHom_unmarked]
  rcases readBlock 256 (word 0 page) board with ⟨_ | bytes, d⟩
  · rfl
  · simp only [Board.unmarked, Ppu.foldl_writeOam_unmarked]

theorem serveTransfer_unmarked (c : Console) :
    serveTransfer c.unmarked = ((serveTransfer c).1, (serveTransfer c).2.unmarked) := by
  obtain ⟨cpu, ram, ppu, controllers, _ | page⟩ := c
  · rfl
  · exact transfer_unmarked page ⟨cpu, ram, ppu, controllers, none⟩

theorem catchUp_unmarked (n : Nat) (c : Console) :
    catchUp n c.unmarked = (catchUp n c).unmarked := by
  obtain ⟨cpu, ram, ppu, controllers, request⟩ := c
  simp only [catchUp, unmarked, System.map, Board.unmarked, Ppu.ticks_unmarked]
  rfl

theorem step_unmarked (c : Console) : c.unmarked.step = (c.step.1, c.step.2.unmarked) := by
  have hstep : CpuM.step c.unmarked = _ := Board.busHom_unmarked.step c
  unfold step
  rw [hstep]
  cases CpuM.step c with
  | error fault d => rfl
  | ok cycles d =>
    have htransfer : serveTransfer (d.map Board.unmarked) = _ := serveTransfer_unmarked d
    simp only [CpuM.mapResult, htransfer]
    rcases serveTransfer d with ⟨_ | stall, e⟩
    · rfl
    · simp only [catchUp_unmarked]

end Console

/-! ## Alike consoles -/

namespace CpuM

variable {β : Type} [AddressSpace β]

/-- The start of the last instruction is overwritten before a step uses it. -/
theorem step_origin (c : Cpu) (b : β) (origin : UInt16) :
    step ⟨{ c with origin }, b⟩ = step ⟨c, b⟩ := by
  rw [step_eq, step_eq]
  rfl

theorem raise_origin (c : Cpu) (origin : UInt16) (request : Interrupt) :
    ({ c with origin } : Cpu).raise request = { c.raise request with origin } := by
  obtain ⟨registers, pc, cycles, pending, start⟩ := c
  cases pending with
  | none => rfl
  | some current =>
    simp only [Cpu.raise]
    split <;> rfl

theorem enterHandler_of_reads {request : Interrupt} {s : System β}
    {lo hi : UInt8} (hlo : AddressSpace.read request.vector s.bus = (.ok lo, s.bus))
    (hhi : AddressSpace.read (request.vector + 1) s.bus = (.ok hi, s.bus)) :
    enterHandler request s =
      .ok () ⟨{ s.cpu with status := s.cpu.status.masking, pc := word lo hi }, s.bus⟩ :=
  enterHandler_eq_ok.2 ⟨lo, hi, ⟨{ s.cpu with status := s.cpu.status.masking }, s.bus⟩,
    ⟨{ s.cpu with status := s.cpu.status.masking }, s.bus⟩, readByte_eq_ok.2 ⟨hlo, rfl⟩,
    readByte_eq_ok.2 ⟨hhi, rfl⟩, rfl⟩

end CpuM

namespace Console

/-- Two consoles agree in everything but the marks of the cartridge and the start of the last
instruction. -/
structure Alike (c d : Console) : Prop where
  cpu : ∃ origin, c.cpu = { d.cpu with origin }
  bus : c.bus.unmarked = d.bus.unmarked

theorem alike_iff {c d : Console} :
    Alike c d ↔ ∃ origin, c.unmarked = ⟨{ d.cpu with origin }, d.bus.unmarked⟩ := by
  constructor
  · rintro ⟨⟨origin, hcpu⟩, hbus⟩
    exact ⟨origin, by rw [← hcpu, ← hbus]; rfl⟩
  · rintro ⟨origin, h⟩
    obtain ⟨hcpu, hbus⟩ := System.mk.inj h
    exact ⟨⟨origin, hcpu⟩, hbus⟩

/-- Steps answer alike consoles the same and leave them alike. -/
theorem Alike.step {c d : Console} (h : Alike c d) :
    c.step.1 = d.step.1 ∧ Alike c.step.2 d.step.2 := by
  obtain ⟨origin, hcd⟩ := alike_iff.1 h
  -- Without their marks the consoles differ in the start of the last instruction alone.
  have hstep : c.unmarked.step = d.unmarked.step := by
    rw [hcd]
    unfold Console.step
    rw [CpuM.step_origin]
    rfl
  rw [step_unmarked, step_unmarked] at hstep
  obtain ⟨hanswer, hafter⟩ := Prod.mk.inj hstep
  exact ⟨hanswer, alike_iff.2 ⟨d.step.2.cpu.origin, hafter⟩⟩

theorem catchUp_origin (n : Nat) (cpu : Cpu) (board : Board) (origin : UInt16) :
    catchUp n ⟨{ cpu with origin }, board⟩ =
      ⟨{ (catchUp n ⟨cpu, board⟩).cpu with origin }, (catchUp n ⟨cpu, board⟩).bus⟩ := by
  rw [catchUp_cpu]
  show (⟨(catchUp n ⟨{ cpu with origin }, board⟩).cpu, _⟩ : Console) = _
  rw [catchUp_cpu]
  split
  · rw [CpuM.raise_origin]
    rfl
  · rfl

theorem Alike.catchUp {c d : Console} (h : Alike c d) (n : Nat) :
    Alike (catchUp n c) (catchUp n d) := by
  obtain ⟨origin, hcd⟩ := alike_iff.1 h
  refine alike_iff.2 ⟨origin, ?_⟩
  have hd : Console.catchUp n ⟨d.cpu, d.bus.unmarked⟩ = (Console.catchUp n d).unmarked :=
    catchUp_unmarked n d
  rw [← catchUp_unmarked, hcd, catchUp_origin, hd]
  rfl

/-- Whatever the host does to alike consoles leaves them alike. -/
theorem Alike.perform {c d : Console} (h : Alike c d) (a : HostAction) :
    Alike (a.perform c) (a.perform d) := by
  obtain ⟨⟨origin, hcpu⟩, hbus⟩ := h
  -- An operation of the board that commutes with dropping the marks.
  have board {g : Board → Board} (hg : ∀ b, (g b).unmarked = g b.unmarked) :
      (g c.bus).unmarked = (g d.bus).unmarked := by
    rw [hg, hg, hbus]
  cases a with
  | insert image =>
    have hinsert (cartridge : Cartridge) :
        (c.bus.insert cartridge).unmarked = (d.bus.insert cartridge).unmarked := by
      show (c.bus.unmarked.insert cartridge).unmarked = (d.bus.unmarked.insert cartridge).unmarked
      rw [hbus]
    simp only [HostAction.perform, insertImage]
    cases Cartridge.parse image with
    | ok cartridge => exact ⟨⟨origin, hcpu⟩, hinsert cartridge⟩
    | error fault => exact ⟨⟨origin, hcpu⟩, hbus⟩
  | powerUp =>
    refine ⟨⟨origin, ?_⟩, board (g := fun b => ⟨.zeros _, b.ppu.powerUp, b.controllers, none⟩)
      fun _ => rfl⟩
    show c.cpu.powerUp = _
    rw [hcpu]
    rfl
  | reset =>
    refine ⟨⟨origin, ?_⟩,
      board (g := fun b => { b with ppu := b.ppu.reset, transferRequest := none }) fun _ => rfl⟩
    show c.cpu.raise .reset = _
    rw [hcpu, CpuM.raise_origin]
    rfl
  | step => exact (Alike.step ⟨⟨origin, hcpu⟩, hbus⟩).2
  | read a =>
    exact ⟨⟨origin, hcpu⟩, board fun b => (congrArg Prod.snd (Board.busHom_unmarked.read a b)).symm⟩
  | write a value =>
    exact ⟨⟨origin, hcpu⟩,
      board fun b => (congrArg Prod.snd (Board.busHom_unmarked.write a value b)).symm⟩
  | tick =>
    exact ⟨⟨origin, hcpu⟩, board (g := fun b => { b with ppu := b.ppu.tick }) fun b =>
      congrArg (fun ppu => ({ b with ppu } : Board)) b.ppu.tick_unmarked.symm⟩
  | press controllers =>
    exact ⟨⟨origin, hcpu⟩, board (g := fun b => { b with controllers }) fun _ => rfl⟩
  | assign cpu => exact ⟨⟨cpu.origin, rfl⟩, hbus⟩

theorem Alike.after {c d : Console} (h : Alike c d) (actions : List HostAction) :
    c.answers actions = d.answers actions ∧ Alike (c.after actions) (d.after actions) := by
  induction actions generalizing c d with
  | nil => exact ⟨rfl, h⟩
  | cons a actions ih =>
    obtain ⟨hanswers, hafter⟩ := ih (h.perform a)
    have hanswer : a.answer? c = a.answer? d := by
      cases a with
      | step => exact congrArg some h.step.1
      | _ => rfl
    rw [answers, answers, hanswer, hanswers]
    exact ⟨rfl, hafter⟩

/-! ## Power -/

/-- The processor once the reset has been served. -/
def restarted (cartridge : Cartridge) (origin : UInt16) : Cpu where
  a := 0
  x := 0
  y := 0
  sp := 0xFD
  status := Status.powerUp.masking
  pc := word (cartridge.readPrg 0xFFFC) (cartridge.readPrg 0xFFFD)
  cycles := 7
  pending := none
  origin := origin

/-- The first step after power serves the reset, and the program counter is fetched from the
cartridge. -/
theorem powerUp_step {c : Console} {cartridge : Cartridge} (h : c.bus.cartridge = some cartridge) :
    c.powerUp.step = (.ok 7, catchUp 7 ⟨restarted cartridge c.cpu.pc, c.powerUp.bus⟩) := by
  have hcartridge : c.powerUp.bus.cartridge = some cartridge := h
  have hlo := Board.read_prg_of_some hcartridge (a := 0xFFFC) (by decide)
  have hhi := Board.read_prg_of_some hcartridge (a := 0xFFFD) (by decide)
  have hserve : CpuM.serve .reset ⟨CpuM.begun c.powerUp.cpu, c.powerUp.bus⟩ = .ok () _ :=
    CpuM.bind_eq_ok.2 ⟨(), _, CpuM.update_eq_ok.2 rfl, CpuM.enterHandler_of_reads hlo hhi⟩
  have hstep : CpuM.step c.powerUp = .ok 7 ⟨restarted cartridge c.cpu.pc, c.powerUp.bus⟩ :=
    CpuM.step_eq_ok.2 ⟨_, CpuM.bind_eq_ok.2 ⟨(), _, hserve, rfl⟩, rfl⟩
  unfold step
  rw [hstep]
  rfl

/-- Power and one step make consoles alike that agree in what power does not clear. -/
theorem coldStart_alike {c d : Console} {p q : Cartridge} (hc : c.bus.cartridge = some p)
    (hd : d.bus.cartridge = some q) (hcartridge : p.unmarked = q.unmarked)
    (hvram : c.bus.ppu.video.vram = d.bus.ppu.video.vram)
    (hpalette : c.bus.ppu.video.palette = d.bus.ppu.video.palette)
    (hcontrollers : c.bus.controllers = d.bus.controllers) :
    c.powerUp.step.1 = d.powerUp.step.1 ∧ Alike c.powerUp.step.2 d.powerUp.step.2 := by
  have hprg (a : UInt16) : p.readPrg a = q.readPrg a := by
    show p.unmarked.readPrg a = q.unmarked.readPrg a
    rw [hcartridge]
  have hvideo : c.bus.ppu.video.unmarked = d.bus.ppu.video.unmarked := by
    have hslots : c.bus.ppu.video.cartridge.map Cartridge.unmarked =
        d.bus.ppu.video.cartridge.map Cartridge.unmarked := by
      show c.bus.cartridge.map _ = d.bus.cartridge.map _
      rw [hc, hd, Option.map_some, Option.map_some, hcartridge]
    rw [VideoSpace.unmarked, VideoSpace.unmarked, hslots, hvram, hpalette]
  have hbus : c.powerUp.bus.unmarked = d.powerUp.bus.unmarked := by
    show (⟨.zeros _, .fresh c.bus.ppu.video.unmarked, c.bus.controllers, none⟩ : Board) =
      ⟨.zeros _, .fresh d.bus.ppu.video.unmarked, d.bus.controllers, none⟩
    rw [hvideo, hcontrollers]
  have hcpu : restarted p c.cpu.pc = { restarted q d.cpu.pc with origin := c.cpu.pc } := by
    rw [restarted, hprg, hprg]
    rfl
  have halike : Alike ⟨restarted p c.cpu.pc, c.powerUp.bus⟩ ⟨restarted q d.cpu.pc, d.powerUp.bus⟩ :=
    ⟨⟨c.cpu.pc, hcpu⟩, hbus⟩
  rw [powerUp_step hc, powerUp_step hd]
  exact ⟨rfl, halike.catchUp 7⟩

/-- What happened before power and one step has no part in what comes after them. -/
theorem answers_coldStart {c d : Console} {p q : Cartridge} (hc : c.bus.cartridge = some p)
    (hd : d.bus.cartridge = some q) (hcartridge : p.unmarked = q.unmarked)
    (hvram : c.bus.ppu.video.vram = d.bus.ppu.video.vram)
    (hpalette : c.bus.ppu.video.palette = d.bus.ppu.video.palette)
    (hcontrollers : c.bus.controllers = d.bus.controllers) (actions : List HostAction) :
    c.answers (.powerUp :: .step :: actions) = d.answers (.powerUp :: .step :: actions) ∧
      Alike (c.after (.powerUp :: .step :: actions)) (d.after (.powerUp :: .step :: actions)) := by
  obtain ⟨hanswer, halike⟩ := coldStart_alike hc hd hcartridge hvram hpalette hcontrollers
  obtain ⟨hanswers, hafter⟩ := halike.after actions
  refine ⟨?_, hafter⟩
  show c.powerUp.step.1 :: c.powerUp.step.2.answers actions = _
  rw [hanswer, hanswers]
  rfl

/-- After power the steps of two consoles answer the same and leave the same, whatever was before,
if the consoles agree in the memories of the cartridge and its mirroring, in the nametables, the
palette and the controllers. -/
theorem coldStart_forgets {c d : Console} {p q : Cartridge} (hc : c.bus.cartridge = some p)
    (hd : d.bus.cartridge = some q) (hprg : p.prg = q.prg) (hchr : p.chr = q.chr)
    (hram : p.prgRam = q.prgRam) (hmirroring : p.mirroring = q.mirroring)
    (hvram : c.bus.ppu.video.vram = d.bus.ppu.video.vram)
    (hpalette : c.bus.ppu.video.palette = d.bus.ppu.video.palette)
    (hcontrollers : c.bus.controllers = d.bus.controllers) {n : Nat} (hn : 1 ≤ n) :
    let run := HostAction.powerUp :: List.replicate n .step
    c.answers run = d.answers run ∧ Alike (c.after run) (d.after run) := by
  have hcartridge : p.unmarked = q.unmarked := by
    rw [Cartridge.unmarked, Cartridge.unmarked, hprg, hchr, hram, hmirroring]
  obtain ⟨n, rfl⟩ : ∃ m, n = m + 1 := ⟨n - 1, by omega⟩
  exact answers_coldStart hc hd hcartridge hvram hpalette hcontrollers _

/-- One of the consoles has never been used. The other has registers, work RAM and a beam of its
own, and its cartridge has a battery. -/
theorem coldStart_forgets_used_console :
    let p : Cartridge := ⟨⟨#[]⟩, .ram (.zeros _), .zeros _, .horizontal, false, 0⟩
    let c := initial.insert p
    let d := (initial.after [.assign { Cpu.initial with pc := 0x1234, a := 7 }, .write 0x10 5,
      .tick]).insert { p with battery := true }
    let run := [HostAction.powerUp, .step, .step, .step]
    c.cpu ≠ d.cpu ∧ c.beam ≠ d.beam ∧ c.answers run = d.answers run ∧
      Alike (c.after run) (d.after run) := by
  intro p c d run
  have hforgets := coldStart_forgets (c := c) (d := d) (p := p) (q := { p with battery := true })
    rfl rfl rfl rfl rfl rfl rfl rfl rfl (n := 3) (by decide)
  exact ⟨by decide, by decide, hforgets⟩

end Console

end Famicom
