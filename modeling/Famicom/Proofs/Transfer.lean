import Famicom.Proofs.Cpu.Fetch
import Famicom.Proofs.Ppu.Run
import Famicom.Proofs.ReadOnly
import Mathlib.Data.List.Induction

/-!
# A sprite transfer from end to end

A transfer has two phases. First the page is read, byte by byte in ascending order. The reads go
through the bus like any others, so they may shift a controller, move the address of the data
register, or be refused; what they cannot do is change a memory (`Board.SameMemory`), and if
the page is one of registers, it is the old sprite memory that is read there. Then the bytes are
stored from the sprite address on and once around, which takes the address back to where it was
(`Ppu.oam_foldl_writeOam`, `Ppu.foldl_writeOam_eq`).

A read that is refused ends the transfer in its first phase, so nothing has been stored then and the
processor has not been halted. `transfer_end_to_end` puts this together for the step in which
a transfer is requested.
-/

namespace Famicom

/-! ## What reads and dots leave alone -/

/-- The memories are as before, and the next sprite byte goes where it would have gone. -/
structure Board.SameMemory (b d : Board) : Prop where
  ram : d.ram = b.ram
  video : d.ppu.video = b.ppu.video
  oam : d.ppu.oam = b.ppu.oam
  oamAddress : d.ppu.regs.oamAddress = b.ppu.regs.oamAddress

theorem Ppu.oam_readData (p : Ppu) : p.readData.2.oam = p.oam := by
  unfold readData
  dsimp only
  split
  · split
    · rfl
    · split <;> rfl
  · split <;> rfl

theorem Ppu.oam_read (p : Ppu) (register : PpuRegister) : (p.read register).2.oam = p.oam := by
  cases register with
  | data =>
    obtain ⟨value, hread⟩ := p.exists_read_data
    rw [hread]
    exact p.oam_readData
  | _ => rfl

theorem Ppu.oamAddress_read (p : Ppu) (register : PpuRegister) :
    (p.read register).2.regs.oamAddress = p.regs.oamAddress := by
  by_cases hstatus : register = .status
  · subst hstatus
    rfl
  · rcases p.regs_read hstatus with hregs | hregs <;> rw [hregs]
    rfl

namespace Board.SameMemory

variable {b c d : Board}

theorem refl (b : Board) : SameMemory b b := ⟨rfl, rfl, rfl, rfl⟩

theorem trans (h : SameMemory b c) (h' : SameMemory c d) : SameMemory b d :=
  ⟨h'.ram.trans h.ram, h'.video.trans h.video, h'.oam.trans h.oam,
    h'.oamAddress.trans h.oamAddress⟩

/-- A read changes no memory, whether it is answered or refused. -/
theorem read (a : UInt16) (b : Board) : SameMemory b (AddressSpace.read a b).2 := by
  rw [read_eq]
  split_ifs
  any_goals exact refl b
  · exact ⟨rfl, b.ppu.video_read _, b.ppu.oam_read _, b.ppu.oamAddress_read _⟩
  · exact ⟨rfl, rfl, rfl, rfl⟩

theorem reads {addresses : List UInt16} {bytes : List UInt8} (h : Reads addresses bytes b d) :
    SameMemory b d :=
  h.keeps (fun a c hc => hc.trans (read a c)) (refl b)

/-- A request is forgotten before it is served. -/
theorem readsUnasked {addresses : List UInt16} {bytes : List UInt8}
    (h : Reads addresses bytes { b with transferRequest := none } d) : SameMemory b d := by
  have hrequest : SameMemory b { b with transferRequest := none } := ⟨rfl, rfl, rfl, rfl⟩
  exact hrequest.trans (reads h)

theorem tick (b : Board) : SameMemory b { b with ppu := b.ppu.tick } := by
  rw [Ppu.tick_eq]
  exact ⟨rfl, rfl, rfl, rfl⟩

theorem ticks (n : Nat) (b : Board) : SameMemory b { b with ppu := b.ppu.ticks n } := by
  induction n generalizing b with
  | zero => exact refl b
  | succ n ih => exact (tick b).trans (ih _)

theorem catchUp (n : Nat) (c : Console) : SameMemory c.bus (Console.catchUp n c).bus := by
  have hticks := ticks (n * Console.dotsPerCycle) c.bus
  exact ⟨hticks.ram, hticks.video, hticks.oam, hticks.oamAddress⟩

end Board.SameMemory

/-! ## Reading a page -/

/-- The first `count` addresses of a page, in ascending order. -/
def pageAddresses (page : UInt8) (count : Nat) : List UInt16 :=
  (List.range count).map fun i => .ofNat (256 * page.toNat + i)

theorem length_pageAddresses (page : UInt8) (count : Nat) :
    (pageAddresses page count).length = count := by
  simp [pageAddresses]

theorem getElem?_pageAddresses (page : UInt8) {i count : Nat} (h : i < count) :
    (pageAddresses page count)[i]? = some (.ofNat (256 * page.toNat + i)) := by
  simp [pageAddresses, h]

theorem word_zero_eq_ofNat (page : UInt8) : word 0 page = .ofNat (256 * page.toNat) := by
  rw [word_eq_ofNat, show (0 : UInt8).toNat = 0 from rfl, Nat.zero_add]

theorem addressesFrom_page (page : UInt8) (count : Nat) :
    addressesFrom (word 0 page) count = pageAddresses page count := by
  rw [addressesFrom_eq_map, pageAddresses, word_zero_eq_ofNat]
  exact List.map_congr_left fun i _ => (UInt16.ofNat_add _ _).symm

/-- A page of work RAM is read to its end, and nothing else happens. -/
theorem reads_ram_page {page : UInt8} (h : page < 0x20) (b : Board) :
    Reads (pageAddresses page 256)
      ((pageAddresses page 256).map fun a => b.ram.read a.toNat) b b := by
  refine .of_forall fun a ha => ?_
  obtain ⟨i, hi, rfl⟩ := List.mem_map.1 ha
  rw [List.mem_range] at hi
  have hpage : page.toNat < 32 := h
  have hram : UInt16.ofNat (256 * page.toNat + i) ≤ 0x1FFF := by
    rw [UInt16.le_iff_toNat_le, UInt16.toNat_ofNat', show (0x1FFF : UInt16).toNat = 8191 from rfl]
    omega
  rw [Board.read_eq, if_pos hram, Board.readRam]

/-! ## Storing the bytes -/

namespace Ppu

/-- Storing bytes changes the sprite memory and moves the sprite address. -/
theorem foldl_writeOam_eq (bytes : List UInt8) (p : Ppu) :
    ∃ oam, bytes.foldl writeOam p =
      { p with oam, regs := { p.regs with
          oamAddress := p.regs.oamAddress + .ofNat bytes.length } } := by
  induction bytes generalizing p with
  | nil => exact ⟨p.oam, by simp⟩
  | cons value bytes ih =>
    obtain ⟨oam, hrest⟩ := ih (p.writeOam value)
    refine ⟨oam, hrest.trans ?_⟩
    have haddress : p.regs.oamAddress + 1 + .ofNat bytes.length =
        p.regs.oamAddress + .ofNat (value :: bytes).length := by
      rw [List.length_cons, UInt8.ofNat_add, UInt8.add_comm (.ofNat _), ← UInt8.add_assoc]
      rfl
    simp only [writeOam, haddress]

/-- As many bytes as there are cells go to cells of their own. -/
theorem oam_foldl_writeOam (p : Ppu) {bytes : List UInt8} (h : bytes.length ≤ 256) {i : Nat}
    (hi : i < bytes.length) :
    (bytes.foldl writeOam p).oam.read ((p.regs.oamAddress.toNat + i) % 256) = bytes[i] := by
  induction bytes using List.reverseRecOn with
  | nil => cases hi
  | append_singleton bytes value ih =>
    rw [List.length_append, List.length_singleton] at h hi
    obtain ⟨oam, hstored⟩ := foldl_writeOam_eq bytes p
    have hlast : (bytes.foldl writeOam p).regs.oamAddress.toNat =
        (p.regs.oamAddress.toNat + bytes.length) % 256 := by
      rw [hstored, UInt8.toNat_add, UInt8.toNat_ofNat']
      omega
    rw [List.foldl_append, List.foldl_cons, List.foldl_nil, writeOam, Memory.read_write, hlast]
    by_cases hend : i = bytes.length
    · subst hend
      simp
    · have hlt : i < bytes.length := by omega
      -- the last byte is not yet once around
      rw [if_neg (by omega), ih (by omega) hlt, List.getElem_append_left hlt]

end Ppu

/-- The memories are as before, but for the sprite memory, which holds the bytes from its address
on. -/
structure Board.Copied (bytes : List UInt8) (b d : Board) : Prop where
  ram : d.ram = b.ram
  video : d.ppu.video = b.ppu.video
  oamAddress : d.ppu.regs.oamAddress = b.ppu.regs.oamAddress
  oam : ∀ i < 256,
    bytes[i]? = some (d.ppu.oam.read ((b.ppu.regs.oamAddress.toNat + i) % 256))

namespace Board

variable {bytes : List UInt8} {b c d : Board}

theorem Copied.trans (h : Copied bytes b c) (h' : SameMemory c d) : Copied bytes b d where
  ram := h'.ram.trans h.ram
  video := h'.video.trans h.video
  oamAddress := h'.oamAddress.trans h.oamAddress
  oam := by
    rw [h'.oam]
    exact h.oam

/-- Reading has changed nothing that storing the bytes starts from. -/
theorem SameMemory.copied (h : SameMemory b d) (hlength : bytes.length = 256) :
    Copied bytes b { d with ppu := bytes.foldl Ppu.writeOam d.ppu } := by
  obtain ⟨oam, hstored⟩ := Ppu.foldl_writeOam_eq bytes d.ppu
  refine ⟨h.ram, ?_, ?_, fun i hi => ?_⟩
  · rw [hstored]
    exact h.video
  · rw [hstored, hlength]
    exact (UInt8.add_zero _).trans h.oamAddress
  · have hcell := d.ppu.oam_foldl_writeOam hlength.le (hlength ▸ hi)
    rw [← h.oamAddress, hcell]
    exact List.getElem?_eq_getElem _

end Board

/-! ## The step with a transfer -/

namespace Console

variable {c e : Console} {n : Nat} {page : UInt8} {bytes : List UInt8} {r : Board}

theorem serveTransfer_of_reads (hrequest : e.bus.transferRequest = some page)
    (h : Reads (pageAddresses page 256) bytes { e.bus with transferRequest := none } r) :
    serveTransfer e = (.ok (transferStall e.cpu.cycles),
      ⟨e.cpu.stall (transferStall e.cpu.cycles),
        { r with ppu := bytes.foldl Ppu.writeOam r.ppu }⟩) := by
  rw [← addressesFrom_page] at h
  simp only [serveTransfer, hrequest, transfer, readBlock_eq_ok.2 h]

theorem serveTransfer_of_refused (hrequest : e.bus.transferRequest = some page) {k : Nat}
    (hk : k < 256) (h : Reads (pageAddresses page k) bytes { e.bus with transferRequest := none } r)
    {fault : BusFault} {r' : Board}
    (hrefused : AddressSpace.read (.ofNat (256 * page.toNat + k)) r = (.error fault, r')) :
    serveTransfer e = (.error (.transfer page fault), ⟨e.cpu, r'⟩) := by
  rw [← addressesFrom_page] at h
  rw [UInt16.ofNat_add, ← word_zero_eq_ofNat] at hrefused
  simp only [serveTransfer, hrequest, transfer,
    readBlock_eq_error.2 ⟨k, hk, bytes, r, h, hrefused⟩]

/-- A page is read to its end or up to an address that is refused. -/
theorem page_read_or_refused (page : UInt8) (b : Board) :
    (∃ bytes r, Reads (pageAddresses page 256) bytes b r) ∨
      ∃ k < 256, ∃ bytes r fault r', Reads (pageAddresses page k) bytes b r ∧
        AddressSpace.read (.ofNat (256 * page.toNat + k)) r = (.error fault, r') := by
  rcases hblock : readBlock 256 (word 0 page) b with ⟨fault | bytes, d⟩
  · obtain ⟨k, hk, bytes, r, hbytes, hrefused⟩ := readBlock_eq_error.1 hblock
    rw [addressesFrom_page] at hbytes
    rw [word_zero_eq_ofNat, ← UInt16.ofNat_add] at hrefused
    exact Or.inr ⟨k, hk, bytes, r, fault, d, hbytes, hrefused⟩
  · have hbytes := readBlock_eq_ok.1 hblock
    rw [addressesFrom_page] at hbytes
    exact Or.inl ⟨bytes, d, hbytes⟩

theorem step_of_reads (hstep : CpuM.step c = .ok n e)
    (hrequest : e.bus.transferRequest = some page)
    (h : Reads (pageAddresses page 256) bytes { e.bus with transferRequest := none } r) :
    let stall := transferStall e.cpu.cycles
    let f : Console := ⟨e.cpu.stall stall, { r with ppu := bytes.foldl Ppu.writeOam r.ppu }⟩
    let d := catchUp (n + stall) f
    c.step = (.ok (n + stall), d) ∧ d.cpu.cycles = e.cpu.cycles + stall ∧
      e.bus.Copied bytes d.bus := by
  intro stall f d
  have hserve := serveTransfer_of_reads hrequest h
  have hlength : bytes.length = 256 := by rw [h.length_eq, length_pageAddresses]
  have hcopied := (Board.SameMemory.readsUnasked h).copied hlength
  exact ⟨by simp only [step, hstep, hserve, stall, f, d], catchUp_cycles _ f,
    hcopied.trans (.catchUp _ f)⟩

theorem step_of_refused (hstep : CpuM.step c = .ok n e)
    (hrequest : e.bus.transferRequest = some page) {k : Nat} (hk : k < 256)
    (h : Reads (pageAddresses page k) bytes { e.bus with transferRequest := none } r)
    {fault : BusFault} {r' : Board}
    (hrefused : AddressSpace.read (.ofNat (256 * page.toNat + k)) r = (.error fault, r')) :
    c.step = (.error (.transfer page fault), ⟨e.cpu, r'⟩) ∧ e.bus.SameMemory r' := by
  have hserve := serveTransfer_of_refused hrequest hk h hrefused
  have hread := Board.SameMemory.read (.ofNat (256 * page.toNat + k)) r
  rw [hrefused] at hread
  exact ⟨by simp only [step, hstep, hserve], (Board.SameMemory.readsUnasked h).trans hread⟩

/-- The step in which a transfer is requested, from the end of the instruction that requests it.
However far the page is read, no memory has changed. If it is read to its end, the bytes are stored,
the processor is charged and the beam catches up; if not, the step stops at the board that the reads
lead to, with nothing stored or charged. One of the two is the case. -/
theorem transfer_end_to_end (hstep : CpuM.step c = .ok n e)
    (hrequest : e.bus.transferRequest = some page) :
    let b := { e.bus with transferRequest := none }
    let stall := 513 + e.cpu.cycles % 2
    (∀ k bytes r, Reads (pageAddresses page k) bytes b r → e.bus.SameMemory r) ∧
    (∀ bytes r, Reads (pageAddresses page 256) bytes b r →
      let f : Console := ⟨e.cpu.stall stall, { r with ppu := bytes.foldl Ppu.writeOam r.ppu }⟩
      let d := catchUp (n + stall) f
      c.step = (.ok (n + stall), d) ∧ d.cpu.cycles = e.cpu.cycles + stall ∧
        e.bus.Copied bytes d.bus) ∧
    (∀ k < 256, ∀ bytes r fault r', Reads (pageAddresses page k) bytes b r →
      AddressSpace.read (.ofNat (256 * page.toNat + k)) r = (.error fault, r') →
      c.step = (.error (.transfer page fault), ⟨e.cpu, r'⟩) ∧ e.bus.SameMemory r') ∧
    ((∃ bytes r, Reads (pageAddresses page 256) bytes b r) ∨
      ∃ k < 256, ∃ bytes r fault r', Reads (pageAddresses page k) bytes b r ∧
        AddressSpace.read (.ofNat (256 * page.toNat + k)) r = (.error fault, r')) :=
  ⟨fun _ _ _ h => .readsUnasked h, fun _ _ h => step_of_reads hstep hrequest h,
    fun _ hk _ _ _ _ h hrefused => step_of_refused hstep hrequest hk h hrefused,
    page_read_or_refused page _⟩

/-- A page of work RAM goes to sprite memory from the last byte on. -/
theorem transfer_end_to_end_around_sprite_memory :
    let c := initial.after [.write 0 0xA9, .write 1 0x02, .write 2 0x8D, .write 3 0x14,
      .write 4 0x40, .write 0x0200 0x55, .write 0x0201 0x77, .write 0x2003 0xFF, .step]
    ∃ d, c.step = (.ok 517, d) ∧ d.bus.ppu.oam.read 0xFF = 0x55 ∧ d.bus.ppu.oam.read 0 = 0x77 ∧
      d.bus.ppu.regs.oamAddress = 0xFF := by
  intro c
  have hstep : CpuM.step c = .ok 4 (CpuM.left CpuM.step c) := by rfl
  have hrequest : (CpuM.left CpuM.step c).bus.transferRequest = some 2 := by rfl
  have hclock : (CpuM.left CpuM.step c).cpu.cycles = 6 := by rfl
  have haddress : (CpuM.left CpuM.step c).bus.ppu.regs.oamAddress = 0xFF := by rfl
  obtain ⟨-, hread, -⟩ := transfer_end_to_end hstep hrequest
  obtain ⟨hd, -, hcopied⟩ := hread _ _ (reads_ram_page (by decide) _)
  generalize catchUp _ _ = d at hd hcopied
  have hfirst := hcopied.oam 0 (by decide)
  have hsecond := hcopied.oam 1 (by decide)
  rw [List.getElem?_map, getElem?_pageAddresses _ (by decide), haddress] at hfirst hsecond
  have hram : (CpuM.left CpuM.step c).bus.ram.read 0x200 = 0x55 ∧
      (CpuM.left CpuM.step c).bus.ram.read 0x201 = 0x77 := by
    decide +kernel
  rw [hclock] at hd
  exact ⟨d, hd, (Option.some_inj.1 hfirst).symm.trans hram.1,
    (Option.some_inj.1 hsecond).symm.trans hram.2, hcopied.oamAddress.trans haddress⟩

end Console

end Famicom
