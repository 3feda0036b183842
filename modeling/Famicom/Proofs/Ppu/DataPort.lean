import Famicom.Proofs.Cpu.FaultFree
import Famicom.Proofs.Ppu.Aliases
import Famicom.Proofs.Ppu.Run
import Famicom.Proofs.Ppu.Words
import Mathlib.Data.List.Induction
import Mathlib.Logic.Function.Iterate

/-!
# The data register as a stream

Each access to the data register moves the current address on by the stride, so accesses in a row
meet the addresses `Ppu.streamAddress`, which wrap in fifteen bits and are cut to fourteen. Writes
in a row are the writes to these addresses (`after_writes`). A read delivers what the read before it
has put into the buffer, unless its address is in the palette; what it puts there itself is the byte
at its address, or beneath it in the palette (`after_reads`, by induction on the number of reads).

So bytes that were stored come back one read late. The read that delivers a byte is made at the
address behind that of the byte. If that is in the palette, the read delivers a palette entry and
puts the byte beneath it into the buffer, so the byte that was stored is lost to the reader
(`stream_ends_at_palette`).
-/

namespace Famicom

/-! ## Addresses -/

namespace VramAddress

theorem toNat_advance (v : VramAddress) (step : Nat) :
    (v.advance step).toNat = (v.toNat + step) % 0x8000 := by
  rw [← toNat_toWord, advance, toWord_ofWord, UInt16.toNat_ofNat']
  omega

end VramAddress

namespace PpuRegisters

theorem stride_iterate_advance (r : PpuRegisters) (n : Nat) :
    (advance^[n] r).stride = r.stride := by
  induction n with
  | zero => rfl
  | succ n ih =>
    rw [Function.iterate_succ_apply']
    exact ih

/-- The current address after a number of accesses. Only an access brings it into fifteen bits. -/
theorem toNat_iterate_advance (r : PpuRegisters) (n : Nat) :
    (advance^[n] r).current.toNat % 0x8000 = (r.current.toNat + n * r.stride) % 0x8000 ∧
      (n ≠ 0 → (advance^[n] r).current.toNat < 0x8000) := by
  induction n with
  | zero => simp
  | succ n ih =>
    have hstep : (advance^[n + 1] r).current.toNat =
        ((advance^[n] r).current.toNat + r.stride) % 0x8000 := by
      rw [Function.iterate_succ_apply', ← r.stride_iterate_advance n]
      exact VramAddress.toNat_advance _ _
    rw [hstep, Nat.succ_mul]
    omega

end PpuRegisters

namespace Ppu

/-- The current address after `i` accesses to the data register, in fifteen bits. -/
def streamPosition (p : Ppu) (i : Nat) : Nat :=
  (p.regs.current.toNat + i * p.regs.stride) % 0x8000

/-- The address of the access to the data register that comes after `i` others. -/
def streamAddress (p : Ppu) (i : Nat) : UInt16 := .ofNat (p.streamPosition i % 0x4000)

theorem busAddress_iterate_advance (p : Ppu) (n : Nat) :
    (PpuRegisters.advance^[n] p.regs).current.busAddress = p.streamAddress n := by
  have hposition := (p.regs.toNat_iterate_advance n).1
  rw [← UInt16.toNat_inj, VramAddress.toNat_busAddress, streamAddress, streamPosition,
    UInt16.toNat_ofNat']
  omega

end Ppu

/-! ## One access -/

namespace VideoSpace

/-- With a cartridge in the slot there is memory at every address of the stream. -/
theorem mapped_of_slot {s : VideoSpace} (hslot : s.cartridge.isSome) {a : UInt16}
    (ha : a ≤ 0x3FFF) : s.Mapped a :=
  ⟨ha, fun hnone => by simp [hnone] at hslot⟩

theorem byteAt_named {s : VideoSpace} {a : UInt16} {cell : VideoCell}
    (h : s.named? a = some cell) : byteAt s a = s.contents cell := by
  rw [byteAt, read_named h]

theorem read_mapped {s : VideoSpace} {a : UInt16} (h : s.Mapped a) :
    AddressSpace.read a s = (.ok (byteAt s a), s) := by
  obtain ⟨cell, hcell⟩ := h.named?
  rw [byteAt_named hcell, read_named hcell]

end VideoSpace

namespace Ppu

/-- The address whose byte a read of the data register at `a` puts into the buffer. In the palette
it is the one of the nametable beneath. -/
def refillAddress (a : UInt16) : UInt16 := if 0x3F00 ≤ a then a - 0x1000 else a

/-- The byte that a read of the data register delivers. -/
def delivered (p : Ppu) : UInt8 :=
  let a := p.regs.current.busAddress
  if 0x3F00 ≤ a then byteAt p.video a else p.buffer

theorem refillAddress_le {a : UInt16} (h : a ≤ 0x3FFF) : refillAddress a ≤ 0x3FFF := by
  unfold refillAddress
  split
  · have hge : 0x1000 ≤ a := UInt16.le_trans (by decide) ‹0x3F00 ≤ a›
    rw [UInt16.le_iff_toNat_le, UInt16.toNat_sub_of_le _ _ hge]
    exact Nat.le_trans (Nat.sub_le _ _) (UInt16.le_iff_toNat_le.1 h)
  · exact h

theorem read_data {p : Ppu} (hslot : p.video.cartridge.isSome) :
    p.read .data = (.ok p.delivered, { p with
      regs := p.regs.advance
      buffer := byteAt p.video (refillAddress p.regs.current.busAddress)
      latch := p.delivered }) := by
  have ha := p.regs.current.busAddress_le
  have hvalue := VideoSpace.read_mapped (VideoSpace.mapped_of_slot hslot ha)
  have hrefill := VideoSpace.read_mapped (VideoSpace.mapped_of_slot hslot (refillAddress_le ha))
  by_cases hpalette : 0x3F00 ≤ p.regs.current.busAddress
  · rw [refillAddress, if_pos hpalette] at hrefill
    simp only [read, readData, delivered, refillAddress, if_pos hpalette, hrefill, hvalue, drive]
  · simp only [read, readData, delivered, refillAddress, if_neg hpalette, hvalue, drive]

theorem write_data {p : Ppu} (hslot : p.video.cartridge.isSome) (value : UInt8) :
    p.write .data value = (.ok (), { p with
      regs := p.regs.advance
      video := (AddressSpace.write p.regs.current.busAddress value p.video).2
      latch := value }) := by
  have ha := p.regs.current.busAddress_le
  obtain ⟨cell, hcell⟩ := (VideoSpace.mapped_of_slot hslot ha).named?
  obtain ⟨hok, -⟩ := VideoSpace.contents_write hcell value
  simp only [write, writeData]
  rw [show AddressSpace.write p.regs.current.busAddress value p.video =
    (.ok (), (AddressSpace.write p.regs.current.busAddress value p.video).2) from Prod.ext hok rfl]

/-! ## Accesses in a row -/

/-- What is in the buffer after `i` reads of the data register. -/
def streamBuffer (p : Ppu) : Nat → UInt8
  | 0 => p.buffer
  | i + 1 => byteAt p.video (refillAddress (p.streamAddress i))

/-- `n` reads of the data register. -/
def reads (n : Nat) : List PpuAction := .replicate n (.read .data)

/-- Writes of these values to the data register. -/
def writes (values : List UInt8) : List PpuAction := values.map (.write .data ·)

theorem after_reads {p : Ppu} (hslot : p.video.cartridge.isSome) (n : Nat) :
    (p.after (reads n)).regs = PpuRegisters.advance^[n] p.regs ∧
      (p.after (reads n)).video = p.video ∧ (p.after (reads n)).buffer = p.streamBuffer n := by
  induction n with
  | zero => exact ⟨rfl, rfl, rfl⟩
  | succ n ih =>
    obtain ⟨hregs, hvideo, hbuffer⟩ := ih
    have hstep : p.after (reads (n + 1)) = ((p.after (reads n)).read .data).2 := by
      rw [reads, List.replicate_succ', after_append]
      rfl
    rw [hstep, read_data (hvideo ▸ hslot), hregs, hvideo, p.busAddress_iterate_advance,
      Function.iterate_succ_apply']
    exact ⟨rfl, rfl, rfl⟩

end Ppu

/-! ## Stores -/

namespace VideoSpace

/-- The memories after writes to these addresses, in order. -/
def store (s : VideoSpace) (stores : List (UInt16 × UInt8)) : VideoSpace :=
  stores.foldl (fun s w => (AddressSpace.write w.1 w.2 s).2) s

theorem store_append (s : VideoSpace) (stores more : List (UInt16 × UInt8)) :
    s.store (stores ++ more) = (s.store stores).store more :=
  List.foldl_append

theorem plugged_store (s : VideoSpace) (stores : List (UInt16 × UInt8)) :
    (s.store stores).plugged = s.plugged := by
  induction stores generalizing s with
  | nil => rfl
  | cons w stores ih => exact (ih _).trans (plugged_write w.1 w.2 s)

theorem isSome_cartridge_store (s : VideoSpace) (stores : List (UInt16 × UInt8)) :
    (s.store stores).cartridge.isSome = s.cartridge.isSome := by
  rw [← isSome_plugged, plugged_store, isSome_plugged]

/-- What can be written is decided by the cartridge as it was made. -/
theorem writable_congr {s t : VideoSpace} (h : t.plugged = s.plugged) (cell : VideoCell) :
    t.Writable cell ↔ s.Writable cell := by
  have hcleared (u : VideoSpace) :
      u.patternsAreRam = (u.plugged.map fun c => c.chr.isRam).getD false := by
    unfold patternsAreRam plugged
    cases u.cartridge with
    | none => rfl
    | some c => obtain ⟨_, _ | _⟩ := c <;> rfl
  cases cell with
  | pattern i =>
    show t.patternsAreRam = true ↔ s.patternsAreRam = true
    rw [hcleared, hcleared, h]
  | _ => exact Iff.rfl

variable {s : VideoSpace} {cell : VideoCell}

/-- A cell that no write names keeps its byte. -/
theorem contents_store {stores : List (UInt16 × UInt8)}
    (h : ∀ w ∈ stores, ∃ other, s.named? w.1 = some other ∧ other ≠ cell) :
    (s.store stores).contents cell = s.contents cell := by
  induction stores generalizing s with
  | nil => rfl
  | cons w stores ih =>
    obtain ⟨other, hother, hne⟩ := h w List.mem_cons_self
    have hplugged := plugged_write w.1 w.2 s
    have hrest := ih (s := (AddressSpace.write w.1 w.2 s).2) fun x hx => by
      rw [named?_congr hplugged]
      exact h x (List.mem_cons_of_mem w hx)
    refine hrest.trans (((contents_write hother w.2).2 cell).trans (if_neg ?_))
    exact fun hsame => hne hsame.2.symm

/-- A cell holds what was written to it last. -/
theorem contents_store_last {a : UInt16} (hcell : s.named? a = some cell) (hwrite : s.Writable cell)
    (stores : List (UInt16 × UInt8)) (value : UInt8) {more : List (UInt16 × UInt8)}
    (h : ∀ w ∈ more, ∃ other, s.named? w.1 = some other ∧ other ≠ cell) :
    (s.store (stores ++ (a, value) :: more)).contents cell = cell.kept value := by
  have hplugged := s.plugged_store stores
  have hcell' : (s.store stores).named? a = some cell := (named?_congr hplugged a).trans hcell
  have hafter : (AddressSpace.write a value (s.store stores)).2.plugged = s.plugged :=
    (plugged_write a value _).trans hplugged
  rw [store_append]
  show ((AddressSpace.write a value (s.store stores)).2.store more).contents cell = _
  rw [contents_store fun w hw => by rw [named?_congr hafter]; exact h w hw,
    (contents_write hcell' value).2, if_pos ⟨(writable_congr hplugged cell).2 hwrite, rfl⟩]

end VideoSpace

namespace Ppu

/-- The writes that writing these values to the data register comes to. -/
def streamStores (p : Ppu) (values : List UInt8) : List (UInt16 × UInt8) :=
  values.zipIdx.map fun (value, i) => (p.streamAddress i, value)

theorem length_streamStores (p : Ppu) (values : List UInt8) :
    (p.streamStores values).length = values.length := by
  simp [streamStores]

theorem getElem_streamStores (p : Ppu) {values : List UInt8} {i : Nat} (hi : i < values.length)
    (hstore : i < (p.streamStores values).length) :
    (p.streamStores values)[i] = (p.streamAddress i, values[i]) := by
  simp [streamStores]

theorem streamStores_append_singleton (p : Ppu) (values : List UInt8) (value : UInt8) :
    p.streamStores (values ++ [value]) =
      p.streamStores values ++ [(p.streamAddress values.length, value)] := by
  simp [streamStores, List.zipIdx_append]

theorem after_writes {p : Ppu} (hslot : p.video.cartridge.isSome) (values : List UInt8) :
    (p.after (writes values)).regs = PpuRegisters.advance^[values.length] p.regs ∧
      (p.after (writes values)).video = p.video.store (p.streamStores values) ∧
      (p.after (writes values)).buffer = p.buffer := by
  induction values using List.reverseRecOn with
  | nil => exact ⟨rfl, rfl, rfl⟩
  | append_singleton values value ih =>
    obtain ⟨hregs, hvideo, hbuffer⟩ := ih
    have hstep : p.after (writes (values ++ [value])) =
        ((p.after (writes values)).write .data value).2 := by
      rw [writes, List.map_append, after_append]
      rfl
    have hslot' : (p.after (writes values)).video.cartridge.isSome := by
      rw [hvideo, VideoSpace.isSome_cartridge_store, hslot]
    rw [hstep, write_data hslot', hregs, hvideo, p.busAddress_iterate_advance,
      streamStores_append_singleton, List.length_append, List.length_singleton,
      Function.iterate_succ_apply', VideoSpace.store_append]
    exact ⟨rfl, rfl, hbuffer⟩

/-! ## Bytes that come back -/

/-- Cells below the palette that take what these writes store, each of them written once. -/
structure Fresh (p : Ppu) (count : Nat) : Prop where
  below : ∀ i < count, p.streamAddress i < 0x3F00
  writable : ∀ i < count, ∃ cell ∈ p.video.named? (p.streamAddress i), p.video.Writable cell
  distinct : ∀ i < count, ∀ j < count,
    p.video.named? (p.streamAddress i) = p.video.named? (p.streamAddress j) → i = j

theorem byteAt_streamStores {p : Ppu} {values : List UInt8} (h : p.Fresh values.length) {i : Nat}
    (hi : i < values.length) :
    byteAt (p.video.store (p.streamStores values)) (p.streamAddress i) = values[i] := by
  obtain ⟨cell, hcell, hwritable⟩ := h.writable i hi
  have hlength := p.length_streamStores values
  -- what comes behind the write of the cell names other cells
  have hsplit : p.streamStores values = (p.streamStores values).take i ++
      (p.streamAddress i, values[i]) :: (p.streamStores values).drop (i + 1) := by
    rw [← p.getElem_streamStores hi (hlength ▸ hi), ← List.drop_eq_getElem_cons,
      List.take_append_drop]
  have hothers : ∀ w ∈ (p.streamStores values).drop (i + 1),
      ∃ other, p.video.named? w.1 = some other ∧ other ≠ cell := by
    intro w hw
    obtain ⟨j, hj, rfl⟩ := List.mem_drop_iff_getElem.1 hw
    obtain ⟨other, hother, -⟩ := h.writable (i + 1 + j) (by omega)
    rw [p.getElem_streamStores (by omega)]
    refine ⟨other, hother, ?_⟩
    rintro rfl
    have hsame := h.distinct (i + 1 + j) (by omega) i hi (hother.trans hcell.symm)
    omega
  have hbelow : ¬ 0x3F00 ≤ p.streamAddress i := UInt16.not_le.2 (h.below i hi)
  have hnamed : (p.video.store (p.streamStores values)).named? (p.streamAddress i) = some cell :=
    (VideoSpace.named?_congr (VideoSpace.plugged_store _ _) _).trans hcell
  rw [VideoSpace.byteAt_named hnamed, hsplit,
    VideoSpace.contents_store_last hcell hwritable _ _ hothers, VideoSpace.kept_eq hcell,
    if_neg hbelow]

theorem streamAddress_congr {p q : Ppu} (hstride : q.regs.stride = p.regs.stride)
    (haddress : q.regs.current.busAddress = p.regs.current.busAddress) (i : Nat) :
    q.streamAddress i = p.streamAddress i := by
  have hlow := congrArg UInt16.toNat haddress
  rw [VramAddress.toNat_busAddress, VramAddress.toNat_busAddress] at hlow
  rw [streamAddress, streamAddress, streamPosition, streamPosition, hstride]
  congr 1
  omega

/-! ## The stream -/

theorem delivered_after_reads {p : Ppu} (hslot : p.video.cartridge.isSome) (n : Nat) :
    ((p.after (reads n)).read .data).1 = .ok (if 0x3F00 ≤ p.streamAddress n
      then byteAt p.video (p.streamAddress n) else p.streamBuffer n) := by
  obtain ⟨hregs, hvideo, hbuffer⟩ := after_reads hslot n
  rw [read_data (hvideo ▸ hslot), delivered, hregs, hvideo, hbuffer, p.busAddress_iterate_advance]

theorem toNat_current_of_regs {p q : Ppu} {n : Nat}
    (hregs : q.regs = PpuRegisters.advance^[n] p.regs)
    (h : n ≠ 0 ∨ p.regs.current.toNat < 0x8000) : q.regs.current.toNat = p.streamPosition n := by
  obtain ⟨hposition, hsmall⟩ := p.regs.toNat_iterate_advance n
  rw [hregs, streamPosition, ← hposition]
  refine (Nat.mod_eq_of_lt ?_).symm
  rcases Nat.eq_zero_or_pos n with rfl | hn
  · exact h.resolve_left (absurd rfl)
  · exact hsmall (Nat.pos_iff_ne_zero.1 hn)

/-- Accesses to the data register in a row, with a cartridge in the slot. Each of any number of
reads delivers the palette entry at its address or what the read before it has left in the buffer,
and the memories stay as they are. Writes are the writes to the addresses of the stream, and leave
the buffer. Where they store bytes in fresh cells below the palette and the address is set back,
each byte comes back with the read behind it, as far as that is below the palette too. -/
theorem data_stream {p : Ppu} (hslot : p.video.cartridge.isSome) :
    (∀ n, let q := p.after (reads n)
      (q.read .data).1 = .ok (if 0x3F00 ≤ p.streamAddress n
        then byteAt p.video (p.streamAddress n) else p.streamBuffer n) ∧
      q.video = p.video ∧
      (n ≠ 0 ∨ p.regs.current.toNat < 0x8000 → q.regs.current.toNat = p.streamPosition n)) ∧
    ∀ values : List UInt8, let q := p.after (writes values)
      (∀ value, (q.write .data value).1 = .ok ()) ∧
      q.video = p.video.store (p.streamStores values) ∧ q.buffer = p.buffer ∧
      (values.length ≠ 0 ∨ p.regs.current.toNat < 0x8000 →
        q.regs.current.toNat = p.streamPosition values.length) ∧
      (p.Fresh values.length → ∀ r : Ppu, r.video = q.video → r.regs.stride = p.regs.stride →
        r.regs.current.busAddress = p.regs.current.busAddress →
        ∀ (i : Nat) (hi : i < values.length), p.streamAddress (i + 1) < 0x3F00 →
          ((r.after (reads (i + 1))).read .data).1 = .ok values[i]) := by
  refine ⟨fun n => ?_, fun values => ?_⟩
  · obtain ⟨hregs, hvideo, -⟩ := after_reads hslot n
    exact ⟨delivered_after_reads hslot n, hvideo, toNat_current_of_regs hregs⟩
  · obtain ⟨hregs, hvideo, hbuffer⟩ := after_writes hslot values
    have hslot' : (p.after (writes values)).video.cartridge.isSome := by
      rw [hvideo, VideoSpace.isSome_cartridge_store, hslot]
    refine ⟨fun value => by rw [write_data hslot'], hvideo, hbuffer, toNat_current_of_regs hregs,
      fun hfresh r hr hstride haddress i hi hnext => ?_⟩
    have hbehind : ¬ 0x3F00 ≤ p.streamAddress (i + 1) := UInt16.not_le.2 hnext
    have hbelow : ¬ 0x3F00 ≤ p.streamAddress i := UInt16.not_le.2 (hfresh.below i hi)
    rw [delivered_after_reads (hr ▸ hslot'), streamAddress_congr hstride haddress, if_neg hbehind,
      streamBuffer, streamAddress_congr hstride haddress, refillAddress, if_neg hbelow, hr, hvideo,
      byteAt_streamStores hfresh hi]

/-- Two bytes stored down a column of a nametable come back with the second read and the third. -/
theorem data_stream_down_column :
    let board : Cartridge := ⟨⟨#[]⟩, .ram (.zeros _), .zeros _, .vertical, false, 0⟩
    let back : List PpuAction := [.write .address 0x24, .write .address 0x05]
    let p := ((fresh (VideoSpace.initial.insert (some board))).write .control 0x04).2.after back
    let r := (p.after (writes [0xAB, 0xCD])).after back
    ((r.after (reads 1)).read .data).1 = .ok 0xAB ∧
      ((r.after (reads 2)).read .data).1 = .ok 0xCD ∧
      (p.after (reads 3)).regs.current.toNat = 0x2465 := by
  intro board back p r
  obtain ⟨hreads, hwrites⟩ := data_stream (p := p) rfl
  obtain ⟨-, -, hend⟩ := hreads 3
  obtain ⟨-, -, -, -, hback⟩ := hwrites [0xAB, 0xCD]
  have hfresh : p.Fresh 2 := ⟨by decide +kernel, by decide +kernel, by decide +kernel⟩
  have hvideo (q : Ppu) : (q.after back).video = q.video := rfl
  have hbytes := hback hfresh r (hvideo _) (by decide +kernel) (by decide +kernel)
  refine ⟨hbytes 0 (by decide) (by decide +kernel), hbytes 1 (by decide) (by decide +kernel), ?_⟩
  exact (hend (Or.inl (by decide))).trans (by decide +kernel)

/-- A byte in front of the palette does not come back : the read behind it delivers a palette
entry. -/
theorem stream_ends_at_palette :
    let board : Cartridge := ⟨⟨#[]⟩, .ram (.zeros _), .zeros _, .vertical, false, 0⟩
    let back : List PpuAction := [.write .address 0x3E, .write .address 0xFF]
    let p := (fresh (VideoSpace.initial.insert (some board))).after back
    let r := (p.after (writes [0x55])).after back
    p.Fresh 1 ∧ r.video = (p.after (writes [0x55])).video ∧ r.regs.stride = p.regs.stride ∧
      r.regs.current = p.regs.current ∧ ((r.after (reads 1)).read .data).1 ≠ .ok 0x55 := by
  intro board back p r
  have hvideo (q : Ppu) : (q.after back).video = q.video := rfl
  refine ⟨⟨by decide +kernel, by decide +kernel, by decide +kernel⟩, hvideo _, by decide +kernel,
    by decide +kernel, fun hread => ?_⟩
  have hentry : ((r.after (reads 1)).read .data).1 = .ok 0x00 := by
    rw [delivered_after_reads (by decide +kernel)]
    decide +kernel
  rw [hentry] at hread
  exact absurd (Except.ok.inj hread) (by decide)

end Ppu

end Famicom
