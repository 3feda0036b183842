import Famicom.Proofs.Board
import Famicom.Proofs.Cpu.Marks
import Famicom.Proofs.Cpu.Recording
import Famicom.Proofs.Cpu.Stack

/-!
# The balance of the stack

Five `Protocol`s put bytes on the stack and take them back : the accumulator, the flags, a
call, the entry of a request, and its imitation by instruction. `saved` says which bytes
the one half leaves and `Takes` what the other makes of them, each with its own order of bytes
and its own distance from the program counter (`Opens.spec`, `Closes.spec`). The halves fit :
what is made of the bytes saved is what was to be kept (`restores_of_takes`).

A run is `Balanced` if the two halves come in pairs that nest, at most 256 bytes are live at
any time, and what runs between leaves the pointer and the live bytes alone. `balanced_restores` :
such a run ends with the pointer and the bytes it began with, and every pair in it has
restored what its first half saw. The pointer can be anywhere in the page at first, so the
live bytes may lie across its end. On the board the page is work RAM, and a run there is the
example.
-/

namespace Famicom

open CpuM

/-- The ways to put something on the stack and to take it back. -/
inductive Protocol where
  /-- `PHA` and `PLA`. -/
  | accumulator
  /-- `PHP` and `PLP`. -/
  | flags
  /-- `JSR` and `RTS`. -/
  | call
  /-- The entry of a request and `RTI`. -/
  | interrupt
  /-- `BRK` and `RTI`. -/
  | trap
  deriving DecidableEq, Repr

namespace Protocol

/-! ## What is saved and what is restored -/

/-- The number of bytes it keeps on the stack. -/
def size : Protocol → Nat
  | .accumulator | .flags => 1
  | .call => 2
  | .interrupt | .trap => 3

/-- The bytes it saves of a processor, in the order in which they come back. -/
def saved : Protocol → Cpu → List UInt8
  | .accumulator, c => [c.a]
  | .flags, c => [c.status.pushed.toByte]
  | .call, c => [lowByte (c.pc + 2), highByte (c.pc + 2)]
  | .interrupt, c => [c.status.interrupted.toByte, lowByte c.pc, highByte c.pc]
  | .trap, c => [c.status.pushed.toByte, lowByte (c.pc + 2), highByte (c.pc + 2)]

/-- The bytes that came back left this processor. -/
def Takes : Protocol → List UInt8 → Cpu → Prop
  | .accumulator, bytes, d => bytes = [d.a]
  | .flags, bytes, d => ∃ b, bytes = [b] ∧ d.status = .restored b
  | .call, bytes, d => ∃ w, bytes = [lowByte w, highByte w] ∧ d.pc = w + 1
  | .interrupt, bytes, d | .trap, bytes, d =>
    ∃ b, bytes = [b, lowByte d.pc, highByte d.pc] ∧ d.status = .restored b

/-- What there is to keep of the processor `c` is found in `d`. A call continues behind the
three bytes of its instruction, a trap leaves out the byte behind its own. -/
def Restores : Protocol → Cpu → Cpu → Prop
  | .accumulator, c, d => d.a = c.a
  | .flags, c, d => d.status = c.status
  | .call, c, d => d.pc = c.pc + 3
  | .interrupt, c, d => d.status = c.status ∧ d.pc = c.pc
  | .trap, c, d => d.status = c.status ∧ d.pc = c.pc + 2

theorem length_saved (p : Protocol) (c : Cpu) : (p.saved c).length = p.size := by
  cases p <;> rfl

theorem length_of_takes {p : Protocol} {bytes : List UInt8} {d : Cpu} (h : p.Takes bytes d) :
    bytes.length = p.size := by
  cases p with
  | accumulator =>
    rw [show bytes = [d.a] from h]
    rfl
  | flags | call | interrupt | trap =>
    obtain ⟨_, rfl, -⟩ := h
    rfl

/-- The two halves fit. -/
theorem restores_of_takes {p : Protocol} {c d : Cpu} (hc : c.status.Marked)
    (h : p.Takes (p.saved c) d) : p.Restores c d := by
  cases p with
  | accumulator => exact (List.singleton_inj.1 h).symm
  | flags =>
    obtain ⟨b, hb, hstatus⟩ := h
    rw [Restores, hstatus, ← List.singleton_inj.1 hb, hc.restored_toByte_pushed]
  | call =>
    obtain ⟨w, hw, hpc⟩ := h
    rw [Restores, hpc, ← eq_of_bytes hw, UInt16.add_assoc]
    rfl
  | interrupt =>
    obtain ⟨b, hb, hstatus⟩ := h
    injection hb with hb hw
    refine ⟨?_, (eq_of_bytes hw).symm⟩
    rw [hstatus, ← hb, hc.restored_toByte_interrupted]
  | trap =>
    obtain ⟨b, hb, hstatus⟩ := h
    injection hb with hb hw
    refine ⟨?_, (eq_of_bytes hw).symm⟩
    rw [hstatus, ← hb, hc.restored_toByte_pushed]

/-! ## The two halves -/

variable {β : Type} [AddressSpace β]

/-- The step is the first half. -/
def Opens : Protocol → System β → System β → Prop
  | .accumulator => Runs .pha
  | .flags => Runs .php
  | .call => Runs .jsr
  | .interrupt => fun s t =>
    (s.cpu.served = some .nmi ∨ s.cpu.served = some .irq) ∧ ∃ n, step s = .ok n t
  | .trap => Runs .brk

/-- The step is the second half. -/
def Closes : Protocol → System β → System β → Prop
  | .accumulator => Runs .pla
  | .flags => Runs .plp
  | .call => Runs .rts
  | .interrupt | .trap => Runs .rti

theorem Opens.step {p : Protocol} {s t : System β} (h : p.Opens s t) :
    ∃ n, CpuM.step s = .ok n t := by
  cases p with
  | interrupt => exact h.2
  | accumulator | flags | call | trap => exact h.2.1

theorem Closes.step {p : Protocol} {s t : System β} (h : p.Closes s t) :
    ∃ n, CpuM.step s = .ok n t := by
  cases p <;> exact h.2.1

variable [PlainStack β]

/-- The first half leaves its bytes on top of the stack. -/
theorem Opens.spec {p : Protocol} {s t : System β} (h : p.Opens s t) :
    t.cpu.sp = s.cpu.sp - .ofNat p.size ∧
      ∀ n, n + p.size ≤ 256 → t.stack (n + p.size) = p.saved s.cpu ++ s.stack n := by
  cases p with
  | accumulator | flags =>
    obtain ⟨hregs, hstack⟩ := Runs.push h rfl
    exact ⟨congrArg Registers.sp hregs, fun n hn => hstack n hn⟩
  | call =>
    obtain ⟨hsp, hstack⟩ := Runs.call h
    exact ⟨hsp, fun n hn => hstack n hn⟩
  | interrupt =>
    obtain ⟨hserved, n, hstep⟩ := h
    rcases hserved with hserved | hserved
    · obtain ⟨hsp, hstack⟩ := step_of_served hserved (by decide) hstep
      exact ⟨hsp, fun n hn => hstack n hn⟩
    · obtain ⟨hsp, hstack⟩ := step_of_served hserved (by decide) hstep
      exact ⟨hsp, fun n hn => hstack n hn⟩
  | trap =>
    obtain ⟨hsp, hstack⟩ := Runs.trap h
    exact ⟨hsp, fun n hn => hstack n hn⟩

/-- The second half takes as many bytes off the stack as the first one puts there. -/
theorem Closes.spec {p : Protocol} {s t : System β} (h : p.Closes s t) :
    t.cpu.sp = s.cpu.sp + .ofNat p.size ∧
      ∃ bytes, p.Takes bytes t.cpu ∧ ∀ n, s.stack (n + p.size) = bytes ++ t.stack n := by
  cases p with
  | accumulator =>
    obtain ⟨value, hregs, hstack⟩ := Runs.pull h rfl fun _ _ => rfl
    refine ⟨congrArg Registers.sp hregs, [value], ?_, hstack⟩
    exact congrArg (fun r => [r.a]) hregs.symm
  | flags =>
    obtain ⟨value, hregs, hstack⟩ := Runs.pull h rfl fun _ _ => rfl
    exact ⟨congrArg Registers.sp hregs, [value], ⟨value, rfl, congrArg Registers.status hregs⟩,
      hstack⟩
  | call =>
    obtain ⟨hsp, w, hpc, hstack⟩ := Runs.ret h
    exact ⟨hsp, [lowByte w, highByte w], ⟨w, rfl, hpc⟩, hstack⟩
  | interrupt | trap =>
    obtain ⟨hsp, value, hstatus, hstack⟩ := Runs.retInterrupt h
    exact ⟨hsp, [value, lowByte t.cpu.pc, highByte t.cpu.pc], ⟨value, rfl, hstatus⟩, hstack⟩

end Protocol

/-! ## Balanced runs -/

/-- A pair of halves in a run : the processor in front of the first and behind the second. -/
structure Bracket where
  protocol : Protocol
  entry : Cpu
  exit : Cpu

/-- The second half has restored what the first one saw. -/
def Bracket.Restored (b : Bracket) : Prop := b.protocol.Restores b.entry b.exit

section Balanced

variable {β : Type} [AddressSpace β]

/-- A run with `live` bytes of the stack in use, and the pairs in it. -/
inductive Balanced : Nat → System β → System β → List Bracket → Prop where
  | nil {live : Nat} (s : System β) : Balanced live s s []
  /-- An instruction that leaves the pointer and the live bytes alone. -/
  | instruction {live n : Nat} {s t : System β} (hserved : s.cpu.served = none)
      (hstep : step s = .ok n t) (hsp : t.cpu.sp = s.cpu.sp)
      (hstack : t.stack live = s.stack live) : Balanced live s t []
  /-- Between two steps the rest of the machine may raise a request and halt the processor. -/
  | meanwhile {live : Nat} {s t : System β} (hregs : t.cpu.toRegisters = s.cpu.toRegisters)
      (hpc : t.cpu.pc = s.cpu.pc) (hstack : t.stack live = s.stack live) : Balanced live s t []
  | append {live : Nat} {s t u : System β} {before after : List Bracket}
      (hbefore : Balanced live s t before) (hafter : Balanced live t u after) :
      Balanced live s u (before ++ after)
  | bracket {live : Nat} {p : Protocol} {s t u v : System β} {within : List Bracket}
      (hlive : live + p.size ≤ 256) (hopens : p.Opens s t)
      (hwithin : Balanced (live + p.size) t u within) (hcloses : p.Closes u v) :
      Balanced live s v (⟨p, s.cpu, v.cpu⟩ :: within)

variable [PlainStack β]

theorem stackCell_foldl {sp : UInt8} {cycles : List BusCycle}
    (h : ∀ a value answered, .write a value answered ∈ cycles → ∀ b : β,
      stackCell sp (AddressSpace.write a value b).2 = stackCell sp b) (b : β) :
    stackCell sp (cycles.foldl BusCycle.replay b) = stackCell sp b := by
  induction cycles generalizing b with
  | nil => rfl
  | cons x cycles ih =>
    have hmore : stackCell sp ((x :: cycles).foldl BusCycle.replay b) = stackCell sp (x.replay b) :=
      ih (fun a value answered hx => h a value answered (List.mem_cons_of_mem _ hx)) _
    rw [hmore]
    cases x with
    | read a answered => exact PlainStack.read a sp b
    | write a value answered => exact h a value answered List.mem_cons_self b

omit [PlainStack β] in
theorem Balanced.raise {live : Nat} (s : System β) (request : Interrupt) :
    Balanced live s ⟨s.cpu.raise request, s.bus⟩ [] := by
  rw [raise_eq]
  exact .meanwhile rfl rfl rfl

/-- An instruction leaves the live bytes alone if none of its writes shows in one of them. -/
theorem Balanced.sparing {live n : Nat} {s t : System β} (hserved : s.cpu.served = none)
    (hstep : step s = .ok n t) (hsp : t.cpu.sp = s.cpu.sp)
    (hwrites : ∀ a value answered, .write a value answered ∈ accesses s → ∀ k < live, ∀ b : β,
      stackCell (s.cpu.sp + .ofNat (k + 1)) (AddressSpace.write a value b).2 =
        stackCell (s.cpu.sp + .ofNat (k + 1)) b) : Balanced live s t [] := by
  refine .instruction hserved hstep hsp ?_
  rw [System.stack, System.stack, hsp, ← left_of_ok hstep, (accesses_spec s).1]
  exact stackBytes_congr fun k hk =>
    stackCell_foldl (fun a value answered hx => hwrites a value answered hx k hk) s.bus

end Balanced

/-! ## The page on the board -/

namespace Board

theorem stackAddress_le (sp : UInt8) : stackAddress sp ≤ 0x1FFF := by
  have hcell := toNat_stackAddress sp
  have hsp := sp.toNat_lt
  have hlast : (0x1FFF : UInt16).toNat = 0x1FFF := rfl
  rw [UInt16.le_iff_toNat_le]
  omega

theorem read_stack (sp : UInt8) (b : Board) :
    stackCell sp b = b.ram.read (stackAddress sp).toNat := by
  rw [stackCell, read_eq, if_pos (stackAddress_le sp)]
  rfl

theorem ram_read (a : UInt16) (b : Board) : (AddressSpace.read a b).2.ram = b.ram := by
  rw [read_eq]
  split_ifs <;> rfl

/-- The stack lies in work RAM. -/
instance : PlainStack Board where
  read a sp b := by rw [read_stack, read_stack, ram_read]
  write sp value sp' b := by
    have hsp := sp.toNat_lt
    have hsp' := sp'.toNat_lt
    have hsame : (0x0100 + sp'.toNat) % 0x800 = (0x0100 + sp.toNat) % 0x800 ↔ sp' = sp := by
      rw [← UInt8.toNat_inj]
      omega
    rw [read_stack, read_stack, write_eq, if_pos (stackAddress_le sp)]
    show (b.ram.write _ value).read _ = _
    simp only [Memory.read_write, toNat_stackAddress, hsame]

end Board

/-! ## The next instruction -/

namespace CpuM

variable {β : Type} [AddressSpace β]

/-- The step comes to its end. -/
def ends (s : System β) : Bool :=
  match step s with
  | .ok .. => true
  | .error .. => false

theorem step_of_ends {s : System β} (h : ends s) : ∃ n, step s = .ok n (left step s) := by
  unfold ends at h
  cases hstep : step s with
  | ok n t => exact ⟨n, by rw [left_of_ok hstep]⟩
  | error e t =>
    rw [hstep] at h
    cases h

/-- The mnemonic of the instruction that a step comes to. -/
def mnemonic? (s : System β) : Option Mnemonic :=
  if s.cpu.served.isSome then none
  else
    match fetchInstruction s with
    | .ok i _ => some i.mnemonic
    | .error .. => none

theorem runs_of_ends {mnemonic : Mnemonic} {s : System β} (hends : ends s)
    (hmnemonic : mnemonic? s = some mnemonic) : Runs mnemonic s (left step s) := by
  unfold mnemonic? at hmnemonic
  split at hmnemonic
  · cases hmnemonic
  rename_i hserved
  cases hfetch : fetchInstruction s with
  | ok i t =>
    rw [hfetch] at hmnemonic
    obtain ⟨opcode, hread, hdecode⟩ := fetchInstruction_eq_ok.1 hfetch
    have hbyte := congrArg Prod.fst (readByte_eq_ok.1 hread).1
    exact ⟨Option.not_isSome_iff_eq_none.1 hserved, step_of_ends hends, opcode, i, hbyte, hdecode,
      Option.some_inj.1 hmnemonic⟩
  | error e t =>
    rw [hfetch] at hmnemonic
    cases hmnemonic

end CpuM

/-! ## Balance -/

/-- A balanced run restores the pointer, the live bytes, and whatever its pairs saw. -/
theorem balanced_restores {β : Type} [AddressSpace β] [PlainStack β] {live : Nat} {s t : System β}
    {brackets : List Bracket} (hrun : Balanced live s t brackets) (hs : s.cpu.status.Marked) :
    t.cpu.sp = s.cpu.sp ∧ t.stack live = s.stack live ∧ t.cpu.status.Marked ∧
      ∀ b ∈ brackets, b.Restored := by
  induction hrun with
  | nil => exact ⟨rfl, rfl, hs, List.forall_mem_nil _⟩
  | instruction _ hstep hsp hstack =>
    exact ⟨hsp, hstack, step_marked hstep hs, List.forall_mem_nil _⟩
  | @meanwhile _ s t hregs _ hstack =>
    have ht : t.cpu.status.Marked := by rw [hregs]; exact hs
    exact ⟨congrArg Registers.sp hregs, hstack, ht, List.forall_mem_nil _⟩
  | append _ _ ih ih' =>
    obtain ⟨hsp, hstack, ht, hbefore⟩ := ih hs
    obtain ⟨hsp', hstack', hu, hafter⟩ := ih' ht
    refine ⟨hsp'.trans hsp, hstack'.trans hstack, hu, fun b hb => ?_⟩
    exact (List.mem_append.1 hb).elim (hbefore b) (hafter b)
  | @bracket live p s t u v within hlive hopens _ hcloses ih =>
    obtain ⟨_, hfirst⟩ := hopens.step
    obtain ⟨_, hlast⟩ := hcloses.step
    obtain ⟨hsp, hstack⟩ := hopens.spec
    obtain ⟨hsp', bytes, htakes, hstack'⟩ := hcloses.spec
    obtain ⟨hsame, hkept, hu, hwithin⟩ := ih (step_marked hfirst hs)
    -- The body has kept the bytes saved, so these are the bytes that come back.
    have hbytes : bytes ++ v.stack live = p.saved s.cpu ++ s.stack live := by
      rw [← hstack', hkept, hstack live hlive]
    obtain ⟨rfl, hlower⟩ := List.append_inj hbytes
      ((Protocol.length_of_takes htakes).trans (p.length_saved _).symm)
    refine ⟨?_, hlower, step_marked hlast hu, List.forall_mem_cons.2 ⟨?_, hwithin⟩⟩
    · rw [hsp', hsame, hsp, UInt8.sub_add_cancel]
    · exact Protocol.restores_of_takes hs htakes

/-- A call whose return address lies across the end of the stack page, with a pair of each kind
in it or behind it, and a request that is served between the pushes and the pulls. -/
theorem balanced_restores_across_page :
    let program : ByteArray := ⟨#[0x20, 0x05, 0x80, 0x00, 0x40, 0x08, 0x48, 0x68, 0x28, 0x60,
      0x04, 0x80, 0x00, 0x80, 0x04, 0x80]⟩
    let s : System Board :=
      ⟨{ Cpu.initial with a := 0x2A, sp := 0x01, pc := 0x8000 },
        Board.initial.insert ⟨program, .ram (.zeros _), .zeros _, .horizontal, false, 0⟩⟩
    s.cpu.status.Marked ∧ ∃ t brackets, Balanced 0 s t brackets ∧
      brackets.map Bracket.protocol = [.call, .flags, .accumulator, .interrupt, .trap] ∧
      t.cpu.sp = 0x01 ∧ ∀ b ∈ brackets, b.Restored := by
  intro program s
  let called := left step s
  let flagged := left step called
  let pushed := left step flagged
  let requested : System Board := ⟨pushed.cpu.raise .nmi, pushed.bus⟩
  let entered := left step requested
  let resumed := left step entered
  let pulled := left step resumed
  let unflagged := left step pulled
  let returned := left step unflagged
  let trapped := left step returned
  let ended := left step trapped
  have hs : s.cpu.status.Marked := ⟨rfl, rfl⟩
  have hrequest : Balanced 4 pushed requested [] := .raise pushed .nmi
  have hinterrupt : Balanced 4 requested resumed [⟨.interrupt, requested.cpu, resumed.cpu⟩] := by
    refine .bracket (by decide) ⟨Or.inl ?_, step_of_ends ?_⟩ (.nil _) (runs_of_ends ?_ ?_) <;>
      decide +kernel +zetaReduce
  have haccumulator : Balanced 3 flagged pulled
      [⟨.accumulator, flagged.cpu, pulled.cpu⟩, ⟨.interrupt, requested.cpu, resumed.cpu⟩] := by
    refine .bracket (by decide) (runs_of_ends ?_ ?_) (hrequest.append hinterrupt)
      (runs_of_ends ?_ ?_) <;> decide +kernel +zetaReduce
  have hflags : Balanced 2 called unflagged
      [⟨.flags, called.cpu, unflagged.cpu⟩, ⟨.accumulator, flagged.cpu, pulled.cpu⟩,
        ⟨.interrupt, requested.cpu, resumed.cpu⟩] := by
    refine .bracket (by decide) (runs_of_ends ?_ ?_) haccumulator (runs_of_ends ?_ ?_) <;>
      decide +kernel +zetaReduce
  have hcall : Balanced 0 s returned
      [⟨.call, s.cpu, returned.cpu⟩, ⟨.flags, called.cpu, unflagged.cpu⟩,
        ⟨.accumulator, flagged.cpu, pulled.cpu⟩, ⟨.interrupt, requested.cpu, resumed.cpu⟩] := by
    refine .bracket (by decide) (runs_of_ends ?_ ?_) hflags (runs_of_ends ?_ ?_) <;>
      decide +kernel +zetaReduce
  have htrap : Balanced 0 returned ended [⟨.trap, returned.cpu, ended.cpu⟩] := by
    refine .bracket (by decide) (runs_of_ends ?_ ?_) (.nil _) (runs_of_ends ?_ ?_) <;>
      decide +kernel +zetaReduce
  obtain ⟨hsp, -, -, hrestored⟩ := balanced_restores (hcall.append htrap) hs
  exact ⟨hs, ended, _, hcall.append htrap, rfl, hsp, hrestored⟩

end Famicom
