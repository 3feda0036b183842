import Famicom.Proofs.Cpu.FaultFree
import Famicom.Proofs.Cpu.Recording
import Mathlib.Tactic.FinCases

/-!
# The accesses of a step

A device sees a step as the accesses it makes, and some devices change by being read. So which
accesses a step makes, and in which order, is part of what it does : `places` lists them with
their directions and addresses. They are those of the fetch, each byte of the instruction once and
in ascending order and then the pointer, followed by those of the mnemonic (`Mnemonic.touches`) :
the operand is read, or written, or read and then written, once each, or left alone; the
instructions that work on the stack stay in its page, and `BRK` goes on to the vector. A
request that is served has accesses of its own (`Interrupt.touches`). `step_touches` says so of
every successful step.

The operand of an immediate instruction is its last byte, which the action reads : the one
read of it is that of the instruction.
-/

namespace Famicom

variable {β : Type}

/-! ## Accesses in order -/

/-- The direction and the address of a cycle. -/
def BusCycle.place : BusCycle → Access × UInt16
  | .read a _ => (.read, a)
  | .write a _ _ => (.write, a)

/-- The accesses recorded so far, oldest first. -/
def Recorded.places (r : Recorded β) : List (Access × UInt16) := r.cycles.map BusCycle.place

/-- Between the two recordings these accesses were made. -/
def Makes (made : List (Access × UInt16)) (r q : Recorded β) : Prop :=
  q.places = r.places ++ made

theorem Makes.nothing (r : Recorded β) : Makes [] r r := by
  simp [Makes]

theorem Makes.trans {made more : List (Access × UInt16)} {r q p : Recorded β}
    (h : Makes made r q) (h' : Makes more q p) : Makes (made ++ more) r p := by
  rw [Makes, h', h, List.append_assoc]

/-- Reads of these addresses, in order. -/
def readsOf (addresses : List UInt16) : List (Access × UInt16) := addresses.map (Access.read, ·)

variable [AddressSpace β]

theorem read_recorded {a : UInt16} {value : UInt8} {r q : Recorded β}
    (h : AddressSpace.read a r = (.ok value, q)) :
    AddressSpace.read a r.bus = (.ok value, q.bus) ∧ Makes [(.read, a)] r q := by
  rcases hread : AddressSpace.read a r.bus with ⟨outcome, c⟩
  simp only [AddressSpace.read, hread] at h
  cases h
  simp [Makes, Recorded.places, BusCycle.place]

theorem write_recorded {a : UInt16} {value : UInt8} {r q : Recorded β}
    (h : AddressSpace.write a value r = (.ok (), q)) : Makes [(.write, a)] r q := by
  rcases hwrite : AddressSpace.write a value r.bus with ⟨outcome, c⟩
  simp only [AddressSpace.write, hwrite] at h
  cases h
  simp [Makes, Recorded.places, BusCycle.place]

theorem Reads.recorded {addresses : List UInt16} {bytes : List UInt8} {r q : Recorded β}
    (h : Reads addresses bytes r q) :
    Reads addresses bytes r.bus q.bus ∧ Makes (readsOf addresses) r q := by
  induction h with
  | nil => exact ⟨.nil _, .nothing _⟩
  | cons head _ ih =>
    obtain ⟨hread, hfirst⟩ := read_recorded head
    obtain ⟨htail, hrest⟩ := ih
    exact ⟨.cons hread htail, hfirst.trans hrest⟩

namespace CpuM

/-- The accesses of a step, in order. -/
def places (s : System β) : List (Access × UInt16) := (accesses s).map BusCycle.place

end CpuM

/-! ## The accesses of an action -/

namespace Operand

/-- The accesses to an operand : those of these directions to its address, if it has one. -/
def touches (directions : List Access) : Operand → List (Access × UInt16)
  | .address a => directions.map (·, a)
  | .implied | .accumulator => []

end Operand

namespace CpuM

/-- Three bytes are pushed. -/
def entryPushes (sp : UInt8) : List (Access × UInt16) :=
  [(.write, stackAddress sp), (.write, stackAddress (sp - 1)), (.write, stackAddress (sp - 2))]

theorem readByte_makes {a : UInt16} {value : UInt8} {s t : System (Recorded β)}
    (h : readByte a s = .ok value t) : Makes [(.read, a)] s.bus t.bus ∧ t.cpu = s.cpu := by
  obtain ⟨hread, hcpu⟩ := readByte_eq_ok.1 h
  exact ⟨(read_recorded hread).2, hcpu⟩

theorem writeByte_makes {a : UInt16} {value : UInt8} {s t : System (Recorded β)} {u : Unit}
    (h : writeByte a value s = .ok u t) : Makes [(.write, a)] s.bus t.bus ∧ t.cpu = s.cpu := by
  obtain ⟨hwrite, hcpu⟩ := writeByte_eq_ok.1 h
  exact ⟨write_recorded hwrite, hcpu⟩

theorem push_makes {value : UInt8} {s t : System (Recorded β)} {u : Unit}
    (h : CpuM.push value s = .ok u t) :
    Makes [(.write, stackAddress s.cpu.sp)] s.bus t.bus ∧ t.cpu.sp = s.cpu.sp - 1 := by
  obtain ⟨hwrite, hcpu⟩ := push_eq_ok.1 h
  exact ⟨write_recorded hwrite, by rw [hcpu]⟩

theorem pull_makes {value : UInt8} {s t : System (Recorded β)} (h : CpuM.pull s = .ok value t) :
    Makes [(.read, stackAddress (s.cpu.sp + 1))] s.bus t.bus ∧ t.cpu.sp = s.cpu.sp + 1 := by
  simp only [CpuM.pull, update_bind, cpu_bind] at h
  obtain ⟨hmakes, hcpu⟩ := readByte_makes h
  exact ⟨hmakes, by simp [hcpu]⟩

theorem pushWord_makes {w : UInt16} {s t : System (Recorded β)} {u : Unit}
    (h : pushWord w s = .ok u t) :
    Makes [(.write, stackAddress s.cpu.sp), (.write, stackAddress (s.cpu.sp - 1))] s.bus t.bus ∧
      t.cpu.sp = s.cpu.sp - 2 := by
  obtain ⟨_, v, hhigh, hlow⟩ := bind_eq_ok.1 h
  obtain ⟨hfirst, hv⟩ := push_makes hhigh
  obtain ⟨hsecond, ht⟩ := push_makes hlow
  rw [hv] at hsecond
  exact ⟨hfirst.trans hsecond, by rw [ht, hv]; grind⟩

theorem pullWord_makes {w : UInt16} {s t : System (Recorded β)} (h : pullWord s = .ok w t) :
    Makes [(.read, stackAddress (s.cpu.sp + 1)), (.read, stackAddress (s.cpu.sp + 2))]
      s.bus t.bus := by
  simp only [pullWord, bind_eq_ok, pure_eq_ok] at h
  obtain ⟨lo, v, hlo, hi, _, hhi, rfl, rfl⟩ := h
  obtain ⟨hfirst, hv⟩ := pull_makes hlo
  obtain ⟨hsecond, -⟩ := pull_makes hhi
  rw [hv, UInt8.add_assoc] at hsecond
  exact hfirst.trans hsecond

theorem load_makes {operand : Operand} {value : UInt8} {s t : System (Recorded β)}
    (h : operand.load s = .ok value t) : Makes (operand.touches [.read]) s.bus t.bus := by
  cases operand with
  | implied | accumulator =>
    rw [(pure_eq_ok.1 h).2]
    exact .nothing _
  | address a => exact (readByte_makes h).1

theorem store_makes {operand : Operand} {value : UInt8} {s t : System (Recorded β)} {u : Unit}
    (h : operand.store value s = .ok u t) : Makes (operand.touches [.write]) s.bus t.bus := by
  cases operand with
  | implied =>
    rw [(pure_eq_ok.1 h).2]
    exact .nothing _
  | accumulator =>
    cases h
    exact .nothing _
  | address a => exact (writeByte_makes h).1

theorem enterHandler_makes {request : Interrupt} {s t : System (Recorded β)} {u : Unit}
    (h : enterHandler request s = .ok u t) :
    Makes (readsOf [request.vector, request.vector + 1]) s.bus t.bus := by
  obtain ⟨lo, hi, v, w, hlo, hhi, rfl⟩ := enterHandler_eq_ok.1 h
  exact (readByte_makes hlo).1.trans (readByte_makes hhi).1

end CpuM

open CpuM in
/-- The accesses of an action on a located operand. -/
def Action.touches (operand : Operand) (sp : UInt8) : Action → List (Access × UInt16)
  | .load _ => operand.touches [.read]
  | .store _ => operand.touches [.write]
  | .modify .. => operand.touches [.read, .write]
  | .adjust _ | .branch _ | .jump => []
  | .call => [(.write, stackAddress sp), (.write, stackAddress (sp - 1))]
  | .ret => [(.read, stackAddress (sp + 1)), (.read, stackAddress (sp + 2))]
  | .retInterrupt =>
    [(.read, stackAddress (sp + 1)), (.read, stackAddress (sp + 2)),
      (.read, stackAddress (sp + 3))]
  | .trap => entryPushes sp ++ [(.read, 0xFFFE), (.read, 0xFFFF)]
  | .push _ => [(.write, stackAddress sp)]
  | .pull _ => [(.read, stackAddress (sp + 1))]

namespace CpuM

theorem run_makes {operand : Operand} {action : Action} {s t : System (Recorded β)} {n : Nat}
    (h : action.run operand s = .ok n t) : Makes (action.touches operand s.cpu.sp) s.bus t.bus := by
  have hdone := run_performed h
  cases action with
  | load use =>
    obtain ⟨value, u, hload, rfl⟩ := hdone
    have hread := load_makes hload
    exact hread
  | store value => exact store_makes hdone
  | modify change use =>
    obtain ⟨old, value, status, u, v, hload, -, hstore, rfl⟩ := hdone
    have hread := load_makes hload
    have hwrite := store_makes hstore
    have hjoin : operand.touches [.read] ++ operand.touches [.write] =
        operand.touches [.read, .write] := by
      cases operand <;> rfl
    rw [Action.touches, ← hjoin]
    exact hread.trans hwrite
  | adjust f | jump =>
    rw [show t = _ from hdone]
    exact .nothing _
  | branch taken =>
    rw [show t = _ from hdone]
    split <;> exact .nothing _
  | call =>
    obtain ⟨u, hpush, rfl⟩ := hdone
    have hpushes := (pushWord_makes hpush).1
    exact hpushes
  | ret =>
    obtain ⟨w, u, hpull, rfl⟩ := hdone
    have hpulls := pullWord_makes hpull
    exact hpulls
  | retInterrupt =>
    obtain ⟨value, w, u, v, hflags, hword, rfl⟩ := hdone
    obtain ⟨hfirst, hu⟩ := pull_makes hflags
    have hrest := pullWord_makes hword
    simp only [hu, UInt8.add_assoc] at hrest
    exact hfirst.trans hrest
  | trap =>
    obtain ⟨u, v, hword, hflags, henter⟩ := hdone
    obtain ⟨hfirst, hu⟩ := pushWord_makes hword
    obtain ⟨hsecond, -⟩ := push_makes hflags
    rw [hu] at hsecond
    exact (hfirst.trans hsecond).trans (enterHandler_makes henter)
  | push value => exact (push_makes hdone).1
  | pull use =>
    obtain ⟨value, u, hpull, rfl⟩ := hdone
    have hpulls := (pull_makes hpull).1
    exact hpulls

end CpuM

/-! ## The accesses of an instruction -/

namespace Mnemonic

open CpuM

/-- The accesses of a mnemonic to a located operand and to the stack. Where the operand can be
missing or the accumulator, nothing is accessed then; the others have an address always. -/
def touches (operand : Operand) (sp : UInt8) : Mnemonic → List (Access × UInt16)
  | .lda | .ldx | .ldy | .lax | .adc | .sbc | .and | .ora | .eor | .cmp | .cpx | .cpy | .bit =>
    [(.read, operand.target)]
  | .nop => operand.touches [.read]
  | .sta | .stx | .sty | .sax => [(.write, operand.target)]
  | .inc | .dec | .dcp | .isc | .slo | .rla | .sre | .rra =>
    [(.read, operand.target), (.write, operand.target)]
  | .asl | .lsr | .rol | .ror => operand.touches [.read, .write]
  | .pha | .php => [(.write, stackAddress sp)]
  | .pla | .plp => [(.read, stackAddress (sp + 1))]
  | .jsr => [(.write, stackAddress sp), (.write, stackAddress (sp - 1))]
  | .rts => [(.read, stackAddress (sp + 1)), (.read, stackAddress (sp + 2))]
  | .rti =>
    [(.read, stackAddress (sp + 1)), (.read, stackAddress (sp + 2)),
      (.read, stackAddress (sp + 3))]
  | .brk => entryPushes sp ++ [(.read, 0xFFFE), (.read, 0xFFFF)]
  | .bcc | .bcs | .beq | .bmi | .bne | .bpl | .bvc | .bvs | .jmp
  | .inx | .dex | .iny | .dey | .tax | .tay | .tsx | .txa | .tya | .txs
  | .clc | .cld | .cli | .clv | .sec | .sed | .sei => []

theorem touches_address (m : Mnemonic) (a : UInt16) (sp : UInt8) :
    m.touches (.address a) sp = m.action.touches (.address a) sp := by
  cases m <;> rfl

/-- The mnemonics that can do without an address in memory. -/
def withoutAddress : List Mnemonic :=
  [.nop, .asl, .lsr, .rol, .ror, .pha, .php, .pla, .plp, .rts, .rti, .brk, .inx, .dex, .iny, .dey,
    .tax, .tay, .tsx, .txa, .tya, .txs, .clc, .cld, .cli, .clv, .sec, .sed, .sei]

theorem touches_withoutAddress {m : Mnemonic} (h : m ∈ withoutAddress) (operand : Operand)
    (sp : UInt8) : m.touches operand sp = m.action.touches operand sp := by
  fin_cases h <;> rfl

end Mnemonic

namespace Instruction

theorem mem_withoutAddress {i : Instruction} (h : i ∈ table) :
    i.mode = .implied ∨ i.mode = .accumulator → i.mnemonic ∈ Mnemonic.withoutAddress := by
  revert i
  decide +kernel

/-- Immediate instructions read their operand and do nothing else with it. -/
theorem touches_immediate {i : Instruction} (h : i ∈ table) (hmode : i.mode = .immediate)
    (a : UInt16) (sp : UInt8) : i.mnemonic.touches (.address a) sp = [(.read, a)] := by
  have hm : i.mnemonic ∈ [Mnemonic.lda, .ldx, .ldy, .adc, .sbc, .and, .ora, .eor, .cmp,
      .cpx, .cpy, .nop] := by
    revert i
    decide +kernel
  generalize i.mnemonic = m at hm ⊢
  fin_cases hm <;> rfl

theorem touches_eq {i : Instruction} (h : i ∈ table) (c : Cpu) (bytes pointer : List UInt8)
    (sp : UInt8) : i.mnemonic.touches (i.operand c bytes pointer) sp =
      i.mnemonic.action.touches (i.operand c bytes pointer) sp := by
  by_cases hmode : i.mode = .implied ∨ i.mode = .accumulator
  · exact Mnemonic.touches_withoutAddress (mem_withoutAddress h hmode) _ _
  · obtain ⟨a, ha⟩ := exists_operand_eq_address hmode c bytes pointer
    rw [ha]
    exact i.mnemonic.touches_address a sp

end Instruction

/-- The accesses with which a request is served. A reset pushes nothing. -/
def Interrupt.touches (sp : UInt8) : Interrupt → List (Access × UInt16)
  | .reset => [(.read, 0xFFFC), (.read, 0xFFFD)]
  | .nmi => CpuM.entryPushes sp ++ [(.read, 0xFFFA), (.read, 0xFFFB)]
  | .irq => CpuM.entryPushes sp ++ [(.read, 0xFFFE), (.read, 0xFFFF)]

namespace CpuM

theorem serve_makes {request : Interrupt} {s t : System (Recorded β)} {u : Unit}
    (h : serve request s = .ok u t) : Makes (request.touches s.cpu.sp) s.bus t.bus := by
  cases request with
  | reset =>
    simp only [serve, update_bind] at h
    exact enterHandler_makes h
  | nmi | irq =>
    simp only [serve, cpu_bind, bind_eq_ok] at h
    obtain ⟨_, v, hword, _, w, hflags, henter⟩ := h
    obtain ⟨hfirst, hv⟩ := pushWord_makes hword
    obtain ⟨hsecond, -⟩ := push_makes hflags
    rw [hv] at hsecond
    exact (hfirst.trans hsecond).trans (enterHandler_makes henter)

/-- A step that succeeds does so with a recorder at its bus, and the recording is what
`places` lists. -/
theorem step_recorded_ok {s t : System β} {n : Nat} (h : step s = .ok n t) :
    ∃ u, step (recorded s) = .ok n u ∧ Makes (places s) (recorded s).bus u.bus := by
  rw [step_recorded] at h
  cases hstep : step (recorded s) with
  | ok m u =>
    rw [hstep] at h
    cases h
    refine ⟨u, rfl, ?_⟩
    rw [places, accesses, left_of_ok hstep]
    rfl
  | error e u =>
    rw [hstep] at h
    cases h

/-- An instruction makes the accesses of its fetch and then those of its action. -/
theorem places_fetched {s t : System β} {n : Nat} (hserved : s.cpu.served = none)
    (h : step s = .ok n t) : ∃ i bytes pointer d, Fetched s i bytes pointer d ∧
      places s = readsOf (addressesFrom s.cpu.pc (i.mode.fetched + 1)) ++
        readsOf (i.mode.pointer s.cpu.toRegisters bytes) ++
        i.mnemonic.touches (i.operand s.cpu bytes pointer) s.cpu.sp := by
  obtain ⟨u, hstep, hplaces⟩ := step_recorded_ok h
  obtain ⟨i, bytes, pointer, d, extra, v, ⟨hdecode, b, hbytes, hpointer⟩, hrun, rfl⟩ :=
    step_fetched (s := recorded s) hserved hstep
  obtain ⟨hbytes, hb⟩ := hbytes.recorded
  obtain ⟨hpointer, hd⟩ := hpointer.recorded
  have hmade := run_makes hrun
  refine ⟨i, bytes, pointer, d.bus, ⟨hdecode, b.bus, hbytes, hpointer⟩, ?_⟩
  rw [Instruction.touches_eq (Instruction.mem_table_of_decode? hdecode)]
  exact List.append_cancel_left (hplaces.symm.trans ((hb.trans hd).trans hmade))

/-- The accesses of a successful step are exactly these, in this order. The bytes of the instruction
and of its pointer are those that the bus answers, and the operand is where they put it. -/
theorem step_touches {s t : System β} {n : Nat} (h : step s = .ok n t) :
    (∀ request, s.cpu.served = some request → places s = request.touches s.cpu.sp) ∧
    (s.cpu.served = none → ∃ i bytes pointer d, Fetched s i bytes pointer d ∧
      places s = readsOf (addressesFrom s.cpu.pc i.size) ++
        readsOf (i.mode.pointer s.cpu.toRegisters bytes) ++
        if i.mode = .immediate then []
        else i.mnemonic.touches (i.operand s.cpu bytes pointer) s.cpu.sp) := by
  refine ⟨fun request hserved => ?_, fun hserved => ?_⟩
  · obtain ⟨u, hstep, hplaces⟩ := step_recorded_ok h
    obtain ⟨v, hwork, rfl⟩ := step_eq_ok.1 hstep
    rw [show (recorded s).cpu.served = some request from hserved] at hwork
    simp only [work, bind_eq_ok, pure_eq_ok] at hwork
    obtain ⟨_, w, hserve, -, rfl⟩ := hwork
    have hmade := serve_makes hserve
    exact List.append_cancel_left (hplaces.symm.trans hmade)
  · obtain ⟨i, bytes, pointer, d, hfetched, hplaces⟩ := places_fetched hserved h
    refine ⟨i, bytes, pointer, d, hfetched, hplaces.trans ?_⟩
    have hi := Instruction.mem_table_of_decode? hfetched.1
    by_cases hmode : i.mode = .immediate
    · -- The last byte of the instruction is the operand.
      have hoperand : i.operand s.cpu bytes pointer = .address (s.cpu.pc + 1) := by
        rw [Instruction.operand, hmode]
        rfl
      rw [if_pos hmode, hoperand, Instruction.touches_immediate hi hmode, Instruction.size, hmode]
      rfl
    · rw [if_neg hmode, Instruction.fetched_eq hmode, Nat.add_comm, Instruction.size]

/-- An instruction that changes its operand through a pointer whose high byte is at the start of
page zero. -/
theorem step_touches_wrapping_pointer :
    let s : System (Memory 0x10000) :=
      ⟨{ Cpu.initial with x := 0x01, pc := 0x0010 },
        (((Memory.zeros _).write 0x10 0xE3).write 0x11 0xFE).write 0xFF 0x34⟩
    (∃ n t, step s = .ok n t) ∧
      places s = [(.read, 0x0010), (.read, 0x0011), (.read, 0x00FF), (.read, 0x0000),
        (.read, 0x0034), (.write, 0x0034)] := by
  intro s
  have hread : (AddressSpace.read s.cpu.pc s.bus).1 = .ok 0xE3 := by rfl
  have hstep : ∃ n t, step s = .ok n t := step_succeeds rfl hread rfl
  obtain ⟨n, t, h⟩ := hstep
  obtain ⟨i, bytes, pointer, d, hfetched, hplaces⟩ := (step_touches h).2 rfl
  obtain rfl := hfetched.instruction hread rfl
  obtain ⟨-, b, hbytes, hpointer⟩ := hfetched
  obtain ⟨hb, rfl⟩ := hbytes.unique (.cons rfl (.cons rfl (.nil s.bus)))
  obtain rfl := (List.cons.inj hb).2
  obtain ⟨rfl, -⟩ := hpointer.unique (.cons rfl (.cons rfl (.nil s.bus)))
  refine ⟨⟨n, t, h⟩, hplaces.trans ?_⟩
  decide +kernel +zetaReduce

end CpuM

end Famicom
