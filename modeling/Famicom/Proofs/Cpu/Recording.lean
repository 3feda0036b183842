import Famicom.Proofs.Cpu.Closure
import Famicom.Proofs.Cpu.Frame
import Famicom.Proofs.Word

/-!
# What a recording shows

A step on a recorded bus is a step : it ends as the step on the bus beneath does
(`step_recorded`). The reason is that an action knows its bus by accesses only, so it
commutes with every map of devices that passes accesses on (`BusHom`, `Commutes`).

The cycles recorded, made again one by one, lead to the bus that the step leaves, and all
of them but the last are reads or pushes (`accesses_spec`).
-/

namespace Famicom

variable {γ β : Type}

/-- The same processor on another bus. -/
def System.map (f : γ → β) (s : System γ) : System β := ⟨s.cpu, f s.bus⟩

namespace CpuM

variable {α δ : Type}

/-! ## Maps of devices -/

variable [AddressSpace γ] [AddressSpace β]

/-- Devices `γ` answer as the devices `β` that `f` finds in them. -/
structure BusHom (f : γ → β) : Prop where
  read : ∀ a b, AddressSpace.read a (f b) =
    ((AddressSpace.read a b).1, f (AddressSpace.read a b).2)
  write : ∀ a value b, AddressSpace.write a value (f b) =
    ((AddressSpace.write a value b).1, f (AddressSpace.write a value b).2)

theorem busHom_recorded : BusHom (Recorded.bus : Recorded β → β) where
  read _ _ := rfl
  write _ _ _ := rfl

/-- An outcome on the other bus. -/
def mapResult (f : γ → β) :
    EStateM.Result CpuFault (System γ) α → EStateM.Result CpuFault (System β) α
  | .ok a s => .ok a (s.map f)
  | .error e s => .error e (s.map f)

/-- The action `m'` does to the bus in `f` what `m` does to the whole. -/
def Commutes (f : γ → β) (m : CpuM γ α) (m' : CpuM β α) : Prop :=
  ∀ s, m' (s.map f) = mapResult f (m s)

omit [AddressSpace γ] [AddressSpace β] in
/-- What follows need commute only for the answers that there are. -/
theorem Commutes.seq_of {f : γ → β} {m : CpuM γ α} {m' : CpuM β α} {k : α → CpuM γ δ}
    {k' : α → CpuM β δ} {Q : α → Prop} (hm : Commutes f m m')
    (hQ : ∀ {a s t}, m s = .ok a t → Q a) (hk : ∀ a, Q a → Commutes f (k a) (k' a)) :
    Commutes f (m >>= k) (m' >>= k') := by
  intro s
  show EStateM.bind m' k' (s.map f) = mapResult f (EStateM.bind m k s)
  unfold EStateM.bind
  rw [hm s]
  cases h : m s with
  | ok a t => exact hk a (hQ h) t
  | error e t => rfl

omit [AddressSpace γ] [AddressSpace β] in
theorem Commutes.seq {f : γ → β} {m : CpuM γ α} {m' : CpuM β α} {k : α → CpuM γ δ}
    {k' : α → CpuM β δ} (hm : Commutes f m m') (hk : ∀ a, Commutes f (k a) (k' a)) :
    Commutes f (m >>= k) (m' >>= k') :=
  hm.seq_of (fun _ => trivial) fun a _ => hk a

namespace BusHom

variable {f : γ → β}

omit [AddressSpace γ] [AddressSpace β] in
theorem pure (a : α) : Commutes f (Pure.pure a) (Pure.pure a) := fun _ => rfl

omit [AddressSpace γ] [AddressSpace β] in
theorem cpu : Commutes f CpuM.cpu CpuM.cpu := fun _ => rfl

omit [AddressSpace γ] [AddressSpace β] in
theorem update (g : Cpu → Cpu) : Commutes f (update g) (update g) := fun _ => rfl

variable (hf : BusHom f)

include hf

theorem readByte (a : UInt16) : Commutes f (readByte a) (readByte a) := by
  rintro ⟨c, b⟩
  simp only [CpuM.readByte, System.map, hf.read]
  rcases AddressSpace.read a b with ⟨_ | _, _⟩ <;> rfl

theorem writeByte (a : UInt16) (value : UInt8) :
    Commutes f (writeByte a value) (writeByte a value) := by
  rintro ⟨c, b⟩
  simp only [CpuM.writeByte, System.map, hf.write]
  rcases AddressSpace.write a value b with ⟨_ | _, _⟩ <;> rfl

theorem actionClosed : ActionClosed fun _ => Commutes f where
  pure := pure
  seq := Commutes.seq
  cpu := cpu
  readByte := hf.readByte
  update := update
  writeByte := hf.writeByte

theorem fetchInstruction : Commutes f fetchInstruction fetchInstruction := by
  refine cpu.seq fun c => (hf.readByte _).seq fun opcode => ?_
  split
  · exact pure _
  · exact fun _ => rfl

theorem step : Commutes f step step := by
  have hcharge (n : Nat) : Commutes f (charge n) (charge n) := (update _).seq fun _ => pure _
  refine (update _).seq fun _ => Commutes.seq ?_ fun request => ?_
  · refine cpu.seq fun c => ?_
    dsimp only
    split
    · exact (update _).seq fun _ => pure _
    · exact pure _
  · split
    · exact (hf.actionClosed.serve _).seq fun _ => hcharge _
    · exact hf.fetchInstruction.seq fun i => (hf.actionClosed.execute i).seq fun n => hcharge n

end BusHom

/-! ## The recording of a step -/

omit [AddressSpace γ]

/-- The system with a recorder at its bus. -/
def recorded (s : System β) : System (Recorded β) := ⟨s.cpu, ⟨s.bus, []⟩⟩

/-- A step on the recorded bus ends as the step does. -/
theorem step_recorded (s : System β) :
    step s = mapResult Recorded.bus (step (recorded s)) :=
  BusHom.step busHom_recorded (recorded s)

theorem left_recorded (s : System β) :
    left step s = (left step (recorded s)).map Recorded.bus := by
  unfold left
  rw [step_recorded]
  cases step (recorded s) <;> rfl

end CpuM

namespace BusCycle

/-- The devices after the access of a cycle. -/
def replay [AddressSpace β] (b : β) : BusCycle → β
  | read a _ => (AddressSpace.read a b).2
  | write a value _ => (AddressSpace.write a value b).2

/-- A cycle as most of a step are : a read, or a write to a stack cell. -/
def isRoutine : BusCycle → Bool
  | read .. => true
  | write a .. => 0x0100 ≤ a && a ≤ 0x01FF

end BusCycle

namespace CpuM

variable [AddressSpace β]

omit [AddressSpace β] in
theorem toNat_stackAddress (sp : UInt8) : (stackAddress sp).toNat = 0x0100 + sp.toNat :=
  toNat_word sp 0x01

/-- From `r` to `t` routine cycles were recorded, and they were all that happened. -/
def Extends (r t : Recorded β) : Prop :=
  ∃ log : List BusCycle, t.cycles = r.cycles ++ log ∧ (∀ x ∈ log, x.isRoutine) ∧
    t.bus = log.foldl BusCycle.replay r.bus

theorem routine_extends : Routine (Extends (β := β)) where
  refl r := ⟨[], (List.append_nil _).symm, List.forall_mem_nil _, rfl⟩
  trans := by
    rintro r t u ⟨log, ht, hlog, hbus⟩ ⟨more, hu, hmore, hbus'⟩
    refine ⟨log ++ more, ?_, fun x hx => ?_, ?_⟩
    · rw [hu, ht, List.append_assoc]
    · exact (List.mem_append.1 hx).elim (hlog x) (hmore x)
    · rw [List.foldl_append, ← hbus, hbus']
  read _ _ := ⟨[_], rfl, List.forall_mem_singleton.2 rfl, rfl⟩
  push sp value r := by
    have hcell := toNat_stackAddress sp
    have hsp := sp.toNat_lt
    refine ⟨[_], rfl, List.forall_mem_singleton.2 ?_, rfl⟩
    simp only [BusCycle.isRoutine, Bool.and_eq_true, decide_eq_true_eq, UInt16.le_iff_toNat_le,
      hcell, UInt16.reduceToNat]
    omega

/-- The bus cycles of a step, however it ends. -/
def accesses (s : System β) : List BusCycle := (left step (recorded s)).bus.cycles

/-- A step ends with the bus that its cycles lead to, and only the last of them can be other than
routine. -/
theorem accesses_spec (s : System β) :
    (left step s).bus = (accesses s).foldl BusCycle.replay s.bus ∧
      ∃ routine last, accesses s = routine ++ last ∧ (∀ x ∈ routine, x.isRoutine) ∧
        last.length ≤ 1 := by
  obtain ⟨c, ⟨log, hcycles, hlog, hbus⟩, hend⟩ := left_step routine_extends (recorded s)
  replace hcycles : c.cycles = log := hcycles
  replace hbus : c.bus = log.foldl BusCycle.replay s.bus := hbus
  rw [left_recorded]
  rcases hend with hend | ⟨a, value, hend⟩
  · have hacc : accesses s = log := by rw [accesses, hend, hcycles]
    refine ⟨?_, log, [], by rw [hacc, List.append_nil], hlog, Nat.zero_le _⟩
    rw [hacc, ← hbus, ← hend]
    rfl
  · have hacc : accesses s =
        log ++ [.write a value (answered (AddressSpace.write a value c.bus).1)] := by
      rw [accesses, hend, ← hcycles]
      rfl
    refine ⟨?_, log, _, hacc, hlog, Nat.le_refl _⟩
    rw [hacc, List.foldl_append, ← hbus]
    exact congrArg Recorded.bus hend

end CpuM

end Famicom
