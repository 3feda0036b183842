/-!
# Memory

`Memory size` is a block of exactly `size` bytes, the RAM behind an address range.
The index of a `read` or a `write` is taken modulo the size, so every access of a
nonempty memory lands on a cell of it : this is how a small memory fills a larger
range. `read_write` says what a write does to the cells.
-/

namespace Famicom

/-- The size leaves room for an index. -/
abbrev HasCells (size : Nat) : Prop := @NeZero Nat Zero.ofOfNat0 size

/-- A block of `size` bytes. -/
structure Memory (size : Nat) where
  bytes : ByteArray
  size_bytes : bytes.size = size

namespace Memory

variable {size : Nat}

/-- The memory whose cells all hold `value`. -/
def filled (size : Nat) (value : UInt8) : Memory size :=
  ⟨⟨Array.replicate size value⟩, by simp [ByteArray.size]⟩

/-- The memory whose cells all hold zero. -/
def zeros (size : Nat) : Memory size := filled size 0

theorem mod_lt_size_bytes [HasCells size] (m : Memory size) (i : Nat) :
    i % size < m.bytes.size := by
  rw [m.size_bytes]
  exact Nat.mod_lt _ (Nat.pos_of_ne_zero (NeZero.ne size))

/-- The cell at `i` modulo the size. -/
def read [HasCells size] (m : Memory size) (i : Nat) : UInt8 :=
  m.bytes.get (i % size) (m.mod_lt_size_bytes i)

/-- Store `value` in the cell at `i` modulo the size. -/
def write [HasCells size] : Memory size → Nat → UInt8 → Memory size
  | ⟨bytes, h⟩, i, value =>
    ⟨bytes.set (i % size) value (mod_lt_size_bytes ⟨bytes, h⟩ i),
      (Array.size_set ..).trans h⟩

/-- All cells in order. -/
def toList (m : Memory size) : List UInt8 := m.bytes.data.toList

theorem length_toList (m : Memory size) : m.toList.length = size := by
  rw [toList, Array.length_toList]
  exact m.size_bytes

/-- Indices that agree modulo the size name the same cell. -/
theorem read_congr [HasCells size] (m : Memory size) {i j : Nat} (h : i % size = j % size) :
    m.read i = m.read j := by
  have hget (k l : Nat) (hk : k < m.bytes.size) (hl : l < m.bytes.size) (hkl : k = l) :
      m.bytes.get k hk = m.bytes.get l hl := by
    subst hkl
    rfl
  exact hget _ _ _ _ h

theorem exists_read_of_mem_toList [HasCells size] {m : Memory size} {value : UInt8}
    (h : value ∈ m.toList) : ∃ i, m.read i = value := by
  obtain ⟨i, hi, rfl⟩ := List.getElem_of_mem h
  have hcell (k : Nat) (hk : k < m.bytes.size) (hki : k = i) : m.bytes.get k hk = m.toList[i] := by
    subst hki
    rfl
  rw [length_toList] at hi
  exact ⟨i, hcell _ _ (Nat.mod_eq_of_lt hi)⟩

theorem read_filled [HasCells size] (value : UInt8) (i : Nat) :
    (filled size value).read i = value :=
  Array.getElem_replicate ..

/-- A write changes the cell it names and no other. -/
theorem read_write [HasCells size] (m : Memory size) (i j : Nat) (value : UInt8) :
    (m.write i value).read j = if j % size = i % size then value else m.read j := by
  obtain ⟨⟨data⟩, h⟩ := m
  have hi : i % size < data.size := mod_lt_size_bytes ⟨⟨data⟩, h⟩ i
  refine (Array.getElem_set hi _).trans ?_
  by_cases hcell : j % size = i % size
  · rw [if_pos hcell, if_pos hcell.symm]
  · rw [if_neg hcell, if_neg fun heq => hcell heq.symm]
    rfl

/-- Two memories with the same cells are equal. -/
theorem ext_read [HasCells size] {m n : Memory size} (h : ∀ i < size, m.read i = n.read i) :
    m = n := by
  obtain ⟨⟨a⟩, ha⟩ := m
  obtain ⟨⟨b⟩, hb⟩ := n
  have hab : a = b := by
    have sa : a.size = size := ha
    have sb : b.size = size := hb
    have hcell (i k : Nat) (hi : i < size) (ha : k < a.size) (hb : k < b.size)
        (hk : k = i % size) : a[k] = b[k] := by
      subst hk
      exact h i hi
    refine Array.ext (by rw [sa, sb]) fun i hi hi' => ?_
    exact hcell i i (by omega) hi hi' (Nat.mod_eq_of_lt (by omega)).symm
  subst hab
  rfl

end Memory

end Famicom
