import ChipEight.Word

/-!
# Memory

4096 bytes under twelve-bit addresses.  Runs of bytes are stored and read from
an address upwards and wrap from the last address to the first.
-/

namespace ChipEight

structure Memory where
  cells : Vector Byte 4096
deriving DecidableEq, Repr

namespace Memory

def size : Nat := 4096

/-- Memory with every byte zero. -/
def zero : Memory := ⟨Vector.replicate 4096 0⟩

def read (memory : Memory) (a : Address) : Byte :=
  have bounded := a.toNat_lt_size
  memory.cells[a.toNat]

def write (memory : Memory) (a : Address) (b : Byte) : Memory :=
  ⟨memory.cells.set a.toNat b a.toNat_lt_size⟩

/-- Store a run of bytes from an address upwards. -/
def store (memory : Memory) (a : Address) : List Byte → Memory
  | [] => memory
  | b :: bytes => (memory.write a b).store (a + 1) bytes

/-- The `count` bytes from an address upwards. -/
def window (memory : Memory) (a : Address) (count : Nat) : List Byte :=
  (List.range count).map fun k => memory.read (a + BitVec.ofNat 12 k)

/-- The big-endian word whose first byte is at an address. -/
def wordAt (memory : Memory) (a : Address) : Word :=
  Word.ofBytes (memory.read a) (memory.read (a + 1))

/-! ## Reading back -/

@[simp] theorem read_zero (a : Address) : zero.read a = 0 := by
  simp [zero, read]

theorem read_write (memory : Memory) (a c : Address) (b : Byte) :
    (memory.write a b).read c = if a = c then b else memory.read c := by
  simp only [read, write, Vector.getElem_set]
  by_cases h : a = c
  · simp [h]
  · have hne : ¬a.toNat = c.toNat := fun heq => h (BitVec.eq_of_toNat_eq heq)
    simp [h, hne]

@[simp] theorem read_write_self (memory : Memory) (a : Address) (b : Byte) :
    (memory.write a b).read a = b := by
  simp [read_write]

theorem read_write_of_ne (memory : Memory) {a c : Address} (b : Byte)
    (h : a ≠ c) : (memory.write a b).read c = memory.read c := by
  simp [read_write, h]

/-- A stored run of bytes that does not overlap itself is read back in place,
and all other bytes stay. -/
theorem read_store (memory : Memory) (a c : Address) (bytes : List Byte)
    (hfits : bytes.length ≤ 4096) :
    (memory.store a bytes).read c =
      bytes[(c - a).toNat]?.getD (memory.read c) := by
  induction bytes generalizing memory a with
  | nil => simp [store]
  | cons b rest ih =>
    have hrest : rest.length < 4096 := by
      simpa [Nat.succ_le_iff] using hfits
    have ha := a.toNat_lt_size
    have hc := c.toNat_lt_size
    have hone : (1 : Address).toNat = 1 := rfl
    rw [store, ih _ _ (by omega)]
    by_cases hsame : c = a
    · subst hsame
      have hlast : (c - (c + 1)).toNat = 4095 := by
        rw [BitVec.toNat_sub, BitVec.toNat_add, hone]
        omega
      have hbeyond : rest[4095]? = none :=
        List.getElem?_eq_none (by omega)
      rw [hlast, hbeyond]
      simp
    · have hne : c.toNat ≠ a.toNat :=
        fun h => hsame (BitVec.eq_of_toNat_eq h)
      have hnext : (c - a).toNat = (c - (a + 1)).toNat + 1 := by
        rw [BitVec.toNat_sub, BitVec.toNat_sub, BitVec.toNat_add, hone]
        omega
      rw [hnext, List.getElem?_cons_succ,
        read_write_of_ne _ _ (Ne.symm hsame)]

@[ext] theorem ext {left right : Memory}
    (h : ∀ a, left.read a = right.read a) : left = right := by
  obtain ⟨l⟩ := left
  obtain ⟨r⟩ := right
  congr
  apply Vector.ext
  intro k hk
  have hsame := h (BitVec.ofNat 12 k)
  simpa [read, Nat.mod_eq_of_lt hk] using hsame

@[simp] theorem length_window (memory : Memory) (a : Address) (count : Nat) :
    (memory.window a count).length = count := by
  simp [window]

theorem getElem?_window
    (memory : Memory) (a : Address) (count k : Nat) :
    (memory.window a count)[k]? =
      if k < count then some (memory.read (a + BitVec.ofNat 12 k))
      else none := by
  by_cases inside : k < count
  · simp [window, inside]
  · have beyond : (memory.window a count).length ≤ k := by
      rw [length_window]
      exact Nat.not_lt.mp inside
    rw [if_neg inside, List.getElem?_eq_none beyond]

/-! ## Runs in parts -/

theorem store_append
    (memory : Memory) (a : Address) (first second : List Byte) :
    memory.store a (first ++ second) =
      (memory.store a first).store (a + BitVec.ofNat 12 first.length)
        second := by
  induction first generalizing memory a with
  | nil =>
      simp [store]
  | cons b rest inductionHypothesis =>
      have sameStart :
          a + BitVec.ofNat 12 (rest.length + 1) =
            a + 1 + BitVec.ofNat 12 rest.length := by
        rw [BitVec.ofNat_add, BitVec.add_assoc, BitVec.add_comm 1]
        rfl
      rw [List.cons_append, store, inductionHypothesis, store,
        List.length_cons, sameStart]

theorem window_succ (memory : Memory) (a : Address) (count : Nat) :
    memory.window a (count + 1) =
      memory.window a count ++
        [memory.read (a + BitVec.ofNat 12 count)] := by
  simp [window, List.range_succ]

end Memory

end ChipEight
