/-!
# TileCompute.Memory

Byte buffers and the words kernels move through them.

A memory is a list of buffers named by their position. A word is a little-endian number of a few
bytes. Reading past the end of a buffer gives zero bytes and writing there changes nothing, so
every operation is total; that kernels never do so is a matter for their theorems.

* `byte_setByte`: a written byte is read back and every other byte stays.
-/

namespace TileCompute

/-- Position of a buffer in memory. -/
abbrev BufferId := Nat

/-- Every buffer that has been allocated; none is ever freed. -/
structure Memory where
  buffers : Array (Array UInt8)
deriving DecidableEq, Repr, Inhabited

namespace Memory

def empty : Memory := ⟨#[]⟩

def size (m : Memory) (b : BufferId) : Nat := (m.buffers.getD b #[]).size

def push (m : Memory) (bytes : Array UInt8) : BufferId × Memory :=
  (m.buffers.size, ⟨m.buffers.push bytes⟩)

/-- Adds a buffer of `size` zero bytes. -/
def alloc (m : Memory) (size : Nat) : BufferId × Memory := m.push (Array.replicate size 0)

def byte (m : Memory) (b : BufferId) (i : Nat) : UInt8 := (m.buffers.getD b #[]).getD i 0

def setByte (m : Memory) (b : BufferId) (i : Nat) (v : UInt8) : Memory :=
  ⟨m.buffers.modify b fun bytes => bytes.setIfInBounds i v⟩

/-- Reads a word of `size` bytes. -/
def load (m : Memory) (b : BufferId) (i : Nat) : (size : Nat) → Nat
  | 0 => 0
  | size + 1 => (m.byte b i).toNat + 256 * m.load b (i + 1) size

/-- Writes the low `size` bytes of a word. -/
def store (m : Memory) (b : BufferId) (i : Nat) : (size : Nat) → (word : Nat) → Memory
  | 0, _ => m
  | size + 1, word => (m.setByte b i (UInt8.ofNat word)).store b (i + 1) size (word / 256)

def bytes (m : Memory) (b : BufferId) : Array UInt8 := m.buffers.getD b #[]

@[simp] theorem size_setByte (m : Memory) (b c : BufferId) (i : Nat) (v : UInt8) :
    (m.setByte b i v).size c = m.size c := by
  simp only [size, setByte, Array.getD_eq_getD_getElem?, Array.getElem?_modify]
  split
  · cases m.buffers[c]? <;> simp
  · rfl

theorem byte_setByte (m : Memory) (b c : BufferId) (i j : Nat) (v : UInt8) :
    (m.setByte b i v).byte c j = if b = c ∧ i = j ∧ j < m.size c then v else m.byte c j := by
  simp only [byte, setByte, size, Array.getD_eq_getD_getElem?, Array.getElem?_modify]
  by_cases hb : b = c
  · subst hb
    cases hbuf : m.buffers[b]? with
    | none => simp
    | some bytes =>
      by_cases hi : i = j
      · subst hi
        by_cases hlt : i < bytes.size <;> simp [hlt]
      · simp [hi, Array.getElem?_setIfInBounds_ne]
  · simp [hb]

end Memory

end TileCompute
