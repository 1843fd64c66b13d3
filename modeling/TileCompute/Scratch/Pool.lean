import TileCompute.Memory

/-!
# TileCompute.Scratch.Pool

Reusable buffers.

A pool keeps the buffers that nobody holds. A request takes the shortest free buffer that is long
enough, the earliest of several; only when there is none is a new one allocated, of exactly the
requested length. A released buffer goes to the end of the free list, and the last free buffer
moves into the place of one that is taken.
-/

namespace TileCompute

/-- A buffer with its length. -/
structure Block where
  buffer : BufferId
  size : Nat
deriving DecidableEq, Repr, Inhabited

/-- Free buffers and the number of buffers ever allocated. -/
structure Pool where
  free : List Block
  allocations : Nat
deriving DecidableEq, Repr

def Pool.empty : Pool := ⟨[], 0⟩

/-- Memory together with the pool that hands out parts of it. -/
structure Device where
  memory : Memory
  pool : Pool
deriving DecidableEq, Repr

def Device.ofMemory (memory : Memory) : Device := ⟨memory, .empty⟩

namespace Pool

/-- Position of the shortest block of at least `size` bytes, the first of several. -/
def bestFit (size : Nat) : List Block → Option Nat
  | [] => none
  | block :: rest =>
    match bestFit size rest with
    | none => if size ≤ block.size then some 0 else none
    | some i =>
      if size ≤ block.size ∧ block.size ≤ (rest.getD i default).size then some 0 else some (i + 1)

/-- Removes a position, moving the last element into it. -/
def swapRemove {α : Type} (xs : List α) (i : Nat) : List α :=
  match xs.getLast? with
  | some last => (xs.set i last).dropLast
  | none => []

end Pool

namespace Device

def onMemory (d : Device) (f : Memory → Memory) : Device := { d with memory := f d.memory }

/-- Takes a block of at least `size` bytes. -/
def acquire (d : Device) (size : Nat) : Block × Device :=
  match Pool.bestFit size d.pool.free with
  | some i =>
    (d.pool.free.getD i default, { d with pool.free := Pool.swapRemove d.pool.free i })
  | none =>
    let (buffer, memory) := d.memory.alloc size
    (⟨buffer, size⟩, ⟨memory, { d.pool with allocations := d.pool.allocations + 1 }⟩)

def release (d : Device) (block : Block) : Device :=
  { d with pool.free := d.pool.free ++ [block] }

end Device

end TileCompute
