import TileCompute.Element
import TileCompute.Target.Basic

/-!
# TileCompute.Kernel.Tile

The accumulators of one work-item and the schedules that feed them.

A tile holds four rows of sixteen accumulators, of which `rows` by `cols` are in use. A schedule
walks the reduction in blocks of `unroll` steps and finishes with single steps: Midgard loads the
operands of a step and multiplies them at once, Bifrost loads a whole block before it multiplies.
Either way accumulator `(i, j)` receives the products in the order of the reduction.
-/

namespace TileCompute

/-- Accumulators of a work-item, row by row. -/
structure Tile (α : Type) [Element α] where
  acc : Vector (Element.Acc α) 64
  rows : Nat
  cols : Nat

namespace Tile

variable {α : Type} [Element α]

/-- A tile with every accumulator at zero. -/
def zero (α : Type) [Element α] (frac rows cols : Nat) : Tile α :=
  ⟨Vector.replicate 64 (Element.accZero frac), rows, cols⟩

def slot (i j : Nat) : Nat := i * maxTileCols + j

def modify (t : Tile α) (i j : Nat) (f : Element.Acc α → Element.Acc α) : Tile α :=
  if h : slot i j < 64 then { t with acc := t.acc.set (slot i j) (f t.acc[slot i j]) } else t

def cells (rows cols : Nat) : List (Nat × Nat) :=
  (List.range rows).flatMap fun i => (List.range cols).map fun j => (i, j)

/-- Adds the products of a column of `A` and a row of `B` to the accumulators in use. -/
def step (mac : Element.Acc α → α → α → Element.Acc α) (a b : Nat → α) (t : Tile α) : Tile α :=
  (cells t.rows t.cols).foldl (fun t (i, j) => t.modify i j fun acc => mac acc (a i) (b j)) t

end Tile

namespace Target

def unroll : Target → Nat
  | midgard => 2
  | bifrost => 8

def mac {α : Type} [Element α] (target : Target) (frac : Nat) :
    Element.Acc α → α → α → Element.Acc α :=
  match target with
  | midgard => Element.mulAdd frac
  | bifrost => Element.fusedMulAdd frac

section Accumulate

variable {M : Type → Type} [Monad M] {α : Type} [Element α]

/-- Reads operands once, so that a step does not load them again. -/
def stageIn (count : Nat) (load : Nat → M α) : M (Nat → α) := do
  let loaded ← (List.range count).mapM load
  let staged := loaded.toArray
  return fun i => staged.getD i (Element.ofWord 0)

/-- One step of the reduction on its own. -/
def stepIn (target : Target) (frac : Nat) (loadA loadB : Nat → Nat → M α) (k : Nat) (t : Tile α) :
    M (Tile α) := do
  let columns ← stageIn t.cols (loadB k)
  let rows ← stageIn t.rows (loadA k)
  return t.step (target.mac frac) rows columns

/-- One block of the reduction from step `k` on: Midgard reads step by step, Bifrost the whole block
before the first step. -/
def accumulateBlockIn (target : Target) (frac : Nat) (loadA loadB : Nat → Nat → M α) (k : Nat)
    (t : Tile α) : M (Tile α) :=
  match target with
  | midgard =>
    (List.range' k midgard.unroll).foldlM (fun t k => midgard.stepIn frac loadA loadB k t) t
  | bifrost => do
    let staged ← (List.range' k bifrost.unroll).mapM fun k => do
      let rows ← stageIn t.rows (loadA k)
      let columns ← stageIn t.cols (loadB k)
      return (rows, columns)
    return staged.foldl (fun t (a, b) => t.step (bifrost.mac frac) a b) t

/-- Accumulates `depth` steps: whole blocks, then single steps. `loadA k i` reads the element of `A`
for row `i` at step `k`, `loadB k j` that of `B` for column `j`. -/
def accumulateIn (target : Target) (frac : Nat) (loadA loadB : Nat → Nat → M α) (depth : Nat)
    (t : Tile α) : M (Tile α) := do
  let blocks := depth / target.unroll
  let t ← (List.range blocks).foldlM (fun t block =>
    target.accumulateBlockIn frac loadA loadB (block * target.unroll) t) t
  (List.range' (blocks * target.unroll) (depth % target.unroll)).foldlM (fun t k =>
    target.stepIn frac loadA loadB k t) t

/-- The accumulators after operands that are all there. -/
def accumulate (target : Target) (frac depth : Nat) (a b : Nat → Nat → α) (t : Tile α) : Tile α :=
  Id.run (target.accumulateIn frac (fun k i => pure (a k i)) (fun k j => pure (b k j)) depth t)

/-- The accumulators, if every operand that is read is there. -/
def accumulate? (target : Target) (frac : Nat) (a b : Nat → Nat → Option α) (depth : Nat)
    (t : Tile α) : Option (Tile α) :=
  target.accumulateIn frac a b depth t

end Accumulate

end Target

namespace Tile

variable {α : Type} [Element α]

/-- The products of two packed operands: step `k` takes its rows from `a` at `k * rows` and its
columns from `b` at `k * cols`. There is none for a tile with more rows or columns than it has
accumulators, or for an operand that ends before the last step. -/
def ofOperands? (target : Target) (frac rows cols depth : Nat) (a b : Array α) :
    Option (Tile α) :=
  if rows ≤ maxTileRows ∧ cols ≤ maxTileCols ∧ depth * rows ≤ a.size ∧ depth * cols ≤ b.size then
    some (target.accumulate frac depth (fun k i => a.getD (k * rows + i) (Element.ofWord 0))
      (fun k j => b.getD (k * cols + j) (Element.ofWord 0)) (zero α frac rows cols))
  else none

/-- The element of an accumulator: narrowed, then scaled if there is a factor. Positions outside
the tile hold zero. -/
def result (t : Tile α) (frac : Nat) (alpha : Option α) (i j : Nat) : α :=
  let acc := (t.acc[slot i j]?).getD (Element.accZero frac)
  let value := Element.narrow frac acc
  match alpha with
  | some alpha => Element.scale frac value alpha
  | none => value

/-- The elements of the first rows and columns, row by row. A tile has no more than its
accumulators. -/
def stored? (t : Tile α) (frac : Nat) (alpha : Option α) (rows cols : Nat) :
    Option (List (Nat × Nat × α)) :=
  if (maxTileRows < rows ∧ 0 < cols) ∨ (maxTileCols < cols ∧ 0 < rows) then none
  else some ((cells rows cols).map fun (i, j) => (i, j, t.result frac alpha i j))

end Tile

end TileCompute
