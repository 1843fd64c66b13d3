import TileCompute.Layer.Error
import TileCompute.Scratch.Group

/-!
# TileCompute.Layer.Softmax

Softmax along rows: `exp (beta * (x - max)) / sum`.

Every row of the first dimension is handled on its own, in three launches: the row's maximum, the
shifted exponentials with their sum, and the division. Rows are numbered through all dimensions
above the first, and the maximum and sum of a row are kept in a scratch tensor of two columns. The
sum adds exponentials before they are rounded to the output's type.
-/

namespace TileCompute

/-- A softmax of one tensor into another. -/
structure Softmax where
  input : View
  output : View
  beta : Binary32
  scratch : ScratchGroup
deriving DecidableEq, Repr

/-- Address of the first element of a row. -/
def Layout.row (l : Layout) (row : Nat) : Nat :=
  let y := l.shape.y
  let z := l.shape.z
  l.offset4 0 (row % y) (row / y % z) (row / (y * z))

namespace Softmax

def statsSlot : Nat := 0

def maxColumn : Nat := 0

def sumColumn : Nat := 1

def rows (l : Softmax) : Nat := l.input.layout.shape.upperSize 1

def columns (l : Softmax) : Nat := l.input.layout.shape.x

def statsLayout (rows : Nat) : Layout := .packed (.ofList [2, rows]) .f32

def configure (input output : View) (beta : Binary32) (pooled : Bool) (m : Memory) :
    Except LayerError (Softmax × Memory) := do
  checkFloat input.layout
  checkSameType input.layout output.layout
  checkSameShape "softmax" input.layout output.layout
  let rows := input.layout.shape.upperSize 1
  let (scratch, m) := (ScratchGroup.empty pooled).manage (statsLayout rows) m
  return (⟨input, output, beta, scratch⟩, m)

def address (v : View) (row column : Nat) : Nat := v.layout.row row + column * v.layout.stride 0

def maxItem (l : Softmax) (stats : View) (item : WorkItem) (m : Memory) : Memory :=
  let row := item.y
  let max := (List.range l.columns).foldl
    (fun acc i => acc.max (l.input.loadValue m (address l.input row i))) .negInfinity
  stats.storeValue m (stats.layout.offset2 maxColumn row) max

def shifted (l : Softmax) (max x : Binary32) : Binary32 := ((x - max) * l.beta).exp

def exponentialItem (l : Softmax) (stats : View) (item : WorkItem) (m : Memory) : Memory :=
  let row := item.y
  let max := stats.loadValue m (stats.layout.offset2 maxColumn row)
  let (m, sum) := (List.range l.columns).foldl
    (fun (m, sum) i =>
      let value := l.shifted max (l.input.loadValue m (address l.input row i))
      (l.output.storeValue m (address l.output row i) value, sum + value))
    (m, Binary32.zero)
  stats.storeValue m (stats.layout.offset2 sumColumn row) sum

def divideItem (l : Softmax) (stats : View) (item : WorkItem) (m : Memory) : Memory :=
  let row := item.y
  let sum := stats.loadValue m (stats.layout.offset2 sumColumn row)
  (List.range l.columns).foldl
    (fun m i =>
      let offset := address l.output row i
      l.output.storeValue m offset (l.output.loadValue m offset / sum)) m

def grid (l : Softmax) : Grid := ⟨1, l.rows, 1⟩

def runWith (l : Softmax) (stats : View) (m : Memory) : Memory :=
  let m := l.grid.launch (l.maxItem stats) m
  let m := l.grid.launch (l.exponentialItem stats) m
  l.grid.launch (l.divideItem stats) m

def run (l : Softmax) (d : Device) : Device :=
  let (scope, d) := l.scratch.acquire d
  scope.close (d.onMemory (l.runWith (scope.view statsSlot)))

end Softmax

end TileCompute
