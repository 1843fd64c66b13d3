import TileCompute.Layer.Convolution
import TileCompute.Layer.MatrixProduct

/-!
# TileCompute.Layer.GemmConvolution

Convolution as a matrix product.

The input is unrolled into a matrix with one row per output position, which holds the elements
under the taps in order, zeros for taps in the padding, and a final one when there is a bias. The
weights become a matrix with one column per feature, the bias as its last row; they are reshaped
on the first run and never read again. The product is then dealt out to the output's planes.
-/

namespace TileCompute

/-- A convolution computed by a product. -/
structure GemmConvolution where
  input : View
  weights : View
  bias : Option View
  output : View
  window : Window
  /-- The weights as a matrix. -/
  matrix : View
  product : MatrixProduct
  scratch : ScratchGroup
  prepared : Bool
deriving DecidableEq, Repr

namespace GemmConvolution

/-- Scratch slots of the unrolled input and of the product. -/
def rowsSlot : Nat := 0

def productSlot : Nat := 1

/-- Steps of the product: one per tap, and one for a bias. -/
def depth (weights : Shape) (bias : Option View) : Nat :=
  weights.x * weights.y * weights.z + if bias.isSome then 1 else 0

def rowsLayout (input weights output : Layout) (bias : Option View) : Layout :=
  .packed (.ofList [depth weights.shape bias, output.shape.x * output.shape.y,
    input.shape.upperSize 3]) input.dataType

def matrixLayout (input weights : Layout) (bias : Option View) : Layout :=
  .packed (.ofList [weights.shape.w, depth weights.shape bias]) input.dataType

def productLayout (input weights output : Layout) : Layout :=
  .packed (.ofList [weights.shape.w, output.shape.x * output.shape.y, input.shape.upperSize 3])
    input.dataType

def configure (input weights : View) (bias : Option View) (output : View) (w : Window)
    (pooled : Bool) (environment : Environment) (m : Memory) :
    Except (Failure LayerError) (GemmConvolution × Memory) := do
  refuse (checkConvolution input.layout weights.layout (bias.map View.layout) output.layout w)
  let rows := rowsLayout input.layout weights.layout output.layout bias
  let matrix := matrixLayout input.layout weights.layout bias
  let result := productLayout input.layout weights.layout output.layout
  let (product, m) ←
    MatrixProduct.configure rows matrix none result ⟨.one, .zero, true, none, pooled, environment⟩ m
  let (scratch, m) := (ScratchGroup.empty pooled).manage rows m
  let (scratch, m) := scratch.manage result m
  let (matrix, m) := View.alloc matrix m
  return (⟨input, weights, bias, output, w, matrix, product, scratch, false⟩, m)

def taps (l : GemmConvolution) : List Tap :=
  let s := l.weights.layout.shape
  TileCompute.taps s.x s.y s.z

def column (l : GemmConvolution) (bias : Option (Array Binary32)) (feature : Nat) (m : Memory) :
    List Binary32 :=
  let weights := l.taps.map fun tap =>
    l.weights.loadValue m (l.weights.layout.site ⟨tap.x, tap.y, tap.c, feature⟩)
  weights ++ (biasFor bias feature).toList

def columnItem (l : GemmConvolution) (bias : Option (Array Binary32)) (item : WorkItem)
    (m : Memory) : Memory :=
  (l.column bias item.x m).zipIdx.foldl
    (fun m (value, row) => l.matrix.storeValue m (l.matrix.layout.offset2 item.x row) value) m

/-- Stores the weights as a matrix, unless that has been done. -/
def prepare (l : GemmConvolution) (m : Memory) : GemmConvolution × Memory :=
  if l.prepared then (l, m)
  else
    let grid : Grid := ⟨l.weights.layout.shape.w, 1, 1⟩
    ({ l with prepared := true }, grid.launch (l.columnItem (biasValues l.bias m)) m)

def row (l : GemmConvolution) (x y batch : Nat) (m : Memory) : List Binary32 :=
  let inputs := l.taps.map fun tap =>
    match l.window.source? l.input.layout.shape x y tap with
    | some (ix, iy) => l.input.loadValue m (l.input.layout.site ⟨ix, iy, tap.c, batch⟩)
    | none => .zero
  if l.bias.isSome then inputs ++ [.one] else inputs

def rowItem (l : GemmConvolution) (rows : View) (item : WorkItem) (m : Memory) : Memory :=
  let width := l.output.layout.shape.x
  (l.row (item.y % width) (item.y / width) item.z m).zipIdx.foldl
    (fun m (value, column) =>
      rows.storeValue m (rows.layout.offset3 column item.y item.z) value) m

def unroll (l : GemmConvolution) (rows : View) (m : Memory) : Memory :=
  let grid : Grid := ⟨1, rows.layout.dim 1, rows.layout.dim 2⟩
  grid.launch (l.rowItem rows) m

def dealSite (l : GemmConvolution) (result : View) (s : Site) (m : Memory) : Memory :=
  let position := s.y * l.output.layout.shape.x + s.x
  let value := result.loadValue m (result.layout.offset3 s.z position s.w)
  l.output.storeValue m (l.output.layout.site s) value

def deal (l : GemmConvolution) (result : View) (m : Memory) : Memory :=
  l.output.layout.shape.launch (l.dealSite result) m

def run (l : GemmConvolution) (d : Device) : GemmConvolution × Device :=
  let (l, memory) := l.prepare d.memory
  let (scope, d) := l.scratch.acquire { d with memory }
  let rows := scope.view rowsSlot
  let result := scope.view productSlot
  let d := d.onMemory (l.unroll rows)
  let (product, d) := l.product.run rows l.matrix none result d
  ({ l with product }, scope.close (d.onMemory (l.deal result)))

/-- The numbers formed to find the input elements when the input is unrolled. -/
def numbers (l : GemmConvolution) : List Nat :=
  let output := l.output.layout.shape
  let grid : Grid := ⟨1, output.x * output.y, l.input.layout.shape.upperSize 3⟩
  grid.items.flatMap fun item =>
    l.taps.flatMap (l.window.tapNumbers (item.y % output.x) (item.y / output.x))

/-- A run in machine words. -/
def run? (l : GemmConvolution) (d : Device) : Except Fault (GemmConvolution × Device) := do
  checkWords l.numbers
  return l.run d

end GemmConvolution

end TileCompute
