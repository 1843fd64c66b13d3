import TileCompute.Layer.Convolution
import TileCompute.Layer.MatrixProduct

/-!
# TileCompute.Layer.FullyConnected

Fully connected layers: `output = input * transposed weights + bias`.

The input is flattened to one row per batch. Weights are `[inputs, outputs]`; they are transposed
on the first run and never read again. The bias is added to every row of the output.
-/

namespace TileCompute

/-- A fully connected layer, its input and output as matrices. -/
structure FullyConnected where
  input : View
  weights : View
  bias : Option View
  output : View
  transpose : Reshape
  /-- The transposed weights. -/
  matrix : View
  product : MatrixProduct
  prepared : Bool
deriving DecidableEq, Repr

namespace FullyConnected

def outputs (output : Shape) : Nat := output.x

def batches (output : Shape) : Nat := output.upperSize 1

def inputs (input output : Shape) : Nat := input.size / max (batches output) 1

/-- The weights connect every input to every output, and the rows use the input up. -/
def checkShapes (input weights output : Shape) : Except LayerError Unit :=
  let count := inputs input output
  if weights.x = count ∧ weights.y = outputs output
      ∧ count * batches output = input.size then .ok ()
  else .error (.fullyConnectedShapes input weights output)

def check (input weights : Layout) (bias : Option Layout) (output : Layout) :
    Except LayerError Unit := do
  checkFloat input
  checkSameType input weights
  checkSameType input output
  checkShapes input.shape weights.shape output.shape
  checkBias input bias (outputs output.shape) "outputs"

def configure (input weights : View) (bias : Option View) (output : View) (pooled : Bool)
    (environment : Environment) (m : Memory) :
    Except (Failure LayerError) (FullyConnected × Memory) := do
  refuse (check input.layout weights.layout (bias.map View.layout) output.layout)
  let out := output.layout.shape
  let rows ← refuse (input.reinterpret (.ofList [inputs input.layout.shape out, batches out]))
  let result ← refuse (output.reinterpret (.ofList [outputs out, batches out]))
  let matrix ← raise (Arrangement.transposed.outputLayout weights.layout)
  let transpose ← refuse (kernelResult (Reshape.configure .transposed weights.layout matrix))
  let (product, m) ← MatrixProduct.configure rows.layout matrix none result.layout
    ⟨.one, .zero, true, none, pooled, environment⟩ m
  let (matrix, m) := View.alloc matrix m
  return (⟨rows, weights, bias, result, transpose, matrix, product, false⟩, m)

/-- Transposes the weights, unless that has been done. -/
def prepare (l : FullyConnected) (m : Memory) : FullyConnected × Memory :=
  if l.prepared then (l, m)
  else ({ l with prepared := true }, l.transpose.run l.weights.buffer l.matrix.buffer m)

def biasItem (l : FullyConnected) (bias : View) (item : WorkItem) (m : Memory) : Memory :=
  let offset := l.output.layout.offset2 item.x item.y
  let value := bias.loadValue m (bias.layout.offset2 item.x 0)
  l.output.storeValue m offset (l.output.loadValue m offset + value)

def addBias (l : FullyConnected) (m : Memory) : Memory :=
  match l.bias with
  | some bias =>
    let shape := l.output.layout.shape
    Grid.launch ⟨shape.x, shape.y, 1⟩ (l.biasItem bias) m
  | none => m

def run (l : FullyConnected) (d : Device) : FullyConnected × Device :=
  let (l, memory) := l.prepare d.memory
  let (product, d) := l.product.run l.input l.matrix none l.output { d with memory }
  let l := { l with product }
  (l, d.onMemory l.addBias)

end FullyConnected

end TileCompute
