import TileCompute.Layer.Convolution

/-!
# TileCompute.Layer.DirectConvolution

Convolution by sliding the kernel over the input, for square kernels of one, three or five cells.
-/

namespace TileCompute

/-- A convolution computed element by element. -/
structure DirectConvolution where
  input : View
  weights : View
  bias : Option View
  output : View
  window : Window
deriving DecidableEq, Repr

namespace DirectConvolution

def sizes : List Nat := [1, 3, 5]

def configure (input weights : View) (bias : Option View) (output : View) (w : Window) :
    Except LayerError DirectConvolution := do
  checkConvolution input.layout weights.layout (bias.map View.layout) output.layout w
  let kernel := weights.layout.shape
  if kernel.x ≠ kernel.y ∨ kernel.x ∉ sizes then throw (.directKernel kernel.x kernel.y)
  return ⟨input, weights, bias, output, w⟩

def taps (l : DirectConvolution) : List Tap :=
  TileCompute.taps (l.weights.layout.dim 0) (l.weights.layout.dim 0) (l.input.layout.dim 2)

/-- The product of a weight and the input element under it, for an output element. -/
def product (l : DirectConvolution) (s : Site) (m : Memory) (tap : Tap) (position : Nat × Nat) :
    Binary32 :=
  l.input.loadValue m (l.input.layout.site ⟨position.1, position.2, tap.c, s.w⟩)
    * l.weights.loadValue m (l.weights.layout.site ⟨tap.x, tap.y, tap.c, s.z⟩)

/-- Handles one output element, which starts from the bias of its feature. -/
def runSite (l : DirectConvolution) (bias : Option (Array Binary32)) (s : Site) (m : Memory) :
    Memory :=
  let value := l.window.accumulate l.input.layout.shape s.x s.y l.taps (l.product s m)
    ((biasFor bias s.z).getD .zero)
  l.output.storeValue m (l.output.layout.site s) value

def run (l : DirectConvolution) (m : Memory) : Memory :=
  l.output.layout.shape.launch (l.runSite (biasValues l.bias m)) m

/-- The numbers formed to find the input elements. -/
def numbers (l : DirectConvolution) : List Nat :=
  l.output.layout.shape.sites.flatMap fun s =>
    l.taps.flatMap (l.window.rowwiseNumbers l.input.layout.shape s.x s.y)

/-- A run in machine words. -/
def run? (l : DirectConvolution) (m : Memory) : Except Fault Memory := do
  checkWords l.numbers
  return l.run m

end DirectConvolution

end TileCompute
