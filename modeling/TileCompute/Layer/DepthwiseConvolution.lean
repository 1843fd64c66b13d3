import TileCompute.Layer.Convolution

/-!
# TileCompute.Layer.DepthwiseConvolution

Convolution of every channel with a kernel of its own, three cells wide and high.

Weights are `[3, 3, channels]`, and a bias has one element per channel.
-/

namespace TileCompute

/-- A convolution channel by channel. -/
structure DepthwiseConvolution where
  input : View
  weights : View
  bias : Option View
  output : View
  window : Window
deriving DecidableEq, Repr

namespace DepthwiseConvolution

def kernel : Nat := 3

/-- The output has the input's channels and batches, with an element for every position. -/
def checkShapes (input weights output : Shape) (w : Window) : Except LayerError Unit :=
  let (width, height) := w.outputSize input.x input.y kernel kernel
  if weights.z = input.z ∧ output.x = width ∧ output.y = height ∧ output.z = input.z
      ∧ output.upperSize 3 = input.upperSize 3 then .ok ()
  else .error (.depthwiseShapes input weights output)

def configure (input weights : View) (bias : Option View) (output : View) (w : Window) :
    Except LayerError DepthwiseConvolution := do
  checkFloat input.layout
  checkSameType input.layout weights.layout
  checkSameType input.layout output.layout
  if weights.layout.shape.x ≠ kernel ∨ weights.layout.shape.y ≠ kernel then
    throw (.depthwiseWeights weights.layout.shape)
  w.checkStride
  checkShapes input.layout.shape weights.layout.shape output.layout.shape w
  checkBias input.layout (bias.map View.layout) input.layout.shape.z "channels"
  return ⟨input, weights, bias, output, w⟩

def taps : List Tap := TileCompute.taps kernel kernel 1

/-- The product of a weight and the input element under it, for an output element. -/
def product (l : DepthwiseConvolution) (s : Site) (m : Memory) (tap : Tap)
    (position : Nat × Nat) : Binary32 :=
  l.input.loadValue m (l.input.layout.site ⟨position.1, position.2, s.z, s.w⟩)
    * l.weights.loadValue m (l.weights.layout.offset3 tap.x tap.y s.z)

/-- Handles one output element, which starts from the bias of its channel. -/
def runSite (l : DepthwiseConvolution) (bias : Option (Array Binary32)) (s : Site) (m : Memory) :
    Memory :=
  let value := l.window.accumulate l.input.layout.shape s.x s.y taps
    (l.product s m) ((biasFor bias s.z).getD .zero)
  l.output.storeValue m (l.output.layout.site s) value

def run (l : DepthwiseConvolution) (m : Memory) : Memory :=
  l.output.layout.shape.launch (l.runSite (biasValues l.bias m)) m

/-- The numbers formed to find the input elements. -/
def numbers (l : DepthwiseConvolution) : List Nat :=
  l.output.layout.shape.sites.flatMap fun s =>
    taps.flatMap (l.window.rowwiseNumbers l.input.layout.shape s.x s.y)

/-- A run in machine words. -/
def run? (l : DepthwiseConvolution) (m : Memory) : Except Fault Memory := do
  checkWords l.numbers
  return l.run m

end DepthwiseConvolution

end TileCompute
