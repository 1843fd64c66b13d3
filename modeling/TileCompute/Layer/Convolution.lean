import TileCompute.Layer.Error

/-!
# TileCompute.Layer.Convolution

What all convolutions share: the taps of a kernel, where they fall in the input, and the checks of
their operands.

Activations are `[width, height, channels, batch]`, weights `[width, height, channels, features]`,
and a bias has one element per feature. Taps are taken channel by channel, row by row.
-/

namespace TileCompute

/-- A cell of a convolution kernel. -/
structure Tap where
  x : Nat
  y : Nat
  c : Nat
deriving DecidableEq, Repr

/-- The taps of a kernel in the order in which products are added. -/
def taps (width height channels : Nat) : List Tap :=
  (List.range channels).flatMap fun c =>
    (List.range height).flatMap fun y => (List.range width).map fun x => ⟨x, y, c⟩

namespace Window

/-- Input position under a tap of the window at output position `(x, y)`; none in the padding. -/
def source? (w : Window) (input : Shape) (x y : Nat) (tap : Tap) : Option (Nat × Nat) :=
  match sourceIndex? x w.strideX tap.x w.left input.x,
    sourceIndex? y w.strideY tap.y w.top input.y with
  | some ix, some iy => some (ix, iy)
  | _, _ => none

/-- The numbers formed when a tap is looked up at output position `(x, y)`. -/
def tapNumbers (w : Window) (x y : Nat) (tap : Tap) : List Nat :=
  sourceNumbers y w.strideY tap.y ++ sourceNumbers x w.strideX tap.x

/-- The numbers formed when it is looked up by someone who passes over rows in the padding. -/
def rowwiseNumbers (w : Window) (input : Shape) (x y : Nat) (tap : Tap) : List Nat :=
  if (sourceIndex? y w.strideY tap.y w.top input.y).isSome then w.tapNumbers x y tap
  else sourceNumbers y w.strideY tap.y

/-- Adds one product for every tap that falls on the input. -/
def accumulate (w : Window) (input : Shape) (x y : Nat) (taps : List Tap)
    (product : Tap → Nat × Nat → Binary32) (start : Binary32) : Binary32 :=
  taps.foldl (fun acc tap =>
    match w.source? input x y tap with
    | some position => acc + product tap position
    | none => acc) start

end Window

def biasValues (bias : Option View) (m : Memory) : Option (Array Binary32) :=
  bias.map fun b => (b.values m).toArray

def biasFor (bias : Option (Array Binary32)) (feature : Nat) : Option Binary32 :=
  bias.map fun values => values.getD feature .zero

/-- A bias has the input's type and `count` elements. -/
def checkBias (input : Layout) (bias : Option Layout) (count : Nat) (what : String) :
    Except LayerError Unit := do
  if let some bias := bias then
    checkSameType input bias
    if bias.shape.size ≠ count then throw (.biasCount bias.shape count what)

/-- A window that does not move takes no positions. -/
def Window.checkStride (w : Window) : Except LayerError Unit :=
  if w.strideX = 0 ∨ w.strideY = 0 then .error .zeroStride else .ok ()

def checkChannels (input weights : Layout) : Except LayerError Unit :=
  if weights.dim 2 = input.dim 2 then .ok ()
  else .error (.convolutionWeights weights.shape input.shape)

/-- The output has a plane for every feature and batch with an element for every position. -/
def checkFeatures (input weights output : Layout) (w : Window) : Except LayerError Unit :=
  let (width, height) := w.outputSize (input.dim 0) (input.dim 1) (weights.dim 0) (weights.dim 1)
  let features := weights.dim 3
  let batches := input.shape.upperSize 3
  if output.dim 0 = width ∧ output.dim 1 = height ∧ output.dim 2 = features
      ∧ output.shape.upperSize 3 = batches then .ok ()
  else .error (.convolutionOutput output.shape width height features batches)

def checkConvolution (input weights : Layout) (bias : Option Layout) (output : Layout)
    (w : Window) : Except LayerError Unit := do
  checkFloat input
  checkSameType input weights
  checkSameType input output
  w.checkStride
  checkChannels input weights
  checkFeatures input weights output w
  checkBias input bias (weights.dim 3) "output channels"

end TileCompute
