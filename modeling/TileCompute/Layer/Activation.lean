import TileCompute.Layer.Error

/-!
# TileCompute.Layer.Activation

Functions applied to every element, and the layer that applies one.
-/

namespace TileCompute

/-- The shape of an activation function of `x` with parameters `a` and `b`. -/
inductive ActivationKind where
  | logistic
  | relu
  /-- `min (max x 0) a` -/
  | boundedRelu
  /-- `min (max x b) a` -/
  | luBoundedRelu
  /-- `x` above zero, `a * x` elsewhere -/
  | leakyRelu
  /-- `log (1 + exp x)` -/
  | softRelu
  | abs
  | square
  | sqrt
  /-- `a * x + b` -/
  | linear
  /-- `a * tanh (b * x)` -/
  | tanh
deriving DecidableEq, Repr

def ActivationKind.name : ActivationKind → String
  | logistic => "Logistic"
  | relu => "Relu"
  | boundedRelu => "BoundedRelu"
  | luBoundedRelu => "LuBoundedRelu"
  | leakyRelu => "LeakyRelu"
  | softRelu => "SoftRelu"
  | abs => "Abs"
  | square => "Square"
  | sqrt => "Sqrt"
  | linear => "Linear"
  | tanh => "Tanh"

/-- An activation function with its parameters. -/
structure Activation where
  kind : ActivationKind
  a : Binary32
  b : Binary32
deriving DecidableEq, Repr

namespace Activation

def relu : Activation := ⟨.relu, .zero, .zero⟩

/-- The function's value at `x`. -/
def apply (f : Activation) (x : Binary32) : Binary32 :=
  match f.kind with
  | .logistic => .one / (.one + (-x).exp)
  | .relu => x.max .zero
  | .boundedRelu => (x.max .zero).min f.a
  | .luBoundedRelu => (x.max f.b).min f.a
  | .leakyRelu => if Binary32.zero.lt x then x else f.a * x
  | .softRelu => x.exp.log1p
  | .abs => x.abs
  | .square => x * x
  | .sqrt => x.sqrt
  | .linear => f.a * x + f.b
  | .tanh => f.a * (f.b * x).tanh

end Activation

/-- An activation of one tensor into another, or in place. -/
structure ActivationLayer where
  input : View
  output : Option View
  activation : Activation
deriving DecidableEq, Repr

namespace ActivationLayer

/-- Accepts a floating tensor and an output of its type and shape, or none to work in place. -/
def configure (input : View) (output : Option View) (activation : Activation) :
    Except LayerError ActivationLayer := do
  checkFloat input.layout
  if let some output := output then
    checkSameType input.layout output.layout
    checkSameShape "activation" input.layout output.layout
  return ⟨input, output, activation⟩

def target (l : ActivationLayer) : View := l.output.getD l.input

def runSite (l : ActivationLayer) (s : Site) (m : Memory) : Memory :=
  let value := l.input.loadValue m (l.input.layout.site s)
  l.target.storeValue m (l.target.layout.site s) (l.activation.apply value)

def run (l : ActivationLayer) (m : Memory) : Memory :=
  l.input.layout.shape.launch l.runSite m

end ActivationLayer

end TileCompute
