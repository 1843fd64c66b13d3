import TileCompute.Graph.Context
import TileCompute.Graph.Node
import TileCompute.Layer

/-!
# TileCompute.Graph.Lowering

From nodes to configured layers.

`Node.create` gives the layer of a node, or none for a node that computes nothing. Wrong operands
of the graph itself are faults, found in this order: the numbers of operands, then each operand in
turn, then a method that no layer has. What a layer refuses is an error. `Node.log` is what is said
about it: that the node is being created, and on success what came of it.
-/

namespace TileCompute

/-- The layer of a node, the report on it, and the memory with what the layer allocated. -/
structure Created where
  layer : Layer
  report : String
  memory : Memory
deriving DecidableEq, Repr

namespace Created

/-- The opening of a report: the layer and the data type it works on. -/
def opening (l : Layer) (v : View) : String :=
  s!"Instantiated {l.name} Data Type: {v.layout.dataType.text}"

def shapeReport (l : Layer) (v : View) : String :=
  opening l v ++ s!" Shape: {v.layout.shape.text}"

def shapesReport (l : Layer) (input output : View) : String :=
  opening l input
    ++ s!" Input shape: {input.layout.shape.text} Output shape: {output.layout.shape.text}"

end Created

/-- The tensors of a node with weights. -/
structure WeightedOperands where
  input : View
  weights : View
  bias : Option View
  output : View
deriving DecidableEq, Repr

namespace WeightedOperands

def report (o : WeightedOperands) (l : Layer) : String :=
  Created.opening l o.input
    ++ s!" Input shape: {o.input.layout.shape.text} Weights shape: {o.weights.layout.shape.text}"
    ++ s!" Output shape: {o.output.layout.shape.text}"

end WeightedOperands

namespace Node

def weightedOperands (n : Node) : Except Fault WeightedOperands := do
  n.checkCounts 3 1
  let input ← n.required (n.input 0) "input"
  let weights ← n.required (n.input 1) "weights"
  let bias ← backingTensor (n.input 2)
  let output ← n.required (n.output 0) "output"
  return ⟨input, weights, bias, output⟩

def unaryOperands (n : Node) : Except Fault (View × View) := do
  n.checkCounts 1 1
  let input ← n.required (n.input 0) "input"
  let output ← n.required (n.output 0) "output"
  return (input, output)

/-- An activation works in place when its output has no memory or shares the input's. -/
def createActivation (n : Node) (f : Activation) (m : Memory) :
    Except (Failure LayerError) Created := do
  raise (n.checkCounts 1 1)
  let input ← raise (n.required (n.input 0) "input")
  let output ← raise (backingTensor (n.output 0))
  let separate := output.filter fun o => o.buffer ≠ input.buffer
  let layer := Layer.activation (← refuse (ActivationLayer.configure input separate f))
  return ⟨layer, Created.shapeReport layer input
    ++ s!" Activation function: {f.kind.name} a: {f.a.toText} b: {f.b.toText}"
    ++ s!" InPlace : {separate.isNone}", m⟩

def createBatchNormalization (n : Node) (epsilon : Binary32) (fused : Option Activation)
    (m : Memory) : Except (Failure LayerError) Created := do
  raise (n.checkCounts 5 1)
  let input ← raise (n.required (n.input 0) "input")
  let mean ← raise (n.required (n.input 1) "mean")
  let variance ← raise (n.required (n.input 2) "variance")
  let beta ← raise (backingTensor (n.input 3))
  let gamma ← raise (backingTensor (n.input 4))
  let output ← raise (n.required (n.output 0) "output")
  let layer := Layer.batchNormalization
    (← refuse (BatchNormalization.configure input output mean variance beta gamma epsilon fused))
  let activation :=
    match fused with
    | some f => s!" {f.kind.name} Activation"
    | none => ""
  return ⟨layer, Created.shapeReport layer input
    ++ s!" Epsilon: {epsilon.toText} InPlace : {decide (input.buffer = output.buffer)}"
    ++ activation, m⟩

def createConvolution (n : Node) (c : Context) (w : Window) (method : ConvolutionMethod)
    (m : Memory) : Except (Failure LayerError) Created := do
  let o ← raise n.weightedOperands
  match method with
  | .direct =>
    let layer := Layer.directConvolution
      (← refuse (DirectConvolution.configure o.input o.weights o.bias o.output w))
    return ⟨layer, o.report layer, m⟩
  | .gemm | .default =>
    let (layer, m) ←
      GemmConvolution.configure o.input o.weights o.bias o.output w c.pooled c.environment m
    let layer := Layer.gemmConvolution layer
    return ⟨layer, o.report layer, m⟩

/-- Nothing comes of a concatenation that is not enabled. -/
def createDepthConcatenation (n : Node) (enabled : Bool) (m : Memory) :
    Except (Failure LayerError) (Option Created) := do
  if n.outputs.length ≠ 1 then throw (.fault (.concatenateOutputs n.id))
  if !enabled then return none
  let inputs ← raise (n.inputs.mapM fun t => n.required t "input")
  let output ← raise (n.required (n.output 0) "output")
  let layer := Layer.depthConcatenation (← refuse (DepthConcatenation.configure inputs output))
  return some ⟨layer, Created.shapeReport layer output ++ s!" Num Inputs: {inputs.length}", m⟩

def createDepthwiseConvolution (n : Node) (w : Window) (method : DepthwiseMethod) (m : Memory) :
    Except (Failure LayerError) Created := do
  let o ← raise n.weightedOperands
  match method with
  | .optimized3x3 =>
    let layer := Layer.depthwiseConvolution
      (← refuse (DepthwiseConvolution.configure o.input o.weights o.bias o.output w))
    return ⟨layer, o.report layer, m⟩
  | .generic | .default => throw (.fault .genericDepthwise)

def createEltwise (n : Node) (operation : Arithmetic) (overflow : Overflow) (m : Memory) :
    Except (Failure LayerError) Created := do
  raise (n.checkCounts 2 1)
  let a ← raise (n.required (n.input 0) "first input")
  let b ← raise (n.required (n.input 1) "second input")
  let output ← raise (n.required (n.output 0) "output")
  let layer ←
    match operation with
    | .add => (refuse (AdditionLayer.configure a b output overflow)).map Layer.addition
    | .subtract => throw (.fault .subtraction)
    | .multiply =>
      (refuse (MultiplicationLayer.configure a b output .one)).map Layer.multiplication
  return ⟨layer, Created.shapeReport layer a ++ s!" Operation: {operation.name}", m⟩

def createFullyConnected (n : Node) (c : Context) (m : Memory) :
    Except (Failure LayerError) Created := do
  let o ← raise n.weightedOperands
  let (layer, m) ←
    FullyConnected.configure o.input o.weights o.bias o.output c.pooled c.environment m
  let layer := Layer.fullyConnected layer
  return ⟨layer, o.report layer, m⟩

def createNormalization (n : Node) (k : Normalization) (m : Memory) :
    Except (Failure LayerError) Created := do
  let (input, output) ← raise n.unaryOperands
  let layer := Layer.normalization (← refuse (NormalizationLayer.configure input output k))
  return ⟨layer, Created.shapesReport layer input output
    ++ s!" Normalization info: {k.region.name}", m⟩

def createPooling (n : Node) (p : Pooling) (m : Memory) :
    Except (Failure LayerError) Created := do
  let (input, output) ← raise n.unaryOperands
  let layer := Layer.pooling (← refuse (PoolingLayer.configure input output p))
  return ⟨layer, Created.shapesReport layer input output ++ s!" Pooling info: {p.kind.name}", m⟩

def createSoftmax (n : Node) (c : Context) (beta : Binary32) (m : Memory) :
    Except (Failure LayerError) Created := do
  let (input, output) ← raise n.unaryOperands
  let (layer, m) ← refuse (Softmax.configure input output beta c.pooled m)
  let layer := Layer.softmax layer
  return ⟨layer, Created.shapesReport layer input output, m⟩

/-- The layer of a node, none when it computes nothing. -/
def create (n : Node) (c : Context) (m : Memory) :
    Except (Failure LayerError) (Option Created) :=
  match n.kind with
  | .activation f => (n.createActivation f m).map some
  | .batchNormalization epsilon fused => (n.createBatchNormalization epsilon fused m).map some
  | .convolution w method => (n.createConvolution c w method m).map some
  | .depthConcatenate enabled => n.createDepthConcatenation enabled m
  | .depthwiseConvolution w method => (n.createDepthwiseConvolution w method m).map some
  | .eltwise operation overflow => (n.createEltwise operation overflow m).map some
  | .fullyConnected => (n.createFullyConnected c m).map some
  | .normalization k => (n.createNormalization k m).map some
  | .pooling p => (n.createPooling p m).map some
  | .softmax beta => (n.createSoftmax c beta m).map some
  | .input | .output | .const | .reshape => .ok none

/-- What is said before a node's operands are looked at; nothing for a node without a layer. -/
def announcement (n : Node) : Option String :=
  match n.kind with
  | .input | .output | .const | .reshape => none
  | .depthConcatenate _ =>
    some s!"Creating GC DepthConcatenate node with ID : {n.id} and Name: {n.name}"
  | kind => some s!"Creating GC {kind.name} node with ID : {n.id} and Name: {n.name}"

def log (n : Node) (outcome : Except (Failure LayerError) (Option Created)) : List String :=
  match n.announcement with
  | none => []
  | some announcement =>
    match outcome with
    | .ok (some created) => [announcement, created.report]
    | .ok none => [announcement, s!"DepthConcatenate node {n.id} is disabled"]
    | .error _ => [announcement]

end Node

/-- Why a node that is known to be right has no layer after all. -/
inductive CreateFault where
  | precondition (f : Fault)
  | notConfigured (kind : String) (node : Nat) (cause : LayerError)
deriving DecidableEq, Repr

namespace CreateFault

def ofFailure (n : Node) : Failure LayerError → CreateFault
  | .fault f => precondition f
  | .refused cause => notConfigured n.kind.name n.id cause

def message : CreateFault → Option String
  | precondition f => f.message
  | notConfigured kind node cause =>
    some s!"failed to configure {kind} node {node}: {cause.message}"

end CreateFault

end TileCompute
