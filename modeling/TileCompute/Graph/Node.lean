import TileCompute.Graph.Tensor
import TileCompute.Layer.Activation
import TileCompute.Layer.Arithmetic
import TileCompute.Layer.Normalization
import TileCompute.Layer.Pooling

/-!
# TileCompute.Graph.Node

Nodes of a graph: an operation with its attributes, and the tensors it reads and writes. An operand
that is not connected is none.
-/

namespace TileCompute

/-- How a convolution is to be computed. -/
inductive ConvolutionMethod where
  | default
  | direct
  | gemm
deriving DecidableEq, Repr

/-- How a depthwise convolution is to be computed. -/
inductive DepthwiseMethod where
  | default
  | generic
  | optimized3x3
deriving DecidableEq, Repr

/-- The operation of a node. -/
inductive NodeKind where
  | activation (f : Activation)
  | batchNormalization (epsilon : Binary32) (fused : Option Activation)
  | convolution (window : Window) (method : ConvolutionMethod)
  | depthConcatenate (enabled : Bool)
  | depthwiseConvolution (window : Window) (method : DepthwiseMethod)
  | eltwise (operation : Arithmetic) (overflow : Overflow)
  | fullyConnected
  | normalization (n : Normalization)
  | pooling (p : Pooling)
  | softmax (beta : Binary32)
  | input
  | output
  | const
  | reshape
deriving DecidableEq, Repr

def NodeKind.name : NodeKind → String
  | activation _ => "ActivationLayer"
  | batchNormalization .. => "BatchNormalizationLayer"
  | convolution .. => "ConvolutionLayer"
  | depthConcatenate _ => "DepthConcatenateLayer"
  | depthwiseConvolution .. => "DepthwiseConvolutionLayer"
  | eltwise .. => "EltwiseLayer"
  | fullyConnected => "FullyConnectedLayer"
  | normalization _ => "NormalizationLayer"
  | pooling _ => "PoolingLayer"
  | softmax _ => "SoftmaxLayer"
  | input => "Input"
  | output => "Output"
  | const => "Const"
  | reshape => "Reshape"

/-- An operation with its operands. -/
structure Node where
  id : Nat
  name : String
  kind : NodeKind
  inputs : List (Option GraphTensor)
  outputs : List (Option GraphTensor)
deriving DecidableEq, Repr

namespace Node

def input (n : Node) (i : Nat) : Option GraphTensor := n.inputs[i]?.join

def output (n : Node) (i : Nat) : Option GraphTensor := n.outputs[i]?.join

/-- A fault unless the node has so many inputs and outputs. -/
def checkCounts (n : Node) (inputs outputs : Nat) : Except Fault Unit := do
  if n.inputs.length ≠ inputs then throw (.inputCount n.kind.name n.id inputs)
  if n.outputs.length ≠ outputs then throw (.outputCount n.kind.name n.id outputs)

/-- The memory behind an operand the node cannot do without. -/
def required (n : Node) (operand : Option GraphTensor) (what : String) : Except Fault View := do
  match ← backingTensor operand with
  | some v => return v
  | none => throw (.missingTensor n.kind.name n.id what)

end Node

end TileCompute
