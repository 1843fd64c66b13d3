import TileCompute.Layer.Arithmetic
import TileCompute.Layer.BatchNormalization
import TileCompute.Layer.DepthConcatenation
import TileCompute.Layer.DepthwiseConvolution
import TileCompute.Layer.DirectConvolution
import TileCompute.Layer.FullyConnected
import TileCompute.Layer.GemmConvolution
import TileCompute.Layer.Normalization
import TileCompute.Layer.Pooling
import TileCompute.Layer.Softmax

/-!
# TileCompute.Layer

A configured layer of any kind. It is configured once and then run any number of times; what it
remembers between runs, such as reshaped weights, is part of its value.
-/

namespace TileCompute

/-- A configured layer. -/
inductive Layer where
  | activation (l : ActivationLayer)
  | addition (l : AdditionLayer)
  | batchNormalization (l : BatchNormalization)
  | depthConcatenation (l : DepthConcatenation)
  | depthwiseConvolution (l : DepthwiseConvolution)
  | directConvolution (l : DirectConvolution)
  | fullyConnected (l : FullyConnected)
  | gemm (l : GemmLayer)
  | gemmConvolution (l : GemmConvolution)
  | multiplication (l : MultiplicationLayer)
  | normalization (l : NormalizationLayer)
  | pooling (l : PoolingLayer)
  | softmax (l : Softmax)
deriving DecidableEq, Repr

namespace Layer

def name : Layer → String
  | activation _ => "GCActivationLayer"
  | addition _ => "GCArithmeticAddition"
  | batchNormalization _ => "GCBatchNormalizationLayer"
  | depthConcatenation _ => "GCDepthConcatenateLayer"
  | depthwiseConvolution _ => "GCDepthwiseConvolutionLayer3x3"
  | directConvolution _ => "GCDirectConvolutionLayer"
  | fullyConnected _ => "GCFullyConnectedLayer"
  | gemm _ => "GCGEMM"
  | gemmConvolution _ => "GCConvolutionLayer"
  | multiplication _ => "GCPixelWiseMultiplication"
  | normalization _ => "GCNormalizationLayer"
  | pooling _ => "GCPoolingLayer"
  | softmax _ => "GCSoftmaxLayer"

/-- Work before the first run; a run does it when it has not been done. -/
def prepare (l : Layer) (d : Device) : Layer × Device :=
  match l with
  | fullyConnected l =>
    let (l, memory) := l.prepare d.memory
    (fullyConnected l, { d with memory })
  | gemmConvolution l =>
    let (l, memory) := l.prepare d.memory
    (gemmConvolution l, { d with memory })
  | l => (l, d)

/-- Runs the layer: what it remembers, and the device afterwards. -/
def run (l : Layer) (d : Device) : Except Fault (Layer × Device) :=
  match l with
  | activation k => .ok (l, d.onMemory k.run)
  | addition k => .ok (l, d.onMemory k.run)
  | batchNormalization k => .ok (l, d.onMemory k.run)
  | depthConcatenation k => .ok (l, d.onMemory k.run)
  | depthwiseConvolution k => (k.run? d.memory).map fun memory => (l, { d with memory })
  | directConvolution k => (k.run? d.memory).map fun memory => (l, { d with memory })
  | fullyConnected k =>
    let (k, d) := k.run d
    .ok (fullyConnected k, d)
  | gemm k =>
    let (k, d) := k.run d
    .ok (gemm k, d)
  | gemmConvolution k => (k.run? d).map fun (k, d) => (gemmConvolution k, d)
  | multiplication k => .ok (l, d.onMemory k.run)
  | normalization k => (k.run? d.memory).map fun memory => (l, { d with memory })
  | pooling k => (k.run d.memory).map fun memory => (l, { d with memory })
  | softmax k => .ok (l, k.run d)

end Layer

end TileCompute
