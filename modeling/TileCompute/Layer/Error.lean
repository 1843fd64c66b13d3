import TileCompute.Kernel.Error
import TileCompute.Layer.Window
import TileCompute.Number.Decimal
import TileCompute.Tensor.View

/-!
# TileCompute.Layer.Error

Why a layer refuses its operands, and the checks that many layers share.
-/

namespace TileCompute

/-- A cause for refusing operands. -/
inductive LayerError where
  /-- A kernel behind the layer refuses. -/
  | kernel (cause : KernelError)
  | bufferTooSmall (available : Nat) (shape : Shape) (needed : Nat)
  | elementCount (expected : Nat) (shape : Shape) (actual : Nat)
  /-- Two tensors that must agree in shape do not. -/
  | shapes (what : String) (s t : Shape)
  | batchNormParameter (parameter : Shape) (channels : Nat)
  | convolutionWeights (weights input : Shape)
  | convolutionOutput (output : Shape) (width height channels batches : Nat)
  /-- A bias with the wrong number of elements for `count` of something. -/
  | biasCount (bias : Shape) (count : Nat) (what : String)
  | depthwiseShapes (input weights output : Shape)
  | fullyConnectedShapes (input weights output : Shape)
  | gemmOperands (a b : Shape)
  | gemmOutput (output a b : Shape)
  | poolingOutput (input output : Shape) (width height : Nat)
  | notCentred (input output : Shape)
  | stackDepth (depth : Nat) (output : Shape)
  | unsupportedDataType (t : DataType)
  | zeroStride
  | directKernel (width height : Nat)
  | depthwiseWeights (weights : Shape)
  | nothingToConcatenate
  | evenNormalization (size : Nat)
  | fixedPointScale (scale : Binary32)
  | globalPlane (input : Shape)
  | emptyPool
  | coveringPadding (window : Window) (size : Nat)
deriving DecidableEq, Repr

/-- The kinds of error that callers tell apart. -/
inductive LayerError.Category where
  | kernel (category : KernelError.Category)
  | shapeMismatch
  | unsupportedDataType
  | unsupported
deriving DecidableEq, Repr

namespace LayerError

def category : LayerError → Category
  | kernel cause => .kernel cause.category
  | bufferTooSmall .. | elementCount .. | shapes .. | batchNormParameter .. | convolutionWeights ..
  | convolutionOutput .. | biasCount .. | depthwiseShapes .. | fullyConnectedShapes ..
  | gemmOperands .. | gemmOutput .. | poolingOutput .. | notCentred .. | stackDepth .. =>
    .shapeMismatch
  | unsupportedDataType _ => .unsupportedDataType
  | zeroStride | directKernel .. | depthwiseWeights _ | nothingToConcatenate
  | evenNormalization _ | fixedPointScale _ | globalPlane _ | emptyPool | coveringPadding .. =>
    .unsupported

/-- The facts of a cause, without its kind. -/
def detail : LayerError → String
  | kernel cause => cause.message
  | bufferTooSmall available shape needed =>
    s!"buffer of {available} bytes cannot hold {shape.text} ({needed} bytes)"
  | elementCount expected shape actual =>
    s!"expected {expected} elements for {shape.text}, got {actual}"
  | shapes what s t => s!"{what}: {s.text} vs {t.text}"
  | batchNormParameter parameter channels =>
    s!"batch normalization parameter {parameter.text} for {channels} channels"
  | convolutionWeights weights input => s!"weights {weights.text} for input {input.text}"
  | convolutionOutput output width height channels batches =>
    s!"convolution output {output.text}, expected {width}x{height}x{channels}x{batches}"
  | biasCount bias count what => s!"bias {bias.text} for {count} {what}"
  | depthwiseShapes input weights output =>
    s!"depthwise convolution {input.text} * {weights.text} -> {output.text}"
  | fullyConnectedShapes input weights output =>
    s!"fully connected {input.text} x weights {weights.text} -> {output.text}"
  | gemmOperands a b => s!"GEMM: A is {a.text} but B is {b.text}"
  | gemmOutput output a b => s!"GEMM: output {output.text} for A {a.text} and B {b.text}"
  | poolingOutput input output width height =>
    s!"pooling {input.text} -> {output.text}, expected {width}x{height} planes"
  | notCentred input output => s!"cannot centre {input.text} in {output.text}"
  | stackDepth depth output => s!"inputs stack to depth {depth}, output is {output.text}"
  | unsupportedDataType t => t.text
  | zeroStride => "zero convolution stride"
  | directKernel width height => s!"direct convolution with a {width}x{height} kernel"
  | depthwiseWeights weights => s!"depthwise 3x3 convolution with weights {weights.text}"
  | nothingToConcatenate => "depth concatenate without inputs"
  | evenNormalization size => s!"normalization size {size} must be odd"
  | fixedPointScale scale => "fixed-point multiplication with scale " ++ scale.toText
  | globalPlane input => s!"global pooling over a non-square plane {input.text}"
  | emptyPool => "empty pooling window"
  | coveringPadding window size =>
    "padding " ++ window.text ++ s!" covers a whole {size}x{size} window"

/-- The whole message: the kind, then the facts. A kernel's message already has its kind. -/
def message (e : LayerError) : String :=
  match e.category with
  | .kernel _ => e.detail
  | .shapeMismatch => "Shape mismatch: " ++ e.detail
  | .unsupportedDataType => "Unsupported data type: " ++ e.detail
  | .unsupported => "Unsupported configuration: " ++ e.detail

end LayerError

def kernelResult {α : Type} : Except KernelError α → Except LayerError α
  | .ok a => .ok a
  | .error e => .error (.kernel e)

/-- `kernelResult` where faults are possible too. -/
def kernelFailure {α : Type} : Except (Failure KernelError) α → Except (Failure LayerError) α
  | .ok a => .ok a
  | .error (.refused e) => .error (.refused (.kernel e))
  | .error (.fault f) => .error (.fault f)

def checkFloat (l : Layout) : Except LayerError Unit :=
  if l.dataType.isFloatingPoint then .ok () else .error (.unsupportedDataType l.dataType)

def checkSameType (l r : Layout) : Except LayerError Unit :=
  if l.dataType = r.dataType then .ok ()
  else .error (.kernel (.dataTypeMismatch l.dataType r.dataType))

def checkSameShape (what : String) (l r : Layout) : Except LayerError Unit :=
  if l.shape = r.shape then .ok () else .error (.shapes what l.shape r.shape)

namespace View

/-- Sees an existing buffer through a layout it is long enough for. -/
def ofBuffer (m : Memory) (layout : Layout) (buffer : BufferId) : Except LayerError View :=
  if m.size buffer < layout.byteSize then
    .error (.bufferTooSmall (m.size buffer) layout.shape layout.byteSize)
  else .ok ⟨buffer, layout⟩

/-- The same buffer under another shape of as many elements. -/
def reinterpret (v : View) (shape : Shape) : Except LayerError View := do
  let layout ← kernelResult (v.layout.reinterpret shape)
  return ⟨v.buffer, layout⟩

/-- `reinterpret` in machine words. -/
def reinterpret? (v : View) (shape : Shape) : Except (Failure LayerError) View := do
  let layout ← kernelFailure (v.layout.reinterpret? shape)
  return ⟨v.buffer, layout⟩

def checkCount (v : View) (count : Nat) : Except LayerError Unit :=
  if count = v.layout.shape.size then .ok ()
  else .error (.elementCount v.layout.shape.size v.layout.shape count)

/-- What must hold for that many values to overwrite the tensor. -/
def checkValues (v : View) (count : Nat) : Except (Failure LayerError) Unit := do
  raise (checkWords (v.layout.shape.products 0 6))
  refuse (v.checkCount count)
  raise (v.layout.dataType.checkShift count)

/-- Overwrites all elements with values, rounded to the data type. -/
def write (v : View) (values : List Binary32) (m : Memory) :
    Except (Failure LayerError) Memory := do
  v.checkValues values.length
  return v.storeValues m values

/-- `values` in machine words. -/
def values? (v : View) (m : Memory) : Except Fault (List Binary32) := do
  checkWords (v.layout.shape.products 0 6)
  v.layout.dataType.checkShift v.layout.shape.size
  return v.values m

/-- The words of all elements, read as items of `size` bytes. -/
def read (v : View) (size : Nat) (m : Memory) : Except (Failure LayerError) (List Nat) := do
  if size ≠ v.layout.elementSize then
    throw (.refused (.unsupportedDataType v.layout.dataType))
  raise (checkWords (v.layout.shape.products 0 6))
  return v.words m

/-- Allocates a zeroed tensor. -/
def alloc (layout : Layout) (m : Memory) : View × Memory :=
  let (buffer, m) := m.alloc layout.byteSize
  (⟨buffer, layout⟩, m)

/-- `alloc`, if a buffer may be that long. -/
def alloc? (layout : Layout) (m : Memory) : Except Fault (View × Memory) := do
  checkBuffer layout.byteSize
  return alloc layout m

/-- Allocates a tensor and fills it with words of `size` bytes. -/
def ofWords (layout : Layout) (size : Nat) (words : List Nat) (m : Memory) :
    Except (Failure LayerError) (View × Memory) := do
  if size ≠ layout.elementSize then throw (.refused (.unsupportedDataType layout.dataType))
  let (v, m) ← raise (alloc? layout m)
  raise (checkWords (layout.shape.products 0 6))
  refuse (v.checkCount words.length)
  return (v, v.storeWords m words)

/-- Allocates a tensor and fills it with values. -/
def ofValues (layout : Layout) (values : List Binary32) (m : Memory) :
    Except (Failure LayerError) (View × Memory) := do
  let (v, m) ← raise (alloc? layout m)
  let m ← v.write values m
  return (v, m)

end View

end TileCompute
