import TileCompute.Kernel.Blocking

/-!
# TileCompute.Kernel.Error

Why a kernel refuses its operands.

Each constructor of `KernelError` is one cause with the facts that its message reports;
`KernelError.category` sorts the causes into the four kinds that callers tell apart. `Fault` is
for a precondition of the library itself that a caller broke, and `Failure` joins it with the
errors of an operation.
-/

namespace TileCompute

/-- A cause for refusing operands. -/
inductive KernelError where
  /-- Reinterpretation would change the number of elements. -/
  | reinterpretSize (source target : Shape)
  /-- Reinterpretation of a tensor with a border. -/
  | reinterpretPadded
  /-- A reshape kernel's destination has the wrong extents. -/
  | reshapeDestination (kernel : String) (actual expected : Shape)
  /-- An extent of an operand differs from what the others ask for. -/
  | extent (what : String) (expected actual : Nat)
  /-- The width of an interleaved operand is not a whole number of blocks. -/
  | interleavedWidth (width block : Nat)
  /-- The operands of a matrix addition differ in extents. -/
  | additionShape (source target : Shape)
  /-- A list of elements has the wrong length. -/
  | length (operand : String) (expected actual : Nat)
  | unsupportedDataType (t : DataType)
  | dataTypeMismatch (s t : DataType)
  /-- A packing with a block count of zero. -/
  | emptyPacking (p : Packing)
  /-- A direct tile that is empty or too large. -/
  | tileOutOfRange (t : TileShape)
  | unknownTarget (name : String)
deriving DecidableEq, Repr

/-- The kinds of error that callers tell apart. -/
inductive KernelError.Category where
  | dimensionMismatch
  | unsupportedDataType
  | dataTypeMismatch
  | invalidConfig
deriving DecidableEq, Repr

namespace KernelError

def category : KernelError → Category
  | reinterpretSize .. | reshapeDestination .. | extent .. | interleavedWidth ..
  | additionShape .. | length .. => .dimensionMismatch
  | unsupportedDataType _ => .unsupportedDataType
  | dataTypeMismatch .. => .dataTypeMismatch
  | reinterpretPadded | emptyPacking _ | tileOutOfRange _ | unknownTarget _ => .invalidConfig

/-- The facts of a cause, without its kind. -/
def detail : KernelError → String
  | reinterpretSize s t => s!"cannot reinterpret {s.text} as {t.text}"
  | reinterpretPadded => "cannot reinterpret a padded tensor"
  | reshapeDestination kernel actual expected =>
    s!"{kernel}: destination {actual.text} does not match expected {expected.text}"
  | extent what expected actual => s!"{what}: expected {expected}, got {actual}"
  | interleavedWidth width block => s!"interleaved A width {width} is not a multiple of {block}"
  | additionShape s t => s!"matrix addition: {s.text} vs {t.text}"
  | length operand expected actual =>
    s!"{operand} size mismatch: expected {expected}, got {actual}"
  | unsupportedDataType t => t.text
  | dataTypeMismatch s t => s!"{s.text} vs {t.text}"
  | emptyPacking p => "reshape multiplicities must be non-zero: " ++ p.text
  | tileOutOfRange t =>
    s!"direct tile {t.rows}x{t.cols} outside 1..={maxTileRows}x1..={maxTileCols}"
  | unknownTarget name => "unknown GPU target '" ++ name ++ "'"

/-- The whole message: the kind, then the facts. -/
def message (e : KernelError) : String :=
  match e.category with
  | .dimensionMismatch => "Dimension mismatch: " ++ e.detail
  | .unsupportedDataType => "Unsupported data type: " ++ e.detail
  | .dataTypeMismatch => "Data type mismatch: " ++ e.detail
  | .invalidConfig => "Invalid kernel configuration: " ++ e.detail

end KernelError

/-- A broken precondition. The first constructor stands for arithmetic without a result, such as
a division by zero or a number that does not fit in a machine word, and carries no message. -/
inductive Fault where
  | arithmetic
  | tooManyDimensions
  | dimensionOutOfRange (d : Nat)
  /-- An operand of the reference multiply has the wrong length. -/
  | operandLength (operand : String)
  /-- A graph tensor lives on another target. -/
  | offTarget (tensor : Nat)
  | inputCount (kind : String) (node expected : Nat)
  | outputCount (kind : String) (node expected : Nat)
  | concatenateOutputs (node : Nat)
  /-- A tensor that a node needs is absent or has no memory. -/
  | missingTensor (kind : String) (node : Nat) (what : String)
  | genericDepthwise
  | subtraction
deriving DecidableEq, Repr

def Fault.message : Fault → Option String
  | arithmetic => none
  | tooManyDimensions => some s!"at most {maxRank} dimensions"
  | dimensionOutOfRange d => some s!"dimension {d} out of range"
  | operandLength operand => some s!"{operand} dimensions mismatch"
  | offTarget tensor => some s!"tensor {tensor} is not assigned to the GC target"
  | inputCount kind node expected => some s!"{kind} node {node} expects {expected} inputs"
  | outputCount kind node expected => some s!"{kind} node {node} expects {expected} outputs"
  | concatenateOutputs node => some s!"DepthConcatenate node {node} expects 1 output"
  | missingTensor kind node what => some s!"{kind} node {node}: missing {what} tensor"
  | genericDepthwise => some "Generic DepthwiseConvolutionLayer is not supported in GLES backend"
  | subtraction => some "Arithmetic subtraction is not supported in GLES backend"

/-- How an operation can fail: it refuses its operands, or the caller broke a precondition. -/
inductive Failure (ε : Type) where
  | refused (cause : ε)
  | fault (f : Fault)
deriving DecidableEq, Repr

/-- A refusal, raised where faults are possible too. -/
def refuse {ε α : Type} : Except ε α → Except (Failure ε) α
  | .ok a => .ok a
  | .error e => .error (.refused e)

/-- A fault, raised where refusals are possible too. -/
def raise {ε α : Type} : Except Fault α → Except (Failure ε) α
  | .ok a => .ok a
  | .error f => .error (.fault f)

/-- Arithmetic without a result is a fault. -/
def orArithmetic {α : Type} : Option α → Except Fault α
  | some a => .ok a
  | none => .error .arithmetic

/-- A fault unless the numbers fit in machine words. -/
def checkWords (numbers : List Nat) : Except Fault Unit := orArithmetic (inWords? numbers ())

/-- Fixed-point values are shifted by the position of the binary point, which must be less than the
bits of a machine word. Without a value nothing is shifted. -/
def DataType.checkShift (t : DataType) (count : Nat) : Except Fault Unit :=
  if count = 0 ∨ t.frac < 64 then .ok () else .error .arithmetic

/-- A fault unless a buffer may have that many bytes. -/
def checkBuffer (size : Nat) : Except Fault Unit :=
  if size < 2 ^ (63 : Nat) then .ok () else .error .arithmetic

namespace Shape

def ofList? (dims : List Nat) : Except Fault Shape :=
  if dims.length ≤ maxRank then .ok (ofList dims) else .error .tooManyDimensions

def set? (s : Shape) (d extent : Nat) : Except Fault Shape :=
  if h : d < 6 then .ok (s.set ⟨d, h⟩ extent) else .error (.dimensionOutOfRange d)

end Shape

/-- The same bytes under another shape of as many elements. -/
def Layout.reinterpret (l : Layout) (shape : Shape) : Except KernelError Layout :=
  if !l.isContiguous then .error .reinterpretPadded
  else if shape.size ≠ l.shape.size then .error (.reinterpretSize l.shape shape)
  else .ok (.packed shape l.dataType)

/-- The numbers formed when the elements of both shapes are counted. -/
def Layout.reinterpretNumbers (l : Layout) (shape : Shape) : List Nat :=
  if l.isContiguous then shape.products 0 6 ++ l.shape.products 0 6 else []

/-- `reinterpret` in machine words. The new layout is made afresh. -/
def Layout.reinterpret? (l : Layout) (shape : Shape) : Except (Failure KernelError) Layout := do
  raise (checkWords (l.reinterpretNumbers shape))
  let made ← refuse (l.reinterpret shape)
  raise (checkWords made.numbers)
  return made

/-- Refuses a packing with a block count of zero. -/
def Packing.check (p : Packing) : Except KernelError Unit :=
  if p.Valid then .ok () else .error (.emptyPacking p)

def TileShape.check (t : TileShape) : Except KernelError Unit :=
  if t.Valid then .ok () else .error (.tileOutOfRange t)

end TileCompute
