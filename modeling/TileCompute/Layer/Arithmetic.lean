import TileCompute.Layer.Error

/-!
# TileCompute.Layer.Arithmetic

Sums and products of two tensors, element by element.

Floating elements are combined as values. Fixed-point elements are combined as fixed-point
numbers: a sum wraps around or saturates as its `Overflow` says, a product always saturates.
-/

namespace TileCompute

/-- What a fixed-point sum does outside the range of its type. -/
inductive Overflow where
  | wrap
  | saturate
deriving DecidableEq, Repr

def Overflow.add : Overflow → Fixed → Fixed → Fixed
  | wrap => Fixed.wrappingAdd
  | saturate => Fixed.saturatingAdd

/-- Operations on two tensors. -/
inductive Arithmetic where
  | add
  | subtract
  | multiply
deriving DecidableEq, Repr

def Arithmetic.name : Arithmetic → String
  | add => "ADD"
  | subtract => "SUB"
  | multiply => "MUL"

namespace DataType

/-- Combines two words: of a fixed-point type as fixed-point numbers, of any other as values. -/
def combine (t : DataType) (onFixed : Fixed → Fixed → Fixed)
    (onValues : Binary32 → Binary32 → Binary32) (a b : Nat) : Nat :=
  match t with
  | qs8 frac =>
    let a : Q8 := Element.ofWord a
    let b : Q8 := Element.ofWord b
    Element.toWord (Q8.ofFixed (onFixed (a.toFixed frac) (b.toFixed frac)))
  | qs16 frac =>
    let a : Q16 := Element.ofWord a
    let b : Q16 := Element.ofWord b
    Element.toWord (Q16.ofFixed (onFixed (a.toFixed frac) (b.toFixed frac)))
  | _ => t.encode (onValues (t.decode a) (t.decode b))

end DataType

/-- The operands of a layer that combines two tensors into a third. -/
structure Operands where
  a : View
  b : View
  output : View
deriving DecidableEq, Repr

namespace Operands

/-- One floating or fixed-point type and one shape for all three tensors. -/
def check (o : Operands) : Except LayerError Unit := do
  if o.a.layout.dataType = .s32 then throw (.unsupportedDataType o.a.layout.dataType)
  checkSameType o.a.layout o.b.layout
  checkSameType o.a.layout o.output.layout
  checkSameShape "element-wise input" o.a.layout o.b.layout
  checkSameShape "element-wise output" o.a.layout o.output.layout

def runSite (o : Operands) (combine : Nat → Nat → Nat) (s : Site) (m : Memory) : Memory :=
  let a := o.a.load m (o.a.layout.site s)
  let b := o.b.load m (o.b.layout.site s)
  o.output.store m (o.output.layout.site s) (combine a b)

def run (o : Operands) (combine : Nat → Nat → Nat) (m : Memory) : Memory :=
  o.a.layout.shape.launch (o.runSite combine) m

end Operands

/-- The sum of two tensors. -/
structure AdditionLayer where
  operands : Operands
  overflow : Overflow
deriving DecidableEq, Repr

namespace AdditionLayer

def configure (a b output : View) (overflow : Overflow) : Except LayerError AdditionLayer := do
  let operands : Operands := ⟨a, b, output⟩
  operands.check
  return ⟨operands, overflow⟩

def combine (l : AdditionLayer) : Nat → Nat → Nat :=
  l.operands.a.layout.dataType.combine l.overflow.add (· + ·)

def run (l : AdditionLayer) (m : Memory) : Memory := l.operands.run l.combine m

end AdditionLayer

/-- The product of two tensors and a factor. -/
structure MultiplicationLayer where
  operands : Operands
  scale : Binary32
deriving DecidableEq, Repr

namespace MultiplicationLayer

/-- A fixed-point product takes no factor but one. -/
def configure (a b output : View) (scale : Binary32) : Except LayerError MultiplicationLayer := do
  let operands : Operands := ⟨a, b, output⟩
  operands.check
  if a.layout.dataType.isFixedPoint ∧ !scale.eqv .one then throw (.fixedPointScale scale)
  return ⟨operands, scale⟩

def combine (l : MultiplicationLayer) : Nat → Nat → Nat :=
  l.operands.a.layout.dataType.combine Fixed.saturatingMul fun a b => a * b * l.scale

def run (l : MultiplicationLayer) (m : Memory) : Memory := l.operands.run l.combine m

end MultiplicationLayer

end TileCompute
