import TileCompute.Layer.Error

/-!
# TileCompute.Layer.Normalization

Local response normalization.

Every value is divided by a power of the energy around it: `x * (kappa + c * sum) ^ -beta`, where
`sum` adds the squares in a window centred on the element and clipped at the edges of the tensor.
-/

namespace TileCompute

/-- Where the window of a normalization lies. -/
inductive NormRegion where
  /-- Across channels. -/
  | crossMap
  /-- Along x. -/
  | inMap1D
  /-- A square in x and y. -/
  | inMap2D
deriving DecidableEq, Repr

def NormRegion.name : NormRegion → String
  | crossMap => "CrossMap"
  | inMap1D => "InMap1D"
  | inMap2D => "InMap2D"

/-- The parameters of a normalization. -/
structure Normalization where
  region : NormRegion
  size : Nat
  alpha : Binary32
  beta : Binary32
  kappa : Binary32
  /-- Divide `alpha` by the number of elements in the window. -/
  scaled : Bool
deriving DecidableEq, Repr

namespace Normalization

/-- The usual parameters: `alpha` one ten-thousandth, `beta` one half, `kappa` one. -/
def ofSize (region : NormRegion) (size : Nat) : Normalization :=
  ⟨region, size, ⟨0x38d1b717⟩, ⟨0x3f000000⟩, .one, true⟩

def windowSize (n : Normalization) : Nat :=
  match n.region with
  | .inMap2D => n.size * n.size
  | .crossMap | .inMap1D => n.size

/-- The numbers formed for `coefficient`. -/
def numbers (n : Normalization) : List Nat := if n.scaled then [n.windowSize] else []

def coefficient (n : Normalization) : Binary32 :=
  if n.scaled then n.alpha / .ofInt n.windowSize else n.alpha

/-- Positions along an axis at most `size / 2` away from a centre. -/
def axis (n : Normalization) (centre extent : Nat) : List Nat :=
  let radius := n.size / 2
  let first := centre - radius
  List.range' first (min (centre + radius + 1) extent - first)

/-- The sites whose squares are added, in the order of the sum. -/
def window (n : Normalization) (shape : Shape) (s : Site) : List Site :=
  match n.region with
  | .crossMap => (n.axis s.z shape.z).map fun z => { s with z }
  | .inMap1D => (n.axis s.x shape.x).map fun x => { s with x }
  | .inMap2D =>
    (n.axis s.y shape.y).flatMap fun y => (n.axis s.x shape.x).map fun x => { s with x, y }

/-- The normalized value of an element, given the values in its window. -/
def apply (n : Normalization) (x : Binary32) (around : List Binary32) : Binary32 :=
  let sum := around.foldl (fun acc v => acc + v * v) .zero
  x * (n.kappa + n.coefficient * sum).pow (-n.beta)

end Normalization

/-- A normalization of one tensor into another. -/
structure NormalizationLayer where
  input : View
  output : View
  normalization : Normalization
deriving DecidableEq, Repr

namespace NormalizationLayer

/-- Only a window of odd size has a centre. -/
def configure (input output : View) (normalization : Normalization) :
    Except LayerError NormalizationLayer := do
  checkFloat input.layout
  checkSameType input.layout output.layout
  checkSameShape "normalization" input.layout output.layout
  if normalization.size % 2 = 0 then throw (.evenNormalization normalization.size)
  return ⟨input, output, normalization⟩

def runSite (l : NormalizationLayer) (s : Site) (m : Memory) : Memory :=
  let around := (l.normalization.window l.input.layout.shape s).map fun t =>
    l.input.loadValue m (l.input.layout.site t)
  let value := l.input.loadValue m (l.input.layout.site s)
  l.output.storeValue m (l.output.layout.site s) (l.normalization.apply value around)

def run (l : NormalizationLayer) (m : Memory) : Memory :=
  l.input.layout.shape.launch l.runSite m

/-- A run in machine words. -/
def run? (l : NormalizationLayer) (m : Memory) : Except Fault Memory := do
  checkWords l.normalization.numbers
  return l.run m

end NormalizationLayer

end TileCompute
