import TileCompute.Layer.Error

/-!
# TileCompute.Layer.DepthConcatenation

Stacking tensors along the third dimension.

Every input is centred in the planes of the output, rounding towards the first row and column.
When some input is smaller than the output, the output is filled with zeros first. Elements move
as words, so any data type will do.
-/

namespace TileCompute

/-- A stack of tensors. -/
structure DepthConcatenation where
  inputs : List View
  output : View
  /-- Some input leaves a border in its planes. -/
  fill : Bool
deriving DecidableEq, Repr

/-- An input and where its first element goes. -/
structure Placement where
  input : View
  left : Nat
  top : Nat
  depth : Nat
deriving DecidableEq, Repr

namespace DepthConcatenation

/-- An input has the output's type and batches, and fits its planes. -/
def checkInput (output input : Layout) : Except LayerError Unit := do
  checkSameType input output
  if output.shape.x < input.shape.x ∨ output.shape.y < input.shape.y
      ∨ input.shape.upperSize 3 ≠ output.shape.upperSize 3 then
    throw (.notCentred input.shape output.shape)

def depth (inputs : List View) : Nat :=
  inputs.foldl (fun depth v => depth + v.layout.shape.z) 0

def configure (inputs : List View) (output : View) : Except LayerError DepthConcatenation := do
  if inputs.isEmpty then throw .nothingToConcatenate
  inputs.forM fun v => checkInput output.layout v.layout
  let out := output.layout.shape
  if depth inputs ≠ out.z then throw (.stackDepth (depth inputs) out)
  return ⟨inputs, output, inputs.any fun v => v.layout.shape.x ≠ out.x || v.layout.shape.y ≠ out.y⟩

def place (out : Shape) (depth : Nat) : List View → List Placement
  | [] => []
  | v :: rest =>
    let s := v.layout.shape
    ⟨v, (out.x - s.x) / 2, (out.y - s.y) / 2, depth⟩ :: place out (depth + s.z) rest

def placements (l : DepthConcatenation) : List Placement :=
  place l.output.layout.shape 0 l.inputs

def clearSite (l : DepthConcatenation) (s : Site) (m : Memory) : Memory :=
  l.output.store m (l.output.layout.site s) 0

def copySite (l : DepthConcatenation) (p : Placement) (s : Site) (m : Memory) : Memory :=
  l.output.store m
    (l.output.layout.site ⟨s.x + p.left, s.y + p.top, s.z + p.depth, s.w⟩)
    (p.input.load m (p.input.layout.site s))

def copy (l : DepthConcatenation) (m : Memory) (p : Placement) : Memory :=
  p.input.layout.shape.launch (l.copySite p) m

def run (l : DepthConcatenation) (m : Memory) : Memory :=
  let m := if l.fill then l.output.layout.shape.launch l.clearSite m else m
  l.placements.foldl l.copy m

end DepthConcatenation

end TileCompute
