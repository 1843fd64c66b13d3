import TileCompute.Layer.Error

/-!
# TileCompute.Layer.Pooling

Maximum, mean and root mean square over square windows.

Windows slide over the input plane with its border of padding, the *padded plane*; a `PoolSpan` is
what one window covers of it along one axis. Only input elements are folded. The mean divides by
their number, or by the number of cells of the padded plane in the window.

When a window starts past the padded plane its span has no length, and running the layer fails; so
does a run that would form a number of more than 64 bits.
-/

namespace TileCompute

/-- What becomes of the elements in a window. -/
inductive PoolKind where
  | max
  | average
  /-- Root of the mean square. -/
  | l2
deriving DecidableEq, Repr

def PoolKind.name : PoolKind → String
  | max => "Max"
  | average => "Avg"
  | l2 => "L2"

namespace PoolKind

/-- The result of a window without elements. -/
def start : PoolKind → Binary32
  | max => .negInfinity
  | average | l2 => .zero

def fold : PoolKind → Binary32 → Binary32 → Binary32
  | max, acc, x => acc.max x
  | average, acc, x => acc + x
  | l2, acc, x => acc + x * x

/-- The result of a window that counts as `area` cells. -/
def finish : PoolKind → (area : Nat) → Binary32 → Binary32
  | max, _, acc => acc
  | average, area, acc => acc / .ofInt area
  | l2, area, acc => (acc / .ofInt area).sqrt

end PoolKind

/-- Where windows lie. -/
inductive PoolRegion where
  /-- A square of `size` cells that slides over the plane. -/
  | sliding (size : Nat) (window : Window)
  /-- One window over a whole square plane. -/
  | plane
deriving DecidableEq, Repr

/-- The parameters of a pooling. -/
structure Pooling where
  kind : PoolKind
  region : PoolRegion
  excludePadding : Bool
deriving DecidableEq, Repr

/-- The cells of a window along one axis of the padded plane, from `first` up to `last`. -/
structure PoolSpan where
  first : Nat
  last : Nat
deriving DecidableEq, Repr

namespace PoolSpan

/-- The span of the window at a position, clipped at the end of the padded plane. -/
def ofPosition (position stride size before extent after : Nat) : PoolSpan :=
  let first := position * stride
  ⟨first, min (first + size) (extent + before + after)⟩

/-- The numbers formed for the span of the window at a position. -/
def numbers (position stride size before extent after : Nat) : List Nat :=
  [position * stride, position * stride + size, extent + before, extent + before + after]

/-- The span has a length, and does not end before the input begins. -/
def Valid (s : PoolSpan) (before : Nat) : Prop := s.first ≤ s.last ∧ before ≤ s.last

instance (s : PoolSpan) (before : Nat) : Decidable (s.Valid before) :=
  inferInstanceAs (Decidable (_ ∧ _))

def cells (s : PoolSpan) : Nat := s.last - s.first

def inputs (s : PoolSpan) (before extent : Nat) : List Nat :=
  let first := max s.first before - before
  List.range' first (min (s.last - before) extent - first)

end PoolSpan

/-- A pooling of one tensor into another. -/
structure PoolingLayer where
  input : View
  output : View
  kind : PoolKind
  size : Nat
  window : Window
  excludePadding : Bool
deriving DecidableEq, Repr

namespace PoolingLayer

def resolve (region : PoolRegion) (input : Shape) : Except LayerError (Nat × Window) :=
  match region with
  | .sliding size window => .ok (size, window)
  | .plane => if input.x = input.y then .ok (input.x, .default) else .error (.globalPlane input)

/-- The window moves, is not empty and is not covered by the padding on one side. -/
def checkWindow (size : Nat) (w : Window) : Except LayerError Unit := do
  if size = 0 ∨ w.strideX = 0 ∨ w.strideY = 0 then throw .emptyPool
  if size ≤ max w.left w.right ∨ size ≤ max w.top w.bottom then throw (.coveringPadding w size)

/-- The output has one element per position of the window on every plane. -/
def checkOutput (l : PoolingLayer) : Except LayerError Unit :=
  let input := l.input.layout.shape
  let output := l.output.layout.shape
  let (width, height) := l.window.outputSize input.x input.y l.size l.size
  if output.x = width ∧ output.y = height ∧ output.z = input.z
      ∧ output.upperSize 3 = input.upperSize 3 then .ok ()
  else .error (.poolingOutput input output width height)

def configure (input output : View) (p : Pooling) : Except LayerError PoolingLayer := do
  checkFloat input.layout
  checkSameType input.layout output.layout
  let (size, window) ← resolve p.region input.layout.shape
  checkWindow size window
  let l : PoolingLayer := ⟨input, output, p.kind, size, window, p.excludePadding⟩
  l.checkOutput
  return l

def spanX (l : PoolingLayer) (s : Site) : PoolSpan :=
  .ofPosition s.x l.window.strideX l.size l.window.left l.input.layout.shape.x l.window.right

def spanY (l : PoolingLayer) (s : Site) : PoolSpan :=
  .ofPosition s.y l.window.strideY l.size l.window.top l.input.layout.shape.y l.window.bottom

def WindowValid (l : PoolingLayer) (s : Site) : Prop :=
  (l.spanX s).Valid l.window.left ∧ (l.spanY s).Valid l.window.top

instance (l : PoolingLayer) (s : Site) : Decidable (l.WindowValid s) :=
  inferInstanceAs (Decidable (_ ∧ _))

/-- The input elements in the window at an output element, row by row. -/
def elements (l : PoolingLayer) (s : Site) : List Site :=
  let shape := l.input.layout.shape
  ((l.spanY s).inputs l.window.top shape.y).flatMap fun y =>
    ((l.spanX s).inputs l.window.left shape.x).map fun x => { s with x, y }

/-- The numbers formed for the window at an output element. -/
def numbers (l : PoolingLayer) (s : Site) : List Nat :=
  let shape := l.input.layout.shape
  let w := l.window
  PoolSpan.numbers s.x w.strideX l.size w.left shape.x w.right ++
    PoolSpan.numbers s.y w.strideY l.size w.top shape.y w.bottom ++
      [(l.spanX s).cells * (l.spanY s).cells]

/-- What the mean at an output element divides by. -/
def area (l : PoolingLayer) (s : Site) : Nat :=
  if l.excludePadding then (l.elements s).length else (l.spanX s).cells * (l.spanY s).cells

def runSite (l : PoolingLayer) (s : Site) (m : Memory) : Memory :=
  let acc := (l.elements s).foldl
    (fun acc t => l.kind.fold acc (l.input.loadValue m (l.input.layout.site t))) l.kind.start
  l.output.storeValue m (l.output.layout.site s) (l.kind.finish (l.area s) acc)

/-- Fails, before anything is written, when some window is not valid or has numbers that are no
machine words. -/
def run (l : PoolingLayer) (m : Memory) : Except Fault Memory :=
  let shape := l.output.layout.shape
  if ∀ s ∈ shape.sites, l.WindowValid s ∧ InWords (l.numbers s) then .ok (shape.launch l.runSite m)
  else .error .arithmetic

end PoolingLayer

end TileCompute
