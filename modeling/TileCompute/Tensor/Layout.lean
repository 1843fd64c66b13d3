import TileCompute.DataType
import TileCompute.Number.Word
import TileCompute.Tensor.Shape

/-!
# TileCompute.Tensor.Layout

Where the elements of a tensor lie in its buffer.

A layout is a shape, a data type and a border of padding around every plane of the first two
dimensions. Strides follow from these: the padded width, the padded plane, and then whole planes.
The byte address of an element is the address of the first one plus one stride per step along each
dimension; dimensions above the second carry no padding, so several of them can be walked as one
flattened index. `Layout.of?` makes a layout whose numbers fit in machine words.
-/

namespace TileCompute

/-- Elements of border around a plane. -/
structure Padding where
  top : Nat
  right : Nat
  bottom : Nat
  left : Nat
deriving DecidableEq, Repr

namespace Padding

def none : Padding := ⟨0, 0, 0, 0⟩

/-- The same border on all four sides. -/
def uniform (n : Nat) : Padding := ⟨n, n, n, n⟩

end Padding

/-- Shape, data type and padding of a tensor in memory. -/
structure Layout where
  shape : Shape
  dataType : DataType
  padding : Padding
deriving DecidableEq, Repr

namespace Layout

/-- A layout without padding. -/
def packed (shape : Shape) (dataType : DataType) : Layout := ⟨shape, dataType, .none⟩

instance : Inhabited Layout := ⟨packed .unit .f32⟩

def elementSize (l : Layout) : Nat := l.dataType.elementSize

def dim (l : Layout) (d : Nat) : Nat := l.shape.dim d

/-- Bytes between neighbours along a dimension. -/
def stride (l : Layout) : (d : Nat) → Nat
  | 0 => l.elementSize
  | 1 => l.elementSize * (l.shape.x + l.padding.left + l.padding.right)
  | 2 => l.stride 1 * (l.shape.y + l.padding.top + l.padding.bottom)
  | d + 3 => l.stride (d + 2) * l.dim (d + 2)

/-- Address of the first element, behind the border above and to the left of it. -/
def start (l : Layout) : Nat := l.padding.top * l.stride 1 + l.padding.left * l.stride 0

/-- Bytes from the beginning of the buffer to the end of the last plane. -/
def byteSize (l : Layout) : Nat := l.stride 5 * l.dim 5

/-- The numbers formed when a layout is made. -/
def numbers (l : Layout) : List Nat :=
  [l.shape.x + l.padding.left, l.shape.x + l.padding.left + l.padding.right,
    l.shape.y + l.padding.top, l.shape.y + l.padding.top + l.padding.bottom] ++
  [l.stride 1, l.stride 2, l.stride 3, l.stride 4, l.stride 5] ++
  [l.padding.top * l.stride 1, l.padding.left * l.stride 0, l.start, l.byteSize]

/-- The layout of a tensor, with its strides and its size in machine words. -/
def of? (shape : Shape) (dataType : DataType) (padding : Padding) : Option Layout :=
  inWords? (numbers ⟨shape, dataType, padding⟩) ⟨shape, dataType, padding⟩

/-- Planes above the first two dimensions. -/
def batches (l : Layout) : Nat := l.shape.batches

/-- No border, so that elements follow each other without gaps. -/
def isContiguous (l : Layout) : Bool := l.padding = .none

/-- Address of an element on the first plane. -/
def offset2 (l : Layout) (x y : Nat) : Nat := l.start + x * l.stride 0 + y * l.stride 1

/-- Address of an element with all dimensions above the second flattened into `z`. -/
def offset3 (l : Layout) (x y z : Nat) : Nat := l.offset2 x y + z * l.stride 2

/-- Address of an element with all dimensions above the third flattened into `w`. -/
def offset4 (l : Layout) (x y z w : Nat) : Nat := l.offset3 x y z + w * l.stride 3

def offset (l : Layout) (pos : Coord) : Nat :=
  l.start + pos[0] * l.stride 0 + pos[1] * l.stride 1 + pos[2] * l.stride 2
    + pos[3] * l.stride 3 + pos[4] * l.stride 4 + pos[5] * l.stride 5

/-- `offset` in machine words. The products and sums on the way to it are no larger. -/
def offset? (l : Layout) (pos : Coord) : Option Nat := inWords? [l.offset pos] (l.offset pos)

/-- `offset3` in machine words. -/
def offset3? (l : Layout) (x y z : Nat) : Option Nat :=
  inWords? [l.offset3 x y z] (l.offset3 x y z)

/-- `offset4` in machine words. -/
def offset4? (l : Layout) (x y z w : Nat) : Option Nat :=
  inWords? [l.offset4 x y z w] (l.offset4 x y z w)

/-- The same elements under another data type. -/
def withDataType (l : Layout) (dataType : DataType) : Layout := { l with dataType }

end Layout

/-- How a kernel that handles a block of elements per work-item walks a tensor: the strides of the
first three dimensions and the bytes from one block to the next. -/
structure BlockWalk where
  start : Nat
  strides : Vector Nat 3
  steps : Vector Nat 3
deriving DecidableEq, Repr

def Layout.walk (l : Layout) (block : Vector Nat 3) : BlockWalk where
  start := l.start
  strides := Vector.ofFn fun d : Fin 3 => l.stride d
  steps := Vector.ofFn fun d : Fin 3 => l.stride d * block[d]

/-- Address of the first element of a work-item's block. -/
def BlockWalk.offset (b : BlockWalk) (item : Vector Nat 3) : Nat :=
  b.start + item[0] * b.steps[0] + item[1] * b.steps[1] + item[2] * b.steps[2]

end TileCompute
