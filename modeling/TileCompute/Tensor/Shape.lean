/-!
# TileCompute.Tensor.Shape

Extents of a tensor, innermost first.

A shape has six extents, one for each dimension that is not used, and remembers its *rank*: one
more than the last dimension whose extent is not one. `Shape.set` keeps the rank up to date one
extent at a time. Elements are numbered with the first dimension fastest; `coordOf` takes a number
apart into the six coordinates, and `coords` lists them in that order.
-/

namespace TileCompute

def maxRank : Nat := 6

/-- One position along each dimension. -/
abbrev Coord := Vector Nat 6

/-- Extents along each dimension with the number of leading ones that count. -/
structure Shape where
  extents : Vector Nat 6
  rank : Nat
deriving DecidableEq, Repr

namespace Shape

def unit : Shape := ⟨Vector.replicate 6 1, 0⟩

instance : Inhabited Shape := ⟨unit⟩

/-- The rank left when trailing extents of one are dropped from the first `n`. -/
def trimRank (extents : Vector Nat 6) : Nat → Nat
  | 0 => 0
  | n + 1 => if extents[n]? = some 1 then trimRank extents n else n + 1

/-- Changes one extent and adjusts the rank: it grows to a new last dimension, and shrinks past
every extent of one when the last dimension loses its extent. -/
def set (s : Shape) (d : Fin 6) (extent : Nat) : Shape :=
  let extents := s.extents.set d extent
  if extent ≠ 1 ∧ s.rank ≤ d then ⟨extents, d + 1⟩
  else if d + 1 = s.rank ∧ extent = 1 then ⟨extents, trimRank extents s.rank⟩
  else ⟨extents, s.rank⟩

/-- Changes the extents of a plane, the first two. -/
def setPlane (s : Shape) (x y : Nat) : Shape := (s.set 0 x).set 1 y

/-- Sets consecutive extents from dimension `d` on; extents past the sixth are left out. -/
def setFrom (s : Shape) (d : Nat) : List Nat → Shape
  | [] => s
  | extent :: rest =>
    if h : d < 6 then (s.set ⟨d, h⟩ extent).setFrom (d + 1) rest else s

def ofList (dims : List Nat) : Shape := unit.setFrom 0 dims

/-- Extent along a dimension; one past the sixth. -/
def dim (s : Shape) (d : Nat) : Nat := if h : d < 6 then s.extents[d] else 1

def x (s : Shape) : Nat := s.dim 0
def y (s : Shape) : Nat := s.dim 1
def z (s : Shape) : Nat := s.dim 2
def w (s : Shape) : Nat := s.dim 3

def dimensions (s : Shape) : Nat := max s.rank 1

/-- Product of `count` extents from dimension `d` on. -/
def product (s : Shape) (d : Nat) : (count : Nat) → Nat
  | 0 => 1
  | count + 1 => s.dim d * s.product (d + 1) count

/-- The products of the first extents of that many from dimension `d` on, as they are multiplied
up. -/
def products (s : Shape) (d count : Nat) : List Nat :=
  (List.range count).map fun i => s.product d (i + 1)

def size (s : Shape) : Nat := s.product 0 6

/-- Product of the extents from dimension `d` on. -/
def upperSize (s : Shape) (d : Nat) : Nat := s.product d (6 - d)

/-- Product of the extents below dimension `d`. -/
def lowerSize (s : Shape) (d : Nat) : Nat := s.product 0 (min d 6)

/-- Planes above the first two dimensions. -/
def batches (s : Shape) : Nat := s.upperSize 2

/-- The extents that count, innermost first. -/
def toList (s : Shape) : List Nat := s.extents.toList.take s.dimensions

def text (s : Shape) : String := "x".intercalate (s.toList.map toString)

def Contains (s : Shape) (pos : Coord) : Prop := ∀ d : Fin 6, pos[d] < s.dim d

instance (s : Shape) (pos : Coord) : Decidable (s.Contains pos) :=
  inferInstanceAs (Decidable (∀ d : Fin 6, pos[d] < s.dim d))

/-- Coordinates of the element with a given number, the first dimension fastest. -/
def coordOf (s : Shape) (i : Nat) : Coord :=
  Vector.ofFn fun d : Fin 6 => i / s.lowerSize d % s.dim d

def coords (s : Shape) : List Coord := (List.range s.size).map s.coordOf

end Shape

/-- Leading coordinates, the others zero; coordinates past the sixth are left out. -/
def Coord.ofList (index : List Nat) : Coord :=
  Vector.ofFn fun d : Fin 6 => index.getD d 0

/-- `ofList`, or nothing for more than six coordinates. -/
def Coord.ofList? (index : List Nat) : Option Coord :=
  if index.length ≤ maxRank then some (Coord.ofList index) else none

end TileCompute
