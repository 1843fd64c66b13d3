import TileCompute.Monitor
import TileCompute.Tensor.Layout

/-!
# TileCompute.Grid

Work-items and their launch.

A kernel is a body run once for every point of a grid. The points are numbered along x first, then
y, then z, and `Grid.items` lists them in that order; `launch` runs the body on a state at each in
turn. `Shape.sites` lists the elements of a shape in the order of a launch over it, all dimensions
above the third folded into one. `Grid.launchIn` and `Shape.launchIn` are the launches as they are
carried out, with the numbers that they form and the divisions that they make.
-/

namespace TileCompute

/-- A point of a launch grid. -/
structure WorkItem where
  x : Nat
  y : Nat
  z : Nat
deriving DecidableEq, Repr

/-- Extents of a launch. -/
structure Grid where
  x : Nat
  y : Nat
  z : Nat
deriving DecidableEq, Repr

/-- Quotient rounded up. -/
def ceilDiv (a b : Nat) : Nat := (a + b - 1) / b

namespace Grid

/-- The grid whose blocks of `block` elements cover `extent`. -/
def covering (extent block : WorkItem) : Grid :=
  ⟨ceilDiv extent.x block.x, ceilDiv extent.y block.y, ceilDiv extent.z block.z⟩

/-- `covering`, or nothing for blocks without elements. -/
def covering? (extent block : WorkItem) : Option Grid :=
  if block.x = 0 ∨ block.y = 0 ∨ block.z = 0 then none else some (covering extent block)

def size (g : Grid) : Nat := g.x * g.y * g.z

def isEmpty (g : Grid) : Bool := g.size = 0

/-- The numbers formed when the work-items are counted. -/
def numbers (g : Grid) : List Nat := [g.x * g.y, g.size]

def item (g : Grid) (n : Nat) : WorkItem := ⟨n % g.x, n / g.x % g.y, n / g.x / g.y⟩

def items (g : Grid) : List WorkItem := (List.range g.size).map g.item

end Grid

def runItems {ι σ : Type} (items : List ι) (body : ι → σ → σ) (s : σ) : σ :=
  items.foldl (fun s item => body item s) s

def Grid.launch {σ : Type} (g : Grid) (body : WorkItem → σ → σ) (s : σ) : σ :=
  runItems g.items body s

/-- A launch as it is carried out, row by row: the rows of all planes are numbered, and the number
of a row is divided by the rows of a plane. A grid without work-items has no row. -/
def Grid.launchIn {M : Type → Type} [Monitor M] {σ : Type} (g : Grid)
    (body : WorkItem → σ → M σ) (s : σ) : M σ := do
  Monitor.require (InWords g.numbers)
  if g.isEmpty then return s
  Monitor.require (InWords [g.y * g.z])
  (List.range (g.y * g.z)).foldlM (fun s row => do
    Monitor.require (g.y ≠ 0)
    (List.range g.x).foldlM (fun s x => body ⟨x, row % g.y, row / g.y⟩ s) s) s

/-- An element of a tensor with the dimensions above the third folded into `w`. -/
structure Site where
  x : Nat
  y : Nat
  z : Nat
  w : Nat
deriving DecidableEq, Repr

namespace Shape

/-- The grid of a launch over every element: the folded dimensions count planes. -/
def grid (s : Shape) : Grid := ⟨s.x, s.y, s.z * s.upperSize 3⟩

/-- The element that a point of `grid` stands for. -/
def siteOf (s : Shape) (item : WorkItem) : Site := ⟨item.x, item.y, item.z % s.z, item.z / s.z⟩

def sites (s : Shape) : List Site := s.grid.items.map s.siteOf

def launch {σ : Type} (s : Shape) (body : Site → σ → σ) (state : σ) : σ :=
  runItems s.sites body state

/-- The numbers formed when the folded dimensions are counted. -/
def gridNumbers (s : Shape) : List Nat := s.products 3 3 ++ [s.z * s.upperSize 3]

/-- `launch` as it is carried out: the point along `z` is divided by the third extent. -/
def launchIn {M : Type → Type} [Monitor M] {σ : Type} (s : Shape) (body : Site → σ → M σ)
    (state : σ) : M σ := do
  Monitor.require (InWords s.gridNumbers)
  s.grid.launchIn (fun item state => do
    Monitor.require (s.z ≠ 0)
    body (s.siteOf item) state) state

end Shape

namespace Layout

def site (l : Layout) (s : Site) : Nat := l.offset4 s.x s.y s.z s.w

end Layout

end TileCompute
