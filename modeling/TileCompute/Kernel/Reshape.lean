import TileCompute.Kernel.Error
import TileCompute.Tensor.View

/-!
# TileCompute.Kernel.Reshape

The kernels that rearrange operands.

A reshape moves elements without looking at their values, so it serves every data type. Each
work-item is a list of `Move`s: an element goes from an address of the source to one of the
destination, or a zero goes there where a block reaches past the source matrix. The moves are
plain data, and `Reshape.runIn` carries them out: `Reshape.run` just so, `Reshape.run?` with every
number, address and division checked.

* interleaving packs blocks of four rows: element `(k, row)` goes to column
  `k * 4V + (row / 4 % V) * 4 + row % 4` of row `row / 4 / V`;
* block transposition packs blocks of `W` columns: element `(col, k)` goes to column
  `k * W * H + (col / W % H) * W + col % W` of row `col / W / H`;
* transposition exchanges the first two coordinates.
-/

namespace TileCompute

/-- One element moved: where it goes and where it comes from, nowhere for a zero. -/
structure Move where
  target : Nat
  source : Option Nat
deriving DecidableEq, Repr

/-- What a reshape does to the first two dimensions. -/
inductive Arrangement where
  /-- Interleaves blocks of four rows, so many blocks to a row. -/
  | interleaved (rowBlocks : Nat)
  /-- Transposes blocks of one vector of columns, so many blocks to a row. -/
  | blockTransposed (columnBlocks : Nat)
  | transposed
deriving DecidableEq, Repr

namespace Arrangement

def name : Arrangement → String
  | interleaved _ => "gemm_interleave4x4"
  | blockTransposed _ => "gemm_transpose1xW"
  | transposed => "transpose"

def packing (a : Arrangement) (t : DataType) : Packing :=
  match a with
  | interleaved rowBlocks => .ofType t 1 rowBlocks
  | blockTransposed columnBlocks => .ofType t columnBlocks 1
  | transposed => .ofType t 1 1

def shape (a : Arrangement) (source : Layout) : Shape :=
  match a with
  | interleaved _ => (a.packing source.dataType).interleavedShape source.shape
  | blockTransposed _ => (a.packing source.dataType).transposedShape source.shape
  | transposed => source.shape.setPlane source.shape.y source.shape.x

/-- Blocks that share a row of the destination. -/
def blocks : Arrangement → Nat
  | interleaved rowBlocks => rowBlocks
  | blockTransposed columnBlocks => columnBlocks
  | transposed => 1

/-- The layout of a fresh destination. Without any blocks to a row there is none. -/
def outputLayout (a : Arrangement) (source : Layout) : Except Fault Layout :=
  if a.blocks = 0 then .error .arithmetic else .ok (.packed (a.shape source) source.dataType)

/-- The numbers formed for the extents of a destination. -/
def shapeNumbers (a : Arrangement) (source : Layout) : List Nat :=
  match a with
  | interleaved _ => (a.packing source.dataType).interleavedNumbers source.shape
  | blockTransposed _ => (a.packing source.dataType).transposedNumbers source.shape
  | transposed => (Layout.packed (a.shape source) source.dataType).numbers

/-- `outputLayout` in machine words. -/
def outputLayout? (a : Arrangement) (source : Layout) : Except Fault Layout := do
  let made ← a.outputLayout source
  checkWords (a.shapeNumbers source ++ made.numbers)
  return made

end Arrangement

/-- A configured reshape. -/
structure Reshape where
  arrangement : Arrangement
  source : Layout
  target : Layout
deriving DecidableEq, Repr

namespace Reshape

def packing (r : Reshape) : Packing := r.arrangement.packing r.source.dataType

/-- Accepts a destination of the source's type and batches whose first two extents are those of
the arrangement. -/
def configure (arrangement : Arrangement) (source target : Layout) :
    Except KernelError Reshape := do
  (arrangement.packing source.dataType).check
  let expected := arrangement.shape source
  if source.dataType ≠ target.dataType then
    throw (.dataTypeMismatch source.dataType target.dataType)
  if target.dim 0 ≠ expected.x ∨ target.dim 1 ≠ expected.y ∨ target.batches ≠ source.batches then
    throw (.reshapeDestination arrangement.name target.shape expected)
  return ⟨arrangement, source, target⟩

/-- Everything agrees but perhaps the planes. -/
def AgreesInPlane (r : Reshape) : Prop :=
  r.source.dataType = r.target.dataType ∧ r.target.dim 0 = (r.arrangement.shape r.source).x ∧
    r.target.dim 1 = (r.arrangement.shape r.source).y

instance (r : Reshape) : Decidable r.AgreesInPlane := inferInstanceAs (Decidable (_ ∧ _ ∧ _))

/-- The numbers formed when the planes are counted, which is done last. -/
def planeNumbers (r : Reshape) : List Nat :=
  if r.AgreesInPlane then r.target.shape.products 2 4 ++ r.source.shape.products 2 4 else []

/-- `configure` in machine words, with the numbers that each check needs and the blocks of the
destination's rows. -/
def configure? (arrangement : Arrangement) (source target : Layout) :
    Except (Failure KernelError) Reshape := do
  let r : Reshape := ⟨arrangement, source, target⟩
  refuse r.packing.check
  raise (checkWords (arrangement.shapeNumbers source))
  raise (checkWords r.planeNumbers)
  let _ ← refuse (configure arrangement source target)
  raise (checkWords [target.dim 1 * arrangement.blocks])
  return r

/-- Interleaving takes four steps of the reduction per work-item, block transposition one block of
columns, transposition one element. -/
def grid (r : Reshape) : Grid :=
  match r.arrangement with
  | .interleaved rowBlocks =>
    ⟨ceilDiv (r.source.dim 0) interleaveHeight, r.target.dim 1 * rowBlocks, r.source.batches⟩
  | .blockTransposed columnBlocks =>
    ⟨r.target.dim 1 * columnBlocks, r.source.dim 1, r.source.batches⟩
  | .transposed => ⟨r.source.dim 0, r.source.dim 1, r.source.batches⟩

/-- Moves of one interleaving work-item: every row of block `y` at four steps of the reduction. -/
def interleaveMoves (r : Reshape) (rowBlocks : Nat) (item : WorkItem) : List Move :=
  let first := item.x * interleaveHeight
  let last := min (first + interleaveHeight) (r.source.dim 0)
  (List.range' first (last - first)).flatMap fun k =>
    (List.range interleaveHeight).map fun i =>
      let row := item.y * interleaveHeight + i
      let column := k * interleaveHeight * rowBlocks + item.y % rowBlocks * interleaveHeight + i
      { target := r.target.offset3 column (item.y / rowBlocks) item.z
        source :=
          if row < r.source.dim 1 then some (r.source.offset3 k row item.z) else none }

/-- Moves of one block-transposing work-item: the columns of block `x` at one step of the
reduction. -/
def blockTransposeMoves (r : Reshape) (columnBlocks : Nat) (item : WorkItem) : List Move :=
  let width := r.packing.width
  let first := item.y * width * columnBlocks + item.x % columnBlocks * width
  (List.range width).map fun j =>
    let column := item.x * width + j
    { target := r.target.offset3 (first + j) (item.x / columnBlocks) item.z
      source :=
        if column < r.source.dim 0 then some (r.source.offset3 column item.y item.z) else none }

def moves (r : Reshape) (item : WorkItem) : List Move :=
  match r.arrangement with
  | .interleaved rowBlocks => r.interleaveMoves rowBlocks item
  | .blockTransposed columnBlocks => r.blockTransposeMoves columnBlocks item
  | .transposed =>
    [{ target := r.target.offset3 item.y item.x item.z
       source := some (r.source.offset3 item.x item.y item.z) }]

/-- The numbers that a work-item forms besides addresses: the ends of its block, which may lie past
the source. -/
def itemNumbers (r : Reshape) (item : WorkItem) : List Nat :=
  match r.arrangement with
  | .interleaved _ =>
    [item.x * interleaveHeight + interleaveHeight,
      item.y * interleaveHeight + (interleaveHeight - 1)]
  | .blockTransposed _ => [item.x * r.packing.width + (r.packing.width - 1)]
  | .transposed => []

section Run

variable {M : Type → Type} [Monitor M]

/-- The moves of a work-item, which divides by the number of blocks in a row. -/
def movesIn (r : Reshape) (item : WorkItem) : M (List Move) := do
  Monitor.require (r.arrangement.blocks ≠ 0)
  Monitor.require (InWords (r.itemNumbers item))
  return r.moves item

def moveIn (r : Reshape) (source target : BufferId) (mv : Move) (m : Memory) : M Memory := do
  let word ←
    match mv.source with
    | some offset => View.loadIn ⟨source, r.source⟩ m offset
    | none => pure 0
  View.storeIn ⟨target, r.target⟩ m mv.target word

def runItemIn (r : Reshape) (source target : BufferId) (item : WorkItem) (m : Memory) :
    M Memory := do
  let moves ← r.movesIn item
  moves.foldlM (fun m mv => r.moveIn source target mv m) m

def runIn (r : Reshape) (source target : BufferId) (m : Memory) : M Memory :=
  r.grid.launchIn (r.runItemIn source target) m

end Run

def runItem (r : Reshape) (source target : BufferId) (item : WorkItem) (m : Memory) : Memory :=
  Id.run (r.runItemIn source target item m)

def run (r : Reshape) (source target : BufferId) (m : Memory) : Memory :=
  Id.run (r.runIn source target m)

/-- The run with every check. -/
def run? (r : Reshape) (source target : BufferId) (m : Memory) : Option Memory :=
  r.runIn source target m

end Reshape

end TileCompute
