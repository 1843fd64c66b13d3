import TileCompute.Kernel.Tile
import TileCompute.Target.Registry
import TileCompute.Tensor.View

/-!
# TileCompute.Kernel.Multiply

The matrix multiply kernel.

A `Multiply` holds the layouts of the two operands and the destination, all dimensions above the
second being batches. On the direct path the operands are plain row-major matrices; on the
reshaped path `A` is interleaved and `B` block-transposed. When `B` has fewer batches than the
destination its batches are used in turn.

`Multiply.plan` gives the addresses that one work-item reads and writes, and `Multiply.runIn`
carries the plans out: `Multiply.run` just so, `Multiply.run?` with every number, address and
division checked.
-/

namespace TileCompute

/-- A multiply with its operands. -/
structure Multiply where
  a : Layout
  b : Layout
  target : Layout
  alpha : Binary32
  config : Config
deriving DecidableEq, Repr

/-- Addresses of one output tile. A work-item fills `rows` by `cols` accumulators from
`aAddress k i` and `bAddress k j` and stores the first `storeRows` by `storeCols` of them. -/
structure TilePlan where
  rows : Nat
  cols : Nat
  aAddress : Nat → Nat → Nat
  bAddress : Nat → Nat → Nat
  storeRows : Nat
  storeCols : Nat
  targetAddress : Nat → Nat → Nat

namespace Multiply

def m (k : Multiply) : Nat := k.target.dim 1

def n (k : Multiply) : Nat := k.target.dim 0

def batches (k : Multiply) : Nat := k.target.batches

/-- Planes of the right operand. -/
def bDepth (k : Multiply) : Nat := k.b.batches

def depth (k : Multiply) : Nat :=
  match k.config.path with
  | .reshaped columnBlocks rowBlocks =>
    k.a.dim 0 / (Packing.ofType k.a.dataType columnBlocks rowBlocks).interleavedBlock
  | .direct _ => k.a.dim 0

def checkTypes (k : Multiply) : Except KernelError Unit := do
  let t := k.a.dataType
  if t.kind = .s32 then throw (.unsupportedDataType t)
  if k.b.dataType ≠ t then throw (.dataTypeMismatch t k.b.dataType)
  if k.target.dataType ≠ t then throw (.dataTypeMismatch t k.target.dataType)

def checkExtent (what : String) (expected actual : Nat) : Except KernelError Unit :=
  if actual = expected then .ok () else .error (.extent what expected actual)

/-- The left operand has the extents of an interleaved matrix for this destination. -/
def checkInterleaved (k : Multiply) (p : Packing) : Except KernelError Unit := do
  let block := p.interleavedBlock
  if k.a.dim 0 % block ≠ 0 then throw (.interleavedWidth (k.a.dim 0) block)
  checkExtent "interleaved A rows" (p.interleavedRows k.m) (k.a.dim 1)

/-- The right operand has the extents of a transposed matrix for this destination. -/
def checkTransposed (k : Multiply) (p : Packing) : Except KernelError Unit := do
  checkExtent "transposed B width" (k.depth * p.transposedBlock) (k.b.dim 0)
  checkExtent "transposed B rows" (p.transposedRows k.n) (k.b.dim 1)

/-- The operands have the extents of reshaped matrices for this destination. -/
def checkReshaped (k : Multiply) (p : Packing) : Except KernelError Unit := do
  p.check
  k.checkInterleaved p
  k.checkTransposed p

/-- The operands have the extents of plain matrices for this destination. -/
def checkDirect (k : Multiply) (tile : TileShape) : Except KernelError Unit := do
  tile.check
  checkExtent "A rows" k.m (k.a.dim 1)
  checkExtent "B rows" k.depth (k.b.dim 1)
  checkExtent "B columns" k.n (k.b.dim 0)

/-- The right operand has at least one plane and no more than the destination. -/
def checkDepth (k : Multiply) : Except KernelError Unit :=
  if k.bDepth = 0 ∨ max k.batches 1 < k.bDepth then
    .error (.extent "B batches" k.batches k.bDepth)
  else .ok ()

/-- The left operand has a plane for each of the destination's, the right operand at least one and
no more. -/
def checkBatches (k : Multiply) : Except KernelError Unit := do
  checkExtent "A batches" k.batches k.a.batches
  k.checkDepth

def check (k : Multiply) : Except KernelError Unit := do
  k.checkTypes
  match k.config.path with
  | .reshaped columnBlocks rowBlocks =>
    k.checkReshaped (.ofType k.a.dataType columnBlocks rowBlocks)
  | .direct tile => k.checkDirect tile
  k.checkBatches

def configure (a b target : Layout) (alpha : Binary32) (config : Config) :
    Except KernelError Multiply := do
  let k : Multiply := ⟨a, b, target, alpha, config⟩
  k.check
  return k

/-- The numbers formed for the extents of a transposed right operand. -/
def transposedNumbers (k : Multiply) (p : Packing) : List Nat :=
  [p.transposedBlock, k.depth * p.transposedBlock]

/-- `configure` in machine words: the checks one after the other, with the numbers that each of
them needs. -/
def configure? (a b target : Layout) (alpha : Binary32) (config : Config) :
    Except (Failure KernelError) Multiply := do
  let k : Multiply := ⟨a, b, target, alpha, config⟩
  refuse k.checkTypes
  raise (checkWords (target.shape.products 2 4))
  match config.path with
  | .reshaped columnBlocks rowBlocks =>
    let p := Packing.ofType a.dataType columnBlocks rowBlocks
    refuse p.check
    raise (checkWords [p.interleavedBlock])
    refuse (k.checkInterleaved p)
    raise (checkWords (k.transposedNumbers p))
    refuse (k.checkTransposed p)
  | .direct tile => refuse (k.checkDirect tile)
  raise (checkWords (a.shape.products 2 4))
  refuse (checkExtent "A batches" k.batches k.a.batches)
  raise (checkWords (b.shape.products 2 4))
  refuse k.checkDepth
  return k

def name (k : Multiply) : String :=
  let path :=
    match k.config.path with
    | .reshaped .. => "interleaved_transposed"
    | .direct _ => "direct"
  s!"gemm_mm_{path}_{k.a.dataType.kind.lowerName}_{k.config.target.lowerName}"

/-- Output elements per work-item, columns first. -/
def block (k : Multiply) : WorkItem :=
  match k.config.path with
  | .reshaped .. => ⟨k.a.dataType.vectorWidth, interleaveHeight, 1⟩
  | .direct tile => ⟨tile.cols, tile.rows, 1⟩

def grid (k : Multiply) : Grid := .covering ⟨k.n, k.m, k.batches⟩ k.block

/-- A work-item of the reshaped path: four rows by one vector of columns. The reshaped operands
have room for the whole tile, so an edge tile is computed whole and stored in part. -/
def reshapedPlan (k : Multiply) (p : Packing) (item : WorkItem) : TilePlan :=
  let strideA := k.a.stride 0
  let strideB := k.b.stride 0
  let baseA := k.a.offset3 0 (item.y / p.rowBlocks) item.z
    + item.y % p.rowBlocks * interleaveHeight * strideA
  let baseB := k.b.offset3 0 (item.x / p.columnBlocks) (item.z % k.bDepth)
    + item.x % p.columnBlocks * p.width * strideB
  let row := item.y * interleaveHeight
  let column := item.x * p.width
  { rows := interleaveHeight
    cols := p.width
    aAddress := fun s i => baseA + s * (p.interleavedBlock * strideA) + i * strideA
    bAddress := fun s j => baseB + s * (p.transposedBlock * strideB) + j * strideB
    storeRows := min interleaveHeight (k.m - row)
    storeCols := min p.width (k.n - column)
    targetAddress := fun i j => k.target.offset3 (column + j) (row + i) item.z }

/-- A work-item of the direct path: one tile, clipped at the edges of the output. -/
def directPlan (k : Multiply) (tile : TileShape) (item : WorkItem) : TilePlan :=
  let row := item.y * tile.rows
  let column := item.x * tile.cols
  let rows := min tile.rows (k.m - row)
  let cols := min tile.cols (k.n - column)
  { rows, cols
    aAddress := fun s i => k.a.offset3 s (row + i) item.z
    bAddress := fun s j => k.b.offset3 (column + j) s (item.z % k.bDepth)
    storeRows := rows
    storeCols := cols
    targetAddress := fun i j => k.target.offset3 (column + j) (row + i) item.z }

def plan (k : Multiply) (item : WorkItem) : TilePlan :=
  match k.config.path with
  | .reshaped columnBlocks rowBlocks =>
    k.reshapedPlan (.ofType k.a.dataType columnBlocks rowBlocks) item
  | .direct tile => k.directPlan tile item

/-- The factor of every result, unless it is one. -/
def factor (k : Multiply) (α : Type) [Element α] : Option α :=
  if k.alpha.eqv .one then none else some (Element.ofBinary32 k.target.dataType.frac k.alpha)

/-- The numbers that a work-item forms besides the addresses of elements: the end of the block of
the reduction after the last, and on the reshaped path the bytes from one step to the next and the
beginnings of its blocks. -/
def itemNumbers (k : Multiply) (item : WorkItem) : List Nat :=
  let unroll := k.config.target.unroll
  (k.depth / unroll + 1) * unroll ::
    match k.config.path with
    | .reshaped columnBlocks rowBlocks =>
      let p := Packing.ofType k.a.dataType columnBlocks rowBlocks
      let plan := k.reshapedPlan p item
      [p.interleavedBlock * k.a.stride 0, p.transposedBlock * k.b.stride 0,
        plan.aAddress 0 0, plan.bAddress 0 0]
    | .direct _ => []

section Run

variable {M : Type → Type} [Monitor M]

/-- The plan of a work-item: it begins inside the output, and the numbers of planes of the right
operand and of blocks in a row, by which it divides, are not zero. -/
def planIn (k : Multiply) (item : WorkItem) : M TilePlan := do
  Monitor.require (k.bDepth ≠ 0)
  Monitor.require (item.x * k.block.x ≤ k.n ∧ item.y * k.block.y ≤ k.m)
  match k.config.path with
  | .reshaped columnBlocks rowBlocks => Monitor.require (columnBlocks ≠ 0 ∧ rowBlocks ≠ 0)
  | .direct _ => pure ()
  Monitor.require (InWords (k.itemNumbers item))
  return k.plan item

/-- The accumulators of a work-item after the last step. They are as many as there are, and the
products of fixed-point elements are shifted by the position of the binary point. -/
def tileIn (k : Multiply) (α : Type) [Element α] (a b : BufferId) (plan : TilePlan)
    (m : Memory) : M (Tile α) := do
  let frac := k.target.dataType.frac
  Monitor.require (plan.rows ≤ maxTileRows ∧ plan.cols ≤ maxTileCols)
  Monitor.require (k.depth = 0 ∨ frac < 64)
  k.config.target.accumulateIn frac
    (fun s i => Element.ofWord <$> View.loadIn ⟨a, k.a⟩ m (plan.aAddress s i))
    (fun s j => Element.ofWord <$> View.loadIn ⟨b, k.b⟩ m (plan.bAddress s j)) k.depth
    (.zero α frac plan.rows plan.cols)

def runItemIn (k : Multiply) (α : Type) [Element α] (a b target : BufferId) (item : WorkItem)
    (m : Memory) : M Memory := do
  let plan ← k.planIn item
  let tile ← k.tileIn α a b plan m
  Monitor.require (plan.storeRows ≤ maxTileRows ∧ plan.storeCols ≤ maxTileCols)
  let result := tile.result k.target.dataType.frac (k.factor α)
  (Tile.cells plan.storeRows plan.storeCols).foldlM (fun m (i, j) =>
    View.storeIn ⟨target, k.target⟩ m (plan.targetAddress i j) (Element.toWord (result i j))) m

/-- All work-items, after the factor has been converted. -/
def runAsIn (k : Multiply) (α : Type) [Element α] (a b target : BufferId) (m : Memory) :
    M Memory := do
  Monitor.require (k.alpha.eqv .one ∨ k.target.dataType.frac < 64)
  k.grid.launchIn (k.runItemIn α a b target) m

/-- There is no multiply of whole numbers. -/
def runIn (k : Multiply) (a b target : BufferId) (m : Memory) : M Memory :=
  match k.target.dataType.kind with
  | .f32 => k.runAsIn Binary32 a b target m
  | .f16 => k.runAsIn Binary16 a b target m
  | .qs8 => k.runAsIn Q8 a b target m
  | .qs16 => k.runAsIn Q16 a b target m
  | .s32 => do
    Monitor.require False
    return m

end Run

def runItem (k : Multiply) (α : Type) [Element α] (a b target : BufferId) (item : WorkItem)
    (m : Memory) : Memory :=
  Id.run (k.runItemIn α a b target item m)

def run (k : Multiply) (a b target : BufferId) (m : Memory) : Memory :=
  Id.run (k.runIn a b target m)

/-- The run with every check. -/
def run? (k : Multiply) (a b target : BufferId) (m : Memory) : Option Memory :=
  k.runIn a b target m

end Multiply

end TileCompute
