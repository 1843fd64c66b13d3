import TileCompute.Kernel.Multiply
import TileCompute.Proofs.Addressable
import TileCompute.Proofs.Elements
import TileCompute.Proofs.Tile

/-!
# TileCompute.Proofs.Multiply

What the multiply kernel computes. The two paths differ in where the operands hold an element of
`A` or `B` (`aCell`, `bCell`) and in the block of the output that a work-item stores; the rest is
common to both. A multiply whose operands were accepted covers its destination, and every cell
receives one dot product, narrowed and scaled (`element`).

* `Multiply.configure_eq_ok`: the operands that are accepted.
* `Multiply.aAddress_eq`, `Multiply.bAddress_eq`, `Multiply.targetAddress_eq`: the addresses of a
  plan are those of cells.
* `Multiply.runItemIn_eq`, `Multiply.runAsIn_eq`: a work-item fills its cells with what it computed
  before it stored anything, a run all of them.
* `Multiply.covers`: the launch as a fill of the destination.
* `Multiply.load_run`: what a cell holds after a run.
-/

namespace TileCompute

namespace Multiply

/-- The operands have the extents of reshaped matrices for the destination. -/
structure FitsReshaped (k : Multiply) (p : Packing) : Prop where
  valid : p.Valid
  aWidth : k.a.dim 0 % p.interleavedBlock = 0
  aRows : k.a.dim 1 = p.interleavedRows k.m
  bWidth : k.b.dim 0 = k.depth * p.transposedBlock
  bRows : k.b.dim 1 = p.transposedRows k.n

/-- The operands have the extents of plain matrices for the destination. -/
structure FitsDirect (k : Multiply) (tile : TileShape) : Prop where
  valid : tile.Valid
  aRows : k.a.dim 1 = k.m
  bRows : k.b.dim 1 = k.depth
  bColumns : k.b.dim 0 = k.n

def FitsPath (k : Multiply) : Prop :=
  match k.config.path with
  | .reshaped columnBlocks rowBlocks =>
    k.FitsReshaped (.ofType k.a.dataType columnBlocks rowBlocks)
  | .direct tile => k.FitsDirect tile

structure Accepted (k : Multiply) : Prop where
  kind : k.a.dataType.kind ≠ .s32
  bType : k.b.dataType = k.a.dataType
  targetType : k.target.dataType = k.a.dataType
  fits : k.FitsPath
  aBatches : k.a.batches = k.batches
  bDepth_ne : k.bDepth ≠ 0
  bDepth_le : k.bDepth ≤ max k.batches 1

theorem checkExtent_eq_ok {what : String} {expected actual : Nat} {u : Unit} :
    checkExtent what expected actual = .ok u ↔ actual = expected := by
  unfold checkExtent
  split <;> simp [*]

theorem checkTypes_eq_ok {k : Multiply} {u : Unit} : k.checkTypes = .ok u ↔
    k.a.dataType.kind ≠ .s32 ∧ k.b.dataType = k.a.dataType ∧
      k.target.dataType = k.a.dataType := by
  simp only [checkTypes, reject_eq_ok, reject_last_eq_ok, pure_eq_ok, ne_eq, Decidable.not_not,
    and_true]

theorem checkInterleaved_eq_ok {k : Multiply} {p : Packing} {u : Unit} :
    k.checkInterleaved p = .ok u ↔
      k.a.dim 0 % p.interleavedBlock = 0 ∧ k.a.dim 1 = p.interleavedRows k.m := by
  simp only [checkInterleaved, reject_eq_ok, checkExtent_eq_ok, ne_eq, Decidable.not_not]

theorem checkTransposed_eq_ok {k : Multiply} {p : Packing} {u : Unit} :
    k.checkTransposed p = .ok u ↔
      k.b.dim 0 = k.depth * p.transposedBlock ∧ k.b.dim 1 = p.transposedRows k.n := by
  simp only [checkTransposed, bind_eq_ok, checkExtent_eq_ok, exists_const]

theorem checkReshaped_eq_ok {k : Multiply} {p : Packing} {u : Unit} :
    k.checkReshaped p = .ok u ↔ k.FitsReshaped p := by
  simp only [checkReshaped, bind_eq_ok, Packing.check_eq_ok, checkInterleaved_eq_ok,
    checkTransposed_eq_ok, exists_const]
  constructor
  · rintro ⟨h1, ⟨h2, h3⟩, h4, h5⟩
    exact ⟨h1, h2, h3, h4, h5⟩
  · rintro ⟨h1, h2, h3, h4, h5⟩
    exact ⟨h1, ⟨h2, h3⟩, h4, h5⟩

theorem checkDirect_eq_ok {k : Multiply} {tile : TileShape} {u : Unit} :
    k.checkDirect tile = .ok u ↔ k.FitsDirect tile := by
  simp only [checkDirect, bind_eq_ok, TileShape.check_eq_ok, checkExtent_eq_ok, exists_const]
  constructor
  · rintro ⟨h1, h2, h3, h4⟩
    exact ⟨h1, h2, h3, h4⟩
  · rintro ⟨h1, h2, h3, h4⟩
    exact ⟨h1, h2, h3, h4⟩

theorem checkDepth_eq_ok {k : Multiply} {u : Unit} :
    k.checkDepth = .ok u ↔ k.bDepth ≠ 0 ∧ k.bDepth ≤ max k.batches 1 := by
  unfold checkDepth
  split <;> simp only [reduceCtorEq, false_iff, true_iff] <;> omega

theorem checkBatches_eq_ok {k : Multiply} {u : Unit} : k.checkBatches = .ok u ↔
    k.a.batches = k.batches ∧ k.bDepth ≠ 0 ∧ k.bDepth ≤ max k.batches 1 := by
  simp only [checkBatches, bind_eq_ok, checkExtent_eq_ok, checkDepth_eq_ok, exists_const]

theorem check_eq_ok {k : Multiply} {u : Unit} : k.check = .ok u ↔ k.Accepted := by
  obtain ⟨a, b, t, alpha, target, path⟩ := k
  cases path with
  | reshaped columnBlocks rowBlocks =>
    simp only [check, bind_eq_ok, checkTypes_eq_ok, checkReshaped_eq_ok, checkBatches_eq_ok,
      exists_const]
    constructor
    · rintro ⟨⟨h1, h2, h3⟩, h4, h5, h6, h7⟩
      exact ⟨h1, h2, h3, h4, h5, h6, h7⟩
    · rintro ⟨h1, h2, h3, h4, h5, h6, h7⟩
      exact ⟨⟨h1, h2, h3⟩, h4, h5, h6, h7⟩
  | direct tile =>
    simp only [check, bind_eq_ok, checkTypes_eq_ok, checkDirect_eq_ok, checkBatches_eq_ok,
      exists_const]
    constructor
    · rintro ⟨⟨h1, h2, h3⟩, h4, h5, h6, h7⟩
      exact ⟨h1, h2, h3, h4, h5, h6, h7⟩
    · rintro ⟨h1, h2, h3, h4, h5, h6, h7⟩
      exact ⟨⟨h1, h2, h3⟩, h4, h5, h6, h7⟩

theorem configure_eq_ok {a b t : Layout} {alpha : Binary32} {config : Config} {k : Multiply} :
    configure a b t alpha config = .ok k ↔ k = ⟨a, b, t, alpha, config⟩ ∧ k.Accepted := by
  simp only [configure, bind_eq_ok, check_eq_ok, pure_eq_ok, exists_const]
  constructor
  · rintro ⟨h, rfl⟩
    exact ⟨rfl, h⟩
  · rintro ⟨rfl, h⟩
    exact ⟨h, rfl⟩

/-- Where the left operand holds an element of `A`, given by its step and row. -/
def aCell (k : Multiply) (s row z : Nat) : Cell :=
  match k.config.path with
  | .reshaped _ rowBlocks =>
    ⟨row % (interleaveHeight * rowBlocks) + interleaveHeight * rowBlocks * s,
      row / (interleaveHeight * rowBlocks), z⟩
  | .direct _ => ⟨s, row, z⟩

/-- Where the right operand holds an element of `B`, given by its step and column. -/
def bCell (k : Multiply) (s column z : Nat) : Cell :=
  match k.config.path with
  | .reshaped columnBlocks _ =>
    let w := k.a.dataType.vectorWidth
    ⟨column % (w * columnBlocks) + w * columnBlocks * s, column / (w * columnBlocks), z⟩
  | .direct _ => ⟨column, s, z⟩

def cells (k : Multiply) (item : WorkItem) : List Cell :=
  Grid.blockCells ⟨k.n, k.m, k.batches⟩ k.block item

def owner (k : Multiply) (c : Cell) : WorkItem := Grid.blockOwner k.block c

section Plan

variable {k : Multiply} {item : WorkItem} {s i j : Nat}

theorem Accepted.block_pos (hk : k.Accepted) : 0 < k.block.x ∧ 0 < k.block.y := by
  have hfits := hk.fits
  unfold FitsPath at hfits
  unfold block
  split
  · exact ⟨k.a.dataType.kind.vectorWidth_pos, Nat.zero_lt_succ 3⟩
  · rename_i tile hpath
    rw [hpath] at hfits
    exact ⟨hfits.valid.2.1, hfits.valid.1.1⟩

theorem block_z (k : Multiply) : k.block.z = 1 := by
  unfold block
  split <;> rfl

/-- A work-item's accumulators are enough for its tile. -/
theorem Accepted.tile_le (hk : k.Accepted) (item : WorkItem) :
    (k.plan item).rows ≤ maxTileRows ∧ (k.plan item).cols ≤ maxTileCols := by
  have hfits := hk.fits
  unfold FitsPath at hfits
  unfold plan
  split
  · exact ⟨by simp [reshapedPlan, interleaveHeight, maxTileRows], k.a.dataType.kind.vectorWidth_le⟩
  · rename_i tile hpath
    rw [hpath] at hfits
    obtain ⟨⟨-, hr⟩, -, hc⟩ := hfits.valid
    exact ⟨Nat.le_trans (Nat.min_le_left ..) hr, Nat.le_trans (Nat.min_le_left ..) hc⟩

/-- No more of a tile is stored than was computed. -/
theorem store_le (k : Multiply) (item : WorkItem) :
    (k.plan item).storeRows ≤ (k.plan item).rows ∧
      (k.plan item).storeCols ≤ (k.plan item).cols := by
  unfold plan
  split
  · exact ⟨Nat.min_le_left .., Nat.min_le_left ..⟩
  · exact ⟨Nat.le_refl _, Nat.le_refl _⟩

theorem storeRows_eq (k : Multiply) (item : WorkItem) :
    (k.plan item).storeRows = min k.block.y (k.m - item.y * k.block.y) := by
  unfold plan block
  split <;> rfl

theorem storeCols_eq (k : Multiply) (item : WorkItem) :
    (k.plan item).storeCols = min k.block.x (k.n - item.x * k.block.x) := by
  unfold plan block
  split <;> rfl

/-- A row of a block of four and the number of the block, from the number of the row. -/
theorem group_eq {h v : Nat} (hi : i < h) (hv : 0 < v) (b : Nat) :
    (b * h + i) % (h * v) = i + h * (b % v) ∧ (b * h + i) / (h * v) = b / v := by
  have hlane := lane_lt hi hv b
  rw [show b * h + i = i + h * (b % v) + h * v * (b / v) by rw [lane_add_group]; ring]
  exact ⟨radix_mod hlane _, radix_div hlane _⟩

theorem aAddress_eq (hk : k.Accepted) (hi : i < (k.plan item).rows) :
    (k.plan item).aAddress s i = k.a.cell (k.aCell s (item.y * k.block.y + i) item.z) := by
  obtain ⟨a, b, t, alpha, target, path⟩ := k
  cases path with
  | direct tile => rfl
  | reshaped columnBlocks rowBlocks =>
    have hv : 0 < rowBlocks := Nat.pos_of_ne_zero (FitsReshaped.valid hk.fits).2.2
    obtain ⟨hmod, hdiv⟩ := group_eq (i := i) (h := interleaveHeight) hi hv item.y
    simp only [plan, reshapedPlan, aCell, block, hmod, hdiv, Layout.cell, Layout.offset3,
      Layout.offset2, Packing.interleavedBlock, Packing.ofType]
    ring

theorem bAddress_eq (hk : k.Accepted) (hj : j < (k.plan item).cols) :
    (k.plan item).bAddress s j =
      k.b.cell (k.bCell s (item.x * k.block.x + j) (item.z % k.bDepth)) := by
  obtain ⟨a, b, t, alpha, target, path⟩ := k
  cases path with
  | direct tile => rfl
  | reshaped columnBlocks rowBlocks =>
    have hh : 0 < columnBlocks := Nat.pos_of_ne_zero (FitsReshaped.valid hk.fits).2.1
    obtain ⟨hmod, hdiv⟩ := group_eq (i := j) (h := a.dataType.vectorWidth) hj hh item.x
    simp only [plan, reshapedPlan, bCell, block, hmod, hdiv, Layout.cell, Layout.offset3,
      Layout.offset2, Packing.transposedBlock, Packing.ofType]
    ring

theorem targetAddress_eq (k : Multiply) (item : WorkItem) (i j : Nat) :
    (k.plan item).targetAddress i j =
      k.target.cell ⟨item.x * k.block.x + j, item.y * k.block.y + i, item.z⟩ := by
  unfold plan block
  split <;> rfl

/-- A work-item of the grid begins inside the output. -/
theorem Accepted.origin_lt (hk : k.Accepted) (hitem : item ∈ k.grid.items) :
    item.x * k.block.x < k.n ∧ item.y * k.block.y < k.m ∧ item.z < k.batches :=
  (Grid.mem_covering hk.block_pos.1 hk.block_pos.2 k.block_z).1 hitem

theorem hasCell_aCell (hk : k.Accepted) (hitem : item ∈ k.grid.items) (hs : s < k.depth)
    (hi : i < (k.plan item).rows) :
    k.a.HasCell (k.aCell s (item.y * k.block.y + i) item.z) := by
  obtain ⟨-, hy, hz⟩ := hk.origin_lt hitem
  have hza : item.z < k.a.batches := hk.aBatches ▸ hz
  obtain ⟨a, b, t, alpha, target, path⟩ := k
  cases path with
  | direct tile =>
    have hrows : a.dim 1 = t.dim 1 := FitsDirect.aRows hk.fits
    have hi : i < min tile.rows (t.dim 1 - item.y * tile.rows) := hi
    have hrow : item.y * tile.rows + i < a.dim 1 := by omega
    exact ⟨hs, hrow, hza⟩
  | reshaped columnBlocks rowBlocks =>
    have hv : 0 < rowBlocks := Nat.pos_of_ne_zero (FitsReshaped.valid hk.fits).2.2
    obtain ⟨hmod, hdiv⟩ := group_eq (i := i) (h := interleaveHeight) hi hv item.y
    have h4 : 0 < interleaveHeight := by decide
    refine ⟨?_, ?_, hza⟩
    · have hwidth := radix_lt (lane_lt hi hv item.y) hs
      simp only [aCell, block, hmod]
      exact Nat.lt_of_lt_of_le hwidth (Nat.mul_div_le ..)
    · have hrows : a.dim 1 = ceilDiv (ceilDiv (t.dim 1) interleaveHeight) rowBlocks :=
        FitsReshaped.aRows hk.fits
      simp only [aCell, block, hdiv, hrows]
      exact div_lt_ceilDiv hv ((lt_ceilDiv_iff h4).2 hy)

theorem hasCell_bCell (hk : k.Accepted) (hitem : item ∈ k.grid.items) (hs : s < k.depth)
    (hj : j < (k.plan item).cols) :
    k.b.HasCell (k.bCell s (item.x * k.block.x + j) (item.z % k.bDepth)) := by
  obtain ⟨hx, -, -⟩ := hk.origin_lt hitem
  have hzb : item.z % k.bDepth < k.b.batches := Nat.mod_lt _ (Nat.pos_of_ne_zero hk.bDepth_ne)
  obtain ⟨a, b, t, alpha, target, path⟩ := k
  cases path with
  | direct tile =>
    have hcolumns : b.dim 0 = t.dim 0 := FitsDirect.bColumns hk.fits
    have hrows : b.dim 1 = a.dim 0 := FitsDirect.bRows hk.fits
    have hj : j < min tile.cols (t.dim 0 - item.x * tile.cols) := hj
    have hcolumn : item.x * tile.cols + j < b.dim 0 := by omega
    exact ⟨hcolumn, hrows ▸ hs, hzb⟩
  | reshaped columnBlocks rowBlocks =>
    have hh : 0 < columnBlocks := Nat.pos_of_ne_zero (FitsReshaped.valid hk.fits).2.1
    have hwidth : 0 < a.dataType.vectorWidth := a.dataType.kind.vectorWidth_pos
    obtain ⟨hmod, hdiv⟩ := group_eq (i := j) (h := a.dataType.vectorWidth) hj hh item.x
    refine ⟨?_, ?_, hzb⟩
    · have hcolumns := FitsReshaped.bWidth hk.fits
      simp only [bCell, block, hmod]
      show _ < b.dim 0
      rw [hcolumns, Nat.mul_comm (depth _)]
      exact radix_lt (lane_lt hj hh item.x) hs
    · have hrows : b.dim 1 = ceilDiv (ceilDiv (t.dim 0) a.dataType.vectorWidth) columnBlocks :=
        FitsReshaped.bRows hk.fits
      simp only [bCell, block, hdiv, hrows]
      exact div_lt_ceilDiv hh ((lt_ceilDiv_iff hwidth).2 hx)

/-- The cells of a work-item are the corner of its tile that is stored. -/
theorem cells_eq (k : Multiply) (item : WorkItem) :
    k.cells item = (Tile.cells (k.plan item).storeRows (k.plan item).storeCols).map
      fun p => ⟨item.x * k.block.x + p.2, item.y * k.block.y + p.1, item.z⟩ := by
  simp only [cells, Grid.blockCells, Tile.cells, List.map_flatMap, List.map_map, storeRows_eq,
    storeCols_eq]
  rfl

end Plan

section Run

variable {k : Multiply} {α : Type} [Element α] {a b target : BufferId} {m : Memory}

/-- An element of the result: one dot product, narrowed and scaled. -/
def element (k : Multiply) (α : Type) [Element α] (a b : BufferId) (c : Cell) (m : Memory) : α :=
  let frac := k.target.dataType.frac
  finish frac (k.factor α) <| dot (k.config.target.mac frac)
    (fun s => Element.ofWord (View.load ⟨a, k.a⟩ m (k.a.cell (k.aCell s c.y c.z))))
    (fun s => Element.ofWord (View.load ⟨b, k.b⟩ m (k.b.cell (k.bCell s c.x (c.z % k.bDepth)))))
    k.depth (Element.accZero frac)

def value (k : Multiply) (α : Type) [Element α] (a b : BufferId) (c : Cell) (m : Memory) : Nat :=
  Element.toWord (k.element α a b c m)

theorem value_congr {m' : Memory} (ha : ∀ j, m.byte a j = m'.byte a j)
    (hb : ∀ j, m.byte b j = m'.byte b j) (c : Cell) :
    k.value α a b c m = k.value α a b c m' := by
  have hla (o : Nat) : View.load ⟨a, k.a⟩ m o = View.load ⟨a, k.a⟩ m' o := View.load_congr ha o
  have hlb (o : Nat) : View.load ⟨b, k.b⟩ m o = View.load ⟨b, k.b⟩ m' o := View.load_congr hb o
  simp only [value, element, hla, hlb]

theorem shares (hk : k.Accepted) : Shares k.grid k.target.HasCell k.cells k.owner :=
  Grid.shares_covering hk.block_pos.1 hk.block_pos.2 k.block_z

/-- Operands that the machine can address, at a position that products can be shifted by, with
blocks of the reshaped operands that are no larger than a buffer. Where the reduction has a step the
blocks lie inside the operands anyway. -/
structure InRange (k : Multiply) : Prop where
  a : k.a.Addressable
  b : k.b.Addressable
  target : k.target.Addressable
  frac : k.target.dataType.frac < 64
  blocks : ∀ p, k.config.packing? k.a.dataType = some p →
    p.interleavedBlock * k.a.elementSize < 2 ^ 63 ∧ p.transposedBlock * k.b.elementSize < 2 ^ 63

theorem inWords_grid (hk : k.Accepted) (hin : k.InRange) : InWords k.grid.numbers := by
  refine Grid.inWords_numbers hin.target ?_ ?_
  · exact Nat.mul_le_mul (ceilDiv_le hk.block_pos.1) (ceilDiv_le hk.block_pos.2)
  · exact ceilDiv_le (k.block_z ▸ Nat.one_pos)

theorem Accepted.rows_pos (hk : k.Accepted) {item : WorkItem} (hitem : item ∈ k.grid.items) :
    0 < (k.plan item).rows := by
  have hy := (hk.origin_lt hitem).2.1
  have hstored : 0 < (k.plan item).storeRows := by
    rw [storeRows_eq]
    have := hk.block_pos.2
    omega
  exact Nat.lt_of_lt_of_le hstored (k.store_le item).1

/-- A reduction that has a step is no longer than the buffer of the left operand. -/
theorem depth_lt (hk : k.Accepted) (hin : k.InRange) {item : WorkItem}
    (hitem : item ∈ k.grid.items) : k.depth < 2 ^ 63 := by
  obtain hzero | hpos := Nat.eq_zero_or_pos k.depth
  · omega
  · obtain ⟨-, hy, hz⟩ := hasCell_aCell hk hitem hpos (hk.rows_pos hitem)
    have hwidth := hin.a.width_lt hy hz
    have hdepth : k.depth ≤ k.a.dim 0 := by
      unfold depth
      split
      · exact Nat.div_le_self ..
      · exact le_rfl
    omega

/-- The block that a row or a column belongs to begins inside its operand, and ends no further away
than a block is long. -/
theorem begin_lt {l : Layout} (hl : l.Addressable) {row z step block bytes : Nat}
    (hrow : row < l.dim 1) (hz : z < l.batches) (hstep : step < block)
    (hblock : block * bytes < 2 ^ 63) : l.offset3 0 row z + step * bytes < 2 ^ 64 := by
  have hbegin := l.row_le_byteSize hrow hz
  have hbytes := hl.bytes
  have hin : step * bytes ≤ block * bytes := Nat.mul_le_mul_right _ hstep.le
  omega

theorem inWords_itemNumbers (hk : k.Accepted) (hin : k.InRange) {item : WorkItem}
    (hitem : item ∈ k.grid.items) : InWords (k.itemNumbers item) := by
  have hend : (k.depth / k.config.target.unroll + 1) * k.config.target.unroll < 2 ^ 64 := by
    have hdepth := depth_lt hk hin hitem
    have hunroll : k.config.target.unroll ≤ 8 := by cases k.config.target <;> decide
    have := Nat.div_mul_le_self k.depth k.config.target.unroll
    rw [Nat.succ_mul]
    omega
  obtain ⟨hx, hy, hz⟩ := hk.origin_lt hitem
  obtain ⟨a, b, t, alpha, target, path⟩ := k
  cases path with
  | direct tile => exact inWords_singleton.2 hend
  | reshaped h v =>
    obtain ⟨hp, -, haRows, -, hbRows⟩ : FitsReshaped _ (.ofType a.dataType h v) := hk.fits
    have hh : 0 < h := Nat.pos_of_ne_zero hp.2.1
    have hv : 0 < v := Nat.pos_of_ne_zero hp.2.2
    have hwidth : 0 < a.dataType.vectorWidth := a.dataType.kind.vectorWidth_pos
    obtain ⟨hblockA, hblockB⟩ := hin.blocks (.ofType a.dataType h v) rfl
    have hrowA : item.y / v < a.dim 1 :=
      haRows ▸ div_lt_ceilDiv hv ((lt_ceilDiv_iff (by decide)).2 hy)
    have hrowB : item.x / h < b.dim 1 :=
      hbRows ▸ div_lt_ceilDiv hh ((lt_ceilDiv_iff hwidth).2 hx)
    have hstepA : item.y % v * interleaveHeight < interleaveHeight * v := by
      rw [Nat.mul_comm]
      exact Nat.mul_lt_mul_of_pos_left (Nat.mod_lt _ hv) (by decide)
    have hstepB : item.x % h * a.dataType.vectorWidth < a.dataType.vectorWidth * h := by
      rw [Nat.mul_comm]
      exact Nat.mul_lt_mul_of_pos_left (Nat.mod_lt _ hh) hwidth
    have hbeginA := begin_lt hin.a hrowA (hk.aBatches ▸ hz) hstepA hblockA
    have hbeginB := begin_lt hin.b hrowB
      (Nat.mod_lt item.z (Nat.pos_of_ne_zero hk.bDepth_ne)) hstepB hblockB
    simp only [itemNumbers, reshapedPlan, inWords_cons, inWords_nil, and_true, Nat.zero_mul,
      Nat.add_zero]
    exact ⟨hend, hblockA.trans (by decide), hblockB.trans (by decide), hbeginA, hbeginB⟩

section Watched

variable {M : Type → Type} [Monitor M] [LawfulMonad M]

theorem loads (hM : Monitor.Grants M k.InRange) (hk : k.Accepted) {item : WorkItem}
    (hitem : item ∈ k.grid.items) (m : Memory) :
    Target.Loads (M := M) (α := α)
      (fun s i => Element.ofWord <$> View.loadIn ⟨a, k.a⟩ m ((k.plan item).aAddress s i))
      (fun s j => Element.ofWord <$> View.loadIn ⟨b, k.b⟩ m ((k.plan item).bAddress s j))
      (fun s i => Element.ofWord (View.load ⟨a, k.a⟩ m ((k.plan item).aAddress s i)))
      (fun s j => Element.ofWord (View.load ⟨b, k.b⟩ m ((k.plan item).bAddress s j)))
      k.depth (k.plan item).rows (k.plan item).cols where
  left s hs i hi := by
    have hload := View.loadIn_eq (v := ⟨a, k.a⟩) hM
      (fun _ => Layout.cell_add_le (hasCell_aCell hk hitem hs hi)) m
    simp only [aAddress_eq hk hi, hload, map_pure]
  right s hs j hj := by
    have hload := View.loadIn_eq (v := ⟨b, k.b⟩) hM
      (fun _ => Layout.cell_add_le (hasCell_bCell hk hitem hs hj)) m
    simp only [bAddress_eq hk hj, hload, map_pure]

theorem planIn_eq (hM : Monitor.Grants M k.InRange) (hk : k.Accepted) {item : WorkItem}
    (hitem : item ∈ k.grid.items) : k.planIn item = (pure (k.plan item) : M TilePlan) := by
  obtain ⟨hx, hy, -⟩ := hk.origin_lt hitem
  rw [planIn, hM.bind fun _ => hk.bDepth_ne, hM.bind fun _ => ⟨hx.le, hy.le⟩]
  have hwords (hin : k.InRange) := inWords_itemNumbers hk hin hitem
  cases hpath : k.config.path with
  | direct tile => exact hM.bind hwords _
  | reshaped h v =>
    have hfits := hk.fits
    rw [FitsPath, hpath] at hfits
    have hblocks : h ≠ 0 ∧ v ≠ 0 := hfits.valid.2
    dsimp only
    rw [hM.bind fun _ => hblocks, hM.bind hwords]

/-- The accumulators of a work-item: its steps one after the other, from memory as it is. -/
theorem tileIn_eq (hM : Monitor.Grants M k.InRange) (hk : k.Accepted) {item : WorkItem}
    (hitem : item ∈ k.grid.items) (m : Memory) :
    k.tileIn α a b (k.plan item) m =
      (pure (k.config.target.accumulate k.target.dataType.frac k.depth
        (fun s i => Element.ofWord (View.load ⟨a, k.a⟩ m ((k.plan item).aAddress s i)))
        (fun s j => Element.ofWord (View.load ⟨b, k.b⟩ m ((k.plan item).bAddress s j)))
        (.zero α k.target.dataType.frac (k.plan item).rows (k.plan item).cols)) :
        M (Tile α)) := by
  rw [tileIn, hM.bind fun _ => hk.tile_le item, hM.bind fun hin => Or.inr hin.frac,
    Target.accumulateIn_eq (loads hM hk hitem m), Target.accumulate_eq]

/-- A work-item fills its cells with what it computed before it stored anything. -/
theorem runItemIn_eq (hM : Monitor.Grants M k.InRange) (hk : k.Accepted) {item : WorkItem}
    (hitem : item ∈ k.grid.items) (m : Memory) :
    k.runItemIn α a b target item m =
      (View.fillIn ⟨target, k.target⟩ k.target.cell (fun c _ => k.value α a b c m)
        (k.cells item) m : M Memory) := by
  obtain ⟨hrows, hcols⟩ := hk.tile_le item
  obtain ⟨hsr, hsc⟩ := k.store_le item
  rw [runItemIn, planIn_eq hM hk hitem, pure_bind, tileIn_eq hM hk hitem, pure_bind,
    hM.bind fun _ => ⟨hsr.trans hrows, hsc.trans hcols⟩, View.fillIn, cells_eq, List.foldlM_map]
  apply foldlM_congr
  rintro ⟨i, j⟩ hp m'
  have hcell := List.mem_map_of_mem (f := fun p : Nat × Nat =>
    (⟨item.x * k.block.x + p.2, item.y * k.block.y + p.1, item.z⟩ : Cell)) hp
  rw [← cells_eq] at hcell
  obtain ⟨hi, hj⟩ := Tile.mem_cells.1 hp
  have hi' := hi.trans_le hsr
  have hj' := hj.trans_le hsc
  dsimp only
  rw [targetAddress_eq, Target.result_accumulate hrows hcols hi' hj']
  simp only [aAddress_eq hk hi', bAddress_eq hk hj']
  exact View.storeIn_eq (v := ⟨target, k.target⟩) hM
    (fun _ => Layout.cell_add_le (((shares hk).mem_iff item hitem _).1 hcell).1) m' _

theorem runAsIn_eq (hM : Monitor.Grants M k.InRange) (hk : k.Accepted) (m : Memory) :
    k.runAsIn α a b target m =
      (k.grid.items.foldlM (fun m item => k.runItemIn α a b target item m) m : M Memory) := by
  rw [runAsIn, hM.bind fun hin => Or.inr hin.frac]
  exact Grid.launchIn_eq hM (inWords_grid hk) _ m

omit [LawfulMonad M] in
theorem runIn_eq (h : Dispatched k.target.dataType.kind α) (m : Memory) :
    k.runIn a b target m = (k.runAsIn α a b target m : M Memory) := by
  unfold runIn
  generalize k.target.dataType.kind = kind at h
  cases h <;> rfl

end Watched

/-- No store of a work-item changes what another one computes. -/
theorem value_store (ha : a ≠ target) (hb : b ≠ target) (c : Cell) (m : Memory) (o w : Nat) :
    k.value α a b c (View.store ⟨target, k.target⟩ m o w) = k.value α a b c m :=
  value_congr (fun _ => View.byte_store_other fun e => absurd e ha)
    (fun _ => View.byte_store_other fun e => absurd e hb) c

theorem runItem_eq_fill_before (hk : k.Accepted) {item : WorkItem} (hitem : item ∈ k.grid.items)
    (m : Memory) : k.runItem α a b target item m =
      View.fill ⟨target, k.target⟩ k.target.cell (fun c _ => k.value α a b c m)
        (k.cells item) m :=
  (runItemIn_eq (M := Id) (Monitor.grants_id _) hk hitem m).trans (View.fillIn_id ..)

theorem runItem_eq_fill (hk : k.Accepted) (ha : a ≠ target) (hb : b ≠ target) {item : WorkItem}
    (hitem : item ∈ k.grid.items) (m : Memory) :
    k.runItem α a b target item m =
      View.fill ⟨target, k.target⟩ k.target.cell (k.value α a b) (k.cells item) m := by
  rw [View.fill_beforehand (value_store ha hb), runItem_eq_fill_before hk hitem]

theorem covers (hk : k.Accepted) (ha : a ≠ target) (hb : b ≠ target) :
    Covers ⟨target, k.target⟩ k.grid (k.runItem α a b target) k.target.cell (k.value α a b)
      k.target.HasCell k.cells k.owner where
  shares := shares hk
  separate := View.separate_cells (value_store ha hb)
  body_eq _ hitem m := runItem_eq_fill hk ha hb hitem m

theorem run_eq (h : Dispatched k.target.dataType.kind α) (a b target : BufferId) (m : Memory) :
    k.run a b target m = k.grid.launch (k.runItem α a b target) m :=
  (congrArg Id.run (runIn_eq (M := Id) h m)).trans (Grid.launchIn_id ..)

theorem run_of_s32 (h : k.target.dataType.kind = .s32) (a b target : BufferId) :
    k.run a b target = id := by
  unfold run runIn
  rw [h]
  rfl

theorem load_run (hk : k.Accepted) (h : Dispatched k.target.dataType.kind α) (ha : a ≠ target)
    (hb : b ≠ target) (hm : View.Fits ⟨target, k.target⟩ m) {c : Cell}
    (hc : k.target.HasCell c) :
    View.load ⟨target, k.target⟩ (k.run a b target m) (k.target.cell c) =
      Element.toWord (k.element α a b c m) := by
  have hfit := View.cell_fits (v := ⟨target, k.target⟩) hm hc
  rw [run_eq h, (covers hk ha hb).load_launch hc hfit]
  exact Nat.mod_eq_of_lt (h.toWord_lt _)

theorem size_run (hk : k.Accepted) (h : Dispatched k.target.dataType.kind α) (ha : a ≠ target)
    (hb : b ≠ target) (c : BufferId) : (k.run a b target m).size c = m.size c := by
  rw [run_eq h, (covers hk ha hb).size_launch]

theorem byte_run_other (hk : k.Accepted) (h : Dispatched k.target.dataType.kind α)
    (ha : a ≠ target) (hb : b ≠ target) {c : BufferId} (hc : c ≠ target) (j : Nat) :
    (k.run a b target m).byte c j = m.byte c j := by
  rw [run_eq h, (covers hk ha hb).byte_launch_buffer hc]


end Run

end Multiply

end TileCompute
