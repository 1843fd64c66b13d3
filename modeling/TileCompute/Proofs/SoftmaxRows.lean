import TileCompute.Proofs.ConnectedRows
import TileCompute.Proofs.Counterpart
import TileCompute.Proofs.Overlap

/-!
# TileCompute.Proofs.SoftmaxRows

The rows of a softmax. A row of the output is a function of the same row of the input
(`Softmax.rowWords`): each of the three launches has a work-item for every row, which makes what it
leaves out of what it reads of that row and its statistics, out of reach of the others. So neither
the order of the work-items nor what is in the scratch tensor, in the borders or in the other rows
has any part in it, and a layer for one row alone leaves the same row.

* `Softmax.isolated_max`, `Softmax.isolated_exponential`, `Softmax.isolated_divide`: the launches.
* `Softmax.rowOf_runOrdered`: a row after a run, whatever the orders.
* `softmax_rows`: the rows of the output, and each of them alone.
-/

namespace TileCompute

/-! ### Rows of tensors -/

/-- The cell of a column of a row, the rows numbered through all dimensions above the first. -/
def Shape.rowCell (s : Shape) (row column : Nat) : Cell := ⟨column, row % s.y, row / s.y⟩

theorem Shape.rowCell_inj {s : Shape} {row row' column column' : Nat}
    (h : s.rowCell row column = s.rowCell row' column') : row = row' ∧ column = column' := by
  obtain ⟨rfl, low, high⟩ := WorkItem.mk.inj h
  refine ⟨?_, rfl⟩
  rw [← Nat.mod_add_div row s.y, ← Nat.mod_add_div row' s.y, low, high]

theorem Layout.hasCell_row {l : Layout} {row column : Nat} (hrow : row < l.shape.upperSize 1)
    (hcolumn : column < l.shape.x) : l.HasCell (l.shape.rowCell row column) := by
  have hrow : row < l.shape.y * l.batches := hrow
  have hy : 0 < l.shape.y := Nat.pos_of_mul_pos_right (Nat.zero_lt_of_lt hrow)
  exact ⟨hcolumn, Nat.mod_lt _ hy, Nat.div_lt_of_lt_mul hrow⟩

namespace Softmax

theorem address_eq_cell (v : View) (row column : Nat) :
    address v row column = v.layout.cell (v.layout.shape.rowCell row column) := by
  have folded := Nat.mod_add_div (row / v.layout.shape.y) v.layout.shape.z
  have plane : v.layout.stride 3 = v.layout.stride 2 * v.layout.shape.z := rfl
  simp only [address, Layout.row, Layout.offset4, Layout.cell, Layout.offset3, Layout.offset2,
    Shape.rowCell, plane, ← Nat.div_div_eq_div_mul]
  conv_rhs => rw [← folded]
  ring

/-- The words of a row. -/
def rowOf (v : View) (m : Memory) (row : Nat) : List Nat :=
  (List.range v.layout.shape.x).map fun i => v.load m (address v row i)

variable {v u : View} {m m' : Memory} {row : Nat}

theorem matrixAt_words (hrow : row < v.layout.shape.upperSize 1) :
    matrixAt (v.words m) v.layout.shape.x row = rowOf v m row := by
  have item (i : Nat) : v.layout.shape.planes.item i =
      v.layout.shape.rowCell (i / v.layout.shape.x) (i % v.layout.shape.x) := rfl
  simp only [v.words_eq_range, rowOf, address_eq_cell, item]
  exact matrixAt_map_range
    (fun row i => v.load m (v.layout.cell (v.layout.shape.rowCell row i))) hrow _

theorem rowOf_congr (h : ∀ i < v.layout.shape.x,
    v.load m (address v row i) = v.load m' (address v row i)) : rowOf v m row = rowOf v m' row :=
  List.map_congr_left fun i hi => h i (List.mem_range.1 hi)

/-- Tensors of one shape with the same rows hold the same words. -/
theorem words_eq_of_rows (shape : u.layout.shape = v.layout.shape)
    (h : ∀ row < v.layout.shape.upperSize 1, rowOf v m row = rowOf u m' row) :
    v.words m = u.words m' := by
  rw [v.words_eq_range, u.words_eq_range, shape]
  refine List.map_congr_left fun i hi => ?_
  have hi : i < v.layout.shape.x * v.layout.shape.upperSize 1 := List.mem_range.1 hi
  have hx : 0 < v.layout.shape.x := Nat.pos_of_mul_pos_right (Nat.zero_lt_of_lt hi)
  have same := h (i / v.layout.shape.x) (Nat.div_lt_of_lt_mul hi)
  simp only [rowOf, address_eq_cell, shape] at same
  exact List.map_inj_left.1 same _ (List.mem_range.2 (Nat.mod_lt i hx))

theorem clear_address (h : v.Untangled u) (shape : u.layout.shape = v.layout.shape)
    {row' i i' : Nat} (hrow : row < v.layout.shape.upperSize 1)
    (hrow' : row' < v.layout.shape.upperSize 1) (hi : i < v.layout.shape.x)
    (hi' : i' < v.layout.shape.x) (hne : ¬(row = row' ∧ i = i')) :
    v.Clear (address v row i) u (address u row' i') := by
  rw [address_eq_cell, address_eq_cell]
  refine h _ _ (Layout.hasCell_row hrow hi)
    (Layout.hasCell_row (shape ▸ hrow') (shape ▸ hi')) fun he => hne ?_
  rw [shape] at he
  exact Shape.rowCell_inj he

/-! ### A row stored -/

section Fill

variable {f : Nat → Memory → Binary32}

/-- Stores values at the columns of a row. -/
def fillRow (v : View) (row : Nat) (f : Nat → Memory → Binary32) (m : Memory) : Memory :=
  v.fill (address v row) (fun i m => v.layout.dataType.encode (f i m))
    (List.range v.layout.shape.x) m

theorem rowOf_fillRow (hrow : row < v.layout.shape.upperSize 1)
    (stable : ∀ i < v.layout.shape.x, ∀ j < v.layout.shape.x, i ≠ j → ∀ m w,
      f i (v.store m (address v row j) w) = f i m) (fits : v.Fits m) :
    rowOf v (fillRow v row f m) row =
      (List.range v.layout.shape.x).map fun i => v.layout.dataType.encode (f i m) := by
  have separate : View.Separate v (address v row)
      (fun i m => v.layout.dataType.encode (f i m)) (· < v.layout.shape.x) := by
    refine ⟨fun i j hi hj hne => ?_, fun i j hi hj hne m w => ?_⟩
    · exact clear_address v.untangled_self rfl hrow hrow hi hj (fun h => hne h.2) rfl
    · exact congrArg v.layout.dataType.encode (stable i hi j hj hne m w)
  refine List.map_congr_left fun i hi => ?_
  have room : address v row i + v.layout.elementSize ≤ m.size v.buffer := by
    rw [address_eq_cell]
    exact View.cell_fits fits (Layout.hasCell_row hrow (List.mem_range.1 hi))
  refine (separate.load_fill List.nodup_range (fun _ => List.mem_range.1) hi room).trans ?_
  exact Nat.mod_eq_of_lt (v.layout.dataType.encode_lt _)

theorem rowOf_fillRow_other (h : v.Untangled u) (shape : u.layout.shape = v.layout.shape)
    {row' : Nat} (hrow : row < v.layout.shape.upperSize 1)
    (hrow' : row' < v.layout.shape.upperSize 1) (hne : row ≠ row') :
    rowOf u (fillRow v row f m) row' = rowOf u m row' := by
  refine rowOf_congr fun i hi => View.load_fill_clear (fun j hj => ?_) m
  exact clear_address h shape hrow hrow' (List.mem_range.1 hj) (shape ▸ hi) fun he => hne he.1

end Fill

/-! ### The function of a row -/

def peak (xs : List Binary32) : Binary32 := xs.foldl Binary32.max .negInfinity

def exponentials (beta max : Binary32) (xs : List Binary32) : List Binary32 :=
  xs.map fun x => ((x - max) * beta).exp

def total (xs : List Binary32) : Binary32 := xs.foldl (· + ·) .zero

def quotients (t : DataType) (sum : Binary32) (words : List Nat) : List Nat :=
  words.map fun w => t.encode (t.decode w / sum)

/-- A row of the output by the same row of the input: the exponentials as they are stored, over the
sum of the exponentials before that. -/
def rowWords (t : DataType) (beta : Binary32) (words : List Nat) : List Nat :=
  let xs := words.map t.decode
  let es := exponentials beta (peak xs) xs
  quotients t (total es) (es.map t.encode)

/-! ### The launches -/

variable {l : Softmax} {b : BufferId} {item : WorkItem}

def stats (l : Softmax) (b : BufferId) : View := ⟨b, statsLayout l.rows⟩

def stat (l : Softmax) (column row : Nat) : Nat := (statsLayout l.rows).offset2 column row

/-- Operands of one type and shape that a run can work on, the statistics in a buffer apart. -/
structure Placed (l : Softmax) (b : BufferId) : Prop where
  type : l.output.layout.dataType = l.input.layout.dataType
  shape : l.input.layout.shape = l.output.layout.shape
  untangled : l.output.Untangled l.input
  input_ne : b ≠ l.input.buffer
  output_ne : b ≠ l.output.buffer

theorem Placed.row_lt (h : l.Placed b) (hi : item ∈ l.grid.items) :
    item.y < l.output.layout.shape.upperSize 1 :=
  h.shape ▸ Softmax.row_lt hi

/-- Memory with room for the output and the statistics. -/
def Roomy (l : Softmax) (b : BufferId) (m : Memory) : Prop := l.output.Fits m ∧ (l.stats b).Fits m

theorem row_inj {i j : WorkItem} (hi : i ∈ l.grid.items) (hj : j ∈ l.grid.items) (hne : i ≠ j) :
    i.y ≠ j.y := by
  obtain ⟨hx, -, hz⟩ := Grid.mem_items.1 hi
  obtain ⟨hx', -, hz'⟩ := Grid.mem_items.1 hj
  cases i
  cases j
  simp only [ne_eq, WorkItem.mk.injEq] at hne ⊢
  simp only [grid] at hx hz hx' hz'
  omega

theorem hasCell_stat {column : Nat} (hc : column < 2) (hrow : row < l.rows) :
    (statsLayout l.rows).HasCell ⟨column, row, 0⟩ :=
  Layout.hasCell_matrix.2 ⟨hc, hrow, rfl⟩

/-- A statistic of a row: its largest element, or the sum of its exponentials. -/
def statOf (l : Softmax) (b : BufferId) (column : Nat) (m : Memory) (row : Nat) : Binary32 :=
  (l.stats b).loadValue m (l.stat column row)

theorem statOf_store (hs : (l.stats b).Fits m) {column : Nat} (hc : column < 2)
    (hrow : row < l.rows) (x : Binary32) :
    l.statOf b column ((l.stats b).storeValue m (l.stat column row) x) row = x := by
  have room := View.cell_fits hs (hasCell_stat hc hrow)
  have stored : (l.stats b).load ((l.stats b).storeValue m (l.stat column row) x)
      (l.stat column row) = DataType.f32.encode x := by
    rw [stat, ← Layout.cell_first]
    refine (View.load_store _ room).trans ?_
    exact Nat.mod_eq_of_lt (DataType.f32.encode_lt _)
  refine (congrArg DataType.f32.decode stored).trans ?_
  exact Element.ofWord_toWord x

theorem statOf_store_other {column column' row' : Nat} (hc : column < 2) (hc' : column' < 2)
    (hrow : row < l.rows) (hrow' : row' < l.rows) (hne : row ≠ row') (x : Binary32) :
    l.statOf b column' ((l.stats b).storeValue m (l.stat column row) x) row' =
      l.statOf b column' m row' := by
  refine congrArg DataType.f32.decode (View.load_store_clear ?_ m _)
  rw [stat, stat, ← Layout.cell_first, ← Layout.cell_first]
  exact (l.stats b).untangled_self _ _ (hasCell_stat hc hrow) (hasCell_stat hc' hrow')
    fun he => hne (WorkItem.mk.inj he).2.1

theorem statOf_fillRow (hne : b ≠ v.buffer) (row : Nat) (f : Nat → Memory → Binary32)
    (column row' : Nat) :
    l.statOf b column (fillRow v row f m) row' = l.statOf b column m row' := by
  refine congrArg DataType.f32.decode (View.load_fill_clear (fun _ _ => ?_) m)
  exact View.clear_of_ne (u := l.stats b) hne.symm _ _

theorem rowOf_stat_store (hne : b ≠ u.buffer) (o : Nat) (x : Binary32) (row : Nat) :
    rowOf u ((l.stats b).storeValue m o x) row = rowOf u m row :=
  rowOf_congr fun _ _ => View.load_store_clear (v := l.stats b) (View.clear_of_ne hne _ _) m _

theorem Roomy.storeValue (h : l.Roomy b m) (o : Nat) (x : Binary32) :
    l.Roomy b ((l.stats b).storeValue m o x) :=
  ⟨h.1.of_size (View.size_store ..), h.2.of_size (View.size_store ..)⟩

theorem Roomy.fillRow (h : l.Roomy b m) (row : Nat) (f : Nat → Memory → Binary32) :
    l.Roomy b (fillRow l.output row f m) :=
  ⟨h.1.of_size (View.size_fill ..), h.2.of_size (View.size_fill ..)⟩

theorem maxItem_eq (l : Softmax) (b : BufferId) (item : WorkItem) (m : Memory) :
    l.maxItem (l.stats b) item m = (l.stats b).storeValue m (l.stat maxColumn item.y)
      (peak ((rowOf l.input m item.y).map l.input.layout.dataType.decode)) := by
  simp only [maxItem, peak, rowOf, List.map_map, List.foldl_map]
  rfl

theorem isolated_max (h : l.Placed b) : Isolated (· ∈ l.grid.items) (l.Roomy b)
    (l.maxItem (l.stats b)) (fun item m => rowOf l.input m item.y)
    (fun item m => (rowOf l.input m item.y, l.statOf b maxColumn m item.y))
    (fun words => (words, peak (words.map l.input.layout.dataType.decode))) where
  keeps _ valid := by
    rw [maxItem_eq]
    exact valid.storeValue ..
  own hi valid := by
    rw [maxItem_eq, rowOf_stat_store h.input_ne, statOf_store valid.2 (by decide) (row_lt hi)]
  reads_other _ _ _ _ := by
    rw [maxItem_eq, rowOf_stat_store h.input_ne]
  leaves_other hi hj hne _ := by
    rw [maxItem_eq, rowOf_stat_store h.input_ne, statOf_store_other (by decide) (by decide)
      (row_lt hi) (row_lt hj) (row_inj hi hj hne)]

/-- The exponential of a column of a row. -/
def exponentialAt (l : Softmax) (row : Nat) (max : Binary32) (i : Nat) (m : Memory) : Binary32 :=
  l.shifted max (l.input.loadValue m (address l.input row i))

theorem exponentialAt_store (h : l.Placed b) (hrow : row < l.rows) (max : Binary32) {i j : Nat}
    (hi : i < l.columns) (hj : j < l.columns) (hne : i ≠ j) (m : Memory) (w : Nat) :
    l.exponentialAt row max i (l.output.store m (address l.output row j) w) =
      l.exponentialAt row max i m := by
  have hrow : row < l.output.layout.shape.upperSize 1 := h.shape ▸ hrow
  have hi : i < l.output.layout.shape.x := h.shape ▸ hi
  have hj : j < l.output.layout.shape.x := h.shape ▸ hj
  refine congrArg (fun w => l.shifted max (l.input.layout.dataType.decode w)) ?_
  exact View.load_store_clear
    (clear_address h.untangled h.shape hrow hrow hj hi fun he => hne he.2.symm) m w

/-- Storing exponentials and adding them up at once is doing one after the other. -/
theorem foldl_exponential (h : l.Placed b) (hrow : row < l.rows) (max : Binary32) {is : List Nat}
    (distinct : is.Nodup) (mem : ∀ i ∈ is, i < l.columns) (m : Memory) (sum : Binary32) :
    is.foldl (fun (m, sum) i =>
        let value := l.exponentialAt row max i m
        (l.output.storeValue m (address l.output row i) value, sum + value)) (m, sum) =
      (l.output.fill (address l.output row)
          (fun i m => l.output.layout.dataType.encode (l.exponentialAt row max i m)) is m,
        (is.map fun i => l.exponentialAt row max i m).foldl (· + ·) sum) := by
  induction is generalizing m sum with
  | nil => rfl
  | cons i is ih =>
    obtain ⟨absent, distinct⟩ := List.nodup_cons.1 distinct
    obtain ⟨hi, rest⟩ := List.forall_mem_cons.1 mem
    rw [List.foldl_cons, ih distinct rest, View.fill_cons, List.map_cons, List.foldl_cons]
    refine congrArg₂ Prod.mk rfl (congrArg (List.foldl _ _) (List.map_congr_left fun j hj => ?_))
    exact exponentialAt_store h hrow max (rest j hj) hi (fun he => absent (he ▸ hj)) m _

theorem exponentialItem_eq (h : l.Placed b) (hi : item ∈ l.grid.items) (m : Memory) :
    let max := l.statOf b maxColumn m item.y
    l.exponentialItem (l.stats b) item m =
      (l.stats b).storeValue (fillRow l.output item.y (l.exponentialAt item.y max) m)
        (l.stat sumColumn item.y) (total (exponentials l.beta max
          ((rowOf l.input m item.y).map l.input.layout.dataType.decode))) := by
  intro max
  have fold := foldl_exponential h (row_lt hi) max List.nodup_range
    (fun _ => List.mem_range.1) m .zero
  have columns : l.columns = l.output.layout.shape.x := congrArg Shape.x h.shape
  rw [exponentialItem]
  dsimp only
  refine (congrArg (fun p : Memory × Binary32 =>
    (l.stats b).storeValue p.1 (l.stat sumColumn item.y) p.2) fold).trans ?_
  simp only [fillRow, total, exponentials, rowOf, List.map_map, columns]
  rw [← h.shape]
  rfl

theorem isolated_exponential (h : l.Placed b) : Isolated (· ∈ l.grid.items) (l.Roomy b)
    (l.exponentialItem (l.stats b))
    (fun item m => (rowOf l.input m item.y, l.statOf b maxColumn m item.y))
    (fun item m => (rowOf l.output m item.y, l.statOf b sumColumn m item.y))
    (fun (words, max) =>
      let es := exponentials l.beta max (words.map l.input.layout.dataType.decode)
      (es.map l.output.layout.dataType.encode, total es)) where
  keeps hi valid := by
    rw [exponentialItem_eq h hi]
    exact (valid.fillRow ..).storeValue ..
  own {item m} hi valid := by
    have columns : l.columns = l.output.layout.shape.x := congrArg Shape.x h.shape
    rw [exponentialItem_eq h hi, rowOf_stat_store h.output_ne,
      statOf_store (valid.fillRow ..).2 (by decide) (row_lt hi),
      rowOf_fillRow (h.row_lt hi) (fun i hi' j hj hne => ?_) valid.1]
    · simp only [exponentials, rowOf, List.map_map]
      rw [← h.shape]
      rfl
    · exact exponentialAt_store h (row_lt hi) _ (columns ▸ hi') (columns ▸ hj) hne
  reads_other hi hj hne _ := by
    rw [exponentialItem_eq h hi, rowOf_stat_store h.input_ne,
      rowOf_fillRow_other h.untangled h.shape (h.row_lt hi) (h.row_lt hj) (row_inj hi hj hne),
      statOf_store_other (by decide) (by decide) (row_lt hi) (row_lt hj) (row_inj hi hj hne),
      statOf_fillRow h.output_ne]
  leaves_other hi hj hne _ := by
    rw [exponentialItem_eq h hi, rowOf_stat_store h.output_ne,
      rowOf_fillRow_other l.output.untangled_self rfl (h.row_lt hi) (h.row_lt hj)
        (row_inj hi hj hne),
      statOf_store_other (by decide) (by decide) (row_lt hi) (row_lt hj) (row_inj hi hj hne),
      statOf_fillRow h.output_ne]

theorem divideItem_eq (h : l.Placed b) (item : WorkItem) (m : Memory) :
    l.divideItem (l.stats b) item m = fillRow l.output item.y (fun i now =>
      l.output.loadValue now (address l.output item.y i) / l.statOf b sumColumn m item.y) m := by
  have columns : l.columns = l.output.layout.shape.x := congrArg Shape.x h.shape
  rw [divideItem, columns]
  rfl

theorem isolated_divide (h : l.Placed b) : Isolated (· ∈ l.grid.items) (l.Roomy b)
    (l.divideItem (l.stats b))
    (fun item m => (rowOf l.output m item.y, l.statOf b sumColumn m item.y))
    (fun item m => rowOf l.output m item.y)
    (fun (words, sum) => quotients l.output.layout.dataType sum words) where
  keeps _ valid := by
    rw [divideItem_eq h]
    exact valid.fillRow ..
  own {item m} hi valid := by
    rw [divideItem_eq h, rowOf_fillRow (h.row_lt hi) (fun i hi' j hj hne m w => ?_) valid.1]
    · simp only [quotients, rowOf, List.map_map]
      rfl
    · have clear := clear_address l.output.untangled_self rfl (h.row_lt hi) (h.row_lt hi) hj hi'
        fun he => hne he.2.symm
      exact congrArg (fun w => l.output.layout.dataType.decode w / _)
        (View.load_store_clear clear m w)
  reads_other hi hj hne _ := by
    rw [divideItem_eq h, rowOf_fillRow_other l.output.untangled_self rfl (h.row_lt hi)
      (h.row_lt hj) (row_inj hi hj hne), statOf_fillRow h.output_ne]
  leaves_other hi hj hne _ := by
    rw [divideItem_eq h, rowOf_fillRow_other l.output.untangled_self rfl (h.row_lt hi)
      (h.row_lt hj) (row_inj hi hj hne)]

/-! ### A run -/

/-- Orders of the work-items in the three launches. -/
structure Orders (l : Softmax) where
  maxima : List WorkItem
  exponentials : List WorkItem
  quotients : List WorkItem
  maxima_perm : maxima.Perm l.grid.items
  exponentials_perm : exponentials.Perm l.grid.items
  quotients_perm : quotients.Perm l.grid.items

/-- One work-item after the other, as they are numbered. -/
def Orders.numbered (l : Softmax) : l.Orders :=
  ⟨l.grid.items, l.grid.items, l.grid.items, .refl _, .refl _, .refl _⟩

def runIn (l : Softmax) (o : l.Orders) (stats : View) (m : Memory) : Memory :=
  let m := runItems o.maxima (l.maxItem stats) m
  let m := runItems o.exponentials (l.exponentialItem stats) m
  runItems o.quotients (l.divideItem stats) m

/-- A run with the work-items of each launch in some order. -/
def runOrdered (l : Softmax) (o : l.Orders) (d : Device) : Device :=
  let (scope, d) := l.scratch.acquire d
  scope.close (d.onMemory (l.runIn o (scope.view statsSlot)))

theorem run_eq_runOrdered (l : Softmax) : l.run = l.runOrdered (.numbered l) := rfl

theorem rowOf_runIn (h : l.Placed b) (roomy : l.Roomy b m) (o : l.Orders) (hrow : row < l.rows) :
    rowOf l.output (l.runIn o (l.stats b) m) row =
      rowWords l.input.layout.dataType l.beta (rowOf l.input m row) := by
  have hi : (⟨0, row, 0⟩ : WorkItem) ∈ l.grid.items :=
    Grid.mem_items.2 ⟨Nat.one_pos, hrow, Nat.one_pos⟩
  -- what each launch leaves is what the next one reads
  have maxima := (isolated_max h).leaves_ordered o.maxima_perm hi roomy
  have roomy := (isolated_max h).valid_runItems (fun _ => o.maxima_perm.mem_iff.1) roomy
  have exponentials := (isolated_exponential h).leaves_ordered o.exponentials_perm hi roomy
  have roomy := (isolated_exponential h).valid_runItems
    (fun _ => o.exponentials_perm.mem_iff.1) roomy
  have quotients := (isolated_divide h).leaves_ordered o.quotients_perm hi roomy
  rw [maxima] at exponentials
  rw [exponentials] at quotients
  rw [runIn]
  refine quotients.trans ?_
  rw [rowWords, h.type]

/-- A layer on a device that has its tensors, none of them in a free block, and its scratch tensor
in stock. -/
structure Runnable (l : Softmax) (d : Device) : Prop where
  type : l.output.layout.dataType = l.input.layout.dataType
  shape : l.input.layout.shape = l.output.layout.shape
  untangled : l.output.Untangled l.input
  fits : l.output.Fits d.memory
  scratch : l.scratch.layouts = [statsLayout l.rows]
  stocked : d.Stocks (· ∈ [l.input.buffer, l.output.buffer]) [l.scratch]

theorem Runnable.rowOf_runOrdered {d : Device} (h : l.Runnable d) (o : l.Orders)
    (hrow : row < l.rows) : rowOf l.output (l.runOrdered o d).memory row =
      rowWords l.input.layout.dataType l.beta (rowOf l.input d.memory row) := by
  have slot : l.scratch.layouts[statsSlot]? = some (statsLayout l.rows) := by
    rw [h.scratch]
    rfl
  have opened := h.stocked.opened
  rw [runOrdered, Device.memory_close]
  generalize (l.scratch.acquire d).1 = scope, (l.scratch.acquire d).2 = d' at opened ⊢
  obtain ⟨b, view⟩ := opened.exists_view slot
  have buffer : (scope.view statsSlot).buffer = b := congrArg View.buffer view
  have apart {v : View} (hv : v.buffer ∈ [l.input.buffer, l.output.buffer]) : b ≠ v.buffer :=
    fun he => opened.view_idle slot (buffer.symm ▸ he ▸ hv)
  have placed : l.Placed b :=
    ⟨h.type, h.shape, h.untangled, apart (by simp), apart (by simp)⟩
  have present := h.stocked.present l.output.buffer (by simp)
  have roomy : l.Roomy b d'.memory :=
    ⟨h.fits.of_size (opened.grows.size _ present), buffer ▸ opened.view_fits slot⟩
  have before : rowOf l.input d'.memory row = rowOf l.input d.memory row :=
    rowOf_congr fun _ _ => View.load_congr (fun j => opened.byte _ j) _
  rw [view, ← before]
  exact rowOf_runIn placed roomy o hrow

theorem Runnable.matrixAt_run {d : Device} (h : l.Runnable d) (hrow : row < l.rows) :
    matrixAt (l.output.words (l.run d).memory) l.columns row =
      rowWords l.input.layout.dataType l.beta
        (matrixAt (l.input.words d.memory) l.columns row) := by
  have columns : l.columns = l.output.layout.shape.x := congrArg Shape.x h.shape
  have input : matrixAt (l.input.words d.memory) l.columns row = rowOf l.input d.memory row :=
    matrixAt_words hrow
  rw [run_eq_runOrdered, input, ← h.rowOf_runOrdered (.numbered l) hrow, columns]
  exact matrixAt_words (h.shape ▸ hrow)

/-! ### Configured layers -/

variable {input output : View} {beta : Binary32} {pooled : Bool} {d e : Device}

theorem configure_eq_ok : configure input output beta pooled m = .ok (l, m') ↔
    (input.layout.dataType.isFloatingPoint ∧ input.layout.dataType = output.layout.dataType ∧
      input.layout.shape = output.layout.shape) ∧
      assemble input output beta pooled m = (l, m') := by
  rw [← refuse_eq_ok, configure_eq, map_eq_ok]
  simp only [refuse_eq_ok, check, bind_eq_ok, checkFloat_eq_ok, checkSameType_eq_ok,
    checkSameShape_eq_ok, exists_const]

/-- A layer as it was configured, for tensors that are on the device and do not get into each
other's way: two buffers, one tensor, or elements that only overlap in the same place. -/
structure Deployed (input output : View) (beta : Binary32) (d : Device) (l : Softmax)
    (m : Memory) : Prop where
  configured : ∃ pooled, configure input output beta pooled d.memory = .ok (l, m)
  stocked : d.Stocks (· ∈ [input.buffer, output.buffer]) []
  untangled : output.Untangled input
  fits : output.Fits d.memory

/-- From a layer on a device to a later point of its history. -/
def Reaches (l : Softmax) (d e : Device) : Prop :=
  ∃ first, History [fun l d => (l, l.run d)] (fun _ => False) l d l e first

theorem Reaches.refl (l : Softmax) (d : Device) : l.Reaches d d := ⟨none, .start⟩

theorem grows_run {busy : BufferId → Prop} {rest : List ScratchGroup}
    (h : d.Stocks busy (l.scratch :: rest)) : d.memory.Grows (l.run d).memory := by
  rw [run, Device.memory_close]
  exact h.opened.grows.trans (l.grows_runWith _ _)

/-- The scratch tensor stays in stock. -/
theorem stocks_history {busy : BufferId → Prop} {s : Softmax} {first : Option Memory}
    (stocked : d.Stocks busy [l.scratch])
    (history : History [fun l d => (l, l.run d)] (fun _ => False) l d s e first) :
    s = l ∧ e.Stocks busy [l.scratch] ∧ d.memory.Grows e.memory := by
  induction history with
  | start => exact ⟨rfl, stocked, .refl _⟩
  | meanwhile _ work ih =>
    obtain ⟨same, stocks, grows⟩ := ih
    exact ⟨same, stocks.meanwhile work, grows.trans work.grows⟩
  | call _ mem ih =>
    obtain ⟨rfl, stocks, grows⟩ := ih
    obtain rfl := List.mem_singleton.1 mem
    exact ⟨rfl, stocks_run _ stocks, grows.trans (grows_run stocks)⟩

namespace Deployed

theorem operands_eq (h : Deployed input output beta d l m) :
    l.input = input ∧ l.output = output ∧ l.beta = beta := by
  obtain ⟨pooled, configured⟩ := h.configured
  obtain ⟨-, made⟩ := configure_eq_ok.1 configured
  obtain ⟨rfl, -⟩ := Prod.mk.inj made
  exact ⟨rfl, rfl, rfl⟩

theorem runnable (h : Deployed input output beta d l m) (later : l.Reaches ⟨m, d.pool⟩ e) :
    l.Runnable e := by
  obtain ⟨pooled, configured⟩ := h.configured
  obtain ⟨⟨-, type, shape⟩, made⟩ := configure_eq_ok.1 configured
  obtain ⟨rfl, rfl⟩ := Prod.mk.inj made
  obtain ⟨allocates, ready⟩ := allocated input output beta pooled d.memory
  have stocked := (h.stocked.allocate allocates ready).mono fun b hb => Or.inl hb
  obtain ⟨first, history⟩ := later
  obtain ⟨-, stocks, grows⟩ := stocks_history stocked history
  have present := h.stocked.present output.buffer (by simp)
  have size := (allocates.grows.trans grows).size _ present
  exact ⟨type.symm, shape, h.untangled, h.fits.of_size size, ScratchGroup.manage_layouts .., stocks⟩

theorem vector_run {i o : BufferId} {count : Nat} {t : DataType}
    (h : Deployed (.vector i count t) (.vector o count t) beta d l m)
    (later : l.Reaches ⟨m, d.pool⟩ e) : (View.vector o count t).words (l.run e).memory =
      rowWords t beta ((View.vector i count t).words e.memory) := by
  obtain ⟨input, output, beta⟩ := h.operands_eq
  have runnable := h.runnable later
  have columns : l.columns = count := by
    rw [Softmax.columns, input]
    exact Shape.dim_ofList (d := 0) _ (by decide)
  have only : 0 < l.rows := by
    rw [rows, input]
    exact (FullyConnected.batches_vector count).ge
  have length (b : BufferId) (m : Memory) : ((View.vector b count t).words m).length = count :=
    (View.length_words ..).trans (Shape.size_vector count)
  have row := runnable.matrixAt_run only
  rw [columns, input, output, beta, matrixAt_zero (length ..), matrixAt_zero (length ..)] at row
  exact row

end Deployed
end Softmax

open Softmax in
/-- Each row of the output is made of the same row of the input alone, in tensors of any rank with
any borders. For one such row there is always a layer, and whatever was done with it before, it
leaves the row that the layer for all rows leaves. -/
theorem softmax_rows {input output : View} {beta : Binary32} {d : Device} {l : Softmax} {m : Memory}
    (h : Deployed input output beta d l m) :
    let t := input.layout.dataType
    let count := input.layout.shape.x
    let rows := input.layout.shape.upperSize 1
    (output.layout.shape = input.layout.shape ∧ count * rows = input.layout.shape.size) ∧
    (∀ {e}, l.Reaches ⟨m, d.pool⟩ e → ∀ row < rows,
      matrixAt (output.words (l.run e).memory) count row =
        rowWords t beta (matrixAt (input.words e.memory) count row)) ∧
    ∀ {i o : BufferId} {d' : Device}, d'.Stocks (· ∈ [i, o]) [] →
      (View.vector o count t).Fits d'.memory → ∀ pooled, ∃ l' m',
        Softmax.configure (.vector i count t) (.vector o count t) beta pooled d'.memory =
          .ok (l', m') ∧
        ∀ {e e'}, l.Reaches ⟨m, d.pool⟩ e → l'.Reaches ⟨m', d'.pool⟩ e' → ∀ row < rows,
          (View.vector i count t).words e'.memory = matrixAt (input.words e.memory) count row →
          (View.vector o count t).words (l'.run e').memory =
            matrixAt (output.words (l.run e).memory) count row := by
  intro t count rows
  obtain ⟨_, configured⟩ := h.configured
  obtain ⟨⟨float, -, shape⟩, -⟩ := configure_eq_ok.1 configured
  have each {e : Device} (later : l.Reaches ⟨m, d.pool⟩ e) (row : Nat) (hrow : row < rows) :
      matrixAt (output.words (l.run e).memory) count row =
        rowWords t beta (matrixAt (input.words e.memory) count row) := by
    obtain ⟨rfl, rfl, rfl⟩ := h.operands_eq
    exact (h.runnable later).matrixAt_run hrow
  refine ⟨⟨shape.symm, rfl⟩, each, ?_⟩
  intro i o d' stocked fits pooled
  have configured' : Softmax.configure (.vector i count t) (.vector o count t) beta pooled
      d'.memory = .ok (assemble (.vector i count t) (.vector o count t) beta pooled d'.memory) :=
    configure_eq_ok.2 ⟨⟨float, rfl, rfl⟩, rfl⟩
  have untangled : (View.vector o count t).Untangled (View.vector i count t) :=
    View.untangled_of_shared fun he : o = i => by rw [he]
  have alone := Deployed.mk ⟨pooled, configured'⟩ stocked untangled fits
  refine ⟨_, _, configured', fun later later' row hrow same => ?_⟩
  rw [alone.vector_run later', same, each later row hrow]

/-- The second of two rows on different planes, behind a border that holds a NaN, and the same row
alone, in place and with a scratch tensor of its own. -/
theorem softmax_rows_second :
    let input : View := ⟨0, .ofList [2, 1, 2], .f16, ⟨0, 0, 0, 1⟩⟩
    let output : View := ⟨1, .packed (.ofList [2, 1, 2]) .f16⟩
    let alone : View := .vector 0 2 .f16
    let planes : Array UInt8 := #[255, 255, 0, 60, 0, 64, 255, 255, 0, 66, 0, 68]
    let d : Device := ⟨⟨#[planes, .replicate 8 0]⟩, .empty⟩
    let d' : Device := ⟨⟨#[#[0, 66, 0, 68]]⟩, .empty⟩
    ∃ l m l' m', Softmax.configure input output .one true d.memory = .ok (l, m) ∧
      Softmax.configure alone alone .one false d'.memory = .ok (l', m') ∧
      alone.words (l'.run ⟨m', d'.pool⟩).memory =
        matrixAt (output.words (l.run ⟨m, d.pool⟩).memory) 2 1 := by
  intro input output alone planes d d'
  have configured : Softmax.configure input output .one true d.memory =
      .ok (Softmax.assemble input output .one true d.memory) :=
    Softmax.configure_eq_ok.2 ⟨by decide, rfl⟩
  have stocked : d.Stocks (· ∈ [0, 1]) [] := ⟨by decide, .nil _, by decide, by simp⟩
  have stocked' : d'.Stocks (· ∈ [0, 0]) [] := ⟨by decide, .nil _, by decide, by simp⟩
  have deployed := Softmax.Deployed.mk ⟨true, configured⟩ stocked
    (View.untangled_of_ne (by decide)) (by decide)
  obtain ⟨-, -, single⟩ := softmax_rows deployed
  obtain ⟨l', m', configured', same⟩ := single stocked' (by decide) false
  obtain ⟨rfl, rfl⟩ := Prod.mk.inj (Softmax.configure_eq_ok.1 configured').2
  exact ⟨_, _, _, _, configured, configured',
    same (.refl ..) (.refl ..) 1 (by decide) (by decide)⟩

end TileCompute
