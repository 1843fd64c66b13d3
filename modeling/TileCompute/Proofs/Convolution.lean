import TileCompute.Layer.GemmConvolution
import TileCompute.Proofs.Packed
import TileCompute.Proofs.Product
import TileCompute.Proofs.Strips

/-!
# TileCompute.Proofs.Convolution

Convolution by a matrix product, end to end. Each launch around the product covers what it stores:
the weights as columns of a matrix, the input unrolled into rows, the product dealt out to the
planes of the output. So an element of the output is the dot product of a row and a column, and
that is the sum over the taps of the kernel (`convolved`).

* `View.loadValue_launch`: what a launch stores that has a value for every element.
* `GemmConvolution.covers_columns`, `GemmConvolution.covers_rows`: the launches before the product
  as fills.
* `GemmConvolution.dot_row_column`: a dot product of lists as a fold over the taps.
* `convolvable_of_check`: what is accepted.
* `GemmConvolution.configure_eq`: planning, then allocation.
-/

namespace TileCompute

section Single

variable {v : View} {m : Memory}

theorem View.loadValue_single (h : v.layout.dataType = .f32) (m : Memory) (o : Nat) :
    v.loadValue m o = Element.ofWord (v.load m o) := by
  rw [loadValue, h]
  rfl

theorem DataType.encode_single (x : Binary32) : DataType.f32.encode x = Element.toWord x := rfl

/-- The element that a data type keeps of a value. -/
def DataType.element (t : DataType) (α : Type) [Element α] (x : Binary32) : α :=
  Element.ofWord (t.encode x)

theorem DataType.element_single (x : Binary32) : DataType.f32.element Binary32 x = x :=
  Element.ofWord_toWord x

theorem View.loadValue_congr {m' : Memory} (h : ∀ j, m.byte v.buffer j = m'.byte v.buffer j)
    (o : Nat) : v.loadValue m o = v.loadValue m' o :=
  congrArg v.layout.dataType.decode (View.load_congr h o)

/-- Values of single precision are read back as they were stored. -/
theorem View.loadValue_launch {f : Site → Memory → Binary32} (single : v.layout.dataType = .f32)
    (stable : ∀ s m o w, f s (v.store m o w) = f s m) (fits : v.Fits m) {c : Cell}
    (hc : v.layout.HasCell c) :
    v.loadValue (v.layout.shape.launch (fun s m => v.storeValue m (v.layout.site s) (f s m)) m)
        (v.layout.cell c) = f (v.layout.shape.siteOf c) m := by
  rw [loadValue_single single, load_launch (fun c _ _ _ _ m w => stable _ m _ w) fits hc, single,
    DataType.encode_single]
  exact Element.ofWord_toWord _

end Single

/-- The input under a tap of the window at an output element, zero in the padding. -/
def Window.under (w : Window) (input : View) (m : Memory) (s : Site) (tap : Tap) : Binary32 :=
  let x : Int := s.x * w.strideX + tap.x - w.left
  let y : Int := s.y * w.strideY + tap.y - w.top
  if (0 ≤ x ∧ x < input.layout.shape.x) ∧ 0 ≤ y ∧ y < input.layout.shape.y then
    input.loadValue m (input.layout.site ⟨x.toNat, y.toNat, tap.c, s.w⟩)
  else .zero

theorem Window.sourceIndex?_eq (out stride tap pad extent : Nat) :
    sourceIndex? out stride tap pad extent =
      let i : Int := out * stride + tap - pad
      if 0 ≤ i ∧ i < extent then some i.toNat else none := by
  have hi : (out * stride + tap - pad : Int) = ((out * stride + tap : Nat) : Int) - pad := by
    push_cast
    rfl
  rw [sourceIndex?, hi]
  dsimp only
  generalize out * stride + tap = padded
  by_cases h : pad ≤ padded ∧ padded - pad < extent
  · rw [if_pos h, if_pos (by omega)]
    exact congrArg some (by omega)
  · rw [if_neg h, if_neg (by omega)]

/-- The input under a tap, as an unrolled row has it. -/
theorem Window.under_eq (w : Window) (input : View) (m : Memory) (s : Site) (tap : Tap) :
    w.under input m s tap =
      match w.source? input.layout.shape s.x s.y tap with
      | some (x, y) => input.loadValue m (input.layout.site ⟨x, y, tap.c, s.w⟩)
      | none => .zero := by
  rw [under, source?, sourceIndex?_eq, sourceIndex?_eq]
  dsimp only
  by_cases hx : 0 ≤ (s.x * w.strideX + tap.x - w.left : Int) ∧
      (s.x * w.strideX + tap.x - w.left : Int) < input.layout.shape.x
  · by_cases hy : 0 ≤ (s.y * w.strideY + tap.y - w.top : Int) ∧
        (s.y * w.strideY + tap.y - w.top : Int) < input.layout.shape.y
    · rw [if_pos hx, if_pos hy, if_pos ⟨hx, hy⟩]
    · rw [if_pos hx, if_neg hy, if_neg fun h => hy h.2]
  · rw [if_neg hx, if_neg fun h => hx h.1]

/-- The sum of a convolution at an output element: one product for every tap in order, and one for
the bias. -/
def convolved (g : Target) (w : Window) (input weights : View) (bias : Option View) (m : Memory)
    (s : Site) : Binary32 :=
  let kernel := weights.layout.shape
  let sum := (taps kernel.x kernel.y kernel.z).foldl (fun acc tap =>
    g.mac 0 acc (w.under input m s tap)
      (weights.loadValue m (weights.layout.site ⟨tap.x, tap.y, tap.c, s.z⟩))) Binary32.zero
  match bias with
  | some b => g.mac 0 sum .one (b.loadValue m (b.layout.offset (b.layout.shape.coordOf s.z)))
  | none => sum

/-- The sum of a convolution at an output element, in the accumulator of an element type. The input
is read in one memory and the weights and the bias in another. -/
def convolvedAs (α : Type) [Element α] (g : Target) (w : Window) (input weights : View)
    (bias : Option View) (now first : Memory) (s : Site) : Element.Acc α :=
  let t := input.layout.dataType
  let kernel := weights.layout.shape
  let sum := (taps kernel.x kernel.y kernel.z).foldl (fun acc tap =>
    g.mac t.frac acc (t.element α (w.under input now s tap))
      (t.element α (weights.loadValue first (weights.layout.site ⟨tap.x, tap.y, tap.c, s.z⟩))))
    (Element.accZero t.frac)
  match bias with
  | some b => g.mac t.frac sum (t.element α .one)
      (t.element α (b.loadValue first (b.layout.offset (b.layout.shape.coordOf s.z))))
  | none => sum

/-- The word that a convolution leaves at an output element: the sum as an element, then as a
value of the output. -/
def convolvedWord (α : Type) [Element α] (g : Target) (w : Window) (input weights : View)
    (bias : Option View) (now first : Memory) (s : Site) : Nat :=
  let t := input.layout.dataType
  let sum : α := Element.narrow t.frac (convolvedAs α g w input weights bias now first s)
  t.encode (t.decode (Element.toWord sum))

theorem Window.under_congr {input : View} {m m' : Memory}
    (h : ∀ j, m'.byte input.buffer j = m.byte input.buffer j) (w : Window) (s : Site) (tap : Tap) :
    w.under input m' s tap = w.under input m s tap := by
  simp only [under, View.loadValue_congr h]

/-- Of the memory now, a convolution reads the input. -/
theorem convolvedWord_congr {α : Type} [Element α] {input : View} {now now' : Memory}
    (h : ∀ j, now'.byte input.buffer j = now.byte input.buffer j) (g : Target) (w : Window)
    (weights : View) (bias : Option View) (first : Memory) (s : Site) :
    convolvedWord α g w input weights bias now' first s =
      convolvedWord α g w input weights bias now first s := by
  simp only [convolvedWord, convolvedAs, Window.under_congr h]

theorem convolvedAs_single {input : View} (single : input.layout.dataType = .f32) (g : Target)
    (w : Window) (weights : View) (bias : Option View) (m : Memory) (s : Site) :
    convolvedAs Binary32 g w input weights bias m m s = convolved g w input weights bias m s := by
  unfold convolvedAs convolved
  simp only [single, DataType.element_single]
  cases bias <;> rfl

theorem length_taps (x y z : Nat) : (taps x y z).length = x * y * z := by
  simp [taps, List.length_flatMap, Nat.mul_comm, Nat.mul_left_comm]

/-- Taps are numbered channel by channel, row by row: the number of a tap is the offset of its
weight in a packed kernel. -/
theorem getElem?_taps {width height channels : Nat} {tap : Tap} (hx : tap.x < width)
    (hy : tap.y < height) (hc : tap.c < channels) :
    (taps width height channels)[(tap.c * height + tap.y) * width + tap.x]? = some tap := by
  let row (c y : Nat) : List Tap := (List.range width).map fun x => ⟨x, y, c⟩
  let plane (c : Nat) : List Tap := (List.range height).flatMap (row c)
  have rows (c y : Nat) : (row c y).length = width := by simp [row]
  have planes (c : Nat) : (plane c).length = height * width := by
    rw [length_chunks (rows c), List.length_range]
  have inside : tap.y * width + tap.x < height * width := by
    rw [Nat.add_comm, Nat.mul_comm, Nat.mul_comm height]
    exact radix_lt hx hy
  calc (taps width height channels)[(tap.c * height + tap.y) * width + tap.x]?
    _ = ((List.range channels).flatMap plane)[tap.c * (height * width) +
          (tap.y * width + tap.x)]? := by
      congr 1
      ring
    _ = (plane tap.c)[tap.y * width + tap.x]? := by
      rw [getElem?_chunks planes inside, List.getElem?_range hc]
      rfl
    _ = (row tap.c tap.y)[tap.x]? := by
      rw [getElem?_chunks (rows tap.c) hx, List.getElem?_range hy]
      rfl
    _ = some tap := by
      rw [List.getElem?_map, List.getElem?_range hx]
      rfl

namespace GemmConvolution

variable {l : GemmConvolution} {m : Memory} {feature : Nat}

theorem length_taps (l : GemmConvolution) : l.taps.length =
    l.weights.layout.shape.x * l.weights.layout.shape.y * l.weights.layout.shape.z :=
  TileCompute.length_taps ..

theorem length_row (l : GemmConvolution) (x y batch : Nat) (m : Memory) :
    (l.row x y batch m).length = depth l.weights.layout.shape l.bias := by
  unfold row depth
  cases l.bias <;> simp [length_taps]

theorem length_column (l : GemmConvolution) (feature : Nat) (m m' : Memory) :
    (l.column (biasValues l.bias m') feature m).length = depth l.weights.layout.shape l.bias := by
  unfold column depth biasFor biasValues
  cases l.bias <;> simp [length_taps]

/-- The word that unrolling stores to a cell. -/
def rowValue (l : GemmConvolution) (t : DataType) (c : Cell) (m : Memory) : Nat :=
  let width := l.output.layout.shape.x
  t.encode ((l.row (c.y % width) (c.y / width) c.z m).getD c.x .zero)

theorem rowItem_eq_fill (l : GemmConvolution) (rows : View) (item : WorkItem) (m : Memory) :
    l.rowItem rows item m =
      rows.fill rows.layout.cell (fun c _ => l.rowValue rows.layout.dataType c m)
        ((List.range (depth l.weights.layout.shape l.bias)).map fun i => ⟨i, item.y, item.z⟩) m := by
  refine (View.foldl_zipIdx_eq_fill (fun i => rows.layout.offset3 i item.y item.z) _ m).trans ?_
  rw [length_row, View.fill_map]
  rfl

/-- The word of the weights' matrix at a cell. -/
def columnValue (l : GemmConvolution) (bias : Option (Array Binary32)) (c : Cell) (m : Memory) :
    Nat :=
  l.matrix.layout.dataType.encode ((l.column bias c.x m).getD c.y .zero)

/-- The matrix has the weights and the bias that are found in `first`. -/
def Remembers (l : GemmConvolution) (first m : Memory) : Prop :=
  ∀ c, l.matrix.layout.HasCell c → l.matrix.load m (l.matrix.layout.cell c) =
    l.columnValue (biasValues l.bias first) c first

theorem columnItem_eq_fill (l : GemmConvolution) (item : WorkItem) (m m' : Memory) :
    l.columnItem (biasValues l.bias m') item m =
      l.matrix.fill l.matrix.layout.cell (fun c _ => l.columnValue (biasValues l.bias m') c m)
        ((List.range (depth l.weights.layout.shape l.bias)).map fun i => ⟨item.x, i, 0⟩) m := by
  refine (View.foldl_zipIdx_eq_fill (fun i => l.matrix.layout.offset2 item.x i) _ m).trans ?_
  rw [length_column, View.fill_map]
  simp only [Layout.cell, Layout.offset3, Nat.zero_mul, Nat.add_zero]
  rfl

/-! ### The launches -/

theorem loadValue_store_other {v u : View} {m : Memory} {o o' w : Nat} (h : v.buffer ≠ u.buffer) :
    v.loadValue (u.store m o w) o' = v.loadValue m o' :=
  congrArg v.layout.dataType.decode (View.load_store_buffer w h)

theorem row_store {rows : View} (h : l.input.buffer ≠ rows.buffer) (x y batch : Nat) (m : Memory)
    (o w : Nat) : l.row x y batch (rows.store m o w) = l.row x y batch m := by
  simp only [row, loadValue_store_other h]

theorem column_store (h : l.weights.buffer ≠ l.matrix.buffer) (bias : Option (Array Binary32))
    (feature : Nat) (m : Memory) (o w : Nat) :
    l.column bias feature (l.matrix.store m o w) = l.column bias feature m := by
  simp only [column, loadValue_store_other h]

theorem hasCell_eq (v : Layout) :
    v.HasCell = fun c => c.x < v.dim 0 ∧ c.y < v.dim 1 ∧ c.z < v.batches :=
  rfl

theorem covers_rows {rows : View} (h0 : rows.layout.dim 0 = depth l.weights.layout.shape l.bias)
    (h2 : rows.layout.batches = rows.layout.dim 2) (h : l.input.buffer ≠ rows.buffer) :
    Covers rows ⟨1, rows.layout.dim 1, rows.layout.dim 2⟩ (l.rowItem rows) rows.layout.cell
      (l.rowValue rows.layout.dataType) rows.layout.HasCell
      (fun item => (List.range (depth l.weights.layout.shape l.bias)).map
        fun i => ⟨i, item.y, item.z⟩) (fun c => ⟨0, c.y, c.z⟩) := by
  have stable (c : Cell) (m : Memory) (o w : Nat) : l.rowValue rows.layout.dataType c
      (rows.store m o w) = l.rowValue rows.layout.dataType c m := by
    rw [rowValue, row_store h, rowValue]
  constructor
  · rw [hasCell_eq, h0, h2]
    exact Grid.shares_rows _ _ _
  · exact View.separate_cells stable
  · intro item _ m
    rw [rowItem_eq_fill, View.fill_beforehand stable]

theorem covers_columns (h0 : l.matrix.layout.dim 0 = l.weights.layout.shape.w)
    (h1 : l.matrix.layout.dim 1 = depth l.weights.layout.shape l.bias)
    (h2 : l.matrix.layout.batches = 1) (h : l.weights.buffer ≠ l.matrix.buffer) (m : Memory) :
    Covers l.matrix ⟨l.weights.layout.shape.w, 1, 1⟩ (l.columnItem (biasValues l.bias m))
      l.matrix.layout.cell (l.columnValue (biasValues l.bias m)) l.matrix.layout.HasCell
      (fun item => (List.range (depth l.weights.layout.shape l.bias)).map
        fun i => ⟨item.x, i, 0⟩) (fun c => ⟨c.x, 0, 0⟩) := by
  have stable (c : Cell) (m' : Memory) (o w : Nat) : l.columnValue (biasValues l.bias m) c
      (l.matrix.store m' o w) = l.columnValue (biasValues l.bias m) c m' := by
    rw [columnValue, column_store h, columnValue]
  constructor
  · rw [hasCell_eq, h0, h1, h2]
    exact Grid.shares_columns _ _
  · exact View.separate_cells stable
  · intro item _ m'
    rw [columnItem_eq_fill, View.fill_beforehand stable]

/-! ### Dot products over the taps -/

theorem dot_lists {α : Type} [Element α] {mac : Element.Acc α → α → α → Element.Acc α}
    {xs ys : List Binary32} {n : Nat} (hx : xs.length = n) (hy : ys.length = n)
    (f : Binary32 → α) (acc : Element.Acc α) :
    dot mac (fun k => f (xs.getD k .zero)) (fun k => f (ys.getD k .zero)) n acc =
      (xs.zip ys).foldl (fun acc p => mac acc (f p.1) (f p.2)) acc := by
  have hzip : xs.zip ys = (List.range n).map fun k => (xs.getD k .zero, ys.getD k .zero) := by
    apply List.ext_getElem
    · simp [hx, hy]
    · intro k h1 h2
      have hk : k < n := by simpa using h2
      simp [List.getD_eq_getElem?_getD, hx, hy, hk]
  rw [hzip, List.foldl_map]
  rfl

theorem biasFor_biasValues {bias : Option View} {feature : Nat}
    (h : ∀ b ∈ bias, feature < b.layout.shape.size) (m : Memory) :
    biasFor (biasValues bias m) feature =
      bias.map fun b => b.loadValue m (b.layout.offset (b.layout.shape.coordOf feature)) := by
  cases bias with
  | none => rfl
  | some b =>
    simp [biasFor, biasValues, View.values, Shape.coords, List.getElem?_range (h b rfl)]

/-- A row times a column is the sum over the taps and the bias. -/
theorem dot_row_column (α : Type) [Element α] (g : Target)
    (hbias : ∀ b ∈ l.bias, feature < b.layout.shape.size) (x y batch : Nat) (now first : Memory) :
    let t := l.input.layout.dataType
    dot (g.mac t.frac) (fun k => t.element α ((l.row x y batch now).getD k .zero))
        (fun k => t.element α ((l.column (biasValues l.bias first) feature first).getD k .zero))
        (depth l.weights.layout.shape l.bias) (Element.accZero t.frac) =
      convolvedAs α g l.window l.input l.weights l.bias now first ⟨x, y, feature, batch⟩ := by
  intro t
  rw [dot_lists (l.length_row x y batch now) (l.length_column feature first first)]
  unfold row column convolvedAs
  rw [biasFor_biasValues hbias]
  simp only [Window.under_eq]
  cases l.bias with
  | none =>
    simp only [Option.isSome_none, Bool.false_eq_true, if_false, Option.map_none,
      Option.toList_none, List.append_nil, List.zip_map', List.foldl_map]
    rfl
  | some b =>
    simp only [Option.isSome_some, if_true, Option.map_some, Option.toList_some]
    rw [List.zip_append (by simp), List.foldl_append, List.zip_map', List.foldl_map]
    rfl

end GemmConvolution

/-! ### What is accepted -/

/-- Operands of a convolution that fit together. -/
structure Convolvable (input weights : Layout) (bias : Option Layout) (output : Layout)
    (w : Window) : Prop where
  weightsType : weights.dataType = input.dataType
  outputType : output.dataType = input.dataType
  channels : weights.dim 2 = input.dim 2
  features : output.dim 2 = weights.dim 3
  batches : output.shape.upperSize 3 = input.shape.upperSize 3
  bias : ∀ b ∈ bias, b.shape.size = weights.dim 3

theorem checkChannels_eq_ok {input weights : Layout} {u : Unit} :
    checkChannels input weights = .ok u ↔ weights.dim 2 = input.dim 2 := by
  unfold checkChannels
  split <;> simp [*]

theorem checkFeatures_eq_ok {input weights output : Layout} {w : Window} {u : Unit} :
    checkFeatures input weights output w = .ok u ↔
      (output.dim 0 = Window.positions w.rounding (input.dim 0 + (w.left + w.right))
          (weights.dim 0) w.strideX ∧
        output.dim 1 = Window.positions w.rounding (input.dim 1 + (w.top + w.bottom))
          (weights.dim 1) w.strideY) ∧
        output.dim 2 = weights.dim 3 ∧ output.shape.upperSize 3 = input.shape.upperSize 3 := by
  unfold checkFeatures Window.outputSize
  dsimp only
  split <;> simp [*, and_assoc]

theorem checkBias_eq_ok {input : Layout} {bias : Option Layout} {count : Nat} {what : String}
    {u : Unit} : checkBias input bias count what = .ok u ↔
      ∀ b ∈ bias, input.dataType = b.dataType ∧ b.shape.size = count := by
  cases bias with
  | none => simp [checkBias, pure_eq_ok]
  | some b =>
    simp only [checkBias, bind_eq_ok, checkSameType_eq_ok, reject_last_eq_ok, pure_eq_ok, ne_eq,
      Decidable.not_not, and_true, exists_const, Option.mem_def, Option.some.injEq, forall_eq']

theorem count_of_checkBias {input : Layout} {bias : Option Layout} {count : Nat} {what : String}
    {u : Unit} (h : checkBias input bias count what = .ok u) :
    ∀ b ∈ bias, b.shape.size = count :=
  fun b hb => (checkBias_eq_ok.1 h b hb).2

theorem convolvable_of_check {input weights output : Layout} {bias : Option Layout} {w : Window}
    {u : Unit} (h : checkConvolution input weights bias output w = .ok u) :
    Convolvable input weights bias output w := by
  simp only [checkConvolution, bind_eq_ok, checkSameType_eq_ok, checkChannels_eq_ok] at h
  obtain ⟨_, -, _, weightsType, _, outputType, _, -, _, channels, _, features, hbias⟩ := h
  obtain ⟨-, features, batches⟩ := checkFeatures_eq_ok.1 features
  exact ⟨weightsType.symm, outputType.symm, channels, features, batches, count_of_checkBias hbias⟩

namespace GemmConvolution

/-- Checks the operands and plans the product. -/
def plan (input weights : View) (bias : Option View) (output : View) (w : Window)
    (env : Environment) : Except (Failure LayerError) ProductPlan := do
  refuse (checkConvolution input.layout weights.layout (bias.map View.layout) output.layout w)
  let rows := rowsLayout input.layout weights.layout output.layout bias
  let result := productLayout input.layout weights.layout output.layout
  ProductPlan.make rows (matrixLayout input.layout weights.layout bias) none result .one .zero
    (env.lookup rows.dataType (result.dim 1))

/-- Allocates what the product and the launches around it need. -/
def assemble (input weights : View) (bias : Option View) (output : View) (w : Window)
    (pooled : Bool) (p : ProductPlan) (m : Memory) : GemmConvolution × Memory :=
  let (product, m) := p.allocate true pooled m
  let (scratch, m) := (ScratchGroup.empty pooled).manage
    (rowsLayout input.layout weights.layout output.layout bias) m
  let (scratch, m) := scratch.manage (productLayout input.layout weights.layout output.layout) m
  let (matrix, m) := View.alloc (matrixLayout input.layout weights.layout bias) m
  (⟨input, weights, bias, output, w, matrix, product, scratch, false⟩, m)

theorem configure_eq (input weights : View) (bias : Option View) (output : View) (w : Window)
    (pooled : Bool) (env : Environment) (m : Memory) :
    configure input weights bias output w pooled env m =
      (plan input weights bias output w env).map fun p =>
        assemble input weights bias output w pooled p m := by
  rw [configure, plan, map_bind]
  refine bind_congr_ok fun _ _ => ?_
  dsimp only
  rw [MatrixProduct.configure, MatrixProduct.configureOn_eq Machine.sound_exact]
  dsimp only [MatrixProduct.resolvedConfig, Option.getD_none]
  rw [← ProductPlan.make]
  generalize ProductPlan.make _ _ none _ .one .zero _ = made
  cases made <;> rfl

end GemmConvolution
end TileCompute
