import TileCompute.Proofs.Convolution

/-!
# TileCompute.Proofs.ConvolutionRun

A run of a convolution by a matrix product. With the weights' matrix in place, the input is
unrolled into scratch rows, the product computed and dealt out, so that an element of the output is
the dot product of a row and a column (`run_prepared_spec`). The first run makes the matrix, whose
columns are the weights then. Both hold with a pool or without, and on either path of the product.

* `GemmConvolution.allocates_assemble`: what a convolution has for itself.
* `GemmConvolution.run_convolved`: the output after the first run.
-/

namespace TileCompute
namespace GemmConvolution

variable {l : GemmConvolution} {p : ProductPlan} {busy : BufferId → Prop} {d : Device} {m : Memory}

/-- What holds of a configured convolution, whether it has been run or not. -/
structure Configured (l : GemmConvolution) (p : ProductPlan) : Prop where
  fits : Convolvable l.input.layout l.weights.layout (l.bias.map View.layout) l.output.layout
    l.window
  matrix : l.matrix.layout = matrixLayout l.input.layout l.weights.layout l.bias
  layouts : l.scratch.layouts =
    [rowsLayout l.input.layout l.weights.layout l.output.layout l.bias,
      productLayout l.input.layout l.weights.layout l.output.layout]
  carries : l.product.Carries p
  kernels : p.Kernels (rowsLayout l.input.layout l.weights.layout l.output.layout l.bias)
    l.matrix.layout (productLayout l.input.layout l.weights.layout l.output.layout) .one
  multipliable : Multipliable (rowsLayout l.input.layout l.weights.layout l.output.layout l.bias)
    l.matrix.layout (productLayout l.input.layout l.weights.layout l.output.layout)

theorem plan_eq_ok {input weights output : View} {bias : Option View} {w : Window}
    {env : Environment} (h : plan input weights bias output w env = .ok p) (pooled : Bool)
    (m : Memory) :
    (assemble input weights bias output w pooled p m).1.Configured p ∧
      p.config.target = env.target := by
  obtain ⟨_, checked, h⟩ := bind_eq_ok.1 h
  obtain ⟨multipliable, kernels, config, -⟩ := ProductPlan.make_eq_ok h
  refine ⟨⟨convolvable_of_check (refuse_eq_ok.1 checked), rfl, ?_, p.allocate_carries true pooled m,
    kernels, multipliable⟩, by rw [config]; rfl⟩
  exact (ScratchGroup.manage_layouts ..).trans
    (congrArg (· ++ [_]) (ScratchGroup.manage_layouts ..))

/-- Buffers in use by a convolution. -/
structure Buffers (l : GemmConvolution) (busy : BufferId → Prop) (m : Memory) : Prop where
  input : busy l.input.buffer
  output : busy l.output.buffer
  matrix : busy l.matrix.buffer
  kept : ∀ k ∈ l.product.kept?, busy k.tensor.buffer ∧ k.tensor.buffer ≠ l.matrix.buffer ∧
    k.tensor.Fits m
  fits : l.output.Fits m
  current : l.product.Current l.matrix.buffer m

theorem run_prepared_snd (done : l.prepared = true) (d : Device) :
    (l.run d).2 =
      let s := (l.scratch.acquire d).1
      let result := s.view productSlot
      let d := (l.scratch.acquire d).2.onMemory (l.unroll (s.view rowsSlot))
      s.close ((l.product.run (s.view rowsSlot) l.matrix none result d).2.onMemory
        (l.deal result)) := by
  have hp : l.prepare d.memory = (l, d.memory) := by rw [prepare, if_pos done]
  unfold run
  rw [hp]

theorem run_prepared_eq (done : l.prepared = true) (d : Device) :
    (l.run d).2.memory =
      let s := (l.scratch.acquire d).1
      let result := s.view productSlot
      let d := (l.scratch.acquire d).2.onMemory (l.unroll (s.view rowsSlot))
      l.deal result (l.product.run (s.view rowsSlot) l.matrix none result d).2.memory := by
  rw [run_prepared_snd done]
  exact Device.memory_close ..

theorem grows_rowItem (l : GemmConvolution) (rows : View) (item : WorkItem) (m : Memory) :
    m.Grows (l.rowItem rows item m) :=
  .foldl (fun m _ => View.grows_store _ m _ _) _ m

theorem grows_unroll (l : GemmConvolution) (rows : View) (m : Memory) :
    m.Grows (l.unroll rows m) :=
  .launch (l.grows_rowItem rows) m

theorem dim_zero_rowsLayout (input weights output : Layout) (bias : Option View) :
    (rowsLayout input weights output bias).dim 0 = depth weights.shape bias :=
  Shape.dim_ofList _ (by decide)

theorem batches_rowsLayout (input weights output : Layout) (bias : Option View) :
    (rowsLayout input weights output bias).batches = (rowsLayout input weights output bias).dim 2 :=
  (Layout.batches_packed ..).trans (Layout.dim_two_packed ..).symm

theorem load_unroll {rows : View} (ht : rows.layout =
      rowsLayout l.input.layout l.weights.layout l.output.layout l.bias)
    (hne : l.input.buffer ≠ rows.buffer) (fits : rows.Fits m) {c : Cell}
    (hc : rows.layout.HasCell c) :
    rows.load (l.unroll rows m) (rows.layout.cell c) =
      l.rowValue rows.layout.dataType c m := by
  have depths : rows.layout.dim 0 = depth l.weights.layout.shape l.bias := by
    rw [ht]
    exact dim_zero_rowsLayout ..
  have hcovers := l.covers_rows depths (by rw [ht]; exact batches_rowsLayout ..) hne
  refine (hcovers.load_launch hc (View.cell_fits fits hc)).trans (Nat.mod_eq_of_lt ?_)
  exact DataType.encode_lt _ _

theorem byte_unroll {rows : View} (ht : rows.layout =
      rowsLayout l.input.layout l.weights.layout l.output.layout l.bias)
    (hne : l.input.buffer ≠ rows.buffer) {b : BufferId} (hb : b ≠ rows.buffer) (j : Nat) :
    (l.unroll rows m).byte b j = m.byte b j :=
  (l.covers_rows (by rw [ht]; exact dim_zero_rowsLayout ..)
    (by rw [ht]; exact batches_rowsLayout ..) hne).byte_launch_buffer hb j

theorem load_deal {result : View} (hne : result.buffer ≠ l.output.buffer) (fits : l.output.Fits m)
    {c : Cell} (hc : l.output.layout.HasCell c) :
    let s := l.output.layout.shape.siteOf c
    l.output.load (l.deal result m) (l.output.layout.cell c) =
      l.output.layout.dataType.encode (result.loadValue m
        (result.layout.offset3 s.z (s.y * l.output.layout.shape.x + s.x) s.w)) :=
  View.load_launch (fun _ _ _ _ _ _ _ => loadValue_store_other hne) fits hc

theorem row_congr {m' : Memory} (h : ∀ j, m'.byte l.input.buffer j = m.byte l.input.buffer j)
    (x y batch : Nat) : l.row x y batch m' = l.row x y batch m := by
  simp only [row, View.loadValue_congr h]

theorem dim_matrixLayout (input weights : Layout) (bias : Option View) :
    (matrixLayout input weights bias).dim 0 = weights.shape.w ∧
      (matrixLayout input weights bias).dim 1 = depth weights.shape bias :=
  ⟨Shape.dim_ofList _ (by decide), Shape.dim_ofList _ (by decide)⟩

/-- The cell of the product that is dealt out to a cell of the output. -/
def dealt (l : GemmConvolution) (c : Cell) : Cell :=
  let s := l.output.layout.shape.siteOf c
  ⟨s.z, s.y * l.output.layout.shape.x + s.x, s.w⟩

theorem hasCell_dealt (hl : Convolvable l.input.layout l.weights.layout
      (l.bias.map View.layout) l.output.layout l.window) {c : Cell}
    (hc : l.output.layout.HasCell c) :
    (l.dealt c).x < l.weights.layout.shape.w ∧
      (l.dealt c).y < l.output.layout.shape.x * l.output.layout.shape.y ∧
      (l.dealt c).z < l.input.layout.shape.upperSize 3 := by
  obtain ⟨hx, hy, hz⟩ := Grid.mem_items.1 (Layout.mem_grid_items.2 hc)
  dsimp only [Shape.grid] at hx hy hz
  have hpos : 0 < l.output.layout.shape.z := Nat.pos_of_mul_pos_right (Nat.zero_lt_of_lt hz)
  refine ⟨?_, ?_, ?_⟩
  · exact Nat.lt_of_lt_of_eq (Nat.mod_lt c.z hpos) hl.features
  · rw [Nat.mul_comm]
    exact row_lt hx hy
  · rw [← hl.batches]
    exact Nat.div_lt_of_lt_mul hz

section Prepared

variable {s : Scope} {d₂ : Device} {groups : List ScratchGroup}

theorem Configured.layout_rows (hl : l.Configured p) : l.scratch.layouts[rowsSlot]? =
    some (rowsLayout l.input.layout l.weights.layout l.output.layout l.bias) := by
  rw [hl.layouts]
  rfl

theorem Configured.layout_product (hl : l.Configured p) : l.scratch.layouts[productSlot]? =
    some (productLayout l.input.layout l.weights.layout l.output.layout) := by
  rw [hl.layouts]
  rfl

theorem byte_unrolled (hl : l.Configured p) (ho : d.Opened busy l.scratch groups s d₂)
    (hb : busy l.input.buffer) {x : BufferId} (hx : busy x) (j : Nat) :
    (l.unroll (s.view rowsSlot) d₂.memory).byte x j = d.memory.byte x j :=
  (l.byte_unroll (ho.view_layout hl.layout_rows) (ho.view_ne hl.layout_rows hb)
    (ho.view_ne hl.layout_rows hx) j).trans (ho.byte x j)

theorem operands_unrolled (hl : l.Configured p) (hd : d.Stocks busy (l.scratch :: groups))
    (ho : d.Opened busy l.scratch groups s d₂) (hb : l.Buffers busy d.memory) :
    l.product.Operands (Device.Using busy s.blocks) (s.view rowsSlot) l.matrix
      (s.view productSlot) (l.unroll (s.view rowsSlot) d₂.memory) := by
  have h0 := hl.layout_rows
  have h1 := hl.layout_product
  have grows := l.grows_unroll (s.view rowsSlot) d₂.memory
  have unrolled {x : BufferId} (hx : busy x) := byte_unrolled hl ho hb.input hx
  exact {
    busy_a := ho.view_using h0
    busy_b := .inl hb.matrix
    busy_t := ho.view_using h1
    a_ne := ho.view_apart h0 h1 Nat.zero_lt_one
    b_ne := ho.view_ne h1 hb.matrix
    fits := (ho.fits_view h1).grow grows (ho.view_present h1)
    kept := fun k hk => by
      obtain ⟨hbusy, hne, hfits⟩ := hb.kept k hk
      exact ⟨.inl hbusy, ho.view_ne h0 hbusy, hne, ho.view_ne h1 hbusy,
        (hfits.grow ho.grows (hd.present _ hbusy)).grow grows (ho.stocks.present _ (.inl hbusy))⟩
    current := hb.current.congr (unrolled hb.matrix) fun k hk => unrolled (hb.kept k hk).1 }

/-- An element of the product: a row of the unrolled input times a column of the matrix. -/
theorem element_unrolled (α : Type) [Element α] (hl : l.Configured p)
    (ho : d.Opened busy l.scratch groups s d₂) (hinput : busy l.input.buffer)
    (hmatrix : busy l.matrix.buffer) {first : Memory} (hm : l.Remembers first d.memory)
    {c : Cell} (hx : c.x < l.weights.layout.shape.w)
    (hy : c.y < l.output.layout.shape.x * l.output.layout.shape.y)
    (hz : c.z < l.input.layout.shape.upperSize 3) (g : Target) :
    let rows := s.view rowsSlot
    let t := l.input.layout.dataType
    (Multiply.plain rows.layout l.matrix.layout (s.view productSlot).layout .one g).element α
        rows.buffer l.matrix.buffer c (l.unroll rows d₂.memory) =
      Element.narrow t.frac (dot (g.mac t.frac)
        (fun k => t.element α ((l.row (c.y % l.output.layout.shape.x)
          (c.y / l.output.layout.shape.x) c.z d.memory).getD k .zero))
        (fun k => t.element α ((l.column (biasValues l.bias first) c.x first).getD k .zero))
        (depth l.weights.layout.shape l.bias) (Element.accZero t.frac)) := by
  have hrows := ho.view_layout hl.layout_rows
  have unrolled {x : BufferId} (hx : busy x) := byte_unrolled hl ho hinput hx
  have hdepth : (s.view rowsSlot).layout.dim 0 = depth l.weights.layout.shape l.bias := by
    rw [hrows]
    exact dim_zero_rowsLayout ..
  have rowsType : (s.view rowsSlot).layout.dataType = l.input.layout.dataType := by rw [hrows]; rfl
  have matrixType : l.matrix.layout.dataType = l.input.layout.dataType := by rw [hl.matrix]; rfl
  have resultType : (s.view productSlot).layout.dataType = l.input.layout.dataType := by
    rw [ho.view_layout hl.layout_product]
    rfl
  obtain ⟨hwidth, hheight⟩ := dim_matrixLayout l.input.layout l.weights.layout l.bias
  have hone : l.matrix.layout.batches = 1 := by
    rw [hl.matrix]
    exact Layout.batches_matrix ..
  rw [← hl.matrix] at hwidth hheight
  intro rows t
  have words := Multiply.element_of_words (α := α) (a := rows) (b := l.matrix)
    (t := s.view productSlot) (m := l.unroll rows d₂.memory) (g := g) (c := c)
    (fun k => t.encode ((l.row (c.y % l.output.layout.shape.x)
      (c.y / l.output.layout.shape.x) c.z d.memory).getD k .zero))
    (fun k => t.encode ((l.column (biasValues l.bias first) c.x first).getD k .zero))
    (fun k hk => ?_) (fun k hk => ?_)
  · rw [words, resultType, hdepth]
    rfl
  · rw [load_unroll hrows (ho.view_ne hl.layout_rows hinput) (ho.fits_view hl.layout_rows),
      rowValue, row_congr (ho.byte _), rowsType]
    rw [hrows]
    exact Layout.hasCell_packed.2 ⟨hdepth ▸ hk, hy, hz⟩
  · rw [View.load_congr (unrolled hmatrix), hm ⟨c.x, k, c.z % l.matrix.layout.batches⟩ ⟨?_, ?_, ?_⟩,
      columnValue, matrixType]
    · exact Nat.lt_of_lt_of_eq hx hwidth.symm
    · exact Nat.lt_of_lt_of_eq (hdepth ▸ hk) hheight.symm
    · exact Nat.mod_lt _ (hone ▸ Nat.one_pos)

end Prepared

theorem byte_deal {result : View} (hne : result.buffer ≠ l.output.buffer) {x : BufferId}
    (hx : x ≠ l.output.buffer) (j : Nat) : (l.deal result m).byte x j = m.byte x j := by
  have covers := View.covers_sites (v := l.output)
    (f := fun s m => result.loadValue m
      (result.layout.offset3 s.z (s.y * l.output.layout.shape.x + s.x) s.w))
    fun _ _ _ _ _ _ _ => loadValue_store_other hne
  rw [deal, Shape.launch_eq]
  exact covers.byte_launch_buffer hx j

/-- A run with the weights and the bias of `first` in the matrix: the convolution of the input with
them, and what else became of memory. -/
structure Convolved (l : GemmConvolution) (busy : BufferId → Prop) (g : Target) (α : Type)
    [Element α] (first m m' : Memory) : Prop where
  load : ∀ c, l.output.layout.HasCell c → l.output.load m' (l.output.layout.cell c) =
    convolvedWord α g l.window l.input l.weights l.bias m first (l.output.layout.shape.siteOf c)
  byte : ∀ x, busy x → x ≠ l.output.buffer → (∀ k ∈ l.product.kept?, x ≠ k.tensor.buffer) →
    ∀ j, m'.byte x j = m.byte x j
  current : l.matrix.buffer ≠ l.output.buffer →
    (∀ k ∈ l.product.settle.kept?, k.tensor.buffer ≠ l.output.buffer) →
    l.product.settle.Current l.matrix.buffer m'

theorem run_prepared_spec {α : Type} [Element α] (hl : l.Configured p)
    (hα : Dispatched l.input.layout.dataType.kind α) (done : l.prepared = true)
    (hd : d.Stocks busy [l.scratch, l.product.scratch]) (hb : l.Buffers busy d.memory)
    {first : Memory} (hm : l.Remembers first d.memory) :
    l.Convolved busy p.config.target α first d.memory (l.run d).2.memory := by
  have ho := hd.opened
  have hops := operands_unrolled hl hd ho hb
  rw [run_prepared_eq done]
  generalize (l.scratch.acquire d).1 = s, (l.scratch.acquire d).2 = d₂ at ho hops ⊢
  dsimp only
  have hrows := ho.view_layout hl.layout_rows
  have hresult := ho.view_layout hl.layout_product
  have result_ne := (ho.view_ne hl.layout_product hb.output).symm
  have resultType : (s.view productSlot).layout.dataType = l.input.layout.dataType := by
    rw [hresult]
    rfl
  have produced := MatrixProduct.run_spec (α := α) hl.carries
    (by rw [hrows, hresult]; exact hl.kernels)
    (by rw [hrows, hresult]; exact hl.multipliable) (by rw [resultType]; exact hα)
    (ho.stocks.onMemory (l.grows_unroll ..)) hops
  have unrolled := l.grows_unroll (s.view rowsSlot) d₂.memory
  have output_fits := ((hb.fits.grow ho.grows (hd.present _ hb.output)).grow unrolled
    (ho.stocks.present _ (.inl hb.output))).grow produced.grows
      ((ho.stocks.onMemory unrolled).present _ (.inl hb.output))
  constructor
  · intro c hc
    obtain ⟨hx, hy, hz⟩ := hasCell_dealt hl.fits hc
    have hload := produced.load (l.dealt c)
      (by rw [hresult]; exact Layout.hasCell_packed.2 ⟨hx, hy, hz⟩)
    have element := element_unrolled α hl ho hb.input hb.matrix hm hx hy hz p.config.target
    have hbias : ∀ b ∈ l.bias, (l.dealt c).x < b.layout.shape.size := by
      intro b hb
      rw [hl.fits.bias _ (Option.mem_map_of_mem _ hb)]
      exact hx
    have position : (l.dealt c).y = c.x + l.output.layout.shape.x * c.y := by
      rw [dealt, Shape.siteOf, Nat.add_comm, Nat.mul_comm]
    have inside : c.x < l.output.layout.shape.x := hc.1
    rw [load_deal result_ne output_fits hc, hl.fits.outputType, View.loadValue, resultType]
    refine congrArg (fun w => DataType.encode _ (DataType.decode _ w)) (hload.trans ?_)
    refine congrArg Element.toWord (element.trans (congrArg (Element.narrow _) ?_))
    rw [dot_row_column α _ hbias, position, radix_mod inside, radix_div inside]
    rfl
  · intro x hx hxo hxk j
    rw [byte_deal result_ne hxo, produced.byte x (.inl hx)
      (ho.view_ne hl.layout_product hx) hxk]
    exact byte_unrolled hl ho hb.input hx j
  · intro matrix_ne kept_ne
    rw [MatrixProduct.run_fst] at produced
    exact produced.current.congr (byte_deal result_ne matrix_ne)
      fun k hk => byte_deal result_ne (kept_ne k hk)

/-! ### The first run -/

/-- A convolution that has not been run yet, its tensors in use and its own ones apart. -/
structure Fresh (l : GemmConvolution) (busy : BufferId → Prop) (m : Memory) : Prop where
  prepared : l.prepared = false
  input : busy l.input.buffer
  output : busy l.output.buffer
  matrix : busy l.matrix.buffer
  input_ne : l.input.buffer ≠ l.matrix.buffer
  weights_ne : l.weights.buffer ≠ l.matrix.buffer
  kept : ∀ k ∈ l.product.kept?, busy k.tensor.buffer ∧ k.tensor.buffer ≠ l.matrix.buffer ∧
    k.tensor.Fits m
  unreshaped : ∀ k ∈ l.product.kept?, k.done = false
  fits : l.output.Fits m
  matrix_fits : l.matrix.Fits m

/-- Stores the weights' matrix. -/
def columnLaunch (l : GemmConvolution) (m : Memory) : Memory :=
  (⟨l.weights.layout.shape.w, 1, 1⟩ : Grid).launch (l.columnItem (biasValues l.bias m)) m

theorem run_unprepared (h : l.prepared = false) (d : Device) :
    l.run d = { l with prepared := true }.run (d.onMemory l.columnLaunch) := by
  simp only [run, prepare, h, Bool.false_eq_true, if_false, if_true]
  rfl

theorem grows_columnLaunch (l : GemmConvolution) (m : Memory) : m.Grows (l.columnLaunch m) :=
  .launch (fun _ _ => .foldl (fun m _ => View.grows_store _ m _ _) _ _) m

theorem covers_matrix (hl : l.Configured p) (hne : l.weights.buffer ≠ l.matrix.buffer)
    (m : Memory) :
    Covers l.matrix ⟨l.weights.layout.shape.w, 1, 1⟩ (l.columnItem (biasValues l.bias m))
      l.matrix.layout.cell (l.columnValue (biasValues l.bias m)) l.matrix.layout.HasCell
      (fun item => (List.range (depth l.weights.layout.shape l.bias)).map
        fun i => ⟨item.x, i, 0⟩) (fun c => ⟨c.x, 0, 0⟩) := by
  have dims := dim_matrixLayout l.input.layout l.weights.layout l.bias
  have one : l.matrix.layout.batches = 1 := by
    rw [hl.matrix]
    exact Layout.batches_matrix ..
  rw [← hl.matrix] at dims
  exact l.covers_columns dims.1 dims.2 one hne m

theorem byte_columnLaunch (hl : l.Configured p) (hne : l.weights.buffer ≠ l.matrix.buffer)
    {x : BufferId} (hx : x ≠ l.matrix.buffer) (j : Nat) :
    (l.columnLaunch m).byte x j = m.byte x j :=
  (covers_matrix hl hne m).byte_launch_buffer hx j

/-- The matrix is made of the weights and the bias as they are then. -/
theorem remembers_columnLaunch (hl : l.Configured p) (hne : l.weights.buffer ≠ l.matrix.buffer)
    (fits : l.matrix.Fits m) : l.Remembers m (l.columnLaunch m) := by
  intro c hc
  refine ((covers_matrix hl hne m).load_launch hc (View.cell_fits fits hc)).trans ?_
  exact Nat.mod_eq_of_lt (DataType.encode_lt _ _)

theorem loadValue_run_first (hl : l.Configured p) (single : l.input.layout.dataType = .f32)
    (hd : d.Stocks busy [l.scratch, l.product.scratch]) (hf : l.Fresh busy d.memory) {c : Cell}
    (hc : l.output.layout.HasCell c) :
    l.output.loadValue (l.run d).2.memory (l.output.layout.cell c) =
      convolved p.config.target l.window l.input l.weights l.bias d.memory
        (l.output.layout.shape.siteOf c) := by
  have grows := l.grows_columnLaunch d.memory
  have hl' : { l with prepared := true }.Configured p :=
    ⟨hl.fits, hl.matrix, hl.layouts, hl.carries, hl.kernels, hl.multipliable⟩
  have hb : { l with prepared := true }.Buffers busy (l.columnLaunch d.memory) := {
    input := hf.input
    output := hf.output
    matrix := hf.matrix
    kept := fun k hk => by
      obtain ⟨hbusy, hne, fits⟩ := hf.kept k hk
      exact ⟨hbusy, hne, fits.grow grows (hd.present _ hbusy)⟩
    fits := hf.fits.grow grows (hd.present _ hf.output)
    -- no earlier run has reshaped the matrix, which may hold anything
    current := .of_undone hf.unreshaped _ _ }
  have remembers := remembers_columnLaunch hl hf.weights_ne hf.matrix_fits
  have word := (run_prepared_spec (α := Binary32) hl' (by rw [single]; exact .binary32) rfl
    (hd.onMemory grows) hb remembers).load c hc
  have input := byte_columnLaunch (m := d.memory) hl hf.weights_ne hf.input_ne
  rw [run_unprepared hf.prepared, View.loadValue_single (hl.fits.outputType.trans single)]
  refine (congrArg Element.ofWord (word.trans (convolvedWord_congr input ..))).trans ?_
  rw [convolvedWord, single, convolvedAs_single single]
  exact (Element.ofWord_toWord _).trans (Element.ofWord_toWord _)

/-! ### Setting up -/

/-- Scratch tensors of a convolution, its own and those of the product. -/
def groups (l : GemmConvolution) : List ScratchGroup := [l.scratch, l.product.scratch]

/-- Tensors of a convolution that last. -/
def lasting (l : GemmConvolution) : List Block := l.matrix.block :: l.product.lasting

theorem allocates_assemble (input weights : View) (bias : Option View) (output : View) (w : Window)
    (pooled : Bool) (p : ProductPlan) (m : Memory) :
    m.Allocates (assemble input weights bias output w pooled p m).2
      ((assemble input weights bias output w pooled p m).1.groups.flatMap ScratchGroup.owned ++
        (assemble input weights bias output w pooled p m).1.lasting) := by
  have product : m.Allocates (p.allocate true pooled m).2
      ((ScratchGroup.empty pooled).owned ++ (p.allocate true pooled m).1.blocks) :=
    (ProductPlan.allocates (.refl m) p true pooled).perm (.of_eq (List.append_nil _))
  have rows := ScratchGroup.allocates_manage product
    (rowsLayout input.layout weights.layout output.layout bias)
  have result := ScratchGroup.allocates_manage rows
    (productLayout input.layout weights.layout output.layout)
  refine (result.alloc (matrixLayout input.layout weights.layout bias).byteSize).perm ?_
  simp only [groups, List.flatMap_cons, List.flatMap_nil, List.append_nil, lasting,
    List.append_assoc]
  have last (xs ys zs : List Block) (b : Block) :
      (b :: (xs ++ (ys ++ zs))).Perm (xs ++ (ys ++ b :: zs)) := by
    rw [← List.append_assoc, ← List.append_assoc]
    exact List.perm_middle.symm
  exact last ..

theorem ready_assemble (input weights : View) (bias : Option View) (output : View) (w : Window)
    (pooled : Bool) (p : ProductPlan) (m : Memory) :
    ∀ g ∈ (assemble input weights bias output w pooled p m).1.groups, g.Ready := by
  refine List.forall_mem_cons.2 ⟨?_, List.forall_mem_cons.2 ⟨p.allocate_ready true pooled m, ?_⟩⟩
  · exact ((ScratchGroup.ready_empty pooled).manage _ _).manage _ _
  · simp

/-- A convolution that was just set up has not been run, on any later device. -/
theorem fresh_assemble {input weights output : View} {bias : Option View} {w : Window}
    {pooled : Bool} {d : Device} {busy : BufferId → Prop}
    (hl : (assemble input weights bias output w pooled p m).1 = l)
    (later : (assemble input weights bias output w pooled p m).2.Grows d.memory)
    (before : ∀ b, busy b → b < m.buffers.size) (hinput : busy input.buffer)
    (hweights : weights.buffer < m.buffers.size) (houtput : busy output.buffer)
    (fits : output.Fits d.memory) : l.Fresh (Device.Using busy l.lasting) d.memory := by
  have set := allocates_assemble input weights bias output w pooled p m
  have unreshaped := p.allocate_kept true pooled m
  have fields : l.input = input ∧ l.weights = weights ∧ l.output = output ∧ l.prepared = false ∧
      l.product = (p.allocate true pooled m).1 := hl ▸ ⟨rfl, rfl, rfl, rfl, rfl⟩
  rw [hl] at set
  obtain ⟨rfl, rfl, rfl, prepared, product⟩ := fields
  rw [← product] at unreshaped
  have holds := set.holds.sublist (List.sublist_append_right _ _)
  have fresh {b : Block} (hb : b ∈ l.lasting) : m.buffers.size ≤ b.buffer :=
    set.fresh b (List.mem_append_right _ hb)
  have hmatrix : l.matrix.block ∈ l.lasting := List.mem_cons_self
  have lasting_kept {k : KeptOperand} (hk : k ∈ l.product.kept?) : k.tensor.block ∈ l.lasting :=
    List.mem_cons_of_mem _ (List.mem_map_of_mem (Option.mem_toList.2 hk))
  exact {
    prepared
    input := .inl hinput
    output := .inl houtput
    matrix := .inr (List.mem_map_of_mem hmatrix)
    input_ne := Nat.ne_of_lt (Nat.lt_of_lt_of_le (before _ hinput) (fresh hmatrix))
    weights_ne := Nat.ne_of_lt (Nat.lt_of_lt_of_le hweights (fresh hmatrix))
    kept := fun k hk => ⟨.inr (List.mem_map_of_mem (lasting_kept hk)), fun he =>
      (List.nodup_cons.1 holds.distinct).1 (List.mem_map.2
        ⟨_, List.mem_map_of_mem (Option.mem_toList.2 hk), he⟩),
      View.fits_block ((holds.grow later).sized _ (lasting_kept hk))⟩
    unreshaped
    fits
    matrix_fits := View.fits_block ((holds.grow later).sized _ hmatrix) }

theorem grows_configure {input weights output : View} {bias : Option View} {w : Window}
    {pooled : Bool} {env : Environment} {m m' : Memory} {l : GemmConvolution}
    (h : configure input weights bias output w pooled env m = .ok (l, m')) : m.Grows m' := by
  rw [configure_eq] at h
  cases hp : plan input weights bias output w env with
  | error e => rw [hp] at h; cases h
  | ok p =>
    rw [hp] at h
    cases h
    exact (allocates_assemble input weights bias output w pooled p m).grows

theorem loadValue_configured {input weights output : View} {bias : Option View} {w : Window}
    {pooled : Bool} {env : Environment} {m m' : Memory} {l : GemmConvolution}
    (hl : configure input weights bias output w pooled env m = .ok (l, m'))
    (single : input.layout.dataType = .f32) (hinput : input.buffer < m.buffers.size)
    (hweights : weights.buffer < m.buffers.size) (houtput : output.buffer < m.buffers.size)
    {d : Device} (later : m'.Grows d.memory) (pool : d.memory.Holds d.pool.free)
    (outside : ∀ b ∈ d.pool.free, b.buffer < m.buffers.size ∨ m'.buffers.size ≤ b.buffer)
    (idle : ∀ b ∈ d.pool.free, b.buffer ≠ input.buffer ∧ b.buffer ≠ output.buffer)
    (fits : output.Fits d.memory) {pos : Coord} (hpos : output.layout.shape.Contains pos) :
    output.loadValue (l.run d).2.memory (output.layout.offset pos) =
      convolved env.target w input weights bias d.memory (output.layout.shape.siteAt pos) := by
  rw [configure_eq] at hl
  cases hp : plan input weights bias output w env with
  | error e => rw [hp] at hl; cases hl
  | ok p =>
    rw [hp] at hl
    obtain ⟨configured, target⟩ := plan_eq_ok hp pooled m
    have set := allocates_assemble input weights bias output w pooled p m
    have ready := ready_assemble input weights bias output w pooled p m
    have assembled : assemble input weights bias output w pooled p m = (l, m') := Except.ok.inj hl
    have fields : l.input = input ∧ l.weights = weights ∧ l.bias = bias ∧ l.output = output ∧
        l.window = w := by
      rw [← (Prod.mk.inj assembled).1]
      exact ⟨rfl, rfl, rfl, rfl, rfl⟩
    rw [assembled] at configured set ready
    let busy (b : BufferId) : Prop := b = input.buffer ∨ b = output.buffer
    have stocks : d.Stocks (Device.Using busy l.lasting) l.groups :=
      Device.stocks_later set ready later pool outside
        (by rintro b (rfl | rfl) <;> assumption)
        (fun b hb => not_or.2 (idle b hb))
    have fresh : l.Fresh (Device.Using busy l.lasting) d.memory :=
      fresh_assemble (congrArg Prod.fst assembled) (by rw [assembled]; exact later)
        (by rintro b (rfl | rfl) <;> assumption) (.inl rfl) hweights (.inr rfl) fits
    obtain ⟨rfl, rfl, rfl, rfl, rfl⟩ := fields
    rw [Layout.offset_eq_cell, ← Shape.siteOf_cellOf hpos, ← target]
    exact loadValue_run_first configured single stocks fresh hpos.cellOf

theorem run?_eq (words : InWords l.numbers) (d : Device) : l.run? d = .ok (l.run d) := by
  rw [run?, checkWords, inWords?_of _ words]
  rfl

theorem run?_fails (words : ¬InWords l.numbers) (d : Device) : l.run? d = .error .arithmetic := by
  rw [run?, checkWords, inWords?, if_neg words]
  rfl

end GemmConvolution
end TileCompute
