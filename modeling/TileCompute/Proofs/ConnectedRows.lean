import TileCompute.Proofs.KeptWeights
import TileCompute.Proofs.Outcomes

/-!
# TileCompute.Proofs.ConnectedRows

The rows of a fully connected layer. Without a bias a row of the output is a function of the same
row of the input and of the weights, whatever the number of rows: that number only decides which
path the product takes. So a layer for a single row, which is accepted wherever the layer for many
is, leaves the row that the other does.

* `ProductPlan.exists_make`: matrices that have a product have kernels for it on either path.
* `FullyConnected.exists_configure_iff`: which tensors a layer is accepted for.
* `fullyConnected_rows`: the rows of the output, and each of them alone.
-/

namespace TileCompute

/-! ### Accepted layers -/

/-- There are kernels for the product of matrices on any valid path. -/
theorem ProductPlan.exists_make {a b t : Layout} (hm : Multipliable a b t) (alpha beta : Binary32)
    {config : Config} (hv : config.path.Valid) :
    ∃ p, make a b none t alpha beta config = .ok p := by
  obtain ⟨target, path⟩ := config
  simp only [make, makeOn, bind_eq_ok, refuse_eq_ok, MatrixProduct.checkOperands_eq_ok,
    exists_const]
  cases path with
  | direct tile =>
    have accepted := Multiply.accepted_direct alpha target hm hv
    simp only [Config.packing?, bind_eq_ok, kernelFailure_eq_ok, Machine.exact_multiply,
      refuse_eq_ok, pure_eq_ok]
    exact ⟨_, ⟨hm.depth.symm, hm.rows, hm.columns⟩, _, Multiply.configure_eq_ok.2 ⟨rfl, accepted⟩,
      none, rfl, rfl⟩
  | reshaped h v =>
    have left : ((Arrangement.interleaved v).packing a.dataType).Valid :=
      Packing.valid_ofType.2 ⟨Nat.one_ne_zero, Nat.ne_of_gt hv.2⟩
    have right : ((Arrangement.blockTransposed h).packing b.dataType).Valid :=
      Packing.valid_ofType.2 ⟨Nat.ne_of_gt hv.1, Nat.one_ne_zero⟩
    have interleave := Reshape.accepted_output left
    have transpose := Reshape.accepted_output right
    have multiply := Multiply.accepted_reshaped alpha target hm interleave transpose
    simp only [Config.packing?, bind_eq_ok, kernelFailure_eq_ok, Machine.exact_outputLayout,
      Machine.exact_reshape, Machine.exact_multiply, refuse_eq_ok, raise_eq_ok, pure_eq_ok]
    exact ⟨_, ⟨hm.depth.symm, hm.rows, hm.columns⟩, _, Reshape.outputLayout_eq left,
      _, Reshape.outputLayout_eq right, _, Reshape.configure_eq_ok.2 ⟨rfl, interleave⟩,
      _, Reshape.configure_eq_ok.2 ⟨rfl, transpose⟩,
      _, Multiply.configure_eq_ok.2 ⟨rfl, multiply⟩, none, rfl, rfl⟩

/-- The tensor of one row. -/
def View.vector (b : BufferId) (n : Nat) (t : DataType) : View := ⟨b, .packed (.ofList [n]) t⟩

theorem Shape.size_vector (n : Nat) : (ofList [n]).size = n := by
  simp [size, product, dim_ofList]

theorem Shape.size_matrix (x y : Nat) : (ofList [x, y]).size = x * y := by
  simp [size, product, dim_ofList]

namespace FullyConnected

variable {input weights output : View} {bias : Option View} {pooled : Bool} {env : Environment}
  {m : Memory}

theorem checkShapes_eq_ok {i w o : Shape} {u : Unit} : checkShapes i w o = .ok u ↔
    w.x = inputs i o ∧ w.y = outputs o ∧ inputs i o * batches o = i.size := by
  simp only [checkShapes]
  split <;> simp [*]

theorem batches_vector (n : Nat) : batches (.ofList [n]) = 1 := by
  simp [batches, Shape.upperSize, Shape.product, Shape.dim_ofList]

theorem outputs_vector (n : Nat) : outputs (.ofList [n]) = n :=
  Shape.dim_ofList (d := 0) _ (by decide)

theorem inputs_vector (n k : Nat) : inputs (.ofList [n]) (.ofList [k]) = n := by
  rw [inputs, batches_vector, Shape.size_vector, Nat.max_self, Nat.div_one]

/-- Floating-point tensors that fit together, the input and the output without a border and the
weights a single plane. -/
structure Connectable (input weights : Layout) (bias : Option Layout) (output : Layout) : Prop where
  float : input.dataType.isFloatingPoint
  weightsType : input.dataType = weights.dataType
  outputType : input.dataType = output.dataType
  width : weights.shape.x = inputs input.shape output.shape
  height : weights.shape.y = outputs output.shape
  rows : inputs input.shape output.shape * batches output.shape = input.shape.size
  bias : ∀ b ∈ bias, input.dataType = b.dataType ∧ b.shape.size = outputs output.shape
  borderless : input.isContiguous ∧ output.isContiguous
  onePlane : weights.batches = 1

/-- The vectors of one row fit wherever the whole tensors do. -/
theorem Connectable.vector {i w o : Layout} {b : Option Layout} (h : Connectable i w b o)
    (bi bo : BufferId) :
    Connectable (View.vector bi (inputs i.shape o.shape) i.dataType).layout w none
      (View.vector bo (outputs o.shape) i.dataType).layout where
  float := h.float
  weightsType := h.weightsType
  outputType := rfl
  width := h.width.trans (inputs_vector ..).symm
  height := h.height.trans (outputs_vector _).symm
  rows := by
    rw [View.vector, View.vector, Layout.packed, Layout.packed, inputs_vector, batches_vector,
      Shape.size_vector, Nat.mul_one]
  bias := by simp
  borderless := ⟨rfl, rfl⟩
  onePlane := h.onePlane

theorem Connectable.check {i w o : Layout} {b : Option Layout} (h : Connectable i w b o) :
    check i w b o = .ok () := by
  simp only [FullyConnected.check, bind_eq_ok, checkFloat_eq_ok, checkSameType_eq_ok,
    checkShapes_eq_ok, checkBias_eq_ok, exists_const]
  exact ⟨h.float, h.weightsType, h.outputType, ⟨h.width, h.height, h.rows⟩, h.bias⟩

/-- The input as a matrix, a row to each row of the output. -/
def inputMatrix (i o : Layout) : Layout :=
  .packed (.ofList [inputs i.shape o.shape, batches o.shape]) i.dataType

def outputMatrix (o : Layout) : Layout :=
  .packed (.ofList [outputs o.shape, batches o.shape]) o.dataType

def transposedWeights (w : Layout) : Layout := .packed (Arrangement.transposed.shape w) w.dataType

theorem Connectable.multipliable {i w o : Layout} {b : Option Layout} (h : Connectable i w b o) :
    Multipliable (inputMatrix i o) (transposedWeights w) (outputMatrix o) where
  kind := by
    obtain ⟨_, _, dispatched⟩ := Dispatched.exists_of_isFloatingPoint h.float
    exact dispatched.ne_s32
  bType := h.weightsType.symm
  targetType := h.outputType.symm
  depth := by
    rw [inputMatrix, Layout.dim_zero_matrix]
    exact (Arrangement.shape_transposed_y w).trans h.width
  rows := (Layout.dim_one_matrix ..).trans (Layout.dim_one_matrix ..).symm
  columns := by
    rw [outputMatrix, Layout.dim_zero_matrix]
    exact (Arrangement.shape_transposed_x w).trans h.height
  aBatches := (Layout.batches_matrix ..).trans (Layout.batches_matrix ..).symm
  bBatches_pos := (h.onePlane ▸ Arrangement.batches_shape _ w).ge
  bBatches_le := (h.onePlane ▸ Arrangement.batches_shape _ w).le.trans (Nat.le_max_right ..)

theorem connectable_of_plan {p : Plan} (hp : plan input weights bias output env = .ok p) :
    Connectable input.layout weights.layout (bias.map View.layout) output.layout := by
  have planned := plan_eq_ok hp
  obtain ⟨_, checked, -⟩ := bind_eq_ok.1 hp
  simp only [refuse_eq_ok, FullyConnected.check, bind_eq_ok, checkFloat_eq_ok,
    checkSameType_eq_ok, checkShapes_eq_ok, checkBias_eq_ok, exists_const] at checked
  obtain ⟨float, weightsType, outputType, ⟨width, height, rows⟩, biasFits⟩ := checked
  -- the matrix has as many planes as the weights, and not more than the output, which has one
  have accepted := planned.accepted
  rw [planned.transpose] at accepted
  obtain ⟨-, -, planes⟩ := accepted.extents_transposed
  have one : p.output.layout.batches = 1 := by
    rw [← (View.reinterpret_eq_ok.1 planned.result).2]
    exact Layout.batches_matrix ..
  have most := planned.multipliable.bBatches_le
  have least := planned.multipliable.bBatches_pos
  rw [one, planes] at most
  rw [planes] at least
  exact ⟨float, weightsType, outputType, width, height, rows, biasFits,
    ⟨(View.reinterpret_eq_ok.1 planned.rows).1.1, (View.reinterpret_eq_ok.1 planned.result).1.1⟩,
    Nat.le_antisymm most least⟩

theorem Connectable.exists_plan
    (h : Connectable input.layout weights.layout (bias.map View.layout) output.layout)
    (env : Environment) : ∃ p, plan input weights bias output env = .ok p := by
  have valid : (Arrangement.transposed.packing weights.layout.dataType).Valid :=
    Packing.valid_ofType.2 ⟨Nat.one_ne_zero, Nat.one_ne_zero⟩
  have rows := View.reinterpret_eq_ok.2
    ⟨⟨h.borderless.1, (Shape.size_matrix ..).trans h.rows⟩, rfl⟩
  have result := View.reinterpret_eq_ok.2
    ⟨⟨h.borderless.2, Shape.size_matrix (outputs output.layout.shape)
      (batches output.layout.shape)⟩, rfl⟩
  -- the built-in table has a valid path whatever the number of rows
  have path := env.valid_lookup input.layout.dataType
    ((outputMatrix output.layout).dim 1)
  obtain ⟨product, made⟩ := ProductPlan.exists_make h.multipliable .one .zero path
  simp only [plan, bind_eq_ok, refuse_eq_ok, raise_eq_ok, MatrixProduct.kernelResult_eq_ok,
    pure_eq_ok]
  exact ⟨_, _, h.check, _, rows, _, result, _, Reshape.outputLayout_eq valid, _,
    Reshape.configure_eq_ok.2 ⟨rfl, Reshape.accepted_output valid⟩, product, made, rfl⟩

theorem exists_configure_iff :
    (∃ l m', configure input weights bias output pooled env m = .ok (l, m')) ↔
      Connectable input.layout weights.layout (bias.map View.layout) output.layout := by
  rw [configure_eq]
  constructor
  · rintro ⟨l, m', configured⟩
    obtain ⟨p, hp, -⟩ := map_eq_ok.1 configured
    exact connectable_of_plan hp
  · intro h
    obtain ⟨p, hp⟩ := h.exists_plan env
    exact ⟨_, _, congrArg (Except.map fun p => assemble weights bias pooled p m) hp⟩

end FullyConnected

/-! ### Rows -/

/-- A word of the output without a bias, by the words of its row of the input: the dot product with
the weights of one output, in the accumulator of the element type. -/
def rowWord (α : Type) [Element α] (g : Target) (t : DataType) (row : List Nat) (weights : View)
    (m : Memory) (column : Nat) : Nat :=
  let product : α := Element.narrow t.frac <| dot (g.mac t.frac)
    (fun i => Element.ofWord (row.getD i 0))
    (fun i => Element.ofWord (weights.load m (weights.layout.offset2 i column)))
    weights.layout.shape.x (Element.accZero t.frac)
  Element.toWord product

theorem connectedWord_eq_rowWord (α : Type) [Element α] (g : Target) (input weights : View)
    (now first : Memory) (row column : Nat) :
    connectedWord α g input weights none now first row column =
      rowWord α g input.layout.dataType
        (matrixAt (input.words now) weights.layout.shape.x row) weights first column := by
  unfold connectedWord rowWord
  refine congrArg (fun s => Element.toWord (Element.narrow _ s)) (dot_congr ?_ fun _ _ => rfl)
  intro i hi
  rw [List.getD_eq_getElem?_getD, List.getD_eq_getElem?_getD, getElem?_matrixAt hi]

/-- Of the weights, the elements are read. -/
theorem rowWord_congr {weights weights' : View} {m m' : Memory}
    (layout : weights'.layout = weights.layout) (words : weights'.words m' = weights.words m)
    (planes : 0 < weights.layout.batches) {column : Nat} (hcolumn : column < weights.layout.shape.y)
    (α : Type) [Element α] (g : Target) (t : DataType) (row : List Nat) :
    rowWord α g t row weights' m' column = rowWord α g t row weights m column := by
  obtain ⟨b, l⟩ := weights
  obtain ⟨b', l'⟩ := weights'
  cases layout
  refine congrArg (fun s => Element.toWord (Element.narrow _ s)) (dot_congr (fun _ _ => rfl) ?_)
  intro i hi
  have cell : l.HasCell ⟨i, column, 0⟩ := ⟨hi, hcolumn, planes⟩
  have word := View.getElem?_words (v := ⟨b, l⟩) m cell
  rw [← words, View.getElem?_words (v := ⟨b', l⟩) m' cell, Layout.cell_first] at word
  exact congrArg Element.ofWord (Option.some.inj word)

namespace FullyConnected

variable {input weights output : View} {bias : Option View} {env : Environment} {m : Memory}

/-- A layer as it was configured, for tensors that are on the device and an output in another buffer
than what every run reads. -/
structure Deployed (env : Environment) (input weights : View) (bias : Option View) (output : View)
    (d : Device) (l : FullyConnected) (m : Memory) : Prop where
  configured : ∃ pooled, configure input weights bias output pooled env d.memory = .ok (l, m)
  stocked : d.Stocks (· ∈ ([input, weights, output] ++ bias.toList).map View.buffer) []
  input_ne : input.buffer ≠ output.buffer
  bias_ne : ∀ b ∈ bias, b.buffer ≠ output.buffer
  fits : output.Fits d.memory

/-- From a layer on a device to a later point of its history. -/
def Reaches (l : FullyConnected) (d : Device) :
    FullyConnected → Device → Option Memory → Prop :=
  WeightHistory prepare run (Layer.fullyConnected l).lasting l d

namespace Deployed

variable {l s : FullyConnected} {d e : Device} {first : Option Memory}

theorem connectable (h : Deployed env input weights bias output d l m) :
    Connectable input.layout weights.layout (bias.map View.layout) output.layout := by
  obtain ⟨pooled, configured⟩ := h.configured
  exact exists_configure_iff.1 ⟨l, m, configured⟩

theorem words_run (h : Deployed env input weights bias output d l m) {α : Type} [Element α]
    (hα : Dispatched input.layout.dataType.kind α) (later : l.Reaches ⟨m, d.pool⟩ s e first) :
    output.words (s.run e).2.memory = (List.range output.layout.shape.size).map fun j =>
      connectedWord α env.target input weights bias e.memory (first.getD e.memory)
        (j / output.layout.dim 0) (j % output.layout.dim 0) := by
  obtain ⟨pooled, configured⟩ := h.configured
  exact (keepsWeights configured h.stocked h.input_ne h.bias_ne h.fits hα).run_words later

theorem row_run (h : Deployed env input weights bias output d l m) {α : Type} [Element α]
    (hα : Dispatched input.layout.dataType.kind α) (later : l.Reaches ⟨m, d.pool⟩ s e first)
    {row : Nat} (hrow : row < batches output.layout.shape) :
    matrixAt (output.words (s.run e).2.memory) (outputs output.layout.shape) row =
      (List.range (outputs output.layout.shape)).map
        (connectedWord α env.target input weights bias e.memory (first.getD e.memory) row) := by
  rw [h.words_run hα later]
  exact matrixAt_map_range _ hrow _

/-- Without a bias, a row of the output by the same row of the input. -/
theorem unbiased_row_run (h : Deployed env input weights none output d l m) {α : Type} [Element α]
    (hα : Dispatched input.layout.dataType.kind α) (later : l.Reaches ⟨m, d.pool⟩ s e first)
    {row : Nat} (hrow : row < batches output.layout.shape) :
    matrixAt (output.words (s.run e).2.memory) (outputs output.layout.shape) row =
      (List.range (outputs output.layout.shape)).map
        (rowWord α env.target input.layout.dataType
          (matrixAt (input.words e.memory) (inputs input.layout.shape output.layout.shape) row)
          weights (first.getD e.memory)) := by
  rw [h.row_run hα later hrow, ← h.connectable.width]
  exact List.map_congr_left fun column _ => connectedWord_eq_rowWord ..

theorem vector_run {i o : BufferId} {count width : Nat} {t : DataType}
    (h : Deployed env (.vector i count t) weights none (.vector o width t) d l m) {α : Type}
    [Element α] (hα : Dispatched t.kind α) (later : l.Reaches ⟨m, d.pool⟩ s e first) :
    (View.vector o width t).words (s.run e).2.memory = (List.range width).map
      (rowWord α env.target t ((View.vector i count t).words e.memory) weights
        (first.getD e.memory)) := by
  have length {b n} (m : Memory) : ((View.vector b n t).words m).length = n :=
    (View.length_words ..).trans (Shape.size_vector n)
  have all : outputs (View.vector o width t).layout.shape = width := outputs_vector width
  have used : inputs (View.vector i count t).layout.shape (View.vector o width t).layout.shape =
      count := inputs_vector count width
  have only : 0 < batches (View.vector o width t).layout.shape := (batches_vector width).ge
  have row := h.unbiased_row_run hα later only
  rw [all, used, matrixAt_zero (length _), matrixAt_zero (length _)] at row
  exact row

end Deployed
end FullyConnected

open FullyConnected in
/-- Without a bias each row of the output is made of the same row of the input and of the weights
of the first call, on either path. For one such row alone there is always a layer, and whatever
was done with it before, it leaves the row that the layer for all rows leaves. -/
theorem fullyConnected_rows {env : Environment} {input weights output : View} {d : Device}
    {l : FullyConnected} {m : Memory} (h : Deployed env input weights none output d l m) :
    let t := input.layout.dataType
    let count := inputs input.layout.shape output.layout.shape
    let width := outputs output.layout.shape
    let rows := batches output.layout.shape
    (weights.layout.shape.x = count ∧ weights.layout.shape.y = width ∧
      count * rows = input.layout.shape.size) ∧
    ∃ (α : Type) (_ : Element α), Dispatched t.kind α ∧
      (∀ {s e first}, l.Reaches ⟨m, d.pool⟩ s e first → ∀ row < rows,
        matrixAt (output.words (s.run e).2.memory) width row = (List.range width).map
          (rowWord α env.target t (matrixAt (input.words e.memory) count row) weights
            (first.getD e.memory))) ∧
      ∀ {i w o : BufferId} {d' : Device}, d'.Stocks (· ∈ [i, w, o]) [] → i ≠ o →
        (View.vector o width t).Fits d'.memory → ∀ pooled, ∃ l' m',
          FullyConnected.configure (.vector i count t) ⟨w, weights.layout⟩ none
            (.vector o width t) pooled env d'.memory = .ok (l', m') ∧
          ∀ {s e first s' e' first'}, l.Reaches ⟨m, d.pool⟩ s e first →
            l'.Reaches ⟨m', d'.pool⟩ s' e' first' → ∀ row < rows,
            (View.vector i count t).words e'.memory = matrixAt (input.words e.memory) count row →
            View.words ⟨w, weights.layout⟩ (first'.getD e'.memory) =
              weights.words (first.getD e.memory) →
            (View.vector o width t).words (s'.run e').2.memory =
              matrixAt (output.words (s.run e).2.memory) width row := by
  intro t count width rows
  have hc := h.connectable
  obtain ⟨α, _, hα⟩ := Dispatched.exists_of_isFloatingPoint hc.float
  refine ⟨⟨hc.width, hc.height, hc.rows⟩, α, _, hα, fun later _ => h.unbiased_row_run hα later, ?_⟩
  intro i w o d' stocked hne fits pooled
  have made : ∃ l' m', FullyConnected.configure (.vector i count t) ⟨w, weights.layout⟩ none
      (.vector o width t) pooled env d'.memory = .ok (l', m') :=
    exists_configure_iff.2 (hc.vector i o)
  obtain ⟨l', m', configured⟩ := made
  have h' : Deployed env (.vector i count t) ⟨w, weights.layout⟩ none (.vector o width t) d' l'
      m' :=
    ⟨⟨pooled, configured⟩, stocked, hne, by simp, fits⟩
  refine ⟨l', m', configured, ?_⟩
  intro s e first s' e' first' later later' row hrow sameRow sameWeights
  rw [h'.vector_run hα later', sameRow, h.unbiased_row_run hα later hrow]
  refine List.map_congr_left fun column hcolumn => ?_
  have within : column < weights.layout.shape.y := by
    rw [hc.height]
    exact List.mem_range.1 hcolumn
  have planes : 0 < weights.layout.batches := by
    rw [hc.onePlane]
    exact Nat.one_pos
  have sameLayout : View.layout ⟨w, weights.layout⟩ = weights.layout := rfl
  exact rowWord_congr sameLayout sameWeights planes within ..

/-- Seventeen rows of two numbers are multiplied on the reshaped path and the last of them alone on
the direct one, with NaNs in the border of the weights. -/
theorem fullyConnected_rows_last :
    let input : View := ⟨0, .packed (.ofList [2, 17]) .f16⟩
    let weights : View := ⟨1, .ofList [2], .f16, ⟨0, 1, 0, 0⟩⟩
    let output : View := ⟨2, .packed (.ofList [1, 17]) .f16⟩
    let ones : Array UInt8 := #[0, 60, 0, 60, 255, 255]
    let d : Device := ⟨⟨#[(Array.range 68).map UInt8.ofNat, ones, .replicate 34 0]⟩, .empty⟩
    let d' : Device := ⟨⟨#[#[64, 65, 66, 67], ones, .replicate 2 0]⟩, .empty⟩
    ∃ l m l' m',
      FullyConnected.configure input weights none output true .unset d.memory = .ok (l, m) ∧
      FullyConnected.configure (.vector 0 2 .f16) weights none (.vector 2 1 .f16) true .unset
        d'.memory = .ok (l', m') ∧
      l.product.reshape.isSome ∧ l'.product.reshape.isNone ∧
      (View.vector 2 1 .f16).words (l'.run ⟨m', d'.pool⟩).2.memory =
        matrixAt (output.words (l.run ⟨m, d.pool⟩).2.memory) 1 16 := by
  intro input weights output ones d d'
  have many : (FullyConnected.configure input weights none output true .unset
      d.memory).toOption.any fun p => p.1.product.reshape.isSome ∧
        matrixAt (input.words p.2) 2 16 = [0x4140, 0x4342] ∧
        weights.words p.2 = [0x3c00, 0x3c00] := by decide +kernel
  have single : (FullyConnected.configure (.vector 0 2 .f16) weights none (.vector 2 1 .f16) true
      .unset d'.memory).toOption.any fun p => p.1.product.reshape.isNone ∧
        (View.vector 0 2 .f16).words p.2 = [0x4140, 0x4342] ∧
        weights.words p.2 = [0x3c00, 0x3c00] := by decide +kernel
  have stocked : d.Stocks (· ∈ [0, 1, 2]) [] := ⟨by decide, .nil _, by decide, by simp⟩
  have stocked' : d'.Stocks (· ∈ [0, 1, 2]) [] := ⟨by decide, .nil _, by decide, by simp⟩
  cases hl : FullyConnected.configure input weights none output true .unset d.memory with
  | error e => rw [hl] at many; cases many
  | ok made =>
    have h : FullyConnected.Deployed .unset input weights none output d made.1 made.2 :=
      ⟨⟨true, hl⟩, stocked, by decide, by simp, by decide⟩
    have count : FullyConnected.inputs input.layout.shape output.layout.shape = 2 := by decide
    have width : FullyConnected.outputs output.layout.shape = 1 := by decide
    obtain ⟨-, _, _, -, -, alone⟩ := fullyConnected_rows h
    simp only [count, width] at alone
    obtain ⟨l', m', configured, same⟩ := alone stocked' (by decide) (by decide) true
    have configured : FullyConnected.configure (.vector 0 2 .f16) weights none (.vector 2 1 .f16)
        true .unset d'.memory = .ok (l', m') := configured
    rw [hl] at many
    rw [configured] at single
    obtain ⟨reshaped, row, right⟩ := of_decide_eq_true many
    obtain ⟨direct, row', right'⟩ := of_decide_eq_true single
    exact ⟨made.1, made.2, l', m', rfl, configured, reshaped, direct,
      same .start .start 16 (by decide) (row'.trans row.symm) (right'.trans right.symm)⟩

end TileCompute
