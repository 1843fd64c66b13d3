import TileCompute.Proofs.Counterpart

/-!
# TileCompute.Proofs.Connected

A run of a fully connected layer. Input and output are seen as matrices, which has no effect on
their elements in order. An element of the output is a dot product of a row of the input and a row
of the weights, plus an element of the bias. The weights are looked at for the matrix of the
product; the bias is read on every run.

* `View.words_reinterpret`: a tensor seen through another shape.
* `connectedWord`: an element of the output, by its row and its column.
* `FullyConnected.run_prepared_spec`: what a run leaves.
-/

namespace TileCompute

theorem Layout.cell_first (l : Layout) (x y : Nat) : l.cell ⟨x, y, 0⟩ = l.offset2 x y := by
  rw [cell, offset3, Nat.zero_mul, Nat.add_zero]

theorem Layout.byteSize_contiguous {l : Layout} (h : l.isContiguous) :
    l.byteSize = l.elementSize * l.shape.size := by
  have none : l.padding = .none := by simpa [isContiguous] using h
  rw [byteSize_eq, Shape.size_eq, ← Nat.mul_assoc l.rowWidth]
  simp only [rowWidth, planeHeight, none, Padding.none, Nat.add_zero]
  rfl

/-! ### Tensors seen through another shape -/

namespace View

variable {v w : View} {s : Shape} {m : Memory}

theorem reinterpret_eq_ok : v.reinterpret s = .ok w ↔
    (v.layout.isContiguous ∧ s.size = v.layout.shape.size) ∧
      ⟨v.buffer, .packed s v.layout.dataType⟩ = w := by
  unfold reinterpret Layout.reinterpret
  split
  · next h => simp_all [kernelResult, bind, Except.bind]
  · split
    · next h => simp_all [kernelResult, bind, Except.bind]
    · next h h' => simp_all [kernelResult, bind, Except.bind, pure, Except.pure]

theorem type_reinterpret (h : v.reinterpret s = .ok w) :
    w.layout.dataType = v.layout.dataType := by
  obtain ⟨-, rfl⟩ := reinterpret_eq_ok.1 h
  rfl

theorem size_reinterpret (h : v.reinterpret s = .ok w) :
    w.layout.shape.size = v.layout.shape.size := by
  obtain ⟨⟨-, size⟩, rfl⟩ := reinterpret_eq_ok.1 h
  exact size

/-- Without a border the elements follow each other. -/
theorem words_contiguous (h : v.layout.isContiguous) (m : Memory) :
    v.words m = (List.range v.layout.shape.size).map fun i =>
      v.load m (v.layout.elementSize * i) := by
  have none : v.layout.padding = .none := by simpa [Layout.isContiguous] using h
  rw [words_eq_range]
  apply List.map_congr_left
  intro i _
  rw [Layout.cell_eq]
  congr 2
  simp only [Layout.place, Layout.rowWidth, Layout.planeHeight, none, Padding.none, Grid.item,
    Shape.planes, Nat.zero_add, Nat.add_zero]
  exact (congrArg (_ + _ * ·) (Nat.mod_add_div ..)).trans (Nat.mod_add_div ..)

theorem words_reinterpret (h : v.reinterpret s = .ok w) (m : Memory) : w.words m = v.words m := by
  obtain ⟨⟨contiguous, size⟩, rfl⟩ := reinterpret_eq_ok.1 h
  rw [words_contiguous contiguous, words_contiguous (v := ⟨v.buffer, _⟩) rfl]
  exact congrArg (fun n => (List.range n).map _) size

theorem fits_reinterpret (h : v.reinterpret s = .ok w) (fits : v.Fits m) : w.Fits m := by
  obtain ⟨⟨contiguous, size⟩, rfl⟩ := reinterpret_eq_ok.1 h
  refine Nat.le_trans (Nat.le_of_eq ?_) fits
  rw [Layout.byteSize_contiguous contiguous, Layout.byteSize_contiguous rfl, ← size]
  rfl

end View

/-! ### A run -/

/-- The word of a fully connected layer at a row and a column: a dot product in the accumulator of
the element type, and the sum with the bias as values. The input and the bias are read in one
memory and the weights in another. -/
def connectedWord (α : Type) [Element α] (g : Target) (input weights : View) (bias : Option View)
    (now first : Memory) (row column : Nat) : Nat :=
  let t := input.layout.dataType
  let inputs := weights.layout.shape.x
  let product : α := Element.narrow t.frac <| dot (g.mac t.frac)
    (fun i => Element.ofWord ((input.words now).getD (row * inputs + i) 0))
    (fun i => Element.ofWord (weights.load first (weights.layout.offset2 i column)))
    inputs (Element.accZero t.frac)
  match bias with
  | some b => t.encode
      (t.decode (Element.toWord product) + b.loadValue now (b.layout.offset2 column 0))
  | none => Element.toWord product

/-- Of the memory now, the input's elements and the bias are read. -/
theorem connectedWord_congr {α : Type} [Element α] {input input' weights : View}
    {bias : Option View} {now now' : Memory}
    (type : input'.layout.dataType = input.layout.dataType)
    (words : input'.words now' = input.words now)
    (hb : ∀ b ∈ bias, ∀ j, now'.byte b.buffer j = now.byte b.buffer j) (g : Target)
    (first : Memory) (row column : Nat) :
    connectedWord α g input' weights bias now' first row column =
      connectedWord α g input weights bias now first row column := by
  unfold connectedWord
  rw [type, words]
  cases bias with
  | none => rfl
  | some b => simp only [View.loadValue_congr (hb b rfl)]

namespace FullyConnected

variable {l : FullyConnected} {p : ProductPlan} {busy : BufferId → Prop} {d : Device}
  {m first : Memory}

/-- What holds of a configured layer, whether it has been run or not. -/
structure Configured (l : FullyConnected) (p : ProductPlan) : Prop where
  transpose : l.transpose = ⟨.transposed, l.weights.layout, l.matrix.layout⟩
  accepted : l.transpose.Accepted
  carries : l.product.Carries p
  kernels : p.Kernels l.input.layout l.matrix.layout l.output.layout .one
  multipliable : Multipliable l.input.layout l.matrix.layout l.output.layout
  onePlane : l.output.layout.batches = 1

/-- The matrix has the weights that are found in `first`. -/
def Remembers (l : FullyConnected) (first m : Memory) : Prop :=
  ∀ c, l.matrix.layout.HasCell c → l.matrix.load m (l.matrix.layout.cell c) =
    l.transpose.value l.weights.buffer c first

/-- The bias is added in place, one element to a work-item. -/
theorem covers_biasItem {b : View} (onePlane : l.output.layout.batches = 1)
    (hne : b.buffer ≠ l.output.buffer) :
    Covers l.output ⟨l.output.layout.shape.x, l.output.layout.shape.y, 1⟩ (l.biasItem b)
      l.output.layout.cell (fun c m => l.output.layout.dataType.encode
        (l.output.loadValue m (l.output.layout.cell c) +
          b.loadValue m (b.layout.offset2 c.x 0)))
      l.output.layout.HasCell (fun c => [c]) id := by
  constructor
  · have shares := (⟨l.output.layout.shape.x, l.output.layout.shape.y, 1⟩ : Grid).shares_items
    simp only [Grid.mem_items] at shares
    rw [GemmConvolution.hasCell_eq, onePlane]
    exact shares
  · constructor
    · exact fun _ _ hc hc' hne => Layout.cell_apart hc hc' hne
    · intro c c' hc hc' hne' m w
      have own := View.load_store_apart (m := m) w (Layout.cell_apart hc' hc hne'.symm)
      rw [View.loadValue, own, GemmConvolution.loadValue_store_other hne]
      rfl
  · -- the sum reads the element that it is stored to, and the bias in its own buffer
    intro c hc m
    have plane : c.z = 0 := Nat.lt_one_iff.1 (Grid.mem_items.1 hc).2.2
    obtain ⟨x, y, z⟩ := c
    cases plane
    rw [View.fill_cons, View.fill_nil, Layout.cell_first]
    rfl

theorem load_addBias {b : View} (onePlane : l.output.layout.batches = 1) (hb : l.bias = some b)
    (hne : b.buffer ≠ l.output.buffer) (fits : l.output.Fits m) {c : Cell}
    (hc : l.output.layout.HasCell c) :
    l.output.load (l.addBias m) (l.output.layout.cell c) = l.output.layout.dataType.encode
      (l.output.loadValue m (l.output.layout.cell c) + b.loadValue m (b.layout.offset2 c.x 0)) := by
  simp only [addBias, hb]
  refine ((covers_biasItem onePlane hne).load_launch hc (View.cell_fits fits hc)).trans ?_
  exact Nat.mod_eq_of_lt (DataType.encode_lt _ _)

theorem byte_addBias (onePlane : l.output.layout.batches = 1)
    (hb : ∀ b ∈ l.bias, b.buffer ≠ l.output.buffer) {x : BufferId} (hx : x ≠ l.output.buffer)
    (j : Nat) : (l.addBias m).byte x j = m.byte x j := by
  unfold addBias
  cases h : l.bias with
  | none => rfl
  | some b => exact (covers_biasItem onePlane (hb b h)).byte_launch_buffer hx j

/-- An element of the product: a row of the input times a row of the weights. -/
theorem element_remembered {α : Type} [Element α] (hl : l.Configured p)
    (hm : l.Remembers first m) {c : Cell} (hc : l.output.layout.HasCell c) (g : Target) :
    Element.toWord ((Multiply.plain l.input.layout l.matrix.layout l.output.layout .one g).element α
        l.input.buffer l.matrix.buffer c m) =
      connectedWord α g l.input l.weights none m first c.y c.x := by
  obtain ⟨hx, hy, hz⟩ := hc
  have hm' := hl.multipliable
  have accepted := hl.accepted
  rw [hl.transpose] at accepted
  obtain ⟨width, height, -⟩ := accepted.extents_transposed
  have inputs : l.input.layout.dim 0 = l.weights.layout.shape.x := hm'.depth.symm.trans height
  have plane : c.z = 0 := by
    rw [hl.onePlane] at hz
    exact Nat.lt_one_iff.1 hz
  have words := Multiply.element_of_words (α := α) (a := l.input) (b := l.matrix) (t := l.output)
    (m := m) (g := g) (c := c)
    (fun i => (l.input.words m).getD (c.y * l.weights.layout.shape.x + i) 0)
    (fun i => l.weights.load first (l.weights.layout.offset2 i c.x))
    (fun i hi => ?_) (fun i hi => ?_)
  · rw [words, inputs, hm'.targetType]
    rfl
  · have cell : l.input.layout.HasCell ⟨i, c.y, c.z⟩ :=
      ⟨hi, hm'.rows ▸ hy, hm'.aBatches ▸ hz⟩
    have word := View.getElem?_words m cell
    simp only [plane, Nat.zero_mul, Nat.zero_add, inputs] at word
    rw [List.getD_eq_getElem?_getD, word, plane]
    rfl
  · -- the matrix is the weights transposed, as they were in `first`
    have cell : l.matrix.layout.HasCell ⟨c.x, i, c.z % l.matrix.layout.batches⟩ :=
      ⟨hm'.columns ▸ hx, (show i < l.matrix.layout.dim 1 from hm'.depth ▸ hi),
        Nat.mod_lt _ hm'.bBatches_pos⟩
    refine (hm _ cell).trans ?_
    rw [hl.transpose, plane, Nat.zero_mod, ← Layout.cell_first]
    rfl

/-- A run with the weights of `first` in the matrix: the dot products with them and the bias, and
what else became of memory. -/
structure Connected (l : FullyConnected) (busy : BufferId → Prop) (g : Target) (α : Type)
    [Element α] (first m m' : Memory) : Prop where
  load : ∀ c, l.output.layout.HasCell c → l.output.load m' (l.output.layout.cell c) =
    connectedWord α g l.input l.weights l.bias m first c.y c.x
  byte : ∀ x, busy x → x ≠ l.output.buffer → (∀ k ∈ l.product.kept?, x ≠ k.tensor.buffer) →
    ∀ j, m'.byte x j = m.byte x j
  current : l.product.settle.Current l.matrix.buffer m'

/-- A bias in use that neither the output nor the product overlays. -/
structure ReadsBias (l : FullyConnected) (busy : BufferId → Prop) : Prop where
  busy : ∀ b ∈ l.bias, busy b.buffer
  output_ne : ∀ b ∈ l.bias, b.buffer ≠ l.output.buffer
  kept_ne : ∀ b ∈ l.bias, ∀ k ∈ l.product.kept?, b.buffer ≠ k.tensor.buffer

theorem run_prepared_spec {α : Type} [Element α] (hl : l.Configured p)
    (hα : Dispatched l.output.layout.dataType.kind α) (done : l.prepared = true)
    (hd : d.Stocks busy [l.product.scratch])
    (hops : l.product.Operands busy l.input l.matrix l.output d.memory) (hb : l.ReadsBias busy)
    (hm : l.Remembers first d.memory) :
    l.Connected busy p.config.target α first d.memory (l.run d).2.memory := by
  have produced := MatrixProduct.run_spec hl.carries hl.kernels hl.multipliable hα hd hops
  have still : d.onMemory l.transposed = d := by simp [transposed, Device.onMemory, done]
  rw [run_eq, still]
  dsimp only [Device.onMemory]
  rw [MatrixProduct.run_fst] at produced
  generalize (l.product.run l.input l.matrix none l.output d).2.memory = m' at produced ⊢
  have other {x : BufferId} (hx : x ≠ l.output.buffer) (j : Nat) :
      (l.addBias m').byte x j = m'.byte x j :=
    byte_addBias hl.onePlane hb.output_ne hx j
  constructor
  · intro c hc
    have word := (produced.load c hc).trans (element_remembered hl hm hc _)
    cases bias : l.bias with
    | none =>
      simp only [addBias, bias]
      exact word
    | some b =>
      have read : b.loadValue m' (b.layout.offset2 c.x 0) =
          b.loadValue d.memory (b.layout.offset2 c.x 0) :=
        View.loadValue_congr (produced.byte _ (hb.busy b bias) (hb.output_ne b bias)
          (hb.kept_ne b bias)) _
      have fits := hops.fits.grow produced.grows (hd.present _ hops.busy_t)
      rw [load_addBias hl.onePlane bias (hb.output_ne b bias) fits hc, View.loadValue, word, read,
        hl.multipliable.targetType]
      rfl
  · intro x hx hxo hxk j
    rw [other hxo, produced.byte x hx hxo hxk]
  · -- the bias is added to the output, where nothing is kept
    refine produced.current.congr (other hops.b_ne) fun k hk => other ?_
    obtain ⟨k', hk', tensor⟩ := MatrixProduct.tensor_settle hk
    rw [← tensor]
    exact (hops.kept k' hk').2.2.2.1

end FullyConnected
end TileCompute
