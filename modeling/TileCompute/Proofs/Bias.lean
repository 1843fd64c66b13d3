import TileCompute.Proofs.ConnectedRows
import TileCompute.Proofs.DirectConvolution

/-!
# TileCompute.Proofs.Bias

Which element of a bias a layer takes. The layers that convolve read the bias through its layout:
a feature takes the element of its number. A fully connected layer takes what it finds that many
elements after the first one, which is the same element as long as no border lies in between
(`Layout.offset2_eq_iff_unbroken`), and else another element or a piece of the border.

* `fullyConnected_bias`: what is added, and where it is the element that a convolution takes.
* `fullyConnected_bias_of_border`: a bias of two rows with a border of one element.
-/

namespace TileCompute

/-! ### Where the elements of a bias lie -/

namespace Layout

variable {l : Layout} {o : Nat}

/-- No border lies between the first element and the one of a number. -/
def Unbroken (l : Layout) (o : Nat) : Prop :=
  (o < l.shape.x ∨ l.padding.left + l.padding.right = 0) ∧
    (o < l.shape.x * l.shape.y ∨ l.padding.top + l.padding.bottom = 0)

instance (l : Layout) (o : Nat) : Decidable (l.Unbroken o) :=
  inferInstanceAs (Decidable (_ ∧ _))

/-- Rows and planes with `p` and `r` places of border have a number at the same place as without
any if there is no border or it comes later. -/
theorem place_eq_iff {X Y : Nat} (hX : 0 < X) (hY : 0 < Y) (y z p r : Nat) :
    X * (y + Y * z) = (X + p) * (y + (Y + r) * z) ↔
      (y + Y * z = 0 ∨ p = 0) ∧ (z = 0 ∨ r = 0) := by
  have spread : (X + p) * (y + (Y + r) * z) =
      X * (y + Y * z) + (p * (y + (Y + r) * z) + X * (r * z)) := by ring
  have first : y + (Y + r) * z = 0 ↔ y + Y * z = 0 := by
    simp only [Nat.add_eq_zero_iff, Nat.mul_eq_zero]
    omega
  have border : p * (y + (Y + r) * z) = 0 ↔ p = 0 ∨ y + Y * z = 0 :=
    Nat.mul_eq_zero.trans (or_congr_right first)
  have planes : X * (r * z) = 0 ↔ r = 0 ∨ z = 0 :=
    (Nat.mul_eq_zero.trans (or_iff_right hX.ne')).trans Nat.mul_eq_zero
  rw [spread, Nat.left_eq_add, Nat.add_eq_zero_iff, border, planes]
  exact and_congr or_comm or_comm

/-- So many elements after the first one lies the element of that number, exactly if no border lies
before it. -/
theorem offset2_eq_iff_unbroken (ho : o < l.shape.size) :
    l.offset2 o 0 = l.offset (l.shape.coordOf o) ↔ l.Unbroken o := by
  have hX : 0 < l.shape.x := (Shape.size_pos_iff.1 (Nat.zero_lt_of_lt ho)).1.1
  have hY : 0 < l.shape.y := (Shape.size_pos_iff.1 (Nat.zero_lt_of_lt ho)).1.2
  let q := o / l.shape.x
  have column : o % l.shape.x + l.shape.x * q = o := Nat.mod_add_div o l.shape.x
  have row : q % l.shape.y + l.shape.y * (q / l.shape.y) = q := Nat.mod_add_div q l.shape.y
  have firstRow : q = 0 ↔ o < l.shape.x := Nat.div_eq_zero_iff_lt hX
  have firstPlane : q / l.shape.y = 0 ↔ o < l.shape.x * l.shape.y := by
    rw [Nat.div_div_eq_div_mul, Nat.div_eq_zero_iff_lt (Nat.mul_pos hX hY)]
  have places := place_eq_iff hX hY (q % l.shape.y) (q / l.shape.y)
    (l.padding.left + l.padding.right) (l.padding.top + l.padding.bottom)
  rw [row, firstRow, firstPlane] at places
  rw [offset_eq_cell, Shape.cellOf_coordOf _ ho, ← cell_first, cell_eq, cell_eq, Unbroken, ← places,
    Nat.mul_right_inj (Nat.ne_of_gt l.elementSize_pos)]
  change l.place ⟨o, 0, 0⟩ = l.place ⟨o % l.shape.x, q % l.shape.y, q / l.shape.y⟩ ↔ _
  have straight : l.place ⟨o, 0, 0⟩ = l.place ⟨o % l.shape.x, 0, 0⟩ + l.shape.x * q := by
    simp only [place]
    omega
  have folded (x y z : Nat) :
      l.place ⟨x, y, z⟩ = l.place ⟨x, 0, 0⟩ + l.rowWidth * (y + l.planeHeight * z) := by
    simp only [place]
    ring
  have width : l.rowWidth = l.shape.x + (l.padding.left + l.padding.right) := Nat.add_assoc ..
  have height : l.planeHeight = l.shape.y + (l.padding.top + l.padding.bottom) := Nat.add_assoc ..
  rw [straight, folded _ (q % _), Nat.add_right_inj, width, height]

end Layout

/-- The bias of a feature: the element of that number, in order. -/
def View.biasOf (b : View) (m : Memory) (feature : Nat) : Binary32 :=
  b.loadValue m (b.layout.offset (b.layout.shape.coordOf feature))

/-! ### Layers that convolve -/

/-- What a layer with an element of the bias for every plane of its output starts from. -/
theorem biasFor_eq_biasOf {b : View} {output : Shape} (count : b.layout.shape.size = output.z)
    {s : Site} (hs : s ∈ output.sites) (m : Memory) :
    (biasFor (biasValues (some b) m) s.z).getD .zero = b.biasOf m s.z := by
  have feature : s.z < b.layout.shape.size := by
    rw [count]
    exact (Shape.mem_sites.1 hs).2.1
  rw [GemmConvolution.biasFor_biasValues fun b' hb => by cases hb; exact feature]
  rfl

namespace DirectConvolution

variable {input weights b output : View} {w : Window} {l : DirectConvolution} {m : Memory}
  {s : Site}

theorem load_run (hinput : l.input.buffer ≠ l.output.buffer)
    (hweights : l.weights.buffer ≠ l.output.buffer) (fits : l.output.Fits m)
    (hs : s ∈ l.output.layout.shape.sites) :
    l.output.load (l.run m) (l.output.layout.site s) =
      l.output.layout.dataType.encode (l.value (biasValues l.bias m) s m) :=
  View.load_launch_site (value_store hinput hweights (biasValues l.bias m)) fits hs

theorem words_run (hinput : l.input.buffer ≠ l.output.buffer)
    (hweights : l.weights.buffer ≠ l.output.buffer) (fits : l.output.Fits m) :
    l.output.words (l.run m) = l.output.layout.shape.sites.map fun s =>
      l.output.layout.dataType.encode (l.value (biasValues l.bias m) s m) :=
  (View.words_eq_sites _ _).trans <|
    List.map_congr_left fun _ hs => load_run hinput hweights fits hs

/-- A run starts each sum from the bias of its feature. -/
theorem biased_words_run (hl : configure input weights (some b) output w = .ok l)
    (hinput : input.buffer ≠ output.buffer) (hweights : weights.buffer ≠ output.buffer)
    (fits : output.Fits m) :
    output.words (l.run m) = output.layout.shape.sites.map fun s =>
      output.layout.dataType.encode (l.sum l.taps (b.biasOf m s.z) s m) := by
  obtain ⟨rfl, fit, -⟩ := accepted_of_configure hl
  have count : b.layout.shape.size = output.layout.shape.z :=
    (fit.bias _ rfl).trans fit.features.symm
  have words := words_run (l := ⟨input, weights, some b, output, w⟩) hinput hweights fits
  refine words.trans (List.map_congr_left fun s hs => ?_)
  rw [value, biasFor_eq_biasOf count hs]

end DirectConvolution

namespace DepthwiseConvolution

variable {input weights b output : View} {w : Window} {l : DepthwiseConvolution} {m : Memory}
  {s : Site}

/-- The sum of the taps at an output element. -/
def sum (l : DepthwiseConvolution) (start : Binary32) (s : Site) (m : Memory) : Binary32 :=
  l.window.accumulate l.input.layout.shape s.x s.y taps (l.product s m) start

theorem sum_store (hinput : l.input.buffer ≠ l.output.buffer)
    (hweights : l.weights.buffer ≠ l.output.buffer) (start : Binary32) (s : Site) (m : Memory)
    (o w : Nat) : l.sum start s (l.output.store m o w) = l.sum start s m := by
  have hproduct : l.product s (l.output.store m o w) = l.product s m := by
    funext tap position
    rw [product, GemmConvolution.loadValue_store_other hinput,
      GemmConvolution.loadValue_store_other hweights, product]
  rw [sum, hproduct, sum]

/-- What holds of a convolution that was accepted. -/
structure Accepted (l : DepthwiseConvolution) : Prop where
  float : l.input.layout.dataType.isFloatingPoint
  weightsType : l.weights.layout.dataType = l.input.layout.dataType
  outputType : l.output.layout.dataType = l.input.layout.dataType
  moves : l.window.checkStride = .ok ()
  width : l.output.layout.shape.x = Window.positions l.window.rounding
    (l.input.layout.shape.x + (l.window.left + l.window.right)) kernel l.window.strideX
  height : l.output.layout.shape.y = Window.positions l.window.rounding
    (l.input.layout.shape.y + (l.window.top + l.window.bottom)) kernel l.window.strideY
  depth : l.output.layout.shape.z = l.input.layout.shape.z
  batches : l.output.layout.shape.upperSize 3 = l.input.layout.shape.upperSize 3
  bias : ∀ b ∈ l.bias, b.layout.shape.size = l.input.layout.shape.z

theorem accepted_of_configure {input weights output : View} {bias : Option View} {w : Window}
    {l : DepthwiseConvolution} (h : configure input weights bias output w = .ok l) :
    l.Accepted ∧ l = ⟨input, weights, bias, output, w⟩ := by
  simp only [configure, bind_eq_ok, reject_eq_ok, pure_eq_ok, checkFloat_eq_ok,
    checkSameType_eq_ok] at h
  obtain ⟨_, float, _, weightsType, _, outputType, -, _, moves, _, shapes, _, checked, rfl⟩ := h
  have bias : ∀ b ∈ bias, b.layout.shape.size = input.layout.shape.z := fun b hb =>
    count_of_checkBias checked _ (Option.mem_map_of_mem _ hb)
  unfold checkShapes Window.outputSize at shapes
  dsimp only at shapes
  split at shapes
  · next fit =>
    obtain ⟨-, width, height, depth, batches⟩ := fit
    exact ⟨⟨float, weightsType.symm, outputType.symm, moves, width, height, depth, batches, bias⟩,
      rfl⟩
  · cases shapes

theorem load_run (hinput : l.input.buffer ≠ l.output.buffer)
    (hweights : l.weights.buffer ≠ l.output.buffer) (fits : l.output.Fits m)
    (hs : s ∈ l.output.layout.shape.sites) :
    l.output.load (l.run m) (l.output.layout.site s) = l.output.layout.dataType.encode
      (l.sum ((biasFor (biasValues l.bias m) s.z).getD .zero) s m) :=
  View.load_launch_site (fun s => sum_store hinput hweights
    ((biasFor (biasValues l.bias m) s.z).getD .zero) s) fits hs

theorem words_run (hinput : l.input.buffer ≠ l.output.buffer)
    (hweights : l.weights.buffer ≠ l.output.buffer) (fits : l.output.Fits m) :
    l.output.words (l.run m) = l.output.layout.shape.sites.map fun s =>
      l.output.layout.dataType.encode
        (l.sum ((biasFor (biasValues l.bias m) s.z).getD .zero) s m) :=
  (View.words_eq_sites _ _).trans <|
    List.map_congr_left fun _ hs => load_run hinput hweights fits hs

/-- A run starts each sum from the bias of its channel. -/
theorem biased_words_run (hl : configure input weights (some b) output w = .ok l)
    (hinput : input.buffer ≠ output.buffer) (hweights : weights.buffer ≠ output.buffer)
    (fits : output.Fits m) :
    output.words (l.run m) = output.layout.shape.sites.map fun s =>
      output.layout.dataType.encode (l.sum (b.biasOf m s.z) s m) := by
  obtain ⟨h, rfl⟩ := accepted_of_configure hl
  have count : b.layout.shape.size = output.layout.shape.z := (h.bias _ rfl).trans h.depth.symm
  have words := words_run (l := ⟨input, weights, some b, output, w⟩) hinput hweights fits
  refine words.trans (List.map_congr_left fun s hs => ?_)
  rw [biasFor_eq_biasOf count hs]

end DepthwiseConvolution

/-- Layers that convolve take the bias of a feature from the element of that number: it starts the
sum, or the product ends with one times it. -/
structure View.TakenInOrder (b : View) : Prop where
  direct : ∀ {input weights output : View} {w : Window} {l : DirectConvolution},
    DirectConvolution.configure input weights (some b) output w = .ok l →
    input.buffer ≠ output.buffer → weights.buffer ≠ output.buffer → ∀ {m}, output.Fits m →
    output.words (l.run m) = output.layout.shape.sites.map fun s =>
      output.layout.dataType.encode (l.sum l.taps (b.biasOf m s.z) s m)
  depthwise : ∀ {input weights output : View} {w : Window} {l : DepthwiseConvolution},
    DepthwiseConvolution.configure input weights (some b) output w = .ok l →
    input.buffer ≠ output.buffer → weights.buffer ≠ output.buffer → ∀ {m}, output.Fits m →
    output.words (l.run m) = output.layout.shape.sites.map fun s =>
      output.layout.dataType.encode (l.sum (b.biasOf m s.z) s m)
  multiplied : ∀ {input weights output : View} {w : Window} {pooled : Bool}
      {env : Environment} {d : Device} {l : GemmConvolution} {m : Memory},
    GemmConvolution.configure input weights (some b) output w pooled env d.memory = .ok (l, m) →
    d.Stocks (· ∈ [input, weights, output, b].map View.buffer) [] → output.Fits d.memory →
    let t := input.layout.dataType
    ∃ (α : Type) (_ : Element α), Dispatched t.kind α ∧ ∀ {s e first},
      WeightHistory GemmConvolution.prepare GemmConvolution.run (Layer.gemmConvolution l).lasting
        l ⟨m, d.pool⟩ s e first →
      output.words (s.run e).2.memory = output.layout.shape.sites.map fun s =>
        let start := first.getD e.memory
        let sum := convolvedAs α env.target w input weights none e.memory start s
        let biased : α := Element.narrow t.frac
          (env.target.mac t.frac sum (t.element α .one) (t.element α (b.biasOf start s.z)))
        t.encode (t.decode (Element.toWord biased))

theorem View.takenInOrder (b : View) : b.TakenInOrder where
  direct hl hinput hweights _ fits := DirectConvolution.biased_words_run hl hinput hweights fits
  depthwise hl hinput hweights _ fits :=
    DepthwiseConvolution.biased_words_run hl hinput hweights fits
  multiplied := by
    intro input weights output w pooled env d l m configured stocked fits t
    obtain ⟨α, inst, hα⟩ := GemmConvolution.exists_dispatched configured
    have keeps := GemmConvolution.keepsWeights configured stocked fits hα
    exact ⟨α, inst, hα, fun later => keeps.run_words later⟩

/-! ### Fully connected layers -/

/-- With a bias, the element of the product and what is found in the row of the bias are added as
values. -/
theorem connectedWord_some (α : Type) [Element α] (g : Target) (input weights b : View)
    (now first : Memory) (row column : Nat) :
    connectedWord α g input weights (some b) now first row column =
      input.layout.dataType.encode (input.layout.dataType.decode
        (rowWord α g input.layout.dataType (matrixAt (input.words now) weights.layout.shape.x row)
          weights first column) + b.loadValue now (b.layout.offset2 column 0)) := by
  rw [← connectedWord_eq_rowWord]
  rfl

open FullyConnected in
/-- Every run adds to an element of the product what lies so many elements after the first one of
the bias. That is the element of the output's number, which layers that convolve take for a
feature, exactly as long as no border of the bias lies before it. -/
theorem fullyConnected_bias {env : Environment} {input weights b output : View} {d : Device}
    {l : FullyConnected} {m : Memory} (h : Deployed env input weights (some b) output d l m) :
    let t := input.layout.dataType
    let count := inputs input.layout.shape output.layout.shape
    let width := outputs output.layout.shape
    (∀ o < width,
      b.layout.offset2 o 0 = b.layout.offset (b.layout.shape.coordOf o) ↔ b.layout.Unbroken o) ∧
    (∃ (α : Type) (_ : Element α), Dispatched t.kind α ∧
      ∀ {s e first}, l.Reaches ⟨m, d.pool⟩ s e first →
        ∀ row < batches output.layout.shape, ∀ o < width,
        let after := matrixAt (output.words (s.run e).2.memory) width row
        let product := rowWord α env.target t (matrixAt (input.words e.memory) count row) weights
          (first.getD e.memory) o
        after[o]? = some (t.encode (t.decode product +
          b.loadValue e.memory (b.layout.offset2 o 0))) ∧
        (b.layout.Unbroken o →
          after[o]? = some (t.encode (t.decode product + b.biasOf e.memory o)))) ∧
    ∀ b' : View, b'.TakenInOrder := by
  intro t count width
  have hc := h.connectable
  have size : b.layout.shape.size = width := (hc.bias _ rfl).2
  have place {o : Nat} (ho : o < width) :
      b.layout.offset2 o 0 = b.layout.offset (b.layout.shape.coordOf o) ↔ b.layout.Unbroken o :=
    Layout.offset2_eq_iff_unbroken (by rwa [size])
  obtain ⟨α, _, hα⟩ := Dispatched.exists_of_isFloatingPoint hc.float
  refine ⟨fun _ => place, ⟨α, _, hα, ?_⟩, View.takenInOrder⟩
  intro s e first later row hrow o ho after product
  have word : after[o]? = some (t.encode (t.decode product +
      b.loadValue e.memory (b.layout.offset2 o 0))) := by
    have words : after = _ := h.row_run hα later hrow
    rw [words, List.getElem?_map, List.getElem?_range ho, Option.map_some, connectedWord_some,
      hc.width]
  refine ⟨word, fun unbroken => ?_⟩
  rw [word, (place ho).2 unbroken]
  rfl

/-- A bias of two rows with NaNs in the border above and below, and nothing in between. -/
theorem fullyConnected_bias_unbroken :
    let input : View := ⟨0, .packed (.ofList [1]) .f32⟩
    let weights : View := ⟨1, .packed (.ofList [1, 2]) .f32⟩
    let bias : View := ⟨2, .ofList [1, 2], .f32, ⟨1, 0, 1, 0⟩⟩
    let output : View := ⟨3, .packed (.ofList [2]) .f32⟩
    let d : Device := ⟨⟨#[#[0, 0, 128, 63], #[0, 0, 128, 63, 0, 0, 128, 63],
      #[255, 255, 255, 255, 0, 0, 32, 65, 0, 0, 160, 65, 255, 255, 255, 255], .replicate 8 0]⟩,
      .empty⟩
    ∃ l m, FullyConnected.configure input weights (some bias) output true .unset d.memory =
        .ok (l, m) ∧ bias.values m = [⟨0x41200000⟩, ⟨0x41a00000⟩] ∧
      (matrixAt (output.words (l.run ⟨m, d.pool⟩).2.memory) 2 0)[1]? = some 0x41a80000 := by
  intro input weights bias output d
  have accepted : (FullyConnected.configure input weights (some bias) output true .unset
      d.memory).toOption.any fun p => bias.values p.2 = [⟨0x41200000⟩, ⟨0x41a00000⟩] ∧
        bias.biasOf p.2 1 = ⟨0x41a00000⟩ ∧
        rowWord Binary32 .default .f32 (matrixAt (input.words p.2) 1 0) weights p.2 1 =
          0x3f800000 := by decide +kernel
  have stocked : d.Stocks (· ∈ [0, 1, 3, 2]) [] := ⟨by decide, .nil _, by decide, by simp⟩
  cases hl : FullyConnected.configure input weights (some bias) output true .unset d.memory with
  | error e => rw [hl] at accepted; cases accepted
  | ok made =>
    rw [hl, Except.toOption, Option.any_some, decide_eq_true_iff] at accepted
    obtain ⟨values, second, product⟩ := accepted
    have h : FullyConnected.Deployed .unset input weights (some bias) output d made.1 made.2 :=
      ⟨⟨true, hl⟩, stocked, by decide, by rintro b ⟨⟩; decide, by decide⟩
    have count : FullyConnected.inputs input.layout.shape output.layout.shape = 1 := by decide
    have width : FullyConnected.outputs output.layout.shape = 2 := by decide
    obtain ⟨-, ⟨α, _, hα, runs⟩, -⟩ := fullyConnected_bias h
    cases hα
    simp only [count, width] at runs
    have word := (runs .start 0 (by decide) 1 (by decide)).2 (by decide)
    have sum :
        DataType.f32.encode (DataType.f32.decode 0x3f800000 + ⟨0x41a00000⟩) = 0x41a80000 := by
      decide +kernel
    refine ⟨made.1, made.2, rfl, values, word.trans ?_⟩
    change some (DataType.f32.encode (DataType.f32.decode (rowWord Binary32 .default .f32
      (matrixAt (input.words made.2) 1 0) weights made.2 1) + bias.biasOf made.2 1)) = _
    rw [product, second, sum]

/-- A bias of two rows with a border behind each: the second output gets the border, where a
convolution of the same tensors takes the second element. -/
theorem fullyConnected_bias_of_border :
    let input : View := ⟨0, .packed (.ofList [1]) .f32⟩
    let weights : View := ⟨1, .packed (.ofList [1, 2]) .f32⟩
    let bias : View := ⟨2, .ofList [1, 2], .f32, ⟨0, 1, 0, 0⟩⟩
    let output : View := ⟨3, .packed (.ofList [2]) .f32⟩
    let kernels : View := ⟨1, .packed (.ofList [1, 1, 1, 2]) .f32⟩
    let features : View := ⟨3, .packed (.ofList [1, 1, 2]) .f32⟩
    let m : Memory := ⟨#[#[0, 0, 128, 63], #[0, 0, 128, 63, 0, 0, 128, 63],
      #[0, 0, 32, 65, 0, 0, 0, 0, 0, 0, 160, 65, 0, 0, 0, 0], .replicate 8 0]⟩
    (∃ l m', FullyConnected.configure input weights (some bias) output true .unset m =
        .ok (l, m') ∧ bias.values m' = [⟨0x41200000⟩, ⟨0x41a00000⟩] ∧
      output.words (l.run ⟨m', .empty⟩).2.memory = [0x41300000, 0x3f800000]) ∧
    ∃ l, DirectConvolution.configure input kernels (some bias) features .default = .ok l ∧
      features.words (l.run m) = [0x41300000, 0x41a80000] := by
  intro input weights bias output kernels features m
  have added : (FullyConnected.configure input weights (some bias) output true .unset
      m).toOption.any fun p => bias.values p.2 = [⟨0x41200000⟩, ⟨0x41a00000⟩] ∧
        output.words (p.1.run ⟨p.2, .empty⟩).2.memory = [0x41300000, 0x3f800000] := by
    decide +kernel
  have convolved : (DirectConvolution.configure input kernels (some bias) features
      .default).toOption.any fun l => features.words (l.run m) = [0x41300000, 0x41a80000] := by
    decide +kernel
  constructor
  · cases hl : FullyConnected.configure input weights (some bias) output true .unset m with
    | error e => rw [hl] at added; cases added
    | ok made =>
      rw [hl, Except.toOption, Option.any_some, decide_eq_true_iff] at added
      exact ⟨made.1, made.2, rfl, added⟩
  · cases hl : DirectConvolution.configure input kernels (some bias) features .default with
    | error e => rw [hl] at convolved; cases convolved
    | ok l =>
      rw [hl, Except.toOption, Option.any_some, decide_eq_true_iff] at convolved
      exact ⟨l, rfl, convolved⟩

end TileCompute
