import TileCompute.Proofs.Bias

/-!
# TileCompute.Proofs.ChannelConvolution

The convolution of every channel with a kernel of its own, one channel at a time. A channel is a
convolution of one plane with one kernel and one element of bias (`DepthwiseConvolution.Channel`),
in tensors that may lie anywhere and have borders of their own. Both layers take the same taps in
the same order and leave out those in the padding, so they add the same products.

* `Window.accumulate_congr`: a sum over taps looks at the input where the taps fall on it.
* `DepthwiseConvolution.Channel.accepted`: a channel of an accepted convolution is accepted.
* `DepthwiseConvolution.Channel.sum_eq`: it adds up the same.
* `DepthwiseConvolution.run_channelwise`: both runs store the same elements.
-/

namespace TileCompute

namespace Window

variable {w : Window}

theorem lt_of_sourceIndex? {out stride tap pad extent i : Nat}
    (h : sourceIndex? out stride tap pad extent = some i) : i < extent := by
  unfold sourceIndex? at h
  dsimp only at h
  split at h
  · next inside =>
    obtain rfl := Option.some.inj h
    exact inside.2
  · cases h

/-- A tap that does not fall in the padding falls on the input. -/
theorem lt_of_source? {input : Shape} {x y : Nat} {tap : Tap} {p : Nat × Nat}
    (h : w.source? input x y tap = some p) : p.1 < input.x ∧ p.2 < input.y := by
  unfold source? at h
  split at h
  · next ix iy hx hy =>
    obtain rfl := Option.some.inj h
    exact ⟨lt_of_sourceIndex? hx, lt_of_sourceIndex? hy⟩
  · cases h

/-- Planes of one size have the same sums, if the products agree where taps fall on them. -/
theorem accumulate_congr {input input' : Shape} (width : input'.x = input.x)
    (height : input'.y = input.y) {x y : Nat} {taps : List Tap}
    {product product' : Tap → Nat × Nat → Binary32}
    (products : ∀ tap ∈ taps, ∀ p, p.1 < input.x → p.2 < input.y → product' tap p = product tap p)
    (start : Binary32) :
    w.accumulate input' x y taps product' start = w.accumulate input x y taps product start := by
  apply List.foldl_ext
  intro acc tap htap
  have source : w.source? input' x y tap = w.source? input x y tap := by
    rw [source?, source?, width, height]
  -- a tap in the padding adds nothing on either side
  rw [source]
  cases hp : w.source? input x y tap with
  | none => rfl
  | some p =>
    obtain ⟨hx, hy⟩ := lt_of_source? hp
    exact congrArg (acc + ·) (products tap htap p hx hy)

end Window

/-- A tensor with one channel, and otherwise the extents and the type of another one. -/
structure Layout.OneChannelOf (plane whole : Layout) : Prop where
  type : plane.dataType = whole.dataType
  width : plane.shape.x = whole.shape.x
  height : plane.shape.y = whole.shape.y
  single : plane.shape.z = 1
  batches : plane.shape.upperSize 3 = whole.shape.upperSize 3

namespace DepthwiseConvolution

variable {l : DepthwiseConvolution} {m n : Memory} {c : Nat} {d : DirectConvolution}

/-- The operands of a convolution in one memory are those of a channel in another: its plane of the
input, its kernel and its element of the bias. -/
structure Channel (l : DepthwiseConvolution) (m : Memory) (c : Nat) (d : DirectConvolution)
    (n : Memory) : Prop where
  window : d.window = l.window
  input : d.input.layout.OneChannelOf l.input.layout
  plane : ∀ x < l.input.layout.shape.x, ∀ y < l.input.layout.shape.y,
    ∀ k < l.input.layout.shape.upperSize 3,
      d.input.loadValue n (d.input.layout.site ⟨x, y, 0, k⟩) =
        l.input.loadValue m (l.input.layout.site ⟨x, y, c, k⟩)
  weightsType : d.weights.layout.dataType = l.weights.layout.dataType
  weightsShape : d.weights.layout.shape.x = kernel ∧ d.weights.layout.shape.y = kernel ∧
    d.weights.layout.shape.z = 1 ∧ d.weights.layout.shape.w = 1
  weights : ∀ x < kernel, ∀ y < kernel,
    d.weights.loadValue n (d.weights.layout.site ⟨x, y, 0, 0⟩) =
      l.weights.loadValue m (l.weights.layout.offset3 x y c)
  biasLayout : ∀ b ∈ d.bias,
    b.layout.dataType = l.input.layout.dataType ∧ b.layout.shape.size = 1
  bias : d.bias.map (·.biasOf n 0) = l.bias.map (·.biasOf m c)
  output : d.output.layout.OneChannelOf l.output.layout

namespace Channel

theorem accepted (h : l.Channel m c d n) (hl : l.Accepted) :
    DirectConvolution.configure d.input d.weights d.bias d.output l.window = .ok d := by
  obtain ⟨kernelX, kernelY, kernelZ, kernelW⟩ := h.weightsShape
  have float : d.input.layout.dataType.isFloatingPoint := h.input.type ▸ hl.float
  have weightsType : d.input.layout.dataType = d.weights.layout.dataType := by
    rw [h.input.type, h.weightsType, hl.weightsType]
  have outputType : d.input.layout.dataType = d.output.layout.dataType := by
    rw [h.input.type, h.output.type, hl.outputType]
  have channels : d.weights.layout.dim 2 = d.input.layout.dim 2 :=
    kernelZ.trans h.input.single.symm
  have features : checkFeatures d.input.layout d.weights.layout d.output.layout l.window =
      .ok () := by
    refine checkFeatures_eq_ok.2 ⟨⟨?_, ?_⟩, ?_, ?_⟩
    · show d.output.layout.shape.x =
        Window.positions _ (d.input.layout.shape.x + _) d.weights.layout.shape.x _
      rw [h.output.width, h.input.width, kernelX, hl.width]
    · show d.output.layout.shape.y =
        Window.positions _ (d.input.layout.shape.y + _) d.weights.layout.shape.y _
      rw [h.output.height, h.input.height, kernelY, hl.height]
    · exact h.output.single.trans kernelW.symm
    · rw [h.output.batches, h.input.batches, hl.batches]
  have bias : checkBias d.input.layout (d.bias.map View.layout) (d.weights.layout.dim 3)
      "output channels" = .ok () := by
    refine checkBias_eq_ok.2 fun b hb => ?_
    obtain ⟨v, hv, rfl⟩ := Option.mem_map.1 hb
    obtain ⟨type, size⟩ := h.biasLayout v hv
    exact ⟨h.input.type.trans type.symm, size.trans kernelW.symm⟩
  have checked : checkConvolution d.input.layout d.weights.layout (d.bias.map View.layout)
      d.output.layout l.window = .ok () := by
    simp only [checkConvolution, bind_eq_ok]
    exact ⟨(), checkFloat_eq_ok.2 float, (), checkSameType_eq_ok.2 weightsType, (),
      checkSameType_eq_ok.2 outputType, (), hl.moves, (), checkChannels_eq_ok.2 channels, (),
      features, bias⟩
  have square : ¬ (d.weights.layout.shape.x ≠ d.weights.layout.shape.y ∨
      d.weights.layout.shape.x ∉ DirectConvolution.sizes) := by
    rw [kernelX, kernelY]
    decide
  simp only [DirectConvolution.configure, checked, ok_bind, if_neg square]
  rw [← h.window]
  rfl

theorem sum_eq (h : l.Channel m c d n) {x y k : Nat} (hk : k < l.input.layout.shape.upperSize 3)
    (start : Binary32) : d.sum d.taps start ⟨x, y, 0, k⟩ n = l.sum start ⟨x, y, c, k⟩ m := by
  have taps : d.taps = TileCompute.taps kernel kernel 1 := by
    show TileCompute.taps d.weights.layout.shape.x d.weights.layout.shape.x
      d.input.layout.shape.z = _
    rw [h.weightsShape.1, h.input.single]
  rw [DirectConvolution.sum, sum, taps, h.window]
  apply Window.accumulate_congr h.input.width h.input.height
  intro tap htap p hx hy
  -- the taps of one channel are in channel zero, where the kernel of the single channel lies
  obtain ⟨tapX, tapY, tapC⟩ := mem_taps.1 htap
  obtain ⟨i, j, q⟩ := tap
  obtain rfl : q = 0 := Nat.lt_one_iff.1 tapC
  rw [DirectConvolution.product, product]
  exact congrArg₂ (· * ·) (h.plane p.1 hx p.2 hy k hk) (h.weights i tapX j tapY)

theorem start_eq (h : l.Channel m c d n) (hl : l.Accepted) (hc : c < l.input.layout.shape.z) :
    biasFor (biasValues d.bias n) 0 = biasFor (biasValues l.bias m) c := by
  have count : ∀ b ∈ d.bias, 0 < b.layout.shape.size := fun b hb =>
    (h.biasLayout b hb).2 ▸ Nat.zero_lt_one
  have channels : ∀ b ∈ l.bias, c < b.layout.shape.size := fun b hb => hl.bias b hb ▸ hc
  rw [GemmConvolution.biasFor_biasValues count, GemmConvolution.biasFor_biasValues channels]
  exact h.bias

end Channel

/-- Every accepted convolution of the channels of a tensor, with an output in a buffer of its own,
stores to each plane of the output what sliding the kernel of that channel over its plane stores.
The convolution of the single channel is accepted wherever its operands lie. -/
theorem run_channelwise {input weights output : View} {bias : Option View} {w : Window}
    (hl : configure input weights bias output w = .ok l) (hinput : input.buffer ≠ output.buffer)
    (hweights : weights.buffer ≠ output.buffer) (fits : output.Fits m)
    (hc : c < input.layout.shape.z) (channel : l.Channel m c d n)
    (hinput' : d.input.buffer ≠ d.output.buffer) (hweights' : d.weights.buffer ≠ d.output.buffer)
    (fits' : d.output.Fits n) :
    DirectConvolution.configure d.input d.weights d.bias d.output w = .ok d ∧
    ∀ x y k, x < output.layout.shape.x → y < output.layout.shape.y →
      k < output.layout.shape.upperSize 3 →
      d.output.load (d.run n) (d.output.layout.site ⟨x, y, 0, k⟩) =
        output.load (l.run m) (output.layout.site ⟨x, y, c, k⟩) := by
  obtain ⟨h, rfl⟩ := accepted_of_configure hl
  refine ⟨channel.accepted h, ?_⟩
  intro x y k hx hy hk
  have whole : (⟨x, y, c, k⟩ : Site) ∈ output.layout.shape.sites :=
    Shape.mem_sites.2 ⟨⟨hx, hy⟩, Nat.lt_of_lt_of_eq hc h.depth.symm, hk⟩
  have plane : (⟨x, y, 0, k⟩ : Site) ∈ d.output.layout.shape.sites := by
    apply Shape.mem_sites.2
    rw [channel.output.width, channel.output.height, channel.output.single,
      channel.output.batches]
    exact ⟨⟨hx, hy⟩, Nat.zero_lt_one, hk⟩
  have stored := load_run (l := ⟨input, weights, bias, output, w⟩) hinput hweights fits whole
  rw [DirectConvolution.load_run hinput' hweights' fits' plane]
  refine Eq.trans ?_ stored.symm
  rw [channel.output.type, DirectConvolution.value, channel.start_eq h hc,
    channel.sum_eq (Nat.lt_of_lt_of_eq hk h.batches)]

/-- The second of two channels, with a bias and steps of three over two by two elements in a border
of zeros: the last window lies wholly in the padding, where the bias is all there is. -/
theorem run_channelwise_small :
    let input : View := ⟨0, .packed (.ofList [2, 2, 2]) .f32⟩
    let weights : View := ⟨1, .packed (.ofList [3, 3, 2]) .f32⟩
    let bias : View := ⟨2, .packed (.ofList [2]) .f32⟩
    let output : View := ⟨3, .ofList [2, 2, 2], .f32, .uniform 1⟩
    let w : Window := ⟨3, 3, 1, 1, 1, 1, .ceil⟩
    let ones (count : Nat) : Array UInt8 := ((List.replicate count [0, 0, 128, 63]).flatten).toArray
    let zeros (count : Nat) : Array UInt8 := Array.replicate (4 * count) 0
    let m : Memory := ⟨#[zeros 4 ++ ones 4, zeros 9 ++ ones 9, zeros 1 ++ ones 1, zeros 32]⟩
    let d : DirectConvolution := ⟨⟨0, .packed (.ofList [2, 2]) .f32⟩,
      ⟨1, .packed (.ofList [3, 3]) .f32⟩, some ⟨2, .packed (.ofList [1]) .f32⟩,
      ⟨3, .packed (.ofList [2, 2]) .f32⟩, w⟩
    ∃ l, configure input weights (some bias) output w = .ok l ∧
      DirectConvolution.configure d.input d.weights d.bias d.output w = .ok d ∧
      output.load (l.run m) (output.layout.site ⟨0, 0, 1, 0⟩) = 0x40a00000 ∧
      output.load (l.run m) (output.layout.site ⟨1, 1, 1, 0⟩) = 0x3f800000 := by
  intro input weights bias output w ones zeros m d
  let n : Memory := ⟨#[ones 4, ones 9, ones 1, zeros 4]⟩
  have hl : configure input weights (some bias) output w =
      .ok ⟨input, weights, some bias, output, w⟩ := by decide
  have channel : Channel ⟨input, weights, some bias, output, w⟩ m 1 d n := by
    refine ⟨rfl, ?_, ?_, rfl, ?_, ?_, ?_, ?_, ?_⟩
    · constructor <;> decide
    · decide +kernel
    · decide
    · decide +kernel
    · rintro b ⟨⟩
      decide
    · decide +kernel
    · constructor <;> decide
  have fits : output.Fits m := by decide +kernel
  have fits' : d.output.Fits n := by decide +kernel
  obtain ⟨accepted, same⟩ := run_channelwise hl (by decide) (by decide) fits (by decide) channel
    (by decide) (by decide) fits'
  refine ⟨_, hl, accepted, ?_, ?_⟩
  · rw [← same 0 0 0 (by decide) (by decide) (by decide)]
    decide +kernel
  · rw [← same 1 1 0 (by decide) (by decide) (by decide)]
    decide +kernel

end DepthwiseConvolution
end TileCompute
