import TileCompute.Graph.Lowering
import TileCompute.Proofs.Beside

/-!
# TileCompute.Proofs.Counterpart

Creating layers on two devices. Whether a layer is created, or why not, is decided before anything
is allocated and without a look at the memory, so it does not depend on where scratch tensors come
from. What is allocated then are counterparts: scratch tensors of the same layouts, and lasting
tensors of the same lengths, all zeros.

* `Pairing.Twin.exists_blocks`: lasting tensors may be paired, whole.
* `Layer.Placed`: a layer that was made of tensors in memory.
* `Layer.Made`: two layers of one configuration.
* `Node.agree_create`: a node on both sides.
-/

namespace TileCompute

/-- Blocks of two memories that are equal in turn. -/
def Pairing.Blocks (R : Pairing) (xs xs' : List Block) : Prop :=
  List.Forall₂ (fun x x' => R.Whole x.buffer x'.buffer) xs xs'

namespace Pairing

variable {R : Pairing} {m m' : Memory} {s s' : BufferId}

/-- Two more buffers stand for each other, all their bytes being equal. -/
theorem Twin.exists_whole (h : R.Twin m m') (size : m.size s = m'.size s')
    (byte : ∀ i, m.byte s i = m'.byte s' i)
    (fresh : ∀ {b b' i}, R.room b b' i → b ≠ s ∧ b' ≠ s') :
    ∃ R', R ≤ R' ∧ R'.Twin m m' ∧ R'.Whole s s' ∧
      ∀ {b b' i}, R'.room b b' i → R.room b b' i ∨ b = s ∧ b' = s' := by
  have added : (R.add s s' (fun _ => True) fresh).Twin m m' :=
    h.add fresh fun j _ => by rw [size]
  refine ⟨(R.add s s' (fun _ => True) fresh).tell s s' fun _ => True,
    (le_add fresh).trans (le_tell ..), added.tell fun j _ => byte j, fun i => ?_, ?_⟩
  · exact .inr ⟨⟨rfl, rfl⟩, trivial, .inr ⟨⟨rfl, rfl⟩, trivial⟩⟩
  · exact fun hr => hr.imp id And.left

/-- Blocks of the same lengths, all zeros, may be paired one after the other. -/
theorem Twin.exists_blocks {xs xs' : List Block} (h : R.Twin m m') (hx : m.Holds xs)
    (hx' : m'.Holds xs') (sizes : xs.map Block.size = xs'.map Block.size)
    (zero : ∀ x ∈ xs, ∀ i, m.byte x.buffer i = 0) (zero' : ∀ x ∈ xs', ∀ i, m'.byte x.buffer i = 0)
    (fresh : ∀ {b b' i}, R.room b b' i → b ∉ xs.map Block.buffer ∧ b' ∉ xs'.map Block.buffer) :
    ∃ R', R ≤ R' ∧ R'.Twin m m' ∧ R'.Blocks xs xs' ∧ ∀ {b b' i}, R'.room b b' i →
      R.room b b' i ∨ b ∈ xs.map Block.buffer ∧ b' ∈ xs'.map Block.buffer := by
  induction xs generalizing R xs' with
  | nil =>
    cases xs' with
    | nil => exact ⟨R, le_rfl, h, .nil, .inl⟩
    | cons => cases sizes
  | cons x xs ih =>
    cases xs' with
    | nil => cases sizes
    | cons x' xs' =>
      obtain ⟨size, sizes⟩ := List.cons.inj sizes
      obtain ⟨zeros, zero⟩ := List.forall_mem_cons.1 zero
      obtain ⟨zeros', zero'⟩ := List.forall_mem_cons.1 zero'
      have apart := List.nodup_cons.1 hx.distinct
      have apart' := List.nodup_cons.1 hx'.distinct
      -- the first blocks are paired alone, the others under the larger pairing
      obtain ⟨R₁, hR₁, twin₁, whole, new₁⟩ := h.exists_whole
        ((hx.sized x List.mem_cons_self).trans (size.trans (hx'.sized x' List.mem_cons_self).symm))
        (fun i => (zeros i).trans (zeros' i).symm) fun hr =>
          ⟨fun he => (fresh hr).1 (he ▸ List.mem_cons_self),
            fun he => (fresh hr).2 (he ▸ List.mem_cons_self)⟩
      obtain ⟨R₂, hR₂, twin₂, blocks, new₂⟩ := ih twin₁ (hx.sublist (List.sublist_cons_self ..))
        (hx'.sublist (List.sublist_cons_self ..)) sizes zero zero' fun hr => by
          obtain hr | ⟨rfl, rfl⟩ := new₁ hr
          · exact (fresh hr).imp (fun hn hm => hn (List.mem_cons_of_mem _ hm))
              fun hn hm => hn (List.mem_cons_of_mem _ hm)
          · exact ⟨apart.1, apart'.1⟩
      refine ⟨R₂, hR₁.trans hR₂, twin₂, .cons (whole.mono hR₂) blocks, fun hr => ?_⟩
      obtain hr | hr := new₂ hr
      · obtain hr | ⟨rfl, rfl⟩ := new₁ hr
        · exact .inl hr
        · exact .inr ⟨List.mem_cons_self, List.mem_cons_self⟩
      · exact .inr (hr.imp (List.mem_cons_of_mem _) (List.mem_cons_of_mem _))

end Pairing

/-! ### Layers of one configuration -/

namespace Layer

/-- Tensors that a layer keeps between runs. -/
def lasting : Layer → List Block
  | fullyConnected l => l.matrix.block :: l.product.lasting
  | gemm l => l.product.lasting
  | gemmConvolution l => l.lasting
  | _ => []

/-- A layer that was just made, with what was allocated for it. -/
structure Allocated (m : Memory) (p : Layer × Memory) : Prop where
  allocates : m.Allocates p.2 (p.1.groups.flatMap ScratchGroup.owned ++ p.1.lasting)
  ready : ∀ g ∈ p.1.groups, g.Ready

/-- A layer made in `m₀`, where the tensors it was given are, leaving `m`. -/
structure Placed (m₀ : Memory) (l : Layer) (m : Memory) : Prop extends Allocated m₀ (l, m) where
  given : ∀ v ∈ l.operands, v.buffer < m₀.buffers.size

/-- Buffers in use by a layer: the tensors it was given and its own. -/
def Busy (l : Layer) : BufferId → Prop := Device.Using (· ∈ l.operands.map View.buffer) l.lasting

theorem busy_operand {l : Layer} {v : View} (hv : v ∈ l.operands) : l.Busy v.buffer :=
  .inl (List.mem_map_of_mem hv)

theorem busy_own {l : Layer} {b : Block} (hb : b ∈ l.lasting) : l.Busy b.buffer :=
  .inr (List.mem_map_of_mem hb)

namespace Placed

variable {m₀ m m' : Memory} {l : Layer}

/-- What was there before a layer is none of its own. -/
theorem notMem_own (h : Placed m₀ l m) {b : BufferId} (hb : b < m₀.buffers.size) :
    b ∉ l.lasting.map Block.buffer := by
  intro mem
  obtain ⟨block, own, he⟩ := List.mem_map.1 mem
  exact h.allocates.ne_of_lt (List.mem_append_right _ own) hb he

/-- The tensors that a layer keeps are none of those that it was given. -/
theorem own_ne (h : Placed m₀ l m) {b : Block} (hb : b ∈ l.lasting) {v : View}
    (hv : v ∈ l.operands) : b.buffer ≠ v.buffer :=
  h.allocates.ne_of_lt (List.mem_append_right _ hb) (h.given v hv)

theorem holds (h : Placed m₀ l m) (grows : m.Grows m') : m'.Holds l.lasting :=
  (h.allocates.holds.sublist (List.sublist_append_right ..)).grow grows

/-- The tensors that a layer was given stay as long as they were. -/
theorem fits (h : Placed m₀ l m) (grows : m.Grows m') {v : View} (hv : v ∈ l.operands)
    (fits : v.Fits m₀) : v.Fits m' :=
  fits.grow (h.allocates.grows.trans grows) (h.given v hv)

theorem stocks (h : Placed m₀ l m) {pool : Pool}
    (stocked : Device.Stocks ⟨m₀, pool⟩ (· ∈ l.operands.map View.buffer) []) :
    Device.Stocks ⟨m, pool⟩ l.Busy l.groups :=
  stocked.allocate h.allocates h.ready

end Placed

/-- Two layers of one configuration, made in `m` and `m'`. The tensors they were given are among the
first `n` buffers. -/
structure Made (n : Nat) (m m' : Memory) (p p' : Layer × Memory) : Prop where
  left : Allocated m p
  right : Allocated m' p'
  sizes : p.1.lasting.map Block.size = p'.1.lasting.map Block.size
  alike : ∀ R : Pairing, (∀ b < n, R.Whole b b) → R.Blocks p.1.lasting p'.1.lasting →
    p.1.Alike R p'.1

/-- Nothing is allocated for a layer without scratch tensors. -/
theorem Made.plain {n : Nat} {m m' : Memory} {l : Layer} (bare : l.groups = [])
    (given : ∀ v ∈ l.operands, v.buffer < n) : Made n m m' (l, m) (l, m') := by
  have allocated (m : Memory) : Allocated m (l, m) := by
    have blocks : l.groups.flatMap ScratchGroup.owned ++ l.lasting = [] := by
      cases l with
      | fullyConnected | gemm | gemmConvolution => cases bare
      | _ => rw [bare]; rfl
    exact ⟨blocks.symm ▸ .refl m, by simp [bare]⟩
  exact ⟨allocated m, allocated m', rfl, fun R user _ =>
    .plain l bare fun v hv => user _ (given v hv)⟩

end Layer

namespace ProductPlan

variable {R : Pairing} {m m' : Memory} {keepRight pooled pooled' : Bool}

theorem sizes_allocate (p : ProductPlan) :
    (p.allocate keepRight pooled m).1.lasting.map Block.size =
      (p.allocate keepRight pooled' m').1.lasting.map Block.size := by
  obtain ⟨config, reshapes, multiply, addition⟩ := p
  cases reshapes with
  | none => rfl
  | some r => cases keepRight <;> rfl

/-- Products of one plan are alike when what they keep is paired. -/
theorem alike_allocate (p : ProductPlan)
    (blocks : R.Blocks (p.allocate keepRight pooled m).1.lasting
      (p.allocate keepRight pooled' m').1.lasting) :
    MatrixProduct.Alike R p (p.allocate keepRight pooled m).1
      (p.allocate keepRight pooled' m').1 := by
  refine ⟨p.allocate_carries .., p.allocate_carries .., ?_⟩
  obtain ⟨config, reshapes, multiply, addition⟩ := p
  cases reshapes with
  | none => exact .none
  | some r =>
    cases keepRight with
    | true => exact .some ⟨(List.forall₂_cons.1 blocks).1, rfl⟩
    | false => exact .none

end ProductPlan

/-! ### Products as layers -/

namespace GemmLayer

variable {n : Nat} {m m' : Memory}

def assemble (a b : View) (c : Option View) (output : View) (keepRight pooled : Bool)
    (p : ProductPlan) (m : Memory) : GemmLayer × Memory :=
  let (product, m) := p.allocate keepRight pooled m
  (⟨product, a, b, c, output⟩, m)

theorem configureOn_eq {machine : Machine} (sound : machine.Sound) (a b : View) (c : Option View)
    (output : View) (o : ProductOptions) (m : Memory) :
    configureOn machine a b c output o m =
      (ProductPlan.makeOn machine a.layout b.layout (c.map View.layout) output.layout o.alpha o.beta
        (MatrixProduct.resolvedConfig a.layout output.layout o)).map fun p =>
          assemble a b c output o.keepRight o.pooled p m := by
  rw [configureOn, MatrixProduct.configureOn_eq sound]
  generalize ProductPlan.makeOn machine _ _ _ _ _ _ _ = made
  cases made <;> rfl

theorem configure_eq (a b : View) (c : Option View) (output : View) (o : ProductOptions)
    (m : Memory) :
    configure a b c output o m =
      (ProductPlan.make a.layout b.layout (c.map View.layout) output.layout o.alpha o.beta
        (MatrixProduct.resolvedConfig a.layout output.layout o)).map fun p =>
          assemble a b c output o.keepRight o.pooled p m :=
  configureOn_eq Machine.sound_exact a b c output o m

theorem allocated (a b : View) (c : Option View) (output : View) (keepRight pooled : Bool)
    (p : ProductPlan) (m : Memory) :
    let made := assemble a b c output keepRight pooled p m
    Layer.Allocated m (.gemm made.1, made.2) := by
  refine ⟨?_, List.forall_mem_singleton.2 (p.allocate_ready keepRight pooled m)⟩
  have h := ProductPlan.allocates (.refl m) p keepRight pooled
  rwa [List.append_nil, MatrixProduct.blocks, ← List.flatMap_singleton ScratchGroup.owned] at h

theorem made {machine : Machine} (sound : machine.Sound) {a b output : View} {c : Option View}
    {alpha beta : Binary32} {config : Config} {p : ProductPlan}
    (hp : ProductPlan.makeOn machine a.layout b.layout (c.map View.layout) output.layout
      alpha beta config = .ok p) (keepRight pooled pooled' : Bool)
    (given : ∀ v ∈ [a, b, output] ++ c.toList, v.buffer < n) :
    let made := assemble a b c output keepRight pooled p m
    let made' := assemble a b c output keepRight pooled' p m'
    Layer.Made n m m' (.gemm made.1, made.2) (.gemm made'.1, made'.2) := by
  obtain ⟨multipliable, kernels, -⟩ := ProductPlan.makeOn_eq_ok sound hp
  refine ⟨allocated .., allocated .., p.sizes_allocate, fun R user blocks => ?_⟩
  exact .gemm ⟨rfl, ⟨p, _, _, _, _, kernels, multipliable, p.alike_allocate blocks⟩,
    fun v hv => user _ (given v hv)⟩

end GemmLayer

/-! ### Convolutions -/

theorem GemmConvolution.made {n : Nat} {m m' : Memory} {input weights output : View}
    {bias : Option View} {w : Window} {env : Environment} {p : ProductPlan}
    (hp : plan input weights bias output w env = .ok p) (pooled pooled' : Bool)
    (given : ∀ v ∈ [input, weights, output] ++ bias.toList, v.buffer < n) :
    let made := assemble input weights bias output w pooled p m
    let made' := assemble input weights bias output w pooled' p m'
    Layer.Made n m m' (.gemmConvolution made.1, made.2) (.gemmConvolution made'.1, made'.2) := by
  refine ⟨⟨allocates_assemble .., ready_assemble input weights bias output w pooled p m⟩,
    ⟨allocates_assemble .., ready_assemble input weights bias output w pooled' p m'⟩, ?_,
    fun R user blocks => ?_⟩
  · exact congrArg (_ :: ·) p.sizes_allocate
  · obtain ⟨matrix, kept⟩ := List.forall₂_cons.1 blocks
    exact .gemmConvolution ⟨rfl, ⟨p, (plan_eq_ok hp pooled m).1, (plan_eq_ok hp pooled' m').1,
      p.alike_allocate kept⟩, matrix, fun v hv => user _ (given v hv)⟩

/-! ### Fully connected layers -/

namespace FullyConnected

/-- What is decided of a layer before anything is allocated. -/
structure Plan where
  input : View
  output : View
  transpose : Reshape
  product : ProductPlan
deriving DecidableEq, Repr

def plan (input weights : View) (bias : Option View) (output : View) (env : Environment) :
    Except (Failure LayerError) Plan := do
  refuse (check input.layout weights.layout (bias.map View.layout) output.layout)
  let out := output.layout.shape
  let rows ← refuse (input.reinterpret (.ofList [inputs input.layout.shape out, batches out]))
  let result ← refuse (output.reinterpret (.ofList [outputs out, batches out]))
  let matrix ← raise (Arrangement.transposed.outputLayout weights.layout)
  let transpose ← refuse (kernelResult (Reshape.configure .transposed weights.layout matrix))
  let product ← ProductPlan.make rows.layout transpose.target none result.layout .one .zero
    (env.lookup rows.layout.dataType (result.layout.dim 1))
  return ⟨rows, result, transpose, product⟩

def assemble (weights : View) (bias : Option View) (pooled : Bool) (p : Plan) (m : Memory) :
    FullyConnected × Memory :=
  let (product, m) := p.product.allocate true pooled m
  let (matrix, m) := View.alloc p.transpose.target m
  (⟨p.input, weights, bias, p.output, p.transpose, matrix, product, false⟩, m)

theorem configure_eq (input weights : View) (bias : Option View) (output : View) (pooled : Bool)
    (env : Environment) (m : Memory) :
    configure input weights bias output pooled env m =
      (plan input weights bias output env).map fun p => assemble weights bias pooled p m := by
  simp only [configure, plan, map_bind]
  refine bind_congr_ok fun _ _ => bind_congr_ok fun rows _ => bind_congr_ok fun result _ =>
    bind_congr_ok fun matrix _ => bind_congr_ok fun transpose ht => ?_
  have ht := MatrixProduct.kernelResult_eq_ok.1 (refuse_eq_ok.1 ht)
  obtain ⟨rfl, -⟩ := Reshape.configure_eq_ok.1 ht
  rw [MatrixProduct.configure, MatrixProduct.configureOn_eq Machine.sound_exact]
  dsimp only [MatrixProduct.resolvedConfig, Option.getD_none]
  rw [← ProductPlan.make]
  generalize ProductPlan.make _ _ none _ .one .zero _ = made
  cases made <;> rfl

theorem buffer_reinterpret {v w : View} {s : Shape} (h : v.reinterpret s = .ok w) :
    w.buffer = v.buffer := by
  obtain ⟨l, -, h⟩ := bind_eq_ok.1 h
  cases h
  rfl

/-- A plan for a layer: the input and the output as matrices, and a product of the input and the
transposed weights. -/
structure Plan.For (input weights output : View) (env : Environment) (p : Plan) : Prop where
  rows : input.reinterpret (.ofList [inputs input.layout.shape output.layout.shape,
    batches output.layout.shape]) = .ok p.input
  result : output.reinterpret (.ofList [outputs output.layout.shape,
    batches output.layout.shape]) = .ok p.output
  transpose : p.transpose = ⟨.transposed, weights.layout, p.transpose.target⟩
  accepted : p.transpose.Accepted
  multipliable : Multipliable p.input.layout p.transpose.target p.output.layout
  kernels : p.product.Kernels p.input.layout p.transpose.target p.output.layout .one
  target : p.product.config.target = env.target

theorem plan_eq_ok {input weights output : View} {bias : Option View} {env : Environment}
    {p : Plan} (h : plan input weights bias output env = .ok p) :
    p.For input weights output env := by
  simp only [plan, bind_eq_ok, refuse_eq_ok, raise_eq_ok, MatrixProduct.kernelResult_eq_ok,
    pure_eq_ok] at h
  obtain ⟨_, -, rows, hrows, result, hresult, matrix, -, transpose, ht, product, hp, rfl⟩ := h
  obtain ⟨multipliable, kernels, config, -⟩ := ProductPlan.make_eq_ok hp
  obtain ⟨rfl, accepted⟩ := Reshape.configure_eq_ok.1 ht
  exact ⟨hrows, hresult, rfl, accepted, multipliable, kernels, by rw [config]; rfl⟩

theorem allocated (weights : View) (bias : Option View) (pooled : Bool) (p : Plan) (m : Memory) :
    let made := assemble weights bias pooled p m
    Layer.Allocated m (.fullyConnected made.1, made.2) := by
  refine ⟨?_, List.forall_mem_singleton.2 (p.product.allocate_ready true pooled m)⟩
  have product := (ProductPlan.allocates (.refl m) p.product true pooled).alloc
    p.transpose.target.byteSize
  rw [List.append_nil] at product
  rw [Layer.groups, List.flatMap_singleton]
  exact product.perm List.perm_middle.symm

theorem made {n : Nat} {m m' : Memory} {input weights output : View} {bias : Option View}
    {env : Environment} {p : Plan} (hp : plan input weights bias output env = .ok p)
    (pooled pooled' : Bool)
    (given : ∀ v ∈ [input, weights, output] ++ bias.toList, v.buffer < n) :
    let made := assemble weights bias pooled p m
    let made' := assemble weights bias pooled' p m'
    Layer.Made n m m' (.fullyConnected made.1, made.2) (.fullyConnected made'.1, made'.2) := by
  have planned := plan_eq_ok hp
  refine ⟨allocated .., allocated .., ?_, fun R user blocks => ?_⟩
  · exact congrArg (_ :: ·) p.product.sizes_allocate
  · obtain ⟨matrix, kept⟩ := List.forall₂_cons.1 blocks
    refine .fullyConnected ⟨rfl, planned.accepted, matrix, ⟨p.product, _, _, _, _, planned.kernels,
      planned.multipliable, p.product.alike_allocate kept⟩, List.forall_mem_cons.2 ⟨?_,
        List.forall_mem_cons.2 ⟨?_, List.forall_mem_cons.2 ⟨?_, ?_⟩⟩⟩⟩
    · exact user _ (buffer_reinterpret planned.rows ▸ given input (by simp))
    · exact user _ (given weights (by simp))
    · exact user _ (buffer_reinterpret planned.result ▸ given output (by simp))
    · exact fun v hv => user _ (given v (List.mem_append_right _ hv))

end FullyConnected

/-! ### Softmax -/

namespace Softmax

def assemble (input output : View) (beta : Binary32) (pooled : Bool) (m : Memory) :
    Softmax × Memory :=
  let (scratch, m) := (ScratchGroup.empty pooled).manage
    (statsLayout (input.layout.shape.upperSize 1)) m
  (⟨input, output, beta, scratch⟩, m)

def check (input output : View) : Except LayerError Unit := do
  checkFloat input.layout
  checkSameType input.layout output.layout
  checkSameShape "softmax" input.layout output.layout

theorem configure_eq (input output : View) (beta : Binary32) (pooled : Bool) (m : Memory) :
    refuse (configure input output beta pooled m) =
      (refuse (check input output)).map fun _ => assemble input output beta pooled m := by
  simp only [configure, check, refuse_bind, map_bind]
  refine bind_congr_ok fun _ _ => bind_congr_ok fun _ _ => ?_
  cases checkSameShape "softmax" input.layout output.layout <;> rfl

theorem allocated (input output : View) (beta : Binary32) (pooled : Bool) (m : Memory) :
    let made := assemble input output beta pooled m
    Layer.Allocated m (.softmax made.1, made.2) := by
  refine ⟨?_, List.forall_mem_singleton.2 ((ScratchGroup.ready_empty pooled).manage _ m)⟩
  rw [Layer.groups, List.flatMap_singleton]
  exact ScratchGroup.allocates_manage (.refl m) _

theorem made {n : Nat} {m m' : Memory} (input output : View) (beta : Binary32)
    (pooled pooled' : Bool) (given : ∀ v ∈ [input, output], v.buffer < n) :
    let made := assemble input output beta pooled m
    let made' := assemble input output beta pooled' m'
    Layer.Made n m m' (.softmax made.1, made.2) (.softmax made'.1, made'.2) :=
  ⟨allocated .., allocated .., rfl, fun _ user _ => .softmax ⟨rfl, ScratchGroup.manage_layouts ..,
    ScratchGroup.manage_layouts .., fun v hv => user _ (given v hv)⟩⟩

end Softmax

/-! ### Layers without scratch tensors -/

theorem ActivationLayer.eq_of_configure {input : View} {output : Option View} {f : Activation}
    {l : ActivationLayer} (h : configure input output f = .ok l) : l = ⟨input, output, f⟩ := by
  cases output <;> simp only [configure, bind_eq_ok, pure_eq_ok] at h <;> grind

theorem AdditionLayer.eq_of_configure {a b output : View} {overflow : Overflow} {l : AdditionLayer}
    (h : configure a b output overflow = .ok l) : l = ⟨⟨a, b, output⟩, overflow⟩ := by
  obtain ⟨_, -, h⟩ := bind_eq_ok.1 h
  exact (pure_eq_ok.1 h).symm

theorem MultiplicationLayer.eq_of_configure {a b output : View} {scale : Binary32}
    {l : MultiplicationLayer} (h : configure a b output scale = .ok l) :
    l = ⟨⟨a, b, output⟩, scale⟩ := by
  obtain ⟨_, -, h⟩ := bind_eq_ok.1 h
  exact (pure_eq_ok.1 (reject_eq_ok.1 h).2).symm

theorem BatchNormalization.eq_of_configure {input output mean variance : View}
    {beta gamma : Option View} {epsilon : Binary32} {f : Option Activation} {l : BatchNormalization}
    (h : configure input output mean variance beta gamma epsilon f = .ok l) :
    l = ⟨input, output, mean, variance, beta, gamma, epsilon, f⟩ := by
  obtain ⟨_, -, h⟩ := bind_eq_ok.1 h
  exact (pure_eq_ok.1 h).symm

theorem DepthConcatenation.eq_of_configure {inputs : List View} {output : View}
    {l : DepthConcatenation} (h : configure inputs output = .ok l) :
    l.inputs = inputs ∧ l.output = output := by
  obtain ⟨_, -, h⟩ := bind_eq_ok.1 (reject_eq_ok.1 h).2
  obtain rfl := pure_eq_ok.1 (reject_eq_ok.1 h).2
  exact ⟨rfl, rfl⟩

theorem DepthwiseConvolution.eq_of_configure {input weights : View} {bias : Option View}
    {output : View} {w : Window} {l : DepthwiseConvolution}
    (h : configure input weights bias output w = .ok l) :
    l = ⟨input, weights, bias, output, w⟩ := by
  simp only [configure, bind_eq_ok, reject_eq_ok, pure_eq_ok] at h
  grind

theorem DirectConvolution.eq_of_configure {input weights : View} {bias : Option View}
    {output : View} {w : Window} {l : DirectConvolution}
    (h : configure input weights bias output w = .ok l) :
    l = ⟨input, weights, bias, output, w⟩ := by
  simp only [configure, bind_eq_ok, reject_eq_ok, pure_eq_ok] at h
  grind

theorem NormalizationLayer.eq_of_configure {input output : View} {k : Normalization}
    {l : NormalizationLayer} (h : configure input output k = .ok l) : l = ⟨input, output, k⟩ := by
  simp only [configure, bind_eq_ok, reject_eq_ok, pure_eq_ok] at h
  grind

theorem PoolingLayer.eq_of_configure {input output : View} {p : Pooling} {l : PoolingLayer}
    (h : configure input output p = .ok l) : l.input = input ∧ l.output = output := by
  simp only [configure, bind_eq_ok, pure_eq_ok] at h
  grind

/-! ### Nodes -/

/-- The tensors of a graph tensor are among the first `n` buffers. -/
def GraphTensor.OnUser (n : Nat) (t : GraphTensor) : Prop := ∀ v ∈ t.memory, v.buffer < n

instance (n : Nat) (t : GraphTensor) : Decidable (t.OnUser n) :=
  inferInstanceAs (Decidable (∀ v ∈ t.memory, v.buffer < n))

/-- A node works on tensors among the first `n` buffers. -/
def Node.OnUser (n : Nat) (k : Node) : Prop := ∀ t ∈ k.inputs ++ k.outputs, ∀ g ∈ t, g.OnUser n

instance (n : Nat) (k : Node) : Decidable (k.OnUser n) :=
  inferInstanceAs (Decidable (∀ t ∈ k.inputs ++ k.outputs, ∀ g ∈ t, g.OnUser n))

/-- What was created on two sides. -/
structure Created.Twin (n : Nat) (m m' : Memory) (c c' : Created) : Prop where
  report : c.report = c'.report
  made : Layer.Made n m m' (c.layer, c.memory) (c'.layer, c'.memory)

namespace Node

variable {n : Nat} {k : Node} {m m' : Memory} {t : Option GraphTensor} {c c' : Context}

theorem backing_lt (ht : ∀ g ∈ t, g.OnUser n) {o : Option View} (h : backingTensor t = .ok o) :
    ∀ v ∈ o, v.buffer < n := by
  cases t with
  | none => cases h; simp
  | some g =>
    rw [backingTensor] at h
    split at h
    · cases h
      exact ht g rfl
    · cases h

theorem required_lt (ht : ∀ g ∈ t, g.OnUser n) {what : String} {v : View}
    (h : k.required t what = .ok v) : v.buffer < n := by
  obtain ⟨o, ho, h⟩ := bind_eq_ok.1 h
  cases o with
  | none => cases h
  | some w =>
    cases h
    exact backing_lt ht ho _ rfl

theorem OnUser.input (hk : k.OnUser n) (i : Nat) : ∀ g ∈ k.input i, g.OnUser n := by
  intro g hg
  have ht := Option.join_eq_some_iff.1 hg
  exact hk (some g) (List.mem_append_left _ (List.mem_of_getElem? ht)) g rfl

theorem OnUser.output (hk : k.OnUser n) (i : Nat) : ∀ g ∈ k.output i, g.OnUser n := by
  intro g hg
  have ht := Option.join_eq_some_iff.1 hg
  exact hk (some g) (List.mem_append_right _ (List.mem_of_getElem? ht)) g rfl

theorem weightedOperands_lt (hk : k.OnUser n) {o : WeightedOperands}
    (h : k.weightedOperands = .ok o) :
    ∀ v ∈ [o.input, o.weights, o.output] ++ o.bias.toList, v.buffer < n := by
  simp only [weightedOperands, bind_eq_ok, pure_eq_ok] at h
  obtain ⟨_, -, input, hi, weights, hw, bias, hb, output, ho, rfl⟩ := h
  have hi := required_lt (hk.input 0) hi
  have hw := required_lt (hk.input 1) hw
  have hb := backing_lt (hk.input 2) hb
  have ho := required_lt (hk.output 0) ho
  simpa [hi, hw, ho] using hb

theorem unaryOperands_lt (hk : k.OnUser n) {input output : View}
    (h : k.unaryOperands = .ok (input, output)) : ∀ v ∈ [input, output], v.buffer < n := by
  simp only [unaryOperands, bind_eq_ok, pure_eq_ok] at h
  obtain ⟨_, -, input, hi, output, ho, h⟩ := h
  obtain ⟨rfl, rfl⟩ := Prod.mk.inj h
  simp [required_lt (hk.input 0) hi, required_lt (hk.output 0) ho]

theorem agree_createActivation (hk : k.OnUser n) (f : Activation) :
    Agree (Created.Twin n m m') (k.createActivation f m) (k.createActivation f m') := by
  refine .bind_same fun _ _ => .bind_same fun input hi => .bind_same fun output ho =>
    .bind_same fun l hl => .ok ⟨rfl, .plain rfl ?_⟩
  have hi := required_lt (hk.input 0) (raise_eq_ok.1 hi)
  have ho := backing_lt (hk.output 0) (raise_eq_ok.1 ho)
  obtain rfl := ActivationLayer.eq_of_configure (refuse_eq_ok.1 hl)
  refine List.forall_mem_cons.2 ⟨hi, List.forall_mem_singleton.2 ?_⟩
  unfold ActivationLayer.target
  cases hs : output.filter fun o => o.buffer ≠ input.buffer with
  | none => exact hi
  | some o => exact ho o (Option.filter_eq_some_iff.1 hs).1

theorem agree_createBatchNormalization (hk : k.OnUser n) (epsilon : Binary32)
    (fused : Option Activation) :
    Agree (Created.Twin n m m') (k.createBatchNormalization epsilon fused m)
      (k.createBatchNormalization epsilon fused m') := by
  refine .bind_same fun _ _ => .bind_same fun input hi => .bind_same fun mean hm =>
    .bind_same fun variance hv => .bind_same fun beta hb => .bind_same fun gamma hg =>
      .bind_same fun output ho => .bind_same fun l hl => .ok ⟨rfl, .plain rfl ?_⟩
  have hi := required_lt (hk.input 0) (raise_eq_ok.1 hi)
  have hm := required_lt (hk.input 1) (raise_eq_ok.1 hm)
  have hv := required_lt (hk.input 2) (raise_eq_ok.1 hv)
  have hb := backing_lt (hk.input 3) (raise_eq_ok.1 hb)
  have hg := backing_lt (hk.input 4) (raise_eq_ok.1 hg)
  have ho := required_lt (hk.output 0) (raise_eq_ok.1 ho)
  obtain rfl := BatchNormalization.eq_of_configure (refuse_eq_ok.1 hl)
  simp only [Layer.operands, BatchNormalization.parameters, List.forall_mem_cons,
    List.forall_mem_append, Option.mem_toList]
  exact ⟨hi, ho, ⟨⟨hm, hv, by simp⟩, hb⟩, hg⟩

theorem agree_createConvolution (hk : k.OnUser n) (environment : c.environment = c'.environment)
    (w : Window) (method : ConvolutionMethod) :
    Agree (Created.Twin n m m') (k.createConvolution c w method m)
      (k.createConvolution c' w method m') := by
  refine .bind_same fun o ho => ?_
  have ho := weightedOperands_lt hk (raise_eq_ok.1 ho)
  cases method with
  | direct =>
    refine .bind_same fun l hl => .ok ⟨rfl, .plain rfl ?_⟩
    obtain rfl := DirectConvolution.eq_of_configure (refuse_eq_ok.1 hl)
    exact ho
  | gemm | default =>
    dsimp only
    rw [GemmConvolution.configure_eq, GemmConvolution.configure_eq, environment]
    exact .bind (.map_same fun p hp => GemmConvolution.made hp c.pooled c'.pooled ho)
      fun a b made => .ok ⟨rfl, made⟩

theorem mapM_required_lt {ts : List (Option GraphTensor)} (hts : ∀ t ∈ ts, ∀ g ∈ t, g.OnUser n)
    {what : String} {vs : List View} (h : ts.mapM (fun t => k.required t what) = .ok vs) :
    ∀ v ∈ vs, v.buffer < n := by
  induction ts generalizing vs with
  | nil => cases h; simp
  | cons t ts ih =>
    obtain ⟨ht, hts⟩ := List.forall_mem_cons.1 hts
    rw [List.mapM_cons] at h
    obtain ⟨v, hv, h⟩ := bind_eq_ok.1 h
    obtain ⟨vs, hvs, h⟩ := bind_eq_ok.1 h
    cases h
    exact List.forall_mem_cons.2 ⟨required_lt ht hv, ih hts hvs⟩

theorem agree_createDepthConcatenation (hk : k.OnUser n) (enabled : Bool) :
    Agree (Option.Rel (Created.Twin n m m')) (k.createDepthConcatenation enabled m)
      (k.createDepthConcatenation enabled m') := by
  unfold createDepthConcatenation
  cases enabled with
  | false =>
    dsimp only
    split
    · exact .error _
    · exact .ok .none
  | true =>
    dsimp only
    split
    · exact .error _
    · refine .bind_same fun inputs hi => .bind_same fun output ho =>
        .bind_same fun l hl => .ok (.some ⟨rfl, .plain rfl ?_⟩)
      have hi := mapM_required_lt (fun t ht => hk t (List.mem_append_left _ ht)) (raise_eq_ok.1 hi)
      have ho := required_lt (hk.output 0) (raise_eq_ok.1 ho)
      obtain ⟨rfl, rfl⟩ := DepthConcatenation.eq_of_configure (refuse_eq_ok.1 hl)
      exact List.forall_mem_cons.2 ⟨ho, hi⟩

theorem agree_createDepthwiseConvolution (hk : k.OnUser n) (w : Window) (method : DepthwiseMethod) :
    Agree (Created.Twin n m m') (k.createDepthwiseConvolution w method m)
      (k.createDepthwiseConvolution w method m') := by
  refine .bind_same fun o ho => ?_
  have ho := weightedOperands_lt hk (raise_eq_ok.1 ho)
  cases method with
  | optimized3x3 =>
    refine .bind_same fun l hl => .ok ⟨rfl, .plain rfl ?_⟩
    obtain rfl := DepthwiseConvolution.eq_of_configure (refuse_eq_ok.1 hl)
    exact ho
  | generic | default => exact .error _

theorem agree_createEltwise (hk : k.OnUser n) (operation : Arithmetic) (overflow : Overflow) :
    Agree (Created.Twin n m m') (k.createEltwise operation overflow m)
      (k.createEltwise operation overflow m') := by
  refine .bind_same fun _ _ => .bind_same fun a ha => .bind_same fun b hb =>
    .bind_same fun output ho => ?_
  have ha := required_lt (hk.input 0) (raise_eq_ok.1 ha)
  have hb := required_lt (hk.input 1) (raise_eq_ok.1 hb)
  have ho := required_lt (hk.output 0) (raise_eq_ok.1 ho)
  have given : ∀ v ∈ [a, b, output], v.buffer < n := by simp [ha, hb, ho]
  cases operation with
  | add =>
    refine .bind_same fun l hl => ?_
    obtain ⟨l, configured, rfl⟩ := map_eq_ok.1 hl
    obtain rfl := AdditionLayer.eq_of_configure (refuse_eq_ok.1 configured)
    exact .ok ⟨rfl, .plain rfl given⟩
  | subtract => exact .error _
  | multiply =>
    refine .bind_same fun l hl => ?_
    obtain ⟨l, configured, rfl⟩ := map_eq_ok.1 hl
    obtain rfl := MultiplicationLayer.eq_of_configure (refuse_eq_ok.1 configured)
    exact .ok ⟨rfl, .plain rfl given⟩

theorem agree_createFullyConnected (hk : k.OnUser n)
    (environment : c.environment = c'.environment) :
    Agree (Created.Twin n m m') (k.createFullyConnected c m) (k.createFullyConnected c' m') := by
  refine .bind_same fun o ho => ?_
  have ho := weightedOperands_lt hk (raise_eq_ok.1 ho)
  rw [FullyConnected.configure_eq, FullyConnected.configure_eq, environment]
  exact .bind (.map_same fun p hp => FullyConnected.made hp c.pooled c'.pooled ho)
    fun a b made => .ok ⟨rfl, made⟩

theorem agree_createNormalization (hk : k.OnUser n) (f : Normalization) :
    Agree (Created.Twin n m m') (k.createNormalization f m) (k.createNormalization f m') := by
  refine .bind_same fun o ho => .bind_same fun l hl => .ok ⟨rfl, .plain rfl ?_⟩
  obtain rfl := NormalizationLayer.eq_of_configure (refuse_eq_ok.1 hl)
  exact unaryOperands_lt hk (raise_eq_ok.1 ho)

theorem agree_createPooling (hk : k.OnUser n) (p : Pooling) :
    Agree (Created.Twin n m m') (k.createPooling p m) (k.createPooling p m') := by
  refine .bind_same fun o ho => .bind_same fun l hl => .ok ⟨rfl, .plain rfl ?_⟩
  obtain ⟨hi, hout⟩ := PoolingLayer.eq_of_configure (refuse_eq_ok.1 hl)
  rw [Layer.operands, hi, hout]
  exact unaryOperands_lt hk (raise_eq_ok.1 ho)

theorem agree_createSoftmax (hk : k.OnUser n) (beta : Binary32) :
    Agree (Created.Twin n m m') (k.createSoftmax c beta m) (k.createSoftmax c' beta m') := by
  refine .bind_same fun ⟨input, output⟩ ho => ?_
  have ho := unaryOperands_lt hk (raise_eq_ok.1 ho)
  dsimp only
  rw [Softmax.configure_eq, Softmax.configure_eq]
  exact .bind (.map_same fun _ _ => Softmax.made input output beta c.pooled c'.pooled ho)
    fun a b made => .ok ⟨rfl, made⟩

/-- A node gives counterparts on both sides, or the same error, or nothing. -/
theorem agree_create (hk : k.OnUser n) (environment : c.environment = c'.environment) :
    Agree (Option.Rel (Created.Twin n m m')) (k.create c m) (k.create c' m') := by
  have some {x x' : Except (Failure LayerError) Created} (h : Agree (Created.Twin n m m') x x') :
      Agree (Option.Rel (Created.Twin n m m')) (x.map some) (x'.map some) :=
    h.map fun _ _ h => .some h
  unfold create
  cases k.kind with
  | activation f => exact some (agree_createActivation hk f)
  | batchNormalization epsilon fused => exact some (agree_createBatchNormalization hk epsilon fused)
  | convolution w method => exact some (agree_createConvolution hk environment w method)
  | depthConcatenate enabled => exact agree_createDepthConcatenation hk enabled
  | depthwiseConvolution w method => exact some (agree_createDepthwiseConvolution hk w method)
  | eltwise operation overflow => exact some (agree_createEltwise hk operation overflow)
  | fullyConnected => exact some (agree_createFullyConnected hk environment)
  | normalization f => exact some (agree_createNormalization hk f)
  | pooling p => exact some (agree_createPooling hk p)
  | softmax beta => exact some (agree_createSoftmax hk beta)
  | input | output | const | reshape => exact .ok .none

end Node

end TileCompute
