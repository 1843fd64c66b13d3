import TileCompute.Proofs.Connected
import TileCompute.Proofs.MatrixLayer

/-!
# TileCompute.Proofs.KeptWeights

Layers with weights over time. A convolution by a matrix product makes its matrix of the weights and
the bias, a fully connected layer of the weights only: it adds the bias that it finds on a run.
Whatever is written to the tensors that such a layer was given, a run leaves what the input then
gives with the weights of the first call.

* `GemmConvolution.keepsWeights`, `FullyConnected.keepsWeights`: either layer alone.
* `configured_keepsWeights`: both, of the same tensors.
-/

namespace TileCompute

variable {input weights output : View} {bias : Option View} {w : Window} {pooled : Bool}
  {env : Environment} {p : ProductPlan} {m₀ m first : Memory} {q : MatrixProduct} {d : Device}
  {α : Type} [Element α]

/-! ### Convolutions -/

namespace GemmConvolution

variable {l : GemmConvolution}

theorem input_mem (l : GemmConvolution) : l.input ∈ l.operands := by simp [operands]

theorem weights_mem (l : GemmConvolution) : l.weights ∈ l.operands := by simp [operands]

theorem output_mem (l : GemmConvolution) : l.output ∈ l.operands := by simp [operands]

/-- The convolution around its product. -/
def around (l : GemmConvolution) : MatrixLayer GemmConvolution where
  layer := .gemmConvolution l
  product := l.product
  matrix := l.matrix
  state q prepared := { l with product := q, prepared }
  make := l.columnLaunch
  word first c := l.columnValue (biasValues l.bias first) c first

/-- A convolution that was configured in `m₀`, where its tensors are, leaving `m`. -/
structure Installed (l : GemmConvolution) (p : ProductPlan) (m₀ m : Memory) : Prop extends
    l.around.Installed m₀ m where
  configured : l.Configured p
  fits : l.output.Fits m₀

theorem installed (hp : plan input weights bias output w env = .ok p)
    (given : ∀ v ∈ [input, weights, output] ++ bias.toList, v.buffer < m₀.buffers.size)
    (fits : output.Fits m₀) (pooled : Bool) :
    (assemble input weights bias output w pooled p m₀).1.Installed p m₀
      (assemble input weights bias output w pooled p m₀).2 := by
  have configured := (plan_eq_ok hp pooled m₀).1
  have placed : Layer.Placed m₀
      (.gemmConvolution (assemble input weights bias output w pooled p m₀).1)
      (assemble input weights bias output w pooled p m₀).2 :=
    ⟨⟨allocates_assemble .., ready_assemble input weights bias output w pooled p m₀⟩, given⟩
  have matrix_ne := (placed.own_ne List.mem_cons_self (weights_mem _)).symm
  exact ⟨⟨placed, rfl, p.allocate_kept true pooled m₀, grows_columnLaunch _,
    fun m x hx j => byte_columnLaunch configured matrix_ne hx j,
    fun m fits => remembers_columnLaunch configured matrix_ne fits⟩, configured, fits⟩

/-- Only floating-point types are accepted. -/
theorem exists_dispatched
    (h : configure input weights bias output w pooled env m₀ = .ok (l, m)) :
    ∃ (α : Type) (_ : Element α), Dispatched input.layout.dataType.kind α := by
  obtain ⟨_, checked, -⟩ := bind_eq_ok.1 h
  obtain ⟨_, float, -⟩ := bind_eq_ok.1 (refuse_eq_ok.1 checked)
  exact Dispatched.exists_of_isFloatingPoint (checkFloat_eq_ok.1 float)

theorem grows_run_prepared (done : l.prepared = true) {busy : BufferId → Prop}
    (hd : d.Stocks busy l.groups) : d.memory.Grows (l.run d).2.memory := by
  have ho := hd.opened
  rw [run_prepared_eq done]
  have unrolled := l.grows_unroll ((l.scratch.acquire d).1.view rowsSlot)
    (l.scratch.acquire d).2.memory
  exact ((ho.grows.trans unrolled).trans
    (l.product.grows_run _ _ _ _ (ho.stocks.onMemory unrolled))).trans (l.grows_deal ..)

namespace Installed

variable (hl : l.Installed p m₀ m)

include hl in
theorem buffers (h : l.around.Along m q d (some first)) :
    { l with product := q, prepared := true }.Buffers (Layer.gemmConvolution l).Busy
      d.memory where
  input := Layer.busy_operand l.input_mem
  output := Layer.busy_operand l.output_mem
  matrix := .inr hl.matrix_own
  kept kept hq := by
    have own := hl.kept_own h hq
    exact ⟨Layer.busy_own (b := kept.tensor.block) own, hl.kept_ne h hq,
      View.fits_block ((hl.holds h.grows).sized _ own)⟩
  fits := hl.toPlaced.fits h.grows l.output_mem hl.fits
  current := h.current

include hl in
theorem run_ran (hα : Dispatched l.input.layout.dataType.kind α)
    (h : l.around.Along m q d (some first)) :
    l.around.Ran l.output (fun now first => l.output.layout.shape.sites.map
        (convolvedWord α p.config.target l.window l.input l.weights l.bias now first))
      q first d ({ l with product := q, prepared := true }.run d).2 := by
  have configured : { l with product := q, prepared := true }.Configured p :=
    { hl.configured with carries := h.since.carries hl.configured.carries }
  have groups {q : MatrixProduct} (since : l.product.Since q) :
      { l with product := q, prepared := true }.groups = l.groups :=
    congrArg (fun s => [l.scratch, s]) since.scratch
  have stocks : d.Stocks (Layer.gemmConvolution l).Busy
      { l with product := q, prepared := true }.groups := by
    rw [groups h.since]
    exact h.stocks
  have convolved := run_prepared_spec configured hα rfl stocks (hl.buffers h)
    (h.remembers first rfl)
  have output_ne := hl.matrix_ne l.output_mem
  constructor
  · exact grows_run_prepared rfl stocks
  · rw [← List.append_nil (GemmConvolution.groups _)] at stocks
    have after := { l with product := q, prepared := true }.stocks_run stocks
    rw [List.append_nil, run_fst] at after
    change Device.Stocks _ _ l.groups
    rw [← groups h.since.settle]
    exact after
  · exact convolved.byte l.matrix.buffer (.inr hl.matrix_own) output_ne
      fun kept hq => (hl.kept_ne h hq).symm
  · refine convolved.current output_ne fun kept hq => ?_
    -- what is kept then was kept before
    obtain ⟨kept', hq', tensor⟩ := MatrixProduct.tensor_settle hq
    rw [← tensor]
    exact hl.toPlaced.own_ne (hl.kept_own h hq') l.output_mem
  · rw [View.words_eq_sites]
    apply List.map_congr_left
    intro s hs
    obtain ⟨c, hc, rfl⟩ := List.mem_map.1 hs
    rw [Layout.site_siteOf]
    exact convolved.load c (Layout.mem_grid_items.1 hc)

include hl in
theorem works (hα : Dispatched l.input.layout.dataType.kind α) :
    l.around.Works prepare run m l.output fun now first => l.output.layout.shape.sites.map
      (convolvedWord α p.config.target l.window l.input l.weights l.bias now first) where
  prepare_fresh _ _ := rfl
  prepare_again _ _ := rfl
  run_fresh q d := run_eq { l with product := q, prepared := false } d
  run_fst q d := GemmConvolution.run_fst { l with product := q, prepared := true } d
  run_ran h := hl.run_ran hα h
  unread m first := by
    have input := hl.byte_make m l.input.buffer (hl.matrix_ne l.input_mem).symm
    exact List.map_congr_left fun s _ => convolvedWord_congr input ..

end Installed

theorem keepsWeights (configured : configure input weights bias output w pooled env d.memory =
      .ok (l, m))
    (stocked : d.Stocks (· ∈ ([input, weights, output] ++ bias.toList).map View.buffer) [])
    (fits : output.Fits d.memory) (hα : Dispatched input.layout.dataType.kind α) :
    KeepsWeights prepare run (Layer.gemmConvolution l).lasting
      ([input, weights, output] ++ bias.toList) l ⟨m, d.pool⟩ output fun now first =>
        output.layout.shape.sites.map
          (convolvedWord α env.target w input weights bias now first) := by
  rw [configure_eq] at configured
  obtain ⟨p, hp, made⟩ := map_eq_ok.1 configured
  obtain ⟨rfl, rfl⟩ := Prod.mk.inj made.symm
  have target := (plan_eq_ok hp pooled d.memory).2
  have there : ∀ v ∈ [input, weights, output] ++ bias.toList, v.buffer < d.memory.buffers.size :=
    fun v hv => stocked.present _ (List.mem_map_of_mem hv)
  have hl := installed hp there fits pooled
  rw [← target]
  exact (hl.works hα).keepsWeights hl.toInstalled stocked there

end GemmConvolution

/-! ### Fully connected layers -/

namespace FullyConnected

variable {l : FullyConnected}

theorem input_mem (l : FullyConnected) : l.input ∈ l.operands := by simp [operands]

theorem weights_mem (l : FullyConnected) : l.weights ∈ l.operands := by simp [operands]

theorem output_mem (l : FullyConnected) : l.output ∈ l.operands := by simp [operands]

theorem bias_mem {b : View} (hb : b ∈ l.bias) : b ∈ l.operands :=
  List.mem_append_right _ (Option.mem_toList.2 hb)

/-- The layer around its product. -/
def around (l : FullyConnected) : MatrixLayer FullyConnected where
  layer := .fullyConnected l
  product := l.product
  matrix := l.matrix
  state q prepared := { l with product := q, prepared }
  make := l.transpose.run l.weights.buffer l.matrix.buffer
  word first c := l.transpose.value l.weights.buffer c first

/-- A layer that was configured in `m₀`, where its tensors are, leaving `m`. -/
structure Installed (l : FullyConnected) (p : ProductPlan) (m₀ m : Memory) : Prop extends
    l.around.Installed m₀ m where
  configured : l.Configured p
  input_ne : l.input.buffer ≠ l.output.buffer
  bias_ne : ∀ b ∈ l.bias, b.buffer ≠ l.output.buffer
  fits : l.output.Fits m₀

theorem Plan.For.configured {p : Plan} (hp : p.For input weights output env) (bias : Option View)
    (pooled : Bool) (m : Memory) : (assemble weights bias pooled p m).1.Configured p.product where
  transpose := hp.transpose
  accepted := hp.accepted
  carries := p.product.allocate_carries true pooled m
  kernels := hp.kernels
  multipliable := hp.multipliable
  onePlane := by
    obtain ⟨-, result⟩ := View.reinterpret_eq_ok.1 hp.result
    change p.output.layout.batches = 1
    rw [← result]
    exact Layout.batches_matrix ..

theorem Plan.For.installed {p : Plan} (hp : p.For input weights output env)
    (given : ∀ v ∈ [input, weights, output] ++ bias.toList, v.buffer < m₀.buffers.size)
    (input_ne : input.buffer ≠ output.buffer) (bias_ne : ∀ b ∈ bias, b.buffer ≠ output.buffer)
    (fits : output.Fits m₀) (pooled : Bool) :
    (assemble weights bias pooled p m₀).1.Installed p.product m₀
      (assemble weights bias pooled p m₀).2 := by
  have input_eq : p.input.buffer = input.buffer := buffer_reinterpret hp.rows
  have output_eq : p.output.buffer = output.buffer := buffer_reinterpret hp.result
  have configured := hp.configured bias pooled m₀
  have placed : Layer.Placed m₀ (.fullyConnected (assemble weights bias pooled p m₀).1)
      (assemble weights bias pooled p m₀).2 := by
    refine ⟨allocated weights bias pooled p m₀, ?_⟩
    change ∀ v ∈ [p.input, weights, p.output] ++ bias.toList, v.buffer < m₀.buffers.size
    simp only [List.cons_append, List.nil_append, List.forall_mem_cons, input_eq, output_eq]
      at given ⊢
    exact given
  have matrix_ne := (placed.own_ne List.mem_cons_self (weights_mem _)).symm
  refine ⟨⟨placed, rfl, p.product.allocate_kept true pooled m₀, Reshape.grows_run _ _ _,
    fun m x hx j => ?_, fun m fits => ?_⟩, configured, ?_, ?_, View.fits_reinterpret hp.result fits⟩
  · exact Reshape.byte_run_other configured.accepted matrix_ne hx j
  · exact Reshape.Left.run configured.accepted matrix_ne fits
  · exact fun he => input_ne (input_eq.symm.trans (he.trans output_eq))
  · exact fun b hb he => bias_ne b hb (he.trans output_eq)

/-- Only floating-point types are accepted. -/
theorem exists_dispatched (h : configure input weights bias output pooled env m₀ = .ok (l, m)) :
    ∃ (α : Type) (_ : Element α), Dispatched input.layout.dataType.kind α := by
  obtain ⟨_, checked, -⟩ := bind_eq_ok.1 h
  obtain ⟨_, float, -⟩ := bind_eq_ok.1 (refuse_eq_ok.1 checked)
  exact Dispatched.exists_of_isFloatingPoint (checkFloat_eq_ok.1 float)

theorem run_fst (l : FullyConnected) (d : Device) :
    (l.run d).1 = { l with prepared := true, product := l.product.settle } := by
  rw [run_eq]

theorem grows_run (l : FullyConnected) {busy : BufferId → Prop}
    (hd : d.Stocks busy [l.product.scratch]) : d.memory.Grows (l.run d).2.memory := by
  have transposed := l.grows_transposed d.memory
  rw [run_eq]
  exact (transposed.trans (l.product.grows_run _ _ _ _ (hd.onMemory transposed))).trans
    (l.grows_addBias _)

namespace Installed

variable (hl : l.Installed p m₀ m)

include hl in
theorem kept_ne {first : Option Memory} (h : l.around.Along m q d first) {kept : KeptOperand}
    (hq : kept ∈ q.kept?) {v : View} (hv : v ∈ l.operands) : kept.tensor.buffer ≠ v.buffer :=
  hl.toPlaced.own_ne (hl.kept_own h hq) hv

include hl in
theorem operands (h : l.around.Along m q d (some first)) :
    q.Operands (Layer.fullyConnected l).Busy l.input l.matrix l.output d.memory where
  busy_a := Layer.busy_operand l.input_mem
  busy_b := .inr hl.matrix_own
  busy_t := Layer.busy_operand l.output_mem
  a_ne := hl.input_ne
  b_ne := hl.matrix_ne l.output_mem
  fits := hl.toPlaced.fits h.grows l.output_mem hl.fits
  kept kept hq := by
    have own := hl.kept_own h hq
    exact ⟨Layer.busy_own (b := kept.tensor.block) own, hl.kept_ne h hq l.input_mem,
      hl.toInstalled.kept_ne h hq, hl.kept_ne h hq l.output_mem,
      View.fits_block ((hl.holds h.grows).sized _ own)⟩
  current := h.current

include hl in
theorem readsBias (h : l.around.Along m q d (some first)) :
    { l with product := q, prepared := true }.ReadsBias (Layer.fullyConnected l).Busy where
  busy _ hb := Layer.busy_operand (bias_mem hb)
  output_ne := hl.bias_ne
  kept_ne _ hb _ hq := (hl.kept_ne h hq (bias_mem hb)).symm

include hl in
theorem run_ran (hα : Dispatched l.output.layout.dataType.kind α)
    (h : l.around.Along m q d (some first)) :
    l.around.Ran l.output (fun now first => (List.range l.output.layout.shape.size).map fun j =>
        connectedWord α p.config.target l.input l.weights l.bias now first
          (j / l.output.layout.dim 0) (j % l.output.layout.dim 0))
      q first d ({ l with product := q, prepared := true }.run d).2 := by
  have configured : { l with product := q, prepared := true }.Configured p :=
    { hl.configured with carries := h.since.carries hl.configured.carries }
  have stocks : d.Stocks (Layer.fullyConnected l).Busy [q.scratch] := by
    rw [h.since.scratch]
    exact h.stocks
  have connected := run_prepared_spec configured hα rfl stocks (hl.operands h) (hl.readsBias h)
    (h.remembers first rfl)
  constructor
  · exact grows_run { l with product := q, prepared := true } stocks
  · -- the settled product has the scratch tensors that it was configured with
    have after := stocks_run { l with product := q, prepared := true } stocks
    rw [run_fst] at after
    change Device.Stocks _ _ [l.around.product.scratch]
    rw [← h.since.settle.scratch]
    exact after
  · exact connected.byte l.matrix.buffer (.inr hl.matrix_own) (hl.matrix_ne l.output_mem)
      fun kept hq => (hl.toInstalled.kept_ne h hq).symm
  · exact connected.current
  · rw [View.words_eq_range]
    apply List.map_congr_left
    intro j hj
    have size : l.output.layout.shape.size = l.output.layout.dim 0 * l.output.layout.dim 1 := by
      rw [Shape.size_eq]
      exact (congrArg (_ * ·) hl.configured.onePlane).trans (Nat.mul_one _)
    have row : j / l.output.layout.dim 0 < l.output.layout.dim 1 :=
      Nat.div_lt_of_lt_mul (size ▸ List.mem_range.1 hj)
    have item : (l.output.layout.shape.planes.item j).y = j / l.output.layout.dim 0 :=
      Nat.mod_eq_of_lt row
    rw [connected.load _ (Layout.hasCell_item (List.mem_range.1 hj)), item]
    rfl

include hl in
theorem works (hα : Dispatched l.output.layout.dataType.kind α) :
    l.around.Works prepare run m l.output fun now first =>
      (List.range l.output.layout.shape.size).map fun j =>
        connectedWord α p.config.target l.input l.weights l.bias now first
          (j / l.output.layout.dim 0) (j % l.output.layout.dim 0) where
  prepare_fresh _ _ := rfl
  prepare_again _ _ := rfl
  run_fresh q d := by
    rw [run_eq, run_eq]
    rfl
  run_fst q d := FullyConnected.run_fst { l with product := q, prepared := true } d
  run_ran h := hl.run_ran hα h
  unread m first := by
    have other {v : View} (hv : v ∈ l.operands) := hl.byte_make m v.buffer (hl.matrix_ne hv).symm
    exact List.map_congr_left fun j _ => connectedWord_congr rfl
      (View.words_congr fun _ _ => View.load_congr (other l.input_mem) _)
      (fun b hb => other (bias_mem hb)) ..

end Installed

/-- A fully connected layer keeps its weights, and reads its bias on every run. -/
theorem keepsWeights (configured : configure input weights bias output pooled env d.memory =
      .ok (l, m))
    (stocked : d.Stocks (· ∈ ([input, weights, output] ++ bias.toList).map View.buffer) [])
    (input_ne : input.buffer ≠ output.buffer) (bias_ne : ∀ b ∈ bias, b.buffer ≠ output.buffer)
    (fits : output.Fits d.memory) (hα : Dispatched input.layout.dataType.kind α) :
    KeepsWeights prepare run (Layer.fullyConnected l).lasting
      ([input, weights, output] ++ bias.toList) l ⟨m, d.pool⟩ output fun now first =>
        (List.range output.layout.shape.size).map fun j =>
          connectedWord α env.target input weights bias now first
            (j / output.layout.dim 0) (j % output.layout.dim 0) := by
  rw [configure_eq] at configured
  obtain ⟨p, hp, made⟩ := map_eq_ok.1 configured
  clear configured
  obtain ⟨rfl, rfl⟩ := Prod.mk.inj made.symm
  have planned := plan_eq_ok hp
  have there : ∀ v ∈ [input, weights, output] ++ bias.toList, v.buffer < d.memory.buffers.size :=
    fun v hv => stocked.present _ (List.mem_map_of_mem hv)
  have hl := planned.installed there input_ne bias_ne fits pooled
  have type : p.input.layout.dataType = input.layout.dataType := View.type_reinterpret planned.rows
  have width : p.output.layout.dim 0 = output.layout.dim 0 := by
    obtain ⟨-, view⟩ := View.reinterpret_eq_ok.1 planned.result
    rw [← view]
    exact Shape.dim_ofList _ (by decide)
  have hα : Dispatched p.output.layout.dataType.kind α := by
    rwa [planned.multipliable.targetType, type]
  have same : (assemble weights bias pooled p d.memory).1.operands.map View.buffer =
      ([input, weights, output] ++ bias.toList).map View.buffer := by
    change ([p.input, weights, p.output] ++ bias.toList).map View.buffer = _
    simp [buffer_reinterpret planned.rows, buffer_reinterpret planned.result]
  rw [← same] at stocked
  have matrices := (hl.works hα).keepsWeights hl.toInstalled stocked there
  refine ⟨fun history => ?_, matrices.prepare_again, matrices.prepare_byte, matrices.write⟩
  -- the matrices have the elements of the tensors in the same order
  rw [← View.words_reinterpret planned.result, ← View.size_reinterpret planned.result, ← width,
    ← planned.target]
  refine (matrices.run_words history).trans ?_
  exact List.map_congr_left fun j _ => connectedWord_congr type
    (View.words_reinterpret planned.rows _) (fun _ _ _ => rfl) ..

end FullyConnected

/-! ### Both layers -/

/-- Layers of tensors in different buffers, in any history of writes, other work, preparing and
running. A run leaves what the input then gives with the weights of the first call. A convolution
takes the bias of the first call too, a fully connected layer the bias of the run. -/
theorem configured_keepsWeights
    (distinct : (([input, weights, output] ++ bias.toList).map View.buffer).Nodup)
    (stocked : d.Stocks (· ∈ ([input, weights, output] ++ bias.toList).map View.buffer) [])
    (fits : output.Fits d.memory) (pooled : Bool) (env : Environment) :
    (∀ w l m, GemmConvolution.configure input weights bias output w pooled env d.memory =
        .ok (l, m) →
      ∃ (α : Type) (_ : Element α), Dispatched input.layout.dataType.kind α ∧
        KeepsWeights GemmConvolution.prepare GemmConvolution.run
          (Layer.gemmConvolution l).lasting ([input, weights, output] ++ bias.toList)
          l ⟨m, d.pool⟩ output fun now first =>
            output.layout.shape.sites.map
              (convolvedWord α env.target w input weights bias now first)) ∧
    ∀ l m, FullyConnected.configure input weights bias output pooled env d.memory = .ok (l, m) →
      ∃ (α : Type) (_ : Element α), Dispatched input.layout.dataType.kind α ∧
        KeepsWeights FullyConnected.prepare FullyConnected.run
          (Layer.fullyConnected l).lasting ([input, weights, output] ++ bias.toList)
          l ⟨m, d.pool⟩ output fun now first =>
            (List.range output.layout.shape.size).map fun j =>
              connectedWord α env.target input weights bias now first
                (j / output.layout.dim 0) (j % output.layout.dim 0) := by
  constructor
  · intro w l m configured
    obtain ⟨α, inst, hα⟩ := GemmConvolution.exists_dispatched configured
    exact ⟨α, inst, hα, GemmConvolution.keepsWeights configured stocked fits hα⟩
  · intro l m configured
    obtain ⟨α, inst, hα⟩ := FullyConnected.exists_dispatched configured
    have input_ne : input.buffer ≠ output.buffer := by
      intro he
      simp [he] at distinct
    have bias_ne : ∀ b ∈ bias, b.buffer ≠ output.buffer := by
      rintro b rfl he
      simp [he] at distinct
    exact ⟨α, inst, hα,
      FullyConnected.keepsWeights configured stocked input_ne bias_ne fits hα⟩

/-- A kernel of two taps and two inputs of one output: after a first call the weights and the bias
are overwritten. -/
theorem configured_keepsWeights_rewritten :
    let input : View := ⟨0, .packed (.ofList [2]) .f32⟩
    let weights : View := ⟨1, .packed (.ofList [2]) .f32⟩
    let bias : View := ⟨2, .packed (.ofList [1]) .f32⟩
    let output : View := ⟨3, .packed (.ofList [1]) .f32⟩
    let d : Device := ⟨⟨#[.replicate 8 63, .replicate 8 64, .replicate 4 65, .replicate 4 0,
      .replicate 60 255]⟩, ⟨[⟨4, 60⟩], 1⟩⟩
    let rewrite (d : Device) : Device :=
      (d.onMemory (weights.storeValues · [.zero, .one])).onMemory (bias.storeValues · [.zero])
    (∃ l m, GemmConvolution.configure input weights (some bias) output .default true .unset
        d.memory = .ok (l, m) ∧
      let now := rewrite (l.run ⟨m, d.pool⟩).2
      output.words ((l.run ⟨m, d.pool⟩).1.run now).2.memory =
        output.layout.shape.sites.map
          (convolvedWord Binary32 .default .default input weights (some bias) now.memory m)) ∧
    ∃ l m, FullyConnected.configure input weights (some bias) output true .unset d.memory =
        .ok (l, m) ∧
      let now := rewrite (onDevice FullyConnected.prepare l ⟨m, d.pool⟩).2
      output.words ((l.prepare m).1.run now).2.memory =
        (List.range output.layout.shape.size).map fun j =>
          connectedWord Binary32 .default input weights (some bias) now.memory m
            (j / output.layout.dim 0) (j % output.layout.dim 0) := by
  intro input weights bias output d rewrite
  have convolution : (GemmConvolution.configure input weights (some bias) output .default true
      .unset d.memory).isOk := by decide +kernel
  have connected : (FullyConnected.configure input weights (some bias) output true .unset
      d.memory).isOk := by decide +kernel
  have holds : d.memory.Holds [⟨4, 60⟩] := ⟨by decide, by decide, by decide⟩
  have stocked : d.Stocks (· ∈ ([input, weights, output] ++ (some bias).toList).map View.buffer)
      [] := ⟨by decide, holds, by decide, by simp⟩
  have kept := configured_keepsWeights (by decide) stocked (by decide) true .unset
  constructor
  · cases hl : GemmConvolution.configure input weights (some bias) output .default true .unset
      d.memory with
    | error e => rw [hl] at convolution; cases convolution
    | ok made =>
      obtain ⟨α, inst, hα, keeps⟩ := kept.1 _ _ _ hl
      cases hα
      have written := keeps.write (WeightHistory.ran .start) weights (by simp) [.zero, .one]
      have words := keeps.run_words (keeps.write written bias (by simp) [.zero])
      exact ⟨made.1, made.2, rfl, words⟩
  · cases hl : FullyConnected.configure input weights (some bias) output true .unset
      d.memory with
    | error e => rw [hl] at connected; cases connected
    | ok made =>
      obtain ⟨α, inst, hα, keeps⟩ := kept.2 _ _ hl
      cases hα
      have written := keeps.write (WeightHistory.prepared .start) weights (by simp) [.zero, .one]
      have words := keeps.run_words (keeps.write written bias (by simp) [.zero])
      exact ⟨made.1, made.2, rfl, words⟩

end TileCompute
