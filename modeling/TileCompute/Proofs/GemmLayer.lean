import TileCompute.Proofs.Accumulation
import TileCompute.Proofs.Counterpart
import TileCompute.Proofs.Gemm
import TileCompute.Proofs.History

/-!
# TileCompute.Proofs.GemmLayer

The product of tensors against the product of lists. Both compute `alpha * A * B + beta * C`, the
one on padded tensors with scratch from a pool and the right operand kept between runs, the other
on lists that it lays out anew each time. They agree on the elements, after any history of the
layer, as long as `C` is not the output.

* `GemmLayer.Along`: what is true of a layer at every point of its history.
* `GemmLayer.run_eq_execute`: the two products agree.
* `GemmLayer.run_in_place`: what is accumulated when `C` is the output.
-/

namespace TileCompute

theorem DataType.withFrac_frac (t : DataType) : t.kind.withFrac t.frac = t := by
  cases t <;> rfl

theorem zero_eqv_zero : Binary32.zero.eqv .zero = true := by decide +kernel

/-- The elements of a tensor, the first dimension fastest. -/
def View.elements (α : Type) [Element α] (v : View) (m : Memory) : List α :=
  (v.words m).map Element.ofWord

/-- The product of lists that a product of tensors poses. -/
def ProductOptions.problem (o : ProductOptions) (a b output : Layout) : Gemm where
  m := output.dim 1
  n := output.dim 0
  k := a.dim 0
  batches := output.batches
  bDepth := b.batches
  alpha := o.alpha
  beta := o.beta
  frac := output.dataType.frac
  target := some o.environment.target
  config := o.config
  environment := o.environment

theorem ProductPlan.Kernels.valid {a b t : Layout} {alpha : Binary32} {p : ProductPlan}
    (h : p.Kernels a b t alpha) : p.config.path.Valid := by
  cases h with
  | direct target tile addition valid => exact valid
  | reshaped target h v addition a' b' interleave transpose =>
    exact ⟨transpose.extents_blockTransposed.1, interleave.extents_interleaved.1⟩

section Lists

variable {α : Type} [Element α] {a b t v : View} {m : Memory} {o : ProductOptions}

@[simp] theorem View.length_elements (v : View) (m : Memory) :
    (v.elements α m).length = v.layout.shape.size := by
  simp [elements]

theorem View.getD_elements (m : Memory) {c : Cell} (hc : v.layout.HasCell c) (x : α) :
    (v.elements α m).getD
        (c.z * v.layout.dim 1 * v.layout.dim 0 + c.y * v.layout.dim 0 + c.x) x =
      Element.ofWord (v.load m (v.layout.cell c)) := by
  rw [elements, List.getD_eq_getElem?_getD, List.getElem?_map, View.getElem?_words m hc]
  rfl

theorem Multipliable.poses (hm : Multipliable a.layout b.layout t.layout) (o : ProductOptions)
    (m : Memory) {c : List α} (hc : c.length = t.layout.shape.size) :
    (o.problem a.layout b.layout t.layout).Poses (a.elements α m) (b.elements α m) c where
  left := by
    rw [View.length_elements, Shape.size_eq]
    change a.layout.dim 0 * a.layout.dim 1 * a.layout.batches =
      t.layout.batches * t.layout.dim 1 * a.layout.dim 0
    rw [hm.rows, hm.aBatches]
    ring
  right := by
    rw [View.length_elements, Shape.size_eq]
    change b.layout.dim 0 * b.layout.dim 1 * b.layout.batches =
      b.layout.batches * a.layout.dim 0 * t.layout.dim 0
    rw [hm.columns, hm.depth]
    ring
  result := by
    rw [hc, Shape.size_eq]
    change t.layout.dim 0 * t.layout.dim 1 * t.layout.batches =
      t.layout.batches * t.layout.dim 1 * t.layout.dim 0
    ring
  bDepth_pos := hm.bBatches_pos
  bDepth_le := hm.bBatches_le

theorem ProductOptions.dataType_problem (hα : Dispatched t.layout.dataType.kind α) :
    (o.problem a.layout b.layout t.layout).dataType α = t.layout.dataType := by
  rw [Gemm.dataType, hα.kind_eq]
  exact t.layout.dataType.withFrac_frac

theorem Multiply.element_plain (hm : Multipliable a.layout b.layout t.layout)
    (hα : Dispatched t.layout.dataType.kind α) (g : Target) {c : Cell} (hc : t.layout.HasCell c) :
    (plain a.layout b.layout t.layout o.alpha g).element α a.buffer b.buffer c m =
      (o.problem a.layout b.layout t.layout).scaledDot g (a.elements α m) (b.elements α m)
        c.z c.y c.x := by
  obtain ⟨hx, hy, hz⟩ := hc
  have htype : (o.problem a.layout b.layout t.layout).dataType α = t.layout.dataType :=
    o.dataType_problem hα
  unfold Multiply.element Gemm.scaledDot
  rw [htype]
  refine congrArg (finish t.layout.dataType.frac _) (dot_congr ?_ ?_)
  · intro s hs
    have hcell : a.layout.HasCell ⟨s, c.y, c.z⟩ := ⟨hs, hm.rows ▸ hy, hm.aBatches ▸ hz⟩
    have h := (View.getD_elements m hcell (zeroElement α)).symm
    rw [hm.rows] at h
    exact h
  · intro s hs
    have hcell : b.layout.HasCell ⟨c.x, s, c.z % b.layout.batches⟩ :=
      ⟨hm.columns ▸ hx, (show s < b.layout.dim 1 from hm.depth ▸ hs),
        Nat.mod_lt _ hm.bBatches_pos⟩
    have h := (View.getD_elements m hcell (zeroElement α)).symm
    rw [hm.columns, hm.depth] at h
    exact h

/-- A tensor with the entries of a problem in its cells has them as its elements. -/
theorem View.elements_eq_entries {g : Target} {xs ys zs : List α}
    (h : ∀ c, t.layout.HasCell c → t.load m (t.layout.cell c) = Element.toWord
      ((o.problem a.layout b.layout t.layout).entry g xs ys zs c.z c.y c.x)) :
    t.elements α m = (o.problem a.layout b.layout t.layout).entries g xs ys zs := by
  have hsize : t.layout.shape.size =
      t.layout.batches * t.layout.dim 1 * t.layout.dim 0 := by
    rw [Shape.size_eq, Layout.batches, Layout.dim, Layout.dim]
    ring
  rw [elements, words_eq_range, List.map_map, Gemm.entries, hsize]
  apply List.map_congr_left
  intro i hi
  have hcell := Layout.hasCell_item (hsize ▸ List.mem_range.1 hi)
  rw [Function.comp_apply, h _ hcell, Element.ofWord_toWord]
  rfl

end Lists

/-- With a factor for it, each element of `C` is added to one of the product. -/
theorem Gemm.entries_eq_zipWith {α : Type} [Element α] {g : Gemm} (target : Target)
    (a b : List α) {c : List α} (used : g.beta.eqv .zero = false)
    (hc : c.length = g.batches * g.m * g.n) (c₀ : List α) :
    g.entries target a b c = List.zipWith
      (fun x y => Element.scaledAdd (g.dataType α).frac x y
        (Element.ofBinary32 (g.dataType α).frac g.beta))
      ({ g with beta := .zero }.entries target a b c₀) c := by
  apply List.ext_getElem
  · rw [List.length_zipWith, length_entries, length_entries, hc]
    exact (Nat.min_self _).symm
  · intro l hl hl'
    have hlc : l < c.length := by
      rw [hc]
      rwa [length_entries] at hl
    rw [List.getElem_zipWith]
    simp only [entries, List.getElem_map, List.getElem_range, entry, used, zero_eqv_zero,
      index_eq, List.getD_eq_getElem?_getD, List.getElem?_eq_getElem hlc]
    rfl

namespace GemmLayer

variable {a b output : View} {c : Option View} {o : ProductOptions} {p : ProductPlan}
  {l₀ l : GemmLayer} {m₀ m : Memory} {d d' : Device} {α : Type} [Element α]

/-- A layer that was configured in `m₀`, where its tensors are, leaving `m`. Only `C` may be the
output, and then with the output's layout. -/
structure Installed (l₀ : GemmLayer) (o : ProductOptions) (p : ProductPlan) (m₀ m : Memory) :
    Prop where
  carries : l₀.product.Carries p
  kernels : p.Kernels l₀.a.layout l₀.b.layout l₀.output.layout o.alpha
  multipliable : Multipliable l₀.a.layout l₀.b.layout l₀.output.layout
  config : p.config = MatrixProduct.resolvedConfig l₀.a.layout l₀.output.layout o
  addition : MatrixProduct.configureAddition .exact (l₀.c.map View.layout) l₀.output.layout o.beta =
    .ok p.addition
  placed : Layer.Placed m₀ (.gemm l₀) m
  undone : ∀ k ∈ l₀.product.kept?, k.done = false
  a_ne : l₀.a.buffer ≠ l₀.output.buffer
  b_ne : l₀.b.buffer ≠ l₀.output.buffer
  aligned : ∀ v ∈ l₀.c, v.buffer = l₀.output.buffer → v.layout = l₀.output.layout
  fits : l₀.output.Fits m₀

theorem configure_eq_ok (h : configure a b c output o m₀ = .ok (l, m)) :
    (l.a = a ∧ l.b = b ∧ l.c = c ∧ l.output = output) ∧
      ((∀ v ∈ [a, b, output] ++ c.toList, v.buffer < m₀.buffers.size) →
        a.buffer ≠ output.buffer → b.buffer ≠ output.buffer →
        (∀ v ∈ c, v.buffer = output.buffer → v.layout = output.layout) → output.Fits m₀ →
        ∃ p, l.Installed o p m₀ m) := by
  rw [configure_eq] at h
  obtain ⟨p, hp, hl⟩ := map_eq_ok.1 h
  have allocated := allocated a b c output o.keepRight o.pooled p m₀
  have carries := p.allocate_carries o.keepRight o.pooled m₀
  have undone := p.allocate_kept o.keepRight o.pooled m₀
  obtain ⟨multipliable, kernels, config, addition⟩ := ProductPlan.make_eq_ok hp
  rw [hl] at allocated
  cases hl
  refine ⟨⟨rfl, rfl, rfl, rfl⟩, ?_⟩
  intro given a_ne b_ne aligned fits
  exact ⟨p, carries, kernels, multipliable, config, addition, ⟨allocated, given⟩, undone, a_ne,
    b_ne, aligned, fits⟩

/-- A layer at a point of its history. -/
structure Along (l₀ : GemmLayer) (m : Memory) (l : GemmLayer) (d : Device) : Prop extends
    l₀.product.Along l₀.b.buffer (Layer.gemm l₀).Busy [l₀.product.scratch] m l.product d where
  same : l = { l₀ with product := l.product }

theorem a_mem (l : GemmLayer) : l.a ∈ l.operands := by simp [operands]

theorem b_mem (l : GemmLayer) : l.b ∈ l.operands := by simp [operands]

theorem output_mem (l : GemmLayer) : l.output ∈ l.operands := by simp [operands]

namespace Along

theorem start (hl : l₀.Installed o p m₀ m) {pool : Pool}
    (stocks : Device.Stocks ⟨m₀, pool⟩ (· ∈ l₀.operands.map View.buffer) []) :
    Along l₀ m l₀ ⟨m, pool⟩ where
  toAlong := .start hl.undone (hl.placed.stocks stocks)
  same := rfl

/-- Other work, with the right operand and what was kept of it left alone. -/
theorem meanwhile (h : Along l₀ m l d)
    (work : d.Meanwhile (fun x => x = l₀.b.buffer ∨ x ∈ l₀.product.lasting.map Block.buffer) d') :
    Along l₀ m l d' :=
  ⟨h.toAlong.meanwhile work (.inl rfl) fun _ hb => .inr (List.mem_map_of_mem hb), h.same⟩

/-- Before the first run the right operand may be written too. -/
theorem before (h : Along l₀ m l₀ d) (hl : l₀.Installed o p m₀ m) {kept : BufferId → Prop}
    (work : d.Meanwhile kept d') : Along l₀ m l₀ d' :=
  ⟨h.toAlong.after work (.of_undone hl.undone _ _), h.same⟩

/-- What is kept is none of the tensors that the layer was given. -/
theorem kept_ne (hl : l₀.Installed o p m₀ m) {q : MatrixProduct} (since : l₀.product.Since q)
    {k : KeptOperand} (hk : k ∈ q.kept?) {v : View} (hv : v ∈ l₀.operands) :
    k.tensor.buffer ≠ v.buffer :=
  hl.placed.own_ne (since.mem_lasting hk) hv

theorem operands (hl : l₀.Installed o p m₀ m) (h : Along l₀ m l d) :
    l.product.Operands (Layer.gemm l₀).Busy l₀.a l₀.b l₀.output d.memory where
  busy_a := Layer.busy_operand l₀.a_mem
  busy_b := Layer.busy_operand l₀.b_mem
  busy_t := Layer.busy_operand l₀.output_mem
  a_ne := hl.a_ne
  b_ne := hl.b_ne
  fits := hl.placed.fits h.grows l₀.output_mem hl.fits
  kept := by
    intro k hk
    have own := h.since.mem_lasting hk
    have apart {v : View} (hv : v ∈ l₀.operands) := kept_ne hl h.since hk hv
    exact ⟨Layer.busy_own (b := k.tensor.block) own, apart l₀.a_mem, apart l₀.b_mem,
      apart l₀.output_mem, View.fits_block ((hl.placed.holds h.grows).sized _ own)⟩
  current := h.current

theorem produced (hl : l₀.Installed o p m₀ m) (h : Along l₀ m l d)
    (hα : Dispatched l₀.output.layout.dataType.kind α) :
    l.product.Produced (Layer.gemm l₀).Busy l₀.a l₀.b l₀.output o.alpha p.config.target α d.memory
      l.product.settle (l.product.run l₀.a l₀.b none l₀.output d).2.memory := by
  have stocks := h.stocks
  rw [← h.since.scratch] at stocks
  have spec := MatrixProduct.run_spec (h.since.carries hl.carries) hl.kernels hl.multipliable hα
    stocks (h.operands hl)
  rwa [MatrixProduct.run_fst] at spec

theorem addition (hl : l₀.Installed o p m₀ m) (h : Along l₀ m l d) :
    MatrixProduct.configureAddition .exact (l₀.c.map View.layout) l₀.output.layout o.beta =
      .ok l.product.addition := by
  rw [(h.since.carries hl.carries).addition]
  exact hl.addition

theorem run_eq (h : Along l₀ m l d) :
    (l.run d).2 = (l.product.run l₀.a l₀.b l₀.c l₀.output d).2 := by
  have same := h.same
  generalize l.product = q at *
  subst same
  rfl

theorem call (hl : l₀.Installed o p m₀ m) (h : Along l₀ m l d) :
    Along l₀ m (l.run d).1 (l.run d).2 := by
  obtain ⟨α, inst, hα⟩ :=
    Dispatched.exists_of_ne (hl.multipliable.targetType ▸ hl.multipliable.kind)
  have produced := h.produced hl hα
  have stocks := h.stocks
  rw [← h.since.scratch] at stocks
  have same := h.same
  refine ⟨⟨?_, ?_, ?_, ?_⟩, ?_⟩
  · rw [run_fst]
    exact h.since.settle
  · rw [h.run_eq]
    exact h.grows.trans (l.product.grows_run _ _ _ _ stocks)
  · rw [h.run_eq, ← h.since.scratch]
    exact l.product.stocks_run _ _ _ _ stocks
  · rw [run_fst, h.run_eq, MatrixProduct.memory_run]
    -- the addition stores to the output only
    have other {x : BufferId} (hx : x ≠ l₀.output.buffer) (j : Nat) :=
      MatrixProduct.byte_addC_other (d := (l.product.run l₀.a l₀.b none l₀.output d).2) hα
        (h.addition hl) hl.aligned hx j
    refine produced.current.congr (other hl.b_ne) fun k hk => other ?_
    exact kept_ne hl h.since.settle hk l₀.output_mem
  · rw [run_fst]
    generalize l.product = q at *
    subst same
    rfl

/-- Writing any tensor that was there before the layer, but for the right operand, is other work. -/
theorem rewrite (hl : l₀.Installed o p m₀ m) (h : Along l₀ m l d) {v : View}
    (hv : v.buffer < m₀.buffers.size) (hb : v.buffer ≠ l₀.b.buffer) (values : List Binary32) :
    d.Meanwhile (fun x => x = l₀.b.buffer ∨ x ∈ l₀.product.lasting.map Block.buffer)
      (d.onMemory (v.storeValues · values)) := by
  refine .rewrite ?_ values h.stocks.free
  rintro (he | own)
  · exact hb he
  · exact hl.placed.notMem_own hv own

theorem of_history (hl : l₀.Installed o p m₀ m) {first : Option Memory} (h : Along l₀ m l₀ d)
    (history : History [GemmLayer.run]
      (fun x => x = l₀.b.buffer ∨ x ∈ l₀.product.lasting.map Block.buffer) l₀ d l d' first) :
    Along l₀ m l d' := by
  induction history with
  | start => exact h
  | meanwhile _ work ih => exact ih.meanwhile work
  | call _ mem ih =>
    cases List.mem_singleton.1 mem
    exact ih.call hl

end Along

section Agreement

/-- Both products choose the same configuration. -/
theorem resolvedConfig_problem {α : Type} [Element α] {a b t : Layout}
    (ht : ((o.problem a b t).dataType α) = a.dataType) :
    (o.problem a b t).resolvedConfig α = MatrixProduct.resolvedConfig a t o := by
  rw [Gemm.resolvedConfig, ht]
  rfl

variable (hl : l₀.Installed o p m₀ m) (h : Along l₀ m l d)
  (hα : Dispatched l₀.output.layout.dataType.kind α)

include hl hα in
theorem execute_eq (beta : Binary32) (mem : Memory) {c : List α}
    (hc : c.length = l₀.output.layout.shape.size) :
    let g := { o with beta }.problem l₀.a.layout l₀.b.layout l₀.output.layout
    g.execute (l₀.a.elements α mem) (l₀.b.elements α mem) c =
      (.ok (), g.entries p.config.target (l₀.a.elements α mem) (l₀.b.elements α mem) c) := by
  intro g
  have htype : g.dataType α = l₀.a.layout.dataType :=
    (ProductOptions.dataType_problem hα).trans hl.multipliable.targetType
  have hconfig : g.resolvedConfig α = p.config := by
    rw [hl.config]
    exact resolvedConfig_problem htype
  have execute := Gemm.execute_eq (g := g) (by rw [hα.kind_eq]; exact hα)
    (hl.multipliable.poses _ mem hc) (by rw [hconfig]; exact hl.kernels.valid)
  rwa [hconfig] at execute

include hl h hα in
theorem fits_multiplied :
    l₀.output.Fits (l.product.run l₀.a l₀.b none l₀.output d).2.memory := by
  have operands := h.operands hl
  exact operands.fits.grow (h.produced hl hα).grows (h.stocks.present _ operands.busy_t)

include hl h hα in
/-- The multiply alone leaves the entries without `C`. -/
theorem load_multiplied {cell : Cell} (hcell : l₀.output.layout.HasCell cell) :
    l₀.output.load (l.product.run l₀.a l₀.b none l₀.output d).2.memory
        (l₀.output.layout.cell cell) =
      Element.toWord ((o.problem l₀.a.layout l₀.b.layout l₀.output.layout).scaledDot
        p.config.target (l₀.a.elements α d.memory) (l₀.b.elements α d.memory)
        cell.z cell.y cell.x) := by
  rw [(h.produced hl hα).load cell hcell, Multiply.value,
    Multiply.element_plain hl.multipliable hα _ hcell]

include hl h hα in
theorem elements_multiplied (c₀ : List α) :
    l₀.output.elements α (l.product.run l₀.a l₀.b none l₀.output d).2.memory =
      ({ o with beta := .zero }.problem l₀.a.layout l₀.b.layout l₀.output.layout).entries
        p.config.target (l₀.a.elements α d.memory) (l₀.b.elements α d.memory) c₀ := by
  apply View.elements_eq_entries
  intro cell hcell
  rw [load_multiplied hl h hα hcell]
  exact congrArg Element.toWord (if_pos zero_eqv_zero).symm

include hl h hα in
theorem elements_run_plain (unused : l₀.c = none ∨ o.beta.eqv .zero) (c₀ : List α) :
    l₀.output.elements α (l.run d).2.memory =
      ({ o with beta := .zero }.problem l₀.a.layout l₀.b.layout l₀.output.layout).entries
        p.config.target (l₀.a.elements α d.memory) (l₀.b.elements α d.memory) c₀ := by
  have none : l.product.addition = none :=
    MatrixProduct.configureAddition_none (h.addition hl)
      (unused.imp (fun hc => by rw [hc]; rfl) id)
  rw [h.run_eq, MatrixProduct.memory_run, MatrixProduct.addC_of_addition_none none]
  exact elements_multiplied hl h hα c₀

include hl h hα in
/-- A run with an addition, which finds `C` as it is after the multiply. -/
theorem elements_run_added {v : View} (hv : v ∈ l₀.c) (used : o.beta.eqv .zero = false)
    {zs : List α} (hzs : ∀ cell, l₀.output.layout.HasCell cell →
      Element.ofWord (v.load (l.product.run l₀.a l₀.b none l₀.output d).2.memory
        (v.layout.cell cell)) =
      zs.getD (cell.z * l₀.output.layout.dim 1 * l₀.output.layout.dim 0 +
        cell.y * l₀.output.layout.dim 0 + cell.x) (zeroElement α)) :
    l₀.output.elements α (l.run d).2.memory =
      (o.problem l₀.a.layout l₀.b.layout l₀.output.layout).entries p.config.target
        (l₀.a.elements α d.memory) (l₀.b.elements α d.memory) zs := by
  have addition := h.addition hl
  have hc : l₀.c = some v := hv
  rw [hc] at addition
  apply View.elements_eq_entries
  intro cell hcell
  have htype : (o.problem l₀.a.layout l₀.b.layout l₀.output.layout).dataType α =
      l₀.output.layout.dataType := ProductOptions.dataType_problem hα
  rw [h.run_eq, hc, MatrixProduct.load_run_added hα addition used (hl.aligned v hv)
    (fits_multiplied hl h hα) hcell (load_multiplied hl h hα hcell), hzs cell hcell, Gemm.entry,
    htype]
  simp only [ProductOptions.problem, used]
  rfl

include hl h hα in
/-- A tensor `C` apart from the output is added as it was before the run. -/
theorem elements_run_apart {v : View} (hv : v ∈ l₀.c) (used : o.beta.eqv .zero = false)
    (apart : v.buffer ≠ l₀.output.buffer) :
    v.layout.shape.size = l₀.output.layout.shape.size ∧
      l₀.output.elements α (l.run d).2.memory =
        (o.problem l₀.a.layout l₀.b.layout l₀.output.layout).entries p.config.target
          (l₀.a.elements α d.memory) (l₀.b.elements α d.memory) (v.elements α d.memory) := by
  have addition := hl.addition
  have hc : l₀.c = some v := hv
  rw [hc] at addition
  obtain ⟨-, accepted⟩ := MatrixProduct.configureAddition_some addition used
  have width : v.layout.dim 0 = l₀.output.layout.dim 0 := accepted.width
  have height : v.layout.dim 1 = l₀.output.layout.dim 1 := accepted.height
  have batches : v.layout.batches = l₀.output.layout.batches := accepted.batches
  have mem : v ∈ l₀.operands := by simp [GemmLayer.operands, hc]
  -- the layouts may differ in padding, so `C` is compared by its list of elements
  refine ⟨?_, elements_run_added hl h hα hv used fun cell hcell => ?_⟩
  · rw [Shape.size_eq, Shape.size_eq]
    change v.layout.dim 0 * v.layout.dim 1 * v.layout.batches = _
    rw [width, height, batches]
    rfl
  · have hcell' : v.layout.HasCell cell := by
      rw [Layout.HasCell, width, height, batches]
      exact hcell
    have unchanged (j : Nat) : (l.product.run l₀.a l₀.b none l₀.output d).2.memory.byte v.buffer j =
        d.memory.byte v.buffer j := by
      refine (h.produced hl hα).byte v.buffer (Layer.busy_operand mem) apart (fun k hk => ?_) j
      exact (Along.kept_ne hl h.since hk mem).symm
    rw [View.load_congr unchanged, ← width, ← height]
    exact (View.getD_elements d.memory hcell' (zeroElement α)).symm

include hl h hα in
/-- An output that is also `C` is added to itself: what it held before the run is gone by then. -/
theorem elements_run_in_place (hc : l₀.c = some l₀.output) (used : o.beta.eqv .zero = false)
    (c₀ : List α) :
    l₀.output.elements α (l.run d).2.memory =
      (o.problem l₀.a.layout l₀.b.layout l₀.output.layout).entries p.config.target
        (l₀.a.elements α d.memory) (l₀.b.elements α d.memory)
        (({ o with beta := .zero }.problem l₀.a.layout l₀.b.layout l₀.output.layout).entries
          p.config.target (l₀.a.elements α d.memory) (l₀.b.elements α d.memory) c₀) := by
  rw [← elements_multiplied hl h hα c₀]
  refine elements_run_added hl h hα (v := l₀.output) hc used fun cell hcell => ?_
  exact (View.getD_elements _ hcell (zeroElement α)).symm

end Agreement

/-- The product of tensors agrees with the product of lists, on the elements that its operands have
when it is run: after any history with the right operand unchanged since before the first run, for
any padding, path and source of scratch tensors. `C` counts if it is there with a factor, and then
it is apart from the output. -/
theorem run_eq_execute (configured : configure a b c output o d.memory = .ok (l₀, m))
    (stocked : d.Stocks (· ∈ ([a, b, output] ++ c.toList).map View.buffer) [])
    (apart : ∀ v ∈ [a, b] ++ c.toList, v.buffer ≠ output.buffer) (fits : output.Fits d.memory)
    {d₀ : Device}
    (before : Device.Meanwhile (· ∈ l₀.product.lasting.map Block.buffer) ⟨m, d.pool⟩ d₀)
    {first : Option Memory}
    (history : History [GemmLayer.run]
      (fun x => x = b.buffer ∨ x ∈ l₀.product.lasting.map Block.buffer) l₀ d₀ l d' first)
    (hα : Dispatched output.layout.dataType.kind α) :
    (∀ v ∈ c, o.beta.eqv .zero = false →
      (o.problem a.layout b.layout output.layout).execute (a.elements α d'.memory)
          (b.elements α d'.memory) (v.elements α d'.memory) =
        (.ok (), output.elements α (l.run d').2.memory)) ∧
    (c = none ∨ o.beta.eqv .zero → ∀ c₀ : List α, c₀.length = output.layout.shape.size →
      ({ o with beta := .zero }.problem a.layout b.layout output.layout).execute
          (a.elements α d'.memory) (b.elements α d'.memory) c₀ =
        (.ok (), output.elements α (l.run d').2.memory)) := by
  obtain ⟨⟨rfl, rfl, rfl, rfl⟩, installed⟩ := configure_eq_ok configured
  obtain ⟨p, hl⟩ := installed (fun v hv => stocked.present _ (List.mem_map_of_mem hv))
    (apart _ (by simp)) (apart _ (by simp)) (fun v hv he => absurd he (apart v (by simp_all))) fits
  have started := (Along.start hl stocked).before hl before
  have along := started.of_history hl history
  refine ⟨fun v hv used => ?_, fun unused c₀ hc₀ => ?_⟩
  · have hv' : v ∈ [l₀.a, l₀.b] ++ l₀.c.toList := by simp_all
    obtain ⟨size, elements⟩ := elements_run_apart hl along hα hv used (apart v hv')
    rw [elements]
    exact execute_eq hl hα o.beta d'.memory ((View.length_elements ..).trans size)
  · rw [elements_run_plain hl along hα unused c₀]
    exact execute_eq hl hα .zero d'.memory hc₀

/-- Two runs on the reshaped path, the left operand rewritten in between. -/
theorem run_eq_execute_rewritten :
    let a : View := ⟨0, ⟨.ofList [2, 2], .qs8 3, .uniform 1⟩⟩
    let b : View := ⟨1, .packed (.ofList [2, 2]) (.qs8 3)⟩
    let c : View := ⟨2, .packed (.ofList [2, 2]) (.qs8 3)⟩
    let output : View := ⟨3, .packed (.ofList [2, 2]) (.qs8 3)⟩
    let o : ProductOptions := ⟨.one, .one, true, some ⟨.bifrost, .reshaped 1 1⟩, true,
      .unset⟩
    let d : Device := ⟨⟨#[.replicate 16 1, .replicate 4 2, .replicate 4 3, .replicate 4 0,
      .replicate 64 255]⟩, ⟨[⟨4, 64⟩], 1⟩⟩
    ∃ l m, configure a b (some c) output o d.memory = .ok (l, m) ∧
      let d₁ := (l.run ⟨m, d.pool⟩).2.onMemory (a.storeValues · [.one, .zero, .one, .one])
      (o.problem a.layout b.layout output.layout).execute (a.elements Q8 d₁.memory)
          (b.elements Q8 d₁.memory) (c.elements Q8 d₁.memory) =
        (.ok (), output.elements Q8 ((l.run ⟨m, d.pool⟩).1.run d₁).2.memory) := by
  intro a b c output o d
  have accepted : (configure a b (some c) output o d.memory).isOk := by decide +kernel
  have holds : d.memory.Holds [⟨4, 64⟩] := ⟨by decide, by decide, by decide⟩
  have stocked : d.Stocks (· ∈ ([a, b, output] ++ (some c).toList).map View.buffer) [] :=
    ⟨by decide, holds, by decide, by simp⟩
  have apart : ∀ v ∈ [a, b] ++ (some c).toList, v.buffer ≠ output.buffer := by decide
  have fits : output.Fits d.memory := by decide
  cases hl : configure a b (some c) output o d.memory with
  | error e => rw [hl] at accepted; cases accepted
  | ok made =>
    obtain ⟨l, m⟩ := made
    obtain ⟨⟨ha, hb, hc, ho⟩, installed⟩ := configure_eq_ok hl
    obtain ⟨p, installed⟩ := installed (by decide) (by decide) (by decide) (by decide) fits
    have operands : l.operands = [a, b, output, c] := by
      rw [GemmLayer.operands, ha, hb, hc, ho]
      rfl
    have started : Along l m l ⟨m, d.pool⟩ :=
      Along.start installed (by rw [operands]; exact stocked)
    have history := (History.start.call (List.mem_singleton.2 rfl)).meanwhile
      ((started.call installed).rewrite installed (v := a) (by decide) (by rw [hb]; decide)
        [.one, .zero, .one, .one])
    rw [hb] at history
    exact ⟨l, m, rfl, (run_eq_execute hl stocked apart fits (.refl started.stocks.free) history
      .q8).1 c rfl (by decide)⟩

/-- Where `C` is the output, the multiple that is added is one of the product, not of what the
output held before the run; the product of lists on the same operands adds that. So the two agree
only where the old elements and those of the product come to the same. -/
theorem run_in_place
    (configured : configure a b (some output) output o d.memory = .ok (l₀, m))
    (stocked : d.Stocks (· ∈ [a, b, output].map View.buffer) [])
    (apart : ∀ v ∈ [a, b], v.buffer ≠ output.buffer) (fits : output.Fits d.memory)
    (used : o.beta.eqv .zero = false) {d₀ : Device}
    (before : Device.Meanwhile (· ∈ l₀.product.lasting.map Block.buffer) ⟨m, d.pool⟩ d₀)
    {first : Option Memory}
    (history : History [GemmLayer.run]
      (fun x => x = b.buffer ∨ x ∈ l₀.product.lasting.map Block.buffer) l₀ d₀ l d' first)
    (hα : Dispatched output.layout.dataType.kind α) :
    let frac := output.layout.dataType.frac
    let accumulate (x y : α) := Element.scaledAdd frac x y (Element.ofBinary32 frac o.beta)
    let old := output.elements α d'.memory
    ∃ product : List α,
      ({ o with beta := .zero }.problem a.layout b.layout output.layout).execute
          (a.elements α d'.memory) (b.elements α d'.memory) old = (.ok (), product) ∧
      output.elements α (l.run d').2.memory = List.zipWith accumulate product product ∧
      (o.problem a.layout b.layout output.layout).execute
          (a.elements α d'.memory) (b.elements α d'.memory) old =
        (.ok (), List.zipWith accumulate product old) := by
  obtain ⟨⟨rfl, rfl, hc, rfl⟩, installed⟩ := configure_eq_ok configured
  have given (x : BufferId) (hx : x ∈ l₀.operands.map View.buffer) :
      x ∈ [l₀.a, l₀.b, l₀.output].map View.buffer := by
    simpa [GemmLayer.operands, hc] using hx
  have stocked := stocked.mono given
  obtain ⟨p, hl⟩ := installed
    (fun v hv => stocked.present v.buffer (List.mem_map_of_mem (by rwa [GemmLayer.operands, hc])))
    (apart _ (by simp)) (apart _ (by simp)) (fun v hv _ => by cases hv; rfl) fits
  have started := (Along.start hl stocked).before hl before
  have along := started.of_history hl history
  intro frac accumulate old
  have hold : old.length = l₀.output.layout.shape.size := View.length_elements ..
  have htype : (o.problem l₀.a.layout l₀.b.layout l₀.output.layout).dataType α =
      l₀.output.layout.dataType := ProductOptions.dataType_problem hα
  -- the entries with `C` are those without it, each with an element of `C` added
  have entries {c : List α} (length : c.length = l₀.output.layout.shape.size) :=
    Gemm.entries_eq_zipWith (g := o.problem l₀.a.layout l₀.b.layout l₀.output.layout)
      p.config.target (l₀.a.elements α d'.memory) (l₀.b.elements α d'.memory) used
      (hl.multipliable.poses o d'.memory length).result old
  rw [htype] at entries
  refine ⟨_, execute_eq hl hα .zero d'.memory hold, ?_, ?_⟩
  · rw [elements_run_in_place hl along hα hc used old]
    refine entries ?_
    rw [← elements_multiplied hl along hα old, View.length_elements]
  · exact (execute_eq hl hα o.beta d'.memory hold).trans (congrArg (Prod.mk _) (entries hold))

theorem run_in_place_small :
    let a : View := ⟨0, .packed (.ofList [1, 2]) .f16⟩
    let b : View := ⟨1, .packed (.ofList [2]) .f16⟩
    let output : View := ⟨2, .packed (.ofList [2, 2]) .f16⟩
    let o : ProductOptions := ⟨.one, .one, false, some ⟨.midgard, .direct ⟨2, 2⟩⟩, true, .unset⟩
    let d : Device := ⟨⟨#[.replicate 4 60, .replicate 4 61, .replicate 8 62]⟩, ⟨[], 0⟩⟩
    let accumulate (x y : Binary16) := Element.scaledAdd 0 x y (Element.ofBinary32 0 o.beta)
    ∃ l m, configure a b (some output) output o d.memory = .ok (l, m) ∧ ∃ product,
      ({ o with beta := .zero }.problem a.layout b.layout output.layout).execute
          (a.elements Binary16 m) (b.elements Binary16 m) (output.elements Binary16 m) =
        (.ok (), product) ∧
      output.elements Binary16 (l.run ⟨m, d.pool⟩).2.memory =
        List.zipWith accumulate product product := by
  intro a b output o d accumulate
  have accepted : (configure a b (some output) output o d.memory).isOk := by decide +kernel
  have stocked : d.Stocks (· ∈ [a, b, output].map View.buffer) [] :=
    ⟨by decide, .nil _, by decide, by simp⟩
  have apart : ∀ v ∈ [a, b], v.buffer ≠ output.buffer := by decide
  have fits : output.Fits d.memory := by decide
  cases hl : configure a b (some output) output o d.memory with
  | error e => rw [hl] at accepted; cases accepted
  | ok made =>
    obtain ⟨l, m⟩ := made
    obtain ⟨product, executed, ran, -⟩ := run_in_place hl stocked apart fits (by decide)
      (.refl (.nil m)) .start .binary16
    exact ⟨l, m, rfl, product, executed, ran⟩

/-- One element, `1 * 1` accumulated onto `5`: the product of lists gives `6`, the layer `2`. -/
theorem run_in_place_loses_old :
    let a : View := ⟨0, .packed (.ofList [1]) .f32⟩
    let b : View := ⟨1, .packed (.ofList [1]) .f32⟩
    let output : View := ⟨2, .packed (.ofList [1]) .f32⟩
    let o : ProductOptions := ⟨.one, .one, false, none, false, ⟨.midgard, false⟩⟩
    let d : Device := ⟨⟨#[#[0, 0, 0x80, 0x3f], #[0, 0, 0x80, 0x3f], #[0, 0, 0xa0, 0x40]]⟩, ⟨[], 0⟩⟩
    (o.problem a.layout b.layout output.layout).execute (a.elements Binary32 d.memory)
        (b.elements Binary32 d.memory) (output.elements Binary32 d.memory) =
      (.ok (), [⟨0x40c00000⟩]) ∧
    (configure a b (some output) output o d.memory).map
        (fun (l, m) => output.elements Binary32 (l.run ⟨m, d.pool⟩).2.memory) =
      .ok [⟨0x40000000⟩] := by
  decide +kernel

end GemmLayer
end TileCompute
