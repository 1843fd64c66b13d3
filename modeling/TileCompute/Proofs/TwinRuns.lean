import TileCompute.Proofs.ConvolutionRun
import TileCompute.Proofs.TwinLayers

/-!
# TileCompute.Proofs.TwinRuns

Layers with scratch tensors, run on two devices. Alike layers have the same operands and were
configured alike, each with tensors of its own; a run of both leaves twins twins and the layers
alike, wherever the scratch tensors of either come from.
-/

namespace TileCompute

variable {R : Pairing} {m m' : Memory} {busy busy' : BufferId → Prop} {d d' : Device}
  {rest rest' : List ScratchGroup}

/-- Products of the same plan, some one. -/
def MatrixProduct.Paired (R : Pairing) (q q' : MatrixProduct) : Prop :=
  ∃ p la lb lt alpha, ProductPlan.Kernels la lb lt alpha p ∧ Multipliable la lb lt ∧ q.Alike R p q'

theorem MatrixProduct.Paired.run {q q' : MatrixProduct} (hq : q.Paired R q')
    (within : R.Within busy busy') (hd : d.Stocks busy (q.scratch :: rest))
    (hd' : d'.Stocks busy' (q'.scratch :: rest')) (h : R.Twin d.memory d'.memory)
    {a a' b b' t t' : View} (ha : R.Whole a.buffer a'.buffer) (hb : R.Whole b.buffer b'.buffer)
    (ht : R.Whole t.buffer t'.buffer) {c : Option View} (hc : R.Shared c.toList) :
    R.Twin (q.run a b c t d).2.memory (q'.run a' b' c t' d').2.memory := by
  obtain ⟨p, la, lb, lt, alpha, hp, hm, hq⟩ := hq
  exact (hq.run hp hm within hd hd' h (ha.knows _ _) (hb.knows _ _) (ht.room _)
    fun v hv => ⟨hc v (by simpa using hv), ht⟩).mono (R.le_tell ..)

theorem MatrixProduct.Paired.mono {R' : Pairing} {q q' : MatrixProduct} (hq : q.Paired R q')
    (hR : R ≤ R') : q.Paired R' q' := by
  obtain ⟨p, la, lb, lt, alpha, hp, hm, hq⟩ := hq
  exact ⟨p, la, lb, lt, alpha, hp, hm, hq.mono hR⟩

theorem MatrixProduct.Paired.settle {q q' : MatrixProduct} (hq : q.Paired R q') :
    q.settle.Paired R q'.settle := by
  obtain ⟨p, la, lb, lt, alpha, hp, hm, hq⟩ := hq
  exact ⟨p, la, lb, lt, alpha, hp, hm, hq.settle⟩

/-! ### Products as layers -/

def GemmLayer.operands (l : GemmLayer) : List View := [l.a, l.b, l.output] ++ l.c.toList

structure GemmLayer.Alike (R : Pairing) (l l' : GemmLayer) : Prop where
  same : l' = { l with product := l'.product }
  product : l.product.Paired R l'.product
  shared : R.Shared l.operands

namespace GemmLayer

variable {l l' : GemmLayer}

theorem run_fst (l : GemmLayer) (d : Device) :
    (l.run d).1 = { l with product := l.product.settle } := by
  rw [run, ← l.product.run_fst l.a l.b l.c l.output d]

theorem Alike.mono {R' : Pairing} (hl : l.Alike R l') (hR : R ≤ R') : l.Alike R' l' :=
  ⟨hl.same, hl.product.mono hR, hl.shared.mono hR⟩

theorem Alike.run (hl : l.Alike R l') (within : R.Within busy busy')
    (hd : d.Stocks busy (l.product.scratch :: rest))
    (hd' : d'.Stocks busy' (l'.product.scratch :: rest')) (h : R.Twin d.memory d'.memory) :
    (l.run d).1.Alike R (l'.run d').1 ∧ R.Twin (l.run d).2.memory (l'.run d').2.memory := by
  obtain ⟨same, product, shared⟩ := hl
  rw [run_fst, run_fst]
  generalize l'.product = q' at *
  subst same
  exact ⟨⟨rfl, product.settle, shared⟩, product.run within hd hd' h
    (shared l.a (by simp [operands])) (shared l.b (by simp [operands]))
    (shared l.output (by simp [operands])) fun v hv => shared v (List.mem_append_right _ hv)⟩

theorem stocks_run (l : GemmLayer) (hd : d.Stocks busy (l.product.scratch :: rest)) :
    (l.run d).2.Stocks busy ((l.run d).1.product.scratch :: rest) := by
  rw [run_fst]
  exact l.product.stocks_run l.a l.b l.c l.output hd

end GemmLayer

/-! ### Fully connected layers -/

def FullyConnected.operands (l : FullyConnected) : List View :=
  [l.input, l.weights, l.output] ++ l.bias.toList

structure FullyConnected.Alike (R : Pairing) (l l' : FullyConnected) : Prop where
  same : l' = { l with matrix := l'.matrix, product := l'.product }
  transpose : l.transpose.Accepted
  matrix : R.Whole l.matrix.buffer l'.matrix.buffer
  product : l.product.Paired R l'.product
  shared : R.Shared l.operands

namespace FullyConnected

variable {l l' : FullyConnected}

/-- What preparing does to memory. -/
def transposed (l : FullyConnected) (m : Memory) : Memory :=
  if l.prepared then m else l.transpose.run l.weights.buffer l.matrix.buffer m

theorem prepare_eq (l : FullyConnected) (m : Memory) :
    l.prepare m = ({ l with prepared := true }, l.transposed m) := by
  unfold prepare transposed
  split
  · next h => rw [← h]
  · rfl

theorem run_eq (l : FullyConnected) (d : Device) :
    l.run d = ({ l with prepared := true, product := l.product.settle },
      (l.product.run l.input l.matrix none l.output (d.onMemory l.transposed)).2.onMemory
        l.addBias) := by
  rw [run, prepare_eq, ← l.product.run_fst l.input l.matrix none l.output (d.onMemory l.transposed)]
  rfl

theorem respects_addBias (l : FullyConnected) (output : R.Whole l.output.buffer l.output.buffer)
    (bias : R.Shared l.bias.toList) : R.Respects l.addBias l.addBias := by
  unfold addBias
  cases hb : l.bias with
  | none => exact .refl R
  | some b =>
    have bias := bias b (by simp [hb])
    exact .runItems fun item _ => .storeValue output _ _ fun h =>
      congrArg₂ (· + ·) (h.read output _) (h.read bias _)

theorem grows_transposed (l : FullyConnected) (m : Memory) : m.Grows (l.transposed m) := by
  unfold transposed
  split
  · exact .refl m
  · exact Reshape.grows_run ..

theorem grows_addBias (l : FullyConnected) (m : Memory) : m.Grows (l.addBias m) := by
  unfold addBias
  split
  · exact .launch (fun _ _ => .store ..) m
  · exact .refl m

theorem Alike.mono {R' : Pairing} (hl : l.Alike R l') (hR : R ≤ R') : l.Alike R' l' :=
  ⟨hl.same, hl.transpose, hl.matrix.mono hR, hl.product.mono hR, hl.shared.mono hR⟩

theorem Alike.twin_transposed (hl : l.Alike R l') (h : R.Twin m m') :
    R.Twin (l.transposed m) (l'.transposed m') := by
  obtain ⟨same, transpose, matrix, -, shared⟩ := hl
  have weights := shared l.weights (by simp [operands])
  generalize l'.product = q', l'.matrix = x at *
  subst same
  unfold transposed
  dsimp only
  cases l.prepared with
  | true => exact h
  | false =>
    exact (Reshape.twin_run transpose h (weights.knows _ _) (matrix.room _)).mono (R.le_tell ..)

theorem Alike.prepare (hl : l.Alike R l') :
    { l with prepared := true }.Alike R { l' with prepared := true } := by
  obtain ⟨same, transpose, matrix, product, shared⟩ := hl
  generalize l'.product = q', l'.matrix = x at *
  subst same
  exact ⟨rfl, transpose, matrix, product, shared⟩

theorem Alike.run (hl : l.Alike R l') (within : R.Within busy busy')
    (hd : d.Stocks busy (l.product.scratch :: rest))
    (hd' : d'.Stocks busy' (l'.product.scratch :: rest')) (h : R.Twin d.memory d'.memory) :
    (l.run d).1.Alike R (l'.run d').1 ∧ R.Twin (l.run d).2.memory (l'.run d').2.memory := by
  have twin := hl.twin_transposed h
  have stocks := hd.onMemory (l.grows_transposed d.memory)
  have stocks' := hd'.onMemory (l'.grows_transposed d'.memory)
  obtain ⟨same, transpose, matrix, product, shared⟩ := hl
  have output := shared l.output (by simp [operands])
  rw [run_eq, run_eq]
  generalize l'.product = q', l'.matrix = x at *
  subst same
  refine ⟨⟨rfl, transpose, matrix, product.settle, shared⟩, ?_⟩
  have multiplied := product.run within stocks stocks' twin (shared l.input (by simp [operands]))
    matrix output (c := none) (by simp [Pairing.Shared])
  exact (l.respects_addBias output fun v hv =>
    shared v (List.mem_append_right _ hv)).twin multiplied

theorem stocks_run (l : FullyConnected) (hd : d.Stocks busy (l.product.scratch :: rest)) :
    (l.run d).2.Stocks busy ((l.run d).1.product.scratch :: rest) := by
  rw [run_eq]
  exact (l.product.stocks_run l.input l.matrix none l.output
    (hd.onMemory (l.grows_transposed _))).onMemory (l.grows_addBias _)

end FullyConnected

/-! ### Convolutions by a product -/

def GemmConvolution.operands (l : GemmConvolution) : List View :=
  [l.input, l.weights, l.output] ++ l.bias.toList

structure GemmConvolution.Alike (R : Pairing) (l l' : GemmConvolution) : Prop where
  same : l' = { l with matrix := l'.matrix, product := l'.product, scratch := l'.scratch }
  plan : ∃ p, l.Configured p ∧ l'.Configured p ∧ l.product.Alike R p l'.product
  matrix : R.Whole l.matrix.buffer l'.matrix.buffer
  shared : R.Shared l.operands

namespace GemmConvolution

variable {l l' : GemmConvolution} {p : ProductPlan}

theorem Alike.mono {R' : Pairing} (hl : l.Alike R l') (hR : R ≤ R') : l.Alike R' l' := by
  obtain ⟨same, ⟨p, hc, hc', product⟩, matrix, shared⟩ := hl
  exact ⟨same, ⟨p, hc, hc', product.mono hR⟩, matrix.mono hR, shared.mono hR⟩

theorem Alike.numbers_eq (hl : l.Alike R l') : l'.numbers = l.numbers := by
  rw [hl.same]
  rfl

theorem Alike.bias (hl : l.Alike R l') : R.Shared l.bias.toList :=
  fun v hv => hl.shared v (List.mem_append_right _ hv)

theorem Alike.columnLaunch (hl : l.Alike R l') : R.Respects l.columnLaunch l'.columnLaunch := by
  have bias := hl.bias
  obtain ⟨same, ⟨p, hc, hc', -⟩, matrix, shared⟩ := hl
  have weights := shared l.weights (by simp [operands])
  have layout : l'.matrix.layout = l.matrix.layout := by rw [hc.matrix, hc'.matrix, same]
  generalize l'.product = q', l'.matrix = x, l'.scratch = g at *
  subst same
  let launch (l : GemmConvolution) (values : Option (Array Binary32)) (m : Memory) :=
    (⟨l.weights.layout.shape.w, 1, 1⟩ : Grid).launch (l.columnItem values) m
  refine .given (launch l) (launch _) (biasValues_twin bias) fun values =>
    .runItems fun item _ => ?_
  let column (v : View) (xs : List Binary32) (m : Memory) := xs.zipIdx.foldl
    (fun m p => v.storeValue m (v.layout.offset2 item.x p.2) p.1) m
  obtain ⟨buffer, _⟩ := x
  obtain rfl := layout
  refine .given (column l.matrix) (column ⟨buffer, l.matrix.layout⟩) (x := l.column values item.x)
    (fun h => ?_) fun xs => ?_
  · exact congrArg (· ++ _) (List.map_congr_left fun tap _ => h.read weights _)
  · exact .runItems fun p _ =>
      .storeValue matrix _ (l.matrix.layout.offset2 item.x p.2) fun _ => rfl

theorem row_twin (input : R.Whole l.input.buffer l.input.buffer) (h : R.Twin m m')
    (x y batch : Nat) : l.row x y batch m = l.row x y batch m' := by
  simp only [row, h.read input]

/-- Unrolling writes every element of the rows. -/
theorem twin_unroll {rows rows' : BufferId} {t : Layout}
    (ht : t = rowsLayout l.input.layout l.weights.layout l.output.layout l.bias)
    (input : R.Whole l.input.buffer l.input.buffer) (room : R.Room t rows rows')
    (h : R.Twin m m') :
    (R.tell rows rows' (t.Span t.HasCell)).Twin (l.unroll ⟨rows, t⟩ m)
      (l.unroll ⟨rows', t⟩ m') := by
  have shares : Shares ⟨1, t.dim 1, t.dim 2⟩ t.HasCell
      (fun item => (List.range (depth l.weights.layout.shape l.bias)).map
        fun i => ⟨i, item.y, item.z⟩) (fun c => ⟨0, c.y, c.z⟩) := by
    rw [hasCell_eq, ht, dim_zero_rowsLayout, batches_rowsLayout]
    exact Grid.shares_rows _ _ _
  exact h.launch shares room (fun item _ => l.rowItem_eq_fill ⟨rows, t⟩ item)
    (fun item _ => l.rowItem_eq_fill ⟨rows', t⟩ item)
    fun item _ c _ m m' h => by rw [rowValue, row_twin input h, rowValue]

/-- Dealing out reads elements of the product only. -/
theorem respects_deal {result result' : BufferId} {t : Layout} (hl : l.Configured p)
    (ht : t = productLayout l.input.layout l.weights.layout l.output.layout)
    (output : R.Whole l.output.buffer l.output.buffer)
    (known : R.Knows t t.HasCell result result') :
    R.Respects (l.deal ⟨result, t⟩) (l.deal ⟨result', t⟩) := by
  have launch (result : View) : l.deal result = runItems l.output.layout.shape.grid.items
      fun c => l.dealSite result (l.output.layout.shape.siteOf c) :=
    funext fun m => Shape.launch_eq ..
  rw [launch, launch]
  refine .runItems fun c hc => .storeValue output _ _ fun h => congrArg t.dataType.decode ?_
  refine h.load_cell (c := l.dealt c) known ?_
  rw [ht]
  exact Layout.hasCell_packed.2 (hasCell_dealt hl.fits (Layout.mem_grid_items.1 hc))

/-- A run with the weights' matrix in place, on both sides. -/
theorem Alike.twin_run_prepared (hl : l.Alike R l') (done : l.prepared = true)
    (within : R.Within busy busy') (hd : d.Stocks busy (l.groups ++ rest))
    (hd' : d'.Stocks busy' (l'.groups ++ rest')) (h : R.Twin d.memory d'.memory) :
    R.Twin (l.run d).2.memory (l'.run d').2.memory := by
  obtain ⟨same, ⟨p, hc, hc', product⟩, matrix, shared⟩ := hl
  have done' : l'.prepared = true := by rw [same]; exact done
  have unroll : l'.unroll = l.unroll := by rw [same]; rfl
  have deal : l'.deal = l.deal := by rw [same]; rfl
  have layouts : l'.scratch.layouts = l.scratch.layouts := by rw [hc'.layouts, hc.layouts, same]
  let t := rowsLayout l.input.layout l.weights.layout l.output.layout l.bias
  let u := productLayout l.input.layout l.weights.layout l.output.layout
  have h0 : l.scratch.layouts[rowsSlot]? = some t := hc.layout_rows
  have h1 : l.scratch.layouts[productSlot]? = some u := hc.layout_product
  have h0' : l'.scratch.layouts[rowsSlot]? = some t := layouts ▸ h0
  have h1' : l'.scratch.layouts[productSlot]? = some u := layouts ▸ h1
  rw [run_prepared_eq done, run_prepared_eq done', unroll, deal]
  have ho := hd.opened
  have ho' := hd'.opened
  generalize (l.scratch.acquire d).1 = s, (l.scratch.acquire d).2 = e at ho ⊢
  generalize (l'.scratch.acquire d').1 = s', (l'.scratch.acquire d').2 = e' at ho' ⊢
  obtain ⟨R₁, hR, twin, room, room', within'⟩ := ho.exists_slots ho' within
    (h.opened within hd hd' ho ho') h0 h0' h1 h1' Nat.zero_lt_one
  obtain ⟨rows, hrows⟩ := ho.exists_view h0
  obtain ⟨rows', hrows'⟩ := ho'.exists_view h0'
  obtain ⟨result, hresult⟩ := ho.exists_view h1
  obtain ⟨result', hresult'⟩ := ho'.exists_view h1'
  rw [hrows, hrows'] at room
  rw [hresult, hresult'] at room'
  dsimp only
  rw [hrows, hrows', hresult, hresult']
  have input := (shared l.input (by simp [operands])).mono hR
  have output := (shared l.output (by simp [operands])).mono hR
  -- the rows are written before the product reads them, the product before it is dealt out
  have unrolled := twin_unroll rfl input room twin
  have hR₂ := R₁.le_tell rows rows' (t.Span t.HasCell)
  have hR₃ := (R₁.tell rows rows' (t.Span t.HasCell)).le_tell result result' (u.Span u.HasCell)
  refine Pairing.Twin.mono ?_ ((hR.trans hR₂).trans hR₃)
  refine (respects_deal hc rfl ((output.mono hR₂).mono hR₃)
    ((room'.mono hR₂).knows_tell fun _ hc => hc)).twin ?_
  exact (product.mono (hR.trans hR₂)).run hc.kernels hc.multipliable within'
    (ho.stocks.onMemory (l.grows_unroll ⟨rows, t⟩ e.memory))
    (ho'.stocks.onMemory (l.grows_unroll ⟨rows', t⟩ e'.memory)) unrolled
    (room.knows_tell fun _ hc => hc) ((matrix.mono (hR.trans hR₂)).knows _ _) (room'.mono hR₂)
    (by simp)

/-- What preparing does to memory. -/
def arranged (l : GemmConvolution) (m : Memory) : Memory :=
  if l.prepared then m else l.columnLaunch m

theorem prepare_eq (l : GemmConvolution) (m : Memory) :
    l.prepare m = ({ l with prepared := true }, l.arranged m) := by
  unfold prepare arranged
  split
  · next h => rw [← h]
  · rfl

theorem run_eq (l : GemmConvolution) (d : Device) :
    l.run d = { l with prepared := true }.run (d.onMemory l.arranged) := by
  cases done : l.prepared with
  | true =>
    have same : { l with prepared := true } = l := by rw [← done]
    have kept : d.onMemory l.arranged = d := by simp [arranged, Device.onMemory, done]
    rw [same, kept]
  | false =>
    have first : l.arranged = l.columnLaunch := by
      funext m
      simp [arranged, done]
    rw [first, run_unprepared done]

theorem run_fst (l : GemmConvolution) (d : Device) :
    (l.run d).1 = { l with prepared := true, product := l.product.settle } := by
  rw [run_eq, run, prepare, if_pos rfl]
  exact congrArg (fun q => { l with prepared := true, product := q })
    (l.product.run_fst _ _ none _ _)

theorem Alike.prepare (hl : l.Alike R l') :
    { l with prepared := true }.Alike R { l' with prepared := true } := by
  obtain ⟨same, ⟨p, hc, hc', product⟩, matrix, shared⟩ := hl
  refine ⟨?_, ⟨p, { hc with }, { hc' with }, product⟩, matrix, shared⟩
  generalize l'.product = q', l'.matrix = x, l'.scratch = g at *
  subst same
  rfl

theorem Alike.settle (hl : l.Alike R l') : { l with product := l.product.settle }.Alike R
    { l' with product := l'.product.settle } := by
  obtain ⟨same, ⟨p, hc, hc', product⟩, matrix, shared⟩ := hl
  have settled := product.settle
  refine ⟨?_, ⟨p, { hc with carries := settled.left }, { hc' with carries := settled.right },
    settled⟩, matrix, shared⟩
  generalize l'.product = q', l'.matrix = x, l'.scratch = g at *
  subst same
  rfl

theorem grows_arranged (l : GemmConvolution) (m : Memory) : m.Grows (l.arranged m) := by
  unfold arranged
  split
  · exact .refl m
  · exact l.grows_columnLaunch m

theorem Alike.twin_arranged (hl : l.Alike R l') (h : R.Twin m m') :
    R.Twin (l.arranged m) (l'.arranged m') := by
  have prepared : l'.prepared = l.prepared := by rw [hl.same]
  unfold arranged
  rw [prepared]
  cases l.prepared with
  | true => exact h
  | false => exact hl.columnLaunch.twin h

theorem Alike.run (hl : l.Alike R l') (within : R.Within busy busy')
    (hd : d.Stocks busy (l.groups ++ rest)) (hd' : d'.Stocks busy' (l'.groups ++ rest'))
    (h : R.Twin d.memory d'.memory) :
    (l.run d).1.Alike R (l'.run d').1 ∧ R.Twin (l.run d).2.memory (l'.run d').2.memory := by
  refine ⟨?_, ?_⟩
  · rw [run_fst, run_fst]
    exact hl.prepare.settle
  · rw [run_eq, l'.run_eq]
    exact hl.prepare.twin_run_prepared rfl within (hd.onMemory (l.grows_arranged _))
      (hd'.onMemory (l'.grows_arranged _)) (hl.twin_arranged h)

theorem grows_deal (l : GemmConvolution) (result : View) (m : Memory) :
    m.Grows (l.deal result m) :=
  .launchSites (fun _ _ => .store ..) m

/-- The product opens its scope inside that of the convolution. -/
theorem stocks_run (l : GemmConvolution) (hd : d.Stocks busy (l.groups ++ rest)) :
    (l.run d).2.Stocks busy ((l.run d).1.groups ++ rest) := by
  have stocks : (d.onMemory l.arranged).Stocks busy (l.groups ++ rest) :=
    hd.onMemory (l.grows_arranged _)
  have ho := stocks.opened
  rw [run_fst, run_eq, run_prepared_snd rfl]
  dsimp only
  generalize (l.scratch.acquire (d.onMemory l.arranged)).1 = s,
    (l.scratch.acquire (d.onMemory l.arranged)).2 = e at ho ⊢
  have unrolled := ho.stocks.onMemory (l.grows_unroll (s.view rowsSlot) e.memory)
  have multiplied :=
    l.product.stocks_run (s.view rowsSlot) l.matrix none (s.view productSlot) unrolled
  have grows := l.product.grows_run (s.view rowsSlot) l.matrix none (s.view productSlot) unrolled
  exact stocks.close ho (multiplied.onMemory (l.grows_deal (s.view productSlot) _))
    (((l.grows_unroll _ _).trans grows).trans (l.grows_deal ..))

end GemmConvolution

/-! ### Softmax -/

def Softmax.operands (l : Softmax) : List View := [l.input, l.output]

structure Softmax.Alike (R : Pairing) (l l' : Softmax) : Prop where
  same : l' = { l with scratch := l'.scratch }
  left : l.scratch.layouts = [statsLayout l.rows]
  right : l'.scratch.layouts = [statsLayout l.rows]
  shared : R.Shared l.operands

namespace Softmax

variable {l l' : Softmax}

theorem Alike.mono {R' : Pairing} (hl : l.Alike R l') (hR : R ≤ R') : l.Alike R' l' :=
  { hl with shared := hl.shared.mono hR }

theorem Alike.run (hl : l.Alike R l') (within : R.Within busy busy')
    (hd : d.Stocks busy (l.scratch :: rest)) (hd' : d'.Stocks busy' (l'.scratch :: rest'))
    (h : R.Twin d.memory d'.memory) : R.Twin (l.run d).memory (l'.run d').memory := by
  obtain ⟨same, left, right, shared⟩ := hl
  have runWith : l'.runWith = l.runWith := by rw [same]; rfl
  have h0 : l.scratch.layouts[statsSlot]? = some (statsLayout l.rows) := by rw [left]; rfl
  have h0' : l'.scratch.layouts[statsSlot]? = some (statsLayout l.rows) := by rw [right]; rfl
  have ho := hd.opened
  have ho' := hd'.opened
  rw [Softmax.run, Softmax.run, Device.memory_close, Device.memory_close, runWith]
  generalize (l.scratch.acquire d).1 = s, (l.scratch.acquire d).2 = e at ho ⊢
  generalize (l'.scratch.acquire d').1 = s', (l'.scratch.acquire d').2 = e' at ho' ⊢
  obtain ⟨R₁, hR, twin, room, -⟩ := ho.exists_slot ho' within (h.opened within hd hd' ho ho') h0 h0'
  obtain ⟨stats, hstats⟩ := ho.exists_view h0
  obtain ⟨stats', hstats'⟩ := ho'.exists_view h0'
  rw [hstats, hstats'] at room ⊢
  exact (twin_runWith (shared.mono hR) room twin).mono hR

theorem stocks_run (l : Softmax) (hd : d.Stocks busy (l.scratch :: rest)) :
    (l.run d).Stocks busy (l.scratch :: rest) :=
  hd.close hd.opened (hd.opened.stocks.onMemory (l.grows_runWith _ _)) (l.grows_runWith _ _)

end Softmax

end TileCompute
