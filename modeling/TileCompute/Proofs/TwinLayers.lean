import TileCompute.Layer
import TileCompute.Proofs.Packed
import TileCompute.Proofs.TwinKernels

/-!
# TileCompute.Proofs.TwinLayers

Layers on two memories. A layer without scratch tensors stores values that it computes from
elements of its operands, so it leaves twins twins when its operands stand for themselves. Softmax
keeps statistics of its rows in scratch, and writes each before it reads it.
-/

namespace TileCompute

variable {R : Pairing} {m m' : Memory}

/-- Tensors that stand for themselves. -/
def Pairing.Shared (R : Pairing) (vs : List View) : Prop := ∀ v ∈ vs, R.Whole v.buffer v.buffer

theorem Pairing.Shared.mono {R' : Pairing} {vs : List View} (h : R.Shared vs) (hR : R ≤ R') :
    R'.Shared vs := fun v hv => (h v hv).mono hR

theorem biasValues_twin {bias : Option View} (hb : R.Shared bias.toList) (h : R.Twin m m') :
    biasValues bias m = biasValues bias m' := by
  cases bias with
  | none => rfl
  | some b => exact congrArg (fun xs => some xs.toArray) (h.values (hb b (by simp)) b.layout)

/-! ### Layers without scratch tensors -/

theorem ActivationLayer.respects_run (l : ActivationLayer) (h : R.Shared [l.input, l.target]) :
    R.Respects l.run l.run := by
  have input := h l.input (by simp)
  have target := h l.target (by simp)
  exact .runItems fun s _ => .storeValue target _ _ fun h => congrArg _ (h.read input _)

theorem Operands.respects_run (o : Operands) (combine : Nat → Nat → Nat)
    (h : R.Shared [o.a, o.b, o.output]) : R.Respects (o.run combine) (o.run combine) := by
  have a := h o.a (by simp)
  have b := h o.b (by simp)
  have output := h o.output (by simp)
  exact .runItems fun s _ => .store output _ _ fun h =>
    congrArg₂ combine (h.load a _ _) (h.load b _ _)

namespace BatchNormalization

variable {l : BatchNormalization}

theorem parameterValues_twin (p : Option View) (missing : Binary32) (hp : R.Shared p.toList)
    (h : R.Twin m m') : l.parameterValues p missing m = l.parameterValues p missing m' := by
  cases p with
  | none => rfl
  | some p => exact congrArg List.toArray (h.values (hp p (by simp)) p.layout)

theorem respects_run (l : BatchNormalization)
    (h : R.Shared (l.input :: l.output :: l.parameters)) : R.Respects l.run l.run := by
  have input := h l.input (by simp)
  have output := h l.output (by simp)
  have parameter (p : Option View) (hp : ∀ v ∈ p.toList, v ∈ l.parameters) : R.Shared p.toList :=
    fun v hv => h v (List.mem_cons_of_mem _ (List.mem_cons_of_mem _ (hp v hv)))
  let f (maps : Array ChannelMap) (m : Memory) := l.input.layout.shape.launch (l.runSite maps) m
  refine .given f f (fun h => ?_) fun maps => .runItems fun s _ =>
    .storeValue output _ _ fun h => ?_
  · unfold channelMaps
    rw [parameterValues_twin l.mean _ (parameter _ (by simp [parameters])) h,
      parameterValues_twin l.variance _ (parameter _ (by simp [parameters])) h,
      parameterValues_twin l.beta _ (parameter _ (by simp +contextual [parameters])) h,
      parameterValues_twin l.gamma _ (parameter _ (by simp +contextual [parameters])) h]
  · rw [h.read input]

end BatchNormalization

namespace DepthConcatenation

theorem input_mem_of_place {out : Shape} {depth : Nat} {vs : List View} {p : Placement}
    (h : p ∈ place out depth vs) : p.input ∈ vs := by
  induction vs generalizing depth with
  | nil => cases h
  | cons v vs ih =>
    obtain rfl | h := List.mem_cons.1 h
    · exact List.mem_cons_self
    · exact List.mem_cons_of_mem _ (ih h)

theorem respects_run (l : DepthConcatenation) (h : R.Shared (l.output :: l.inputs)) :
    R.Respects l.run l.run := by
  obtain ⟨output, inputs⟩ := List.forall_mem_cons.1 h
  have cleared : R.Respects
      (fun m => if l.fill then l.output.layout.shape.launch l.clearSite m else m)
      (fun m => if l.fill then l.output.layout.shape.launch l.clearSite m else m) := by
    cases l.fill with
    | false => exact .refl R
    | true => exact .runItems fun s _ => .store output _ _ fun _ => rfl
  have copied : ∀ p ∈ l.placements, R.Respects (l.copy · p) (l.copy · p) := fun p hp =>
    .runItems fun s _ => .store output _ _ fun h => h.load (inputs _ (input_mem_of_place hp)) _ _
  exact cleared.comp (.runItems copied)

end DepthConcatenation

namespace DepthwiseConvolution

theorem product_twin (l : DepthwiseConvolution) (s : Site)
    (hi : R.Whole l.input.buffer l.input.buffer)
    (hw : R.Whole l.weights.buffer l.weights.buffer) (h : R.Twin m m') :
    l.product s m = l.product s m' :=
  funext₂ fun _ _ => congrArg₂ (· * ·) (h.read hi _) (h.read hw _)

theorem respects_run (l : DepthwiseConvolution)
    (h : R.Shared ([l.input, l.weights, l.output] ++ l.bias.toList)) :
    R.Respects l.run l.run := by
  have input := h l.input (by simp)
  have weights := h l.weights (by simp)
  have output := h l.output (by simp)
  have bias : R.Shared l.bias.toList := fun v hv => h v (List.mem_append_right _ hv)
  let f (values : Option (Array Binary32)) (m : Memory) :=
    l.output.layout.shape.launch (l.runSite values) m
  refine .given f f (biasValues_twin bias) fun values => .runItems fun s _ =>
    .storeValue output _ _ fun h => ?_
  rw [l.product_twin s input weights h]

end DepthwiseConvolution

namespace DirectConvolution

theorem product_twin (l : DirectConvolution) (s : Site) (hi : R.Whole l.input.buffer l.input.buffer)
    (hw : R.Whole l.weights.buffer l.weights.buffer) (h : R.Twin m m') :
    l.product s m = l.product s m' :=
  funext₂ fun _ _ => congrArg₂ (· * ·) (h.read hi _) (h.read hw _)

theorem respects_run (l : DirectConvolution)
    (h : R.Shared ([l.input, l.weights, l.output] ++ l.bias.toList)) :
    R.Respects l.run l.run := by
  have input := h l.input (by simp)
  have weights := h l.weights (by simp)
  have output := h l.output (by simp)
  have bias : R.Shared l.bias.toList := fun v hv => h v (List.mem_append_right _ hv)
  let f (values : Option (Array Binary32)) (m : Memory) :=
    l.output.layout.shape.launch (l.runSite values) m
  refine .given f f (biasValues_twin bias) fun values => .runItems fun s _ =>
    .storeValue output _ _ fun h => ?_
  rw [l.product_twin s input weights h]

end DirectConvolution

theorem NormalizationLayer.respects_run (l : NormalizationLayer)
    (h : R.Shared [l.input, l.output]) : R.Respects l.run l.run := by
  have input := h l.input (by simp)
  have output := h l.output (by simp)
  refine .runItems fun s _ => .storeValue output _ _ fun h => ?_
  simp only [h.read input]

theorem PoolingLayer.respects_launch (l : PoolingLayer) (h : R.Shared [l.input, l.output]) :
    R.Respects (l.output.layout.shape.launch l.runSite)
      (l.output.layout.shape.launch l.runSite) := by
  have input := h l.input (by simp)
  have output := h l.output (by simp)
  refine .runItems fun s _ => .storeValue output _ _ fun h => ?_
  simp only [h.read input]

/-! ### Softmax -/

namespace Softmax

variable {l : Softmax} {stats stats' : BufferId}

theorem room_stat (room : R.Room (statsLayout l.rows) stats stats')
    {column row : Nat} (hc : column < 2) (hr : row < l.rows) {j : Nat}
    (hj : (statsLayout l.rows).Word ((statsLayout l.rows).offset2 column row) j) :
    R.room stats stats' j := by
  have cell : (statsLayout l.rows).HasCell ⟨column, row, 0⟩ := Layout.hasCell_matrix.2 ⟨hc, hr, rfl⟩
  refine room j (Nat.lt_of_lt_of_le hj.2 ?_)
  have inside := Layout.cell_add_le cell
  rwa [Layout.cell, Layout.offset3, Nat.zero_mul, Nat.add_zero] at inside

theorem row_lt {item : WorkItem} (h : item ∈ l.grid.items) : item.y < l.rows :=
  (Grid.mem_items.1 h).2.1

/-- The statistics of a column, written by a launch over the rows. -/
def column (l : Softmax) (column j : Nat) : Prop :=
  ∃ item ∈ l.grid.items, (statsLayout l.rows).Word ((statsLayout l.rows).offset2 column item.y) j

theorem loadValue_stat {column : Nat} {item : WorkItem} (hitem : item ∈ l.grid.items)
    (hk : ∀ j, l.column column j → R.known stats stats' j) (h : R.Twin m m') :
    View.loadValue ⟨stats, statsLayout l.rows⟩ m ((statsLayout l.rows).offset2 column item.y) =
      View.loadValue ⟨stats', statsLayout l.rows⟩ m'
        ((statsLayout l.rows).offset2 column item.y) :=
  congrArg DataType.f32.decode (h.load_at fun _ hj => hk _ ⟨item, hitem, hj⟩)

theorem knows_column (room : R.Room (statsLayout l.rows) stats stats') {column : Nat}
    (hc : column < 2) (j : Nat) (hj : l.column column j) :
    (R.tell stats stats' (l.column column)).known stats stats' j := by
  obtain ⟨item, hitem, span⟩ := hj
  exact .inr ⟨⟨rfl, rfl⟩, ⟨item, hitem, span⟩, room_stat room hc (row_lt hitem) span⟩

theorem twin_store_stat (room : R.Room (statsLayout l.rows) stats stats') {column : Nat}
    (hc : column < 2) {item : WorkItem} (hitem : item ∈ l.grid.items) (x : Binary32)
    {J : Nat → Prop} (h : (R.tell stats stats' J).Twin m m') :
    (R.tell stats stats' fun j => J j ∨
        (statsLayout l.rows).Word ((statsLayout l.rows).offset2 column item.y) j).Twin
      (View.storeValue ⟨stats, statsLayout l.rows⟩ m
        ((statsLayout l.rows).offset2 column item.y) x)
      (View.storeValue ⟨stats', statsLayout l.rows⟩ m'
        ((statsLayout l.rows).offset2 column item.y) x) :=
  (h.store _ fun _ hj => room_stat room hc (row_lt hitem) hj).mono
    (Pairing.tell_or_le ..)

theorem twin_max (hi : R.Whole l.input.buffer l.input.buffer)
    (room : R.Room (statsLayout l.rows) stats stats') (h : R.Twin m m') :
    (R.tell stats stats' (l.column maxColumn)).Twin
      (l.grid.launch (l.maxItem ⟨stats, statsLayout l.rows⟩) m)
      (l.grid.launch (l.maxItem ⟨stats', statsLayout l.rows⟩) m') := by
  refine .accumulate _ _ (fun item hitem J m m' hJ => ?_) h
  unfold maxItem
  simp only [(hJ.mono (R.le_tell ..)).read hi]
  exact twin_store_stat room (by decide) hitem _ hJ

theorem twin_exponentials (hi : R.Whole l.input.buffer l.input.buffer)
    (ho : R.Whole l.output.buffer l.output.buffer) (row : Nat) (max : Binary32) (is : List Nat)
    (sum : Binary32) (h : R.Twin m m') :
    let step := fun ((m, sum) : Memory × Binary32) i =>
      let value := l.shifted max (l.input.loadValue m (address l.input row i))
      (l.output.storeValue m (address l.output row i) value, sum + value)
    R.Twin (is.foldl step (m, sum)).1 (is.foldl step (m', sum)).1 ∧
      (is.foldl step (m, sum)).2 = (is.foldl step (m', sum)).2 := by
  intro step
  induction is generalizing m m' sum with
  | nil => exact ⟨h, rfl⟩
  | cons i is ih =>
    rw [List.foldl_cons, List.foldl_cons]
    have stored := (Pairing.Respects.storeValue ho l.output.layout (address l.output row i)
      (x := fun _ => l.shifted max (l.input.loadValue m (address l.input row i)))
      fun _ => rfl).twin h
    have next := ih (sum + l.shifted max (l.input.loadValue m (address l.input row i))) stored
    have same : step (m', sum) i = (View.storeValue l.output m' (address l.output row i)
        (l.shifted max (l.input.loadValue m (address l.input row i))),
        sum + l.shifted max (l.input.loadValue m (address l.input row i))) := by
      rw [h.read hi]
    rw [same]
    exact next

theorem twin_exponential (hi : R.Whole l.input.buffer l.input.buffer)
    (ho : R.Whole l.output.buffer l.output.buffer)
    (room : R.Room (statsLayout l.rows) stats stats')
    (hmax : ∀ j, l.column maxColumn j → R.known stats stats' j) (h : R.Twin m m') :
    (R.tell stats stats' (l.column sumColumn)).Twin
      (l.grid.launch (l.exponentialItem ⟨stats, statsLayout l.rows⟩) m)
      (l.grid.launch (l.exponentialItem ⟨stats', statsLayout l.rows⟩) m') := by
  refine .accumulate _ _ (fun item hitem J m m' hJ => ?_) h
  have hR := R.le_tell stats stats' J
  unfold exponentialItem
  dsimp only
  rw [loadValue_stat hitem hmax (hJ.mono hR)]
  obtain ⟨stored, same⟩ := twin_exponentials (hi.mono hR) (ho.mono hR) item.y
    (View.loadValue ⟨stats', statsLayout l.rows⟩ m' ((statsLayout l.rows).offset2 maxColumn item.y))
    (List.range l.columns) .zero hJ
  rw [same]
  exact twin_store_stat room (by decide) hitem _ stored

theorem respects_divide (ho : R.Whole l.output.buffer l.output.buffer)
    (hsum : ∀ j, l.column sumColumn j → R.known stats stats' j) :
    R.Respects (l.grid.launch (l.divideItem ⟨stats, statsLayout l.rows⟩))
      (l.grid.launch (l.divideItem ⟨stats', statsLayout l.rows⟩)) := by
  refine .runItems fun item hitem => ?_
  let f (sum : Binary32) (m : Memory) := (List.range l.columns).foldl (fun m i =>
    let offset := address l.output item.y i
    l.output.storeValue m offset (l.output.loadValue m offset / sum)) m
  refine .given f f (loadValue_stat hitem hsum) fun sum => ?_
  exact .runItems (f := fun i m => l.output.storeValue m (address l.output item.y i)
    (l.output.loadValue m (address l.output item.y i) / sum)) fun i _ =>
      .storeValue ho _ _ fun h => congrArg (· / sum) (h.read ho _)

/-- The statistics are written before they are read, whatever was in their place. -/
theorem twin_runWith (h : R.Shared [l.input, l.output])
    (room : R.Room (statsLayout l.rows) stats stats') (hm : R.Twin m m') :
    R.Twin (l.runWith ⟨stats, statsLayout l.rows⟩ m)
      (l.runWith ⟨stats', statsLayout l.rows⟩ m') := by
  have hi := h l.input (by simp)
  have ho := h l.output (by simp)
  have hR := R.le_tell stats stats' (l.column maxColumn)
  have hR' := (R.tell stats stats' (l.column maxColumn)).le_tell stats stats' (l.column sumColumn)
  -- each column of statistics is known before the launch that reads it
  have maxima := twin_max hi room hm
  have sums := twin_exponential (hi.mono hR) (ho.mono hR) (room.mono hR)
    (knows_column room (by decide)) maxima
  have quotients := (respects_divide ((ho.mono hR).mono hR')
    (knows_column (room.mono hR) (by decide))).twin sums
  exact quotients.mono (hR.trans hR')

theorem grows_exponentialItem (l : Softmax) (stats : View) (item : WorkItem) (m : Memory) :
    m.Grows (l.exponentialItem stats item m) := by
  let step (max : Binary32) (p : Memory × Binary32) (i : Nat) : Memory × Binary32 :=
    let value := l.shifted max (l.input.loadValue p.1 (address l.input item.y i))
    (l.output.storeValue p.1 (address l.output item.y i) value, p.2 + value)
  have steps (max : Binary32) (is : List Nat) (p : Memory × Binary32) :
      p.1.Grows (is.foldl (step max) p).1 := by
    induction is generalizing p with
    | nil => exact .refl _
    | cons i is ih => exact (Memory.Grows.store ..).trans (ih (step max p i))
  exact (steps _ _ (m, _)).trans (.store ..)

theorem grows_runWith (l : Softmax) (stats : View) (m : Memory) :
    m.Grows (l.runWith stats m) :=
  ((Memory.Grows.launch (fun _ _ => .store ..) m).trans
    (.launch (l.grows_exponentialItem stats) _)).trans
      (.launch (fun _ m => .foldl (fun _ _ => .store ..) _ m) _)

end Softmax

end TileCompute
