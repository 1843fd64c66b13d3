import Mathlib.Data.List.Intervals
import Mathlib.Data.List.ProdSigma
import TileCompute.Proofs.Convolution
import TileCompute.Proofs.PoolWindows

/-!
# TileCompute.Proofs.PooledValues

What a pooling stores, from the window alone: `PoolingLayer.covered` are the elements of the plane
whose place in the padded plane is in the window, row by row, and `PoolingLayer.pooled` folds them.
The layer computes where a window begins and ends along either axis instead, in the padded plane,
and takes the padding off again (`PoolSpan.inputs_eq_filter`, `PoolSpan.cells_eq_length`).

* `PoolingLayer.elements_eq_covered`, `PoolingLayer.area_eq_coveredArea`: both find the same.
* `PoolingLayer.Accepted.run_eq`: a run handles all windows or none.
* `PoolingLayer.pooled_stored`: what a run leaves.
-/

namespace TileCompute

section Lists

/-- The numbers of a range between two bounds follow each other. -/
theorem filter_range_between (n lo hi : Nat) :
    (List.range n).filter (fun i => lo ≤ i ∧ i < hi) = List.Ico lo (min n hi) := by
  calc (List.range n).filter (fun i => lo ≤ i ∧ i < hi)
    _ = ((List.Ico 0 n).filter fun i => i < hi).filter fun i => lo ≤ i := by
      rw [List.filter_filter, List.Ico.zero_bot]
      simp only [Bool.decide_and]
    _ = List.Ico lo (min n hi) := by
      rw [List.Ico.filter_lt, List.Ico.filter_le, Nat.zero_max]

/-- Pairs filtered by their parts are pairs of what the filters leave. -/
theorem filter_product {α β : Type} (p : α → Bool) (q : β → Bool) (xs : List α) (ys : List β) :
    (xs ×ˢ ys).filter (fun c => p c.1 && q c.2) = xs.filter p ×ˢ ys.filter q := by
  induction xs with
  | nil => rfl
  | cons x xs ih =>
    rw [List.product_cons, List.filter_append, ih, List.filter_map]
    cases hx : p x with
    | false =>
      have row : ys.filter ((fun c => p c.1 && q c.2) ∘ fun y => (x, y)) = [] := by
        simp [Function.comp_def, hx]
      rw [row, List.filter_cons_of_neg (by simp [hx])]
      rfl
    | true =>
      have row : ys.filter ((fun c => p c.1 && q c.2) ∘ fun y => (x, y)) = ys.filter q := by
        simp [Function.comp_def, hx]
      rw [row, List.filter_cons_of_pos hx, List.product_cons]

end Lists

namespace PoolSpan

variable {position stride size before extent after : Nat}

/-- The inputs of a span are those whose place in the padded plane is in the window. -/
theorem inputs_eq_filter :
    (ofPosition position stride size before extent after).inputs before extent =
      (List.range extent).filter fun i =>
        position * stride ≤ i + before ∧ i + before < position * stride + size := by
  have shifted (i : Nat) :
      (position * stride ≤ i + before ∧ i + before < position * stride + size) ↔
        position * stride - before ≤ i ∧ i < position * stride + size - before := by omega
  simp only [shifted]
  rw [filter_range_between, inputs, ofPosition, List.Ico]
  dsimp only
  -- clipping at the end of the padded plane is no more than clipping at the end of the input
  have first : max (position * stride) before - before = position * stride - before := by omega
  have last : min (min (position * stride + size) (extent + before + after) - before) extent =
      min extent (position * stride + size - before) := by omega
  rw [first, last]

/-- So many cells of the padded plane are in the window. -/
theorem cells_eq_length : (ofPosition position stride size before extent after).cells =
    ((List.range (extent + before + after)).filter fun i =>
      position * stride ≤ i ∧ i < position * stride + size).length := by
  rw [filter_range_between, List.Ico.length, Nat.min_comm]
  rfl

theorem cells_ofPosition_le :
    (ofPosition position stride size before extent after).cells ≤ size := by
  unfold cells ofPosition
  dsimp only
  omega

/-- The numbers of a window that starts in the padded plane are at most that of the cell behind a
window right behind the plane. -/
theorem inWords_numbers (starts : position * stride ≤ extent + before + after)
    (room : extent + before + after + size < 2 ^ 64) :
    InWords (numbers position stride size before extent after) := by
  simp only [numbers, inWords_cons, inWords_nil, and_true]
  omega

end PoolSpan

namespace PoolingLayer

/-! ### The value of a window -/

/-- A cell of the padded plane is in the window at an output element. -/
def InWindow (l : PoolingLayer) (s : Site) (x y : Nat) : Prop :=
  (s.x * l.window.strideX ≤ x ∧ x < s.x * l.window.strideX + l.size) ∧
    s.y * l.window.strideY ≤ y ∧ y < s.y * l.window.strideY + l.size

instance (l : PoolingLayer) (s : Site) (x y : Nat) : Decidable (l.InWindow s x y) :=
  inferInstanceAs (Decidable (_ ∧ _))

/-- The input elements of the plane of an output element, row by row. -/
def plane (l : PoolingLayer) (s : Site) : List Site :=
  (List.range l.input.layout.shape.y ×ˢ List.range l.input.layout.shape.x).map
    fun c => { s with x := c.2, y := c.1 }

/-- Those whose place in the padded plane is in the window. -/
def covered (l : PoolingLayer) (s : Site) : List Site :=
  (l.plane s).filter fun t => l.InWindow s (t.x + l.window.left) (t.y + l.window.top)

/-- The cells of the padded plane in the window. -/
def paddedCells (l : PoolingLayer) (s : Site) : List (Nat × Nat) :=
  (List.range (l.input.layout.shape.y + l.window.top + l.window.bottom) ×ˢ
    List.range (l.input.layout.shape.x + l.window.left + l.window.right)).filter
      fun c => l.InWindow s c.2 c.1

def coveredArea (l : PoolingLayer) (s : Site) : Nat :=
  if l.excludePadding then (l.covered s).length else (l.paddedCells s).length

/-- The largest of the elements in a window, their mean, or the root of the mean of their
squares. -/
def pooled (l : PoolingLayer) (m : Memory) (s : Site) : Binary32 :=
  let values := (l.covered s).map fun t => l.input.loadValue m (l.input.layout.site t)
  let area := Binary32.ofInt (l.coveredArea s)
  match l.kind with
  | .max => values.foldl Binary32.max .negInfinity
  | .average => values.foldl (· + ·) .zero / area
  | .l2 => ((values.map fun x => x * x).foldl (· + ·) .zero / area).sqrt

variable {l : PoolingLayer} {s : Site} {m : Memory}

theorem lt_of_mem_plane {t : Site} (h : t ∈ l.plane s) :
    t.x < l.input.layout.shape.x ∧ t.y < l.input.layout.shape.y := by
  obtain ⟨c, hc, rfl⟩ := List.mem_map.1 h
  obtain ⟨hy, hx⟩ := List.mem_product.1 hc
  exact ⟨List.mem_range.1 hx, List.mem_range.1 hy⟩

/-- A window is a square: what it covers of a rectangle are the pairs of what it covers along either
axis. -/
theorem filter_inWindow (dy dx h w : Nat) :
    (List.range h ×ˢ List.range w).filter (fun c => l.InWindow s (c.2 + dx) (c.1 + dy)) =
      ((List.range h).filter fun y =>
          s.y * l.window.strideY ≤ y + dy ∧ y + dy < s.y * l.window.strideY + l.size) ×ˢ
        (List.range w).filter fun x =>
          s.x * l.window.strideX ≤ x + dx ∧ x + dx < s.x * l.window.strideX + l.size := by
  rw [← filter_product]
  apply List.filter_congr
  intro c _
  rw [← Bool.decide_and]
  exact decide_eq_decide.2 and_comm

theorem elements_eq_covered : l.elements s = l.covered s := by
  rw [covered, plane, List.filter_map]
  refine Eq.trans ?_ (congrArg (List.map _) (filter_inWindow ..).symm)
  rw [elements, spanX, spanY, PoolSpan.inputs_eq_filter, PoolSpan.inputs_eq_filter]
  simp only [SProd.sprod, List.product, List.map_flatMap, List.map_map, Function.comp_def]

theorem area_eq_coveredArea : l.area s = l.coveredArea s := by
  have cells : (l.spanX s).cells * (l.spanY s).cells = (l.paddedCells s).length := by
    have square := filter_inWindow (l := l) (s := s) 0 0
    simp only [Nat.add_zero] at square
    rw [paddedCells, square, List.length_product, Nat.mul_comm, spanX, spanY,
      PoolSpan.cells_eq_length, PoolSpan.cells_eq_length]
  rw [area, coveredArea, elements_eq_covered, cells]

/-- What an output element is computed as. -/
def value (l : PoolingLayer) (s : Site) (m : Memory) : Binary32 :=
  l.kind.finish (l.area s) ((l.elements s).foldl
    (fun acc t => l.kind.fold acc (l.input.loadValue m (l.input.layout.site t))) l.kind.start)

theorem value_eq_pooled : l.value s m = l.pooled m s := by
  rw [value, pooled, area_eq_coveredArea, elements_eq_covered]
  cases l.kind with
  | max => simp only [List.foldl_map]; rfl
  | average => simp only [List.foldl_map]; rfl
  | l2 => simp only [List.foldl_map]; rfl

theorem value_store (h : l.input.buffer ≠ l.output.buffer) (s : Site) (m : Memory) (o w : Nat) :
    l.value s (l.output.store m o w) = l.value s m := by
  simp only [value, GemmConvolution.loadValue_store_other h]

/-- Output elements handled in some order, none of them twice. -/
theorem load_runItems (hne : l.input.buffer ≠ l.output.buffer) (fits : l.output.Fits m)
    {done : List Site} (distinct : done.Nodup)
    (inside : ∀ s ∈ done, s ∈ l.output.layout.shape.sites) (hs : s ∈ done) :
    l.output.load (runItems done l.runSite m) (l.output.layout.site s) =
      l.output.layout.dataType.encode (l.pooled m s) := by
  rw [← value_eq_pooled]
  exact View.load_runItems (value_store hne) fits distinct inside hs

/-! ### Accepted poolings -/

/-- A window starts in the padded plane, or right behind it. -/
def StartsInside (l : PoolingLayer) (s : Site) : Prop :=
  s.x * l.window.strideX ≤ l.input.layout.shape.x + l.window.left + l.window.right ∧
    s.y * l.window.strideY ≤ l.input.layout.shape.y + l.window.top + l.window.bottom

instance (l : PoolingLayer) (s : Site) : Decidable (l.StartsInside s) :=
  inferInstanceAs (Decidable (_ ∧ _))

theorem Accepted.windowValid_iff (h : l.Accepted) : l.WindowValid s ↔ l.StartsInside s := by
  have left := h.left
  have top := h.top
  unfold WindowValid StartsInside spanX spanY PoolSpan.Valid PoolSpan.ofPosition
  dsimp only
  omega

theorem startsInside_of_covered (h : l.covered s ≠ []) : l.StartsInside s := by
  obtain ⟨t, ht⟩ := List.exists_mem_of_ne_nil _ h
  obtain ⟨mem, window⟩ := List.mem_filter.1 ht
  obtain ⟨hx, hy⟩ := lt_of_mem_plane mem
  obtain ⟨⟨startX, -⟩, startY, -⟩ := of_decide_eq_true window
  constructor
  · omega
  · omega

/-- A run can handle the window at an output element: the window starts inside, and the numbers
formed for it fit in words. -/
def Handles (l : PoolingLayer) (s : Site) : Prop := l.StartsInside s ∧ InWords (l.numbers s)

instance (l : PoolingLayer) (s : Site) : Decidable (l.Handles s) :=
  inferInstanceAs (Decidable (_ ∧ _))

theorem Accepted.run_eq (h : l.Accepted) (m : Memory) : l.run m =
    if ∀ s ∈ l.output.layout.shape.sites, l.Handles s
    then .ok (runItems l.output.layout.shape.sites l.runSite m) else .error .arithmetic := by
  unfold run
  simp only [h.windowValid_iff]
  rfl

/-- A window of less than `2 ^ 32` cells a side is handled wherever it starts inside, if the padded
plane leaves room for it in a word. -/
theorem StartsInside.handles (h : l.StartsInside s) (size : l.size < 2 ^ 32)
    (width : l.input.layout.shape.x + l.window.left + l.window.right + l.size < 2 ^ 64)
    (height : l.input.layout.shape.y + l.window.top + l.window.bottom + l.size < 2 ^ 64) :
    l.Handles s := by
  have area : (l.spanX s).cells * (l.spanY s).cells < 2 ^ 64 := calc
    (l.spanX s).cells * (l.spanY s).cells
      ≤ l.size * l.size :=
        Nat.mul_le_mul PoolSpan.cells_ofPosition_le PoolSpan.cells_ofPosition_le
    _ < 2 ^ 32 * 2 ^ 32 := Nat.mul_self_lt_mul_self size
    _ = 2 ^ 64 := by decide
  refine ⟨h, ?_⟩
  simp only [numbers, inWords_append, inWords_singleton]
  exact ⟨⟨PoolSpan.inWords_numbers h.1 width, PoolSpan.inWords_numbers h.2 height⟩, area⟩

theorem resolved_of_configure {input output : View} {p : Pooling}
    (h : configure input output p = .ok l) :
    ∃ size window, resolve p.region input.layout.shape = .ok (size, window) ∧
      l = ⟨input, output, p.kind, size, window, p.excludePadding⟩ := by
  simp only [configure, bind_eq_ok, pure_eq_ok] at h
  obtain ⟨_, -, _, -, ⟨size, window⟩, resolved, _, -, _, -, rfl⟩ := h
  exact ⟨size, window, resolved, rfl⟩

/-- A window as large as a square plane, without padding, has one position and covers the plane. -/
theorem Accepted.covered_plane (h : l.Accepted)
    (square : l.input.layout.shape.x = l.input.layout.shape.y)
    (size : l.size = l.input.layout.shape.x) (window : l.window = .default)
    (hs : s ∈ l.output.layout.shape.sites) :
    l.covered s = l.plane s ∧ l.coveredArea s = (l.plane s).length := by
  obtain ⟨⟨sx, sy⟩, -⟩ := Shape.mem_sites.1 hs
  have position (extent : Nat) : Window.positions .floor extent extent 1 = 1 := by
    simp [Window.positions]
  have x : s.x = 0 := by
    rw [h.width, window, size] at sx
    exact Nat.lt_one_iff.1 (sx.trans_eq (position _))
  have y : s.y = 0 := by
    rw [h.height, window, size, square] at sy
    exact Nat.lt_one_iff.1 (sy.trans_eq (position _))
  have everywhere {i j : Nat} (hi : i < l.input.layout.shape.x) (hj : j < l.input.layout.shape.y) :
      l.InWindow s i j := by
    unfold InWindow
    rw [x, y]
    omega
  have covered : l.covered s = l.plane s := by
    apply List.filter_eq_self.2
    intro t ht
    obtain ⟨hx, hy⟩ := lt_of_mem_plane ht
    rw [window]
    exact decide_eq_true (everywhere hx hy)
  have cells : (l.paddedCells s).length = (l.plane s).length := by
    rw [paddedCells, window]
    have all : ∀ c ∈ List.range l.input.layout.shape.y ×ˢ List.range l.input.layout.shape.x,
        decide (l.InWindow s c.2 c.1) = true := by
      intro c hc
      obtain ⟨hy, hx⟩ := List.mem_product.1 hc
      exact decide_eq_true (everywhere (List.mem_range.1 hx) (List.mem_range.1 hy))
    rw [plane, List.length_map]
    exact congrArg List.length (List.filter_eq_self.2 all)
  refine ⟨covered, ?_⟩
  rw [coveredArea, covered, cells, ite_self]

/-- Every accepted pooling between two buffers stores the folds of what the windows cover, whichever
elements it handles and in whatever order. A run handles all of them or fails. It handles every
window that starts inside the padded plane, which those that cover an element do, and whose numbers
fit in words: with less than `2 ^ 32` cells a side all do, where the padded plane leaves room for
one more window. A window over the whole plane covers all of it. -/
theorem pooled_stored {input output : View} {p : Pooling} {l : PoolingLayer} {m : Memory}
    (hl : configure input output p = .ok l) (hne : input.buffer ≠ output.buffer)
    (fits : output.Fits m) :
    let sites := output.layout.shape.sites
    let stored (after : Memory) (s : Site) : Prop :=
      output.load after (output.layout.site s) = output.layout.dataType.encode (l.pooled m s)
    ((∃ size window, resolve p.region input.layout.shape = .ok (size, window) ∧
        l = ⟨input, output, p.kind, size, window, p.excludePadding⟩) ∧
      (p.region = .plane →
        ∀ s ∈ sites, l.covered s = l.plane s ∧ l.coveredArea s = (l.plane s).length)) ∧
    (∀ done : List Site, done.Nodup → (∀ s ∈ done, s ∈ sites ∧ l.Handles s) →
      ∀ s ∈ done, stored (runItems done l.runSite m) s) ∧
    ((∀ s, l.covered s ≠ [] → l.StartsInside s) ∧
      (l.size < 2 ^ 32 →
        input.layout.shape.x + l.window.left + l.window.right + l.size < 2 ^ 64 →
        input.layout.shape.y + l.window.top + l.window.bottom + l.size < 2 ^ 64 →
        ∀ s, l.StartsInside s → l.Handles s)) ∧
    ((∀ s ∈ sites, l.Handles s) →
      ∃ after, l.run m = .ok after ∧ ∀ s ∈ sites, stored after s) ∧
    (¬ (∀ s ∈ sites, l.Handles s) → l.run m = .error .arithmetic) := by
  intro sites stored
  obtain ⟨h, rfl, rfl⟩ := accepted_of_configure hl
  have made := resolved_of_configure hl
  have each : ∀ done : List Site, done.Nodup → (∀ s ∈ done, s ∈ sites) →
      ∀ s ∈ done, stored (runItems done l.runSite m) s :=
    fun done distinct inside s hs => load_runItems hne fits distinct inside hs
  refine ⟨⟨made, ?_⟩, ?_, ⟨fun s => startsInside_of_covered, ?_⟩, ?_, ?_⟩
  · intro whole s hs
    obtain ⟨size, window, resolved, eq⟩ := made
    rw [whole, resolve] at resolved
    split at resolved
    · next square =>
      obtain ⟨rfl, rfl⟩ := Prod.mk.inj (Except.ok.inj resolved)
      have side : l.size = l.input.layout.shape.x := congrArg PoolingLayer.size eq
      have window : l.window = .default := congrArg PoolingLayer.window eq
      exact h.covered_plane square side window hs
    · cases resolved
  · intro done distinct handled
    exact each done distinct fun s hs => (handled s hs).1
  · intro size width height s starts
    exact starts.handles size width height
  · intro handled
    refine ⟨_, (h.run_eq m).trans (if_pos handled), ?_⟩
    exact each sites (Shape.nodup_sites _) fun _ hs => hs
  · intro unhandled
    exact (h.run_eq m).trans (if_neg unhandled)

/-- The mean of the last window of a plane of four by three with padding before and below: one of
its two cells in the padded plane is an element, the other one below it padding. -/
theorem pooled_stored_small :
    let input : View := ⟨0, .packed (.ofList [4, 3]) .f32⟩
    let output : View := ⟨1, .packed (.ofList [3, 2]) .f32⟩
    let m : Memory := ⟨#[.replicate 44 0 ++ #[0, 0, 64, 65], .replicate 24 0]⟩
    let p : Pooling := ⟨.average, .sliding 2 ⟨2, 2, 1, 0, 0, 1, .ceil⟩, false⟩
    ∃ l after, configure input output p = .ok l ∧ l.covered ⟨2, 1, 0, 0⟩ = [⟨3, 2, 0, 0⟩] ∧
      l.run m = .ok after ∧
      output.load after (output.layout.site ⟨2, 1, 0, 0⟩) = DataType.f32.encode ⟨0x40c00000⟩ := by
  intro input output m p
  have hl : configure input output p =
      .ok ⟨input, output, .average, 2, ⟨2, 2, 1, 0, 0, 1, .ceil⟩, false⟩ := by decide
  obtain ⟨-, -, -, runs, -⟩ := pooled_stored (m := m) hl (by decide) (by decide)
  obtain ⟨after, run, stored⟩ := runs (by decide)
  refine ⟨_, after, hl, by decide, run, ?_⟩
  exact (stored ⟨2, 1, 0, 0⟩ (by decide)).trans (by decide +kernel)

/-- The cells of the padded plane in a window of `2 ^ 32` by `2 ^ 32` are too many to be counted in
a word, so that the mean over it is not formed, although the window covers the only element. -/
theorem run_fails_for_wide_window :
    let input : View := ⟨0, .packed (.ofList [1, 1]) .f32⟩
    let output : View := ⟨1, .packed (.ofList [1, 1]) .f32⟩
    let w : Window := ⟨1, 1, 2 ^ 32 - 1, 0, 2 ^ 32 - 1, 0, .floor⟩
    ∃ l, configure input output ⟨.average, .sliding (2 ^ 32) w, false⟩ = .ok l ∧
      l.covered ⟨0, 0, 0, 0⟩ = [⟨0, 0, 0, 0⟩] ∧ ∀ m, l.run m = .error .arithmetic := by
  intro input output w
  refine ⟨⟨input, output, .average, 2 ^ 32, w, false⟩, by decide +kernel, by decide +kernel,
    fun m => ?_⟩
  unfold run
  exact if_neg (by decide +kernel)

end PoolingLayer
end TileCompute
