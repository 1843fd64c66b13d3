import TileCompute.Proofs.Cells
import TileCompute.Proofs.Coverage

/-!
# TileCompute.Proofs.Strips

Launches of layers as fills. A work-item of a layer stores one element, or a list of values along
a row or a column of a matrix. Elements named by sites are the cells of the kernels
(`Layout.site_siteOf`).

* `Grid.shares_items`: one element to a work-item.
* `Grid.shares_rows`, `Grid.shares_columns`: a row or a column to a work-item.
* `View.foldl_zipIdx_eq_fill`: storing a list of values.
* `View.covers_sites`: storing a value to every element.
* `View.load_launch`: what an element holds after that.
* `View.load_runItems`: what it holds when some elements were stored, in any order.
-/

namespace TileCompute

namespace Grid

theorem shares_items (g : Grid) : Shares g (· ∈ g.items) (fun item => [item]) id where
  nodup _ _ := List.pairwise_singleton _ _
  mem_iff item hitem i := by
    rw [List.mem_singleton]
    exact ⟨fun h => ⟨h ▸ hitem, h⟩, fun h => h.2⟩
  owner_mem _ hi := hi

theorem shares_rows (x y z : Nat) : Shares ⟨1, y, z⟩ (fun c : Cell => c.x < x ∧ c.y < y ∧ c.z < z)
    (fun item => (List.range x).map fun i => ⟨i, item.y, item.z⟩) (fun c => ⟨0, c.y, c.z⟩) where
  nodup item _ :=
    List.Pairwise.map _ (fun _ _ hne he => hne (congrArg WorkItem.x he)) List.nodup_range
  mem_iff item hitem c := by
    obtain ⟨hx, hy, hz⟩ := mem_items.1 hitem
    obtain ⟨ix, iy, iz⟩ := item
    obtain rfl : ix = 0 := Nat.lt_one_iff.1 hx
    simp only [List.mem_map, List.mem_range, WorkItem.mk.injEq, true_and]
    constructor
    · rintro ⟨i, hi, rfl⟩
      exact ⟨⟨hi, hy, hz⟩, rfl, rfl⟩
    · rintro ⟨⟨hcx, -, -⟩, rfl, rfl⟩
      exact ⟨c.x, hcx, rfl⟩
  owner_mem c hc := mem_items.2 ⟨Nat.zero_lt_one, hc.2⟩

theorem shares_columns (x y : Nat) : Shares ⟨x, 1, 1⟩ (fun c : Cell => c.x < x ∧ c.y < y ∧ c.z < 1)
    (fun item => (List.range y).map fun i => ⟨item.x, i, 0⟩) (fun c => ⟨c.x, 0, 0⟩) where
  nodup item _ :=
    List.Pairwise.map _ (fun _ _ hne he => hne (congrArg WorkItem.y he)) List.nodup_range
  mem_iff item hitem c := by
    obtain ⟨hx, hy, hz⟩ := mem_items.1 hitem
    obtain ⟨ix, iy, iz⟩ := item
    obtain rfl : iy = 0 := Nat.lt_one_iff.1 hy
    obtain rfl : iz = 0 := Nat.lt_one_iff.1 hz
    simp only [List.mem_map, List.mem_range, WorkItem.mk.injEq, and_true]
    constructor
    · rintro ⟨i, hi, rfl⟩
      exact ⟨⟨hx, hi, Nat.zero_lt_one⟩, rfl⟩
    · rintro ⟨⟨-, hcy, hcz⟩, rfl⟩
      obtain ⟨cx, cy, cz⟩ := c
      obtain rfl : cz = 0 := Nat.lt_one_iff.1 hcz
      exact ⟨cy, hcy, rfl⟩
  owner_mem c hc := mem_items.2 ⟨hc.1, Nat.zero_lt_one, Nat.zero_lt_one⟩

end Grid

theorem Shape.launch_eq {σ : Type} (s : Shape) (body : Site → σ → σ) (state : σ) :
    s.launch body state = s.grid.launch (fun item => body (s.siteOf item)) state := by
  rw [launch, sites, runItems, List.foldl_map]
  rfl

namespace Shape

/-- The element at a coordinate. -/
def siteAt (s : Shape) (pos : Coord) : Site :=
  let i (d : Nat) := pos.getD d 0
  ⟨i 0, i 1, i 2, i 3 + s.dim 3 * (i 4 + s.dim 4 * i 5)⟩

theorem siteOf_cellOf {s : Shape} {pos : Coord} (h : s.Contains pos) :
    s.siteOf (s.cellOf pos) = s.siteAt pos := by
  have hz : pos[2] < s.z := h 2
  simp (disch := omega) only [siteOf, cellOf, siteAt, Coord.getD_eq]
  rw [show s.dim 2 = s.z from rfl, radix_mod hz, radix_div hz]

theorem size_pos_iff {s : Shape} :
    0 < s.size ↔ (0 < s.x ∧ 0 < s.y) ∧ 0 < s.z ∧ 0 < s.upperSize 3 := by
  have hsize : s.size = s.x * s.y * (s.z * s.upperSize 3) := s.size_eq
  simp only [hsize, Nat.pos_iff_ne_zero, Nat.mul_ne_zero_iff]

theorem mem_sites {s : Shape} {t : Site} :
    t ∈ s.sites ↔ (t.x < s.x ∧ t.y < s.y) ∧ t.z < s.z ∧ t.w < s.upperSize 3 := by
  rw [sites, List.mem_map]
  constructor
  · rintro ⟨item, hitem, rfl⟩
    obtain ⟨hx, hy, hz⟩ := Grid.mem_items.1 hitem
    have hpos : 0 < s.z := Nat.pos_of_mul_pos_right (Nat.zero_lt_of_lt hz)
    exact ⟨⟨hx, hy⟩, Nat.mod_lt _ hpos, Nat.div_lt_of_lt_mul hz⟩
  · rintro ⟨⟨hx, hy⟩, hz, hw⟩
    refine ⟨⟨t.x, t.y, t.z + s.z * t.w⟩, Grid.mem_items.2 ⟨hx, hy, radix_lt hz hw⟩, ?_⟩
    rw [siteOf, radix_mod hz, radix_div hz]

theorem siteOf_inj {s : Shape} {c d : WorkItem} (h : s.siteOf c = s.siteOf d) : c = d := by
  obtain ⟨x, y, z⟩ := c
  obtain ⟨x', y', z'⟩ := d
  obtain ⟨rfl, rfl, low, high⟩ := Site.mk.inj h
  have whole : z = z' := by
    rw [← Nat.mod_add_div z s.z, ← Nat.mod_add_div z' s.z]
    exact congrArg₂ (· + s.z * ·) low high
  rw [whole]

theorem nodup_sites (s : Shape) : s.sites.Nodup :=
  List.Pairwise.map _ (fun _ _ hne he => hne (siteOf_inj he)) s.grid.nodup_items

/-- A launch over a shape has a work-item for every cell. -/
theorem grid_eq_planes (s : Shape) : s.grid = s.planes := by
  have hz : s.z * s.upperSize 3 = s.batches := by
    rw [batches_eq]
    simp [upperSize, product, z]
  rw [grid, hz]
  rfl

theorem Contains.cellOf {l : Layout} {pos : Coord} (h : l.shape.Contains pos) :
    l.HasCell (l.shape.cellOf pos) := by
  refine ⟨?_, ?_, ?_⟩
  · simp (disch := omega) only [Shape.cellOf, Coord.getD_eq]
    exact h 0
  · simp (disch := omega) only [Shape.cellOf, Coord.getD_eq]
    exact h 1
  · simp (disch := omega) only [Shape.cellOf, Coord.getD_eq, Layout.batches, batches_eq]
    exact radix_lt (h 2) (radix_lt (h 3) (radix_lt (h 4) (h 5)))

end Shape

namespace Layout

theorem mem_grid_items {l : Layout} {c : Cell} : c ∈ l.shape.grid.items ↔ l.HasCell c := by
  rw [hasCell_iff, Shape.cells_eq, l.shape.grid_eq_planes]

theorem site_siteOf (l : Layout) (c : Cell) : l.site (l.shape.siteOf c) = l.cell c := by
  have hw : l.stride 3 = l.stride 2 * l.shape.z := rfl
  rw [site, Shape.siteOf, offset4, cell, offset3, offset3, hw]
  dsimp only
  rw [Nat.add_assoc, Nat.mul_comm (l.stride 2), ← Nat.mul_assoc, ← Nat.add_mul,
    Nat.mul_comm (c.z / _), Nat.mod_add_div]

theorem site_apart {l : Layout} {s t : Site} (hs : s ∈ l.shape.sites)
    (ht : t ∈ l.shape.sites) (hne : s ≠ t) : l.Apart (l.site s) (l.site t) := by
  obtain ⟨c, hc, rfl⟩ := List.mem_map.1 hs
  obtain ⟨d, hd, rfl⟩ := List.mem_map.1 ht
  rw [site_siteOf, site_siteOf]
  exact cell_apart (mem_grid_items.1 hc) (mem_grid_items.1 hd) fun h => hne (congrArg _ h)

end Layout

/-- The word of a value takes as many bytes as the data type has. -/
theorem DataType.encode_lt (t : DataType) (x : Binary32) : t.encode x < 256 ^ t.elementSize := by
  cases t with
  | f32 => exact Element.toWord_lt (α := Binary32) _
  | f16 => exact Element.toWord_lt (α := Binary16) _
  | qs8 => exact Element.toWord_lt (α := Q8) _
  | qs16 => exact Element.toWord_lt (α := Q16) _
  | s32 => exact UInt32.toNat_lt _

namespace View

variable {v : View}

theorem words_eq_sites (v : View) (m : Memory) :
    v.words m = v.layout.shape.sites.map fun s => v.load m (v.layout.site s) := by
  rw [words_eq, Shape.cells_eq, Shape.sites, List.map_map, Shape.grid_eq_planes]
  apply List.map_congr_left
  intro c _
  rw [Function.comp_apply, Layout.site_siteOf]

theorem foldl_zipIdx_eq_fill (address : Nat → Nat) (xs : List Binary32) (m : Memory) :
    xs.zipIdx.foldl (fun m (x, i) => v.storeValue m (address i) x) m =
      v.fill address (fun i _ => v.layout.dataType.encode (xs.getD i .zero))
        (List.range xs.length) m := by
  have hxs : xs.zipIdx = (List.range xs.length).map fun i => (xs.getD i .zero, i) := by
    apply List.ext_getElem
    · simp
    · intro i h1 h2
      have hi : i < xs.length := by simpa using h1
      simp [List.getD_eq_getElem?_getD, hi]
  rw [hxs, List.foldl_map]
  rfl

theorem fill_map {ι κ : Type} {address : ι → Nat} {value : ι → Memory → Nat} (f : κ → ι)
    (is : List κ) (m : Memory) :
    v.fill address value (is.map f) m =
      v.fill (fun i => address (f i)) (fun i => value (f i)) is m := by
  rw [fill, List.foldl_map]
  rfl

/-- A value for every element, stored by a work-item of its own. A value may read that element, but
no other one. -/
theorem covers_sites {f : Site → Memory → Binary32}
    (stable : ∀ c c', v.layout.HasCell c → v.layout.HasCell c' → c ≠ c' → ∀ m w,
      f (v.layout.shape.siteOf c) (v.store m (v.layout.cell c') w) =
        f (v.layout.shape.siteOf c) m) :
    Covers v v.layout.shape.grid
      (fun c m => v.storeValue m (v.layout.site (v.layout.shape.siteOf c))
        (f (v.layout.shape.siteOf c) m))
      v.layout.cell (fun c m => v.layout.dataType.encode (f (v.layout.shape.siteOf c) m))
      v.layout.HasCell (fun c => [c]) id := by
  constructor
  · have shares := v.layout.shape.grid.shares_items
    simp only [Layout.mem_grid_items] at shares
    exact shares
  · exact ⟨fun _ _ hc hc' hne => Layout.cell_apart hc hc' hne, fun c c' hc hc' hne m w =>
      congrArg v.layout.dataType.encode (stable c c' hc hc' hne m w)⟩
  · intro c _ m
    rw [Layout.site_siteOf]
    rfl

/-- After such a launch every element holds its value, rounded to the data type. -/
theorem load_launch {f : Site → Memory → Binary32} {m : Memory}
    (stable : ∀ c c', v.layout.HasCell c → v.layout.HasCell c' → c ≠ c' → ∀ m w,
      f (v.layout.shape.siteOf c) (v.store m (v.layout.cell c') w) =
        f (v.layout.shape.siteOf c) m)
    (fits : v.Fits m) {c : Cell} (hc : v.layout.HasCell c) :
    v.load (v.layout.shape.launch (fun s m => v.storeValue m (v.layout.site s) (f s m)) m)
        (v.layout.cell c) = v.layout.dataType.encode (f (v.layout.shape.siteOf c) m) := by
  rw [Shape.launch_eq, (covers_sites stable).load_launch hc (cell_fits fits hc)]
  exact Nat.mod_eq_of_lt (v.layout.dataType.encode_lt _)

theorem site_fits {m : Memory} (fits : v.Fits m) {s : Site} (hs : s ∈ v.layout.shape.sites) :
    v.layout.site s + v.layout.elementSize ≤ m.size v.buffer := by
  obtain ⟨c, hc, rfl⟩ := List.mem_map.1 hs
  rw [Layout.site_siteOf]
  exact cell_fits fits (Layout.mem_grid_items.1 hc)

/-- Elements lie apart, so they may be stored in any order if no value reads the element of another
one. -/
theorem separate_sites {value : Site → Memory → Nat}
    (stable : ∀ s t, s ∈ v.layout.shape.sites → t ∈ v.layout.shape.sites → s ≠ t → ∀ m w,
      value s (v.store m (v.layout.site t) w) = value s m) :
    Separate v v.layout.site value (· ∈ v.layout.shape.sites) :=
  ⟨fun _ _ hs ht hne => Layout.site_apart hs ht hne, stable⟩

/-- Of the elements stored in some order, none of them twice, each holds its value. -/
theorem load_runItems {f : Site → Memory → Binary32}
    (stable : ∀ s m o w, f s (v.store m o w) = f s m) {m : Memory} (fits : v.Fits m)
    {done : List Site} (distinct : done.Nodup) (inside : ∀ s ∈ done, s ∈ v.layout.shape.sites)
    {s : Site} (hs : s ∈ done) :
    v.load (runItems done (fun s m => v.storeValue m (v.layout.site s) (f s m)) m)
        (v.layout.site s) = v.layout.dataType.encode (f s m) := by
  have separate : Separate v v.layout.site (fun s m => v.layout.dataType.encode (f s m))
      (· ∈ v.layout.shape.sites) :=
    separate_sites fun s _ _ _ _ m w => congrArg v.layout.dataType.encode (stable s m _ w)
  refine (separate.load_fill distinct inside hs (site_fits fits (inside s hs))).trans ?_
  exact Nat.mod_eq_of_lt (v.layout.dataType.encode_lt _)

theorem load_launch_site {f : Site → Memory → Binary32}
    (stable : ∀ s m o w, f s (v.store m o w) = f s m) {m : Memory} (fits : v.Fits m) {s : Site}
    (hs : s ∈ v.layout.shape.sites) :
    v.load (v.layout.shape.launch (fun s m => v.storeValue m (v.layout.site s) (f s m)) m)
        (v.layout.site s) = v.layout.dataType.encode (f s m) :=
  load_runItems stable fits v.layout.shape.nodup_sites (fun _ ht => ht) hs

end View
end TileCompute
