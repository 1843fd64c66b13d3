import Mathlib.Tactic.Ring
import TileCompute.Proofs.Fill
import TileCompute.Proofs.Radix

/-!
# TileCompute.Proofs.Cells

Where the elements of a tensor lie. A *cell* is an element with all dimensions above the second
folded into `z`, which is how the kernels name elements. Its address is the element size times the
number of its *place* among all places of the buffer, borders included (`Layout.cell_eq`); cells of
a layout lie inside the buffer and apart from each other.

* `Layout.cell_add_le`: a cell ends before the buffer does.
* `Layout.cell_apart`: different cells share no byte.
* `Layout.offset_eq_cell`: the address of a coordinate is that of its cell.
* `Shape.cells_eq`: the elements in order are the cells of a grid in order.
-/

namespace TileCompute

/-- An element with all dimensions above the second folded into `z`. A launch with one element to a
work-item visits them, so they are named alike. -/
abbrev Cell := WorkItem

theorem Coord.getD_eq (pos : Coord) {d : Nat} (h : d < 6) : pos.getD d 0 = pos[d] := by
  simp [Vector.getD, h]

namespace Shape

theorem batches_eq (s : Shape) : s.batches = s.dim 2 * (s.dim 3 * (s.dim 4 * s.dim 5)) := by
  simp [batches, upperSize, product]

theorem size_eq (s : Shape) : s.size = s.dim 0 * s.dim 1 * s.batches := by
  simp only [batches_eq, size, product, Nat.mul_one, Nat.mul_assoc]

def cellOf (s : Shape) (pos : Coord) : Cell :=
  let i (d : Nat) := pos.getD d 0
  ⟨i 0, i 1, i 2 + s.dim 2 * (i 3 + s.dim 3 * (i 4 + s.dim 4 * i 5))⟩

def cells (s : Shape) : List Cell := s.coords.map s.cellOf

def planes (s : Shape) : Grid := ⟨s.dim 0, s.dim 1, s.batches⟩

theorem lowerSize_succ (s : Shape) {d : Nat} (h : d < 6) :
    s.lowerSize (d + 1) = s.lowerSize d * s.dim d := by
  have hprod (e n : Nat) : s.product e (n + 1) = s.product e n * s.dim (e + n) := by
    induction n generalizing e with
    | zero => simp [product]
    | succ n ih =>
      rw [product, ih, product, Nat.mul_assoc, Nat.add_right_comm, Nat.add_assoc]
  rw [lowerSize, lowerSize, Nat.min_eq_left (by omega), Nat.min_eq_left (by omega), hprod,
    Nat.zero_add]

theorem getD_coordOf (s : Shape) (i : Nat) {d : Nat} (h : d < 6) :
    (s.coordOf i).getD d 0 = i / s.lowerSize d % s.dim d := by
  simp [coordOf, Vector.getD, h]

theorem cellOf_coordOf (s : Shape) {i : Nat} (h : i < s.size) :
    s.cellOf (s.coordOf i) = s.planes.item i := by
  have l0 : s.lowerSize 0 = 1 := rfl
  have l1 : s.lowerSize 1 = s.dim 0 := by rw [lowerSize_succ s (by omega), l0, Nat.one_mul]
  have l2 : s.lowerSize 2 = s.dim 0 * s.dim 1 := by rw [lowerSize_succ s (by omega), l1]
  have l3 : s.lowerSize 3 = s.dim 0 * s.dim 1 * s.dim 2 := by
    rw [lowerSize_succ s (by omega), l2]
  have l4 : s.lowerSize 4 = s.dim 0 * s.dim 1 * s.dim 2 * s.dim 3 := by
    rw [lowerSize_succ s (by omega), l3]
  have l5 : s.lowerSize 5 = s.dim 0 * s.dim 1 * s.dim 2 * s.dim 3 * s.dim 4 := by
    rw [lowerSize_succ s (by omega), l4]
  have hq : i / (s.dim 0 * s.dim 1) / s.dim 2 / s.dim 3 / s.dim 4 < s.dim 5 := by
    rw [size_eq, batches_eq] at h
    rw [Nat.div_div_eq_div_mul, Nat.div_div_eq_div_mul, Nat.div_div_eq_div_mul]
    apply Nat.div_lt_of_lt_mul
    calc i < _ := h
      _ = _ := by ring
  simp (disch := omega) only [cellOf, getD_coordOf, l0, l1, l2, l3, l4, l5, planes, Grid.item,
    Nat.div_one]
  congr 1
  simp only [← Nat.div_div_eq_div_mul] at hq ⊢
  rw [Nat.mod_eq_of_lt hq, Nat.mod_add_div, Nat.mod_add_div, Nat.mod_add_div]

theorem cells_eq (s : Shape) : s.cells = s.planes.items := by
  have hsize : s.planes.size = s.size := by rw [size_eq]; rfl
  rw [cells, coords, List.map_map, Grid.items, hsize]
  apply List.map_congr_left
  intro i hi
  exact s.cellOf_coordOf (List.mem_range.1 hi)

end Shape

namespace Layout

def rowWidth (l : Layout) : Nat := l.shape.x + l.padding.left + l.padding.right

def planeHeight (l : Layout) : Nat := l.shape.y + l.padding.top + l.padding.bottom

/-- Number of a cell's place among all places of the buffer. -/
def place (l : Layout) (c : Cell) : Nat :=
  l.padding.left + c.x + l.rowWidth * (l.padding.top + c.y + l.planeHeight * c.z)

def cell (l : Layout) (c : Cell) : Nat := l.offset3 c.x c.y c.z

def HasCell (l : Layout) (c : Cell) : Prop := c.x < l.dim 0 ∧ c.y < l.dim 1 ∧ c.z < l.batches

instance (l : Layout) (c : Cell) : Decidable (l.HasCell c) :=
  inferInstanceAs (Decidable (_ ∧ _ ∧ _))

theorem elementSize_pos (l : Layout) : 0 < l.elementSize := l.dataType.elementSize_pos

theorem hasCell_iff {l : Layout} {c : Cell} : l.HasCell c ↔ c ∈ l.shape.cells := by
  rw [Shape.cells_eq, Grid.mem_items]
  rfl

theorem cell_eq (l : Layout) (c : Cell) : l.cell c = l.elementSize * l.place c := by
  simp only [cell, offset3, offset2, start, stride, place, rowWidth, planeHeight]
  ring

theorem byteSize_eq (l : Layout) :
    l.byteSize = l.elementSize * (l.rowWidth * (l.planeHeight * l.batches)) := by
  simp only [byteSize, stride, rowWidth, planeHeight, batches, Shape.batches_eq, dim]
  ring

theorem offset_eq_cell (l : Layout) (pos : Coord) :
    l.offset pos = l.cell (l.shape.cellOf pos) := by
  simp (disch := omega) only [cell, offset3, offset2, offset, Shape.cellOf, stride, dim,
    Coord.getD_eq]
  ring

variable {l : Layout} {c c' : Cell}

theorem place_lt (h : l.HasCell c) : l.place c < l.rowWidth * (l.planeHeight * l.batches) := by
  obtain ⟨hx, hy, hz⟩ := h
  have hrow : l.padding.left + c.x < l.rowWidth := by
    change c.x < l.shape.x at hx
    unfold rowWidth
    omega
  have hplane : l.padding.top + c.y < l.planeHeight := by
    change c.y < l.shape.y at hy
    unfold planeHeight
    omega
  exact radix_lt hrow (radix_lt hplane hz)

theorem place_inj (h : l.HasCell c) (h' : l.HasCell c') (he : l.place c = l.place c') :
    c = c' := by
  obtain ⟨hx, hy, -⟩ := h
  obtain ⟨hx', hy', -⟩ := h'
  change c.x < l.shape.x at hx
  change c'.x < l.shape.x at hx'
  change c.y < l.shape.y at hy
  change c'.y < l.shape.y at hy'
  obtain ⟨ex, he⟩ := radix_inj (by unfold rowWidth; omega) (by unfold rowWidth; omega) he
  obtain ⟨ey, ez⟩ := radix_inj (by unfold planeHeight; omega) (by unfold planeHeight; omega) he
  cases c
  cases c'
  simp only [WorkItem.mk.injEq]
  simp only at ex ey ez
  omega

theorem cell_add_le (h : l.HasCell c) : l.cell c + l.elementSize ≤ l.byteSize := by
  rw [cell_eq, byteSize_eq, ← Nat.mul_succ]
  exact Nat.mul_le_mul_left _ (place_lt h)

/-- Places apart from each other hold elements apart from each other. -/
theorem apart_of_lt {p p' : Nat} (h : p < p') :
    l.Apart (l.elementSize * p) (l.elementSize * p') := by
  left
  rw [← Nat.mul_succ]
  exact Nat.mul_le_mul_left _ h

theorem cell_apart (h : l.HasCell c) (h' : l.HasCell c') (hne : c ≠ c') :
    l.Apart (l.cell c) (l.cell c') := by
  rw [cell_eq, cell_eq]
  rcases Nat.lt_trichotomy (l.place c) (l.place c') with hlt | he | hlt
  · exact apart_of_lt hlt
  · exact absurd (place_inj h h' he) hne
  · exact (apart_of_lt hlt).symm

/-- The elements' numbers give cells. -/
theorem hasCell_item {i : Nat} (hi : i < l.shape.size) : l.HasCell (l.shape.planes.item i) := by
  rw [hasCell_iff, Shape.cells_eq]
  rw [Shape.size_eq] at hi
  exact List.mem_map_of_mem (List.mem_range.2 hi)

theorem offsets_eq (l : Layout) : l.shape.coords.map l.offset = l.shape.cells.map l.cell := by
  rw [Shape.cells, List.map_map]
  apply List.map_congr_left
  intro c _
  exact l.offset_eq_cell c

end Layout

namespace View

theorem cell_fits {v : View} {m : Memory} {c : Cell} (hm : v.Fits m) (hc : v.layout.HasCell c) :
    v.layout.cell c + v.layout.elementSize ≤ m.size v.buffer :=
  Nat.le_trans (Layout.cell_add_le hc) hm

/-- Values that do not read the tensor may be stored to its cells in any order. -/
theorem separate_cells {v : View} {value : Cell → Memory → Nat}
    (h : ∀ c m o w, value c (v.store m o w) = value c m) :
    v.Separate v.layout.cell value v.layout.HasCell :=
  ⟨fun _ _ hc hc' hne => Layout.cell_apart hc hc' hne, fun c _ _ _ _ m w => h c m _ w⟩

theorem words_eq (v : View) (m : Memory) :
    v.words m = v.layout.shape.cells.map fun c => v.load m (v.layout.cell c) := by
  rw [words, Shape.cells, List.map_map]
  apply List.map_congr_left
  intro c _
  simp [Layout.offset_eq_cell]

/-- The elements by their numbers, the first dimension fastest. -/
theorem words_eq_range (v : View) (m : Memory) :
    v.words m = (List.range v.layout.shape.size).map fun i =>
      v.load m (v.layout.cell (v.layout.shape.planes.item i)) := by
  rw [words_eq, Shape.cells_eq, Grid.items, List.map_map, Shape.size_eq]
  rfl

@[simp] theorem length_words (v : View) (m : Memory) :
    (v.words m).length = v.layout.shape.size := by
  simp [words_eq_range]

theorem getElem?_words {v : View} {c : Cell} (m : Memory) (hc : v.layout.HasCell c) :
    (v.words m)[c.z * v.layout.dim 1 * v.layout.dim 0 + c.y * v.layout.dim 0 + c.x]? =
      some (v.load m (v.layout.cell c)) := by
  obtain ⟨hx, hy, hz⟩ := hc
  have hindex : c.z * v.layout.dim 1 * v.layout.dim 0 + c.y * v.layout.dim 0 + c.x =
      c.x + v.layout.dim 0 * (c.y + v.layout.dim 1 * c.z) := by ring
  have hlt : c.x + v.layout.dim 0 * (c.y + v.layout.dim 1 * c.z) < v.layout.shape.size := by
    rw [Shape.size_eq, Nat.mul_assoc]
    exact radix_lt hx (radix_lt hy hz)
  have hitem : v.layout.shape.planes.item (c.x + v.layout.dim 0 * (c.y + v.layout.dim 1 * c.z)) =
      c := by
    change c.x < v.layout.shape.planes.x at hx
    change c.y < v.layout.shape.planes.y at hy
    change v.layout.shape.planes.item
      (c.x + v.layout.shape.planes.x * (c.y + v.layout.shape.planes.y * c.z)) = c
    simp only [Grid.item, radix_mod hx, radix_div hx, radix_mod hy, radix_div hy]
  rw [hindex, words_eq_range, List.getElem?_map, List.getElem?_range hlt, Option.map_some, hitem]

/-- Two memories hold the same elements if they agree on every cell. -/
theorem words_congr {v : View} {m m' : Memory} (h : ∀ c, v.layout.HasCell c →
    v.load m (v.layout.cell c) = v.load m' (v.layout.cell c)) : v.words m = v.words m' := by
  rw [words_eq, words_eq]
  apply List.map_congr_left
  intro c hc
  exact h c (Layout.hasCell_iff.2 hc)

end View
end TileCompute
