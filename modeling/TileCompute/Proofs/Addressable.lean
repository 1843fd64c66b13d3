import TileCompute.Proofs.Cells
import TileCompute.Proofs.Checks

/-!
# TileCompute.Proofs.Addressable

Tensors that the machine can address: every number of the layout fits in a word, and a buffer may
have as many bytes as the tensor. From this follow the bounds of everything that is worked out from
the extents, since a tensor has no more elements, rows or planes than bytes unless it has none.

* `checkWords_eq_ok`: when a check of numbers succeeds.
* `Layout.Addressable.plane_lt`, `Layout.Addressable.cells_lt`: the elements of a plane and of a
  tensor.
* `Grid.inWords_numbers`: the work-items of a launch over the elements of a tensor.
-/

namespace TileCompute

theorem checkWords_eq_ok {numbers : List Nat} {u : Unit} :
    checkWords numbers = .ok u ↔ InWords numbers := by
  unfold checkWords inWords?
  split <;> simp [orArithmetic, *]

theorem raise_checkWords {ε : Type} {numbers : List Nat} {u : Unit} :
    (raise (checkWords numbers) : Except (Failure ε) Unit) = .ok u ↔ InWords numbers := by
  rw [raise_eq_ok, checkWords_eq_ok]

namespace Layout

/-- A tensor with every number in a word and no more bytes than a buffer may have. -/
structure Addressable (l : Layout) : Prop where
  words : InWords l.numbers
  bytes : l.byteSize < 2 ^ 63

instance (l : Layout) : Decidable l.Addressable :=
  decidable_of_iff (InWords l.numbers ∧ l.byteSize < 2 ^ 63)
    ⟨fun ⟨h, h'⟩ => ⟨h, h'⟩, fun ⟨h, h'⟩ => ⟨h, h'⟩⟩

theorem plane_le_stride (l : Layout) : l.dim 0 * l.dim 1 ≤ l.stride 2 := by
  have hrow : l.dim 0 ≤ l.stride 1 := by
    refine Nat.le_trans ?_ (Nat.le_mul_of_pos_left _ l.elementSize_pos)
    show l.shape.x ≤ l.shape.x + l.padding.left + l.padding.right
    omega
  have hheight : l.dim 1 ≤ l.shape.y + l.padding.top + l.padding.bottom := by
    show l.shape.y ≤ _
    omega
  exact Nat.mul_le_mul hrow hheight

/-- Where a layout can be made, its elements can be counted. -/
theorem inWords_products {l : Layout} (h : InWords l.numbers) : InWords (l.shape.products 0 6) := by
  have hx : l.dim 0 < 2 ^ 64 := by
    have := h (l.shape.x + l.padding.left) (by simp [numbers])
    change l.shape.x < 2 ^ 64
    omega
  have h2 := l.plane_le_stride
  have h3 : _ ≤ l.stride 3 := Nat.mul_le_mul_right (l.dim 2) h2
  have h4 : _ ≤ l.stride 4 := Nat.mul_le_mul_right (l.dim 3) h3
  have h5 : _ ≤ l.stride 5 := Nat.mul_le_mul_right (l.dim 4) h4
  have h6 : _ ≤ l.byteSize := Nat.mul_le_mul_right (l.dim 5) h5
  have b2 := h (l.stride 2) (by simp [numbers])
  have b3 := h (l.stride 3) (by simp [numbers])
  have b4 := h (l.stride 4) (by simp [numbers])
  have b5 := h (l.stride 5) (by simp [numbers])
  have b6 := h l.byteSize (by simp [numbers])
  simp only [Shape.products, List.range_succ, List.range_zero, List.nil_append, List.cons_append,
    List.map_cons, List.map_nil, Shape.product, inWords_cons, inWords_nil, and_true,
    Nat.mul_one, ← Nat.mul_assoc]
  exact ⟨hx, h2.trans_lt b2, h3.trans_lt b3, h4.trans_lt b4, h5.trans_lt b5, h6.trans_lt b6⟩

theorem cells_le_byteSize (l : Layout) : l.dim 0 * l.dim 1 * l.batches ≤ l.byteSize := by
  have hsize : l.byteSize = l.stride 2 * l.batches := by
    simp only [byteSize_eq, stride, rowWidth, planeHeight]
    ring
  rw [hsize]
  exact Nat.mul_le_mul_right _ l.plane_le_stride

/-- A row begins inside the buffer even if it has no element. -/
theorem row_le_byteSize (l : Layout) {y z : Nat} (hy : y < l.dim 1) (hz : z < l.batches) :
    l.offset3 0 y z ≤ l.byteSize := by
  have hrow : l.padding.left ≤ l.rowWidth := by
    unfold rowWidth
    omega
  have hheight : l.padding.top + y < l.planeHeight := by
    change y < l.shape.y at hy
    unfold planeHeight
    omega
  have hplace : l.place ⟨0, y, z⟩ ≤ l.rowWidth * (l.planeHeight * l.batches) := by
    have hlast : l.padding.top + y + l.planeHeight * z + 1 ≤ l.planeHeight * l.batches :=
      radix_lt hheight hz
    calc l.place ⟨0, y, z⟩ ≤ l.rowWidth * (l.padding.top + y + l.planeHeight * z + 1) := by
          simp only [place, Nat.mul_succ]
          omega
      _ ≤ l.rowWidth * (l.planeHeight * l.batches) := Nat.mul_le_mul_left _ hlast
  calc l.offset3 0 y z = l.elementSize * l.place ⟨0, y, z⟩ := l.cell_eq ⟨0, y, z⟩
    _ ≤ l.byteSize := by
      rw [byteSize_eq]
      exact Nat.mul_le_mul_left _ hplace

namespace Addressable

variable {l : Layout}

theorem plane_lt (h : l.Addressable) : l.dim 0 * l.dim 1 < 2 ^ 64 :=
  Nat.lt_of_le_of_lt l.plane_le_stride (h.words (l.stride 2) (by simp [numbers]))

theorem cells_lt (h : l.Addressable) : l.dim 0 * l.dim 1 * l.batches < 2 ^ 63 :=
  Nat.lt_of_le_of_lt l.cells_le_byteSize h.bytes

/-- A row that has an element is no longer than the buffer. -/
theorem width_lt (h : l.Addressable) {y z : Nat} (hy : y < l.dim 1) (hz : z < l.batches) :
    l.dim 0 < 2 ^ 63 := by
  refine Nat.lt_of_le_of_lt ?_ h.cells_lt
  rw [Nat.mul_assoc]
  exact Nat.le_mul_of_pos_right _ (Nat.mul_pos (Nat.zero_lt_of_lt hy) (Nat.zero_lt_of_lt hz))

end Addressable

end Layout

/-- A launch has no more work-items than the tensor that it goes over has elements. -/
theorem Grid.inWords_numbers {g : Grid} {l : Layout} (hl : l.Addressable)
    (hplane : g.x * g.y ≤ l.dim 0 * l.dim 1) (hz : g.z ≤ l.batches) : InWords g.numbers := by
  have hsize : g.size ≤ l.dim 0 * l.dim 1 * l.batches := Nat.mul_le_mul hplane hz
  have := hl.plane_lt
  have := hl.cells_lt
  simp only [numbers, inWords_cons, inWords_nil, and_true]
  omega

end TileCompute
