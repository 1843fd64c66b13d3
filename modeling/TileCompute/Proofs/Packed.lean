import TileCompute.Gemm
import TileCompute.Proofs.Cells
import TileCompute.Proofs.Extents

/-!
# TileCompute.Proofs.Packed

Lists of elements laid out in buffers. A list packed into bytes has its elements at the multiples
of the element size, and a borderless tensor of three dimensions has its cells there in row-major
order, plane by plane.

* `load_packBytes`: an element of a packed list is read back.
* `Layout.cell_packed`: the address of a cell of a borderless tensor.
* `load_plane`: a cell of such a tensor on a packed list is an element of the list.
-/

namespace TileCompute

section Chunks

variable {ι κ : Type} {f : ι → List κ} {s : Nat}

theorem length_chunks (h : ∀ x, (f x).length = s) (xs : List ι) :
    (xs.flatMap f).length = xs.length * s := by
  induction xs with
  | nil => simp
  | cons x xs ih => rw [List.flatMap_cons, List.length_append, h, ih, List.length_cons,
      Nat.succ_mul, Nat.add_comm]

/-- Chunks of one length are found at multiples of it. -/
theorem getElem?_chunks (h : ∀ x, (f x).length = s) {xs : List ι} {i r : Nat} (hr : r < s) :
    (xs.flatMap f)[i * s + r]? = xs[i]?.bind fun x => (f x)[r]? := by
  induction xs generalizing i with
  | nil => simp
  | cons x xs ih =>
    cases i with
    | zero =>
      have hlt : r < (f x).length := (h x).symm ▸ hr
      rw [List.flatMap_cons, Nat.zero_mul, Nat.zero_add, List.getElem?_append_left hlt]
      rfl
    | succ i =>
      rw [List.flatMap_cons, List.getElem?_append_right (by rw [h, Nat.succ_mul]; omega), h,
        Nat.succ_mul, show i * s + s + r - s = i * s + r by omega, ih, List.getElem?_cons_succ]

end Chunks

section Bytes

variable {α : Type} [Element α] {xs : List α} {m : Memory} {b : BufferId} {i : Nat}

theorem size_packBytes (xs : List α) : (packBytes xs).size = xs.length * (Element.kind α).size := by
  rw [packBytes, List.size_toArray]
  exact length_chunks (fun _ => by simp) xs

theorem load_packBytes (hb : ∀ j, m.byte b j = (packBytes xs).getD j 0) (hi : i < xs.length) :
    m.load b (i * (Element.kind α).size) (Element.kind α).size =
      Element.toWord (xs.getD i (zeroElement α)) := by
  rw [← Nat.mod_eq_of_lt (Element.toWord_lt (xs.getD i (zeroElement α)))]
  apply Memory.load_of_bytes
  intro r hr
  rw [hb, packBytes, Array.getD_eq_getD_getElem?, List.getElem?_toArray,
    getElem?_chunks (fun _ => by simp) hr, List.getD_eq_getElem?_getD, List.getElem?_eq_getElem hi]
  simp [hr]

end Bytes

namespace Layout

variable (x y z : Nat) (t : DataType)

@[simp] theorem dim_zero_packed : (packed (.ofList [x, y, z]) t).dim 0 = x :=
  Shape.dim_ofList _ (by decide)

@[simp] theorem dim_one_packed : (packed (.ofList [x, y, z]) t).dim 1 = y :=
  Shape.dim_ofList _ (by decide)

@[simp] theorem dim_two_packed : (packed (.ofList [x, y, z]) t).dim 2 = z :=
  Shape.dim_ofList _ (by decide)

@[simp] theorem batches_packed : (packed (.ofList [x, y, z]) t).batches = z := by
  simp [batches, packed, Shape.batches_eq, Shape.dim_ofList]

theorem dim_zero_matrix : (packed (.ofList [x, y]) t).dim 0 = x :=
  Shape.dim_ofList _ (by decide)

theorem dim_one_matrix : (packed (.ofList [x, y]) t).dim 1 = y :=
  Shape.dim_ofList _ (by decide)

theorem batches_matrix : (packed (.ofList [x, y]) t).batches = 1 := by
  simp [batches, packed, Shape.batches_eq, Shape.dim_ofList]

/-- Cells of a borderless tensor follow each other row by row, plane by plane. -/
theorem cell_packed (c : Cell) :
    (packed (.ofList [x, y, z]) t).cell c = (c.z * y * x + c.y * x + c.x) * t.elementSize := by
  have hx : (packed (.ofList [x, y, z]) t).shape.x = x := dim_zero_packed x y z t
  have hy : (packed (.ofList [x, y, z]) t).shape.y = y := dim_one_packed x y z t
  rw [cell_eq, place, rowWidth, planeHeight, hx, hy]
  simp only [packed, Padding.none, elementSize]
  ring

theorem byteSize_packed :
    (packed (.ofList [x, y, z]) t).byteSize = z * y * x * t.elementSize := by
  have hx : (packed (.ofList [x, y, z]) t).shape.x = x := dim_zero_packed x y z t
  have hy : (packed (.ofList [x, y, z]) t).shape.y = y := dim_one_packed x y z t
  rw [byteSize_eq, rowWidth, planeHeight, hx, hy, batches_packed]
  simp only [packed, Padding.none, elementSize]
  ring

variable {x y z t}

theorem hasCell_packed {c : Cell} :
    (packed (.ofList [x, y, z]) t).HasCell c ↔ c.x < x ∧ c.y < y ∧ c.z < z := by
  rw [HasCell, dim_zero_packed, dim_one_packed, batches_packed]

theorem hasCell_matrix {c : Cell} :
    (packed (.ofList [x, y]) t).HasCell c ↔ c.x < x ∧ c.y < y ∧ c.z = 0 := by
  rw [HasCell, dim_zero_matrix, dim_one_matrix, batches_matrix, Nat.lt_one_iff]

end Layout

theorem row_lt {x y i j : Nat} (hi : i < x) (hj : j < y) : j * x + i < y * x := by
  rw [Nat.add_comm, Nat.mul_comm j, Nat.mul_comm y]
  exact radix_lt hi hj

theorem index_lt {x y z i j k : Nat} (hi : i < x) (hj : j < y) (hk : k < z) :
    k * y * x + j * x + i < z * y * x := by
  rw [← Nat.add_mul]
  exact row_lt hi (row_lt hj hk)

/-- A cell of a borderless tensor on a packed list is an element of the list. -/
theorem load_plane {α : Type} [Element α] {xs : List α} {m : Memory} {b : BufferId} {x y z : Nat}
    {t : DataType} {c : Cell} (ht : t.kind = Element.kind α)
    (hb : ∀ j, m.byte b j = (packBytes xs).getD j 0) (hlen : xs.length = z * y * x)
    (hc : (Layout.packed (.ofList [x, y, z]) t).HasCell c) :
    Element.ofWord (View.load ⟨b, .packed (.ofList [x, y, z]) t⟩ m
        ((Layout.packed (.ofList [x, y, z]) t).cell c)) =
      xs.getD (c.z * y * x + c.y * x + c.x) (zeroElement α) := by
  obtain ⟨hx, hy, hz⟩ := Layout.hasCell_packed.1 hc
  have hsize : (Layout.packed (.ofList [x, y, z]) t).elementSize = (Element.kind α).size :=
    congrArg ElementKind.size ht
  rw [Layout.cell_packed, View.load, hsize, DataType.elementSize, ht,
    load_packBytes hb (hlen ▸ index_lt hx hy hz), Element.ofWord_toWord]

theorem fits_plane {α : Type} [Element α] {xs : List α} {m : Memory} {b : BufferId} {x y z : Nat}
    {t : DataType} (ht : t.kind = Element.kind α) (hb : m.size b = (packBytes xs).size)
    (hlen : xs.length = z * y * x) : View.Fits ⟨b, .packed (.ofList [x, y, z]) t⟩ m := by
  rw [View.Fits, hb, size_packBytes, hlen, Layout.byteSize_packed, DataType.elementSize, ht]

end TileCompute
