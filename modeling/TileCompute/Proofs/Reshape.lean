import Mathlib.Data.List.Basic
import TileCompute.Kernel.Reshape
import TileCompute.Proofs.Addressable
import TileCompute.Proofs.Coverage
import TileCompute.Proofs.Extents
import TileCompute.Proofs.Watched

/-!
# TileCompute.Proofs.Reshape

What the reshape kernels do. `Reshape.origin` is the inverse of the moves: it names the element of
the source that ends at a given cell of the destination, if there is one. A reshape whose operands
were accepted covers its destination, and every cell receives its origin or a zero.

* `Reshape.configure_eq_ok`: the operands that are accepted.
* `Reshape.shares`: each cell of the destination is stored by one work-item, its owner.
* `Reshape.moves_eq`: the moves of a work-item go to its cells and come from their origins.
* `Reshape.runItemIn_eq`, `Reshape.runIn_eq`: a work-item fills its cells, a run all of them.
* `Reshape.covers`: the launch as a fill of the destination.
* `Reshape.load_run`: what a cell holds after a run.
-/

namespace TileCompute

namespace Packing

theorem width_pos (t : DataType) (h v : Nat) : 0 < (ofType t h v).width := t.kind.vectorWidth_pos

theorem valid_ofType {t : DataType} {h v : Nat} : (ofType t h v).Valid ↔ h ≠ 0 ∧ v ≠ 0 := by
  have := width_pos t h v
  constructor
  · rintro ⟨-, hh, hv⟩
    exact ⟨hh, hv⟩
  · rintro ⟨hh, hv⟩
    exact ⟨by omega, hh, hv⟩

end Packing

namespace Arrangement

theorem shape_interleaved_x (v : Nat) (s : Layout) :
    ((interleaved v).shape s).x = s.dim 0 * (interleaveHeight * v) :=
  Shape.setPlane_x _ _ _

theorem shape_interleaved_y (v : Nat) (s : Layout) :
    ((interleaved v).shape s).y = ceilDiv (ceilDiv (s.dim 1) interleaveHeight) v :=
  Shape.setPlane_y _ _ _

theorem shape_blockTransposed_x (h : Nat) (s : Layout) :
    ((blockTransposed h).shape s).x = s.dim 1 * (s.dataType.vectorWidth * h) :=
  Shape.setPlane_x _ _ _

theorem shape_blockTransposed_y (h : Nat) (s : Layout) :
    ((blockTransposed h).shape s).y = ceilDiv (ceilDiv (s.dim 0) s.dataType.vectorWidth) h :=
  Shape.setPlane_y _ _ _

theorem shape_transposed_x (s : Layout) : (transposed.shape s).x = s.dim 1 :=
  Shape.setPlane_x _ _ _

theorem shape_transposed_y (s : Layout) : (transposed.shape s).y = s.dim 0 :=
  Shape.setPlane_y _ _ _

theorem batches_shape (g : Arrangement) (s : Layout) : (g.shape s).batches = s.batches := by
  cases g <;> exact Shape.batches_setPlane _ _ _

end Arrangement

namespace Reshape

structure Accepted (r : Reshape) : Prop where
  valid : r.packing.Valid
  dataType : r.source.dataType = r.target.dataType
  width : r.target.dim 0 = (r.arrangement.shape r.source).x
  height : r.target.dim 1 = (r.arrangement.shape r.source).y
  batches : r.target.batches = r.source.batches

theorem configure_eq_ok {g : Arrangement} {s t : Layout} {r : Reshape} :
    configure g s t = .ok r ↔ r = ⟨g, s, t⟩ ∧ r.Accepted := by
  simp only [configure, bind_eq_ok, Packing.check_eq_ok, reject_eq_ok, pure_eq_ok]
  constructor
  · rintro ⟨-, hv, ht, hd, rfl⟩
    simp only [ne_eq, not_or, Decidable.not_not] at ht hd
    exact ⟨rfl, hv, ht, hd.1, hd.2.1, hd.2.2⟩
  · rintro ⟨rfl, h⟩
    exact ⟨(), h.valid, fun e => e h.dataType,
      by simp only [h.width, h.height, h.batches, ne_eq, not_true, or_self, not_false_eq_true], rfl⟩

theorem blocks_ne {g : Arrangement} {t : DataType} (h : (g.packing t).Valid) : g.blocks ≠ 0 := by
  cases g with
  | interleaved v => exact (Packing.valid_ofType.1 h).2
  | blockTransposed w => exact (Packing.valid_ofType.1 h).1
  | transposed => exact Nat.one_ne_zero

theorem outputLayout_eq {g : Arrangement} {s : Layout} (h : (g.packing s.dataType).Valid) :
    g.outputLayout s = .ok (.packed (g.shape s) s.dataType) :=
  if_neg (blocks_ne h)

theorem accepted_output {g : Arrangement} {s : Layout} (h : (g.packing s.dataType).Valid) :
    (⟨g, s, .packed (g.shape s) s.dataType⟩ : Reshape).Accepted :=
  ⟨h, rfl, rfl, rfl, g.batches_shape s⟩

def cells (r : Reshape) (item : WorkItem) : List Cell :=
  match r.arrangement with
  | .interleaved v =>
    let first := item.x * interleaveHeight
    let last := min (first + interleaveHeight) (r.source.dim 0)
    (List.range' first (last - first)).flatMap fun k =>
      (List.range interleaveHeight).map fun i =>
        ⟨i + interleaveHeight * (item.y % v) + interleaveHeight * v * k, item.y / v, item.z⟩
  | .blockTransposed h =>
    let w := r.packing.width
    (List.range w).map fun j => ⟨j + w * (item.x % h) + w * h * item.y, item.x / h, item.z⟩
  | .transposed => [⟨item.y, item.x, item.z⟩]

def owner (r : Reshape) (c : Cell) : WorkItem :=
  match r.arrangement with
  | .interleaved v =>
    ⟨c.x / (interleaveHeight * v) / interleaveHeight,
      c.x % (interleaveHeight * v) / interleaveHeight + v * c.y, c.z⟩
  | .blockTransposed h =>
    let w := r.packing.width
    ⟨c.x % (w * h) / w + h * c.y, c.x / (w * h), c.z⟩
  | .transposed => ⟨c.y, c.x, c.z⟩

/-- The element of the source that ends at a cell: none where a block reaches past the source. -/
def origin (r : Reshape) (c : Cell) : Option Cell :=
  match r.arrangement with
  | .interleaved v =>
    let row := c.x % (interleaveHeight * v) + interleaveHeight * v * c.y
    if row < r.source.dim 1 then some ⟨c.x / (interleaveHeight * v), row, c.z⟩ else none
  | .blockTransposed h =>
    let w := r.packing.width
    let column := c.x % (w * h) + w * h * c.y
    if column < r.source.dim 0 then some ⟨column, c.x / (w * h), c.z⟩ else none
  | .transposed => some ⟨c.y, c.x, c.z⟩

def value (r : Reshape) (source : BufferId) (c : Cell) (m : Memory) : Nat :=
  match r.origin c with
  | some o => View.load ⟨source, r.source⟩ m (r.source.cell o)
  | none => 0

def moveTo (r : Reshape) (c : Cell) : Move := ⟨r.target.cell c, (r.origin c).map r.source.cell⟩

section Blocks

variable {s t : Layout} {h v i j b k z : Nat}

theorem origin_interleaved (hv : 0 < v) (hi : i < interleaveHeight) :
    (⟨.interleaved v, s, t⟩ : Reshape).origin
        ⟨i + interleaveHeight * (b % v) + interleaveHeight * v * k, b / v, z⟩ =
      if i + interleaveHeight * b < s.dim 1 then some ⟨k, i + interleaveHeight * b, z⟩
      else none := by
  have hlane := lane_lt hi hv b
  simp only [origin, radix_mod hlane, radix_div hlane, lane_add_group]

theorem origin_blockTransposed (hh : 0 < h) (hj : j < s.dataType.vectorWidth) :
    (⟨.blockTransposed h, s, t⟩ : Reshape).origin
        ⟨j + s.dataType.vectorWidth * (b % h) + s.dataType.vectorWidth * h * k, b / h, z⟩ =
      if j + s.dataType.vectorWidth * b < s.dim 0 then
        some ⟨j + s.dataType.vectorWidth * b, k, z⟩
      else none := by
  have hlane := lane_lt hj hh b
  simp only [origin, packing, Arrangement.packing, Packing.ofType, radix_mod hlane,
    radix_div hlane, lane_add_group]

end Blocks

variable {r : Reshape}

/-- A work-item moves to its cells, from their origins. -/
theorem moves_eq (hr : r.Accepted) (item : WorkItem) :
    r.moves item = (r.cells item).map r.moveTo := by
  obtain ⟨g, s, t⟩ := r
  cases g with
  | interleaved v =>
    have hv : 0 < v := Nat.pos_of_ne_zero (Packing.valid_ofType.1 hr.valid).2
    simp only [moves, interleaveMoves, cells, List.map_flatMap, List.map_map]
    apply List.flatMap_congr
    intro k _
    apply List.map_congr_left
    intro i hi
    simp only [Function.comp, moveTo, origin_interleaved hv (List.mem_range.1 hi)]
    congr 1
    · simp only [Layout.cell]
      congr 1
      ring
    · rw [show i + interleaveHeight * item.y = item.y * interleaveHeight + i by ring,
        apply_ite (Option.map s.cell)]
      rfl
  | blockTransposed h =>
    have hh : 0 < h := Nat.pos_of_ne_zero (Packing.valid_ofType.1 hr.valid).1
    simp only [moves, blockTransposeMoves, cells, List.map_map]
    apply List.map_congr_left
    intro j hj
    have hj' : j < s.dataType.vectorWidth := List.mem_range.1 hj
    have ho := origin_blockTransposed (s := s) (t := t) (b := item.x) (k := item.y) (z := item.z)
      hh hj'
    simp only [packing, Arrangement.packing, Packing.ofType] at ho ⊢
    simp only [Function.comp, moveTo, ho]
    congr 1
    · simp only [Layout.cell]
      congr 1
      ring
    · rw [show j + s.dataType.vectorWidth * item.x = item.x * s.dataType.vectorWidth + j by ring,
        apply_ite (Option.map s.cell)]
      rfl
  | transposed => rfl

/-- Extents of the grid and of the destination, block by block. -/
theorem Accepted.extents_interleaved {v : Nat} {s t : Layout}
    (hr : (⟨.interleaved v, s, t⟩ : Reshape).Accepted) :
    0 < v ∧ t.dim 0 = s.dim 0 * (interleaveHeight * v) ∧
      t.dim 1 = ceilDiv (ceilDiv (s.dim 1) interleaveHeight) v ∧ t.batches = s.batches :=
  ⟨Nat.pos_of_ne_zero (Packing.valid_ofType.1 hr.valid).2,
    hr.width.trans (Arrangement.shape_interleaved_x v s),
    hr.height.trans (Arrangement.shape_interleaved_y v s), hr.batches⟩

theorem Accepted.extents_blockTransposed {h : Nat} {s t : Layout}
    (hr : (⟨.blockTransposed h, s, t⟩ : Reshape).Accepted) :
    0 < h ∧ t.dim 0 = s.dim 1 * (s.dataType.vectorWidth * h) ∧
      t.dim 1 = ceilDiv (ceilDiv (s.dim 0) s.dataType.vectorWidth) h ∧ t.batches = s.batches :=
  ⟨Nat.pos_of_ne_zero (Packing.valid_ofType.1 hr.valid).1,
    hr.width.trans (Arrangement.shape_blockTransposed_x h s),
    hr.height.trans (Arrangement.shape_blockTransposed_y h s), hr.batches⟩

theorem Accepted.extents_transposed {s t : Layout}
    (hr : (⟨.transposed, s, t⟩ : Reshape).Accepted) :
    t.dim 0 = s.dim 1 ∧ t.dim 1 = s.dim 0 ∧ t.batches = s.batches :=
  ⟨hr.width.trans (Arrangement.shape_transposed_x s),
    hr.height.trans (Arrangement.shape_transposed_y s), hr.batches⟩

theorem hasCell_origin (hr : r.Accepted) {c o : Cell} (hc : r.target.HasCell c)
    (ho : r.origin c = some o) : r.source.HasCell o := by
  obtain ⟨g, s, t⟩ := r
  obtain ⟨hx, hy, hz⟩ := hc
  cases g with
  | interleaved v =>
    obtain ⟨-, hw, -, hb⟩ := hr.extents_interleaved
    simp only [origin, Option.ite_none_right_eq_some, Option.some.injEq] at ho
    obtain ⟨hrow, rfl⟩ := ho
    refine ⟨Nat.div_lt_of_lt_mul ?_, hrow, hb ▸ hz⟩
    rwa [Nat.mul_comm, ← hw]
  | blockTransposed h =>
    obtain ⟨-, hw, -, hb⟩ := hr.extents_blockTransposed
    simp only [origin, Option.ite_none_right_eq_some, Option.some.injEq] at ho
    obtain ⟨hcolumn, rfl⟩ := ho
    refine ⟨hcolumn, Nat.div_lt_of_lt_mul ?_, hb ▸ hz⟩
    rw [Nat.mul_comm]
    exact hw ▸ hx
  | transposed =>
    obtain ⟨hw, hh, hb⟩ := hr.extents_transposed
    obtain rfl := Option.some.inj ho
    exact ⟨hh ▸ hy, hw ▸ hx, hb ▸ hz⟩

theorem shares_interleaved {v : Nat} {s t : Layout}
    (hr : (⟨.interleaved v, s, t⟩ : Reshape).Accepted) :
    Shares (⟨.interleaved v, s, t⟩ : Reshape).grid t.HasCell (cells ⟨.interleaved v, s, t⟩)
      (owner ⟨.interleaved v, s, t⟩) := by
  obtain ⟨hv, hw, -, hb⟩ := hr.extents_interleaved
  have h4 : 0 < interleaveHeight := by decide
  have hblock : 0 < interleaveHeight * v := Nat.mul_pos h4 hv
  constructor
  · intro item _
    apply nodup_rectangle List.nodup_range' List.nodup_range
    intro k _ k' _ i hi i' hi' he
    simp only [WorkItem.mk.injEq, and_true] at he
    have hlane := lane_lt (List.mem_range.1 hi) hv item.y
    have hlane' := lane_lt (List.mem_range.1 hi') hv item.y
    obtain ⟨hl, hk⟩ := radix_inj hlane hlane' he
    exact ⟨hk, by omega⟩
  · intro item hitem c
    obtain ⟨-, hy, hz⟩ := Grid.mem_items.1 hitem
    simp only [grid] at hy hz
    simp only [cells, owner, List.mem_flatMap, List.mem_range'_1, List.mem_map, List.mem_range]
    constructor
    · rintro ⟨k, ⟨hk1, hk2⟩, i, hi, rfl⟩
      have hlane := lane_lt hi hv item.y
      have hk : k < s.dim 0 := by omega
      refine ⟨⟨?_, ?_, ?_⟩, ?_⟩
      · show _ < t.dim 0
        rw [hw, Nat.mul_comm (s.dim 0)]
        exact radix_lt hlane hk
      · exact Nat.div_lt_of_lt_mul (by rwa [Nat.mul_comm])
      · show item.z < t.batches
        rwa [hb]
      · simp only [radix_mod hlane, radix_div hlane, radix_div hi, Nat.mod_add_div]
        have hx : k / interleaveHeight = item.x := (div_eq_iff_block h4).2 (by omega)
        rw [hx]
    · rintro ⟨⟨hx, hy', -⟩, rfl⟩
      have hlane : c.x % (interleaveHeight * v) < interleaveHeight * v := Nat.mod_lt _ hblock
      have hq : c.x % (interleaveHeight * v) / interleaveHeight < v :=
        Nat.div_lt_of_lt_mul hlane
      have hk : c.x / (interleaveHeight * v) < s.dim 0 := by
        apply Nat.div_lt_of_lt_mul
        rwa [Nat.mul_comm, ← hw]
      have hfirst := (div_eq_iff_block (i := c.x / (interleaveHeight * v)) h4).1 rfl
      dsimp only
      refine ⟨c.x / (interleaveHeight * v), by omega,
        c.x % (interleaveHeight * v) % interleaveHeight, Nat.mod_lt _ h4, ?_⟩
      simp only [radix_mod hq, radix_div hq, Nat.mod_add_div]
  · rintro c ⟨hx, hy, hz⟩
    have hlane : c.x % (interleaveHeight * v) < interleaveHeight * v := Nat.mod_lt _ hblock
    rw [hw] at hx
    rw [Grid.mem_items]
    refine ⟨div_lt_ceilDiv h4 (Nat.div_lt_of_lt_mul (by rwa [Nat.mul_comm])), ?_, ?_⟩
    · show _ < t.dim 1 * v
      rw [Nat.mul_comm]
      exact radix_lt (Nat.div_lt_of_lt_mul hlane) hy
    · show c.z < s.batches
      rwa [← hb]

theorem shares_blockTransposed {h : Nat} {s t : Layout}
    (hr : (⟨.blockTransposed h, s, t⟩ : Reshape).Accepted) :
    Shares (⟨.blockTransposed h, s, t⟩ : Reshape).grid t.HasCell
      (cells ⟨.blockTransposed h, s, t⟩) (owner ⟨.blockTransposed h, s, t⟩) := by
  obtain ⟨hh, hw, -, hb⟩ := hr.extents_blockTransposed
  have hwidth : 0 < s.dataType.vectorWidth := s.dataType.kind.vectorWidth_pos
  have hblock : 0 < s.dataType.vectorWidth * h := Nat.mul_pos hwidth hh
  have hpack : (⟨.blockTransposed h, s, t⟩ : Reshape).packing.width = s.dataType.vectorWidth := rfl
  constructor
  · intro item _
    simp only [cells, hpack]
    rw [List.nodup_iff_pairwise_ne, List.pairwise_map]
    apply List.nodup_range.imp
    intro j j' hne he
    simp only [WorkItem.mk.injEq, and_true] at he
    omega
  · intro item hitem c
    obtain ⟨hx, hy, hz⟩ := Grid.mem_items.1 hitem
    simp only [grid] at hx hy hz
    simp only [cells, owner, hpack, List.mem_map, List.mem_range]
    constructor
    · rintro ⟨j, hj, rfl⟩
      have hlane := lane_lt hj hh item.x
      refine ⟨⟨?_, ?_, ?_⟩, ?_⟩
      · show _ < t.dim 0
        rw [hw, Nat.mul_comm (s.dim 1)]
        exact radix_lt hlane hy
      · exact Nat.div_lt_of_lt_mul (by rwa [Nat.mul_comm])
      · show item.z < t.batches
        rwa [hb]
      · simp only [radix_mod hlane, radix_div hlane, radix_div hj, Nat.mod_add_div]
    · rintro ⟨⟨hx', hy', -⟩, rfl⟩
      have hlane : c.x % (s.dataType.vectorWidth * h) < s.dataType.vectorWidth * h :=
        Nat.mod_lt _ hblock
      have hq : c.x % (s.dataType.vectorWidth * h) / s.dataType.vectorWidth < h :=
        Nat.div_lt_of_lt_mul hlane
      refine ⟨c.x % (s.dataType.vectorWidth * h) % s.dataType.vectorWidth,
        Nat.mod_lt _ hwidth, ?_⟩
      simp only [radix_mod hq, radix_div hq, Nat.mod_add_div]
  · rintro c ⟨hx, hy, hz⟩
    have hlane : c.x % (s.dataType.vectorWidth * h) < s.dataType.vectorWidth * h :=
      Nat.mod_lt _ hblock
    rw [hw] at hx
    rw [Grid.mem_items]
    refine ⟨?_, Nat.div_lt_of_lt_mul (by rwa [Nat.mul_comm, hpack]), ?_⟩
    · show _ < t.dim 1 * h
      rw [Nat.mul_comm]
      exact radix_lt (Nat.div_lt_of_lt_mul hlane) hy
    · show c.z < s.batches
      rwa [← hb]

theorem shares_transposed {s t : Layout} (hr : (⟨.transposed, s, t⟩ : Reshape).Accepted) :
    Shares (⟨.transposed, s, t⟩ : Reshape).grid t.HasCell (cells ⟨.transposed, s, t⟩)
      (owner ⟨.transposed, s, t⟩) := by
  obtain ⟨hw, hh, hb⟩ := hr.extents_transposed
  constructor
  · intro item _
    simp [cells]
  · intro item hitem c
    obtain ⟨hx, hy, hz⟩ := Grid.mem_items.1 hitem
    simp only [grid] at hx hy hz
    simp only [cells, owner, List.mem_singleton]
    constructor
    · rintro rfl
      exact ⟨⟨by rwa [hw], by rwa [hh], by rwa [hb]⟩, rfl⟩
    · rintro ⟨-, rfl⟩
      rfl
  · rintro c ⟨hx, hy, hz⟩
    rw [Grid.mem_items]
    exact ⟨by rwa [hh] at hy, by rwa [hw] at hx, by rwa [hb] at hz⟩

theorem shares (hr : r.Accepted) : Shares r.grid r.target.HasCell r.cells r.owner := by
  obtain ⟨g, s, t⟩ := r
  cases g with
  | interleaved v => exact shares_interleaved hr
  | blockTransposed h => exact shares_blockTransposed hr
  | transposed => exact shares_transposed hr

/-- Operands that the machine can address. -/
def InRange (r : Reshape) : Prop := r.source.Addressable ∧ r.target.Addressable

instance (r : Reshape) : Decidable r.InRange := inferInstanceAs (Decidable (_ ∧ _))

theorem inWords_grid (hr : r.Accepted) (hin : r.InRange) : InWords r.grid.numbers := by
  obtain ⟨g, s, t⟩ := r
  obtain ⟨hs, ht⟩ := hin
  cases g with
  | interleaved v =>
    obtain ⟨-, hw, -, hb⟩ := hr.extents_interleaved
    refine Grid.inWords_numbers ht ?_ hb.ge
    have hsteps : ceilDiv (s.dim 0) interleaveHeight ≤ s.dim 0 * interleaveHeight :=
      (ceilDiv_le (by decide)).trans (Nat.le_mul_of_pos_right _ (by decide))
    calc ceilDiv (s.dim 0) interleaveHeight * (t.dim 1 * v)
        ≤ s.dim 0 * interleaveHeight * (t.dim 1 * v) := Nat.mul_le_mul_right _ hsteps
      _ = t.dim 0 * t.dim 1 := by rw [hw]; ring
  | blockTransposed h =>
    obtain ⟨-, hw, -, hb⟩ := hr.extents_blockTransposed
    refine Grid.inWords_numbers ht ?_ hb.ge
    have hcolumns : h ≤ s.dataType.vectorWidth * h :=
      Nat.le_mul_of_pos_left _ s.dataType.kind.vectorWidth_pos
    calc t.dim 1 * h * s.dim 1
        ≤ t.dim 1 * (s.dataType.vectorWidth * h) * s.dim 1 := by gcongr
      _ = t.dim 0 * t.dim 1 := by rw [hw]; ring
  | transposed => exact Grid.inWords_numbers hs le_rfl le_rfl

/-- A row of the destination holds four rows of each of its blocks, at every step. -/
theorem inWords_itemNumbers_interleaved {v : Nat} {s t : Layout}
    (hr : (⟨.interleaved v, s, t⟩ : Reshape).Accepted) (ht : t.Addressable) {item : WorkItem}
    (hitem : item ∈ (⟨.interleaved v, s, t⟩ : Reshape).grid.items) :
    InWords ((⟨.interleaved v, s, t⟩ : Reshape).itemNumbers item) := by
  obtain ⟨hv, hw, -, hb⟩ := hr.extents_interleaved
  obtain ⟨hx, hy, hz⟩ := Grid.mem_items.1 hitem
  have hk : item.x * interleaveHeight < s.dim 0 := (lt_ceilDiv_iff (by decide)).1 hx
  have hblock : item.y < t.dim 1 * v := hy
  have hbatch : 1 ≤ t.batches := hb ▸ Nat.one_le_of_lt hz
  have hrows : t.dim 1 * v * interleaveHeight ≤ t.dim 0 * t.dim 1 * t.batches := by
    have hstep : 1 ≤ s.dim 0 := Nat.one_le_of_lt hk
    calc t.dim 1 * v * interleaveHeight = 1 * (interleaveHeight * v) * t.dim 1 * 1 := by ring
      _ ≤ s.dim 0 * (interleaveHeight * v) * t.dim 1 * t.batches := by gcongr
      _ = t.dim 0 * t.dim 1 * t.batches := by rw [hw]
  have hwidth : s.dim 0 ≤ t.dim 0 := hw ▸ Nat.le_mul_of_pos_right _ (Nat.mul_pos (by decide) hv)
  have hlt := ht.width_lt (y := item.y / v) (z := 0)
    (Nat.div_lt_of_lt_mul (by rwa [Nat.mul_comm])) hbatch
  have hcells := ht.cells_lt
  simp only [itemNumbers, inWords_cons, inWords_nil, and_true]
  simp only [interleaveHeight] at hrows hk ⊢
  omega

theorem inWords_itemNumbers_blockTransposed {h : Nat} {s t : Layout}
    (hr : (⟨.blockTransposed h, s, t⟩ : Reshape).Accepted) (ht : t.Addressable) {item : WorkItem}
    (hitem : item ∈ (⟨.blockTransposed h, s, t⟩ : Reshape).grid.items) :
    InWords ((⟨.blockTransposed h, s, t⟩ : Reshape).itemNumbers item) := by
  obtain ⟨hh, hw, -, hb⟩ := hr.extents_blockTransposed
  obtain ⟨hx, hy, hz⟩ := Grid.mem_items.1 hitem
  have hblock : item.x + 1 ≤ t.dim 1 * h := hx
  have hbatch : 1 ≤ t.batches := hb ▸ Nat.one_le_of_lt hz
  have hstep : 1 ≤ s.dim 1 := Nat.one_le_of_lt hy
  have hlast : (item.x + 1) * s.dataType.vectorWidth ≤ t.dim 0 * t.dim 1 * t.batches :=
    calc (item.x + 1) * s.dataType.vectorWidth ≤ t.dim 1 * h * s.dataType.vectorWidth := by gcongr
      _ = 1 * (s.dataType.vectorWidth * h) * t.dim 1 * 1 := by ring
      _ ≤ s.dim 1 * (s.dataType.vectorWidth * h) * t.dim 1 * t.batches := by gcongr
      _ = t.dim 0 * t.dim 1 * t.batches := by rw [hw]
  rw [Nat.succ_mul] at hlast
  have hcells := ht.cells_lt
  simp only [itemNumbers, packing, Arrangement.packing, Packing.ofType, inWords_cons, inWords_nil,
    and_true]
  omega

theorem inWords_itemNumbers (hr : r.Accepted) (hin : r.InRange) {item : WorkItem}
    (hitem : item ∈ r.grid.items) : InWords (r.itemNumbers item) := by
  obtain ⟨g, s, t⟩ := r
  cases g with
  | interleaved v => exact inWords_itemNumbers_interleaved hr hin.2 hitem
  | blockTransposed h => exact inWords_itemNumbers_blockTransposed hr hin.2 hitem
  | transposed => exact inWords_nil

section Watched

variable {M : Type → Type} [Monitor M] [LawfulMonad M] {source target : BufferId}

theorem moveIn_eq (hM : Monitor.Grants M r.InRange) (hr : r.Accepted) {c : Cell}
    (hc : r.target.HasCell c) (m : Memory) :
    r.moveIn source target (r.moveTo c) m =
      (View.putIn ⟨target, r.target⟩ m (r.target.cell c) (r.value source c m) : M Memory) := by
  have hput (word : Nat) : View.storeIn ⟨target, r.target⟩ m (r.target.cell c) word =
      (View.putIn ⟨target, r.target⟩ m (r.target.cell c) word : M Memory) :=
    View.storeIn_eq hM (fun _ => Layout.cell_add_le hc) m word
  unfold moveIn moveTo value
  cases ho : r.origin c with
  | none =>
    simp only [Option.map_none, pure_bind]
    exact hput 0
  | some o =>
    have hload := View.loadIn_eq (v := ⟨source, r.source⟩) hM
      (fun _ => Layout.cell_add_le (hasCell_origin hr hc ho)) m
    simp only [Option.map_some, hload, pure_bind]
    exact hput _

theorem runItemIn_eq (hM : Monitor.Grants M r.InRange) (hr : r.Accepted) {item : WorkItem}
    (hitem : item ∈ r.grid.items) (m : Memory) :
    r.runItemIn source target item m =
      (View.fillIn ⟨target, r.target⟩ r.target.cell (r.value source) (r.cells item) m :
        M Memory) := by
  have hmoves : r.movesIn item = (pure ((r.cells item).map r.moveTo) : M (List Move)) := by
    rw [movesIn, hM.bind fun _ => blocks_ne hr.valid,
      hM.bind fun hin => inWords_itemNumbers hr hin hitem, moves_eq hr]
  rw [runItemIn, hmoves, pure_bind, List.foldlM_map]
  exact foldlM_congr (fun c hc m => moveIn_eq hM hr (((shares hr).mem_iff item hitem c).1 hc).1 m) m

theorem runIn_eq (hM : Monitor.Grants M r.InRange) (hr : r.Accepted) (m : Memory) :
    r.runIn source target m =
      (r.grid.items.foldlM (fun m item => r.runItemIn source target item m) m : M Memory) :=
  Grid.launchIn_eq hM (inWords_grid hr) _ m

end Watched

theorem run_eq_launch (source target : BufferId) (m : Memory) :
    r.run source target m = r.grid.launch (r.runItem source target) m :=
  Grid.launchIn_id ..

theorem runItem_eq_fill (hr : r.Accepted) {item : WorkItem} (hitem : item ∈ r.grid.items)
    (source target : BufferId) (m : Memory) :
    r.runItem source target item m =
      View.fill ⟨target, r.target⟩ r.target.cell (r.value source) (r.cells item) m :=
  (runItemIn_eq (M := Id) (Monitor.grants_id _) hr hitem m).trans (View.fillIn_id ..)

variable {source target : BufferId} {m : Memory}

theorem value_congr {m' : Memory} (h : ∀ j, m.byte source j = m'.byte source j) (c : Cell) :
    r.value source c m = r.value source c m' := by
  unfold value
  cases r.origin c with
  | none => rfl
  | some o => exact View.load_congr h _

theorem value_lt (r : Reshape) (source : BufferId) (c : Cell) (m : Memory) :
    r.value source c m < 256 ^ r.source.elementSize := by
  unfold value
  cases r.origin c with
  | none => exact Nat.pow_pos (by decide)
  | some o => exact Memory.load_lt ..

theorem covers (hr : r.Accepted) (hne : source ≠ target) :
    Covers ⟨target, r.target⟩ r.grid (r.runItem source target) r.target.cell (r.value source)
      r.target.HasCell r.cells r.owner where
  shares := shares hr
  separate := View.separate_cells fun c _ _ _ =>
    value_congr (fun _ => View.byte_store_other fun e => absurd e hne) c
  body_eq _ hitem m := runItem_eq_fill hr hitem source target m

theorem load_run (hr : r.Accepted) (hne : source ≠ target) (hm : View.Fits ⟨target, r.target⟩ m)
    {c : Cell} (hc : r.target.HasCell c) :
    View.load ⟨target, r.target⟩ (r.run source target m) (r.target.cell c) =
      r.value source c m := by
  have hfit := View.cell_fits (v := ⟨target, r.target⟩) hm hc
  rw [run_eq_launch, (covers hr hne).load_launch hc hfit, Nat.mod_eq_of_lt]
  show _ < 256 ^ r.target.dataType.elementSize
  rw [← hr.dataType]
  exact value_lt ..

section Places

variable {v h k row column z : Nat} {s t : Layout}

/-- The cell that interleaving moves an element to. -/
def interleavedCell (v k row z : Nat) : Cell :=
  ⟨row % (interleaveHeight * v) + interleaveHeight * v * k, row / (interleaveHeight * v), z⟩

/-- The cell that block transposition moves an element to. -/
def blockTransposedCell (block k column z : Nat) : Cell :=
  ⟨column % block + block * k, column / block, z⟩

theorem hasCell_interleaved (hr : (⟨.interleaved v, s, t⟩ : Reshape).Accepted)
    (hc : s.HasCell ⟨k, row, z⟩) : t.HasCell (interleavedCell v k row z) := by
  obtain ⟨hv, hw, hh, hb⟩ := hr.extents_interleaved
  obtain ⟨hk, hrow, hz⟩ := hc
  have h4 : 0 < interleaveHeight := by decide
  have hlane : row % (interleaveHeight * v) < interleaveHeight * v :=
    Nat.mod_lt _ (Nat.mul_pos h4 hv)
  refine ⟨?_, ?_, hb ▸ hz⟩
  · rw [hw, Nat.mul_comm (s.dim 0)]
    exact radix_lt hlane hk
  · rw [hh]
    exact group_lt h4 hv hrow

theorem value_interleaved (hr : (⟨.interleaved v, s, t⟩ : Reshape).Accepted)
    (hc : s.HasCell ⟨k, row, z⟩) :
    (⟨.interleaved v, s, t⟩ : Reshape).value source (interleavedCell v k row z) m =
      View.load ⟨source, s⟩ m (s.cell ⟨k, row, z⟩) := by
  obtain ⟨hv, -⟩ := hr.extents_interleaved
  have hlane : row % (interleaveHeight * v) < interleaveHeight * v :=
    Nat.mod_lt _ (Nat.mul_pos (by decide) hv)
  have horigin : (⟨.interleaved v, s, t⟩ : Reshape).origin (interleavedCell v k row z) =
      some ⟨k, row, z⟩ := by
    simp only [origin, interleavedCell, radix_mod hlane, radix_div hlane, Nat.mod_add_div]
    exact if_pos hc.2.1
  rw [value, horigin]

theorem hasCell_blockTransposed (hr : (⟨.blockTransposed h, s, t⟩ : Reshape).Accepted)
    (hc : s.HasCell ⟨column, k, z⟩) :
    t.HasCell (blockTransposedCell (s.dataType.vectorWidth * h) k column z) := by
  obtain ⟨hh, hw, hrows, hb⟩ := hr.extents_blockTransposed
  obtain ⟨hcolumn, hk, hz⟩ := hc
  have hwidth : 0 < s.dataType.vectorWidth := s.dataType.kind.vectorWidth_pos
  have hlane : column % (s.dataType.vectorWidth * h) < s.dataType.vectorWidth * h :=
    Nat.mod_lt _ (Nat.mul_pos hwidth hh)
  refine ⟨?_, ?_, hb ▸ hz⟩
  · rw [hw, Nat.mul_comm (s.dim 1)]
    exact radix_lt hlane hk
  · rw [hrows]
    exact group_lt hwidth hh hcolumn

theorem value_blockTransposed (hr : (⟨.blockTransposed h, s, t⟩ : Reshape).Accepted)
    (hc : s.HasCell ⟨column, k, z⟩) :
    (⟨.blockTransposed h, s, t⟩ : Reshape).value source
        (blockTransposedCell (s.dataType.vectorWidth * h) k column z) m =
      View.load ⟨source, s⟩ m (s.cell ⟨column, k, z⟩) := by
  obtain ⟨hh, -⟩ := hr.extents_blockTransposed
  have hwidth : 0 < s.dataType.vectorWidth := s.dataType.kind.vectorWidth_pos
  have hlane : column % (s.dataType.vectorWidth * h) < s.dataType.vectorWidth * h :=
    Nat.mod_lt _ (Nat.mul_pos hwidth hh)
  have horigin : (⟨.blockTransposed h, s, t⟩ : Reshape).origin
      (blockTransposedCell (s.dataType.vectorWidth * h) k column z) = some ⟨column, k, z⟩ := by
    simp only [origin, blockTransposedCell, packing, Arrangement.packing, Packing.ofType,
      radix_mod hlane, radix_div hlane, Nat.mod_add_div]
    exact if_pos hc.1
  rw [value, horigin]

end Places

theorem size_run (hr : r.Accepted) (hne : source ≠ target) (c : BufferId) :
    (r.run source target m).size c = m.size c := by
  rw [run_eq_launch, (covers hr hne).size_launch]

theorem byte_run_other (hr : r.Accepted) (hne : source ≠ target) {c : BufferId} (hc : c ≠ target)
    (j : Nat) : (r.run source target m).byte c j = m.byte c j := by
  rw [run_eq_launch, (covers hr hne).byte_launch_buffer hc]

end Reshape

end TileCompute
