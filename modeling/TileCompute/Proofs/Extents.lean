import TileCompute.Tensor.Layout

/-!
# TileCompute.Proofs.Extents

Extents of shapes that were set one at a time, and what that does to the rank.
-/

namespace TileCompute
namespace Shape

theorem extents_set (s : Shape) (d : Fin 6) (e : Nat) :
    (s.set d e).extents = s.extents.set d e d.isLt := by
  unfold set
  split
  · rfl
  · split <;> rfl

theorem dim_set (s : Shape) (d : Fin 6) (e d' : Nat) :
    (s.set d e).dim d' = if (d : Nat) = d' then e else s.dim d' := by
  unfold dim
  by_cases h : d' < 6
  · simp only [h, dif_pos, extents_set, Vector.getElem_set]
  · have hd : (d : Nat) ≠ d' := by omega
    simp only [h, dif_neg, not_false_eq_true, hd, if_false]

/-- What happens to the rank: it grows to the dimension that was set, shrinks when the last
dimension becomes one, or stays. -/
theorem rank_set (s : Shape) (d : Fin 6) (e : Nat) :
    (e ≠ 1 ∧ s.rank ≤ d ∧ (s.set d e).rank = d + 1) ∨
      (e = 1 ∧ s.rank = d + 1 ∧ (s.set d e).rank = trimRank (s.set d e).extents s.rank) ∨
      ((e = 1 ∧ s.rank ≠ d + 1 ∨ e ≠ 1 ∧ d < s.rank) ∧ (s.set d e).rank = s.rank) := by
  rw [extents_set]
  unfold set
  split
  · next hgrow => exact .inl ⟨hgrow.1, hgrow.2, rfl⟩
  · split
    · next hlast => exact .inr (.inl ⟨hlast.2, hlast.1.symm, rfl⟩)
    · exact .inr (.inr ⟨by omega, rfl⟩)

theorem dim_unit (d : Nat) : unit.dim d = 1 := by
  unfold dim
  split
  · simp [unit]
  · rfl

theorem dim_setFrom (s : Shape) (d : Nat) (es : List Nat) (d' : Nat) :
    (s.setFrom d es).dim d' =
      if d ≤ d' ∧ d' < 6 then (es[d' - d]?).getD (s.dim d') else s.dim d' := by
  induction es generalizing s d with
  | nil => simp [setFrom]
  | cons e es ih =>
    rw [setFrom]
    by_cases h : d < 6
    · rw [dif_pos h, ih, dim_set]
      by_cases heq : d = d'
      · subst heq
        rw [if_neg (by omega), if_pos rfl, if_pos ⟨Nat.le_refl d, h⟩, Nat.sub_self]
        rfl
      · by_cases hlt : d + 1 ≤ d' ∧ d' < 6
        · rw [if_pos hlt, if_neg heq, if_pos ⟨by omega, hlt.2⟩,
            show d' - d = d' - (d + 1) + 1 by omega, List.getElem?_cons_succ]
        · rw [if_neg hlt, if_neg heq, if_neg (by omega)]
    · rw [dif_neg h, if_neg (by omega)]

/-- What setting an extent keeps holds of a shape whose extents were set in a row. -/
theorem setFrom_preserves {P : Shape → Prop} (hset : ∀ s d e, P s → P (set s d e)) {s : Shape}
    (hs : P s) (d : Nat) (es : List Nat) : P (s.setFrom d es) := by
  induction es generalizing s d with
  | nil => exact hs
  | cons e es ih =>
    rw [setFrom]
    split
    · exact ih (hset s _ e hs) _
    · exact hs

theorem dim_ofList (es : List Nat) {d : Nat} (h : d < 6) : (ofList es).dim d = (es[d]?).getD 1 := by
  rw [ofList, dim_setFrom, if_pos ⟨by omega, h⟩, dim_unit, Nat.sub_zero]

/-- Changing the first two extents leaves the number of planes. -/
theorem batches_congr {s t : Shape} (h : ∀ d, 2 ≤ d → s.dim d = t.dim d) :
    s.batches = t.batches := by
  simp [batches, upperSize, product, h]

@[simp] theorem setPlane_x (s : Shape) (x y : Nat) : (s.setPlane x y).x = x := by
  simp [setPlane, Shape.x, dim_set]

@[simp] theorem setPlane_y (s : Shape) (x y : Nat) : (s.setPlane x y).y = y := by
  simp [setPlane, Shape.y, dim_set]

@[simp] theorem batches_setPlane (s : Shape) (x y : Nat) :
    (s.setPlane x y).batches = s.batches := by
  apply batches_congr
  intro d hd
  rw [setPlane, dim_set, dim_set, if_neg, if_neg]
  · simp only [Fin.val_zero]
    omega
  · simp only [Fin.val_one]
    omega

end Shape
end TileCompute
