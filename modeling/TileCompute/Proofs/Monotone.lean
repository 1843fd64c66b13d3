import Mathlib.Data.List.Forall2
import Mathlib.Data.List.GetD
import TileCompute.Proofs.FixedElement
import TileCompute.Proofs.Gemm

/-!
# TileCompute.Proofs.Monotone

Fixed-point products keep the order of the left operand: no stage turns saturation into
wraparound. Each stage is monotone on raw integers where the right operand and `alpha` are not
negative; a dot product is monotone by induction on its depth.

* `dot_mono`: accumulators stay in order.
* `Gemm.entry_mono`: so do the elements of the product.
* `execute_mono`: so do the elements a run leaves.
-/

namespace TileCompute

/-- Accumulators of one width in the order of the numbers they hold. -/
structure Fixed.Below (s t : Fixed) : Prop where
  width : s.width = t.width
  raw : s.raw ≤ t.raw

namespace Fixed.Below

variable {s t : Fixed}

theorem saturatingMulAdd (h : s.Below t) (w : FixedWidth) (frac : Nat) {x x' y : Int}
    (hx : x ≤ x') (hy : 0 ≤ y) :
    (s.saturatingMulAdd ⟨x, w, frac⟩ ⟨y, w, frac⟩).Below
      (t.saturatingMulAdd ⟨x', w, frac⟩ ⟨y, w, frac⟩) where
  width := h.width
  raw := by
    have product := roundedShift_mono (Int.mul_le_mul_of_nonneg_right hx hy) frac
    show s.width.saturate _ ≤ t.width.saturate _
    rw [h.width]
    exact FixedWidth.saturate_mono (Int.add_le_add h.raw product)

end Fixed.Below

section Stages

open FixedElement

variable {α : Type} [FixedElement α] {frac : Nat}

/-- One step of a dot product: a product that is larger on the right is added to an accumulator
that is. -/
theorem mulAdd_mono {s t : Element.Acc α} (h : (held s).Below (held t)) {x x' y : α}
    (hx : raw x ≤ raw x') (hy : 0 ≤ raw y) :
    (held (Element.mulAdd frac s x y)).Below (held (Element.mulAdd frac t x' y)) := by
  rw [held_mulAdd, held_mulAdd]
  exact h.saturatingMulAdd (width α) frac hx hy

theorem dot_mono {x x' y : Nat → α} {depth : Nat} (hx : ∀ k < depth, raw (x k) ≤ raw (x' k))
    (hy : ∀ k < depth, 0 ≤ raw (y k)) (s : Element.Acc α) :
    (held (dot (Element.mulAdd frac) x y depth s)).Below
      (held (dot (Element.mulAdd frac) x' y depth s)) := by
  unfold dot
  induction depth with
  | zero => exact ⟨rfl, Int.le_refl _⟩
  | succ depth ih =>
    have before := ih (fun k hk => hx k (Nat.lt_succ_of_lt hk))
      fun k hk => hy k (Nat.lt_succ_of_lt hk)
    rw [List.range_succ, List.foldl_append, List.foldl_append]
    exact mulAdd_mono before (hx depth depth.lt_succ_self) (hy depth depth.lt_succ_self)

theorem narrow_mono {s t : Element.Acc α} (h : (held s).Below (held t)) :
    raw (Element.narrow frac s) ≤ raw (Element.narrow frac t) := by
  rw [raw_narrow, raw_narrow]
  exact FixedWidth.saturate_mono h.raw

theorem scale_mono {x x' factor : α} (h : raw x ≤ raw x') (factor_nonneg : 0 ≤ raw factor) :
    raw (Element.scale frac x factor) ≤ raw (Element.scale frac x' factor) := by
  rw [raw_scale, raw_scale]
  exact FixedWidth.saturate_mono
    (roundedShift_mono (Int.mul_le_mul_of_nonneg_right h factor_nonneg) frac)

theorem finish_mono {s t : Element.Acc α} (h : (held s).Below (held t)) {factor : Option α}
    (factor_nonneg : ∀ f ∈ factor, 0 ≤ raw f) :
    raw (finish frac factor s) ≤ raw (finish frac factor t) := by
  cases factor with
  | none => exact narrow_mono h
  | some f => exact scale_mono (narrow_mono h) (factor_nonneg f rfl)

/-- The factor may have either sign: it multiplies what is added. -/
theorem scaledAdd_mono {x x' : α} (h : raw x ≤ raw x') (old factor : α) :
    raw (Element.scaledAdd frac x old factor) ≤ raw (Element.scaledAdd frac x' old factor) := by
  rw [raw_scaledAdd, raw_scaledAdd]
  exact FixedWidth.saturate_mono (Int.add_le_add_right h _)

theorem raw_ofBinary32_nonneg {x : Binary32} (h : x.datum.Nonneg) :
    0 ≤ raw (Element.ofBinary32 (α := α) frac x) := by
  rw [raw_ofBinary32]
  exact FixedWidth.saturate_nonneg (Binary32.toClampedInt_nonneg h frac (FixedWidth.max_nonneg _))

/-- Elements of lists in order are in order, past the end as well. -/
theorem raw_getD_le {a a' : List α} (h : List.Forall₂ (fun x y => raw x ≤ raw y) a a') (i : Nat) :
    raw (a.getD i (zeroElement α)) ≤ raw (a'.getD i (zeroElement α)) := by
  by_cases hi : i < a.length
  · have hi' : i < a'.length := h.length_eq ▸ hi
    rw [List.getD_eq_getElem _ _ hi, List.getD_eq_getElem _ _ hi']
    exact h.get hi hi'
  · rw [List.getD_eq_default _ _ (Nat.le_of_not_lt hi),
      List.getD_eq_default _ _ (h.length_eq ▸ Nat.le_of_not_lt hi)]

theorem raw_getD_nonneg {b : List α} (h : ∀ x ∈ b, 0 ≤ raw x) (i : Nat) :
    0 ≤ raw (b.getD i (zeroElement α)) := by
  by_cases hi : i < b.length
  · rw [List.getD_eq_getElem _ _ hi]
    exact h _ (List.getElem_mem hi)
  · rw [List.getD_eq_default _ _ (Nat.le_of_not_lt hi)]
    exact raw_zero.ge

end Stages

namespace Gemm

open FixedElement

variable {α : Type} [FixedElement α] {g : Gemm} {a a' b : List α}

theorem scaledDot_mono (halpha : g.alpha.datum.Nonneg) (hb : ∀ x ∈ b, 0 ≤ raw x)
    (ha : List.Forall₂ (fun x y => raw x ≤ raw y) a a') (target : Target) (z i j : Nat) :
    raw (g.scaledDot target a b z i j) ≤ raw (g.scaledDot target a' b z i j) := by
  rw [scaledDot, scaledDot, mac_eq_mulAdd dispatched (.inr fixedPoint)]
  refine finish_mono (dot_mono (fun p _ => raw_getD_le ha _) (fun p _ => raw_getD_nonneg hb _) _) ?_
  intro factor hfactor
  split at hfactor
  · cases hfactor
  · obtain rfl := Option.some.inj hfactor
    exact raw_ofBinary32_nonneg halpha

theorem entry_mono (halpha : g.alpha.datum.Nonneg) (hb : ∀ x ∈ b, 0 ≤ raw x)
    (ha : List.Forall₂ (fun x y => raw x ≤ raw y) a a') (target : Target) (c : List α)
    (z i j : Nat) : raw (g.entry target a b c z i j) ≤ raw (g.entry target a' b c z i j) := by
  have products := scaledDot_mono halpha hb ha target z i j
  rw [entry, entry]
  cases g.beta.eqv .zero with
  | true => exact products
  | false => exact scaledAdd_mono products _ _

end Gemm

open FixedElement in
/-- With a right operand and an `alpha` that are not negative, a left operand that is nowhere
smaller leaves a `C` that is nowhere smaller, at every position of the binary point, with every
`beta` and at every configuration that kernels accept. -/
theorem execute_mono {α : Type} [FixedElement α] {g : Gemm} {a a' b c : List α}
    (hp : g.Poses a b c) (hv : (g.resolvedConfig α).path.Valid) (halpha : g.alpha.datum.Nonneg)
    (hb : ∀ x ∈ b, 0 ≤ raw x) (ha : List.Forall₂ (fun x y => raw x ≤ raw y) a a') :
    ∃ d d', g.execute a b c = (.ok (), d) ∧ g.execute a' b c = (.ok (), d') ∧
      d.length = c.length ∧ List.Forall₂ (fun x y => raw x ≤ raw y) d d' := by
  have hp' : g.Poses a' b c := { hp with left := ha.length_eq.symm.trans hp.left }
  refine ⟨_, _, Gemm.execute_eq dispatched hp hv, Gemm.execute_eq dispatched hp' hv,
    Gemm.length_entries.trans hp.result.symm, ?_⟩
  rw [Gemm.entries, Gemm.entries, List.forall₂_map_left_iff, List.forall₂_map_right_iff]
  exact List.forall₂_same.2 fun l _ =>
    Gemm.entry_mono halpha hb ha _ c (l / g.n / g.m) (l / g.n % g.m) (l % g.n)

/-- Sums that leave the range of the accumulator on either side, with a negative `beta`. -/
theorem execute_mono_saturated :
    let g : Gemm := ⟨1, 1, 4, 1, 1, .one, .ofInt (-1), 0, none,
      some ⟨.bifrost, .reshaped 2 1⟩, .unset⟩
    let a : List Q8 := [⟨-128⟩, ⟨-128⟩, ⟨-128⟩, ⟨127⟩]
    let a' : List Q8 := [⟨127⟩, ⟨127⟩, ⟨127⟩, ⟨127⟩]
    let b : List Q8 := [⟨127⟩, ⟨127⟩, ⟨127⟩, ⟨1⟩]
    let c : List Q8 := [⟨-128⟩]
    List.Forall₂ (fun x y => FixedElement.raw x ≤ FixedElement.raw y) (g.execute a b c).2
      (g.execute a' b c).2 ∧ (g.execute a b c).2 = [⟨0⟩] ∧ (g.execute a' b c).2 = [⟨127⟩] := by
  intro g a a' b c
  have hp : g.Poses a b c := by constructor <;> decide
  have hp' : g.Poses a' b c := by constructor <;> decide
  obtain ⟨d, d', hd, hd', -, hle⟩ := execute_mono hp (by decide) (by decide) (by decide)
    (show List.Forall₂ _ a a' by simp [a, a', FixedElement.raw])
  refine ⟨?_, ?_, ?_⟩
  · rw [hd, hd']
    exact hle
  · rw [Gemm.execute_eq .q8 hp (by decide)]
    decide
  · rw [Gemm.execute_eq .q8 hp' (by decide)]
    decide

end TileCompute
