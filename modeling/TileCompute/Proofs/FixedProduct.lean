import Mathlib.Algebra.BigOperators.Intervals
import TileCompute.Proofs.FixedElement
import TileCompute.Proofs.Gemm

/-!
# TileCompute.Proofs.FixedProduct

Products of fixed-point matrices in exact integers. A product of two elements is rounded at the
binary point, and the accumulator is brought back into its range after each of them: `clampedSum`.
That is the sum itself as long as no partial sum leaves the range, and not a clamp of the sum
otherwise, since what a clamp takes away stays lost when terms of the other sign follow.

* `FixedWidth.clampedSum_eq_sum`: sums that stay in range are exact.
* `held_dot`: an accumulator holds the clamped sum of the products so far.
* `Target.held_steps`: it does so after each step of either schedule.
* `execute_exact`: what a run leaves.
-/

namespace TileCompute

namespace FixedWidth

/-- A sum from the first term on, brought back into range after each. -/
def clampedSum (w : FixedWidth) (term : Nat → Int) : Nat → Int
  | 0 => 0
  | p + 1 => w.saturate (w.clampedSum term p + term p)

variable {w : FixedWidth} {term : Nat → Int}

theorem min_nonpos (w : FixedWidth) : w.min ≤ 0 := by cases w <;> decide

theorem clampedSum_mem (p : Nat) :
    w.min ≤ w.clampedSum term p ∧ w.clampedSum term p ≤ w.max := by
  cases p with
  | zero => exact ⟨w.min_nonpos, w.max_nonneg⟩
  | succ p => exact w.saturate_mem _

theorem clampedSum_eq_sum {k : Nat}
    (inside : ∀ p ≤ k, w.min ≤ ∑ q ∈ Finset.range p, term q ∧
      ∑ q ∈ Finset.range p, term q ≤ w.max) :
    w.clampedSum term k = ∑ q ∈ Finset.range k, term q := by
  induction k with
  | zero => rfl
  | succ k ih =>
    have previous := ih fun p hp => inside p (Nat.le_succ_of_le hp)
    obtain ⟨lo, hi⟩ := inside (k + 1) (Nat.le_refl _)
    -- both sums were the same before this step, and what it adds up to needs no clamp
    rw [Finset.sum_range_succ] at lo hi ⊢
    rw [clampedSum, previous, w.saturate_of_mem lo hi]

end FixedWidth

/-- The product of two raw values at the binary point, rounded to nearest, a half going up. -/
def roundedProduct (frac : Nat) (x y : Int) : Int := (2 * x * y + 2 ^ frac) / 2 ^ (frac + 1)

theorem roundedShift_mul (frac : Nat) (x y : Int) :
    roundedShift (x * y) frac = roundedProduct frac x y := by
  rw [roundedShift_eq, roundedProduct, Int.mul_assoc]

section Accumulators

open FixedElement

variable {α : Type} [FixedElement α] {frac : Nat}

/-- An accumulator holds the clamped sum of the products so far, at twice the width. -/
theorem held_dot (x y : Nat → α) (p : Nat) :
    held (dot (Element.mulAdd frac) x y p (Element.accZero frac)) =
      ⟨(width α).widen.clampedSum (fun q => roundedProduct frac (raw (x q)) (raw (y q))) p,
        (width α).widen, frac⟩ := by
  induction p with
  | zero => exact held_accZero frac
  | succ p ih =>
    rw [dot, List.range_succ, List.foldl_append]
    refine (held_mulAdd frac _ _ _).trans ?_
    rw [← dot, ih, Fixed.saturatingMulAdd, roundedShift_mul]
    rfl

namespace Target

variable {rows cols depth p : Nat}

/-- A schedule passes through the clamped sums: after `p` of its steps every accumulator in use
holds that of the first `p` products. -/
theorem held_steps (target : Target) (frac : Nat) (hr : rows ≤ maxTileRows)
    (hc : cols ≤ maxTileCols) (hp : p ≤ depth) (a b : Nat → Nat → α) :
    let tile := (Tile.zero α frac rows cols).steps (target.mac frac) a b (List.range p)
    target.accumulate frac depth a b (.zero α frac rows cols) =
        tile.steps (target.mac frac) a b (List.range' p (depth - p)) ∧
      ∀ i < rows, ∀ j < cols, (tile.entry i j).map held =
        some ⟨(width α).widen.clampedSum
          (fun q => roundedProduct frac (raw (a q i)) (raw (b q j))) p, (width α).widen, frac⟩ := by
  intro tile
  constructor
  · -- unrolled or not, a schedule is the list of its steps, which is cut after the first `p`
    have steps : List.range depth = List.range p ++ List.range' p (depth - p) := by
      have joined := List.range'_append_1 (s := 0) (m := p) (n := depth - p)
      rw [Nat.zero_add, Nat.add_sub_cancel' hp] at joined
      rw [List.range_eq_range', List.range_eq_range', joined]
    rw [accumulate_eq, steps, Tile.steps_append]
  · intro i hi j hj
    rw [Tile.entry_steps_zero hr hc hi hj, Option.map_some,
      Gemm.mac_eq_mulAdd dispatched (.inr fixedPoint), held_dot]

end Target

namespace Gemm

variable {g : Gemm} {a b c : List α} {target : Target}

/-- The product that step `p` adds to element `(i, j)` of plane `z`. -/
def term (g : Gemm) (a b : List α) (z i j p : Nat) : Int :=
  roundedProduct g.frac (raw (a.getD (z * g.m * g.k + i * g.k + p) (zeroElement α)))
    (raw (b.getD (z % g.bDepth * g.k * g.n + p * g.n + j) (zeroElement α)))

theorem frac_dataType : (g.dataType α).frac = g.frac := by
  unfold dataType
  cases fixedPoint (α := α) with
  | inl h => rw [h]; rfl
  | inr h => rw [h]; rfl

/-- Without factors, an element is the clamped sum of its products, narrowed. -/
theorem raw_entry (alpha : g.alpha.eqv .one) (beta : g.beta.eqv .zero) (z i j : Nat) :
    raw (g.entry target a b c z i j) =
      (width α).saturate ((width α).widen.clampedSum (g.term a b z i j) g.k) := by
  rw [entry, if_pos beta, scaledDot, if_pos alpha, mac_eq_mulAdd dispatched (.inr fixedPoint),
    frac_dataType]
  refine (raw_narrow g.frac _).trans ?_
  rw [held_dot]
  rfl

end Gemm

end Accumulators

open FixedElement in
/-- Every product of fixed-point matrices without factors leaves the clamped sums of the rounded
products, narrowed to the elements, and so the sums themselves where all partial sums are in range.
On the way the accumulators of a tile hold the clamped sums of the products so far, which no step
takes out of range. Accumulators have twice the width of the elements. -/
theorem execute_exact {α : Type} [FixedElement α] {g : Gemm} {a b c : List α}
    (hp : g.Poses a b c) (hv : (g.resolvedConfig α).path.Valid) (alpha : g.alpha.eqv .one)
    (beta : g.beta.eqv .zero) :
    let w := (width α).widen
    (∃ c', g.execute a b c = (.ok (), c') ∧ c'.length = c.length ∧
      ∀ z i j, z < g.batches → i < g.m → j < g.n → ∃ e,
        c'[z * g.m * g.n + i * g.n + j]? = some e ∧
        raw e = (width α).saturate (w.clampedSum (g.term a b z i j) g.k) ∧
        ((∀ p ≤ g.k, w.min ≤ ∑ q ∈ Finset.range p, g.term a b z i j q ∧
            ∑ q ∈ Finset.range p, g.term a b z i j q ≤ w.max) →
          raw e = (width α).saturate (∑ q ∈ Finset.range g.k, g.term a b z i j q))) ∧
    ∀ (target : Target) (frac rows cols depth : Nat) (x y : Nat → Nat → α),
      rows ≤ maxTileRows → cols ≤ maxTileCols → ∀ p ≤ depth,
      let tile := (Tile.zero α frac rows cols).steps (target.mac frac) x y (List.range p)
      target.accumulate frac depth x y (.zero α frac rows cols) =
          tile.steps (target.mac frac) x y (List.range' p (depth - p)) ∧
        ∀ i < rows, ∀ j < cols,
          let clamped := w.clampedSum (fun q => roundedProduct frac (raw (x q i)) (raw (y q j))) p
          (tile.entry i j).map held = some ⟨clamped, w, frac⟩ ∧
            w.min ≤ clamped ∧ clamped ≤ w.max := by
  intro w
  constructor
  · rw [Gemm.execute_eq dispatched hp hv]
    refine ⟨_, rfl, Gemm.length_entries.trans hp.result.symm, ?_⟩
    intro z i j hz hi hj
    refine ⟨_, Gemm.getElem?_entries hz hi hj, Gemm.raw_entry alpha beta z i j, ?_⟩
    intro inside
    rw [Gemm.raw_entry alpha beta, FixedWidth.clampedSum_eq_sum inside]
  · intro target frac rows cols depth x y hr hc p hp tile
    obtain ⟨rest, entries⟩ := target.held_steps frac hr hc hp x y
    exact ⟨rest, fun i hi j hj => ⟨entries i hi j hj, FixedWidth.clampedSum_mem p⟩⟩

/-- Two rows with one fractional bit. In the first, five products of 8065 meet the upper limit and
four of -8128 and one of -151 follow: 104 is left, where the sum is 7662 and would be stored as 127.
The second stays in range. -/
theorem execute_exact_small :
    let g : Gemm := ⟨2, 1, 10, 1, 1, .one, .zero, 1, none,
      some ⟨.bifrost, .direct ⟨2, 4⟩⟩, .unset⟩
    let a : List Q8 := List.replicate 5 ⟨127⟩ ++ List.replicate 4 ⟨-128⟩ ++ [⟨-101⟩] ++
      [⟨1⟩] ++ List.replicate 8 ⟨0⟩ ++ [⟨-1⟩]
    let b : List Q8 := List.replicate 9 ⟨127⟩ ++ [⟨3⟩]
    let c : List Q8 := [⟨0⟩, ⟨0⟩]
    (g.execute a b c).2[0]?.map (·.raw.toInt) = some 104 ∧
      (g.execute a b c).2[1]?.map (·.raw.toInt) = some 63 ∧
      FixedWidth.w8.saturate (∑ q ∈ Finset.range g.k, g.term a b 0 0 0 q) = 127 := by
  intro g a b c
  have hp : g.Poses a b c := by constructor <;> decide
  obtain ⟨⟨c', run, -, elements⟩, -⟩ := execute_exact hp (by decide) (by decide) (by decide)
  obtain ⟨first, at_first, clamped, -⟩ := elements 0 0 0 (by decide) (by decide) (by decide)
  obtain ⟨second, at_second, -, exact_sum⟩ := elements 0 1 0 (by decide) (by decide) (by decide)
  have limited : first.raw.toInt = 104 := clamped.trans (by decide +kernel)
  have inside : ∀ p ≤ g.k,
      FixedWidth.w16.min ≤ ∑ q ∈ Finset.range p, g.term a b 0 1 0 q ∧
        ∑ q ∈ Finset.range p, g.term a b 0 1 0 q ≤ FixedWidth.w16.max := by
    decide +kernel
  have stored : second.raw.toInt = 63 := (exact_sum inside).trans (by decide +kernel)
  refine ⟨?_, ?_, by decide +kernel⟩
  · rw [run]
    exact (congrArg _ at_first).trans (congrArg some limited)
  · rw [run]
    exact (congrArg _ at_second).trans (congrArg some stored)

end TileCompute
