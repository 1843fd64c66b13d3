import TileCompute.Proofs.Product

/-!
# TileCompute.Proofs.Accumulation

Products that add a multiple of `C`. The addition is a launch of its own after the multiply, so it
finds the product in the output. A tensor `C` that is apart from the output still holds what it held
before the run; one that is the output itself holds the product by then.

* `configureAddition_eq_ok`: when there is an addition, and which.
* `load_run_added`: what a run with an addition leaves.
-/

namespace TileCompute
namespace MatrixProduct

variable {q : MatrixProduct} {p : ProductPlan} {busy : BufferId → Prop} {a b t : View}
  {c : Option View} {alpha beta : Binary32} {α : Type} [Element α] {d : Device}
  {groups : List ScratchGroup} {k : Addition}

/-- There is an addition unless there is no `C` or its factor is zero. -/
theorem configureAddition_eq_ok {s : Option Layout} {l : Layout} {addition : Option Addition}
    (h : configureAddition .exact s l beta = .ok addition) :
    ((s = none ∨ beta.eqv .zero) ∧ addition = none) ∨
      ∃ c, s = some c ∧ beta.eqv .zero = false ∧ addition = some ⟨c, l, beta⟩ ∧
        (⟨c, l, beta⟩ : Addition).Accepted := by
  unfold configureAddition at h
  cases s with
  | none => exact .inl ⟨.inl rfl, (Except.ok.inj h).symm⟩
  | some c =>
    dsimp only at h
    cases zero : beta.eqv .zero with
    | true =>
      rw [zero, if_pos rfl] at h
      exact .inl ⟨.inr rfl, (Except.ok.inj h).symm⟩
    | false =>
      rw [zero, if_neg Bool.false_ne_true, map_eq_ok] at h
      obtain ⟨k, hk, rfl⟩ := h
      have hk := refuse_eq_ok.1 (kernelFailure_eq_ok.1 hk)
      obtain ⟨rfl, accepted⟩ := Addition.configure_eq_ok.1 hk
      exact .inr ⟨c, rfl, rfl, rfl, accepted⟩

theorem configureAddition_none {s : Option Layout} {l : Layout} {addition : Option Addition}
    (h : configureAddition .exact s l beta = .ok addition) (unused : s = none ∨ beta.eqv .zero) :
    addition = none := by
  obtain ⟨-, none⟩ | ⟨c, rfl, used, -⟩ := configureAddition_eq_ok h
  · exact none
  · simp [used] at unused

theorem configureAddition_some {c l : Layout} {addition : Option Addition}
    (h : configureAddition .exact (some c) l beta = .ok addition) (used : beta.eqv .zero = false) :
    addition = some ⟨c, l, beta⟩ ∧ (⟨c, l, beta⟩ : Addition).Accepted := by
  obtain ⟨unused, -⟩ | ⟨_, hc, -, some⟩ := configureAddition_eq_ok h
  · simp [used] at unused
  · cases hc
    exact some

/-- The addition leaves buffers other than the output alone. -/
theorem byte_addC_other (hα : Dispatched t.layout.dataType.kind α)
    (ha : configureAddition .exact (c.map View.layout) t.layout beta = .ok q.addition)
    (aligned : ∀ v ∈ c, v.buffer = t.buffer → v.layout = t.layout) {x : BufferId}
    (hx : x ≠ t.buffer) (j : Nat) : (q.addC c t d).memory.byte x j = d.memory.byte x j := by
  obtain ⟨-, none⟩ | ⟨s, hs, -, some⟩ := configureAddition_eq_ok ha
  · rw [addC_of_addition_none none]
  · obtain ⟨v, rfl, rfl⟩ := Option.map_eq_some_iff.1 hs
    simp only [addC, some.1]
    exact Addition.byte_run_other (k := ⟨v.layout, t.layout, beta⟩) hα (aligned v rfl) hx j

/-- A run of a product with an addition: the product as without, `C` as the addition finds it. -/
theorem load_run_added {v : View} (hα : Dispatched t.layout.dataType.kind α)
    (ha : configureAddition .exact (some v.layout) t.layout beta = .ok q.addition)
    (used : beta.eqv .zero = false) (aligned : v.buffer = t.buffer → v.layout = t.layout)
    (fits : t.Fits (q.run a b none t d).2.memory) {x : α} {cell : Cell}
    (hcell : t.layout.HasCell cell)
    (product : t.load (q.run a b none t d).2.memory (t.layout.cell cell) = Element.toWord x) :
    t.load (q.run a b (some v) t d).2.memory (t.layout.cell cell) =
      Element.toWord (Element.scaledAdd t.layout.dataType.frac x
        (Element.ofWord (v.load (q.run a b none t d).2.memory (v.layout.cell cell)))
        (Element.ofBinary32 t.layout.dataType.frac beta) : α) := by
  rw [memory_run]
  simp only [addC, (configureAddition_some ha used).1]
  refine (Addition.load_run_aligned (k := ⟨v.layout, t.layout, beta⟩) hα aligned fits
    hcell).trans ?_
  rw [Addition.element]
  change Element.toWord (Element.scaledAdd t.layout.dataType.frac
    (Element.ofWord (t.load _ (t.layout.cell cell))) _ _) = _
  rw [product, Element.ofWord_toWord]

end MatrixProduct
end TileCompute
