import Mathlib.Order.Bounds.Basic
import TileCompute.Kernel.Error
import TileCompute.Proofs.Checks
import TileCompute.Proofs.Coordinates

/-!
# TileCompute.Proofs.Canonical

The rank of a shape is a function of its extents.

`Shape.set` adjusts the rank one extent at a time. A shape is *canonical* when its rank is one more
than the last dimension with an extent other than one. The shape without dimensions is, and setting
an extent keeps a shape so (`Shape.canonical_set`), hence whatever is built by setting extents is
canonical, and shapes with the same extents are the same shape (`Shape.Canonical.eq_iff`).

* `Shape.Canonical.lt_rank_iff`: which dimensions lie below the rank.
* `Shape.built_canonical`: extents, number of dimensions and equality of shapes by their history.
-/

namespace TileCompute
namespace Shape

variable {s t : Shape}

/-- The rank ends behind the last dimension whose extent is not one. -/
structure Canonical (s : Shape) : Prop where
  trimmed : s.Trimmed
  last : ∀ d, s.rank = d + 1 → s.dim d ≠ 1

theorem trimRank_le (extents : Vector Nat 6) (n : Nat) : trimRank extents n ≤ n := by
  induction n with
  | zero => exact Nat.le_refl 0
  | succ n ih =>
    rw [trimRank]
    split
    · exact Nat.le_succ_of_le ih
    · exact Nat.le_refl _

/-- Dropping extents of one stops at another extent. -/
theorem getElem?_trimRank {extents : Vector Nat 6} {n d : Nat} (h : trimRank extents n = d + 1) :
    extents[d]? ≠ some 1 := by
  induction n with
  | zero => cases h
  | succ n ih =>
    rw [trimRank] at h
    split at h
    · exact ih h
    · next hne =>
      obtain rfl : n = d := Nat.succ.inj h
      exact hne

theorem canonical_unit : unit.Canonical := ⟨trimmed_unit, fun _ h => nomatch h⟩

theorem canonical_set (h : s.Canonical) (d : Fin 6) (e : Nat) : (s.set d e).Canonical := by
  refine ⟨trimmed_set h.trimmed d e, fun d' hd' => ?_⟩
  obtain ⟨he, -, hrank⟩ | ⟨-, hlast, hrank⟩ | ⟨hkeep, hrank⟩ := s.rank_set d e
  · -- the dimension that was set is the last one
    obtain rfl : (d : Nat) = d' := by omega
    rwa [dim_set, if_pos rfl]
  · have hle := trimRank_le (s.set d e).extents s.rank
    have hd6 : d' < 6 := by omega
    have hne := getElem?_trimRank (hrank.symm.trans hd')
    rw [dim, dif_pos hd6]
    simpa [hd6] using hne
  · rw [dim_set]
    split
    · omega
    · exact h.last d' (hrank ▸ hd')

theorem canonical_ofList (es : List Nat) : (ofList es).Canonical :=
  setFrom_preserves (P := Canonical) (fun _ d e h => canonical_set h d e) canonical_unit 0 es

namespace Canonical

/-- The dimensions below the rank are those with an extent other than one at or behind them. -/
theorem lt_rank_iff (h : s.Canonical) {d : Nat} :
    d < s.rank ↔ ∃ d', d ≤ d' ∧ s.dim d' ≠ 1 := by
  constructor
  · intro hd
    exact ⟨s.rank - 1, by omega, h.last _ (by omega)⟩
  · rintro ⟨d', hle, hne⟩
    by_contra hd
    exact hne (h.trimmed d' (by omega))

/-- Shapes with the same extents are the same, however they came about. -/
theorem eq_iff (h : s.Canonical) (ht : t.Canonical) : s = t ↔ ∀ d, s.dim d = t.dim d := by
  refine ⟨fun he d => by rw [he], fun hdim => ?_⟩
  have hrank : s.rank = t.rank := eq_of_forall_lt_iff fun d => by
    simp only [h.lt_rank_iff, ht.lt_rank_iff, hdim]
  have hextents : s.extents = t.extents := by
    apply Vector.ext
    intro d hd
    simpa [dim, hd] using hdim d
  obtain ⟨extents, rank⟩ := s
  obtain rfl : extents = t.extents := hextents
  obtain rfl : rank = t.rank := hrank
  rfl

/-- One dimension behind the last extent other than one, and at least one. -/
theorem dimensions_eq (h : s.Canonical) : (∀ d, s.dim d = 1) ∧ s.dimensions = 1 ∨
    ∃ d, IsGreatest {d | s.dim d ≠ 1} d ∧ s.dimensions = d + 1 := by
  unfold dimensions
  cases hrank : s.rank with
  | zero => exact .inl ⟨fun d => h.trimmed d (by omega), rfl⟩
  | succ r =>
    refine .inr ⟨r, ⟨h.last r hrank, fun d hd => ?_⟩, by omega⟩
    have hlt : d < s.rank := h.lt_rank_iff.2 ⟨d, Nat.le_refl d, hd⟩
    omega

end Canonical

/-! ### Histories -/

/-- Sets extents one after the other. -/
def setAll? (s : Shape) (changes : List (Nat × Nat)) : Except Fault Shape :=
  changes.foldlM (fun s (d, extent) => s.set? d extent) s

/-- A shape from its first extents and the changes made to it. -/
def build? (dims : List Nat) (changes : List (Nat × Nat)) : Except Fault Shape := do
  (← ofList? dims).setAll? changes

theorem set?_eq_ok {d e : Nat} : s.set? d e = .ok t ↔ ∃ h : d < 6, s.set ⟨d, h⟩ e = t := by
  unfold set?
  split <;> simp [*]

theorem setAll?_cons {d e : Nat} {changes : List (Nat × Nat)} :
    s.setAll? ((d, e) :: changes) = s.set? d e >>= fun s => s.setAll? changes :=
  List.foldlM_cons ..

/-- Changes to dimensions that there are all succeed. -/
theorem exists_setAll? {changes : List (Nat × Nat)} (h : ∀ c ∈ changes, c.1 < maxRank) :
    ∃ t, s.setAll? changes = .ok t := by
  induction changes generalizing s with
  | nil => exact ⟨s, rfl⟩
  | cons c changes ih =>
    obtain ⟨hc, h⟩ := List.forall_mem_cons.1 h
    obtain ⟨t, ht⟩ := ih (s := s.set ⟨c.1, hc⟩ c.2) h
    refine ⟨t, ?_⟩
    rw [setAll?_cons, bind_eq_ok]
    exact ⟨_, set?_eq_ok.2 ⟨hc, rfl⟩, ht⟩

/-- Changes keep a shape canonical, and each dimension has the last extent that was set for it. -/
theorem setAll?_spec {changes : List (Nat × Nat)} (h : s.Canonical)
    (ht : s.setAll? changes = .ok t) :
    t.Canonical ∧ ∀ d, t.dim d = (changes.reverse.lookup d).getD (s.dim d) := by
  induction changes generalizing s with
  | nil =>
    obtain rfl : s = t := Except.ok.inj ht
    exact ⟨h, fun d => rfl⟩
  | cons c changes ih =>
    obtain ⟨d', e⟩ := c
    rw [setAll?_cons, bind_eq_ok] at ht
    obtain ⟨u, hu, ht⟩ := ht
    obtain ⟨hd', rfl⟩ := set?_eq_ok.1 hu
    obtain ⟨canonical, hdim⟩ := ih (canonical_set h ⟨d', hd'⟩ e) ht
    refine ⟨canonical, fun d => ?_⟩
    rw [hdim, dim_set, List.reverse_cons, List.lookup_append]
    cases changes.reverse.lookup d with
    | some e' => rfl
    | none =>
      by_cases hd : d = d'
      · simp [hd]
      · have hbeq : (d == d') = false := beq_eq_false_iff_ne.2 hd
        simp [List.lookup_cons, hbeq, Ne.symm hd]

theorem build?_spec {dims : List Nat} {changes : List (Nat × Nat)}
    (h : build? dims changes = .ok s) :
    s.Canonical ∧ ∀ d, s.dim d = (changes.reverse.lookup d).getD (dims.getD d 1) := by
  unfold build? at h
  rw [bind_eq_ok] at h
  obtain ⟨t, ht, hs⟩ := h
  unfold ofList? at ht
  split at ht
  · next hlen =>
    obtain rfl := Except.ok.inj ht
    obtain ⟨canonical, hdim⟩ := setAll?_spec (canonical_ofList dims) hs
    refine ⟨canonical, fun d => ?_⟩
    rw [hdim, List.getD_eq_getElem?_getD]
    congr 1
    by_cases hd : d < 6
    · exact dim_ofList dims hd
    · -- there is no such dimension
      rw [dim, dif_neg hd, List.getElem?_eq_none (by unfold maxRank at hlen; omega)]
      rfl
  · cases ht

/-- Up to six extents and changes to any of the six dimensions always give a shape. Each dimension
has the extent that was set for it last, the dimensions end behind the last extent other than one,
and another history has led to the same shape exactly if it has led to the same extents. -/
theorem built_canonical {dims : List Nat} {changes : List (Nat × Nat)}
    (hdims : dims.length ≤ maxRank) (hchanges : ∀ c ∈ changes, c.1 < maxRank) :
    ∃ s, build? dims changes = .ok s ∧
      (∀ d, s.dim d = (changes.reverse.lookup d).getD (dims.getD d 1)) ∧
      ((∀ d, s.dim d = 1) ∧ s.dimensions = 1 ∨
        ∃ d, IsGreatest {d | s.dim d ≠ 1} d ∧ s.dimensions = d + 1) ∧
      ∀ dims' changes' t, build? dims' changes' = .ok t →
        (s = t ↔ ∀ d, s.dim d = t.dim d) := by
  obtain ⟨s, hs⟩ := exists_setAll? (s := ofList dims) hchanges
  have hbuild : build? dims changes = .ok s := by
    unfold build? ofList?
    rw [if_pos hdims]
    exact hs
  obtain ⟨canonical, hdim⟩ := build?_spec hbuild
  exact ⟨s, hbuild, hdim, canonical.dimensions_eq, fun dims' changes' t ht =>
    canonical.eq_iff (build?_spec ht).1⟩

/-- Growing to six dimensions and shrinking again, past extents that were set to one before: what
is left is the shape of the first extent alone. -/
theorem built_canonical_shrunk :
    let changes := [(1, 1), (5, 0), (2, 1), (5, 1)]
    ([4, 8, 3].length ≤ maxRank ∧ ∀ c ∈ changes, c.1 < maxRank) ∧
      build? [4, 8, 3] changes = .ok (ofList [4]) ∧ (ofList [4]).dimensions = 1 := by
  intro changes
  have hbounds : [4, 8, 3].length ≤ maxRank ∧ ∀ c ∈ changes, c.1 < maxRank := by decide
  obtain ⟨s, hs, hdim, -, heq⟩ := built_canonical hbounds.1 hbounds.2
  have hsame : ∀ d, s.dim d = (ofList [4]).dim d := by
    intro d
    by_cases hd : d < 6
    · rw [hdim]
      revert d
      decide
    · simp [dim, hd]
  obtain rfl : s = ofList [4] := (heq [4] [] _ rfl).2 hsame
  exact ⟨hbounds, hs, rfl⟩

end Shape
end TileCompute
