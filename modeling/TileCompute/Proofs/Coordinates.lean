import Mathlib.Data.List.Iterate
import Mathlib.Tactic.IntervalCases
import TileCompute.Proofs.Extents
import TileCompute.Proofs.Strips

/-!
# TileCompute.Proofs.Coordinates

The coordinates of a tensor: in which order they are met, and where in the buffer they lie.

Readers and writers go through a tensor like an odometer. The wheels are the dimensions that count,
the first one turns with every element, and a wheel that comes round carries into the next. After
`i` turns the wheels show the digits of `i` in the mixed radix of the extents
(`Odometer.turn_digits` for one turn, `Odometer.iterate_turn` for a run), so the coordinates come in
the order of their numbers (`Shape.visited_eq_coords`).

* `Shape.trimmed_ofList`: no dimension behind the rank of a shape counts.
* `Shape.cellOf_inj`: folding the upper dimensions loses nothing.
* `Layout.elements_laid_out`: elements lie inside the tensor and apart, and folded dimensions give
  the same addresses.
-/

namespace TileCompute

/-! ### An odometer -/

namespace Odometer

/-- One turn of wheels with the given extents. -/
def turn : (extents wheels : List Nat) → List Nat
  | e :: es, i :: is => if i + 1 < e then (i + 1) :: is else 0 :: turn es is
  | _, is => is

/-- The digits of a number in the mixed radix of the extents, the lowest first. -/
def digits : (extents : List Nat) → Nat → List Nat
  | [], _ => []
  | e :: es, i => i % e :: digits es (i / e)

theorem digits_zero (es : List Nat) : digits es 0 = List.replicate es.length 0 := by
  induction es with
  | nil => rfl
  | cons e es ih =>
    rw [digits, Nat.zero_mod, Nat.zero_div, ih]
    rfl

/-- A turn adds one. -/
theorem turn_digits {es : List Nat} (h : ∀ e ∈ es, 0 < e) (i : Nat) :
    turn es (digits es i) = digits es (i + 1) := by
  induction es generalizing i with
  | nil => rfl
  | cons e es ih =>
    obtain ⟨he, hes⟩ := List.forall_mem_cons.1 h
    have hi := Nat.mod_add_div i e
    simp only [digits, turn]
    by_cases hlt : i % e + 1 < e
    · have hsucc : i + 1 = i % e + 1 + e * (i / e) := by omega
      rw [if_pos hlt, hsucc, radix_mod hlt, radix_div hlt]
    · -- the wheel comes round and carries
      have hmod := Nat.mod_lt i he
      have hsucc : i + 1 = 0 + e * (i / e + 1) := by
        rw [Nat.mul_succ]
        omega
      rw [if_neg hlt, ih hes, hsucc, radix_mod he, radix_div he]

/-- The readings from number `i` on are the digits of consecutive numbers. -/
theorem iterate_turn {es : List Nat} (h : ∀ e ∈ es, 0 < e) (i n : Nat) :
    List.iterate (turn es) (digits es i) n = (List.range' i n).map (digits es) := by
  induction n generalizing i with
  | zero => rfl
  | succ n ih => rw [List.iterate, turn_digits h, ih, List.range'_succ, List.map_cons]

/-- A digit by its place. Behind the last wheel all digits are zero. -/
theorem getD_digits (es : List Nat) (i d : Nat) :
    (digits es i).getD d 0 = i / (es.take d).prod % es.getD d 1 := by
  induction es generalizing i d with
  | nil => simp [digits, Nat.mod_one]
  | cons e es ih =>
    cases d with
    | zero => simp [digits]
    | succ d =>
      rw [digits, List.getD_cons_succ, ih, List.getD_cons_succ, List.take_succ_cons,
        List.prod_cons, Nat.div_div_eq_div_mul]

end Odometer

/-! ### Visiting a shape -/

namespace Shape

variable {s : Shape}

/-- Extents behind the rank are one. -/
def Trimmed (s : Shape) : Prop := ∀ d, s.rank ≤ d → s.dim d = 1

theorem dim_trimRank {extents : Vector Nat 6} {n d : Nat} (hn : n ≤ 6)
    (lo : trimRank extents n ≤ d) (hi : d < n) : extents[d]? = some 1 := by
  induction n with
  | zero => omega
  | succ n ih =>
    rw [trimRank] at lo
    split at lo
    · next h =>
      by_cases hd : d = n
      · rw [hd]
        exact h
      · exact ih (by omega) lo (by omega)
    · omega

theorem trimmed_unit : unit.Trimmed := fun d _ => dim_unit d

theorem trimmed_set (h : s.Trimmed) (d : Fin 6) (e : Nat) : (s.set d e).Trimmed := by
  intro d' hd'
  rw [dim_set]
  obtain ⟨-, hle, hrank⟩ | ⟨he, hlast, hrank⟩ | ⟨hkeep, hrank⟩ := s.rank_set d e
  · -- a new last dimension
    rw [if_neg (by omega)]
    exact h d' (by omega)
  · by_cases hlt : d' < s.rank
    · -- one of the extents that were found to be one
      have hone := dim_trimRank (by omega) (hrank ▸ hd') hlt
      have hd6 : d' < 6 := by omega
      rw [← dim_set, dim, dif_pos hd6]
      simpa [hd6] using hone
    · rw [if_neg (by omega)]
      exact h d' (by omega)
  · split
    · omega
    · exact h d' (by omega)

theorem trimmed_ofList (es : List Nat) : (ofList es).Trimmed :=
  setFrom_preserves (P := Trimmed) (fun _ d e h => trimmed_set h d e) trimmed_unit 0 es

/-- The coordinates that an odometer with a wheel for each dimension that counts shows one after
the other, starting from zeros. -/
def visited (s : Shape) : List Coord :=
  (List.iterate (Odometer.turn s.toList) (List.replicate s.toList.length 0) s.size).map
    Coord.ofList

theorem dim_pos_of_size_pos (h : 0 < s.size) (d : Nat) : 0 < s.dim d := by
  have hall : ∀ d, d < 6 → 0 < s.dim d := by
    intro d hd
    simp only [size, product, Nat.pos_iff_ne_zero, Nat.mul_ne_zero_iff] at h ⊢
    obtain ⟨h0, h1, h2, h3, h4, h5, -⟩ := h
    interval_cases d <;> assumption
  by_cases hd : d < 6
  · exact hall d hd
  · simp [dim, hd]

theorem getElem?_toList {d : Nat} (hd : d < 6) :
    s.toList[d]? = if d < s.dimensions then some (s.dim d) else none := by
  rw [toList, List.getElem?_take]
  simp [dim, hd]

theorem pos_of_mem_toList (h : 0 < s.size) {e : Nat} (he : e ∈ s.toList) : 0 < e := by
  obtain ⟨d, hd, rfl⟩ := List.mem_iff_getElem.1 he
  have hlen : d < 6 := by
    simp only [toList, List.length_take, Vector.length_toList] at hd
    omega
  have hget := getElem?_toList (s := s) hlen
  rw [List.getElem?_eq_getElem hd] at hget
  split at hget
  · rw [Option.some.inj hget]
    exact dim_pos_of_size_pos h d
  · cases hget

theorem prod_take_toList {d : Nat} (hd : d ≤ s.dimensions) (hd6 : d ≤ 6) :
    (s.toList.take d).prod = s.lowerSize d := by
  induction d with
  | zero => rfl
  | succ d ih =>
    have hget := getElem?_toList (s := s) (d := d) (by omega)
    rw [if_pos (by omega)] at hget
    rw [List.take_add_one, hget, List.prod_append, ih (by omega) (by omega),
      lowerSize_succ s (by omega)]
    simp

theorem ofList_digits (h : s.Trimmed) (i : Nat) :
    Coord.ofList (Odometer.digits s.toList i) = s.coordOf i := by
  unfold Coord.ofList coordOf
  congr 1
  funext d
  rw [Odometer.getD_digits, List.getD_eq_getElem?_getD, getElem?_toList d.isLt]
  by_cases hd : (d : Nat) < s.dimensions
  · rw [if_pos hd, prod_take_toList (by omega) (by omega)]
    rfl
  · -- a dimension without a wheel
    have hone : s.dim d = 1 := h d (by
      unfold dimensions at hd
      omega)
    rw [if_neg hd, hone, Option.getD_none, Nat.mod_one, Nat.mod_one]

/-- The odometer shows every element's coordinates once, in the order of the elements. -/
theorem visited_eq_coords (h : s.Trimmed) : s.visited = s.coords := by
  rcases Nat.eq_zero_or_pos s.size with hzero | hpos
  · rw [visited, coords, hzero]
    rfl
  · have run := Odometer.iterate_turn (fun _ he => pos_of_mem_toList hpos he) 0 s.size
    rw [visited, coords, ← Odometer.digits_zero, run, List.map_map, List.range_eq_range']
    apply List.map_congr_left
    intro i _
    exact ofList_digits h i

end Shape

/-! ### Addresses -/

namespace Shape

theorem cellOf_inj {s : Shape} {c c' : Coord} (hc : s.Contains c) (hc' : s.Contains c')
    (h : s.cellOf c = s.cellOf c') : c = c' := by
  simp (disch := omega) only [cellOf, Coord.getD_eq, WorkItem.mk.injEq] at h
  obtain ⟨h0, h1, h⟩ := h
  obtain ⟨h2, h⟩ := radix_inj (hc 2) (hc' 2) h
  obtain ⟨h3, h⟩ := radix_inj (hc 3) (hc' 3) h
  obtain ⟨h4, h5⟩ := radix_inj (hc 4) (hc' 4) h
  apply Vector.ext
  intro d hd
  interval_cases d <;> assumption

end Shape

namespace Layout

variable {l : Layout} {c c' : Coord}

theorem start_le_offset (l : Layout) (c : Coord) : l.start ≤ l.offset c := by
  unfold offset
  omega

theorem offset_add_le (hc : l.shape.Contains c) : l.offset c + l.elementSize ≤ l.byteSize := by
  rw [offset_eq_cell]
  exact cell_add_le hc.cellOf

/-- Elements at different coordinates share no byte. -/
theorem offset_apart (hc : l.shape.Contains c) (hc' : l.shape.Contains c') (hne : c ≠ c') :
    l.Apart (l.offset c) (l.offset c') := by
  rw [offset_eq_cell, offset_eq_cell]
  exact cell_apart hc.cellOf hc'.cellOf fun h => hne (Shape.cellOf_inj hc hc' h)

section Fold

variable {x y z w v u : Nat}

theorem offset4_fold (l : Layout) :
    l.offset4 x y z (w + l.dim 3 * (v + l.dim 4 * u)) = l.offset #v[x, y, z, w, v, u] := by
  simp only [offset4, offset3, offset2, offset, stride, Vector.getElem_mk, List.getElem_toArray,
    List.getElem_cons_zero, List.getElem_cons_succ]
  ring

theorem offset3_fold (l : Layout) :
    l.offset3 x y (z + l.dim 2 * (w + l.dim 3 * (v + l.dim 4 * u))) =
      l.offset #v[x, y, z, w, v, u] := by
  rw [← offset4_fold]
  simp only [offset4, offset3, stride]
  ring

theorem fold4_lt (hc : l.shape.Contains #v[x, y, z, w, v, u]) :
    w + l.dim 3 * (v + l.dim 4 * u) < l.shape.upperSize 3 := by
  simp only [Shape.upperSize, Shape.product, Nat.mul_one]
  exact radix_lt (hc 3) (radix_lt (hc 4) (hc 5))

theorem fold3_lt (hc : l.shape.Contains #v[x, y, z, w, v, u]) :
    z + l.dim 2 * (w + l.dim 3 * (v + l.dim 4 * u)) < l.batches := by
  rw [batches, Shape.batches_eq]
  exact radix_lt (hc 2) (radix_lt (hc 3) (radix_lt (hc 4) (hc 5)))

end Fold

theorem of?_eq_some {shape : Shape} {dataType : DataType} {padding : Padding} :
    of? shape dataType padding = some l ↔ InWords l.numbers ∧ l = ⟨shape, dataType, padding⟩ := by
  rw [of?, inWords?_eq_some, eq_comm (a := l)]
  constructor
  · rintro ⟨h, rfl⟩
    exact ⟨h, rfl⟩
  · rintro ⟨h, rfl⟩
    exact ⟨h, rfl⟩

theorem byteSize_lt (h : InWords l.numbers) : l.byteSize < 2 ^ 64 :=
  h l.byteSize (by simp [numbers])

/-- No sum formed on the way to an element's address leaves the machine words. -/
theorem offset?_eq (h : InWords l.numbers) (hc : l.shape.Contains c) :
    l.offset? c = some (l.offset c) := by
  have hle := offset_add_le hc
  have hlt := byteSize_lt h
  refine inWords?_of _ (inWords_singleton.2 ?_)
  omega

end Layout

/-- Where the elements of a tensor lie whose layout could be made: between the first element's
address and the end of the buffer, and apart from each other. Upper dimensions may be folded: a
folded index is one of the planes or batches, and the address is that of the coordinates it was
folded from. No address of an element leaves the machine words. -/
theorem Layout.elements_laid_out {shape : Shape} {dataType : DataType} {padding : Padding}
    {l : Layout} (made : Layout.of? shape dataType padding = some l) :
    l = ⟨shape, dataType, padding⟩ ∧
    (∀ c, shape.Contains c →
      l.offset? c = some (l.offset c) ∧
      l.start ≤ l.offset c ∧ l.offset c + l.elementSize ≤ l.byteSize ∧ l.byteSize < 2 ^ 64) ∧
    (∀ c c', shape.Contains c → shape.Contains c' → c ≠ c' →
      l.Apart (l.offset c) (l.offset c')) ∧
    ∀ x y z w v u : Nat,
      l.offset3? x y (z + l.dim 2 * (w + l.dim 3 * (v + l.dim 4 * u))) =
        l.offset? #v[x, y, z, w, v, u] ∧
      l.offset4? x y z (w + l.dim 3 * (v + l.dim 4 * u)) = l.offset? #v[x, y, z, w, v, u] ∧
      (shape.Contains #v[x, y, z, w, v, u] →
        z + l.dim 2 * (w + l.dim 3 * (v + l.dim 4 * u)) < l.batches ∧
        w + l.dim 3 * (v + l.dim 4 * u) < l.shape.upperSize 3) := by
  obtain ⟨words, rfl⟩ := of?_eq_some.1 made
  refine ⟨rfl, ?_, ?_, ?_⟩
  · intro c hc
    exact ⟨offset?_eq words hc, start_le_offset _ c, offset_add_le hc, byteSize_lt words⟩
  · intro c c' hc hc' hne
    exact offset_apart hc hc' hne
  · intro x y z w v u
    refine ⟨?_, ?_, fun hc => ⟨fold3_lt hc, fold4_lt hc⟩⟩
    · rw [offset3?, offset3_fold, offset?]
    · rw [offset4?, offset4_fold, offset?]

/-- Two elements of a tensor with an uneven border and an extent of one between larger ones. -/
theorem Layout.elements_laid_out_bordered :
    let l : Layout := ⟨.ofList [2, 3, 1, 2], .f16, ⟨1, 0, 2, 3⟩⟩
    let c : Coord := #v[1, 2, 0, 1, 0, 0]
    let c' : Coord := #v[0, 2, 0, 1, 0, 0]
    Layout.of? (.ofList [2, 3, 1, 2]) .f16 ⟨1, 0, 2, 3⟩ = some l ∧
      (l.shape.Contains c ∧ l.shape.Contains c' ∧ c ≠ c') ∧
      (l.start ≤ l.offset c ∧ l.offset c + l.elementSize ≤ l.byteSize) ∧
      l.Apart (l.offset c) (l.offset c') ∧
      l.offset3? 1 2 (0 + 1 * (1 + 2 * (0 + 1 * 0))) = l.offset? c := by
  intro l c c'
  have made : Layout.of? (.ofList [2, 3, 1, 2]) .f16 ⟨1, 0, 2, 3⟩ = some l := by decide
  have hc : l.shape.Contains c := by decide
  have hc' : l.shape.Contains c' := by decide
  have hne : c ≠ c' := by decide
  obtain ⟨-, inside, apart, folded⟩ := elements_laid_out made
  obtain ⟨-, first, last, -⟩ := inside c hc
  exact ⟨made, ⟨hc, hc', hne⟩, ⟨first, last⟩, apart c c' hc hc' hne, (folded 1 2 0 1 0 0).1⟩

/-- A border that is too wide for the strides: no layout can be made, although the tensor has only
four elements. -/
theorem Layout.of_fails_for_wide_border :
    (Shape.ofList [2, 2]).size = 4 ∧
      Layout.of? (.ofList [2, 2]) .f32 ⟨0, 2 ^ 62 - 1, 0, 0⟩ = none := by decide

end TileCompute
