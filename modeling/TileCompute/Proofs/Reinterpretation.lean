import TileCompute.Proofs.Connected
import TileCompute.Proofs.Contents

/-!
# TileCompute.Proofs.Reinterpretation

Tensors seen through one shape after another.

A tensor without a border can be seen through every shape of as many elements whose layout can be
made. Whatever shapes it has been seen through on the way (`View.Reinterpreted`), its elements stay
one sequence in one buffer, so there is no telling through which shape an element was stored.

* `View.Reinterpreted.direct`: only the last shape counts.
* `View.Reinterpreted.words_eq`: the elements in order, in every memory.
* `View.Reinterpreted.eq_of_shape`: back in the old shape it is the old tensor.
* `View.words_store_number`: a single element stored by its number.
* `View.reinterpreted_sequence`: all of it together.
-/

namespace TileCompute
namespace View

variable {u v w : View} {s : Shape} {m m' : Memory}

/-- `w` is `v` seen through some shapes, one after the other. -/
inductive Reinterpreted (v : View) : View → Prop
  | refl : Reinterpreted v v
  | step {u w : View} {s : Shape} (before : Reinterpreted v u) (next : u.reinterpret? s = .ok w) :
    Reinterpreted v w

theorem reinterpret?_eq_ok : v.reinterpret? s = .ok w ↔
    InWords (v.layout.reinterpretNumbers s) ∧ v.reinterpret s = .ok w ∧
      InWords w.layout.numbers := by
  simp only [reinterpret?, Layout.reinterpret?, reinterpret, bind_eq_ok, raise_checkWords,
    refuse_eq_ok, kernelFailure_eq_ok, MatrixProduct.kernelResult_eq_ok, pure_eq_ok]
  constructor
  · rintro ⟨_, ⟨-, numbers, l, made, -, words, rfl⟩, rfl⟩
    exact ⟨numbers, ⟨l, made, rfl⟩, words⟩
  · rintro ⟨numbers, ⟨l, made, rfl⟩, words⟩
    exact ⟨l, ⟨(), numbers, l, made, (), words, rfl⟩, rfl⟩

/-- The elements of both shapes can be counted where both layouts can be made. -/
theorem inWords_reinterpretNumbers (numbers : InWords v.layout.numbers)
    (products : InWords (s.products 0 6)) : InWords (v.layout.reinterpretNumbers s) := by
  unfold Layout.reinterpretNumbers
  split
  · exact inWords_append.2 ⟨products, Layout.inWords_products numbers⟩
  · exact inWords_nil

namespace Reinterpreted

/-- All the shapes on the way come to no more than the last one. -/
theorem direct (h : v.Reinterpreted w) : w = v ∨ v.reinterpret w.layout.shape = .ok w := by
  induction h with
  | refl => exact .inl rfl
  | step before next ih =>
    obtain ⟨-, next, -⟩ := reinterpret?_eq_ok.1 next
    obtain ⟨⟨contiguous, size⟩, rfl⟩ := reinterpret_eq_ok.1 next
    right
    rcases ih with rfl | ih
    · exact next
    · obtain ⟨⟨first, size'⟩, he⟩ := reinterpret_eq_ok.1 ih
      rw [← he] at size ⊢
      exact reinterpret_eq_ok.2 ⟨⟨first, size.trans size'⟩, rfl⟩

theorem type_eq (h : v.Reinterpreted w) : w.layout.dataType = v.layout.dataType := by
  rcases h.direct with rfl | h
  · rfl
  · exact type_reinterpret h

theorem size_eq (h : v.Reinterpreted w) : w.layout.shape.size = v.layout.shape.size := by
  rcases h.direct with rfl | h
  · rfl
  · exact size_reinterpret h

theorem words_eq (h : v.Reinterpreted w) (m : Memory) : w.words m = v.words m := by
  rcases h.direct with rfl | h
  · rfl
  · exact words_reinterpret h m

theorem fits (h : v.Reinterpreted w) (fits : v.Fits m) : w.Fits m := by
  rcases h.direct with rfl | h
  · exact fits
  · exact fits_reinterpret h fits

/-- Back in the old shape it is the old tensor. -/
theorem eq_of_shape (h : v.Reinterpreted w) (shape : w.layout.shape = v.layout.shape) : w = v := by
  rcases h.direct with same | h
  · exact same
  · obtain ⟨⟨contiguous, -⟩, he⟩ := reinterpret_eq_ok.1 h
    have none : v.layout.padding = .none := of_decide_eq_true contiguous
    rw [← he, shape, Layout.packed, ← none]

end Reinterpreted

/-- An element stored by its number changes that element of the sequence. -/
theorem words_store_number (fits : v.Fits m) {i : Nat} (hi : i < v.layout.shape.size) (x : Nat) :
    v.words (v.store m (v.layout.offset (v.layout.shape.coordOf i)) x) =
      (v.words m).set i (x % 256 ^ v.layout.elementSize) := by
  have inside := Shape.contains_coordOf hi
  apply List.ext_getElem
  · rw [length_words, List.length_set, length_words]
  · intro j h1 _
    have hj : j < v.layout.shape.size := by simpa using h1
    rw [List.getElem_set]
    simp only [words, Shape.coords, List.map_map, List.getElem_map, List.getElem_range,
      Function.comp_apply]
    by_cases hij : i = j
    · rw [if_pos hij, ← hij]
      exact load_store x (Nat.le_trans (Layout.offset_add_le inside) fits)
    · rw [if_neg hij]
      apply load_store_apart
      exact Layout.offset_apart inside (Shape.contains_coordOf hj)
        fun he => hij (Shape.coordOf_inj hi hj he)

theorem words_write (fits : v.Fits m) {values : List Binary32} (h : v.write values m = .ok m') :
    v.words m' = values.map v.layout.dataType.encode := by
  obtain ⟨⟨-, hlen, -⟩, rfl⟩ := write_eq_ok.1 h
  exact words_storeValues fits hlen

/-- Where the elements can be counted, a shape is either taken or refused. -/
theorem reinterpret?_refused (numbers : InWords v.layout.numbers)
    (products : InWords (s.products 0 6))
    (differs : ¬(v.layout.padding = .none ∧ s.size = v.layout.shape.size)) :
    ∃ e, v.reinterpret? s = .error (.refused e) := by
  have counted := inWords_reinterpretNumbers numbers products
  cases h : v.layout.reinterpret s with
  | error e =>
    refine ⟨.kernel e, ?_⟩
    rw [reinterpret?, Layout.reinterpret?, checkWords, inWords?_of _ counted, h]
    rfl
  | ok l =>
    have made : v.reinterpret s = .ok ⟨v.buffer, l⟩ := by
      rw [reinterpret, h]
      rfl
    obtain ⟨⟨contiguous, size⟩, -⟩ := reinterpret_eq_ok.1 made
    exact absurd ⟨of_decide_eq_true contiguous, size⟩ differs

/-- A tensor is one sequence of elements under all shapes. It is seen through another shape exactly
if it has no border, the shape has as many elements, and the layout can be made; a shape that does
not match is refused. The buffer and the list of elements are the same. Back in the old shape after
any others it is the tensor that it was, and what is stored through one of the shapes, an element by
its number or all of them, is found through every other one. -/
theorem reinterpreted_sequence {v : View} (numbers : InWords v.layout.numbers) :
    (∀ s, (∃ w, v.reinterpret? s = .ok w) ↔
      (v.layout.padding = .none ∧ s.size = v.layout.shape.size) ∧
        InWords (Layout.packed s v.layout.dataType).numbers) ∧
    (∀ s, InWords (s.products 0 6) →
      ¬(v.layout.padding = .none ∧ s.size = v.layout.shape.size) →
        ∃ e, v.reinterpret? s = .error (.refused e)) ∧
    (∀ s w, v.reinterpret? s = .ok w →
      w.buffer = v.buffer ∧ w.layout = .packed s v.layout.dataType ∧
        ∀ m size, w.words m = v.words m ∧ w.read size m = v.read size m) ∧
    (∀ w, v.Reinterpreted w → w.layout.shape = v.layout.shape → w = v) ∧
    ∀ u w, v.Reinterpreted u → v.Reinterpreted w → ∀ m, v.Fits m →
      (∀ i x, i < v.layout.shape.size →
        w.words (u.store m (u.layout.offset (u.layout.shape.coordOf i)) x) =
          (w.words m).set i (x % 256 ^ v.layout.elementSize)) ∧
      ∀ values m', u.write values m = .ok m' →
        w.words m' = values.map v.layout.dataType.encode := by
  refine ⟨?_, fun s => reinterpret?_refused numbers, ?_, fun w h shape => h.eq_of_shape shape, ?_⟩
  · intro s
    simp only [reinterpret?_eq_ok, reinterpret_eq_ok, Layout.isContiguous, decide_eq_true_eq]
    constructor
    · rintro ⟨_, -, ⟨h, rfl⟩, words⟩
      exact ⟨h, words⟩
    · rintro ⟨h, words⟩
      have products := Layout.inWords_products words
      exact ⟨_, inWords_reinterpretNumbers numbers products, ⟨h, rfl⟩, words⟩
  · intro s w h
    obtain ⟨-, h, words⟩ := reinterpret?_eq_ok.1 h
    obtain ⟨-, rfl⟩ := reinterpret_eq_ok.1 h
    refine ⟨rfl, rfl, ?_⟩
    intro m size
    have same := words_reinterpret h m
    refine ⟨same, ?_⟩
    rw [read_eq (Layout.inWords_products words), read_eq (Layout.inWords_products numbers), same]
    rfl
  · intro u w hu hw m fits
    -- both read the sequence of `v`, in whatever memory
    have same (m : Memory) : w.words m = u.words m := (hw.words_eq m).trans (hu.words_eq m).symm
    have size : u.layout.elementSize = v.layout.elementSize :=
      congrArg DataType.elementSize hu.type_eq
    constructor
    · intro i x hi
      rw [← hu.size_eq] at hi
      rw [same, words_store_number (hu.fits fits) hi, ← same, size]
    · intro values m' h
      rw [same, words_write (hu.fits fits) h, hu.type_eq]

/-- Six elements as rows of two, as planes of one row of three, and as one row. -/
theorem reinterpreted_sequence_six :
    let v : View := ⟨0, .packed (.ofList [2, 3]) (.qs16 4)⟩
    let u : View := ⟨0, .packed (.ofList [3, 1, 2]) (.qs16 4)⟩
    let w : View := ⟨0, .packed (.ofList [6]) (.qs16 4)⟩
    let m := (Memory.empty.alloc 12).2
    (InWords v.layout.numbers ∧ v.Fits m ∧ v.Reinterpreted u ∧ v.Reinterpreted w ∧
        w.reinterpret? (.ofList [2, 3]) = .ok v) ∧
      (∃ t, v.reinterpret? (.ofList [6]) = .ok t) ∧
      (∃ e, v.reinterpret? (.ofList [5]) = .error (.refused e)) ∧ w.words m = v.words m ∧
      w.words (u.store m (u.layout.offset #v[1, 0, 1, 0, 0, 0]) 65537) = [0, 0, 0, 0, 1, 0] ∧
      ∀ m', u.write [.one, .zero, .zero, .zero, .zero, .zero] m = .ok m' →
        w.words m' = [16, 0, 0, 0, 0, 0] := by
  intro v u w m
  have numbers : InWords v.layout.numbers := by decide
  have fits : v.Fits m := by decide
  have toU : v.reinterpret? (.ofList [3, 1, 2]) = .ok u := by decide
  have toW : u.reinterpret? (.ofList [6]) = .ok w := by decide
  have back : w.reinterpret? (.ofList [2, 3]) = .ok v := by decide
  have hu : v.Reinterpreted u := .step .refl toU
  have hw : v.Reinterpreted w := .step hu toW
  obtain ⟨accepted, refused, -, -, through⟩ := reinterpreted_sequence numbers
  have flat : ∃ t, v.reinterpret? (.ofList [6]) = .ok t :=
    (accepted _).2 ⟨⟨rfl, by decide⟩, by decide⟩
  have five : ∃ e, v.reinterpret? (.ofList [5]) = .error (.refused e) :=
    refused _ (by decide) (by decide)
  obtain ⟨one, all⟩ := through u w hu hw m fits
  refine ⟨⟨numbers, fits, hu, hw, back⟩, flat, five, hw.words_eq m, ?_, ?_⟩
  · have number : u.layout.shape.coordOf 4 = #v[1, 0, 1, 0, 0, 0] := by decide
    rw [← number, one 4 65537 (by decide)]
    decide
  · intro m' h
    rw [all _ m' h]
    decide

/-- A tensor without elements is not seen through a shape without elements whose rows are too
long. -/
theorem reinterpret_fails_for_long_rows :
    let v : View := ⟨0, .packed (.ofList [0]) .f32⟩
    let s : Shape := .ofList [2 ^ 62, 0]
    (InWords v.layout.numbers ∧ v.layout.padding = .none ∧ s.size = v.layout.shape.size) ∧
      v.reinterpret? s = .error (.fault .arithmetic) := by decide

end View
end TileCompute
