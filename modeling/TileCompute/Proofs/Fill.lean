import Mathlib.Data.List.Basic
import TileCompute.Proofs.Words
import TileCompute.Tensor.View

/-!
# TileCompute.Proofs.Fill

Filling a tensor element by element. `View.fill` stores a value at the address of every index of a
list, each value computed from memory at the time of its store. When the elements lie apart and no
value reads an element stored for another index (`Separate`), the order of the list is of no
matter and every element ends with the value computed from the memory before the first store.

* `Separate.load_fill`: what an element holds after a fill.
* `Separate.fill_perm`: the order does not matter.
* `byte_fill_other`: bytes of no element of the list stay.
-/

namespace TileCompute

def Layout.Apart (l : Layout) (o o' : Nat) : Prop :=
  o + l.elementSize ≤ o' ∨ o' + l.elementSize ≤ o

theorem Layout.Apart.symm {l : Layout} {o o' : Nat} (h : l.Apart o o') : l.Apart o' o := Or.symm h

namespace View

def Fits (v : View) (m : Memory) : Prop := v.layout.byteSize ≤ m.size v.buffer

instance (v : View) (m : Memory) : Decidable (v.Fits m) := inferInstanceAs (Decidable (_ ≤ _))

theorem Fits.of_size {v : View} {m m' : Memory} (h : v.Fits m)
    (hsize : m'.size v.buffer = m.size v.buffer) : v.Fits m' := by
  rw [Fits, hsize]
  exact h

@[simp] theorem size_store (v : View) (m : Memory) (c : BufferId) (o w : Nat) :
    (v.store m o w).size c = m.size c := Memory.size_store ..

theorem byte_store_other {v : View} {m : Memory} {c : BufferId} {o j w : Nat}
    (h : c = v.buffer → j < o ∨ o + v.layout.elementSize ≤ j) :
    (v.store m o w).byte c j = m.byte c j :=
  Memory.byte_store_other fun hc => h hc.symm

theorem load_store {v : View} {m : Memory} {o : Nat} (w : Nat)
    (h : o + v.layout.elementSize ≤ m.size v.buffer) :
    v.load (v.store m o w) o = w % 256 ^ v.layout.elementSize :=
  Memory.load_store w h

theorem load_store_apart {v : View} {m : Memory} {o o' : Nat} (w : Nat)
    (h : v.layout.Apart o o') : v.load (v.store m o w) o' = v.load m o' :=
  Memory.load_store_apart w fun _ => h.symm

theorem store_comm {v : View} (m : Memory) {o o' : Nat} (w w' : Nat) (h : v.layout.Apart o o') :
    v.store (v.store m o w) o' w' = v.store (v.store m o' w') o w :=
  Memory.store_comm m w w' fun _ => h.symm

theorem load_store_buffer {v u : View} {m : Memory} {o o' : Nat} (w : Nat)
    (h : u.buffer ≠ v.buffer) : u.load (v.store m o w) o' = u.load m o' :=
  Memory.load_store_apart w fun hc => absurd hc.symm h

theorem load_congr {v : View} {m m' : Memory} (h : ∀ j, m.byte v.buffer j = m'.byte v.buffer j)
    (o : Nat) : v.load m o = v.load m' o :=
  Memory.load_congr fun k _ => h (o + k)

section Fill

variable {ι : Type} {v : View} {address : ι → Nat} {value : ι → Memory → Nat}

/-- Stores a value at the address of every index of a list, in turn. -/
def fill (v : View) (address : ι → Nat) (value : ι → Memory → Nat) (is : List ι) (m : Memory) :
    Memory :=
  is.foldl (fun m i => v.store m (address i) (value i m)) m

@[simp] theorem fill_nil (m : Memory) : v.fill address value [] m = m := rfl

@[simp] theorem fill_cons (i : ι) (is : List ι) (m : Memory) :
    v.fill address value (i :: is) m =
      v.fill address value is (v.store m (address i) (value i m)) := rfl

theorem fill_append (is js : List ι) (m : Memory) :
    v.fill address value (is ++ js) m = v.fill address value js (v.fill address value is m) :=
  List.foldl_append

@[simp] theorem size_fill (is : List ι) (m : Memory) (c : BufferId) :
    (v.fill address value is m).size c = m.size c := by
  induction is generalizing m with
  | nil => rfl
  | cons i is ih => rw [fill_cons, ih, size_store]

theorem byte_fill_other {is : List ι} {m : Memory} {c : BufferId} {j : Nat}
    (h : c = v.buffer → ∀ i ∈ is, j < address i ∨ address i + v.layout.elementSize ≤ j) :
    (v.fill address value is m).byte c j = m.byte c j := by
  induction is generalizing m with
  | nil => rfl
  | cons i is ih =>
    rw [fill_cons, ih fun hc k hk => h hc k (List.mem_cons_of_mem _ hk)]
    exact byte_store_other fun hc => h hc i List.mem_cons_self

/-- Values that no store of the list can change may all be computed beforehand. -/
theorem fill_beforehand (h : ∀ i m o w, value i (v.store m o w) = value i m) (is : List ι)
    (m : Memory) : v.fill address value is m = v.fill address (fun i _ => value i m) is m := by
  suffices hs : ∀ m', (∀ i, value i m' = value i m) →
      v.fill address value is m' = v.fill address (fun i _ => value i m) is m' from
    hs m fun _ => rfl
  induction is with
  | nil => exact fun _ _ => rfl
  | cons i is ih =>
    intro m' hm'
    rw [fill_cons, fill_cons, hm']
    exact ih _ fun k => (h k m' _ _).trans (hm' k)

/-- Indices whose elements lie apart and whose values read no element stored for another. -/
structure Separate (v : View) (address : ι → Nat) (value : ι → Memory → Nat)
    (inside : ι → Prop) : Prop where
  apart : ∀ i j, inside i → inside j → i ≠ j → v.layout.Apart (address i) (address j)
  stable : ∀ i j, inside i → inside j → i ≠ j → ∀ m w,
    value i (v.store m (address j) w) = value i m

namespace Separate

variable {inside : ι → Prop}

/-- After a fill the bytes of an element are those of its own value, computed beforehand. -/
theorem byte_fill (h : Separate v address value inside) {is : List ι} (hn : is.Nodup)
    (hin : ∀ i ∈ is, inside i) {i : ι} (hi : i ∈ is) (m : Memory) {j : Nat} (lo : address i ≤ j)
    (hi' : j < address i + v.layout.elementSize) :
    (v.fill address value is m).byte v.buffer j =
      (v.store m (address i) (value i m)).byte v.buffer j := by
  induction is generalizing m with
  | nil => cases hi
  | cons k is ih =>
    obtain ⟨hk, hn⟩ := List.nodup_cons.1 hn
    have hin' : ∀ i ∈ is, inside i := fun i hi => hin i (List.mem_cons_of_mem _ hi)
    have inside_k : inside k := hin k List.mem_cons_self
    rw [fill_cons]
    rcases List.mem_cons.1 hi with rfl | hi
    · -- the first index: no later store reaches its bytes
      apply byte_fill_other
      intro _ i' hi'
      have hne : i ≠ i' := fun e => hk (e ▸ hi')
      have := h.apart i i' inside_k (hin' i' hi') hne
      unfold Layout.Apart at this
      omega
    · have hne : i ≠ k := fun e => hk (e ▸ hi)
      have hap := h.apart k i inside_k (hin' i hi) hne.symm
      rw [ih hn hin' hi, h.stable i k (hin' i hi) inside_k hne, store_comm m _ _ hap]
      apply byte_store_other
      intro _
      unfold Layout.Apart at hap
      omega

theorem load_fill (h : Separate v address value inside) {is : List ι} (hn : is.Nodup)
    (hin : ∀ i ∈ is, inside i) {i : ι} (hi : i ∈ is) {m : Memory}
    (hfit : address i + v.layout.elementSize ≤ m.size v.buffer) :
    v.load (v.fill address value is m) (address i) =
      value i m % 256 ^ v.layout.elementSize := by
  rw [← load_store (value i m) hfit]
  apply Memory.load_congr
  intro k hk
  exact h.byte_fill hn hin hi m (by omega) (by omega)

theorem fill_perm (h : Separate v address value inside) {is js : List ι} (hp : is.Perm js)
    (hin : ∀ i ∈ is, inside i) (m : Memory) :
    v.fill address value is m = v.fill address value js m := by
  apply hp.foldl_eq'
  intro i hi j hj m
  by_cases hij : i = j
  · rw [hij]
  · have hap := h.apart i j (hin i hi) (hin j hj) hij
    rw [h.stable j i (hin j hj) (hin i hi) (Ne.symm hij),
      h.stable i j (hin i hi) (hin j hj) hij, store_comm m _ _ hap]

end Separate

end Fill

end View
end TileCompute
