import TileCompute.Proofs.Strips

/-!
# TileCompute.Proofs.Overlap

Tensors that may share a buffer. Two words are clear of each other when they share no byte
(`View.Clear`). A tensor can be written while another one is read if, element by element, what is
written is clear of everything but the element itself (`View.Untangled`): in another buffer, or in
the same tensor, or between elements whose borders leave room. Then every element may be computed
from the operands' elements at its own site, in any order (`View.words_combined`).

Work-items of a larger kind read and write many elements. They are isolated when what each of them
reads and leaves is out of reach of the others (`Isolated`), and then the order does not matter
either.

* `View.untangled_self`, `View.untangled_of_ne`: the usual cases.
* `Isolated.leaves_runItems`: what a work-item leaves, whatever runs before and after it.
-/

namespace TileCompute

namespace View

variable {v u : View} {m m' : Memory} {o o' : Nat}

/-- The word of `v` at `o` shares no byte with the word of `u` at `o'`. -/
def Clear (v : View) (o : Nat) (u : View) (o' : Nat) : Prop :=
  v.buffer = u.buffer → o + v.layout.elementSize ≤ o' ∨ o' + u.layout.elementSize ≤ o

theorem clear_of_ne (h : v.buffer ≠ u.buffer) (o o' : Nat) : v.Clear o u o' :=
  fun he => absurd he h

theorem load_store_clear (h : v.Clear o u o') (m : Memory) (w : Nat) :
    u.load (v.store m o w) o' = u.load m o' :=
  Memory.load_store_apart w fun he => (h he).symm

section Fill

variable {ι : Type} {address : ι → Nat} {value : ι → Memory → Nat} {is : List ι}

theorem load_fill_clear (h : ∀ i ∈ is, v.Clear (address i) u o') (m : Memory) :
    u.load (v.fill address value is m) o' = u.load m o' := by
  induction is generalizing m with
  | nil => rfl
  | cons i is ih =>
    rw [fill_cons, ih fun k hk => h k (List.mem_cons_of_mem _ hk)]
    exact load_store_clear (h i List.mem_cons_self) m _

end Fill

/-- Every element of `v` is clear of all elements of `u` but the one in its own place. -/
def Untangled (v u : View) : Prop :=
  ∀ c c', v.layout.HasCell c → u.layout.HasCell c' → c ≠ c' →
    v.Clear (v.layout.cell c) u (u.layout.cell c')

theorem untangled_self (v : View) : v.Untangled v :=
  fun _ _ hc hc' hne _ => Layout.cell_apart hc hc' hne

theorem untangled_of_ne (h : v.buffer ≠ u.buffer) : v.Untangled u :=
  fun _ _ _ _ _ => clear_of_ne h _ _

/-- One tensor or two buffers. -/
theorem untangled_of_shared (h : v.buffer = u.buffer → u = v) : v.Untangled u := by
  by_cases hb : v.buffer = u.buffer
  · rw [h hb]
    exact v.untangled_self
  · exact untangled_of_ne hb

theorem Untangled.clear_sites (h : v.Untangled u) (shape : u.layout.shape = v.layout.shape)
    {s t : Site} (ht : t ∈ v.layout.shape.sites) (hs : s ∈ v.layout.shape.sites) (hne : t ≠ s) :
    v.Clear (v.layout.site t) u (u.layout.site s) := by
  rw [← shape] at hs
  obtain ⟨c, hc, rfl⟩ := List.mem_map.1 ht
  obtain ⟨c', hc', rfl⟩ := List.mem_map.1 hs
  rw [Layout.site_siteOf, Layout.site_siteOf]
  refine h c c' (Layout.mem_grid_items.1 hc) (Layout.mem_grid_items.1 hc') fun he => hne ?_
  rw [he, shape]

/-! ### Element by element -/

/-- Stores at a site a word made of the operands' words there. -/
def combineSite (v : View) (operands : List View) (combine : Site → List Nat → Nat) (s : Site)
    (m : Memory) : Memory :=
  v.store m (v.layout.site s) (combine s (operands.map fun u => u.load m (u.layout.site s)))

/-- Operands whose elements can be combined into those of `v`, in any order. -/
structure Combines (v : View) (operands : List View) (combine : Site → List Nat → Nat) : Prop where
  shape : ∀ u ∈ operands, u.layout.shape = v.layout.shape
  untangled : ∀ u ∈ operands, v.Untangled u
  bounded : ∀ s words, combine s words < 256 ^ v.layout.elementSize

variable {operands : List View} {combine : Site → List Nat → Nat} {order order' : List Site}

/-- Operands in other buffers, or the tensor that is written. -/
theorem Combines.of_shared (shape : ∀ u ∈ operands, u.layout.shape = v.layout.shape)
    (shared : ∀ u ∈ operands, v.buffer = u.buffer → u = v)
    (bounded : ∀ s words, combine s words < 256 ^ v.layout.elementSize) :
    v.Combines operands combine :=
  ⟨shape, fun u hu => untangled_of_shared (shared u hu), bounded⟩

theorem words_combined (h : v.Combines operands combine) (fits : v.Fits m)
    (perm : order.Perm v.layout.shape.sites) :
    v.words (runItems order (v.combineSite operands combine) m) =
      v.layout.shape.sites.map fun s =>
        combine s (operands.map fun u => u.load m (u.layout.site s)) := by
  have separate : Separate v v.layout.site
      (fun s m => combine s (operands.map fun u => u.load m (u.layout.site s)))
      (· ∈ v.layout.shape.sites) := by
    refine separate_sites fun s t hs ht hne m w => congrArg (combine s) ?_
    refine List.map_congr_left fun u hu => load_store_clear ?_ m w
    exact (h.untangled u hu).clear_sites (h.shape u hu) ht hs hne.symm
  have distinct : order.Nodup := perm.nodup_iff.2 v.layout.shape.nodup_sites
  rw [words_eq_sites]
  refine List.map_congr_left fun s hs => ?_
  refine (separate.load_fill distinct (fun _ ht => perm.mem_iff.1 ht) (perm.mem_iff.2 hs)
    (site_fits fits hs)).trans ?_
  exact Nat.mod_eq_of_lt (h.bounded ..)

/-- Tensors with the same words hold the same word at every site. -/
theorem load_site_congr {s : Site} (h : v.words m = v.words m') (hs : s ∈ v.layout.shape.sites) :
    v.load m (v.layout.site s) = v.load m' (v.layout.site s) := by
  rw [words_eq_sites, words_eq_sites] at h
  exact List.map_inj_left.1 h s hs

/-- Where it is stored does not matter, nor in which order. -/
theorem words_combined_congr {v' : View} (h : v.Combines operands combine)
    (h' : v'.Combines operands combine) (shape : v'.layout.shape = v.layout.shape)
    (fits : v.Fits m) (fits' : v'.Fits m') (perm : order.Perm v.layout.shape.sites)
    (perm' : order'.Perm v.layout.shape.sites)
    (same : ∀ u ∈ operands, u.words m = u.words m') :
    v.words (runItems order (v.combineSite operands combine) m) =
      v'.words (runItems order' (v'.combineSite operands combine) m') := by
  rw [words_combined h fits perm, words_combined h' fits' (shape ▸ perm'), shape]
  refine List.map_congr_left fun s hs => congrArg (combine s) ?_
  exact List.map_congr_left fun u hu => load_site_congr (same u hu) (h.shape u hu ▸ hs)

end View

/-! ### Work-items of any kind -/

/-- Work-items that each make what they leave out of what they read, both out of reach of the
others. -/
structure Isolated {ι σ α β : Type} (inside : ι → Prop) (valid : σ → Prop) (body : ι → σ → σ)
    (reads : ι → σ → α) (leaves : ι → σ → β) (f : α → β) : Prop where
  keeps : ∀ {i s}, inside i → valid s → valid (body i s)
  own : ∀ {i s}, inside i → valid s → leaves i (body i s) = f (reads i s)
  reads_other : ∀ {i j s}, inside i → inside j → i ≠ j → valid s → reads j (body i s) = reads j s
  leaves_other : ∀ {i j s}, inside i → inside j → i ≠ j → valid s →
    leaves j (body i s) = leaves j s

namespace Isolated

variable {ι σ α β : Type} {inside : ι → Prop} {valid : σ → Prop} {body : ι → σ → σ}
  {reads : ι → σ → α} {leaves : ι → σ → β} {f : α → β} {items : List ι} {i : ι} {s : σ}

theorem valid_runItems (h : Isolated inside valid body reads leaves f)
    (mem : ∀ i ∈ items, inside i) (hs : valid s) : valid (runItems items body s) := by
  induction items generalizing s with
  | nil => exact hs
  | cons j items ih =>
    obtain ⟨hj, mem⟩ := List.forall_mem_cons.1 mem
    exact ih mem (h.keeps hj hs)

theorem leaves_runItems_other (h : Isolated inside valid body reads leaves f)
    (mem : ∀ i ∈ items, inside i) (hi : inside i) (absent : i ∉ items) (hs : valid s) :
    leaves i (runItems items body s) = leaves i s := by
  induction items generalizing s with
  | nil => rfl
  | cons j items ih =>
    obtain ⟨hj, mem⟩ := List.forall_mem_cons.1 mem
    obtain ⟨hne, absent⟩ := not_or.1 (List.mem_cons.not.1 absent)
    rw [runItems_cons, ih mem absent (h.keeps hj hs), h.leaves_other hj hi (Ne.symm hne) hs]

/-- In a list without repetitions every work-item leaves what it makes of what was there before all
of them. -/
theorem leaves_runItems (h : Isolated inside valid body reads leaves f) (distinct : items.Nodup)
    (mem : ∀ i ∈ items, inside i) (hi : i ∈ items) (hs : valid s) :
    leaves i (runItems items body s) = f (reads i s) := by
  induction items generalizing s with
  | nil => cases hi
  | cons j items ih =>
    obtain ⟨hj, rest⟩ := List.forall_mem_cons.1 mem
    obtain ⟨absent, distinct⟩ := List.nodup_cons.1 distinct
    rw [runItems_cons]
    obtain rfl | hi := List.mem_cons.1 hi
    · rw [h.leaves_runItems_other rest hj absent (h.keeps hj hs), h.own hj hs]
    · have hne : j ≠ i := fun he => absent (he ▸ hi)
      rw [ih distinct rest hi (h.keeps hj hs), h.reads_other hj (rest i hi) hne hs]

/-- The work-items of a launch, in any order. -/
theorem leaves_ordered {g : Grid} {body : WorkItem → σ → σ} {reads : WorkItem → σ → α}
    {leaves : WorkItem → σ → β} (h : Isolated (· ∈ g.items) valid body reads leaves f)
    {order : List WorkItem} (perm : order.Perm g.items) {item : WorkItem} (hi : item ∈ g.items)
    (hs : valid s) : leaves item (runItems order body s) = f (reads item s) :=
  h.leaves_runItems (perm.nodup_iff.2 g.nodup_items) (fun _ => perm.mem_iff.1) (perm.mem_iff.2 hi)
    hs

end Isolated
end TileCompute
