import TileCompute.Proofs.Fill
import TileCompute.Proofs.Radix

/-!
# TileCompute.Proofs.Watched

How the three readings of a kernel hang together. A kernel is written over any monitor; what its
parts do is said once for all of them, on the condition that the monitor lets pass whatever follows
from some `Q` (`Monitor.Grants`). A plain or recorded run asks nothing of `Q`, a checked run that it
holds.

* `foldlM_eq_pure`, `mapM_eq_pure`: loops whose steps only compute.
* `View.loadIn_eq`, `View.storeIn_eq`: a load or store inside its tensor passes.
* `Grid.launchIn_eq`: a launch is its work-items one after the other; `Grid.launchIn_id` is its
  plain reading.
* `View.fillIn`: a fill that is watched; `View.fillIn_id`, `View.fillIn_option`,
  `View.Separate.fillIn_recorded` are its readings, the last with the list of its stores.
-/

namespace TileCompute

section Loops

variable {M : Type → Type} [Monad M] [LawfulMonad M] {ι κ σ : Type}

/-- A loop only computes if every step does, given what the steps before it keep up. -/
theorem foldlM_eq_pure {xs : List ι} {f : σ → ι → M σ} {g : σ → ι → σ} {P : σ → Prop} {s : σ}
    (h : ∀ x ∈ xs, ∀ s, P s → f s x = pure (g s x) ∧ P (g s x)) (hs : P s) :
    xs.foldlM f s = pure (xs.foldl g s) := by
  induction xs generalizing s with
  | nil => rfl
  | cons x xs ih =>
    obtain ⟨hx, hp⟩ := h x List.mem_cons_self s hs
    rw [List.foldlM_cons, hx, pure_bind]
    exact ih (fun y hy => h y (List.mem_cons_of_mem _ hy)) hp

theorem mapM_eq_pure {xs : List ι} {f : ι → M κ} {g : ι → κ}
    (h : ∀ x ∈ xs, f x = pure (g x)) : xs.mapM f = pure (xs.map g) := by
  induction xs with
  | nil => rfl
  | cons x xs ih =>
    rw [List.mapM_cons, h x List.mem_cons_self, pure_bind,
      ih fun y hy => h y (List.mem_cons_of_mem _ hy), pure_bind]
    rfl

omit [LawfulMonad M] in
theorem foldlM_congr {xs : List ι} {f g : σ → ι → M σ} (h : ∀ x ∈ xs, ∀ s, f s x = g s x)
    (s : σ) : xs.foldlM f s = xs.foldlM g s := by
  induction xs generalizing s with
  | nil => rfl
  | cons x xs ih =>
    rw [List.foldlM_cons, List.foldlM_cons, h x List.mem_cons_self]
    exact bind_congr fun s => ih (fun y hy => h y (List.mem_cons_of_mem _ hy)) s

theorem foldlM_flatMap {is : List ι} {f : ι → List κ} {g : σ → κ → M σ} {s : σ} :
    (is.flatMap f).foldlM g s = is.foldlM (fun s i => (f i).foldlM g s) s := by
  induction is generalizing s with
  | nil => rfl
  | cons i is ih =>
    rw [List.flatMap_cons, List.foldlM_append, List.foldlM_cons]
    exact bind_congr fun _ => ih

end Loops

namespace Grid

/-- The work-items in the order of their rows. -/
theorem items_eq_rows (g : Grid) : g.items = (List.range (g.y * g.z)).flatMap fun row =>
    (List.range g.x).map fun x => ⟨x, row % g.y, row / g.y⟩ := by
  rw [items, size, Nat.mul_assoc, range_mul, List.map_flatMap]
  apply List.flatMap_congr
  intro row _
  rw [List.map_map]
  apply List.map_congr_left
  intro x hx
  have hx := List.mem_range.1 hx
  simp only [Function.comp_apply, item, radix_mod hx, radix_div hx]

theorem y_mul_z_le_size {g : Grid} (h : g.size ≠ 0) : g.y * g.z ≤ g.size := by
  unfold size at *
  have hx : g.x ≠ 0 := by
    rintro hx
    simp [hx] at h
  rw [Nat.mul_assoc]
  exact Nat.le_mul_of_pos_left _ (Nat.pos_of_ne_zero hx)

/-- A launch calls its body at every work-item, in order. -/
theorem launchIn_eq {M : Type → Type} [Monitor M] [LawfulMonad M] {Q : Prop}
    (hM : Monitor.Grants M Q) {g : Grid} (hg : Q → InWords g.numbers) {σ : Type}
    (body : WorkItem → σ → M σ) (s : σ) :
    g.launchIn body s = g.items.foldlM (fun s item => body item s) s := by
  rw [launchIn, hM.bind hg]
  by_cases hsize : g.size = 0
  · have hempty : g.isEmpty = true := by simp [isEmpty, hsize]
    rw [hempty, items, hsize]
    rfl
  · have hrows : Q → InWords [g.y * g.z] := fun q =>
      inWords_singleton.2 <|
        Nat.lt_of_le_of_lt (y_mul_z_le_size hsize) (hg q g.size (by simp [numbers]))
    have hempty : g.isEmpty = false := by simp [isEmpty, hsize]
    have hy : g.y ≠ 0 := by
      rintro hy
      simp [size, hy] at hsize
    simp only [hempty, Bool.false_eq_true, if_false]
    rw [hM.bind hrows, items_eq_rows, foldlM_flatMap]
    apply foldlM_congr
    intro row _ s
    rw [hM.bind fun _ => hy, List.foldlM_map]

theorem launchIn_id {σ : Type} (g : Grid) (body : WorkItem → σ → Id σ) (s : σ) :
    Id.run (g.launchIn body s) = g.launch (fun item s => Id.run (body item s)) s :=
  (congrArg Id.run (launchIn_eq (Monitor.grants_id False) False.elim body s)).trans
    (List.idRun_foldlM ..)

end Grid

namespace View

section Fill

variable {M : Type → Type} [Monitor M] [LawfulMonad M] {Q : Prop} {v : View} {o : Nat}

theorem loadIn_eq (hM : Monitor.Grants M Q)
    (ho : Q → o + v.layout.elementSize ≤ v.layout.byteSize) (m : Memory) :
    v.loadIn m o = (pure (v.load m o) : M Nat) := hM.bind ho _

theorem storeIn_eq (hM : Monitor.Grants M Q)
    (ho : Q → o + v.layout.elementSize ≤ v.layout.byteSize) (m : Memory) (word : Nat) :
    v.storeIn m o word = (v.putIn m o word : M Memory) := hM.bind ho _

variable {ι : Type} {address : ι → Nat} {value : ι → Memory → Nat}

/-- Stores a value at the address of every index of a list, in turn, and takes note of it. -/
def fillIn (v : View) (address : ι → Nat) (value : ι → Memory → Nat) (is : List ι) (m : Memory) :
    M Memory :=
  is.foldlM (fun m i => v.putIn m (address i) (value i m)) m

/-- Work-items that each fill their own indices fill all of them, one after the other. -/
theorem foldlM_eq_fillIn {κ : Type} {items : List κ} {body : κ → Memory → M Memory}
    {cells : κ → List ι}
    (h : ∀ item ∈ items, ∀ m, body item m = v.fillIn address value (cells item) m) (m : Memory) :
    items.foldlM (fun m item => body item m) m =
      v.fillIn address value (items.flatMap cells) m := by
  rw [fillIn, foldlM_flatMap]
  exact foldlM_congr h m

theorem fillIn_id (is : List ι) (m : Memory) :
    (v.fillIn address value is m : Id Memory) = v.fill address value is m :=
  List.idRun_foldlM ..

theorem fillIn_option (is : List ι) (m : Memory) :
    (v.fillIn address value is m : Option Memory) = some (v.fill address value is m) :=
  foldlM_eq_pure (M := Option) (P := fun _ => True) (fun _ _ _ _ => ⟨rfl, trivial⟩) trivial

/-- The store for an index, with its value from a memory. -/
def storeOf (v : View) (address : ι → Nat) (value : ι → Memory → Nat) (m : Memory) (i : ι) :
    Store :=
  ⟨v.buffer, address i, v.layout.elementSize, value i m⟩

theorem fillIn_recorded_cons (i : ι) (is : List ι) (m : Memory) :
    (v.fillIn address value (i :: is) m : Recorded Memory) =
      let rest : Recorded Memory := v.fillIn address value is (v.store m (address i) (value i m))
      ⟨rest.result, v.storeOf address value m i :: rest.stores⟩ := rfl

/-- The stores of a fill whose values do not depend on memory. -/
theorem fillIn_recorded {value : ι → Nat} (is : List ι) (m m' : Memory) :
    (v.fillIn address (fun i _ => value i) is m : Recorded Memory) =
      ⟨v.fill address (fun i _ => value i) is m,
        is.map (v.storeOf address (fun i _ => value i) m')⟩ := by
  induction is generalizing m with
  | nil => rfl
  | cons i is ih =>
    rw [fillIn_recorded_cons, ih]
    rfl

/-- Where elements are separate, the values of all stores are those of the memory before. -/
theorem Separate.fillIn_recorded {inside : ι → Prop} (h : Separate v address value inside)
    {is : List ι} (hn : is.Nodup) (hin : ∀ i ∈ is, inside i) (m : Memory) :
    (v.fillIn address value is m : Recorded Memory) =
      ⟨v.fill address value is m, is.map (v.storeOf address value m)⟩ := by
  induction is generalizing m with
  | nil => rfl
  | cons i is ih =>
    obtain ⟨hi, hn⟩ := List.nodup_cons.1 hn
    have hin' : ∀ k ∈ is, inside k := fun k hk => hin k (List.mem_cons_of_mem _ hk)
    have hrest : is.map (v.storeOf address value (v.store m (address i) (value i m))) =
        is.map (v.storeOf address value m) := by
      apply List.map_congr_left
      intro k hk
      have hne : k ≠ i := fun e => hi (e ▸ hk)
      rw [storeOf, storeOf, h.stable k i (hin' k hk) (hin i List.mem_cons_self) hne]
    rw [fillIn_recorded_cons, ih hn hin', hrest]
    rfl

end Fill

end View

end TileCompute
