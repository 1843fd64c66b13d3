import TileCompute.Proofs.Addition
import TileCompute.Proofs.Multiply
import TileCompute.Proofs.Reshape

/-!
# TileCompute.Proofs.StoresOnce

What a launch does to memory. The loops of a kernel also keep the list of the words they store, in
the order in which they store them; `StoresOnce` says that these words go to the elements of the
destination, to each exactly once, that memory changes by nothing else, and that the work-items may
run in any order: every one of them makes the stores that it would have made alone, on memory as it
was before the launch.

* `Covers.storesOnce`: a launch that covers its destination has the property.
* `kernels_storeOnce`: so has every reshape, multiply and addition that was configured.
-/

namespace TileCompute

/-- Makes stores again, in order. -/
def replay (stores : List Store) (m : Memory) : Memory :=
  stores.foldl (fun m s => m.store s.buffer s.offset s.size s.word) m

/-- Runs work-items in the order of a list. -/
def runOrder (body : WorkItem → Memory → Recorded Memory) (items : List WorkItem) (m : Memory) :
    Recorded Memory :=
  items.foldlM (fun m item => body item m) m

/-- A kernel that stores every element of a tensor once: `run` with the stores it makes, `plain` the
same without them. -/
structure StoresOnce (v : View) (g : Grid) (body : WorkItem → Memory → Recorded Memory)
    (run : Memory → Recorded Memory) (plain : Memory → Memory) : Prop where
  plain_eq : ∀ m, plain m = (run m).result
  run_eq : ∀ m, run m = runOrder body g.items m
  /-- In every order the same bytes result, from the stores that the work-items would make alone. -/
  order : ∀ items : List WorkItem, items.Perm g.items → ∀ m,
    runOrder body items m = ⟨plain m, items.flatMap fun item => (body item m).stores⟩
  /-- Memory changes by the stores and by nothing else. -/
  replayed : ∀ m, plain m = replay (run m).stores m
  /-- A store puts one whole element into the destination. -/
  whole : ∀ m, ∀ s ∈ (run m).stores, s.buffer = v.buffer ∧ s.size = v.layout.elementSize
  /-- The stores go to the elements, each as often. -/
  once : ∀ m, ((run m).stores.map Store.offset).Perm (v.layout.shape.coords.map v.layout.offset)
  /-- No two of them share a byte. -/
  apart : ∀ m, (run m).stores.Pairwise fun s t => v.layout.Apart s.offset t.offset
  /-- Nor do those of different work-items, whatever memory they run on. -/
  disjoint : g.items.Pairwise fun p q => ∀ m m', ∀ s ∈ (body p m).stores, ∀ t ∈ (body q m').stores,
    v.layout.Apart s.offset t.offset
  /-- What was stored to an element inside the buffer is there in the end. -/
  kept : ∀ m, ∀ s ∈ (run m).stores, s.offset + s.size ≤ m.size v.buffer →
    v.load (plain m) s.offset = s.word % 256 ^ s.size
  /-- Bytes of other buffers and bytes of no element stay. -/
  frame : ∀ m b j, (b = v.buffer → ∀ c ∈ v.layout.shape.coords,
      j < v.layout.offset c ∨ v.layout.offset c + v.layout.elementSize ≤ j) →
    (plain m).byte b j = m.byte b j
  size_eq : ∀ m b, (plain m).size b = m.size b

section Covering

variable {v : View} {g : Grid} {body : WorkItem → Memory → Recorded Memory}
  {item : WorkItem → Memory → Memory} {run : Memory → Recorded Memory} {plain : Memory → Memory}
  {value : Cell → Memory → Nat} {cells : WorkItem → List Cell} {owner : Cell → WorkItem}

/-- A fill is its stores, made again. -/
theorem replay_fillIn (is : List Cell) (m : Memory) :
    replay (v.fillIn v.layout.cell value is m : Recorded Memory).stores m =
      v.fill v.layout.cell value is m := by
  induction is generalizing m with
  | nil => rfl
  | cons c is ih => exact ih (v.store m (v.layout.cell c) (value c m))

namespace Covers

variable (h : Covers v g item v.layout.cell value v.layout.HasCell cells owner)

include h

/-- The cells of all work-items together are those of the tensor. -/
theorem perm_cells : (g.items.flatMap cells).Perm v.layout.shape.cells := by
  rw [List.perm_ext_iff_of_nodup h.shares.nodup_all]
  · intro c
    rw [h.shares.mem_all, Layout.hasCell_iff]
  · rw [Shape.cells_eq]
    exact Grid.nodup_items _

theorem pairwise_apart : (g.items.flatMap cells).Pairwise fun c c' =>
    v.layout.Apart (v.layout.cell c) (v.layout.cell c') := by
  apply List.Pairwise.imp_of_mem _ (List.nodup_iff_pairwise_ne.1 h.shares.nodup_all)
  intro c c' hc hc' hne
  exact Layout.cell_apart (h.shares.mem_all.1 hc) (h.shares.mem_all.1 hc') hne

variable (hbody : ∀ i ∈ g.items, ∀ m, body i m = v.fillIn v.layout.cell value (cells i) m)

include hbody

/-- A work-item stores to the cells that it owns. -/
theorem stores_item {i : WorkItem} (hi : i ∈ g.items) (m : Memory) :
    (body i m).stores = (cells i).map (v.storeOf v.layout.cell value m) := by
  have hin : ∀ c ∈ cells i, v.layout.HasCell c := fun c hc => ((h.shares.mem_iff i hi c).1 hc).1
  rw [hbody i hi, h.separate.fillIn_recorded (h.shares.nodup i hi) hin]

/-- Work-items in any order fill the cells that they own, with values from before. -/
theorem runOrder_eq {items : List WorkItem} (hp : items.Perm g.items) (m : Memory) :
    runOrder body items m = ⟨g.launch item m,
      (items.flatMap cells).map (v.storeOf v.layout.cell value m)⟩ := by
  have hflat : (items.flatMap cells).Perm (g.items.flatMap cells) := hp.flatMap_right cells
  have hin : ∀ c ∈ items.flatMap cells, v.layout.HasCell c := fun c hc =>
    h.shares.mem_all.1 (hflat.mem_iff.1 hc)
  have hnodup : (items.flatMap cells).Nodup := hflat.nodup_iff.2 h.shares.nodup_all
  rw [runOrder, View.foldlM_eq_fillIn fun i hi => hbody i (hp.mem_iff.1 hi),
    h.separate.fillIn_recorded hnodup hin, h.separate.fill_perm hflat hin, ← h.launch_eq]

/-- Work-items that own different cells store apart from each other. -/
theorem pairwise_disjoint : g.items.Pairwise fun p q => ∀ m m', ∀ s ∈ (body p m).stores,
    ∀ t ∈ (body q m').stores, v.layout.Apart s.offset t.offset := by
  apply List.Pairwise.imp_of_mem _ h.shares.pairwise
  intro p q hp hq hpq m m' s hs t ht
  rw [h.stores_item hbody hp] at hs
  rw [h.stores_item hbody hq] at ht
  obtain ⟨c, hc, rfl⟩ := List.mem_map.1 hs
  obtain ⟨c', hc', rfl⟩ := List.mem_map.1 ht
  exact Layout.cell_apart ((h.shares.mem_iff p hp c).1 hc).1 ((h.shares.mem_iff q hq c').1 hc').1
    (hpq c hc c' hc')

/-- A launch that covers the cells of a tensor stores every element once. -/
theorem storesOnce (hrun : ∀ m, run m = runOrder body g.items m)
    (hplain : ∀ m, plain m = g.launch item m) : StoresOnce v g body run plain := by
  have hall (m : Memory) : run m = ⟨g.launch item m,
      (g.items.flatMap cells).map (v.storeOf v.layout.cell value m)⟩ := by
    rw [hrun, h.runOrder_eq hbody (.refl _)]
  refine ⟨?plain_eq, hrun, ?order, ?replayed, ?whole, ?once, ?apart, h.pairwise_disjoint hbody,
    ?kept, ?frame, ?size_eq⟩
  case plain_eq =>
    intro m
    rw [hplain, hall]
  case order =>
    intro items hp m
    rw [h.runOrder_eq hbody hp, hplain, List.map_flatMap]
    congr 1
    exact List.flatMap_congr fun i hi => (h.stores_item hbody (hp.mem_iff.1 hi) m).symm
  case replayed =>
    intro m
    rw [hrun, runOrder, View.foldlM_eq_fillIn hbody, replay_fillIn, hplain, h.launch_eq]
  case whole =>
    intro m s hs
    rw [hall] at hs
    obtain ⟨c, -, rfl⟩ := List.mem_map.1 hs
    exact ⟨rfl, rfl⟩
  case once =>
    intro m
    rw [hall, Layout.offsets_eq, List.map_map]
    exact h.perm_cells.map _
  case apart =>
    intro m
    rw [hall, List.pairwise_map]
    exact h.pairwise_apart
  case kept =>
    intro m s hs hfit
    rw [hall] at hs
    obtain ⟨c, hc, rfl⟩ := List.mem_map.1 hs
    rw [hplain]
    exact h.load_launch (h.shares.mem_all.1 hc) hfit
  case frame =>
    intro m b j hout
    rw [hplain]
    apply h.byte_launch_other
    intro hb c hc
    obtain ⟨pos, hpos, rfl⟩ := List.mem_map.1 (Layout.hasCell_iff.1 hc)
    rw [← Layout.offset_eq_cell]
    exact hout hb pos hpos
  case size_eq =>
    intro m b
    rw [hplain, h.size_launch]

end Covers
end Covering

namespace Reshape

theorem storesOnce {r : Reshape} (hr : r.Accepted) {source target : BufferId}
    (hne : source ≠ target) :
    StoresOnce ⟨target, r.target⟩ r.grid (r.runItemIn source target) (r.runIn source target)
      (r.run source target) :=
  (covers hr hne).storesOnce
    (fun _ hitem m => runItemIn_eq (Monitor.grants_recorded _) hr hitem m)
    (fun m => runIn_eq (Monitor.grants_recorded _) hr m) (run_eq_launch source target)

end Reshape

namespace Multiply

/-- In place of what a work-item computed before it stored anything, each value may be computed when
it is stored. -/
theorem runItemIn_eq_fillIn {k : Multiply} (hk : k.Accepted) {α : Type} [Element α]
    {a b target : BufferId} (ha : a ≠ target) (hb : b ≠ target) {item : WorkItem}
    (hitem : item ∈ k.grid.items) (m : Memory) :
    k.runItemIn α a b target item m =
      (View.fillIn ⟨target, k.target⟩ k.target.cell (k.value α a b) (k.cells item) m :
        Recorded Memory) := by
  have h := covers (α := α) hk ha hb
  have hin : ∀ c ∈ k.cells item, k.target.HasCell c := fun c hc =>
    ((h.shares.mem_iff item hitem c).1 hc).1
  rw [runItemIn_eq (Monitor.grants_recorded _) hk hitem, View.fillIn_recorded _ m m,
    h.separate.fillIn_recorded (h.shares.nodup item hitem) hin,
    View.fill_beforehand (value_store ha hb)]
  rfl

theorem storesOnce {k : Multiply} (hk : k.Accepted) {α : Type} [Element α]
    (h : Dispatched k.target.dataType.kind α) {a b target : BufferId} (ha : a ≠ target)
    (hb : b ≠ target) :
    StoresOnce ⟨target, k.target⟩ k.grid (k.runItemIn α a b target) (k.runIn a b target)
      (k.run a b target) :=
  (covers hk ha hb).storesOnce (fun _ hitem m => runItemIn_eq_fillIn hk ha hb hitem m)
    (fun m => (runIn_eq h m).trans (runAsIn_eq (Monitor.grants_recorded _) hk m))
    (run_eq h a b target)

end Multiply

namespace Addition

theorem storesOnce {k : Addition} {α : Type} [Element α]
    (h : Dispatched k.target.dataType.kind α) {source target : BufferId} (hne : source ≠ target) :
    StoresOnce ⟨target, k.target⟩ k.grid (k.runItemIn α source target) (k.runIn source target)
      (k.run source target) :=
  (covers hne).storesOnce (fun _ hitem m => runItemIn_eq (Monitor.grants_recorded _) hitem m)
    (fun m => (runIn_eq h m).trans (runAsIn_eq (Monitor.grants_recorded _) m))
    (run_eq h source target)

end Addition

end TileCompute
