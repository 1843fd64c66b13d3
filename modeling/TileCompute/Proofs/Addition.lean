import TileCompute.Kernel.Addition
import TileCompute.Proofs.Addressable
import TileCompute.Proofs.Coverage
import TileCompute.Proofs.Elements
import TileCompute.Proofs.Watched

/-!
# TileCompute.Proofs.Addition

What the addition kernel computes. It updates its destination in place, so the value of a cell
reads the cell itself; every other cell and the source lie apart from the store. An addition whose
operands were accepted covers its destination, each cell once.

* `Addition.configure_eq_ok`: the operands that are accepted.
* `Addition.lanes_eq`: the lanes of a work-item are its cells.
* `Addition.runItemIn_eq`, `Addition.runAsIn_eq`: a work-item fills its cells, a run all of them.
* `Addition.covers`: the launch as a fill of the destination.
* `Addition.load_run`: what a cell holds after a run.
-/

namespace TileCompute

namespace Addition

structure Accepted (k : Addition) : Prop where
  dataType : k.source.dataType = k.target.dataType
  kind : k.source.dataType.kind ≠ .s32
  width : k.source.dim 0 = k.target.dim 0
  height : k.source.dim 1 = k.target.dim 1
  batches : k.source.batches = k.target.batches

theorem check_eq_ok {k : Addition} {u : Unit} : k.check = .ok u ↔ k.Accepted := by
  simp only [check, reject_eq_ok, reject_last_eq_ok, pure_eq_ok, ne_eq, not_or, Decidable.not_not,
    and_true]
  constructor
  · rintro ⟨h1, h2, h3, h4, h5⟩
    exact ⟨h1, h2, h3, h4, h5⟩
  · rintro ⟨h1, h2, h3, h4, h5⟩
    exact ⟨h1, h2, h3, h4, h5⟩

theorem configure_eq_ok {s t : Layout} {beta : Binary32} {k : Addition} :
    configure s t beta = .ok k ↔ k = ⟨s, t, beta⟩ ∧ k.Accepted := by
  simp only [configure, bind_eq_ok, check_eq_ok, pure_eq_ok, exists_const]
  constructor
  · rintro ⟨h, rfl⟩
    exact ⟨rfl, h⟩
  · rintro ⟨rfl, h⟩
    exact ⟨h, rfl⟩

def cells (k : Addition) (item : WorkItem) : List Cell :=
  Grid.blockCells ⟨k.target.dim 0, k.target.dim 1, k.target.batches⟩ ⟨k.width, 1, 1⟩ item

def owner (k : Addition) (c : Cell) : WorkItem := Grid.blockOwner ⟨k.width, 1, 1⟩ c

def laneOf (k : Addition) (c : Cell) : Lane := ⟨k.target.cell c, k.source.cell c⟩

variable {k : Addition}

theorem width_pos (k : Addition) : 0 < k.width := k.target.dataType.kind.vectorWidth_pos

theorem lanes_eq {item : WorkItem} (hitem : item ∈ k.grid.items) :
    k.lanes item = (k.cells item).map k.laneOf := by
  obtain ⟨-, hy, -⟩ := (Grid.mem_covering k.width_pos Nat.one_pos rfl).1 hitem
  simp only [Nat.mul_one] at hy
  have hrow : min 1 (k.target.dim 1 - item.y) = 1 := by omega
  have hwidth : min (item.x * k.width + k.width) (k.target.dim 0) - item.x * k.width =
      min k.width (k.target.dim 0 - item.x * k.width) := by omega
  simp only [lanes, cells, Grid.blockCells, hrow, hwidth, List.range_one, List.flatMap_cons,
    List.flatMap_nil, List.append_nil, List.map_map, List.range'_eq_map_range, Nat.mul_one,
    Nat.add_zero]
  rfl

theorem shares (k : Addition) : Shares k.grid k.target.HasCell k.cells k.owner :=
  Grid.shares_covering k.width_pos Nat.one_pos rfl

section Run

variable {α : Type} [Element α] {source target : BufferId} {m : Memory}

/-- An element of the result: the old one plus the factor times that of the source. -/
def element (k : Addition) (α : Type) [Element α] (source target : BufferId) (c : Cell)
    (m : Memory) : α :=
  let frac := k.target.dataType.frac
  Element.scaledAdd frac (Element.ofWord (View.load ⟨target, k.target⟩ m (k.target.cell c)))
    (Element.ofWord (View.load ⟨source, k.source⟩ m (k.source.cell c)))
    (Element.ofBinary32 frac k.beta)

def value (k : Addition) (α : Type) [Element α] (source target : BufferId) (c : Cell)
    (m : Memory) : Nat :=
  Element.toWord (k.element α source target c m)

/-- Operands that the machine can address, at a position that products can be shifted by. -/
def InRange (k : Addition) : Prop :=
  k.source.Addressable ∧ k.target.Addressable ∧ k.target.dataType.frac < 64

instance (k : Addition) : Decidable k.InRange := inferInstanceAs (Decidable (_ ∧ _ ∧ _))

theorem inWords_grid (hin : k.InRange) : InWords k.grid.numbers :=
  Grid.inWords_numbers hin.2.1 (Nat.mul_le_mul (ceilDiv_le k.width_pos) (ceilDiv_le Nat.one_pos))
    (ceilDiv_le Nat.one_pos)

theorem inWords_vector (hin : k.InRange) {item : WorkItem} (hitem : item ∈ k.grid.items) :
    InWords [item.x * k.width + k.width] := by
  obtain ⟨hx, hy, hz⟩ := (Grid.mem_covering k.width_pos Nat.one_pos rfl).1 hitem
  simp only [Nat.mul_one] at hx hy hz
  have hlt := hin.2.1.width_lt hy hz
  have hwidth : k.width ≤ 16 := k.target.dataType.kind.vectorWidth_le
  rw [inWords_singleton]
  omega

section Watched

variable {M : Type → Type} [Monitor M] [LawfulMonad M]

theorem runLaneIn_eq (hM : Monitor.Grants M (k.Accepted ∧ k.InRange)) {c : Cell}
    (hc : k.target.HasCell c) (m : Memory) :
    k.runLaneIn α source target (k.laneOf c) m =
      (View.putIn ⟨target, k.target⟩ m (k.target.cell c) (k.value α source target c m) :
        M Memory) := by
  have hsource : k.Accepted ∧ k.InRange →
      k.source.cell c + k.source.elementSize ≤ k.source.byteSize := fun ⟨hk, _⟩ =>
    Layout.cell_add_le ⟨hk.width ▸ hc.1, hk.height ▸ hc.2.1, hk.batches ▸ hc.2.2⟩
  have hload := View.loadIn_eq (v := ⟨target, k.target⟩) hM (fun _ => Layout.cell_add_le hc) m
  have hload' := View.loadIn_eq (v := ⟨source, k.source⟩) hM hsource m
  simp only [runLaneIn, laneOf, hload, hload', pure_bind]
  exact View.storeIn_eq hM (fun _ => Layout.cell_add_le hc) m _

theorem runItemIn_eq (hM : Monitor.Grants M (k.Accepted ∧ k.InRange)) {item : WorkItem}
    (hitem : item ∈ k.grid.items) (m : Memory) :
    k.runItemIn α source target item m =
      (View.fillIn ⟨target, k.target⟩ k.target.cell (k.value α source target) (k.cells item) m :
        M Memory) := by
  rw [runItemIn, hM.bind fun hk => inWords_vector hk.2 hitem, lanes_eq hitem, List.foldlM_map]
  exact foldlM_congr
    (fun c hc m => runLaneIn_eq hM ((k.shares.mem_iff item hitem c).1 hc).1 m) m

theorem runAsIn_eq (hM : Monitor.Grants M (k.Accepted ∧ k.InRange)) (m : Memory) :
    k.runAsIn α source target m =
      (k.grid.items.foldlM (fun m item => k.runItemIn α source target item m) m : M Memory) := by
  rw [runAsIn, hM.bind fun hk => hk.2.2.2]
  exact Grid.launchIn_eq hM (fun hk => inWords_grid hk.2) _ m

omit [LawfulMonad M] in
theorem runIn_eq (h : Dispatched k.target.dataType.kind α) (m : Memory) :
    k.runIn source target m = (k.runAsIn α source target m : M Memory) := by
  unfold runIn
  generalize k.target.dataType.kind = kind at h
  cases h <;> rfl

end Watched

theorem runItem_eq_fill {item : WorkItem} (hitem : item ∈ k.grid.items) (m : Memory) :
    k.runItem α source target item m =
      View.fill ⟨target, k.target⟩ k.target.cell (k.value α source target) (k.cells item) m :=
  (runItemIn_eq (M := Id) (Monitor.grants_id _) hitem m).trans (View.fillIn_id ..)

theorem run_eq (h : Dispatched k.target.dataType.kind α) (source target : BufferId) (m : Memory) :
    k.run source target m = k.grid.launch (k.runItem α source target) m :=
  (congrArg Id.run (runIn_eq (M := Id) h m)).trans (Grid.launchIn_id ..)

theorem runItem_eq (k : Addition) (α : Type) [Element α] (source target : BufferId)
    (item : WorkItem) : k.runItem α source target item =
      runItems (k.lanes item) fun lane m => View.store ⟨target, k.target⟩ m lane.target
        (Element.toWord (Element.scaledAdd k.target.dataType.frac
          (Element.ofWord (View.load ⟨target, k.target⟩ m lane.target) : α)
          (Element.ofWord (View.load ⟨source, k.source⟩ m lane.source))
          (Element.ofBinary32 k.target.dataType.frac k.beta))) :=
  funext fun _ => List.idRun_foldlM ..

theorem run_of_s32 (h : k.target.dataType.kind = .s32) (source target : BufferId) :
    k.run source target = id := by
  unfold run runIn
  rw [h]
  rfl

/-- The update of one cell reads no other cell of the destination. Where a tensor is added to itself,
both layouts must be the same. -/
theorem separate_aligned (h : source = target → k.source = k.target) :
    View.Separate ⟨target, k.target⟩ k.target.cell (k.value α source target)
      k.target.HasCell where
  apart _ _ hc hc' hcc := Layout.cell_apart hc hc' hcc
  stable c c' hc hc' hcc m w := by
    have hap : k.target.Apart (k.target.cell c') (k.target.cell c) :=
      Layout.cell_apart hc' hc hcc.symm
    unfold value element
    rw [View.load_store_apart w hap]
    by_cases hst : source = target
    · subst hst
      rw [h rfl, View.load_store_apart w hap]
    · rw [View.load_store_buffer w hst]

theorem covers_aligned (h : source = target → k.source = k.target) :
    Covers ⟨target, k.target⟩ k.grid (k.runItem α source target) k.target.cell
      (k.value α source target) k.target.HasCell k.cells k.owner where
  shares := k.shares
  separate := separate_aligned h
  body_eq _ hitem m := runItem_eq_fill hitem m

theorem covers (hne : source ≠ target) :
    Covers ⟨target, k.target⟩ k.grid (k.runItem α source target) k.target.cell
      (k.value α source target) k.target.HasCell k.cells k.owner :=
  covers_aligned fun he => absurd he hne

theorem load_run_aligned (h : Dispatched k.target.dataType.kind α)
    (aligned : source = target → k.source = k.target) (hm : View.Fits ⟨target, k.target⟩ m)
    {c : Cell} (hc : k.target.HasCell c) :
    View.load ⟨target, k.target⟩ (k.run source target m) (k.target.cell c) =
      Element.toWord (k.element α source target c m) := by
  have hfit := View.cell_fits (v := ⟨target, k.target⟩) hm hc
  rw [run_eq h, (covers_aligned aligned).load_launch hc hfit]
  exact Nat.mod_eq_of_lt (h.toWord_lt _)

theorem load_run (h : Dispatched k.target.dataType.kind α) (hne : source ≠ target)
    (hm : View.Fits ⟨target, k.target⟩ m) {c : Cell} (hc : k.target.HasCell c) :
    View.load ⟨target, k.target⟩ (k.run source target m) (k.target.cell c) =
      Element.toWord (k.element α source target c m) :=
  load_run_aligned h (fun he => absurd he hne) hm hc

/-- Other buffers stay, also where a tensor is added to itself. -/
theorem byte_run_other (h : Dispatched k.target.dataType.kind α)
    (aligned : source = target → k.source = k.target) {b : BufferId} (hb : b ≠ target) (j : Nat) :
    (k.run source target m).byte b j = m.byte b j := by
  rw [run_eq h, (covers_aligned aligned).byte_launch_buffer hb]

/-- The sum depends on the elements of the destination and the bytes of the source alone. -/
theorem words_run_congr {m' : Memory} (h : Dispatched k.target.dataType.kind α)
    (hne : source ≠ target) (hm : View.Fits ⟨target, k.target⟩ m)
    (hm' : View.Fits ⟨target, k.target⟩ m')
    (hcells : ∀ c, k.target.HasCell c → View.load ⟨target, k.target⟩ m (k.target.cell c) =
      View.load ⟨target, k.target⟩ m' (k.target.cell c))
    (hbytes : ∀ j, m.byte source j = m'.byte source j) :
    View.words ⟨target, k.target⟩ (k.run source target m) =
      View.words ⟨target, k.target⟩ (k.run source target m') := by
  apply View.words_congr
  intro c hc
  have hsource := View.load_congr (v := ⟨source, k.source⟩) hbytes (k.source.cell c)
  rw [load_run h hne hm hc, load_run h hne hm' hc, element, element, hcells c hc, hsource]

end Run

end Addition

end TileCompute
