import TileCompute.Proofs.Strips
import TileCompute.Proofs.Watched

/-!
# TileCompute.Proofs.Launches

What a launch visits. A launch is carried out row by row: the rows of all planes are numbered, and
the number of a row is divided by the rows of a plane to find the plane and the row inside it. A
launch over the elements of a tensor divides once more, by the extent along `z`. `Grid.launch?` and
`Shape.launch?` are these launches with every check: they give nothing for a divisor of zero or a
count that does not fit in a machine word. `RunsOnce` says that a launch calls its body once for
every index and fails only where the body does.

* `Grid.launch?_eq`, `Shape.launch?_eq`: a launch whose counts fit never fails by itself.
* `Grid.existsUnique_inBlock`: the blocks of a covering grid take every element once.
* `launches_cover`: launches over grids and over tensors visit everything once, and so do blocks.
-/

namespace TileCompute

namespace Grid

/-- A launch with every check. -/
def launch? {σ : Type} (g : Grid) (body : WorkItem → σ → Option σ) (s : σ) : Option σ :=
  g.launchIn body s

theorem launch?_eq {σ : Type} {g : Grid} (hg : InWords g.numbers)
    (body : WorkItem → σ → Option σ) (s : σ) :
    g.launch? body s = g.items.foldlM (fun s item => body item s) s :=
  launchIn_eq (Monitor.grants_option hg) id body s

/-- The elements of a work-item's block, also those past the end. -/
def InBlock (block item c : WorkItem) : Prop :=
  (item.x * block.x ≤ c.x ∧ c.x < item.x * block.x + block.x) ∧
    (item.y * block.y ≤ c.y ∧ c.y < item.y * block.y + block.y) ∧
    item.z * block.z ≤ c.z ∧ c.z < item.z * block.z + block.z

def Inside (extent c : WorkItem) : Prop := c.x < extent.x ∧ c.y < extent.y ∧ c.z < extent.z

section Blocks

variable {extent block item c : WorkItem} (hx : 0 < block.x) (hy : 0 < block.y) (hz : 0 < block.z)
include hx hy hz

theorem inBlock_iff : InBlock block item c ↔
    item = ⟨c.x / block.x, c.y / block.y, c.z / block.z⟩ := by
  rw [InBlock, ← div_eq_iff_block hx, ← div_eq_iff_block hy, ← div_eq_iff_block hz]
  obtain ⟨x, y, z⟩ := item
  simp only [WorkItem.mk.injEq, eq_comm]

theorem existsUnique_inBlock (hc : Inside extent c) :
    ∃! item, item ∈ (covering extent block).items ∧ InBlock block item c := by
  simp only [inBlock_iff hx hy hz]
  refine ⟨_, ⟨?_, rfl⟩, fun item h => h.2⟩
  rw [mem_covering_iff hx hy hz]
  exact ⟨(Nat.div_mul_le_self ..).trans_lt hc.1, (Nat.div_mul_le_self ..).trans_lt hc.2.1,
    (Nat.div_mul_le_self ..).trans_lt hc.2.2⟩

/-- The first element of a block is inside. -/
theorem exists_inBlock (hitem : item ∈ (covering extent block).items) :
    ∃ c, Inside extent c ∧ InBlock block item c := by
  refine ⟨⟨item.x * block.x, item.y * block.y, item.z * block.z⟩,
    (mem_covering_iff hx hy hz).1 hitem, ?_⟩
  simp only [InBlock, Nat.le_refl, Nat.lt_add_right_iff_pos, hx, hy, hz, and_self]

end Blocks

end Grid

namespace Shape

/-- A launch over the elements with every check. -/
def launch? {σ : Type} (s : Shape) (body : Site → σ → Option σ) (state : σ) : Option σ :=
  s.launchIn body state

/-- The numbers formed by a launch over the elements. -/
def launchNumbers (s : Shape) : List Nat := s.gridNumbers ++ s.grid.numbers

theorem launch?_eq {σ : Type} {s : Shape} (hs : InWords s.launchNumbers)
    (body : Site → σ → Option σ) (state : σ) :
    s.launch? body state = s.sites.foldlM (fun state site => body site state) state := by
  obtain ⟨hcount, hgrid⟩ := inWords_append.1 hs
  have hM := Monitor.grants_option hgrid
  rw [launch?, launchIn, hM.bind fun _ => hcount, Grid.launchIn_eq hM id, sites, List.foldlM_map]
  apply foldlM_congr
  intro item hitem state
  have hz : s.z ≠ 0 := by
    have hlt : item.z < s.z * s.upperSize 3 := (Grid.mem_items.1 hitem).2.2
    rintro hz
    simp [hz] at hlt
  exact hM.bind (fun _ => hz) _

end Shape

/-- A launch over the indices inside: its body runs once at each of them and nowhere else, and the
checked launch calls its body likewise and does not fail by itself. -/
def RunsOnce {ι : Type} (inside : ι → Prop) (launch : ∀ σ : Type, (ι → σ → σ) → σ → σ)
    (launch? : ∀ σ : Type, (ι → σ → Option σ) → σ → Option σ) : Prop :=
  ∃ order : List ι, order.Nodup ∧ (∀ i, i ∈ order ↔ inside i) ∧
    (∀ σ body s, launch σ body s = runItems order body s) ∧
    ∀ σ body s, launch? σ body s = order.foldlM (fun s i => body i s) s

/-- Launches over a grid run their body once at every point, if the points can be counted in a
machine word. The blocks of a covering grid take every element once and none of them is empty.
Launches over a tensor run their body once at every element, if the elements can be counted. -/
theorem launches_cover :
    (∀ g : Grid, InWords g.numbers →
      RunsOnce (fun i : WorkItem => i.x < g.x ∧ i.y < g.y ∧ i.z < g.z)
        (fun _ => g.launch) (fun _ => g.launch?)) ∧
    (∀ extent block : WorkItem, 0 < block.x → 0 < block.y → 0 < block.z →
      ∃ g, Grid.covering? extent block = some g ∧
        (∀ c, Grid.Inside extent c → ∃! item, item ∈ g.items ∧ Grid.InBlock block item c) ∧
        ∀ item ∈ g.items, ∃ c, Grid.Inside extent c ∧ Grid.InBlock block item c) ∧
    ∀ s : Shape, InWords s.launchNumbers → RunsOnce
      (fun t : Site => (t.x < s.x ∧ t.y < s.y) ∧ t.z < s.z ∧ t.w < s.upperSize 3)
      (fun _ => s.launch) (fun _ => s.launch?) := by
  refine ⟨fun g hg => ?_, fun extent block hx hy hz => ?_, fun s hs => ?_⟩
  · exact ⟨g.items, g.nodup_items, fun _ => Grid.mem_items, fun _ _ _ => rfl,
      fun _ => Grid.launch?_eq hg⟩
  · exact ⟨_, if_neg (by omega), fun c => Grid.existsUnique_inBlock hx hy hz,
      fun item => Grid.exists_inBlock hx hy hz⟩
  · exact ⟨s.sites, s.nodup_sites, fun _ => Shape.mem_sites, fun _ _ _ => rfl,
      fun _ => Shape.launch?_eq hs⟩

/-- Blocks of four by four over ten by seven elements, clipped along both axes, a grid of the same
extents, and a tensor without planes, over which nothing runs. -/
theorem launches_cover_clipped :
    let block : WorkItem := ⟨4, 4, 1⟩
    (0 < block.x ∧ 0 < block.y ∧ 0 < block.z) ∧
      Grid.covering? ⟨10, 7, 2⟩ block = some ⟨3, 2, 2⟩ ∧
      (∃! item, item ∈ (⟨3, 2, 2⟩ : Grid).items ∧ Grid.InBlock block item ⟨9, 6, 1⟩) ∧
      (∃ order : List WorkItem, order.Nodup ∧
        ∀ (σ : Type) (body : WorkItem → σ → Option σ) (s : σ),
          (⟨10, 7, 2⟩ : Grid).launch? body s = order.foldlM (fun s i => body i s) s) ∧
      ∀ (σ : Type) (body : Site → σ → Option σ) (s : σ),
        (Shape.ofList [3, 2, 0, 4]).launch? body s = some s := by
  intro block
  have hblock : 0 < block.x ∧ 0 < block.y ∧ 0 < block.z := by decide
  obtain ⟨hgrid, hcover, hshape⟩ := launches_cover
  obtain ⟨g, hg, hunique, -⟩ := hcover ⟨10, 7, 2⟩ block hblock.1 hblock.2.1 hblock.2.2
  obtain rfl : g = ⟨3, 2, 2⟩ := Option.some.inj (hg.symm.trans (by decide))
  obtain ⟨items, hnodup, -, -, hitems⟩ := hgrid ⟨10, 7, 2⟩ (by decide)
  obtain ⟨order, -, hmem, -, hrun⟩ := hshape (Shape.ofList [3, 2, 0, 4]) (by decide)
  have hnone : order = [] := List.eq_nil_iff_forall_not_mem.2 fun t ht =>
    absurd ((hmem t).1 ht).2.1 (Nat.not_lt_zero _)
  refine ⟨hblock, hg, hunique _ ⟨by decide, by decide, by decide⟩, ⟨items, hnodup, hitems⟩,
    fun σ body s => ?_⟩
  exact (hrun σ body s).trans (by rw [hnone]; rfl)

/-- A grid without planes whose rows hold more work-items than a word can count: nothing is to run,
but the launch fails. -/
theorem launch_fails_for_wide_rows :
    let g : Grid := ⟨2 ^ 63, 2, 0⟩
    ¬RunsOnce (fun i : WorkItem => i.x < g.x ∧ i.y < g.y ∧ i.z < g.z)
      (fun _ => g.launch) (fun _ => g.launch?) := by
  rintro g ⟨order, -, hmem, -, hrun⟩
  have hnone : order = [] := List.eq_nil_iff_forall_not_mem.2 fun i hi =>
    absurd ((hmem i).1 hi).2.2 (Nat.not_lt_zero _)
  have hfails : g.launch? (fun _ s => some s) () = none := by decide +kernel
  have hruns := hfails.symm.trans (hrun Unit _ ())
  rw [hnone] at hruns
  cases hruns

end TileCompute
