import TileCompute.Proofs.Fill
import TileCompute.Proofs.Radix

/-!
# TileCompute.Proofs.Coverage

Launches that fill a tensor. The work-items of a grid share out a set of indices (`Shares`): each
index belongs to exactly one of them, its owner. A launch *covers* the set (`Covers`) when every
work-item fills its own indices and the elements are separate. Then the launch as a whole is one
fill of the set, whatever order the work-items run in.

* `Shares.mem_all`, `Shares.nodup_all`: every index inside is handled, and only once.
* `Grid.shares_covering`: blocks clipped at the edges share out a box.
* `Covers.load_launch`: what an element holds after the launch.
* `Covers.byte_launch_other`: bytes of no element stay.
-/

namespace TileCompute

variable {ι : Type}

/-- A rectangle of indices lists none twice if no two of its points name the same one. -/
theorem nodup_rectangle {ks is : List Nat} {f : Nat → Nat → ι} (hk : ks.Nodup) (hi : is.Nodup)
    (inj : ∀ k ∈ ks, ∀ k' ∈ ks, ∀ i ∈ is, ∀ i' ∈ is, f k i = f k' i' → k = k' ∧ i = i') :
    (ks.flatMap fun k => is.map (f k)).Nodup := by
  rw [List.nodup_iff_pairwise_ne, List.pairwise_flatMap]
  constructor
  · intro k hk
    rw [List.pairwise_map]
    apply List.Pairwise.imp_of_mem _ (List.nodup_iff_pairwise_ne.1 hi)
    intro i i' hi hi' hne he
    exact hne (inj k hk k hk i hi i' hi' he).2
  · apply List.Pairwise.imp_of_mem _ (List.nodup_iff_pairwise_ne.1 hk)
    intro k k' hk hk' hne x hx y hy he
    obtain ⟨i, hi, rfl⟩ := List.mem_map.1 hx
    obtain ⟨i', hi', rfl⟩ := List.mem_map.1 hy
    exact hne (inj k hk k' hk' i hi i' hi' he).1

/-- Work-items that share out the indices inside: each belongs to its owner alone. -/
structure Shares (g : Grid) (inside : ι → Prop) (cells : WorkItem → List ι)
    (owner : ι → WorkItem) : Prop where
  nodup : ∀ item ∈ g.items, (cells item).Nodup
  mem_iff : ∀ item ∈ g.items, ∀ i, i ∈ cells item ↔ inside i ∧ owner i = item
  owner_mem : ∀ i, inside i → owner i ∈ g.items

namespace Shares

variable {g : Grid} {inside : ι → Prop} {cells : WorkItem → List ι} {owner : ι → WorkItem}

theorem mem_all (h : Shares g inside cells owner) {i : ι} :
    i ∈ g.items.flatMap cells ↔ inside i := by
  rw [List.mem_flatMap]
  constructor
  · rintro ⟨item, hitem, hi⟩
    exact ((h.mem_iff item hitem i).1 hi).1
  · intro hi
    exact ⟨owner i, h.owner_mem i hi, (h.mem_iff _ (h.owner_mem i hi) i).2 ⟨hi, rfl⟩⟩

theorem pairwise (h : Shares g inside cells owner) :
    g.items.Pairwise fun a b => ∀ i ∈ cells a, ∀ j ∈ cells b, i ≠ j := by
  apply List.Pairwise.imp_of_mem _ (List.nodup_iff_pairwise_ne.1 g.nodup_items)
  intro a b ha hb hab i hi j hj hij
  have h1 := ((h.mem_iff a ha i).1 hi).2
  have h2 := ((h.mem_iff b hb j).1 hj).2
  exact hab (by rw [← h1, ← h2, hij])

theorem nodup_all (h : Shares g inside cells owner) : (g.items.flatMap cells).Nodup := by
  rw [List.nodup_iff_pairwise_ne, List.pairwise_flatMap]
  exact ⟨fun item hitem => List.nodup_iff_pairwise_ne.1 (h.nodup item hitem), h.pairwise⟩

end Shares

namespace Grid

def blockCells (extent block item : WorkItem) : List WorkItem :=
  (List.range (min block.y (extent.y - item.y * block.y))).flatMap fun i =>
    (List.range (min block.x (extent.x - item.x * block.x))).map fun j =>
      ⟨item.x * block.x + j, item.y * block.y + i, item.z⟩

def blockOwner (block c : WorkItem) : WorkItem := ⟨c.x / block.x, c.y / block.y, c.z⟩

variable {extent block : WorkItem}

theorem mem_blockCells {item c : WorkItem} : c ∈ blockCells extent block item ↔
    (item.x * block.x ≤ c.x ∧ c.x < item.x * block.x + block.x ∧ c.x < extent.x) ∧
      (item.y * block.y ≤ c.y ∧ c.y < item.y * block.y + block.y ∧ c.y < extent.y) ∧
      c.z = item.z := by
  simp only [blockCells, List.mem_flatMap, List.mem_map, List.mem_range]
  constructor
  · rintro ⟨i, hi, j, hj, rfl⟩
    dsimp only
    omega
  · rintro ⟨hx, hy, hz⟩
    refine ⟨c.y - item.y * block.y, by omega, c.x - item.x * block.x, by omega, ?_⟩
    rw [Nat.add_sub_cancel' hx.1, Nat.add_sub_cancel' hy.1, ← hz]

/-- The work-items of a covering grid are those whose blocks begin inside. -/
theorem mem_covering_iff {item : WorkItem} (hx : 0 < block.x) (hy : 0 < block.y)
    (hz : 0 < block.z) : item ∈ (covering extent block).items ↔
      item.x * block.x < extent.x ∧ item.y * block.y < extent.y ∧ item.z * block.z < extent.z := by
  rw [mem_items, covering, lt_ceilDiv_iff hx, lt_ceilDiv_iff hy, lt_ceilDiv_iff hz]

theorem mem_covering {item : WorkItem} (hx : 0 < block.x) (hy : 0 < block.y) (hz : block.z = 1) :
    item ∈ (covering extent block).items ↔
      item.x * block.x < extent.x ∧ item.y * block.y < extent.y ∧ item.z < extent.z := by
  rw [mem_covering_iff hx hy (hz ▸ Nat.one_pos), hz, Nat.mul_one]

/-- Blocks clipped at the edges share out the points of a box. -/
theorem shares_covering (hx : 0 < block.x) (hy : 0 < block.y) (hz : block.z = 1) :
    Shares (covering extent block) (fun c => c.x < extent.x ∧ c.y < extent.y ∧ c.z < extent.z)
      (blockCells extent block) (blockOwner block) where
  nodup item _ := by
    apply nodup_rectangle List.nodup_range List.nodup_range
    intro i _ i' _ j _ j' _ he
    simp only [WorkItem.mk.injEq] at he
    omega
  mem_iff item hitem c := by
    obtain ⟨-, -, hiz⟩ := (mem_covering hx hy hz).1 hitem
    rw [mem_blockCells, blockOwner]
    constructor
    · rintro ⟨⟨hx1, hx2, hx3⟩, ⟨hy1, hy2, hy3⟩, hcz⟩
      refine ⟨⟨hx3, hy3, hcz ▸ hiz⟩, ?_⟩
      rw [(div_eq_iff_block hx).2 ⟨hx1, hx2⟩, (div_eq_iff_block hy).2 ⟨hy1, hy2⟩, hcz]
    · rintro ⟨⟨hcx, hcy, -⟩, rfl⟩
      obtain ⟨hx1, hx2⟩ := (div_eq_iff_block (i := c.x) hx).1 rfl
      obtain ⟨hy1, hy2⟩ := (div_eq_iff_block (i := c.y) hy).1 rfl
      exact ⟨⟨hx1, hx2, hcx⟩, ⟨hy1, hy2, hcy⟩, rfl⟩
  owner_mem c := by
    rintro ⟨hcx, hcy, hcz⟩
    exact (mem_covering hx hy hz).2 ⟨Nat.lt_of_le_of_lt (Nat.div_mul_le_self ..) hcx,
      Nat.lt_of_le_of_lt (Nat.div_mul_le_self ..) hcy, hcz⟩

end Grid

theorem runItems_cons {σ : Type} (item : ι) (items : List ι) (body : ι → σ → σ) (s : σ) :
    runItems (item :: items) body s = runItems items body (body item s) := rfl

/-- Work-items that each fill their own indices fill all of them, one after the other. -/
theorem runItems_eq_fill {κ : Type} {v : View} {address : ι → Nat} {value : ι → Memory → Nat}
    {items : List κ} {body : κ → Memory → Memory} {cells : κ → List ι}
    (h : ∀ item ∈ items, ∀ m, body item m = v.fill address value (cells item) m) (m : Memory) :
    runItems items body m = v.fill address value (items.flatMap cells) m := by
  induction items generalizing m with
  | nil => rfl
  | cons item items ih =>
    rw [runItems_cons, ih (fun i hi => h i (List.mem_cons_of_mem _ hi)),
      h item List.mem_cons_self, List.flatMap_cons, View.fill_append]

/-- A launch whose work-items fill the indices they own. -/
structure Covers (v : View) (g : Grid) (body : WorkItem → Memory → Memory) (address : ι → Nat)
    (value : ι → Memory → Nat) (inside : ι → Prop) (cells : WorkItem → List ι)
    (owner : ι → WorkItem) : Prop where
  shares : Shares g inside cells owner
  separate : v.Separate address value inside
  body_eq : ∀ item ∈ g.items, ∀ m, body item m = v.fill address value (cells item) m

namespace Covers

variable {v : View} {g : Grid} {body : WorkItem → Memory → Memory} {address : ι → Nat}
  {value : ι → Memory → Nat} {inside : ι → Prop} {cells : WorkItem → List ι}
  {owner : ι → WorkItem}

theorem launch_eq (h : Covers v g body address value inside cells owner) (m : Memory) :
    g.launch body m = v.fill address value (g.items.flatMap cells) m :=
  runItems_eq_fill h.body_eq m

@[simp] theorem size_launch (h : Covers v g body address value inside cells owner) (m : Memory)
    (c : BufferId) : (g.launch body m).size c = m.size c := by
  rw [h.launch_eq, View.size_fill]

theorem load_launch (h : Covers v g body address value inside cells owner) {i : ι}
    (hi : inside i) {m : Memory} (hfit : address i + v.layout.elementSize ≤ m.size v.buffer) :
    v.load (g.launch body m) (address i) = value i m % 256 ^ v.layout.elementSize := by
  rw [h.launch_eq]
  exact h.separate.load_fill h.shares.nodup_all (fun _ => h.shares.mem_all.1)
    (h.shares.mem_all.2 hi) hfit

theorem byte_launch_other (h : Covers v g body address value inside cells owner) {m : Memory}
    {c : BufferId} {j : Nat} (hout : c = v.buffer → ∀ i, inside i →
      j < address i ∨ address i + v.layout.elementSize ≤ j) :
    (g.launch body m).byte c j = m.byte c j := by
  rw [h.launch_eq]
  exact View.byte_fill_other fun hc i hi => hout hc i (h.shares.mem_all.1 hi)

theorem byte_launch_buffer (h : Covers v g body address value inside cells owner) {m : Memory}
    {c : BufferId} (hc : c ≠ v.buffer) (j : Nat) : (g.launch body m).byte c j = m.byte c j :=
  h.byte_launch_other fun e => absurd e hc

end Covers
end TileCompute
