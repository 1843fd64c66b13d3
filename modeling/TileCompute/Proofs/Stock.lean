import TileCompute.Proofs.Fill
import TileCompute.Proofs.Pool

/-!
# TileCompute.Proofs.Stock

Where the scratch tensors of a layer come from. A device *stocks* the groups that a layer opens
inside each other when the free blocks and those that the groups own are different buffers, none of
them busy with anything else (`Device.Stocks`). Opening the first group gives tensors that are
apart, long enough and not busy, with the other groups still in stock (`Device.Opened`); closing
its scope puts the stock back, whatever was written in between.

* `Device.Stocks.opened`: opening a scope, with a pool or without.
* `Device.Opened.view_fits`, `Device.Opened.view_idle`, `Device.Opened.view_apart`: its tensors.
* `Device.Stocks.close`: closing it.
-/

namespace TileCompute

/-- Without a pool, a group owns a block for every slot. -/
def ScratchGroup.Ready (g : ScratchGroup) : Prop :=
  if g.pooled then g.owned = []
  else List.Forall₂ (fun layout block => layout.byteSize ≤ block.size) g.layouts g.owned

namespace ScratchGroup

variable {g : ScratchGroup} {m m' : Memory} {blocks : List Block}

theorem ready_empty (pooled : Bool) : (empty pooled).Ready := by
  unfold Ready empty
  split
  · rfl
  · exact .nil

@[simp] theorem manage_layouts (g : ScratchGroup) (l : Layout) (m : Memory) :
    (g.manage l m).1.layouts = g.layouts ++ [l] := by
  unfold manage
  split <;> rfl

theorem Ready.manage (h : g.Ready) (l : Layout) (m : Memory) : (g.manage l m).1.Ready := by
  unfold Ready at h ⊢
  unfold ScratchGroup.manage
  by_cases hp : g.pooled
  · rw [if_pos hp] at h ⊢
    rwa [if_pos hp]
  · rw [if_neg hp] at h ⊢
    rw [if_neg hp]
    exact List.rel_append h (.cons (Nat.le_refl _) .nil)

/-- A group adds what it owns to what was allocated. -/
theorem allocates_manage (h : m.Allocates m' (g.owned ++ blocks)) (l : Layout) :
    m.Allocates (g.manage l m').2 ((g.manage l m').1.owned ++ blocks) := by
  unfold manage
  split
  · exact h
  · refine (h.alloc l.byteSize).perm ?_
    rw [List.append_assoc]
    exact List.perm_middle.symm

end ScratchGroup

namespace Device

/-- Free blocks and blocks for the groups, none of them busy. -/
structure Stocks (d : Device) (busy : BufferId → Prop) (groups : List ScratchGroup) : Prop where
  present : ∀ b, busy b → b < d.memory.buffers.size
  holds : d.memory.Holds (d.pool.free ++ groups.flatMap ScratchGroup.owned)
  idle : ∀ b ∈ d.pool.free ++ groups.flatMap ScratchGroup.owned, ¬busy b.buffer
  ready : ∀ g ∈ groups, g.Ready

/-- What is busy while blocks are in use. -/
def Using (busy : BufferId → Prop) (blocks : List Block) (b : BufferId) : Prop :=
  busy b ∨ b ∈ blocks.map Block.buffer

/-- A scope `s` of the group `g` was opened on `d`, giving `d'`. -/
structure Opened (d : Device) (busy : BufferId → Prop) (g : ScratchGroup)
    (groups : List ScratchGroup) (s : Scope) (d' : Device) : Prop where
  group : s.group = g
  owned : g.pooled = false → s.blocks = g.owned
  grows : d.memory.Grows d'.memory
  byte : ∀ b i, d'.memory.byte b i = d.memory.byte b i
  long : List.Forall₂ (fun layout block => layout.byteSize ≤ block.size) g.layouts s.blocks
  holds : d'.memory.Holds s.blocks
  idle : ∀ b ∈ s.blocks, ¬busy b.buffer
  stocks : d'.Stocks (Using busy s.blocks) groups

variable {d d' : Device} {busy : BufferId → Prop} {g : ScratchGroup} {groups : List ScratchGroup}
  {s : Scope}

theorem byte_acquireAll (layouts : List Layout) (d : Device) (b : BufferId) (i : Nat) :
    (ScratchGroup.acquireAll layouts d).2.memory.byte b i = d.memory.byte b i := by
  induction layouts generalizing d with
  | nil => rfl
  | cons layout rest ih => exact (ih _).trans ((d.acquired layout.byteSize).byte b i)

/-- Busy buffers are neither handed out nor made free. -/
theorem Acquired.idle {size : Nat} {block : Block} (h : d.Acquired size block d')
    (present : ∀ b, busy b → b < d.memory.buffers.size)
    (idle : ∀ b ∈ d.pool.free, ¬busy b.buffer) :
    ¬busy block.buffer ∧ ∀ b ∈ d'.pool.free, ¬busy b.buffer := by
  cases h with
  | reused _ _ taken => exact List.forall_mem_cons.1 fun b hb => idle b (taken.mem_iff.2 hb)
  | allocated => exact ⟨fun hb => Nat.lt_irrefl _ (present _ hb), idle⟩

theorem idle_acquireAll (layouts : List Layout)
    (present : ∀ b, busy b → b < d.memory.buffers.size)
    (idle : ∀ b ∈ d.pool.free, ¬busy b.buffer) :
    (∀ b ∈ (ScratchGroup.acquireAll layouts d).1, ¬busy b.buffer) ∧
      ∀ b ∈ (ScratchGroup.acquireAll layouts d).2.pool.free, ¬busy b.buffer := by
  induction layouts generalizing d with
  | nil => exact ⟨by simp [ScratchGroup.acquireAll], idle⟩
  | cons layout rest ih =>
    have first := d.acquired layout.byteSize
    obtain ⟨hblock, idle⟩ := first.idle present idle
    obtain ⟨hblocks, hfree⟩ :=
      ih (fun b hb => Nat.lt_of_lt_of_le (present b hb) first.grows.count) idle
    exact ⟨List.forall_mem_cons.2 ⟨hblock, hblocks⟩, hfree⟩

theorem stocks_using {blocks : List Block}
    (holds : d.memory.Holds (blocks ++ (d.pool.free ++ groups.flatMap ScratchGroup.owned)))
    (present : ∀ b, busy b → b < d.memory.buffers.size)
    (idle : ∀ b ∈ d.pool.free ++ groups.flatMap ScratchGroup.owned, ¬busy b.buffer)
    (ready : ∀ g ∈ groups, g.Ready) : d.Stocks (Using busy blocks) groups := by
  refine ⟨?_, holds.sublist (List.sublist_append_right _ _), ?_, ready⟩
  · rintro b (hb | hb)
    · exact present b hb
    · obtain ⟨x, hx, rfl⟩ := List.mem_map.1 hb
      exact holds.present x (List.mem_append_left _ hx)
  · rintro b hb (hbusy | hused)
    · exact idle b hb hbusy
    · exact holds.apart hb hused

theorem Stocks.opened_pooled (h : d.Stocks busy (g :: groups)) (hp : g.pooled) :
    d.Opened busy g groups (g.acquire d).1 (g.acquire d).2 := by
  obtain ⟨hg, hgroups⟩ := List.forall_mem_cons.1 h.ready
  have holds := h.holds
  have idle := h.idle
  rw [ScratchGroup.Ready, if_pos hp] at hg
  rw [List.flatMap_cons, hg, List.nil_append] at holds idle
  obtain ⟨free, owned⟩ := List.forall_mem_append.1 idle
  obtain ⟨hblocks, hfree⟩ := idle_acquireAll g.layouts h.present free
  have grows := grows_acquireAll g.layouts d
  have holds' := (holds_acquireAll g.layouts holds).perm (List.perm_append_comm_assoc _ _ _)
  rw [ScratchGroup.acquire_of_pooled hp]
  refine ⟨rfl, fun hn => absurd hp (by simp [hn]), grows, byte_acquireAll _ _,
    ScratchGroup.acquireAll_long _ _, holds'.sublist (List.sublist_append_left _ _), hblocks, ?_⟩
  exact stocks_using holds' (fun b hb => Nat.lt_of_lt_of_le (h.present b hb) grows.count)
    (List.forall_mem_append.2 ⟨hfree, owned⟩) hgroups

theorem Stocks.opened_owned (h : d.Stocks busy (g :: groups)) (hp : g.pooled = false) :
    d.Opened busy g groups (g.acquire d).1 (g.acquire d).2 := by
  obtain ⟨hg, hgroups⟩ := List.forall_mem_cons.1 h.ready
  have hperm : (d.pool.free ++ (g.owned ++ groups.flatMap ScratchGroup.owned)).Perm
      (g.owned ++ (d.pool.free ++ groups.flatMap ScratchGroup.owned)) :=
    List.perm_append_comm_assoc _ _ _
  have holds := h.holds.perm hperm
  obtain ⟨hblocks, idle⟩ :=
    List.forall_mem_append.1 fun b hb => h.idle b (hperm.mem_iff.2 hb)
  rw [ScratchGroup.Ready, if_neg (by simp [hp])] at hg
  rw [show g.acquire d = (⟨g, g.owned⟩, d) from if_neg (by simp [hp])]
  exact ⟨rfl, fun _ => rfl, .refl _, fun _ _ => rfl, hg,
    holds.sublist (List.sublist_append_left _ _), hblocks,
    stocks_using holds h.present idle hgroups⟩

theorem Stocks.opened (h : d.Stocks busy (g :: groups)) :
    d.Opened busy g groups (g.acquire d).1 (g.acquire d).2 := by
  cases hp : g.pooled with
  | true => exact h.opened_pooled hp
  | false => exact h.opened_owned hp

/-- Stores leave the stock as it is. -/
theorem Stocks.onMemory (h : d.Stocks busy groups) {f : Memory → Memory}
    (hf : d.memory.Grows (f d.memory)) : (d.onMemory f).Stocks busy groups where
  present b hb := Nat.lt_of_lt_of_le (h.present b hb) hf.count
  holds := h.holds.grow hf
  idle := h.idle
  ready := h.ready

theorem Stocks.perm {gs gs' : List ScratchGroup} (h : d.Stocks busy gs) (hp : gs.Perm gs') :
    d.Stocks busy gs' where
  present := h.present
  holds := h.holds.perm ((hp.flatMap_right _).append_left _)
  idle b hb := h.idle b (((hp.flatMap_right _).append_left _).mem_iff.2 hb)
  ready g hg := h.ready g (hp.mem_iff.2 hg)

theorem Stocks.mono {busy' : BufferId → Prop} (h : d.Stocks busy groups)
    (hb : ∀ b, busy' b → busy b) : d.Stocks busy' groups where
  present b hb' := h.present b (hb b hb')
  holds := h.holds
  idle b hmem hb' := h.idle b hmem (hb _ hb')
  ready := h.ready

/-- More groups are set up, with blocks that are taken into use. -/
theorem Stocks.allocate {m : Memory} {gs : List ScratchGroup} {used : List Block}
    (h : d.Stocks busy groups)
    (set : d.memory.Allocates m (gs.flatMap ScratchGroup.owned ++ used))
    (ready : ∀ g ∈ gs, g.Ready) :
    Stocks { d with memory := m } (Using busy used) (groups ++ gs) := by
  have order : ((d.pool.free ++ groups.flatMap ScratchGroup.owned) ++
      (gs.flatMap ScratchGroup.owned ++ used)).Perm
      (used ++ (d.pool.free ++ (groups ++ gs).flatMap ScratchGroup.owned)) := by
    rw [List.flatMap_append, ← List.append_assoc d.pool.free,
      ← List.append_assoc (d.pool.free ++ groups.flatMap ScratchGroup.owned)]
    exact List.perm_append_comm
  have present (b : Block) (hb : b ∈ d.pool.free ++ groups.flatMap ScratchGroup.owned) :
      b.buffer < d.memory.buffers.size := h.holds.present b hb
  have holds := ((h.holds.grow set.grows).append set.holds fun b hb hold => by
    obtain ⟨x, hx, he⟩ := List.mem_map.1 hold
    exact Nat.not_le.2 (present x hx) (he ▸ set.fresh b hb)).perm order
  refine stocks_using holds (fun b hb => Nat.lt_of_lt_of_le (h.present b hb) set.grows.count)
    (fun b hb => ?_) (List.forall_mem_append.2 ⟨h.ready, ready⟩)
  -- old blocks were not busy, and what is busy was there before the new ones
  obtain hb | hb := List.mem_append.1 (order.mem_iff.2 (List.mem_append_right _ hb))
  · exact h.idle b hb
  · exact fun hbusy => Nat.not_le.2 (h.present _ hbusy) (set.fresh b hb)

/-- Other work on the device: buffers may be allocated, the free blocks replaced in any order, and
all bytes written but those of the buffers that are `kept`. -/
structure Meanwhile (kept : BufferId → Prop) (d d' : Device) : Prop where
  grows : d.memory.Grows d'.memory
  byte : ∀ b, kept b → ∀ i, d'.memory.byte b i = d.memory.byte b i
  holds : d'.memory.Holds d'.pool.free
  spare : ∀ x ∈ d'.pool.free,
    x.buffer ∈ d.pool.free.map Block.buffer ∨ d.memory.buffers.size ≤ x.buffer

theorem Stocks.free (h : d.Stocks busy groups) : d.memory.Holds d.pool.free :=
  h.holds.sublist (List.sublist_append_left ..)

theorem Stocks.meanwhile {kept : BufferId → Prop} (h : d.Stocks busy groups)
    (hd : d.Meanwhile kept d') : d'.Stocks busy groups := by
  obtain ⟨free, owned⟩ := List.forall_mem_append.1 h.idle
  refine ⟨fun b hb => Nat.lt_of_lt_of_le (h.present b hb) hd.grows.count, ?_,
    List.forall_mem_append.2 ⟨fun x hx hbusy => ?_, owned⟩, h.ready⟩
  · refine hd.holds.append ((h.holds.sublist (List.sublist_append_right _ _)).grow hd.grows)
      fun y hy hfree => ?_
    obtain ⟨x, hx, he⟩ := List.mem_map.1 hfree
    obtain old | new := hd.spare x hx
    · exact h.holds.apart hy (he ▸ old)
    · exact Nat.not_le.2 (h.holds.present y (List.mem_append_right _ hy)) (he ▸ new)
  · obtain old | new := hd.spare x hx
    · obtain ⟨y, hy, he⟩ := List.mem_map.1 old
      exact free y hy (he ▸ hbusy)
    · exact Nat.not_le.2 (h.present _ hbusy) new

/-- The free blocks are replaced: some taken away, others put there, in any order, whatever is in
them. Nothing else changes. -/
structure Restocked (d d' : Device) : Prop where
  grows : d.memory.Grows d'.memory
  byte : ∀ b < d.memory.buffers.size, b ∉ d.pool.free.map Block.buffer →
    ∀ i, d'.memory.byte b i = d.memory.byte b i
  holds : d'.memory.Holds d'.pool.free
  spare : ∀ x ∈ d'.pool.free,
    x.buffer ∈ d.pool.free.map Block.buffer ∨ d.memory.buffers.size ≤ x.buffer

theorem Restocked.refl (h : d.memory.Holds d.pool.free) : d.Restocked d :=
  ⟨.refl _, fun _ _ _ _ => rfl, h, fun _ hx => .inl (List.mem_map_of_mem hx)⟩

theorem Restocked.meanwhile (hd : d.Restocked d') :
    d.Meanwhile (fun b => b < d.memory.buffers.size ∧ b ∉ d.pool.free.map Block.buffer) d' :=
  ⟨hd.grows, fun b hb => hd.byte b hb.1 hb.2, hd.holds, hd.spare⟩

theorem Stocks.restocked (h : d.Stocks busy groups) (hd : d.Restocked d') :
    d'.Stocks busy groups := h.meanwhile hd.meanwhile

/-- Groups that were set up stay in stock on a later device, as long as its free blocks are neither
theirs nor in use. -/
theorem stocks_later {m m' : Memory} {used : List Block}
    (set : m.Allocates m' (groups.flatMap ScratchGroup.owned ++ used))
    (ready : ∀ g ∈ groups, g.Ready) (later : m'.Grows d.memory) (pool : d.memory.Holds d.pool.free)
    (outside : ∀ b ∈ d.pool.free, b.buffer < m.buffers.size ∨ m'.buffers.size ≤ b.buffer)
    (before : ∀ b, busy b → b < m.buffers.size) (idle : ∀ b ∈ d.pool.free, ¬busy b.buffer) :
    d.Stocks (Using busy used) groups := by
  have count := Nat.le_trans set.grows.count later.count
  have holds := set.holds.grow later
  have inside {b : Block} (hb : b ∈ groups.flatMap ScratchGroup.owned ++ used) :
      m.buffers.size ≤ b.buffer ∧ b.buffer < m'.buffers.size :=
    ⟨set.fresh b hb, set.holds.present b hb⟩
  have apart {b x : Block} (hb : b ∈ groups.flatMap ScratchGroup.owned ++ used)
      (hx : x ∈ d.pool.free) : b.buffer ≠ x.buffer := fun he => by
    obtain ⟨hge, hlt⟩ := he ▸ inside hb
    exact (outside x hx).elim (Nat.not_lt.2 hge) (Nat.not_le.2 hlt)
  constructor
  · rintro b (hb | hb)
    · exact Nat.lt_of_lt_of_le (before b hb) count
    · obtain ⟨x, hx, rfl⟩ := List.mem_map.1 hb
      exact holds.present x (List.mem_append_right _ hx)
  · refine pool.append (holds.sublist (List.sublist_append_left _ _)) fun b hb hfree => ?_
    obtain ⟨x, hx, he⟩ := List.mem_map.1 hfree
    exact apart (List.mem_append_left _ hb) hx he.symm
  · refine List.forall_mem_append.2 ⟨fun b hb => ?_, fun b hb => ?_⟩
    · rintro (hbusy | hused)
      · exact idle b hb hbusy
      · obtain ⟨x, hx, he⟩ := List.mem_map.1 hused
        exact apart (List.mem_append_right _ hx) hb he
    · rintro (hbusy | hused)
      · exact Nat.not_lt.2 (inside (List.mem_append_left _ hb)).1 (before _ hbusy)
      · obtain ⟨x, hx, he⟩ := List.mem_map.1 hused
        exact holds.apart hx (he ▸ List.mem_map_of_mem hb)
  · exact ready

namespace Opened

variable {i j : Nat} {l l' : Layout}

theorem view_layout (h : d.Opened busy g groups s d') (hi : g.layouts[i]? = some l) :
    (s.view i).layout = l := by
  rw [Scope.view, h.group, List.getD_eq_getElem?_getD, hi, Option.getD_some]

theorem exists_view (h : d.Opened busy g groups s d') (hi : g.layouts[i]? = some l) :
    ∃ x, s.view i = ⟨x, l⟩ := ⟨_, by rw [← h.view_layout hi]⟩

theorem exists_block (h : d.Opened busy g groups s d') (hi : g.layouts[i]? = some l) :
    ∃ block, s.blocks[i]? = some block ∧ (s.view i).buffer = block.buffer ∧
      l.byteSize ≤ block.size := by
  obtain ⟨hlt, rfl⟩ := List.getElem?_eq_some_iff.1 hi
  have hlt' : i < s.blocks.length := h.long.length_eq ▸ hlt
  exact ⟨_, List.getElem?_eq_getElem hlt', Scope.buffer_view hlt', h.long.get hlt hlt'⟩

theorem view_fits (h : d.Opened busy g groups s d') (hi : g.layouts[i]? = some l) :
    View.Fits ⟨(s.view i).buffer, l⟩ d'.memory := by
  obtain ⟨block, hblock, hbuffer, long⟩ := h.exists_block hi
  rw [View.Fits, hbuffer, h.holds.sized _ (List.mem_of_getElem? hblock)]
  exact long

theorem fits_view (h : d.Opened busy g groups s d') (hi : g.layouts[i]? = some l) :
    (s.view i).Fits d'.memory := by
  have fits := h.view_fits hi
  rwa [← h.view_layout hi] at fits

theorem view_present (h : d.Opened busy g groups s d') (hi : g.layouts[i]? = some l) :
    (s.view i).buffer < d'.memory.buffers.size := by
  obtain ⟨block, hblock, hbuffer, -⟩ := h.exists_block hi
  rw [hbuffer]
  exact h.holds.present _ (List.mem_of_getElem? hblock)

theorem view_idle (h : d.Opened busy g groups s d') (hi : g.layouts[i]? = some l) :
    ¬busy (s.view i).buffer := by
  obtain ⟨block, hblock, hbuffer, -⟩ := h.exists_block hi
  rw [hbuffer]
  exact h.idle _ (List.mem_of_getElem? hblock)

/-- A busy buffer is none of the scope's. -/
theorem view_ne (h : d.Opened busy g groups s d') (hi : g.layouts[i]? = some l) {b : BufferId}
    (hb : busy b) : b ≠ (s.view i).buffer := fun he => h.view_idle hi (he ▸ hb)

theorem view_using (h : d.Opened busy g groups s d') (hi : g.layouts[i]? = some l) :
    Using busy s.blocks (s.view i).buffer := by
  obtain ⟨block, hblock, hbuffer, -⟩ := h.exists_block hi
  rw [hbuffer]
  exact .inr (List.mem_map_of_mem (List.mem_of_getElem? hblock))

theorem view_apart (h : d.Opened busy g groups s d') (hi : g.layouts[i]? = some l)
    (hj : g.layouts[j]? = some l') (hij : i < j) : (s.view i).buffer ≠ (s.view j).buffer := by
  obtain ⟨x, hx, hxi, -⟩ := h.exists_block hi
  obtain ⟨y, hy, hyj, -⟩ := h.exists_block hj
  obtain ⟨hi', rfl⟩ := List.getElem?_eq_some_iff.1 hx
  obtain ⟨hj', rfl⟩ := List.getElem?_eq_some_iff.1 hy
  rw [hxi, hyj]
  exact List.pairwise_iff_getElem.1 (List.pairwise_map.1 h.holds.distinct) i j hi' hj' hij

end Opened

theorem memory_close (s : Scope) (d : Device) : (s.close d).memory = d.memory := by
  unfold Scope.close
  split
  · exact memory_releaseAll _ _
  · rfl

/-- A closed scope's blocks are free or owned again. -/
theorem Opened.perm_close (ho : d.Opened busy g groups s d') (hg : g.Ready) (d₂ : Device) :
    ((s.close d₂).pool.free ++ (g :: groups).flatMap ScratchGroup.owned).Perm
      (s.blocks ++ (d₂.pool.free ++ groups.flatMap ScratchGroup.owned)) := by
  rw [List.flatMap_cons]
  cases hp : g.pooled with
  | true =>
    rw [ScratchGroup.Ready, if_pos hp] at hg
    rw [Scope.close_of_pooled (ho.group ▸ hp), free_releaseAll, hg, List.nil_append,
      List.append_assoc]
    exact List.perm_append_comm_assoc _ _ _
  | false =>
    rw [show s.close d₂ = d₂ from if_neg (by simp [ho.group, hp]), ← ho.owned hp]
    exact List.perm_append_comm_assoc _ _ _

/-- Closing a scope puts its blocks back into stock. -/
theorem Stocks.close {d₂ : Device} (h : d.Stocks busy (g :: groups))
    (ho : d.Opened busy g groups s d') (h₂ : d₂.Stocks (Using busy s.blocks) groups)
    (hm : d'.memory.Grows d₂.memory) : (s.close d₂).Stocks busy (g :: groups) := by
  have hg := h.ready g List.mem_cons_self
  -- what the scope held goes to the front: free again, or the group's own
  have back := ho.perm_close hg d₂
  have holds : d₂.memory.Holds
      (s.blocks ++ (d₂.pool.free ++ groups.flatMap ScratchGroup.owned)) :=
    (ho.holds.grow hm).append h₂.holds fun b hb hused => h₂.idle b hb (.inr hused)
  have idle := List.forall_mem_append.2
    ⟨ho.idle, fun b hb (hbusy : busy b.buffer) => h₂.idle b hb (.inl hbusy)⟩
  refine ⟨fun b hb => ?_, ?_, fun b hb => idle b (back.mem_iff.1 hb),
    List.forall_mem_cons.2 ⟨hg, h₂.ready⟩⟩
  · rw [memory_close]
    exact h₂.present b (.inl hb)
  · rw [memory_close]
    exact holds.perm back.symm

end Device
end TileCompute
