import Mathlib.Data.List.Perm.Basic
import TileCompute.Proofs.Growth
import TileCompute.Scratch.Group

/-!
# TileCompute.Proofs.Pool

What taking a block from the pool can do. `Device.acquire` either takes a shortest one of the free
blocks that are long enough or, when there is none, allocates; `Device.Acquired` says so once, and
everything else about requests is derived from it.

* `Pool.bestFit_eq_none`, `Pool.bestFit_eq_some`: the search.
* `Pool.perm_swapRemove`: the free list loses the block that is taken and no other.
* `Device.acquired`: every request.
* `Device.holds_acquireAll`: blocks that are different buffers stay so, whoever has them.
-/

namespace TileCompute
namespace Pool

theorem bestFit_eq_none {size : Nat} {blocks : List Block} :
    bestFit size blocks = none ↔ ∀ b ∈ blocks, b.size < size := by
  induction blocks with
  | nil => simp [bestFit]
  | cons block rest ih =>
    rw [bestFit, List.forall_mem_cons, ← ih]
    cases bestFit size rest with
    | none => simp
    | some i => simp only [reduceCtorEq, and_false, iff_false]; split <;> simp

/-- The search finds a shortest one of the blocks that are long enough. -/
theorem bestFit_eq_some {size i : Nat} {blocks : List Block} (h : bestFit size blocks = some i) :
    ∃ block, blocks[i]? = some block ∧ size ≤ block.size ∧
      ∀ b ∈ blocks, size ≤ b.size → block.size ≤ b.size := by
  induction blocks generalizing i with
  | nil => cases h
  | cons block rest ih =>
    rw [bestFit] at h
    cases hrest : bestFit size rest with
    | none =>
      -- every later block is too short
      have short := bestFit_eq_none.1 hrest
      simp only [hrest, Option.ite_none_right_eq_some, Option.some.injEq] at h
      obtain ⟨long, rfl⟩ := h
      refine ⟨block, rfl, long, List.forall_mem_cons.2 ⟨fun _ => Nat.le_refl _, fun b hb hs => ?_⟩⟩
      have := short b hb
      omega
    | some k =>
      obtain ⟨best, hbest, long, shortest⟩ := ih hrest
      have hget : rest.getD k default = best := by simp [List.getD_eq_getElem?_getD, hbest]
      simp only [hrest, hget] at h
      split at h
      · next hle =>
        cases h
        refine ⟨block, rfl, hle.1,
          List.forall_mem_cons.2 ⟨fun _ => Nat.le_refl _, fun b hb hs => ?_⟩⟩
        exact Nat.le_trans hle.2 (shortest b hb hs)
      · next hle =>
        cases h
        refine ⟨best, hbest, long, List.forall_mem_cons.2 ⟨fun hs => ?_, shortest⟩⟩
        omega

theorem perm_swapRemove {α : Type} {xs : List α} {i : Nat} {x : α} (h : xs[i]? = some x) :
    xs.Perm (x :: swapRemove xs i) := by
  obtain ⟨hi, rfl⟩ := List.getElem?_eq_some_iff.1 h
  obtain rfl | ⟨init, last, rfl⟩ := List.eq_nil_or_concat' xs
  · cases hi
  rw [swapRemove, List.getLast?_concat]
  simp only [List.length_append, List.length_singleton] at hi
  by_cases hlast : i = init.length
  · subst hlast
    simp only [List.set_append_right _ _ (Nat.le_refl _), Nat.sub_self, List.set_cons_zero,
      List.dropLast_concat, List.getElem_concat_length]
    exact List.perm_append_singleton _ _
  · have hlt : i < init.length := by omega
    simp only [List.set_append_left _ _ hlt, List.dropLast_concat, List.getElem_append_left hlt]
    -- both lists hold `last`, `init[i]` and the rest of `init`
    have split_off : (last :: init).Perm (last :: init[i] :: init.eraseIdx i) :=
      (List.getElem_cons_eraseIdx_perm hlt).symm.cons _
    have put_back : (last :: init.eraseIdx i).Perm (init.set i last) :=
      (List.set_perm_cons_eraseIdx hlt last).symm
    exact (List.perm_append_singleton _ _).trans
      (split_off.trans ((List.Perm.swap _ _ _).trans (put_back.cons _)))

end Pool

namespace Device

/-- What a request for `size` bytes can do. -/
inductive Acquired (d : Device) (size : Nat) : Block → Device → Prop where
  | reused (block : Block) (rest : List Block) (taken : d.pool.free.Perm (block :: rest))
      (long : size ≤ block.size)
      (shortest : ∀ b ∈ d.pool.free, size ≤ b.size → block.size ≤ b.size) :
      Acquired d size block ⟨d.memory, ⟨rest, d.pool.allocations⟩⟩
  | allocated (short : ∀ b ∈ d.pool.free, b.size < size) :
      Acquired d size ⟨d.memory.buffers.size, size⟩
        ⟨(d.memory.alloc size).2, ⟨d.pool.free, d.pool.allocations + 1⟩⟩

theorem acquired (d : Device) (size : Nat) :
    d.Acquired size (d.acquire size).1 (d.acquire size).2 := by
  unfold acquire
  cases h : Pool.bestFit size d.pool.free with
  | none => exact .allocated (Pool.bestFit_eq_none.1 h)
  | some i =>
    obtain ⟨block, hblock, long, shortest⟩ := Pool.bestFit_eq_some h
    have hget : d.pool.free.getD i default = block := by
      simp [List.getD_eq_getElem?_getD, hblock]
    simp only [hget]
    exact .reused block _ (Pool.perm_swapRemove hblock) long shortest

theorem Acquired.long {d d' : Device} {size : Nat} {block : Block}
    (h : d.Acquired size block d') : size ≤ block.size := by
  cases h with
  | reused _ _ _ long => exact long
  | allocated => exact Nat.le_refl size

theorem Acquired.grows {d d' : Device} {size : Nat} {block : Block}
    (h : d.Acquired size block d') : d.memory.Grows d'.memory := by
  cases h with
  | reused => exact .refl _
  | allocated => exact .alloc _ _

/-- New buffers aside, memory reads as before. -/
theorem Acquired.byte {d d' : Device} {size : Nat} {block : Block}
    (h : d.Acquired size block d') (b : BufferId) (i : Nat) :
    d'.memory.byte b i = d.memory.byte b i := by
  cases h with
  | reused => rfl
  | allocated => exact Memory.byte_alloc ..

variable {d d' : Device} {used : List Block}

theorem Acquired.holds {size : Nat} {block : Block} (h : d.Acquired size block d')
    (hd : d.memory.Holds (d.pool.free ++ used)) :
    d'.memory.Holds (d'.pool.free ++ block :: used) := by
  cases h with
  | reused _ _ taken => exact hd.perm ((taken.append_right used).trans List.perm_middle.symm)
  | allocated => exact (hd.alloc size).perm List.perm_middle.symm

theorem holds_acquireAll (layouts : List Layout) (hd : d.memory.Holds (d.pool.free ++ used)) :
    (ScratchGroup.acquireAll layouts d).2.memory.Holds
      ((ScratchGroup.acquireAll layouts d).2.pool.free ++
        ((ScratchGroup.acquireAll layouts d).1 ++ used)) := by
  induction layouts generalizing d used with
  | nil => exact hd
  | cons layout rest ih =>
    exact (ih ((d.acquired layout.byteSize).holds hd)).perm (List.perm_middle.append_left _)

theorem grows_acquireAll (layouts : List Layout) (d : Device) :
    d.memory.Grows (ScratchGroup.acquireAll layouts d).2.memory := by
  induction layouts generalizing d with
  | nil => exact .refl _
  | cons layout rest ih => exact (d.acquired layout.byteSize).grows.trans (ih _)

@[simp] theorem memory_releaseAll (blocks : List Block) (d : Device) :
    (blocks.foldl release d).memory = d.memory := by
  induction blocks generalizing d with
  | nil => rfl
  | cons block rest ih => exact ih _

@[simp] theorem free_releaseAll (blocks : List Block) (d : Device) :
    (blocks.foldl release d).pool.free = d.pool.free ++ blocks := by
  induction blocks generalizing d with
  | nil => simp
  | cons block rest ih =>
    rw [List.foldl_cons, ih]
    simp [release]

@[simp] theorem allocations_releaseAll (blocks : List Block) (d : Device) :
    (blocks.foldl release d).pool.allocations = d.pool.allocations := by
  induction blocks generalizing d with
  | nil => rfl
  | cons block rest ih => exact ih _

end Device

namespace ScratchGroup

theorem acquireAll_long (layouts : List Layout) (d : Device) :
    List.Forall₂ (fun layout block => layout.byteSize ≤ block.size) layouts
      (acquireAll layouts d).1 := by
  induction layouts generalizing d with
  | nil => exact .nil
  | cons layout rest ih => exact .cons (d.acquired layout.byteSize).long (ih _)

theorem acquire_of_pooled {g : ScratchGroup} (h : g.pooled) (d : Device) :
    g.acquire d = (⟨g, (acquireAll g.layouts d).1⟩, (acquireAll g.layouts d).2) := by
  rw [acquire, if_pos h]

end ScratchGroup

namespace Scope

theorem close_of_pooled {s : Scope} (h : s.group.pooled) (d : Device) :
    s.close d = s.blocks.foldl Device.release d := by
  rw [close, if_pos h]

theorem buffer_view {s : Scope} {i : Nat} (h : i < s.blocks.length) :
    (s.view i).buffer = s.blocks[i].buffer := by
  simp [view, block, List.getD_eq_getElem?_getD, h]

end Scope
end TileCompute
