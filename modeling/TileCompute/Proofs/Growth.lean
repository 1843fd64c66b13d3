import TileCompute.Grid
import TileCompute.Proofs.Words
import TileCompute.Scratch.Pool
import TileCompute.Tensor.View

/-!
# TileCompute.Proofs.Growth

How memories grow. Nothing is ever freed and no buffer changes its length, so whatever is done to a
memory, its buffers stay where and as long as they are (`Memory.Grows`). Blocks that are different
buffers of a memory (`Memory.Holds`) are so in every later one.

* `Memory.byte_alloc`, `Memory.size_alloc`: a new buffer.
* `Memory.Grows.launch`: kernels keep the buffers.
* `Memory.Holds.alloc`, `Memory.Holds.grow`: old blocks and a new one.
* `Memory.Allocates`: what the allocations of one configuration add up to.
-/

namespace TileCompute
namespace Memory

@[simp] theorem count_alloc (m : Memory) (n : Nat) :
    (m.alloc n).2.buffers.size = m.buffers.size + 1 := by
  simp [alloc, push]

theorem size_of_count_le {m : Memory} {b : BufferId} (h : m.buffers.size ≤ b) : m.size b = 0 := by
  simp [size, Array.getD_eq_getD_getElem?, Array.getElem?_eq_none h]

theorem byte_of_size_le {m : Memory} {b : BufferId} {i : Nat} (h : m.size b ≤ i) :
    m.byte b i = 0 := by
  rw [byte, Array.getD_eq_getD_getElem?, Array.getElem?_eq_none h, Option.getD_none]

theorem bytes_alloc (m : Memory) (n : Nat) (b : BufferId) :
    (m.alloc n).2.bytes b = if b = m.buffers.size then Array.replicate n 0 else m.bytes b := by
  simp only [bytes, alloc, push, Array.getD_eq_getD_getElem?, Array.getElem?_push]
  split <;> rfl

theorem size_alloc (m : Memory) (n : Nat) (b : BufferId) :
    (m.alloc n).2.size b = if b = m.buffers.size then n else m.size b := by
  have h := congrArg Array.size (bytes_alloc m n b)
  rw [apply_ite Array.size, Array.size_replicate] at h
  exact h

theorem size_alloc_of_lt {m : Memory} {n : Nat} {b : BufferId} (h : b < m.buffers.size) :
    (m.alloc n).2.size b = m.size b := by
  rw [size_alloc, if_neg (Nat.ne_of_lt h)]

/-- A new buffer reads as zeros, like any place without a buffer. -/
@[simp] theorem byte_alloc (m : Memory) (n : Nat) (b : BufferId) (i : Nat) :
    (m.alloc n).2.byte b i = m.byte b i := by
  have h : (m.alloc n).2.byte b i = ((m.alloc n).2.bytes b).getD i 0 := rfl
  rw [h, bytes_alloc]
  split
  · next hb =>
    have hnew : m.bytes b = #[] := by
      rw [hb, bytes, Array.getD_eq_getD_getElem?, Array.getElem?_eq_none (Nat.le_refl _)]
      rfl
    change _ = (m.bytes b).getD i 0
    rw [hnew, Array.getD_eq_getD_getElem?, Array.getElem?_replicate]
    split <;> rfl
  · rfl

/-- Buffers of one length with the same bytes are the same. -/
theorem bytes_congr {m m' : Memory} {b b' : BufferId} (size : m.size b = m'.size b')
    (byte : ∀ i, m.byte b i = m'.byte b' i) : m.bytes b = m'.bytes b' := by
  refine Array.ext size fun i hi hi' => ?_
  have h : (m.bytes b).getD i 0 = (m'.bytes b').getD i 0 := byte i
  rwa [Array.getD_eq_getD_getElem?, Array.getD_eq_getD_getElem?, Array.getElem?_eq_getElem hi,
    Array.getElem?_eq_getElem hi'] at h

/-- The buffers of a memory are there in a later one, as long as before. -/
structure Grows (m m' : Memory) : Prop where
  count : m.buffers.size ≤ m'.buffers.size
  size : ∀ b, b < m.buffers.size → m'.size b = m.size b

namespace Grows

variable {m m' m'' : Memory}

theorem refl (m : Memory) : m.Grows m := ⟨Nat.le_refl _, fun _ _ => rfl⟩

theorem trans (h : m.Grows m') (h' : m'.Grows m'') : m.Grows m'' :=
  ⟨Nat.le_trans h.count h'.count, fun b hb =>
    (h'.size b (Nat.lt_of_lt_of_le hb h.count)).trans (h.size b hb)⟩

theorem alloc (m : Memory) (n : Nat) : m.Grows (m.alloc n).2 where
  count := by rw [count_alloc]; exact Nat.le_succ _
  size _ hb := size_alloc_of_lt hb

theorem store (m : Memory) (b : BufferId) (i size word : Nat) :
    m.Grows (m.store b i size word) where
  count := Nat.le_of_eq (count_store ..).symm
  size _ _ := size_store ..

theorem foldl {ι : Type} {f : Memory → ι → Memory} (h : ∀ (m : Memory) i, m.Grows (f m i))
    (is : List ι) (m : Memory) : m.Grows (is.foldl f m) := by
  induction is generalizing m with
  | nil => exact refl m
  | cons i is ih => exact (h m i).trans (ih _)

theorem foldlM {ι : Type} {f : Memory → ι → Id Memory}
    (h : ∀ (m : Memory) i, m.Grows (Id.run (f m i))) (is : List ι) (m : Memory) :
    m.Grows (Id.run (is.foldlM f m)) := by
  rw [List.idRun_foldlM]
  exact foldl h is m

theorem launch {g : Grid} {body : WorkItem → Memory → Memory}
    (h : ∀ item (m : Memory), m.Grows (body item m)) (m : Memory) : m.Grows (g.launch body m) :=
  foldl (fun m item => h item m) g.items m

theorem launchSites {s : Shape} {body : Site → Memory → Memory}
    (h : ∀ t (m : Memory), m.Grows (body t m)) (m : Memory) : m.Grows (s.launch body m) :=
  foldl (fun m t => h t m) s.sites m

end Grows

/-- Blocks that are different buffers of the memory, of the lengths they say. -/
structure Holds (m : Memory) (blocks : List Block) : Prop where
  distinct : (blocks.map Block.buffer).Nodup
  present : ∀ b ∈ blocks, b.buffer < m.buffers.size
  sized : ∀ b ∈ blocks, m.size b.buffer = b.size

namespace Holds

variable {m m' : Memory} {xs ys : List Block}

theorem nil (m : Memory) : m.Holds [] := ⟨List.nodup_nil, by simp, by simp⟩

theorem perm (h : m.Holds xs) (hp : xs.Perm ys) : m.Holds ys where
  distinct := (hp.map _).nodup_iff.1 h.distinct
  present b hb := h.present b (hp.mem_iff.2 hb)
  sized b hb := h.sized b (hp.mem_iff.2 hb)

theorem sublist (h : m.Holds ys) (hs : xs.Sublist ys) : m.Holds xs where
  distinct := (hs.map _).nodup h.distinct
  present b hb := h.present b (hs.subset hb)
  sized b hb := h.sized b (hs.subset hb)

theorem apart (h : m.Holds (xs ++ ys)) {y : Block} (hy : y ∈ ys) :
    y.buffer ∉ xs.map Block.buffer := by
  have hd := h.distinct
  rw [List.map_append, List.nodup_append] at hd
  exact fun hx => hd.2.2 _ hx _ (List.mem_map_of_mem hy) rfl

theorem append (h : m.Holds xs) (h' : m.Holds ys)
    (hap : ∀ y ∈ ys, y.buffer ∉ xs.map Block.buffer) : m.Holds (xs ++ ys) where
  distinct := by
    rw [List.map_append, List.nodup_append]
    refine ⟨h.distinct, h'.distinct, fun b hx c hc he => ?_⟩
    obtain ⟨y, hy, rfl⟩ := List.mem_map.1 hc
    exact hap y hy (he ▸ hx)
  present := List.forall_mem_append.2 ⟨h.present, h'.present⟩
  sized := List.forall_mem_append.2 ⟨h.sized, h'.sized⟩

theorem grow (h : m.Holds xs) (hm : m.Grows m') : m'.Holds xs where
  distinct := h.distinct
  present b hb := Nat.lt_of_lt_of_le (h.present b hb) hm.count
  sized b hb := (hm.size _ (h.present b hb)).trans (h.sized b hb)

theorem alloc (h : m.Holds xs) (n : Nat) : (m.alloc n).2.Holds (⟨m.buffers.size, n⟩ :: xs) where
  distinct := by
    refine List.nodup_cons.2 ⟨fun hmem => ?_, h.distinct⟩
    obtain ⟨b, hb, he⟩ := List.mem_map.1 hmem
    exact Nat.ne_of_lt (h.present b hb) he
  present := by
    rw [count_alloc]
    exact List.forall_mem_cons.2
      ⟨Nat.lt_succ_self _, fun b hb => Nat.lt_succ_of_lt (h.present b hb)⟩
  sized := by
    refine List.forall_mem_cons.2 ⟨by rw [size_alloc, if_pos rfl], fun b hb => ?_⟩
    rw [size_alloc_of_lt (h.present b hb), h.sized b hb]

end Holds

/-- From one memory to another nothing happens but that blocks are allocated. -/
structure Allocates (m m' : Memory) (blocks : List Block) : Prop where
  grows : m.Grows m'
  byte : ∀ b i, m'.byte b i = m.byte b i
  holds : m'.Holds blocks
  fresh : ∀ b ∈ blocks, m.buffers.size ≤ b.buffer

namespace Allocates

variable {m m' : Memory} {xs ys : List Block}

theorem refl (m : Memory) : m.Allocates m [] := ⟨.refl m, fun _ _ => rfl, .nil m, by simp⟩

theorem byte_zero (h : m.Allocates m' xs) {x : Block} (hx : x ∈ xs) (i : Nat) :
    m'.byte x.buffer i = 0 := by
  rw [h.byte]
  exact byte_of_size_le ((size_of_count_le (h.fresh x hx)).symm ▸ Nat.zero_le i)

/-- Blocks that were allocated are none of the older buffers. -/
theorem ne_of_lt (h : m.Allocates m' xs) {x : Block} (hx : x ∈ xs) {b : BufferId}
    (hb : b < m.buffers.size) : x.buffer ≠ b :=
  Nat.ne_of_gt (Nat.lt_of_lt_of_le hb (h.fresh x hx))

theorem perm (h : m.Allocates m' xs) (hp : xs.Perm ys) : m.Allocates m' ys :=
  ⟨h.grows, h.byte, h.holds.perm hp, fun b hb => h.fresh b (hp.mem_iff.2 hb)⟩

theorem alloc (h : m.Allocates m' xs) (n : Nat) :
    m.Allocates (m'.alloc n).2 (⟨m'.buffers.size, n⟩ :: xs) where
  grows := h.grows.trans (.alloc m' n)
  byte b i := (byte_alloc ..).trans (h.byte b i)
  holds := h.holds.alloc n
  fresh := List.forall_mem_cons.2 ⟨h.grows.count, h.fresh⟩

end Allocates

end Memory

end TileCompute
