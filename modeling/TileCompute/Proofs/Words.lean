import TileCompute.Memory
import TileCompute.Number.Rounding

/-!
# TileCompute.Proofs.Words

Words in memory. `Memory.byte_store` says what every byte is after a word is stored; the rest
follows from it: a stored word is read back, a word elsewhere is read as before, and two stores
apart from each other may change places.

* `load_store`: reading back, up to the bytes that a word has.
* `load_store_apart`: a word whose bytes were not stored to.
* `store_comm`: the order of two stores apart from each other does not matter.
-/

namespace TileCompute
namespace Memory

/-- A memory is known by its buffers' lengths and bytes. -/
theorem ext_bytes {m m' : Memory} (hn : m.buffers.size = m'.buffers.size)
    (hs : ∀ b, m.size b = m'.size b) (hb : ∀ b i, m.byte b i = m'.byte b i) : m = m' := by
  obtain ⟨buffers⟩ := m
  obtain ⟨buffers'⟩ := m'
  congr 1
  apply Array.ext hn
  intro b hb1 hb2
  have e1 : buffers.getD b #[] = buffers[b] := by simp [Array.getD, hb1]
  have e2 : buffers'.getD b #[] = buffers'[b] := by simp [Array.getD, hb2]
  have hlen : buffers[b].size = buffers'[b].size := by
    have := hs b
    simpa only [size, e1, e2] using this
  apply Array.ext hlen
  intro i hi1 hi2
  have := hb b i
  simp only [byte, e1, e2] at this
  simpa [Array.getD, hi1, hi2] using this

@[simp] theorem count_setByte (m : Memory) (b : BufferId) (i : Nat) (v : UInt8) :
    (m.setByte b i v).buffers.size = m.buffers.size := by
  simp [setByte]

@[simp] theorem count_store (m : Memory) (b : BufferId) (i size word : Nat) :
    (m.store b i size word).buffers.size = m.buffers.size := by
  induction size generalizing m i word with
  | zero => rfl
  | succ size ih => rw [store, ih, count_setByte]

@[simp] theorem size_store (m : Memory) (b c : BufferId) (i size word : Nat) :
    (m.store b i size word).size c = m.size c := by
  induction size generalizing m i word with
  | zero => rfl
  | succ size ih => rw [store, ih, size_setByte]

/-- A store changes the bytes of its word and no other byte. -/
theorem byte_store (m : Memory) (b c : BufferId) (i j size word : Nat) :
    (m.store b i size word).byte c j =
      if b = c ∧ i ≤ j ∧ j < i + size ∧ j < m.size c then UInt8.ofNat (word / 256 ^ (j - i))
      else m.byte c j := by
  induction size generalizing m i word with
  | zero => rw [store, if_neg (by omega)]
  | succ size ih =>
    rw [store, ih, size_setByte, byte_setByte]
    by_cases hij : i = j
    · subst hij
      rw [if_neg (by omega), Nat.sub_self, Nat.pow_zero, Nat.div_one]
      congr 1
      simp
    · rw [if_neg (fun h : b = c ∧ i = j ∧ j < m.size c => hij h.2.1)]
      by_cases h : b = c ∧ i ≤ j ∧ j < i + (size + 1) ∧ j < m.size c
      · obtain ⟨hbc, h1, h2, h3⟩ := h
        rw [if_pos ⟨hbc, by omega, by omega, h3⟩, if_pos ⟨hbc, h1, h2, h3⟩,
          Nat.div_div_eq_div_mul, ← Nat.pow_succ', Nat.succ_eq_add_one,
          show j - (i + 1) + 1 = j - i by omega]
      · rw [if_neg h, if_neg]
        rintro ⟨hbc, h1, h2, h3⟩
        exact h ⟨hbc, by omega, by omega, h3⟩

theorem byte_store_other {m : Memory} {b c : BufferId} {i j size word : Nat}
    (h : b = c → j < i ∨ i + size ≤ j) : (m.store b i size word).byte c j = m.byte c j := by
  rw [byte_store, if_neg]
  rintro ⟨hbc, hi, hj, -⟩
  have := h hbc
  omega

theorem load_congr {m m' : Memory} {b b' : BufferId} {i i' size : Nat}
    (h : ∀ k, k < size → m.byte b (i + k) = m'.byte b' (i' + k)) :
    m.load b i size = m'.load b' i' size := by
  induction size generalizing i i' with
  | zero => rfl
  | succ size ih =>
    have h0 := h 0 (by omega)
    have hrest : m.load b (i + 1) size = m'.load b' (i' + 1) size := by
      apply ih
      intro k hk
      have := h (k + 1) (by omega)
      rwa [show i + (k + 1) = i + 1 + k by omega, show i' + (k + 1) = i' + 1 + k by omega] at this
    rw [load, load, hrest]
    simpa using congrArg UInt8.toNat h0

/-- Bytes that spell a number are read as that number. -/
theorem load_of_bytes {m : Memory} {b : BufferId} {i size word : Nat}
    (h : ∀ k, k < size → m.byte b (i + k) = UInt8.ofNat (word / 256 ^ k)) :
    m.load b i size = word % 256 ^ size := by
  induction size generalizing i word with
  | zero => rw [load, Nat.pow_zero, Nat.mod_one]
  | succ size ih =>
    have h0 : m.byte b i = UInt8.ofNat word := by simpa using h 0 (by omega)
    have hrest : m.load b (i + 1) size = word / 256 % 256 ^ size := by
      apply ih
      intro k hk
      have := h (k + 1) (by omega)
      rw [show i + 1 + k = i + (k + 1) by omega, this, Nat.pow_succ', Nat.div_div_eq_div_mul]
    rw [load, hrest, h0, Nat.pow_succ', Nat.mod_mul]
    simp

theorem load_lt (m : Memory) (b : BufferId) (i size : Nat) : m.load b i size < 256 ^ size := by
  induction size generalizing i with
  | zero => simp [load]
  | succ size ih =>
    have hb := (m.byte b i).toNat_lt
    have hr := ih (i + 1)
    rw [load, Nat.pow_succ']
    omega

theorem load_store {m : Memory} {b : BufferId} {i size : Nat} (word : Nat)
    (h : i + size ≤ m.size b) : (m.store b i size word).load b i size = word % 256 ^ size := by
  apply load_of_bytes
  intro k hk
  rw [byte_store, if_pos ⟨rfl, by omega, by omega, by omega⟩, Nat.add_sub_cancel_left]

theorem load_store_apart {m : Memory} {b c : BufferId} {i j size size' : Nat} (word : Nat)
    (h : b = c → j + size' ≤ i ∨ i + size ≤ j) :
    (m.store b i size word).load c j size' = m.load c j size' := by
  apply load_congr
  intro k hk
  apply byte_store_other
  intro hbc
  have := h hbc
  omega

/-- Two stores apart from each other may change places. -/
theorem store_comm (m : Memory) {b c : BufferId} {i j size size' : Nat} (v w : Nat)
    (h : b = c → j + size' ≤ i ∨ i + size ≤ j) :
    (m.store b i size v).store c j size' w = (m.store c j size' w).store b i size v := by
  apply ext_bytes
  · simp
  · simp
  · intro d k
    simp only [byte_store, size_store]
    by_cases hb : b = d ∧ i ≤ k ∧ k < i + size ∧ k < m.size d
    · have hc : ¬(c = d ∧ j ≤ k ∧ k < j + size' ∧ k < m.size d) := by
        rintro ⟨hc, h1, h2, -⟩
        have := h (hb.1.trans hc.symm)
        omega
      rw [if_neg hc, if_pos hb, if_pos hb]
    · rw [if_neg hb, if_neg hb]

end Memory
end TileCompute
