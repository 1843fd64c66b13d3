import TileCompute.Grid

/-!
# TileCompute.Proofs.Radix

Numbers put together from a low digit and a rest, `x + X * q` with `x < X`, and quotients rounded
up. Addresses, element numbers and work-item numbers are all such numbers, so their bounds and the
fact that they can be taken apart again come from here.
-/

namespace TileCompute

theorem radix_mod {x X : Nat} (h : x < X) (q : Nat) : (x + X * q) % X = x := by
  rw [Nat.add_mul_mod_self_left, Nat.mod_eq_of_lt h]

theorem radix_div {x X : Nat} (h : x < X) (q : Nat) : (x + X * q) / X = q := by
  rw [Nat.add_mul_div_left _ _ (by omega), Nat.div_eq_of_lt h, Nat.zero_add]

theorem radix_lt {x X q Q : Nat} (hx : x < X) (hq : q < Q) : x + X * q < X * Q :=
  calc x + X * q < X + X * q := by omega
    _ = X * (q + 1) := by rw [Nat.mul_succ, Nat.add_comm]
    _ ≤ X * Q := Nat.mul_le_mul_left X hq

theorem radix_inj {x y X q r : Nat} (hx : x < X) (hy : y < X) (h : x + X * q = y + X * r) :
    x = y ∧ q = r := by
  constructor
  · rw [← radix_mod hx q, h, radix_mod hy]
  · rw [← radix_div hx q, h, radix_div hy]

/-- Digit `i` of block `b`, counted inside its group of `v` blocks. -/
theorem lane_lt {i h v : Nat} (hi : i < h) (hv : 0 < v) (b : Nat) : i + h * (b % v) < h * v :=
  radix_lt hi (Nat.mod_lt b hv)

/-- A group of `v` blocks and a lane inside it give back the digit and the block. -/
theorem lane_add_group (i h v b : Nat) : i + h * (b % v) + h * v * (b / v) = i + h * b := by
  rw [Nat.add_assoc, Nat.mul_assoc, ← Nat.mul_add, Nat.mod_add_div]

/-- The multiples of `b` below `a` are as many as the quotient rounded up. -/
theorem lt_ceilDiv_iff {a b q : Nat} (hb : 0 < b) : q < ceilDiv a b ↔ q * b < a := by
  unfold ceilDiv
  rw [Nat.lt_iff_add_one_le, Nat.le_div_iff_mul_le hb, Nat.add_mul]
  omega

/-- Rounding up adds one to the quotient, unless the division leaves no rest. -/
theorem ceilDiv_eq (a : Nat) {b : Nat} (hb : 0 < b) :
    ceilDiv a b = a / b + if b ∣ a then 0 else 1 := by
  have hsum : b * (a / b) + a % b = a := Nat.div_add_mod a b
  have hlt : a % b < b := Nat.mod_lt a hb
  have hrest : (a % b + b - 1) / b = if b ∣ a then 0 else 1 := by
    split
    · next h =>
      rw [Nat.mod_eq_zero_of_dvd h, Nat.zero_add]
      exact Nat.div_eq_of_lt (Nat.sub_one_lt_of_lt hb)
    · next h =>
      have hne : a % b ≠ 0 := fun h0 => h (Nat.dvd_of_mod_eq_zero h0)
      exact Nat.div_eq_of_lt_le (by omega) (by omega)
  calc ceilDiv a b = (a % b + b - 1 + b * (a / b)) / b := by
        rw [ceilDiv]
        congr 1
        omega
    _ = a / b + if b ∣ a then 0 else 1 := by
        rw [Nat.add_mul_div_left _ _ hb, hrest, Nat.add_comm]

theorem div_lt_ceilDiv {a b i : Nat} (hb : 0 < b) (h : i < a) : i / b < ceilDiv a b := by
  rw [lt_ceilDiv_iff hb]
  exact Nat.lt_of_le_of_lt (Nat.div_mul_le_self i b) h

theorem ceilDiv_le {a b : Nat} (hb : 0 < b) : ceilDiv a b ≤ a := by
  unfold ceilDiv
  rw [Nat.div_le_iff_le_mul_add_pred hb]
  have := Nat.le_mul_of_pos_left a hb
  omega

theorem group_lt {i e b g : Nat} (hb : 0 < b) (hg : 0 < g) (h : i < e) :
    i / (b * g) < ceilDiv (ceilDiv e b) g := by
  rw [← Nat.div_div_eq_div_mul]
  exact div_lt_ceilDiv hg (div_lt_ceilDiv hb h)

/-- The quotient of a sum of a digit and a rest tells the rest. -/
theorem div_eq_iff_block {b i q : Nat} (hb : 0 < b) : i / b = q ↔ q * b ≤ i ∧ i < q * b + b := by
  rw [Nat.div_eq_iff hb]
  omega

/-- Numbers below a product, digit by digit. -/
theorem range_mul (X Q : Nat) : List.range (X * Q) =
    (List.range Q).flatMap fun q => (List.range X).map fun x => x + X * q := by
  induction Q with
  | zero => rfl
  | succ Q ih =>
    rw [Nat.mul_succ, List.range_add, ih, List.range_succ, List.flatMap_append]
    simp [Nat.add_comm]

namespace Grid

theorem mem_items {g : Grid} {i : WorkItem} :
    i ∈ g.items ↔ i.x < g.x ∧ i.y < g.y ∧ i.z < g.z := by
  simp only [items, List.mem_map, List.mem_range, size]
  constructor
  · rintro ⟨n, hn, rfl⟩
    have hx : 0 < g.x := by
      rcases Nat.eq_zero_or_pos g.x with h | h
      · simp [h] at hn
      · exact h
    have hy : 0 < g.y := by
      rcases Nat.eq_zero_or_pos g.y with h | h
      · simp [h] at hn
      · exact h
    refine ⟨Nat.mod_lt _ hx, Nat.mod_lt _ hy, ?_⟩
    show n / g.x / g.y < g.z
    rw [Nat.div_div_eq_div_mul, Nat.div_lt_iff_lt_mul (Nat.mul_pos hx hy), Nat.mul_comm]
    exact hn
  · rintro ⟨hx, hy, hz⟩
    refine ⟨i.x + g.x * (i.y + g.y * i.z), ?_, ?_⟩
    · rw [Nat.mul_assoc]
      exact radix_lt hx (radix_lt hy hz)
    · simp only [item, radix_mod hx, radix_div hx, radix_mod hy, radix_div hy]

theorem nodup_items (g : Grid) : g.items.Nodup := by
  rw [items, List.nodup_iff_pairwise_ne, List.pairwise_map]
  apply List.nodup_range.imp
  intro a b hab he
  simp only [item, WorkItem.mk.injEq] at he
  obtain ⟨h1, h2, h3⟩ := he
  have hd : a / g.x = b / g.x := by
    rw [← Nat.mod_add_div (a / g.x) g.y, h2, h3, Nat.mod_add_div]
  exact hab (by rw [← Nat.mod_add_div a g.x, h1, hd, Nat.mod_add_div])

end Grid
end TileCompute
