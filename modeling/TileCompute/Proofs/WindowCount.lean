import Mathlib.Data.Set.Card
import Mathlib.Order.Bounds.Basic
import TileCompute.Layer.Window
import TileCompute.Proofs.Radix

/-!
# TileCompute.Proofs.WindowCount

How many positions a window takes along an axis, padding included. Position `p` starts `p` strides
into the axis.

* `Window.lt_positions_floor`: rounded down, the positions are those from which a window does not
  reach past the end.
* `Window.succ_lt_positions_ceil`: rounded up, a further position follows every window that stops
  short of the end.
* `Window.axis_counted`: so each rounding counts what it should, and they differ by one at most.
* `Window.outputSize_counted`: the output of a sliding window, along both axes.
-/

namespace TileCompute

namespace Window

variable {total kernel stride p n : Nat}

theorem lt_positions_floor (hstride : 0 < stride) :
    p < positions .floor total kernel stride ↔ p * stride ≤ total - kernel := by
  rw [positions, Nat.lt_succ_iff, Nat.le_div_iff_mul_le hstride]

theorem succ_lt_positions_ceil (hstride : 0 < stride) :
    p + 1 < positions .ceil total kernel stride ↔ p * stride + kernel < total := by
  rw [positions, Nat.add_lt_add_iff_right, lt_ceilDiv_iff hstride, Nat.lt_sub_iff_add_lt]

/-- Two numbers of positions along an axis: what rounding down and rounding up should count. -/
structure AxisCounted (total kernel stride floor ceil : Nat) : Prop where
  /-- Rounded down, the positions from which a window lies inside the axis. -/
  inside : kernel ≤ total → {p | p * stride + kernel ≤ total}.encard = floor
  /-- A window that is longer than the axis has one position all the same. -/
  long : total < kernel → floor = 1
  /-- Rounded up, as many positions as it takes for the last window to reach the end. -/
  reaching : IsLeast {n | 1 ≤ n ∧ total ≤ (n - 1) * stride + kernel} ceil
  gap : ceil = floor ∨ ceil = floor + 1
  same_iff : ceil = floor ↔ total ≤ kernel ∨ stride ∣ total - kernel

theorem encard_inside (hstride : 0 < stride) (hfit : kernel ≤ total) :
    {p | p * stride + kernel ≤ total}.encard = positions .floor total kernel stride := by
  have hset : {p | p * stride + kernel ≤ total} =
      Finset.range (positions .floor total kernel stride) := by
    ext p
    rw [Finset.coe_range, Set.mem_Iio, lt_positions_floor hstride, Set.mem_ofPred_eq,
      Nat.le_sub_iff_add_le hfit]
  rw [hset, Set.encard_coe_eq_coe_finsetCard, Finset.card_range]

theorem isLeast_positions_ceil (hstride : 0 < stride) :
    IsLeast {n | 1 ≤ n ∧ total ≤ (n - 1) * stride + kernel}
      (positions .ceil total kernel stride) := by
  have hreach (n : Nat) : total ≤ n * stride + kernel ↔
      positions .ceil total kernel stride ≤ n + 1 := by
    rw [← Nat.not_lt, ← Nat.not_lt, succ_lt_positions_ceil hstride]
  constructor
  · exact ⟨Nat.succ_pos _, (hreach _).2 (Nat.le_refl _)⟩
  · rintro n ⟨hn, hend⟩
    have hle := (hreach (n - 1)).1 hend
    rwa [Nat.sub_add_cancel hn] at hle

theorem positions_ceil_eq (hstride : 0 < stride) :
    positions .ceil total kernel stride =
      positions .floor total kernel stride + if stride ∣ total - kernel then 0 else 1 := by
  rw [positions, positions, ceilDiv_eq _ hstride, Nat.add_right_comm]

theorem axis_counted (hstride : 0 < stride) :
    AxisCounted total kernel stride (positions .floor total kernel stride)
      (positions .ceil total kernel stride) where
  inside := encard_inside hstride
  long hlong := by
    rw [positions, Nat.sub_eq_zero_of_le hlong.le, Nat.zero_div]
  reaching := isLeast_positions_ceil hstride
  gap := by
    rw [positions_ceil_eq hstride]
    split
    · exact .inl rfl
    · exact .inr rfl
  same_iff := by
    have hshort : total ≤ kernel → stride ∣ total - kernel := fun h => by
      rw [Nat.sub_eq_zero_of_le h]
      exact Nat.dvd_zero stride
    rw [positions_ceil_eq hstride, or_iff_right_of_imp hshort]
    split <;> simp [*]

/-- An axis that fits in a word has no more positions than a word can count. -/
theorem inWords_axisNumbers {rounding : Rounding} {size before after : Nat} (hkernel : 0 < kernel)
    (hstride : 0 < stride) (hsize : size + before + after < 2 ^ 64) :
    InWords (axisNumbers rounding size before after kernel stride) := by
  have hspan : size + (before + after) - kernel < 2 ^ 64 - 1 := by omega
  have hpositions : positions rounding (size + (before + after)) kernel stride ≤
      size + (before + after) - kernel + 1 := by
    cases rounding with
    | floor => exact Nat.succ_le_succ (Nat.div_le_self ..)
    | ceil => exact Nat.succ_le_succ (ceilDiv_le hstride)
  simp only [axisNumbers, inWords_cons, inWords_nil, and_true]
  omega

/-- A window that moves has an output under either rounding, and along each axis its extents are
the two numbers of positions, if the axis with its padding fits in a word. -/
theorem outputSize_counted (w : Window) (width height kernelWidth kernelHeight : Nat)
    (hx : 0 < w.strideX) (hy : 0 < w.strideY) (hkx : 0 < kernelWidth) (hky : 0 < kernelHeight)
    (hwidth : width + w.left + w.right < 2 ^ 64) (hheight : height + w.top + w.bottom < 2 ^ 64) :
    ∃ floor ceil : Nat × Nat,
      { w with rounding := .floor }.outputSize? width height kernelWidth kernelHeight =
        some floor ∧
      { w with rounding := .ceil }.outputSize? width height kernelWidth kernelHeight =
        some ceil ∧
      AxisCounted (width + w.left + w.right) kernelWidth w.strideX floor.1 ceil.1 ∧
      AxisCounted (height + w.top + w.bottom) kernelHeight w.strideY floor.2 ceil.2 := by
  have hmoves (r : Rounding) : { w with rounding := r }.outputSize? width height kernelWidth
      kernelHeight = some ({ w with rounding := r }.outputSize width height kernelWidth
        kernelHeight) := by
    have hne : ¬(w.strideX = 0 ∨ w.strideY = 0) := by omega
    rw [outputSize?, if_neg hne]
    exact inWords?_of _
      (inWords_append.2 ⟨inWords_axisNumbers hkx hx hwidth, inWords_axisNumbers hky hy hheight⟩)
  refine ⟨_, _, hmoves .floor, hmoves .ceil, ?_, ?_⟩
  · rw [Nat.add_assoc]
    exact axis_counted hx
  · rw [Nat.add_assoc]
    exact axis_counted hy

/-- Five cells between one and two of padding, under a window of three with strides of two: three
windows fit, and a fourth one reaches the end. Along y the window is longer than the axis. -/
theorem outputSize_counted_padded :
    let w : Window := ⟨2, 1, 1, 2, 0, 0, .floor⟩
    (0 < w.strideX ∧ 0 < w.strideY) ∧
      { w with rounding := .floor }.outputSize? 5 2 3 3 = some (3, 1) ∧
      { w with rounding := .ceil }.outputSize? 5 2 3 3 = some (4, 1) ∧
      AxisCounted 8 3 2 3 4 ∧ AxisCounted 2 3 1 1 1 := by
  intro w
  have hstride : 0 < w.strideX ∧ 0 < w.strideY := by decide
  obtain ⟨floor, ceil, hfloor, hceil, hx, hy⟩ :=
    outputSize_counted w 5 2 3 3 hstride.1 hstride.2 (by decide) (by decide) (by decide) (by decide)
  obtain rfl : floor = (3, 1) := Option.some.inj (hfloor.symm.trans (by decide))
  obtain rfl : ceil = (4, 1) := Option.some.inj (hceil.symm.trans (by decide))
  exact ⟨hstride, hfloor, hceil, hx, hy⟩

/-- Three cells behind so much padding that the axis does not fit in a word have no output, although
the positions at every second cell could be counted. -/
theorem outputSize_fails_for_long_axis :
    let w : Window := ⟨2, 1, 2 ^ 64 - 1, 1, 0, 0, .floor⟩
    w.outputSize? 3 1 3 1 = none := by decide +kernel

end Window
end TileCompute
