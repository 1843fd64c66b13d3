import Mathlib.Data.Int.Order.Lemmas
import TileCompute.Proofs.Elements

/-!
# TileCompute.Proofs.FixedElement

Fixed-point elements as integers. `Q8` and `Q16` differ in their width alone: each operation of
either is exact on the raw integers, then rounded at the binary point and saturated, an accumulator
at twice the width of the elements. Statements about both are made for any `FixedElement`.

* `FixedWidth.saturate_mono`, `roundedShift_mono`: rounding and saturation keep the order.
* `Binary32.toClampedInt_nonneg`: a factor that is at least zero stays so.
-/

namespace TileCompute

namespace FixedWidth

variable {w : FixedWidth} {u v : Int}

theorem saturate_mono (h : u ≤ v) : w.saturate u ≤ w.saturate v := by
  unfold saturate
  omega

@[simp] theorem saturate_saturate (v : Int) : w.saturate (w.saturate v) = w.saturate v :=
  w.saturate_of_mem (w.saturate_mem v).1 (w.saturate_mem v).2

theorem max_nonneg (w : FixedWidth) : 0 ≤ w.max := by cases w <;> decide

theorem saturate_nonneg (h : 0 ≤ v) : 0 ≤ w.saturate v := by
  have := w.max_nonneg
  unfold saturate
  omega

end FixedWidth

theorem roundedShift_mono {p q : Int} (h : p ≤ q) (frac : Nat) :
    roundedShift p frac ≤ roundedShift q frac := by
  rw [roundedShift_eq, roundedShift_eq]
  exact Int.ediv_le_ediv (Int.pow_pos (by decide)) (by omega)

/-- At least zero: not a NaN, and with a negative sign only if it is a zero. -/
def Datum.Nonneg : Datum → Prop
  | .nan => False
  | .infinite negative => negative = false
  | .finite negative units => negative = true → units = 0

instance : DecidablePred Datum.Nonneg
  | .nan => inferInstanceAs (Decidable False)
  | .infinite _ => inferInstanceAs (Decidable (_ = false))
  | .finite _ _ => inferInstanceAs (Decidable (_ = true → _ = 0))

theorem roundHalfUp_zero (s : Nat) : roundHalfUp 0 s = 0 := by
  rw [roundHalfUp, Nat.mul_zero, Nat.zero_add, Nat.shiftRight_eq_div_pow]
  exact Nat.div_eq_of_lt (Nat.pow_lt_pow_succ (by decide))

theorem Binary32.toClampedInt_nonneg {x : Binary32} (h : x.datum.Nonneg) (s : Nat) {lo hi : Int}
    (hi_nonneg : 0 ≤ hi) : 0 ≤ x.toClampedInt s lo hi := by
  unfold toClampedInt
  cases hx : x.datum with
  | nan => exact Int.le_refl 0
  | infinite negative =>
    rw [hx] at h
    cases h
    exact hi_nonneg
  | finite negative units =>
    rw [hx] at h
    cases negative with
    | false =>
      simp only [Bool.false_eq_true, if_false]
      omega
    | true =>
      cases h rfl
      simp only [Nat.zero_shiftLeft, roundHalfUp_zero]
      omega

/-- Elements that are fixed-point numbers: every operation is one of integers. -/
class FixedElement (α : Type) extends Element α where
  width : FixedWidth
  raw : α → Int
  /-- The number in an accumulator. -/
  held : Acc → Fixed
  dispatched : Dispatched kind α
  fixedPoint : kind = .qs8 ∨ kind = .qs16
  raw_zero : raw (ofWord 0) = 0
  held_accZero : ∀ frac, held (accZero frac) = ⟨0, width.widen, frac⟩
  held_mulAdd : ∀ frac s a b, held (mulAdd frac s a b) =
    (held s).saturatingMulAdd ⟨raw a, width, frac⟩ ⟨raw b, width, frac⟩
  raw_narrow : ∀ frac s, raw (narrow frac s) = width.saturate (held s).raw
  raw_scale : ∀ frac x factor, raw (scale frac x factor) =
    width.saturate (roundedShift (raw x * raw factor) frac)
  raw_scaledAdd : ∀ frac dst src factor, raw (scaledAdd frac dst src factor) =
    width.saturate (raw dst + roundedShift (raw src * raw factor) frac)
  raw_ofBinary32 : ∀ frac x, raw (ofBinary32 frac x) =
    width.saturate (x.toClampedInt frac width.min width.max)

namespace Q8

theorem toInt_raw_ofFixed (v : Fixed) : (ofFixed v).raw.toInt = FixedWidth.w8.saturate v.raw := by
  have mem := FixedWidth.w8.saturate_mem v.raw
  exact Int8.toInt_ofInt_of_le mem.1 (Int.lt_add_one_of_le mem.2)

instance : FixedElement Q8 where
  width := .w8
  raw x := x.raw.toInt
  held := id
  dispatched := .q8
  fixedPoint := .inl rfl
  raw_zero := rfl
  held_accZero _ := rfl
  held_mulAdd _ _ _ _ := rfl
  raw_narrow _ s := toInt_raw_ofFixed s
  raw_scale _ _ _ := (toInt_raw_ofFixed _).trans (FixedWidth.saturate_saturate _)
  raw_scaledAdd _ _ _ _ := (toInt_raw_ofFixed _).trans (FixedWidth.saturate_saturate _)
  raw_ofBinary32 _ _ := (toInt_raw_ofFixed _).trans (FixedWidth.saturate_saturate _)

end Q8

namespace Q16

theorem toInt_raw_ofFixed (v : Fixed) : (ofFixed v).raw.toInt = FixedWidth.w16.saturate v.raw := by
  have mem := FixedWidth.w16.saturate_mem v.raw
  exact Int16.toInt_ofInt_of_le mem.1 (Int.lt_add_one_of_le mem.2)

instance : FixedElement Q16 where
  width := .w16
  raw x := x.raw.toInt
  held := id
  dispatched := .q16
  fixedPoint := .inr rfl
  raw_zero := rfl
  held_accZero _ := rfl
  held_mulAdd _ _ _ _ := rfl
  raw_narrow _ s := toInt_raw_ofFixed s
  raw_scale _ _ _ := (toInt_raw_ofFixed _).trans (FixedWidth.saturate_saturate _)
  raw_scaledAdd _ _ _ _ := (toInt_raw_ofFixed _).trans (FixedWidth.saturate_saturate _)
  raw_ofBinary32 _ _ := (toInt_raw_ofFixed _).trans (FixedWidth.saturate_saturate _)

end Q16
end TileCompute
