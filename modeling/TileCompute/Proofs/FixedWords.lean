import Mathlib.Data.Int.ModEq
import Mathlib.Data.Rat.Floor
import Mathlib.Order.Interval.Set.ProjIcc
import Mathlib.Tactic.FieldSimp
import Mathlib.Tactic.Linarith
import Mathlib.Tactic.Ring
import TileCompute.Number.Fixed

/-!
# TileCompute.Proofs.FixedWords

Fixed-point arithmetic in machine words. `Fixed` calculates with integers of any size. Here its
operations work on raw 32-bit words with 64-bit words in between, and give none if one of these
overflows or if operands do not agree as the operation asserts.

* `roundedShift_eq_floor`: a product is divided exactly, and the quotient plus one half rounded down.
* `FixedWidth.wrap_eq_iff`: wrapping gives the only number in range with the same remainder.
* `FixedWidth.wrap_eq_saturate_iff`: when a wrapped sum is the saturated one.
* `exists_roundedShift64?`: nothing overflows on the way to a rounded product, at positions up to 62.
* `FixedWord.exists_saturatingMul?` and the like: each operation gives the same value in words.
-/

namespace TileCompute

/-! ### Rounding, saturation and wraparound in exact numbers -/

/-- Rounding is exact: one half is added to the quotient, which is then rounded down. -/
theorem roundedShift_eq_floor (p : Int) (frac : Nat) :
    roundedShift p frac = ⌊(p : ℚ) / 2 ^ frac + 1 / 2⌋ := by
  have quotient : (p : ℚ) / 2 ^ frac + 1 / 2 =
      ((2 * p + 2 ^ frac : Int) : ℚ) / ((2 ^ (frac + 1) : Nat) : ℚ) := by
    push_cast
    rw [pow_succ]
    field_simp
  rw [quotient, Rat.floor_intCast_div_natCast, roundedShift_eq]
  norm_cast

/-- A rounded product is no further from zero than the product itself. -/
theorem roundedShift_between (p : Int) (frac : Nat) :
    min p 0 ≤ roundedShift p frac ∧ roundedShift p frac ≤ max p 0 := by
  have unit : (1 : Int) ≤ 2 ^ frac := Int.pow_pos (by decide)
  have double : (2 ^ (frac + 1) : Int) = 2 * 2 ^ frac := by ring
  have divisor : (0 : Int) < 2 * 2 ^ frac := by omega
  rw [roundedShift_eq, double]
  rcases Int.le_total p 0 with h | h
  · have scaled : p * 2 ^ frac ≤ p := mul_le_of_one_le_right h unit
    rw [min_eq_left h, max_eq_right h]
    constructor
    · exact (Int.le_ediv_iff_mul_le divisor).2 (by linarith)
    · exact Int.le_of_lt_add_one ((Int.ediv_lt_iff_lt_mul divisor).2 (by linarith))
  · have scaled : p ≤ p * 2 ^ frac := le_mul_of_one_le_right h unit
    rw [min_eq_right h, max_eq_left h]
    constructor
    · exact (Int.le_ediv_iff_mul_le divisor).2 (by linarith)
    · exact Int.le_of_lt_add_one ((Int.ediv_lt_iff_lt_mul divisor).2 (by linarith))

/-- The product of two raw values at the position of the first one, rounded to nearest, a half going
up. -/
def Fixed.nearestProduct (a b : Fixed) : Int :=
  ⌊((a.raw * b.raw : Int) : ℚ) / 2 ^ a.frac + 1 / 2⌋

theorem Fixed.roundedShift_raw_mul (a b : Fixed) :
    roundedShift (a.raw * b.raw) a.frac = a.nearestProduct b := roundedShift_eq_floor ..

namespace FixedWidth

variable {w : FixedWidth} {u v r : Int}

/-- The raw values of a width. -/
def range (w : FixedWidth) : Set Int := {r | w.min ≤ r ∧ r ≤ w.max}

theorem mem_range : v ∈ w.range ↔ w.min ≤ v ∧ v ≤ w.max := Iff.rfl

/-- The nearest raw value. -/
def clamp (w : FixedWidth) (v : Int) : Int := Set.projIcc w.min w.max w.min_le_max v

theorem saturate_eq_clamp (w : FixedWidth) (v : Int) : w.saturate v = w.clamp v := by
  rw [saturate, clamp, Set.coe_projIcc, min_comm]

theorem saturate_mem_range (w : FixedWidth) (v : Int) : w.saturate v ∈ w.range := w.saturate_mem v

/-- Wrapping gives the only raw value with the same remainder. -/
theorem wrap_eq_iff : w.wrap v = r ↔ r ∈ w.range ∧ r ≡ v [ZMOD 2 ^ w.bits] := by
  rw [wrap, Int.bmod_eq_iff (Nat.pow_pos (by decide)), Int.modEq_comm, Int.modEq_iff_dvd,
    mem_range, and_assoc]
  cases w <;> simp [FixedWidth.min, FixedWidth.max, bits] <;> omega

theorem wrap_mem_range (w : FixedWidth) (v : Int) : w.wrap v ∈ w.range := (wrap_eq_iff.1 rfl).1

/-- A wrapped sum is the saturated one just if it did not have to be wrapped. -/
theorem wrap_eq_saturate_iff (hu : u ∈ w.range) (hv : v ∈ w.range) :
    w.wrap (u + v) = w.saturate (u + v) ↔ u + v ∈ w.range := by
  rw [wrap_eq_iff, and_iff_right (w.saturate_mem_range _), Int.modEq_comm, Int.modEq_iff_dvd]
  simp only [mem_range, saturate] at *
  cases w <;> simp only [FixedWidth.min, FixedWidth.max, bits] at * <;> omega

end FixedWidth

/-! ### Words -/

/-- The 64-bit word that holds a number, if there is one. -/
def word64? (v : Int) : Option Int64 :=
  if -2 ^ 63 ≤ v ∧ v < 2 ^ 63 then some (.ofInt v) else none

theorem exists_word64? {v : Int} (lo : -2 ^ 63 ≤ v) (hi : v < 2 ^ 63) :
    ∃ x, word64? v = some x ∧ x.toInt = v :=
  ⟨.ofInt v, if_pos ⟨lo, hi⟩, Int64.toInt_ofInt_of_le lo hi⟩

/-- A product brought back to its position, if neither one half, which there is up to position 63,
nor its sum with the product overflows. -/
def roundedShift64? (product : Int64) (frac : UInt8) : Option Int64 :=
  if frac = 0 then some product
  else do
    let half ← word64? (2 ^ (frac - 1).toNat)
    let sum ← word64? (product.toInt + half.toInt)
    word64? (sum.toInt >>> frac.toNat)

theorem exists_roundedShift64? {p : Int64} {frac : UInt8} (lo : -2 ^ 62 ≤ p.toInt)
    (hi : p.toInt ≤ 2 ^ 62) (position : frac.toNat ≤ 62) :
    ∃ r, roundedShift64? p frac = some r ∧ r.toInt = roundedShift p.toInt frac.toNat := by
  unfold roundedShift64?
  by_cases zero : frac = 0
  · exact ⟨p, if_pos zero, by rw [zero]; rfl⟩
  · have positive : frac.toNat ≠ 0 := fun h => zero (UInt8.toNat_inj.1 h)
    have shift : (frac - 1).toNat = frac.toNat - 1 :=
      UInt8.toNat_sub_of_le _ _ (UInt8.le_iff_toNat_le.2 (Nat.pos_of_ne_zero positive))
    have half_nonneg : (0 : Int) ≤ 2 ^ (frac.toNat - 1) := Int.pow_nonneg (by decide)
    -- a product is at most 2 ^ 62, which leaves room for a half of up to 2 ^ 61
    have half_le : (2 ^ (frac.toNat - 1) : Int) ≤ 2 ^ 61 :=
      pow_le_pow_right₀ (by decide) (by omega)
    obtain ⟨half, half_eq, half_val⟩ :=
      exists_word64? (v := 2 ^ (frac.toNat - 1)) (by omega) (by omega)
    obtain ⟨sum, sum_eq, sum_val⟩ :=
      exists_word64? (v := p.toInt + 2 ^ (frac.toNat - 1)) (by omega) (by omega)
    have rounded : sum.toInt >>> frac.toNat = roundedShift p.toInt frac.toNat := by
      rw [sum_val, roundedShift, if_neg positive]
    obtain ⟨lower, upper⟩ := roundedShift_between p.toInt frac.toNat
    obtain ⟨r, r_eq, r_val⟩ :=
      exists_word64? (v := roundedShift p.toInt frac.toNat) (by omega) (by omega)
    refine ⟨r, ?_, r_val⟩
    simp only [if_neg zero, shift, half_eq, Option.bind_eq_bind, Option.bind_some, half_val, sum_eq,
      rounded, r_eq]

/-- One position further the largest product overflows. -/
example : (word64? (2 ^ 62)).bind (roundedShift64? · 63) = none := by decide

namespace FixedWidth

def min64 : FixedWidth → Int64
  | w8 => Int8.minValue.toInt64
  | w16 => Int16.minValue.toInt64
  | w32 => Int32.minValue.toInt64

def max64 : FixedWidth → Int64
  | w8 => Int8.maxValue.toInt64
  | w16 => Int16.maxValue.toInt64
  | w32 => Int32.maxValue.toInt64

def saturate32 (w : FixedWidth) (v : Int64) : Int32 :=
  (if v < w.min64 then w.min64 else if w.max64 < v then w.max64 else v).toInt32

/-- The low bits of a word, the highest of them taken for the sign. -/
def wrap32 : FixedWidth → Int64 → Int32
  | w8, v => v.toInt8.toInt32
  | w16, v => v.toInt16.toInt32
  | w32, v => v.toInt32

theorem toInt_min64 (w : FixedWidth) : w.min64.toInt = w.min := by cases w <;> decide

theorem toInt_max64 (w : FixedWidth) : w.max64.toInt = w.max := by cases w <;> decide

/-- A raw value of any width has the same value as a 32-bit word. -/
theorem bmod_of_mem_range {w : FixedWidth} {v : Int} (h : v ∈ w.range) : v.bmod (2 ^ 32) = v := by
  apply Int.bmod_eq_of_le_mul_two <;>
  · rw [mem_range] at h
    cases w <;> simp only [FixedWidth.min, FixedWidth.max, bits] at h <;> omega

theorem toInt_saturate32 (w : FixedWidth) (v : Int64) :
    (w.saturate32 v).toInt = w.saturate v.toInt := by
  have nearest : (if v < w.min64 then w.min64 else if w.max64 < v then w.max64 else v).toInt =
      w.saturate v.toInt := by
    have := w.min_le_max
    simp only [apply_ite Int64.toInt, Int64.lt_iff_toInt_lt, toInt_min64, toInt_max64, saturate]
    split <;> [skip; split] <;> omega
  rw [saturate32, Int64.toInt_toInt32, nearest, bmod_of_mem_range (w.saturate_mem_range _)]

theorem toInt_wrap32 (w : FixedWidth) (v : Int64) : (w.wrap32 v).toInt = w.wrap v.toInt := by
  cases w <;> simp [wrap32, wrap, bits]

end FixedWidth

/-! ### Values in words -/

/-- A fixed-point value with its raw number in a 32-bit word. -/
structure FixedWord where
  raw : Int32
  width : FixedWidth
  frac : UInt8
deriving DecidableEq, Repr

namespace FixedWord

def toFixed (x : FixedWord) : Fixed := ⟨x.raw.toInt, x.width, x.frac.toNat⟩

def saturatingOfRaw (raw : Int64) (width : FixedWidth) (frac : UInt8) : FixedWord :=
  ⟨width.saturate32 raw, width, frac⟩

def saturatingNarrow (x : FixedWord) (width : FixedWidth) : FixedWord :=
  saturatingOfRaw x.raw.toInt64 width x.frac

def saturatingAdd? (a b : FixedWord) : Option FixedWord := do
  guard (a.frac = b.frac)
  return saturatingOfRaw (← word64? (a.raw.toInt + b.raw.toInt)) a.width a.frac

def wrappingAdd? (a b : FixedWord) : Option FixedWord := do
  guard (a.frac = b.frac)
  return { a with raw := a.width.wrap32 (← word64? (a.raw.toInt + b.raw.toInt)) }

/-- The rounded product before it is saturated. -/
def product? (a b : FixedWord) : Option Int64 := do
  roundedShift64? (← word64? (a.raw.toInt * b.raw.toInt)) a.frac

def saturatingMul? (a b : FixedWord) : Option FixedWord := do
  guard (a.frac = b.frac)
  return saturatingOfRaw (← a.product? b) a.width a.frac

/-- The sum of an accumulator, which is asserted to have the given width, and a rounded product. The
positions may differ. -/
def saturatingMulAdd? (width : FixedWidth) (acc a b : FixedWord) : Option FixedWord := do
  guard (acc.width = width)
  let sum ← word64? (acc.raw.toInt + (← a.product? b).toInt)
  return saturatingOfRaw sum acc.width acc.frac

variable {acc a b : FixedWord}

theorem toFixed_saturatingOfRaw (raw : Int64) (width : FixedWidth) (frac : UInt8) :
    (saturatingOfRaw raw width frac).toFixed =
      .saturatingOfRaw raw.toInt width frac.toNat := by
  simp only [saturatingOfRaw, toFixed, FixedWidth.toInt_saturate32, Fixed.saturatingOfRaw]

theorem toFixed_saturatingNarrow (x : FixedWord) (width : FixedWidth) :
    (x.saturatingNarrow width).toFixed = x.toFixed.saturatingNarrow width := by
  rw [saturatingNarrow, toFixed_saturatingOfRaw, Int32.toInt_toInt64]
  rfl

/-- The sum of a raw value and a number no larger than a product. -/
theorem exists_sum64? (x : Int32) {v : Int} (lo : -2 ^ 62 ≤ v) (hi : v ≤ 2 ^ 62) :
    ∃ s, word64? (x.toInt + v) = some s ∧ s.toInt = x.toInt + v := by
  have := x.le_toInt
  have := x.toInt_lt
  exact exists_word64? (by omega) (by omega)

theorem exists_rawSum64? (x y : Int32) :
    ∃ s, word64? (x.toInt + y.toInt) = some s ∧ s.toInt = x.toInt + y.toInt := by
  have := y.le_toInt
  have := y.toInt_lt
  exact exists_sum64? x (by omega) (by omega)

theorem exists_saturatingAdd? (agree : a.frac = b.frac) :
    ∃ x, a.saturatingAdd? b = some x ∧ x.toFixed = a.toFixed.saturatingAdd b.toFixed := by
  obtain ⟨s, sum, value⟩ := exists_rawSum64? a.raw b.raw
  refine ⟨saturatingOfRaw s a.width a.frac, by simp [saturatingAdd?, agree, sum], ?_⟩
  rw [toFixed_saturatingOfRaw, value]
  rfl

theorem exists_wrappingAdd? (agree : a.frac = b.frac) :
    ∃ x, a.wrappingAdd? b = some x ∧ x.toFixed = a.toFixed.wrappingAdd b.toFixed := by
  obtain ⟨s, sum, value⟩ := exists_rawSum64? a.raw b.raw
  refine ⟨{ a with raw := a.width.wrap32 s }, by simp [wrappingAdd?, agree, sum], ?_⟩
  simp only [toFixed, FixedWidth.toInt_wrap32, value]
  rfl

theorem abs_raw_mul_le (a b : FixedWord) : |a.raw.toInt * b.raw.toInt| ≤ 2 ^ 62 := by
  have bound (x : Int32) : |x.toInt| ≤ 2 ^ 31 :=
    abs_le.2 ⟨x.le_toInt, x.toInt_lt.le⟩
  rw [abs_mul]
  exact Int.mul_le_mul (bound a.raw) (bound b.raw) (abs_nonneg _) (by decide)

theorem exists_product? (position : a.frac.toNat ≤ 62) :
    ∃ r, a.product? b = some r ∧
      r.toInt = roundedShift (a.raw.toInt * b.raw.toInt) a.frac.toNat := by
  obtain ⟨lo, hi⟩ := abs_le.1 (abs_raw_mul_le a b)
  obtain ⟨p, product, value⟩ :=
    exists_word64? (v := a.raw.toInt * b.raw.toInt) (by omega) (by omega)
  obtain ⟨r, shifted, rounded⟩ := exists_roundedShift64? (value ▸ lo) (value ▸ hi) position
  exact ⟨r, by simp [product?, product, shifted], value ▸ rounded⟩

theorem exists_saturatingMul? (agree : a.frac = b.frac) (position : a.frac.toNat ≤ 62) :
    ∃ x, a.saturatingMul? b = some x ∧ x.toFixed = a.toFixed.saturatingMul b.toFixed := by
  obtain ⟨r, product, value⟩ := exists_product? (b := b) position
  refine ⟨saturatingOfRaw r a.width a.frac, by simp [saturatingMul?, agree, product], ?_⟩
  rw [toFixed_saturatingOfRaw, value]
  rfl

theorem exists_saturatingMulAdd? {width : FixedWidth} (agree : acc.width = width)
    (position : a.frac.toNat ≤ 62) :
    ∃ x, saturatingMulAdd? width acc a b = some x ∧
      x.toFixed = acc.toFixed.saturatingMulAdd a.toFixed b.toFixed := by
  obtain ⟨r, product, rounded⟩ := exists_product? (b := b) position
  obtain ⟨lo, hi⟩ := abs_le.1 (abs_raw_mul_le a b)
  obtain ⟨lower, upper⟩ := roundedShift_between (a.raw.toInt * b.raw.toInt) a.frac.toNat
  obtain ⟨s, sum, value⟩ := exists_sum64? acc.raw (v := r.toInt) (by omega) (by omega)
  refine ⟨saturatingOfRaw s acc.width acc.frac, ?_, ?_⟩
  · simp [saturatingMulAdd?, agree, product, sum]
  · rw [toFixed_saturatingOfRaw, value, rounded]
    rfl

end FixedWord

end TileCompute
