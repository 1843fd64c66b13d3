import TileCompute.Number.Binary32

/-!
# TileCompute.Number.Fixed

Saturating fixed-point numbers.

A value is a raw integer together with its width and the position of its binary point: it stands
for `raw / 2^frac`. Products are formed exactly, rounded back to the position and then saturated
to the width of the result; only `wrappingAdd` reduces modulo the width. `Q8` and `Q16` are the
elements as they lie in memory, without width or position.

* `FixedWidth.saturate_mem`: saturation lands in the range of the width.
* `roundedShift_eq`: rounding a product adds one half and takes the floor.
-/

namespace TileCompute

/-- Bits of a fixed-point value. -/
inductive FixedWidth where
  | w8
  | w16
  | w32
deriving DecidableEq, Repr

namespace FixedWidth

def bits : FixedWidth → Nat
  | w8 => 8
  | w16 => 16
  | w32 => 32

def min (w : FixedWidth) : Int := -2 ^ (w.bits - 1)

def max (w : FixedWidth) : Int := 2 ^ (w.bits - 1) - 1

def widen : FixedWidth → FixedWidth
  | w8 => w16
  | w16 => w32
  | w32 => w32

/-- The nearest raw value in range. -/
def saturate (w : FixedWidth) (v : Int) : Int := Max.max w.min (Min.min v w.max)

/-- The raw value congruent to `v` modulo two to the width. -/
def wrap (w : FixedWidth) (v : Int) : Int := v.bmod (2 ^ w.bits)

theorem min_le_max (w : FixedWidth) : w.min ≤ w.max := by cases w <;> decide

theorem saturate_mem (w : FixedWidth) (v : Int) : w.min ≤ w.saturate v ∧ w.saturate v ≤ w.max := by
  have := w.min_le_max
  unfold saturate
  omega

theorem saturate_of_mem (w : FixedWidth) {v : Int} (lo : w.min ≤ v) (hi : v ≤ w.max) :
    w.saturate v = v := by
  unfold saturate
  omega

end FixedWidth

/-- A full product brought back to `frac` fractional bits, rounding to nearest, a half going
up. -/
def roundedShift (product : Int) (frac : Nat) : Int :=
  if frac = 0 then product else (product + 2 ^ (frac - 1)) >>> frac

/-- Rounding adds one half and takes the floor. -/
theorem roundedShift_eq (p : Int) (frac : Nat) :
    roundedShift p frac = (2 * p + 2 ^ frac) / 2 ^ (frac + 1) := by
  unfold roundedShift
  cases frac with
  | zero => simp; omega
  | succ f =>
    have h : (2 * p + 2 ^ (f + 1) : Int) = 2 * (p + 2 ^ f) := by rw [Int.pow_succ]; omega
    rw [if_neg (Nat.succ_ne_zero f), Int.shiftRight_eq_div_pow, h,
      show (2 ^ (f + 1 + 1) : Int) = 2 * 2 ^ (f + 1) by rw [Int.pow_succ 2 (f + 1)]; omega,
      Int.mul_ediv_mul_of_pos _ _ (by decide)]
    simp

/-- A fixed-point value, standing for `raw / 2^frac`. -/
structure Fixed where
  raw : Int
  width : FixedWidth
  frac : Nat
deriving DecidableEq, Repr

namespace Fixed

/-- Builds a value from any integer, saturating it to the width. -/
def saturatingOfRaw (raw : Int) (width : FixedWidth) (frac : Nat) : Fixed :=
  ⟨width.saturate raw, width, frac⟩

/-- The value nearest to a number, a half going away from zero; zero for a NaN. -/
def ofBinary32 (x : Binary32) (width : FixedWidth) (frac : Nat) : Fixed :=
  saturatingOfRaw (x.toClampedInt frac width.min width.max) width frac

def toBinary32 (v : Fixed) : Binary32 := Binary32.ofScaledInt v.raw v.frac

def saturatingAdd (a b : Fixed) : Fixed := saturatingOfRaw (a.raw + b.raw) a.width a.frac

def wrappingAdd (a b : Fixed) : Fixed := { a with raw := a.width.wrap (a.raw + b.raw) }

/-- The product, rounded at the position and saturated. -/
def saturatingMul (a b : Fixed) : Fixed :=
  saturatingOfRaw (roundedShift (a.raw * b.raw) a.frac) a.width a.frac

/-- The sum of an accumulator and a rounded product, saturated once at the accumulator's
width. -/
def saturatingMulAdd (acc a b : Fixed) : Fixed :=
  saturatingOfRaw (acc.raw + roundedShift (a.raw * b.raw) a.frac) acc.width acc.frac

/-- The same value at another width, saturating. -/
def saturatingNarrow (v : Fixed) (width : FixedWidth) : Fixed :=
  saturatingOfRaw v.raw width v.frac

end Fixed

/-- An eight-bit fixed-point element. -/
structure Q8 where
  raw : Int8
deriving DecidableEq, Repr, Inhabited

/-- A sixteen-bit fixed-point element. -/
structure Q16 where
  raw : Int16
deriving DecidableEq, Repr, Inhabited

namespace Q8

def toFixed (x : Q8) (frac : Nat) : Fixed := ⟨x.raw.toInt, .w8, frac⟩

def ofFixed (v : Fixed) : Q8 := ⟨Int8.ofInt (v.saturatingNarrow .w8).raw⟩

end Q8

namespace Q16

def toFixed (x : Q16) (frac : Nat) : Fixed := ⟨x.raw.toInt, .w16, frac⟩

def ofFixed (v : Fixed) : Q16 := ⟨Int16.ofInt (v.saturatingNarrow .w16).raw⟩

end Q16

end TileCompute
