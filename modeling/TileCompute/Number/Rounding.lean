/-!
# TileCompute.Number.Rounding

Binary interchange formats and rounding to the nearest of their numbers.

Every finite number of a format is a whole multiple of its least positive number, the *unit*, so
an exact intermediate result is a natural number of units, or a natural number of `2^-s` units
when it lies between them. `Format.encode` rounds such a magnitude to nearest, ties to even, and
overflows to infinity; `Format.decode` reads a bit pattern back as a count of units.
-/

namespace TileCompute

/-- Powers are those of natural numbers and integers, also where the powers of a monoid are in
scope. -/
instance (priority := high) powNat {α : Type} [NatPow α] : Pow α Nat := instPowNat

/-- A binary interchange format: `precision` significand digits, the leading one implied, and
`exponentWidth` bits of exponent. -/
structure Format where
  precision : Nat
  exponentWidth : Nat
deriving DecidableEq, Repr

namespace Format

/-- Binary32: the unit is `2^-149`. -/
def single : Format := ⟨24, 8⟩

/-- Binary16: the unit is `2^-24`. -/
def half : Format := ⟨11, 5⟩

/-- Weight of one step of the exponent field in a bit pattern. -/
def exponentStep (f : Format) : Nat := 2 ^ (f.precision - 1)

/-- Bit pattern of positive infinity: the exponent field all ones, the fraction zero. -/
def infinity (f : Format) : Nat := (2 ^ f.exponentWidth - 1) * f.exponentStep

def signWeight (f : Format) : Nat := 2 ^ f.exponentWidth * f.exponentStep

/-- Exponent of the unit as a power of one half: the unit is `2^-unitScale`. -/
def unitScale (f : Format) : Nat := 2 ^ (f.exponentWidth - 1) + f.precision - 3

end Format

/-- What a bit pattern stands for: a finite magnitude is counted in units of its format. -/
inductive Datum where
  | nan
  | infinite (negative : Bool)
  | finite (negative : Bool) (units : Nat)
deriving DecidableEq, Repr

/-- The quotient `n / 2^s` rounded to the nearest integer, a half going to the even neighbour. -/
def roundHalfEven (n s : Nat) : Nat :=
  let q := n >>> s
  let r := n % 2 ^ s
  if 2 ^ s < 2 * r ∨ (2 * r = 2 ^ s ∧ q % 2 = 1) then q + 1 else q

/-- The quotient `n / 2^s` rounded to the nearest integer, a half going up. -/
def roundHalfUp (n s : Nat) : Nat :=
  (2 * n + 2 ^ s) >>> (s + 1)

namespace Format

/-- Reads a bit pattern: an exponent field of zero holds the subnormal numbers. -/
def decode (f : Format) (bits : Nat) : Datum :=
  let negative := f.signWeight ≤ bits
  let rest := bits % f.signWeight
  let exponent := rest / f.exponentStep
  let fraction := rest % f.exponentStep
  if f.infinity ≤ rest then
    if fraction = 0 then .infinite negative else .nan
  else if exponent = 0 then .finite negative fraction
  else .finite negative ((f.exponentStep + fraction) <<< (exponent - 1))

/-- Bit pattern, without a sign, of the number nearest to `n * 2^-s` units. A significand that
rounds up to the next power of two carries into the exponent field. -/
def encode (f : Format) (n s : Nat) : Nat :=
  let length := if n = 0 then 0 else n.log2 + 1
  let exponent := length - (s + f.precision)
  min (exponent * f.exponentStep + roundHalfEven n (exponent + s)) f.infinity

def signed (f : Format) (negative : Bool) (magnitude : Nat) : Nat :=
  if negative then f.signWeight + magnitude else magnitude

/-- Bit pattern of the number nearest to `n * 2^-s` units. -/
def encodeInt (f : Format) (n : Int) (s : Nat) : Nat :=
  f.signed (n < 0) (f.encode n.natAbs s)

end Format

end TileCompute
