import TileCompute.Number.Binary32

/-!
# TileCompute.Number.Decimal

The shortest decimal text of a single precision number.

The reals that round to a number form an interval around it, its ends included when the
significand is even. The text has the fewest digits of any decimal in that interval, and of those
is the nearest to the number; of two equally near ones it is the larger in magnitude. It is always
positional, without an exponent, and a whole number has no decimal point.
-/

namespace TileCompute

/-- The reals that round to a number: everything from `low` to `high`, over one denominator. -/
structure RoundingInterval where
  low : Nat
  value : Nat
  high : Nat
  denominator : Nat
  closed : Bool

namespace RoundingInterval

/-- The interval of a positive magnitude of `units`. Each end lies half-way to a neighbour; below
a power of two the neighbour is at half the distance. -/
def ofUnits (units : Nat) : RoundingInterval :=
  let precision := Format.single.precision
  let length := units.log2 + 1
  let gap := if precision < length then 2 ^ (length - precision) else 1
  let significand := units / gap
  let below := if significand = 2 ^ (precision - 1) ∧ 1 < gap then gap else 2 * gap
  { low := 4 * units - below
    value := 4 * units
    high := 4 * units + 2 * gap
    denominator := 4 * 2 ^ Format.single.unitScale
    closed := significand % 2 = 0 }

/-- Does `digits * 10^exponent` round to the number? -/
def contains (i : RoundingInterval) (digits : Nat) (exponent : Int) : Bool :=
  let scaledDigits := digits * 10 ^ exponent.toNat * i.denominator
  let scale := 10 ^ (-exponent).toNat
  if i.closed then i.low * scale ≤ scaledDigits ∧ scaledDigits ≤ i.high * scale
  else i.low * scale < scaledDigits ∧ scaledDigits < i.high * scale

/-- Largest decimal that is a multiple of `10^exponent` and at most the number, as its digits. -/
def floorDigits (i : RoundingInterval) (exponent : Int) : Nat :=
  (i.value * 10 ^ (-exponent).toNat) / (i.denominator * 10 ^ exponent.toNat)

/-- Is the multiple after `digits` on the grid `10^exponent` at least as near as `digits`? Half-way
between the two it is. -/
def prefersAbove (i : RoundingInterval) (digits : Nat) (exponent : Int) : Bool :=
  i.denominator * 10 ^ exponent.toNat * (2 * digits + 1) ≤ 2 * (i.value * 10 ^ (-exponent).toNat)

/-- The neighbour of the number on the grid `10^exponent` that rounds to it; if both do, the nearer
one, and the upper one half-way between them. -/
def onGrid (i : RoundingInterval) (exponent : Int) : Option Nat :=
  let below := i.floorDigits exponent
  match i.contains below exponent, i.contains (below + 1) exponent with
  | true, true => some (if i.prefersAbove below exponent then below + 1 else below)
  | true, false => some below
  | false, true => some (below + 1)
  | false, false => none

/-- The first hit on successively finer grids, at most `steps` of them. -/
def search (i : RoundingInterval) : (steps : Nat) → (exponent : Int) → Nat × Int
  | 0, exponent => (i.floorDigits exponent, exponent)
  | steps + 1, exponent =>
    match i.onGrid exponent with
    | some digits => (digits, exponent)
    | none => i.search steps (exponent - 1)

end RoundingInterval

/-- Writes `digits * 10^exponent` positionally. -/
def positionalText (digits : Nat) (exponent : Int) : String :=
  let text := Nat.toDigits 10 digits
  if 0 ≤ exponent then
    String.ofList (text ++ List.replicate exponent.toNat '0')
  else
    let places := (-exponent).toNat
    let padded := List.replicate (places + 1 - text.length) '0' ++ text
    String.ofList (padded.take (padded.length - places) ++
      '.' :: padded.drop (padded.length - places))

/-- Largest power of ten below the overflow threshold, where the search starts. -/
def coarsestGrid : Int := 39

/-- Steps from the coarsest grid to one finer than the least positive number. -/
def gridCount : Nat := 99

/-- The shortest decimal text that reads back as the number. -/
def Binary32.toText (x : Binary32) : String :=
  match x.datum with
  | .nan => "NaN"
  | .infinite negative => if negative then "-inf" else "inf"
  | .finite negative units =>
    let sign := if negative then "-" else ""
    if units = 0 then sign ++ "0"
    else
      let (digits, exponent) := (RoundingInterval.ofUnits units).search gridCount coarsestGrid
      sign ++ positionalText digits exponent

end TileCompute
