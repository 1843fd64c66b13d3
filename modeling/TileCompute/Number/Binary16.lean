import TileCompute.Number.Binary32

/-!
# TileCompute.Number.Binary16

Half precision numbers as bit patterns.

Arithmetic on halves is done in single precision and rounded back, so every operation here is a
conversion: `ofBinary32` rounds to nearest, ties to even, and `toBinary32` is exact.
-/

namespace TileCompute

/-- A half precision number, given by its bits. -/
structure Binary16 where
  bits : UInt16
deriving DecidableEq, Repr, Inhabited

namespace Binary16

def zero : Binary16 := ⟨0⟩

/-- The value as a count of units `2^-24`. -/
def datum (x : Binary16) : Datum := Format.half.decode x.bits.toNat

/-- Binary places between the units of the two formats. -/
def unitGap : Nat := Format.single.unitScale - Format.half.unitScale

/-- The half nearest to a single. A NaN keeps its sign and the top of its payload and becomes
quiet. -/
def ofBinary32 (x : Binary32) : Binary16 :=
  match x.datum with
  | .nan =>
    let sign := (x.bits >>> 16) &&& 0x8000
    let payload := (x.bits >>> 13) &&& 0x3ff
    ⟨(sign ||| 0x7e00 ||| payload).toUInt16⟩
  | .infinite negative => ⟨UInt16.ofNat (Format.half.signed negative Format.half.infinity)⟩
  | .finite negative units =>
    ⟨UInt16.ofNat (Format.half.signed negative (Format.half.encode units unitGap))⟩

/-- The single of the same value. -/
def toBinary32 (x : Binary16) : Binary32 :=
  match x.datum with
  | .nan =>
    let sign := (x.bits.toUInt32 &&& 0x8000) <<< 16
    let payload := (x.bits.toUInt32 &&& 0x3ff) <<< 13
    ⟨sign ||| 0x7fc00000 ||| payload⟩
  | .infinite negative => if negative then Binary32.negInfinity else Binary32.infinity
  | .finite negative units =>
    ⟨UInt32.ofNat (Format.single.signed negative (Format.single.encode (units <<< unitGap) 0))⟩

end Binary16

end TileCompute
