import TileCompute.Number.Rounding

/-!
# TileCompute.Number.Binary32

Single precision numbers as bit patterns.

A value keeps its 32 bits, so a NaN that is only moved keeps its payload. Sum, product, quotient
and square root are the rounded operations of `Float32`; the fused multiply-add is computed
exactly and rounded once. Conversions from and to integers and fixed positions are exact up to one
rounding.
-/

namespace TileCompute

/-- A single precision number, given by its bits. -/
structure Binary32 where
  bits : UInt32
deriving DecidableEq, Repr, Inhabited

namespace Binary32

def ofFloat32 (x : Float32) : Binary32 := ⟨x.toBits⟩

def toFloat32 (x : Binary32) : Float32 := Float32.ofBits x.bits

/-- The value as a count of units `2^-149`. -/
def datum (x : Binary32) : Datum := Format.single.decode x.bits.toNat

def zero : Binary32 := ⟨0⟩

def one : Binary32 := ⟨0x3f800000⟩

def nan : Binary32 := ⟨0x7fc00000⟩

def infinity : Binary32 := ⟨0x7f800000⟩

def negInfinity : Binary32 := ⟨0xff800000⟩

def isNaN (x : Binary32) : Bool :=
  0x7f800000 < x.bits &&& 0x7fffffff

instance : Add Binary32 := ⟨fun x y => ofFloat32 (x.toFloat32 + y.toFloat32)⟩
instance : Sub Binary32 := ⟨fun x y => ofFloat32 (x.toFloat32 - y.toFloat32)⟩
instance : Mul Binary32 := ⟨fun x y => ofFloat32 (x.toFloat32 * y.toFloat32)⟩
instance : Div Binary32 := ⟨fun x y => ofFloat32 (x.toFloat32 / y.toFloat32)⟩

instance : Neg Binary32 := ⟨fun x => ⟨x.bits ^^^ 0x80000000⟩⟩

def abs (x : Binary32) : Binary32 := ⟨x.bits &&& 0x7fffffff⟩

def sqrt (x : Binary32) : Binary32 := ofFloat32 x.toFloat32.sqrt

/-- Equality of values: the two zeros are equal, a NaN differs from everything. -/
def eqv (x y : Binary32) : Bool := x.toFloat32 == y.toFloat32

/-- Order of values; false when either is a NaN. -/
def lt (x y : Binary32) : Bool := x.toFloat32 < y.toFloat32

/-- The larger value; a NaN gives way to the other operand. -/
def max (x y : Binary32) : Binary32 :=
  if x.isNaN then y
  else if y.isNaN then x
  else if x.lt y then y else x

/-- The smaller value; a NaN gives way to the other operand. -/
def min (x y : Binary32) : Binary32 :=
  if x.isNaN then y
  else if y.isNaN then x
  else if y.lt x then y else x

def exp (x : Binary32) : Binary32 := ofFloat32 x.toFloat32.exp

def tanh (x : Binary32) : Binary32 := ofFloat32 x.toFloat32.tanh

def pow (x y : Binary32) : Binary32 := ofFloat32 (x.toFloat32.pow y.toFloat32)

/-- `log (1 + x)`. The sum `u = 1 + x` loses low digits of `x`; the factor `x / (u - 1)` puts
them back. -/
def log1p (x : Binary32) : Binary32 :=
  let v := x.toFloat32.toFloat
  let u := 1.0 + v
  if u == 1.0 then x
  else if u.isInf then ofFloat32 u.toFloat32
  else ofFloat32 (u.log * (v / (u - 1.0))).toFloat32

/-- The number nearest to `n / 2^s`. -/
def ofScaledInt (n : Int) (s : Nat) : Binary32 :=
  ⟨UInt32.ofNat (Format.single.encodeInt (n * 2 ^ Format.single.unitScale) s)⟩

/-- The number nearest to an integer. -/
def ofInt (n : Int) : Binary32 := ofScaledInt n 0

/-- `x * y + z` with a single rounding. An exact zero is negative only when both the product and
the addend are. -/
def fusedMulAdd (x y z : Binary32) : Binary32 :=
  match x.datum, y.datum, z.datum with
  | .nan, _, _ => nan
  | _, .nan, _ => nan
  | _, _, .nan => nan
  | .infinite _, .finite _ 0, _ => nan
  | .finite _ 0, .infinite _, _ => nan
  | .infinite s, .infinite t, c => addInfinite (s != t) c
  | .infinite s, .finite t _, c => addInfinite (s != t) c
  | .finite s _, .infinite t, c => addInfinite (s != t) c
  | .finite _ _, .finite _ _, .infinite u => if u then negInfinity else infinity
  | .finite s a, .finite t b, .finite u c =>
    let product : Int := if s != t then -(a * b : Nat) else (a * b : Nat)
    let addend : Int := if u then -(c : Nat) else (c : Nat)
    let sum := product + addend * 2 ^ Format.single.unitScale
    if sum = 0 then
      if (s != t) && u then -zero else zero
    else ⟨UInt32.ofNat (Format.single.encodeInt sum Format.single.unitScale)⟩
where
  /-- An infinite product meets the addend: opposite infinities cancel to a NaN. -/
  addInfinite (negative : Bool) : Datum → Binary32
    | .infinite u => if u = negative then signedInfinity negative else nan
    | _ => signedInfinity negative
  signedInfinity (negative : Bool) : Binary32 := if negative then negInfinity else infinity

/-- The integer nearest to `x * 2^s`, a half going away from zero, clamped to `lo … hi`; zero for
a NaN. -/
def toClampedInt (x : Binary32) (s : Nat) (lo hi : Int) : Int :=
  match x.datum with
  | .nan => 0
  | .infinite negative => if negative then lo else hi
  | .finite negative units =>
    let magnitude : Int := roundHalfUp (units <<< s) Format.single.unitScale
    Max.max lo (Min.min (if negative then -magnitude else magnitude) hi)

end Binary32

end TileCompute
