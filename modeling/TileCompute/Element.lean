import TileCompute.DataType
import TileCompute.Number.Binary16
import TileCompute.Number.Fixed

/-!
# TileCompute.Element

The arithmetic that the multiply kernels need of an element type.

`Element α` gives the type of the accumulator, the two ways of adding a product to it, narrowing
back to an element, and the little-endian word an element occupies in memory. Every operation
takes the position of the binary point, which floating types ignore. The four instances are
`Binary32`, `Binary16`, `Q8` and `Q16`; fixed-point types accumulate at twice their width and
round the product either way, so their two multiply-adds agree.
-/

namespace TileCompute

/-- Element operations, given the position of the binary point where it matters. -/
class Element (α : Type) where
  /-- Accumulator of a dot product. -/
  Acc : Type
  kind : ElementKind
  accZero : (frac : Nat) → Acc
  /-- Adds `a * b`, the product rounded before the sum. -/
  mulAdd : (frac : Nat) → Acc → α → α → Acc
  /-- Adds `a * b` with one rounding. -/
  fusedMulAdd : (frac : Nat) → Acc → α → α → Acc
  /-- Brings an accumulator back to an element. -/
  narrow : (frac : Nat) → Acc → α
  /-- The product of an element and a factor. -/
  scale : (frac : Nat) → α → α → α
  /-- `scaledAdd dst src factor` is `dst + factor * src`. -/
  scaledAdd : (frac : Nat) → α → α → α → α
  ofBinary32 : (frac : Nat) → Binary32 → α
  toBinary32 : (frac : Nat) → α → Binary32
  /-- The element's bytes as one little-endian number. -/
  toWord : α → Nat
  ofWord : Nat → α
  toWord_lt : ∀ a, toWord a < 256 ^ kind.size
  ofWord_toWord : ∀ a, ofWord (toWord a) = a
  toWord_ofWord : ∀ w, w < 256 ^ kind.size → toWord (ofWord w) = w

namespace Binary32

instance : Element Binary32 where
  Acc := Binary32
  kind := .f32
  accZero _ := zero
  mulAdd _ acc a b := acc + a * b
  fusedMulAdd _ acc a b := Binary32.fusedMulAdd a b acc
  narrow _ acc := acc
  scale _ x factor := x * factor
  scaledAdd _ dst src factor := dst + src * factor
  ofBinary32 _ x := x
  toBinary32 _ x := x
  toWord x := x.bits.toNat
  ofWord w := ⟨UInt32.ofNat w⟩
  toWord_lt x := x.bits.toNat_lt
  ofWord_toWord x := by simp
  toWord_ofWord w h := by simpa [UInt32.toNat_ofNat', ElementKind.size] using h

end Binary32

namespace Binary16

instance : Element Binary16 where
  Acc := Binary16
  kind := .f16
  accZero _ := zero
  mulAdd _ acc a b :=
    let product := ofBinary32 (a.toBinary32 * b.toBinary32)
    ofBinary32 (acc.toBinary32 + product.toBinary32)
  fusedMulAdd _ acc a b :=
    ofBinary32 (Binary32.fusedMulAdd a.toBinary32 b.toBinary32 acc.toBinary32)
  narrow _ acc := acc
  scale _ x factor := ofBinary32 (x.toBinary32 * factor.toBinary32)
  scaledAdd _ dst src factor :=
    let product := ofBinary32 (src.toBinary32 * factor.toBinary32)
    ofBinary32 (dst.toBinary32 + product.toBinary32)
  ofBinary32 _ x := ofBinary32 x
  toBinary32 _ x := x.toBinary32
  toWord x := x.bits.toNat
  ofWord w := ⟨UInt16.ofNat w⟩
  toWord_lt x := x.bits.toNat_lt
  ofWord_toWord x := by simp
  toWord_ofWord w h := by simpa [UInt16.toNat_ofNat', ElementKind.size] using h

end Binary16

namespace Q8

instance : Element Q8 where
  Acc := Fixed
  kind := .qs8
  accZero frac := ⟨0, .w16, frac⟩
  mulAdd frac acc a b := acc.saturatingMulAdd (a.toFixed frac) (b.toFixed frac)
  fusedMulAdd frac acc a b := acc.saturatingMulAdd (a.toFixed frac) (b.toFixed frac)
  narrow _ acc := ofFixed acc
  scale frac x factor := ofFixed ((x.toFixed frac).saturatingMul (factor.toFixed frac))
  scaledAdd frac dst src factor :=
    ofFixed ((dst.toFixed frac).saturatingMulAdd (src.toFixed frac) (factor.toFixed frac))
  ofBinary32 frac x := ofFixed (Fixed.ofBinary32 x .w8 frac)
  toBinary32 frac x := (x.toFixed frac).toBinary32
  toWord x := x.raw.toUInt8.toNat
  ofWord w := ⟨(UInt8.ofNat w).toInt8⟩
  toWord_lt x := x.raw.toUInt8.toNat_lt
  ofWord_toWord x := by simp
  toWord_ofWord w h := by simpa [UInt8.toNat_ofNat', ElementKind.size] using h

end Q8

namespace Q16

instance : Element Q16 where
  Acc := Fixed
  kind := .qs16
  accZero frac := ⟨0, .w32, frac⟩
  mulAdd frac acc a b := acc.saturatingMulAdd (a.toFixed frac) (b.toFixed frac)
  fusedMulAdd frac acc a b := acc.saturatingMulAdd (a.toFixed frac) (b.toFixed frac)
  narrow _ acc := ofFixed acc
  scale frac x factor := ofFixed ((x.toFixed frac).saturatingMul (factor.toFixed frac))
  scaledAdd frac dst src factor :=
    ofFixed ((dst.toFixed frac).saturatingMulAdd (src.toFixed frac) (factor.toFixed frac))
  ofBinary32 frac x := ofFixed (Fixed.ofBinary32 x .w16 frac)
  toBinary32 frac x := (x.toFixed frac).toBinary32
  toWord x := x.raw.toUInt16.toNat
  ofWord w := ⟨(UInt16.ofNat w).toInt16⟩
  toWord_lt x := x.raw.toUInt16.toNat_lt
  ofWord_toWord x := by simp
  toWord_ofWord w h := by simpa [UInt16.toNat_ofNat', ElementKind.size] using h

end Q16

end TileCompute
