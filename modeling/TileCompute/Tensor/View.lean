import TileCompute.Element
import TileCompute.Monitor
import TileCompute.Tensor.Layout

/-!
# TileCompute.Tensor.View

A buffer seen through a layout.

Kernels move words, the raw contents of elements; layers work on values, single precision numbers
converted from and to the tensor's data type at every access.
-/

namespace TileCompute

namespace DataType

def decode (t : DataType) (word : Nat) : Binary32 :=
  match t with
  | f32 => Element.toBinary32 0 (Element.ofWord word : Binary32)
  | f16 => Element.toBinary32 0 (Element.ofWord word : Binary16)
  | qs8 frac => Element.toBinary32 frac (Element.ofWord word : Q8)
  | qs16 frac => Element.toBinary32 frac (Element.ofWord word : Q16)
  | s32 => Binary32.ofInt (UInt32.ofNat word).toInt32.toInt

/-- The word that stores a value, rounded to the data type. -/
def encode (t : DataType) (x : Binary32) : Nat :=
  match t with
  | f32 => Element.toWord (Element.ofBinary32 0 x : Binary32)
  | f16 => Element.toWord (Element.ofBinary32 0 x : Binary16)
  | qs8 frac => Element.toWord (Element.ofBinary32 frac x : Q8)
  | qs16 frac => Element.toWord (Element.ofBinary32 frac x : Q16)
  | s32 => (Int32.ofInt (x.toClampedInt 0 Int32.minValue.toInt Int32.maxValue.toInt)).toUInt32.toNat

end DataType

/-- A buffer and where the elements lie in it. -/
structure View where
  buffer : BufferId
  layout : Layout
deriving DecidableEq, Repr, Inhabited

namespace View

def load (v : View) (m : Memory) (offset : Nat) : Nat :=
  m.load v.buffer offset v.layout.elementSize

def store (v : View) (m : Memory) (offset word : Nat) : Memory :=
  m.store v.buffer offset v.layout.elementSize word

section Watched

variable {M : Type → Type} [Monitor M]

/-- Reads a word, which must lie inside the tensor. -/
def loadIn (v : View) (m : Memory) (offset : Nat) : M Nat := do
  Monitor.require (offset + v.layout.elementSize ≤ v.layout.byteSize)
  return v.load m offset

/-- Writes a word and takes note of it. -/
def putIn (v : View) (m : Memory) (offset word : Nat) : M Memory := do
  Monitor.record ⟨v.buffer, offset, v.layout.elementSize, word⟩
  return v.store m offset word

/-- Writes a word, which must lie inside the tensor. -/
def storeIn (v : View) (m : Memory) (offset word : Nat) : M Memory := do
  Monitor.require (offset + v.layout.elementSize ≤ v.layout.byteSize)
  v.putIn m offset word

end Watched

def loadValue (v : View) (m : Memory) (offset : Nat) : Binary32 :=
  v.layout.dataType.decode (v.load m offset)

/-- Puts a value at an address, rounded to the data type. -/
def storeValue (v : View) (m : Memory) (offset : Nat) (x : Binary32) : Memory :=
  v.store m offset (v.layout.dataType.encode x)

def words (v : View) (m : Memory) : List Nat :=
  v.layout.shape.coords.map fun c => v.load m (v.layout.offset c)

def values (v : View) (m : Memory) : List Binary32 :=
  v.layout.shape.coords.map fun c => v.loadValue m (v.layout.offset c)

def storeWords (v : View) (m : Memory) (words : List Nat) : Memory :=
  (v.layout.shape.coords.zip words).foldl (fun m (c, word) => v.store m (v.layout.offset c) word) m

def storeValues (v : View) (m : Memory) (values : List Binary32) : Memory :=
  (v.layout.shape.coords.zip values).foldl
    (fun m (c, x) => v.storeValue m (v.layout.offset c) x) m

end View

end TileCompute
