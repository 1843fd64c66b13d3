/-!
# TileCompute.DataType

Element types of tensors. The position of a fixed-point type's binary point belongs to the tensor,
so it is part of its `DataType` and not of the stored elements; `ElementKind` leaves it out.
-/

namespace TileCompute

/-- An element type without the position of its binary point. -/
inductive ElementKind where
  | f32
  | f16
  | qs8
  | qs16
  | s32
deriving DecidableEq, Repr

namespace ElementKind

def size : ElementKind → Nat
  | f32 | s32 => 4
  | f16 | qs16 => 2
  | qs8 => 1

def vectorWidth (k : ElementKind) : Nat := 16 / k.size

def name : ElementKind → String
  | f32 => "F32"
  | f16 => "F16"
  | qs8 => "QS8"
  | qs16 => "QS16"
  | s32 => "S32"

/-- The name in small letters, as kernel names carry it. -/
def lowerName : ElementKind → String
  | f32 => "f32"
  | f16 => "f16"
  | qs8 => "qs8"
  | qs16 => "qs16"
  | s32 => "s32"

theorem size_pos (k : ElementKind) : 0 < k.size := by cases k <;> decide

theorem vectorWidth_pos (k : ElementKind) : 0 < k.vectorWidth := by cases k <;> decide

theorem vectorWidth_le (k : ElementKind) : k.vectorWidth ≤ 16 := by cases k <;> decide

end ElementKind

/-- The element type of a tensor. -/
inductive DataType where
  | f32
  | f16
  | qs8 (frac : Nat)
  | qs16 (frac : Nat)
  | s32
deriving DecidableEq, Repr

namespace DataType

def kind : DataType → ElementKind
  | f32 => .f32
  | f16 => .f16
  | qs8 _ => .qs8
  | qs16 _ => .qs16
  | s32 => .s32

def elementSize (t : DataType) : Nat := t.kind.size

def vectorWidth (t : DataType) : Nat := t.kind.vectorWidth

/-- Fractional bits of a fixed-point type, zero for the others. -/
def frac : DataType → Nat
  | qs8 f | qs16 f => f
  | _ => 0

def isFixedPoint : DataType → Bool
  | qs8 _ | qs16 _ => true
  | _ => false

def isFloatingPoint : DataType → Bool
  | f32 | f16 => true
  | _ => false

/-- The name, with the position of the binary point of a fixed-point type. -/
def text : DataType → String
  | qs8 f => s!"QS8(fp={f})"
  | qs16 f => s!"QS16(fp={f})"
  | t => t.kind.name

theorem elementSize_pos (t : DataType) : 0 < t.elementSize := t.kind.size_pos

end DataType

/-- The data type of a kind at a position, which only fixed-point kinds keep. -/
def ElementKind.withFrac (k : ElementKind) (frac : Nat) : DataType :=
  match k with
  | f32 => .f32
  | f16 => .f16
  | qs8 => .qs8 frac
  | qs16 => .qs16 frac
  | s32 => .s32

@[simp] theorem ElementKind.kind_withFrac (k : ElementKind) (frac : Nat) :
    (k.withFrac frac).kind = k := by cases k <;> rfl

end TileCompute
