import TileCompute.Grid

/-!
# TileCompute.Layer.Window

Sliding windows: stride, zero padding, and how many positions a window takes.
-/

namespace TileCompute

/-- What happens to a last step that does not fill a whole stride. -/
inductive Rounding where
  | floor
  | ceil
deriving DecidableEq, Repr

def Rounding.name : Rounding → String
  | floor => "Floor"
  | ceil => "Ceil"

/-- Steps of a window and the zeros around the input. -/
structure Window where
  strideX : Nat
  strideY : Nat
  left : Nat
  right : Nat
  top : Nat
  bottom : Nat
  rounding : Rounding
deriving DecidableEq, Repr

namespace Window

/-- The same zeros on opposite sides. -/
def symmetric (strideX strideY padX padY : Nat) (rounding : Rounding) : Window :=
  ⟨strideX, strideY, padX, padX, padY, padY, rounding⟩

/-- Single steps without padding. -/
def default : Window := symmetric 1 1 0 0 .floor

def hasPadding (w : Window) : Bool := w.left + w.right + w.top + w.bottom ≠ 0

/-- Positions of a window of `kernel` cells along an axis of `total` cells, at least one. -/
def positions (rounding : Rounding) (total kernel stride : Nat) : Nat :=
  let span := total - kernel
  match rounding with
  | .floor => span / stride + 1
  | .ceil => ceilDiv span stride + 1

def outputSize (w : Window) (width height kernelWidth kernelHeight : Nat) : Nat × Nat :=
  (positions w.rounding (width + (w.left + w.right)) kernelWidth w.strideX,
   positions w.rounding (height + (w.top + w.bottom)) kernelHeight w.strideY)

/-- The numbers formed for the positions along an axis. -/
def axisNumbers (rounding : Rounding) (size before after kernel stride : Nat) : List Nat :=
  [before + after, size + (before + after),
    positions rounding (size + (before + after)) kernel stride]

def numbers (w : Window) (width height kernelWidth kernelHeight : Nat) : List Nat :=
  axisNumbers w.rounding width w.left w.right kernelWidth w.strideX ++
    axisNumbers w.rounding height w.top w.bottom kernelHeight w.strideY

/-- `outputSize` in machine words, or nothing for a window that does not move. -/
def outputSize? (w : Window) (width height kernelWidth kernelHeight : Nat) : Option (Nat × Nat) :=
  if w.strideX = 0 ∨ w.strideY = 0 then none
  else
    inWords? (w.numbers width height kernelWidth kernelHeight)
      (w.outputSize width height kernelWidth kernelHeight)

/-- Input coordinate under cell `tap` of the window at position `out`; none in the padding. -/
def sourceIndex? (out stride tap pad extent : Nat) : Option Nat :=
  let padded := out * stride + tap
  if pad ≤ padded ∧ padded - pad < extent then some (padded - pad) else none

/-- The numbers formed for `sourceIndex?`. -/
def sourceNumbers (out stride tap : Nat) : List Nat := [out * stride, out * stride + tap]

def text (w : Window) : String :=
  "PadStrideInfo \x7b stride_x: " ++ toString w.strideX ++ ", stride_y: " ++ toString w.strideY
    ++ ", pad_left: " ++ toString w.left ++ ", pad_right: " ++ toString w.right
    ++ ", pad_top: " ++ toString w.top ++ ", pad_bottom: " ++ toString w.bottom
    ++ ", round: " ++ w.rounding.name ++ " \x7d"

end Window

end TileCompute
