import TileCompute.Kernel.Error
import TileCompute.Tensor.View

/-!
# TileCompute.Graph.Tensor

The tensors that nodes of a graph refer to.

A graph tensor has a number, a descriptor and, once it is allocated, memory. Only tensors assigned
to the `gc` backend can be computed on.
-/

namespace TileCompute

/-- Where a tensor is assigned to. -/
inductive Backend where
  | neon
  | cl
  | gc
deriving DecidableEq, Repr

def Backend.name : Backend → String
  | neon => "NEON"
  | cl => "CL"
  | gc => "GC"

/-- What a graph knows of a tensor before it is allocated. -/
structure Descriptor where
  shape : Shape
  dataType : DataType
  backend : Backend
deriving DecidableEq, Repr

def Descriptor.layout (d : Descriptor) : Layout := .packed d.shape d.dataType

/-- A tensor of a graph. -/
structure GraphTensor where
  id : Nat
  descriptor : Descriptor
  memory : Option View
deriving DecidableEq, Repr

/-- The memory behind an operand, none for an absent or unallocated tensor. A tensor of another
backend is a fault. -/
def backingTensor (t : Option GraphTensor) : Except Fault (Option View) :=
  match t with
  | none => .ok none
  | some t => if t.descriptor.backend = .gc then .ok t.memory else .error (.offTarget t.id)

end TileCompute
