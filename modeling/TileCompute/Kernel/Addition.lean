import TileCompute.Kernel.Error
import TileCompute.Tensor.View

/-!
# TileCompute.Kernel.Addition

The matrix addition kernel: adds a multiple of one matrix to another in place.

A work-item handles one vector of lanes. `Addition.lanes` gives the addresses of its elements, and
`Addition.runIn` replaces each destination element by itself plus `beta` times the source element:
`Addition.run` just so, `Addition.run?` with every number and address checked.
-/

namespace TileCompute

/-- A configured addition. -/
structure Addition where
  source : Layout
  target : Layout
  beta : Binary32
deriving DecidableEq, Repr

/-- Addresses of the two elements of a lane. -/
structure Lane where
  target : Nat
  source : Nat
deriving DecidableEq, Repr

namespace Addition

/-- One floating or fixed-point type and the same extents for both tensors. -/
def check (k : Addition) : Except KernelError Unit := do
  if k.source.dataType ≠ k.target.dataType then
    throw (.dataTypeMismatch k.source.dataType k.target.dataType)
  if k.source.dataType.kind = .s32 then throw (.unsupportedDataType k.source.dataType)
  if k.source.dim 0 ≠ k.target.dim 0 ∨ k.source.dim 1 ≠ k.target.dim 1
      ∨ k.source.batches ≠ k.target.batches then
    throw (.additionShape k.source.shape k.target.shape)

def configure (source target : Layout) (beta : Binary32) : Except KernelError Addition := do
  let k : Addition := ⟨source, target, beta⟩
  k.check
  return k

/-- Everything agrees but perhaps the planes. -/
def AgreesInPlane (k : Addition) : Prop :=
  k.source.dataType = k.target.dataType ∧ k.source.dataType.kind ≠ .s32 ∧
    k.source.dim 0 = k.target.dim 0 ∧ k.source.dim 1 = k.target.dim 1

instance (k : Addition) : Decidable k.AgreesInPlane :=
  inferInstanceAs (Decidable (_ ∧ _ ∧ _ ∧ _))

/-- The numbers formed when the planes are counted, which is done last. -/
def planeNumbers (k : Addition) : List Nat :=
  if k.AgreesInPlane then k.source.shape.products 2 4 ++ k.target.shape.products 2 4 else []

/-- `configure` in machine words. -/
def configure? (source target : Layout) (beta : Binary32) :
    Except (Failure KernelError) Addition := do
  let k : Addition := ⟨source, target, beta⟩
  raise (checkWords k.planeNumbers)
  refuse (configure source target beta)

def name (k : Addition) : String := s!"gemm_ma_{k.target.dataType.kind.lowerName}"

def width (k : Addition) : Nat := k.target.dataType.vectorWidth

def grid (k : Addition) : Grid :=
  .covering ⟨k.target.dim 0, k.target.dim 1, k.target.batches⟩ ⟨k.width, 1, 1⟩

def lanes (k : Addition) (item : WorkItem) : List Lane :=
  let first := item.x * k.width
  let last := min (first + k.width) (k.target.dim 0)
  (List.range' first (last - first)).map fun column =>
    ⟨k.target.offset3 column item.y item.z, k.source.offset3 column item.y item.z⟩

section Run

variable {M : Type → Type} [Monitor M]

def runLaneIn (k : Addition) (α : Type) [Element α] (source target : BufferId) (lane : Lane)
    (m : Memory) : M Memory := do
  let frac := k.target.dataType.frac
  let beta : α := Element.ofBinary32 frac k.beta
  let value ← View.loadIn ⟨target, k.target⟩ m lane.target
  let addend ← View.loadIn ⟨source, k.source⟩ m lane.source
  View.storeIn ⟨target, k.target⟩ m lane.target
    (Element.toWord (Element.scaledAdd frac (Element.ofWord value) (Element.ofWord addend) beta))

/-- The lanes of a work-item. It forms the end of its vector, which may lie past the row. -/
def runItemIn (k : Addition) (α : Type) [Element α] (source target : BufferId) (item : WorkItem)
    (m : Memory) : M Memory := do
  Monitor.require (InWords [item.x * k.width + k.width])
  (k.lanes item).foldlM (fun m lane => k.runLaneIn α source target lane m) m

/-- All work-items, after the factor has been converted. -/
def runAsIn (k : Addition) (α : Type) [Element α] (source target : BufferId) (m : Memory) :
    M Memory := do
  Monitor.require (k.target.dataType.frac < 64)
  k.grid.launchIn (k.runItemIn α source target) m

/-- There is no addition of whole numbers. -/
def runIn (k : Addition) (source target : BufferId) (m : Memory) : M Memory :=
  match k.target.dataType.kind with
  | .f32 => k.runAsIn Binary32 source target m
  | .f16 => k.runAsIn Binary16 source target m
  | .qs8 => k.runAsIn Q8 source target m
  | .qs16 => k.runAsIn Q16 source target m
  | .s32 => do
    Monitor.require False
    return m

end Run

def runItem (k : Addition) (α : Type) [Element α] (source target : BufferId) (item : WorkItem)
    (m : Memory) : Memory :=
  Id.run (k.runItemIn α source target item m)

/-- Adds `beta` times the source buffer to the target buffer. -/
def run (k : Addition) (source target : BufferId) (m : Memory) : Memory :=
  Id.run (k.runIn source target m)

/-- The run with every check. -/
def run? (k : Addition) (source target : BufferId) (m : Memory) : Option Memory :=
  k.runIn source target m

end Addition

end TileCompute
