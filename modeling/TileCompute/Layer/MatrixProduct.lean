import TileCompute.Kernel.Machine
import TileCompute.Layer.Error
import TileCompute.Scratch.Group

/-!
# TileCompute.Layer.MatrixProduct

The kernels behind every layer that multiplies matrices: `output = alpha * A * B + beta * C`.

On the reshaped path both operands are rearranged into scratch tensors before the multiply. A
right operand that never changes can be rearranged on the first run only and kept. The layouts are
fixed when the product is configured; the tensors are named again on every run, so that they may
be scratch tensors themselves.
-/

namespace TileCompute

/-- A right operand that is reshaped once. -/
structure KeptOperand where
  tensor : View
  done : Bool
deriving DecidableEq, Repr

/-- The kernels that reshape both operands. Without a kept operand the right one is reshaped into
scratch on every run. -/
structure ReshapeStage where
  interleave : Reshape
  transpose : Reshape
  kept : Option KeptOperand
deriving DecidableEq, Repr

/-- A multiply with the kernels around it. -/
structure MatrixProduct where
  config : Config
  reshape : Option ReshapeStage
  multiply : Multiply
  addition : Option Addition
  scratch : ScratchGroup
deriving DecidableEq, Repr

/-- Factors and choices of a product. -/
structure ProductOptions where
  alpha : Binary32
  beta : Binary32
  /-- The right operand is reshaped on the first run only. -/
  keepRight : Bool
  /-- Where nothing is given the built-in table decides. -/
  config : Option Config
  /-- Scratch tensors come from the pool. -/
  pooled : Bool
  environment : Environment
deriving DecidableEq, Repr

namespace MatrixProduct

/-- Scratch slots of the reshaped operands. -/
def leftSlot : Nat := 0

def rightSlot : Nat := 1

def checkOperands (a b output : Layout) : Except LayerError Unit := do
  if a.dim 0 ≠ b.dim 1 then throw (.gemmOperands a.shape b.shape)
  if a.dim 1 ≠ output.dim 1 ∨ b.dim 0 ≠ output.dim 0 then
    throw (.gemmOutput output.shape a.shape b.shape)

def resolvedConfig (a output : Layout) (o : ProductOptions) : Config :=
  o.config.getD (o.environment.lookup a.dataType (output.dim 1))

section On

variable (machine : Machine)

/-- The addition of `C`, unless its factor is zero. -/
def configureAddition (c : Option Layout) (output : Layout) (beta : Binary32) :
    Except (Failure LayerError) (Option Addition) :=
  match c with
  | some c =>
    if beta.eqv .zero then .ok none
    else (kernelFailure (machine.addition c output beta)).map some
  | none => .ok none

def configureReshaped (a b output : Layout) (o : ProductOptions) (config : Config) (p : Packing)
    (c : Option Layout) (m : Memory) : Except (Failure LayerError) (MatrixProduct × Memory) := do
  let left : Arrangement := .interleaved p.rowBlocks
  let right : Arrangement := .blockTransposed p.columnBlocks
  let aReshaped ← raise (machine.outputLayout left a)
  let bReshaped ← raise (machine.outputLayout right b)
  let interleave ← kernelFailure (machine.reshape left a aReshaped)
  let transpose ← kernelFailure (machine.reshape right b bReshaped)
  let multiply ← kernelFailure (machine.multiply aReshaped bReshaped output o.alpha config)
  let addition ← configureAddition machine c output o.beta
  let (scratch, m) := (ScratchGroup.empty o.pooled).manage aReshaped m
  if o.keepRight then
    let (tensor, m) := View.alloc bReshaped m
    return (⟨config, some ⟨interleave, transpose, some ⟨tensor, false⟩⟩, multiply, addition,
      scratch⟩, m)
  else
    let (scratch, m) := scratch.manage bReshaped m
    return (⟨config, some ⟨interleave, transpose, none⟩, multiply, addition, scratch⟩, m)

def configureDirect (a b output : Layout) (o : ProductOptions) (config : Config)
    (c : Option Layout) : Except (Failure LayerError) MatrixProduct := do
  let multiply ← kernelFailure (machine.multiply a b output o.alpha config)
  let addition ← configureAddition machine c output o.beta
  return ⟨config, none, multiply, addition, .empty o.pooled⟩

/-- Chooses a path, configures the kernels and allocates what they need. -/
def configureOn (a b : Layout) (c : Option Layout) (output : Layout) (o : ProductOptions)
    (m : Memory) : Except (Failure LayerError) (MatrixProduct × Memory) := do
  refuse (checkOperands a b output)
  let config := resolvedConfig a output o
  match config.packing? a.dataType with
  | some p => configureReshaped machine a b output o config p c m
  | none =>
    let product ← configureDirect machine a b output o config c
    return (product, m)

end On

/-- Configuration with room for every number. -/
def configure (a b : Layout) (c : Option Layout) (output : Layout) (o : ProductOptions)
    (m : Memory) : Except (Failure LayerError) (MatrixProduct × Memory) :=
  configureOn .exact a b c output o m

/-- Reshapes the right operand, or finds it reshaped: the stage afterwards, and the tensor. -/
def reshapeRight (stage : ReshapeStage) (scope : Scope) (b : View) (d : Device) :
    ReshapeStage × View × Device :=
  match stage.kept with
  | some kept =>
    if kept.done then (stage, kept.tensor, d)
    else
      ({ stage with kept := some { kept with done := true } }, kept.tensor,
        d.onMemory (stage.transpose.run b.buffer kept.tensor.buffer))
  | none =>
    let tensor := scope.view rightSlot
    (stage, tensor, d.onMemory (stage.transpose.run b.buffer tensor.buffer))

def multiplyOperands (p : MatrixProduct) (scope : Scope) (a b output : View) (d : Device) :
    MatrixProduct × Device :=
  match p.reshape with
  | some stage =>
    let left := scope.view leftSlot
    let d := d.onMemory (stage.interleave.run a.buffer left.buffer)
    let (stage, right, d) := reshapeRight stage scope b d
    ({ p with reshape := some stage },
      d.onMemory (p.multiply.run left.buffer right.buffer output.buffer))
  | none => (p, d.onMemory (p.multiply.run a.buffer b.buffer output.buffer))

/-- Adds the multiple of `C`, if there is one. -/
def addC (p : MatrixProduct) (c : Option View) (output : View) (d : Device) : Device :=
  match p.addition, c with
  | some addition, some c => d.onMemory (addition.run c.buffer output.buffer)
  | _, _ => d

def run (p : MatrixProduct) (a b : View) (c : Option View) (output : View) (d : Device) :
    MatrixProduct × Device :=
  let (scope, d) := p.scratch.acquire d
  let (p, d) := p.multiplyOperands scope a b output d
  (p, scope.close (p.addC c output d))

end MatrixProduct

/-- The product as a layer, with its tensors. -/
structure GemmLayer where
  product : MatrixProduct
  a : View
  b : View
  c : Option View
  output : View
deriving DecidableEq, Repr

namespace GemmLayer

/-- Configures the product for the layouts of its tensors. -/
def configureOn (machine : Machine) (a b : View) (c : Option View) (output : View)
    (o : ProductOptions) (m : Memory) : Except (Failure LayerError) (GemmLayer × Memory) := do
  let (product, m) ←
    MatrixProduct.configureOn machine a.layout b.layout (c.map View.layout) output.layout o m
  return (⟨product, a, b, c, output⟩, m)

/-- Configuration with room for every number. -/
def configure (a b : View) (c : Option View) (output : View) (o : ProductOptions) (m : Memory) :
    Except (Failure LayerError) (GemmLayer × Memory) :=
  configureOn .exact a b c output o m

/-- Configuration in machine words. -/
def configure? (a b : View) (c : Option View) (output : View) (o : ProductOptions) (m : Memory) :
    Except (Failure LayerError) (GemmLayer × Memory) :=
  configureOn .words a b c output o m

def run (l : GemmLayer) (d : Device) : GemmLayer × Device :=
  let (product, d) := l.product.run l.a l.b l.c l.output d
  ({ l with product }, d)

end GemmLayer

end TileCompute
