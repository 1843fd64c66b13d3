import TileCompute.Kernel.Machine

/-!
# TileCompute.Gemm

Matrix multiplication of element lists: `C = alpha * A * B + beta * C`.

A `Gemm` is a problem size with its factors. `Gemm.executeOn` lays the operands out in memory,
reshapes them when the configuration asks for it, multiplies, and adds the old contents of `C`
when `beta` is not zero: `Gemm.execute` with room for every number, `Gemm.execute?` in machine
words.
`matmul` and `matmulBatched` are the plain product, one by one and in batches, and
`referenceProduct` is the same product as a triple loop without any kernel.
-/

namespace TileCompute

/-- A multiply problem. `bDepth` matrices of the right operand serve `batches` products in turn. -/
structure Gemm where
  m : Nat
  n : Nat
  k : Nat
  batches : Nat
  bDepth : Nat
  alpha : Binary32
  beta : Binary32
  frac : Nat
  target : Option Target
  config : Option Config
  /-- What counts where neither a target nor a configuration is given. -/
  environment : Environment
deriving DecidableEq, Repr

def packBytes {α : Type} [Element α] (elements : List α) : Array UInt8 :=
  (elements.flatMap fun a =>
    (List.range (Element.kind α).size).map fun i =>
      UInt8.ofNat (Element.toWord a / 256 ^ i)).toArray

/-- The first `count` elements of a buffer. -/
def unpackElements (α : Type) [Element α] (m : Memory) (b : BufferId) (count : Nat) : List α :=
  (List.range count).map fun i =>
    Element.ofWord (m.load b (i * (Element.kind α).size) (Element.kind α).size)

namespace Gemm

/-- A single product without factors. -/
def ofSize (m n k : Nat) (environment : Environment) : Gemm :=
  ⟨m, n, k, 1, 1, .one, .zero, 0, none, none, environment⟩

def dataType (g : Gemm) (α : Type) [Element α] : DataType := (Element.kind α).withFrac g.frac

/-- The given configuration, or the one the table has for the target. -/
def resolvedConfig (g : Gemm) (α : Type) [Element α] : Config :=
  let target := g.target.getD g.environment.target
  g.config.getD ({ g.environment with target }.lookup (g.dataType α) g.m)

def checkLength (operand : String) (expected actual : Nat) : Except KernelError Unit :=
  if expected = actual then .ok () else .error (.length operand expected actual)

def aLayout (g : Gemm) (α : Type) [Element α] : Layout :=
  .packed (.ofList [g.k, g.m, g.batches]) (g.dataType α)

def bLayout (g : Gemm) (α : Type) [Element α] : Layout :=
  .packed (.ofList [g.n, g.k, g.bDepth]) (g.dataType α)

def cLayout (g : Gemm) (α : Type) [Element α] : Layout :=
  .packed (.ofList [g.n, g.m, g.batches]) (g.dataType α)

/-- The numbers formed when the lengths of the operands are worked out. -/
def leftNumbers (g : Gemm) : List Nat := [g.batches * g.m, g.batches * g.m * g.k]

def rightNumbers (g : Gemm) : List Nat := [g.bDepth * g.k, g.bDepth * g.k * g.n]

def resultNumbers (g : Gemm) : List Nat := [g.batches * g.m, g.batches * g.m * g.n]

/-- The numbers formed when the operands are laid out. -/
def layoutNumbers (g : Gemm) (α : Type) [Element α] : List Nat :=
  (g.aLayout α).numbers ++ (g.bLayout α).numbers ++ (g.cLayout α).numbers

section On

variable (machine : Machine)

/-- The lists have the lengths that the problem asks for. -/
def checkLengths {α : Type} (g : Gemm) (a b c : List α) : Except (Failure KernelError) Unit := do
  raise (machine.count g.leftNumbers)
  refuse (checkLength "A" (g.batches * g.m * g.k) a.length)
  raise (machine.count g.rightNumbers)
  refuse (checkLength "B" (g.bDepth * g.k * g.n) b.length)
  raise (machine.count g.resultNumbers)
  refuse (checkLength "C" (g.batches * g.m * g.n) c.length)

/-- Multiplies reshaped operands into `c`, with fresh buffers for the reshaped ones. -/
def multiplyReshaped (g : Gemm) (α : Type) [Element α] (config : Config) (p : Packing)
    (a b c : BufferId) (m : Memory) : Except (Failure KernelError) Memory := do
  let aLayout := g.aLayout α
  let bLayout := g.bLayout α
  let left : Arrangement := .interleaved p.rowBlocks
  let right : Arrangement := .blockTransposed p.columnBlocks
  let aReshaped ← raise (machine.outputLayout left aLayout)
  let bReshaped ← raise (machine.outputLayout right bLayout)
  let interleave ← machine.reshape left aLayout aReshaped
  let transpose ← machine.reshape right bLayout bReshaped
  let multiply ← machine.multiply aReshaped bReshaped (g.cLayout α) g.alpha config
  raise (machine.buffer aReshaped.byteSize)
  raise (machine.buffer bReshaped.byteSize)
  let (aTmp, m) := m.alloc aReshaped.byteSize
  let (bTmp, m) := m.alloc bReshaped.byteSize
  let m ← raise (machine.runReshape interleave a aTmp m)
  let m ← raise (machine.runReshape transpose b bTmp m)
  raise (machine.runMultiply multiply aTmp bTmp c m)

def multiplyDirect (g : Gemm) (α : Type) [Element α] (config : Config) (a b c : BufferId)
    (m : Memory) : Except (Failure KernelError) Memory := do
  let multiply ← machine.multiply (g.aLayout α) (g.bLayout α) (g.cLayout α) g.alpha config
  raise (machine.runMultiply multiply a b c m)

/-- Lays the operands out and multiplies on the path of the configuration. -/
def multiplyStage (g : Gemm) (α : Type) [Element α] (a b c : BufferId) (m : Memory) :
    Except (Failure KernelError) Memory := do
  raise (machine.count (g.layoutNumbers α))
  let config := g.resolvedConfig α
  match config.packing? (g.dataType α) with
  | some p => g.multiplyReshaped machine α config p a b c m
  | none => g.multiplyDirect machine α config a b c m

/-- Adds `beta` times the buffer `old` to `c`, unless that is nothing. -/
def additionStage (g : Gemm) (α : Type) [Element α] (old c : BufferId) (m : Memory) :
    Except (Failure KernelError) Memory :=
  if g.beta.eqv .zero then .ok m
  else do
    let addition ← machine.addition (g.cLayout α) (g.cLayout α) g.beta
    raise (machine.runAddition addition old c m)

/-- The operands in memory, `C` twice: the second keeps its old contents. -/
def operands {α : Type} [Element α] (a b c : List α) : Memory :=
  ⟨#[packBytes a, packBytes b, packBytes c, packBytes c]⟩

/-- The new contents of `C`. -/
def productOn {α : Type} [Element α] (g : Gemm) (a b c : List α) :
    Except (Failure KernelError) (List α) := do
  g.checkLengths machine a b c
  let m ← g.multiplyStage machine α 0 1 2 (operands a b c)
  let m ← g.additionStage machine α 3 2 m
  return unpackElements α m 2 c.length

/-- Runs the multiply on `C`: the outcome, and `C` afterwards. A failed run leaves it as it
was. -/
def executeOn {α : Type} [Element α] (g : Gemm) (a b c : List α) :
    Except (Failure KernelError) Unit × List α :=
  match g.productOn machine a b c with
  | .ok c' => (.ok (), c')
  | .error e => (.error e, c)

/-- A run on `C` in place: the outcome, and what `C` holds when the run is over. A stage that fails
leaves what the stages before it have stored. -/
def executeInPlaceOn {α : Type} [Element α] (g : Gemm) (a b c : List α) :
    Except (Failure KernelError) Unit × List α :=
  match g.checkLengths machine a b c with
  | .error e => (.error e, c)
  | .ok () =>
    match g.multiplyStage machine α 0 1 2 (operands a b c) with
    | .error e => (.error e, unpackElements α (operands a b c) 2 c.length)
    | .ok m =>
      match g.additionStage machine α 3 2 m with
      | .error e => (.error e, unpackElements α m 2 c.length)
      | .ok m' => (.ok (), unpackElements α m' 2 c.length)

end On

section Run

variable {α : Type} [Element α]

/-- A run with room for every number. -/
def execute (g : Gemm) (a b c : List α) : Except (Failure KernelError) Unit × List α :=
  g.executeOn .exact a b c

/-- A run in machine words. -/
def execute? (g : Gemm) (a b c : List α) : Except (Failure KernelError) Unit × List α :=
  g.executeOn .words a b c

/-- A run in machine words, on `C` in place. -/
def executeInPlace? (g : Gemm) (a b c : List α) : Except (Failure KernelError) Unit × List α :=
  g.executeInPlaceOn .words a b c

end Run

end Gemm

/-- The element whose bytes are all zero. -/
def zeroElement (α : Type) [Element α] : α := Element.ofWord 0

/-- The product of two matrices, at binary point position zero. -/
def matmul {α : Type} [Element α] (environment : Environment) (m k n : Nat) (a b : List α) :
    Except (Failure KernelError) (List α) := do
  raise (checkWords [m * n])
  (Gemm.ofSize m n k environment).productOn .words a b (List.replicate (m * n) (zeroElement α))

/-- The products of a batch of matrices, at binary point position zero. -/
def matmulBatched {α : Type} [Element α] (environment : Environment) (batches bDepth m k n : Nat)
    (a b : List α) : Except (Failure KernelError) (List α) :=
  if batches = 0 then .ok []
  else do
    raise (checkWords [batches * m, batches * m * n])
    Gemm.productOn .words { Gemm.ofSize m n k environment with batches, bDepth } a b
      (List.replicate (batches * m * n) (zeroElement α))

/-- One element of the product: a dot product from the first step to the last, each product
rounded before it is added. -/
def referenceElement {α : Type} [Element α] (frac k n : Nat) (a b : Array α) (i j : Nat) :
    Element.Acc α :=
  (List.range k).foldl (fun acc p =>
    Element.mulAdd frac acc (a.getD (i * k + p) (zeroElement α))
      (b.getD (p * n + j) (zeroElement α)))
    (Element.accZero frac)

def referenceElements {α : Type} [Element α] (m k n : Nat) (alpha : Binary32) (frac : Nat)
    (a b : List α) : List α :=
  let left := a.toArray
  let right := b.toArray
  (Tile.cells m n).map fun (i, j) =>
    let value := Element.narrow frac (referenceElement frac k n left right i j)
    if alpha.eqv .one then value
    else Element.scale frac value (Element.ofBinary32 frac alpha)

/-- The product as a triple loop. A factor is converted even if there is nothing to multiply. -/
def referenceProduct {α : Type} [Element α] (m k n : Nat) (alpha : Binary32) (frac : Nat)
    (a b : List α) : Except Fault (List α) := do
  checkWords [m * k]
  if a.length ≠ m * k then throw (.operandLength "A")
  checkWords [k * n]
  if b.length ≠ k * n then throw (.operandLength "B")
  checkWords [m * n]
  ((Element.kind α).withFrac frac).checkShift (if alpha.eqv .one then m * n * k else 1)
  return referenceElements m k n alpha frac a b

end TileCompute
