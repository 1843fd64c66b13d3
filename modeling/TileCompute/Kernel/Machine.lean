import TileCompute.Kernel.Addition
import TileCompute.Kernel.Multiply
import TileCompute.Kernel.Reshape

/-!
# TileCompute.Kernel.Machine

What products are carried out on.

A product needs numbers to be worked out, buffers to be allocated, and kernels to be configured and
run. A `Machine` says what becomes of each of these. `Machine.exact` has room for every number;
`Machine.words` has words of 64 bits, and a fault where a number does not fit, where a buffer would
be too long or where a run fails a check.
-/

namespace TileCompute

/-- What becomes of numbers and buffers, and of kernels configured and run. -/
structure Machine where
  /-- Numbers that are about to be formed. -/
  count : List Nat → Except Fault Unit
  /-- Bytes of a buffer that is about to be allocated. -/
  buffer : Nat → Except Fault Unit
  outputLayout : Arrangement → Layout → Except Fault Layout
  reshape : Arrangement → Layout → Layout → Except (Failure KernelError) Reshape
  multiply : Layout → Layout → Layout → Binary32 → Config → Except (Failure KernelError) Multiply
  addition : Layout → Layout → Binary32 → Except (Failure KernelError) Addition
  runReshape : Reshape → BufferId → BufferId → Memory → Except Fault Memory
  runMultiply : Multiply → BufferId → BufferId → BufferId → Memory → Except Fault Memory
  runAddition : Addition → BufferId → BufferId → Memory → Except Fault Memory

namespace Machine

def exact : Machine where
  count _ := .ok ()
  buffer _ := .ok ()
  outputLayout := Arrangement.outputLayout
  reshape arrangement source target := refuse (Reshape.configure arrangement source target)
  multiply a b target alpha config := refuse (Multiply.configure a b target alpha config)
  addition source target beta := refuse (Addition.configure source target beta)
  runReshape r source target m := .ok (r.run source target m)
  runMultiply k a b target m := .ok (k.run a b target m)
  runAddition k source target m := .ok (k.run source target m)

def words : Machine where
  count := checkWords
  buffer := checkBuffer
  outputLayout := Arrangement.outputLayout?
  reshape := Reshape.configure?
  multiply := Multiply.configure?
  addition := Addition.configure?
  runReshape r source target m := orArithmetic (r.run? source target m)
  runMultiply k a b target m := orArithmetic (k.run? a b target m)
  runAddition k source target m := orArithmetic (k.run? source target m)

section Exact

variable {source target left right : Layout} {alpha beta : Binary32} {config : Config}
  {a b c : BufferId} {m : Memory}

@[simp] theorem exact_count (numbers : List Nat) : exact.count numbers = .ok () := rfl

@[simp] theorem exact_buffer (size : Nat) : exact.buffer size = .ok () := rfl

@[simp] theorem exact_outputLayout (arrangement : Arrangement) :
    exact.outputLayout arrangement source = arrangement.outputLayout source := rfl

@[simp] theorem exact_reshape (arrangement : Arrangement) :
    exact.reshape arrangement source target =
      refuse (Reshape.configure arrangement source target) :=
  rfl

@[simp] theorem exact_multiply : exact.multiply left right target alpha config =
    refuse (Multiply.configure left right target alpha config) := rfl

@[simp] theorem exact_addition :
    exact.addition source target beta = refuse (Addition.configure source target beta) := rfl

@[simp] theorem exact_runReshape (r : Reshape) : exact.runReshape r a b m = .ok (r.run a b m) := rfl

@[simp] theorem exact_runMultiply (k : Multiply) :
    exact.runMultiply k a b c m = .ok (k.run a b c m) := rfl

@[simp] theorem exact_runAddition (k : Addition) :
    exact.runAddition k a b m = .ok (k.run a b m) := rfl

end Exact

end Machine

end TileCompute
