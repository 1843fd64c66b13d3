import TileCompute.Graph.Tensor
import TileCompute.Scratch.Pool
import TileCompute.Target.Registry

/-!
# TileCompute.Graph.Context

What all layers of a graph share: whether scratch tensors are pooled, and what decides on the paths
of products.
-/

namespace TileCompute

/-- The choices of a graph. -/
structure Context where
  pooled : Bool
  environment : Environment
deriving DecidableEq, Repr

namespace Context

/-- The choices of a graph about which nothing is said. -/
def ofEnvironment (environment : Environment) : Context := ⟨true, environment⟩

def default : Context := ofEnvironment .unset

/-- The pool of a backend, given that of `gc`. Nothing runs on the other backends, so their pools
stay empty. -/
def pool? (c : Context) (gc : Pool) (backend : Backend) : Option Pool :=
  if c.pooled then
    match backend with
    | .gc => some gc
    | .neon | .cl => some .empty
  else none

end Context

end TileCompute
