import TileCompute.Scratch.Pool
import TileCompute.Tensor.View

/-!
# TileCompute.Scratch.Group

Scratch tensors of one layer.

A group lists the layouts of the scratch tensors a layer needs; a tensor's position in the list is
its slot. A pooled group borrows a buffer for every slot while a scope is open and gives them back
when the scope is closed. A group without a pool owns a buffer for each slot from the start.
-/

namespace TileCompute

/-- The scratch tensors of a layer, with their own buffers unless they are pooled. -/
structure ScratchGroup where
  pooled : Bool
  layouts : List Layout
  owned : List Block
deriving DecidableEq, Repr

/-- A group with a buffer for every slot. -/
structure Scope where
  group : ScratchGroup
  blocks : List Block
deriving DecidableEq, Repr

namespace ScratchGroup

def empty (pooled : Bool) : ScratchGroup := ⟨pooled, [], []⟩

/-- Adds a scratch tensor; its slot is the number of tensors before it. -/
def manage (g : ScratchGroup) (layout : Layout) (m : Memory) : ScratchGroup × Memory :=
  if g.pooled then ({ g with layouts := g.layouts ++ [layout] }, m)
  else
    let (buffer, m) := m.alloc layout.byteSize
    ({ g with
        layouts := g.layouts ++ [layout]
        owned := g.owned ++ [⟨buffer, layout.byteSize⟩] }, m)

def acquireAll : List Layout → Device → List Block × Device
  | [], d => ([], d)
  | layout :: rest, d =>
    let (block, d) := d.acquire layout.byteSize
    let (blocks, d) := acquireAll rest d
    (block :: blocks, d)

def acquire (g : ScratchGroup) (d : Device) : Scope × Device :=
  if g.pooled then
    let (blocks, d) := acquireAll g.layouts d
    (⟨g, blocks⟩, d)
  else (⟨g, g.owned⟩, d)

end ScratchGroup

namespace Scope

def block (s : Scope) (slot : Nat) : Block := s.blocks.getD slot default

def view (s : Scope) (slot : Nat) : View :=
  ⟨(s.block slot).buffer, s.group.layouts.getD slot default⟩

/-- Closes a scope: borrowed buffers go back to the pool, first slot first. -/
def close (s : Scope) (d : Device) : Device :=
  if s.group.pooled then s.blocks.foldl Device.release d else d

end Scope

end TileCompute
