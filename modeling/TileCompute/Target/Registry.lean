import TileCompute.Target.Basic

/-!
# TileCompute.Target.Registry

The tuning table of the multiply kernels.

An entry gives the path for an element kind, a size class and a target. A lookup takes the entry
of the problem's own class, else the one for large problems, else the reshaped path with single
blocks. A registry can be told to treat every problem as large; whether the table of a process is
told so belongs to its `Environment`.
-/

namespace TileCompute

/-- How a multiply runs. -/
inductive Path where
  /-- Interleave and transpose the operands, packing so many blocks to a row. -/
  | reshaped (columnBlocks rowBlocks : Nat)
  /-- Read the operands as they are, one tile per work-item. -/
  | direct (tile : TileShape)
deriving DecidableEq, Repr

/-- The target and path of one multiply. -/
structure Config where
  target : Target
  path : Path
deriving DecidableEq, Repr

namespace Config

def isReshaped (c : Config) : Bool :=
  match c.path with
  | .reshaped .. => true
  | .direct _ => false

def packing? (c : Config) (t : DataType) : Option Packing :=
  match c.path with
  | .reshaped columnBlocks rowBlocks => some (.ofType t columnBlocks rowBlocks)
  | .direct _ => none

end Config

/-- Size of a problem. -/
inductive SizeClass where
  | small
  | large
deriving DecidableEq, Repr

/-- Problems with at most this many output rows are small. -/
def smallRows : Nat := 16

def SizeClass.ofRows (m : Nat) : SizeClass := if m ≤ smallRows then small else large

/-- What an entry of the table is for. -/
structure Registry.Key where
  kind : ElementKind
  sizeClass : SizeClass
  target : Target
deriving DecidableEq, Repr

/-- A tuning table, the latest entry for a key first. -/
structure Registry where
  entries : List (Registry.Key × Path)
  allLarge : Bool
deriving DecidableEq, Repr

namespace Registry

def empty : Registry := ⟨[], false⟩

def insert (r : Registry) (key : Key) (path : Path) : Registry :=
  { r with entries := (key, path) :: r.entries }

def forceLarge (r : Registry) (force : Bool) : Registry := { r with allLarge := force }

def find? (r : Registry) (key : Key) : Option Path := r.entries.lookup key

def fallback : Path := .reshaped 1 1

/-- The configuration for a multiply with `m` output rows. -/
def lookup (r : Registry) (t : DataType) (m : Nat) (target : Target) : Config :=
  let sizeClass := if r.allLarge then SizeClass.large else SizeClass.ofRows m
  let path :=
    match r.find? ⟨t.kind, sizeClass, target⟩ with
    | some path => path
    | none => (r.find? ⟨t.kind, .large, target⟩).getD fallback
  ⟨target, path⟩

/-- The entries of one kind: small problems run directly, one vector wide; large ones are
reshaped. -/
def defaultsFor (kind : ElementKind) : List (Key × Path) :=
  let width := kind.vectorWidth
  [(⟨kind, .small, .midgard⟩, .direct ⟨2, width⟩),
   (⟨kind, .large, .midgard⟩, .reshaped 1 1),
   (⟨kind, .small, .bifrost⟩, .direct ⟨4, width⟩),
   (⟨kind, .large, .bifrost⟩, .reshaped (if kind = .f32 then 2 else 1) 2)]

def defaults : Registry :=
  ⟨[ElementKind.f32, .f16, .qs8, .qs16].flatMap defaultsFor, false⟩

end Registry

/-- What decides on a path besides the problem. -/
structure Environment where
  target : Target
  /-- Every problem is treated as large. -/
  forced : Bool
deriving DecidableEq, Repr

namespace Environment

/-- The environment that a process finds in its settings: the name of a target, which counts if it
is one, and `1` or `true` to treat every problem as large. -/
def ofSettings (target forced : Option String) : Environment where
  target := (target.bind fun name => (Target.parse name).toOption).getD .default
  forced := forced.any fun s => s = "1" ∨ String.ofList (s.toList.map Char.toLower) = "true"

/-- The environment of a process without settings. -/
def unset : Environment := ofSettings none none

/-- The configuration that the built-in table has for a multiply with `m` output rows. -/
def lookup (e : Environment) (t : DataType) (m : Nat) : Config :=
  (Registry.defaults.forceLarge e.forced).lookup t m e.target

end Environment

end TileCompute
