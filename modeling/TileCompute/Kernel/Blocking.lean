import TileCompute.Grid

/-!
# TileCompute.Kernel.Blocking

Geometry of blocked operands and output tiles.

The reshaped multiply reads its operands in blocks: four rows of `A` interleaved, and one vector
of columns of `B` transposed. `Packing` says how many such blocks share a row of the reshaped
operand, and from it follow the shapes of both. The direct multiply leaves its operands alone and
computes one `TileShape` of the output per work-item.
-/

namespace TileCompute

def interleaveHeight : Nat := 4

/-- How blocks are packed: `width` columns make a block of the right operand, `columnBlocks` of
those share a row once transposed, and `rowBlocks` blocks of four rows share a row once
interleaved. -/
structure Packing where
  width : Nat
  columnBlocks : Nat
  rowBlocks : Nat
deriving DecidableEq, Repr

namespace Packing

def ofType (t : DataType) (columnBlocks rowBlocks : Nat) : Packing :=
  ⟨t.vectorWidth, columnBlocks, rowBlocks⟩

def Valid (p : Packing) : Prop := p.width ≠ 0 ∧ p.columnBlocks ≠ 0 ∧ p.rowBlocks ≠ 0

instance (p : Packing) : Decidable p.Valid := inferInstanceAs (Decidable (_ ∧ _ ∧ _))

def text (p : Packing) : String :=
  "ReshapeInfo \x7b transpose_width: " ++ toString p.width
    ++ ", mult_transpose_width: " ++ toString p.columnBlocks
    ++ ", mult_interleave_height: " ++ toString p.rowBlocks ++ " \x7d"

/-- Elements of a row of the interleaved operand for one step of the reduction. -/
def interleavedBlock (p : Packing) : Nat := interleaveHeight * p.rowBlocks

/-- Elements of a row of the transposed operand for one step of the reduction. -/
def transposedBlock (p : Packing) : Nat := p.width * p.columnBlocks

/-- Rows of the interleaved operand that hold `m` rows. -/
def interleavedRows (p : Packing) (m : Nat) : Nat :=
  ceilDiv (ceilDiv m interleaveHeight) p.rowBlocks

/-- Rows of the transposed operand that hold `n` columns. -/
def transposedRows (p : Packing) (n : Nat) : Nat := ceilDiv (ceilDiv n p.width) p.columnBlocks

def interleavedShape (p : Packing) (a : Shape) : Shape :=
  a.setPlane (a.x * p.interleavedBlock) (p.interleavedRows a.y)

def transposedShape (p : Packing) (b : Shape) : Shape :=
  b.setPlane (b.y * p.transposedBlock) (p.transposedRows b.x)

/-- The numbers formed for `interleavedShape`. -/
def interleavedNumbers (p : Packing) (a : Shape) : List Nat :=
  [p.interleavedBlock, a.x * p.interleavedBlock]

/-- The numbers formed for `transposedShape`. -/
def transposedNumbers (p : Packing) (b : Shape) : List Nat :=
  [p.transposedBlock, b.y * p.transposedBlock]

/-- `interleavedShape` in machine words, or nothing when the rows would be shared out among no
blocks. -/
def interleavedShape? (p : Packing) (a : Shape) : Option Shape :=
  if p.rowBlocks = 0 then none else inWords? (p.interleavedNumbers a) (p.interleavedShape a)

/-- `transposedShape` in machine words, or nothing when the columns would be shared out among no
blocks. -/
def transposedShape? (p : Packing) (b : Shape) : Option Shape :=
  if p.width = 0 ∨ p.columnBlocks = 0 then none
  else inWords? (p.transposedNumbers b) (p.transposedShape b)

end Packing

/-- Part of the output that one work-item of the direct multiply computes. -/
structure TileShape where
  rows : Nat
  cols : Nat
deriving DecidableEq, Repr

def maxTileRows : Nat := 4

def maxTileCols : Nat := 16

/-- The tile is not empty and fits the accumulators of a work-item. -/
def TileShape.Valid (t : TileShape) : Prop :=
  (1 ≤ t.rows ∧ t.rows ≤ maxTileRows) ∧ (1 ≤ t.cols ∧ t.cols ≤ maxTileCols)

instance (t : TileShape) : Decidable t.Valid := inferInstanceAs (Decidable ((_ ∧ _) ∧ (_ ∧ _)))

end TileCompute
