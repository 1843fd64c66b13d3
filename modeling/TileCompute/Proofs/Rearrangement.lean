import TileCompute.Proofs.Reshape

/-!
# TileCompute.Proofs.Rearrangement

Packed operands read backwards. A packed matrix is walked in blocks: a column of it is a lane inside
a block and a step of the reduction, and its row counts blocks. So a cell names one row and one step
of `A`, or one step and one column of `B` (`interleavedOrigin`, `blockTransposedOrigin`), which may
lie past the matrix. Packing is the inverse of that, with zeros for the rest.

* `digits_exchange`: a column and a row of blocks tell a step and a number, and are told by them.
* `Reshape.origin_eq_interleaved`, `Reshape.origin_eq_blockTransposed`: where a cell's element comes
  from.
* `operands_rearranged`: what either kernel leaves.
-/

namespace TileCompute
namespace Reshape

/-- The element of `A` that a cell of the interleaved operand is for. -/
def interleavedOrigin (v : Nat) (c : Cell) : Cell :=
  ⟨c.x / (4 * v), 4 * (c.y * v + c.x % (4 * v) / 4) + c.x % 4, c.z⟩

/-- The element of `B` that a cell of the block-transposed operand is for. -/
def blockTransposedOrigin (w h : Nat) (c : Cell) : Cell :=
  ⟨w * (c.y * h + c.x % (w * h) / w) + c.x % w, c.x / (w * h), c.z⟩

/-- A lane inside a group of `g` blocks of `b`, and the number of the group, as one number. -/
theorem block_digits (b g x y : Nat) :
    b * (y * g + x % (b * g) / b) + x % b = x % (b * g) + b * g * y := by
  have lane : b * (x % (b * g) / b) + x % b = x % (b * g) := by
    rw [← Nat.mod_mul_right_mod x b g, Nat.div_add_mod]
  calc b * (y * g + x % (b * g) / b) + x % b
    _ = b * (y * g) + (b * (x % (b * g) / b) + x % b) := by rw [Nat.mul_add, Nat.add_assoc]
    _ = x % (b * g) + b * g * y := by
      rw [lane, Nat.add_comm, Nat.mul_comm y g, Nat.mul_assoc]

/-- Of a column `x` with low digit `x % d`, the digit moves from the step to the number: the
exchange can be undone. -/
theorem digits_exchange {d x y k i : Nat} (hd : 0 < d) :
    x / d = k ∧ x % d + d * y = i ↔ x = i % d + d * k ∧ y = i / d := by
  constructor
  · rintro ⟨rfl, rfl⟩
    have low : x % d < d := Nat.mod_lt x hd
    rw [radix_mod low, radix_div low]
    exact ⟨(Nat.mod_add_div x d).symm, rfl⟩
  · rintro ⟨rfl, rfl⟩
    have low : i % d < d := Nat.mod_lt i hd
    rw [radix_div low, radix_mod low]
    exact ⟨rfl, Nat.mod_add_div i d⟩

/-- A cell is for an element exactly if interleaving moves the element there. -/
theorem interleavedOrigin_eq_iff {v : Nat} (hv : 0 < v) {c o : Cell} :
    interleavedOrigin v c = o ↔ c = interleavedCell v o.x o.y o.z := by
  obtain ⟨x, y, z⟩ := c
  obtain ⟨k, row, z'⟩ := o
  have exchange := digits_exchange (x := x) (y := y) (k := k) (i := row)
    (Nat.mul_pos (by decide : 0 < interleaveHeight) hv)
  simp only [interleavedOrigin, interleavedCell, block_digits, WorkItem.mk.injEq]
  rw [← and_assoc, ← and_assoc]
  exact and_congr_left' exchange

/-- A cell is for an element exactly if block transposition moves the element there. -/
theorem blockTransposedOrigin_eq_iff {w h : Nat} (hw : 0 < w) (hh : 0 < h) {c o : Cell} :
    blockTransposedOrigin w h c = o ↔ c = blockTransposedCell (w * h) o.y o.x o.z := by
  obtain ⟨x, y, z⟩ := c
  obtain ⟨column, k, z'⟩ := o
  have exchange := digits_exchange (x := x) (y := y) (k := k) (i := column) (Nat.mul_pos hw hh)
  simp only [blockTransposedOrigin, blockTransposedCell, block_digits, WorkItem.mk.injEq]
  rw [← and_assoc, ← and_assoc, and_comm (a := _ = column)]
  exact and_congr_left' exchange

end Reshape

/-- A tensor that holds the elements of another one, each at the one cell that is for it, and zeros
in its other cells. -/
structure Rearranged (source target : View) (origin : Cell → Cell) (before after : Memory) :
    Prop where
  element : ∀ c, target.layout.HasCell c → target.load after (target.layout.cell c) =
    if source.layout.HasCell (origin c) then
      source.load before (source.layout.cell (origin c)) else 0
  once : ∀ o, source.layout.HasCell o → ∃! c, target.layout.HasCell c ∧ origin c = o
  /-- The source is left as it was. -/
  kept : ∀ j, after.byte source.buffer j = before.byte source.buffer j

namespace Reshape

variable {s t : Layout} {v h : Nat} {c : Cell}

theorem origin_eq_interleaved : (⟨.interleaved v, s, t⟩ : Reshape).origin c =
    if (interleavedOrigin v c).y < s.dim 1 then some (interleavedOrigin v c) else none := by
  simp only [origin, interleavedOrigin, block_digits]
  rfl

theorem origin_eq_blockTransposed : (⟨.blockTransposed h, s, t⟩ : Reshape).origin c =
    let o := blockTransposedOrigin s.dataType.vectorWidth h c
    if o.x < s.dim 0 then some o else none := by
  simp only [origin, blockTransposedOrigin, block_digits]
  rfl

/-- What holds of the element that a cell is for, where the source has it. -/
theorem hasCell_iff {r : Reshape} (hr : r.Accepted) (hc : r.target.HasCell c) {o : Cell} {p : Prop}
    [Decidable p] (ho : r.origin c = if p then some o else none) (hp : r.source.HasCell o → p) :
    r.source.HasCell o ↔ p := by
  constructor
  · exact hp
  · intro h
    rw [if_pos h] at ho
    exact hasCell_origin hr hc ho

theorem interleaved_hasCell_iff (hr : (⟨.interleaved v, s, t⟩ : Reshape).Accepted)
    (hc : t.HasCell c) :
    s.HasCell (interleavedOrigin v c) ↔ (interleavedOrigin v c).y < s.dim 1 :=
  hasCell_iff hr hc origin_eq_interleaved fun h => h.2.1

theorem blockTransposed_hasCell_iff (hr : (⟨.blockTransposed h, s, t⟩ : Reshape).Accepted)
    (hc : t.HasCell c) :
    s.HasCell (blockTransposedOrigin s.dataType.vectorWidth h c) ↔
      (blockTransposedOrigin s.dataType.vectorWidth h c).x < s.dim 0 :=
  hasCell_iff hr hc origin_eq_blockTransposed fun h => h.1

/-- A run leaves the elements where they are for, if the source has an element exactly where a cell
has an origin. -/
theorem rearranged_run {r : Reshape} (hr : r.Accepted) {source target : BufferId}
    (hne : source ≠ target) {m : Memory} (fits : View.Fits ⟨target, r.target⟩ m)
    {origin : Cell → Cell}
    (horigin : ∀ c, r.target.HasCell c → r.origin c =
      if r.source.HasCell (origin c) then some (origin c) else none)
    (once : ∀ o, r.source.HasCell o → ∃! c, r.target.HasCell c ∧ origin c = o) :
    Rearranged ⟨source, r.source⟩ ⟨target, r.target⟩ origin m (r.run source target m) where
  element c hc := by
    rw [load_run hr hne fits hc, value, horigin c hc]
    by_cases ho : r.source.HasCell (origin c)
    · rw [if_pos ho, if_pos ho]
    · rw [if_neg ho, if_neg ho]
  once := once
  kept j := byte_run_other hr hne hne j

theorem rearranged_interleaved (hr : (⟨.interleaved v, s, t⟩ : Reshape).Accepted)
    {source target : BufferId} (hne : source ≠ target) {m : Memory}
    (fits : View.Fits ⟨target, t⟩ m) :
    Rearranged ⟨source, s⟩ ⟨target, t⟩ (interleavedOrigin v) m
      ((⟨.interleaved v, s, t⟩ : Reshape).run source target m) := by
  have hv : 0 < v := hr.extents_interleaved.1
  apply rearranged_run hr hne fits
  · intro c hc
    rw [origin_eq_interleaved, if_congr (interleaved_hasCell_iff hr hc) rfl rfl]
  · intro o ho
    refine ⟨interleavedCell v o.x o.y o.z, ⟨hasCell_interleaved hr ho, ?_⟩, ?_⟩
    · exact (interleavedOrigin_eq_iff hv).2 rfl
    · rintro c ⟨-, hc⟩
      exact (interleavedOrigin_eq_iff hv).1 hc

theorem rearranged_blockTransposed (hr : (⟨.blockTransposed h, s, t⟩ : Reshape).Accepted)
    {source target : BufferId} (hne : source ≠ target) {m : Memory}
    (fits : View.Fits ⟨target, t⟩ m) :
    Rearranged ⟨source, s⟩ ⟨target, t⟩ (blockTransposedOrigin s.dataType.vectorWidth h) m
      ((⟨.blockTransposed h, s, t⟩ : Reshape).run source target m) := by
  have hh : 0 < h := hr.extents_blockTransposed.1
  have hw : 0 < s.dataType.vectorWidth := s.dataType.kind.vectorWidth_pos
  apply rearranged_run hr hne fits
  · intro c hc
    rw [origin_eq_blockTransposed, if_congr (blockTransposed_hasCell_iff hr hc) rfl rfl]
  · intro o ho
    refine ⟨blockTransposedCell (s.dataType.vectorWidth * h) o.y o.x o.z,
      ⟨hasCell_blockTransposed hr ho, ?_⟩, ?_⟩
    · exact (blockTransposedOrigin_eq_iff hw hh).2 rfl
    · rintro c ⟨-, hc⟩
      exact (blockTransposedOrigin_eq_iff hw hh).1 hc

end Reshape

/-- Interleaving and block transposition into a buffer of its own move the words of all elements,
each to the one cell that is for it, and put zeros in the cells of rows or columns past the
matrix. -/
theorem operands_rearranged {s t : Layout} {source target : BufferId} (hne : source ≠ target)
    {m : Memory} (fits : View.Fits ⟨target, t⟩ m) :
    (∀ v r, Reshape.configure (.interleaved v) s t = .ok r →
      Rearranged ⟨source, s⟩ ⟨target, t⟩ (Reshape.interleavedOrigin v) m (r.run source target m) ∧
      ∀ c, t.HasCell c →
        (s.HasCell (Reshape.interleavedOrigin v c) ↔
          (Reshape.interleavedOrigin v c).y < s.dim 1)) ∧
    (∀ h r, Reshape.configure (.blockTransposed h) s t = .ok r →
      let origin := Reshape.blockTransposedOrigin s.dataType.vectorWidth h
      Rearranged ⟨source, s⟩ ⟨target, t⟩ origin m (r.run source target m) ∧
      ∀ c, t.HasCell c → (s.HasCell (origin c) ↔ (origin c).x < s.dim 0)) := by
  constructor
  · intro v r configured
    obtain ⟨rfl, hr⟩ := Reshape.configure_eq_ok.1 configured
    exact ⟨Reshape.rearranged_interleaved hr hne fits,
      fun c hc => Reshape.interleaved_hasCell_iff hr hc⟩
  · intro h r configured
    obtain ⟨rfl, hr⟩ := Reshape.configure_eq_ok.1 configured
    exact ⟨Reshape.rearranged_blockTransposed hr hne fits,
      fun c hc => Reshape.blockTransposed_hasCell_iff hr hc⟩

/-- Five rows and five columns in two blocks of four to a row, with a border around the destination
and rubbish in it: the second block begins with the last row or column, and zeros follow. -/
theorem operands_rearranged_small :
    let a : Layout := .packed (.ofList [2, 5]) .s32
    let b : Layout := .packed (.ofList [5, 2]) .s32
    let t : Layout := ⟨.ofList [16, 1], .s32, .uniform 1⟩
    let m : Memory := ⟨#[(Array.range 40).map UInt8.ofNat, Array.replicate 216 17]⟩
    let interleaved := (⟨.interleaved 2, a, t⟩ : Reshape).run 0 1 m
    let transposed := (⟨.blockTransposed 2, b, t⟩ : Reshape).run 0 1 m
    (View.load ⟨1, t⟩ interleaved (t.cell ⟨12, 0, 0⟩) = View.load ⟨0, a⟩ m (a.cell ⟨1, 4, 0⟩) ∧
      View.load ⟨1, t⟩ interleaved (t.cell ⟨13, 0, 0⟩) = 0) ∧
    View.load ⟨1, t⟩ transposed (t.cell ⟨12, 0, 0⟩) = View.load ⟨0, b⟩ m (b.cell ⟨4, 1, 0⟩) ∧
      View.load ⟨1, t⟩ transposed (t.cell ⟨13, 0, 0⟩) = 0 := by
  intro a b t m interleaved transposed
  have apart : (0 : BufferId) ≠ 1 := by decide
  have fits : View.Fits ⟨1, t⟩ m := by decide +kernel
  obtain ⟨rows, -⟩ := (operands_rearranged (s := a) apart fits).1 2 ⟨.interleaved 2, a, t⟩
    (by decide)
  obtain ⟨columns, -⟩ := (operands_rearranged (s := b) apart fits).2 2 ⟨.blockTransposed 2, b, t⟩
    (by decide)
  refine ⟨⟨?_, ?_⟩, ?_, ?_⟩
  · have moved : Reshape.interleavedOrigin 2 ⟨12, 0, 0⟩ = ⟨1, 4, 0⟩ := by decide
    rw [rows.element ⟨12, 0, 0⟩ (by decide), moved]
    exact if_pos (by decide : a.HasCell ⟨1, 4, 0⟩)
  · have moved : Reshape.interleavedOrigin 2 ⟨13, 0, 0⟩ = ⟨1, 5, 0⟩ := by decide
    rw [rows.element ⟨13, 0, 0⟩ (by decide), moved]
    exact if_neg (by decide : ¬ a.HasCell ⟨1, 5, 0⟩)
  · have moved : Reshape.blockTransposedOrigin b.dataType.vectorWidth 2 ⟨12, 0, 0⟩ = ⟨4, 1, 0⟩ := by
      decide
    rw [columns.element ⟨12, 0, 0⟩ (by decide), moved]
    exact if_pos (by decide : b.HasCell ⟨4, 1, 0⟩)
  · have moved : Reshape.blockTransposedOrigin b.dataType.vectorWidth 2 ⟨13, 0, 0⟩ = ⟨5, 1, 0⟩ := by
      decide
    rw [columns.element ⟨13, 0, 0⟩ (by decide), moved]
    exact if_neg (by decide : ¬ b.HasCell ⟨5, 1, 0⟩)

end TileCompute
