import Mathlib.Data.List.Basic
import TileCompute.Kernel.Tile
import TileCompute.Proofs.Coverage
import TileCompute.Proofs.Watched

/-!
# TileCompute.Proofs.Tile

What a schedule computes. Unrolling, staging and the order in which a tile is walked are the
target's business; accumulator `(i, j)` only ever sees the products of row `i` and column `j`, in
the order of the reduction. `dot` is that reduction for one accumulator.

* `Target.accumulateIn_eq`: a schedule whose loads all succeed is its steps one after the other,
  unrolled or not; `Target.accumulate_eq` and `Target.accumulate?_eq` are its readings.
* `Tile.entry_step`, `Tile.entry_steps`: what one step and a run of steps do to an accumulator in
  use; `Tile.entry_step_other`, `Tile.entry_steps_other`: the others stay.
* `Tile.entry_steps_zero`: accumulators hold dot products.
* `Target.result_accumulate`: an element of the result is one dot product.
-/

namespace TileCompute

section Dot

variable {α : Type} [Element α]

/-- A dot product from the first step to the last. -/
def dot (mac : Element.Acc α → α → α → Element.Acc α) (a b : Nat → α) (depth : Nat)
    (acc : Element.Acc α) : Element.Acc α :=
  (List.range depth).foldl (fun acc k => mac acc (a k) (b k)) acc

/-- The element of an accumulator: narrowed, then scaled if there is a factor. -/
def finish (frac : Nat) (alpha : Option α) (acc : Element.Acc α) : α :=
  match alpha with
  | some alpha => Element.scale frac (Element.narrow frac acc) alpha
  | none => Element.narrow frac acc

theorem dot_congr {mac : Element.Acc α → α → α → Element.Acc α} {a a' b b' : Nat → α}
    {depth : Nat} {acc : Element.Acc α} (ha : ∀ k < depth, a k = a' k)
    (hb : ∀ k < depth, b k = b' k) : dot mac a b depth acc = dot mac a' b' depth acc := by
  apply List.foldl_ext
  intro acc k hk
  have hk := List.mem_range.1 hk
  rw [ha k hk, hb k hk]

end Dot

namespace Tile

variable {α : Type} [Element α] {t : Tile α} {i j : Nat}

def entry (t : Tile α) (i j : Nat) : Option (Element.Acc α) := t.acc[slot i j]?

theorem slot_inj {i' j' : Nat} (hj : j < maxTileCols) (hj' : j' < maxTileCols)
    (h : slot i j = slot i' j') : i = i' ∧ j = j' := by
  have hsum : j + maxTileCols * i = j' + maxTileCols * i' := by
    simp only [slot, maxTileCols] at h ⊢
    omega
  obtain ⟨hc, hr⟩ := radix_inj hj hj' hsum
  exact ⟨hr, hc⟩

theorem slot_lt (hi : i < maxTileRows) (hj : j < maxTileCols) : slot i j < 64 := by
  simp only [slot, maxTileRows, maxTileCols] at *
  omega

theorem mem_cells {rows cols : Nat} {p : Nat × Nat} :
    p ∈ cells rows cols ↔ p.1 < rows ∧ p.2 < cols := by
  obtain ⟨i, j⟩ := p
  simp [cells]

theorem nodup_cells (rows cols : Nat) : (cells rows cols).Nodup := by
  apply nodup_rectangle List.nodup_range List.nodup_range
  intro i _ i' _ j _ j' _ he
  exact Prod.mk.inj he

section Modify

variable {f : Element.Acc α → Element.Acc α}

@[simp] theorem rows_modify : (t.modify i j f).rows = t.rows := by
  unfold modify
  split <;> rfl

@[simp] theorem cols_modify : (t.modify i j f).cols = t.cols := by
  unfold modify
  split <;> rfl

theorem entry_modify {i' j' : Nat} :
    (t.modify i j f).entry i' j' =
      if slot i j = slot i' j' then (t.entry i' j').map f else t.entry i' j' := by
  unfold modify entry
  split
  · rename_i h
    rw [Vector.getElem?_set]
    split
    · rename_i heq
      rw [← heq, Vector.getElem?_eq_getElem h, Option.map_some]
    · rfl
  · rename_i h
    split
    · rename_i heq
      rw [← heq, Vector.getElem?_eq_none (by omega), Option.map_none]
    · rfl

end Modify

/-- Accumulators modified one after the other, none of them twice. -/
theorem entry_foldl_modify {f : Nat × Nat → Element.Acc α → Element.Acc α} {ps : List (Nat × Nat)}
    (hn : ps.Nodup) (hps : ∀ p ∈ ps, p.2 < maxTileCols) (hj : j < maxTileCols) :
    (ps.foldl (fun t p => t.modify p.1 p.2 (f p)) t).entry i j =
      if (i, j) ∈ ps then (t.entry i j).map (f (i, j)) else t.entry i j := by
  induction ps generalizing t with
  | nil => rfl
  | cons p ps ih =>
    obtain ⟨hp, hn⟩ := List.nodup_cons.1 hn
    have hpj : p.2 < maxTileCols := hps p List.mem_cons_self
    rw [List.foldl_cons, ih hn fun q hq => hps q (List.mem_cons_of_mem _ hq), entry_modify]
    by_cases he : (i, j) = p
    · subst he
      rw [if_neg hp, if_pos rfl, if_pos List.mem_cons_self]
    · have hs : slot p.1 p.2 ≠ slot i j := fun h =>
        he (Prod.ext (slot_inj hpj hj h).1.symm (slot_inj hpj hj h).2.symm)
      rw [if_neg hs]
      simp only [List.mem_cons, he, false_or]

section Step

variable {mac : Element.Acc α → α → α → Element.Acc α} {a b : Nat → α}

theorem step_eq : t.step mac a b =
    (cells t.rows t.cols).foldl (fun t p => t.modify p.1 p.2 fun acc => mac acc (a p.1) (b p.2)) t :=
  rfl

@[simp] theorem rows_step : (t.step mac a b).rows = t.rows :=
  List.foldlRecOn (motive := fun s : Tile α => s.rows = t.rows) (cells t.rows t.cols) _ rfl
    fun _ h _ _ => by simpa using h

@[simp] theorem cols_step : (t.step mac a b).cols = t.cols :=
  List.foldlRecOn (motive := fun s : Tile α => s.cols = t.cols) (cells t.rows t.cols) _ rfl
    fun _ h _ _ => by simpa using h

/-- A step adds one product to every accumulator in use. -/
theorem entry_step (hc : t.cols ≤ maxTileCols) (hi : i < t.rows) (hj : j < t.cols) :
    (t.step mac a b).entry i j = (t.entry i j).map fun acc => mac acc (a i) (b j) := by
  rw [step_eq, entry_foldl_modify (nodup_cells ..)
    (fun p hp => Nat.lt_of_lt_of_le (mem_cells.1 hp).2 hc) (Nat.lt_of_lt_of_le hj hc),
    if_pos (mem_cells.2 ⟨hi, hj⟩)]

/-- It leaves the accumulators that are not in use. -/
theorem entry_step_other (hc : t.cols ≤ maxTileCols) (hj : j < maxTileCols)
    (hout : ¬(i < t.rows ∧ j < t.cols)) : (t.step mac a b).entry i j = t.entry i j := by
  rw [step_eq, entry_foldl_modify (nodup_cells ..)
    (fun p hp => Nat.lt_of_lt_of_le (mem_cells.1 hp).2 hc) hj, if_neg (mt mem_cells.1 hout)]

/-- A step only looks at the rows and columns in use. -/
theorem step_congr {a' b' : Nat → α} (ha : ∀ i < t.rows, a i = a' i)
    (hb : ∀ j < t.cols, b j = b' j) : t.step mac a b = t.step mac a' b' := by
  apply List.foldl_ext
  intro s p hp
  obtain ⟨hi, hj⟩ := mem_cells.1 hp
  simp only [ha p.1 hi, hb p.2 hj]

def steps (mac : Element.Acc α → α → α → Element.Acc α) (a b : Nat → Nat → α) (ks : List Nat)
    (t : Tile α) : Tile α :=
  ks.foldl (fun t k => t.step mac (a k) (b k)) t

variable {a b : Nat → Nat → α} {ks : List Nat}

theorem steps_append (ks ks' : List Nat) :
    t.steps mac a b (ks ++ ks') = (t.steps mac a b ks).steps mac a b ks' :=
  List.foldl_append

theorem rows_steps : (t.steps mac a b ks).rows = t.rows := by
  induction ks generalizing t with
  | nil => rfl
  | cons k ks ih => exact (ih (t := t.step mac (a k) (b k))).trans rows_step

theorem cols_steps : (t.steps mac a b ks).cols = t.cols := by
  induction ks generalizing t with
  | nil => rfl
  | cons k ks ih => exact (ih (t := t.step mac (a k) (b k))).trans cols_step

theorem entry_steps (hc : t.cols ≤ maxTileCols) (hi : i < t.rows) (hj : j < t.cols) :
    (t.steps mac a b ks).entry i j =
      (t.entry i j).map fun acc => ks.foldl (fun acc k => mac acc (a k i) (b k j)) acc := by
  induction ks generalizing t with
  | nil => simp [steps]
  | cons k ks ih =>
    have hrest := ih (t := t.step mac (a k) (b k)) (by rwa [cols_step]) (by rwa [rows_step])
      (by rwa [cols_step])
    rw [entry_step hc hi hj, Option.map_map] at hrest
    exact hrest

theorem entry_steps_other (hc : t.cols ≤ maxTileCols) (hj : j < maxTileCols)
    (hout : ¬(i < t.rows ∧ j < t.cols)) : (t.steps mac a b ks).entry i j = t.entry i j := by
  induction ks generalizing t with
  | nil => rfl
  | cons k ks ih =>
    have hrest := ih (t := t.step mac (a k) (b k)) (by rwa [cols_step])
      (by rwa [rows_step, cols_step])
    exact hrest.trans (entry_step_other hc hj hout)

end Step

theorem entry_zero {frac rows cols : Nat} (hi : i < maxTileRows) (hj : j < maxTileCols) :
    (zero α frac rows cols).entry i j = some (Element.accZero frac) := by
  unfold entry zero
  rw [Vector.getElem?_eq_getElem (slot_lt hi hj), Vector.getElem_replicate]

/-- From zero, an accumulator gets to the dot product of the steps taken. -/
theorem entry_steps_zero {mac : Element.Acc α → α → α → Element.Acc α} {frac rows cols : Nat}
    (hr : rows ≤ maxTileRows) (hc : cols ≤ maxTileCols) (hi : i < rows) (hj : j < cols)
    (a b : Nat → Nat → α) (p : Nat) :
    ((zero α frac rows cols).steps mac a b (List.range p)).entry i j =
      some (dot mac (a · i) (b · j) p (Element.accZero frac)) := by
  rw [entry_steps (by exact hc) (by exact hi) (by exact hj),
    entry_zero (Nat.lt_of_lt_of_le hi hr) (Nat.lt_of_lt_of_le hj hc), Option.map_some]
  rfl

theorem result_eq {frac : Nat} {alpha : Option α} :
    t.result frac alpha i j = finish frac alpha ((t.entry i j).getD (Element.accZero frac)) := by
  unfold result finish entry
  cases alpha <;> rfl

end Tile

namespace Target

section Loads

variable {M : Type → Type} [Monad M] [LawfulMonad M] {α : Type} [Element α]

/-- The operands of the first steps are there: `a'` for some rows, `b'` for some columns. -/
structure Loads (a b : Nat → Nat → M α) (a' b' : Nat → Nat → α) (depth rows cols : Nat) :
    Prop where
  left : ∀ k < depth, ∀ i < rows, a k i = pure (a' k i)
  right : ∀ k < depth, ∀ j < cols, b k j = pure (b' k j)

variable {target : Target} {frac depth rows cols : Nat} {a b : Nat → Nat → M α}
  {a' b' : Nat → Nat → α} {t : Tile α}

/-- Staged operands: those that were loaded, and none beyond. -/
def stage (count : Nat) (load : Nat → α) (i : Nat) : α :=
  ((List.range count).map load).toArray.getD i (Element.ofWord 0)

theorem stage_of_lt {count i : Nat} (load : Nat → α) (h : i < count) :
    stage count load i = load i := by
  simp [stage, Array.getD_eq_getD_getElem?, h]

theorem stageIn_eq {count : Nat} {load : Nat → M α} {load' : Nat → α}
    (h : ∀ i < count, load i = pure (load' i)) :
    stageIn count load = pure (stage count load') := by
  rw [stageIn, mapM_eq_pure fun i hi => h i (List.mem_range.1 hi), pure_bind]
  rfl

/-- A step only sees what was staged for its rows and columns. -/
theorem step_stage {mac : Element.Acc α → α → α → Element.Acc α} {a b : Nat → α} :
    t.step mac (stage t.rows a) (stage t.cols b) = t.step mac a b :=
  Tile.step_congr (fun _ hi => stage_of_lt a hi) fun _ hj => stage_of_lt b hj

theorem stepIn_eq (h : Loads a b a' b' depth t.rows t.cols) {k : Nat} (hk : k < depth) :
    target.stepIn frac a b k t = pure (t.step (target.mac frac) (a' k) (b' k)) := by
  rw [stepIn, stageIn_eq (h.right k hk), pure_bind, stageIn_eq (h.left k hk), pure_bind, step_stage]

/-- Single steps keep the rows and columns in use. -/
theorem foldlM_stepIn_eq (h : Loads a b a' b' depth rows cols) {ks : List Nat}
    (hks : ∀ k ∈ ks, k < depth) (hr : t.rows = rows) (hc : t.cols = cols) :
    ks.foldlM (fun t k => target.stepIn frac a b k t) t =
      pure (t.steps (target.mac frac) a' b' ks) := by
  apply foldlM_eq_pure (P := fun t => t.rows = rows ∧ t.cols = cols) _ ⟨hr, hc⟩
  rintro k hk t ⟨rfl, rfl⟩
  exact ⟨stepIn_eq h (hks k hk), Tile.rows_step, Tile.cols_step⟩

/-- Steps whose operands were all staged beforehand, for the rows and columns of a tile that none
of them changes. -/
theorem foldl_staged {mac : Element.Acc α → α → α → Element.Acc α} (ks : List Nat)
    (hr : t.rows = rows) (hc : t.cols = cols) :
    (ks.map fun k => (stage rows (a' k), stage cols (b' k))).foldl
        (fun t (a, b) => t.step mac a b) t =
      t.steps mac a' b' ks := by
  induction ks generalizing t with
  | nil => rfl
  | cons k ks ih =>
    subst hr hc
    rw [List.map_cons, List.foldl_cons]
    dsimp only
    rw [step_stage]
    exact ih Tile.rows_step Tile.cols_step

/-- A block is its steps one after the other, whenever the operands are loaded. -/
theorem accumulateBlockIn_eq (h : Loads a b a' b' depth rows cols) (hr : t.rows = rows)
    (hc : t.cols = cols) {k : Nat} (hk : k + target.unroll ≤ depth) :
    target.accumulateBlockIn frac a b k t =
      pure (t.steps (target.mac frac) a' b' (List.range' k target.unroll)) := by
  have hks : ∀ l ∈ List.range' k target.unroll, l < depth := by
    intro l hl
    have := (List.mem_range'_1.1 hl).2
    omega
  cases target with
  | midgard => exact foldlM_stepIn_eq h hks hr hc
  | bifrost =>
    subst hr hc
    have hstaged : (List.range' k bifrost.unroll).mapM (fun k => do
          let rows ← stageIn t.rows (a k)
          let columns ← stageIn t.cols (b k)
          return (rows, columns)) =
        pure ((List.range' k bifrost.unroll).map fun k =>
          (stage t.rows (a' k), stage t.cols (b' k))) := by
      apply mapM_eq_pure
      intro l hl
      rw [stageIn_eq (h.left l (hks l hl)), pure_bind, stageIn_eq (h.right l (hks l hl)), pure_bind]
    rw [accumulateBlockIn, hstaged, pure_bind, foldl_staged _ rfl rfl]

/-- The blocks before the last, one after the other. -/
theorem foldlM_accumulateBlockIn_eq (h : Loads a b a' b' depth t.rows t.cols) {blocks : Nat}
    (hblocks : blocks * target.unroll ≤ depth) :
    (List.range blocks).foldlM (fun t block =>
        target.accumulateBlockIn frac a b (block * target.unroll) t) t =
      pure (t.steps (target.mac frac) a' b' (List.range (blocks * target.unroll))) := by
  induction blocks with
  | zero => simp [Tile.steps]
  | succ blocks ih =>
    rw [Nat.succ_mul] at hblocks
    have hrange : List.range ((blocks + 1) * target.unroll) =
        List.range (blocks * target.unroll) ++
          List.range' (blocks * target.unroll) target.unroll := by
      rw [Nat.succ_mul, List.range_add, List.range'_eq_map_range]
    rw [List.range_succ, List.foldlM_append, ih (by omega), pure_bind, List.foldlM_cons,
      accumulateBlockIn_eq h Tile.rows_steps Tile.cols_steps hblocks, pure_bind, List.foldlM_nil,
      hrange, Tile.steps_append]

/-- A schedule whose loads all succeed is its steps one after the other: unrolling leaves their
order alone. -/
theorem accumulateIn_eq (h : Loads a b a' b' depth t.rows t.cols) :
    target.accumulateIn frac a b depth t =
      pure (t.steps (target.mac frac) a' b' (List.range depth)) := by
  have htail : ∀ k ∈ List.range' (depth / target.unroll * target.unroll) (depth % target.unroll),
      k < depth := by
    intro k hk
    have hlt := (List.mem_range'_1.1 hk).2
    rwa [Nat.mul_comm, Nat.div_add_mod] at hlt
  have hrange : List.range depth = List.range (depth / target.unroll * target.unroll) ++
      List.range' (depth / target.unroll * target.unroll) (depth % target.unroll) := by
    rw [List.range'_eq_map_range, ← List.range_add, Nat.mul_comm, Nat.div_add_mod]
  rw [accumulateIn, foldlM_accumulateBlockIn_eq h (Nat.div_mul_le_self ..), pure_bind,
    foldlM_stepIn_eq h htail Tile.rows_steps Tile.cols_steps, hrange, Tile.steps_append]

end Loads

variable {α : Type} [Element α] {target : Target} {frac depth : Nat} {a b : Nat → Nat → α}
  {t : Tile α}

theorem accumulate_eq :
    target.accumulate frac depth a b t = t.steps (target.mac frac) a b (List.range depth) :=
  accumulateIn_eq (M := Id) ⟨fun _ _ _ _ => rfl, fun _ _ _ _ => rfl⟩

theorem accumulate?_eq {a' b' : Nat → Nat → Option α}
    (h : Loads a' b' a b depth t.rows t.cols) :
    target.accumulate? frac a' b' depth t = some (target.accumulate frac depth a b t) := by
  rw [accumulate_eq]
  exact accumulateIn_eq h

theorem result_accumulate {rows cols i j : Nat} (hr : rows ≤ maxTileRows)
    (hc : cols ≤ maxTileCols) (hi : i < rows) (hj : j < cols) (alpha : Option α) :
    (target.accumulate frac depth a b (.zero α frac rows cols)).result frac alpha i j =
      finish frac alpha
        (dot (target.mac frac) (a · i) (b · j) depth (Element.accZero frac)) := by
  rw [Tile.result_eq, accumulate_eq, Tile.entry_steps_zero hr hc hi hj, Option.getD_some]

end Target

end TileCompute
