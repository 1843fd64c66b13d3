import TileCompute.Proofs.Addition
import TileCompute.Proofs.Multiply
import TileCompute.Proofs.Reshape

/-!
# TileCompute.Proofs.Checked

The kernels with every check. A checked run gives nothing as soon as a number does not fit in a
machine word, a load or a store reaches past the bytes of its tensor, a subtraction would go below
zero, a divisor is zero, a product is shifted by more bits than a word has, a tile is larger than
the accumulators, or a kernel is asked for an element type it does not have.

* `Reshape.configure?_eq_ok`, `Multiply.configure?_eq_ok`, `Addition.configure?_eq_ok`: in machine
  words, the operands that are accepted.
* `Reshape.run?_eq`, `Multiply.run?_eq`, `Addition.run?_eq`: on operands in range that were accepted
  no check fails.
* `kernels_run_checked`: so a configured kernel runs as if it were not checked.
-/

namespace TileCompute

theorem foldlM_eq_some_runItems {items : List WorkItem} {body? : WorkItem → Memory → Option Memory}
    {body : WorkItem → Memory → Memory}
    (h : ∀ item ∈ items, ∀ m, body? item m = some (body item m)) (m : Memory) :
    items.foldlM (fun m item => body? item m) m = some (runItems items body m) :=
  foldlM_eq_pure (M := Option) (P := fun _ => True)
    (fun item hitem m _ => ⟨h item hitem m, trivial⟩) trivial

namespace Reshape

theorem configure?_eq_ok {g : Arrangement} {s t : Layout} {r : Reshape} :
    configure? g s t = .ok r ↔ configure g s t = .ok r ∧ InWords (g.shapeNumbers s) ∧
      InWords (planeNumbers ⟨g, s, t⟩) ∧ InWords [t.dim 1 * g.blocks] := by
  simp only [configure?, bind_eq_ok, refuse_eq_ok, raise_checkWords, Packing.check_eq_ok,
    configure_eq_ok, pure_eq_ok, exists_const]
  constructor
  · rintro ⟨-, hshape, hplanes, r', ⟨rfl, hr⟩, hblocks, rfl⟩
    exact ⟨⟨rfl, hr⟩, hshape, hplanes, hblocks⟩
  · rintro ⟨⟨rfl, hr⟩, hshape, hplanes, hblocks⟩
    exact ⟨hr.valid, hshape, hplanes, _, ⟨rfl, hr⟩, hblocks, rfl⟩

variable {r : Reshape} {source target : BufferId}

theorem run?_eq (hr : r.Accepted) (hin : r.InRange) (m : Memory) :
    r.run? source target m = some (r.run source target m) := by
  have hM := Monitor.grants_option hin
  rw [run_eq_launch, run?, runIn_eq hM hr]
  apply foldlM_eq_some_runItems
  intro item hitem m
  rw [runItemIn_eq hM hr hitem, View.fillIn_option, runItem_eq_fill hr hitem]

end Reshape

namespace Multiply

/-- The numbers formed when the operands are examined on a path. -/
def pathNumbers (k : Multiply) : List Nat :=
  match k.config.path with
  | .reshaped columnBlocks rowBlocks =>
    let p := Packing.ofType k.a.dataType columnBlocks rowBlocks
    p.interleavedBlock :: k.transposedNumbers p
  | .direct _ => []

theorem configure?_eq_ok {a b t : Layout} {alpha : Binary32} {config : Config} {k : Multiply} :
    configure? a b t alpha config = .ok k ↔ configure a b t alpha config = .ok k ∧
      InWords (pathNumbers ⟨a, b, t, alpha, config⟩) ∧ InWords (t.shape.products 2 4) ∧
      InWords (a.shape.products 2 4) ∧ InWords (b.shape.products 2 4) := by
  obtain ⟨target, path⟩ := config
  rw [configure_eq_ok]
  cases path with
  | reshaped columnBlocks rowBlocks =>
    simp only [configure?, pathNumbers, bind_eq_ok, refuse_eq_ok, raise_checkWords, pure_eq_ok,
      checkTypes_eq_ok, Packing.check_eq_ok, checkInterleaved_eq_ok, checkTransposed_eq_ok,
      checkExtent_eq_ok, checkDepth_eq_ok, exists_const, inWords_cons, inWords_nil, and_true]
    constructor
    · rintro ⟨⟨ht1, ht2, ht3⟩, ht, hvalid, hleft, ⟨hA, hA'⟩, hright, ⟨hB, hB'⟩, ha, hplanes, hb,
        ⟨hdepth, hdepth'⟩, rfl⟩
      exact ⟨⟨rfl, ht1, ht2, ht3, ⟨hvalid, hA, hA', hB, hB'⟩, hplanes, hdepth, hdepth'⟩,
        ⟨hleft, hright⟩, ht, ha, hb⟩
    · rintro ⟨⟨rfl, ht1, ht2, ht3, ⟨hvalid, hA, hA', hB, hB'⟩, hplanes, hdepth, hdepth'⟩,
        ⟨hleft, hright⟩, ht, ha, hb⟩
      exact ⟨⟨ht1, ht2, ht3⟩, ht, hvalid, hleft, ⟨hA, hA'⟩, hright, ⟨hB, hB'⟩, ha, hplanes, hb,
        ⟨hdepth, hdepth'⟩, rfl⟩
  | direct tile =>
    simp only [configure?, pathNumbers, bind_eq_ok, refuse_eq_ok, raise_checkWords, pure_eq_ok,
      checkTypes_eq_ok, checkDirect_eq_ok, checkExtent_eq_ok, checkDepth_eq_ok, exists_const,
      inWords_nil, true_and]
    constructor
    · rintro ⟨⟨ht1, ht2, ht3⟩, ht, htile, ha, hplanes, hb, ⟨hdepth, hdepth'⟩, rfl⟩
      exact ⟨⟨rfl, ht1, ht2, ht3, htile, hplanes, hdepth, hdepth'⟩, ht, ha, hb⟩
    · rintro ⟨⟨rfl, ht1, ht2, ht3, htile, hplanes, hdepth, hdepth'⟩, ht, ha, hb⟩
      exact ⟨⟨ht1, ht2, ht3⟩, ht, htile, ha, hplanes, hb, ⟨hdepth, hdepth'⟩, rfl⟩

variable {k : Multiply} {a b target : BufferId}

theorem run?_eq (hk : k.Accepted) (hin : k.InRange) (m : Memory) :
    k.run? a b target m = some (k.run a b target m) := by
  have hM := Monitor.grants_option hin
  have hkind : k.target.dataType.kind ≠ .s32 := hk.targetType ▸ hk.kind
  obtain ⟨α, inst, h⟩ := Dispatched.exists_of_ne hkind
  rw [run_eq h, run?, runIn_eq h, runAsIn_eq hM hk]
  apply foldlM_eq_some_runItems
  intro item hitem m
  rw [runItemIn_eq hM hk hitem, View.fillIn_option, runItem_eq_fill_before hk hitem]

end Multiply

namespace Addition

theorem configure?_eq_ok {s t : Layout} {beta : Binary32} {k : Addition} :
    configure? s t beta = .ok k ↔
      configure s t beta = .ok k ∧ InWords (planeNumbers ⟨s, t, beta⟩) := by
  simp only [configure?, bind_eq_ok, refuse_eq_ok, raise_checkWords, exists_const]
  exact And.comm

variable {k : Addition} {source target : BufferId}

theorem run?_eq (hk : k.Accepted) (hin : k.InRange) (m : Memory) :
    k.run? source target m = some (k.run source target m) := by
  have hM := Monitor.grants_option (And.intro hk hin)
  have hkind : k.target.dataType.kind ≠ .s32 := hk.dataType ▸ hk.kind
  obtain ⟨α, inst, h⟩ := Dispatched.exists_of_ne hkind
  rw [run_eq h, run?, runIn_eq h, runAsIn_eq hM]
  apply foldlM_eq_some_runItems
  intro item hitem m
  rw [runItemIn_eq hM hitem, View.fillIn_option, runItem_eq_fill hitem]

end Addition

/-- A reshape, multiply or addition that was configured fails no check on any memory, if the machine
can address its operands and shift by the position of the binary point: its run is the checked
run. -/
theorem kernels_run_checked :
    (∀ g s t r, Reshape.configure? g s t = .ok r → r.InRange →
      ∀ (source target : BufferId) (m : Memory),
      r.run? source target m = some (r.run source target m)) ∧
    (∀ a b t alpha config k, Multiply.configure? a b t alpha config = .ok k → k.InRange →
      ∀ (left right target : BufferId) (m : Memory),
      k.run? left right target m = some (k.run left right target m)) ∧
    (∀ s t beta k, Addition.configure? s t beta = .ok k → k.InRange →
      ∀ (source target : BufferId) (m : Memory),
      k.run? source target m = some (k.run source target m)) := by
  refine ⟨?_, ?_, ?_⟩
  · intro g s t r hr hin source target m
    exact Reshape.run?_eq (Reshape.configure_eq_ok.1 (Reshape.configure?_eq_ok.1 hr).1).2 hin m
  · intro a b t alpha config k hk hin left right target m
    exact Multiply.run?_eq (Multiply.configure_eq_ok.1 (Multiply.configure?_eq_ok.1 hk).1).2 hin m
  · intro s t beta k hk hin source target m
    exact Addition.run?_eq (Addition.configure_eq_ok.1 (Addition.configure?_eq_ok.1 hk).1).2 hin m

/-- A matrix without columns block-transposed, three by two and two by five matrices multiplied on
the reshaped path, and two products added. -/
theorem kernels_run_checked_small :
    let m : Memory := ⟨.replicate 3 (.replicate 256 7)⟩
    let s : Layout := .packed (.ofList [0, 3]) .s32
    let r : Reshape := ⟨.blockTransposed 2, s, ⟨.ofList [24, 0], .s32, .uniform 1⟩⟩
    let a : Layout := ⟨.ofList [16, 1, 2], .f16, .uniform 1⟩
    let b : Layout := .packed (.ofList [16, 1]) .f16
    let t : Layout := ⟨.ofList [5, 3, 2], .f16, .uniform 2⟩
    let k : Multiply := ⟨a, b, t, .zero, ⟨.midgard, .reshaped 1 2⟩⟩
    let addition : Addition := ⟨t, t, .one⟩
    r.run? 0 1 m = some (r.run 0 1 m) ∧ k.run? 0 1 2 m = some (k.run 0 1 2 m) ∧
      addition.run? 0 2 m = some (addition.run 0 2 m) := by
  intro m s r a b t k addition
  have hr : Reshape.configure? (.blockTransposed 2) s r.target = .ok r := by decide
  have hk : Multiply.configure? a b t .zero k.config = .ok k := by decide
  have ha : Addition.configure? t t .one = .ok addition := by rfl
  have hin : k.InRange := by
    refine ⟨by decide, by decide, by decide, by decide, fun p hp => ?_⟩
    obtain rfl := Option.some.inj hp
    decide
  exact ⟨kernels_run_checked.1 _ _ _ _ hr (by decide) 0 1 m,
    kernels_run_checked.2.1 _ _ _ _ _ _ hk hin 0 1 2 m,
    kernels_run_checked.2.2 _ _ _ _ ha (by decide) 0 2 m⟩

/-- A product of one element over no step of the reduction, with two to the power of 61 blocks in a
row of the left operand. Nothing is loaded, but the bytes from one step to the next do not fit in a
word. -/
theorem Multiply.run_fails_for_long_step :
    let a : Layout := .packed (.ofList [0, 1]) .f32
    let t : Layout := .packed (.ofList [1]) .f32
    let k : Multiply := ⟨a, a, t, .one, ⟨.midgard, .reshaped 1 (2 ^ 61)⟩⟩
    let m : Memory := ⟨#[#[], #[], #[0, 0, 0, 0]]⟩
    Multiply.configure? a a t .one k.config = .ok k ∧
      (View.Fits ⟨0, a⟩ m ∧ View.Fits ⟨1, a⟩ m ∧ View.Fits ⟨2, t⟩ m) ∧ k.run? 0 1 2 m = none := by
  refine ⟨by rfl, by decide, by decide +kernel⟩

end TileCompute
