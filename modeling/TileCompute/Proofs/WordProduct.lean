import TileCompute.Proofs.Gemm
import TileCompute.Proofs.Machine

/-!
# TileCompute.Proofs.WordProduct

Products in machine words. Where the numbers that a configuration forms are words
(`Config.numbers`), kernels are configured as with room for every number; where in addition the
machine can address the operands (`Gemm.Fits`), they run alike too. So everything that is known of
products with room for every number holds in machine words, for problems that fit.

* `Gemm.multiplyStage_words`, `Gemm.additionStage_words`: both stages of a run.
* `Gemm.execute?_eq`, `Gemm.executeInPlace?_eq`: a run, and one in place.
* `execute_spec`: what a run leaves in `C`.
* `execute_fails_for_wide_blocks`: a problem without elements that does not fit.
-/

namespace TileCompute

/-! ### Configuration -/

/-- The layout of a fresh destination, if there are blocks. -/
def Arrangement.made (g : Arrangement) (s : Layout) : Layout := .packed (g.shape s) s.dataType

/-- The numbers formed when an operand gets a fresh destination and is to be reshaped into it. -/
def Arrangement.numbers (g : Arrangement) (s : Layout) : List Nat :=
  g.shapeNumbers s ++ (g.made s).numbers ++
    ((g.made s).shape.products 2 4 ++ s.shape.products 2 4) ++ [(g.made s).dim 1 * g.blocks]

/-- The numbers formed when a product is configured. -/
def Config.numbers (config : Config) (a b t : Layout) : List Nat :=
  t.shape.products 2 4 ++
    match config.path with
    | .reshaped h v =>
      let left : Arrangement := .interleaved v
      let right : Arrangement := .blockTransposed h
      left.numbers a ++ right.numbers b ++
        Multiply.pathNumbers ⟨left.made a, right.made b, t, .one, config⟩
    | .direct _ => a.shape.products 2 4 ++ b.shape.products 2 4

namespace Machine

variable {g : Arrangement} {s a b t : Layout} {target : Target} {h v : Nat}

theorem outputLayout_exact (hg : g.blocks ≠ 0) (s : Layout) :
    exact.outputLayout g s = .ok (g.made s) := if_neg hg

theorem outputLayout_words (hg : g.blocks ≠ 0) (numbers : InWords (g.numbers s)) :
    words.outputLayout g s = .ok (g.made s) := by
  simp only [Arrangement.numbers, inWords_append] at numbers
  obtain ⟨⟨⟨shape, made⟩, -⟩, -⟩ := numbers
  exact Arrangement.outputLayout?_eq (outputLayout_exact hg s) shape made

theorem reshape_words (numbers : InWords (g.numbers s)) :
    words.reshape g s (g.made s) = exact.reshape g s (g.made s) := by
  simp only [Arrangement.numbers, inWords_append] at numbers
  obtain ⟨⟨⟨shape, -⟩, planes⟩, rows⟩ := numbers
  refine Reshape.configure?_eq shape ?_ rows
  unfold Reshape.planeNumbers
  split
  · exact inWords_append.2 planes
  · exact inWords_nil

theorem multiply_words_direct {tile : TileShape}
    (numbers : InWords ((⟨target, .direct tile⟩ : Config).numbers a b t)) (alpha : Binary32) :
    words.multiply a b t alpha ⟨target, .direct tile⟩ =
      exact.multiply a b t alpha ⟨target, .direct tile⟩ := by
  simp only [Config.numbers, inWords_append] at numbers
  obtain ⟨planes, left, right⟩ := numbers
  exact Multiply.configure?_eq inWords_nil planes left right

theorem multiply_words_reshaped
    (numbers : InWords ((⟨target, .reshaped h v⟩ : Config).numbers a b t)) (alpha : Binary32) :
    words.multiply ((Arrangement.interleaved v).made a) ((Arrangement.blockTransposed h).made b) t
        alpha ⟨target, .reshaped h v⟩ =
      exact.multiply ((Arrangement.interleaved v).made a) ((Arrangement.blockTransposed h).made b) t
        alpha ⟨target, .reshaped h v⟩ := by
  simp only [Config.numbers, Arrangement.numbers, inWords_append] at numbers
  obtain ⟨planes, ⟨⟨⟨-, left, -⟩, -⟩, ⟨-, right, -⟩, -⟩, path⟩ := numbers
  exact Multiply.configure?_eq path planes left right

theorem addition_words (source : InWords (s.shape.products 2 4))
    (target : InWords (t.shape.products 2 4)) (beta : Binary32) :
    words.addition s t beta = exact.addition s t beta := by
  refine Addition.configure?_eq ?_
  unfold Addition.planeNumbers
  split
  · exact inWords_append.2 ⟨source, target⟩
  · exact inWords_nil

end Machine

namespace Gemm

variable {α : Type} [Element α] {g : Gemm} {a b c : List α}

/-! ### Problems that fit -/

/-- The numbers formed when the lengths of all operands are worked out. -/
def lengthNumbers (g : Gemm) : List Nat := g.leftNumbers ++ g.rightNumbers ++ g.resultNumbers

/-- The numbers of a problem, of its layouts and of its configuration are words, the machine can
address the operands as they are and as they are reshaped, and products can be shifted by the
position of the binary point. -/
structure Fits (g : Gemm) (α : Type) [Element α] : Prop where
  a : (g.aLayout α).Addressable
  b : (g.bLayout α).Addressable
  c : (g.cLayout α).Addressable
  frac : (g.dataType α).frac < 64
  numbers : InWords ((g.resolvedConfig α).numbers (g.aLayout α) (g.bLayout α) (g.cLayout α))
  reshaped : ∀ p ∈ (g.resolvedConfig α).packing? (g.dataType α),
    ((Arrangement.interleaved p.rowBlocks).made (g.aLayout α)).Addressable ∧
      ((Arrangement.blockTransposed p.columnBlocks).made (g.bLayout α)).Addressable ∧
      p.interleavedBlock * (g.dataType α).elementSize < 2 ^ 63 ∧
      p.transposedBlock * (g.dataType α).elementSize < 2 ^ 63

theorem fits_iff : g.Fits α ↔
    ((g.aLayout α).Addressable ∧ (g.bLayout α).Addressable ∧ (g.cLayout α).Addressable) ∧
      (g.dataType α).frac < 64 ∧
      InWords ((g.resolvedConfig α).numbers (g.aLayout α) (g.bLayout α) (g.cLayout α)) ∧
      ∀ p ∈ (g.resolvedConfig α).packing? (g.dataType α),
        ((Arrangement.interleaved p.rowBlocks).made (g.aLayout α)).Addressable ∧
          ((Arrangement.blockTransposed p.columnBlocks).made (g.bLayout α)).Addressable ∧
          p.interleavedBlock * (g.dataType α).elementSize < 2 ^ 63 ∧
          p.transposedBlock * (g.dataType α).elementSize < 2 ^ 63 :=
  ⟨fun ⟨ha, hb, hc, hfrac, hnumbers, hreshaped⟩ => ⟨⟨ha, hb, hc⟩, hfrac, hnumbers, hreshaped⟩,
    fun ⟨⟨ha, hb, hc⟩, hfrac, hnumbers, hreshaped⟩ => ⟨ha, hb, hc, hfrac, hnumbers, hreshaped⟩⟩

instance (g : Gemm) (α : Type) [Element α] : Decidable (g.Fits α) :=
  decidable_of_iff _ fits_iff.symm

omit [Element α] in
theorem checkLengths_words (lengths : InWords g.lengthNumbers) :
    g.checkLengths .words a b c = g.checkLengths .exact a b c := by
  simp only [lengthNumbers, inWords_append] at lengths
  obtain ⟨⟨left, right⟩, result⟩ := lengths
  have count {numbers : List Nat} (h : InWords numbers) :
      Machine.words.count numbers = Machine.exact.count numbers := checkWords_eq_ok.2 h
  simp only [checkLengths, count left, count right, count result]

theorem Fits.planes (fits : g.Fits α) : InWords ((g.cLayout α).shape.products 2 4) :=
  (inWords_append.1 fits.numbers).1

theorem multiplyDirect_words {target : Target} {tile : TileShape} (fits : g.Fits α)
    (config : g.resolvedConfig α = ⟨target, .direct tile⟩) (a b c : BufferId) (m : Memory) :
    g.multiplyDirect .words α ⟨target, .direct tile⟩ a b c m =
      g.multiplyDirect .exact α ⟨target, .direct tile⟩ a b c m := by
  have numbers := fits.numbers
  rw [config] at numbers
  unfold multiplyDirect
  rw [Machine.multiply_words_direct numbers]
  refine bind_congr_ok fun k hk => ?_
  obtain ⟨rfl, accepted⟩ := Multiply.configure_eq_ok.1 (refuse_eq_ok.1 hk)
  have range : Multiply.InRange
      ⟨g.aLayout α, g.bLayout α, g.cLayout α, g.alpha, ⟨target, .direct tile⟩⟩ :=
    ⟨fits.a, fits.b, fits.c, fits.frac, nofun⟩
  rw [Machine.words_runMultiply accepted range]
  rfl

theorem multiplyReshaped_words {target : Target} {h v : Nat} (fits : g.Fits α)
    (config : g.resolvedConfig α = ⟨target, .reshaped h v⟩) (hh : h ≠ 0) (hv : v ≠ 0)
    (a b c : BufferId) (m : Memory) :
    g.multiplyReshaped .words α ⟨target, .reshaped h v⟩ (.ofType (g.dataType α) h v) a b c m =
      g.multiplyReshaped .exact α ⟨target, .reshaped h v⟩ (.ofType (g.dataType α) h v) a b c m := by
  have numbers := fits.numbers
  rw [config] at numbers
  obtain ⟨aFits, bFits, blocks⟩ := fits.reshaped (.ofType (g.dataType α) h v) (by rw [config]; rfl)
  have operands : InWords ((Arrangement.interleaved v).numbers (g.aLayout α)) ∧
      InWords ((Arrangement.blockTransposed h).numbers (g.bLayout α)) :=
    inWords_append.1 (inWords_append.1 (inWords_append.1 numbers).2).1
  obtain ⟨left, right⟩ := operands
  have aFits : ((Arrangement.interleaved v).made (g.aLayout α)).Addressable := aFits
  have bFits : ((Arrangement.blockTransposed h).made (g.bLayout α)).Addressable := bFits
  have hv : (Arrangement.interleaved v).blocks ≠ 0 := hv
  have hh : (Arrangement.blockTransposed h).blocks ≠ 0 := hh
  simp only [multiplyReshaped, Packing.ofType, Machine.outputLayout_words hv left,
    Machine.outputLayout_words hh right, Machine.outputLayout_exact hv (g.aLayout α),
    Machine.outputLayout_exact hh (g.bLayout α), raise_ok, ok_bind]
  rw [Machine.reshape_words left, Machine.reshape_words right,
    Machine.multiply_words_reshaped numbers]
  refine bind_congr_ok fun i hi => bind_congr_ok fun t ht => bind_congr_ok fun k hk => ?_
  obtain ⟨rfl, interleave⟩ := Reshape.configure_eq_ok.1 (refuse_eq_ok.1 hi)
  obtain ⟨rfl, transpose⟩ := Reshape.configure_eq_ok.1 (refuse_eq_ok.1 ht)
  obtain ⟨rfl, multiply⟩ := Multiply.configure_eq_ok.1 (refuse_eq_ok.1 hk)
  have range : Multiply.InRange ⟨(Arrangement.interleaved v).made (g.aLayout α),
      (Arrangement.blockTransposed h).made (g.bLayout α), g.cLayout α, g.alpha,
      ⟨target, .reshaped h v⟩⟩ := by
    refine ⟨aFits, bFits, fits.c, fits.frac, ?_⟩
    rintro p ⟨⟩
    exact blocks
  -- the buffers are short enough, and nothing is out of range in what runs on them
  rw [Machine.words_buffer aFits.bytes, Machine.words_buffer bFits.bytes]
  simp only [Machine.exact_buffer, raise_ok, ok_bind]
  rw [Machine.words_runReshape interleave ⟨fits.a, aFits⟩]
  simp only [Machine.exact_runReshape, raise_ok, ok_bind]
  rw [Machine.words_runReshape transpose ⟨fits.b, bFits⟩]
  simp only [raise_ok, ok_bind]
  rw [Machine.words_runMultiply multiply range]
  rfl

theorem multiplyStage_words (fits : g.Fits α) (blocks : (g.resolvedConfig α).path.BlocksNonzero)
    (a b c : BufferId) (m : Memory) :
    g.multiplyStage .words α a b c m = g.multiplyStage .exact α a b c m := by
  have layouts : Machine.words.count (g.layoutNumbers α) = .ok () := checkWords_eq_ok.2
    (inWords_append.2 ⟨inWords_append.2 ⟨fits.a.words, fits.b.words⟩, fits.c.words⟩)
  unfold multiplyStage
  rw [layouts]
  simp only [Machine.exact_count, raise_ok, ok_bind]
  cases config : g.resolvedConfig α with
  | mk target path =>
    rw [config] at blocks
    cases path with
    | direct tile => exact multiplyDirect_words fits config a b c m
    | reshaped h v => exact multiplyReshaped_words fits config blocks.1 blocks.2 a b c m

theorem additionStage_words (fits : g.Fits α) (old c : BufferId) (m : Memory) :
    g.additionStage .words α old c m = g.additionStage .exact α old c m := by
  unfold additionStage
  rw [Machine.addition_words fits.planes fits.planes]
  split
  · rfl
  · refine bind_congr_ok fun k hk => ?_
    obtain ⟨rfl, accepted⟩ := Addition.configure_eq_ok.1 (refuse_eq_ok.1 hk)
    rw [Machine.words_runAddition accepted ⟨fits.c, fits.c, fits.frac⟩]
    rfl

/-! ### Runs that fit -/

section Runs

variable (lengths : InWords g.lengthNumbers)
  (fits : g.checkLengths .exact a b c = .ok () →
    g.Fits α ∧ (g.resolvedConfig α).path.BlocksNonzero)

include lengths fits

theorem productOn_words : g.productOn .words a b c = g.productOn .exact a b c := by
  unfold productOn
  rw [checkLengths_words lengths]
  refine bind_congr_ok fun _ hlengths => ?_
  obtain ⟨fits, blocks⟩ := fits hlengths
  rw [multiplyStage_words fits blocks]
  exact bind_congr_ok fun m _ => by rw [additionStage_words fits]

theorem execute?_eq : g.execute? a b c = g.execute a b c := by
  rw [execute?, execute, executeOn, executeOn, productOn_words lengths fits]

theorem executeInPlace?_eq : g.executeInPlace? a b c = g.executeInPlaceOn .exact a b c := by
  rw [executeInPlace?, executeInPlaceOn, executeInPlaceOn, checkLengths_words lengths]
  cases hlengths : g.checkLengths .exact a b c with
  | error e => rfl
  | ok _ =>
    obtain ⟨fits, blocks⟩ := fits hlengths
    dsimp only
    rw [multiplyStage_words fits blocks]
    cases g.multiplyStage .exact α 0 1 2 (operands a b c) with
    | error e => rfl
    | ok m =>
      dsimp only
      rw [additionStage_words fits]

end Runs

theorem referenceProduct_eq (hp : g.Poses a b c) (fits : g.Fits α) {z : Nat} (hz : z < g.batches) :
    referenceProduct g.m g.k g.n g.alpha g.frac (matrixAt a (g.m * g.k) z)
        (matrixAt b (g.k * g.n) (z % g.bDepth)) =
      .ok (referenceElements g.m g.k g.n g.alpha g.frac (matrixAt a (g.m * g.k) z)
        (matrixAt b (g.k * g.n) (z % g.bDepth))) := by
  have left : (matrixAt a (g.m * g.k) z).length = g.m * g.k :=
    length_matrixAt (hp.left.trans (Nat.mul_assoc ..)) hz
  have right : (matrixAt b (g.k * g.n) (z % g.bDepth)).length = g.k * g.n :=
    length_matrixAt (hp.right.trans (Nat.mul_assoc ..)) (Nat.mod_lt _ hp.bDepth_pos)
  have plane {l : Layout} {x y : Nat} (hl : l.Addressable) (hx : l.dim 0 = y) (hy : l.dim 1 = x) :
      checkWords [x * y] = .ok () := by
    refine checkWords_eq_ok.2 (inWords_singleton.2 ?_)
    rw [← hx, ← hy, Nat.mul_comm]
    exact hl.plane_lt
  have ha := plane fits.a (Layout.dim_zero_packed ..) (Layout.dim_one_packed ..)
  have hb := plane fits.b (Layout.dim_zero_packed ..) (Layout.dim_one_packed ..)
  have hc := plane fits.c (Layout.dim_zero_packed ..) (Layout.dim_one_packed ..)
  have shift (count : Nat) : ((Element.kind α).withFrac g.frac).checkShift count = .ok () :=
    if_pos (.inr fits.frac)
  simp only [referenceProduct, ha, hb, hc, shift, left, right, ne_eq, not_true_eq_false, if_false,
    ok_bind]
  rfl

end Gemm

/-- Every run on lists of the right lengths that fits, at a configuration that kernels accept,
succeeds and leaves the formula in `C`. So the outcome does not depend on the path, the tile or the
numbers of blocks; for fixed-point types it does not depend on the target either; and without `beta`
it does not depend on the old `C`, and each matrix of it is the triple loop's if the type is
fixed-point or the target rounds products. -/
theorem execute_spec {α : Type} [Element α] (hα : Dispatched (Element.kind α) α) {g : Gemm}
    {a b c : List α} (hp : g.Poses a b c) (hv : (g.resolvedConfig α).path.Valid)
    (lengths : InWords g.lengthNumbers) (fits : g.Fits α) :
    (∃ c', g.execute? a b c = (.ok (), c') ∧ c'.length = c.length ∧
      ∀ z i j, z < g.batches → i < g.m → j < g.n →
        c'[z * g.m * g.n + i * g.n + j]? =
          some (g.entry (g.resolvedConfig α).target a b c z i j)) ∧
    (∀ config : Config, config.path.Valid → { g with config := some config }.Fits α →
      config.target = (g.resolvedConfig α).target ∨
        Element.kind α = .qs8 ∨ Element.kind α = .qs16 →
      { g with config := some config }.execute? a b c = g.execute? a b c) ∧
    (g.beta.eqv .zero →
      (∀ c₀ : List α, c₀.length = c.length → g.execute? a b c₀ = g.execute? a b c) ∧
      ((g.resolvedConfig α).target = .midgard ∨
          Element.kind α = .qs8 ∨ Element.kind α = .qs16 →
        ∀ z < g.batches, referenceProduct g.m g.k g.n g.alpha g.frac (matrixAt a (g.m * g.k) z)
            (matrixAt b (g.k * g.n) (z % g.bDepth)) =
          .ok (matrixAt (g.execute? a b c).2 (g.m * g.n) z))) := by
  have blocks : (g.resolvedConfig α).path.BlocksNonzero := (Path.valid_iff.1 hv).1
  have run (c₀ : List α) (hp₀ : g.Poses a b c₀) :
      g.execute? a b c₀ = (.ok (), g.entries (g.resolvedConfig α).target a b c₀) := by
    rw [Gemm.execute?_eq lengths fun _ => ⟨fits, blocks⟩, Gemm.execute_eq hα hp₀ hv]
  rw [run c hp]
  refine ⟨⟨_, rfl, Gemm.length_entries.trans hp.result.symm, ?_⟩, ?_, ?_⟩
  · intro z i j hz hi hj
    exact Gemm.getElem?_entries hz hi hj
  · intro config hconfig fits' htarget
    have hp' : Gemm.Poses { g with config := some config } a b c :=
      ⟨hp.left, hp.right, hp.result, hp.bDepth_pos, hp.bDepth_le⟩
    rw [Gemm.execute?_eq (g := { g with config := some config }) lengths
      fun _ => ⟨fits', (Path.valid_iff.1 hconfig).1⟩, Gemm.execute_eq hα hp' hconfig]
    refine congrArg (Prod.mk (Except.ok ())) ?_
    -- the formula has no configuration in it, only a target
    show g.entries config.target a b c = g.entries (g.resolvedConfig α).target a b c
    rcases htarget with htarget | hfixed
    · rw [htarget]
    · apply Gemm.entries_congr
      rw [Gemm.mac_eq_mulAdd hα (.inr hfixed), Gemm.mac_eq_mulAdd hα (.inr hfixed)]
  · intro hbeta
    refine ⟨?_, ?_⟩
    · intro c₀ hc₀
      have hp' : g.Poses a b c₀ :=
        ⟨hp.left, hp.right, hc₀.trans hp.result, hp.bDepth_pos, hp.bDepth_le⟩
      rw [run c₀ hp', Gemm.entries_of_beta_zero hbeta c₀ c]
    · intro htarget z hz
      rw [Gemm.referenceProduct_eq hp fits hz, Gemm.referenceElements_eq hα hbeta htarget hz]

/-- Two products of two by three and three by two matrices with one right operand, on the reshaped
path. -/
theorem execute_spec_small :
    let g : Gemm := ⟨2, 2, 3, 2, 1, .one, .one, 0, none, some ⟨.bifrost, .reshaped 2 1⟩, .unset⟩
    let a : List Q8 := [⟨1⟩, ⟨2⟩, ⟨3⟩, ⟨4⟩, ⟨5⟩, ⟨6⟩, ⟨-1⟩, ⟨0⟩, ⟨1⟩, ⟨100⟩, ⟨100⟩, ⟨0⟩]
    let b : List Q8 := [⟨1⟩, ⟨2⟩, ⟨3⟩, ⟨4⟩, ⟨5⟩, ⟨6⟩]
    let c : List Q8 := [⟨1⟩, ⟨1⟩, ⟨1⟩, ⟨1⟩, ⟨2⟩, ⟨2⟩, ⟨2⟩, ⟨-2⟩]
    (g.execute? a b c).1 = .ok () ∧ (g.execute? a b c).2[2]? = some ⟨50⟩ ∧
      (g.execute? a b c).2[7]? = some ⟨125⟩ ∧
      { g with config := some ⟨.midgard, .direct ⟨1, 4⟩⟩ }.execute? a b c = g.execute? a b c := by
  intro g a b c
  have hp : g.Poses a b c := by constructor <;> decide
  have fits : g.Fits Q8 := by decide
  obtain ⟨⟨c', hc', -, hget⟩, hconfig, -⟩ := execute_spec .q8 hp (by decide) (by decide) fits
  refine ⟨congrArg Prod.fst hc', ?_, ?_, hconfig _ (by decide) (by decide) (.inr (.inl rfl))⟩
  · rw [hc']
    exact (hget 0 1 0 (by decide) (by decide) (by decide)).trans (by decide)
  · rw [hc']
    exact (hget 1 1 1 (by decide) (by decide) (by decide)).trans (by decide)

/-- Nothing to multiply, with blocks of the left operand in a row whose elements are too many to be
counted. -/
theorem execute_fails_for_wide_blocks :
    let g : Gemm :=
      ⟨0, 0, 0, 1, 1, .one, .zero, 0, none, some ⟨.bifrost, .reshaped 1 (2 ^ 62)⟩, .unset⟩
    let c : List Binary32 := []
    g.Poses c c c ∧ (g.resolvedConfig Binary32).path.Valid ∧
      (g.execute? c c c).1 = .error (.fault .arithmetic) := by
  refine ⟨⟨rfl, rfl, rfl, by decide, by decide⟩, by decide, by decide +kernel⟩

end TileCompute
