import TileCompute.Proofs.Product
import TileCompute.Proofs.WordProduct

/-!
# TileCompute.Proofs.Outcomes

How products end. A run on element lists has two stages that may refuse: the multiply, and the
addition of the old contents of `C`, which is looked at when the multiply has overwritten them.
`Gemm.executeInPlace?` keeps the memory of a refused run, so that what a refusal leaves behind can
be seen at all.

* `Gemm.additionStage_not_refused`: the second stage is never refused.
* `execute_ok_iff`: which runs succeed, and that the others leave `C` alone.
* `zero_blocks_fault`: a path with a number of blocks of zero is a fault. The layouts of the
  reshaped operands are worked out before any kernel looks at the blocks.
-/

namespace TileCompute

/-! ### Outcomes without faults -/

section Faultless

variable {ε α β : Type}

/-- A result or a refusal. -/
def Faultless (x : Except (Failure ε) α) : Prop := ∀ f, x ≠ .error (.fault f)

theorem faultless_ok (a : α) : Faultless (.ok a : Except (Failure ε) α) := by
  intro f h
  cases h

theorem faultless_refuse (x : Except ε α) : Faultless (refuse x) := by
  intro f h
  cases x <;> cases h

theorem Faultless.bind {x : Except (Failure ε) α} {f : α → Except (Failure ε) β}
    (hx : Faultless x) (hf : ∀ a, Faultless (f a)) : Faultless (x >>= f) := by
  cases x with
  | ok a => exact hf a
  | error e =>
    intro fault h
    cases h
    exact hx fault rfl

theorem Faultless.map {x : Except (Failure ε) α} {f : α → β} (hx : Faultless x) :
    Faultless (x.map f) := by
  cases x with
  | ok a => exact faultless_ok _
  | error e =>
    intro fault h
    cases h
    exact hx fault rfl

theorem Faultless.exists_refused {x : Except (Failure ε) α} {e : Failure ε} (hx : Faultless x)
    (h : x = .error e) : ∃ cause, e = .refused cause := by
  cases e with
  | refused cause => exact ⟨cause, rfl⟩
  | fault f => exact absurd h (hx f)

end Faultless

/-! ### Products of lists -/

namespace Gemm

variable {α : Type} [Element α] {g : Gemm} {a b c : List α}

theorem unpackElements_operands : unpackElements α (operands a b c) 2 c.length = c := by
  apply List.ext_getElem
  · simp [unpackElements]
  · intro i _ hi
    have hload : (operands a b c).load 2 (i * (Element.kind α).size) (Element.kind α).size =
        Element.toWord (c.getD i (zeroElement α)) := load_packBytes (fun _ => rfl) hi
    simp only [unpackElements, List.getElem_map, List.getElem_range]
    rw [hload, Element.ofWord_toWord, List.getD_eq_getElem?_getD, List.getElem?_eq_getElem hi,
      Option.getD_some]

/-- Both operands of the addition have the layout of `C`, so there is nothing to refuse. -/
theorem configure_addition (hα : Dispatched (Element.kind α) α) (g : Gemm) :
    Addition.configure (g.cLayout α) (g.cLayout α) g.beta =
      .ok ⟨g.cLayout α, g.cLayout α, g.beta⟩ :=
  Addition.configure_eq_ok.2 ⟨rfl, rfl, (dispatched_dataType hα).ne_s32, rfl, rfl, rfl⟩

theorem additionStage_ok (hα : Dispatched (Element.kind α) α) (g : Gemm) (old c : BufferId)
    (m : Memory) : ∃ m', g.additionStage .exact α old c m = .ok m' := by
  unfold additionStage
  split
  · exact ⟨m, rfl⟩
  · rw [Machine.exact_addition, configure_addition hα]
    exact ⟨_, rfl⟩

theorem additionStage_not_refused (hα : Dispatched (Element.kind α) α) (g : Gemm)
    (old c : BufferId) (m : Memory) (cause : KernelError) :
    g.additionStage .words α old c m ≠ .error (.refused cause) := by
  have configured : Machine.words.addition (g.cLayout α) (g.cLayout α) g.beta =
      (do
        raise (checkWords (Addition.planeNumbers ⟨g.cLayout α, g.cLayout α, g.beta⟩))
        .ok ⟨g.cLayout α, g.cLayout α, g.beta⟩) := by
    show Addition.configure? _ _ _ = _
    rw [Addition.configure?, configure_addition hα]
    rfl
  unfold additionStage
  rw [configured]
  intro h
  split at h
  · cases h
  · cases hwords : checkWords (Addition.planeNumbers ⟨g.cLayout α, g.cLayout α, g.beta⟩) with
    | error f =>
      rw [hwords] at h
      cases h
    | ok _ =>
      rw [hwords] at h
      change raise (Machine.words.runAddition _ old c m) = _ at h
      cases hran : Machine.words.runAddition ⟨g.cLayout α, g.cLayout α, g.beta⟩ old c m with
      | error f =>
        rw [hran] at h
        cases h
      | ok m' =>
        rw [hran] at h
        cases h

/-- A multiply that runs has a usable number of right operands and a valid tile. -/
theorem usable_of_multiplyStage {m m' : Memory}
    (h : g.multiplyStage .exact α 0 1 2 m = .ok m') :
    (1 ≤ g.bDepth ∧ g.bDepth ≤ max g.batches 1) ∧
      ∀ tile, (g.resolvedConfig α).path = .direct tile → tile.Valid := by
  have hb : (g.bLayout α).batches = g.bDepth := Layout.batches_packed ..
  have hc : (g.cLayout α).batches = g.batches := Layout.batches_packed ..
  simp only [multiplyStage, Machine.exact_count, raise_ok, ok_bind] at h
  generalize g.resolvedConfig α = config at h ⊢
  obtain ⟨target, path⟩ := config
  cases path with
  | direct tile =>
    simp only [Config.packing?, multiplyDirect, Machine.exact_multiply, bind_eq_ok, refuse_eq_ok,
      Multiply.configure_eq_ok] at h
    obtain ⟨_, ⟨rfl, hk⟩, -⟩ := h
    have hfits : Multiply.FitsDirect _ tile := hk.fits
    refine ⟨?_, ?_⟩
    · rw [← hb, ← hc]
      exact ⟨Nat.pos_of_ne_zero hk.bDepth_ne, hk.bDepth_le⟩
    · rintro _ ⟨⟩
      exact hfits.valid
  | reshaped h v =>
    simp only [Config.packing?, multiplyReshaped, Machine.exact_reshape, Machine.exact_multiply,
      bind_eq_ok, refuse_eq_ok, raise_eq_ok, Reshape.configure_eq_ok, Multiply.configure_eq_ok] at h
    obtain ⟨_, -, b', -, _, -, _, ⟨rfl, ht⟩, _, ⟨rfl, hk⟩, -⟩ := h
    -- reshaping keeps the planes of the right operand
    obtain ⟨-, -, -, hbatches⟩ := ht.extents_blockTransposed
    refine ⟨?_, ?_⟩
    · rw [← hb, ← hc, ← hbatches]
      exact ⟨Nat.pos_of_ne_zero hk.bDepth_ne, hk.bDepth_le⟩
    · rintro _ ⟨⟩

theorem faultless_multiplyStage (hblocks : (g.resolvedConfig α).path.BlocksNonzero) (m : Memory) :
    Faultless (g.multiplyStage .exact α 0 1 2 m) := by
  simp only [multiplyStage, Machine.exact_count, raise_ok, ok_bind]
  generalize g.resolvedConfig α = config at hblocks ⊢
  obtain ⟨target, path⟩ := config
  cases path with
  | direct tile => exact (faultless_refuse _).bind fun _ => faultless_ok _
  | reshaped h v =>
    have hh : (Arrangement.blockTransposed h).blocks ≠ 0 := hblocks.1
    have hv : (Arrangement.interleaved v).blocks ≠ 0 := hblocks.2
    simp only [Config.packing?, multiplyReshaped, Packing.ofType,
      Machine.outputLayout_exact hv, Machine.outputLayout_exact hh, raise_ok, ok_bind]
    exact (faultless_refuse _).bind fun _ => (faultless_refuse _).bind fun _ =>
      (faultless_refuse _).bind fun _ => faultless_ok _

/-- A run that makes a new `C` before it replaces the old one cannot be told from a run in place. -/
theorem execute_eq_executeInPlace (hα : Dispatched (Element.kind α) α) (g : Gemm) (a b c : List α) :
    g.execute a b c = g.executeInPlaceOn .exact a b c := by
  rw [execute, executeOn, productOn, executeInPlaceOn]
  cases g.checkLengths .exact a b c with
  | error e => rfl
  | ok _ =>
    simp only [ok_bind]
    cases g.multiplyStage .exact α 0 1 2 (operands a b c) with
    -- kernels are configured before the first store
    | error e => exact congrArg (Prod.mk _) unpackElements_operands.symm
    | ok m =>
      obtain ⟨m', hm'⟩ := additionStage_ok hα g 3 2 m
      simp only [ok_bind, hm']
      rfl

theorem executeInPlaceOn_fst (machine : Machine) :
    (g.executeInPlaceOn machine a b c).1 = (g.executeOn machine a b c).1 := by
  rw [executeInPlaceOn, executeOn, productOn]
  cases g.checkLengths machine a b c with
  | error e => rfl
  | ok _ =>
    simp only [ok_bind]
    cases g.multiplyStage machine α 0 1 2 (operands a b c) with
    | error e => rfl
    | ok m =>
      simp only [ok_bind]
      cases g.additionStage machine α 3 2 m with
      | error e => rfl
      | ok m' => rfl

/-- A run in place fails with `C` as before, at the lengths or in the multiply, or fails in the
addition. -/
theorem executeInPlaceOn_eq_error {machine : Machine} {e : Failure KernelError}
    (h : (g.executeInPlaceOn machine a b c).1 = .error e) :
    (g.executeInPlaceOn machine a b c).2 = c ∧ (g.checkLengths machine a b c = .error e ∨
        g.multiplyStage machine α 0 1 2 (operands a b c) = .error e) ∨
      ∃ m, g.additionStage machine α 3 2 m = .error e := by
  rw [executeInPlaceOn] at h ⊢
  cases hlengths : g.checkLengths machine a b c with
  | error e' =>
    rw [hlengths] at h
    exact .inl ⟨rfl, .inl (congrArg _ (Except.error.inj h))⟩
  | ok _ =>
    rw [hlengths] at h
    dsimp only at h ⊢
    cases hm : g.multiplyStage machine α 0 1 2 (operands a b c) with
    | error e' =>
      rw [hm] at h
      exact .inl ⟨unpackElements_operands, .inr (congrArg _ (Except.error.inj h))⟩
    | ok m =>
      rw [hm] at h
      dsimp only at h
      cases hm' : g.additionStage machine α 3 2 m with
      | error e' =>
        rw [hm'] at h
        exact .inr ⟨m, hm'.trans (congrArg _ (Except.error.inj h))⟩
      | ok m' =>
        rw [hm'] at h
        cases h

/-- A refusal leaves `C` alone, whether the problem fits or not. -/
theorem executeInPlace?_refused (hα : Dispatched (Element.kind α) α) {cause : KernelError}
    (h : (g.executeInPlace? a b c).1 = .error (.refused cause)) :
    (g.executeInPlace? a b c).2 = c := by
  obtain ⟨kept, -⟩ | ⟨m, hm⟩ := executeInPlaceOn_eq_error h
  · exact kept
  · exact absurd hm (additionStage_not_refused hα g 3 2 m cause)

omit [Element α] in
theorem faultless_checkLengths (g : Gemm) (a b c : List α) :
    Faultless (g.checkLengths .exact a b c) :=
  (faultless_refuse _).bind fun _ => (faultless_refuse _).bind fun _ => faultless_refuse _

/-- With blocks, a run with room for every number has no fault. -/
theorem executeInPlace_error (hα : Dispatched (Element.kind α) α)
    (hblocks : (g.resolvedConfig α).path.BlocksNonzero) {e : Failure KernelError}
    (h : (g.executeInPlaceOn .exact a b c).1 = .error e) : ∃ cause, e = .refused cause := by
  obtain ⟨-, hlengths | hm⟩ | ⟨m, hm⟩ := executeInPlaceOn_eq_error h
  · exact (faultless_checkLengths g a b c).exists_refused hlengths
  · exact (faultless_multiplyStage hblocks _).exists_refused hm
  · obtain ⟨m', hm'⟩ := additionStage_ok hα g 3 2 m
    rw [hm'] at hm
    cases hm

theorem execute_eq_ok (hα : Dispatched (Element.kind α) α)
    (hblocks : (g.resolvedConfig α).path.BlocksNonzero) :
    (g.execute a b c).1 = .ok () ↔
      g.Poses a b c ∧ ∀ tile, (g.resolvedConfig α).path = .direct tile → tile.Valid := by
  constructor
  · rw [execute_eq_executeInPlace hα, executeInPlaceOn]
    cases hlengths : g.checkLengths .exact a b c with
    | error e =>
      intro h
      cases h
    | ok _ =>
      cases hm : g.multiplyStage .exact α 0 1 2 (operands a b c) with
      | error e =>
        intro h
        cases h
      | ok m =>
        intro _
        obtain ⟨⟨-, hleft⟩, ⟨-, hright⟩, -, hresult⟩ := checkLengths_eq_ok.1 hlengths
        obtain ⟨⟨hpos, hle⟩, htile⟩ := usable_of_multiplyStage hm
        exact ⟨⟨hleft, hright, hresult, hpos, hle⟩, htile⟩
  · rintro ⟨hp, htile⟩
    rw [execute_eq hα hp (Path.valid_iff.2 ⟨hblocks, htile⟩)]

/-- Lists of the lengths that a problem asks for. -/
def Matches (g : Gemm) (a b c : List α) : Prop :=
  a.length = g.batches * g.m * g.k ∧ b.length = g.bDepth * g.k * g.n ∧
    c.length = g.batches * g.m * g.n

omit [Element α] in
theorem matches_of_checkLengths {u : Unit} (h : g.checkLengths .exact a b c = .ok u) :
    g.Matches a b c := by
  obtain ⟨⟨-, left⟩, ⟨-, right⟩, -, result⟩ := checkLengths_eq_ok.1 h
  exact ⟨left, right, result⟩

end Gemm

/-- A run in place ends like one that makes a new `C`, and a refused one leaves its `C` as before,
although it adds the old contents last. If the lengths are machine words and lists that have them
make a problem that fits, then every run either succeeds or is refused. Those succeed whose lists
have the lengths that the problem asks for, with at least one right operand and no more than there
are products, at a tile within the limits if the path is direct. Numbers of blocks are not zero
here; the table has no others. -/
theorem execute_ok_iff {α : Type} [Element α] (hα : Dispatched (Element.kind α) α) (g : Gemm)
    (a b c : List α) :
    (g.executeInPlace? a b c).1 = (g.execute? a b c).1 ∧
    (∀ cause, (g.execute? a b c).1 = .error (.refused cause) →
      (g.executeInPlace? a b c).2 = c) ∧
    ((∀ config ∈ g.config, config.path.BlocksNonzero) → InWords g.lengthNumbers →
        (g.Matches a b c → g.Fits α) →
      ((g.execute? a b c).1 = .ok () ↔
        g.Poses a b c ∧ ∀ tile, (g.resolvedConfig α).path = .direct tile → tile.Valid) ∧
      g.executeInPlace? a b c = g.execute? a b c ∧
      ∀ e, (g.execute? a b c).1 = .error e → ∃ cause, e = .refused cause) := by
  have ends : (g.executeInPlace? a b c).1 = (g.execute? a b c).1 :=
    Gemm.executeInPlaceOn_fst .words
  refine ⟨ends, fun cause refused => Gemm.executeInPlace?_refused hα (ends.trans refused),
    fun blocks lengths fits => ?_⟩
  have resolved : (g.resolvedConfig α).path.BlocksNonzero := by
    rw [Gemm.resolvedConfig]
    cases hconfig : g.config with
    | none => exact (Path.valid_iff.1 (Environment.valid_lookup ..)).1
    | some config => exact blocks config hconfig
  have room (h : g.checkLengths .exact a b c = .ok ()) :
      g.Fits α ∧ (g.resolvedConfig α).path.BlocksNonzero :=
    ⟨fits (Gemm.matches_of_checkLengths h), resolved⟩
  rw [Gemm.execute?_eq lengths room, Gemm.executeInPlace?_eq lengths room,
    ← Gemm.execute_eq_executeInPlace hα]
  refine ⟨Gemm.execute_eq_ok hα resolved, rfl, fun e he => ?_⟩
  rw [Gemm.execute_eq_executeInPlace hα] at he
  exact Gemm.executeInPlace_error hα resolved he

/-- Two right operands for one product. The run is refused, and `C` is as before. -/
theorem execute_ok_iff_refused :
    let g : Gemm := ⟨1, 2, 1, 1, 2, .one, .one, 0, none, some ⟨.bifrost, .reshaped 1 1⟩, .unset⟩
    let a : List Q8 := [⟨3⟩]
    let b : List Q8 := [⟨1⟩, ⟨2⟩, ⟨3⟩, ⟨4⟩]
    let c : List Q8 := [⟨5⟩, ⟨6⟩]
    (g.execute? a b c).1 ≠ .ok () ∧ (g.executeInPlace? a b c).2 = c ∧
      ({ g with bDepth := 1 }.execute? a (b.take 2) c).1 = .ok () := by
  intro g a b c
  obtain ⟨-, refused, fit⟩ := execute_ok_iff .q8 g a b c
  obtain ⟨hiff, -, error⟩ := fit (by decide) (by decide) fun _ => by decide
  obtain ⟨hiff', -⟩ := (execute_ok_iff .q8 { g with bDepth := 1 } a (b.take 2) c).2.2 (by decide)
    (by decide) fun _ => by decide
  have hne : (g.execute? a b c).1 ≠ .ok () := fun h => absurd (hiff.1 h).1.bDepth_le (by decide)
  refine ⟨hne, ?_, hiff'.2 ⟨by constructor <;> decide, nofun⟩⟩
  cases h : (g.execute? a b c).1 with
  | ok u => exact absurd h hne
  | error e =>
    obtain ⟨cause, rfl⟩ := error e h
    exact refused cause h

/-- One element of each operand, with blocks of the left one in a row whose elements are too many to
be counted. -/
theorem execute_fails_instead_of_ok :
    let g : Gemm :=
      ⟨1, 1, 1, 1, 1, .one, .zero, 0, none, some ⟨.midgard, .reshaped 1 (2 ^ 62)⟩, .unset⟩
    let c : List Binary32 := [.one]
    (∀ config ∈ g.config, config.path.BlocksNonzero) ∧ g.Poses c c c ∧
      (g.execute? c c c).1 = .error (.fault .arithmetic) := by
  refine ⟨by decide, ⟨rfl, rfl, rfl, by decide, by decide⟩, by decide +kernel⟩

/-! ### No blocks -/

theorem checkWords_cases (numbers : List Nat) :
    checkWords numbers = .ok () ∨ checkWords numbers = .error .arithmetic := by
  unfold checkWords inWords?
  split
  · exact .inl rfl
  · exact .inr rfl

theorem Arrangement.outputLayout?_cases (g : Arrangement) (s : Layout) :
    (∃ t, g.outputLayout? s = .ok t) ∨ g.outputLayout? s = .error .arithmetic := by
  unfold outputLayout? outputLayout
  split
  · exact .inr rfl
  · rw [ok_bind]
    obtain h | h := checkWords_cases
      (g.shapeNumbers s ++ (Layout.packed (g.shape s) s.dataType).numbers)
    · rw [h]
      exact .inl ⟨_, rfl⟩
    · rw [h]
      exact .inr rfl

section Layouts

variable {ε β : Type} {a b : Layout} {h v : Nat} {rest : Layout → Layout → Except (Failure ε) β}

/-- Without blocks the layouts of the reshaped operands do not exist, and that is a fault whatever
would follow. -/
theorem layouts_of_zero (hzero : h = 0 ∨ v = 0) :
    (do
      let a' ← raise (Machine.words.outputLayout (.interleaved v) a)
      let b' ← raise (Machine.words.outputLayout (.blockTransposed h) b)
      rest a' b') = .error (.fault .arithmetic) := by
  by_cases hv : v = 0
  · subst hv
    rfl
  · obtain rfl := hzero.resolve_right hv
    obtain ⟨a', ha⟩ | ha := Arrangement.outputLayout?_cases (.interleaved v) a
    · change raise (Arrangement.outputLayout? (.interleaved v) a) >>= _ = _
      rw [ha]
      rfl
    · change raise (Arrangement.outputLayout? (.interleaved v) a) >>= _ = _
      rw [ha]
      rfl

end Layouts

namespace Gemm

variable {α : Type} [Element α] {g : Gemm} {a b c : List α} {target : Target} {h v : Nat}

omit [Element α] in
/-- Lists of the right lengths are not refused. -/
theorem checkLengths_of_matches (lists : g.Matches a b c) :
    g.checkLengths .words a b c = .ok () ∨
      g.checkLengths .words a b c = .error (.fault .arithmetic) := by
  obtain ⟨left, right, result⟩ := lists
  have fit {operand : String} {expected actual : Nat} (h : actual = expected) :
      refuse (checkLength operand expected actual) = .ok () := by
    rw [checkLength_eq_ok.2 h]
    rfl
  have count : Machine.words.count = checkWords := rfl
  simp only [checkLengths, fit left, fit right, fit result, count, ok_bind]
  obtain hl | hl := checkWords_cases g.leftNumbers
  · obtain hr | hr := checkWords_cases g.rightNumbers
    · obtain hc | hc := checkWords_cases g.resultNumbers
      · exact .inl (by rw [hl, hr, hc]; rfl)
      · exact .inr (by rw [hl, hr, hc]; rfl)
    · exact .inr (by rw [hl, hr]; rfl)
  · exact .inr (by rw [hl]; rfl)

theorem multiplyStage_of_zero (hg : g.config = some ⟨target, .reshaped h v⟩)
    (hzero : h = 0 ∨ v = 0) (m : Memory) :
    g.multiplyStage .words α 0 1 2 m = .error (.fault .arithmetic) := by
  have hconfig : g.resolvedConfig α = ⟨target, .reshaped h v⟩ := by
    rw [resolvedConfig, hg, Option.getD_some]
  have count : Machine.words.count = checkWords := rfl
  simp only [multiplyStage, hconfig, Config.packing?, multiplyReshaped, count]
  obtain hl | hl := checkWords_cases (g.layoutNumbers α)
  · rw [hl]
    exact layouts_of_zero hzero
  · rw [hl]
    rfl

theorem execute?_of_zero (hg : g.config = some ⟨target, .reshaped h v⟩) (lists : g.Matches a b c)
    (hzero : h = 0 ∨ v = 0) : (g.execute? a b c).1 = .error (.fault .arithmetic) := by
  rw [execute?, executeOn, productOn, multiplyStage_of_zero hg hzero]
  obtain hlengths | hlengths := checkLengths_of_matches lists
  · rw [hlengths]
    rfl
  · rw [hlengths]
    rfl

end Gemm

theorem faultless_kernelFailure {β : Type} {x : Except (Failure KernelError) β} (h : Faultless x) :
    Faultless (kernelFailure x) := by
  intro f hf
  cases x with
  | ok b => cases hf
  | error e =>
    cases e with
    | refused cause => cases hf
    | fault f' => exact h f' rfl

namespace MatrixProduct

variable {a b output : Layout} {c : Option Layout} {o : ProductOptions} {target : Target}
  {h v : Nat}

theorem faultless_configureAddition {machine : Machine} {beta : Binary32}
    (h : ∀ s ∈ c, Faultless (machine.addition s output beta)) :
    Faultless (configureAddition machine c output beta) := by
  cases c with
  | none => exact faultless_ok _
  | some s =>
    unfold configureAddition
    dsimp only
    split
    · exact faultless_ok _
    · exact (faultless_kernelFailure (h s rfl)).map

/-- With blocks, a configuration of numbers that are machine words has no fault. -/
theorem faultless_configure_words (ho : o.config = some ⟨target, .reshaped h v⟩) (hh : h ≠ 0)
    (hv : v ≠ 0)
    (numbers : InWords ((⟨target, .reshaped h v⟩ : Config).numbers a b output))
    (ct : ∀ s ∈ c, InWords (s.shape.products 2 4)) (m : Memory) :
    Faultless (configureOn .words a b c output o m) := by
  have hconfig : resolvedConfig a output o = ⟨target, .reshaped h v⟩ := by
    rw [resolvedConfig, ho, Option.getD_some]
  have planes : InWords (output.shape.products 2 4) := (inWords_append.1 numbers).1
  obtain ⟨left, right⟩ := inWords_append.1 (inWords_append.1 (inWords_append.1 numbers).2).1
  have hv : (Arrangement.interleaved v).blocks ≠ 0 := hv
  have hh : (Arrangement.blockTransposed h).blocks ≠ 0 := hh
  refine (faultless_refuse _).bind fun _ => ?_
  simp only [hconfig, Config.packing?, configureReshaped, Packing.ofType,
    Machine.outputLayout_words hv left, Machine.outputLayout_words hh right, raise_ok, ok_bind]
  rw [Machine.reshape_words left, Machine.reshape_words right,
    Machine.multiply_words_reshaped numbers]
  refine (faultless_kernelFailure (faultless_refuse _)).bind fun _ =>
    (faultless_kernelFailure (faultless_refuse _)).bind fun _ =>
      (faultless_kernelFailure (faultless_refuse _)).bind fun _ =>
        (faultless_configureAddition fun s hs => ?_).bind fun _ => ?_
  · rw [Machine.addition_words (ct s hs) planes]
    exact faultless_refuse _
  · cases o.keepRight <;> exact faultless_ok _

theorem configure_of_zero (ho : o.config = some ⟨target, .reshaped h v⟩)
    (dims : checkOperands a b output = .ok ()) (hzero : h = 0 ∨ v = 0) (m : Memory) :
    configureOn .words a b c output o m = .error (.fault .arithmetic) := by
  have hconfig : resolvedConfig a output o = ⟨target, .reshaped h v⟩ := by
    rw [resolvedConfig, ho, Option.getD_some]
  simp only [configureOn, dims, refuse_ok, ok_bind, hconfig, Config.packing?, configureReshaped]
  exact layouts_of_zero hzero

end MatrixProduct

/-- A reshaped path without blocks is a fault of the caller, not a refusal: the layouts of the
reshaped operands divide by the numbers of blocks before a kernel is configured that would refuse
them. So it is for all runs on lists of the right lengths and all layers whose extents fit. With
blocks neither has that fault, if the numbers are machine words and the machine can address the
operands of the run. -/
theorem zero_blocks_fault (target : Target) (h v : Nat) :
    (∀ (α : Type) [Element α], Dispatched (Element.kind α) α → ∀ (g : Gemm) (a b c : List α),
      g.config = some ⟨target, .reshaped h v⟩ → a.length = g.batches * g.m * g.k →
      b.length = g.bDepth * g.k * g.n → c.length = g.batches * g.m * g.n →
        (h = 0 ∨ v = 0 → (g.execute? a b c).1 = .error (.fault .arithmetic)) ∧
        (InWords g.lengthNumbers → g.Fits α →
          ((g.execute? a b c).1 = .error (.fault .arithmetic) ↔ h = 0 ∨ v = 0))) ∧
    (∀ (a b : View) (c : Option View) (output : View) (o : ProductOptions) (m : Memory),
      o.config = some ⟨target, .reshaped h v⟩ → a.layout.dim 0 = b.layout.dim 1 →
      a.layout.dim 1 = output.layout.dim 1 → b.layout.dim 0 = output.layout.dim 0 →
        (h = 0 ∨ v = 0 →
          GemmLayer.configure? a b c output o m = .error (.fault .arithmetic)) ∧
        (InWords ((⟨target, .reshaped h v⟩ : Config).numbers a.layout b.layout output.layout) →
          (∀ s ∈ c, InWords (s.layout.shape.products 2 4)) →
          (GemmLayer.configure? a b c output o m = .error (.fault .arithmetic) ↔
            h = 0 ∨ v = 0))) := by
  constructor
  · intro α _ hα g a b c hg ha hb hc
    have zero (hzero : h = 0 ∨ v = 0) : (g.execute? a b c).1 = .error (.fault .arithmetic) :=
      Gemm.execute?_of_zero hg ⟨ha, hb, hc⟩ hzero
    refine ⟨zero, fun lengths fits => ⟨fun fault => ?_, zero⟩⟩
    by_contra hne
    obtain ⟨hh, hv⟩ := not_or.1 hne
    have blocks : (g.resolvedConfig α).path.BlocksNonzero := by
      rw [Gemm.resolvedConfig, hg]
      exact ⟨hh, hv⟩
    rw [Gemm.execute?_eq lengths fun _ => ⟨fits, blocks⟩, Gemm.execute_eq_executeInPlace hα]
      at fault
    obtain ⟨cause, refused⟩ := Gemm.executeInPlace_error hα blocks fault
    cases refused
  · intro a b c output o m ho depth rows columns
    have dims : MatrixProduct.checkOperands a.layout b.layout output.layout = .ok () :=
      MatrixProduct.checkOperands_eq_ok.2 ⟨depth, rows, columns⟩
    have zero (hzero : h = 0 ∨ v = 0) :
        GemmLayer.configure? a b c output o m = .error (.fault .arithmetic) := by
      rw [GemmLayer.configure?, GemmLayer.configureOn,
        MatrixProduct.configure_of_zero ho dims hzero]
      rfl
    refine ⟨zero, fun numbers ct => ⟨fun fault => ?_, zero⟩⟩
    by_contra hne
    obtain ⟨hh, hv⟩ := not_or.1 hne
    have ct' : ∀ s ∈ c.map View.layout, InWords (s.shape.products 2 4) := by
      rintro s hs
      obtain ⟨w, hw, rfl⟩ := Option.mem_map.1 hs
      exact ct w hw
    exact (MatrixProduct.faultless_configure_words ho hh hv numbers ct' m).bind
      (fun _ => faultless_ok _) _ fault

/-- A product of two by two matrices. -/
theorem zero_blocks_fault_small :
    let g : Gemm := ⟨2, 2, 2, 1, 1, .one, .zero, 0, none, some ⟨.bifrost, .reshaped 0 1⟩, .unset⟩
    let a : List Q8 := [⟨1⟩, ⟨2⟩, ⟨3⟩, ⟨4⟩]
    let c : List Q8 := [⟨0⟩, ⟨0⟩, ⟨0⟩, ⟨0⟩]
    let square (buffer : BufferId) : View := ⟨buffer, .packed (.ofList [2, 2]) .f32⟩
    let o : ProductOptions := ⟨.one, .zero, false, some ⟨.bifrost, .reshaped 0 1⟩, false, .unset⟩
    let packed : Gemm := { g with config := some ⟨.bifrost, .reshaped 1 1⟩ }
    (g.execute? a a c).1 = .error (.fault .arithmetic) ∧
      (packed.execute? a a c).1 ≠ .error (.fault .arithmetic) ∧
      GemmLayer.configure? (square 0) (square 1) none (square 2) o .empty =
        .error (.fault .arithmetic) := by
  intro g a c square o packed
  obtain ⟨hrun, hlayer⟩ := zero_blocks_fault .bifrost 0 1
  have blocks := ((zero_blocks_fault .bifrost 1 1).1 Q8 .q8 packed a a c rfl rfl rfl rfl).2
    (by decide) (by decide)
  exact ⟨(hrun Q8 .q8 g a a c rfl rfl rfl rfl).1 (.inl rfl),
    fun fault => absurd (blocks.1 fault) (by decide),
    (hlayer (square 0) (square 1) none (square 2) o .empty rfl rfl rfl rfl).1 (.inl rfl)⟩

/-- Lists of the right lengths without blocks: the run ends in something else than a refusal of the
configuration. -/
theorem zero_blocks_not_refused :
    let g : Gemm := ⟨2, 2, 2, 1, 1, .one, .zero, 0, none, some ⟨.bifrost, .reshaped 0 1⟩, .unset⟩
    let a : List Binary32 := List.replicate 4 .one
    ¬ ∃ cause, cause.category = .invalidConfig ∧
      (g.execute? a a a).1 = .error (.refused cause) := by
  intro g a
  rintro ⟨cause, -, h⟩
  rw [Gemm.execute?_of_zero rfl ⟨rfl, rfl, rfl⟩ (.inl rfl)] at h
  nomatch h

end TileCompute
