import TileCompute.Proofs.Packed
import TileCompute.Proofs.Paths

/-!
# TileCompute.Proofs.Gemm

The product of element lists as a formula. `Gemm.entry` gives an element of the new `C` from the
lists alone: a dot product in the order of the reduction, narrowed, scaled unless `alpha` is one,
and added to the old element unless `beta` is zero. Of the configuration only the target occurs in
it, and that only through its multiply-accumulate.

* `Gemm.multiplied_direct`, `Gemm.multiplied_reshaped`: what either path leaves in memory.
* `Gemm.product_eq`: the product is `Gemm.entries`.
* `Gemm.referenceElements_eq`: each plane of it is a triple loop.
-/

namespace TileCompute

/-- The blocks or the tile are such as kernels accept. -/
def Path.Valid : Path → Prop
  | .reshaped columnBlocks rowBlocks => 1 ≤ columnBlocks ∧ 1 ≤ rowBlocks
  | .direct tile => tile.Valid

instance : DecidablePred Path.Valid
  | .reshaped _ _ => inferInstanceAs (Decidable (_ ∧ _))
  | .direct tile => inferInstanceAs (Decidable tile.Valid)

/-- The numbers of blocks of a path, if it has any, are not zero. -/
def Path.BlocksNonzero : Path → Prop
  | .reshaped columnBlocks rowBlocks => columnBlocks ≠ 0 ∧ rowBlocks ≠ 0
  | .direct _ => True

instance : DecidablePred Path.BlocksNonzero
  | .reshaped _ _ => inferInstanceAs (Decidable (_ ∧ _))
  | .direct _ => inferInstanceAs (Decidable True)

theorem Path.valid_iff {p : Path} :
    p.Valid ↔ p.BlocksNonzero ∧ ∀ tile, p = .direct tile → tile.Valid := by
  cases p with
  | reshaped h v => simp [Valid, BlocksNonzero, Nat.one_le_iff_ne_zero]
  | direct tile => simp [Valid, BlocksNonzero]

/-- The built-in table has valid paths only, whether every problem is large or not. -/
theorem Environment.valid_lookup (e : Environment) (t : DataType) (m : Nat) :
    (e.lookup t m).path.Valid := by
  obtain ⟨target, forced⟩ := e
  unfold lookup Registry.lookup
  dsimp only
  generalize t.kind = kind, SizeClass.ofRows m = sizeClass
  cases kind <;> cases forced <;> cases sizeClass <;> cases target <;> decide

namespace Gemm

variable {α : Type} [Element α]

/-- Lists of the lengths that a problem asks for, with a usable number of right operands. -/
structure Poses (g : Gemm) (a b c : List α) : Prop where
  left : a.length = g.batches * g.m * g.k
  right : b.length = g.bDepth * g.k * g.n
  result : c.length = g.batches * g.m * g.n
  bDepth_pos : 1 ≤ g.bDepth
  bDepth_le : g.bDepth ≤ max g.batches 1

/-- An element of the product before `C` is added. -/
def scaledDot (g : Gemm) (target : Target) (a b : List α) (z i j : Nat) : α :=
  let frac := (g.dataType α).frac
  finish frac (if g.alpha.eqv .one then none else some (Element.ofBinary32 frac g.alpha)) <|
    dot (target.mac frac) (fun p => a.getD (z * g.m * g.k + i * g.k + p) (zeroElement α))
      (fun p => b.getD (z % g.bDepth * g.k * g.n + p * g.n + j) (zeroElement α)) g.k
      (Element.accZero frac)

def entry (g : Gemm) (target : Target) (a b c : List α) (z i j : Nat) : α :=
  let frac := (g.dataType α).frac
  let value := g.scaledDot target a b z i j
  if g.beta.eqv .zero then value
  else
    Element.scaledAdd frac value (c.getD (z * g.m * g.n + i * g.n + j) (zeroElement α))
      (Element.ofBinary32 frac g.beta)

def entries (g : Gemm) (target : Target) (a b c : List α) : List α :=
  (List.range (g.batches * g.m * g.n)).map fun l =>
    g.entry target a b c (l / g.n / g.m) (l / g.n % g.m) (l % g.n)

variable {g : Gemm} {a b c : List α} {target : Target}

theorem length_entries : (g.entries target a b c).length = g.batches * g.m * g.n := by
  simp [entries]

theorem getElem?_entries {z i j : Nat} (hz : z < g.batches) (hi : i < g.m) (hj : j < g.n) :
    (g.entries target a b c)[z * g.m * g.n + i * g.n + j]? =
      some (g.entry target a b c z i j) := by
  have hl : z * g.m * g.n + i * g.n + j = j + g.n * (i + g.m * z) := by ring
  rw [entries, List.getElem?_map, List.getElem?_range (index_lt hj hi hz), Option.map_some, hl,
    radix_mod hj, radix_div hj, radix_mod hi, radix_div hi]

theorem kind_dataType (g : Gemm) (α : Type) [Element α] : (g.dataType α).kind = Element.kind α :=
  ElementKind.kind_withFrac ..

theorem multipliable (hα : Dispatched (Element.kind α) α) (hp : g.Poses a b c) :
    Multipliable (g.aLayout α) (g.bLayout α) (g.cLayout α) where
  kind := by
    show (g.dataType α).kind ≠ .s32
    rw [kind_dataType]
    exact hα.ne_s32
  bType := rfl
  targetType := rfl
  depth := (Layout.dim_one_packed ..).trans (Layout.dim_zero_packed ..).symm
  rows := (Layout.dim_one_packed ..).trans (Layout.dim_one_packed ..).symm
  columns := (Layout.dim_zero_packed ..).trans (Layout.dim_zero_packed ..).symm
  aBatches := (Layout.batches_packed ..).trans (Layout.batches_packed ..).symm
  bBatches_pos := by
    rw [bLayout, Layout.batches_packed]
    exact hp.bDepth_pos
  bBatches_le := by
    rw [bLayout, cLayout, Layout.batches_packed, Layout.batches_packed]
    exact hp.bDepth_le

theorem element_direct {m : Memory} (tile : TileShape) (hp : g.Poses a b c)
    (ha : ∀ j, m.byte 0 j = (packBytes a).getD j 0)
    (hb : ∀ j, m.byte 1 j = (packBytes b).getD j 0) {p : Cell} (hc : (g.cLayout α).HasCell p) :
    (⟨g.aLayout α, g.bLayout α, g.cLayout α, g.alpha, ⟨target, .direct tile⟩⟩ : Multiply).element α
        0 1 p m = g.scaledDot target a b p.z p.y p.x := by
  obtain ⟨hx, hy, hz⟩ := Layout.hasCell_packed.1 hc
  have hdepth : (⟨g.aLayout α, g.bLayout α, g.cLayout α, g.alpha,
      ⟨target, .direct tile⟩⟩ : Multiply).depth = g.k := Layout.dim_zero_packed ..
  have hbDepth : (⟨g.aLayout α, g.bLayout α, g.cLayout α, g.alpha,
      ⟨target, .direct tile⟩⟩ : Multiply).bDepth = g.bDepth := Layout.batches_packed ..
  unfold Multiply.element scaledDot
  rw [hdepth]
  refine congrArg (finish (g.dataType α).frac _) (dot_congr ?_ ?_)
  · intro s hs
    exact load_plane (g.kind_dataType α) ha hp.left (Layout.hasCell_packed.2 ⟨hs, hy, hz⟩)
  · intro s hs
    rw [hbDepth]
    exact load_plane (g.kind_dataType α) hb hp.right
      (Layout.hasCell_packed.2 ⟨hx, hs, Nat.mod_lt _ hp.bDepth_pos⟩)

theorem dispatched_dataType (hα : Dispatched (Element.kind α) α) :
    Dispatched (g.cLayout α).dataType.kind α := by
  show Dispatched (g.dataType α).kind α
  rwa [kind_dataType]

/-- Memory after a multiply: the product in `C`, whose old contents are still there. -/
structure Multiplied (g : Gemm) (target : Target) (a b c : List α) (m : Memory) : Prop where
  size : m.size 2 = (packBytes c).size
  old : ∀ j, m.byte 3 j = (packBytes c).getD j 0
  load : ∀ p, (g.cLayout α).HasCell p →
    View.load ⟨2, g.cLayout α⟩ m ((g.cLayout α).cell p) =
      Element.toWord (g.scaledDot target a b p.z p.y p.x)

theorem multiplied_direct (hα : Dispatched (Element.kind α) α) (hp : g.Poses a b c)
    {tile : TileShape} (ht : tile.Valid) :
    ∃ m, g.multiplyDirect .exact α ⟨target, .direct tile⟩ 0 1 2 (operands a b c) = .ok m ∧
      g.Multiplied target a b c m := by
  have hk := Multiply.accepted_direct g.alpha target (multipliable hα hp) ht
  have hfit : View.Fits ⟨2, g.cLayout α⟩ (operands a b c) :=
    fits_plane (g.kind_dataType α) rfl hp.result
  have hconfigure := Multiply.configure_eq_ok.2 ⟨rfl, hk⟩
  refine ⟨_, by rw [multiplyDirect, Machine.exact_multiply, hconfigure]; rfl, ?_, ?_, ?_⟩
  · exact Multiply.size_run hk (dispatched_dataType hα) (by decide) (by decide) _
  · exact Multiply.byte_run_other hk (dispatched_dataType hα) (by decide) (by decide) (by decide)
  · intro p hc
    rw [Multiply.load_run hk (dispatched_dataType hα) (by decide) (by decide) hfit hc,
      element_direct tile hp (fun _ => rfl) (fun _ => rfl) hc]

section Reshaped

variable (g) (α) (h v : Nat)

def aReshaped : Layout := .packed ((Arrangement.interleaved v).shape (g.aLayout α)) (g.dataType α)

def bReshaped : Layout :=
  .packed ((Arrangement.blockTransposed h).shape (g.bLayout α)) (g.dataType α)

def interleave : Reshape := ⟨.interleaved v, g.aLayout α, g.aReshaped α v⟩

def transpose : Reshape := ⟨.blockTransposed h, g.bLayout α, g.bReshaped α h⟩

def reshapedMultiply (target : Target) : Multiply :=
  ⟨g.aReshaped α v, g.bReshaped α h, g.cLayout α, g.alpha, ⟨target, .reshaped h v⟩⟩

variable {α}

/-- The operands in memory with two fresh buffers for their reshaped forms. -/
def workspace (a b c : List α) : Memory :=
  ⟨#[packBytes a, packBytes b, packBytes c, packBytes c,
    .replicate (g.aReshaped α v).byteSize 0, .replicate (g.bReshaped α h).byteSize 0]⟩

variable {g h v}

theorem accepted_interleave (hv : 1 ≤ v) : (g.interleave α v).Accepted :=
  Reshape.accepted_output (Packing.valid_ofType.2 ⟨by decide, by omega⟩)

theorem accepted_transpose (hh : 1 ≤ h) : (g.transpose α h).Accepted :=
  Reshape.accepted_output (Packing.valid_ofType.2 ⟨by omega, by decide⟩)

theorem accepted_reshapedMultiply (target : Target) (hα : Dispatched (Element.kind α) α)
    (hp : g.Poses a b c) (hh : 1 ≤ h) (hv : 1 ≤ v) : (g.reshapedMultiply α h v target).Accepted :=
  Multiply.accepted_reshaped g.alpha target (multipliable hα hp) (accepted_interleave hv)
    (accepted_transpose hh)

theorem multiplyReshaped_eq (hα : Dispatched (Element.kind α) α) (hp : g.Poses a b c)
    (hh : 1 ≤ h) (hv : 1 ≤ v) :
    g.multiplyReshaped .exact α ⟨target, .reshaped h v⟩ (.ofType (g.dataType α) h v) 0 1 2
        (operands a b c) =
      .ok ((g.reshapedMultiply α h v target).run 4 5 2
        ((g.transpose α h).run 1 5 ((g.interleave α v).run 0 4 (g.workspace h v a b c)))) := by
  have hleft : (Arrangement.interleaved v).outputLayout (g.aLayout α) = .ok (g.aReshaped α v) :=
    Reshape.outputLayout_eq (Packing.valid_ofType.2 ⟨by decide, by omega⟩)
  have hright : (Arrangement.blockTransposed h).outputLayout (g.bLayout α) =
      .ok (g.bReshaped α h) :=
    Reshape.outputLayout_eq (Packing.valid_ofType.2 ⟨by omega, by decide⟩)
  have hi : Reshape.configure (.interleaved v) (g.aLayout α) (g.aReshaped α v) =
      .ok (g.interleave α v) := Reshape.configure_eq_ok.2 ⟨rfl, accepted_interleave hv⟩
  have hb : Reshape.configure (.blockTransposed h) (g.bLayout α) (g.bReshaped α h) =
      .ok (g.transpose α h) := Reshape.configure_eq_ok.2 ⟨rfl, accepted_transpose hh⟩
  have hk : Multiply.configure (g.aReshaped α v) (g.bReshaped α h) (g.cLayout α) g.alpha
      ⟨target, .reshaped h v⟩ = .ok (g.reshapedMultiply α h v target) :=
    Multiply.configure_eq_ok.2 ⟨rfl, accepted_reshapedMultiply target hα hp hh hv⟩
  simp only [multiplyReshaped, Machine.exact_outputLayout, Machine.exact_reshape,
    Machine.exact_multiply, Machine.exact_buffer, Machine.exact_runReshape,
    Machine.exact_runMultiply, Packing.ofType, hleft, hright, hi, hb, hk, raise_ok, refuse_ok,
    ok_bind]
  rfl

theorem multiplied_reshaped (hα : Dispatched (Element.kind α) α) (hp : g.Poses a b c)
    (hh : 1 ≤ h) (hv : 1 ≤ v) :
    ∃ m, g.multiplyReshaped .exact α ⟨target, .reshaped h v⟩ (.ofType (g.dataType α) h v) 0 1 2
        (operands a b c) = .ok m ∧ g.Multiplied target a b c m := by
  have hi := accepted_interleave (g := g) (α := α) hv
  have hb := accepted_transpose (g := g) (α := α) hh
  have hk := accepted_reshapedMultiply target hα hp hh hv
  have hfa : View.Fits ⟨4, g.aReshaped α v⟩ (g.workspace h v a b c) :=
    Nat.le_of_eq Array.size_replicate.symm
  have hfb : View.Fits ⟨5, g.bReshaped α h⟩ (g.workspace h v a b c) :=
    Nat.le_of_eq Array.size_replicate.symm
  have hfc : View.Fits ⟨2, g.cLayout α⟩ (g.workspace h v a b c) :=
    fits_plane (g.kind_dataType α) rfl hp.result
  have hsize (buffer : BufferId) :
      ((g.transpose α h).run 1 5 ((g.interleave α v).run 0 4 (g.workspace h v a b c))).size buffer =
        (g.workspace h v a b c).size buffer := by
    rw [Reshape.size_run hb (by decide), Reshape.size_run hi (by decide)]
  refine ⟨_, multiplyReshaped_eq hα hp hh hv, ?_, ?_, ?_⟩
  · rw [Multiply.size_run hk (dispatched_dataType hα) (by decide) (by decide), hsize]
    rfl
  · intro j
    rw [Multiply.byte_run_other hk (dispatched_dataType hα) (by decide) (by decide) (by decide),
      Reshape.byte_run_other hb (by decide) (by decide),
      Reshape.byte_run_other hi (by decide) (by decide)]
    rfl
  · intro p hc
    refine (Multiply.load_run (a := 4) (b := 5) hk (dispatched_dataType hα) (by decide) (by decide)
      (hfc.of_size (hsize 2)) hc).trans (congrArg Element.toWord ?_)
    -- the elements are those of the direct path, with any tile
    rw [← element_direct (m := g.workspace h v a b c) ⟨1, 1⟩ hp (fun _ => rfl) (fun _ => rfl) hc]
    exact Multiply.element_reshaped ⟨1, 1⟩ (multipliable hα hp) hi hb (by decide) (by decide)
      (by decide) (by decide) hfa hfb hc

end Reshaped

theorem multiplied (hα : Dispatched (Element.kind α) α) (hp : g.Poses a b c)
    (hv : (g.resolvedConfig α).path.Valid) :
    ∃ m, g.multiplyStage .exact α 0 1 2 (operands a b c) = .ok m ∧
      g.Multiplied (g.resolvedConfig α).target a b c m := by
  unfold multiplyStage
  generalize g.resolvedConfig α = config at hv ⊢
  obtain ⟨target, path⟩ := config
  cases path with
  | reshaped h v => exact multiplied_reshaped hα hp hv.1 hv.2
  | direct tile => exact multiplied_direct hα hp hv

/-- Adding the old contents turns the product into the new `C`. -/
theorem additionStage_eq (hα : Dispatched (Element.kind α) α) (hp : g.Poses a b c) {m : Memory}
    (hm : g.Multiplied target a b c m) :
    ∃ m', g.additionStage .exact α 3 2 m = .ok m' ∧ ∀ p, (g.cLayout α).HasCell p →
      View.load ⟨2, g.cLayout α⟩ m' ((g.cLayout α).cell p) =
        Element.toWord (g.entry target a b c p.z p.y p.x) := by
  cases hbeta : g.beta.eqv .zero with
  | true =>
    refine ⟨m, if_pos hbeta, fun p hc => (hm.load p hc).trans ?_⟩
    rw [entry, hbeta]
    rfl
  | false =>
    have hk : (⟨g.cLayout α, g.cLayout α, g.beta⟩ : Addition).Accepted :=
      ⟨rfl, (multipliable hα hp).targetType ▸ (multipliable hα hp).kind, rfl, rfl, rfl⟩
    have hfit : View.Fits ⟨2, g.cLayout α⟩ m := fits_plane (g.kind_dataType α) hm.size hp.result
    have hconfigure := Addition.configure_eq_ok.2 ⟨rfl, hk⟩
    refine ⟨_, by rw [additionStage, hbeta, Machine.exact_addition, hconfigure]; rfl, ?_⟩
    intro p hc
    refine (Addition.load_run (k := ⟨g.cLayout α, g.cLayout α, g.beta⟩) (dispatched_dataType hα)
      (by decide) hfit hc).trans (congrArg Element.toWord ?_)
    have hold : Element.ofWord (View.load ⟨3, g.cLayout α⟩ m ((g.cLayout α).cell p)) =
        c.getD (p.z * g.m * g.n + p.y * g.n + p.x) (zeroElement α) :=
      load_plane (g.kind_dataType α) hm.old hp.result hc
    rw [entry, hbeta, Addition.element, hm.load p hc, Element.ofWord_toWord, hold]
    rfl

/-- The number of an element of a batch of matrices, from its plane, row and column. -/
theorem index_eq (l n m : Nat) : l / n / m * m * n + l / n % m * n + l % n = l :=
  calc
    _ = (m * (l / n / m) + l / n % m) * n + l % n := by ring
    _ = l := by rw [Nat.div_add_mod, Nat.mul_comm, Nat.div_add_mod]

theorem unpackElements_eq {m : Memory} (hc : c.length = g.batches * g.m * g.n)
    (hm : ∀ p, (g.cLayout α).HasCell p →
      View.load ⟨2, g.cLayout α⟩ m ((g.cLayout α).cell p) =
        Element.toWord (g.entry target a b c p.z p.y p.x)) :
    unpackElements α m 2 c.length = g.entries target a b c := by
  rw [unpackElements, entries, hc]
  apply List.map_congr_left
  intro l hl
  have hl : l < g.n * (g.m * g.batches) := by
    calc l < g.batches * g.m * g.n := List.mem_range.1 hl
      _ = _ := by ring
  have hcell : (g.cLayout α).HasCell ⟨l % g.n, l / g.n % g.m, l / g.n / g.m⟩ := by
    have hn : 0 < g.n := Nat.pos_of_ne_zero fun h => by simp [h] at hl
    have hl' : l / g.n < g.m * g.batches := Nat.div_lt_of_lt_mul hl
    have hm : 0 < g.m := Nat.pos_of_ne_zero fun h => by simp [h] at hl'
    exact Layout.hasCell_packed.2
      ⟨Nat.mod_lt _ hn, Nat.mod_lt _ hm, Nat.div_lt_of_lt_mul hl'⟩
  have hload := hm _ hcell
  have hsize : (g.cLayout α).elementSize = (Element.kind α).size :=
    congrArg ElementKind.size (g.kind_dataType α)
  have hcell_eq : (g.cLayout α).cell ⟨l % g.n, l / g.n % g.m, l / g.n / g.m⟩ =
      l * (Element.kind α).size := by
    rw [cLayout, Layout.cell_packed, index_eq, ← hsize]
    rfl
  rw [View.load, hcell_eq, hsize] at hload
  rw [hload, Element.ofWord_toWord]

theorem checkLength_eq_ok {operand : String} {expected actual : Nat} {u : Unit} :
    checkLength operand expected actual = .ok u ↔ actual = expected := by
  unfold checkLength
  split
  · next h => simp [h]
  · next h => simpa using fun he => h he.symm

omit [Element α] in
theorem checkLengths_eq_ok {machine : Machine} {u : Unit} :
    g.checkLengths machine a b c = .ok u ↔
      (machine.count g.leftNumbers = .ok () ∧ a.length = g.batches * g.m * g.k) ∧
      (machine.count g.rightNumbers = .ok () ∧ b.length = g.bDepth * g.k * g.n) ∧
        machine.count g.resultNumbers = .ok () ∧ c.length = g.batches * g.m * g.n := by
  simp only [checkLengths, bind_eq_ok, raise_eq_ok, refuse_eq_ok, checkLength_eq_ok, and_assoc]
  exact ⟨fun ⟨_, hl, _, ha, _, hr, _, hb, _, hc, hlen⟩ => ⟨hl, ha, hr, hb, hc, hlen⟩,
    fun ⟨hl, ha, hr, hb, hc, hlen⟩ => ⟨(), hl, (), ha, (), hr, (), hb, (), hc, hlen⟩⟩

/-- The product of lists of the right lengths is the formula, for every configuration that kernels
accept. -/
theorem product_eq (hα : Dispatched (Element.kind α) α) (hp : g.Poses a b c)
    (hv : (g.resolvedConfig α).path.Valid) :
    g.productOn .exact a b c = .ok (g.entries (g.resolvedConfig α).target a b c) := by
  have hlengths : g.checkLengths .exact a b c = .ok () :=
    checkLengths_eq_ok.2 ⟨⟨rfl, hp.left⟩, ⟨rfl, hp.right⟩, rfl, hp.result⟩
  obtain ⟨m, hm, hmul⟩ := multiplied hα hp hv
  obtain ⟨m', hm', hload⟩ := additionStage_eq hα hp hmul
  simp only [productOn, hlengths, hm, hm', ok_bind]
  exact congrArg Except.ok (unpackElements_eq hp.result hload)

theorem execute_eq (hα : Dispatched (Element.kind α) α) (hp : g.Poses a b c)
    (hv : (g.resolvedConfig α).path.Valid) :
    g.execute a b c = (.ok (), g.entries (g.resolvedConfig α).target a b c) := by
  rw [execute, executeOn, product_eq hα hp hv]

/-- The formula knows the target by its multiply-accumulate alone. -/
theorem entries_congr {target' : Target}
    (h : target.mac (α := α) (g.dataType α).frac = target'.mac (g.dataType α).frac) :
    g.entries target a b c = g.entries target' a b c := by
  simp only [entries, entry, scaledDot, h]

theorem entries_of_beta_zero (h : g.beta.eqv .zero) (c c' : List α) :
    g.entries target a b c = g.entries target a b c' := by
  simp only [entries, entry, h, if_true]

theorem mac_eq_mulAdd (hα : Dispatched (Element.kind α) α)
    (h : target = .midgard ∨ Element.kind α = .qs8 ∨ Element.kind α = .qs16) (frac : Nat) :
    target.mac (α := α) frac = Element.mulAdd frac := by
  rcases h with rfl | h
  · rfl
  · cases target with
    | midgard => rfl
    | bifrost => exact congrFun (hα.fusedMulAdd_eq h) frac

end Gemm

section Reference

def matrixAt {α : Type} (xs : List α) (size z : Nat) : List α := (xs.drop (z * size)).take size

variable {α : Type} {xs : List α} {size count z : Nat}

theorem length_matrixAt (h : xs.length = count * size) (hz : z < count) :
    (matrixAt xs size z).length = size := by
  have hle : z * size + size ≤ count * size := by
    rw [← Nat.succ_mul]
    exact Nat.mul_le_mul_right _ hz
  rw [matrixAt, List.length_take, List.length_drop]
  omega

theorem getElem?_matrixAt {l : Nat} (h : l < size) :
    (matrixAt xs size z)[l]? = xs[z * size + l]? := by
  rw [matrixAt, List.getElem?_take, if_pos h, List.getElem?_drop]

theorem getD_matrixAt {l : Nat} (h : l < size) (d : α) :
    (matrixAt xs size z).toArray.getD l d = xs.getD (z * size + l) d := by
  rw [Array.getD_eq_getD_getElem?, List.getElem?_toArray, getElem?_matrixAt h,
    List.getD_eq_getElem?_getD]

theorem matrixAt_zero (h : xs.length = size) : matrixAt xs size 0 = xs := by
  rw [matrixAt, Nat.zero_mul, List.drop_zero, ← h, List.take_length]

theorem matrixAt_map_range (f : Nat → Nat → α) (hz : z < count) (size : Nat) :
    matrixAt ((List.range (size * count)).map fun l => f (l / size) (l % size)) size z =
      (List.range size).map (f z) := by
  have length : ((List.range (size * count)).map fun l => f (l / size) (l % size)).length =
      count * size := by simp [Nat.mul_comm]
  apply List.ext_getElem?
  intro l
  by_cases hl : l < size
  · have index : z * size + l = l + size * z := by rw [Nat.add_comm, Nat.mul_comm]
    rw [getElem?_matrixAt hl, index, List.getElem?_map, List.getElem?_range (radix_lt hl hz),
      Option.map_some, radix_div hl, radix_mod hl, List.getElem?_map, List.getElem?_range hl,
      Option.map_some]
  · rw [List.getElem?_eq_none (by simpa [length_matrixAt length hz] using hl),
      List.getElem?_eq_none (by simpa using hl)]

theorem length_cells (rows cols : Nat) : (Tile.cells rows cols).length = rows * cols := by
  rw [Tile.cells, length_chunks (s := cols) (fun _ => by simp), List.length_range]

theorem getElem?_cells {rows cols i j : Nat} (hi : i < rows) (hj : j < cols) :
    (Tile.cells rows cols)[i * cols + j]? = some (i, j) := by
  rw [Tile.cells, getElem?_chunks (fun _ => by simp) hj, List.getElem?_range hi, Option.bind_some,
    List.getElem?_map, List.getElem?_range hj, Option.map_some]

end Reference

namespace Gemm

variable {α : Type} [Element α] {g : Gemm} {a b c : List α} {target : Target}

/-- The position of the binary point matters to fixed-point types only. -/
theorem referenceElements_frac (hα : Dispatched (Element.kind α) α) (m k n : Nat)
    (alpha : Binary32) (a b : List α) :
    referenceElements m k n alpha g.frac a b =
      referenceElements m k n alpha (g.dataType α).frac a b := by
  generalize hkind : Element.kind α = kind at hα
  cases hα <;> rfl

/-- The triple loop on one plane computes the elements of the formula. -/
theorem referenceEntry_eq (hα : Dispatched (Element.kind α) α) (hbeta : g.beta.eqv .zero)
    (htarget : target = .midgard ∨ Element.kind α = .qs8 ∨ Element.kind α = .qs16) {i j : Nat}
    (hi : i < g.m) (hj : j < g.n) (z : Nat) :
    finish (g.dataType α).frac
        (if g.alpha.eqv .one then none
          else some (Element.ofBinary32 (g.dataType α).frac g.alpha))
        (referenceElement (g.dataType α).frac g.k g.n (matrixAt a (g.m * g.k) z).toArray
          (matrixAt b (g.k * g.n) (z % g.bDepth)).toArray i j) =
      g.entry target a b c z i j := by
  have hdot : referenceElement (g.dataType α).frac g.k g.n (matrixAt a (g.m * g.k) z).toArray
        (matrixAt b (g.k * g.n) (z % g.bDepth)).toArray i j =
      dot (target.mac (g.dataType α).frac)
        (fun p => a.getD (z * g.m * g.k + i * g.k + p) (zeroElement α))
        (fun p => b.getD (z % g.bDepth * g.k * g.n + p * g.n + j) (zeroElement α)) g.k
        (Element.accZero (g.dataType α).frac) := by
    rw [mac_eq_mulAdd hα htarget]
    apply dot_congr
    · intro p hpk
      rw [getD_matrixAt (row_lt hpk hi), ← Nat.add_assoc, ← Nat.mul_assoc]
    · intro p hpk
      rw [getD_matrixAt (row_lt hj hpk), ← Nat.add_assoc, ← Nat.mul_assoc]
  simp only [entry, scaledDot, hbeta, if_true, hdot]

/-- Where a product is rounded before it is added, each plane is a triple loop. -/
theorem referenceElements_eq (hα : Dispatched (Element.kind α) α) (hbeta : g.beta.eqv .zero)
    (htarget : target = .midgard ∨ Element.kind α = .qs8 ∨ Element.kind α = .qs16) {z : Nat}
    (hz : z < g.batches) :
    referenceElements g.m g.k g.n g.alpha g.frac (matrixAt a (g.m * g.k) z)
        (matrixAt b (g.k * g.n) (z % g.bDepth)) =
      matrixAt (g.entries target a b c) (g.m * g.n) z := by
  have hlc : (matrixAt (g.entries target a b c) (g.m * g.n) z).length = g.m * g.n :=
    length_matrixAt (length_entries.trans (Nat.mul_assoc ..)) hz
  rw [referenceElements_frac hα, referenceElements]
  apply List.ext_getElem?
  intro l
  by_cases hl : l < g.m * g.n
  · have hn : 0 < g.n := Nat.pos_of_ne_zero fun h => by simp [h] at hl
    have hi : l / g.n < g.m := Nat.div_lt_of_lt_mul (by rwa [Nat.mul_comm])
    have hj : l % g.n < g.n := Nat.mod_lt _ hn
    have hindex : l / g.n * g.n + l % g.n = l := by rw [Nat.mul_comm, Nat.div_add_mod]
    rw [getElem?_matrixAt hl, ← hindex, ← Nat.add_assoc, ← Nat.mul_assoc, getElem?_entries hz hi hj,
      List.getElem?_map, getElem?_cells hi hj, Option.map_some]
    rw [← referenceEntry_eq hα hbeta htarget hi hj z]
    cases g.alpha.eqv .one <;> rfl
  · rw [List.getElem?_eq_none (by simpa [length_cells] using hl), List.getElem?_eq_none (by omega)]

end Gemm

end TileCompute
