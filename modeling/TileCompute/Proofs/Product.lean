import TileCompute.Layer.MatrixProduct
import TileCompute.Proofs.Machine
import TileCompute.Proofs.Paths
import TileCompute.Proofs.Stock

/-!
# TileCompute.Proofs.Product

Matrix products as layers use them. What `MatrixProduct.configure` decides does not depend on the
memory or on where scratch tensors come from: it makes a plan (`ProductPlan`) and then allocates
what the plan needs. A run of the product leaves the elements of the direct multiply of its
operands, on either path, with the right operand reshaped now or on an earlier run.

* `MatrixProduct.configureOn_eq`: planning, then allocation.
* `ProductPlan.makeOn_eq_ok`: the kernels of a plan.
* `MatrixProduct.run_spec`: what a run leaves in the output.
* `MatrixProduct.stocks_run`: the scratch tensors are in stock again after a run.
-/

namespace TileCompute

/-- The kernels of a product: with reshapes of both operands, or without. -/
structure ProductPlan where
  config : Config
  reshapes : Option (Reshape × Reshape)
  multiply : Multiply
  addition : Option Addition
deriving DecidableEq, Repr

namespace ProductPlan

open MatrixProduct in
/-- Chooses and checks the kernels. -/
def makeOn (machine : Machine) (a b : Layout) (c : Option Layout) (output : Layout)
    (alpha beta : Binary32) (config : Config) : Except (Failure LayerError) ProductPlan := do
  refuse (checkOperands a b output)
  match config.packing? a.dataType with
  | some p =>
    let left : Arrangement := .interleaved p.rowBlocks
    let right : Arrangement := .blockTransposed p.columnBlocks
    let aReshaped ← raise (machine.outputLayout left a)
    let bReshaped ← raise (machine.outputLayout right b)
    let interleave ← kernelFailure (machine.reshape left a aReshaped)
    let transpose ← kernelFailure (machine.reshape right b bReshaped)
    let multiply ← kernelFailure (machine.multiply aReshaped bReshaped output alpha config)
    let addition ← configureAddition machine c output beta
    return ⟨config, some (interleave, transpose), multiply, addition⟩
  | none =>
    let multiply ← kernelFailure (machine.multiply a b output alpha config)
    let addition ← configureAddition machine c output beta
    return ⟨config, none, multiply, addition⟩

/-- A plan with room for every number. -/
def make (a b : Layout) (c : Option Layout) (output : Layout) (alpha beta : Binary32)
    (config : Config) : Except (Failure LayerError) ProductPlan :=
  makeOn .exact a b c output alpha beta config

/-- Allocates what the kernels need. -/
def allocate (p : ProductPlan) (keepRight pooled : Bool) (m : Memory) : MatrixProduct × Memory :=
  match p.reshapes with
  | none => (⟨p.config, none, p.multiply, p.addition, .empty pooled⟩, m)
  | some (interleave, transpose) =>
    let (scratch, m) := (ScratchGroup.empty pooled).manage interleave.target m
    if keepRight then
      let (tensor, m) := View.alloc transpose.target m
      (⟨p.config, some ⟨interleave, transpose, some ⟨tensor, false⟩⟩, p.multiply, p.addition,
        scratch⟩, m)
    else
      let (scratch, m) := scratch.manage transpose.target m
      (⟨p.config, some ⟨interleave, transpose, none⟩, p.multiply, p.addition, scratch⟩, m)

end ProductPlan

namespace MatrixProduct

variable {machine : Machine}

theorem kernelResult_eq_ok {α : Type} {k : Except KernelError α} {a : α} :
    kernelResult k = .ok a ↔ k = .ok a := by
  cases k <;> simp [kernelResult]

theorem configureOn_eq (sound : machine.Sound) (a b : Layout) (c : Option Layout)
    (output : Layout) (o : ProductOptions) (m : Memory) :
    configureOn machine a b c output o m =
      (ProductPlan.makeOn machine a b c output o.alpha o.beta (resolvedConfig a output o)).map
        fun p => p.allocate o.keepRight o.pooled m := by
  rw [configureOn, ProductPlan.makeOn, map_bind]
  refine bind_congr_ok fun _ _ => ?_
  dsimp only
  generalize resolvedConfig a output o = config
  cases config.packing? a.dataType with
  | none =>
    simp only [configureDirect, bind_assoc, map_bind]
    rfl
  | some p =>
    simp only [configureReshaped, map_bind]
    refine bind_congr_ok fun a' _ => bind_congr_ok fun b' _ => bind_congr_ok fun interleave hi =>
      bind_congr_ok fun transpose ht => bind_congr_ok fun multiply _ =>
        bind_congr_ok fun addition _ => ?_
    obtain ⟨rfl, -⟩ := Reshape.configure_eq_ok.1 (sound.reshape (kernelFailure_eq_ok.1 hi))
    obtain ⟨rfl, -⟩ := Reshape.configure_eq_ok.1 (sound.reshape (kernelFailure_eq_ok.1 ht))
    cases o.keepRight <;> simp [ProductPlan.allocate, Except.map, pure, Except.pure]

theorem configureAddition_sound (sound : machine.Sound) {c : Option Layout} {output : Layout}
    {beta : Binary32} {addition : Option Addition}
    (h : configureAddition machine c output beta = .ok addition) :
    configureAddition .exact c output beta = .ok addition := by
  cases c with
  | none => exact h
  | some c =>
    unfold configureAddition at h ⊢
    dsimp only at h ⊢
    cases hbeta : beta.eqv .zero with
    | true =>
      rw [hbeta] at h
      exact h
    | false =>
      rw [hbeta, if_neg Bool.false_ne_true, map_eq_ok] at h
      obtain ⟨k, hk, rfl⟩ := h
      have hk := sound.addition (kernelFailure_eq_ok.1 hk)
      rw [if_neg Bool.false_ne_true, Machine.exact_addition, hk]
      rfl

end MatrixProduct

namespace ProductPlan

/-- The kernels of a plan for the product of matrices. -/
inductive Kernels (a b t : Layout) (alpha : Binary32) : ProductPlan → Prop
  | direct (target : Target) (tile : TileShape) (addition : Option Addition) (valid : tile.Valid) :
      Kernels a b t alpha ⟨⟨target, .direct tile⟩, none,
        ⟨a, b, t, alpha, ⟨target, .direct tile⟩⟩, addition⟩
  | reshaped (target : Target) (h v : Nat) (addition : Option Addition) (a' b' : Layout)
      (interleave : (⟨.interleaved v, a, a'⟩ : Reshape).Accepted)
      (transpose : (⟨.blockTransposed h, b, b'⟩ : Reshape).Accepted) :
      Kernels a b t alpha ⟨⟨target, .reshaped h v⟩,
        some (⟨.interleaved v, a, a'⟩, ⟨.blockTransposed h, b, b'⟩),
        ⟨a', b', t, alpha, ⟨target, .reshaped h v⟩⟩, addition⟩

end ProductPlan

namespace MatrixProduct

theorem checkOperands_eq_ok {a b t : Layout} {u : Unit} : checkOperands a b t = .ok u ↔
    a.dim 0 = b.dim 1 ∧ a.dim 1 = t.dim 1 ∧ b.dim 0 = t.dim 0 := by
  simp only [checkOperands, reject_eq_ok, reject_last_eq_ok, pure_eq_ok, ne_eq, Decidable.not_not,
    not_or, and_true]

end MatrixProduct

namespace ProductPlan

open MatrixProduct

variable {a b t : Layout} {c : Option Layout} {alpha beta : Binary32} {config : Config}
  {p : ProductPlan}

theorem makeOn_eq_ok {machine : Machine} (sound : machine.Sound)
    (h : makeOn machine a b c t alpha beta config = .ok p) :
    Multipliable a b t ∧ p.Kernels a b t alpha ∧ p.config = config ∧
      configureAddition .exact c t beta = .ok p.addition := by
  obtain ⟨target, path⟩ := config
  simp only [makeOn, bind_eq_ok, refuse_eq_ok, checkOperands_eq_ok, exists_const] at h
  obtain ⟨⟨depth, rows, columns⟩, h⟩ := h
  cases path with
  | direct tile =>
    simp only [Config.packing?, bind_eq_ok, kernelFailure_eq_ok, pure_eq_ok] at h
    obtain ⟨multiply, hm, addition, ha, rfl⟩ := h
    obtain ⟨rfl, hm⟩ := Multiply.configure_eq_ok.1 (sound.multiply hm)
    have ha := configureAddition_sound sound ha
    have fits : Multiply.FitsDirect _ tile := hm.fits
    refine ⟨⟨hm.kind, hm.bType, hm.targetType, depth.symm, rows, columns, hm.aBatches,
      Nat.pos_of_ne_zero hm.bDepth_ne, hm.bDepth_le⟩, .direct target tile addition fits.valid,
      rfl, ha⟩
  | reshaped h v =>
    simp only [Config.packing?, bind_eq_ok, kernelFailure_eq_ok, raise_eq_ok, pure_eq_ok] at h
    obtain ⟨a', -, b', -, interleave, hi, transpose, ht, multiply, hm, addition, ha, rfl⟩ := h
    obtain ⟨rfl, hi⟩ := Reshape.configure_eq_ok.1 (sound.reshape hi)
    obtain ⟨rfl, ht⟩ := Reshape.configure_eq_ok.1 (sound.reshape ht)
    obtain ⟨rfl, hm⟩ := Multiply.configure_eq_ok.1 (sound.multiply hm)
    have ha := configureAddition_sound sound ha
    obtain ⟨-, -, -, bBatches⟩ := ht.extents_blockTransposed
    obtain ⟨-, -, -, aBatches⟩ := hi.extents_interleaved
    have types : a'.dataType = a.dataType := hi.dataType.symm
    refine ⟨⟨types ▸ hm.kind, ?_, hm.targetType.trans types, depth.symm, rows, columns,
      aBatches.symm.trans hm.aBatches, ?_, ?_⟩, .reshaped target h v addition a' b' hi ht, rfl, ha⟩
    · exact ht.dataType.trans (hm.bType.trans types)
    · exact bBatches ▸ Nat.pos_of_ne_zero hm.bDepth_ne
    · exact bBatches ▸ hm.bDepth_le

theorem make_eq_ok (h : make a b c t alpha beta config = .ok p) :
    Multipliable a b t ∧ p.Kernels a b t alpha ∧ p.config = config ∧
      configureAddition .exact c t beta = .ok p.addition :=
  makeOn_eq_ok Machine.sound_exact h

end ProductPlan

/-! ### Kernels keep the buffers -/

theorem View.grows_store (v : View) (m : Memory) (o w : Nat) : m.Grows (v.store m o w) := .store ..

theorem Reshape.grows_run (r : Reshape) (source target : BufferId) (m : Memory) :
    m.Grows (r.run source target m) := by
  rw [run_eq_launch]
  refine .launch (fun item m => ?_) m
  refine .foldlM (fun m mv => ?_) (r.moves item) m
  obtain ⟨o, source⟩ := mv
  cases source <;> exact View.grows_store ..

theorem Multiply.grows_run (k : Multiply) (a b target : BufferId) (m : Memory) :
    m.Grows (k.run a b target m) := by
  by_cases hkind : k.target.dataType.kind = .s32
  · rw [run_of_s32 hkind]
    exact .refl m
  · obtain ⟨α, inst, h⟩ := Dispatched.exists_of_ne hkind
    rw [run_eq h]
    refine .launch (fun item m => ?_) m
    exact .foldlM (fun m _ => View.grows_store _ m _ _) _ m

theorem Addition.grows_run (k : Addition) (a t : BufferId) (m : Memory) :
    m.Grows (k.run a t m) := by
  by_cases hkind : k.target.dataType.kind = .s32
  · rw [run_of_s32 hkind]
    exact .refl m
  · obtain ⟨α, inst, h⟩ := Dispatched.exists_of_ne hkind
    rw [run_eq h]
    refine .launch (fun item m => ?_) m
    exact .foldlM (fun m _ => View.grows_store _ m _ _) (k.lanes item) m

theorem View.Fits.grow {v : View} {m m' : Memory} (h : v.Fits m) (hm : m.Grows m')
    (hv : v.buffer < m.buffers.size) : v.Fits m' :=
  h.of_size (hm.size _ hv)

namespace MatrixProduct

/-- A product with the kernels of a plan, and the scratch tensors for them. -/
inductive Carries : MatrixProduct → ProductPlan → Prop
  | direct (config : Config) (multiply : Multiply) (addition : Option Addition)
      (scratch : ScratchGroup) :
      Carries ⟨config, none, multiply, addition, scratch⟩ ⟨config, none, multiply, addition⟩
  | anew (config : Config) (i t : Reshape) (multiply : Multiply) (addition : Option Addition)
      (scratch : ScratchGroup) (layouts : scratch.layouts = [i.target, t.target]) :
      Carries ⟨config, some ⟨i, t, none⟩, multiply, addition, scratch⟩
        ⟨config, some (i, t), multiply, addition⟩
  | kept (config : Config) (i t : Reshape) (multiply : Multiply) (addition : Option Addition)
      (scratch : ScratchGroup) (layouts : scratch.layouts = [i.target]) (buffer : BufferId)
      (done : Bool) :
      Carries ⟨config, some ⟨i, t, some ⟨⟨buffer, t.target⟩, done⟩⟩, multiply, addition, scratch⟩
        ⟨config, some (i, t), multiply, addition⟩

/-- The reshaped right operand that is kept between runs. -/
def kept? (q : MatrixProduct) : Option KeptOperand := q.reshape.bind ReshapeStage.kept

end MatrixProduct

/-- The whole buffer of a tensor that was allocated for it. -/
def View.block (v : View) : Block := ⟨v.buffer, v.layout.byteSize⟩

theorem View.fits_block {v : View} {m : Memory} (h : m.size v.buffer = v.block.size) : v.Fits m :=
  Nat.le_of_eq h.symm

/-- Tensors of a product that last. -/
def MatrixProduct.lasting (q : MatrixProduct) : List Block :=
  q.kept?.toList.map fun k => k.tensor.block

theorem MatrixProduct.mem_lasting {q : MatrixProduct} {k : KeptOperand} (hk : k ∈ q.kept?) :
    k.tensor.block ∈ q.lasting :=
  List.mem_map_of_mem (Option.mem_toList.2 hk)

/-- The blocks that a product has for itself. -/
def MatrixProduct.blocks (q : MatrixProduct) : List Block := q.scratch.owned ++ q.lasting

namespace ProductPlan

variable {m m' : Memory} {blocks : List Block}

theorem allocate_carries (p : ProductPlan) (keepRight pooled : Bool) (m : Memory) :
    (p.allocate keepRight pooled m).1.Carries p := by
  obtain ⟨config, reshapes, multiply, addition⟩ := p
  cases reshapes with
  | none => exact .direct ..
  | some r =>
    obtain ⟨i, t⟩ := r
    have left : ((ScratchGroup.empty pooled).manage i.target m).1.layouts = [i.target] :=
      ScratchGroup.manage_layouts ..
    cases keepRight with
    | true => exact .kept _ _ _ _ _ _ left _ _
    | false =>
      have both := ScratchGroup.manage_layouts ((ScratchGroup.empty pooled).manage i.target m).1
        t.target ((ScratchGroup.empty pooled).manage i.target m).2
      rw [left] at both
      exact .anew _ _ _ _ _ _ both

theorem allocate_ready (p : ProductPlan) (keepRight pooled : Bool) (m : Memory) :
    (p.allocate keepRight pooled m).1.scratch.Ready := by
  obtain ⟨config, reshapes, multiply, addition⟩ := p
  have empty := ScratchGroup.ready_empty pooled
  cases reshapes with
  | none => exact empty
  | some r =>
    obtain ⟨i, t⟩ := r
    cases keepRight with
    | true => exact empty.manage _ _
    | false => exact (empty.manage _ _).manage _ _

/-- Nothing has been reshaped for later runs yet. -/
theorem allocate_kept (p : ProductPlan) (keepRight pooled : Bool) (m : Memory) :
    ∀ k ∈ (p.allocate keepRight pooled m).1.kept?, k.done = false := by
  obtain ⟨config, reshapes, multiply, addition⟩ := p
  cases reshapes with
  | none => rintro k ⟨⟩
  | some r =>
    cases keepRight with
    | true => rintro k ⟨⟩; rfl
    | false => rintro k ⟨⟩

theorem allocates (h : m.Allocates m' blocks) (p : ProductPlan) (keepRight pooled : Bool) :
    m.Allocates (p.allocate keepRight pooled m').2
      ((p.allocate keepRight pooled m').1.blocks ++ blocks) := by
  obtain ⟨config, reshapes, multiply, addition⟩ := p
  have empty : m.Allocates m' ((ScratchGroup.empty pooled).owned ++ blocks) := h
  cases reshapes with
  | none => exact h
  | some r =>
    obtain ⟨i, t⟩ := r
    have left := ScratchGroup.allocates_manage empty i.target
    cases keepRight with
    | true =>
      refine (left.alloc t.target.byteSize).perm ?_
      rw [MatrixProduct.blocks, List.append_assoc]
      exact List.perm_middle.symm
    | false =>
      have right := ScratchGroup.allocates_manage left t.target
      rw [MatrixProduct.blocks, List.append_assoc]
      exact right

end ProductPlan

/-- A tensor holds what a reshape leaves of a source. -/
def Reshape.Left (r : Reshape) (source : BufferId) (m : Memory) (target : BufferId)
    (m' : Memory) : Prop :=
  ∀ c, r.target.HasCell c → View.load ⟨target, r.target⟩ m' (r.target.cell c) = r.value source c m

namespace Reshape.Left

variable {r : Reshape} {source target : BufferId} {m m' m'' : Memory}

theorem run (hr : r.Accepted) (hne : source ≠ target) (hm : View.Fits ⟨target, r.target⟩ m) :
    r.Left source m target (r.run source target m) :=
  fun _ hc => Reshape.load_run hr hne hm hc

theorem congr_target (h : r.Left source m target m')
    (hbyte : ∀ j, m''.byte target j = m'.byte target j) : r.Left source m target m'' :=
  fun c hc => (View.load_congr (v := ⟨target, r.target⟩) hbyte _).trans (h c hc)

theorem congr_source (h : r.Left source m target m')
    (hbyte : ∀ j, m''.byte source j = m.byte source j) : r.Left source m'' target m' :=
  fun c hc => (h c hc).trans (Reshape.value_congr (fun j => (hbyte j).symm) c)

end Reshape.Left

/-- Both operands of a product reshaped, `m` being the memory before. -/
structure Staged (interleave transpose : Reshape) (a b left right : BufferId)
    (m m' : Memory) : Prop where
  interleaved : interleave.Left a m left m'
  transposed : transpose.Left b m right m'
  grows : m.Grows m'
  byte : ∀ x, x ≠ left → x ≠ right → ∀ j, m'.byte x j = m.byte x j

namespace Staged

variable {i t : Reshape} {a b left right : BufferId} {m : Memory}

theorem both (hi : i.Accepted) (ht : t.Accepted) (hal : a ≠ left) (hbl : b ≠ left)
    (hbr : b ≠ right) (hlr : left ≠ right) (hl : View.Fits ⟨left, i.target⟩ m)
    (hr : View.Fits ⟨right, t.target⟩ m) :
    Staged i t a b left right m (t.run b right (i.run a left m)) where
  interleaved := (Reshape.Left.run hi hal hl).congr_target (Reshape.byte_run_other ht hbr hlr)
  transposed := (Reshape.Left.run ht hbr (hr.of_size (Reshape.size_run hi hal _))).congr_source
    fun j => (Reshape.byte_run_other hi hal hbl j).symm
  grows := (i.grows_run a left m).trans (t.grows_run b right _)
  byte x hxl hxr j := by
    rw [Reshape.byte_run_other ht hbr hxr, Reshape.byte_run_other hi hal hxl]

/-- The left operand reshaped, the right one having been reshaped before. -/
theorem leftOnly (hi : i.Accepted) (hal : a ≠ left) (hrl : right ≠ left)
    (hl : View.Fits ⟨left, i.target⟩ m) (hr : t.Left b m right m) :
    Staged i t a b left right m (i.run a left m) where
  interleaved := .run hi hal hl
  transposed := hr.congr_target (Reshape.byte_run_other hi hal hrl)
  grows := i.grows_run a left m
  byte _ hxl _ j := Reshape.byte_run_other hi hal hxl j

/-- The right operand may be taken as reshaped from what it is afterwards. -/
theorem stays {m' m'' : Memory} (h : Staged i t a b left right m m') (hbl : b ≠ left)
    (hbr : b ≠ right) (hb : ∀ j, m''.byte b j = m'.byte b j)
    (hr : ∀ j, m''.byte right j = m'.byte right j) : t.Left b m'' right m'' :=
  (h.transposed.congr_target hr).congr_source fun j => (hb j).trans (h.byte b hbl hbr j)

end Staged

namespace Multiply

variable {a b t a' b' : Layout} {alpha : Binary32} {g : Target} {h v : Nat} {α : Type} [Element α]
  {left right left' right' target : BufferId} {m m' : Memory}

/-- The multiply without reshapes that a product amounts to, whatever its path. -/
def plain (a b t : Layout) (alpha : Binary32) (g : Target) : Multiply :=
  ⟨a, b, t, alpha, ⟨g, .direct ⟨1, 1⟩⟩⟩

theorem load_run_staged (hm : Multipliable a b t)
    (hi : (⟨.interleaved v, a, a'⟩ : Reshape).Accepted)
    (hb : (⟨.blockTransposed h, b, b'⟩ : Reshape).Accepted) (hα : Dispatched t.dataType.kind α)
    (hs : Staged ⟨.interleaved v, a, a'⟩ ⟨.blockTransposed h, b, b'⟩ left right left' right' m m')
    (hl : left' ≠ target) (hr : right' ≠ target) (ht : View.Fits ⟨target, t⟩ m') {c : Cell}
    (hc : t.HasCell c) :
    View.load ⟨target, t⟩
        ((⟨a', b', t, alpha, ⟨g, .reshaped h v⟩⟩ : Multiply).run left' right' target m')
        (t.cell c) = (plain a b t alpha g).value α left right c m := by
  rw [load_run (accepted_reshaped alpha g hm hi hb) hα hl hr ht hc, value]
  exact congrArg Element.toWord
    (element_of_reshaped ⟨1, 1⟩ hm hi hb hs.interleaved hs.transposed hc)

theorem one_eqv_one : Binary32.one.eqv .one = true := by decide +kernel

/-- An element of a product without a factor, from the words of its operands. -/
theorem element_of_words {a b t : View} {c : Cell} (xs ys : Nat → Nat)
    (hx : ∀ k < a.layout.dim 0, a.load m (a.layout.cell ⟨k, c.y, c.z⟩) = xs k)
    (hy : ∀ k < a.layout.dim 0,
      b.load m (b.layout.cell ⟨c.x, k, c.z % b.layout.batches⟩) = ys k) :
    (plain a.layout b.layout t.layout .one g).element α a.buffer b.buffer c m =
      let frac := t.layout.dataType.frac
      Element.narrow frac (dot (g.mac frac) (fun k => Element.ofWord (xs k))
        (fun k => Element.ofWord (ys k)) (a.layout.dim 0) (Element.accZero frac)) := by
  have unscaled : (plain a.layout b.layout t.layout .one g).factor α = none :=
    if_pos one_eqv_one
  rw [element, unscaled]
  refine congrArg (Element.narrow _) (dot_congr (fun k hk => ?_) (fun k hk => ?_))
  · exact congrArg Element.ofWord (hx k hk)
  · exact congrArg Element.ofWord (hy k hk)

end Multiply

namespace MatrixProduct

/-- A right operand that was kept holds what reshaping it again would leave. -/
def Current (q : MatrixProduct) (b : BufferId) (m : Memory) : Prop :=
  ∀ stage, q.reshape = some stage → ∀ kept, stage.kept = some kept → kept.done →
    stage.transpose.Left b m kept.tensor.buffer m

theorem Current.congr {q : MatrixProduct} {b : BufferId} {m m' : Memory} (h : q.Current b m)
    (hb : ∀ j, m'.byte b j = m.byte b j)
    (hk : ∀ k ∈ q.kept?, ∀ j, m'.byte k.tensor.buffer j = m.byte k.tensor.buffer j) :
    q.Current b m' := fun stage hstage kept hkept done =>
  ((h stage hstage kept hkept done).congr_target
    (hk kept (by rw [kept?, hstage]; exact hkept))).congr_source hb

/-- Nothing has been kept yet that could be out of date. -/
theorem Current.of_undone {q : MatrixProduct} (h : ∀ k ∈ q.kept?, k.done = false) (b : BufferId)
    (m : Memory) : q.Current b m := by
  intro stage hstage kept hkept done
  have hk : kept ∈ q.kept? := by
    rw [kept?, hstage]
    exact hkept
  rw [h kept hk] at done
  cases done

/-- Operands that a product can be run on: buffers in use, the output and the kept operand apart
from the others. -/
structure Operands (q : MatrixProduct) (busy : BufferId → Prop) (a b t : View) (m : Memory) :
    Prop where
  busy_a : busy a.buffer
  busy_b : busy b.buffer
  busy_t : busy t.buffer
  a_ne : a.buffer ≠ t.buffer
  b_ne : b.buffer ≠ t.buffer
  fits : t.Fits m
  kept : ∀ k ∈ q.kept?, busy k.tensor.buffer ∧ k.tensor.buffer ≠ a.buffer ∧
    k.tensor.buffer ≠ b.buffer ∧ k.tensor.buffer ≠ t.buffer ∧ k.tensor.Fits m
  current : q.Current b.buffer m

/-- A run of a product: the elements of the plain multiply, and what else became of memory. -/
structure Produced (q : MatrixProduct) (busy : BufferId → Prop) (a b t : View) (alpha : Binary32)
    (g : Target) (α : Type) [Element α] (m : Memory) (q' : MatrixProduct) (m' : Memory) :
    Prop where
  load : ∀ c, t.layout.HasCell c → t.load m' (t.layout.cell c) =
    (Multiply.plain a.layout b.layout t.layout alpha g).value α a.buffer b.buffer c m
  grows : m.Grows m'
  byte : ∀ x, busy x → x ≠ t.buffer → (∀ k ∈ q.kept?, x ≠ k.tensor.buffer) →
    ∀ j, m'.byte x j = m.byte x j
  current : q'.Current b.buffer m'

variable {q : MatrixProduct} {p : ProductPlan} {busy : BufferId → Prop} {a b t : View}
  {alpha : Binary32} {α : Type} [Element α] {d d' : Device} {groups : List ScratchGroup}
  {s : Scope}

theorem produced_staged {h v : Nat} {a' b' : Layout}
    {left right : BufferId} {m m' : Memory} {g : Target} {q' : MatrixProduct}
    (hm : Multipliable a.layout b.layout t.layout) (hα : Dispatched t.layout.dataType.kind α)
    (hi : (⟨.interleaved v, a.layout, a'⟩ : Reshape).Accepted)
    (hb : (⟨.blockTransposed h, b.layout, b'⟩ : Reshape).Accepted)
    (staged : Staged ⟨.interleaved v, a.layout, a'⟩ ⟨.blockTransposed h, b.layout, b'⟩ a.buffer
      b.buffer left right m m') (hops : q.Operands busy a b t m) (hl : ¬busy left)
    (hr : right ≠ t.buffer) (hr' : ∀ x, busy x → (∀ k ∈ q.kept?, x ≠ k.tensor.buffer) → x ≠ right)
    (ht : t.Fits m')
    (current : ∀ m'', (∀ x, x ≠ t.buffer → ∀ j, m''.byte x j = m'.byte x j) →
      q'.Current b.buffer m'') :
    q.Produced busy a b t alpha g α m q'
      ((⟨a', b', t.layout, alpha, ⟨g, .reshaped h v⟩⟩ : Multiply).run left right t.buffer m') := by
  have hlt : left ≠ t.buffer := fun he => hl (he ▸ hops.busy_t)
  have hk := Multiply.accepted_reshaped alpha g hm hi hb
  constructor
  · intro c hc
    exact Multiply.load_run_staged hm hi hb hα staged hlt hr ht hc
  · exact staged.grows.trans (Multiply.grows_run ..)
  · intro x hx hxt hxk j
    rw [Multiply.byte_run_other hk hα hlt hr hxt,
      staged.byte x (fun he => hl (he ▸ hx)) (hr' x hx hxk)]
  · exact current _ fun x hxt j => Multiply.byte_run_other hk hα hlt hr hxt j

theorem multiplyOperands_spec (hq : q.Carries p)
    (hp : p.Kernels a.layout b.layout t.layout alpha)
    (hm : Multipliable a.layout b.layout t.layout) (hα : Dispatched t.layout.dataType.kind α)
    (ho : d.Opened busy q.scratch groups s d')
    (hops : q.Operands busy a b t d'.memory) :
    q.Produced busy a b t alpha p.config.target α d'.memory (q.multiplyOperands s a b t d').1
      (q.multiplyOperands s a b t d').2.memory := by
  cases hp with
  | direct target tile addition valid =>
    cases hq
    have hk := Multiply.accepted_direct alpha target hm valid
    constructor
    · intro c hc
      exact Multiply.load_run hk hα hops.a_ne hops.b_ne hops.fits hc
    · exact Multiply.grows_run ..
    · intro x hx hxt _ j
      exact Multiply.byte_run_other hk hα hops.a_ne hops.b_ne hxt j
    · rintro stage ⟨⟩
  | reshaped target h v addition a' b' hi ht =>
    cases hq with
    | anew _ _ _ _ _ scratch layouts =>
      have h0 : scratch.layouts[0]? = some a' := by rw [layouts]; rfl
      have h1 : scratch.layouts[1]? = some b' := by rw [layouts]; rfl
      have staged := Staged.both hi ht (ho.view_ne h0 hops.busy_a) (ho.view_ne h0 hops.busy_b)
        (ho.view_ne h1 hops.busy_b) (ho.view_apart h0 h1 Nat.zero_lt_one) (ho.view_fits h0)
        (ho.view_fits h1)
      exact produced_staged hm hα hi ht staged hops (ho.view_idle h0)
        (ho.view_ne h1 hops.busy_t).symm (fun x hx _ => ho.view_ne h1 hx)
        (hops.fits.grow staged.grows (ho.stocks.present _ (.inl hops.busy_t)))
        (fun _ _ stage hstage kept hkept => by cases hstage; cases hkept)
    | kept _ _ _ _ _ scratch layouts buffer done =>
      have h0 : scratch.layouts[0]? = some a' := by rw [layouts]; rfl
      obtain ⟨hbusy, hka, hkb, hkt, hfits⟩ := hops.kept _ rfl
      have hal := ho.view_ne h0 hops.busy_a
      have hbl := ho.view_ne h0 hops.busy_b
      have hkl := ho.view_ne h0 hbusy
      have present := ho.stocks.present _ (.inl hops.busy_t)
      cases done with
      | true =>
        -- an earlier run has reshaped the right operand, which has not changed since
        have staged := Staged.leftOnly hi hal hkl (ho.view_fits h0) (hops.current _ rfl _ rfl rfl)
        exact produced_staged hm hα hi ht staged hops (ho.view_idle h0) hkt
          (fun x _ hxk => hxk _ rfl) (hops.fits.grow staged.grows present)
          fun m'' hm'' stage hstage kept hkept _ => by
            cases hstage
            cases hkept
            exact staged.stays hbl hkb.symm (hm'' _ hops.b_ne) (hm'' _ hkt)
      | false =>
        have staged := Staged.both hi ht hal hbl hkb.symm hkl.symm (ho.view_fits h0) hfits
        exact produced_staged hm hα hi ht staged hops (ho.view_idle h0) hkt
          (fun x _ hxk => hxk _ rfl) (hops.fits.grow staged.grows present)
          fun m'' hm'' stage hstage kept hkept _ => by
            cases hstage
            cases hkept
            exact staged.stays hbl hkb.symm (hm'' _ hops.b_ne) (hm'' _ hkt)

/-- A product that has been run keeps what it reshaped. -/
def settle (q : MatrixProduct) : MatrixProduct :=
  { q with reshape := q.reshape.map fun stage =>
      { stage with kept := stage.kept.map fun k => { k with done := true } } }

theorem Carries.addition (hq : q.Carries p) : q.addition = p.addition := by
  cases hq <;> rfl

theorem Carries.settle (hq : q.Carries p) : q.settle.Carries p := by
  cases hq with
  | direct => exact .direct ..
  | anew _ _ _ _ _ _ layouts => exact .anew _ _ _ _ _ _ layouts
  | kept _ _ _ _ _ _ layouts => exact .kept _ _ _ _ _ _ layouts _ _

theorem kept?_settle (q : MatrixProduct) :
    q.settle.kept? = q.kept?.map fun k => { k with done := true } := by
  obtain ⟨config, reshape, multiply, addition, scratch⟩ := q
  cases reshape <;> rfl

theorem tensor_settle {q : MatrixProduct} {k : KeptOperand} (hk : k ∈ q.settle.kept?) :
    ∃ k' ∈ q.kept?, k'.tensor = k.tensor := by
  rw [kept?_settle] at hk
  obtain ⟨k', hk', rfl⟩ := Option.mem_map.1 hk
  exact ⟨k', hk', rfl⟩

theorem settle_settle (q : MatrixProduct) : q.settle.settle = q.settle := by
  obtain ⟨config, reshape, multiply, addition, scratch⟩ := q
  cases reshape with
  | none => rfl
  | some stage =>
    obtain ⟨i, t, kept⟩ := stage
    cases kept <;> rfl

theorem lasting_settle (q : MatrixProduct) : q.settle.lasting = q.lasting := by
  rw [lasting, kept?_settle, lasting]
  cases q.kept? <;> rfl

/-- A product `q₀`, run or not. -/
inductive Since (q₀ : MatrixProduct) : MatrixProduct → Prop
  | fresh : Since q₀ q₀
  | settled : Since q₀ q₀.settle

namespace Since

variable {q₀ : MatrixProduct}

theorem settle (h : Since q₀ q) : Since q₀ q.settle := by
  cases h with
  | fresh => exact .settled
  | settled =>
    rw [settle_settle]
    exact .settled

theorem carries (h : Since q₀ q) (hq : q₀.Carries p) : q.Carries p := by
  cases h with
  | fresh => exact hq
  | settled => exact hq.settle

theorem scratch (h : Since q₀ q) : q.scratch = q₀.scratch := by
  cases h <;> rfl

theorem lasting (h : Since q₀ q) : q.lasting = q₀.lasting := by
  cases h with
  | fresh => rfl
  | settled => exact q₀.lasting_settle

theorem mem_lasting (h : Since q₀ q) {k : KeptOperand} (hk : k ∈ q.kept?) :
    k.tensor.block ∈ q₀.lasting := by
  rw [← h.lasting]
  exact MatrixProduct.mem_lasting hk

end Since

theorem multiplyOperands_fst (q : MatrixProduct) (s : Scope) (a b t : View) (d : Device) :
    (q.multiplyOperands s a b t d).1 = q.settle := by
  obtain ⟨config, reshape, multiply, addition, scratch⟩ := q
  cases reshape with
  | none => rfl
  | some stage =>
    obtain ⟨i, t, kept⟩ := stage
    cases kept with
    | none => rfl
    | some kept => obtain ⟨tensor, done⟩ := kept; cases done <;> rfl

theorem multiplyOperands_pool (q : MatrixProduct) (s : Scope) (a b t : View) (d : Device) :
    (q.multiplyOperands s a b t d).2.pool = d.pool := by
  obtain ⟨config, reshape, multiply, addition, scratch⟩ := q
  cases reshape with
  | none => rfl
  | some stage =>
    obtain ⟨i, t, kept⟩ := stage
    cases kept with
    | none => rfl
    | some kept => obtain ⟨tensor, done⟩ := kept; cases done <;> rfl

theorem run_fst (q : MatrixProduct) (a b : View) (c : Option View) (t : View) (d : Device) :
    (q.run a b c t d).1 = q.settle :=
  multiplyOperands_fst ..

theorem grows_multiplyOperands (q : MatrixProduct) (s : Scope) (a b t : View) (d : Device) :
    d.memory.Grows (q.multiplyOperands s a b t d).2.memory := by
  obtain ⟨config, reshape, multiply, addition, scratch⟩ := q
  cases reshape with
  | none => exact multiply.grows_run ..
  | some stage =>
    obtain ⟨i, r, kept⟩ := stage
    have left := i.grows_run a.buffer (s.view leftSlot).buffer d.memory
    cases kept with
    | none => exact (left.trans (r.grows_run ..)).trans (multiply.grows_run ..)
    | some kept =>
      obtain ⟨tensor, done⟩ := kept
      cases done with
      | true => exact left.trans (multiply.grows_run ..)
      | false => exact (left.trans (r.grows_run ..)).trans (multiply.grows_run ..)

theorem grows_addC (q : MatrixProduct) (c : Option View) (t : View) (d : Device) :
    d.memory.Grows (q.addC c t d).memory := by
  unfold addC
  split
  · exact Addition.grows_run ..
  · exact .refl _

theorem pool_addC (q : MatrixProduct) (c : Option View) (t : View) (d : Device) :
    (q.addC c t d).pool = d.pool := by
  unfold addC
  split <;> rfl

theorem addC_none (q : MatrixProduct) (t : View) (d : Device) : q.addC none t d = d := by
  unfold addC
  cases q.addition <;> rfl

theorem addC_of_addition_none (h : q.addition = none) (c : Option View) (t : View) (d : Device) :
    q.addC c t d = d := by
  simp only [addC, h]

theorem memory_addC_congr (q : MatrixProduct) (c : Option View) (t : View)
    (h : d.memory = d'.memory) : (q.addC c t d).memory = (q.addC c t d').memory := by
  unfold addC
  split
  · next k c _ => exact congrArg (k.run c.buffer t.buffer) h
  · exact h

theorem run_snd (q : MatrixProduct) (a b : View) (c : Option View) (t : View) (d : Device) :
    (q.run a b c t d).2 =
      (q.scratch.acquire d).1.close (q.addC c t
        (q.multiplyOperands (q.scratch.acquire d).1 a b t (q.scratch.acquire d).2).2) := by
  have settled := q.multiplyOperands_fst (q.scratch.acquire d).1 a b t (q.scratch.acquire d).2
  have same : (q.run a b c t d).2 = (q.scratch.acquire d).1.close
      ((q.multiplyOperands (q.scratch.acquire d).1 a b t (q.scratch.acquire d).2).1.addC c t
        (q.multiplyOperands (q.scratch.acquire d).1 a b t (q.scratch.acquire d).2).2) := rfl
  rw [same, settled]
  rfl

theorem memory_run (q : MatrixProduct) (a b : View) (c : Option View) (t : View) (d : Device) :
    (q.run a b c t d).2.memory = (q.addC c t (q.run a b none t d).2).memory := by
  rw [run_snd, Device.memory_close]
  apply memory_addC_congr
  rw [run_snd, addC_none, Device.memory_close]

theorem grows_run (q : MatrixProduct) (a b : View) (c : Option View) (t : View)
    (hd : d.Stocks busy (q.scratch :: groups)) : d.memory.Grows (q.run a b c t d).2.memory := by
  rw [run_snd, Device.memory_close]
  exact hd.opened.grows.trans ((q.grows_multiplyOperands ..).trans (q.grows_addC ..))

/-- A run gives its scratch tensors back. -/
theorem stocks_run (q : MatrixProduct) (a b : View) (c : Option View) (t : View)
    (hd : d.Stocks busy (q.scratch :: groups)) :
    (q.run a b c t d).2.Stocks busy (q.scratch :: groups) := by
  rw [run_snd]
  have ho := hd.opened
  generalize (q.scratch.acquire d).1 = s, (q.scratch.acquire d).2 = d' at ho ⊢
  have grows := (q.grows_multiplyOperands s a b t d').trans
    (q.grows_addC c t (q.multiplyOperands s a b t d').2)
  have pool := (q.pool_addC c t _).trans (q.multiplyOperands_pool s a b t d')
  refine hd.close ho ?_ grows
  have hs := ho.stocks.onMemory (f := fun _ => _) grows
  rwa [Device.onMemory, ← pool] at hs

theorem Operands.reread {m m' : Memory} (h : q.Operands busy a b t m) (hm : m.Grows m')
    (present : ∀ x, busy x → x < m.buffers.size) (hbyte : ∀ x j, m'.byte x j = m.byte x j) :
    q.Operands busy a b t m' :=
  { h with
    fits := h.fits.grow hm (present _ h.busy_t)
    kept := fun k hk => by
      obtain ⟨hbusy, hka, hkb, hkt, fits⟩ := h.kept k hk
      exact ⟨hbusy, hka, hkb, hkt, fits.grow hm (present _ hbusy)⟩
    current := h.current.congr (hbyte _) fun k _ => hbyte _ }

theorem run_spec (hq : q.Carries p) (hp : p.Kernels a.layout b.layout t.layout alpha)
    (hm : Multipliable a.layout b.layout t.layout) (hα : Dispatched t.layout.dataType.kind α)
    (hd : d.Stocks busy (q.scratch :: groups)) (hops : q.Operands busy a b t d.memory) :
    q.Produced busy a b t alpha p.config.target α d.memory (q.run a b none t d).1
      (q.run a b none t d).2.memory := by
  have ho := hd.opened
  have produced := multiplyOperands_spec hq hp hm hα ho (hops.reread ho.grows hd.present ho.byte)
  rw [run_snd, addC_none, Device.memory_close, run_fst]
  rw [multiplyOperands_fst] at produced
  refine ⟨fun c hc => ?_, ho.grows.trans produced.grows, fun x hx hxt hxk j => ?_,
    produced.current⟩
  · rw [produced.load c hc]
    exact Multiply.value_congr (ho.byte _) (ho.byte _) c
  · rw [produced.byte x hx hxt hxk, ho.byte]

end MatrixProduct

end TileCompute
