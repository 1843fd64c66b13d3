import TileCompute.Proofs.Product
import TileCompute.Proofs.Twin

/-!
# TileCompute.Proofs.TwinKernels

Kernels and products on two memories. A kernel that finds the elements of its operands known leaves
the elements of its destination known. A product reads scratch tensors only after it has written
all their elements, so what it leaves does not depend on which scratch tensors it was given, nor on
what was in them.

* `Reshape.twin_run`, `Multiply.twin_run`, `Addition.respects_run`: the kernels.
* `MatrixProduct.Alike.run`: a product run on both sides.
-/

namespace TileCompute

variable {R : Pairing} {m m' : Memory}

/-- Everything paired is busy on its side. -/
def Pairing.Within (R : Pairing) (busy busy' : BufferId → Prop) : Prop :=
  ∀ {b b' i}, R.room b b' i → busy b ∧ busy' b'

/-- Opening scopes leaves twins twins. -/
theorem Pairing.Twin.opened {busy busy' : BufferId → Prop} {g g' : ScratchGroup}
    {groups groups' gs gs' : List ScratchGroup} {d d' e e' : Device} {s s' : Scope}
    (h : R.Twin d.memory d'.memory) (within : R.Within busy busy') (hd : d.Stocks busy gs)
    (hd' : d'.Stocks busy' gs') (ho : d.Opened busy g groups s e)
    (ho' : d'.Opened busy' g' groups' s' e') : R.Twin e.memory e'.memory :=
  h.grow (fun hr => ⟨hd.present _ (within hr).1, hd'.present _ (within hr).2⟩) ho.grows ho'.grows
    ho.byte ho'.byte

namespace Device.Opened

variable {busy busy' : BufferId → Prop} {g g' : ScratchGroup} {groups groups' : List ScratchGroup}
  {d d' e e' : Device} {s s' : Scope} {i j : Nat} {l k : Layout}

/-- A slot of a scope, opened on both sides, may be paired: nothing is known of it. -/
theorem exists_slot (ho : d.Opened busy g groups s e) (ho' : d'.Opened busy' g' groups' s' e')
    (within : R.Within busy busy') (h : R.Twin e.memory e'.memory) (hi : g.layouts[i]? = some l)
    (hi' : g'.layouts[i]? = some l) :
    ∃ R', R ≤ R' ∧ R'.Twin e.memory e'.memory ∧
      R'.Room l (s.view i).buffer (s'.view i).buffer ∧ ∀ {b b' n}, R'.room b b' n →
        R.room b b' n ∨ b = (s.view i).buffer ∧ b' = (s'.view i).buffer :=
  h.exists_slot (ho.view_fits hi) (ho'.view_fits hi') fun hr =>
    ⟨ho.view_ne hi (within hr).1, ho'.view_ne hi' (within hr).2⟩

theorem exists_slots (ho : d.Opened busy g groups s e) (ho' : d'.Opened busy' g' groups' s' e')
    (within : R.Within busy busy') (h : R.Twin e.memory e'.memory) (hi : g.layouts[i]? = some l)
    (hi' : g'.layouts[i]? = some l) (hj : g.layouts[j]? = some k) (hj' : g'.layouts[j]? = some k)
    (hij : i < j) :
    ∃ R', R ≤ R' ∧ R'.Twin e.memory e'.memory ∧
      R'.Room l (s.view i).buffer (s'.view i).buffer ∧
      R'.Room k (s.view j).buffer (s'.view j).buffer ∧
      R'.Within (Using busy s.blocks) (Using busy' s'.blocks) := by
  obtain ⟨R₁, hR₁, twin₁, room₁, new₁⟩ := ho.exists_slot ho' within h hi hi'
  obtain ⟨R₂, hR₂, twin₂, room₂, new₂⟩ := twin₁.exists_slot (ho.view_fits hj) (ho'.view_fits hj')
    fun hr => by
      obtain hr | ⟨rfl, rfl⟩ := new₁ hr
      · exact ⟨ho.view_ne hj (within hr).1, ho'.view_ne hj' (within hr).2⟩
      · exact ⟨ho.view_apart hi hj hij, ho'.view_apart hi' hj' hij⟩
  refine ⟨R₂, hR₁.trans hR₂, twin₂, room₁.mono hR₂, room₂, fun hr => ?_⟩
  obtain hr | ⟨rfl, rfl⟩ := new₂ hr
  · obtain hr | ⟨rfl, rfl⟩ := new₁ hr
    · exact (within hr).imp .inl .inl
    · exact ⟨ho.view_using hi, ho'.view_using hi'⟩
  · exact ⟨ho.view_using hj, ho'.view_using hj'⟩

end Device.Opened

namespace Reshape

variable {r : Reshape} {s s' t t' : BufferId}

theorem value_twin (hr : r.Accepted) (h : R.Twin m m')
    (hs : R.Knows r.source r.source.HasCell s s') {c : Cell} (hc : r.target.HasCell c) :
    r.value s c m = r.value s' c m' := by
  unfold value
  cases ho : r.origin c with
  | none => rfl
  | some o => exact h.load_cell hs (hasCell_origin hr hc ho)

/-- All elements of the destination are written. -/
theorem twin_run (hr : r.Accepted) (h : R.Twin m m')
    (hs : R.Knows r.source r.source.HasCell s s') (ht : R.Room r.target t t') :
    (R.tell t t' (r.target.Span r.target.HasCell)).Twin (r.run s t m) (r.run s' t' m') := by
  have all (c : Cell) : c ∈ r.grid.items.flatMap r.cells ↔ r.target.HasCell c :=
    (shares hr).mem_all
  rw [run_eq_launch, run_eq_launch, Grid.launch, Grid.launch,
    runItems_eq_fill fun _ hitem => runItem_eq_fill hr hitem s t,
    runItems_eq_fill fun _ hitem => runItem_eq_fill hr hitem s' t']
  refine Pairing.Twin.mono (h.fill ht (fun c hc => (all c).1 hc) fun c hc m m' h =>
    value_twin hr h hs ((all c).1 hc)) (Pairing.tell_mono le_rfl ?_)
  rintro j ⟨c, hc, span⟩
  exact ⟨c, (all c).2 hc, span⟩

end Reshape

namespace Multiply

variable {k : Multiply} {α : Type} [Element α] {a a' b b' t t' : BufferId}

theorem value_twin (hk : k.Accepted) {item : WorkItem} (hitem : item ∈ k.grid.items) {c : Cell}
    (hc : c ∈ k.cells item) (h : R.Twin m m') (ha : R.Knows k.a k.a.HasCell a a')
    (hb : R.Knows k.b k.b.HasCell b b') : k.value α a b c m = k.value α a' b' c m' := by
  rw [cells_eq] at hc
  obtain ⟨⟨i, j⟩, hp, rfl⟩ := List.mem_map.1 hc
  obtain ⟨hi, hj⟩ := Tile.mem_cells.1 hp
  have hi := Nat.lt_of_lt_of_le hi (k.store_le item).1
  have hj := Nat.lt_of_lt_of_le hj (k.store_le item).2
  refine congrArg (fun acc => Element.toWord (finish _ _ acc))
    (dot_congr (fun s hs => ?_) fun s hs => ?_)
  · exact congrArg Element.ofWord (h.load_cell ha (hasCell_aCell hk hitem hs hi))
  · exact congrArg Element.ofWord (h.load_cell hb (hasCell_bCell hk hitem hs hj))

theorem twin_run (hk : k.Accepted) (h : R.Twin m m') (ha : R.Knows k.a k.a.HasCell a a')
    (hb : R.Knows k.b k.b.HasCell b b') (ht : R.Room k.target t t') :
    (R.tell t t' (k.target.Span k.target.HasCell)).Twin (k.run a b t m) (k.run a' b' t' m') := by
  obtain ⟨α, inst, valid⟩ := Dispatched.exists_of_ne (hk.targetType ▸ hk.kind)
  rw [run_eq valid, run_eq valid]
  exact h.launch (shares hk) ht (fun _ hitem => runItem_eq_fill_before hk hitem)
    (fun _ hitem => runItem_eq_fill_before hk hitem) fun item hitem c hc _ _ h =>
      value_twin hk hitem hc h ha hb

end Multiply

namespace Addition

variable {a a' t t' : BufferId}

theorem respects_run (k : Addition) (ha : R.Whole a a') (ht : R.Whole t t') :
    R.Respects (k.run a t) (k.run a' t') := by
  by_cases hkind : k.target.dataType.kind = .s32
  · rw [run_of_s32 hkind, run_of_s32 hkind]
    exact .refl R
  · obtain ⟨α, inst, valid⟩ := Dispatched.exists_of_ne hkind
    rw [funext (run_eq valid a t), funext (run_eq valid a' t')]
    refine .runItems fun item _ => ?_
    rw [runItem_eq, runItem_eq]
    refine .runItems fun lane _ => .store ht _ _ fun h => ?_
    rw [h.load ha, h.load ht]

end Addition

namespace MatrixProduct

variable {q q' : MatrixProduct} {p : ProductPlan} {busy busy' : BufferId → Prop}
  {groups groups' : List ScratchGroup} {a b c t : View} {d d' e e' : Device} {s s' : Scope}

/-! ### Two products of one plan -/

/-- Products of one plan whose kept operands stand for each other. -/
structure Alike (R : Pairing) (p : ProductPlan) (q q' : MatrixProduct) : Prop where
  left : q.Carries p
  right : q'.Carries p
  kept : Option.Rel (fun k k' : KeptOperand =>
    R.Whole k.tensor.buffer k'.tensor.buffer ∧ k.done = k'.done) q.kept? q'.kept?

theorem Alike.mono {R' : Pairing} (hq : q.Alike R p q') (hR : R ≤ R') : q.Alike R' p q' := by
  obtain ⟨left, right, kept⟩ := hq
  refine ⟨left, right, ?_⟩
  generalize q.kept? = k, q'.kept? = k' at kept ⊢
  cases kept with
  | none => exact .none
  | some h => exact .some ⟨h.1.mono hR, h.2⟩

variable {la lb lt : Layout} {alpha : Binary32} {a' b' t' : View}

/-- The multiply of operands that were reshaped into scratch, or into a kept tensor. -/
theorem twin_staged {k : Multiply} {i r : Reshape} {left left' right right' : BufferId}
    (hi : i.Accepted) (hr : r.Accepted) (hk : k.Accepted) (hka : k.a = i.target)
    (hkb : k.b = r.target) (h : R.Twin m m')
    (ha : R.Knows i.source i.source.HasCell a.buffer a'.buffer)
    (hb : R.Knows r.source r.source.HasCell b.buffer b'.buffer)
    (hl : R.Room i.target left left') (hright : R.Room r.target right right')
    (ht : R.Room k.target t.buffer t'.buffer) :
    (R.tell t.buffer t'.buffer (k.target.Span k.target.HasCell)).Twin
      (k.run left right t.buffer (r.run b.buffer right (i.run a.buffer left m)))
      (k.run left' right' t'.buffer (r.run b'.buffer right' (i.run a'.buffer left' m'))) := by
  have interleaved := Reshape.twin_run hi h ha hl
  have hR := R.le_tell left left' (i.target.Span i.target.HasCell)
  have transposed := Reshape.twin_run hr interleaved (hb.mono hR) (hright.mono hR)
  have hR' := Pairing.le_tell (R.tell left left' (i.target.Span i.target.HasCell)) right right'
    (r.target.Span r.target.HasCell)
  refine (Multiply.twin_run hk transposed ?_ ?_ (ht.mono (hR.trans hR'))).mono
    (Pairing.tell_mono (hR.trans hR') fun _ hj => hj)
  · rw [hka]
    exact (hl.knows_tell fun _ hc => hc).mono hR'
  · rw [hkb]
    exact (hright.mono hR).knows_tell fun _ hc => hc

/-- The multiply of a left operand that was reshaped into scratch, the right one being known. -/
theorem twin_leftOnly {k : Multiply} {i : Reshape} {left left' right right' : BufferId}
    (hi : i.Accepted) (hk : k.Accepted) (hka : k.a = i.target) (h : R.Twin m m')
    (ha : R.Knows i.source i.source.HasCell a.buffer a'.buffer)
    (hb : R.Knows k.b k.b.HasCell right right') (hl : R.Room i.target left left')
    (ht : R.Room k.target t.buffer t'.buffer) :
    (R.tell t.buffer t'.buffer (k.target.Span k.target.HasCell)).Twin
      (k.run left right t.buffer (i.run a.buffer left m))
      (k.run left' right' t'.buffer (i.run a'.buffer left' m')) := by
  have interleaved := Reshape.twin_run hi h ha hl
  have hR := R.le_tell left left' (i.target.Span i.target.HasCell)
  refine (Multiply.twin_run hk interleaved ?_ (hb.mono hR) (ht.mono hR)).mono
    (Pairing.tell_mono hR fun _ hj => hj)
  rw [hka]
  exact hl.knows_tell fun _ hc => hc

theorem Alike.multiplyOperands (hq : q.Alike R p q') (hp : p.Kernels la lb lt alpha)
    (hm : Multipliable la lb lt) (within : R.Within busy busy')
    (ho : d.Opened busy q.scratch groups s e) (ho' : d'.Opened busy' q'.scratch groups' s' e')
    (h : R.Twin e.memory e'.memory) (ha : R.Knows la la.HasCell a.buffer a'.buffer)
    (hb : R.Knows lb lb.HasCell b.buffer b'.buffer) (ht : R.Room lt t.buffer t'.buffer) :
    (R.tell t.buffer t'.buffer (lt.Span lt.HasCell)).Twin
      (q.multiplyOperands s a b t e).2.memory (q'.multiplyOperands s' a' b' t' e').2.memory := by
  obtain ⟨left, right, kept⟩ := hq
  cases hp with
  | direct target tile addition valid =>
    cases left
    cases right
    exact Multiply.twin_run (Multiply.accepted_direct alpha target hm valid) h ha hb ht
  | reshaped target bh bv addition la' lb' hi hr =>
    have hk := Multiply.accepted_reshaped alpha target hm hi hr
    cases left with
    | anew _ _ _ _ _ scratch layouts =>
      cases right with
      | kept => cases kept
      | anew _ _ _ _ _ scratch' layouts' =>
        have h0 : scratch.layouts[leftSlot]? = some la' := by rw [layouts]; rfl
        have h0' : scratch'.layouts[leftSlot]? = some la' := by rw [layouts']; rfl
        have h1 : scratch.layouts[rightSlot]? = some lb' := by rw [layouts]; rfl
        have h1' : scratch'.layouts[rightSlot]? = some lb' := by rw [layouts']; rfl
        obtain ⟨R₁, hR, h₁, room₁, room₂, -⟩ :=
          ho.exists_slots ho' within h h0 h0' h1 h1' Nat.zero_lt_one
        exact (twin_staged hi hr hk rfl rfl h₁ (ha.mono hR) (hb.mono hR) room₁ room₂
          (ht.mono hR)).mono (Pairing.tell_mono hR fun _ hj => hj)
    | kept _ _ _ _ _ scratch layouts buffer done =>
      -- products of one plan both keep their right operand, and both have it or not yet
      cases right with
      | anew => cases kept
      | kept _ _ _ _ _ scratch' layouts' buffer' done' =>
        obtain ⟨whole, same⟩ : R.Whole buffer buffer' ∧ done = done' := by
          cases kept with
          | some h => exact h
        subst same
        have h0 : scratch.layouts[leftSlot]? = some la' := by rw [layouts]; rfl
        have h0' : scratch'.layouts[leftSlot]? = some la' := by rw [layouts']; rfl
        obtain ⟨R₁, hR₁, h₁, room₁, -⟩ := ho.exists_slot ho' within h h0 h0'
        have whole₁ := whole.mono hR₁
        cases done with
        | true =>
          exact (twin_leftOnly hi hk rfl h₁ (ha.mono hR₁) (whole₁.knows _ _) room₁
            (ht.mono hR₁)).mono (Pairing.tell_mono hR₁ fun _ hj => hj)
        | false =>
          exact (twin_staged hi hr hk rfl rfl h₁ (ha.mono hR₁) (hb.mono hR₁) room₁
            (whole₁.room _) (ht.mono hR₁)).mono (Pairing.tell_mono hR₁ fun _ hj => hj)

theorem Alike.addition (hq : q.Alike R p q') : q.addition = q'.addition := by
  rw [hq.left.addition, hq.right.addition]

theorem Alike.settle (hq : q.Alike R p q') : q.settle.Alike R p q'.settle := by
  obtain ⟨left, right, kept⟩ := hq
  refine ⟨left.settle, right.settle, ?_⟩
  rw [kept?_settle, kept?_settle]
  generalize q.kept? = k, q'.kept? = k' at kept ⊢
  cases kept with
  | none => exact .none
  | some h => exact .some ⟨h.1, rfl⟩

theorem Alike.run (hq : q.Alike R p q') (hp : p.Kernels la lb lt alpha)
    (hm : Multipliable la lb lt) (within : R.Within busy busy')
    (hd : d.Stocks busy (q.scratch :: groups)) (hd' : d'.Stocks busy' (q'.scratch :: groups'))
    (h : R.Twin d.memory d'.memory) (ha : R.Knows la la.HasCell a.buffer a'.buffer)
    (hb : R.Knows lb lb.HasCell b.buffer b'.buffer) (ht : R.Room lt t.buffer t'.buffer)
    {c : Option View} (hc : ∀ v ∈ c, R.Whole v.buffer v.buffer ∧ R.Whole t.buffer t'.buffer) :
    (R.tell t.buffer t'.buffer (lt.Span lt.HasCell)).Twin
      (q.run a b c t d).2.memory (q'.run a' b' c t' d').2.memory := by
  have ho := hd.opened
  have ho' := hd'.opened
  rw [run_snd, run_snd, Device.memory_close, Device.memory_close]
  generalize (q.scratch.acquire d).1 = s, (q.scratch.acquire d).2 = e at ho ⊢
  generalize (q'.scratch.acquire d').1 = s', (q'.scratch.acquire d').2 = e' at ho' ⊢
  have product := hq.multiplyOperands hp hm within ho ho' (h.opened within hd hd' ho ho') ha hb ht
  unfold addC
  rw [← hq.addition]
  split
  · obtain ⟨whole, target⟩ := hc _ rfl
    have hR := R.le_tell t.buffer t'.buffer (lt.Span lt.HasCell)
    exact (Addition.respects_run _ (whole.mono hR) (target.mono hR)).twin product
  · exact product

end MatrixProduct
end TileCompute
