import Mathlib.Data.List.Nodup
import Mathlib.Data.List.Pairwise
import TileCompute.Layer.DepthConcatenation
import TileCompute.Proofs.Checks
import TileCompute.Proofs.Strips

/-!
# TileCompute.Proofs.Stacking

What a stack of tensors holds. The inputs take consecutive channels of the output, so every channel
belongs to one input (`DepthConcatenation.exists_takes`, `Placement.Takes.unique`), and elements of
two inputs, or two elements of one, never go to the same place. The copies together are therefore
one fill of the output, in which the order of the inputs is of no matter. What they leave out is the
border around inputs that are smaller than the output, and that is zero: some input is smaller only
if the output was cleared first.

* `DepthConcatenation.copies_eq_fill`: the copies as one fill.
* `DepthConcatenation.load_copies`: what an element holds after them.
* `DepthConcatenation.run_stacked`: what a run leaves.
-/

namespace TileCompute

namespace Placement

variable {p : Placement} {s t : Site}

/-- Where an element of the input goes. -/
def target (p : Placement) (s : Site) : Site :=
  ⟨s.x + p.left, s.y + p.top, s.z + p.depth, s.w⟩

/-- The channels of the output that the input takes. -/
def Takes (p : Placement) (z : Nat) : Prop :=
  p.depth ≤ z ∧ z < p.depth + p.input.layout.shape.z

/-- Inputs that share no channel. -/
def Apart (p q : Placement) : Prop := ∀ z, p.Takes z → ¬q.Takes z

instance : Std.Symm Apart := ⟨fun _ _ h z taken taken' => h z taken' taken⟩

/-- The element of the input that lies at a place of its channels, or none in the border. -/
def source? (p : Placement) (t : Site) : Option Site :=
  if (p.left ≤ t.x ∧ t.x - p.left < p.input.layout.shape.x) ∧
      p.top ≤ t.y ∧ t.y - p.top < p.input.layout.shape.y then
    some ⟨t.x - p.left, t.y - p.top, t.z - p.depth, t.w⟩
  else none

theorem takes_target (hs : s ∈ p.input.layout.shape.sites) : p.Takes (p.target s).z := by
  have hz := (Shape.mem_sites.1 hs).2.1
  unfold Takes target
  dsimp only
  omega

theorem source?_target (hs : s ∈ p.input.layout.shape.sites) : p.source? (p.target s) = some s := by
  obtain ⟨⟨hx, hy⟩, -⟩ := Shape.mem_sites.1 hs
  unfold source? target
  simp only [Nat.add_sub_cancel]
  rw [if_pos ⟨⟨Nat.le_add_left .., hx⟩, Nat.le_add_left .., hy⟩]

theorem target_source? (taken : p.Takes t.z) (h : p.source? t = some s) : p.target s = t := by
  unfold source? at h
  split at h
  · next inside =>
    obtain rfl := Option.some.inj h
    obtain ⟨⟨left, -⟩, top, -⟩ := inside
    unfold target
    simp only [Nat.sub_add_cancel left, Nat.sub_add_cancel top, Nat.sub_add_cancel taken.1]
  · cases h

theorem source?_inside (taken : p.Takes t.z) (batch : t.w < p.input.layout.shape.upperSize 3)
    (h : p.source? t = some s) : s ∈ p.input.layout.shape.sites := by
  unfold source? at h
  split at h
  · next inside =>
    obtain rfl := Option.some.inj h
    obtain ⟨⟨-, width⟩, -, height⟩ := inside
    exact Shape.mem_sites.2 ⟨⟨width, height⟩, Nat.sub_lt_left_of_lt_add taken.1 taken.2, batch⟩
  · cases h

end Placement

namespace DepthConcatenation

/-! ### Where the inputs go -/

section Place

variable {out : Shape} {vs : List View} {before : Nat}

def channels (vs : List View) : Nat := (vs.map fun v => v.layout.shape.z).sum

/-- Where input number `i` goes: centred in the planes of the output, behind the channels of the
inputs before it. -/
def placed (inputs : List View) (out : Shape) (i : Nat) (v : View) : Placement where
  input := v
  left := (out.x - v.layout.shape.x) / 2
  top := (out.y - v.layout.shape.y) / 2
  depth := channels (inputs.take i)

theorem depth_eq_channels (inputs : List View) : depth inputs = channels inputs := by
  rw [depth, channels, List.sum_eq_foldl, List.foldl_map]

theorem getElem?_place (i : Nat) : (place out before vs)[i]? =
    vs[i]?.map fun v => { placed vs out i v with depth := before + channels (vs.take i) } := by
  induction vs generalizing before i with
  | nil => rfl
  | cons v vs ih =>
    cases i with
    | zero => rfl
    | succ i =>
      rw [place, List.getElem?_cons_succ, List.getElem?_cons_succ, ih]
      cases vs[i]? with
      | none => rfl
      | some u => simp [placed, channels, Nat.add_assoc]

theorem channels_take_add_le {i : Nat} {v : View} (h : vs[i]? = some v) :
    channels (vs.take i) + v.layout.shape.z ≤ channels vs := by
  induction vs generalizing i with
  | nil => cases h
  | cons u vs ih =>
    cases i with
    | zero =>
      obtain rfl := Option.some.inj h
      simp [channels]
    | succ i =>
      have rest := ih h
      simp only [channels, List.take_succ_cons, List.map_cons, List.sum_cons] at rest ⊢
      omega

theorem exists_takes {z : Nat} (first : before ≤ z) (last : z < before + channels vs) :
    ∃ p ∈ place out before vs, p.Takes z := by
  induction vs generalizing before with
  | nil => exact absurd last (Nat.not_lt.2 first)
  | cons v vs ih =>
    have all : before + channels (v :: vs) = before + v.layout.shape.z + channels vs := by
      simp [channels, Nat.add_assoc]
    by_cases hz : z < before + v.layout.shape.z
    · exact ⟨_, List.mem_cons_self, first, hz⟩
    · obtain ⟨p, hp, taken⟩ := ih (Nat.not_lt.1 hz) (all ▸ last)
      exact ⟨p, List.mem_cons_of_mem _ hp, taken⟩

theorem le_depth_of_place {p : Placement} (hp : p ∈ place out before vs) : before ≤ p.depth := by
  induction vs generalizing before with
  | nil => cases hp
  | cons v vs ih =>
    obtain rfl | hp := List.mem_cons.1 hp
    · exact Nat.le_refl _
    · exact Nat.le_trans (Nat.le_add_right ..) (ih hp)

/-- The channels of an input end before those of the next ones begin. -/
theorem apart_place : (place out before vs).Pairwise Placement.Apart := by
  induction vs generalizing before with
  | nil => exact .nil
  | cons v vs ih =>
    refine .cons (fun q hq z taken taken' => ?_) ih
    have behind := le_depth_of_place hq
    exact Nat.not_lt.2 (Nat.le_trans behind taken'.1) taken.2

end Place

/-! ### Accepted stacks -/

/-- What was asked of the inputs and the output. -/
structure Accepted (l : DepthConcatenation) : Prop where
  given : l.inputs ≠ []
  type : ∀ v ∈ l.inputs, v.layout.dataType = l.output.layout.dataType
  width : ∀ v ∈ l.inputs, v.layout.shape.x ≤ l.output.layout.shape.x
  height : ∀ v ∈ l.inputs, v.layout.shape.y ≤ l.output.layout.shape.y
  batches : ∀ v ∈ l.inputs, v.layout.shape.upperSize 3 = l.output.layout.shape.upperSize 3
  depth : channels l.inputs = l.output.layout.shape.z
  fill : l.fill = l.inputs.any fun v => v.layout.shape.x ≠ l.output.layout.shape.x ||
    v.layout.shape.y ≠ l.output.layout.shape.y

theorem checkInput_eq_ok {output input : Layout} {u : Unit} : checkInput output input = .ok u ↔
    input.dataType = output.dataType ∧ input.shape.x ≤ output.shape.x ∧
      input.shape.y ≤ output.shape.y ∧ input.shape.upperSize 3 = output.shape.upperSize 3 := by
  simp only [checkInput, bind_eq_ok, checkSameType_eq_ok, reject_last_eq_ok, pure_eq_ok, not_or,
    Nat.not_lt, not_not, and_true, exists_const]

variable {inputs : List View} {output : View} {l : DepthConcatenation} {m : Memory}

theorem accepted_of_configure (h : configure inputs output = .ok l) :
    l.Accepted ∧ l.inputs = inputs ∧ l.output = output := by
  simp only [configure, reject_eq_ok, bind_eq_ok, forM_eq_ok, checkInput_eq_ok, pure_eq_ok] at h
  obtain ⟨given, -, each, all, rfl⟩ := h
  refine ⟨⟨fun he => given (List.isEmpty_iff.2 he), fun v hv => (each v hv).1,
    fun v hv => (each v hv).2.1, fun v hv => (each v hv).2.2.1,
    fun v hv => (each v hv).2.2.2, ?_, rfl⟩, rfl, rfl⟩
  rw [← depth_eq_channels]
  exact not_not.1 all

/-! ### A run -/

theorem takes_unique {p q : Placement} (hp : p ∈ l.placements) (hq : q ∈ l.placements) {z : Nat}
    (taken : p.Takes z) (taken' : q.Takes z) : p = q := by
  by_contra hne
  exact apart_place.forall hp hq hne z taken taken'

/-- The elements of all inputs, with where they go. -/
def pieces (l : DepthConcatenation) : List (Placement × Site) :=
  l.placements.flatMap fun p => p.input.layout.shape.sites.map fun s => (p, s)

def address (l : DepthConcatenation) (q : Placement × Site) : Nat :=
  l.output.layout.site (q.1.target q.2)

def word (q : Placement × Site) (m : Memory) : Nat := q.1.input.load m (q.1.input.layout.site q.2)

theorem mem_pieces {q : Placement × Site} :
    q ∈ l.pieces ↔ q.1 ∈ l.placements ∧ q.2 ∈ q.1.input.layout.shape.sites := by
  simp only [pieces, List.mem_flatMap, List.mem_map]
  constructor
  · rintro ⟨p, hp, s, hs, rfl⟩
    exact ⟨hp, hs⟩
  · rintro ⟨hp, hs⟩
    exact ⟨q.1, hp, q.2, hs, rfl⟩

theorem copies_eq_fill (l : DepthConcatenation) (m : Memory) :
    l.placements.foldl l.copy m = l.output.fill l.address word l.pieces m := by
  have each (p : Placement) (_ : p ∈ l.placements) (m : Memory) : l.copy m p =
      l.output.fill l.address word (p.input.layout.shape.sites.map fun s => (p, s)) m := by
    rw [View.fill_map]
    rfl
  exact runItems_eq_fill each m

theorem nodup_pieces (l : DepthConcatenation) : l.pieces.Nodup := by
  refine List.nodup_flatMap.2 ⟨fun p _ => ?_, apart_place.imp fun {p q} apart => ?_⟩
  · exact (Shape.nodup_sites _).map fun s s' he => (Prod.mk.inj he).2
  · intro x hx hx'
    obtain ⟨s, hs, rfl⟩ := List.mem_map.1 hx
    obtain ⟨s', -, he⟩ := List.mem_map.1 hx'
    obtain rfl : q = p := (Prod.mk.inj he).1
    exact apart _ (Placement.takes_target hs) (Placement.takes_target hs)

theorem mem_placements {p : Placement} : p ∈ l.placements ↔
    ∃ i v, l.inputs[i]? = some v ∧ placed l.inputs l.output.layout.shape i v = p := by
  simp only [placements, List.mem_iff_getElem?, getElem?_place, Option.map_eq_some_iff, Nat.zero_add]
  rfl

theorem input_mem {p : Placement} (hp : p ∈ l.placements) : p.input ∈ l.inputs := by
  obtain ⟨i, v, hv, rfl⟩ := mem_placements.1 hp
  exact List.mem_of_getElem? hv

theorem Accepted.target_mem (h : l.Accepted) {p : Placement}
    (hp : p ∈ l.placements) {s : Site} (hs : s ∈ p.input.layout.shape.sites) :
    p.target s ∈ l.output.layout.shape.sites := by
  obtain ⟨i, v, hv, rfl⟩ := mem_placements.1 hp
  obtain ⟨⟨hx, hy⟩, hz, hw⟩ := Shape.mem_sites.1 hs
  have mem : v ∈ l.inputs := List.mem_of_getElem? hv
  have width := h.width v mem
  have height := h.height v mem
  have deep := h.depth ▸ channels_take_add_le hv
  change s.x < v.layout.shape.x at hx
  change s.y < v.layout.shape.y at hy
  change s.z < v.layout.shape.z at hz
  refine Shape.mem_sites.2 ⟨⟨?_, ?_⟩, ?_, h.batches v mem ▸ hw⟩
  · show s.x + (l.output.layout.shape.x - v.layout.shape.x) / 2 < _
    omega
  · show s.y + (l.output.layout.shape.y - v.layout.shape.y) / 2 < _
    omega
  · show s.z + channels (l.inputs.take i) < _
    omega

theorem Accepted.exists_takes (h : l.Accepted) {t : Site}
    (ht : t ∈ l.output.layout.shape.sites) : ∃ p ∈ l.placements, p.Takes t.z := by
  refine DepthConcatenation.exists_takes (Nat.zero_le _) ?_
  rw [Nat.zero_add, h.depth]
  exact (Shape.mem_sites.1 ht).2.1

theorem separate_pieces (h : l.Accepted)
    (others : ∀ v ∈ l.inputs, v.buffer ≠ l.output.buffer) :
    View.Separate l.output l.address word (· ∈ l.pieces) where
  apart q q' hq hq' hne := by
    obtain ⟨hp, hs⟩ := mem_pieces.1 hq
    obtain ⟨hp', hs'⟩ := mem_pieces.1 hq'
    refine Layout.site_apart (h.target_mem hp hs) (h.target_mem hp' hs') fun he => hne ?_
    -- the channel tells the input, and the place in it the element
    have channel := congrArg Site.z he
    have same : q.1 = q'.1 := takes_unique hp hp' (Placement.takes_target hs)
      (channel ▸ Placement.takes_target hs')
    have site : some q.2 = some q'.2 := by
      rw [← Placement.source?_target hs, ← Placement.source?_target hs', he, same]
    exact Prod.ext same (Option.some.inj site)
  stable q q' hq _ _ m w :=
    View.load_store_buffer w (others _ (input_mem (mem_pieces.1 hq).1))

/-- Where an element of an input goes, it lies after the copies. -/
theorem load_copies (h : l.Accepted) (others : ∀ v ∈ l.inputs, v.buffer ≠ l.output.buffer)
    (fits : l.output.Fits m) {p : Placement} (hp : p ∈ l.placements) {s : Site}
    (hs : s ∈ p.input.layout.shape.sites) :
    l.output.load (l.placements.foldl l.copy m) (l.output.layout.site (p.target s)) =
      p.input.load m (p.input.layout.site s) := by
  have fit := View.site_fits fits (h.target_mem hp hs)
  have sizes : p.input.layout.elementSize = l.output.layout.elementSize :=
    congrArg DataType.elementSize (h.type _ (input_mem hp))
  rw [copies_eq_fill]
  refine ((separate_pieces h others).load_fill l.nodup_pieces (fun _ hq => hq)
    (mem_pieces.2 ⟨hp, hs⟩ : (p, s) ∈ l.pieces) fit).trans (Nat.mod_eq_of_lt ?_)
  rw [← sizes]
  exact Memory.load_lt ..

theorem byte_copies_other {b : BufferId} {j : Nat}
    (out : b = l.output.buffer → ∀ p ∈ l.placements, ∀ s ∈ p.input.layout.shape.sites,
      j < l.output.layout.site (p.target s) ∨
        l.output.layout.site (p.target s) + l.output.layout.elementSize ≤ j) :
    (l.placements.foldl l.copy m).byte b j = m.byte b j := by
  rw [copies_eq_fill]
  refine View.byte_fill_other fun hb q hq => ?_
  obtain ⟨hp, hs⟩ := mem_pieces.1 hq
  exact out hb q.1 hp q.2 hs

/-- A place in the border around an input keeps what it held before the copies. -/
theorem load_border (h : l.Accepted) {p : Placement} (hp : p ∈ l.placements) {t : Site}
    (ht : t ∈ l.output.layout.shape.sites) (taken : p.Takes t.z) (border : p.source? t = none) :
    l.output.load (l.placements.foldl l.copy m) (l.output.layout.site t) =
      l.output.load m (l.output.layout.site t) := by
  refine Memory.load_congr fun k hk => byte_copies_other fun _ q hq s hs => ?_
  have apart := Layout.site_apart (h.target_mem hq hs) ht fun he => by
    -- the only input there is `p`, and `p` has no element there
    obtain rfl := takes_unique hp hq taken (he ▸ Placement.takes_target hs)
    rw [← he, Placement.source?_target hs] at border
    cases border
  change k < l.output.layout.elementSize at hk
  unfold Layout.Apart at apart
  omega

/-- Without a border there is nothing to clear. -/
theorem Accepted.fill_of_border (h : l.Accepted) {p : Placement} (hp : p ∈ l.placements) {t : Site}
    (ht : t ∈ l.output.layout.shape.sites) (border : p.source? t = none) : l.fill = true := by
  obtain ⟨i, v, hv, rfl⟩ := mem_placements.1 hp
  obtain ⟨⟨hx, hy⟩, -⟩ := Shape.mem_sites.1 ht
  rw [h.fill, List.any_eq_true]
  refine ⟨v, List.mem_of_getElem? hv, ?_⟩
  by_contra full
  simp only [Bool.or_eq_true, decide_eq_true_eq, not_or, not_not] at full
  obtain ⟨width, height⟩ := full
  unfold Placement.source? placed at border
  simp only [width, height, Nat.sub_self, Nat.zero_div, Nat.zero_le, Nat.sub_zero, hx, hy, and_self,
    if_true] at border
  cases border

/-- Memory before the copies. -/
def cleared (l : DepthConcatenation) (m : Memory) : Memory :=
  if l.fill then
    l.output.fill l.output.layout.site (fun _ _ => 0) l.output.layout.shape.sites m
  else m

theorem byte_cleared_other {b : BufferId} {j : Nat}
    (out : b = l.output.buffer → ∀ t ∈ l.output.layout.shape.sites,
      j < l.output.layout.site t ∨ l.output.layout.site t + l.output.layout.elementSize ≤ j) :
    (l.cleared m).byte b j = m.byte b j := by
  unfold cleared
  split
  · exact View.byte_fill_other out
  · rfl

theorem fits_cleared (fits : l.output.Fits m) : l.output.Fits (l.cleared m) := by
  unfold cleared
  split
  · exact fits.of_size (View.size_fill ..)
  · exact fits

theorem load_cleared (hf : l.fill = true) (fits : l.output.Fits m) {t : Site}
    (ht : t ∈ l.output.layout.shape.sites) :
    l.output.load (l.cleared m) (l.output.layout.site t) = 0 := by
  have separate : View.Separate l.output l.output.layout.site (fun _ _ => 0)
      (· ∈ l.output.layout.shape.sites) := View.separate_sites fun _ _ _ _ _ _ _ => rfl
  rw [cleared, if_pos hf]
  exact (separate.load_fill (Shape.nodup_sites _) (fun _ hs => hs) ht
    (View.site_fits fits ht)).trans (Nat.zero_mod _)

/-- An element of the output is the element of its input that lies there, or zero. -/
theorem load_run (h : l.Accepted) (others : ∀ v ∈ l.inputs, v.buffer ≠ l.output.buffer)
    (fits : l.output.Fits m) {p : Placement} (hp : p ∈ l.placements) {t : Site}
    (ht : t ∈ l.output.layout.shape.sites) (taken : p.Takes t.z) :
    l.output.load (l.run m) (l.output.layout.site t) =
      (p.source? t).elim 0 fun s => p.input.load m (p.input.layout.site s) := by
  change l.output.load (l.placements.foldl l.copy (l.cleared m)) _ = _
  cases source : p.source? t with
  | none =>
    rw [load_border h hp ht taken source]
    exact load_cleared (h.fill_of_border hp ht source) fits ht
  | some s =>
    have batch : t.w < p.input.layout.shape.upperSize 3 := by
      rw [h.batches _ (input_mem hp)]
      exact (Shape.mem_sites.1 ht).2.2
    obtain rfl := Placement.target_source? taken source
    rw [load_copies h others (fits_cleared fits) hp (Placement.source?_inside taken batch source)]
    exact View.load_congr (fun j => byte_cleared_other fun he =>
      absurd he (others _ (input_mem hp))) _

/-- Bytes that belong to no element of the output stay, those of its border included. -/
theorem Accepted.byte_run_other (h : l.Accepted) {b : BufferId} {j : Nat}
    (out : b = l.output.buffer → ∀ t ∈ l.output.layout.shape.sites,
      j < l.output.layout.site t ∨ l.output.layout.site t + l.output.layout.elementSize ≤ j) :
    (l.run m).byte b j = m.byte b j :=
  (byte_copies_other (m := l.cleared m) fun hb _ hp _ hs => out hb _ (h.target_mem hp hs)).trans
    (byte_cleared_other out)

/-- The number of an input is known from any of its channels. -/
theorem index_unique {out : Shape} {i j : Nat} {u v : View} {z : Nat} (hu : inputs[i]? = some u)
    (hv : inputs[j]? = some v) (taken : (placed inputs out i u).Takes z)
    (taken' : (placed inputs out j v).Takes z) : i = j := by
  have stacked : (place out 0 inputs).Pairwise Placement.Apart := apart_place
  have apart := List.pairwise_iff_getElem.1 stacked
  have number {i : Nat} {u : View} (hu : inputs[i]? = some u) :
      ∃ _ : i < (place out 0 inputs).length, (place out 0 inputs)[i] = placed inputs out i u := by
    rw [← List.getElem?_eq_some_iff, getElem?_place, hu, Option.map_some, Nat.zero_add]
    rfl
  obtain ⟨hi, eu⟩ := number hu
  obtain ⟨hj, ev⟩ := number hv
  rw [← eu] at taken
  rw [← ev] at taken'
  rcases Nat.lt_trichotomy i j with hlt | he | hlt
  · exact absurd taken' (apart i j hi hj hlt z taken)
  · exact he
  · exact absurd taken (apart j i hj hi hlt z taken')

/-- Accepted inputs in other buffers than the output share out its channels. An element of the
output holds the very word of the element that lies there when its input is centred in the planes,
rounding towards the first row and column, and zero in the border around a smaller input, whatever
it held before. Each element of each input lies at exactly one place, and no other byte changes. -/
theorem run_stacked (hl : configure inputs output = .ok l)
    (others : ∀ v ∈ inputs, v.buffer ≠ output.buffer) (fits : output.Fits m) :
    let sites := output.layout.shape.sites
    let placed := placed inputs output.layout.shape
    (∀ t ∈ sites, ∃! i, ∃ v, inputs[i]? = some v ∧ (placed i v).Takes t.z) ∧
    (∀ t ∈ sites, ∀ i v, inputs[i]? = some v → (placed i v).Takes t.z →
      output.load (l.run m) (output.layout.site t) =
        ((placed i v).source? t).elim 0 fun s => v.load m (v.layout.site s)) ∧
    (∀ i v, inputs[i]? = some v → ∀ s ∈ v.layout.shape.sites,
      ∃! t, t ∈ sites ∧ (placed i v).Takes t.z ∧ (placed i v).source? t = some s) ∧
    ∀ b j, (b = output.buffer → ∀ t ∈ sites, j < output.layout.site t ∨
        output.layout.site t + output.layout.elementSize ≤ j) →
      (l.run m).byte b j = m.byte b j := by
  intro sites placed
  obtain ⟨h, rfl, rfl⟩ := accepted_of_configure hl
  have mem {i : Nat} {v : View} (hv : l.inputs[i]? = some v) : placed i v ∈ l.placements :=
    mem_placements.2 ⟨i, v, hv, rfl⟩
  refine ⟨?_, ?_, ?_, fun b j => h.byte_run_other⟩
  · intro t ht
    obtain ⟨p, hp, taken⟩ := h.exists_takes ht
    obtain ⟨i, v, hv, rfl⟩ := mem_placements.1 hp
    refine ⟨i, ⟨v, hv, taken⟩, ?_⟩
    rintro j ⟨u, hu, taken'⟩
    exact index_unique hu hv taken' taken
  · intro t ht i v hv taken
    exact load_run h others fits (mem hv) ht taken
  · intro i v hv s hs
    refine ⟨(placed i v).target s, ⟨h.target_mem (mem hv) hs, Placement.takes_target hs,
      Placement.source?_target hs⟩, ?_⟩
    rintro t ⟨-, taken, source⟩
    exact (Placement.target_source? taken source).symm

/-- Behind an input that fills its planes, a single element in planes of three by two with a border
of padding: it goes to the middle of the first row, the rest of its plane is zero and the padding
stays. -/
theorem run_stacked_small :
    let whole : View := ⟨0, .packed (.ofList [3, 2]) (.qs8 3)⟩
    let single : View := ⟨1, .packed (.ofList [1]) (.qs8 3)⟩
    let output : View := ⟨2, .ofList [3, 2, 2], .qs8 3, .uniform 1⟩
    let m : Memory := ⟨#[#[1, 2, 3, 4, 5, 6], #[7], .replicate 40 9]⟩
    ∃ l, configure [whole, single] output = .ok l ∧
      output.load (l.run m) (output.layout.site ⟨2, 1, 0, 0⟩) = 6 ∧
      output.load (l.run m) (output.layout.site ⟨1, 0, 1, 0⟩) = 7 ∧
      output.load (l.run m) (output.layout.site ⟨1, 1, 1, 0⟩) = 0 ∧
      (l.run m).byte 2 0 = 9 := by
  intro whole single output m
  have hl : configure [whole, single] output = .ok ⟨[whole, single], output, true⟩ := by decide
  obtain ⟨-, stacked, -, rest⟩ := run_stacked hl (m := m) (by decide) (by decide)
  refine ⟨_, hl, ?_, ?_, ?_, ?_⟩
  · exact (stacked ⟨2, 1, 0, 0⟩ (by decide) 0 whole rfl ⟨by decide, by decide⟩).trans (by decide)
  · exact (stacked ⟨1, 0, 1, 0⟩ (by decide) 1 single rfl ⟨by decide, by decide⟩).trans (by decide)
  · exact (stacked ⟨1, 1, 1, 0⟩ (by decide) 1 single rfl ⟨by decide, by decide⟩).trans (by decide)
  · exact (rest 2 0 fun _ => by decide).trans (by decide)

end DepthConcatenation
end TileCompute
