import TileCompute.Proofs.ActivationNode
import TileCompute.Proofs.SoftmaxRows

/-!
# TileCompute.Proofs.InPlace

Layers that write over what they read. A layer reads an element before the only store to it and
never one that another work-item may have stored, so working in place leaves the words that it would
leave in an output of its own. This holds for the work-items of each launch in any order
(`Layer.Runs`).

* `BatchNormalization.runSite_eq`, `Operands.runSite_eq`: work-items that combine the operands' words
  at one element.
* `InPlace.words_eq`: the words that both leave.
-/

namespace TileCompute

/-! ### Layers that work on one element at a time -/

namespace View

theorem values_congr {v : View} {m m' : Memory} (h : v.words m = v.words m') :
    v.values m = v.values m' := by
  have decoded (m : Memory) : v.values m = (v.words m).map v.layout.dataType.decode := by
    rw [values, words, List.map_map]
    rfl
  rw [decoded, decoded, h]

end View

namespace Operands

variable {o : Operands} {combine : Nat → Nat → Nat}

/-- The words of both operands, put together. -/
def onWords (combine : Nat → Nat → Nat) (_ : Site) (words : List Nat) : Nat :=
  combine (words.getD 0 0) (words.getD 1 0)

theorem runSite_eq (o : Operands) (combine : Nat → Nat → Nat) :
    o.runSite combine = o.output.combineSite [o.a, o.b] (onWords combine) := rfl

theorem check_eq_ok {u : Unit} : o.check = .ok u ↔ o.a.layout.dataType ≠ .s32 ∧
    (o.a.layout.dataType = o.b.layout.dataType ∧
      o.a.layout.dataType = o.output.layout.dataType) ∧
    o.a.layout.shape = o.b.layout.shape ∧ o.a.layout.shape = o.output.layout.shape := by
  simp only [check, reject_eq_ok, bind_eq_ok, checkSameType_eq_ok, checkSameShape_eq_ok,
    exists_const, and_assoc, ne_eq]

end Operands

theorem DataType.combine_lt (t : DataType) (onFixed : Fixed → Fixed → Fixed)
    (onValues : Binary32 → Binary32 → Binary32) (a b : Nat) :
    t.combine onFixed onValues a b < 256 ^ t.elementSize := by
  cases t with
  | qs8 => exact Element.toWord_lt (α := Q8) _
  | qs16 => exact Element.toWord_lt (α := Q16) _
  | f32 => exact encode_lt .f32 _
  | f16 => exact encode_lt .f16 _
  | s32 => exact encode_lt .s32 _

namespace BatchNormalization

variable {l : BatchNormalization} {m m' : Memory}

/-- The normalized word at a site. -/
def onWords (l : BatchNormalization) (maps : Array ChannelMap) (s : Site) (words : List Nat) :
    Nat :=
  let map := maps.getD s.z default
  let value := l.input.layout.dataType.decode (words.getD 0 0) * map.scale + map.shift
  l.input.layout.dataType.encode (l.activation.elim value fun f => f.apply value)

theorem runSite_eq (type : l.input.layout.dataType = l.output.layout.dataType)
    (maps : Array ChannelMap) :
    l.runSite maps = l.output.combineSite [l.input] (l.onWords maps) := by
  funext s m
  simp only [runSite, View.storeValue, ← type, View.combineSite, onWords]
  cases l.activation <;> rfl

theorem channelMaps_congr (h : ∀ p ∈ l.parameters, p.words m = p.words m') :
    l.channelMaps m = l.channelMaps m' := by
  have values (p : Option View) (missing : Binary32) (hp : ∀ v ∈ p, v ∈ l.parameters) :
      l.parameterValues p missing m = l.parameterValues p missing m' := by
    cases p with
    | none => rfl
    | some p => exact congrArg List.toArray (View.values_congr (h p (hp p rfl)))
  unfold channelMaps
  rw [values l.mean _ (by simp [parameters]), values l.variance _ (by simp [parameters]),
    values l.beta _ (by simp +contextual [parameters]),
    values l.gamma _ (by simp +contextual [parameters])]

theorem check_eq_ok {u : Unit} : l.check = .ok u ↔ l.input.layout.dataType.isFloatingPoint ∧
    l.input.layout.dataType = l.output.layout.dataType ∧
    l.input.layout.shape = l.output.layout.shape ∧
    ∀ p ∈ l.parameters, checkParameter l.input.layout p.layout = .ok () := by
  simp only [check, bind_eq_ok, checkFloat_eq_ok, checkSameType_eq_ok, checkSameShape_eq_ok,
    forM_eq_ok, exists_const]

end BatchNormalization

/-! ### Runs in any order -/

/-- Runs with the work-items of each launch in some order. -/
inductive Layer.Runs : Layer → Device → Device → Prop
  | activation {l : ActivationLayer} {d : Device} {order : List Site}
      (perm : order.Perm l.input.layout.shape.sites) :
      Runs (.activation l) d (d.onMemory (runItems order l.runSite))
  | addition {l : AdditionLayer} {d : Device} {order : List Site}
      (perm : order.Perm l.operands.a.layout.shape.sites) :
      Runs (.addition l) d (d.onMemory (runItems order (l.operands.runSite l.combine)))
  | batchNormalization {l : BatchNormalization} {d : Device} {order : List Site}
      (perm : order.Perm l.input.layout.shape.sites) :
      Runs (.batchNormalization l) d
        (d.onMemory fun m => runItems order (l.runSite (l.channelMaps m)) m)
  | multiplication {l : MultiplicationLayer} {d : Device} {order : List Site}
      (perm : order.Perm l.operands.a.layout.shape.sites) :
      Runs (.multiplication l) d (d.onMemory (runItems order (l.operands.runSite l.combine)))
  | softmax {l : Softmax} {d : Device} (orders : l.Orders) :
      Runs (.softmax l) d (l.runOrdered orders d)

/-- A layer that writes over the tensor `t`, on the device `d`, and the same layer with an output
`out` of its own, on `d'`. A sum or product may have `t` as its first operand, as its second one or
as both, and nothing else in its buffer. -/
inductive InPlace (t out : View) (d d' : Device) : Layer → Layer → Prop
  | activation {f : Activation} {l l' : ActivationLayer}
      (inside : ActivationLayer.configure t none f = .ok l)
      (apart : ActivationLayer.configure t (some out) f = .ok l') :
      InPlace t out d d' (.activation l) (.activation l')
  | addition {a b : View} {overflow : Overflow} {l l' : AdditionLayer}
      (operand : t = a ∨ t = b) (shared : ∀ v ∈ [a, b], t.buffer = v.buffer → v = t)
      (inside : AdditionLayer.configure a b t overflow = .ok l)
      (apart : AdditionLayer.configure a b out overflow = .ok l') :
      InPlace t out d d' (.addition l) (.addition l')
  | batchNormalization {mean variance : View} {beta gamma : Option View} {epsilon : Binary32}
      {f : Option Activation} {l l' : BatchNormalization}
      (inside : BatchNormalization.configure t t mean variance beta gamma epsilon f = .ok l)
      (apart : BatchNormalization.configure t out mean variance beta gamma epsilon f = .ok l') :
      InPlace t out d d' (.batchNormalization l) (.batchNormalization l')
  | multiplication {a b : View} {scale : Binary32} {l l' : MultiplicationLayer}
      (operand : t = a ∨ t = b) (shared : ∀ v ∈ [a, b], t.buffer = v.buffer → v = t)
      (inside : MultiplicationLayer.configure a b t scale = .ok l)
      (apart : MultiplicationLayer.configure a b out scale = .ok l') :
      InPlace t out d d' (.multiplication l) (.multiplication l')
  | softmax {beta : Binary32} {d₀ d₀' : Device} {m m' : Memory} {l l' : Softmax}
      (inside : Softmax.Deployed t t beta d₀ l m) (later : l.Reaches ⟨m, d₀.pool⟩ d)
      (apart : Softmax.Deployed t out beta d₀' l' m') (later' : l'.Reaches ⟨m', d₀'.pool⟩ d') :
      InPlace t out d d' (.softmax l) (.softmax l')

namespace InPlace

variable {t out : View} {d d' e e' : Device} {l l' : Layer} {order order' : List Site}
  {m m' : Memory}

theorem exists_run (h : InPlace t out d d' l l') :
    (∃ e, l.run d = .ok (l, e) ∧ l.Runs d e) ∧ ∃ e', l'.run d' = .ok (l', e') ∧ l'.Runs d' e' := by
  cases h with
  | activation => exact ⟨⟨_, rfl, .activation (.refl _)⟩, _, rfl, .activation (.refl _)⟩
  | addition => exact ⟨⟨_, rfl, .addition (.refl _)⟩, _, rfl, .addition (.refl _)⟩
  | batchNormalization =>
    exact ⟨⟨_, rfl, .batchNormalization (.refl _)⟩, _, rfl, .batchNormalization (.refl _)⟩
  | multiplication =>
    exact ⟨⟨_, rfl, .multiplication (.refl _)⟩, _, rfl, .multiplication (.refl _)⟩
  | softmax => exact ⟨⟨_, rfl, .softmax (.numbered _)⟩, _, rfl, .softmax (.numbered _)⟩

end InPlace

/-! ### The words they leave -/

section Words

variable {t out : View} {m m' : Memory} {order order' : List Site}

/-- Words put together at one element after the other, over an operand or in another buffer. -/
theorem View.words_inPlace {operands : List View} {combine : Site → List Nat → Nat}
    (shape : ∀ u ∈ operands, u.layout.shape = t.layout.shape)
    (shared : ∀ u ∈ operands, t.buffer = u.buffer → u = t)
    (own : ∀ u ∈ operands, u.buffer ≠ out.buffer)
    (bounded : ∀ s words, combine s words < 256 ^ t.layout.elementSize)
    (outType : t.layout.dataType = out.layout.dataType)
    (outShape : t.layout.shape = out.layout.shape) (fits : t.Fits m) (fits' : out.Fits m')
    (perm : order.Perm t.layout.shape.sites) (perm' : order'.Perm t.layout.shape.sites)
    (same : ∀ u ∈ operands, u.words m = u.words m') :
    t.words (runItems order (t.combineSite operands combine) m) =
      out.words (runItems order' (out.combineSite operands combine) m') := by
  have size : t.layout.elementSize = out.layout.elementSize :=
    congrArg DataType.elementSize outType
  have inside : t.Combines operands combine := .of_shared shape shared bounded
  have apart : out.Combines operands combine :=
    .of_shared (fun u hu => (shape u hu).trans outShape)
      (fun u hu he => absurd he.symm (own u hu)) (size ▸ bounded)
  exact View.words_combined_congr inside apart outShape.symm fits fits' perm perm' same

theorem ActivationLayer.words_inPlace {f : Activation} {l l' : ActivationLayer}
    (inside : configure t none f = .ok l) (apart : configure t (some out) f = .ok l')
    (own : t.buffer ≠ out.buffer) (fits : t.Fits m) (fits' : out.Fits m')
    (same : t.words m = t.words m') (perm : order.Perm l.input.layout.shape.sites)
    (perm' : order'.Perm l'.input.layout.shape.sites) :
    t.words (runItems order l.runSite m) = out.words (runItems order' l'.runSite m') := by
  obtain ⟨-, rfl⟩ := configure_eq_ok.1 inside
  obtain ⟨⟨-, agree⟩, rfl⟩ := configure_eq_ok.1 apart
  obtain ⟨type, shape⟩ := agree out rfl
  rw [runSite_eq (l := ⟨t, none, f⟩) rfl, runSite_eq (l := ⟨t, some out, f⟩) type]
  exact View.words_inPlace (by simp) (by simp) (by simpa using own)
    (fun _ _ => t.layout.dataType.encode_lt _) type shape fits fits' perm perm'
    (by simpa using same)

theorem Operands.words_inPlace {a b : View} {combine : Nat → Nat → Nat}
    (inside : (Operands.mk a b t).check = .ok ()) (apart : (Operands.mk a b out).check = .ok ())
    (shared : ∀ v ∈ [a, b], t.buffer = v.buffer → v = t)
    (own : ∀ v ∈ [a, b], v.buffer ≠ out.buffer)
    (bounded : ∀ x y, combine x y < 256 ^ a.layout.elementSize) (fits : t.Fits m)
    (fits' : out.Fits m') (same : ∀ v ∈ [a, b], v.words m = v.words m')
    (perm : order.Perm a.layout.shape.sites) (perm' : order'.Perm a.layout.shape.sites) :
    t.words (runItems order ((Operands.mk a b t).runSite combine) m) =
      out.words (runItems order' ((Operands.mk a b out).runSite combine) m') := by
  obtain ⟨-, ⟨-, type⟩, first, shape⟩ := check_eq_ok.1 inside
  obtain ⟨-, ⟨-, outType⟩, -, outShape⟩ := check_eq_ok.1 apart
  have size : a.layout.elementSize = t.layout.elementSize := congrArg DataType.elementSize type
  have shapes : ∀ u ∈ [a, b], u.layout.shape = t.layout.shape := by
    simpa using ⟨shape, first.symm.trans shape⟩
  rw [runSite_eq, runSite_eq]
  exact View.words_inPlace shapes shared own (fun _ _ => size ▸ bounded ..)
    (type.symm.trans outType) (shape.symm.trans outShape) fits fits' (shape ▸ perm)
    (shape ▸ perm') same

theorem BatchNormalization.words_inPlace {mean variance : View} {beta gamma : Option View}
    {epsilon : Binary32} {f : Option Activation} {l l' : BatchNormalization}
    (inside : configure t t mean variance beta gamma epsilon f = .ok l)
    (apart : configure t out mean variance beta gamma epsilon f = .ok l')
    (own : t.buffer ≠ out.buffer) (fits : t.Fits m) (fits' : out.Fits m')
    (same : t.words m = t.words m') (parameters : ∀ p ∈ l.parameters, p.words m = p.words m')
    (perm : order.Perm l.input.layout.shape.sites)
    (perm' : order'.Perm l'.input.layout.shape.sites) :
    t.words (runItems order (l.runSite (l.channelMaps m)) m) =
      out.words (runItems order' (l'.runSite (l'.channelMaps m')) m') := by
  obtain ⟨_, accepted, made⟩ := bind_eq_ok.1 apart
  obtain ⟨-, type, shape, -⟩ := check_eq_ok.1 accepted
  obtain rfl := eq_of_configure inside
  obtain rfl := eq_of_configure apart
  have maps := channelMaps_congr parameters
  rw [runSite_eq rfl, runSite_eq type, maps]
  exact View.words_inPlace (by simp) (by simp) (by simpa using own)
    (fun _ _ => t.layout.dataType.encode_lt _) type shape fits fits' perm perm'
    (by simpa using same)

end Words

theorem Softmax.words_inPlace {t out : View} {beta : Binary32} {d₀ d₀' d d' : Device}
    {m m' : Memory} {l l' : Softmax} (inside : Deployed t t beta d₀ l m)
    (later : l.Reaches ⟨m, d₀.pool⟩ d) (apart : Deployed t out beta d₀' l' m')
    (later' : l'.Reaches ⟨m', d₀'.pool⟩ d') (same : t.words d.memory = t.words d'.memory)
    (orders : l.Orders) (orders' : l'.Orders) :
    t.words (l.runOrdered orders d).memory = out.words (l'.runOrdered orders' d').memory := by
  have runnable := inside.runnable later
  have runnable' := apart.runnable later'
  obtain ⟨input, output, rfl⟩ := inside.operands_eq
  obtain ⟨input', output', beta⟩ := apart.operands_eq
  have shape : out.layout.shape = t.layout.shape := by
    rw [← output', ← runnable'.shape, input']
  refine words_eq_of_rows shape fun row hrow => ?_
  have before : rowOf t d.memory row = rowOf t d'.memory row := by
    rw [← matrixAt_words hrow, ← matrixAt_words hrow, same]
  have inside : row < l.rows := by rwa [rows, input]
  have inside' : row < l'.rows := by rwa [rows, input']
  have left := runnable.rowOf_runOrdered orders inside
  have right := runnable'.rowOf_runOrdered orders' inside'
  rw [output, input] at left
  rw [output', input', beta] at right
  rw [left, right, before]

theorem AdditionLayer.checked {a b output : View} {overflow : Overflow} {l : AdditionLayer}
    (h : configure a b output overflow = .ok l) : (Operands.mk a b output).check = .ok () := by
  obtain ⟨_, checked, -⟩ := bind_eq_ok.1 h
  exact checked

theorem MultiplicationLayer.checked {a b output : View} {scale : Binary32}
    {l : MultiplicationLayer} (h : configure a b output scale = .ok l) :
    (Operands.mk a b output).check = .ok () := by
  obtain ⟨_, checked, -⟩ := bind_eq_ok.1 h
  exact checked

namespace InPlace

variable {t out : View} {d d' e e' : Device} {l l' : Layer}

theorem words_eq (h : InPlace t out d d' l l') (own : ∀ v ∈ l.operands, v.buffer ≠ out.buffer)
    (fits : t.Fits d.memory) (fits' : out.Fits d'.memory)
    (same : ∀ v ∈ l.operands, v.words d.memory = v.words d'.memory) (run : l.Runs d e)
    (run' : l'.Runs d' e') : t.words e.memory = out.words e'.memory := by
  cases h with
  | activation inside apart =>
    obtain ⟨-, rfl⟩ := ActivationLayer.configure_eq_ok.1 inside
    cases run with
    | activation perm =>
    cases run' with
    | activation perm' =>
    exact ActivationLayer.words_inPlace inside apart (own t (by simp [Layer.operands])) fits fits'
      (same t (by simp [Layer.operands])) perm perm'
  | @addition a b _ _ _ _ shared inside apart =>
    obtain rfl := AdditionLayer.eq_of_configure inside
    obtain rfl := AdditionLayer.eq_of_configure apart
    have read : ∀ v ∈ [a, b], v ∈ [a, b, t] := by simp +contextual
    cases run with
    | addition perm =>
    cases run' with
    | addition perm' =>
    exact Operands.words_inPlace (AdditionLayer.checked inside) (AdditionLayer.checked apart) shared
      (fun v hv => own v (read v hv)) (a.layout.dataType.combine_lt _ _) fits fits'
      (fun v hv => same v (read v hv)) perm perm'
  | batchNormalization inside apart =>
    obtain rfl := BatchNormalization.eq_of_configure inside
    cases run with
    | batchNormalization perm =>
    cases run' with
    | batchNormalization perm' =>
    exact BatchNormalization.words_inPlace inside apart (own t (by simp [Layer.operands])) fits
      fits' (same t (by simp [Layer.operands])) (fun p hp => same p (by simp [Layer.operands, hp]))
      perm perm'
  | @multiplication a b _ _ _ _ shared inside apart =>
    obtain rfl := MultiplicationLayer.eq_of_configure inside
    obtain rfl := MultiplicationLayer.eq_of_configure apart
    have read : ∀ v ∈ [a, b], v ∈ [a, b, t] := by simp +contextual
    cases run with
    | multiplication perm =>
    cases run' with
    | multiplication perm' =>
    exact Operands.words_inPlace (MultiplicationLayer.checked inside)
      (MultiplicationLayer.checked apart) shared (fun v hv => own v (read v hv))
      (a.layout.dataType.combine_lt _ _) fits fits' (fun v hv => same v (read v hv)) perm perm'
  | softmax inside later apart later' =>
    obtain ⟨input, -, -⟩ := inside.operands_eq
    cases run with
    | softmax orders =>
    cases run' with
    | softmax orders' =>
    exact Softmax.words_inPlace inside later apart later'
      (same t (by simp [Layer.operands, Softmax.operands, input])) orders orders'

end InPlace

/-- A layer that writes over a tensor leaves in it the words that it stores into an output of its
own, with any border, when it starts from the same operands. Both always run, and the work-items of
each launch may run in any order. -/
theorem inPlace_stored {t out : View} {d d' : Device} {l l' : Layer}
    (h : InPlace t out d d' l l') (own : ∀ v ∈ l.operands, v.buffer ≠ out.buffer)
    (fits : t.Fits d.memory) (fits' : out.Fits d'.memory)
    (same : ∀ v ∈ l.operands, v.words d.memory = v.words d'.memory) :
    ((∃ e, l.run d = .ok (l, e) ∧ l.Runs d e) ∧ ∃ e', l'.run d' = .ok (l', e') ∧ l'.Runs d' e') ∧
      ∀ {e e'}, l.Runs d e → l'.Runs d' e' → t.words e.memory = out.words e'.memory :=
  ⟨h.exists_run, fun run run' => h.words_eq own fits fits' same run run'⟩

/-- A sum over its first operand, the last element first, and in an output behind a border. -/
theorem inPlace_stored_reversed :
    let t : View := ⟨0, .packed (.ofList [2]) (.qs8 0)⟩
    let b : View := ⟨1, .packed (.ofList [2]) (.qs8 0)⟩
    let out : View := ⟨2, .ofList [2], .qs8 0, ⟨0, 0, 0, 1⟩⟩
    let d : Device := .ofMemory ⟨#[#[1, 250], #[2, 5], .replicate 3 0]⟩
    let l : AdditionLayer := ⟨⟨t, b, t⟩, .saturate⟩
    let e := d.onMemory (runItems t.layout.shape.sites.reverse (l.operands.runSite l.combine))
    ∃ l' e', InPlace t out d d (.addition l) l' ∧ l'.run d = .ok (l', e') ∧
      t.words e.memory = out.words e'.memory ∧ t.words e.memory = [3, 255] := by
  intro t b out d l e
  have inside : AdditionLayer.configure t b t .saturate = .ok l := by decide
  have apart : AdditionLayer.configure t b out .saturate = .ok ⟨⟨t, b, out⟩, .saturate⟩ := by
    decide
  have pair : InPlace t out d d (.addition l) (.addition ⟨⟨t, b, out⟩, .saturate⟩) :=
    .addition (b := b) (.inl rfl) (by decide) inside apart
  obtain ⟨⟨-, e', run', runs'⟩, left⟩ :=
    inPlace_stored pair (by decide) (by decide) (by decide) fun _ _ => rfl
  have runs : Layer.Runs (.addition l) d e := .addition (List.reverse_perm _)
  exact ⟨_, e', pair, run', left runs runs', by decide +kernel⟩

end TileCompute
