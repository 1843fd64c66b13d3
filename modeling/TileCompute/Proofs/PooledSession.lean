import TileCompute.Graph.Session
import TileCompute.Proofs.Counterpart

/-!
# TileCompute.Proofs.PooledSession

Sessions with a pool and without. All layers of a session are alike those of the other
(`Session.Alike`), and every step leaves it so: a layer that is created adds its lasting tensors to
the pairing, a run reads no scratch tensor that it has not written. What comes of a step, and what
is in the users' tensors after it, therefore does not show whether scratch tensors are pooled.

* `Session.Alike.step`: one step on both sides.
* `Session.Alike.runs`: any number of steps, the pool's blocks being replaced in between.
* `Session.pool_unseen`: what can be seen of a session.
-/

namespace TileCompute

/-! ### Pairings of the users' buffers -/

namespace Pairing

variable {R : Pairing} {m m' : Memory} {n : Nat}

/-- Buffers of the one memory that stand for a buffer of the other. -/
def Left (R : Pairing) (b : BufferId) : Prop := ∃ b' i, R.room b b' i

def Right (R : Pairing) (b' : BufferId) : Prop := ∃ b i, R.room b b' i

theorem within (R : Pairing) : R.Within R.Left R.Right :=
  fun hr => ⟨⟨_, _, hr⟩, ⟨_, _, hr⟩⟩

/-- The first `n` buffers stand for themselves, whole. -/
def first (n : Nat) : Pairing where
  room b b' _ := b = b' ∧ b < n
  known b b' _ := b = b' ∧ b < n
  aligned h := h
  unique := by
    rintro b _ i c _ j ⟨rfl, -⟩ ⟨rfl, -⟩
    exact Iff.rfl

theorem twin_first (n : Nat) (m : Memory) : (first n).Twin m m :=
  ⟨fun h => h.1 ▸ Iff.rfl, fun h => h.1 ▸ rfl⟩

theorem Whole.bytes {b b' : BufferId} (h : R.Whole b b') (hm : R.Twin m m') :
    m.bytes b = m'.bytes b' := by
  refine Memory.bytes_congr ?_ fun i => hm.byte (h i)
  have reach (i : Nat) : i < m.size b ↔ i < m'.size b' := hm.room (R.aligned (h i))
  exact Nat.le_antisymm (Nat.not_lt.1 fun hlt => Nat.lt_irrefl _ ((reach _).1 hlt))
    (Nat.not_lt.1 fun hlt => Nat.lt_irrefl _ ((reach _).2 hlt))

theorem respects_storeValues {v : View} (hv : R.Whole v.buffer v.buffer) (values : List Binary32) :
    R.Respects (fun m => v.storeValues m values) fun m => v.storeValues m values := by
  let store (p : Coord × Binary32) (m : Memory) := v.storeValue m (v.layout.offset p.1) p.2
  have each : ∀ p ∈ v.layout.shape.coords.zip values, R.Respects (store p) (store p) :=
    fun p _ => .storeValue hv v.layout (v.layout.offset p.1) fun _ => rfl
  exact .runItems each

theorem Twin.restocked {d d' e e' : Device} {gs gs' : List ScratchGroup}
    (h : R.Twin d.memory d'.memory) (hd : d.Stocks R.Left gs) (hd' : d'.Stocks R.Right gs')
    (he : d.Restocked e) (he' : d'.Restocked e') : R.Twin e.memory e'.memory := by
  have kept {d : Device} {busy : BufferId → Prop} {gs : List ScratchGroup} (hd : d.Stocks busy gs)
      {b : BufferId} (hb : busy b) :
      b < d.memory.buffers.size ∧ b ∉ d.pool.free.map Block.buffer := by
    refine ⟨hd.present b hb, fun hfree => ?_⟩
    obtain ⟨x, hx, rfl⟩ := List.mem_map.1 hfree
    exact hd.idle x (List.mem_append_left _ hx) hb
  constructor
  · intro b b' i hr
    rw [he.grows.size b (kept hd ⟨_, _, hr⟩).1, he'.grows.size b' (kept hd' ⟨_, _, hr⟩).1]
    exact h.room hr
  · intro b b' i hk
    have left := kept hd ⟨_, _, R.aligned hk⟩
    have right := kept hd' ⟨_, _, R.aligned hk⟩
    rw [he.byte b left.1 left.2, he'.byte b' right.1 right.2]
    exact h.byte hk

end Pairing

/-! ### Sessions side by side -/

/-- What comes of a step, apart from the layer itself. -/
inductive Report where
  /-- The layer's name, or none for a node that computes nothing, with what was said. -/
  | configured (layer : Option String) (log : List String)
  | done
  | absent
deriving DecidableEq, Repr

def StepResult.report : StepResult → Report
  | configured layer log => .configured (layer.map Layer.name) log
  | done => .done
  | absent => .absent

/-- A step that names tensors among the first `n` buffers only. -/
def Step.OnUser (n : Nat) : Step → Prop
  | .create k => k.OnUser n
  | .gemm a b c output _ _ _ _ => ∀ v ∈ [a, b, output] ++ c.toList, v.buffer < n
  | .multiply a b output _ => ∀ v ∈ [a, b, output], v.buffer < n
  | .prepare _ | .run _ => True
  | .write tensor _ => tensor.buffer < n

instance (n : Nat) (st : Step) : Decidable (st.OnUser n) := by
  cases st <;> unfold Step.OnUser <;> infer_instance

/-- Scratch tensors of several layers. -/
def groupsOf (layers : List (Option Layer)) : List ScratchGroup :=
  layers.flatMap fun l => l.elim [] Layer.groups

theorem groupsOf_perm {layers : List (Option Layer)} {i : Nat} {l : Layer}
    (h : layers[i]? = some (some l)) :
    (groupsOf layers).Perm (l.groups ++ groupsOf (layers.eraseIdx i)) := by
  obtain ⟨hi, he⟩ := List.getElem?_eq_some_iff.1 h
  have perm := (List.getElem_cons_eraseIdx_perm hi).symm.flatMap_right fun l =>
    l.elim [] Layer.groups
  rwa [he] at perm

theorem groupsOf_set_perm {layers : List (Option Layer)} {i : Nat} (hi : i < layers.length)
    (l : Layer) :
    (groupsOf (layers.set i (some l))).Perm (l.groups ++ groupsOf (layers.eraseIdx i)) :=
  (List.set_perm_cons_eraseIdx hi (some l)).flatMap_right fun l : Option Layer =>
    l.elim [] Layer.groups

theorem forall₂_set {α β : Type} {P : α → β → Prop} {xs : List α} {ys : List β}
    (h : List.Forall₂ P xs ys) {x : α} {y : β} (hxy : P x y) (i : Nat) :
    List.Forall₂ P (xs.set i x) (ys.set i y) := by
  induction h generalizing i with
  | nil => exact .nil
  | cons hab rest ih =>
    cases i with
    | zero => exact .cons hxy rest
    | succ i => exact .cons hab (ih i)

theorem forall₂_getElem? {α β : Type} {P : α → β → Prop} {xs : List α} {ys : List β}
    (h : List.Forall₂ P xs ys) (i : Nat) : Option.Rel P xs[i]? ys[i]? := by
  induction h generalizing i with
  | nil => exact .none
  | cons hab rest ih =>
    cases i with
    | zero => exact .some hab
    | succ i => exact ih i

theorem layers_mono {R R' : Pairing} {layers layers' : List (Option Layer)}
    (h : List.Forall₂ (Option.Rel (Layer.Alike R)) layers layers') (hR : R ≤ R') :
    List.Forall₂ (Option.Rel (Layer.Alike R')) layers layers' :=
  h.imp fun _ _ hl => by
    cases hl with
    | none => exact .none
    | some hl => exact .some (hl.mono hR)

namespace Session

/-- Sessions in one environment that have done the same steps. The first `n` buffers are the
users'. -/
structure Alike (n : Nat) (R : Pairing) (s s' : Session) : Prop where
  environment : s.context.environment = s'.context.environment
  user : ∀ b < n, R.Whole b b
  twin : R.Twin s.device.memory s'.device.memory
  layers : List.Forall₂ (Option.Rel (Layer.Alike R)) s.layers s'.layers
  left : s.device.Stocks R.Left (groupsOf s.layers)
  right : s'.device.Stocks R.Right (groupsOf s'.layers)

variable {n : Nat} {R : Pairing} {s s' : Session}

theorem alike_start (pooled pooled' : Bool) (environment : Environment) (m : Memory) :
    (start ⟨pooled, environment⟩ m).Alike m.buffers.size (.first m.buffers.size)
      (start ⟨pooled', environment⟩ m) where
  environment := rfl
  user b hb _ := ⟨rfl, hb⟩
  twin := Pairing.twin_first _ m
  layers := .nil
  left := ⟨fun b ⟨_, _, _, hb⟩ => hb, .nil m,
    by simp [start, groupsOf, Device.ofMemory, Pool.empty], by simp [start, groupsOf]⟩
  right := ⟨fun b ⟨_, _, he, hb⟩ => he ▸ hb, .nil m,
    by simp [start, groupsOf, Device.ofMemory, Pool.empty], by simp [start, groupsOf]⟩

theorem Alike.push_none (h : s.Alike n R s') : (s.push none).Alike n R (s'.push none) := by
  have groups (layers : List (Option Layer)) : groupsOf (layers ++ [none]) = groupsOf layers := by
    simp [groupsOf]
  refine ⟨h.environment, h.user, h.twin, List.rel_append h.layers (.cons .none .nil), ?_, ?_⟩
  · exact (groups s.layers).symm ▸ h.left
  · exact (groups s'.layers).symm ▸ h.right

theorem Alike.push_made (h : s.Alike n R s') {p p' : Layer × Memory}
    (made : Layer.Made n s.device.memory s'.device.memory p p') :
    ∃ R', p.1.Alike R' p'.1 ∧
      ({ s with device := { s.device with memory := p.2 } }.push (some p.1)).Alike n R'
        ({ s' with device := { s'.device with memory := p'.2 } }.push (some p'.1)) := by
  -- whatever is paired was there before, so the new blocks are in no pair yet
  have old {b b' : BufferId} {i : Nat} (hr : R.room b b' i) :
      b < s.device.memory.buffers.size ∧ b' < s'.device.memory.buffers.size :=
    ⟨h.left.present b ⟨_, _, hr⟩, h.right.present b' ⟨_, _, hr⟩⟩
  have lasting {l : Layer} {x : Block} (hx : x ∈ l.lasting) :
      x ∈ l.groups.flatMap ScratchGroup.owned ++ l.lasting := List.mem_append_right _ hx
  obtain ⟨left, ready⟩ := made.left
  obtain ⟨right, ready'⟩ := made.right
  have grown := h.twin.grow old left.grows right.grows left.byte right.byte
  obtain ⟨R', hR, twin, blocks, new⟩ := grown.exists_blocks
    (left.holds.sublist (List.sublist_append_right _ _))
    (right.holds.sublist (List.sublist_append_right _ _)) made.sizes
    (fun x hx => left.byte_zero (lasting hx)) (fun x hx => right.byte_zero (lasting hx))
    fun hr => by
      refine ⟨fun hmem => ?_, fun hmem => ?_⟩
      · obtain ⟨x, hx, rfl⟩ := List.mem_map.1 hmem
        exact Nat.not_le.2 (old hr).1 (left.fresh x (lasting hx))
      · obtain ⟨x, hx, rfl⟩ := List.mem_map.1 hmem
        exact Nat.not_le.2 (old hr).2 (right.fresh x (lasting hx))
  have user : ∀ b < n, R'.Whole b b := fun b hb => (h.user b hb).mono hR
  have groups (layers : List (Option Layer)) (l : Layer) :
      groupsOf (layers ++ [some l]) = groupsOf layers ++ l.groups := by
    simp [groupsOf]
  have alike := made.alike R' user blocks
  refine ⟨R', alike, h.environment, user, twin, ?_, ?_, ?_⟩
  · exact List.rel_append (layers_mono h.layers hR) (.cons (.some alike) .nil)
  · refine groups s.layers p.1 ▸ (h.left.allocate left ready).mono ?_
    rintro b ⟨b', i, hr⟩
    exact (new hr).imp (fun hr => ⟨b', i, hr⟩) And.left
  · refine groups s'.layers p'.1 ▸ (h.right.allocate right ready').mono ?_
    rintro b' ⟨b, i, hr⟩
    exact (new hr).imp (fun hr => ⟨b, i, hr⟩) And.right

/-- The layers of a number, or none on both sides. -/
theorem Alike.layer_cases (h : s.Alike n R s') (i : Nat) :
    s.layer? i = none ∧ s'.layer? i = none ∨
      ∃ l l', s.layer? i = some l ∧ s'.layer? i = some l' ∧ l.Alike R l' := by
  have same := forall₂_getElem? h.layers i
  unfold layer?
  generalize s.layers[i]? = l, s'.layers[i]? = l' at same ⊢
  cases same with
  | none => exact .inl ⟨rfl, rfl⟩
  | some same =>
    cases same with
    | none => exact .inl ⟨rfl, rfl⟩
    | some alike => exact .inr ⟨_, _, rfl, rfl, alike⟩

theorem Alike.beside (h : s.Alike n R s') {i : Nat} {l l' : Layer} (hl : s.layer? i = some l)
    (hl' : s'.layer? i = some l') (alike : l.Alike R l') :
    Layer.Beside R R.Left R.Right (groupsOf (s.layers.eraseIdx i)) (groupsOf (s'.layers.eraseIdx i))
      (l, s.device) (l', s'.device) :=
  ⟨alike, h.twin, h.left.perm (groupsOf_perm (Option.join_eq_some_iff.1 hl)),
    h.right.perm (groupsOf_perm (Option.join_eq_some_iff.1 hl'))⟩

theorem Alike.replace (h : s.Alike n R s') {i : Nat} {l : Layer} (hl : s.layer? i = some l)
    {p p' : Layer × Device} (hb : Layer.Beside R R.Left R.Right
      (groupsOf (s.layers.eraseIdx i)) (groupsOf (s'.layers.eraseIdx i)) p p') :
    (s.replace i p.1 p.2).Alike n R (s'.replace i p'.1 p'.2) := by
  obtain ⟨hi, -⟩ := List.getElem?_eq_some_iff.1 (Option.join_eq_some_iff.1 hl)
  have hi' : i < s'.layers.length := h.layers.length_eq ▸ hi
  exact ⟨h.environment, h.user, hb.twin, forall₂_set h.layers (.some hb.alike) i,
    hb.left.perm (groupsOf_set_perm hi p.1).symm, hb.right.perm (groupsOf_set_perm hi' p'.1).symm⟩

/-- What comes of a step on both sides, and the sessions after it. -/
structure SameStep (n : Nat) (r r' : Except (Failure LayerError) StepResult × Session) : Prop where
  report : r.1.map StepResult.report = r'.1.map StepResult.report
  alike : ∃ R, r.2.Alike n R r'.2

theorem Alike.configured (h : s.Alike n R s')
    {x x' : Except (Failure LayerError) (Option (Layer × Memory))} {log log' : List String}
    (hx : Agree (Option.Rel (Layer.Made n s.device.memory s'.device.memory)) x x')
    (hlog : log = log') : SameStep n (s.configured log x) (s'.configured log' x') := by
  subst hlog
  cases hx with
  | error e => exact ⟨rfl, R, h.push_none⟩
  | ok created =>
    cases created with
    | none => exact ⟨rfl, R, h.push_none⟩
    | @some p p' made =>
      obtain ⟨R', alike, pushed⟩ := h.push_made made
      have report := congrArg (fun name => Report.configured (some name) log) alike.name
      exact ⟨congrArg Except.ok report, R', pushed⟩

theorem Alike.create (h : s.Alike n R s') {k : Node} (hk : k.OnUser n) :
    SameStep n (s.step (.create k)) (s'.step (.create k)) := by
  have created : Agree (Option.Rel (Created.Twin n s.device.memory s'.device.memory))
      (k.create s.context s.device.memory) (k.create s'.context s'.device.memory) :=
    Node.agree_create hk h.environment
  unfold step
  dsimp only
  generalize k.create s.context s.device.memory = x, k.create s'.context s'.device.memory = x'
    at created ⊢
  refine h.configured (created.map fun c c' hc => ?_) ?_
  · cases hc with
    | none => exact .none
    | some hc => exact .some hc.made
  · cases created with
    | error e => rfl
    | ok hc =>
      cases hc with
      | none => rfl
      | some hc => simp only [Node.log, hc.report]

theorem Alike.gemm (h : s.Alike n R s') {a b output : View} {c : Option View}
    (hv : ∀ v ∈ [a, b, output] ++ c.toList, v.buffer < n) (alpha beta : Binary32)
    (keepRight : Bool) (config : Option Config) :
    SameStep n (s.step (.gemm a b c output alpha beta keepRight config))
      (s'.step (.gemm a b c output alpha beta keepRight config)) := by
  refine h.configured ?_ rfl
  rw [GemmLayer.configure?, GemmLayer.configure?, GemmLayer.configureOn_eq Machine.sound_words,
    GemmLayer.configureOn_eq Machine.sound_words]
  dsimp only
  unfold MatrixProduct.resolvedConfig
  rw [h.environment]
  exact .map (.map_same fun p hp =>
    GemmLayer.made Machine.sound_words hp keepRight s.context.pooled s'.context.pooled hv)
    fun _ _ made => .some made

theorem Alike.multiply (h : s.Alike n R s') {a b output : View}
    (hv : ∀ v ∈ [a, b, output], v.buffer < n) (scale : Binary32) :
    SameStep n (s.step (.multiply a b output scale)) (s'.step (.multiply a b output scale)) := by
  refine h.configured (.map_same fun l hl => .some (.plain rfl ?_)) rfl
  obtain rfl := MultiplicationLayer.eq_of_configure (refuse_eq_ok.1 hl)
  exact hv

theorem Alike.prepare (h : s.Alike n R s') (i : Nat) :
    SameStep n (s.step (.prepare i)) (s'.step (.prepare i)) := by
  unfold step
  obtain ⟨hl, hl'⟩ | ⟨l, l', hl, hl', alike⟩ := h.layer_cases i
  · simp only [hl, hl']
    exact ⟨rfl, R, h⟩
  · simp only [hl, hl']
    exact ⟨rfl, R, h.replace hl (h.beside hl hl' alike).prepare⟩

theorem Alike.run (h : s.Alike n R s') (i : Nat) :
    SameStep n (s.step (.run i)) (s'.step (.run i)) := by
  unfold step
  obtain ⟨hl, hl'⟩ | ⟨l, l', hl, hl', alike⟩ := h.layer_cases i
  · simp only [hl, hl']
    exact ⟨rfl, R, h⟩
  · simp only [hl, hl']
    have outcome := (h.beside hl hl' alike).run R.within
    generalize l.run s.device = x, l'.run s'.device = x' at outcome ⊢
    cases outcome with
    | error f => exact ⟨rfl, R, h⟩
    | ok beside => exact ⟨rfl, R, h.replace hl beside⟩

theorem Alike.write (h : s.Alike n R s') {tensor : View} (ht : tensor.buffer < n)
    (values : List Binary32) :
    SameStep n (s.step (.write tensor values)) (s'.step (.write tensor values)) := by
  have stored := Pairing.respects_storeValues (h.user _ ht) values
  unfold step
  dsimp only
  unfold View.write
  cases tensor.checkValues values.length with
  | error e => exact ⟨rfl, R, h⟩
  | ok =>
    let store (m : Memory) := tensor.storeValues m values
    have left := h.left.onMemory (f := store) (stored.left _)
    have right := h.right.onMemory (f := store) (stored.right _)
    exact ⟨rfl, R, h.environment, h.user, stored.twin h.twin, h.layers, left, right⟩

/-- A step keeps sessions alike, and the same comes of it. -/
theorem Alike.step (h : s.Alike n R s') {st : Step} (hst : st.OnUser n) :
    SameStep n (s.step st) (s'.step st) := by
  cases st with
  | create k => exact h.create hst
  | gemm a b c output alpha beta keepRight config => exact h.gemm hst alpha beta keepRight config
  | multiply a b output scale => exact h.multiply hst scale
  | prepare i => exact h.prepare i
  | run i => exact h.run i
  | write tensor values => exact h.write hst values

/-! ### Whole sessions -/

/-- Steps of a session, the free blocks being replaced before each of them. -/
inductive Restocks : Session → List Step → List (Except (Failure LayerError) StepResult) →
    Session → Prop
  | nil (s : Session) : Restocks s [] [] s
  | cons {s t : Session} {st : Step} {rest : List Step}
      {results : List (Except (Failure LayerError) StepResult)} (d : Device)
      (restocked : s.device.Restocked d)
      (run : Restocks (({ s with device := d } : Session).step st).2 rest results t) :
      Restocks s (st :: rest) ((({ s with device := d } : Session).step st).1 :: results) t

theorem Alike.restocked (h : s.Alike n R s') {d d' : Device} (hd : s.device.Restocked d)
    (hd' : s'.device.Restocked d') :
    ({ s with device := d } : Session).Alike n R { s' with device := d' } where
  environment := h.environment
  user := h.user
  twin := h.twin.restocked h.left h.right hd hd'
  layers := h.layers
  left := h.left.restocked hd
  right := h.right.restocked hd'

/-- Sessions that do the same steps stay alike, by induction on the steps. -/
theorem Alike.runs (h : s.Alike n R s') {steps : List Step} (user : ∀ st ∈ steps, st.OnUser n)
    {results results' : List (Except (Failure LayerError) StepResult)} {t t' : Session}
    (run : s.Restocks steps results t) (run' : s'.Restocks steps results' t') :
    results.map (·.map StepResult.report) = results'.map (·.map StepResult.report) ∧
      ∃ R', t.Alike n R' t' := by
  induction run generalizing R s' results' with
  | nil =>
    cases run' with
    | nil => exact ⟨rfl, R, h⟩
  | cons d restocked _ ih =>
    cases run' with
    | cons d' restocked' run' =>
      obtain ⟨first, rest⟩ := List.forall_mem_cons.1 user
      obtain ⟨report, R', alike⟩ := (h.restocked restocked restocked').step first
      obtain ⟨reports, last⟩ := ih alike rest run'
      exact ⟨congrArg₂ List.cons report reports, last⟩

/-- Leaving the free blocks as they are is one way of replacing them. -/
theorem Alike.restocks_runSteps (h : s.Alike n R s') {steps : List Step}
    (user : ∀ st ∈ steps, st.OnUser n) :
    s.Restocks steps (s.runSteps steps).1 (s.runSteps steps).2 := by
  induction steps generalizing R s s' with
  | nil => exact .nil s
  | cons st rest ih =>
    obtain ⟨first, rest⟩ := List.forall_mem_cons.1 user
    obtain ⟨-, R', alike⟩ := h.step first
    exact .cons s.device (.refl h.left.free) (ih alike rest)

/-- What can be seen of sessions: what came of each step, and the first `n` buffers. -/
structure SameSeen (n : Nat) (r r' : List (Except (Failure LayerError) StepResult) × Session) :
    Prop where
  reports : r.1.map (·.map StepResult.report) = r'.1.map (·.map StepResult.report)
  tensors : ∀ b < n, r.2.device.memory.bytes b = r'.2.device.memory.bytes b

theorem Alike.seen (h : s.Alike n R s') {steps : List Step} (user : ∀ st ∈ steps, st.OnUser n)
    {results results' : List (Except (Failure LayerError) StepResult)} {t t' : Session}
    (run : s.Restocks steps results t) (run' : s'.Restocks steps results' t') :
    SameSeen n (results, t) (results', t') := by
  obtain ⟨reports, R', alike⟩ := h.runs user run run'
  exact ⟨reports, fun b hb => (alike.user b hb).bytes alike.twin⟩

end Session
end TileCompute
