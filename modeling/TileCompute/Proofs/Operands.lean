import Mathlib.Data.Option.Basic
import Mathlib.Tactic.ByContra
import Mathlib.Tactic.Push
import TileCompute.Graph.Lowering
import TileCompute.Proofs.Checks

/-!
# TileCompute.Proofs.Operands

What a node must be given before the layer of its operation is configured: the right numbers of
inputs and outputs, tensors of the `gc` backend, memory behind those that the operation needs, and
an operation that some layer does. `Node.Accepted` says all of it, from the kind of the node alone.

The operands are looked at one after the other, and the first one that is wrong is a fault.
`Guarded` relates a piece of lowering to the precondition of what is still to be looked at; its
lemmas add one operand each.

* `Node.accepted_iff`: the precondition operand by operand.
* `Guarded.required`, `Guarded.optional`: an operand that a node needs, or can do without.
* `Guarded.weighted`, `Guarded.unary`: the operands that several operations have.
-/

namespace TileCompute

/-! ### Preconditions -/

namespace NodeKind

/-- Operations that compute nothing. -/
def Silent : NodeKind → Prop
  | input | output | const | reshape => True
  | _ => False

/-- How many inputs an operation has, none for any number. -/
def inputCount? : NodeKind → Option Nat
  | batchNormalization .. => some 5
  | convolution .. | depthwiseConvolution .. | fullyConnected => some 3
  | eltwise .. => some 2
  | activation _ | normalization _ | pooling _ | softmax _ => some 1
  | depthConcatenate _ | input | output | const | reshape => none

/-- The inputs that an operation needs: all but the bias of a layer with weights, and the beta and
the gamma of a batch normalization. -/
def Needs : NodeKind → Nat → Prop
  | batchNormalization .., i => i < 3
  | convolution .., i | depthwiseConvolution .., i | fullyConnected, i => i < 2
  | _, _ => True

/-- An activation can do without its output. -/
def NeedsOutput : NodeKind → Prop
  | activation _ => False
  | _ => True

/-- Operations that no layer does. -/
def Unsupported : NodeKind → Prop
  | eltwise operation _ => operation = .subtract
  | depthwiseConvolution _ method => method ≠ .optimized3x3
  | _ => False

end NodeKind

/-- The memory behind an operand, if it is there and allocated. -/
def behind (t : Option GraphTensor) : Option View := t.bind GraphTensor.memory

/-- An operand that is no fault: absent or of the `gc` backend, and with memory if it is needed. -/
def Usable (needed : Prop) (t : Option GraphTensor) : Prop :=
  (∀ g ∈ t, g.descriptor.backend = .gc) ∧ (needed → behind t ≠ none)

namespace Node

def WrongCounts (n : Node) : Prop :=
  (∃ count ∈ n.kind.inputCount?, n.inputs.length ≠ count) ∨ n.outputs.length ≠ 1

/-- Some tensor of another backend. -/
def Foreign (n : Node) : Prop :=
  ∃ g, (some g ∈ n.inputs ∨ some g ∈ n.outputs) ∧ g.descriptor.backend ≠ .gc

/-- Some needed operand that is absent or not allocated. -/
def Incomplete (n : Node) : Prop :=
  (∃ i, i < n.inputs.length ∧ n.kind.Needs i ∧ behind (n.input i) = none) ∨
    n.kind.NeedsOutput ∧ behind (n.output 0) = none

def Accepted (n : Node) : Prop :=
  ¬(n.WrongCounts ∨ n.Foreign ∨ n.Incomplete ∨ n.kind.Unsupported)

variable {n : Node} {count : Nat}

theorem input_of_lt {i : Nat} (hi : i < n.inputs.length) : n.input i = n.inputs[i] := by
  rw [input, List.getElem?_eq_getElem hi, Option.join_some]

theorem output_of_lt {i : Nat} (hi : i < n.outputs.length) : n.output i = n.outputs[i] := by
  rw [output, List.getElem?_eq_getElem hi, Option.join_some]

theorem behind_inputs (h : n.inputs.length = count) :
    n.inputs.map behind = (List.range count).map fun i => behind (n.input i) := by
  apply List.ext_getElem
  · simp [h]
  · intro i hi _
    have hi' : i < n.inputs.length := by simpa using hi
    simp [input_of_lt hi']

/-- The tensors of a node with one output, each at its place. -/
theorem foreign_iff (outputs : n.outputs.length = 1) : n.Foreign ↔
    (∃ i, i < n.inputs.length ∧ ∃ g ∈ n.input i, g.descriptor.backend ≠ .gc) ∨
      ∃ g ∈ n.output 0, g.descriptor.backend ≠ .gc := by
  have first : n.output 0 = n.outputs[0] := output_of_lt (by omega)
  constructor
  · rintro ⟨g, hg | hg, backend⟩
    · obtain ⟨i, hi, he⟩ := List.mem_iff_getElem.1 hg
      exact .inl ⟨i, hi, g, (input_of_lt hi).trans he, backend⟩
    · obtain ⟨i, hi, he⟩ := List.mem_iff_getElem.1 hg
      obtain rfl : i = 0 := by omega
      exact .inr ⟨g, first.trans he, backend⟩
  · rintro (⟨i, hi, g, hg, backend⟩ | ⟨g, hg, backend⟩)
    · rw [input_of_lt hi] at hg
      exact ⟨g, .inl (List.mem_of_getElem hg), backend⟩
    · rw [first] at hg
      exact ⟨g, .inr (List.mem_of_getElem hg), backend⟩

/-- The precondition operand by operand. -/
theorem accepted_iff : n.Accepted ↔ ¬n.WrongCounts ∧
    (∀ i, i < n.inputs.length → Usable (n.kind.Needs i) (n.input i)) ∧
      Usable n.kind.NeedsOutput (n.output 0) ∧ ¬n.kind.Unsupported := by
  unfold Accepted
  by_cases counts : n.WrongCounts
  · simp [counts]
  · have outputs : n.outputs.length = 1 := by
      by_contra h
      exact counts (.inr h)
    simp only [counts, false_or, not_or, foreign_iff outputs, Incomplete, Usable, not_false_iff,
      true_and]
    push Not
    constructor
    · rintro ⟨⟨inputs, output⟩, ⟨needed, neededOutput⟩, supported⟩
      exact ⟨fun i hi => ⟨inputs i hi, needed i hi⟩, ⟨output, neededOutput⟩, supported⟩
    · rintro ⟨inputs, ⟨output, neededOutput⟩, supported⟩
      exact ⟨⟨fun i hi => (inputs i hi).1, output⟩, ⟨fun i hi => (inputs i hi).2, neededOutput⟩,
        supported⟩

theorem forall_input_iff {p : Option GraphTensor → Prop} :
    (∀ i, i < n.inputs.length → p (n.input i)) ↔ ∀ t ∈ n.inputs, p t := by
  constructor
  · intro h t ht
    obtain ⟨i, hi, rfl⟩ := List.mem_iff_getElem.1 ht
    exact input_of_lt hi ▸ h i hi
  · intro h i hi
    rw [input_of_lt hi]
    exact h _ (List.getElem_mem hi)

theorem accepted_iff_of_count (h : n.kind.inputCount? = some count) : n.Accepted ↔
    (n.inputs.length = count ∧ n.outputs.length = 1) ∧
      (∀ i, i < count → Usable (n.kind.Needs i) (n.input i)) ∧
        Usable n.kind.NeedsOutput (n.output 0) ∧ ¬n.kind.Unsupported := by
  have counts : ¬n.WrongCounts ↔ n.inputs.length = count ∧ n.outputs.length = 1 := by
    simp [WrongCounts, h]
  rw [accepted_iff, counts]
  apply and_congr_right
  rintro ⟨inputs, -⟩
  rw [inputs]

end Node

/-! ### One operand after the other -/

section Faults

variable {n : Node} {t : Option GraphTensor} {what : String}

theorem backingTensor_ok (h : ∀ g ∈ t, g.descriptor.backend = .gc) :
    backingTensor t = .ok (behind t) := by
  cases t with
  | none => rfl
  | some g => exact if_pos (h g rfl)

theorem backingTensor_fault (h : ¬∀ g ∈ t, g.descriptor.backend = .gc) :
    ∃ f, backingTensor t = .error f := by
  cases t with
  | none => exact absurd (by simp) h
  | some g => exact ⟨_, if_neg fun backend => h (by simpa using backend)⟩

theorem required_ok {v : View} (h : ∀ g ∈ t, g.descriptor.backend = .gc) (hv : behind t = some v) :
    n.required t what = .ok v := by
  rw [Node.required, backingTensor_ok h, hv]
  rfl

theorem required_fault (h : ¬Usable True t) : ∃ f, n.required t what = .error f := by
  by_cases backend : ∀ g ∈ t, g.descriptor.backend = .gc
  · have missing : behind t = none := by
      by_contra hne
      exact h ⟨backend, fun _ => hne⟩
    rw [Node.required, backingTensor_ok backend, missing]
    exact ⟨_, rfl⟩
  · obtain ⟨f, hf⟩ := backingTensor_fault backend
    rw [Node.required, hf]
    exact ⟨f, rfl⟩

theorem mapM_required_ok {ts : List (Option GraphTensor)} (h : ∀ t ∈ ts, Usable True t) :
    ∃ vs, ts.mapM (fun t => n.required t what) = .ok vs ∧ (ts.map behind).mapM id = some vs := by
  induction ts with
  | nil => exact ⟨[], rfl, rfl⟩
  | cons t ts ih =>
    obtain ⟨⟨backend, present⟩, hts⟩ := List.forall_mem_cons.1 h
    obtain ⟨v, hv⟩ := Option.ne_none_iff_exists'.1 (present trivial)
    obtain ⟨vs, hok, hvs⟩ := ih hts
    refine ⟨v :: vs, ?_, ?_⟩
    · rw [List.mapM_cons, required_ok backend hv, hok]
      rfl
    · rw [List.map_cons, List.mapM_cons, hvs, hv]
      rfl

theorem mapM_required_fault {ts : List (Option GraphTensor)} (h : ¬∀ t ∈ ts, Usable True t) :
    ∃ f, ts.mapM (fun t => n.required t what) = .error f := by
  induction ts with
  | nil => exact absurd (by simp) h
  | cons t ts ih =>
    rw [List.mapM_cons]
    by_cases ht : Usable True t
    · obtain ⟨v, hv⟩ := Option.ne_none_iff_exists'.1 (ht.2 trivial)
      obtain ⟨f, hf⟩ := ih fun hts => h (List.forall_mem_cons.2 ⟨ht, hts⟩)
      rw [required_ok ht.1 hv, hf]
      exact ⟨f, rfl⟩
    · have fails : ∃ f, n.required t what = .error f := required_fault ht
      obtain ⟨f, hf⟩ := fails
      rw [hf]
      exact ⟨f, rfl⟩

theorem checkCounts_ok {inputs outputs : Nat}
    (h : n.inputs.length = inputs ∧ n.outputs.length = outputs) :
    n.checkCounts inputs outputs = .ok () := by
  obtain ⟨rfl, rfl⟩ := h
  simp [Node.checkCounts, pure, Except.pure]

theorem checkCounts_fault {inputs outputs : Nat}
    (h : ¬(n.inputs.length = inputs ∧ n.outputs.length = outputs)) :
    ∃ f, n.checkCounts inputs outputs = .error f := by
  unfold Node.checkCounts
  by_cases hin : n.inputs.length = inputs
  · have hout : n.outputs.length ≠ outputs := fun hout => h ⟨hin, hout⟩
    simp [hin, hout, throw, throwThe, MonadExceptOf.throw]
  · simp [hin, throw, throwThe, MonadExceptOf.throw, bind, Except.bind]

end Faults

/-- Under the precondition `p` the outcome is as `made` says, and otherwise it is a fault. -/
structure Guarded {ε α : Type} (p : Prop) (x : Except (Failure ε) α)
    (made : Except (Failure ε) α → Prop) : Prop where
  met : p → made x
  broken : ¬p → ∃ f, x = .error (.fault f)

namespace Guarded

variable {ε α β : Type} {p q : Prop} {x : Except (Failure ε) α}
  {made : Except (Failure ε) α → Prop} {n : Node} {t : Option GraphTensor} {what : String}

theorem congr (h : Guarded p x made) (hpq : q ↔ p) : Guarded q x made :=
  ⟨fun hq => h.met (hpq.1 hq), fun hq => h.broken fun hp => hq (hpq.2 hp)⟩

/-- Nothing is left to be looked at. -/
theorem done (hp : p) (h : made x) : Guarded p x made :=
  ⟨fun _ => h, fun broken => absurd hp broken⟩

theorem fault (hp : ¬p) (f : Fault) :
    Guarded p (.error (.fault f) : Except (Failure ε) α) made :=
  ⟨fun met => absurd met hp, fun _ => ⟨f, rfl⟩⟩

/-- A step that gives a value under a precondition of its own. -/
theorem step {z : Except Fault β} {g : β → Except (Failure ε) α}
    (broken : ¬p → ∃ f, z = .error f) (met : p → ∃ b, z = .ok b ∧ Guarded q (g b) made) :
    Guarded (p ∧ q) (raise z >>= g) made := by
  by_cases hp : p
  · obtain ⟨b, rfl, h⟩ := met hp
    exact ⟨fun hpq => h.met hpq.2, fun hpq => h.broken fun hq => hpq ⟨hp, hq⟩⟩
  · obtain ⟨f, rfl⟩ := broken hp
    exact ⟨fun hpq => absurd hpq.1 hp, fun _ => ⟨f, rfl⟩⟩

/-- A check whose failure is a fault. -/
theorem check [Decidable p] {f : Fault} {g : β → Except (Failure ε) α} (h : Guarded q x made) :
    Guarded (p ∧ q) (if ¬p then (throw (.fault f) : Except (Failure ε) β) >>= g else x) made := by
  by_cases hp : p
  · rw [if_neg (not_not.2 hp)]
    exact h.congr (by simp [hp])
  · rw [if_pos hp]
    exact fault (fun both => hp both.1) f

theorem map (h : Guarded p x made) (f : α → β) :
    Guarded p (x.map f) fun y => ∃ x, y = x.map f ∧ made x := by
  constructor
  · intro hp
    exact ⟨x, rfl, h.met hp⟩
  · intro hp
    obtain ⟨fault, rfl⟩ := h.broken hp
    exact ⟨fault, rfl⟩

theorem counts {inputs outputs : Nat} {g : Unit → Except (Failure ε) α}
    (h : n.inputs.length = inputs → Guarded q (g ()) made) :
    Guarded ((n.inputs.length = inputs ∧ n.outputs.length = outputs) ∧ q)
      (raise (n.checkCounts inputs outputs) >>= g) made :=
  step checkCounts_fault fun hc => ⟨(), checkCounts_ok hc, h hc.1⟩

theorem required {g : View → Except (Failure ε) α}
    (h : ∀ v, behind t = some v → Guarded q (g v) made) :
    Guarded (Usable True t ∧ q) (raise (n.required t what) >>= g) made := by
  refine step required_fault ?_
  rintro ⟨backend, present⟩
  obtain ⟨v, hv⟩ := Option.ne_none_iff_exists'.1 (present trivial)
  exact ⟨v, required_ok backend hv, h v hv⟩

theorem optional {g : Option View → Except (Failure ε) α}
    (h : Guarded q (g (behind t)) made) :
    Guarded (Usable False t ∧ q) (raise (backingTensor t) >>= g) made := by
  refine step ?_ ?_
  · intro hu
    exact backingTensor_fault fun backend => hu ⟨backend, False.elim⟩
  · rintro ⟨backend, -⟩
    exact ⟨_, backingTensor_ok backend, h⟩

/-- A whole list of operands that are all needed. -/
theorem all {ts : List (Option GraphTensor)} {g : List View → Except (Failure ε) α}
    (h : ∀ vs, (ts.map behind).mapM id = some vs → Guarded q (g vs) made) :
    Guarded ((∀ t ∈ ts, Usable True t) ∧ q)
      (raise (ts.mapM fun t => n.required t what) >>= g) made := by
  refine step mapM_required_fault ?_
  intro usable
  obtain ⟨vs, hok, hvs⟩ := mapM_required_ok usable
  exact ⟨vs, hok, h vs hvs⟩

theorem raise_bind (z : Except Fault β) {γ : Type} (f : β → Except Fault γ)
    (g : γ → Except (Failure ε) α) :
    raise (z >>= f) >>= g = raise z >>= fun b => raise (f b) >>= g := by
  cases z <;> rfl

theorem unary {g : View × View → Except (Failure ε) α}
    (h : ∀ input output, n.inputs.map behind = [some input] →
      behind (n.output 0) = some output → Guarded q (g (input, output)) made) :
    Guarded ((n.inputs.length = 1 ∧ n.outputs.length = 1) ∧ Usable True (n.input 0) ∧
      Usable True (n.output 0) ∧ q) (raise n.unaryOperands >>= g) made := by
  simp only [Node.unaryOperands, raise_bind]
  refine counts fun count => required fun input hin => required fun output hout =>
    h input output ?_ hout
  rw [Node.behind_inputs count, ← hin]
  rfl

theorem weighted {g : WeightedOperands → Except (Failure ε) α}
    (h : ∀ input weights bias output,
      n.inputs.map behind = [some input, some weights, bias] →
        behind (n.output 0) = some output → Guarded q (g ⟨input, weights, bias, output⟩) made) :
    Guarded ((n.inputs.length = 3 ∧ n.outputs.length = 1) ∧ Usable True (n.input 0) ∧
      Usable True (n.input 1) ∧ Usable False (n.input 2) ∧ Usable True (n.output 0) ∧ q)
        (raise n.weightedOperands >>= g) made := by
  simp only [Node.weightedOperands, raise_bind]
  refine counts fun count => required fun input hin => required fun weights hw => optional <|
    required fun output hout => h input weights _ output ?_ hout
  rw [Node.behind_inputs count, ← hin, ← hw]
  rfl

end Guarded
end TileCompute
