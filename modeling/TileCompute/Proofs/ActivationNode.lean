import TileCompute.Graph.Lowering
import TileCompute.Proofs.Checks
import TileCompute.Proofs.Overlap

/-!
# TileCompute.Proofs.ActivationNode

Activations, from the node to the elements it leaves. An output in a buffer of its own must have the
input's type and shape, and gets the function of every element. An output in the input's buffer is
dropped when the node is lowered: the layer works in place on the input, and the output is neither
checked nor written through its own layout.

* `ActivationLayer.words_run`: what a run leaves, in place or not.
* `Node.create_activation`: which nodes are accepted, and what comes of them.
-/

namespace TileCompute

/-- The function on words of a data type. -/
def Activation.onWord (f : Activation) (t : DataType) (word : Nat) : Nat :=
  t.encode (f.apply (t.decode word))

namespace ActivationLayer

variable {l : ActivationLayer} {m : Memory} {input : View} {output : Option View} {f : Activation}

theorem configure_eq_ok : configure input output f = .ok l ↔
    (input.layout.dataType.isFloatingPoint ∧ ∀ o ∈ output,
      input.layout.dataType = o.layout.dataType ∧ input.layout.shape = o.layout.shape) ∧
      ⟨input, output, f⟩ = l := by
  unfold configure
  cases output with
  | none => simp only [bind_eq_ok, pure_eq_ok, checkFloat_eq_ok]; simp
  | some o =>
    simp only [bind_eq_ok, pure_eq_ok, checkFloat_eq_ok, checkSameType_eq_ok, checkSameShape_eq_ok]
    simp [and_assoc]

theorem runSite_eq (type : l.input.layout.dataType = l.target.layout.dataType) :
    l.runSite = l.target.combineSite [l.input] fun _ words =>
      l.activation.onWord l.input.layout.dataType (words.getD 0 0) := by
  funext s m
  simp only [runSite, View.storeValue, ← type]
  rfl

theorem words_run (type : l.input.layout.dataType = l.target.layout.dataType)
    (shape : l.input.layout.shape = l.target.layout.shape)
    (own : l.target.buffer = l.input.buffer → l.target = l.input) (fits : l.target.Fits m) :
    l.target.words (l.run m) =
      (l.input.words m).map (l.activation.onWord l.input.layout.dataType) := by
  have combines : l.target.Combines [l.input] fun _ words =>
      l.activation.onWord l.input.layout.dataType (words.getD 0 0) :=
    .of_shared (List.forall_mem_singleton.2 shape)
      (List.forall_mem_singleton.2 fun he => (own he).symm)
      (fun _ _ => type ▸ l.input.layout.dataType.encode_lt _)
  rw [run, runSite_eq type, shape]
  refine (View.words_combined combines fits (.refl _)).trans ?_
  rw [View.words_eq_sites, List.map_map, shape]
  rfl

end ActivationLayer

namespace Node

variable {n : Node} {c : Context} {m : Memory} {f : Activation} {input output : View}

theorem create_activation_eq (kind : n.kind = .activation f) (counts : n.checkCounts 1 1 = .ok ())
    (hin : n.required (n.input 0) "input" = .ok input)
    (hout : backingTensor (n.output 0) = .ok (some output)) :
    ∃ report : ActivationLayer → String, n.create c m =
      (refuse (ActivationLayer.configure input
        ((some output).filter fun o => o.buffer ≠ input.buffer) f)).map
        fun l => some ⟨.activation l, report l, m⟩ := by
  refine ⟨fun l => Created.shapeReport (.activation l) input
    ++ s!" Activation function: {f.kind.name} a: {f.a.toText} b: {f.b.toText}"
    ++ s!" InPlace : {((some output).filter fun o => o.buffer ≠ input.buffer).isNone}", ?_⟩
  rw [create, kind]
  dsimp only
  rw [createActivation, counts, hin, hout]
  simp only [raise_ok, ok_bind]
  cases ActivationLayer.configure input
    ((some output).filter fun o => o.buffer ≠ input.buffer) f <;> rfl

/-- Types and shapes that an activation asks for. An output in the input's buffer may have any. -/
def ActivatesTo (input output : View) : Prop :=
  input.layout.dataType.isFloatingPoint ∧ (output.buffer ≠ input.buffer →
    input.layout.dataType = output.layout.dataType ∧ input.layout.shape = output.layout.shape)

/-- A node with the operands of an activation is accepted if they suit it, and refused otherwise.
It then leaves the function of every element of the input: in an output with a buffer of its own, or
else in the input, which the output shows if it has the same layout. -/
theorem create_activation (kind : n.kind = .activation f) (counts : n.checkCounts 1 1 = .ok ())
    (hin : n.required (n.input 0) "input" = .ok input)
    (hout : backingTensor (n.output 0) = .ok (some output)) :
    (¬ActivatesTo input output → ∃ cause, n.create c m = .error (.refused cause)) ∧
    (ActivatesTo input output → ∃ made, n.create c m = .ok (some made) ∧ made.memory = m ∧
      ∀ d, input.Fits d.memory → output.Fits d.memory →
        ∃ d', made.layer.run d = .ok (made.layer, d') ∧
          let result := (input.words d.memory).map (f.onWord input.layout.dataType)
          (output.buffer = input.buffer → input.words d'.memory = result) ∧
          (output.buffer ≠ input.buffer ∨ output.layout = input.layout →
            output.words d'.memory = result)) := by
  obtain ⟨report, created⟩ := create_activation_eq (c := c) (m := m) kind counts hin hout
  generalize hsep : (some output).filter (fun o => o.buffer ≠ input.buffer) = separate at created
  have configured (l : ActivationLayer) : ActivationLayer.configure input separate f = .ok l ↔
      ActivatesTo input output ∧ ⟨input, separate, f⟩ = l := by
    rw [ActivationLayer.configure_eq_ok, ← hsep]
    simp [ActivatesTo]
  constructor
  · intro unsuited
    cases hl : ActivationLayer.configure input separate f with
    | error cause => exact ⟨cause, by rw [created, hl]; rfl⟩
    | ok l => exact absurd ((configured l).1 hl).1 unsuited
  · intro suited
    refine ⟨⟨.activation ⟨input, separate, f⟩, report ⟨input, separate, f⟩, m⟩,
      by rw [created, (configured _).2 ⟨suited, rfl⟩]; rfl, rfl, ?_⟩
    intro d inputFits outputFits
    refine ⟨_, rfl, ?_⟩
    by_cases shared : output.buffer = input.buffer
    · -- in place, whatever the output's layout
      obtain rfl : none = separate := by rw [← hsep]; simp [Option.filter, shared]
      have left := ActivationLayer.words_run (l := ⟨input, none, f⟩) rfl rfl (fun _ => rfl)
        inputFits
      refine ⟨fun _ => left, fun h => ?_⟩
      have layout := h.resolve_left (not_not_intro shared)
      obtain rfl : output = input := by
        cases output
        cases input
        cases shared
        cases layout
        rfl
      exact left
    · obtain rfl : some output = separate := by rw [← hsep]; simp [Option.filter, shared]
      obtain ⟨type, shape⟩ := suited.2 shared
      exact ⟨fun h => absurd h shared, fun _ =>
        ActivationLayer.words_run (l := ⟨input, some output, f⟩) type shape
          (fun h => absurd h shared) outputFits⟩

theorem create_activation_padded :
    let input : View := ⟨0, ⟨.ofList [2, 2], .f16, .uniform 1⟩⟩
    let output : View := ⟨1, .packed (.ofList [2, 2]) .f16⟩
    let n : Node := ⟨0, "relu", .activation .relu,
      [some ⟨0, ⟨input.layout.shape, .f16, .gc⟩, some input⟩],
      [some ⟨1, ⟨output.layout.shape, .f16, .gc⟩, some output⟩]⟩
    let m : Memory := ⟨#[.replicate 32 200, .replicate 8 0]⟩
    ∃ made d', n.create .default m = .ok (some made) ∧
      made.layer.run ⟨m, .empty⟩ = .ok (made.layer, d') ∧
      output.words d'.memory = (input.words m).map (Activation.relu.onWord .f16) := by
  intro input output n m
  have hin : n.required (n.input 0) "input" = .ok input := rfl
  have hout : backingTensor (n.output 0) = .ok (some output) := rfl
  have made := (create_activation (c := .default) (m := m) (show n.kind = _ from rfl) rfl
    hin hout).2 ⟨rfl, fun _ => ⟨rfl, rfl⟩⟩
  obtain ⟨made, created, -, runs⟩ := made
  obtain ⟨d', ran, -, left⟩ := runs ⟨m, .empty⟩ (by decide) (by decide)
  exact ⟨made, d', created, ran, left (.inl (by decide))⟩

/-- In the input's buffer, an output of another shape is accepted, and one of the same shape without
the input's border does not end up with the function of the elements. -/
theorem create_activation_unchecked :
    let input : View := ⟨0, ⟨.ofList [1, 2], .f32, ⟨0, 1, 0, 0⟩⟩⟩
    let short : View := ⟨0, .packed (.ofList [1]) .f32⟩
    let packed : View := ⟨0, .packed (.ofList [1, 2]) .f32⟩
    let f : Activation := ⟨.abs, .zero, .zero⟩
    let n (output : View) : Node := ⟨0, "abs", .activation f,
      [some ⟨0, ⟨input.layout.shape, .f32, .gc⟩, some input⟩],
      [some ⟨1, ⟨output.layout.shape, .f32, .gc⟩, some output⟩]⟩
    let m : Memory := ⟨#[#[0, 0, 0x80, 0xbf, 0, 0, 0, 0, 0, 0, 0, 0xc0, 0, 0, 0, 0]]⟩
    (input.layout.shape ≠ short.layout.shape ∧
      ∃ made, (n short).create .default m = .ok (some made)) ∧
    ∃ made d', (n packed).create .default m = .ok (some made) ∧
      made.layer.run ⟨m, .empty⟩ = .ok (made.layer, d') ∧
      packed.words d'.memory ≠ (input.words m).map (f.onWord .f32) :=
  ⟨⟨by decide, _, rfl⟩, _, _, rfl, rfl, by decide +kernel⟩

end Node
end TileCompute
