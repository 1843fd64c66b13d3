import TileCompute.Proofs.TwinRuns

/-!
# TileCompute.Proofs.Beside

Layers of any kind, side by side on two devices. `Layer.Beside` is what a run keeps: the layers are
alike, the memories twins, and each device stocks the scratch tensors of its layer.

* `Layer.Beside.run`: both layers fail with the same fault, or stay side by side.
* `Layer.Beside.prepare`: the same when only the work before the first run is done.
-/

namespace TileCompute

/-- Two outcomes: the same failure, or results that are related. -/
inductive Agree {ε α β : Type} (P : α → β → Prop) : Except ε α → Except ε β → Prop
  | error (e : ε) : Agree P (.error e) (.error e)
  | ok {a : α} {b : β} (h : P a b) : Agree P (.ok a) (.ok b)

namespace Agree

variable {ε α β γ δ : Type} {P : α → β → Prop} {Q : γ → δ → Prop}

theorem bind_same {x : Except ε α} {f : α → Except ε γ} {f' : α → Except ε δ}
    (h : ∀ a, x = .ok a → Agree Q (f a) (f' a)) : Agree Q (x >>= f) (x >>= f') := by
  cases x with
  | error e => exact .error e
  | ok a => exact h a rfl

theorem map_same {x : Except ε α} {f : α → γ} {f' : α → δ}
    (h : ∀ a, x = .ok a → Q (f a) (f' a)) : Agree Q (x.map f) (x.map f') := by
  cases x with
  | error e => exact .error e
  | ok a => exact .ok (h a rfl)

theorem bind {x : Except ε α} {x' : Except ε β} {f : α → Except ε γ} {f' : β → Except ε δ}
    (h : Agree P x x') (hf : ∀ a b, P a b → Agree Q (f a) (f' b)) :
    Agree Q (x >>= f) (x' >>= f') := by
  cases h with
  | error e => exact .error e
  | ok h => exact hf _ _ h

theorem map {x : Except ε α} {x' : Except ε β} {f : α → γ} {f' : β → δ} (h : Agree P x x')
    (hf : ∀ a b, P a b → Q (f a) (f' b)) : Agree Q (x.map f) (x'.map f') := by
  cases h with
  | error e => exact .error e
  | ok h => exact .ok (hf _ _ h)

end Agree

namespace Layer

/-- The tensors that a layer was given. -/
def operands : Layer → List View
  | activation l => [l.input, l.target]
  | addition l => [l.operands.a, l.operands.b, l.operands.output]
  | batchNormalization l => l.input :: l.output :: l.parameters
  | depthConcatenation l => l.output :: l.inputs
  | depthwiseConvolution l => [l.input, l.weights, l.output] ++ l.bias.toList
  | directConvolution l => [l.input, l.weights, l.output] ++ l.bias.toList
  | fullyConnected l => l.operands
  | gemm l => l.operands
  | gemmConvolution l => l.operands
  | multiplication l => [l.operands.a, l.operands.b, l.operands.output]
  | normalization l => [l.input, l.output]
  | pooling l => [l.input, l.output]
  | softmax l => l.operands

/-- Scratch tensors of a layer, in the order in which a run opens their scopes. -/
def groups : Layer → List ScratchGroup
  | fullyConnected l => [l.product.scratch]
  | gemm l => [l.product.scratch]
  | gemmConvolution l => l.groups
  | softmax l => [l.scratch]
  | _ => []

/-- Layers that were configured alike. One without scratch tensors is the same on both sides. -/
inductive Alike (R : Pairing) : Layer → Layer → Prop
  | plain (l : Layer) (bare : l.groups = []) (shared : R.Shared l.operands) : Alike R l l
  | fullyConnected {l l' : FullyConnected} (h : l.Alike R l') :
      Alike R (.fullyConnected l) (.fullyConnected l')
  | gemm {l l' : GemmLayer} (h : l.Alike R l') : Alike R (.gemm l) (.gemm l')
  | gemmConvolution {l l' : GemmConvolution} (h : l.Alike R l') :
      Alike R (.gemmConvolution l) (.gemmConvolution l')
  | softmax {l l' : Softmax} (h : l.Alike R l') : Alike R (.softmax l) (.softmax l')

variable {R R' : Pairing} {l l' : Layer} {busy busy' : BufferId → Prop}
  {rest rest' : List ScratchGroup} {d d' : Device}

theorem Alike.mono (h : l.Alike R l') (hR : R ≤ R') : l.Alike R' l' := by
  cases h with
  | plain l bare shared => exact .plain l bare (shared.mono hR)
  | fullyConnected h => exact .fullyConnected (h.mono hR)
  | gemm h => exact .gemm (h.mono hR)
  | gemmConvolution h => exact .gemmConvolution (h.mono hR)
  | softmax h => exact .softmax (h.mono hR)

theorem Alike.name (h : l.Alike R l') : l.name = l'.name := by cases h <;> rfl

/-- Layers that are alike, on devices that stock their scratch tensors. -/
structure Beside (R : Pairing) (busy busy' : BufferId → Prop) (rest rest' : List ScratchGroup)
    (p p' : Layer × Device) : Prop where
  alike : p.1.Alike R p'.1
  twin : R.Twin p.2.memory p'.2.memory
  left : p.2.Stocks busy (p.1.groups ++ rest)
  right : p'.2.Stocks busy' (p'.1.groups ++ rest')

theorem Beside.onMemory {f : Memory → Memory} (h : Beside R busy busy' rest rest' (l, d) (l', d'))
    (hf : R.Respects f f) :
    Beside R busy busy' rest rest' (l, d.onMemory f) (l', d'.onMemory f) :=
  ⟨h.alike, hf.twin h.twin, h.left.onMemory (hf.left _), h.right.onMemory (hf.right _)⟩

/-- A run that may fail beforehand, whatever the memory. -/
theorem Beside.guarded {f : Memory → Memory} {check : Except Fault Unit}
    (h : Beside R busy busy' rest rest' (l, d) (l, d')) (hf : R.Respects f f) :
    Agree (Beside R busy busy' rest rest')
      ((check >>= fun _ => Except.ok (f d.memory)).map fun memory => (l, { d with memory }))
      ((check >>= fun _ => Except.ok (f d'.memory)).map fun memory => (l, { d' with memory })) := by
  cases check with
  | error e => exact .error e
  | ok _ => exact .ok (h.onMemory hf)

/-- The fault of a pooling depends on no memory. -/
theorem Beside.run_pooling {k : PoolingLayer}
    (h : Beside R busy busy' rest rest' (pooling k, d) (pooling k, d'))
    (hk : R.Respects (k.output.layout.shape.launch k.runSite)
      (k.output.layout.shape.launch k.runSite)) :
    Agree (Beside R busy busy' rest rest') ((pooling k).run d) ((pooling k).run d') := by
  unfold run PoolingLayer.run
  dsimp only
  split
  · exact .ok (h.onMemory hk)
  · exact .error _

theorem Beside.run_plain (h : Beside R busy busy' rest rest' (l, d) (l, d')) (bare : l.groups = [])
    (shared : R.Shared l.operands) :
    Agree (Beside R busy busy' rest rest') (l.run d) (l.run d') := by
  cases l with
  | activation k => exact .ok (h.onMemory (k.respects_run shared))
  | addition k => exact .ok (h.onMemory (k.operands.respects_run _ shared))
  | batchNormalization k => exact .ok (h.onMemory (k.respects_run shared))
  | depthConcatenation k => exact .ok (h.onMemory (k.respects_run shared))
  | depthwiseConvolution k => exact h.guarded (k.respects_run shared)
  | directConvolution k => exact h.guarded (k.respects_run shared)
  | multiplication k => exact .ok (h.onMemory (k.operands.respects_run _ shared))
  | normalization k => exact h.guarded (k.respects_run shared)
  | pooling k => exact h.run_pooling (k.respects_launch shared)
  | fullyConnected | gemm | gemmConvolution | softmax => cases bare

/-- Layers that are run side by side fail alike or stay side by side. -/
theorem Beside.run (h : Beside R busy busy' rest rest' (l, d) (l', d'))
    (within : R.Within busy busy') :
    Agree (Beside R busy busy' rest rest') (l.run d) (l'.run d') := by
  obtain ⟨alike, twin, left, right⟩ := h
  cases alike with
  | plain l bare shared => exact run_plain ⟨.plain l bare shared, twin, left, right⟩ bare shared
  | @fullyConnected k k' alike =>
    obtain ⟨alike, twin⟩ := alike.run within left right twin
    exact .ok ⟨.fullyConnected alike, twin, k.stocks_run left, k'.stocks_run right⟩
  | @gemm k k' alike =>
    obtain ⟨alike, twin⟩ := alike.run within left right twin
    exact .ok ⟨.gemm alike, twin, k.stocks_run left, k'.stocks_run right⟩
  | @gemmConvolution k k' alike =>
    have run := alike.run within left right twin
    rw [Layer.run, Layer.run, GemmConvolution.run?, GemmConvolution.run?, alike.numbers_eq]
    cases checkWords k.numbers with
    | error e => exact .error e
    | ok _ =>
      obtain ⟨alike, twin⟩ := run
      exact .ok ⟨.gemmConvolution alike, twin, k.stocks_run left, k'.stocks_run right⟩
  | @softmax k k' alike =>
    exact .ok ⟨.softmax alike, alike.run within left right twin, k.stocks_run left,
      k'.stocks_run right⟩

theorem Beside.prepare (h : Beside R busy busy' rest rest' (l, d) (l', d')) :
    Beside R busy busy' rest rest' (l.prepare d) (l'.prepare d') := by
  obtain ⟨alike, twin, left, right⟩ := h
  cases alike with
  | plain l bare shared =>
    cases l with
    | fullyConnected | gemm | gemmConvolution | softmax => cases bare
    | _ => exact ⟨.plain _ bare shared, twin, left, right⟩
  | @fullyConnected k k' alike =>
    rw [Layer.prepare, Layer.prepare, k.prepare_eq, k'.prepare_eq]
    exact ⟨.fullyConnected alike.prepare, alike.twin_transposed twin,
      left.onMemory (k.grows_transposed _), right.onMemory (k'.grows_transposed _)⟩
  | gemm alike => exact ⟨.gemm alike, twin, left, right⟩
  | @gemmConvolution k k' alike =>
    rw [Layer.prepare, Layer.prepare, k.prepare_eq, k'.prepare_eq]
    exact ⟨.gemmConvolution alike.prepare, alike.twin_arranged twin,
      left.onMemory (k.grows_arranged _), right.onMemory (k'.grows_arranged _)⟩
  | softmax alike => exact ⟨.softmax alike, twin, left, right⟩

end Layer
end TileCompute
