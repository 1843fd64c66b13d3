import TileCompute.Proofs.Counterpart
import TileCompute.Proofs.History

/-!
# TileCompute.Proofs.MatrixLayer

Layers that look at their weights once. The first call, be it to prepare the layer or to run it,
makes a matrix of them among the layer's own tensors; later calls read the matrix. So does the
product, which may keep the matrix reshaped as well.

* `KeepsWeights`: what such a layer does in any history of calls and other work.
* `MatrixLayer.Along`: what is true at every point of a history.
* `MatrixLayer.Works.keepsWeights`: what has to be shown of a single call.
-/

namespace TileCompute

section Weights

variable {σ : Type}

/-- Preparing, for a layer that only stores to its own tensors then. -/
def onDevice (prepare : σ → Memory → σ × Memory) (s : σ) (d : Device) : σ × Device :=
  ((prepare s d.memory).1, d.onMemory fun m => (prepare s m).2)

/-- Calls of a layer with weights, its own tensors being left alone in between. -/
def WeightHistory (prepare : σ → Memory → σ × Memory) (run : σ → Device → σ × Device)
    (own : List Block) : σ → Device → σ → Device → Option Memory → Prop :=
  History [onDevice prepare, run] (· ∈ own.map Block.buffer)

namespace WeightHistory

variable {prepare : σ → Memory → σ × Memory} {run : σ → Device → σ × Device} {own : List Block}
  {s₀ s : σ} {d₀ d : Device} {first : Option Memory}

theorem prepared (h : WeightHistory prepare run own s₀ d₀ s d first) :
    WeightHistory prepare run own s₀ d₀ (onDevice prepare s d).1 (onDevice prepare s d).2
      (some (first.getD d.memory)) :=
  h.call List.mem_cons_self

theorem ran (h : WeightHistory prepare run own s₀ d₀ s d first) :
    WeightHistory prepare run own s₀ d₀ (run s d).1 (run s d).2 (some (first.getD d.memory)) :=
  h.call (List.mem_cons_of_mem _ (List.mem_singleton.2 rfl))

end WeightHistory

/-- A layer that looks at its weights once, when it is first prepared or run. Later it may find
anything where they were. -/
structure KeepsWeights (prepare : σ → Memory → σ × Memory) (run : σ → Device → σ × Device)
    (own : List Block) (given : List View) (s₀ : σ) (d₀ : Device) (output : View)
    (result : (now first : Memory) → List Nat) : Prop where
  run_words : ∀ {s d first}, WeightHistory prepare run own s₀ d₀ s d first →
    output.words (run s d).2.memory = result d.memory (first.getD d.memory)
  prepare_again : ∀ {s d first}, WeightHistory prepare run own s₀ d₀ s d (some first) →
    prepare s d.memory = (s, d.memory)
  prepare_byte : ∀ {s d first}, WeightHistory prepare run own s₀ d₀ s d first →
    ∀ b ∉ own.map Block.buffer, ∀ i, (prepare s d.memory).2.byte b i = d.memory.byte b i
  /-- The tensors that the layer was given may be written at any time. -/
  write : ∀ {s d first}, WeightHistory prepare run own s₀ d₀ s d first →
    ∀ v ∈ given, ∀ values : List Binary32,
      WeightHistory prepare run own s₀ d₀ s (d.onMemory (v.storeValues · values)) first

end Weights

/-- A tensor has the words in its cells. -/
def View.Has (v : View) (word : Cell → Nat) (m : Memory) : Prop :=
  ∀ c, v.layout.HasCell c → v.load m (v.layout.cell c) = word c

theorem View.Has.congr {v : View} {word : Cell → Nat} {m m' : Memory} (h : v.Has word m)
    (byte : ∀ j, m'.byte v.buffer j = m.byte v.buffer j) : v.Has word m' :=
  fun c hc => (View.load_congr byte _).trans (h c hc)

/-- A layer around a product whose right operand, the matrix, is one of the layer's tensors and is
made by the first call: `state` is the layer by its product and by whether it has been prepared, and
`word` is what a cell of the matrix gets from the memory then. -/
structure MatrixLayer (σ : Type) where
  layer : Layer
  product : MatrixProduct
  matrix : View
  state : MatrixProduct → Bool → σ
  make : Memory → Memory
  word : Memory → Cell → Nat

namespace MatrixLayer

variable {σ : Type} {k : MatrixLayer σ} {m₀ m : Memory} {q : MatrixProduct} {d d' : Device}
  {first : Option Memory}

/-- The layer when its product is `q`, at a point of its history. -/
structure Along (k : MatrixLayer σ) (m : Memory) (q : MatrixProduct) (d : Device)
    (first : Option Memory) : Prop extends
    k.product.Along k.matrix.buffer k.layer.Busy k.layer.groups m q d where
  fresh : first = none → ∀ kept ∈ q.kept?, kept.done = false
  remembers : ∀ f ∈ first, k.matrix.Has (k.word f) d.memory

/-- The layer was configured in `m₀`, where its tensors are, leaving `m`. -/
structure Installed (k : MatrixLayer σ) (m₀ m : Memory) : Prop extends k.layer.Placed m₀ m where
  own : k.layer.lasting = k.matrix.block :: k.product.lasting
  undone : ∀ kept ∈ k.product.kept?, kept.done = false
  grows_make : ∀ m : Memory, m.Grows (k.make m)
  byte_make : ∀ (m : Memory) x, x ≠ k.matrix.buffer → ∀ j, (k.make m).byte x j = m.byte x j
  has_make : ∀ m, k.matrix.Fits m → k.matrix.Has (k.word m) (k.make m)

namespace Installed

variable (hk : k.Installed m₀ m)

include hk in
theorem matrix_mem : k.matrix.block ∈ k.layer.lasting := by
  rw [hk.own]
  exact List.mem_cons_self

include hk in
theorem matrix_own : k.matrix.buffer ∈ k.layer.lasting.map Block.buffer :=
  List.mem_map_of_mem hk.matrix_mem

include hk in
theorem matrix_ne {v : View} (hv : v ∈ k.layer.operands) : k.matrix.buffer ≠ v.buffer :=
  fun he => hk.notMem_own (hk.given v hv) (he ▸ hk.matrix_own)

include hk in
theorem kept_own (h : k.Along m q d first) {kept : KeptOperand} (hq : kept ∈ q.kept?) :
    kept.tensor.block ∈ k.layer.lasting := by
  rw [hk.own]
  exact List.mem_cons_of_mem _ (h.since.mem_lasting hq)

include hk in
/-- What the product keeps is not the matrix. -/
theorem kept_ne (h : k.Along m q d first) {kept : KeptOperand} (hq : kept ∈ q.kept?) :
    kept.tensor.buffer ≠ k.matrix.buffer := by
  intro he
  have distinct := (hk.holds h.grows).distinct
  have mem : kept.tensor.buffer ∈ k.product.lasting.map Block.buffer :=
    List.mem_map_of_mem (h.since.mem_lasting hq)
  rw [hk.own] at distinct
  rw [he] at mem
  exact (List.nodup_cons.1 distinct).1 mem

include hk in
theorem start {pool : Pool}
    (stocks : Device.Stocks ⟨m₀, pool⟩ (· ∈ k.layer.operands.map View.buffer) []) :
    k.Along m k.product ⟨m, pool⟩ none where
  toAlong := .start hk.undone (hk.stocks stocks)
  fresh _ := hk.undone
  remembers := by simp

include hk in
theorem meanwhile (h : k.Along m q d first)
    (work : d.Meanwhile (· ∈ k.layer.lasting.map Block.buffer) d') : k.Along m q d' first where
  toAlong := h.toAlong.meanwhile work hk.matrix_own fun b hb => by
    rw [hk.own]
    exact List.mem_map_of_mem (List.mem_cons_of_mem _ hb)
  fresh := h.fresh
  remembers f hf := (h.remembers f hf).congr (work.byte _ hk.matrix_own)

include hk in
theorem make (h : k.Along m q d none) : k.Along m q (d.onMemory k.make) (some d.memory) where
  since := h.since
  grows := h.grows.trans (hk.grows_make _)
  stocks := h.stocks.onMemory (hk.grows_make _)
  current := .of_undone (h.fresh rfl) _ _
  fresh := by simp
  remembers := by
    rintro f ⟨⟩
    exact hk.has_make _ (View.fits_block ((hk.holds h.grows).sized k.matrix.block hk.matrix_mem))

end Installed

/-- A run with the matrix of the memory `f`. -/
structure Ran (k : MatrixLayer σ) (output : View) (result : (now first : Memory) → List Nat)
    (q : MatrixProduct) (f : Memory) (d d' : Device) : Prop where
  grows : d.memory.Grows d'.memory
  stocks : d'.Stocks k.layer.Busy k.layer.groups
  byte : ∀ j, d'.memory.byte k.matrix.buffer j = d.memory.byte k.matrix.buffer j
  current : q.settle.Current k.matrix.buffer d'.memory
  words : output.words d'.memory = result d.memory f

theorem Along.ran {f : Memory} {output : View} {result : (now first : Memory) → List Nat}
    (h : k.Along m q d (some f)) (ran : k.Ran output result q f d d') :
    k.Along m q.settle d' (some f) where
  since := h.since.settle
  grows := h.grows.trans ran.grows
  stocks := ran.stocks
  current := ran.current
  fresh := by simp
  remembers := by
    rintro f ⟨⟩
    exact (h.remembers f rfl).congr ran.byte

/-- How the layer is prepared and run. -/
structure Works (k : MatrixLayer σ) (prepare : σ → Memory → σ × Memory)
    (run : σ → Device → σ × Device) (m : Memory) (output : View)
    (result : (now first : Memory) → List Nat) : Prop where
  prepare_fresh : ∀ q m, prepare (k.state q false) m = (k.state q true, k.make m)
  prepare_again : ∀ q m, prepare (k.state q true) m = (k.state q true, m)
  run_fresh : ∀ q d, run (k.state q false) d = run (k.state q true) (d.onMemory k.make)
  run_fst : ∀ q d, (run (k.state q true) d).1 = k.state q.settle true
  run_ran : ∀ {q d f}, k.Along m q d (some f) →
    k.Ran output result q f d (run (k.state q true) d).2
  /-- Making the matrix changes nothing that is read after it where it was. -/
  unread : ∀ m f, result (k.make m) f = result m f

variable {prepare : σ → Memory → σ × Memory} {run : σ → Device → σ × Device} {output : View}
  {result : (now first : Memory) → List Nat} {s : σ} {pool : Pool}

namespace Works

variable (hw : k.Works prepare run m output result) (hk : k.Installed m₀ m)

include hw hk in
theorem prepared (h : k.Along m q d first) :
    (onDevice prepare (k.state q first.isSome) d).1 = k.state q true ∧
      k.Along m q (onDevice prepare (k.state q first.isSome) d).2
        (some (first.getD d.memory)) := by
  cases first with
  | none =>
    have step : onDevice prepare (k.state q false) d = (k.state q true, d.onMemory k.make) := by
      simp only [onDevice, hw.prepare_fresh]
    rw [Option.isSome_none, step]
    exact ⟨rfl, hk.make h⟩
  | some f =>
    have step : onDevice prepare (k.state q true) d = (k.state q true, d) := by
      simp only [onDevice, hw.prepare_again]
      rfl
    rw [Option.isSome_some, step]
    exact ⟨rfl, h⟩

include hw hk in
theorem ran (h : k.Along m q d first) :
    (run (k.state q first.isSome) d).1 = k.state q.settle true ∧
      k.Along m q.settle (run (k.state q first.isSome) d).2 (some (first.getD d.memory)) ∧
      output.words (run (k.state q first.isSome) d).2.memory =
        result d.memory (first.getD d.memory) := by
  cases first with
  | none =>
    -- the first call of all: it makes the matrix, and then runs as any later one
    have made := hk.make h
    have ran := hw.run_ran made
    rw [Option.isSome_none, hw.run_fresh, Option.getD_none]
    exact ⟨hw.run_fst .., made.ran ran, ran.words.trans (hw.unread _ _)⟩
  | some f =>
    have ran := hw.run_ran h
    exact ⟨hw.run_fst .., h.ran ran, ran.words⟩

include hw hk in
theorem of_history
    (stocks : Device.Stocks ⟨m₀, pool⟩ (· ∈ k.layer.operands.map View.buffer) [])
    (history : WeightHistory prepare run k.layer.lasting (k.state k.product false) ⟨m, pool⟩ s d
      first) :
    ∃ q, s = k.state q first.isSome ∧ k.Along m q d first := by
  -- the product is only settled from call to call, so the state follows from it
  induction history with
  | start => exact ⟨_, rfl, hk.start stocks⟩
  | meanwhile _ work ih =>
    obtain ⟨q, rfl, h⟩ := ih
    exact ⟨q, rfl, hk.meanwhile h work⟩
  | call _ mem ih =>
    obtain ⟨q, rfl, h⟩ := ih
    obtain rfl | mem := List.mem_cons.1 mem
    · exact ⟨q, hw.prepared hk h⟩
    · cases List.mem_singleton.1 mem
      obtain ⟨state, along, -⟩ := hw.ran hk h
      exact ⟨q.settle, state, along⟩

include hw hk in
theorem keepsWeights
    (stocks : Device.Stocks ⟨m₀, pool⟩ (· ∈ k.layer.operands.map View.buffer) [])
    {given : List View} (there : ∀ v ∈ given, v.buffer < m₀.buffers.size) :
    KeepsWeights prepare run k.layer.lasting given (k.state k.product false) ⟨m, pool⟩ output
      result where
  run_words := by
    intro s d first history
    obtain ⟨q, rfl, h⟩ := hw.of_history hk stocks history
    exact (hw.ran hk h).2.2
  prepare_again := by
    intro s d first history
    obtain ⟨q, rfl, -⟩ := hw.of_history hk stocks history
    exact hw.prepare_again ..
  prepare_byte := by
    intro s d first history b hb i
    obtain ⟨q, rfl, h⟩ := hw.of_history hk stocks history
    cases first with
    | none =>
      rw [Option.isSome_none, hw.prepare_fresh]
      refine hk.byte_make _ b (fun he => hb ?_) i
      rw [he]
      exact hk.matrix_own
    | some f => rw [Option.isSome_some, hw.prepare_again]
  write := by
    intro s d first history v hv values
    obtain ⟨q, rfl, h⟩ := hw.of_history hk stocks history
    exact history.meanwhile (.rewrite (hk.notMem_own (there v hv)) values h.stocks.free)

end Works
end MatrixLayer
end TileCompute
