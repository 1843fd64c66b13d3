import TileCompute.Proofs.Product

/-!
# TileCompute.Proofs.History

Layers over time. A layer is called again and again, and in between other work is done on the
device: tensors are written, other layers run, the pool's blocks change. `History` is the relation
between the start and any later point, by the calls and the work so far. It records the memory at
the first call, which is what a layer remembers that looks at an operand only once.

* `Device.Meanwhile.rewrite`: writing a tensor is such work.
* `MatrixProduct.Along`: what is true of a layer's product at every point of its history.
-/

namespace TileCompute

/-- From `s₀` on `d₀` to a later point: calls of some of the functions, and in between work that
leaves the `kept` buffers alone. The last index is the memory at the first call, if there was
one. -/
inductive History {σ : Type} (calls : List (σ → Device → σ × Device)) (kept : BufferId → Prop)
    (s₀ : σ) (d₀ : Device) : σ → Device → Option Memory → Prop
  | start : History calls kept s₀ d₀ s₀ d₀ none
  | meanwhile {s : σ} {d d' : Device} {first : Option Memory}
      (before : History calls kept s₀ d₀ s d first) (work : d.Meanwhile kept d') :
      History calls kept s₀ d₀ s d' first
  | call {s : σ} {d : Device} {first : Option Memory} {f : σ → Device → σ × Device}
      (before : History calls kept s₀ d₀ s d first) (mem : f ∈ calls) :
      History calls kept s₀ d₀ (f s d).1 (f s d).2 (some (first.getD d.memory))

namespace View

variable {v : View} {m : Memory} {values : List Binary32}

theorem grows_storeValues (v : View) (values : List Binary32) (m : Memory) :
    m.Grows (v.storeValues m values) :=
  .foldl (fun _ _ => .store ..) _ m

theorem byte_storeValues_other {b : BufferId} (h : b ≠ v.buffer) (i : Nat) :
    (v.storeValues m values).byte b i = m.byte b i := by
  unfold storeValues
  generalize v.layout.shape.coords.zip values = stores
  induction stores generalizing m with
  | nil => rfl
  | cons s stores ih =>
    rw [List.foldl_cons, ih]
    exact byte_store_other fun he => absurd he h

end View

namespace Device.Meanwhile

variable {kept : BufferId → Prop} {d d' : Device}

theorem refl (pool : d.memory.Holds d.pool.free) : d.Meanwhile kept d :=
  ⟨.refl _, fun _ _ _ => rfl, pool, fun _ hx => .inl (List.mem_map_of_mem hx)⟩

theorem onMemory {f : Memory → Memory} (grows : d.memory.Grows (f d.memory))
    (byte : ∀ b, kept b → ∀ i, (f d.memory).byte b i = d.memory.byte b i)
    (pool : d.memory.Holds d.pool.free) : d.Meanwhile kept (d.onMemory f) :=
  ⟨grows, byte, pool.grow grows, fun _ hx => .inl (List.mem_map_of_mem hx)⟩

theorem rewrite {v : View} (hv : ¬kept v.buffer) (values : List Binary32)
    (pool : d.memory.Holds d.pool.free) :
    d.Meanwhile kept (d.onMemory (v.storeValues · values)) := by
  refine onMemory (v.grows_storeValues values _) ?_ pool
  intro b hb i
  exact View.byte_storeValues_other (fun he => hv (he ▸ hb)) i

end Device.Meanwhile

/-! ### Products -/

namespace MatrixProduct

/-- A product `q₀` at a point of the history of its layer, which began with the memory `m`. The
right operand is in the buffer `right`. -/
structure Along (q₀ : MatrixProduct) (right : BufferId) (busy : BufferId → Prop)
    (groups : List ScratchGroup) (m : Memory) (q : MatrixProduct) (d : Device) : Prop where
  since : q₀.Since q
  grows : m.Grows d.memory
  stocks : d.Stocks busy groups
  current : q.Current right d.memory

namespace Along

variable {q₀ q : MatrixProduct} {right : BufferId} {busy kept : BufferId → Prop}
  {groups : List ScratchGroup} {m : Memory} {d d' : Device}

theorem start (undone : ∀ k ∈ q₀.kept?, k.done = false) {pool : Pool}
    (stocks : Device.Stocks ⟨m, pool⟩ busy groups) : q₀.Along right busy groups m q₀ ⟨m, pool⟩ :=
  ⟨.fresh, .refl m, stocks, .of_undone undone _ _⟩

theorem after (h : q₀.Along right busy groups m q d) (work : d.Meanwhile kept d')
    (current : q.Current right d'.memory) : q₀.Along right busy groups m q d' :=
  ⟨h.since, h.grows.trans work.grows, h.stocks.meanwhile work, current⟩

/-- Other work, with the right operand and what was kept of it left alone. -/
theorem meanwhile (h : q₀.Along right busy groups m q d) (work : d.Meanwhile kept d')
    (operand : kept right) (own : ∀ b ∈ q₀.lasting, kept b.buffer) :
    q₀.Along right busy groups m q d' :=
  h.after work <| h.current.congr (work.byte right operand) fun _ hk =>
    work.byte _ (own _ (h.since.mem_lasting hk))

end Along
end MatrixProduct

end TileCompute
