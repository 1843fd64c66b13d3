import TileCompute.Target.Registry

/-!
# TileCompute.Proofs.Registry

What a table answers after insertions. The entry that was inserted last for a key counts, and the
table of the start only where none was. Treating every problem as large changes the key of a lookup
and nothing else, so a forced lookup takes the reshaped path unless a direct one was inserted for
large problems.

* `Registry.find?_insertAll`: the entry for a key after some insertions.
* `Registry.path_lookup_forced`: what a forced lookup looks at.
* `Registry.isReshaped_lookup_forced_iff`: when it takes the reshaped path.
-/

namespace TileCompute
namespace Registry

/-- The table after insertions, the first of the list first. -/
def insertAll (r : Registry) (inserts : List (Key × Path)) : Registry :=
  inserts.foldl (fun r e => r.insert e.1 e.2) r

/-- The path that was inserted last for a key. -/
def latest? (inserts : List (Key × Path)) (key : Key) : Option Path :=
  inserts.reverse.lookup key

variable {r : Registry} {inserts : List (Key × Path)} {t : DataType} {m : Nat} {g : Target}

theorem entries_insertAll (r : Registry) (inserts : List (Key × Path)) :
    (r.insertAll inserts).entries = inserts.reverse ++ r.entries := by
  induction inserts generalizing r with
  | nil => rfl
  | cons e inserts ih =>
    rw [List.reverse_cons, List.append_assoc]
    exact ih (r.insert e.1 e.2)

theorem find?_insertAll (r : Registry) (inserts : List (Key × Path)) (key : Key) :
    (r.insertAll inserts).find? key = (latest? inserts key).or (r.find? key) := by
  rw [find?, entries_insertAll, List.lookup_append]
  rfl

/-- A forced lookup looks at the entry for large problems, whatever the size. -/
theorem path_lookup_forced (r : Registry) (t : DataType) (m : Nat) (g : Target) :
    ((r.forceLarge true).lookup t m g).path = (r.find? ⟨t.kind, .large, g⟩).getD fallback := by
  have same : (r.forceLarge true).find? = r.find? := rfl
  simp only [lookup, same]
  cases h : r.find? ⟨t.kind, .large, g⟩ with
  | none => simp [forceLarge, h]
  | some path => simp [forceLarge, h]

theorem isReshaped_eq_true_iff {c : Config} : c.isReshaped ↔ ∀ tile, c.path ≠ .direct tile := by
  obtain ⟨target, path⟩ := c
  cases path <;> simp [Config.isReshaped]

/-- Large problems start on the reshaped path, from a table with the built-in entries as from one
without any. -/
theorem start_large_ne_direct (hr : r = empty ∨ r = defaults) (kind : ElementKind) (g : Target)
    (tile : TileShape) : (r.find? ⟨kind, .large, g⟩).getD fallback ≠ .direct tile := by
  have reshaped :
      (⟨g, (r.find? ⟨kind, .large, g⟩).getD fallback⟩ : Config).isReshaped = true := by
    obtain rfl | rfl := hr <;> cases kind <;> cases g <;> rfl
  exact isReshaped_eq_true_iff.1 reshaped tile

/-- Whatever was inserted, a forced lookup gives the reshaped path exactly if the last path inserted
for large problems of the kind on the target, if any, is not a direct one. -/
theorem isReshaped_lookup_forced_iff (hr : r = empty ∨ r = defaults)
    (inserts : List (Key × Path)) (t : DataType) (m : Nat) (g : Target) :
    (((r.insertAll inserts).forceLarge true).lookup t m g).isReshaped ↔
      ∀ tile, latest? inserts ⟨t.kind, .large, g⟩ ≠ some (.direct tile) := by
  rw [isReshaped_eq_true_iff, path_lookup_forced, find?_insertAll]
  cases latest? inserts ⟨t.kind, .large, g⟩ with
  | none => simpa using start_large_ne_direct hr t.kind g
  | some path => simp

/-- A direct path for large problems that was replaced later, and one for small problems that
stays. -/
theorem isReshaped_lookup_forced_replaced :
    let inserts : List (Key × Path) :=
      [(⟨.f32, .large, .midgard⟩, .direct ⟨4, 4⟩), (⟨.f32, .small, .midgard⟩, .direct ⟨1, 1⟩),
        (⟨.f32, .large, .midgard⟩, .reshaped 2 3)]
    (∀ tile, latest? inserts ⟨.f32, .large, .midgard⟩ ≠ some (.direct tile)) ∧
      (((defaults.insertAll inserts).forceLarge true).lookup .f32 1 .midgard).isReshaped := by
  intro inserts
  have last : ∀ tile, latest? inserts ⟨.f32, .large, .midgard⟩ ≠ some (.direct tile) := by
    intro tile h
    cases h
  exact ⟨last, (isReshaped_lookup_forced_iff (.inr rfl) inserts .f32 1 .midgard).2 last⟩

/-- A direct path for large problems is taken although reshaping is forced. -/
theorem lookup_forced_takes_direct :
    ¬∀ (r : Registry), r = empty ∨ r = defaults → ∀ (inserts : List (Key × Path)) (t : DataType)
      (m : Nat) (g : Target),
      (((r.insertAll inserts).forceLarge true).lookup t m g).isReshaped := by
  intro h
  have reshaped :=
    h defaults (.inr rfl) [(⟨.f32, .large, .midgard⟩, .direct ⟨2, 4⟩)] .f32 1 .midgard
  exact absurd reshaped (by decide)

end Registry
end TileCompute
