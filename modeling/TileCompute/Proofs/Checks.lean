import TileCompute.Layer.Error

/-!
# TileCompute.Proofs.Checks

When a sequence of checks succeeds: each step must. These lemmas turn the success of a `do` block
into a conjunction, one check at a time.
-/

namespace TileCompute

variable {ε α β : Type}

theorem bind_eq_ok {x : Except ε α} {f : α → Except ε β} {b : β} :
    (x >>= f) = .ok b ↔ ∃ a, x = .ok a ∧ f a = .ok b := by
  cases x <;> simp [bind, Except.bind]

/-- A check that rejects on `p`, before further steps. -/
theorem reject_eq_ok {p : Prop} [Decidable p] {e : ε} {f : α → Except ε β} {x : Except ε β}
    {b : β} : (if p then (throw e : Except ε α) >>= f else x) = .ok b ↔ ¬p ∧ x = .ok b := by
  by_cases hp : p
  · simp [hp, bind, Except.bind, throw, throwThe, MonadExceptOf.throw]
  · simp [hp]

/-- A check that rejects on `p`, as the last step. -/
theorem reject_last_eq_ok {p : Prop} [Decidable p] {e : ε} {x : Except ε β} {b : β} :
    (if p then throw e else x) = .ok b ↔ ¬p ∧ x = .ok b := by
  by_cases hp : p
  · simp [hp, throw, throwThe, MonadExceptOf.throw]
  · simp [hp]

theorem pure_eq_ok {a b : α} : (pure a : Except ε α) = .ok b ↔ a = b := by
  simp [pure, Except.pure]

theorem map_eq_ok {x : Except ε α} {f : α → β} {b : β} :
    x.map f = .ok b ↔ ∃ a, x = .ok a ∧ f a = b := by
  cases x <;> simp [Except.map]

theorem ok_bind (a : α) (f : α → Except ε β) : (Except.ok a >>= f) = f a := rfl

theorem map_bind (x : Except ε α) (f : α → Except ε β) {γ : Type} (g : β → γ) :
    (x >>= f).map g = x >>= fun a => (f a).map g := by
  cases x <;> rfl

/-- Two continuations of a step may differ where the step does not lead. -/
theorem bind_congr_ok {x : Except ε α} {f g : α → Except ε β} (h : ∀ a, x = .ok a → f a = g a) :
    x >>= f = x >>= g := by
  cases x with
  | error e => rfl
  | ok a => exact h a rfl

theorem forM_eq_ok {check : α → Except ε Unit} {xs : List α} {u : Unit} :
    xs.forM check = .ok u ↔ ∀ x ∈ xs, check x = .ok () := by
  induction xs with
  | nil => simp [List.forM, pure_eq_ok]
  | cons x xs ih =>
    change (check x >>= fun _ => xs.forM check) = .ok u ↔ _
    rw [bind_eq_ok, List.forall_mem_cons, ← ih]
    exact ⟨fun ⟨_, hx, hxs⟩ => ⟨hx, hxs⟩, fun ⟨hx, hxs⟩ => ⟨(), hx, hxs⟩⟩

theorem refuse_eq_ok {x : Except ε α} {a : α} : refuse x = .ok a ↔ x = .ok a := by
  cases x <;> simp [refuse]

theorem raise_eq_ok {x : Except Fault α} {a : α} :
    (raise x : Except (Failure ε) α) = .ok a ↔ x = .ok a := by
  cases x <;> simp [raise]

theorem refuse_bind (x : Except ε α) (f : α → Except ε β) :
    refuse (x >>= f) = refuse x >>= fun a => refuse (f a) := by
  cases x <;> rfl

theorem refuse_ok (a : α) : refuse (.ok a : Except ε α) = .ok a := rfl

theorem raise_ok (a : α) : (raise (.ok a) : Except (Failure ε) α) = .ok a := rfl

theorem kernelFailure_eq_ok {x : Except (Failure KernelError) α} {a : α} :
    kernelFailure x = .ok a ↔ x = .ok a := by
  cases x with
  | ok b => simp [kernelFailure]
  | error e => cases e <;> simp [kernelFailure]

theorem checkBuffer_eq_ok {size : Nat} {u : Unit} :
    checkBuffer size = .ok u ↔ size < 2 ^ (63 : Nat) := by
  unfold checkBuffer
  by_cases h : size < 2 ^ (63 : Nat)
  · exact ⟨fun _ => h, fun _ => if_pos h⟩
  · rw [if_neg h]
    exact ⟨nofun, fun h' => absurd h' h⟩

theorem Packing.check_eq_ok {p : Packing} {u : Unit} : p.check = .ok u ↔ p.Valid := by
  unfold check
  split <;> simp [*]

theorem TileShape.check_eq_ok {t : TileShape} {u : Unit} : t.check = .ok u ↔ t.Valid := by
  unfold check
  split <;> simp [*]

theorem checkFloat_eq_ok {l : Layout} {u : Unit} :
    checkFloat l = .ok u ↔ l.dataType.isFloatingPoint := by
  unfold checkFloat
  split <;> simp [*]

theorem checkSameType_eq_ok {l r : Layout} {u : Unit} :
    checkSameType l r = .ok u ↔ l.dataType = r.dataType := by
  unfold checkSameType
  split <;> simp [*]

theorem checkSameShape_eq_ok {what : String} {l r : Layout} {u : Unit} :
    checkSameShape what l r = .ok u ↔ l.shape = r.shape := by
  unfold checkSameShape
  split <;> simp [*]

end TileCompute
