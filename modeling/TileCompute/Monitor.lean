import TileCompute.Memory

/-!
# TileCompute.Monitor

Runs that are watched.

A kernel is written once, over any monad that takes note of two things: what must hold for the run
to go on, and every word that is put into memory. Read in `Id` the kernel just runs. Read in
`Option` it stops with nothing as soon as something that must hold does not. Read in `Recorded` it
runs and keeps the list of its stores.

What holds anyway passes in all three, and in the first and the last everything does
(`Monitor.Grants`).
-/

namespace TileCompute

/-- A word put into a buffer. -/
structure Store where
  buffer : BufferId
  offset : Nat
  size : Nat
  word : Nat
deriving DecidableEq, Repr

/-- A monad in which a kernel can run. -/
class Monitor (M : Type → Type) extends Monad M where
  /-- The run goes on only if this holds. -/
  require : (p : Prop) → [Decidable p] → M Unit
  /-- A word is about to be put into memory. -/
  record : Store → M Unit

instance : Monitor Id where
  require _ := ()
  record _ := ()

instance : Monitor Option where
  require p := if p then some () else none
  record _ := some ()

/-- A result and the stores made on the way to it, in order. -/
structure Recorded (α : Type) where
  result : α
  stores : List Store
deriving DecidableEq, Repr

namespace Recorded

instance : Monitor Recorded where
  pure a := ⟨a, []⟩
  bind x f := ⟨(f x.result).result, x.stores ++ (f x.result).stores⟩
  require _ := ⟨(), []⟩
  record s := ⟨(), [s]⟩

@[simp] theorem result_pure {α : Type} (a : α) : (pure a : Recorded α).result = a := rfl

@[simp] theorem stores_pure {α : Type} (a : α) : (pure a : Recorded α).stores = [] := rfl

@[simp] theorem result_bind {α β : Type} (x : Recorded α) (f : α → Recorded β) :
    (x >>= f).result = (f x.result).result := rfl

@[simp] theorem stores_bind {α β : Type} (x : Recorded α) (f : α → Recorded β) :
    (x >>= f).stores = x.stores ++ (f x.result).stores := rfl

instance : LawfulMonad Recorded :=
  LawfulMonad.mk' Recorded (fun x => congrArg (Recorded.mk x.result) (List.append_nil _))
    (fun _ _ => rfl) (fun _ _ _ => congrArg (Recorded.mk _) (List.append_assoc ..))

end Recorded

namespace Monitor

/-- Whatever follows from `Q` is let pass: a plain and a recorded run let everything pass, a checked
run what holds. -/
def Grants (M : Type → Type) [Monitor M] (Q : Prop) : Prop :=
  ∀ (p : Prop) [Decidable p], (Q → p) → (require p : M Unit) = pure ()

theorem grants_id (Q : Prop) : Grants Id Q := fun _ _ _ => rfl

theorem grants_recorded (Q : Prop) : Grants Recorded Q := fun _ _ _ => rfl

theorem grants_option {Q : Prop} (hQ : Q) : Grants Option Q := fun _ _ h => if_pos (h hQ)

theorem Grants.bind {M : Type → Type} [Monitor M] [LawfulMonad M] {Q p : Prop} [Decidable p]
    {α : Type} (hM : Grants M Q) (h : Q → p) (f : Unit → M α) : require p >>= f = f () := by
  rw [hM p h, pure_bind]

end Monitor

end TileCompute
