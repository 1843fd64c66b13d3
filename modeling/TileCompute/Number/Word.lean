import TileCompute.Number.Rounding

/-!
# TileCompute.Number.Word

Machine words.

Sizes, strides, addresses and counts are natural numbers throughout this library. The machine keeps
them in unsigned words of 64 bits, where an operation whose result does not fit has none, just as a
division by zero has none. So that both can be told apart, whatever works out a size also lists the
numbers it forms on the way (`Layout.numbers`, `Grid.numbers` and so on); `InWords` says that they
all fit, and a definition with a question mark gives nothing if they do not.
-/

namespace TileCompute

/-- Numbers that fit in machine words. -/
def InWords (numbers : List Nat) : Prop := ∀ n ∈ numbers, n < 2 ^ (64 : Nat)

instance (numbers : List Nat) : Decidable (InWords numbers) :=
  inferInstanceAs (Decidable (∀ n ∈ numbers, n < 2 ^ (64 : Nat)))

/-- A result, unless a number formed on the way to it does not fit. -/
def inWords? {α : Type} (numbers : List Nat) (result : α) : Option α :=
  if InWords numbers then some result else none

@[simp] theorem inWords_nil : InWords [] := fun _ h => nomatch h

@[simp] theorem inWords_cons {n : Nat} {numbers : List Nat} :
    InWords (n :: numbers) ↔ n < 2 ^ (64 : Nat) ∧ InWords numbers := List.forall_mem_cons

theorem inWords_singleton {n : Nat} : InWords [n] ↔ n < 2 ^ (64 : Nat) := by
  rw [inWords_cons, and_iff_left inWords_nil]

@[simp] theorem inWords_append {numbers more : List Nat} :
    InWords (numbers ++ more) ↔ InWords numbers ∧ InWords more := List.forall_mem_append

theorem inWords?_eq_some {α : Type} {numbers : List Nat} {result a : α} :
    inWords? numbers result = some a ↔ InWords numbers ∧ result = a := by
  unfold inWords?
  split <;> simp [*]

theorem inWords?_of {α : Type} {numbers : List Nat} (result : α) (h : InWords numbers) :
    inWords? numbers result = some result := if_pos h

end TileCompute
