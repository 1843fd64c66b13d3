import TileCompute.Element

/-!
# TileCompute.Proofs.Elements

The element types that the multiply kernels are instantiated for. `Dispatched kind α` says that a
kernel runs at `α` when its operands are of the kind; there is such a type for every kind but
`s32`.
-/

namespace TileCompute

/-- The element type a kernel runs at, by the kind of its operands. -/
inductive Dispatched : (kind : ElementKind) → (α : Type) → [Element α] → Prop
  | binary32 : Dispatched .f32 Binary32
  | binary16 : Dispatched .f16 Binary16
  | q8 : Dispatched .qs8 Q8
  | q16 : Dispatched .qs16 Q16

namespace Dispatched

variable {kind : ElementKind} {α : Type} [Element α]

theorem kind_eq (h : Dispatched kind α) : Element.kind α = kind := by cases h <;> rfl

theorem ne_s32 (h : Dispatched kind α) : kind ≠ .s32 := by cases h <;> decide

/-- There is an element type for every kind that kernels accept. -/
theorem exists_of_ne (h : kind ≠ .s32) : ∃ (α : Type) (_ : Element α), Dispatched kind α := by
  cases kind with
  | f32 => exact ⟨_, _, binary32⟩
  | f16 => exact ⟨_, _, binary16⟩
  | qs8 => exact ⟨_, _, q8⟩
  | qs16 => exact ⟨_, _, q16⟩
  | s32 => exact absurd rfl h

theorem exists_of_isFloatingPoint {t : DataType} (h : t.isFloatingPoint) :
    ∃ (α : Type) (_ : Element α), Dispatched t.kind α := by
  cases t with
  | f32 => exact ⟨_, _, binary32⟩
  | f16 => exact ⟨_, _, binary16⟩
  | qs8 | qs16 | s32 => cases h

theorem toWord_lt {t : DataType} (h : Dispatched t.kind α) (a : α) :
    Element.toWord a < 256 ^ t.elementSize := by
  rw [DataType.elementSize, ← h.kind_eq]
  exact Element.toWord_lt a

/-- Fixed-point types round the product either way. -/
theorem fusedMulAdd_eq (h : Dispatched kind α) (hk : kind = .qs8 ∨ kind = .qs16) :
    Element.fusedMulAdd (α := α) = Element.mulAdd := by
  cases h
  case q8 => rfl
  case q16 => rfl
  all_goals simp at hk

end Dispatched
end TileCompute
