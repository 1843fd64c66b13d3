import TileCompute.Kernel.Machine
import TileCompute.Proofs.Checked

/-!
# TileCompute.Proofs.Machine

The machines next to each other. What one with words makes would also be made with room for every
number (`Machine.Sound`), and where the numbers fit nothing is lost: kernels are accepted and
refused alike, and they leave the same memory.

* `Machine.sound_exact`, `Machine.sound_words`: both machines are sound.
* `Reshape.configure?_eq`, `Multiply.configure?_eq`, `Addition.configure?_eq`: configuration, where
  the numbers that it forms fit.
* `Machine.words_runReshape`, `Machine.words_runMultiply`, `Machine.words_runAddition`: runs of
  kernels in range.
-/

namespace TileCompute

/-! ### Configuration in words -/

theorem raise_checkWords_bind {ε α : Type} {numbers : List Nat} (h : InWords numbers)
    (f : Unit → Except (Failure ε) α) : raise (checkWords numbers) >>= f = f () := by
  rw [checkWords, inWords?_of _ h]
  rfl

theorem Arrangement.outputLayout?_eq {g : Arrangement} {s t : Layout}
    (h : g.outputLayout s = .ok t) (shape : InWords (g.shapeNumbers s)) (made : InWords t.numbers) :
    g.outputLayout? s = .ok t := by
  rw [outputLayout?, h, ok_bind, checkWords, inWords?_of _ (inWords_append.2 ⟨shape, made⟩)]
  rfl

theorem Arrangement.outputLayout?_eq_ok {g : Arrangement} {s t : Layout} :
    g.outputLayout? s = .ok t ↔ g.outputLayout s = .ok t ∧ InWords (g.shapeNumbers s) ∧
      InWords t.numbers := by
  simp only [outputLayout?, bind_eq_ok, checkWords_eq_ok, pure_eq_ok, inWords_append]
  constructor
  · rintro ⟨_, h, -, words, rfl⟩
    exact ⟨h, words⟩
  · rintro ⟨h, words⟩
    exact ⟨t, h, (), words, rfl⟩

theorem Reshape.configure?_eq {g : Arrangement} {s t : Layout}
    (shape : InWords (g.shapeNumbers s)) (planes : InWords (planeNumbers ⟨g, s, t⟩))
    (rows : InWords [t.dim 1 * g.blocks]) : configure? g s t = refuse (configure g s t) := by
  simp only [configure?, raise_checkWords_bind shape, raise_checkWords_bind planes,
    raise_checkWords_bind rows]
  cases hcheck : Packing.check (packing ⟨g, s, t⟩) with
  | error e =>
    change (g.packing s.dataType).check = .error e at hcheck
    rw [configure, hcheck]
    rfl
  | ok _ =>
    cases hr : configure g s t with
    | error e => rfl
    | ok r =>
      obtain ⟨rfl, -⟩ := configure_eq_ok.1 hr
      rfl

theorem Multiply.configure?_eq {a b t : Layout} {alpha : Binary32} {config : Config}
    (path : InWords (pathNumbers ⟨a, b, t, alpha, config⟩))
    (target : InWords (t.shape.products 2 4))
    (left : InWords (a.shape.products 2 4)) (right : InWords (b.shape.products 2 4)) :
    configure? a b t alpha config = refuse (configure a b t alpha config) := by
  obtain ⟨gpu, path'⟩ := config
  cases path' with
  | reshaped h v =>
    obtain ⟨block, transposed⟩ := inWords_cons.1 path
    simp only [configure?, configure, check, checkReshaped, checkBatches,
      raise_checkWords_bind target, raise_checkWords_bind left, raise_checkWords_bind right,
      raise_checkWords_bind (inWords_singleton.2 block), raise_checkWords_bind transposed,
      refuse_bind, bind_assoc]
    rfl
  | direct tile =>
    simp only [configure?, configure, check, checkBatches, raise_checkWords_bind target,
      raise_checkWords_bind left, raise_checkWords_bind right, refuse_bind, bind_assoc]
    rfl

theorem Addition.configure?_eq {s t : Layout} {beta : Binary32}
    (planes : InWords (planeNumbers ⟨s, t, beta⟩)) :
    configure? s t beta = refuse (configure s t beta) :=
  raise_checkWords_bind planes _

namespace Machine

/-! ### What machines make -/

/-- A machine makes nothing but what there is with room for every number. -/
structure Sound (machine : Machine) : Prop where
  outputLayout : ∀ {g s t}, machine.outputLayout g s = .ok t → g.outputLayout s = .ok t
  reshape : ∀ {g s t r}, machine.reshape g s t = .ok r → Reshape.configure g s t = .ok r
  multiply : ∀ {a b t alpha config k}, machine.multiply a b t alpha config = .ok k →
    Multiply.configure a b t alpha config = .ok k
  addition : ∀ {s t beta k}, machine.addition s t beta = .ok k → Addition.configure s t beta = .ok k

theorem sound_exact : exact.Sound where
  outputLayout h := h
  reshape h := refuse_eq_ok.1 h
  multiply h := refuse_eq_ok.1 h
  addition h := refuse_eq_ok.1 h

theorem sound_words : words.Sound where
  outputLayout h := (Arrangement.outputLayout?_eq_ok.1 h).1
  reshape h := (Reshape.configure?_eq_ok.1 h).1
  multiply h := (Multiply.configure?_eq_ok.1 h).1
  addition h := (Addition.configure?_eq_ok.1 h).1

/-! ### Runs in words -/

variable {source target a b : BufferId}

theorem words_buffer {size : Nat} (h : size < 2 ^ 63) : words.buffer size = .ok () := if_pos h

theorem words_runReshape {r : Reshape} (hr : r.Accepted) (hin : r.InRange) (m : Memory) :
    words.runReshape r source target m = .ok (r.run source target m) := by
  show orArithmetic (r.run? source target m) = _
  rw [Reshape.run?_eq hr hin]
  rfl

theorem words_runMultiply {k : Multiply} (hk : k.Accepted) (hin : k.InRange) (m : Memory) :
    words.runMultiply k a b target m = .ok (k.run a b target m) := by
  show orArithmetic (k.run? a b target m) = _
  rw [Multiply.run?_eq hk hin]
  rfl

theorem words_runAddition {k : Addition} (hk : k.Accepted) (hin : k.InRange) (m : Memory) :
    words.runAddition k source target m = .ok (k.run source target m) := by
  show orArithmetic (k.run? source target m) = _
  rw [Addition.run?_eq hk hin]
  rfl

end Machine

end TileCompute
