import TileCompute.Layer.Pooling
import TileCompute.Proofs.Checks
import TileCompute.Proofs.Strips
import TileCompute.Proofs.WindowCount

/-!
# TileCompute.Proofs.PoolWindows

Where the windows of a pooling lie. A window starts some steps into the padded plane; it holds an
element of the input exactly when it starts before the input ends (`PoolSpan.meets_iff`), because
the padding before the input is narrower than a window. So all windows do if the last one along
either axis does.

The last window starts before the input ends when sizes are rounded down, and when they are
rounded up and a step and the padding behind the input fit in a window together
(`PoolingLayer.windows_meet_input`). Rounded up with longer steps, it may start in the padding
(`PoolingLayer.last_window_misses_input`).
-/

namespace TileCompute

namespace PoolSpan

/-- The span is valid and reaches an element of the input. -/
def Meets (s : PoolSpan) (before extent : Nat) : Prop :=
  s.Valid before ∧ s.inputs before extent ≠ []

theorem inputs_ne_nil {s : PoolSpan} {before extent : Nat} :
    s.inputs before extent ≠ [] ↔
      max s.first before - before < min (s.last - before) extent := by
  rw [inputs, ne_eq, List.range'_eq_nil_iff]
  omega

/-- With less padding than window before it, the input is met by the windows that start before it
ends. -/
theorem meets_iff {position stride size before extent after : Nat} (hsize : before < size)
    (hextent : 0 < extent) :
    (ofPosition position stride size before extent after).Meets before extent ↔
      position * stride < before + extent := by
  rw [Meets, inputs_ne_nil, Valid, ofPosition]
  dsimp only
  generalize position * stride = first
  omega

end PoolSpan

namespace Window

/-- Windows start before the input ends, if sizes are rounded down or a step and the padding behind
the input fit in a window. -/
theorem start_lt_end {rounding : Rounding} {extent before after size stride position : Nat}
    (hextent : 0 < extent) (hafter : after < size) (hstride : 0 < stride)
    (hfit : rounding = .floor ∨ stride + after ≤ size)
    (h : position < positions rounding (extent + (before + after)) size stride) :
    position * stride < before + extent := by
  cases rounding with
  | floor =>
    have hle := (lt_positions_floor hstride).1 h
    omega
  | ceil =>
    have hfit : stride + after ≤ size := hfit.resolve_left (by decide)
    cases position with
    | zero => omega
    | succ position =>
      have hlt := (succ_lt_positions_ceil hstride).1 h
      rw [Nat.succ_mul]
      omega

theorem positions_pos (rounding : Rounding) (total kernel stride : Nat) :
    0 < positions rounding total kernel stride := by
  cases rounding <;> exact Nat.succ_pos _

end Window

namespace PoolingLayer

variable {l : PoolingLayer} {s : Site}

/-- What holds of a pooling that was accepted. -/
structure Accepted (l : PoolingLayer) : Prop where
  strideX : 0 < l.window.strideX
  strideY : 0 < l.window.strideY
  left : l.window.left < l.size
  right : l.window.right < l.size
  top : l.window.top < l.size
  bottom : l.window.bottom < l.size
  width : l.output.layout.shape.x = Window.positions l.window.rounding
    (l.input.layout.shape.x + (l.window.left + l.window.right)) l.size l.window.strideX
  height : l.output.layout.shape.y = Window.positions l.window.rounding
    (l.input.layout.shape.y + (l.window.top + l.window.bottom)) l.size l.window.strideY
  depth : l.output.layout.shape.z = l.input.layout.shape.z
  batches : l.output.layout.shape.upperSize 3 = l.input.layout.shape.upperSize 3

theorem checkWindow_eq_ok {size : Nat} {w : Window} {u : Unit} : checkWindow size w = .ok u ↔
    (0 < w.strideX ∧ 0 < w.strideY) ∧ (w.left < size ∧ w.right < size) ∧
      w.top < size ∧ w.bottom < size := by
  simp only [checkWindow, reject_eq_ok, reject_last_eq_ok, pure_eq_ok, and_true]
  omega

theorem checkOutput_eq_ok {u : Unit} : l.checkOutput = .ok u ↔
    l.output.layout.shape.x = Window.positions l.window.rounding
        (l.input.layout.shape.x + (l.window.left + l.window.right)) l.size l.window.strideX ∧
      l.output.layout.shape.y = Window.positions l.window.rounding
        (l.input.layout.shape.y + (l.window.top + l.window.bottom)) l.size l.window.strideY ∧
      l.output.layout.shape.z = l.input.layout.shape.z ∧
      l.output.layout.shape.upperSize 3 = l.input.layout.shape.upperSize 3 := by
  unfold checkOutput Window.outputSize
  dsimp only
  split <;> simp [*]

theorem accepted_of_configure {input output : View} {p : Pooling}
    (h : configure input output p = .ok l) :
    l.Accepted ∧ l.input = input ∧ l.output = output := by
  simp only [configure, bind_eq_ok, pure_eq_ok, checkWindow_eq_ok, checkOutput_eq_ok] at h
  obtain ⟨_, -, _, -, ⟨size, w⟩, -, _, window, _, ⟨width, height, depth, batches⟩, rfl⟩ := h
  obtain ⟨⟨strideX, strideY⟩, ⟨left, right⟩, top, bottom⟩ := window
  exact ⟨⟨strideX, strideY, left, right, top, bottom, width, height, depth, batches⟩, rfl, rfl⟩

/-- The window at an output element is valid and holds elements of the input, so that there is
something to fold and to divide by. -/
structure MeetsInput (l : PoolingLayer) (s : Site) : Prop where
  valid : l.WindowValid s
  elements : l.elements s ≠ []
  area : l.area s ≠ 0

theorem elements_ne_nil : l.elements s ≠ [] ↔
    (l.spanX s).inputs l.window.left l.input.layout.shape.x ≠ [] ∧
      (l.spanY s).inputs l.window.top l.input.layout.shape.y ≠ [] := by
  rw [PoolingLayer.elements]
  cases (l.spanY s).inputs l.window.top l.input.layout.shape.y with
  | nil => simp
  | cons y ys => cases (l.spanX s).inputs l.window.left l.input.layout.shape.x <;> simp

theorem area_ne_zero (h : l.elements s ≠ []) : l.area s ≠ 0 := by
  obtain ⟨hx, hy⟩ := elements_ne_nil.1 h
  rw [PoolSpan.inputs_ne_nil] at hx hy
  unfold area
  split
  · exact List.length_eq_zero_iff.not.2 h
  · have hcellsX : (l.spanX s).cells ≠ 0 := by unfold PoolSpan.cells; omega
    have hcellsY : (l.spanY s).cells ≠ 0 := by unfold PoolSpan.cells; omega
    exact Nat.mul_ne_zero hcellsX hcellsY

theorem meetsInput_iff_spans : l.MeetsInput s ↔
    (l.spanX s).Meets l.window.left l.input.layout.shape.x ∧
      (l.spanY s).Meets l.window.top l.input.layout.shape.y := by
  constructor
  · intro h
    obtain ⟨hx, hy⟩ := elements_ne_nil.1 h.elements
    exact ⟨⟨h.valid.1, hx⟩, h.valid.2, hy⟩
  · rintro ⟨⟨validX, hx⟩, validY, hy⟩
    have elements := elements_ne_nil.2 ⟨hx, hy⟩
    exact ⟨⟨validX, validY⟩, elements, area_ne_zero elements⟩

theorem Accepted.meetsInput_iff (h : l.Accepted) (hx : 0 < l.input.layout.shape.x)
    (hy : 0 < l.input.layout.shape.y) : l.MeetsInput s ↔
      s.x * l.window.strideX < l.window.left + l.input.layout.shape.x ∧
        s.y * l.window.strideY < l.window.top + l.input.layout.shape.y := by
  rw [meetsInput_iff_spans]
  exact and_congr (PoolSpan.meets_iff h.left hx) (PoolSpan.meets_iff h.top hy)

/-- The last window along either axis starts before the input ends. -/
def LastMeets (l : PoolingLayer) : Prop :=
  (l.output.layout.shape.x - 1) * l.window.strideX < l.window.left + l.input.layout.shape.x ∧
    (l.output.layout.shape.y - 1) * l.window.strideY < l.window.top + l.input.layout.shape.y

theorem Accepted.all_meet_iff (h : l.Accepted) (hinput : 0 < l.input.layout.shape.size) :
    (∀ s ∈ l.output.layout.shape.sites, l.MeetsInput s) ↔ l.LastMeets := by
  obtain ⟨⟨hx, hy⟩, hz, hw⟩ := Shape.size_pos_iff.1 hinput
  simp only [h.meetsInput_iff hx hy, Shape.mem_sites]
  have hwidth : 0 < l.output.layout.shape.x := h.width ▸ Window.positions_pos ..
  have hheight : 0 < l.output.layout.shape.y := h.height ▸ Window.positions_pos ..
  constructor
  · intro hall
    refine hall ⟨l.output.layout.shape.x - 1, l.output.layout.shape.y - 1, 0, 0⟩ ⟨⟨?_, ?_⟩, ?_, ?_⟩
    · exact Nat.sub_one_lt_of_lt hwidth
    · exact Nat.sub_one_lt_of_lt hheight
    · exact h.depth ▸ hz
    · exact h.batches ▸ hw
  · rintro ⟨lastX, lastY⟩ s ⟨⟨sx, sy⟩, -⟩
    constructor
    · exact Nat.lt_of_le_of_lt (Nat.mul_le_mul_right _ (Nat.le_sub_one_of_lt sx)) lastX
    · exact Nat.lt_of_le_of_lt (Nat.mul_le_mul_right _ (Nat.le_sub_one_of_lt sy)) lastY

theorem Accepted.lastMeets (h : l.Accepted) (hx : 0 < l.input.layout.shape.x)
    (hy : 0 < l.input.layout.shape.y)
    (hfit : l.window.rounding = .floor ∨ l.window.strideX + l.window.right ≤ l.size ∧
      l.window.strideY + l.window.bottom ≤ l.size) : l.LastMeets := by
  constructor
  · refine Window.start_lt_end hx h.right h.strideX (hfit.imp_right And.left) ?_
    rw [← h.width]
    exact Nat.sub_one_lt_of_lt (h.width ▸ Window.positions_pos ..)
  · refine Window.start_lt_end hy h.bottom h.strideY (hfit.imp_right And.right) ?_
    rw [← h.height]
    exact Nat.sub_one_lt_of_lt (h.height ▸ Window.positions_pos ..)

/-- On an input with elements, the windows that meet it are those that start before it ends. All of
them do if the last ones do, which is so when sizes are rounded down, and when they are rounded up
but no window is narrower than a step together with the padding behind the input. -/
theorem windows_meet_input {input output : View} {p : Pooling} {l : PoolingLayer}
    (hl : configure input output p = .ok l) (hinput : 0 < input.layout.shape.size) :
    (∀ s, l.MeetsInput s ↔
      s.x * l.window.strideX < l.window.left + input.layout.shape.x ∧
        s.y * l.window.strideY < l.window.top + input.layout.shape.y) ∧
    ((∀ s ∈ output.layout.shape.sites, l.MeetsInput s) ↔ l.LastMeets) ∧
    (l.window.rounding = .floor ∨ l.window.strideX + l.window.right ≤ l.size ∧
      l.window.strideY + l.window.bottom ≤ l.size → l.LastMeets) := by
  obtain ⟨h, rfl, rfl⟩ := accepted_of_configure hl
  obtain ⟨⟨hx, hy⟩, -⟩ := Shape.size_pos_iff.1 hinput
  exact ⟨fun s => h.meetsInput_iff hx hy, h.all_meet_iff hinput, h.lastMeets hx hy⟩

/-- Sizes rounded up, with padding on three sides and windows that overlap by less than it. -/
theorem windows_meet_input_small :
    let input : View := ⟨0, .packed (.ofList [4, 3]) .f32⟩
    let output : View := ⟨1, .packed (.ofList [3, 2]) .f32⟩
    ∃ l, configure input output ⟨.average, .sliding 3 ⟨2, 2, 1, 1, 0, 1, .ceil⟩, true⟩ = .ok l ∧
      ∀ s ∈ output.layout.shape.sites, l.MeetsInput s := by
  intro input output
  have hl : configure input output ⟨.average, .sliding 3 ⟨2, 2, 1, 1, 0, 1, .ceil⟩, true⟩ =
      .ok ⟨input, output, .average, 3, ⟨2, 2, 1, 1, 0, 1, .ceil⟩, true⟩ := by decide
  obtain ⟨-, all, last⟩ := windows_meet_input hl (by decide)
  exact ⟨_, hl, all.2 (last (.inr ⟨by decide, by decide⟩))⟩

/-- Accepted poolings whose last window misses the input: one lies in the padding behind it, the
other starts past the padded plane, where a run fails. -/
theorem last_window_misses_input :
    (let input : View := ⟨0, .packed (.ofList [2, 2]) .f32⟩
     let output : View := ⟨1, .packed (.ofList [2, 1]) .f32⟩
     ∃ l, configure input output ⟨.max, .sliding 2 ⟨2, 2, 0, 1, 0, 0, .ceil⟩, false⟩ = .ok l ∧
       (⟨1, 0, 0, 0⟩ : Site) ∈ output.layout.shape.sites ∧ l.elements ⟨1, 0, 0, 0⟩ = []) ∧
    (let input : View := ⟨0, .packed (.ofList [2]) .f32⟩
     let output : View := ⟨1, .packed (.ofList [2]) .f32⟩
     ∃ l, configure input output ⟨.max, .sliding 1 ⟨3, 1, 0, 0, 0, 0, .ceil⟩, false⟩ = .ok l ∧
       ∀ m, l.run m = .error .arithmetic) := by
  constructor
  · exact ⟨_, rfl, by decide, by decide⟩
  · refine ⟨_, rfl, fun m => ?_⟩
    unfold run
    exact if_neg (by decide)

end PoolingLayer
end TileCompute
