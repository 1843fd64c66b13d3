import TileCompute.Layer.Normalization
import TileCompute.Proofs.PooledValues

/-!
# TileCompute.Proofs.Neighbourhood

What a local response normalization adds up: the squares of the elements at most half the size of
the window away, along the axes of its region, row by row (`Normalization.neighbours`). The layer
computes where the window begins and ends instead, clipped at either edge of the tensor
(`Normalization.axis_eq_filter`). An axis is as good as another one: across the channels of a tensor
a normalization gives what along x it gives on the tensor with its x and z axes exchanged.

* `Normalization.window_eq_neighbours`: both find the same elements in the same order.
* `NormalizationLayer.load_run`: what an element holds after a run.
* `Normalization.neighbours_turned`: windows across channels and along x.
-/

namespace TileCompute

namespace Site

/-- The element with its x and z coordinates exchanged. -/
def turned (s : Site) : Site := ⟨s.z, s.y, s.x, s.w⟩

/-- Elements at most so far from each other along each of the first three axes. -/
def Within (radius : Nat) (s t : Site) : Prop :=
  (t.x ≤ s.x + radius ∧ s.x ≤ t.x + radius) ∧ (t.y ≤ s.y + radius ∧ s.y ≤ t.y + radius) ∧
    t.z ≤ s.z + radius ∧ s.z ≤ t.z + radius

instance (radius : Nat) (s t : Site) : Decidable (s.Within radius t) :=
  inferInstanceAs (Decidable (_ ∧ _))

theorem within_turned {radius : Nat} {s t : Site} :
    s.turned.Within radius t.turned ↔ s.Within radius t := by
  simp only [Within, turned]
  omega

end Site

/-- The extents of a shape with the x and z axes exchanged, the dimensions above folded. -/
structure Shape.Turned (s s' : Shape) : Prop where
  width : s'.x = s.z
  height : s'.y = s.y
  depth : s'.z = s.x
  batches : s'.upperSize 3 = s.upperSize 3

namespace Shape.Turned

variable {s s' : Shape} {t : Site}

theorem turned_mem (h : s.Turned s') (ht : t ∈ s.sites) : t.turned ∈ s'.sites := by
  obtain ⟨⟨hx, hy⟩, hz, hw⟩ := mem_sites.1 ht
  exact mem_sites.2 ⟨⟨h.width ▸ hz, h.height ▸ hy⟩, h.depth ▸ hx, h.batches ▸ hw⟩

end Shape.Turned

namespace Normalization

/-! ### The window -/

/-- The elements of the tensor on the axes of the region through an element, row by row. -/
def line (n : Normalization) (shape : Shape) (s : Site) : List Site :=
  match n.region with
  | .crossMap => (List.range shape.z).map fun z => { s with z }
  | .inMap1D => (List.range shape.x).map fun x => { s with x }
  | .inMap2D =>
    (List.range shape.y ×ˢ List.range shape.x).map fun c => { s with x := c.2, y := c.1 }

/-- Those of them in the window centred on the element. -/
def neighbours (n : Normalization) (shape : Shape) (s : Site) : List Site :=
  (n.line shape s).filter fun t => s.Within (n.size / 2) t

/-- The sum of the squares around an element. -/
def energy (n : Normalization) (shape : Shape) (value : Site → Binary32) (s : Site) : Binary32 :=
  ((n.neighbours shape s).map fun t => value t * value t).foldl (· + ·) .zero

/-- The value of an element over a power of the energy around it. -/
def normalized (n : Normalization) (shape : Shape) (value : Site → Binary32) (s : Site) :
    Binary32 :=
  value s * (n.kappa + n.coefficient * n.energy shape value s).pow (-n.beta)

variable {n : Normalization} {shape : Shape} {s : Site}

/-- The window along an axis is clipped at both ends of it. -/
theorem axis_eq_filter (centre extent : Nat) : n.axis centre extent =
    (List.range extent).filter fun i => i ≤ centre + n.size / 2 ∧ centre ≤ i + n.size / 2 := by
  have bounds (i : Nat) : (i ≤ centre + n.size / 2 ∧ centre ≤ i + n.size / 2) ↔
      centre - n.size / 2 ≤ i ∧ i < centre + n.size / 2 + 1 := by omega
  simp only [bounds]
  rw [filter_range_between, axis, List.Ico, Nat.min_comm]

theorem window_eq_neighbours : n.window shape s = n.neighbours shape s := by
  unfold window neighbours line
  cases n.region with
  | crossMap =>
    dsimp only
    rw [List.filter_map, axis_eq_filter]
    refine congrArg _ (List.filter_congr fun z _ => decide_eq_decide.2 ?_)
    simp only [Site.Within]
    omega
  | inMap1D =>
    dsimp only
    rw [List.filter_map, axis_eq_filter]
    refine congrArg _ (List.filter_congr fun x _ => decide_eq_decide.2 ?_)
    simp only [Site.Within]
    omega
  | inMap2D =>
    -- what is near in the plane is near along either axis
    have square := filter_product
      (fun y => decide (y ≤ s.y + n.size / 2 ∧ s.y ≤ y + n.size / 2))
      (fun x => decide (x ≤ s.x + n.size / 2 ∧ s.x ≤ x + n.size / 2))
      (List.range shape.y) (List.range shape.x)
    dsimp only
    rw [List.filter_map, axis_eq_filter, axis_eq_filter]
    refine Eq.trans ?_ (congrArg _ (square.symm.trans (List.filter_congr fun c _ => ?_)))
    · simp only [SProd.sprod, List.product, List.map_flatMap, List.map_map, Function.comp_def]
    · rw [← Bool.decide_and]
      refine decide_eq_decide.2 ?_
      simp only [Site.Within]
      omega

theorem neighbours_subset {t : Site} (hs : s ∈ shape.sites) (ht : t ∈ n.neighbours shape s) :
    t ∈ shape.sites := by
  have line := (List.mem_filter.1 ht).1
  obtain ⟨⟨hx, hy⟩, hz, hw⟩ := Shape.mem_sites.1 hs
  unfold Normalization.line at line
  split at line
  · obtain ⟨z, hz, rfl⟩ := List.mem_map.1 line
    exact Shape.mem_sites.2 ⟨⟨hx, hy⟩, List.mem_range.1 hz, hw⟩
  · obtain ⟨x, hx, rfl⟩ := List.mem_map.1 line
    exact Shape.mem_sites.2 ⟨⟨List.mem_range.1 hx, hy⟩, hz, hw⟩
  · obtain ⟨c, hc, rfl⟩ := List.mem_map.1 line
    obtain ⟨hy, hx⟩ := List.mem_product.1 hc
    exact Shape.mem_sites.2 ⟨⟨List.mem_range.1 hx, List.mem_range.1 hy⟩, hz, hw⟩

/-! ### Exchanged axes -/

/-- The normalization along x with the parameters of one across channels. -/
def alongX (n : Normalization) : Normalization := { n with region := .inMap1D }

variable {shape' : Shape} {value value' : Site → Binary32}

theorem neighbours_turned (across : n.region = .crossMap) (h : shape.Turned shape') :
    n.alongX.neighbours shape' s.turned = (n.neighbours shape s).map Site.turned := by
  have line : n.alongX.line shape' s.turned = (n.line shape s).map Site.turned := by
    unfold Normalization.line
    rw [across, h.width, List.map_map]
    rfl
  rw [neighbours, neighbours, line, List.filter_map]
  refine congrArg _ (List.filter_congr fun t _ => decide_eq_decide.2 ?_)
  exact Site.within_turned

theorem normalized_turned (across : n.region = .crossMap) (h : shape.Turned shape')
    (values : ∀ t ∈ shape.sites, value' t.turned = value t) (hs : s ∈ shape.sites) :
    n.alongX.normalized shape' value' s.turned = n.normalized shape value s := by
  have energy : n.alongX.energy shape' value' s.turned = n.energy shape value s := by
    rw [Normalization.energy, Normalization.energy, neighbours_turned across h, List.map_map]
    refine congrArg _ (List.map_congr_left fun t ht => ?_)
    rw [Function.comp_apply, values t (neighbours_subset hs ht)]
  have coefficient : n.alongX.coefficient = n.coefficient := by
    unfold Normalization.coefficient windowSize
    rw [across]
    rfl
  rw [normalized, normalized, energy, values s hs, coefficient]
  rfl

end Normalization

/-- A tensor that holds another one with the x and z axes exchanged. -/
structure View.Turned (v : View) (m : Memory) (v' : View) (m' : Memory) : Prop where
  shape : v.layout.shape.Turned v'.layout.shape
  type : v'.layout.dataType = v.layout.dataType
  elements : ∀ s ∈ v.layout.shape.sites,
    v'.load m' (v'.layout.site s.turned) = v.load m (v.layout.site s)

namespace NormalizationLayer

open Normalization

variable {input output : View} {n : Normalization} {l : NormalizationLayer} {m : Memory}

theorem configure_eq_ok : configure input output n = .ok l ↔
    ((input.layout.dataType.isFloatingPoint ∧
      input.layout.dataType = output.layout.dataType ∧
      input.layout.shape = output.layout.shape) ∧ n.size % 2 = 1) ∧ ⟨input, output, n⟩ = l := by
  simp only [configure, bind_eq_ok, reject_eq_ok, pure_eq_ok, checkFloat_eq_ok,
    checkSameType_eq_ok, checkSameShape_eq_ok, exists_const, Nat.mod_two_ne_zero]
  grind

/-- The values of the input by their elements. -/
def source (l : NormalizationLayer) (m : Memory) (s : Site) : Binary32 :=
  l.input.loadValue m (l.input.layout.site s)

theorem load_run (shape : l.input.layout.shape = l.output.layout.shape)
    (apart : l.input.buffer ≠ l.output.buffer) (fits : l.output.Fits m) {s : Site}
    (hs : s ∈ l.input.layout.shape.sites) :
    l.output.load (l.run m) (l.output.layout.site s) = l.output.layout.dataType.encode
      (l.normalization.normalized l.input.layout.shape (l.source m) s) := by
  let value (s : Site) (m : Memory) : Binary32 :=
    l.normalization.normalized l.input.layout.shape (l.source m) s
  have body : l.runSite = fun s m =>
      l.output.storeValue m (l.output.layout.site s) (value s m) := by
    funext s m
    rw [runSite, window_eq_neighbours]
    simp only [value, apply, normalized, energy, source, List.foldl_map]
  have stable (s : Site) (m : Memory) (o w : Nat) :
      value s (l.output.store m o w) = value s m := by
    simp only [value, normalized, energy, source, GemmConvolution.loadValue_store_other apart]
  have stored := View.load_launch_site stable fits (shape ▸ hs)
  rw [← shape] at stored
  rw [run, body]
  exact stored

/-- Every accepted normalization between two buffers leaves the value of each element over a power
of the energy around it. Across channels, each element gets what the same normalization along x
leaves for it on the tensor with exchanged axes. -/
theorem normalization_stored (hl : configure input output n = .ok l)
    (apart : input.buffer ≠ output.buffer) (fits : output.Fits m) :
    let shape := input.layout.shape
    n.size % 2 = 1 ∧
    (∀ s ∈ shape.sites, output.load (l.run m) (output.layout.site s) =
      output.layout.dataType.encode
        (n.normalized shape (fun t => input.loadValue m (input.layout.site t)) s)) ∧
    (n.region = .crossMap → ∀ {input' output' : View} {m' : Memory},
      input.Turned m input' m' → input'.buffer ≠ output'.buffer → output'.Fits m' →
      output'.layout.dataType = input'.layout.dataType →
      output'.layout.shape = input'.layout.shape →
      ∃ l', configure input' output' { n with region := .inMap1D } = .ok l' ∧
        ∀ s ∈ shape.sites, output'.load (l'.run m') (output'.layout.site s.turned) =
          output.load (l.run m) (output.layout.site s)) := by
  intro shape
  obtain ⟨⟨⟨float, type, same⟩, odd⟩, rfl⟩ := configure_eq_ok.1 hl
  have stored (s : Site) (hs : s ∈ shape.sites) :
      output.load (run ⟨input, output, n⟩ m) (output.layout.site s) =
        output.layout.dataType.encode
          (n.normalized shape (fun t => input.loadValue m (input.layout.site t)) s) :=
    load_run (l := ⟨input, output, n⟩) same apart fits hs
  refine ⟨odd, stored, ?_⟩
  intro across input' output' m' turned apart' fits' type' same'
  have configured : configure input' output' n.alongX = .ok ⟨input', output', n.alongX⟩ :=
    configure_eq_ok.2 ⟨⟨⟨turned.type ▸ float, type'.symm, same'.symm⟩, odd⟩, rfl⟩
  let values' (t : Site) : Binary32 := input'.loadValue m' (input'.layout.site t)
  have values (t : Site) (ht : t ∈ shape.sites) :
      values' t.turned = input.loadValue m (input.layout.site t) :=
    congrArg₂ DataType.decode turned.type (turned.elements t ht)
  refine ⟨_, configured, fun s hs => ?_⟩
  rw [stored s hs, ← normalized_turned across turned.shape values hs, ← type, ← turned.type,
    ← type']
  exact load_run (l := ⟨input', output', n.alongX⟩) same'.symm apart' fits'
    (turned.shape.turned_mem hs)

/-- Three channels of one element, and the same three elements in a row behind a border that holds
a NaN. The window at the first channel is clipped to two of them. -/
theorem normalization_stored_small :
    let input : View := ⟨0, .packed (.ofList [1, 1, 3]) .f16⟩
    let output : View := ⟨1, .packed (.ofList [1, 1, 3]) .f16⟩
    let row : View := ⟨0, .ofList [3], .f16, ⟨0, 0, 0, 1⟩⟩
    let result : View := ⟨1, .packed (.ofList [3]) .f16⟩
    let m : Memory := ⟨#[#[0, 60, 0, 64, 0, 66], .replicate 6 0]⟩
    let m' : Memory := ⟨#[#[255, 255, 0, 60, 0, 64, 0, 66], .replicate 6 0]⟩
    let n := Normalization.ofSize .crossMap 3
    ∃ l l', configure input output n = .ok l ∧
      configure row result (.ofSize .inMap1D 3) = .ok l' ∧
      n.neighbours input.layout.shape ⟨0, 0, 0, 0⟩ = [⟨0, 0, 0, 0⟩, ⟨0, 0, 1, 0⟩] ∧
      result.load (l'.run m') (result.layout.site ⟨0, 0, 0, 0⟩) =
        output.load (l.run m) (output.layout.site ⟨0, 0, 0, 0⟩) := by
  intro input output row result m m' n
  have hl : configure input output n = .ok ⟨input, output, n⟩ := by decide
  obtain ⟨-, -, along⟩ := normalization_stored (m := m) hl (by decide) (by decide)
  have turned : input.Turned m row m' :=
    ⟨⟨by decide, by decide, by decide, by decide⟩, rfl, by decide⟩
  have apart : row.buffer ≠ result.buffer := by decide
  obtain ⟨l', hl', same⟩ := along rfl turned apart (by decide) rfl rfl
  exact ⟨_, l', hl, hl', by decide, same ⟨0, 0, 0, 0⟩ (by decide)⟩

end NormalizationLayer
end TileCompute
