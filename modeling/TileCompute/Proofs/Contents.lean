import Mathlib.Data.List.Nodup
import TileCompute.Graph.Session
import TileCompute.Proofs.Addressable
import TileCompute.Proofs.Coordinates
import TileCompute.Proofs.Growth

/-!
# TileCompute.Proofs.Contents

What is written to a tensor and read back.

A list of words is stored element by element, at addresses that lie apart, so each element ends
with its own word and the list is read back as it was. Values are stored as words of the data type,
so they come back rounded. The bytes between the elements belong to none of them (`Layout.Occupies`)
and stay as they are, which in a new buffer is zero. All this asks for tensors that the machine can
address and, if there are values to convert, for a position of the binary point below 64.

* `View.words_storeWords`: stored words are read back.
* `View.byte_storeWords_other`: bytes of no element.
* `View.ofWords_eq_ok`: which lists fill a new tensor.
* `View.contents_kept`: new tensors from words and old ones from values.
-/

namespace TileCompute

namespace Shape

variable {s : Shape} {c : Coord} {i j : Nat}

theorem contains_coordOf (hi : i < s.size) : s.Contains (s.coordOf i) := by
  intro d
  have hpos := dim_pos_of_size_pos (Nat.lt_of_le_of_lt (Nat.zero_le i) hi) d
  simpa [coordOf] using Nat.mod_lt _ hpos

theorem contains_of_mem_coords (h : c ∈ s.coords) : s.Contains c := by
  obtain ⟨i, hi, rfl⟩ := List.mem_map.1 h
  exact contains_coordOf (List.mem_range.1 hi)

theorem coordOf_inj (hi : i < s.size) (hj : j < s.size) (h : s.coordOf i = s.coordOf j) :
    i = j := by
  have hitem : s.planes.item i = s.planes.item j := by
    rw [← cellOf_coordOf s hi, ← cellOf_coordOf s hj, h]
  rw [size_eq] at hi hj
  have hnodup := s.planes.nodup_items
  rw [Grid.items, List.nodup_map_iff_inj_on List.nodup_range] at hnodup
  exact hnodup i (List.mem_range.2 hi) j (List.mem_range.2 hj) hitem

end Shape

/-- A byte of a buffer that is part of an element. -/
def Layout.Occupies (l : Layout) (j : Nat) : Prop :=
  ∃ c, l.shape.Contains c ∧ l.offset c ≤ j ∧ j < l.offset c + l.elementSize

namespace View

variable {v u : View} {l : Layout} {m m' : Memory} {ws : List Nat} {values : List Binary32}

/-! ### Words -/

theorem storeWords_eq_fill (v : View) (m : Memory) (ws : List Nat) :
    v.storeWords m ws = v.fill (fun s : Coord × Nat => v.layout.offset s.1) (fun s _ => s.2)
      (v.layout.shape.coords.zip ws) m :=
  rfl

@[simp] theorem size_storeWords (v : View) (m : Memory) (ws : List Nat) (b : BufferId) :
    (v.storeWords m ws).size b = m.size b := by
  rw [storeWords_eq_fill, size_fill]

theorem byte_storeWords_other {b : BufferId} {j : Nat} (h : b = v.buffer → ¬v.layout.Occupies j) :
    (v.storeWords m ws).byte b j = m.byte b j := by
  rw [storeWords_eq_fill]
  apply byte_fill_other
  rintro hb ⟨c, w⟩ hs
  have hc := Shape.contains_of_mem_coords (List.of_mem_zip hs).1
  by_contra hbetween
  obtain ⟨lo, hi⟩ := not_or.1 hbetween
  exact h hb ⟨c, hc, Nat.le_of_not_lt lo, Nat.lt_of_not_le hi⟩

theorem zip_coords (s : Shape) (hlen : ws.length = s.size) :
    s.coords.zip ws = (List.range s.size).map fun i => (s.coordOf i, ws.getD i 0) := by
  apply List.ext_getElem
  · simp [Shape.coords, hlen]
  · intro i h1 h2
    have hi : i < s.size := by simpa using h2
    simp [Shape.coords, List.getD_eq_getElem?_getD, hlen, hi]

/-- Elements with different numbers may be stored in any order. -/
theorem separate_numbers (v : View) (ws : List Nat) :
    v.Separate (fun i => v.layout.offset (v.layout.shape.coordOf i)) (fun i _ => ws.getD i 0)
      (· < v.layout.shape.size) := by
  constructor
  · intro i j hi hj hne
    exact Layout.offset_apart (Shape.contains_coordOf hi) (Shape.contains_coordOf hj)
      fun h => hne (Shape.coordOf_inj hi hj h)
  · intro i j _ _ _ _ _
    rfl

theorem words_storeWords (fits : v.Fits m) (hlen : ws.length = v.layout.shape.size)
    (hwords : ∀ w ∈ ws, w < 256 ^ v.layout.elementSize) :
    v.words (v.storeWords m ws) = ws := by
  rw [storeWords_eq_fill, zip_coords _ hlen, fill_map]
  apply List.ext_getElem
  · rw [length_words, hlen]
  · intro i h1 h2
    have hi : i < v.layout.shape.size := by simpa using h1
    have hfit := Nat.le_trans (Layout.offset_add_le (Shape.contains_coordOf hi)) fits
    have hload := (v.separate_numbers ws).load_fill List.nodup_range
      (fun k hk => List.mem_range.1 hk) (List.mem_range.2 hi) hfit
    have hget : ws.getD i 0 = ws[i] := by simp [List.getD_eq_getElem?_getD, h2]
    simp only [words, Shape.coords, List.map_map, List.getElem_map, List.getElem_range,
      Function.comp_apply]
    rw [hload, hget]
    exact Nat.mod_eq_of_lt (hwords _ (List.getElem_mem h2))

/-! ### Values -/

theorem storeValues_eq_storeWords (v : View) (m : Memory) (values : List Binary32) :
    v.storeValues m values = v.storeWords m (values.map v.layout.dataType.encode) := by
  rw [storeWords, List.zip_map_right, List.foldl_map]
  rfl

theorem values_eq_words (v : View) (m : Memory) :
    v.values m = (v.words m).map v.layout.dataType.decode := by
  rw [words, List.map_map]
  rfl

theorem words_storeValues (fits : v.Fits m) (hlen : values.length = v.layout.shape.size) :
    v.words (v.storeValues m values) = values.map v.layout.dataType.encode := by
  rw [storeValues_eq_storeWords]
  apply words_storeWords fits
  · rw [List.length_map, hlen]
  · intro w hw
    obtain ⟨x, -, rfl⟩ := List.mem_map.1 hw
    exact v.layout.dataType.encode_lt x

theorem values_storeValues (fits : v.Fits m) (hlen : values.length = v.layout.shape.size) :
    v.values (v.storeValues m values) =
      values.map fun x => v.layout.dataType.decode (v.layout.dataType.encode x) := by
  rw [values_eq_words, words_storeValues fits hlen, List.map_map]
  rfl

variable {size : Nat}

theorem checkCount_eq_ok {count : Nat} {u : Unit} :
    v.checkCount count = .ok u ↔ count = v.layout.shape.size := by
  unfold checkCount
  split <;> simp [*]

theorem checkShift_eq_ok {t : DataType} {count : Nat} {u : Unit} :
    t.checkShift count = .ok u ↔ count = 0 ∨ t.frac < 64 := by
  unfold DataType.checkShift
  split <;> simp [*]

theorem checkValues_eq_ok {count : Nat} {u : Unit} : v.checkValues count = .ok u ↔
    InWords (v.layout.shape.products 0 6) ∧ count = v.layout.shape.size ∧
      (count = 0 ∨ v.layout.dataType.frac < 64) := by
  simp only [checkValues, bind_eq_ok, refuse_eq_ok, raise_eq_ok, checkWords_eq_ok,
    checkCount_eq_ok, checkShift_eq_ok, exists_and_left, exists_const]

theorem write_eq_ok : v.write values m = .ok m' ↔
    (InWords (v.layout.shape.products 0 6) ∧ values.length = v.layout.shape.size ∧
      (values.length = 0 ∨ v.layout.dataType.frac < 64)) ∧ v.storeValues m values = m' := by
  simp only [write, bind_eq_ok, pure_eq_ok, checkValues_eq_ok, exists_and_left, exists_const]

/-- A list of another length is refused before anything is converted. -/
theorem write_of_length_ne (words : InWords (v.layout.shape.products 0 6))
    (hlen : values.length ≠ v.layout.shape.size) : v.write values m =
      .error (.refused (.elementCount v.layout.shape.size v.layout.shape values.length)) := by
  rw [write, checkValues, checkWords, inWords?_of _ words, checkCount, if_neg hlen]
  rfl

theorem values?_eq_ok {back : List Binary32} : v.values? m = .ok back ↔
    (InWords (v.layout.shape.products 0 6) ∧
      (v.layout.shape.size = 0 ∨ v.layout.dataType.frac < 64)) ∧ v.values m = back := by
  simp only [values?, bind_eq_ok, pure_eq_ok, checkWords_eq_ok, checkShift_eq_ok, exists_and_left,
    exists_const, and_assoc]

theorem read_eq (words : InWords (v.layout.shape.products 0 6)) :
    v.read size m = if size = v.layout.elementSize then .ok (v.words m)
      else .error (.refused (.unsupportedDataType v.layout.dataType)) := by
  rw [read, checkWords, inWords?_of _ words]
  by_cases h : size = v.layout.elementSize <;> simp only [h, ne_eq, not_true, not_false_eq_true,
    if_true, if_false] <;> rfl

/-! ### New tensors -/

theorem size_alloc (l : Layout) (m : Memory) :
    (alloc l m).2.size (alloc l m).1.buffer = l.byteSize := by
  rw [alloc]
  exact (Memory.size_alloc ..).trans (if_pos rfl)

theorem fits_alloc (l : Layout) (m : Memory) : (alloc l m).1.Fits (alloc l m).2 :=
  Nat.le_of_eq (size_alloc l m).symm

theorem byte_alloc (l : Layout) (m : Memory) (j : Nat) :
    (alloc l m).2.byte (alloc l m).1.buffer j = 0 := by
  have hnew : m.size m.buffers.size = 0 := Memory.size_of_count_le (Nat.le_refl _)
  exact (Memory.byte_alloc ..).trans (Memory.byte_of_size_le (hnew ▸ Nat.zero_le j))

theorem alloc?_eq_ok {made : View × Memory} :
    alloc? l m = .ok made ↔ l.byteSize < 2 ^ 63 ∧ alloc l m = made := by
  simp only [alloc?, bind_eq_ok, pure_eq_ok, checkBuffer_eq_ok, exists_and_left, exists_const]

/-- Lists that fill a new tensor have items of the right size, one for each element. -/
theorem ofWords_eq_ok {made : View × Memory} (addressable : l.Addressable) :
    ofWords l size ws m = .ok made ↔ (size = l.elementSize ∧ ws.length = l.shape.size) ∧
      ((alloc l m).1, (alloc l m).1.storeWords (alloc l m).2 ws) = made := by
  have words := Layout.inWords_products addressable.words
  simp only [ofWords, reject_eq_ok, not_not, bind_eq_ok, raise_eq_ok, alloc?_eq_ok,
    checkWords_eq_ok, refuse_eq_ok, checkCount_eq_ok, pure_eq_ok]
  constructor
  · rintro ⟨hsize, _, ⟨-, rfl⟩, _, -, _, hlen, he⟩
    exact ⟨⟨hsize, hlen⟩, he⟩
  · rintro ⟨⟨hsize, hlen⟩, he⟩
    exact ⟨hsize, _, ⟨addressable.bytes, rfl⟩, (), words, (), hlen, he⟩

theorem ofWords_spec {ws : List Nat} (addressable : l.Addressable)
    (made : ofWords l l.elementSize ws m = .ok (u, m'))
    (hwords : ∀ w ∈ ws, w < 256 ^ l.elementSize) :
    u.layout = l ∧ m'.size u.buffer = l.byteSize ∧ u.read l.elementSize m' = .ok ws ∧
      (∀ j, ¬l.Occupies j → m'.byte u.buffer j = 0) ∧
      ∀ b, b ≠ u.buffer → ∀ j, m'.byte b j = m.byte b j := by
  obtain ⟨⟨-, hlen⟩, he⟩ := (ofWords_eq_ok addressable).1 made
  obtain ⟨rfl, rfl⟩ := Prod.mk.inj he
  refine ⟨rfl, ?_, ?_, ?_, ?_⟩
  · rw [size_storeWords, size_alloc]
  · have back := words_storeWords (fits_alloc l m) hlen hwords
    rw [read_eq (Layout.inWords_products addressable.words), back]
    exact if_pos rfl
  · intro j hj
    rw [byte_storeWords_other fun _ => hj, byte_alloc]
  · intro b hb j
    rw [byte_storeWords_other fun h => absurd h hb]
    exact Memory.byte_alloc ..

end View

/-! ### The round trip -/

namespace View

/-- What a tensor keeps of what is written to it. A list of words makes a new tensor exactly if it
has one word for each element; it is read back as it was and all other bytes are zero. Values
written to a tensor in any buffer are read back rounded to the data type, other bytes stay, and a
list of another length changes nothing. In both cases the elements are met in the order of an
odometer over the extents. -/
theorem contents_kept {l : Layout} (addressable : l.Addressable) {v : View} {m : Memory}
    (numbers : InWords v.layout.numbers) (fits : v.Fits m) :
    (∀ size ws, (∃ made, ofWords l size ws m = .ok made) ↔
      size = l.elementSize ∧ ws.length = l.shape.size) ∧
    (∀ ws u m', (∀ w ∈ ws, w < 256 ^ l.elementSize) →
      ofWords l l.elementSize ws m = .ok (u, m') →
      u.layout = l ∧ m'.size u.buffer = l.byteSize ∧ u.read l.elementSize m' = .ok ws ∧
        (∀ j, ¬l.Occupies j → m'.byte u.buffer j = 0) ∧
        ∀ b, b ≠ u.buffer → ∀ j, m'.byte b j = m.byte b j) ∧
    (∀ values : List Binary32, values.length = v.layout.shape.size →
      (values.length = 0 ∨ v.layout.dataType.frac < 64) →
      ∃ m', v.write values m = .ok m' ∧
        v.values? m' =
          .ok (values.map fun x => v.layout.dataType.decode (v.layout.dataType.encode x)) ∧
        ∀ b j, (b = v.buffer → ¬v.layout.Occupies j) → m'.byte b j = m.byte b j) ∧
    (∀ values : List Binary32, values.length ≠ v.layout.shape.size →
      ∃ e, v.write values m = .error (.refused e) ∧
        ∀ s : Session, s.device.memory = m →
          s.step (.write v values) = (.error (.refused e), s)) ∧
    ∀ s : Shape, s.Trimmed → s.visited = s.coords := by
  have words := Layout.inWords_products numbers
  refine ⟨?_, ?_, ?_, ?_, fun s => Shape.visited_eq_coords⟩
  · intro size ws
    simp only [ofWords_eq_ok addressable]
    constructor
    · rintro ⟨_, h, -⟩
      exact h
    · intro h
      exact ⟨_, h, rfl⟩
  · intro ws u m' hwords made
    exact ofWords_spec addressable made hwords
  · intro values hlen shift
    refine ⟨_, write_eq_ok.2 ⟨⟨words, hlen, shift⟩, rfl⟩, ?_, ?_⟩
    · rw [hlen] at shift
      exact values?_eq_ok.2 ⟨⟨words, shift⟩, values_storeValues fits hlen⟩
    · intro b j hj
      rw [storeValues_eq_storeWords]
      exact byte_storeWords_other hj
  · intro values hlen
    refine ⟨_, write_of_length_ne words hlen, ?_⟩
    intro s hs
    rw [Session.step, hs, write_of_length_ne words hlen]

/-- Half precision planes of one row, with a border above and to the left of it. -/
theorem contents_kept_bordered :
    let l : Layout := ⟨.ofList [2, 1, 2], .f16, ⟨1, 0, 0, 1⟩⟩
    let (v, m) := alloc l .empty
    let words := [1, 2, 3, 65535]
    let values : List Binary32 := [.one, .zero, .zero, .one]
    (l.Addressable ∧ InWords v.layout.numbers ∧ v.Fits m) ∧
      (∃ u m', ofWords l 2 words m = .ok (u, m') ∧ u.read 2 m' = .ok words ∧
        m'.byte u.buffer 0 = 0) ∧
      (∃ m', v.write values m = .ok m' ∧ v.values? m' = .ok values ∧ m'.byte 0 0 = 0) ∧
      (∃ e, v.write [.one] m = .error (.refused e)) ∧
      l.shape.visited = l.shape.coords := by
  intro l
  dsimp only
  have addressable : l.Addressable := by decide
  have fits := fits_alloc l .empty
  have outside : ¬l.Occupies 0 := by
    rintro ⟨c, -, lo, -⟩
    have start : l.start = 8 := by decide
    have := l.start_le_offset c
    omega
  obtain ⟨filled, made, written, refused, order⟩ :=
    contents_kept addressable (v := (alloc l .empty).1) addressable.words fits
  refine ⟨⟨addressable, addressable.words, fits⟩, ?_, ?_, ?_, order _ (Shape.trimmed_ofList _)⟩
  · obtain ⟨⟨u, m'⟩, hok⟩ := (filled 2 [1, 2, 3, 65535]).2 (by decide)
    obtain ⟨-, -, back, zero, -⟩ := made _ u m' (by decide) hok
    exact ⟨u, m', hok, back, zero 0 outside⟩
  · obtain ⟨m', hok, back, other⟩ := written [.one, .zero, .zero, .one] (by decide) (by decide)
    refine ⟨m', hok, back.trans (by decide), ?_⟩
    rw [other 0 0 fun _ => outside]
    decide
  · obtain ⟨e, he, -⟩ := refused [.one] (by decide)
    exact ⟨e, he⟩

/-- A value is not written where the binary point lies behind all the bits of a machine word. -/
theorem write_fails_behind_word :
    let l : Layout := .packed (.ofList [1]) (.qs8 64)
    let (v, m) := alloc l .empty
    (l.Addressable ∧ v.Fits m ∧ [Binary32.one].length = l.shape.size) ∧
      v.write [.one] m = .error (.fault .arithmetic) := by decide

end View
end TileCompute
