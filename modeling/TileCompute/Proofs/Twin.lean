import Mathlib.Order.Defs.PartialOrder
import TileCompute.Proofs.Cells
import TileCompute.Proofs.Coverage
import TileCompute.Proofs.Growth

/-!
# TileCompute.Proofs.Twin

Two memories side by side. A *pairing* says which buffers of one memory stand for which of the
other, and which of their bytes are known to be equal. Two memories are twins under a pairing when
those bytes are equal; what is in other bytes, and in buffers that stand for nothing, does not
matter. Storing the same word to both makes its bytes known (`Pairing.Twin.store`), so a tensor
that is written completely becomes known completely, whatever it held before.

* `Pairing.Twin.load_cell`: known elements are read alike.
* `Pairing.Twin.accumulate`: what a loop has written is known after it.
* `Pairing.Respects`: what leaves twins twins, when all that is read and written is known.
-/

namespace TileCompute

/-- Buffers of two memories that stand for each other. -/
structure Pairing where
  /-- So far both buffers reach, or neither does. -/
  room : BufferId → BufferId → Nat → Prop
  /-- Bytes that are equal. -/
  known : BufferId → BufferId → Nat → Prop
  aligned : ∀ {b b' i}, known b b' i → room b b' i
  unique : ∀ {b b' i c c' j}, room b b' i → room c c' j → (b = c ↔ b' = c')

namespace Pairing

/-- A pairing knows less than another. -/
instance : Preorder Pairing where
  le R R' := (∀ b b' i, R.room b b' i → R'.room b b' i) ∧
    ∀ b b' i, R.known b b' i → R'.known b b' i
  le_refl _ := ⟨fun _ _ _ h => h, fun _ _ _ h => h⟩
  le_trans _ _ _ h h' :=
    ⟨fun b b' i hr => h'.1 b b' i (h.1 b b' i hr), fun b b' i hk => h'.2 b b' i (h.2 b b' i hk)⟩

variable {R R' : Pairing} {b b' s s' : BufferId} {J J' : Nat → Prop} {l : Layout}
  {cells : Cell → Prop}

/-- More bytes of two buffers become known. -/
def tell (R : Pairing) (s s' : BufferId) (J : Nat → Prop) : Pairing where
  room := R.room
  known b b' i := R.known b b' i ∨ (b = s ∧ b' = s') ∧ J i ∧ R.room s s' i
  aligned := by
    rintro b b' i (h | ⟨⟨rfl, rfl⟩, -, h⟩)
    · exact R.aligned h
    · exact h
  unique := R.unique

/-- Two more buffers stand for each other, nothing of them being known. -/
def add (R : Pairing) (s s' : BufferId) (J : Nat → Prop)
    (fresh : ∀ {b b' i}, R.room b b' i → b ≠ s ∧ b' ≠ s') : Pairing where
  room b b' i := R.room b b' i ∨ (b = s ∧ b' = s') ∧ J i
  known := R.known
  aligned h := .inl (R.aligned h)
  unique := by
    rintro b b' i c c' j (h | ⟨⟨rfl, rfl⟩, -⟩) (h' | ⟨⟨rfl, rfl⟩, -⟩)
    · exact R.unique h h'
    · exact iff_of_false (fresh h).1 (fresh h).2
    · exact iff_of_false (fresh h').1.symm (fresh h').2.symm
    · exact iff_of_true rfl rfl

theorem le_tell (R : Pairing) (s s' : BufferId) (J : Nat → Prop) : R ≤ R.tell s s' J :=
  ⟨fun _ _ _ h => h, fun _ _ _ h => .inl h⟩

theorem tell_mono (h : R ≤ R') (hJ : ∀ j, J j → J' j) : R.tell s s' J ≤ R'.tell s s' J' := by
  refine ⟨h.1, ?_⟩
  rintro b b' i (hk | ⟨hb, hj, hr⟩)
  · exact .inl (h.2 _ _ _ hk)
  · exact .inr ⟨hb, hJ _ hj, h.1 _ _ _ hr⟩

theorem tell_le (h : ∀ j, J j → R.known s s' j) : R.tell s s' J ≤ R := by
  refine ⟨fun _ _ _ hr => hr, ?_⟩
  rintro b b' i (hk | ⟨⟨rfl, rfl⟩, hj, -⟩)
  · exact hk
  · exact h _ hj

theorem tell_or_le (R : Pairing) (s s' : BufferId) (J J' : Nat → Prop) :
    R.tell s s' (fun j => J j ∨ J' j) ≤ (R.tell s s' J).tell s s' J' := by
  refine ⟨fun _ _ _ hr => hr, ?_⟩
  rintro b b' i (hk | ⟨hb, hj | hj, hr⟩)
  · exact .inl (.inl hk)
  · exact .inl (.inr ⟨hb, hj, hr⟩)
  · exact .inr ⟨hb, hj, hr⟩

theorem le_add (fresh : ∀ {b b' i}, R.room b b' i → b ≠ s ∧ b' ≠ s') : R ≤ R.add s s' J fresh :=
  ⟨fun _ _ _ h => .inl h, fun _ _ _ h => h⟩

/-- All bytes of two buffers are equal. -/
def Whole (R : Pairing) (b b' : BufferId) : Prop := ∀ i, R.known b b' i

/-- Two buffers both have room for a layout, or both end at the same place before. -/
def Room (R : Pairing) (l : Layout) (b b' : BufferId) : Prop := ∀ j < l.byteSize, R.room b b' j

end Pairing

/-- Bytes of the element at an address. -/
def Layout.Word (l : Layout) (o j : Nat) : Prop := o ≤ j ∧ j < o + l.elementSize

/-- Bytes of some elements of a layout. -/
def Layout.Span (l : Layout) (cells : Cell → Prop) (j : Nat) : Prop :=
  ∃ c, cells c ∧ l.Word (l.cell c) j

namespace Pairing

variable {R R' : Pairing} {b b' s s' : BufferId} {J J' : Nat → Prop} {l : Layout}
  {cells : Cell → Prop}

/-- Some elements of two buffers are equal. -/
def Knows (R : Pairing) (l : Layout) (cells : Cell → Prop) (b b' : BufferId) : Prop :=
  ∀ j, l.Span cells j → R.known b b' j

theorem Whole.mono (h : R.Whole b b') (hR : R ≤ R') : R'.Whole b b' := fun i => hR.2 _ _ _ (h i)

theorem Whole.room (h : R.Whole b b') (l : Layout) : R.Room l b b' := fun _ _ => R.aligned (h _)

theorem Whole.knows (h : R.Whole b b') (l : Layout) (cells : Cell → Prop) :
    R.Knows l cells b b' := fun _ _ => h _

theorem Knows.mono (h : R.Knows l cells b b') (hR : R ≤ R') : R'.Knows l cells b b' :=
  fun j hj => hR.2 _ _ _ (h j hj)

theorem Room.mono (h : R.Room l b b') (hR : R ≤ R') : R'.Room l b b' :=
  fun j hj => hR.1 _ _ _ (h j hj)

theorem Room.span (h : R.Room l b b') (hin : ∀ c, cells c → l.HasCell c) {j : Nat}
    (hj : l.Span cells j) : R.room b b' j := by
  obtain ⟨c, hc, -, hlt⟩ := hj
  exact h j (Nat.lt_of_lt_of_le hlt (Layout.cell_add_le (hin c hc)))

/-- What was told of a tensor is known. -/
theorem Room.knows_tell (h : R.Room l s s') (hin : ∀ c, cells c → l.HasCell c) :
    (R.tell s s' (l.Span cells)).Knows l cells s s' :=
  fun _ hj => .inr ⟨⟨rfl, rfl⟩, hj, h.span hin hj⟩

/-- Memories whose known bytes are equal. -/
structure Twin (R : Pairing) (m m' : Memory) : Prop where
  room : ∀ {b b' i}, R.room b b' i → (i < m.size b ↔ i < m'.size b')
  byte : ∀ {b b' i}, R.known b b' i → m.byte b i = m'.byte b' i

namespace Twin

variable {m m' : Memory}

theorem mono (h : R'.Twin m m') (hR : R ≤ R') : R.Twin m m' :=
  ⟨fun hr => h.room (hR.1 _ _ _ hr), fun hk => h.byte (hR.2 _ _ _ hk)⟩

theorem add (h : R.Twin m m') (fresh : ∀ {b b' i}, R.room b b' i → b ≠ s ∧ b' ≠ s')
    (hroom : ∀ j, J j → (j < m.size s ↔ j < m'.size s')) : (R.add s s' J fresh).Twin m m' := by
  refine ⟨?_, h.byte⟩
  rintro b b' i (hr | ⟨⟨rfl, rfl⟩, hj⟩)
  · exact h.room hr
  · exact hroom i hj

theorem tell (h : R.Twin m m') (hbyte : ∀ j, J j → m.byte s j = m'.byte s' j) :
    (R.tell s s' J).Twin m m' := by
  refine ⟨h.room, ?_⟩
  rintro b b' i (hk | ⟨⟨rfl, rfl⟩, hj, -⟩)
  · exact h.byte hk
  · exact hbyte i hj

/-- The bytes of a word stored to both memories are known. -/
theorem store (h : R.Twin m m') {o : Nat} (word : Nat)
    (hroom : ∀ j, l.Word o j → R.room s s' j) :
    (R.tell s s' (l.Word o)).Twin (View.store ⟨s, l⟩ m o word)
      (View.store ⟨s', l⟩ m' o word) := by
  unfold View.store
  constructor
  · intro b b' i hr
    rw [Memory.size_store, Memory.size_store]
    exact h.room hr
  · intro b b' i hk
    rw [Memory.byte_store, Memory.byte_store]
    -- inside the word the buffers are the ones stored to on both sides or on neither
    by_cases hin : l.Word o i
    · have room : R.room b b' i := (R.tell s s' _).aligned hk
      have same := R.unique room (hroom i hin)
      have reach := h.room room
      by_cases hs : s = b ∧ i < m.size b
      · rw [if_pos ⟨hs.1, hin.1, hin.2, hs.2⟩,
          if_pos ⟨(same.1 hs.1.symm).symm, hin.1, hin.2, reach.1 hs.2⟩]
      · rw [if_neg fun hc => hs ⟨hc.1, hc.2.2.2⟩,
          if_neg fun hc => hs ⟨(same.2 hc.1.symm).symm, reach.2 hc.2.2.2⟩]
        rcases hk with hk | ⟨⟨rfl, rfl⟩, -, -⟩
        · exact h.byte hk
        · have past : ¬i < m.size b := fun hlt => hs ⟨rfl, hlt⟩
          rw [Memory.byte_of_size_le (Nat.not_lt.1 past),
            Memory.byte_of_size_le (Nat.not_lt.1 fun hlt => past (reach.2 hlt))]
    · rw [if_neg fun hc => hin ⟨hc.2.1, hc.2.2.1⟩, if_neg fun hc => hin ⟨hc.2.1, hc.2.2.1⟩]
      rcases hk with hk | ⟨-, hj, -⟩
      · exact h.byte hk
      · exact absurd hj hin

/-- Nothing paired changes while buffers are allocated. -/
theorem grow {n n' : Memory} (h : R.Twin m m')
    (present : ∀ {b b' i}, R.room b b' i → b < m.buffers.size ∧ b' < m'.buffers.size)
    (hn : m.Grows n) (hn' : m'.Grows n') (byte : ∀ b i, n.byte b i = m.byte b i)
    (byte' : ∀ b i, n'.byte b i = m'.byte b i) : R.Twin n n' where
  room hr := by
    rw [hn.size _ (present hr).1, hn'.size _ (present hr).2]
    exact h.room hr
  byte hk := by
    rw [byte, byte']
    exact h.byte hk

/-- Two tensors that stood for nothing so far stand for each other. -/
theorem exists_slot (h : R.Twin m m') (hs : View.Fits ⟨s, l⟩ m) (hs' : View.Fits ⟨s', l⟩ m')
    (fresh : ∀ {b b' i}, R.room b b' i → b ≠ s ∧ b' ≠ s') :
    ∃ R', R ≤ R' ∧ R'.Twin m m' ∧ R'.Room l s s' ∧
      ∀ {b b' i}, R'.room b b' i → R.room b b' i ∨ b = s ∧ b' = s' := by
  refine ⟨R.add s s' (· < l.byteSize) fresh, le_add fresh, h.add fresh fun j hj => ?_,
    fun j hj => .inr ⟨⟨rfl, rfl⟩, hj⟩, ?_⟩
  · exact iff_of_true (Nat.lt_of_lt_of_le hj hs) (Nat.lt_of_lt_of_le hj hs')
  · exact fun hr => hr.imp id And.left

theorem load_at (h : R.Twin m m') {o : Nat}
    (hk : ∀ j, l.Word o j → R.known b b' j) :
    View.load ⟨b, l⟩ m o = View.load ⟨b', l⟩ m' o :=
  Memory.load_congr fun _ hlt =>
    h.byte (hk _ ⟨Nat.le_add_right .., Nat.add_lt_add_left hlt _⟩)

theorem load_cell (h : R.Twin m m') (hk : R.Knows l cells b b') {c : Cell} (hc : cells c) :
    View.load ⟨b, l⟩ m (l.cell c) = View.load ⟨b', l⟩ m' (l.cell c) :=
  h.load_at fun _ hj => hk _ ⟨c, hc, hj⟩

theorem load (h : R.Twin m m') (hw : R.Whole b b') (l : Layout) (o : Nat) :
    View.load ⟨b, l⟩ m o = View.load ⟨b', l⟩ m' o :=
  h.load_at fun _ _ => hw _

theorem loadValue (h : R.Twin m m') (hw : R.Whole b b') (l : Layout) (o : Nat) :
    View.loadValue ⟨b, l⟩ m o = View.loadValue ⟨b', l⟩ m' o :=
  congrArg l.dataType.decode (h.load hw l o)

/-- A tensor that stands for itself is read alike. -/
theorem read (h : R.Twin m m') {v : View} (hv : R.Whole v.buffer v.buffer) (o : Nat) :
    v.loadValue m o = v.loadValue m' o := h.loadValue hv v.layout o

theorem values (h : R.Twin m m') (hw : R.Whole b b') (l : Layout) :
    View.values ⟨b, l⟩ m = View.values ⟨b', l⟩ m' :=
  List.map_congr_left fun _ _ => h.loadValue hw l _

/-- A loop that makes more and more bytes of a buffer known, by induction on what is left to do. -/
theorem accumulate_from {ι : Type} {items : List ι} {f f' : ι → Memory → Memory}
    {K : ι → Nat → Prop} (hf : ∀ i ∈ items, ∀ (J : Nat → Prop) m m',
      (R.tell s s' J).Twin m m' → (R.tell s s' fun j => J j ∨ K i j).Twin (f i m) (f' i m'))
    (h : (R.tell s s' J).Twin m m') :
    (R.tell s s' fun j => J j ∨ ∃ i ∈ items, K i j).Twin (runItems items f m)
      (runItems items f' m') := by
  induction items generalizing J m m' with
  | nil => exact h.mono (tell_mono le_rfl fun _ hj => hj.elim id (by simp))
  | cons i items ih =>
    -- `J` carries what the steps before this one made known
    rw [runItems_cons, runItems_cons]
    have first := hf i List.mem_cons_self J m m' h
    refine (ih (fun k hk => hf k (List.mem_cons_of_mem _ hk)) first).mono ?_
    refine tell_mono le_rfl fun j hj => ?_
    simpa only [List.mem_cons, exists_eq_or_imp, or_assoc] using hj

theorem accumulate {ι : Type} {items : List ι} (f f' : ι → Memory → Memory)
    {K : ι → Nat → Prop} (hf : ∀ i ∈ items, ∀ (J : Nat → Prop) m m',
      (R.tell s s' J).Twin m m' → (R.tell s s' fun j => J j ∨ K i j).Twin (f i m) (f' i m'))
    (h : R.Twin m m') :
    (R.tell s s' fun j => ∃ i ∈ items, K i j).Twin (runItems items f m)
      (runItems items f' m') :=
  (accumulate_from hf (h.mono (tell_le fun _ hj => hj.elim))).mono
    (tell_mono (J := fun j => ∃ i ∈ items, K i j) le_rfl fun _ hj => Or.inr (a := False) hj)

/-- Storing the same values to elements of two tensors. -/
theorem fill {value value' : Cell → Memory → Nat} {cs : List Cell} (h : R.Twin m m')
    (room : R.Room l s s') (hcs : ∀ c ∈ cs, l.HasCell c)
    (hval : ∀ c ∈ cs, ∀ m m', R.Twin m m' → value c m = value' c m') :
    (R.tell s s' (l.Span (· ∈ cs))).Twin (View.fill ⟨s, l⟩ l.cell value cs m)
      (View.fill ⟨s', l⟩ l.cell value' cs m') := by
  refine accumulate (fun c m => View.store ⟨s, l⟩ m (l.cell c) (value c m))
    (fun c m => View.store ⟨s', l⟩ m (l.cell c) (value' c m))
    (fun c hc J m m' hJ => ?_) h
  rw [hval c hc m m' (hJ.mono (le_tell ..))]
  have fits := Layout.cell_add_le (hcs c hc)
  exact (hJ.store _ fun j hj => room j (Nat.lt_of_lt_of_le hj.2 fits)).mono (tell_or_le ..)

/-- A launch whose work-items each compute their elements before they store them. -/
theorem launch {g : Grid} {cells : WorkItem → List Cell} {owner : Cell → WorkItem}
    {body body' : WorkItem → Memory → Memory} {value value' : Cell → Memory → Nat}
    (h : R.Twin m m') (shares : Shares g l.HasCell cells owner) (room : R.Room l s s')
    (hbody : ∀ item ∈ g.items, ∀ m, body item m =
      View.fill ⟨s, l⟩ l.cell (fun c _ => value c m) (cells item) m)
    (hbody' : ∀ item ∈ g.items, ∀ m, body' item m =
      View.fill ⟨s', l⟩ l.cell (fun c _ => value' c m) (cells item) m)
    (hval : ∀ item ∈ g.items, ∀ c ∈ cells item, ∀ m m', R.Twin m m' → value c m = value' c m') :
    (R.tell s s' (l.Span l.HasCell)).Twin (g.launch body m) (g.launch body' m') := by
  refine (accumulate body body' (K := fun item => l.Span (· ∈ cells item))
    (fun item hitem J m m' hJ => ?_) h).mono (tell_mono le_rfl ?_)
  · have hR := R.le_tell s s' J
    rw [hbody item hitem, hbody' item hitem]
    refine (hJ.fill (room.mono hR) (fun c hc => ?_) fun c hc _ _ _ => ?_).mono (tell_or_le ..)
    · exact ((shares.mem_iff item hitem c).1 hc).1
    · exact hval item hitem c hc m m' (hJ.mono hR)
  · rintro j ⟨c, hc, span⟩
    have owned := shares.owner_mem c hc
    exact ⟨owner c, owned, c, (shares.mem_iff _ owned c).2 ⟨hc, rfl⟩, span⟩

end Twin

/-- Twins stay twins, and both memories keep their buffers. -/
structure Respects (R : Pairing) (f f' : Memory → Memory) : Prop where
  twin : ∀ {m m'}, R.Twin m m' → R.Twin (f m) (f' m')
  left : ∀ m : Memory, m.Grows (f m)
  right : ∀ m : Memory, m.Grows (f' m)

namespace Respects

variable {f f' g g' : Memory → Memory}

theorem refl (R : Pairing) : R.Respects id id := ⟨fun h => h, .refl, .refl⟩

theorem comp (hf : R.Respects f f') (hg : R.Respects g g') :
    R.Respects (fun m => g (f m)) fun m => g' (f' m) :=
  ⟨fun h => hg.twin (hf.twin h), fun m => (hf.left m).trans (hg.left _),
    fun m => (hf.right m).trans (hg.right _)⟩

/-- What depends on the memory before may, when it is the same on both sides. -/
theorem given {α : Type} {x x' : Memory → α} (f f' : α → Memory → Memory)
    (hx : ∀ {m m'}, R.Twin m m' → x m = x' m') (hf : ∀ a, R.Respects (f a) (f' a)) :
    R.Respects (fun m => f (x m) m) fun m => f' (x' m) m :=
  ⟨fun h => hx h ▸ (hf _).twin h, fun m => (hf _).left m, fun m => (hf _).right m⟩

theorem store (hs : R.Whole s s') (l : Layout) (o : Nat) {word word' : Memory → Nat}
    (hw : ∀ {m m'}, R.Twin m m' → word m = word' m') :
    R.Respects (fun m => View.store ⟨s, l⟩ m o (word m))
      fun m => View.store ⟨s', l⟩ m o (word' m) :=
  given (fun w m => View.store ⟨s, l⟩ m o w) (fun w m => View.store ⟨s', l⟩ m o w) hw fun w =>
    ⟨fun h => (h.store w fun _ _ => R.aligned (hs _)).mono (le_tell ..),
      fun _ => .store .., fun _ => .store ..⟩

theorem storeValue (hs : R.Whole s s') (l : Layout) (o : Nat) {x x' : Memory → Binary32}
    (hx : ∀ {m m'}, R.Twin m m' → x m = x' m') :
    R.Respects (fun m => View.storeValue ⟨s, l⟩ m o (x m))
      fun m => View.storeValue ⟨s', l⟩ m o (x' m) :=
  store hs l o fun h => congrArg l.dataType.encode (hx h)

theorem runItems {ι : Type} {items : List ι} {f f' : ι → Memory → Memory}
    (hf : ∀ i ∈ items, R.Respects (f i) (f' i)) :
    R.Respects (runItems items f) (TileCompute.runItems items f') := by
  induction items with
  | nil => exact .refl R
  | cons i items ih =>
    exact (hf i List.mem_cons_self).comp (ih fun k hk => hf k (List.mem_cons_of_mem _ hk))

end Respects
end Pairing
end TileCompute
