import Mathlib.Data.Multiset.AddSub
import TileCompute.Proofs.PoolUse

/-!
# TileCompute.Proofs.Reuse

Running the same layers again allocates nothing. A pass over the pool opens scopes and closes them
latest first. After one pass the pool holds enough for every later one, although the later passes
may be handed other blocks than the first was.

What matters of the free list is the multiset of its lengths. A multiset *serves* a list of
requests when it has a block of its own for each. Best fit never wastes a block: if the free list
serves a request and others after it, then without the block that best fit takes it still serves
the others (`Serves.take_shortest`). So whatever was served by any choice of blocks is served by
the choices of best fit.

* `Serves.take_shortest`: the exchange.
* `Reserve`: what the free list still serves while scopes are open; one step in `replay_step`.
* `PoolUse.passes_allocate_nothing`: any number of further passes.
-/

namespace TileCompute

/-- Lengths from which every request can have one of its own. -/
inductive Serves : Multiset Nat → List Nat → Prop where
  | nil (sizes : Multiset Nat) : Serves sizes []
  | cons {sizes : Multiset Nat} {requests : List Nat} {size request : Nat} (long : request ≤ size)
      (rest : Serves sizes requests) : Serves (size ::ₘ sizes) (request :: requests)

namespace Serves

variable {sizes more : Multiset Nat} {requests others : List Nat} {size longer request : Nat}

theorem add (h : Serves sizes requests) (h' : Serves more others) :
    Serves (sizes + more) (requests ++ others) := by
  induction h with
  | nil sizes =>
    induction h' with
    | nil _ => exact .nil _
    | cons long _ ih => rw [Multiset.add_cons]; exact .cons long ih
  | cons long _ ih => rw [Multiset.cons_add]; exact .cons long ih

theorem mono (h : Serves sizes requests) (hle : sizes ≤ more) : Serves more requests := by
  obtain ⟨extra, rfl⟩ := Multiset.le_iff_exists_add.1 hle
  simpa using h.add (.nil extra)

/-- A longer block does as well. -/
theorem lengthen (h : Serves (size ::ₘ sizes) requests) (hle : size ≤ longer) :
    Serves (longer ::ₘ sizes) requests := by
  generalize hall : size ::ₘ sizes = all at h
  induction h generalizing sizes with
  | nil _ => exact .nil _
  | cons long rest ih =>
    rcases Multiset.cons_eq_cons.1 hall with ⟨rfl, rfl⟩ | ⟨-, others, rfl, rfl⟩
    · exact .cons (Nat.le_trans long hle) rest
    · rw [Multiset.cons_swap]
      exact .cons long (ih rfl)

/-- The exchange: a request may take a shortest block that is long enough. If the block set aside
for it was another one, that one replaces the block that is taken. -/
theorem take_shortest (h : Serves (size ::ₘ sizes) (request :: requests))
    (shortest : ∀ s ∈ sizes, request ≤ s → size ≤ s) : Serves sizes requests := by
  generalize hall : size ::ₘ sizes = all at h
  cases h with
  | cons long rest =>
    rcases Multiset.cons_eq_cons.1 hall with ⟨-, rfl⟩ | ⟨-, others, rfl, rfl⟩
    · exact rest
    · exact rest.lengthen (shortest _ (Multiset.mem_cons_self _ _) long)

theorem exists_long (h : Serves sizes (request :: requests)) : ∃ s ∈ sizes, request ≤ s := by
  cases h with
  | cons long _ => exact ⟨_, Multiset.mem_cons_self _ _, long⟩

end Serves

/-- The lengths of blocks. -/
def lengths (blocks : List Block) : Multiset Nat := blocks.map Block.size

@[simp] theorem lengths_append (xs ys : List Block) :
    lengths (xs ++ ys) = lengths xs + lengths ys := by
  simp [lengths]

@[simp] theorem lengths_cons (x : Block) (xs : List Block) :
    lengths (x :: xs) = x.size ::ₘ lengths xs := rfl

theorem lengths_perm {xs ys : List Block} (h : xs.Perm ys) : lengths xs = lengths ys :=
  Multiset.coe_eq_coe.2 (h.map _)

theorem mem_lengths {xs : List Block} {s : Nat} : s ∈ lengths xs ↔ ∃ b ∈ xs, b.size = s := by
  simp [lengths]

theorem serves_of_long {layouts : List Layout} {blocks : List Block}
    (h : List.Forall₂ (fun layout block => layout.byteSize ≤ block.size) layouts blocks) :
    Serves (lengths blocks) (layouts.map Layout.byteSize) := by
  induction h with
  | nil => exact .nil _
  | cons long _ ih => exact .cons long ih

namespace Device

/-- The lengths of the free blocks. -/
def freeLengths (d : Device) : Multiset Nat := lengths d.pool.free

variable {d d' : Device} {size : Nat} {block : Block} {layouts : List Layout} {requests : List Nat}

/-- Requests only ever add blocks. -/
theorem Acquired.freeLengths_le (h : d.Acquired size block d') :
    d.freeLengths ≤ block.size ::ₘ d'.freeLengths := by
  cases h with
  | reused _ _ taken => exact (lengths_perm taken).le
  | allocated => exact Multiset.le_cons_self _ _

theorem freeLengths_acquireAll_le (layouts : List Layout) (d : Device) :
    d.freeLengths ≤ lengths (ScratchGroup.acquireAll layouts d).1 +
      (ScratchGroup.acquireAll layouts d).2.freeLengths := by
  induction layouts generalizing d with
  | nil => simp [ScratchGroup.acquireAll, lengths]
  | cons layout rest ih =>
    refine (d.acquired layout.byteSize).freeLengths_le.trans ?_
    rw [ScratchGroup.acquireAll, lengths_cons, Multiset.cons_add]
    exact Multiset.cons_le_cons _ (ih _)

/-- Device `d'` with blocks of `taken` borrowed from the free ones of `d`, none of them new. -/
structure Lends (d : Device) (taken : Multiset Nat) (d' : Device) : Prop where
  free : d.freeLengths = taken + d'.freeLengths
  allocations : d'.pool.allocations = d.pool.allocations

theorem Acquired.lends (h : d.Acquired size block d')
    (serves : Serves d.freeLengths (size :: requests)) :
    d.Lends {block.size} d' ∧ Serves d'.freeLengths requests := by
  cases h with
  | reused _ _ taken _ shortest =>
    have hfree : d.freeLengths = block.size ::ₘ lengths _ := lengths_perm taken
    refine ⟨⟨hfree, rfl⟩, (hfree ▸ serves).take_shortest fun s hs long => ?_⟩
    obtain ⟨b, hb, rfl⟩ := mem_lengths.1 hs
    exact shortest b (taken.mem_iff.2 (List.mem_cons_of_mem _ hb)) long
  | allocated short =>
    obtain ⟨s, hs, long⟩ := serves.exists_long
    obtain ⟨b, hb, rfl⟩ := mem_lengths.1 hs
    exact absurd (short b hb) (Nat.not_lt_of_le long)

/-- What the free list serves after a scope was opened is what it served besides the scope. -/
theorem lends_acquireAll (serves : Serves d.freeLengths (layouts.map Layout.byteSize ++ requests)) :
    d.Lends (lengths (ScratchGroup.acquireAll layouts d).1) (ScratchGroup.acquireAll layouts d).2 ∧
      Serves (ScratchGroup.acquireAll layouts d).2.freeLengths requests := by
  induction layouts generalizing d with
  | nil => exact ⟨⟨(Multiset.zero_add _).symm, rfl⟩, serves⟩
  | cons layout rest ih =>
    obtain ⟨first, serves⟩ := (d.acquired layout.byteSize).lends serves
    obtain ⟨others, serves⟩ := ih serves
    refine ⟨⟨?_, others.allocations.trans first.allocations⟩, serves⟩
    rw [first.free, others.free, ScratchGroup.acquireAll, lengths_cons, ← Multiset.singleton_add,
      Multiset.add_assoc]

@[simp] theorem freeLengths_releaseAll (blocks : List Block) (d : Device) :
    (blocks.foldl Device.release d).freeLengths = d.freeLengths + lengths blocks := by
  rw [freeLengths, free_releaseAll, lengths_append]
  rfl

end Device

namespace PoolUse

/-- The requests that are served while scopes are open, the earliest scope first. -/
def requests : List ScratchGroup → List Nat
  | [] => []
  | group :: earlier => requests earlier ++ group.layouts.map Layout.byteSize

/-- The lengths of the blocks of all open scopes. -/
def lent (scopes : List Scope) : Multiset Nat := lengths (scopes.flatMap Scope.blocks)

theorem lent_cons (s : Scope) (rest : List Scope) :
    lent (s :: rest) = lengths s.blocks + lent rest :=
  lengths_append _ _

theorem serves_lent {scopes : List Scope} (h : ∀ s ∈ scopes, s.Filled) :
    Serves (lent scopes) (requests (scopes.map Scope.group)) := by
  induction scopes with
  | nil => exact .nil _
  | cons s rest ih =>
    obtain ⟨filled, h⟩ := List.forall_mem_cons.1 h
    rw [lent_cons, Multiset.add_comm]
    exact (ih h).add (serves_of_long filled.blocks)

/-- The lengths of the free blocks and of those that scopes borrowed. -/
def total (u : PoolUse) : Multiset Nat := u.device.freeLengths + lent u.scopes

/-- What the free list still serves while scopes are open: all that `total` serves besides the
requests of these scopes, and so again when the latest one is closed. -/
def Reserve (total : Multiset Nat) : List Scope → Multiset Nat → Prop
  | [], free => free = total
  | s :: earlier, free =>
    (∀ later, Serves total (requests ((s :: earlier).map Scope.group) ++ later) →
      Serves free later) ∧
    Reserve total earlier (free + lengths s.blocks)

theorem Reserve.serves {total free : Multiset Nat} {scopes : List Scope} {later : List Nat}
    (h : Reserve total scopes free)
    (hs : Serves total (requests (scopes.map Scope.group) ++ later)) : Serves free later := by
  cases scopes with
  | nil => exact h.symm ▸ hs
  | cons s earlier => exact h.1 later hs

/-- A later pass `v` at the same place as an earlier one `u`. -/
structure Replays (total : Multiset Nat) (u v : PoolUse) : Prop where
  sound : v.Sound
  held : v.held = u.held
  groups : v.scopes.map Scope.group = u.scopes.map Scope.group
  reserve : Reserve total v.scopes v.device.freeLengths

end PoolUse

/-- An event of a pass: a scope is opened, the latest one is closed, or memory changes. -/
def PoolEvent.Nested : PoolEvent → Prop
  | .acquire _ | .release _ => False
  | .closeScope i => i = 0
  | .openScope _ | .allocate _ | .store .. => True

namespace PoolUse

variable {u v u' : PoolUse} {e : PoolEvent} {total : Multiset Nat}

theorem step?_closeScope {s : Scope} {rest : List Scope} (h : u.scopes = s :: rest)
    (hp : s.group.pooled) : u.step? (.closeScope 0) =
      some ⟨s.blocks.foldl Device.release u.device, u.held, rest⟩ := by
  simp [step?, h, Scope.close_of_pooled hp]

theorem exists_of_closeScope (h : u.step? (.closeScope 0) = some u') :
    ∃ s rest, u.scopes = s :: rest := by
  cases hs : u.scopes with
  | nil => simp [step?, hs] at h
  | cons s rest => exact ⟨s, rest, rfl⟩

/-- Blocks held by hand stay, and no block is lost. -/
structure Keeps (u u' : PoolUse) : Prop where
  held : u'.held = u.held
  total : u.total ≤ u'.total

theorem Keeps.step (hn : e.Nested) (hu : u.Sound) (hs : u.step? e = some u') : u.Keeps u' := by
  cases e with
  | acquire size => exact hn.elim
  | release i => exact hn.elim
  | openScope group =>
    rw [step?_openScope (pooled_of_openScope hs)] at hs
    cases hs
    refine ⟨rfl, ?_⟩
    rw [PoolUse.total, PoolUse.total, lent_cons, ← Multiset.add_assoc,
      Multiset.add_comm (Device.freeLengths _) (lengths _)]
    exact Multiset.add_le_add_right (Device.freeLengths_acquireAll_le group.layouts u.device)
  | closeScope i =>
    obtain rfl : i = 0 := hn
    obtain ⟨s, rest, he⟩ := exists_of_closeScope hs
    have hp := (hu.filled s (he ▸ List.mem_cons_self)).pooled
    rw [step?_closeScope he hp] at hs
    cases hs
    refine ⟨rfl, ?_⟩
    rw [PoolUse.total, PoolUse.total, Device.freeLengths_releaseAll, he, lent_cons,
      Multiset.add_assoc]
  | allocate size => cases hs; exact ⟨rfl, le_rfl⟩
  | store b i size word => cases hs; exact ⟨rfl, le_rfl⟩

theorem Keeps.run {events : List PoolEvent} (hn : ∀ e ∈ events, e.Nested) (hu : u.Sound)
    (hr : u.run? events = some u') : u.Keeps u' := by
  induction events generalizing u with
  | nil => cases hr; exact ⟨rfl, le_rfl⟩
  | cons e rest ih =>
    obtain ⟨he, hn⟩ := List.forall_mem_cons.1 hn
    obtain ⟨w, hw, hr⟩ := Option.bind_eq_some_iff.1 hr
    have first := Keeps.step he hu hw
    have others := ih hn (hu.step hw) hr
    exact ⟨others.held.trans first.held, first.total.trans others.total⟩

theorem replay_step (hn : e.Nested) (hu : u.Sound) (h : Replays total u v)
    (hs : u.step? e = some u') (hle : u'.total ≤ total) :
    ∃ v', v.step? e = some v' ∧ Replays total u' v' ∧
      v'.device.pool.allocations = v.device.pool.allocations := by
  have hu' := hu.step hs
  suffices hv : ∃ v', v.step? e = some v' ∧ v'.held = u'.held ∧
      v'.scopes.map Scope.group = u'.scopes.map Scope.group ∧
      Reserve total v'.scopes v'.device.freeLengths ∧
      v'.device.pool.allocations = v.device.pool.allocations by
    obtain ⟨v', hv, held, groups, reserve, allocations⟩ := hv
    exact ⟨v', hv, ⟨h.sound.step hv, held, groups, reserve⟩, allocations⟩
  cases e with
  | acquire size => exact hn.elim
  | release i => exact hn.elim
  | openScope group =>
    have hp := pooled_of_openScope hs
    rw [step?_openScope hp] at hs
    cases hs
    refine ⟨_, step?_openScope hp, h.held, by rw [List.map_cons, List.map_cons, h.groups], ?_⟩
    -- the scopes that the first pass had open at this place were all served by `total`
    have served : Serves total (requests (u.scopes.map Scope.group) ++
        group.layouts.map Layout.byteSize) :=
      (serves_lent hu'.filled).mono ((Multiset.le_add_left _ _).trans hle)
    rw [← h.groups] at served
    have free := h.reserve.serves served
    rw [← List.append_nil (group.layouts.map _)] at free
    obtain ⟨lends, -⟩ := Device.lends_acquireAll free
    refine ⟨⟨fun later hl => ?_, ?_⟩, lends.allocations⟩
    · rw [List.map_cons, requests, List.append_assoc] at hl
      exact (Device.lends_acquireAll (h.reserve.serves hl)).2
    · rw [Multiset.add_comm, ← lends.free]
      exact h.reserve
  | closeScope i =>
    obtain rfl : i = 0 := hn
    obtain ⟨s, rest, he⟩ := exists_of_closeScope hs
    have hgroups := h.groups
    rw [he, List.map_cons] at hgroups
    obtain ⟨t, rest', he', ht, hrest⟩ := List.map_eq_cons_iff.1 hgroups
    have hp := (hu.filled s (he ▸ List.mem_cons_self)).pooled
    rw [step?_closeScope he hp] at hs
    cases hs
    refine ⟨_, step?_closeScope he' (ht ▸ hp), h.held, hrest, ?_, Device.allocations_releaseAll _ _⟩
    have reserve := h.reserve
    rw [he'] at reserve
    rw [Device.freeLengths_releaseAll]
    exact reserve.2
  | allocate size =>
    cases hs
    exact ⟨_, rfl, h.held, h.groups, h.reserve, rfl⟩
  | store b i size word =>
    cases hs
    exact ⟨_, rfl, h.held, h.groups, h.reserve, rfl⟩

theorem replay {events : List PoolEvent} (hn : ∀ e ∈ events, e.Nested) (hu : u.Sound)
    (h : Replays total u v) (hr : u.run? events = some u') (hle : u'.total ≤ total) :
    ∃ v', v.run? events = some v' ∧ Replays total u' v' ∧
      v'.device.pool.allocations = v.device.pool.allocations := by
  induction events generalizing u v with
  | nil => cases hr; exact ⟨v, rfl, h, rfl⟩
  | cons e rest ih =>
    obtain ⟨he, hn⟩ := List.forall_mem_cons.1 hn
    obtain ⟨w, hw, hr⟩ := Option.bind_eq_some_iff.1 hr
    have hwle : w.total ≤ total := (Keeps.run hn (hu.step hw) hr).total.trans hle
    obtain ⟨x, hx, hwx, same⟩ := replay_step he hu h hw hwle
    obtain ⟨v', hv', h', same'⟩ := ih hn (hu.step hw) hwx hr
    exact ⟨v', Option.bind_eq_some_iff.2 ⟨x, hx, hv'⟩, h', same'.trans same⟩

theorem Replays.restart {w : PoolUse} (h : Replays total v w) (held : u.held = v.held)
    (scopes : u.scopes = v.scopes) : Replays total u w :=
  ⟨h.sound, h.held.trans held.symm, scopes ▸ h.groups, h.reserve⟩

theorem Replays.closed {w : PoolUse} (h : Replays total v w) (held : v.held = [])
    (closed : v.scopes = []) :
    w.scopes = [] ∧ w.device.pool.free.length = w.device.pool.allocations := by
  have hw : w.scopes = [] := List.map_eq_nil_iff.1 (h.groups.trans (by rw [closed, List.map_nil]))
  have hcount := h.sound.accounts.count
  rw [used, h.held, held, hw] at hcount
  exact ⟨hw, by simpa using hcount⟩

theorem run?_append (u : PoolUse) (xs ys : List PoolEvent) :
    u.run? (xs ++ ys) = (u.run? xs).bind fun v => v.run? ys :=
  List.foldlM_append ..

theorem replay_passes {pass : List PoolEvent} {w : PoolUse} (hn : ∀ e ∈ pass, e.Nested)
    (hu : u.Sound) (hr : u.run? pass = some v) (scopes : u.scopes = v.scopes)
    (h : Replays v.total v w) (n : Nat) :
    ∃ w', w.run? (List.replicate n pass).flatten = some w' ∧ Replays v.total v w' ∧
      w'.device.pool.allocations = w.device.pool.allocations := by
  induction n generalizing w with
  | zero => exact ⟨w, rfl, h, rfl⟩
  | succ n ih =>
    have again := h.restart (Keeps.run hn hu hr).held.symm scopes
    obtain ⟨x, hx, h, same⟩ := replay hn hu again hr le_rfl
    obtain ⟨y, hy, h, same'⟩ := ih h
    refine ⟨y, ?_, h, same'.trans same⟩
    rw [List.replicate_succ, List.flatten_cons, run?_append, hx]
    exact hy

/-- Once a pool whose buffers were all given back has gone through a pass of scopes opened and
closed latest first, any number of further passes allocates nothing, and each leaves every buffer
of the pool free. -/
theorem passes_allocate_nothing {m : Memory} {history pass : List PoolEvent} {u v : PoolUse}
    (hu : (PoolUse.start m).run? history = some u) (held : u.held = []) (scopes : u.scopes = [])
    (nested : ∀ e ∈ pass, e.Nested) (hv : u.run? pass = some v) (closed : v.scopes = []) (n : Nat) :
    ∃ w, v.run? (List.replicate n pass).flatten = some w ∧ w.scopes = [] ∧
      w.device.pool.allocations = v.device.pool.allocations ∧
      w.device.pool.free.length = w.device.pool.allocations := by
  have sound := (Sound.start m).run hu
  have all : v.device.freeLengths = v.total := by simp [PoolUse.total, closed, lent, lengths]
  have first : Replays v.total v v := by
    refine ⟨sound.run hv, rfl, rfl, ?_⟩
    rw [closed]
    exact all
  obtain ⟨w, hw, h, allocations⟩ :=
    replay_passes nested sound hv (scopes.trans closed.symm) first n
  obtain ⟨closed, free⟩ := h.closed ((Keeps.run nested sound hv).held.trans held) closed
  exact ⟨w, hw, closed, allocations, free⟩

/-- A layer of two slots around one of a single slot. On the second pass the slots of four bytes
are handed each other's blocks of the first. -/
theorem passes_allocate_nothing_small :
    let outer : ScratchGroup := ⟨true, [.packed (.ofList [2]) .f32, .packed (.ofList [1]) .f32], []⟩
    let inner : ScratchGroup := ⟨true, [.packed (.ofList [1]) .f32], []⟩
    let m : Memory := ⟨#[Array.replicate 6 0, Array.replicate 8 0, Array.replicate 4 0]⟩
    let v : PoolUse := ⟨⟨m, ⟨[⟨2, 4⟩, ⟨1, 8⟩, ⟨0, 6⟩], 3⟩⟩, [], []⟩
    ∃ w, v.run? (List.replicate 2
        [.openScope outer, .openScope inner, .closeScope 0, .closeScope 0]).flatten = some w ∧
      w.scopes = [] ∧ w.device.pool.allocations = 3 ∧
      w.device.pool.free.length = w.device.pool.allocations := by
  intro outer inner m v
  let u : PoolUse := ⟨⟨⟨#[Array.replicate 6 0]⟩, ⟨[⟨0, 6⟩], 1⟩⟩, [], []⟩
  have hu : (start .empty).run? [.acquire 6, .release 0] = some u := by decide
  have hv : u.run? [.openScope outer, .openScope inner, .closeScope 0, .closeScope 0] = some v := by
    decide
  have nested : ∀ e ∈ [PoolEvent.openScope outer, .openScope inner, .closeScope 0, .closeScope 0],
      e.Nested := by
    simp [PoolEvent.Nested]
  exact passes_allocate_nothing hu rfl rfl nested hv rfl 2

end PoolUse
end TileCompute
