import TileCompute.Proofs.FixedWords

/-!
# TileCompute.Proofs.FixedSequence

Sequences of fixed-point operations. Each operation works on values made before it, named by their
numbers, and makes one more. A sequence is carried out on values (`FixedOp.value`), on words, where
asserts may fail and intermediates overflow (`FixedOp.word?`), and on formats alone
(`FixedOp.format?`): that is how a sequence is seen to respect the agreements about widths and
positions before anything is calculated.

* `FixedOp.exists_word?`: one operation on words whose formats agree.
* `FixedOp.exists_runFrom?_word?`: a sequence, by induction on its operations.
* `FixedOp.law_value`: what an operation gives, in exact numbers.
* `FixedOp.run_lawful`: all of it for every value of a sequence.
-/

namespace TileCompute

/-- What operands have to agree in. -/
structure FixedFormat where
  width : FixedWidth
  frac : Nat
deriving DecidableEq, Repr

def Fixed.format (v : Fixed) : FixedFormat := ⟨v.width, v.frac⟩

/-- A fixed-point operation. Its operands are values, the words or formats of values, or the numbers
of values in a list. -/
inductive FixedOp (α : Type) where
  | ofRaw (raw : Int64) (width : FixedWidth) (frac : UInt8)
  | add (a b : α)
  | wrappingAdd (a b : α)
  | mul (a b : α)
  | mulAdd (acc a b : α)
  /-- Adds a product to an accumulator of the next width. -/
  | mulAddLong (acc a b : α)
  | narrow (a : α) (width : FixedWidth)
deriving DecidableEq, Repr

namespace FixedOp

variable {α β : Type}

def operands : FixedOp α → List α
  | ofRaw .. => []
  | narrow a _ => [a]
  | add a b | wrappingAdd a b | mul a b => [a, b]
  | mulAdd acc a b | mulAddLong acc a b => [acc, a, b]

def map (f : α → β) : FixedOp α → FixedOp β
  | ofRaw raw width frac => ofRaw raw width frac
  | add a b => add (f a) (f b)
  | wrappingAdd a b => wrappingAdd (f a) (f b)
  | mul a b => mul (f a) (f b)
  | mulAdd acc a b => mulAdd (f acc) (f a) (f b)
  | mulAddLong acc a b => mulAddLong (f acc) (f a) (f b)
  | narrow a width => narrow (f a) width

/-- The operation on what was made before under the given numbers. -/
def fetch? (made : List α) : FixedOp Nat → Option (FixedOp α)
  | ofRaw raw width frac => some (ofRaw raw width frac)
  | add a b => return add (← made[a]?) (← made[b]?)
  | wrappingAdd a b => return wrappingAdd (← made[a]?) (← made[b]?)
  | mul a b => return mul (← made[a]?) (← made[b]?)
  | mulAdd acc a b => return mulAdd (← made[acc]?) (← made[a]?) (← made[b]?)
  | mulAddLong acc a b => return mulAddLong (← made[acc]?) (← made[a]?) (← made[b]?)
  | narrow a width => return narrow (← made[a]?) width

/-- Carries out operations one after the other; each appends what it makes. -/
def runFrom? (carryOut : FixedOp α → Option α) (made : List α) (ops : List (FixedOp Nat)) :
    Option (List α) :=
  ops.foldlM (fun made op => do return made ++ [← carryOut (← op.fetch? made)]) made

def run? (carryOut : FixedOp α → Option α) (ops : List (FixedOp Nat)) : Option (List α) :=
  runFrom? carryOut [] ops

def value : FixedOp Fixed → Fixed
  | ofRaw raw width frac => .saturatingOfRaw raw.toInt width frac.toNat
  | add a b => a.saturatingAdd b
  | wrappingAdd a b => a.wrappingAdd b
  | mul a b => a.saturatingMul b
  | mulAdd acc a b | mulAddLong acc a b => acc.saturatingMulAdd a b
  | narrow a width => a.saturatingNarrow width

/-- None if an assert about the operands fails or a 64-bit intermediate overflows. -/
def word? : FixedOp FixedWord → Option FixedWord
  | ofRaw raw width frac => some (.saturatingOfRaw raw width frac)
  | add a b => a.saturatingAdd? b
  | wrappingAdd a b => a.wrappingAdd? b
  | mul a b => a.saturatingMul? b
  | mulAdd acc a b => acc.saturatingMulAdd? a.width a b
  | mulAddLong acc a b => acc.saturatingMulAdd? a.width.widen a b
  | narrow a width => some (a.saturatingNarrow width)

/-- The format of the result, if those of the operands agree. Both operands of a sum or a product
have the same one; an accumulator has the width of the left factor or the next one. -/
def format? : FixedOp FixedFormat → Option FixedFormat
  | ofRaw _ width frac => if frac.toNat ≤ 62 then some ⟨width, frac.toNat⟩ else none
  | add a b | wrappingAdd a b | mul a b => if a = b then some a else none
  | mulAdd acc a _ => if acc.width = a.width then some acc else none
  | mulAddLong acc a _ => if acc.width = a.width.widen then some acc else none
  | narrow a width => some ⟨width, a.frac⟩

/-! ### Runs -/

variable {op : FixedOp Nat} {o : FixedOp α} {made r : List α} {ops : List (FixedOp Nat)}
  {carryOut : FixedOp α → Option α}

theorem fetch?_map (f : α → β) (op : FixedOp Nat) (made : List α) :
    op.fetch? (made.map f) = (op.fetch? made).map (map f) := by
  cases op <;> simp [fetch?, map, Option.bind_map, Function.comp_def]

theorem mem_of_fetch? (h : op.fetch? made = some o) : ∀ x ∈ o.operands, x ∈ made := by
  cases op <;> simp [fetch?, Option.bind_eq_some_iff] at h <;> grind [operands]

theorem runFrom?_cons : runFrom? carryOut made (op :: ops) = some r ↔
    ∃ o v, op.fetch? made = some o ∧ carryOut o = some v ∧
      runFrom? carryOut (made ++ [v]) ops = some r := by
  simp [runFrom?, Option.bind_eq_some_iff, and_assoc]

/-- A run keeps what it started from, and each operation, on what was made before it, made the value
at its place. -/
theorem getElem?_runFrom? (h : runFrom? carryOut made ops = some r) :
    made <+: r ∧ r.length = made.length + ops.length ∧
      ∀ i op, ops[i]? = some op → ∃ o v, op.fetch? (r.take (made.length + i)) = some o ∧
        carryOut o = some v ∧ r[made.length + i]? = some v := by
  induction ops generalizing made with
  | nil =>
    obtain rfl : made = r := Option.some.inj h
    exact ⟨List.prefix_refl _, rfl, fun i op hop => nomatch hop⟩
  | cons op ops ih =>
    obtain ⟨o, v, fetched, made_v, rest⟩ := runFrom?_cons.1 h
    obtain ⟨before, length, steps⟩ := ih rest
    have start : made <+: r := (List.prefix_append made [v]).trans before
    refine ⟨start, by simp [length]; omega, fun i op' hop => ?_⟩
    cases i with
    | zero =>
      obtain rfl : op = op' := Option.some.inj hop
      refine ⟨o, v, ?_, made_v, ?_⟩
      · rwa [Nat.add_zero, ← List.prefix_iff_eq_take.1 start]
      · obtain ⟨later, rfl⟩ := before
        simp
    | succ i =>
      have place : made.length + (i + 1) = (made ++ [v]).length + i := by simp; omega
      rw [place]
      exact steps i op' hop

theorem getElem?_run? (h : run? carryOut ops = some r) :
    r.length = ops.length ∧ ∀ i (op : FixedOp Nat), ops[i]? = some op → ∃ o v,
      op.fetch? (r.take i) = some o ∧ carryOut o = some v ∧ r[i]? = some v := by
  simpa using (getElem?_runFrom? h).2

/-! ### Sequences of words -/

theorem map_map {γ : Type} (g : β → γ) (f : α → β) (o : FixedOp α) :
    (o.map f).map g = o.map (g ∘ f) := by
  cases o <;> rfl

theorem operands_map (f : α → β) (o : FixedOp α) : (o.map f).operands = o.operands.map f := by
  cases o <;> rfl

theorem format_value {o : FixedOp Fixed} {f : FixedFormat}
    (agree : (o.map Fixed.format).format? = some f) : o.value.format = f := by
  cases o with
  | narrow a width => exact Option.some.inj agree
  | ofRaw | add | wrappingAdd | mul | mulAdd | mulAddLong =>
    exact Option.some.inj (Option.ite_none_right_eq_some.1 agree).2

/-- Every position was that of a raw value in the beginning. -/
theorem frac_format? {o : FixedOp FixedFormat} {f : FixedFormat} (agree : o.format? = some f)
    (positions : ∀ x ∈ o.operands, x.frac ≤ 62) : f.frac ≤ 62 := by
  cases o with
  | ofRaw raw width frac =>
    obtain ⟨position, result⟩ := Option.ite_none_right_eq_some.1 agree
    exact Option.some.inj result ▸ position
  | narrow a width =>
    obtain rfl := Option.some.inj agree
    exact positions a List.mem_cons_self
  | add a | wrappingAdd a | mul a | mulAdd a | mulAddLong a =>
    obtain rfl := Option.some.inj (Option.ite_none_right_eq_some.1 agree).2
    exact positions a List.mem_cons_self

/-- An operation on words whose formats agree is carried out, and gives what it gives for the
values. -/
theorem exists_word? {o : FixedOp FixedWord} {f : FixedFormat}
    (agree : (o.map fun x => x.toFixed.format).format? = some f)
    (positions : ∀ x ∈ o.operands, x.frac.toNat ≤ 62) :
    ∃ x, o.word? = some x ∧ x.toFixed = (o.map FixedWord.toFixed).value := by
  have same_frac {a b : FixedWord} (h : a.toFixed.format = b.toFixed.format) : a.frac = b.frac :=
    UInt8.toNat_inj.1 (congrArg FixedFormat.frac h)
  cases o with
  | ofRaw raw width frac => exact ⟨_, rfl, FixedWord.toFixed_saturatingOfRaw ..⟩
  | narrow a width => exact ⟨_, rfl, a.toFixed_saturatingNarrow width⟩
  | add a b =>
    obtain ⟨formats, -⟩ := Option.ite_none_right_eq_some.1 agree
    exact FixedWord.exists_saturatingAdd? (same_frac formats)
  | wrappingAdd a b =>
    obtain ⟨formats, -⟩ := Option.ite_none_right_eq_some.1 agree
    exact FixedWord.exists_wrappingAdd? (same_frac formats)
  | mul a b =>
    obtain ⟨formats, -⟩ := Option.ite_none_right_eq_some.1 agree
    exact FixedWord.exists_saturatingMul? (same_frac formats) (positions a List.mem_cons_self)
  | mulAdd acc a b | mulAddLong acc a b =>
    obtain ⟨widths, -⟩ := Option.ite_none_right_eq_some.1 agree
    exact FixedWord.exists_saturatingMulAdd? widths (positions a (by simp [operands]))

/-- A sequence that respects the agreements is carried out in words to its end, and the values are
those of exact arithmetic. -/
theorem exists_runFrom?_word? {words : List FixedWord} {formats : List FixedFormat}
    (positions : ∀ x ∈ words, x.frac.toNat ≤ 62)
    (respects : runFrom? format? (words.map fun x => x.toFixed.format) ops = some formats) :
    ∃ made, runFrom? word? words ops = some made ∧
      runFrom? (some ∘ value) (words.map FixedWord.toFixed) ops =
        some (made.map FixedWord.toFixed) ∧
      made.map (fun x => x.toFixed.format) = formats := by
  induction ops generalizing words with
  | nil => exact ⟨words, rfl, rfl, Option.some.inj respects⟩
  | cons op ops ih =>
    obtain ⟨_, f, fetched, agree, rest⟩ := runFrom?_cons.1 respects
    rw [fetch?_map, Option.map_eq_some_iff] at fetched
    obtain ⟨o, fetched, rfl⟩ := fetched
    have inside : ∀ x ∈ o.operands, x.frac.toNat ≤ 62 :=
      fun x hx => positions x (mem_of_fetch? fetched x hx)
    obtain ⟨x, made_x, value_x⟩ := exists_word? agree inside
    have format_x : x.toFixed.format = f := by
      rw [value_x]
      exact format_value (by rwa [map_map])
    have position_x : x.toFixed.format.frac ≤ 62 := by
      rw [format_x]
      refine frac_format? agree ?_
      rw [operands_map, List.forall_mem_map]
      exact inside
    -- the other operations find the new word among those made before them
    have positions_x : ∀ y ∈ words ++ [x], y.frac.toNat ≤ 62 := by
      simpa [or_imp, forall_and] using ⟨positions, position_x⟩
    obtain ⟨made, run, values, formats⟩ := ih positions_x (by simpa [format_x] using rest)
    refine ⟨made, runFrom?_cons.2 ⟨o, x, fetched, made_x, run⟩,
      runFrom?_cons.2 ⟨o.map FixedWord.toFixed, x.toFixed, ?_, congrArg some value_x.symm, ?_⟩,
      formats⟩
    · rw [fetch?_map, fetched, Option.map_some]
    · simpa using values

/-! ### The laws of the operations -/

/-- What an operation has to give, in exact numbers. -/
def Law : FixedOp Fixed → Fixed → Prop
  | ofRaw raw width frac, v => v = ⟨width.clamp raw.toInt, width, frac.toNat⟩
  | add a b, v => v = ⟨a.width.clamp (a.raw + b.raw), a.width, a.frac⟩
  | wrappingAdd a b, v =>
    v.format = a.format ∧
      (∀ r, v.raw = r ↔ r ∈ a.width.range ∧ r ≡ a.raw + b.raw [ZMOD 2 ^ a.width.bits]) ∧
      (v = a.saturatingAdd b ↔ a.raw + b.raw ∈ a.width.range)
  | mul a b, v => v = ⟨a.width.clamp (a.nearestProduct b), a.width, a.frac⟩
  | mulAdd acc a b, v | mulAddLong acc a b, v =>
    v = ⟨acc.width.clamp (acc.raw + a.nearestProduct b), acc.width, acc.frac⟩
  | narrow a width, v => v = ⟨width.clamp a.raw, width, a.frac⟩

theorem raw_value_mem (o : FixedOp Fixed) : o.value.raw ∈ o.value.width.range := by
  cases o with
  | wrappingAdd a b => exact a.width.wrap_mem_range _
  | ofRaw | add | mul | mulAdd | mulAddLong | narrow => exact FixedWidth.saturate_mem_range ..

/-- Every value of a run is in the range of its width. -/
theorem raw_mem_of_run? {values : List Fixed} (h : run? (some ∘ value) ops = some values) :
    ∀ v ∈ values, v.raw ∈ v.width.range := by
  obtain ⟨length, steps⟩ := getElem?_run? h
  intro v hv
  obtain ⟨i, hi⟩ := List.mem_iff_getElem?.1 hv
  have small : i < ops.length := length ▸ (List.getElem?_eq_some_iff.1 hi).1
  obtain ⟨o, _, -, made, at_i⟩ := steps i _ (List.getElem?_eq_getElem small)
  cases hi.symm.trans at_i
  cases made
  exact raw_value_mem o

theorem law_value {o : FixedOp Fixed} {f : FixedFormat}
    (agree : (o.map Fixed.format).format? = some f)
    (inside : ∀ v ∈ o.operands, v.raw ∈ v.width.range) : o.Law o.value := by
  cases o with
  | wrappingAdd a b =>
    obtain ⟨formats, -⟩ := Option.ite_none_right_eq_some.1 agree
    have widths : a.width = b.width := congrArg FixedFormat.width formats
    have inside_a := inside a List.mem_cons_self
    have inside_b : b.raw ∈ a.width.range := widths ▸ inside b (by simp [operands])
    refine ⟨rfl, fun r => FixedWidth.wrap_eq_iff, ?_⟩
    rw [← FixedWidth.wrap_eq_saturate_iff inside_a inside_b]
    exact ⟨congrArg Fixed.raw, fun raws => congrArg (Fixed.mk · a.width a.frac) raws⟩
  | ofRaw | add | mul | mulAdd | mulAddLong | narrow =>
    simp only [Law, value, Fixed.saturatingOfRaw, Fixed.saturatingAdd, Fixed.saturatingMul,
      Fixed.saturatingMulAdd, Fixed.saturatingNarrow, Fixed.roundedShift_raw_mul,
      FixedWidth.saturate_eq_clamp]

/-- A sequence of operations that respects the agreements of widths and positions, with positions
up to 62, is carried out to its end: no assert fails and no 64-bit intermediate overflows. The
values are those of exact arithmetic, all of them in the range of their width, and each is what its
operation has to give for the values made before: products are rounded exactly, a sum with a
product is saturated once, at the width of the accumulator, and a wrapped sum is the only number in
range with the remainder of the exact sum, the saturated sum just if the exact one is in range. -/
theorem run_lawful {ops : List (FixedOp Nat)} {formats : List FixedFormat}
    (respects : run? format? ops = some formats) :
    ∃ words values, run? word? ops = some words ∧ run? (some ∘ value) ops = some values ∧
      words.map FixedWord.toFixed = values ∧ values.map Fixed.format = formats ∧
      (∀ v ∈ values, v.raw ∈ v.width.range) ∧
      values.length = ops.length ∧ ∀ i (op : FixedOp Nat), ops[i]? = some op →
        ∃ o v, op.fetch? (values.take i) = some o ∧ values[i]? = some v ∧ o.Law v := by
  have start : ∀ x ∈ ([] : List FixedWord), x.frac.toNat ≤ 62 := fun _ hx => nomatch hx
  obtain ⟨words, run, exact_run, same_formats⟩ := exists_runFrom?_word? start respects
  obtain ⟨length, steps⟩ := getElem?_run? exact_run
  obtain ⟨-, checks⟩ := getElem?_run? respects
  set values := words.map FixedWord.toFixed with values_eq
  have formats_eq : values.map Fixed.format = formats := by
    rw [values_eq, List.map_map]
    exact same_formats
  have inside := raw_mem_of_run? exact_run
  refine ⟨words, values, run, exact_run, rfl, formats_eq, inside, length, fun i op hop => ?_⟩
  obtain ⟨o, v, fetched, made, at_i⟩ := steps i op hop
  obtain ⟨o', f, fetched', agree, -⟩ := checks i op hop
  rw [← formats_eq, ← List.map_take, fetch?_map, fetched] at fetched'
  cases fetched'
  cases made
  refine ⟨o, _, fetched, at_i, law_value agree fun v hv => inside v ?_⟩
  exact List.mem_of_mem_take (mem_of_fetch? fetched v hv)

/-- The lowest raw value at the largest position: its square is one, which is added to it, and the
sum of both saturates and wraps. Narrowed, it is an accumulator and a factor. In the end a product
of -3/2 is rounded up to -1, and the square of 127 at position 1 saturates. -/
theorem run_lawful_limits :
    let ops : List (FixedOp Nat) :=
      [.ofRaw Int64.minValue .w32 62, .mul 0 0, .mulAdd 0 0 0, .add 0 2, .wrappingAdd 0 2,
        .narrow 0 .w16, .narrow 0 .w8, .mulAddLong 5 6 6,
        .ofRaw (-3) .w8 1, .ofRaw 1 .w8 1, .mul 8 9, .ofRaw 1000 .w8 1, .mul 11 11]
    let formats : List FixedFormat :=
      List.replicate 5 ⟨.w32, 62⟩ ++ [⟨.w16, 62⟩, ⟨.w8, 62⟩, ⟨.w16, 62⟩] ++
        List.replicate 5 ⟨.w8, 1⟩
    run? format? ops = some formats ∧ ∃ words, run? word? ops = some words ∧
      words.map (·.toFixed.raw) =
        [-2 ^ 31, 1, -2 ^ 31 + 1, -2 ^ 31, 1, -2 ^ 15, -2 ^ 7, -2 ^ 15, -3, 1, -1, 127, 127] := by
  intro ops formats
  have respects : run? format? ops = some formats := by decide
  obtain ⟨words, values, run, exact_run, same, -⟩ := run_lawful respects
  have raws : (run? (some ∘ value) ops).map (·.map Fixed.raw) = some
      [-2 ^ 31, 1, -2 ^ 31 + 1, -2 ^ 31, 1, -2 ^ 15, -2 ^ 7, -2 ^ 15, -3, 1, -1, 127, 127] := by
    decide
  rw [exact_run, ← same, Option.map_some, List.map_map] at raws
  exact ⟨respects, words, run, Option.some.inj raws⟩

end FixedOp
end TileCompute
