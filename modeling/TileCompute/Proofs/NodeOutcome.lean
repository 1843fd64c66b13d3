import TileCompute.Proofs.ActivationNode
import TileCompute.Proofs.Operands
import TileCompute.Proofs.Outcomes

/-!
# TileCompute.Proofs.NodeOutcome

What comes of a node. A node that computes nothing gives no layer, whatever its operands. Any other
one is a fault if what it is given breaks a precondition, and otherwise comes out as its layer's own
configuration does (`Layer.configure?`), with the report of the layer if there is one.

* `Node.Reported`: an outcome with its report.
* `Node.guarded_create`: the outcome under the precondition, one case for each kind of node.
* `Node.configureOn_inPlace`: activations of a tensor into its own buffer.
* `Node.create_outcome`: outcomes and the log.
-/

namespace TileCompute

namespace Layer

variable {α : Type}

/-- A layer whose configuration allocates nothing. -/
def plain (layer : α → Layer) (configured : Except LayerError α) (m : Memory) :
    Except (Failure LayerError) (Layer × Memory) :=
  (refuse configured).map fun l => (layer l, m)

theorem map_plain (layer : α → Layer) (configured : Except LayerError α) (m : Memory) :
    (plain layer configured m).map (fun _ => ()) = refuse (configured.map fun _ => ()) := by
  cases configured with
  | error e => rfl
  | ok l => rfl

/-- A layer whose configuration allocates scratch. -/
def allocating (layer : α → Layer) (configured : Except (Failure LayerError) (α × Memory)) :
    Except (Failure LayerError) (Layer × Memory) :=
  configured.map fun made => (layer made.1, made.2)

/-- The layer of an operation, configured on the memory behind its operands. None if there is no
layer or a tensor is missing that it needs. -/
def configure? (kind : NodeKind) (c : Context) (inputs : List (Option View))
    (output : Option View) (m : Memory) : Option (Except (Failure LayerError) (Layer × Memory)) :=
  match kind, inputs, output with
  | .activation f, [some input], output =>
    some (plain .activation (ActivationLayer.configure input output f) m)
  | .batchNormalization epsilon fused, [some input, some mean, some variance, beta, gamma],
      some output =>
    some (plain .batchNormalization
      (BatchNormalization.configure input output mean variance beta gamma epsilon fused) m)
  | .convolution w method, [some input, some weights, bias], some output =>
    match method with
    | .direct => some (plain .directConvolution
        (DirectConvolution.configure input weights bias output w) m)
    | .gemm | .default => some (allocating .gemmConvolution
        (GemmConvolution.configure input weights bias output w c.pooled c.environment m))
  | .depthConcatenate true, inputs, some output =>
    (inputs.mapM id).map fun inputs =>
      plain .depthConcatenation (DepthConcatenation.configure inputs output) m
  | .depthwiseConvolution w .optimized3x3, [some input, some weights, bias], some output =>
    some (plain .depthwiseConvolution
      (DepthwiseConvolution.configure input weights bias output w) m)
  | .eltwise .add overflow, [some a, some b], some output =>
    some (plain .addition (AdditionLayer.configure a b output overflow) m)
  | .eltwise .multiply _, [some a, some b], some output =>
    some (plain .multiplication (MultiplicationLayer.configure a b output .one) m)
  | .fullyConnected, [some input, some weights, bias], some output =>
    some (allocating .fullyConnected
      (FullyConnected.configure input weights bias output c.pooled c.environment m))
  | .normalization k, [some input], some output =>
    some (plain .normalization (NormalizationLayer.configure input output k) m)
  | .pooling p, [some input], some output =>
    some (plain .pooling (PoolingLayer.configure input output p) m)
  | .softmax beta, [some input], some output =>
    some (allocating .softmax (refuse (Softmax.configure input output beta c.pooled m)))
  | _, _, _ => none

end Layer

/-- An output of the input's type and shape is refused with the input alone, or not at all. -/
theorem ActivationLayer.configure_alike {input output : View} {f : Activation}
    (type : input.layout.dataType = output.layout.dataType)
    (shape : input.layout.shape = output.layout.shape) :
    (configure input (some output) f).map (fun _ => ()) =
      (configure input none f).map fun _ => () := by
  have sameType : checkSameType input.layout output.layout = .ok () := checkSameType_eq_ok.2 type
  have sameShape : checkSameShape "activation" input.layout output.layout = .ok () :=
    checkSameShape_eq_ok.2 shape
  simp only [configure, sameType, sameShape]
  cases checkFloat input.layout with
  | error e => rfl
  | ok _ => rfl

/-! ### Configurations without faults -/

/-- Numbers of blocks that are not zero are all that a product can be at fault for. -/
theorem MatrixProduct.faultless_configure {a b output : Layout} {c : Option Layout}
    {o : ProductOptions} (blocks : (resolvedConfig a output o).path.BlocksNonzero) (m : Memory) :
    Faultless (configure a b c output o m) := by
  have addition : Faultless (configureAddition .exact c output o.beta) :=
    faultless_configureAddition fun _ _ => faultless_refuse _
  refine (faultless_refuse _).bind fun _ => ?_
  generalize resolvedConfig a output o = config at blocks ⊢
  obtain ⟨target, path⟩ := config
  cases path with
  | direct tile =>
    refine Faultless.bind ?_ fun _ => faultless_ok _
    exact (faultless_kernelFailure (faultless_refuse _)).bind fun _ =>
      addition.bind fun _ => faultless_ok _
  | reshaped h v =>
    have hh : (Arrangement.blockTransposed h).blocks ≠ 0 := blocks.1
    have hv : (Arrangement.interleaved v).blocks ≠ 0 := blocks.2
    simp only [Config.packing?, configureReshaped, Packing.ofType, Machine.outputLayout_exact hv,
      Machine.outputLayout_exact hh, raise_ok, ok_bind]
    refine (faultless_kernelFailure (faultless_refuse _)).bind fun _ =>
      (faultless_kernelFailure (faultless_refuse _)).bind fun _ =>
        (faultless_kernelFailure (faultless_refuse _)).bind fun _ => addition.bind fun _ => ?_
    cases o.keepRight <;> exact faultless_ok _

/-- The table has no path without blocks. -/
theorem MatrixProduct.blocksNonzero_resolved (a output : Layout) {o : ProductOptions}
    (config : o.config = none) : (resolvedConfig a output o).path.BlocksNonzero := by
  rw [resolvedConfig, config]
  exact (Path.valid_iff.1 (Environment.valid_lookup ..)).1

theorem GemmConvolution.faultless_configure (input weights : View) (bias : Option View)
    (output : View) (w : Window) (pooled : Bool) (env : Environment) (m : Memory) :
    Faultless (configure input weights bias output w pooled env m) :=
  (faultless_refuse _).bind fun _ =>
    (MatrixProduct.faultless_configure (MatrixProduct.blocksNonzero_resolved _ _ rfl) m).bind
      fun _ => faultless_ok _

theorem FullyConnected.faultless_configure (input weights : View) (bias : Option View)
    (output : View) (pooled : Bool) (env : Environment) (m : Memory) :
    Faultless (configure input weights bias output pooled env m) := by
  refine (faultless_refuse _).bind fun _ => (faultless_refuse _).bind fun _ =>
    (faultless_refuse _).bind fun _ => Faultless.bind (faultless_ok _) fun _ =>
      (faultless_refuse _).bind fun _ => ?_
  exact (MatrixProduct.faultless_configure (MatrixProduct.blocksNonzero_resolved _ _ rfl) m).bind
    fun _ => faultless_ok _

/-! ### Which layer a node asks for -/

namespace Node

variable {n : Node} {c : Context} {m : Memory}

/-- Nodes that compute nothing, and concatenations that are not enabled. -/
def Idle (n : Node) : Prop :=
  n.kind.Silent ∨ n.kind = .depthConcatenate false ∧ n.outputs.length = 1

/-- An activation with its output in the input's buffer. -/
def InPlace (n : Node) : Prop :=
  (∃ f, n.kind = .activation f) ∧
    ∃ input ∈ behind (n.input 0), ∃ output ∈ behind (n.output 0), output.buffer = input.buffer

/-- An output of the input's type and shape. -/
def Alike (n : Node) : Prop :=
  ∀ input ∈ behind (n.input 0), ∀ output ∈ behind (n.output 0),
    input.layout.dataType = output.layout.dataType ∧ input.layout.shape = output.layout.shape

/-- The layer of a node, configured with an output on the memory behind the inputs. -/
def configureOn (n : Node) (c : Context) (output : Option View) (m : Memory) :
    Option (Except (Failure LayerError) (Layer × Memory)) :=
  Layer.configure? n.kind c (n.inputs.map behind) output m

/-- The output that a layer is given. -/
def given (n : Node) : Option View :=
  match n.kind with
  | .activation _ =>
    (behind (n.output 0)).filter fun o => (behind (n.input 0)).all fun i => o.buffer ≠ i.buffer
  | _ => behind (n.output 0)

theorem given_of_inPlace (h : n.InPlace) : n.given = none := by
  obtain ⟨⟨f, kind⟩, input, hin, output, hout, shared⟩ := h
  rw [given, kind]
  simp only [Option.mem_def] at hin hout
  simp [hin, hout, shared, Option.filter]

theorem given_of_not_inPlace (h : ¬n.InPlace) : n.given = behind (n.output 0) := by
  unfold given
  split
  · next f kind =>
    cases hout : behind (n.output 0) with
    | none => rfl
    | some o =>
      apply Option.filter_some_pos
      rw [Option.all_eq_true]
      intro i hi
      exact decide_eq_true fun shared => h ⟨⟨f, kind⟩, i, hi, o, hout, shared⟩
  · rfl

/-! ### Reports -/

/-- What a report on a layer begins with. -/
def Opens (l : Layer) (line : String) : Prop :=
  ∃ rest, line = s!"Instantiated {l.name} Data Type: " ++ rest

theorem Opens.append {l : Layer} {line : String} (h : Opens l line) (more : String) :
    Opens l (line ++ more) := by
  obtain ⟨rest, rfl⟩ := h
  exact ⟨rest ++ more, String.append_assoc ..⟩

theorem opens_opening (l : Layer) (v : View) : Opens l (Created.opening l v) :=
  ⟨v.layout.dataType.text, rfl⟩

theorem opens_shapeReport (l : Layer) (v : View) : Opens l (Created.shapeReport l v) :=
  (opens_opening l v).append _

theorem opens_shapesReport (l : Layer) (v w : View) : Opens l (Created.shapesReport l v w) :=
  (opens_opening l v).append _

theorem opens_weighted (o : WeightedOperands) (l : Layer) : Opens l (o.report l) :=
  ((opens_opening l o.input).append _).append _

/-- A layer as its configuration gives it, with a report on it. -/
structure Reported (configured : Option (Except (Failure LayerError) (Layer × Memory)))
    (x : Except (Failure LayerError) Created) : Prop where
  outcome : configured = some (x.map fun made => (made.layer, made.memory))
  faultless : Faultless x
  opens : ∀ made, x = .ok made → Opens made.layer made.report

section Reported

variable {α : Type} {f : α → Layer} {report : α → String}
  {configured : Option (Except (Failure LayerError) (Layer × Memory))}

theorem reported_allocating {x : Except (Failure LayerError) (α × Memory)}
    (hx : configured = some (Layer.allocating f x)) (faultless : Faultless x)
    (opens : ∀ l, Opens (f l) (report l)) :
    Reported configured (x >>= fun made => .ok ⟨f made.1, report made.1, made.2⟩) := by
  refine ⟨?_, faultless.bind fun _ => faultless_ok _, ?_⟩
  · rw [hx]
    cases x with
    | error e => rfl
    | ok made => rfl
  · intro made h
    obtain ⟨⟨l, m⟩, -, h⟩ := bind_eq_ok.1 h
    cases h
    exact opens l

theorem reported_plain {x : Except LayerError α} (hx : configured = some (Layer.plain f x m))
    (opens : ∀ l, Opens (f l) (report l)) :
    Reported configured (refuse x >>= fun l => .ok ⟨f l, report l, m⟩) := by
  refine ⟨?_, (faultless_refuse x).bind fun _ => faultless_ok _, ?_⟩
  · rw [hx]
    cases x with
    | error e => rfl
    | ok l => rfl
  · intro made h
    obtain ⟨l, -, h⟩ := bind_eq_ok.1 h
    cases h
    exact opens l

/-- The layer may be named before the report is written. -/
theorem reported_named {x : Except LayerError α} {report : Layer → String}
    (hx : configured = some (Layer.plain f x m)) (opens : ∀ l, Opens l (report l)) :
    Reported configured ((refuse x).map f >>= fun l => .ok ⟨l, report l, m⟩) := by
  have made := reported_plain hx fun l => opens (f l)
  cases x with
  | error e => exact made
  | ok l => exact made

end Reported

/-- What an accepted node comes to. -/
def Made (n : Node) (c : Context) (m : Memory) : Except (Failure LayerError) Created → Prop :=
  Reported (n.configureOn c n.given m)

theorem given_of_needed (h : n.kind.NeedsOutput) : n.given = behind (n.output 0) := by
  apply given_of_not_inPlace
  rintro ⟨⟨f, kind⟩, -⟩
  rw [kind] at h
  exact h

/-! ### One kind after the other -/

section Kinds

variable {k : NodeKind}

theorem guarded_unary (kind : n.kind = k) (counted : k.inputCount? = some 1)
    (needs : ∀ i, k.Needs i) (output : k.NeedsOutput)
    {g : View × View → Except (Failure LayerError) Created}
    (h : ∀ input output, Guarded (¬k.Unsupported) (g (input, output))
      (Reported (Layer.configure? k c [some input] (some output) m))) :
    Guarded n.Accepted (raise n.unaryOperands >>= g) (n.Made c m) := by
  subst kind
  rw [accepted_iff_of_count counted, Made, configureOn, given_of_needed output]
  refine (Guarded.unary (q := ¬n.kind.Unsupported) fun input output hin hout => ?_).congr ?_
  · rw [hin, hout]
    exact h input output
  · simp [needs, output]

theorem guarded_weighted (kind : n.kind = k) (counted : k.inputCount? = some 3)
    (needs : ∀ i, k.Needs i ↔ i < 2) (output : k.NeedsOutput)
    {g : WeightedOperands → Except (Failure LayerError) Created}
    (h : ∀ input weights bias output,
      Guarded (¬k.Unsupported) (g ⟨input, weights, bias, output⟩)
        (Reported (Layer.configure? k c [some input, some weights, bias] (some output) m))) :
    Guarded n.Accepted (raise n.weightedOperands >>= g) (n.Made c m) := by
  subst kind
  rw [accepted_iff_of_count counted, Made, configureOn, given_of_needed output]
  refine (Guarded.weighted (q := ¬n.kind.Unsupported)
    fun input weights bias output hin hout => ?_).congr ?_
  · rw [hin, hout]
    exact h input weights bias output
  · simp only [Nat.forall_lt_succ_right, needs]
    simp [output, and_assoc]

end Kinds

theorem guarded_normalization {k : Normalization} (kind : n.kind = .normalization k) :
    Guarded n.Accepted (n.createNormalization k m) (n.Made c m) := by
  refine guarded_unary kind rfl (fun _ => trivial) trivial fun input output => .done not_false ?_
  exact reported_plain (f := .normalization) rfl fun _ => (opens_shapesReport ..).append _

theorem guarded_pooling {p : Pooling} (kind : n.kind = .pooling p) :
    Guarded n.Accepted (n.createPooling p m) (n.Made c m) := by
  refine guarded_unary kind rfl (fun _ => trivial) trivial fun input output => .done not_false ?_
  exact reported_plain (f := .pooling) rfl fun _ => (opens_shapesReport ..).append _

theorem guarded_softmax {beta : Binary32} (kind : n.kind = .softmax beta) :
    Guarded n.Accepted (n.createSoftmax c beta m) (n.Made c m) := by
  refine guarded_unary kind rfl (fun _ => trivial) trivial fun input output => .done not_false ?_
  exact reported_allocating (f := .softmax) rfl (faultless_refuse _)
    fun _ => opens_shapesReport ..

theorem guarded_convolution {w : Window} {method : ConvolutionMethod}
    (kind : n.kind = .convolution w method) :
    Guarded n.Accepted (n.createConvolution c w method m) (n.Made c m) := by
  refine guarded_weighted kind rfl (fun _ => Iff.rfl) trivial fun input weights bias output =>
    .done not_false ?_
  cases method with
  | direct => exact reported_plain (f := .directConvolution) rfl fun _ => opens_weighted ..
  | gemm | default =>
    exact reported_allocating (f := .gemmConvolution) rfl
      (GemmConvolution.faultless_configure _ _ _ _ _ _ _ _) fun _ => opens_weighted ..

theorem guarded_depthwiseConvolution {w : Window} {method : DepthwiseMethod}
    (kind : n.kind = .depthwiseConvolution w method) :
    Guarded n.Accepted (n.createDepthwiseConvolution w method m) (n.Made c m) := by
  refine guarded_weighted kind rfl (fun _ => Iff.rfl) trivial fun input weights bias output => ?_
  cases method with
  | optimized3x3 =>
    exact .done (not_not.2 rfl) <|
      reported_plain (f := .depthwiseConvolution) rfl fun _ => opens_weighted ..
  | generic | default => exact .fault (not_not.2 (by simp [NodeKind.Unsupported])) _

theorem guarded_fullyConnected (kind : n.kind = .fullyConnected) :
    Guarded n.Accepted (n.createFullyConnected c m) (n.Made c m) := by
  refine guarded_weighted kind rfl (fun _ => Iff.rfl) trivial fun input weights bias output =>
    .done not_false ?_
  exact reported_allocating (f := .fullyConnected) rfl
    (FullyConnected.faultless_configure _ _ _ _ _ _ _) fun _ => opens_weighted ..

theorem guarded_activation {f : Activation} (kind : n.kind = .activation f) :
    Guarded n.Accepted (n.createActivation f m) (n.Made c m) := by
  have counted : n.kind.inputCount? = some 1 := by rw [kind]; rfl
  rw [accepted_iff_of_count counted, Made, configureOn, kind]
  refine (Guarded.counts fun count => .required fun input hin =>
    .optional (.done trivial ?_)).congr ?_
  · have inputs : n.inputs.map behind = [some input] := by
      rw [behind_inputs count, ← hin]
      rfl
    have output : n.given = (behind (n.output 0)).filter fun o => o.buffer ≠ input.buffer := by
      simp [given, kind, hin]
    rw [inputs, output]
    exact reported_plain (f := .activation) rfl fun _ =>
      ((opens_shapeReport ..).append _).append _
  · simp [NodeKind.Needs, NodeKind.NeedsOutput, NodeKind.Unsupported]

theorem guarded_batchNormalization {epsilon : Binary32} {fused : Option Activation}
    (kind : n.kind = .batchNormalization epsilon fused) :
    Guarded n.Accepted (n.createBatchNormalization epsilon fused m) (n.Made c m) := by
  have counted : n.kind.inputCount? = some 5 := by rw [kind]; rfl
  have output := given_of_needed (n := n) (by rw [kind]; trivial)
  rw [accepted_iff_of_count counted, Made, configureOn, kind, output]
  refine (Guarded.counts fun count => .required fun input hin => .required fun mean hm =>
    .required fun variance hv => .optional <| .optional <| .required fun output hout =>
      .done trivial ?_).congr ?_
  · have inputs : n.inputs.map behind = [some input, some mean, some variance,
        behind (n.input 3), behind (n.input 4)] := by
      rw [behind_inputs count, ← hin, ← hm, ← hv]
      rfl
    rw [inputs, hout]
    exact reported_plain (f := .batchNormalization) rfl fun _ =>
      ((opens_shapeReport ..).append _).append _
  · simp only [Nat.forall_lt_succ_right, NodeKind.Needs]
    simp [NodeKind.NeedsOutput, NodeKind.Unsupported, and_assoc]

theorem guarded_eltwise {operation : Arithmetic} {overflow : Overflow}
    (kind : n.kind = .eltwise operation overflow) :
    Guarded n.Accepted (n.createEltwise operation overflow m) (n.Made c m) := by
  have counted : n.kind.inputCount? = some 2 := by rw [kind]; rfl
  have output := given_of_needed (n := n) (by rw [kind]; trivial)
  rw [accepted_iff_of_count counted, Made, configureOn, kind, output]
  refine (Guarded.counts fun count => .required fun a ha => .required fun b hb =>
    .required (q := operation ≠ .subtract) fun output hout => ?_).congr ?_
  · have inputs : n.inputs.map behind = [some a, some b] := by
      rw [behind_inputs count, ← ha, ← hb]
      rfl
    rw [inputs, hout]
    cases operation with
    | add =>
      exact .done nofun <| reported_named (f := .addition) rfl
        fun _ => (opens_shapeReport ..).append _
    | subtract => exact .fault (not_not.2 rfl) _
    | multiply =>
      exact .done nofun <| reported_named (f := .multiplication) rfl
        fun _ => (opens_shapeReport ..).append _
  · simp only [Nat.forall_lt_succ_right, NodeKind.Needs]
    simp [NodeKind.NeedsOutput, NodeKind.Unsupported, and_assoc]

/-- An enabled concatenation has any number of inputs. -/
theorem guarded_depthConcatenation (kind : n.kind = .depthConcatenate true) :
    Guarded n.Accepted (n.createDepthConcatenation true m)
      fun x => ∃ y, x = y.map some ∧ n.Made c m y := by
  have output := given_of_needed (n := n) (by rw [kind]; trivial)
  have accepted : n.Accepted ↔ n.outputs.length = 1 ∧ (∀ t ∈ n.inputs, Usable True t) ∧
      Usable True (n.output 0) ∧ True := by
    simp [accepted_iff, WrongCounts, kind, NodeKind.inputCount?, NodeKind.Needs,
      NodeKind.NeedsOutput, NodeKind.Unsupported, forall_input_iff]
  rw [Made, configureOn, kind, output]
  refine (Guarded.check <| .all fun inputs hin => .required fun output hout =>
    .done trivial ?_).congr accepted
  refine ⟨refuse (DepthConcatenation.configure inputs output) >>= fun l =>
    .ok ⟨.depthConcatenation l, Created.shapeReport (.depthConcatenation l) output
      ++ s!" Num Inputs: {inputs.length}", m⟩, ?_, ?_⟩
  · rw [map_bind]
    rfl
  · refine reported_plain (f := .depthConcatenation) ?_ fun _ => (opens_shapeReport ..).append _
    rw [hout, Layer.configure?, hin]
    rfl

theorem guarded_create (active : ¬n.Idle) :
    Guarded n.Accepted (n.create c m) fun x => ∃ y, x = y.map some ∧ n.Made c m y := by
  unfold create
  cases kind : n.kind with
  | activation f => exact (guarded_activation kind).map some
  | batchNormalization epsilon fused => exact (guarded_batchNormalization kind).map some
  | convolution w method => exact (guarded_convolution kind).map some
  | depthConcatenate enabled =>
    cases enabled with
    | true => exact guarded_depthConcatenation kind
    | false =>
      -- such a node is idle unless its outputs are not one
      have outputs : n.outputs.length ≠ 1 := fun h => active (.inr ⟨kind, h⟩)
      have created : n.createDepthConcatenation false m =
          .error (.fault (.concatenateOutputs n.id)) := if_pos outputs
      dsimp only
      rw [created]
      exact .fault (fun accepted => accepted (.inl (.inr outputs))) _
  | depthwiseConvolution w method => exact (guarded_depthwiseConvolution kind).map some
  | eltwise operation overflow => exact (guarded_eltwise kind).map some
  | fullyConnected => exact (guarded_fullyConnected kind).map some
  | normalization k => exact (guarded_normalization kind).map some
  | pooling p => exact (guarded_pooling kind).map some
  | softmax beta => exact (guarded_softmax kind).map some
  | input | output | const | reshape => exact absurd (.inl (by rw [kind]; trivial)) active

theorem create_of_idle (idle : n.Idle) : n.create c m = .ok none := by
  rcases idle with silent | ⟨kind, outputs⟩
  · unfold create
    cases kind : n.kind with
    | input | output | const | reshape => rfl
    | _ =>
      rw [kind] at silent
      exact silent.elim
  · rw [create, kind]
    exact if_neg (not_not.2 outputs)

/-! ### Outcomes -/

/-- Faults of a node with a layer are broken preconditions. -/
theorem create_eq_fault_iff (active : ¬n.Idle) :
    (∃ f, n.create c m = .error (.fault f)) ↔ ¬n.Accepted := by
  have guarded := guarded_create (c := c) (m := m) active
  constructor
  · rintro ⟨f, hf⟩ accepted
    obtain ⟨y, created, reported⟩ := guarded.met accepted
    rw [hf] at created
    cases y with
    | ok made => cases created
    | error e =>
      cases created
      exact reported.faultless f rfl
  · exact guarded.broken

theorem exists_created {x : Except (Failure LayerError) (Option Created)} {l : Layer}
    (h : x.map (Option.map fun made => (made.layer, made.memory)) = .ok (some (l, m))) :
    ∃ made, x = .ok (some made) ∧ made.layer = l := by
  rcases x with e | made | made
  · cases h
  · cases h
  · cases h
    exact ⟨made, rfl, rfl⟩

/-- What the announcement of a node calls its operation. -/
def title (n : Node) : String :=
  match n.kind with
  | .depthConcatenate _ => "DepthConcatenate"
  | kind => kind.name

/-- What is said after the announcement. -/
def sequel (n : Node) (outcome : Except (Failure LayerError) (Option Created)) : List String :=
  match outcome with
  | .ok (some made) => [made.report]
  | .ok none => [s!"DepthConcatenate node {n.id} is disabled"]
  | .error _ => []

theorem log_of_silent (silent : n.kind.Silent)
    (outcome : Except (Failure LayerError) (Option Created)) : n.log outcome = [] := by
  rw [log, announcement]
  cases kind : n.kind with
  | input | output | const | reshape => rfl
  | _ =>
    rw [kind] at silent
    exact silent.elim

theorem log_of_not_silent (active : ¬n.kind.Silent)
    (outcome : Except (Failure LayerError) (Option Created)) : n.log outcome =
      s!"Creating GC {n.title} node with ID : {n.id} and Name: {n.name}" ::
        n.sequel outcome := by
  have announced : n.announcement =
      some s!"Creating GC {n.title} node with ID : {n.id} and Name: {n.name}" := by
    rw [announcement, title]
    cases kind : n.kind with
    | input | output | const | reshape =>
      rw [kind] at active
      exact absurd trivial active
    | _ => rfl
  rw [log, announced]
  rcases outcome with e | made | made
  · rfl
  · rfl
  · rfl

/-- A node with a layer was active and accepted. -/
theorem met_of_created {made : Created} (h : n.create c m = .ok (some made)) :
    n.Made c m (.ok made) := by
  have active : ¬n.Idle := by
    intro idle
    rw [create_of_idle idle] at h
    cases h
  have accepted : n.Accepted := by
    by_contra broken
    obtain ⟨f, hf⟩ := (create_eq_fault_iff active).2 broken
    rw [hf] at h
    cases h
  obtain ⟨y, created, reported⟩ := (guarded_create active).met accepted
  rw [h] at created
  cases y with
  | error e => cases created
  | ok made' =>
    cases created
    exact reported

/-- In place, an output of the input's type and shape changes nothing about what is refused. -/
theorem configureOn_inPlace (accepted : n.Accepted) (shared : n.InPlace) (alike : n.Alike) :
    (n.configureOn c (behind (n.output 0)) m).map (Except.map fun _ => ()) =
      (n.configureOn c none m).map (Except.map fun _ => ()) := by
  obtain ⟨⟨f, kind⟩, input, hin, output, hout, -⟩ := shared
  obtain ⟨type, shape⟩ := alike input hin output hout
  have counted : n.kind.inputCount? = some 1 := by rw [kind]; rfl
  have inputs : n.inputs.map behind = [some input] := by
    rw [behind_inputs ((accepted_iff_of_count counted).1 accepted).1.1, ← Option.mem_def.1 hin]
    rfl
  rw [configureOn, configureOn, inputs, Option.mem_def.1 hout, kind]
  simp only [Layer.configure?, Option.map_some, Layer.map_plain,
    ActivationLayer.configure_alike type shape]

end Node
end TileCompute
