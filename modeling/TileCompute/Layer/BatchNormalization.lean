import TileCompute.Layer.Activation

/-!
# TileCompute.Layer.BatchNormalization

Normalization of every channel by given statistics.

The value of channel `c` becomes `gamma * (x - mean) / sqrt (variance + epsilon) + beta`, computed
as `x * scale + shift` with one scale and shift per channel, and an activation may follow.
-/

namespace TileCompute

/-- A batch normalization. Missing `beta` counts as zero, missing `gamma` as one. -/
structure BatchNormalization where
  input : View
  output : View
  mean : View
  variance : View
  beta : Option View
  gamma : Option View
  epsilon : Binary32
  activation : Option Activation
deriving DecidableEq, Repr

/-- Factor and summand of one channel. -/
structure ChannelMap where
  scale : Binary32
  shift : Binary32
deriving DecidableEq, Repr, Inhabited

namespace BatchNormalization

def channels (l : BatchNormalization) : Nat := l.input.layout.shape.z

def checkParameter (input parameter : Layout) : Except LayerError Unit := do
  checkSameType input parameter
  if parameter.shape.size ≠ input.shape.z then
    throw (.batchNormParameter parameter.shape input.shape.z)

/-- The parameters that are present, in the order of their checks. -/
def parameters (l : BatchNormalization) : List View :=
  [l.mean, l.variance] ++ l.beta.toList ++ l.gamma.toList

def check (l : BatchNormalization) : Except LayerError Unit := do
  checkFloat l.input.layout
  checkSameType l.input.layout l.output.layout
  checkSameShape "batch normalization" l.input.layout l.output.layout
  l.parameters.forM fun p => checkParameter l.input.layout p.layout

def configure (input output mean variance : View) (beta gamma : Option View) (epsilon : Binary32)
    (activation : Option Activation) : Except LayerError BatchNormalization := do
  let l : BatchNormalization := ⟨input, output, mean, variance, beta, gamma, epsilon, activation⟩
  l.check
  return l

def channelMap (epsilon mean variance beta gamma : Binary32) : ChannelMap :=
  let scale := gamma / (variance + epsilon).sqrt
  ⟨scale, beta - mean * scale⟩

/-- The values of a parameter, or the same value for every channel. -/
def parameterValues (l : BatchNormalization) (p : Option View) (missing : Binary32) (m : Memory) :
    Array Binary32 :=
  match p with
  | some p => (p.values m).toArray
  | none => Array.replicate l.channels missing

def channelMaps (l : BatchNormalization) (m : Memory) : Array ChannelMap :=
  let mean := l.parameterValues l.mean .zero m
  let variance := l.parameterValues l.variance .zero m
  let beta := l.parameterValues l.beta .zero m
  let gamma := l.parameterValues l.gamma .one m
  ((List.range l.channels).map fun c =>
    channelMap l.epsilon (mean.getD c .zero) (variance.getD c .zero) (beta.getD c .zero)
      (gamma.getD c .zero)).toArray

def runSite (l : BatchNormalization) (maps : Array ChannelMap) (s : Site) (m : Memory) : Memory :=
  let map := maps.getD s.z default
  let value := l.input.loadValue m (l.input.layout.site s) * map.scale + map.shift
  let value :=
    match l.activation with
    | some f => f.apply value
    | none => value
  l.output.storeValue m (l.output.layout.site s) value

def run (l : BatchNormalization) (m : Memory) : Memory :=
  l.input.layout.shape.launch (l.runSite (l.channelMaps m)) m

end BatchNormalization

end TileCompute
