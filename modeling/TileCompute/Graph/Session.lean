import TileCompute.Graph.Lowering

/-!
# TileCompute.Graph.Session

Working with a graph step by step.

A session holds the context, the device and the layers configured so far, numbered from zero. A
step that asks for a layer takes the next number even when there is none in the end.
-/

namespace TileCompute

/-- The state of a graph at work. -/
structure Session where
  context : Context
  device : Device
  layers : List (Option Layer)
deriving DecidableEq, Repr

/-- Something to do. -/
inductive Step where
  | create (n : Node)
  | gemm (a b : View) (c : Option View) (output : View) (alpha beta : Binary32)
      (keepRight : Bool) (config : Option Config)
  | multiply (a b output : View) (scale : Binary32)
  | prepare (layer : Nat)
  | run (layer : Nat)
  | write (tensor : View) (values : List Binary32)
deriving DecidableEq, Repr

/-- What came of a step. -/
inductive StepResult where
  /-- A layer, or none for a node that computes nothing, with what was said. -/
  | configured (layer : Option Layer) (log : List String)
  | done
  /-- There is no layer of that number. -/
  | absent
deriving DecidableEq, Repr

namespace Session

/-- A session without layers. -/
def start (context : Context) (m : Memory) : Session := ⟨context, .ofMemory m, []⟩

def layer? (s : Session) (i : Nat) : Option Layer := s.layers[i]?.join

/-- Gives the next number to a layer, or to nothing. -/
def push (s : Session) (layer : Option Layer) : Session :=
  { s with layers := s.layers ++ [layer] }

def replace (s : Session) (i : Nat) (layer : Layer) (d : Device) : Session :=
  { s with device := d, layers := s.layers.set i (some layer) }

def configured (s : Session) (log : List String)
    (outcome : Except (Failure LayerError) (Option (Layer × Memory))) :
    Except (Failure LayerError) StepResult × Session :=
  match outcome with
  | .ok (some (layer, memory)) =>
    (.ok (.configured (some layer) log),
      { s with device := { s.device with memory } }.push (some layer))
  | .ok none => (.ok (.configured none log), s.push none)
  | .error e => (.error e, s.push none)

def step (s : Session) : Step → Except (Failure LayerError) StepResult × Session
  | .create n =>
    let outcome := n.create s.context s.device.memory
    s.configured (n.log outcome)
      (outcome.map fun created => created.map fun c => (c.layer, c.memory))
  | .gemm a b c output alpha beta keepRight config =>
    s.configured []
      ((GemmLayer.configure? a b c output
        ⟨alpha, beta, keepRight, config, s.context.pooled, s.context.environment⟩
        s.device.memory).map fun (layer, m) => some (.gemm layer, m))
  | .multiply a b output scale =>
    s.configured []
      ((refuse (MultiplicationLayer.configure a b output scale)).map fun layer =>
        some (.multiplication layer, s.device.memory))
  | .prepare i =>
    match s.layer? i with
    | some layer =>
      let (layer, d) := layer.prepare s.device
      (.ok .done, s.replace i layer d)
    | none => (.ok .absent, s)
  | .run i =>
    match s.layer? i with
    | some layer =>
      match layer.run s.device with
      | .ok (layer, d) => (.ok .done, s.replace i layer d)
      | .error f => (.error (.fault f), s)
    | none => (.ok .absent, s)
  | .write tensor values =>
    match tensor.write values s.device.memory with
    | .ok memory => (.ok .done, { s with device := { s.device with memory } })
    | .error e => (.error e, s)

def runSteps (s : Session) : List Step → List (Except (Failure LayerError) StepResult) × Session
  | [] => ([], s)
  | st :: rest =>
    let (result, s) := s.step st
    let (results, s) := s.runSteps rest
    (result :: results, s)

end Session

end TileCompute
