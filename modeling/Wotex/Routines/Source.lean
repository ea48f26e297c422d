import Wotex.Routines.Basis

/-!
# Routine sources (`source.ex`)

A source is a closed tree of steps with predicates over bindings. `Source.new` walks it once with
counters for nodes, predicates, effects and waits and the set of step identities, and refuses at
the first bound, reference or identity that does not hold. Construction installs nothing.
-/

namespace Wotex.Routines

open Wotex.Json (Value)

/-! ## Scalars, truths and triggers -/

/-- A boolean, a number or a string. -/
inductive Scalar (ν : Type) where
  | bool (b : Bool)
  | num (n : ν)
  | str (s : Text)
  deriving DecidableEq

variable {κ : Type}

namespace Scalar

variable {ν μ : Type}

/-- The number replaced. -/
def map (f : ν → μ) : Scalar ν → Scalar μ
  | bool b => bool b
  | num n => num (f n)
  | str s => str s

@[simp] theorem map_map (f : ν → μ) (g : μ → κ) (s : Scalar ν) : (s.map f).map g = s.map (g ∘ f) := by
  cases s <;> rfl

@[simp] theorem map_id (s : Scalar ν) : s.map id = s := by
  cases s <;> rfl

/-- The JSON form. -/
def data : Scalar Num → Value
  | bool b => .bool b
  | num n => .num n
  | str s => .str s

end Scalar

/-- The JSON form of a scalar of the source, whose numbers are integers. -/
def scalarData (s : Scalar Int) : Value := (s.map Num.int).data

/-- `true`, `false` or `"unknown"`. -/
inductive Truth where
  | yes | no | unknown
  deriving DecidableEq

/-- The JSON form. -/
def Truth.data : Truth → Value
  | yes => .bool true
  | no => .bool false
  | unknown => .str "unknown"

/-- The comparison of a predicate. -/
inductive Comparison where
  | eq | gt | lt
  deriving DecidableEq

/-- The name of a comparison. -/
def Comparison.text : Comparison → Text
  | eq => "eq"
  | gt => "gt"
  | lt => "lt"

/-- The direction of a reported edge. -/
inductive Direction where
  | rising | falling

/-- The name of a direction. -/
def Direction.text : Direction → Text
  | rising => "rising"
  | falling => "falling"

/-- `"hysteresis"`. -/
structure Hysteresis (ν : Type) where
  enter : ν
  exit : ν

/-- An edge trigger. -/
structure EdgeTrigger (ν : Type) where
  binding : Text
  direction : Direction
  debounceMs : ν
  cooldownMs : ν
  hysteresis : Option (Hysteresis ν)

/-- What starts a run. -/
inductive Trigger (ν : Type) where
  | manual
  | due (scheduleId scheduleBasis : Text)
  | countdown (scheduleId scheduleBasis : Text)
  | edge (e : EdgeTrigger ν)

section Triggers

variable {ν μ : Type}

variable (f : ν → μ)

/-- The numbers replaced. -/
def Hysteresis.map (h : Hysteresis ν) : Hysteresis μ := ⟨f h.enter, f h.exit⟩

/-- The numbers replaced. -/
def EdgeTrigger.map (e : EdgeTrigger ν) : EdgeTrigger μ :=
  ⟨e.binding, e.direction, f e.debounceMs, f e.cooldownMs, e.hysteresis.map (Hysteresis.map f)⟩

/-- The numbers replaced. -/
def Trigger.map : Trigger ν → Trigger μ
  | manual => manual
  | due id basis => due id basis
  | countdown id basis => countdown id basis
  | edge e => edge (e.map f)

@[simp] theorem Hysteresis.map_map (g : μ → κ) (h : Hysteresis ν) : (h.map f).map g = h.map (g ∘ f) := rfl

@[simp] theorem Trigger.map_map (g : μ → κ) (t : Trigger ν) : (t.map f).map g = t.map (g ∘ f) := by
  rcases t with _ | _ | _ | ⟨_, _, _, _, _ | _⟩ <;> rfl

@[simp] theorem Trigger.map_id (t : Trigger ν) : t.map id = t := by
  rcases t with _ | _ | _ | ⟨_, _, _, _, _ | _⟩ <;> rfl

def Hysteresis.data (h : Hysteresis Num) : Value := .obj [("enter", .num h.enter), ("exit", .num h.exit)]

def EdgeTrigger.data (e : EdgeTrigger Num) : Value :=
  .obj [("binding", .str e.binding), ("cooldown_ms", .num e.cooldownMs),
    ("debounce_ms", .num e.debounceMs), ("direction", .str e.direction.text),
    ("hysteresis", jopt Hysteresis.data e.hysteresis), ("kind", .str "edge")]

def Trigger.data : Trigger Num → Value
  | manual => .obj [("kind", .str "manual")]
  | due id basis =>
    .obj [("kind", .str "due"), ("schedule_basis", .str basis), ("schedule_id", .str id)]
  | countdown id basis =>
    .obj [("kind", .str "countdown"), ("schedule_basis", .str basis), ("schedule_id", .str id)]
  | edge e => e.data

end Triggers

/-! ## Predicates and steps -/

/-- An argument: a literal or a parameter of the source. -/
inductive Arg where
  | scalar (s : Scalar Int)
  | parameter (name : Text)

/-- The JSON form. -/
def Arg.data : Arg → Value
  | scalar s => scalarData s
  | parameter name => .obj [("parameter", .str name)]

/-- The connective of a combined predicate. -/
inductive Connective where
  | all | any

/-- The name of a connective. -/
def Connective.text : Connective → Text
  | all => "all"
  | any => "any"

/-- A predicate of the source. -/
inductive Predicate where
  | literal (t : Truth)
  | compare (op : Comparison) (binding : Text) (value : Arg)
  | not (arg : Predicate)
  | combine (op : Connective) (args : List Predicate)

/-- A step of the source. -/
inductive Step where
  | noop (id : Text)
  | effect (id binding : Text) (input : Arg) (completion : Stage)
  | sequence (id : Text) (steps : List Step)
  | parallel (id : Text) (branches : List Step)
  | ite (id : Text) (condition : Predicate) (yes no : Step)
  | wait (id : Text) (condition : Predicate) (timeoutMs : Int)
  | delay (id : Text) (durationMs : Int)
  | invoke (id routineId revision : Text) (arguments : Dict Arg)

mutual
def Predicate.data : Predicate → Value
  | literal t => .obj [("op", .str "literal"), ("value", t.data)]
  | compare op binding value =>
    .obj [("binding", .str binding), ("op", .str op.text), ("value", value.data)]
  | not arg => .obj [("arg", arg.data), ("op", .str "not")]
  | combine op args => .obj [("args", .arr (Predicate.dataList args)), ("op", .str op.text)]

/-- The JSON forms of predicates. -/
def Predicate.dataList : List Predicate → List Value
  | [] => []
  | p :: ps => p.data :: Predicate.dataList ps
end

/-- The identity of a step. -/
def Step.id : Step → Text
  | noop id | effect id .. | sequence id _ | parallel id _ | ite id .. | wait id .. | delay id _
  | invoke id .. => id

mutual
def Step.data : Step → Value
  | noop id => .obj [("id", .str id), ("kind", .str "noop")]
  | effect id binding input completion =>
    .obj [("binding", .str binding), ("completion", .str completion.text), ("id", .str id),
      ("input", input.data), ("kind", .str "effect")]
  | sequence id steps =>
    .obj [("id", .str id), ("kind", .str "sequence"), ("steps", .arr (Step.dataList steps))]
  | parallel id branches =>
    .obj [("branches", .arr (Step.dataList branches)), ("id", .str id), ("kind", .str "parallel")]
  | ite id condition yes no =>
    .obj [("condition", condition.data), ("else", no.data), ("id", .str id), ("kind", .str "if"),
      ("then", yes.data)]
  | wait id condition timeoutMs =>
    .obj [("condition", condition.data), ("id", .str id), ("kind", .str "wait"),
      ("timeout_ms", jint timeoutMs)]
  | delay id durationMs =>
    .obj [("duration_ms", jint durationMs), ("id", .str id), ("kind", .str "delay")]
  | invoke id routineId revision arguments =>
    .obj [("arguments", .obj (arguments.map Arg.data).entries), ("id", .str id),
      ("kind", .str "invoke"), ("revision", .str revision), ("routine_id", .str routineId)]

/-- The JSON forms of steps. -/
def Step.dataList : List Step → List Value
  | [] => []
  | s :: ss => s.data :: Step.dataList ss
end

/-- `Wotex.Routines.Source`; `"format"`, `"profile"` and `"overlap"` have one value each. -/
structure Source where
  id : Text
  revision : Text
  parameters : Dict ValueContract
  bindings : List Text
  trigger : Trigger Int
  condition : Predicate
  steps : Step
  runMs : Int

def Source.data (s : Source) : Value :=
  .obj [("bindings", jstrings s.bindings), ("condition", s.condition.data),
    ("format", .str "wotex.routines.source@1"), ("id", .str s.id), ("overlap", .str "reject"),
    ("parameters", .obj (s.parameters.map ValueContract.data).entries),
    ("profile", .str "bounded-composition@1"), ("revision", .str s.revision),
    ("run_ms", jint s.runMs), ("steps", s.steps.data),
    ("trigger", (s.trigger.map Num.int).data)]

/-! ## Construction -/

namespace Source

def narrowed (l : Limits) (p : Profile) : Limits :=
  { l with maxBytes := min l.maxBytes p.sourceBytes, maxDepth := min l.maxDepth p.sourceDepth }

/-- The part of the walk's state that does not change. -/
structure Env where
  parameters : Dict ValueContract
  bindings : List Text
  limits : Limits
  profile : Profile
  runMs : Int

/-- The counters of the walk and the step identities seen. -/
structure Count where
  nodes : Int := 0
  predicates : Int := 0
  effects : Int := 0
  waits : Int := 0
  ids : List Text := []

/-- `binding/2`. -/
def checkBinding (env : Env) (name : Text) : Checked Unit := do
  text name "/binding"
  check (decide (name ∈ env.bindings)) .unknownBinding "/binding"

/-- `argument/2`. -/
def checkArgument (env : Env) : Arg → Checked Unit
  | .scalar _ => .ok ()
  | .parameter name => do
    text name "/parameter"
    check (decide (name ∈ env.parameters.keys)) .unknownParameter "/parameter"

def duration (value maximum : Int) (l : Limits) : Checked Unit := do
  integer value l "/duration" (some 1)
  check (decide (value ≤ maximum)) .durationBound "/duration"

/-- `hysteresis/3`. -/
def checkHysteresis (env : Env) (direction : Direction) : Option (Hysteresis Int) → Checked Unit
  | none => .ok ()
  | some h => do
    integer h.enter env.limits "/trigger/hysteresis/enter"
    integer h.exit env.limits "/trigger/hysteresis/exit"
    check (match direction with
      | .rising => decide (h.exit < h.enter)
      | .falling => decide (h.enter < h.exit)) .invalidHysteresis "/trigger/hysteresis"

/-- `trigger/2`. -/
def checkTrigger (env : Env) : Trigger Int → Checked Unit
  | .manual => .ok ()
  | .due id basis | .countdown id basis => do
    text id "/trigger/schedule_id"
    digest basis "/trigger/schedule_basis"
  | .edge e => do
    checkBinding env e.binding
    integer e.debounceMs env.limits "/trigger/debounce_ms" (some 0)
    integer e.cooldownMs env.limits "/trigger/cooldown_ms" (some 0)
    checkHysteresis env e.direction e.hysteresis

mutual
/-- `predicate/2` and `predicate_form/2`. -/
def predicate (env : Env) : Predicate → Count → Checked Count
  | p, c => do
    check (decide (c.predicates < env.profile.predicateNodes)) .predicateBound "/condition"
    let c := { c with predicates := c.predicates + 1 }
    match p with
    | .literal _ => .ok c
    | .compare _ binding value => do
      checkBinding env binding
      checkArgument env value
      .ok c
    | .not arg => predicate env arg c
    | .combine _ args => do
      check (!args.isEmpty) .emptyOrInvalidArray
      predicates env args c

/-- `reduce/3` over predicates. -/
def predicates (env : Env) : List Predicate → Count → Checked Count
  | [], c => .ok c
  | p :: ps, c => do
    let c ← predicate env p c
    predicates env ps c
end

mutual
/-- `node/2` and `node_form/2`. -/
def node (env : Env) : Step → Count → Checked Count
  | s, c => do
    check (decide (c.nodes < env.profile.expandedNodes)) .nodeBound "/steps"
    text s.id "/steps/id"
    check (decide (s.id ∉ c.ids)) .duplicateIdentity "/steps/id"
    let c := { c with nodes := c.nodes + 1, ids := s.id :: c.ids }
    match s with
    | .noop _ => .ok c
    | .effect _ binding input _ => do
      checkBinding env binding
      checkArgument env input
      check (decide (c.effects < env.profile.effects)) .effectBound "/steps"
      .ok { c with effects := c.effects + 1 }
    | .sequence _ steps => do
      check (!steps.isEmpty) .emptyOrInvalidArray
      nodes env steps c
    | .parallel _ branches => do
      check (!branches.isEmpty) .emptyOrInvalidArray
      check (decide ((branches.length : Int) ≤ env.profile.parallelWidth)) .parallelBound "/steps"
      nodes env branches c
    | .ite _ condition yes no => do
      let c ← predicate env condition c
      let c ← node env yes c
      node env no c
    | .wait _ condition timeoutMs => do
      duration timeoutMs env.runMs env.limits
      check (decide (c.waits < env.profile.waits)) .waitBound "/steps"
      let c ← predicate env condition c
      .ok { c with waits := c.waits + 1 }
    | .delay _ durationMs => do
      duration durationMs env.runMs env.limits
      check (decide (c.waits < env.profile.waits)) .waitBound "/steps"
      .ok { c with waits := c.waits + 1 }
    | .invoke _ routineId revision arguments => do
      text routineId "/steps/routine_id"
      text revision "/steps/revision"
      Outcome.each (fun e => do
        text e.1 "/steps/arguments"
        checkArgument env e.2) arguments.entries
      .ok c

/-- `reduce/3` over steps. -/
def nodes (env : Env) : List Step → Count → Checked Count
  | [], c => .ok c
  | s :: ss, c => do
    let c ← node env s c
    nodes env ss c
end

/-- `source.ex:13-32`. -/
def new (host : Host) (s : Source) (p : Profile) (l : Limits) : Checked Source := do
  let p ← Profile.new p
  let l ← Limits.new l
  let l ← admitData host s.data (narrowed l p)
  text s.id "/id"
  text s.revision "/revision"
  Outcome.each (fun e => do
    text e.1 "/parameters"
    e.2.validate host l) s.parameters.entries
  strings s.bindings "/bindings"
  duration s.runMs p.runMs l
  let env : Env := ⟨s.parameters, s.bindings, l, p, s.runMs⟩
  checkTrigger env s.trigger
  let c ← predicate env s.condition {}
  let _ ← node env s.steps c
  .ok s

end Source

end Wotex.Routines
