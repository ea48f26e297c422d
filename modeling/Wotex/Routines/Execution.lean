import Wotex.Routines.Run

/-!
# Execution: walking the tree

Models `proposal.ex`, `pending.ex` and `execution.ex`.

`Execution.advance` walks the tree from the root with a map of records. A visit leaves a
terminal step alone, fails a step whose inherited deadline has passed, and otherwise starts the
step and executes its kind. A reached unsent effect becomes a proposal. `finish` reads the
outcome of the run off the records and, when something failed, halts the rest and drops the
proposals.

A visit to a node whose record is missing raises: `start/3` and `fail/2` update `nil`.
-/

namespace Wotex.Routines

open Wotex.Json (Value)

/-! ## Proposals (`proposal.ex`) -/

/-- A proposal. -/
structure Proposal where
  original : Text
  stepOriginal : Text
  programDigest : Text
  path : List Num
  binding : Text
  installedBasis : Ref
  thingId : Text
  resourceRoles : Dict Text
  resourceDomains : List Text
  operation : Operation
  input : Scalar Num
  completion : Stage
  evidenceContract : Ref
  deriving DecidableEq

namespace Proposal

def data (p : Proposal) : Value :=
  .obj [("binding", .str p.binding), ("completion", .str p.completion.text),
    ("evidence_contract", p.evidenceContract.data), ("input", p.input.data),
    ("installed_basis", p.installedBasis.data), ("operation", .str p.operation.text),
    ("original", .str p.original), ("path", pathData p.path),
    ("program_digest", .str p.programDigest), ("resource_domains", jstrings p.resourceDomains),
    ("resource_roles", Basis.rolesData p.resourceRoles), ("step_original", .str p.stepOriginal),
    ("thing_id", .str p.thingId)]

def domains (b : Binding) : List Text := sortTexts (b.thingId :: b.resourceRoles.values).dedup

/-- `from_step/4`. A compiled effect has its binding and its basis. -/
def fromStep (p : Program) (original : Text) (e : EffectNode Num) (stepOriginal : Text) :
    Checked Proposal :=
  match p.context.bindings.get e.binding, ExecutionTree.basis p e.binding with
  | some b, some basis =>
    .ok ⟨original, stepOriginal, p.irDigest, e.path, e.binding, b.basis, b.thingId,
      b.resourceRoles, domains b, basis.affordance.operation, e.input, e.completion,
      e.evidenceContract⟩
  | _, _ => .raise

end Proposal

/-! ## Pending effects (`pending.ex`) -/

namespace Pending

/-- What the walk reads. -/
structure Env where
  host : Host
  records : Records
  values : Values
  profile : Profile
  limits : Limits

/-- `visit/2` in front of a node kind. -/
def guarded (env : Env) (path : List Num) (body : StepRecord → Checked (List (List Num))) :
    Checked (List (List Num)) :=
  match env.records path with
  | none => .ok []
  | some r => if r.status.terminal || r.startedMs.isNone then .ok [] else body r

/-- The predicate in front of a body. -/
def gate (env : Env) (code : List (Instr Num)) (body : Checked (List (List Num))) :
    Checked (List (List Num)) := do
  let t ← PredicateMachine.run env.host code env.values env.profile env.limits
  if t = .yes then body else .ok []

mutual
/-- `visit/2` and `eligible/3`. -/
def visit (env : Env) : Node Num → Checked (List (List Num))
  | .effect e => guarded env e.path fun r =>
    if r.status = .proposed ∨ r.status = .reserved then .ok [e.path] else .ok []
  | .sequence _ path steps => guarded env path fun _ => first env steps
  | .parallel _ path branches => guarded env path fun _ => all env branches
  | .ite _ path _ yes no => guarded env path fun r =>
    match r.branch with
    | some .yes => visit env yes
    | some .no => visit env no
    | none => .ok []
  | .invoke i code body => guarded env i.path fun _ => gate env code (visit env body)
  | .noop .. | .wait .. | .delay .. => .ok []

/-- The first child that is not completed. -/
def first (env : Env) : List (Node Num) → Checked (List (List Num))
  | [] => .ok []
  | n :: ns =>
    if Run.statusAt env.records n.path = some .completed then first env ns else visit env n

/-- The children one after the other. -/
def all (env : Env) : List (Node Num) → Checked (List (List Num))
  | [] => .ok []
  | n :: ns => do
    let paths ← visit env n
    let rest ← all env ns
    .ok (paths ++ rest)
end

def paths (host : Host) (p : Program) (r : Run) (values : Values) (profile : Profile) (l : Limits) :
    Checked (List (List Num)) :=
  let env : Env := ⟨host, recordAt r.steps, values, profile, l⟩
  if r.status.stopped then .ok [] else gate env p.ir.condition (visit env p.ir.steps)

end Pending

/-! ## Execution (`execution.ex`) -/

namespace Execution

/-- What the walk reads: the program, the run's identity, the readings and the time. -/
structure Env where
  host : Host
  program : Program
  original : Text
  values : Values
  elapsed : Int
  profile : Profile
  limits : Limits

/-- What the walk changes. The proposals are in reverse order. -/
structure State where
  records : Records
  proposals : List Proposal
  blocked : Bool

namespace State

variable (s : State) (path : List Num)

/-- `put/3` of a changed record. -/
def modify (f : StepRecord → StepRecord) : State :=
  { s with records := fun q => if q = path then (s.records q).map f else s.records q }

/-- `status/3`. -/
def setStatus (status : StepStatus) : State :=
  s.modify path fun r => { r with status := status }

/-- `blocked: true`. -/
def block (s : State) : State := { s with blocked := true }

end State

def expiredStep (r : Run) (elapsed : Int) : Bool :=
  r.steps.any fun s => (decide (s.kind = .effect) || decide (s.kind = .invoke))
    && !s.status.terminal && s.deadlineMs.any fun d => d.isInt && d.le (.int elapsed)

/-- `stop_record/1` on a status. -/
def stopStatus : StepStatus → StepStatus
  | .unsent | .proposed | .reserved | .waiting => .cancelled
  | .handedOff => .unknown
  | s => s

def stopRecord (s : StepRecord) : StepRecord := { s with status := stopStatus s.status }

def halt (r : Run) (status : RunStatus) (reason : Option Reason) : Run :=
  { r with steps := r.steps.map stopRecord, status := status, reason := reason }

variable (env : Env)

def predicate (code : List (Instr Num)) : Checked Truth :=
  PredicateMachine.run env.host code env.values env.profile env.limits

/-- `execution.ex:92-97`. -/
def effectDeadline (node : Node Num) (inherited : Num) : Checked Num :=
  match node with
  | .effect e =>
    match ExecutionTree.basis env.program e.binding with
    | none => .raise
    | some b => .ok (inherited.min ((Num.int env.elapsed).add (.int b.timing.deadlineMs)))
  | _ => .ok inherited

/-- `execution.ex:76-90`. -/
def start (node : Node Num) (deadline : Num) (r : StepRecord) (s : State) :
    Checked State :=
  match r.startedMs with
  | some _ => .ok s
  | none => do
    let budget ← effectDeadline env node deadline
    .ok (s.modify node.path fun r => { r with startedMs := some env.elapsed, deadlineMs := some budget })

/-- `visit/3` around the kind's own clause of `execute/3`. -/
def visitWith (node : Node Num) (deadline : Num) (s : State)
    (execute : State → Checked State) : Checked State :=
  match s.records node.path with
  | none => .raise
  | some r =>
    if r.status.terminal then .ok s
    else if deadline.le (.int env.elapsed) then .ok (s.setStatus node.path .failed)
    else do
      let s ← start env node deadline r s
      execute s

/-- The effect clause of `execute/3`. -/
def propose (e : EffectNode Num) (s : State) : Checked State :=
  match s.records e.path with
  | none => .raise
  | some r =>
    if r.status = .unsent then do
      let p ← Proposal.fromStep env.program env.original e r.original
      let s := s.setStatus e.path .proposed
      .ok { s with proposals := p :: s.proposals }
    else .ok s

/-- The status of a parent over those of its children. -/
def joinStatus (statuses : List (Option StepStatus)) : StepStatus :=
  if statuses.all fun x => decide (x = some .completed) then .completed
  else if some .unknown ∈ statuses then .unknown
  else if some .failed ∈ statuses then .failed
  else if some .refused ∈ statuses then .failed
  else .waiting

def join (path : List Num) (children : List (Node Num)) (s : State) : State :=
  s.setStatus path (joinStatus (children.map fun c => Run.statusAt s.records c.path))

/-- The branch a truth selects. -/
def selection : Truth → Option Branch
  | .yes => some .yes
  | .no => some .no
  | .unknown => none

/-- `execution.ex:183-200`. -/
def select (env : Env) (path : List Num) (code : List (Instr Num)) (s : State) : Checked State :=
  match (s.records path).bind (·.branch) with
  | some _ => .ok s
  | none => do
    let t ← predicate env code
    .ok (s.modify path fun r => { r with branch := selection t })

/-- The own deadline of an invocation or a wait: its budget from its start, within the inherited
one. -/
def ownDeadline (s : State) (path : List Num) (inherited budget : Num) : Checked Num :=
  match Run.startedAt s.records path with
  | none => .raise
  | some started => .ok (inherited.min ((Num.int started).add budget))

variable (path : List Num)

/-- The wait clause of `execute/3`. -/
def await (code : List (Instr Num)) (inherited timeoutMs : Num)
    (s : State) : Checked State := do
  let deadline ← ownDeadline s path inherited timeoutMs
  let s := s.modify path fun r => { r with deadlineMs := some deadline }
  if deadline.le (.int env.elapsed) then .ok (s.setStatus path .failed)
  else do
    let t ← predicate env code
    .ok (s.setStatus path (if t = .yes then .completed else .waiting))

/-- The delay clause of `execute/3`. -/
def delay (durationMs : Num) (s : State) : Checked State :=
  match Run.startedAt s.records path with
  | none => .raise
  | some started =>
    .ok (s.setStatus path
      (if ((Num.int started).add durationMs).le (.int env.elapsed) then .completed else .waiting))

mutual
/-- `visit/3` and `execute/3`. -/
def visit (env : Env) : Node Num → Num → State → Checked State
  | n@(.noop _ path), deadline, s =>
    visitWith env n deadline s fun s => .ok (s.setStatus path .completed)
  | n@(.effect e), deadline, s => visitWith env n deadline s (propose env e)
  | n@(.sequence _ path steps), deadline, s => visitWith env n deadline s fun s => do
    let s ← sequence env steps deadline s
    .ok (join path steps s)
  | n@(.parallel _ path branches), deadline, s => visitWith env n deadline s fun s => do
    let s ← parallel env branches deadline s
    .ok (join path branches s)
  | n@(.ite _ path code yes no), deadline, s => visitWith env n deadline s fun s => do
    let s ← select env path code s
    match (s.records path).bind (·.branch) with
    | none => .ok s.block
    | some .yes => do
      let s ← visit env yes deadline s
      .ok (join path [yes] s)
    | some .no => do
      let s ← visit env no deadline s
      .ok (join path [no] s)
  | n@(.wait _ path code timeoutMs), deadline, s =>
    visitWith env n deadline s (await env path code deadline timeoutMs)
  | n@(.delay _ path durationMs), deadline, s =>
    visitWith env n deadline s (delay env path durationMs)
  | n@(.invoke i code body), deadline, s => visitWith env n deadline s fun s => do
    let deadline ← ownDeadline s i.path deadline i.runMs
    let s := s.modify i.path fun r => { r with deadlineMs := some deadline }
    let t ← predicate env code
    let s ← if t = .yes then visit env body deadline s else .ok s.block
    .ok (join i.path [body] s)

def sequence (env : Env) : List (Node Num) → Num → State → Checked State
  | [], _, s => .ok s
  | n :: ns, deadline, s => do
    let s ← visit env n deadline s
    if Run.statusAt s.records n.path = some .completed then sequence env ns deadline s else .ok s

/-- The children of a parallel one after the other. -/
def parallel (env : Env) : List (Node Num) → Num → State → Checked State
  | [], _, s => .ok s
  | n :: ns, deadline, s => do
    let s ← visit env n deadline s
    parallel env ns deadline s
end

/-- The first of unknown, failed and refused that occurs. -/
def failure (statuses : List StepStatus) : Option StepStatus :=
  [StepStatus.unknown, .failed, .refused].find? fun x => decide (x ∈ statuses)

/-- `aggregate/3`: what the run comes to, with the reason. -/
def aggregate (status : Option StepStatus) (blocked handoff waitFailed : Bool) :
    RunStatus × Option Reason :=
  match status with
  | some .refused => (if handoff then .partially else .refused, some .receiptRefused)
  | some .unknown => (.unknown, some .effectUnknown)
  | some .failed =>
    (if handoff then .partially else .failed, some (if waitFailed then .waitTimeout else .effectFailed))
  | some .completed => (.completed, none)
  | _ => if blocked then (.blocked, some .conditionBlocked) else (.running, none)

/-- A status that halts the rest of the run. -/
def fails : RunStatus → Bool
  | .failed | .unknown | .refused | .partially => true
  | _ => false

/-- `execution.ex:228-245`. -/
def finish (r : Run) (root : List Num) (s : State) : Run × List Proposal :=
  let steps := r.steps.map fun x => (s.records x.path).getD x
  let status := (failure (steps.map (·.status))).or (Run.statusAt s.records root)
  let handoff := steps.any fun x => x.receipts.handoff.isSome
  let waitFailed := steps.any fun x => decide (x.kind = .wait) && decide (x.status = .failed)
  let (status, reason) := aggregate status s.blocked handoff waitFailed
  let r := { r with steps := steps, status := status, reason := reason }
  if fails status then (halt r status reason, []) else (r, s.proposals.reverse)

/-- `execution.ex:12-38`. -/
def advance (host : Host) (r : Run) (p : Program) (values : Values) (t : Time) (profile : Profile)
    (l : Limits) : Checked (Run × List Proposal) :=
  let env : Env := ⟨host, p, r.original, values, t.elapsedMs, profile, l⟩
  let s : State := ⟨recordAt r.steps, [], false⟩
  if r.status.stopped then .ok (r, [])
  else if expiredStep r t.elapsedMs then .ok (halt r .expired (some .deadlineElapsed), [])
  else do
    let truth ← predicate env p.ir.condition
    let s ← if truth = .yes then visit env p.ir.steps (.int r.deadlineMs) s else .ok s.block
    .ok (finish r p.ir.steps.path s)

end Execution

end Wotex.Routines
