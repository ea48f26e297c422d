import Wotex.Routines.Observation

/-!
# Retained runs (`run.ex`, `execution_tree.ex`)

A run keeps one record for every node of the program, in preorder. `Run.new` regenerates the
node identities and checks the header, every record, the spent list, the relations along the tree
and the window.

Two comparisons matter later. The path of a record is compared with the node's path by `==`
(`run.ex:150-151`), that is by value; but records are looked up in a map keyed by path, where `0`
and `0.0` are different keys. A record that is looked up and missing is `nil`: members of `nil` are
`nil`, arithmetic on them raises.
-/

namespace Wotex.Routines

open Wotex.Json (Value)

/-! ## Statuses and receipts -/

/-- `@step_statuses`. -/
inductive StepStatus where
  | unsent | proposed | reserved | handedOff | waiting | completed | refused | failed | unknown
  | cancelled
  deriving DecidableEq

/-- `@statuses` of a run; `partially` is `"partial"`. -/
inductive RunStatus where
  | running | blocked | partially | completed | refused | failed | unknown | cancelled | expired
  deriving DecidableEq

/-- `@reasons`. -/
inductive Reason where
  | conditionBlocked | childConditionBlocked | receiptRefused | effectFailed | effectUnknown
  | waitTimeout | clockChanged | clockRegressed | deadlineElapsed | windowClosed | cancelled
  | inactiveProgram

/-- `"outcome"` of a receipt. -/
inductive ReceiptOutcome where
  | held | refused | marked | accepted | failed | unknown | matched
  deriving DecidableEq

/-- A receipt slot. -/
inductive Slot where
  | admission | handoff | stage (s : Stage) | terminal | satisfied

/-- A selected branch of a conditional. -/
inductive Branch where
  | yes | no
  deriving DecidableEq

/-- The name of a step status. -/
def StepStatus.text : StepStatus → Text
  | unsent => "unsent"
  | proposed => "proposed"
  | reserved => "reserved"
  | handedOff => "handed_off"
  | waiting => "waiting"
  | completed => "completed"
  | refused => "refused"
  | failed => "failed"
  | unknown => "unknown"
  | cancelled => "cancelled"

/-- The name of a run status. -/
def RunStatus.text : RunStatus → Text
  | running => "running"
  | blocked => "blocked"
  | partially => "partial"
  | completed => "completed"
  | refused => "refused"
  | failed => "failed"
  | unknown => "unknown"
  | cancelled => "cancelled"
  | expired => "expired"

/-- The name of a reason. -/
def Reason.text : Reason → Text
  | conditionBlocked => "condition_blocked"
  | childConditionBlocked => "child_condition_blocked"
  | receiptRefused => "receipt_refused"
  | effectFailed => "effect_failed"
  | effectUnknown => "effect_unknown"
  | waitTimeout => "wait_timeout"
  | clockChanged => "clock_changed"
  | clockRegressed => "clock_regressed"
  | deadlineElapsed => "deadline_elapsed"
  | windowClosed => "window_closed"
  | cancelled => "cancelled"
  | inactiveProgram => "inactive_program"

/-- The name of a receipt outcome. -/
def ReceiptOutcome.text : ReceiptOutcome → Text
  | held => "held"
  | refused => "refused"
  | marked => "marked"
  | accepted => "accepted"
  | failed => "failed"
  | unknown => "unknown"
  | matched => "matched"

/-- The name of a branch. -/
def Branch.text : Branch → Text
  | yes => "then"
  | no => "else"

/-- `@terminal` of `execution.ex`: a step that is not visited again. -/
def StepStatus.terminal : StepStatus → Bool
  | completed | refused | failed | unknown | cancelled => true
  | _ => false

/-- `@stopped` of `execution.ex`: a run that is not executed again. -/
def RunStatus.stopped : RunStatus → Bool
  | running | blocked => false
  | _ => true

/-- A receipt. -/
structure Receipt where
  ref : Text
  digest : Text
  outcome : ReceiptOutcome
  deriving DecidableEq

def Receipt.data (r : Receipt) : Value :=
  .obj [("digest", .str r.digest), ("outcome", .str r.outcome.text), ("ref", .str r.ref)]

/-- The receipts of a step. A run of the first format has no `satisfied` slot. -/
structure Receipts where
  admission : Option Receipt := none
  handoff : Option Receipt := none
  localQueue : Option Receipt := none
  protocolResponse : Option Receipt := none
  correlatedReport : Option Receipt := none
  reportedMatch : Option Receipt := none
  terminal : Option Receipt := none
  satisfied : Option Receipt := none
  deriving DecidableEq

namespace Receipts

variable (r : Receipts)

/-- `receipts[slot]`. -/
def get : Slot → Option Receipt
  | .admission => r.admission
  | .handoff => r.handoff
  | .stage .localQueue => r.localQueue
  | .stage .protocolResponse => r.protocolResponse
  | .stage .correlatedReport => r.correlatedReport
  | .stage .reportedMatch => r.reportedMatch
  | .terminal => r.terminal
  | .satisfied => r.satisfied

/-- `put_in(receipts, [slot], value)`. -/
def set (slot : Slot) (value : Option Receipt) : Receipts :=
  match slot with
  | .admission => { r with admission := value }
  | .handoff => { r with handoff := value }
  | .stage .localQueue => { r with localQueue := value }
  | .stage .protocolResponse => { r with protocolResponse := value }
  | .stage .correlatedReport => { r with correlatedReport := value }
  | .stage .reportedMatch => { r with reportedMatch := value }
  | .terminal => { r with terminal := value }
  | .satisfied => { r with satisfied := value }

theorem get_set_of_ne {slot other : Slot} (value : Option Receipt)
    (h : other ≠ slot) : (r.set slot value).get other = r.get other := by
  rcases slot with _ | _ | (_ | _ | _ | _) | _ | _ <;>
    rcases other with _ | _ | (_ | _ | _ | _) | _ | _ <;> first | rfl | exact absurd rfl h

/-- The members in key order; `satisfied` says whether the format has that slot. -/
def data (satisfied : Bool) (r : Receipts) : Value :=
  .obj ([(("admission" : Text), jopt Receipt.data r.admission),
    ("correlated_report", jopt Receipt.data r.correlatedReport),
    ("handoff", jopt Receipt.data r.handoff), ("local_queue", jopt Receipt.data r.localQueue),
    ("protocol_response", jopt Receipt.data r.protocolResponse),
    ("reported_match", jopt Receipt.data r.reportedMatch)]
    ++ (if satisfied then [(("satisfied" : Text), jopt Receipt.data r.satisfied)] else [])
    ++ [(("terminal" : Text), jopt Receipt.data r.terminal)])

end Receipts

/-! ## Records and runs -/

/-- The record of one node. -/
structure StepRecord where
  path : List Num
  original : Text
  kind : Kind
  status : StepStatus
  startedMs : Option Int
  deadlineMs : Option Num
  branch : Option Branch
  receipts : Receipts
  deriving DecidableEq

def StepRecord.data (satisfied : Bool) (r : StepRecord) : Value :=
  .obj [("branch", jopt (fun b : Branch => .str b.text) r.branch),
    ("deadline_ms", jopt .num r.deadlineMs), ("kind", .str r.kind.text),
    ("original", .str r.original), ("path", pathData r.path), ("receipts", r.receipts.data satisfied),
    ("started_ms", jopt jint r.startedMs), ("status", .str r.status.text)]

/-- The two run formats; the second one names its clock grammar. -/
inductive RunFormat where
  | run1
  | run2 (time : TimeFormat)

/-- `Map.get(run, "time_format", "wotex.routines.time@1")`. -/
def RunFormat.time : RunFormat → TimeFormat
  | run1 => .time1
  | run2 t => t

/-- The format has the `satisfied` slot. -/
def RunFormat.isRun2 : RunFormat → Bool
  | run1 => false
  | run2 _ => true

/-- An entry of the spent list. -/
structure Spend where
  original : Text
  ref : Text
  deriving DecidableEq

structure Run where
  format : RunFormat
  original : Text
  programDigest : Text
  sourceDigest : Text
  compilerBasis : Text
  epoch : Text
  clockGeneration : Text
  startMs : Int
  lastMs : Int
  deadlineMs : Int
  status : RunStatus
  steps : List StepRecord
  spent : List Spend
  window : Option Window
  reason : Option Reason

def Run.data (r : Run) : Value :=
  .obj ([(("clock_generation" : Text), .str r.clockGeneration), ("compiler_basis", .str r.compilerBasis),
    ("deadline_ms", jint r.deadlineMs), ("epoch", .str r.epoch),
    ("format", .str (if r.format.isRun2 then "wotex.routines.run@2" else "wotex.routines.run@1")),
    ("last_ms", jint r.lastMs), ("original", .str r.original),
    ("program_digest", .str r.programDigest),
    ("reason", jopt (fun x : Reason => .str x.text) r.reason),
    ("source_digest", .str r.sourceDigest),
    ("spent", .arr (r.spent.map fun s =>
      .obj [("original", .str s.original), ("ref", .str s.ref)])),
    ("start_ms", jint r.startMs), ("status", .str r.status.text),
    ("steps", .arr (r.steps.map (StepRecord.data r.format.isRun2)))]
    ++ (match r.format with
      | .run1 => []
      | .run2 t => [(("time_format" : Text), .str t.text)])
    ++ [(("window" : Text), jopt Window.data r.window)])

/-! ## The execution tree (`execution_tree.ex`) -/

namespace ExecutionTree

/-- `basis/2` of an effect node. -/
def basis (p : Program) (binding : Text) : Option Basis :=
  (p.context.bindings.get binding).bind fun b => p.context.bases.find? fun basis => basis.ref = b.basis

/-- `Map.new(nodes(steps), &{&1["path"], &1})[path]`, where it is an effect: a later node takes the
place of an earlier one. -/
def effectAt (p : Program) (path : List Num) : Option (EffectNode Num) :=
  (p.ir.steps.nodes.reverse.find? fun n => n.path = path).bind fun n =>
    match n with
    | .effect e => some e
    | _ => none

/-- The term whose hash is a step's identity. -/
def identityData (p : Program) (original : Text) (path : List Num) : Value :=
  .obj [("original", .str original), ("path", pathData path),
    ("program_digest", .str p.irDigest)]

def identity (host : Host) (p : Program) (original : Text) (path : List Num) (l : Limits) :
    Checked Text :=
  hash host (identityData p original path) l

/-- The record of a node before anything happened to it. -/
def emptyRecord (node : Node Num) (identity : Text) : StepRecord :=
  ⟨node.path, identity, node.kind, .unsent, none, none, none, {}⟩

/-- `records/4` over the nodes of the tree. -/
def recordsOf (host : Host) (p : Program) (original : Text) (l : Limits) :
    List (Node Num) → Checked (List StepRecord)
  | [] => .ok []
  | n :: ns => do
    let id ← identity host p original n.path l
    let rs ← recordsOf host p original l ns
    .ok (emptyRecord n id :: rs)

def records (host : Host) (p : Program) (original : Text) (l : Limits) : Checked (List StepRecord) :=
  recordsOf host p original l p.ir.steps.nodes

end ExecutionTree

/-- A map of records keyed by path. -/
abbrev Records := List Num → Option StepRecord

/-- `Map.new(steps, &{&1["path"], &1})[path]`: a later record takes the place of an earlier one. -/
def recordAt : List StepRecord → Records
  | [], _ => none
  | r :: rs, path => (recordAt rs path).or (if r.path = path then some r else none)

/-- `==` on paths. -/
def pathSame : List Num → List Num → Bool
  | [], [] => true
  | a :: as, b :: bs => a.eq b && pathSame as bs
  | _, _ => false

/-- The spent entries of a list of records. -/
def spending (steps : List StepRecord) : List Spend :=
  steps.flatMap fun r =>
    match r.receipts.admission with
    | some ⟨ref, _, .held⟩ => [⟨r.original, ref⟩]
    | _ => []

/-! ## Construction (`run.ex`) -/

namespace Run

/-- `coordinates/2`. -/
def checkCoordinates (r : Run) (l : Limits) : Checked Unit := do
  integer r.startMs l "/start_ms" (some 0)
  integer r.lastMs l "/last_ms" (some 0)
  integer r.deadlineMs l "/deadline_ms" (some 1)
  check (decide (r.startMs ≤ r.lastMs) && decide (r.startMs < r.deadlineMs)) .incoherentRunTime

/-- `header/3`. -/
def checkHeader (r : Run) (p : Program) (l : Limits) : Checked Unit := do
  text r.original "/original"
  text r.epoch "/epoch"
  text r.clockGeneration "/clock_generation"
  r.checkCoordinates l
  check ((Num.int r.deadlineMs).eq ((Num.int r.startMs).add p.ir.runMs)) .incoherentRunTime
  check (decide (r.programDigest = p.irDigest) && decide (r.sourceDigest = p.sourceDigest)
    && decide (r.compilerBasis = p.context.compilerBasis)) .staleRun

/-- `step_time/3`. -/
def checkStepTime (s : StepRecord) (r : Run) (l : Limits) : Checked Unit :=
  match s.startedMs, s.deadlineMs with
  | none, none =>
    check (decide (s.status = .unsent) || decide (s.status = .cancelled)) .invalidType "/steps/started_ms"
  | none, some _ => refusal .invalidType "/steps/started_ms"
  | some started, deadline => do
    integer started l "/steps/started_ms" (some 0)
    match deadline with
    | some (.int d) =>
      integer d l "/steps/deadline_ms" (some 1)
      check (decide (r.startMs ≤ started) && decide (started ≤ r.lastMs) && decide (started < d)
        && decide (d ≤ r.deadlineMs)) .incoherentStepTime
    | _ => refusal .invalidType "/steps/deadline_ms"

/-- The outcomes a slot may hold. -/
def slotOutcomes : Slot → List ReceiptOutcome
  | .admission => [.held, .refused]
  | .handoff => [.marked]
  | .terminal => [.failed, .unknown]
  | .satisfied => [.matched]
  | .stage _ => [.accepted, .failed, .unknown]

/-- `receipt/1`. -/
def checkReceipt (slot : Slot) : Option Receipt → Checked Unit
  | none => .ok ()
  | some x => do
    text x.ref "/steps/receipts/ref"
    digest x.digest "/steps/receipts/digest"
    check (decide (x.outcome ∈ slotOutcomes slot)) .unsupportedValue "/steps/receipts/outcome"

/-- Every slot, in key order. -/
def slots : List Slot :=
  [.admission, .stage .correlatedReport, .handoff, .stage .localQueue, .stage .protocolResponse,
    .stage .reportedMatch, .satisfied, .terminal]

/-- `receipts/2`. -/
def checkReceipts (x : Receipts) (format : RunFormat) : Checked Unit := do
  check (format.isRun2 || x.satisfied.isNone) .unknownField
  Outcome.each (fun slot => checkReceipt slot (x.get slot)) slots

/-- A receipt with the given outcome. -/
def hasOutcome (outcome : ReceiptOutcome) (x : Option Receipt) : Bool :=
  x.any fun r => decide (r.outcome = outcome)

variable (x : Receipts)

def acceptedStage (completion : Stage) : Bool :=
  (Stage.all.drop completion.rank).any fun s => hasOutcome .accepted (x.get (.stage s))

def terminalMatches : Bool :=
  x.terminal.isNone || Stage.all.any fun s => decide (x.get (.stage s) = x.terminal)

/-- Every slot is empty. -/
def noReceipts : Bool := slots.all fun slot => (x.get slot).isNone

/-- `run.ex:263-291`. -/
def effectStatus (s : StepRecord) (completion : Stage) (held handoff : Bool) (reason : Option Reason) :
    Bool :=
  match s.status with
  | .unsent => s.startedMs.isNone && noReceipts s.receipts
  | .proposed => s.startedMs.isSome && s.receipts.admission.isNone
  | .reserved => held && !handoff
  | .handedOff => handoff && s.receipts.terminal.isNone
  | .completed => handoff && s.receipts.terminal.isNone && acceptedStage s.receipts completion
  | .refused => s.receipts.admission.isSome && !held && !handoff
  | .failed => handoff && hasOutcome .failed s.receipts.terminal
  | .unknown => handoff && (hasOutcome .unknown s.receipts.terminal || reason.isSome)
  | .cancelled => !handoff
  | .waiting => false

/-- The basis writes a property. -/
def writesProperty (b : Basis) : Bool :=
  decide (b.affordance.type = .property) && decide (b.affordance.operation = .writeproperty)

/-- The slots a satisfied step leaves empty. -/
def unusedWhenSatisfied : List Slot :=
  [.handoff, .stage .localQueue, .stage .protocolResponse, .stage .correlatedReport,
    .stage .reportedMatch, .terminal]

/-- `coherence/4`. -/
def checkCoherence (s : StepRecord) (node : Node Num) (r : Run) (p : Program) : Checked Unit :=
  match node with
  | .effect e =>
    if s.receipts.satisfied.isSome then
      match ExecutionTree.basis p e.binding with
      | none => .raise
      | some b =>
        check (r.format.isRun2 && decide (s.status = .completed)
          && decide (e.completion = .reportedMatch) && writesProperty b
          && (s.receipts.admission.isNone || hasOutcome .held s.receipts.admission)
          && unusedWhenSatisfied.all fun slot => (s.receipts.get slot).isNone) .incoherentReceipts
    else
      let held := hasOutcome .held s.receipts.admission
      let handoff := s.receipts.handoff.isSome
      check ((!handoff || held)
        && (!(Stage.all.any fun st => (s.receipts.get (.stage st)).isSome) || handoff)
        && effectStatus s e.completion held handoff r.reason && terminalMatches s.receipts)
        .incoherentReceipts
  | _ =>
    check (noReceipts s.receipts && decide (s.status ∉
      [StepStatus.proposed, .reserved, .handedOff, .refused])) .incoherentReceipts

/-- `record/6`. -/
def checkRecord (s expected : StepRecord) (node : Node Num) (r : Run) (p : Program) (l : Limits) :
    Checked Unit := do
  check (pathSame s.path expected.path && decide (s.original = expected.original)
    && decide (s.kind = expected.kind)) .invalidRunPaths
  checkStepTime s r l
  check (decide (s.kind = .ite) || s.branch.isNone) .incoherentBranch
  checkReceipts s.receipts r.format
  checkCoherence s node r p

/-- The records, the regenerated records and the nodes side by side. -/
def checkRecords (r : Run) (p : Program) (l : Limits) :
    List StepRecord → List StepRecord → List (Node Num) → Checked Unit
  | s :: ss, e :: es, n :: ns => do
    checkRecord s e n r p l
    checkRecords r p l ss es ns
  | _, _, _ => .ok ()

/-- `steps/4`. -/
def checkSteps (r : Run) (expected : List StepRecord) (p : Program) (l : Limits) : Checked Unit := do
  check (decide (r.steps.length = expected.length)) .invalidRunPaths
  checkRecords r p l r.steps expected p.ir.steps.nodes

variable (records : Records) (path : List Num)

/-- `records[path]["status"]`. -/
def statusAt : Option StepStatus := (records path).map (·.status)

/-- `records[path]["started_ms"]`. -/
def startedAt : Option Int :=
  (records path).bind (·.startedMs)

variable (node : Node Num)

/-- `run.ex:349-359`. -/
def nodeDeadline (started : Option Int) (inherited : Num) (p : Program) :
    Checked Num :=
  match node, started with
  | .effect e, some started =>
    match ExecutionTree.basis p e.binding with
    | none => .raise
    | some b => .ok (inherited.min ((Num.int started).add (.int b.timing.deadlineMs)))
  | .invoke i _ _, some started => .ok (inherited.min ((Num.int started).add i.runMs))
  | .wait _ _ _ timeoutMs, some started => .ok (inherited.min ((Num.int started).add timeoutMs))
  | _, _ => .ok inherited

/-- The last three clauses of `completion/5`. -/
def checkCompleted (record : Option StepRecord) (records : Records) (lastMs : Int) :
    Checked Unit :=
  match node with
  | .delay _ _ durationMs =>
    match record.bind (·.startedMs) with
    | none => .raise
    | some started => check (((Num.int started).add durationMs).le (.int lastMs)) .prematureDelay
  | .ite _ _ _ yes no =>
    match record.bind (·.branch) with
    | some .yes => check (decide (statusAt records yes.path = some .completed)) .incoherentJoin
    | some .no => check (decide (statusAt records no.path = some .completed)) .incoherentJoin
    | none => refusal .incoherentJoin
  | node => check (node.children.all fun c => decide (statusAt records c.path = some .completed))
      .incoherentJoin

/-- `completion/5`. -/
def checkCompletion (records : Records) (lastMs : Int) : Checked Unit :=
  match records node.path with
  | none => checkCompleted node none records lastMs
  | some s => if s.status = .completed then checkCompleted node (some s) records lastMs else .ok ()

/-- The order of the children of a sequence. -/
def checkPairs (records : Records) : List (Node Num) → Checked Unit
  | left :: right :: rest => do
    check ((startedAt records right.path).isNone
      || decide (statusAt records left.path = some .completed)) .incoherentSequence
    checkPairs records (right :: rest)
  | _ => .ok ()

/-- No node of the trees is started. -/
def noneStarted (records : Records) (trees : List (Node Num)) : Bool :=
  (trees.flatMap Node.nodes).all fun n => (startedAt records n.path).isNone

/-- `order/3`. -/
def checkOrder (node : Node Num) (records : Records) : Checked Unit :=
  match node with
  | .sequence _ _ steps => checkPairs records steps
  | .ite _ path _ yes no =>
    let excluded :=
      match (records path).bind (·.branch) with
      | none => [yes, no]
      | some .yes => [no]
      | some .no => [yes]
    check (noneStarted records excluded) .incoherentBranch
  | _ => .ok ()

/-- The part of `tree/5` at the node itself; it gives the deadline the children inherit. -/
def checkNode (node : Node Num) (inherited : Num) (records : Records) (lastMs : Int) (p : Program) :
    Checked Num := do
  let record := records node.path
  let started := record.bind (·.startedMs)
  let deadline ← nodeDeadline node started inherited p
  check (started.isNone || (record.bind (·.deadlineMs)).any fun d => d.eq deadline) .incoherentStepTime
  checkCompletion node records lastMs
  checkOrder node records
  .ok deadline

mutual
/-- `tree/5`. -/
def checkTree (records : Records) (lastMs : Int) (p : Program) : Node Num → Num → Checked Unit
  | n@(.sequence _ _ steps), inherited => do
    let deadline ← checkNode n inherited records lastMs p
    checkTrees records lastMs p steps deadline
  | n@(.parallel _ _ branches), inherited => do
    let deadline ← checkNode n inherited records lastMs p
    checkTrees records lastMs p branches deadline
  | n@(.ite _ _ _ yes no), inherited => do
    let deadline ← checkNode n inherited records lastMs p
    checkTree records lastMs p yes deadline
    checkTree records lastMs p no deadline
  | n@(.invoke _ _ body), inherited => do
    let deadline ← checkNode n inherited records lastMs p
    checkTree records lastMs p body deadline
  | n, inherited => do
    let _ ← checkNode n inherited records lastMs p
    .ok ()

/-- `tree/5` over the children. -/
def checkTrees (records : Records) (lastMs : Int) (p : Program) : List (Node Num) → Num → Checked Unit
  | [], _ => .ok ()
  | n :: ns, inherited => do
    checkTree records lastMs p n inherited
    checkTrees records lastMs p ns inherited
end

/-- `tree_coherence/2`. -/
def checkCoherentTree (r : Run) (p : Program) : Checked Unit := do
  let records := recordAt r.steps
  check (decide (r.status ≠ .completed)
    || decide (statusAt records p.ir.steps.path = some .completed)) .incoherentRunStatus
  checkTree records r.lastMs p p.ir.steps (.int r.deadlineMs)

section

variable (host : Host) (r : Run)
include host

/-- The event a retained window stands for, checked against the trigger. -/
def checkScheduled (kind : EventKind) (windowId windowBasis id basis : Text)
    (l : Limits) : Checked Unit := do
  let _ ← Event.new host ⟨r.original, r.programDigest, kind⟩ l
  check (decide (windowId = id) && decide (windowBasis = basis)) .staleDueWindow

/-- `window/3`. A window of the other schedule kind has members the event does not know. -/
def checkWindow (p : Program) (l : Limits) : Checked Unit :=
  match r.window, p.ir.trigger with
  | none, .manual | none, .edge _ => .ok ()
  | some (.due w), .due id basis =>
    checkScheduled host r (.due w) w.scheduleId w.scheduleBasis id basis l
  | some (.elapsed w), .countdown id basis =>
    checkScheduled host r (.elapsedDue w) w.scheduleId w.scheduleBasis id basis l
  | some _, .due _ _ | some _, .countdown _ _ => refusal .unknownField "/event"
  | _, _ => refusal .invalidRunWindow

/-- The checks of `Run.new/4` behind the JSON admission. -/
def coherent (p : Program) (l : Limits) : Checked Unit := do
  r.checkHeader p l
  let expected ← ExecutionTree.records host p r.original l
  r.checkSteps expected p l
  check (decide (r.spent = spending r.steps)) .incoherentSpend
  r.checkCoherentTree p
  r.checkWindow host p l

def new (program : Program) (p : Profile) (l : Limits) : Checked Run := do
  let program ← Compiler.toMap host program p l
  let l ← admitData host r.data l
  r.coherent host program l
  .ok r

end

end Run

end Wotex.Routines
