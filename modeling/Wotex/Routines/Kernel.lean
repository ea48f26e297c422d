import Wotex.Routines.Execution
import Wotex.Routines.Edge

/-!
# The kernel: one transition of a retained run

Models `receipt.ex`, `satisfaction.ex`, `execution_prior.ex` and `kernel.ex`.

`Kernel.advance` checks the complete inputs, takes a fact event through the edge, begins a run or
continues the retained one, and checks the run it returns with `Run.new`. A continuation applies
the event's receipt, then cancels, expires or executes the run.

Receipts find their step by `==` on paths (`receipt.ex:14-15`), the walk by map key.
-/

namespace Wotex.Routines

open Wotex.Json (Value)

section

variable (steps : List StepRecord) (path : List Int)

/-- `Enum.find(steps, &(&1["path"] == path))`. -/
def findStep : Option StepRecord :=
  steps.find? fun r => pathSame r.path (path.map Num.int)

/-- `Enum.find(ExecutionTree.nodes(steps), &(&1["path"] == path))`, where it is an effect. -/
def findEffect (p : Program) (path : List Int) : Option (EffectNode Num) :=
  (p.ir.steps.nodes.find? fun n => pathSame n.path (path.map Num.int)).bind fun n =>
    match n with
    | .effect e => some e
    | _ => none

/-- The steps with the one at a path replaced. -/
def replaceStep (f : StepRecord → StepRecord) :
    List StepRecord :=
  steps.map fun r => if pathSame r.path (path.map Num.int) then f r else r

end

/-! ## Receipts (`receipt.ex`) -/

namespace Receipt

/-- The receipt part of an event: its path, slot, reference and outcome. -/
structure Arrival where
  path : List Int
  slot : Slot
  ref : Text
  outcome : ReceiptOutcome

/-- The outcome of a result as a receipt keeps it. -/
def resultOutcome : ResultOutcome → ReceiptOutcome
  | .accepted => .accepted
  | .failed => .failed
  | .unknown => .unknown

/-- `slot/1` and `outcome/1` of an admission, a handoff or a result. -/
def arrival : EventKind → Option Arrival
  | .admission path ref held => some ⟨path, .admission, ref, if held then .held else .refused⟩
  | .handoff path ref => some ⟨path, .handoff, ref, .marked⟩
  | .result path ref stage outcome _ => some ⟨path, .stage stage, ref, resultOutcome outcome⟩
  | _ => none

/-- `put_receipt/4`. -/
def put (r : StepRecord) (slot : Slot) (x : Receipt) (status : StepStatus) : StepRecord :=
  { r with status := status, receipts := r.receipts.set slot (some x) }

/-- `report_contract/2`. -/
def checkContract (stage : Stage) (contract : Option Ref) (node : Option (EffectNode Num)) :
    Checked Unit :=
  check (decide (stage.rank < 2) || decide (contract = node.map EffectNode.evidenceContract))
    .staleReportContract

/-- `stage_order/2`. -/
def checkStageOrder (x : Receipts) (stage : Stage) : Checked Unit :=
  check ((Stage.all.drop (stage.rank + 1)).all fun s => (x.get (.stage s)).isNone) .outOfOrderReceipt

/-- `receipt.ex:93-99`. -/
def resultStatus (stage : Stage) (outcome : ResultOutcome) (node : Option (EffectNode Num))
    (status : StepStatus) : StepStatus :=
  match outcome with
  | .failed => .failed
  | .unknown => .unknown
  | .accepted =>
    if node.any fun e => decide (e.completion.rank ≤ stage.rank) then .completed else status

variable (r : StepRecord) (node : Option (EffectNode Num))

/-- The result clause of `fresh/5`. -/
def freshResult (stage : Stage)
    (outcome : ResultOutcome) (contract : Option Ref) (x : Receipt) : Checked StepRecord := do
  check (r.receipts.handoff.isSome && r.receipts.terminal.isNone) .outOfOrderReceipt
  checkContract stage contract node
  checkStageOrder r.receipts stage
  let status := resultStatus stage outcome node r.status
  let changed := put r (.stage stage) x status
  .ok (if status = .failed ∨ status = .unknown then
      { changed with receipts := changed.receipts.set .terminal (some x) }
    else changed)

/-- `receipt.ex:46-78`. -/
def fresh (kind : EventKind) (x : Receipt) :
    Checked StepRecord :=
  match r.status, kind with
  | .proposed, .admission _ _ held => .ok (put r .admission x (if held then .reserved else .refused))
  | .reserved, .handoff _ _ => .ok (put r .handoff x .handedOff)
  | .completed, _ => refusal .outOfOrderReceipt
  | _, .result _ _ stage outcome contract => freshResult r node stage outcome contract x
  | _, _ => refusal .outOfOrderReceipt

def update (kind : EventKind) (slot : Slot) (x : Receipt) : Checked StepRecord :=
  match r.receipts.get slot with
  | none => fresh r node kind x
  | some y => if y = x then .ok r else refusal .conflictingReceipt

/-- `receipt.ex:10-27`. -/
def apply (host : Host) (r : Run) (event : Event) (p : Program) (l : Limits) : Checked Run :=
  match arrival event.kind with
  | none => .ok r
  | some a =>
    match findStep r.steps a.path with
    | none => refusal .invalidReceiptPath
    | some s =>
      if s.kind = .effect then do
        let digest ← hash host event.data l
        let changed ← update s (findEffect p a.path) event.kind a.slot ⟨a.ref, digest, a.outcome⟩
        let steps := replaceStep r.steps a.path fun _ => changed
        .ok { r with steps := steps, spent := spending steps }
      else refusal .invalidReceiptPath

end Receipt

/-! ## Satisfaction (`satisfaction.ex`) -/

namespace Satisfaction

/-- A satisfied event is new or repeats the retained one. -/
inductive Freshness where
  | duplicate | fresh

def receipt (host : Host) (event : Event) (ref : Text) (l : Limits) : Checked Receipt := do
  let digest ← hash host event.data l
  .ok ⟨ref, digest, .matched⟩

/-- `satisfaction.ex:11-25`. -/
def classify (host : Host) (r : Run) (event : Event) (path : List Int) (ref : Text) (l : Limits) :
    Checked Freshness :=
  match findStep r.steps path with
  | none => refusal .invalidReceiptPath
  | some s => do
    let x ← receipt host event ref l
    match s.receipts.satisfied with
    | none => .ok .fresh
    | some y => if y = x then .ok .duplicate else refusal .conflictingReceipt

/-- `eligible_kind/2`. -/
def checkKind (p : Program) (e : EffectNode Num) : Checked Unit :=
  if e.completion = .reportedMatch then
    match ExecutionTree.basis p e.binding with
    | none => .raise
    | some b => check (Run.writesProperty b) .invalidSatisfaction
  else refusal .invalidSatisfaction

/-- `order/1`. -/
def checkOrder (s : StepRecord) : Checked Unit :=
  check ((decide (s.status = .proposed) || decide (s.status = .reserved))
    && Run.unusedWhenSatisfied.all fun slot => (s.receipts.get slot).isNone) .outOfOrderReceipt

/-- `matches?/4`. -/
def reportMatches (factId : Text) (e : EffectNode Num) (s : Snapshot) (values : Values) : Bool :=
  (s.fact e.binding).any fun f => decide (f.id = factId)
    && decide ((values.get e.binding).join.map (Scalar.map Num.int) = some e.input)

def promote (r : Run) : Run :=
  match r.format with
  | .run1 => { r with format := .run2 .time1 }
  | .run2 _ => r

/-- The change of a satisfied step. -/
def satisfy (x : Receipt) (s : StepRecord) : StepRecord :=
  { s with status := .completed, receipts := s.receipts.set .satisfied (some x) }

/-- `satisfaction.ex:30-58`. -/
def apply (host : Host) (r : Run) (event : Event) (path : List Int) (ref factId : Text)
    (contract : Ref) (p : Program) (snapshot : Snapshot) (values : Values) (profile : Profile)
    (l : Limits) : Checked Run :=
  match findEffect p path with
  | none => refusal .invalidSatisfaction
  | some e => do
    checkKind p e
    match findStep r.steps path with
    | none => refusal .outOfOrderReceipt
    | some s =>
      checkOrder s
      check (decide (contract = e.evidenceContract)) .staleReportContract
      let paths ← Pending.paths host p r values profile l
      check (decide (path.map Num.int ∈ paths) && reportMatches factId e snapshot values)
        .invalidSatisfaction
      let x ← receipt host event ref l
      let r := promote r
      .ok { r with steps := replaceStep r.steps path (satisfy x) }

end Satisfaction

/-! ## Retained state (`execution_prior.ex`) -/

/-- The retained state a call is given. -/
structure Prior where
  original : Option Run
  busy : Option Run
  edge : Option Edge

namespace Prior

def data (p : Prior) : Value :=
  .obj [("busy", jopt Run.data p.busy), ("edge", jopt Edge.data p.edge),
    ("original", jopt Run.data p.original)]

/-- `execution_prior.ex:28-29`. -/
def retained (host : Host) (r : Option Run) (program : Program) (p : Profile) (l : Limits) :
    Checked Unit :=
  match r with
  | none => .ok ()
  | some r => do
    let _ ← r.new host program p l
    .ok ()

def coherent (original busy : Option Run) : Bool :=
  match original, busy with
  | some a, some b => decide (a.original ≠ b.original) || a.data.same b.data
  | _, _ => true

/-- `execution_prior.ex:8-17`. -/
def new (host : Host) (prior : Prior) (program : Program) (p : Profile) (l : Limits) :
    Checked Prior := do
  let _ ← admitData host prior.data l
  retained host prior.original program p l
  retained host prior.busy program p l
  let _ ← Edge.retained host prior.edge program p l
  check (coherent prior.original prior.busy) .conflictingRetainedOriginal
  .ok prior

end Prior

/-! ## The transition (`kernel.ex`) -/

/-- `"outcome"` of a transition: the status of its run, or why there is none. -/
inductive TransitionOutcome where
  | status (s : RunStatus)
  | noEdge
  | skippedBusy

/-- The name of an outcome. -/
def TransitionOutcome.text : TransitionOutcome → Text
  | status s => s.text
  | noEdge => "no-edge"
  | skippedBusy => "skipped-busy"

/-- `"basis"` of a transition: what it was computed from. -/
structure TransitionBasis where
  programDigest : Text
  sourceDigest : Text
  compilerBasis : Text
  event : Event
  prior : Prior
  snapshot : Snapshot
  time : Time

/-- What `Kernel.advance/7` returns. -/
structure Transition where
  run : Option Run
  proposals : List Proposal
  outcome : TransitionOutcome
  edge : Option Edge
  basis : TransitionBasis

def TransitionBasis.data (b : TransitionBasis) : Value :=
  .obj [("compiler_basis", .str b.compilerBasis), ("event", b.event.data),
    ("prior", b.prior.data), ("program_digest", .str b.programDigest),
    ("snapshot", b.snapshot.data), ("source_digest", .str b.sourceDigest), ("time", b.time.data)]

def Transition.data (t : Transition) : Value :=
  .obj [("basis", t.basis.data), ("edge", jopt Edge.data t.edge),
    ("outcome", .str t.outcome.text), ("proposals", .arr (t.proposals.map Proposal.data)),
    ("run", jopt Run.data t.run)]

namespace Kernel

/-- The inputs of one call behind their checks. -/
structure Call where
  host : Host
  program : Program
  event : Event
  snapshot : Snapshot
  time : Time
  profile : Profile
  limits : Limits

/-- The program is among the active ones. -/
def Call.active (c : Call) : Bool := decide (c.program.irDigest ∈ c.snapshot.activePrograms)

/-- `ObservationView.values/4` of the call. -/
def Call.values (c : Call) : Values :=
  ObservationView.values c.host c.program c.snapshot c.time c.limits

/-- `kernel.ex:379-393`. -/
def windowOpen (w : Window) (t : Time) : Bool :=
  match w with
  | .elapsed w =>
    decide (w.epoch = t.epoch) && decide (w.clockGeneration = t.clockGeneration)
      && decide (w.dueElapsedMs ≤ t.elapsedMs) && decide (t.elapsedMs < w.dueElapsedMs + w.lateWindowMs)
  | .due w =>
    match t.utc with
    | none => false
    | some (low, high) =>
      decide (t.utcGeneration = some w.clockGeneration) && decide (w.dueMs ≤ low)
        && decide (high < w.dueMs + w.lateWindowMs)

def closedWindow (w : Window) (t : Time) : Option Reason :=
  if windowOpen w t then none else some .windowClosed

/-- `kernel.ex:367-374`. -/
def windowExpiry (w : Option Window) (t : Time) : Option Reason :=
  match w with
  | none => none
  | some (.elapsed w) => closedWindow (.elapsed w) t
  | some (.due w) =>
    if t.format = .time2 ∧ t.utcGeneration ≠ none ∧ t.utcGeneration ≠ some w.clockGeneration then
      some .clockChanged
    else closedWindow (.due w) t

def expiry (r : Run) (t : Time) : Option Reason :=
  if r.epoch ≠ t.epoch ∨ r.clockGeneration ≠ t.clockGeneration then some .clockChanged
  else if t.elapsedMs < r.lastMs then some .clockRegressed
  else if r.deadlineMs ≤ t.elapsedMs then some .deadlineElapsed
  else windowExpiry r.window t

def continuationExpiry (r : Run) (t : Time) : Option Reason :=
  (expiry r t).or (if Execution.expiredStep r t.elapsedMs then some .deadlineElapsed else none)

/-- `kernel.ex:248-267`. -/
def trigger (t : Trigger Num) (kind : EventKind) : Checked Unit :=
  match t, kind with
  | .manual, .manual => .ok ()
  | .edge e, .fact binding _ => check (decide (e.binding = binding)) .triggerMismatch
  | .due id basis, .due w =>
    check (decide (id = w.scheduleId) && decide (basis = w.scheduleBasis)) .triggerMismatch
  | .countdown id basis, .elapsedDue w =>
    check (decide (id = w.scheduleId) && decide (basis = w.scheduleBasis)) .triggerMismatch
  | _, _ => refusal .triggerMismatch

/-- `kernel.ex:337-346`. -/
def repeatTrigger (r : Run) (p : Program) (event : Event) : Checked Unit :=
  match event.kind with
  | .manual | .fact _ _ => trigger p.ir.trigger event.kind
  | .due _ | .elapsedDue _ => do
    trigger p.ir.trigger event.kind
    check (decide (event.window = r.window)) .staleDueWindow
  | _ => .ok ()

/-- `time_coordinate/2` and the update of `"last_ms"`. -/
def touch (r : Run) (t : Time) : Run :=
  { r with lastMs := max r.lastMs (if r.epoch = t.epoch then t.elapsedMs else r.lastMs) }

/-- A run with its proposals. -/
abbrev Advanced := Run × List Proposal

variable (c : Call)

/-- `kernel.ex:304-332`. -/
def continueLive (r : Run) : Checked Advanced := do
  let reason := continuationExpiry r c.time
  repeatTrigger r c.program c.event
  let r ← Receipt.apply c.host r c.event c.program c.limits
  let r := touch r c.time
  if c.event.kind = .cancel then .ok (Execution.halt r .cancelled (some .cancelled), [])
  else if !c.active && !r.status.stopped then
    .ok (Execution.halt r .cancelled (some .inactiveProgram), [])
  else if reason.isSome && !r.status.stopped then .ok (Execution.halt r .expired reason, [])
  else Execution.advance c.host r c.program c.values c.time c.profile c.limits

/-- `continue/7`. -/
def continueRun (r : Run) : Checked Advanced :=
  match c.event.kind with
  | .resume => if r.status.stopped then .ok (r, []) else continueLive c r
  | .satisfied path ref factId contract => do
    let freshness ← Satisfaction.classify c.host r c.event path ref c.limits
    match freshness with
    | .duplicate => if r.status.stopped then .ok (r, []) else continueLive c r
    | .fresh =>
      if r.status.stopped then refusal .outOfOrderReceipt
      else if !c.active || (continuationExpiry r c.time).isSome then continueLive c r
      else do
        let r ← Satisfaction.apply c.host r c.event path ref factId contract c.program c.snapshot
          c.values c.profile c.limits
        continueLive c r
  | _ => continueLive c r

/-- The run `begin/6` starts from. -/
def newRun (deadlineMs : Int) (steps : List StepRecord) : Run where
  format := match c.time.format with
    | .time1 => .run1
    | .time2 => .run2 .time2
  original := c.event.original
  programDigest := c.program.irDigest
  sourceDigest := c.program.sourceDigest
  compilerBasis := c.program.context.compilerBasis
  epoch := c.time.epoch
  clockGeneration := c.time.clockGeneration
  startMs := c.time.elapsedMs
  lastMs := c.time.elapsedMs
  deadlineMs := deadlineMs
  status := .running
  steps := steps
  spent := []
  window := c.event.window
  reason := none

/-- `begin/6`. -/
def beginRun : Checked Advanced := do
  trigger c.program.ir.trigger c.event.kind
  match (Num.int c.time.elapsedMs).add c.program.ir.runMs with
  | .flt _ => refusal .invalidType "/deadline_ms"
  | .int deadlineMs =>
    integer deadlineMs c.limits "/deadline_ms"
    let steps ← ExecutionTree.records c.host c.program c.event.original c.limits
    continueRun c (newRun c deadlineMs steps)

/-- The kinds of event that need a retained original. -/
def needsOriginal : EventKind → Bool
  | .admission .. | .handoff .. | .result .. | .cancel | .resume | .satisfied .. => true
  | _ => false

def busy (b : Option Run) (event : Event) : Bool :=
  b.any fun r => !r.status.stopped && decide (r.original ≠ event.original)

variable (prior : Prior)

/-- `kernel.ex:192-209`. -/
def transition (eligible : Bool) : Checked (Option Run × List Proposal × TransitionOutcome) :=
  match prior.original with
  | some r => do
    let (r, proposals) ← continueRun c r
    .ok (some r, proposals, .status r.status)
  | none =>
    if needsOriginal c.event.kind then refusal .missingOriginal
    else if !eligible then .ok (none, [], .noEdge)
    else if busy prior.busy c.event then .ok (none, [], .skippedBusy)
    else do
      let (r, proposals) ← beginRun c
      .ok (some r, proposals, .status r.status)

/-- `kernel.ex:169-190`, without the time. -/
def correspondence (c : Call) (prior : Prior) : Checked Unit := do
  check (decide (c.program.irDigest = c.event.programDigest)) .foreignEvent
  check (!(match c.event.kind with
      | .resume | .satisfied .. => prior.original.isNone
      | _ => false)) .missingOriginal
  check (c.active || prior.original.isSome) .inactiveProgram
  check (prior.original.all fun r => decide (r.original = c.event.original)) .foreignOriginal
  check (prior.original.isSome || prior.busy.all fun r => decide (r.original ≠ c.event.original))
    .missingOriginal

def matchingTime (prior : Prior) (t : Time) : Checked Unit :=
  check (prior.original.all fun r => decide (r.format.time = t.format)) .clockFormatMismatch

/-- `edge/7`: the edge of the transition and its eligibility. -/
def edge : Checked (Option Edge × Bool) :=
  match c.event.kind with
  | .fact _ _ => do
    let e ← Edge.advance c.host c.program c.event c.snapshot c.time prior.edge c.profile c.limits
    .ok (some e.edge, e.eligible)
  | _ => .ok (prior.edge, true)

/-- The basis of a call. -/
def basis : TransitionBasis :=
  ⟨c.program.irDigest, c.program.sourceDigest, c.program.context.compilerBasis, c.event, prior,
    c.snapshot, c.time⟩

/-- The checked inputs of `advance/7` and `verify/8`, up to the retained state. -/
def inputs (host : Host) (program : Program) (event : Event) (s : Snapshot) (t : Time) (prior : Prior)
    (p : Profile) (l : Limits) : Checked Call := do
  let p ← Profile.new p
  let l ← Limits.new l
  let program ← Compiler.toMap host program p l
  let event ← event.new host l
  let s ← s.new host program p l
  let t ← t.new host l
  let _ ← prior.new host program p l
  .ok ⟨host, program, event, s, t, p, l⟩

/-- The part of `advance/7` behind the inputs and in front of the last checks. -/
def step : Checked Transition := do
  correspondence c prior
  matchingTime prior c.time
  let (e, eligible) ← edge c prior
  let (run, proposals, outcome) ← transition c prior eligible
  .ok ⟨run, proposals, outcome, e, basis c prior⟩

def checkedRun (c : Call) (r : Option Run) : Checked Unit :=
  Prior.retained c.host r c.program c.profile c.limits

/-- `kernel.ex:106-139`. -/
def advance (host : Host) (program : Program) (event : Event) (s : Snapshot) (t : Time)
    (prior : Prior) (p : Profile) (l : Limits) : Checked Transition := do
  let c ← inputs host program event s t prior p l
  let result ← step c prior
  checkedRun c result.run
  bounded host result.data c.limits
  .ok result

end Kernel

end Wotex.Routines
