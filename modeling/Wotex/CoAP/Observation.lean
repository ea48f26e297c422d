import Wotex.CoAP.Report
import Wotex.Term.Process

/-!
# The observation coordinator (`observation.ex`)

The coordinator of one registration as a process: a handler takes a state and an event to the messages it
sends and the next state. Clock readings, the length of the receiver's queue and the
answers of the connection are inputs of a handler. One event can deliver two reports, the one it
completes and a pending one behind it, so there are two rounds of them.

An `Arrival` is a report with two members that the source does not have: the number of the event that
brought it, and whether that was a notification. Fields that no function reads are left out (`expiry`,
`terminal`); references are numbers that are counted up.
-/

namespace Wotex.CoAP.Observation

/-- `observation_kind`. -/
inductive Kind where
  | property | event
  deriving DecidableEq

/-- `phase`. -/
inductive Phase where
  | registering | assembling | active | renewing | canceling
  deriving DecidableEq

/-- What the coordinator reads of its configuration. -/
structure Config where
  request : Message
  kind : Kind
  renew : Bool
  maxQueueLength : Nat
  deadline : Int
  timeout : Int

/-- A report and the event that brought it. -/
structure Arrival where
  report : Report
  notified : Bool
  event : Nat

/-- The state of the coordinator. `waiting` says that the subscriber has no answer yet, `cancelers` counts
the callers of a cancellation. -/
structure State where
  config : Config
  phase : Phase
  report : Option Arrival
  pending : Option Arrival
  task : Option Nat
  timer : Option Nat
  references : Nat
  refreshAt : Option Int
  phaseDeadline : Int
  waiting : Bool
  cancelers : Option Nat

/-- What a worker is started for. -/
inductive Operation where
  | register (deadline : Int) | renew (deadline : Int) | cancel (deadline : Int)
  | continuation (first : Message) (budget : Int)

/-- The messages and calls of the coordinator. -/
inductive Output where
  /-- `{:ok, message, metadata}` to the receiver. -/
  | deliver (a : Arrival)
  /-- The answer to the subscriber. -/
  | subscribed (result : Result Unit)
  /-- The answer to the callers of a cancellation. -/
  | canceled (result : Result Unit) (callers : Nat)
  /-- The answer to one caller whose cancellation is not accepted. -/
  | rejected (code : Code)
  /-- Calls to the connection. -/
  | phase (deadline : Int) | established | terminal (e : Error) | abort | close
  /-- A worker, a timer. -/
  | start (task : Nat) (operation : Operation) | schedule (timer : Nat) (delay : Int)

/-- What a handler does. -/
abbrev Handled := Process.Step State Output

/-- The readings of one round: the clock where each function reads it, the length of the receiver's queue
(`none` when the receiver is gone) and whether the connection answers `:ok`. -/
structure Readings where
  candidate : Int
  assemble : Int
  budget : Int
  deliver : Int
  arm : Int
  queue : Option Nat
  phase : Bool
  established : Bool

/-! ## The functions -/

/-- `Observe.fresh?/3` on two reports. -/
def fresh (previous current : Arrival) : Bool :=
  Observe.fresh previous.report.metadata.observe current.report.metadata.observe
    (max 0 (current.report.receivedAt - previous.report.receivedAt))

def init (config : Config) : State :=
  ⟨config, .registering, none, none, none, none, 0, none, config.deadline, true, none⟩

def terminal (s : State) (e : Error) : Handled :=
  ⟨[.terminal e] ++ (if s.waiting then [.subscribed (.refuse e)] else [])
    ++ (s.cancelers.toList.map fun n => .canceled (.refuse e) n),
    .stop { s with waiting := false, cancelers := none }⟩

def cancelTimer (s : State) : State := { s with timer := none }

def task (s : State) (operation : Operation) : Handled :=
  ⟨[.start s.references operation],
    .go { s with task := some s.references, references := s.references + 1 }⟩

/-- `arm/1`; the timer is armed only behind a delivery, which sets `refresh_at`. -/
def arm (now : Int) (s : State) : Handled :=
  let s := cancelTimer s
  ⟨[.schedule s.references (min 60000 (max 0 (s.refreshAt.getD 0 - now)))],
    .go { s with timer := some s.references, references := s.references + 1 }⟩

section

variable (r : Readings)

/-- `pending/1` without a pending report. -/
def settle (s : State) : Handled :=
  match s.report with
  | none => ⟨[], .crash⟩
  | some a =>
    let expiry := a.report.receivedAt + a.report.metadata.maxAge * 1000
    let refreshAt := if s.config.renew then max expiry (a.report.receivedAt + 1000) else expiry
    arm r.arm { s with phase := .active, refreshAt := some refreshAt }

variable (behind : State → Handled) (s : State)

/-- `deliver/1`, `deliver_current/1` and `established/1`, and what comes behind a delivery. -/
def deliver : Handled :=
  if s.phaseDeadline ≤ r.deliver then terminal s (.new .timeout)
  else
    match s.report, r.queue with
    | none, _ => ⟨[], .crash⟩
    | some _, none => ⟨[], .stop s⟩
    | some a, some count =>
      if count < s.config.maxQueueLength then
        .prepend [.deliver a, .established]
          (if r.established then
            .prepend (if s.waiting then [.subscribed (.ok ())] else []) (behind { s with waiting := false })
          else ⟨[], .crash⟩)
      else terminal s (.new .receiverOverflow)

/-- `completed/2` while assembling. -/
def assembled : Result Message → Handled
  | .refuse e => terminal s e
  | .raise => ⟨[], .crash⟩
  | .ok m =>
    match s.report with
    | none => ⟨[], .crash⟩
    | some a =>
      match a.report.complete m with
      | .ok report => deliver r behind { s with report := some { a with report := report } }
      | .refuse e => terminal s e
      | .raise => ⟨[], .crash⟩

/-- `complete_first?/1`; two Block2 options match no clause. -/
def isCompleteFirst (m : Message) : Option Bool :=
  match Codec.option m 23 with
  | [] => some true
  | [value] =>
    match Block.decode value with
    | .ok b => some (!b.more)
    | _ => some false
  | _ => none

/-- `complete_first/2`: the continuation of a first message that needs no further exchange. -/
def completeFirst (s : State) (first : Message) : Result Message :=
  (Blockwise.continueFrom { s.config.request with token := [] } first [(.blockSize, 1024)] ()
    fun _ state => .error (.new .invalidObservationResponse) state).result

variable (a : Arrival)

/-- `observation.ex:314-336`. -/
def assemble : Handled :=
  .prepend [.phase s.phaseDeadline]
    (if r.phase then
      if s.phaseDeadline ≤ r.assemble then terminal s (.new .timeout)
      else
        match isCompleteFirst a.report.first with
        | some true => assembled r behind s (completeFirst s a.report.first)
        | some false =>
          task s (.continuation a.report.first (max 1 (s.phaseDeadline - r.budget)))
        | none => ⟨[], .crash⟩
    else ⟨[], .crash⟩)

/-- `observation.ex:261-312`. -/
def candidate : Handled :=
  match s.report with
  | none =>
    if s.config.kind = .event then terminal s (.new .overlappingEventReport)
    else
      match s.pending with
      | none => ⟨[], .go { s with pending := some a }⟩
      | some previous =>
        if fresh previous a then ⟨[], .go { s with pending := some a }⟩ else ⟨[], .go s⟩
  | some report =>
    if !fresh (s.pending.getD report) a then ⟨[], .go s⟩
    else if a.report.metadata.contentFormat ≠ report.report.metadata.contentFormat then
      terminal s (.new .representationChanged)
    else if (s.phase = .assembling ∨ s.phase = .renewing) ∧ s.config.kind = .event then
      terminal s (.new .overlappingEventReport)
    else if s.phase = .assembling ∨ s.phase = .renewing then ⟨[], .go { s with pending := some a }⟩
    else
      assemble r behind (cancelTimer { s with
        report := some a, phase := .assembling, phaseDeadline := r.candidate + s.config.timeout }) a

/-- `observation.ex:397-420`. -/
def pending (r r' : Readings) (s : State) : Handled :=
  match s.pending, s.report with
  | none, _ => settle r s
  | some _, none => ⟨[], .crash⟩
  | some a, some report =>
    let s := { s with phase := .active, pending := none }
    if fresh report a then candidate r' (settle r') s a else settle r s

end

variable (r r' : Readings) (number : Nat) (s : State)

def incoming (m : Message) (receivedAt : Int) : Handled :=
  match Report.new m receivedAt with
  | .ok report => candidate r (pending r r') s ⟨report, true, number⟩
  | .refuse e => terminal s e
  | .raise => ⟨[], .crash⟩

/-- The results of the workers: a response with its arrival, a message, a failure. -/
inductive Outcome where
  | response (m : Message) (receivedAt : Int) | whole (m : Message) | failed (e : Error)

/-- `completed/2` while registering or renewing. -/
def registered (m : Message) (receivedAt : Int) : Handled :=
  match Report.new m receivedAt with
  | .ok report =>
    if s.report.all fun a => decide (report.metadata.contentFormat = a.report.metadata.contentFormat) then
      let a : Arrival := ⟨report, false, number⟩
      assemble r (pending r r') { s with report := some a, phase := .assembling } a
    else terminal s (.new .representationChanged)
  | .refuse e => terminal s e
  | .raise => ⟨[], .crash⟩

/-- `observation.ex:223-252`. -/
def completed (o : Outcome) : Handled :=
  match s.phase, o with
  | .canceling, .whole m =>
    if Codec.option m 6 = [] then
      ⟨s.cancelers.toList.map fun n => .canceled (.ok ()) n, .stop { s with cancelers := none }⟩
    else terminal s (.new .invalidCancellationResponse)
  | _, .failed e => terminal s e
  | .registering, .response m receivedAt => registered r r' number s m receivedAt
  | .renewing, .response m receivedAt => registered r r' number s m receivedAt
  | .assembling, .whole m => assembled r (pending r r') s (.ok m)
  | _, _ => ⟨[], .crash⟩

/-- The events of the coordinator. -/
inductive Event where
  | cancel (own : Bool) (deadline : Int)
  | register
  | report (m : Message) (receivedAt : Int)
  | transportFailed (e : Error)
  | result (task : Nat) (o : Outcome)
  | expiry (timer : Nat) (now : Int)
  | connectionDown | receiverDown | callerDown
  | exit (task : Nat)
  | other

/-- `renew/1`; the clock is read for the deadline. -/
def renew (r : Readings) (s : State) : Handled :=
  let s := cancelTimer { s with phase := .renewing, phaseDeadline := r.candidate + s.config.timeout }
  .prepend [.phase s.phaseDeadline] (if r.phase then task s (.renew s.phaseDeadline) else ⟨[], .crash⟩)

/-- `handle_call/3` and `handle_info/2` for the event with this number. -/
def handle : Event → Handled
  | .cancel own deadline =>
    if !own then ⟨[.rejected .invalidSubscription], .go s⟩
    else if s.phase = .canceling then
      if s.cancelers.getD 0 < 64 then
        ⟨[], .go { s with cancelers := some (s.cancelers.getD 0 + 1) }⟩
      else ⟨[.rejected .busy], .go s⟩
    else
      .prepend [.abort] (task (cancelTimer { s with
        task := none, phase := .canceling, pending := none, cancelers := some 1 }) (.cancel deadline))
  | .register => task s (.register s.config.deadline)
  | .report m receivedAt =>
    if s.phase = .canceling then ⟨[], .go s⟩ else incoming r r' number s m receivedAt
  | .transportFailed e => terminal s e
  | .result ref o =>
    if s.task = some ref then completed r r' number { s with task := none } o else ⟨[], .go s⟩
  | .expiry ref now =>
    if s.timer = some ref then
      if s.refreshAt.all fun refreshAt => decide (now < refreshAt) then arm r.arm s
      else if s.config.renew then renew r s
      else terminal s (.new .observationStale)
    else ⟨[], .go s⟩
  | .connectionDown => terminal s (.new .connectionClosed)
  | .receiverDown => ⟨[], .stop s⟩
  | .callerDown => if s.waiting then ⟨[], .stop s⟩ else ⟨[], .go s⟩
  | .exit ref => if s.task = some ref then terminal s (.new .observationFailed) else ⟨[], .go s⟩
  | .other => ⟨[], .go s⟩

def terminate (s : State) : List Output :=
  (if s.waiting then [.subscribed (failure .connectionClosed)] else [])
    ++ (s.cancelers.toList.map fun n => .canceled (failure .connectionClosed) n) ++ [.close]

/-- One event with its readings. -/
abbrev Input := Readings × Readings × Event

/-- The process, on events with their numbers. -/
def process : Process.Behaviour State (Input × Nat) Output where
  handle s i := handle i.1.1 i.1.2.1 i.2 s i.1.2.2
  terminate s _ := terminate s

/-- What it sends for a list of events. -/
def run (s : State) (inputs : List Input) : List Output := (Process.run process s inputs.zipIdx).1

/-- The reports delivered by outputs. -/
def delivered (outputs : List Output) : List Arrival :=
  outputs.filterMap fun
    | .deliver a => some a
    | _ => none

end Wotex.CoAP.Observation
