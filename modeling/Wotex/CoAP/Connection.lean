import Wotex.Term.Process
import Wotex.Term.Recent
import Wotex.CoAP.Blockwise
import Wotex.CoAP.Exchange

/-!
# The connection owner (`connection.ex`)

The process that owns one datagram adapter: callers submit calls, the first of the queue gets a worker,
the worker asks for exchanges, and datagrams, timers and exits of other processes arrive in any order.
`handle` takes a state and an event to what is sent and the next state; `process` is the owner as a
`Process.Behaviour`.

* Whatever the owner does not decide itself is a reading of the event: the clock where each function
  reads it, which processes live, the tokens and Message IDs of `Wotex.CoAP.Execution`, and the answers
  of the adapter. The other callbacks of an execution are taken to return as their types say.
* References, monitors and workers are numbers that are counted up, so each is new. A message with
  another generation is `other`.
* `Map.fetch!/2` on a missing call, and a member of a missing observation, end the handler by `crash`.
* The cancellation of timers is left out: every timer may fire at any time, also a canceled one. So are
  telemetry, links, and the members nothing else reads (`started`, `timer`, `lifetime`, `kind` of an
  observation).
* `Output.exchanged` and `Output.report` name the datagram whose content they pass on and the time it was
  remembered; the source sends only the content.
-/

namespace Wotex.CoAP.Connection

open Process (Next Step)

/-- `247_000`, the lifetime of a Message ID and of a remembered response. -/
def lifetime : Int := 247000

/-- What an observation asks for. -/
inductive Operation where
  | register | renew | cancel | continuation (first : Message)
  deriving DecidableEq

/-- `kind` of a call. -/
inductive Kind where
  | request | transfer | continuation (first : Message)
  | observation (capability : Nat) (operation : Operation)
  deriving DecidableEq

/-- What callers and workers are answered: a message, for a registration with its arrival. -/
abbrev Answer := Result (Message × Option Int)

/-- The exchange of a call and its reference. -/
structure Record where
  value : Exchange
  reference : Nat
  deriving DecidableEq

/-- An admitted call; `caller` is the process of `from`. -/
structure Call where
  caller : Nat
  message : Message
  kind : Kind
  options : List (Blockwise.TransferKey × Int)
  deadline : Int
  monitor : Nat
  sent : Bool
  worker : Option Nat
  exchange : Option Record
  deriving DecidableEq

/-- `observation` of the state. -/
structure Watch where
  pid : Nat
  deadlineRef : Option Nat
  cancelRef : Option Nat
  cancelTimer : Bool
  monitor : Nat
  handle : Nat
  capability : Nat
  handleToken : Bytes
  request : Message
  receiver : Nat
  opened : Bool
  terminal : Bool
  waiting : Bool
  cancellationStarted : Bool
  cancellationConfirmed : Bool

/-- `phase`. -/
inductive Phase where
  | opening | ready | failed (e : Error)
  deriving DecidableEq

/-- What the owner reads of its configuration. -/
structure Config where
  host : List Int
  port : Int
  ackTimeout : Option Int
  accept : Option Nat
  confirmable : Bool

/-- The Message ID and token of a message. -/
abbrev Key := Int × Bytes

/-- The state of the owner. -/
structure State where
  config : Config
  phase : Phase
  handle : Bool
  adapterMonitor : Option Nat
  openWorker : Option Nat
  readyFrom : Bool
  ownerMonitor : Nat
  creatorMonitor : Nat
  active : Option Nat
  calls : AList fun _ : Nat => Call
  queue : List Nat
  mid : Int
  history : AList fun _ : Int => Int
  responses : AList fun _ : Key => Int × Nat
  responseOrder : Nat
  observation : Option Watch
  references : Nat

/-- The messages that the owner sends itself later. -/
inductive Timer where
  | deadline (ref : Nat) | retry (ref reference : Nat) | observationDeadline (reference : Nat)
  | cancelDeadline (reference : Nat)
  deriving DecidableEq

/-- What the owner sends. -/
inductive Output where
  /-- The reply to the process that sent the message: `:ok`, the coordinator's process, or a failure. -/
  | respond (result : Result (Option Nat))
  /-- The receipt of an admitted call, the answer to its caller. -/
  | admitted (ref : Nat) | answer (ref : Nat) (result : Answer)
  /-- A worker for a call, the end of a process. -/
  | spawn (worker ref : Nat) (call : Call) | kill (pid : Nat)
  | schedule (timer : Timer) (deadline : Int)
  /-- Datagrams: the first one of an exchange, a repeated one, an empty message, the last request for a
  cancellation. -/
  | request (ref : Nat) (mid now : Int) (bytes : Bytes) | retransmit (ref : Nat) (bytes : Bytes)
  | control (type : MessageType) (mid : Int) | cancellation (mid now : Int) (bytes : Bytes)
  /-- The answer to a worker, with the datagram it comes from. -/
  | exchanged (ref : Nat) (result : Answer) (source : Option (Message × Int))
  /-- To the coordinator of the observation. -/
  | report (m : Message) (receivedAt : Int) (remembered : Int) | transportFailed (e : Error)
  /-- To the receiver, to the subscriber, to the process that waits for the start. -/
  | terminalReport (e : Error) | subscribed (result : Result Unit) | started (result : Result Unit)
  /-- The adapter delivers the next datagram, or is closed. -/
  | setActiveOnce | close
  deriving DecidableEq

/-- The readings of one event. `activation` and `token` are read for each call that is tried, `alive` for
each process; `none` of an adapter is `:ok`, `none` of an execution is no value of its type. -/
structure Readings where
  arrival : Int
  now : Int
  remembered : Int
  received : Int
  cancellation : Int
  activation : Nat → Int
  alive : Nat → Bool
  token : Nat → Nat → Option Bytes
  messageId : Int → Option Int
  uniform : Int
  send : Option Error
  control : Option Error
  setActiveOnce : Option Error
  close : Option Error
  observation : Bool

section

variable (r : Readings)

/-- The readings of the clock that are kept, in the order in which they are made. -/
def Readings.times : List Int :=
  [r.arrival, r.now, r.remembered, r.received, r.cancellation]

/-- What a handler does. -/
abbrev Handled := Step State Output

/-! ## Calls -/

def effect (result : Answer) (m : Message) (sent : Bool) : Answer :=
  match result with
  | .refuse e =>
    .refuse (e.withEffect (if sent ∧ (m.code = 2 ∨ m.code = 3 ∨ m.code = 4) then .unknown else .none))
  | _ => result

def reply (ref : Nat) (call : Call) (result : Answer) : Output :=
  .answer ref (effect result call.message call.sent)

section

variable (s : State) (ref : Nat)

def putCall (call : Call) : State := { s with calls := s.calls.insert ref call }

/-- `connection.ex:865-881`. -/
def finish (result : Answer) : List Output × State :=
  match s.calls.lookup ref with
  | none => ([], s)
  | some call =>
    (call.worker.toList.map .kill ++ [reply ref call result],
      { s with
        active := if s.active = some ref then none else s.active
        calls := s.calls.erase ref
        queue := s.queue.filter (· ≠ ref) })

/-- `unique_token/3`; the tokens are numbered by the draws that are left. -/
def uniqueToken (responses : AList fun _ : Key => Int × Nat) (excluded : Option Bytes)
    (draw : Nat → Option Bytes) : Nat → Result Bytes
  | 0 => failure .exchangeUnavailable
  | remaining + 1 =>
    match draw remaining with
    | none => failure .invalidExecution
    | some token =>
      if ¬ (1 ≤ token.length ∧ token.length ≤ 8) then failure .invalidExecution
      else if some token = excluded ∨ responses.entries.any (fun e => e.1.2 = token) then
        uniqueToken responses excluded draw remaining
      else .ok token

def excludedToken : Kind → Option Bytes
  | .observation _ (.continuation first) => some first.token
  | .continuation first => some first.token
  | _ => none

/-- `connection.ex:915-924`. -/
def callToken (s : State) (ref : Nat) (call : Call) : Result Bytes :=
  match call.kind with
  | .observation _ .register | .observation _ .renew | .observation _ .cancel =>
    match s.observation with
    | none => .raise
    | some w =>
      if call.message.token = w.handleToken then .ok call.message.token else failure .invalidSubscription
  | kind => uniqueToken s.responses (excludedToken kind) (r.token ref) 8

/-- The call with its worker. -/
def start (call : Call) (token : Bytes) : Handled :=
  let call := { call with message := { call.message with token := token } }
  ⟨[.spawn s.references ref call],
    .go { putCall s ref { call with worker := some s.references } with
      active := some ref
      references := s.references + 1 }⟩

end

/-- `activate/2`; `behind` is `next/1` on the state it leaves. -/
def activate (behind : State → Handled) (s : State) (ref : Nat) : Handled :=
  match s.calls.lookup ref with
  | none => ⟨[], .crash⟩
  | some call =>
    if call.deadline ≤ r.activation ref ∨ r.alive call.caller = false then
      .prepend (finish s ref (failure .timeout)).1 (behind (finish s ref (failure .timeout)).2)
    else
      match callToken r s ref call with
      | .ok token => start s ref call token
      | .refuse e => .prepend (finish s ref (.refuse e)).1 (behind (finish s ref (.refuse e)).2)
      | .raise => ⟨[], .crash⟩

/-- `next/1` for at most `fuel` calls of the queue. -/
def nextWithin (r : Readings) : Nat → State → Handled
  | 0, s => ⟨[], .go s⟩
  | fuel + 1, s =>
    match s.active, s.queue with
    | none, ref :: queue => activate r (nextWithin r fuel) { s with queue := queue } ref
    | _, _ => ⟨[], .go s⟩

/-- `next/1`; every call that is tried leaves the queue, so its length is enough. -/
def next (s : State) : Handled := nextWithin r s.queue.length s

end

def allowed (s : State) (kind : Kind) : Bool :=
  match s.observation, kind with
  | none, .observation _ _ => false
  | none, _ => true
  | some w, .observation capability _ => decide (w.capability = capability)
  | some _, _ => false

section

variable (r : Readings)

/-- `admit/7`. -/
def admitCall (s : State) (m : Message) (kind : Kind)
    (options : List (Blockwise.TransferKey × Int)) (deadline : Int) (caller : Nat) : Handled :=
  let ref := s.references
  let call : Call := ⟨caller, m, kind, options, deadline, ref + 1, false, none, none⟩
  .prepend [.schedule (.deadline ref) deadline, .admitted ref]
    (next r { putCall s ref call with queue := s.queue ++ [ref], references := ref + 2 })

/-! ## Exchanges -/

def nextMid (proposed : Int) : Result Int :=
  match r.messageId proposed with
  | none => failure .invalidExecution
  | some mid => if 0 ≤ mid ∧ mid ≤ 65535 then .ok mid else failure .invalidExecution

/-- `connection.ex:859-863`. -/
def receivedAt (kind : Kind) (result : Result Message) : Answer :=
  match kind, result with
  | .observation _ .register, .ok m => .ok (m, some r.received)
  | .observation _ .renew, .ok m => .ok (m, some r.received)
  | _, .ok m => .ok (m, none)
  | _, .refuse e => .refuse e
  | _, .raise => .raise

/-- `connection.ex:852-857`. -/
def exchangeReply (s : State) (result : Result Message) (source : Option (Message × Int)) : Handled :=
  match s.active with
  | none => ⟨[], .crash⟩
  | some ref =>
    match s.calls.lookup ref with
    | none => ⟨[], .crash⟩
    | some call =>
      match call.exchange with
      | none => ⟨[], .crash⟩
      | some _ =>
        ⟨[.exchanged ref (receivedAt r call.kind result) source],
          .go (putCall s ref { call with exchange := none })⟩

/-- `transmit/2` of a request, and the answer to the worker where it fails. -/
def transmit (s : State) (datagram : Output) : Handled :=
  .prepend [datagram]
    (match r.send with
    | none => ⟨[], .go s⟩
    | some e => exchangeReply r s (.refuse e) none)

end

/-- `arm/2` on the exchange of a call, and what comes behind it; a failure of `wake/1` is no number. -/
def arm (s : State) (ref : Nat) (call : Call) (record : Record) (behind : State → Handled) : Handled :=
  match record.value.wake with
  | .ok wake =>
    .prepend [.schedule (.retry ref record.reference) wake]
      (behind (putCall s ref { call with exchange := some record }))
  | _ => ⟨[], .crash⟩

def cancellationStarted (s : State) : Kind → Option State
  | .observation _ .cancel =>
    s.observation.map fun w => { s with observation := some { w with cancellationStarted := true } }
  | _ => some s

section

variable (r : Readings) (s : State) (ref : Nat) (call : Call)

/-- The end of `begin_exchange/5` for a Message ID that is free. -/
def launch (mid : Int) (x : Exchange) : Handled :=
  let reference := s.references
  let s := { s with
    mid := (mid + 1) % 65536
    history := s.history.insert mid r.now
    references := reference + 1 }
  arm s ref { call with sent := true } ⟨x, reference⟩ fun s =>
    match cancellationStarted s call.kind with
    | none => ⟨[], .crash⟩
    | some s => transmit r s (.request ref mid r.now x.bytes)

/-- `connection.ex:671-694`. -/
def beginExchange (m : Message) : Handled :=
  let s := { s with history := Recent.expire lifetime id r.now s.history }
  let interval := s.config.ackTimeout.getD (2000 + r.uniform - 1)
  match nextMid r s.mid with
  | .ok mid =>
    if (s.history.lookup mid).isSome then ⟨[.respond (failure .exchangeUnavailable)], .go s⟩
    else
      match Exchange.new { m with messageId := mid } r.now call.deadline interval with
      | .ok x => launch r s ref call mid x
      | .refuse e => ⟨[.respond (.refuse e)], .go s⟩
      | .raise => ⟨[], .crash⟩
  | .refuse e => ⟨[.respond (.refuse e)], .go s⟩
  | .raise => ⟨[], .crash⟩

/-- `connection.ex:696-712`. -/
def retry (record : Record) : Handled :=
  match record.value.tick r.now with
  | .ok .timeout => exchangeReply r s (failure .timeout) none
  | .ok (.wait x) => arm s ref call { record with value := x } fun s => ⟨[], .go s⟩
  | .ok (.send bytes x) =>
    arm s ref call { record with value := x } fun s => transmit r s (.retransmit ref bytes)
  | _ => ⟨[], .crash⟩

end

/-! ## Datagrams -/

def unknown (s : State) (m : Message) : Handled :=
  ⟨if m.type = .con then [.control .rst m.messageId] else [], .go s⟩

section

variable (r : Readings) (s : State)

def remember (m : Message) : State :=
  { s with
    responses := Recent.remember 1024 (m.messageId, m.token) r.remembered s.responseOrder s.responses
    responseOrder := s.responseOrder + 1 }

/-- `accept_con/2`, with what is done on success and on failure. -/
def acceptCon (m : Message) (success : State → Handled) (failed : Error → Handled) : Handled :=
  if m.type = .con then
    .prepend [.control .ack m.messageId]
      (match r.control with
      | none => success (remember r s m)
      | some e => failed e)
  else success s

def confirmedCancel (w : Watch) : Watch :=
  { w with cancellationConfirmed := true, cancelRef := none, terminal := true }

/-- `connection.ex:1135-1144`. -/
def cancellationConfirmed (s : State) (call : Call) : Result Message → Option State
  | .ok m =>
    match call.kind with
    | .observation _ .cancel =>
      if (64 ≤ m.code ∧ m.code ≤ 94) ∧ Codec.option m 6 = [] then
        s.observation.map fun w => { s with observation := some (confirmedCancel w) }
      else some s
    | _ => some s
  | _ => some s

/-- `connection.ex:772-794`. -/
def correlate (ref : Nat) (m : Message) : Handled :=
  match s.calls.lookup ref with
  | none => ⟨[], .crash⟩
  | some call =>
    match call.exchange with
    | none => unknown s m
    | some record =>
      match record.value.incoming m with
      | .ignore => unknown s m
      | .ack =>
        arm s ref call { record with value := { record.value with acknowledged := true } }
          fun s => ⟨[], .go s⟩
      | .result result =>
        acceptCon r s m
          (fun s =>
            match cancellationConfirmed s call result with
            | none => ⟨[], .crash⟩
            | some s => exchangeReply r s result (some (m, r.remembered)))
          (fun e => exchangeReply r s (.refuse e) none)

end

def cancellationNotification (call : Call) (m : Message) (token : Bytes) : Bool :=
  match call.kind with
  | .observation _ .cancel =>
    decide (m.token = token ∧ m.type ≠ .rst ∧ Codec.option m 6 ≠ [])
  | _ => false

/-- `observation_report?/2`; `none` where the active call is missing. -/
def observationReport (s : State) (m : Message) : Option Bool :=
  match s.observation with
  | none => some false
  | some w =>
    let matching := decide (m.token = w.handleToken ∧ (m.type = .con ∨ m.type = .non))
    match s.active with
    | none => some matching
    | some ref =>
      (s.calls.lookup ref).map fun call =>
        cancellationNotification call m w.handleToken
          || (matching && call.exchange.all fun x => decide (x.value.request.token ≠ m.token))

section

variable (r : Readings) (s : State)

def notifyObservation (m : Message) : Handled :=
  acceptCon r s m (fun s => ⟨[.report m r.received r.remembered], .go s⟩)
    (fun e => ⟨[.transportFailed e], .go s⟩)

def expireResponses : State :=
  { s with responses := Recent.expire lifetime Prod.fst r.now s.responses }

/-- `incoming/2` on a decoded message. -/
def receive (m : Message) : Handled :=
  if m.type = .con ∧ (s.responses.lookup (m.messageId, m.token)).isSome then
    ⟨[.control .ack m.messageId], .go s⟩
  else
    match observationReport s m with
    | none => ⟨[], .crash⟩
    | some true => notifyObservation r s m
    | some false =>
      match s.active with
      | none => unknown s m
      | some ref => correlate r s ref m

end

/-- The first line of `incoming/2`. -/
def decoded (bytes : Bytes) : Result Message := do
  let m ← Codec.decode bytes
  Codec.validateOptions m
  .ok m

section

variable (r : Readings) (s : State)

def incoming (bytes : Bytes) : Handled :=
  match decoded bytes with
  | .ok m => receive r (expireResponses r s) m
  | .refuse _ => ⟨[], .go s⟩
  | .raise => ⟨[], .crash⟩

/-- The end of `datagram/4`. -/
def rearm : Handled :=
  ⟨[.setActiveOnce], match r.setActiveOnce with
    | none => .go s
    | some _ => .stop s⟩

def datagram (host : List Int) (port : Int) (bytes : Bytes) : Handled :=
  let t : Handled :=
    if host = s.config.host ∧ port = s.config.port then incoming r s bytes else ⟨[], .go s⟩
  match t.next with
  | .go s => .prepend t.outputs (rearm r s)
  | _ => t

/-- `active_expired?/1`; `none` where the active call is missing. -/
def activeExpired : Option Bool :=
  match s.active with
  | none => some false
  | some ref => (s.calls.lookup ref).map fun call => decide (call.deadline ≤ r.arrival)

end

/-- `match?({:observation, _, _}, kind)`. -/
def isObservation : Kind → Bool
  | .observation _ _ => true
  | _ => false

def deadline (s : State) (ref : Nat) : Handled :=
  match s.calls.lookup ref with
  | none => ⟨[], .crash⟩
  | some call =>
    let ended := finish s ref (failure .timeout)
    ⟨ended.1, if isObservation call.kind then .go ended.2 else .stop ended.2⟩

/-- `deadline/2` for the active call where it has expired, and something else where it has not. -/
def unlessExpired (r : Readings) (s : State) (otherwise : Handled) : Handled :=
  match activeExpired r s, s.active with
  | none, _ => ⟨[], .crash⟩
  | some true, some ref => deadline s ref
  | _, _ => otherwise

/-- `connection.ex:901-907`. -/
def callerDown (s : State) (monitor : Nat) : Handled :=
  match s.calls.entries.find? fun e => e.2.monitor = monitor with
  | none => ⟨[], .go s⟩
  | some e =>
    if s.active = some e.1 then ⟨[], .stop s⟩
    else
      let ended := finish s e.1 (failure .connectionClosed)
      ⟨ended.1, .go ended.2⟩

/-! ## The observation -/

def wireRequest (config : Config) (request : Message) : Result Message := do
  let request := { request with
    type := if config.confirmable then .con else .non
    options := (config.accept.toList.map fun n => ((17 : Int), Bytes.uint n)) ++ request.options }
  let _ ← Codec.encode request
  .ok request

/-- The record of a new observation; its five references follow each other. -/
def Watch.new (first : Nat) (request : Message) (receiver : Nat) : Watch where
  handle := first
  capability := first + 1
  pid := first + 2
  deadlineRef := some (first + 3)
  monitor := first + 4
  cancelRef := none
  cancelTimer := false
  handleToken := request.token
  request := request
  receiver := receiver
  opened := false
  terminal := false
  waiting := true
  cancellationStarted := false
  cancellationConfirmed := false

section

variable (r : Readings) (s : State) (request : Message)

/-- The `with` of `start_observation/5`. -/
def observed : Result Message := do
  let request ← wireRequest s.config request
  let token ← uniqueToken s.responses none (r.token s.references) 8
  .ok { request with token := token }

/-- `start_observation/5`; `Observation.start/1` may return something else than a process. -/
def startObservation (receiver : Nat) (deadline : Int) :
    Handled :=
  match observed r s request with
  | .ok request =>
    if r.observation then
      ⟨[.schedule (.observationDeadline (s.references + 3)) deadline], .go { s with
        observation := some (Watch.new s.references request receiver)
        references := s.references + 5 }⟩
    else ⟨[], .crash⟩
  | .refuse e => ⟨[.respond (.refuse e)], .go s⟩
  | .raise => ⟨[], .crash⟩

end

section

variable (s : State) (w : Watch)

/-- `connection.ex:1066-1083`. -/
def watchCancel (deadline : Int) : List Output × State :=
  if w.cancelTimer then ([], s)
  else
    ([.schedule (.cancelDeadline s.references) deadline], { s with
      observation := some { w with
        deadlineRef := none, cancelRef := some s.references, cancelTimer := true }
      references := s.references + 1 })

def watchObservation (deadline : Int) : List Output × State :=
  ([.schedule (.observationDeadline s.references) deadline], { s with
    observation := some { w with deadlineRef := some s.references }
    references := s.references + 1 })

def establishedObservation : State :=
  { s with observation := some { w with waiting := false, deadlineRef := none, opened := true } }

end

def emitTerminal (r : Readings) (s : State) (e : Error) : List Output × State :=
  match s.observation with
  | none => ([], s)
  | some w =>
    (if !w.terminal && !w.cancellationConfirmed && r.alive w.receiver then [.terminalReport e] else [],
      { s with observation := some { w with terminal := true, waiting := false } })

/-- The request of `best_effort_cancel/1`. -/
def cancelRequest (w : Watch) (mid : Int) : Message :=
  { w.request with messageId := mid, options := (6, [1]) :: w.request.options }

/-- `best_effort_cancel/1`; `Map.get/3` takes a Message ID that is not in the history for an old one. -/
def bestEffortCancel (r : Readings) (s : State) : List Output :=
  match s.observation, s.handle with
  | some w, true =>
    if w.cancellationStarted then []
    else
      match nextMid r s.mid with
      | .ok mid =>
        if lifetime ≤ r.cancellation - (s.history.lookup mid).getD (r.cancellation - lifetime) then
          match Codec.encode (cancelRequest w mid) with
          | .ok bytes => [.cancellation mid r.cancellation bytes]
          | _ => []
        else []
      | _ => []
  | _, _ => []

/-- `startup/2` on a failure. -/
def startupFailed (s : State) (e : Error) : Handled :=
  if s.readyFrom then ⟨[.started (.refuse e)], .stop { s with readyFrom := false }⟩
  else ⟨[], .go { s with phase := .failed e }⟩

/-- `startup/2`; `raise` stands for a result of no known shape. -/
def startup (r : Readings) (s : State) : Result Unit → Handled
  | .ok _ =>
    let s := { s with
      handle := true, adapterMonitor := some s.references, references := s.references + 1 }
    .prepend [.setActiveOnce]
      (match r.setActiveOnce with
      | none =>
        ⟨if s.readyFrom then [.started (.ok ())] else [],
          .go { s with phase := .ready, readyFrom := false }⟩
      | some e => startupFailed s e)
  | .refuse e => startupFailed s e
  | .raise => startupFailed s (.new .datagramFailed)

/-! ## The process -/

/-- The messages to the owner. -/
inductive Event where
  | close | ready
  | observe (request : Message) (receiver : Nat) (deadline : Int)
  | observationOwner (handle : Nat) (deadline : Int)
  | observationPhase (capability : Nat) (deadline : Int)
  | observationEstablished (capability : Nat)
  | observationTerminal (capability : Nat) (e : Error)
  | observationAbort (capability : Nat)
  | submit (m : Message) (kind : Kind) (options : List (Blockwise.TransferKey × Int)) (deadline : Int)
      (caller : Nat)
  | exchange (ref : Nat) (m : Message) (worker : Nat)
  | opened (result : Result Unit) | startupDeadline
  | data (host : List Int) (port : Int) (bytes : Bytes) | adapterFailed
  | retry (ref reference : Nat) | deadline (ref : Nat) | completed (ref : Nat) (result : Answer)
  | observationDeadline (reference : Nat) | cancelDeadline (reference : Nat)
  | down (monitor : Nat) | creatorExit | workerExit (worker : Nat) (normal : Bool)
  | other
  deriving DecidableEq

/-- A clause for the holder of the observation's capability; another one is refused. -/
def withCapability (s : State) (capability : Nat) (clause : Watch → Handled) : Handled :=
  match s.observation with
  | some w =>
    if w.capability = capability then clause w
    else ⟨[.respond (failure .invalidSubscription)], .go s⟩
  | none => ⟨[.respond (failure .invalidSubscription)], .go s⟩

/-- Something is done to the state, and the sender gets an answer. -/
def respondTo (result : Result (Option Nat)) (done : List Output × State) : Handled :=
  ⟨done.1 ++ [.respond result], .go done.2⟩

variable (r : Readings) (s : State)

/-- `handle_call/3` for `:submit` of a ready owner. -/
def submit (m : Message) (kind : Kind)
    (options : List (Blockwise.TransferKey × Int)) (deadline : Int) (caller : Nat) : Handled :=
  if !allowed s kind then ⟨[.respond (failure .observationActive)], .go s⟩
  else if deadline ≤ r.arrival then ⟨[.respond (failure .timeout)], .go s⟩
  else if 64 ≤ s.calls.entries.length then ⟨[.respond (failure .busy)], .go s⟩
  else admitCall r s m kind options deadline caller

/-- `handle_call/3` for `:exchange` of the active call. -/
def exchange (ref : Nat) (m : Message) (worker : Nat) : Handled :=
  match s.calls.lookup ref with
  | none => ⟨[], .crash⟩
  | some call =>
    if call.worker = some worker ∧ call.exchange = none then beginExchange r s ref call m
    else ⟨[.respond (failure .invalidExchange)], .go s⟩

/-- `handle_info/2` for `:retry` of the active call. -/
def retryDue (ref reference : Nat) : Handled :=
  match s.calls.lookup ref with
  | none => ⟨[], .crash⟩
  | some call =>
    match call.exchange with
    | some record => if record.reference = reference then retry r s ref call record else ⟨[], .go s⟩
    | none => ⟨[], .go s⟩

/-- `handle_info/2` for `:completed` of the active call that has not expired. -/
def complete (ref : Nat) (result : Answer) : Handled :=
  .prepend (finish s ref result).1 (next r (finish s ref result).2)

/-- `handle_call/3` for `:observe` of a ready owner. -/
def observe (request : Message) (receiver : Nat) (deadline : Int) : Handled :=
  if s.observation.isSome then ⟨[.respond (failure .observationActive)], .go s⟩
  else if s.active.isSome ∨ s.calls.entries ≠ [] then ⟨[.respond (failure .busy)], .go s⟩
  else if deadline ≤ r.arrival then ⟨[.respond (failure .timeout)], .go s⟩
  else startObservation r s request receiver deadline

/-- The monitors whose end is the end of the owner. -/
def monitors (s : State) : List Nat :=
  [s.ownerMonitor, s.creatorMonitor] ++ s.adapterMonitor.toList ++ (s.observation.map Watch.monitor).toList

/-- The exit of a process that the owner is linked to. -/
def workerExit (s : State) (worker : Nat) (normal : Bool) : Handled :=
  if normal then ⟨[], .go s⟩
  else if s.openWorker = some worker ∧ s.phase = .opening then
    startupFailed { s with openWorker := none } (.new .datagramFailed)
  else
    match s.active with
    | none => ⟨[], .go s⟩
    | some ref =>
      match s.calls.lookup ref with
      | none => ⟨[], .crash⟩
      | some call => if call.worker = some worker then ⟨[], .stop s⟩ else ⟨[], .go s⟩

/-- `:observation_deadline` and `:cancel_deadline` of the current reference. -/
def observationTimeout (r : Readings) (s : State) (answered : List Output) : Handled :=
  ⟨answered ++ (emitTerminal r s (.new .timeout)).1, .stop (emitTerminal r s (.new .timeout)).2⟩

/-- `handle_call/3` and `handle_info/2`. -/
def handle (r : Readings) (s : State) : Event → Handled
  | .close =>
    ⟨bestEffortCancel r s ++ (if s.handle then [.close] else [])
        ++ [.respond (match s.handle, r.close with
          | true, some e => .refuse e
          | _, _ => .ok none)],
      .stop { s with handle := false }⟩
  | .ready =>
    match s.phase with
    | .opening => ⟨[], .go { s with readyFrom := true }⟩
    | .ready => ⟨[.respond (.ok none)], .go s⟩
    | .failed e => ⟨[.respond (.refuse e)], .stop s⟩
  | .observe request receiver deadline =>
    -- only the clause for a ready owner exists
    if s.phase = .ready then observe r s request receiver deadline else ⟨[], .crash⟩
  | .observationOwner ref deadline =>
    match s.observation with
    | some w =>
      if w.handle = ref then respondTo (.ok (some w.pid)) (watchCancel s w deadline)
      else ⟨[.respond (failure .invalidSubscription)], .go s⟩
    | none => ⟨[.respond (failure .invalidSubscription)], .go s⟩
  | .observationPhase capability deadline =>
    withCapability s capability fun w => respondTo (.ok none) (watchObservation s w deadline)
  | .observationEstablished capability =>
    withCapability s capability fun w => respondTo (.ok none) ([], establishedObservation s w)
  | .observationTerminal capability e =>
    withCapability s capability fun _ => respondTo (.ok none) (emitTerminal r s e)
  | .observationAbort capability =>
    withCapability s capability fun _ => respondTo (.ok none) (match s.active with
      | some ref => finish s ref (failure .canceled)
      | none => ([], s))
  | .submit m kind options deadline caller =>
    if s.phase = .ready then submit r s m kind options deadline caller
    else ⟨[.respond (failure .connectionClosed)], .go s⟩
  | .exchange ref m worker =>
    if s.active = some ref then exchange r s ref m worker
    else ⟨[.respond (failure .connectionClosed)], .go s⟩
  | .opened result =>
    if s.phase = .opening then startup r { s with openWorker := none } result else ⟨[], .go s⟩
  | .startupDeadline =>
    if s.phase = .opening then
      .prepend (s.openWorker.toList.map .kill) (startupFailed { s with openWorker := none } (.new .timeout))
    else ⟨[], .go s⟩
  | .data host port bytes =>
    if s.phase = .ready then unlessExpired r s (datagram r s host port bytes) else ⟨[], .stop s⟩
  | .adapterFailed => ⟨[], .stop s⟩
  | .retry ref reference => if s.active = some ref then retryDue r s ref reference else ⟨[], .go s⟩
  | .deadline ref =>
    if s.active = some ref then deadline s ref
    else ⟨(finish s ref (failure .timeout)).1, .go (finish s ref (failure .timeout)).2⟩
  | .completed ref result =>
    if s.active = some ref then unlessExpired r s (complete r s ref result) else ⟨[], .go s⟩
  | .observationDeadline reference =>
    match s.observation with
    | some w =>
      if w.deadlineRef = some reference then
        observationTimeout r s (if w.waiting then [.subscribed (failure .timeout)] else [])
      else ⟨[], .go s⟩
    | none => ⟨[], .go s⟩
  | .cancelDeadline reference =>
    match s.observation with
    | some w => if w.cancelRef = some reference then observationTimeout r s [] else ⟨[], .go s⟩
    | none => ⟨[], .go s⟩
  | .down monitor => if monitor ∈ monitors s then ⟨[], .stop s⟩ else callerDown s monitor
  | .creatorExit => ⟨[], .stop s⟩
  | .workerExit worker normal => workerExit s worker normal
  | .other => ⟨[], .go s⟩

/-- The observation's part of `terminate/2`. -/
def terminateObservation (r : Readings) (s : State) : List Output :=
  (emitTerminal r s (.new .connectionClosed)).1 ++
    match s.observation with
    | none => []
    | some w => (if w.waiting then [.subscribed (failure .connectionClosed)] else []) ++ [.kill w.pid]

/-- The worker of the active call, `none` where the call is missing. -/
def activeWorker (s : State) : Option (List Nat) :=
  match s.active with
  | none => some []
  | some ref => (s.calls.lookup ref).map fun call => call.worker.toList

/-- `terminate/2`; it ends where the active call is missing. -/
def terminate (s : State) (r : Readings) : List Output :=
  s.openWorker.toList.map .kill ++
    match activeWorker s with
    | none => []
    | some worker =>
      worker.map .kill ++ bestEffortCancel r s ++ terminateObservation r s
        ++ (if s.handle then [.close] else [])
        ++ s.calls.entries.map fun e => reply e.1 e.2 (failure .connectionClosed)

/-- `init_owner/2`: two monitors and the worker that opens the adapter. -/
def init (config : Config) (mid : Int) : State where
  config := config
  phase := .opening
  handle := false
  adapterMonitor := none
  openWorker := some 2
  readyFrom := false
  ownerMonitor := 0
  creatorMonitor := 1
  active := none
  calls := ∅
  queue := []
  mid := mid
  history := ∅
  responses := ∅
  responseOrder := 0
  observation := none
  references := 3

/-- The owner as a process. -/
def process : Process.Behaviour State (Readings × Event) Output where
  handle s i := handle i.1 s i.2
  terminate s i := terminate s i.1

end Wotex.CoAP.Connection
