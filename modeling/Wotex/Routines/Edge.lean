import Wotex.Routines.Observation

/-!
# Reported edges (`edge.ex`)

An edge keeps a summary of the samples of one binding: the last sample taken, the baseline, the
start of a candidate and the end of the cooldown. `Edge.advance` takes one reported fact and
says whether it completes an edge.
-/

namespace Wotex.Routines

open Wotex.Json (Value)

/-- The last sample taken: the `@sample` members. -/
structure Sample where
  receiptMs : Int
  sequence : Int
  factId : Text
  factDigest : Text

/-- `Wotex.Routines.Edge`. The format `edge@2` goes with the clock grammar `time@2`. -/
structure Edge where
  format : TimeFormat
  programDigest : Text
  binding : Text
  bindingBasis : BindingBasis
  epoch : Text
  clockGeneration : Text
  lastElapsedMs : Int
  sample : Option Sample
  baseline : Option Bool
  candidateSinceMs : Option Int
  cooldownUntilMs : Int
  lastOriginal : Option Text

/-- Why an edge is eligible or not. -/
inductive EdgeReason where
  | unqualified | duplicate | baseline | stable | cooldown | debouncing | eligible

/-- What `Edge.advance/7` gives. -/
structure EdgeResult where
  edge : Edge
  eligible : Bool
  reason : EdgeReason

namespace Edge

variable (e : Edge)

def data : Value :=
  .obj ([(("baseline" : Text), jopt .bool e.baseline), ("binding", .str e.binding),
    ("binding_basis", e.bindingBasis.data), ("candidate_since_ms", jopt jint e.candidateSinceMs),
    ("clock_generation", .str e.clockGeneration), ("cooldown_until_ms", jint e.cooldownUntilMs),
    ("epoch", .str e.epoch),
    ("format", .str (match e.format with
      | .time1 => "wotex.routines.edge@1"
      | .time2 => "wotex.routines.edge@2")),
    ("last_elapsed_ms", jint e.lastElapsedMs),
    ("last_fact_digest", jopt (fun s : Sample => .str s.factDigest) e.sample),
    ("last_fact_id", jopt (fun s : Sample => .str s.factId) e.sample),
    ("last_original", jopt .str e.lastOriginal),
    ("last_receipt_ms", jopt (fun s : Sample => jint s.receiptMs) e.sample),
    ("last_sequence", jopt (fun s : Sample => jint s.sequence) e.sample),
    ("program_digest", .str e.programDigest)]
    ++ (match e.format with
      | .time1 => []
      | .time2 => [(("time_format" : Text), .str "wotex.routines.time@2")]))

/-! ## Construction -/

/-- `binding_basis/4`. -/
def checkBasis (host : Host) (b : BindingBasis) (name : Text) (p : Program) (l : Limits) :
    Checked Unit :=
  match b.inputMapping with
  | some m => b.checkExternal host m name p l .staleEdge
  | none => do
    text b.sourceId "/binding_basis/source_id"
    text b.sourceEpoch "/binding_basis/source_epoch"
    b.sourceTimeBasis.elim (.ok ()) fun d => digest d "/digest"
    check (decide (BindingBasis.installedDigest p name = some b.profileDigest)) .staleEdge

/-- `identity/3`. -/
def checkIdentity (host : Host) (e : Edge) (p : Program) (l : Limits) : Checked Unit :=
  match p.ir.trigger with
  | .edge t => do
    check (decide (e.binding = t.binding) && decide (e.programDigest = p.irDigest)) .staleEdge
    checkBasis host e.bindingBasis e.binding p l
    text e.epoch "/epoch"
    text e.clockGeneration "/clock_generation"
  | _ => refusal .staleEdge

variable (l : Limits)

/-- `candidate/2`. -/
def checkCandidate : Checked Unit :=
  match e.candidateSinceMs with
  | none => .ok ()
  | some since => do
    integer since l "/candidate_since_ms" (some 0)
    check (decide (e.baseline = some false) && decide (since ≤ e.lastElapsedMs)) .incoherentEdge

/-- `coordinates/2`. -/
def checkCoordinates : Checked Unit := do
  integer e.lastElapsedMs l "/last_elapsed_ms" (some 0)
  integer e.cooldownUntilMs l "/cooldown_until_ms" (some 0)
  e.checkCandidate l
  e.lastOriginal.elim (.ok ()) fun o => text o "/last_original"

/-- `sample/2`. -/
def checkSample : Checked Unit :=
  match e.sample with
  | none => check (e.baseline.isNone && e.candidateSinceMs.isNone) .incoherentEdge
  | some s => do
    integer s.sequence l "/last_sequence" (some 0)
    integer s.receiptMs l "/last_receipt_ms" (some 0)
    text s.factId "/last_fact_id"
    digest s.factDigest "/last_fact_digest"
    check (decide (s.receiptMs ≤ e.lastElapsedMs)) .incoherentEdge

/-- The checks of `Edge.new/4` behind the program. -/
def checked (host : Host) (e : Edge) (program : Program) (l : Limits) : Checked Edge := do
  let l ← admitData host e.data l
  e.checkIdentity host program l
  e.checkCoordinates l
  e.checkSample l
  .ok e

def new (host : Host) (e : Edge) (program : Program) (p : Profile) (l : Limits) : Checked Edge := do
  let program ← Compiler.toMap host program p l
  e.checked host program l

/-- `edge.ex:106-107`. -/
def retained (host : Host) (e : Option Edge) (program : Program) (p : Profile) (l : Limits) :
    Checked (Option Edge) :=
  match e with
  | none => .ok none
  | some e => do
    let e ← e.new host program p l
    .ok (some e)

/-! ## One sample -/

/-- `edge.ex:274-301`. -/
def initial (p : Program) (binding : Text) (basis : BindingBasis) (t : Time) : Edge where
  format := t.format
  programDigest := p.irDigest
  binding := binding
  bindingBasis := basis
  epoch := t.epoch
  clockGeneration := t.clockGeneration
  lastElapsedMs := t.elapsedMs
  sample := none
  baseline := none
  candidateSinceMs := none
  cooldownUntilMs := 0
  lastOriginal := none

def reset : Edge := { e with baseline := none, candidateSinceMs := none }

def remember (f : Fact) (digest : Text) (t : Time) : Edge :=
  { e with lastElapsedMs := t.elapsedMs, sample := some ⟨f.receiptMs, f.sequence, f.id, digest⟩ }

variable (prior : Option Edge) (fresh : Edge)

/-- The retained edge has another format, binding basis or clock. The bases are compared by
`==`, which matters for the numbers of an input mapping. -/
def replaced : Bool :=
  match prior with
  | none => true
  | some e => !(decide (e.format = fresh.format) && e.bindingBasis.data.same fresh.bindingBasis.data
      && decide (e.epoch = fresh.epoch) && decide (e.clockGeneration = fresh.clockGeneration))

def sameIdentity (f : Fact) : Bool :=
  e.sample.any fun s => decide (s.factId = f.id) || decide (s.sequence = f.sequence)

def regressed (f : Fact) : Bool :=
  e.sample.any fun s => decide (f.sequence ≤ s.sequence) || decide (f.receiptMs < s.receiptMs)

/-- `active/3`. A compiled trigger has a hysteresis exactly when its basis is an integer, so the
last case does not arise. -/
def active (t : EdgeTrigger Num) (value : Scalar Int) (e : Edge) : Checked (Option Bool) :=
  match t.hysteresis, value with
  | none, .bool b => .ok (some (match t.direction with
      | .rising => b
      | .falling => !b))
  | some h, .num v =>
    let held := if e.candidateSinceMs.isSome then some true else e.baseline
    .ok (match t.direction with
      | .rising =>
        if h.enter.le (.int v) then some true else if (Num.int v).le h.exit then some false else held
      | .falling =>
        if (Num.int v).le h.enter then some true else if h.exit.le (.int v) then some false else held)
  | _, _ => .raise

def output (eligible : Bool) (reason : EdgeReason) : Checked EdgeResult :=
  .ok ⟨e, eligible, reason⟩

/-- `edge.ex:327-363`. -/
def transition (active : Option Bool) (original : Text) (t : Time)
    (trigger : EdgeTrigger Num) (l : Limits) : Checked EdgeResult :=
  match e.baseline, active with
  | none, active => output { e with baseline := active } false .baseline
  | some _, none => output { e with baseline := none, candidateSinceMs := none } false .stable
  | some _, some false =>
    output { e with baseline := some false, candidateSinceMs := none } false .stable
  | some true, some true => output e false .stable
  | some false, some true =>
    let since := e.candidateSinceMs.getD t.elapsedMs
    if t.elapsedMs < e.cooldownUntilMs then
      output { e with baseline := some true, candidateSinceMs := none } false .cooldown
    else if (Num.int (t.elapsedMs - since)).lt trigger.debounceMs then
      output { e with candidateSinceMs := some since } false .debouncing
    else
      let ends := (Num.int t.elapsedMs).add trigger.cooldownMs
      match ends with
      | .int d => do
        integer d l "/cooldown_until_ms" (some 0)
        output { e with baseline := some true, candidateSinceMs := none, cooldownUntilMs := d,
                        lastOriginal := some original } true .eligible
      | .flt _ => refusal .invalidType "/cooldown_until_ms"

/-- The last clause of `evaluate/8`: a new sample. -/
def take (reading : Reading) (f : Fact) (digest : Text) (original : Text) (t : Time)
    (trigger : EdgeTrigger Num) (l : Limits) : Checked EdgeResult :=
  match reading with
  | none => .raise
  | some v => do
    let e := e.remember f digest t
    let act ← active trigger v e
    transition e act original t trigger l

/-- `evaluate/8`, over the fact's qualification. -/
def evaluate (qualified : Bool) (reading : Reading) (f : Fact)
    (digest : Text) (original : Text) (t : Time) (trigger : EdgeTrigger Num) (l : Limits) :
    Checked EdgeResult :=
  match prior, replaced prior fresh with
  | some e, false =>
    if !qualified then output e.reset false .unqualified
    else if sameIdentity e f && decide (e.sample.map Sample.factDigest ≠ some digest) then
      refusal .conflictingEdgeFact
    else if t.elapsedMs < e.lastElapsedMs then output e.reset false .unqualified
    else if sameIdentity e f then output { e with lastElapsedMs := t.elapsedMs } false .duplicate
    else if regressed e f then
      output { e with lastElapsedMs := t.elapsedMs }.reset false .unqualified
    else take e reading f digest original t trigger l
  | _, _ =>
    if !qualified then output fresh.reset false .unqualified
    else take fresh reading f digest original t trigger l

/-- `input/3`: the trigger and the fact of a fact event. -/
def input (p : Program) (event : Event) (s : Snapshot) : Checked (EdgeTrigger Num × Fact) :=
  match p.ir.trigger, event.kind with
  | .edge t, .fact binding factId =>
    match s.fact t.binding with
    | some f =>
      if event.programDigest = p.irDigest ∧ binding = t.binding ∧ factId = f.id then .ok (t, f)
      else refusal .foreignEdgeFact
    | none => refusal .foreignEdgeFact
  | _, _ => refusal .foreignEdgeFact

/-- The edge behind a checked call. -/
def step (host : Host) (p : Program) (event : Event) (s : Snapshot) (t : Time) (prior : Option Edge)
    (l : Limits) : Checked EdgeResult := do
  let (trigger, f) ← input p event s
  let digest ← hash host f.data l
  match s.bindingBases.get trigger.binding with
  | none => refusal .invalidType
  | some basis =>
    let values := ObservationView.values host p s t l
    let reading := (values.get trigger.binding).join
    let qualified := decide (f.continuity = .continuous) && reading.isSome
    evaluate prior (initial p trigger.binding basis t) qualified reading f digest event.original t trigger l

/-- `edge.ex:92-104`. -/
def advance (host : Host) (program : Program) (event : Event) (s : Snapshot) (t : Time)
    (prior : Option Edge) (p : Profile) (l : Limits) : Checked EdgeResult := do
  let program ← Compiler.toMap host program p l
  let event ← event.new host l
  let s ← s.new host program p l
  let t ← t.new host l
  let prior ← retained host prior program p l
  let result ← step host program event s t prior l
  let _ ← result.edge.new host program p l
  .ok result

end Edge

end Wotex.Routines
