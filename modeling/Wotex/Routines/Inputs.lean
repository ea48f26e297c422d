import Wotex.Routines.Compiler

/-!
# Events, times, facts and snapshots

Models `event.ex`, `time.ex`, `clock_basis.ex`, `fact.ex`, `external_binding.ex` and
`snapshot.ex`: the inputs of one kernel call, besides the program and the retained state.
-/

namespace Wotex.Routines

open Wotex.Json (Value)

/-! ## Events (`event.ex`) -/

/-- The window of a UTC schedule: the `@due` members. -/
structure DueWindow where
  scheduleId : Text
  scheduleBasis : Text
  dueMs : Int
  lateWindowMs : Int
  clockGeneration : Text
  timeZoneBasis : Text
  deriving DecidableEq

/-- The window of an elapsed schedule: the `@elapsed` members. -/
structure ElapsedWindow where
  scheduleId : Text
  scheduleBasis : Text
  dueElapsedMs : Int
  lateWindowMs : Int
  epoch : Text
  clockGeneration : Text
  timeBasis : Text
  deriving DecidableEq

/-- A retained window. -/
inductive Window where
  | due (w : DueWindow)
  | elapsed (w : ElapsedWindow)
  deriving DecidableEq

def Window.data : Window → Value
  | due w =>
    .obj [("clock_generation", .str w.clockGeneration), ("due_ms", jint w.dueMs),
      ("late_window_ms", jint w.lateWindowMs), ("schedule_basis", .str w.scheduleBasis),
      ("schedule_id", .str w.scheduleId), ("time_zone_basis", .str w.timeZoneBasis)]
  | elapsed w =>
    .obj [("clock_generation", .str w.clockGeneration), ("due_elapsed_ms", jint w.dueElapsedMs),
      ("epoch", .str w.epoch), ("late_window_ms", jint w.lateWindowMs),
      ("schedule_basis", .str w.scheduleBasis), ("schedule_id", .str w.scheduleId),
      ("time_basis", .str w.timeBasis)]

/-- `"outcome"` of a result. -/
inductive ResultOutcome where
  | accepted | failed | unknown
  deriving DecidableEq

/-- The name of an outcome. -/
def ResultOutcome.text : ResultOutcome → Text
  | accepted => "accepted"
  | failed => "failed"
  | unknown => "unknown"

/-- The kind of an event with its members; `held` is `"outcome" => "held"` of an admission,
otherwise `"refused"`. -/
inductive EventKind where
  | manual
  | cancel
  | resume
  | due (w : DueWindow)
  | elapsedDue (w : ElapsedWindow)
  | fact (binding factId : Text)
  | admission (path : List Int) (ref : Text) (held : Bool)
  | handoff (path : List Int) (ref : Text)
  | result (path : List Int) (ref : Text) (stage : Stage) (outcome : ResultOutcome)
    (reportContract : Option Ref)
  | satisfied (path : List Int) (ref factId : Text) (reportContract : Ref)
  deriving DecidableEq

structure Event where
  original : Text
  programDigest : Text
  kind : EventKind

/-- The JSON form of an event's path. -/
def eventPathData (p : List Int) : Value := pathData (p.map Num.int)

namespace Event

def data (e : Event) : Value :=
  let original : Text × Value := ("original", .str e.original)
  let program : Text × Value := ("program_digest", .str e.programDigest)
  match e.kind with
  | .manual => .obj [("kind", .str "manual"), original, program]
  | .cancel => .obj [("kind", .str "cancel"), original, program]
  | .resume => .obj [("kind", .str "resume"), original, program]
  | .due w =>
    .obj [("clock_generation", .str w.clockGeneration), ("due_ms", jint w.dueMs),
      ("kind", .str "due"), ("late_window_ms", jint w.lateWindowMs), original, program,
      ("schedule_basis", .str w.scheduleBasis), ("schedule_id", .str w.scheduleId),
      ("time_zone_basis", .str w.timeZoneBasis)]
  | .elapsedDue w =>
    .obj [("clock_generation", .str w.clockGeneration), ("due_elapsed_ms", jint w.dueElapsedMs),
      ("epoch", .str w.epoch), ("kind", .str "elapsed_due"),
      ("late_window_ms", jint w.lateWindowMs), original, program,
      ("schedule_basis", .str w.scheduleBasis), ("schedule_id", .str w.scheduleId),
      ("time_basis", .str w.timeBasis)]
  | .fact binding factId =>
    .obj [("binding", .str binding), ("fact_id", .str factId), ("kind", .str "fact"), original,
      program]
  | .admission path ref held =>
    .obj [("kind", .str "admission"), original,
      ("outcome", .str (if held then "held" else "refused")), ("path", eventPathData path), program,
      ("ref", .str ref)]
  | .handoff path ref =>
    .obj [("kind", .str "handoff"), original, ("path", eventPathData path), program,
      ("ref", .str ref)]
  | .result path ref stage outcome contract =>
    .obj [("kind", .str "result"), original, ("outcome", .str outcome.text),
      ("path", eventPathData path), program, ("ref", .str ref),
      ("report_contract", jopt Ref.data contract), ("stage", .str stage.text)]
  | .satisfied path ref factId contract =>
    .obj [("fact_id", .str factId), ("kind", .str "satisfied"), original,
      ("path", eventPathData path), program, ("ref", .str ref),
      ("report_contract", contract.data)]

/-- `receipt/2`. -/
def checkReceipt (path : List Int) (ref : Text) (l : Limits) : Checked Unit := do
  text ref "/event/ref"
  check (decide (path.length ≤ 32)) .invalidPath "/event/path"
  Outcome.each (fun i => integer i l "/event/path" (some 0)) path

/-- `installed_report_contract/1`. -/
def checkContract (r : Ref) : Checked Unit := do
  text r.id "/event/report_contract"
  text r.version "/event/report_contract"
  digest r.semanticDigest "/event/report_contract"

/-- `event/2`. -/
def checkKind (l : Limits) : EventKind → Checked Unit
  | .manual | .cancel | .resume => .ok ()
  | .due w => do
    text w.scheduleId "/event/schedule_id"
    digest w.scheduleBasis "/event/schedule_basis"
    integer w.dueMs l "/event/due_ms"
    integer w.lateWindowMs l "/event/late_window_ms" (some 1)
    text w.clockGeneration "/event/clock_generation"
    integer (w.dueMs + w.lateWindowMs) l "/event/window"
    digest w.timeZoneBasis "/event/time_zone_basis"
  | .elapsedDue w => do
    text w.scheduleId "/event/schedule_id"
    digest w.scheduleBasis "/event/schedule_basis"
    integer w.dueElapsedMs l "/event/due_elapsed_ms" (some 0)
    integer w.lateWindowMs l "/event/late_window_ms" (some 1)
    integer (w.dueElapsedMs + w.lateWindowMs) l "/event/window"
    text w.epoch "/event/epoch"
    text w.clockGeneration "/event/clock_generation"
    digest w.timeBasis "/event/time_basis"
  | .fact binding factId => do
    text binding "/event/binding"
    text factId "/event/fact_id"
  | .admission path ref _ | .handoff path ref => checkReceipt path ref l
  | .result path ref stage _ contract => do
    checkReceipt path ref l
    match stage, contract with
    | .localQueue, none | .protocolResponse, none => .ok ()
    | .correlatedReport, some r | .reportedMatch, some r => checkContract r
    -- a missing contract is not a map; a contract on an early stage is not in the grammar
    | .correlatedReport, none | .reportedMatch, none => refusal .invalidType
    | _, _ => refusal .invalidReportContract "/event/report_contract"
  | .satisfied path ref factId contract => do
    checkReceipt path ref l
    text factId "/event/fact_id"
    checkContract contract

/-- `event.ex:64-72`. -/
def new (host : Host) (e : Event) (l : Limits) : Checked Event := do
  let l ← admitData host e.data l
  text e.original "/event/original"
  digest e.programDigest "/event/program_digest"
  checkKind l e.kind
  .ok e

def window (e : Event) : Option Window :=
  match e.kind with
  | .due w => some (.due w)
  | .elapsedDue w => some (.elapsed w)
  | _ => none

end Event

/-! ## Times (`time.ex`, `clock_basis.ex`) -/

/-- The two clock grammars. -/
inductive TimeFormat where
  | time1 | time2
  deriving DecidableEq

/-- The name of a grammar. -/
def TimeFormat.text : TimeFormat → Text
  | time1 => "wotex.routines.time@1"
  | time2 => "wotex.routines.time@2"

/-- The clock grammar of a time, with the UTC generation of the second one. -/
inductive ClockGrammar where
  | time1
  | time2 (utcGeneration : Option Text)

/-- `Wotex.Routines.Time`; `utc` is the pair of UTC bounds. -/
structure Time where
  epoch : Text
  clockGeneration : Text
  elapsedMs : Int
  utc : Option (Int × Int)
  grammar : ClockGrammar

namespace Time

variable (t : Time)

def format : TimeFormat :=
  match t.grammar with
  | .time1 => .time1
  | .time2 _ => .time2

/-- `clock_basis.ex:12-15`, `time.ex:72-85`. -/
def utcGeneration : Option Text :=
  match t.grammar with
  | .time1 => some t.clockGeneration
  | .time2 g => g

def data : Value :=
  let low : Text × Value := ("utc_low_ms", jopt jint (t.utc.map Prod.fst))
  let high : Text × Value := ("utc_high_ms", jopt jint (t.utc.map Prod.snd))
  let elapsed : List (Text × Value) := [("clock_generation", .str t.clockGeneration),
    ("elapsed_ms", jint t.elapsedMs), ("epoch", .str t.epoch)]
  match t.grammar with
  | .time1 => .obj (elapsed ++ [high, low])
  | .time2 g => .obj (elapsed ++ [(("format" : Text), .str "wotex.routines.time@2"),
      ("utc_generation", jopt .str g), high, low])

/-- `utc_generation/1`. -/
def checkGeneration : Checked Unit :=
  match t.grammar, t.utc with
  | .time1, _ => .ok ()
  | .time2 g, none => check g.isNone .invalidClockInterval "/utc_generation"
  | .time2 g, some _ => check (g.any fun s => !s.isEmpty) .invalidString "/utc_generation"

/-- `time.ex:49-59`. -/
def new (host : Host) (t : Time) (l : Limits) : Checked Time := do
  let l ← admitData host t.data l
  Routines.text t.epoch "/epoch"
  Routines.text t.clockGeneration "/clock_generation"
  integer t.elapsedMs l "/elapsed_ms" (some 0)
  match t.utc with
  | none => .ok ()
  | some (low, high) =>
    integer low l "/utc_low_ms"
    integer high l "/utc_high_ms"
    check (decide (low ≤ high)) .invalidClockInterval "/utc_high_ms"
  t.checkGeneration
  .ok t

end Time

/-! ## Facts (`fact.ex`) -/

/-- `"quality"`. -/
inductive Quality where
  | usable | stale | invalid | unknown
  deriving DecidableEq

/-- `"replay"`. -/
inductive Replay where
  | fresh | retained | replayed
  deriving DecidableEq

/-- `"continuity"` of a fact. -/
inductive Continuity where
  | continuous | baseline | lost
  deriving DecidableEq

/-- `"source_time_trust"`. -/
inductive Trust where
  | trusted | untrusted | unknown
  deriving DecidableEq

/-- A contributor of a derived fact. -/
structure Contributor where
  factId : Text
  sourceId : Text
  sourceEpoch : Text
  sequence : Int
  receiptEpoch : Text
  expiresMs : Int

/-- `Wotex.Routines.Fact`. The value is any JSON term. -/
structure Fact where
  id : Text
  thingId : Text
  affordanceType : AffordanceType
  affordanceName : Text
  value : Value
  unit : Option MeasureUnit
  quality : Quality
  sourceClass : SourceClass
  sourceId : Text
  sourceEpoch : Text
  sequence : Int
  sourceTime : Option Text
  sourceTimeTrust : Trust
  sourceTimeBasis : Option Text
  sourceUncertaintyMs : Option Int
  receivedAt : Option Text
  receiptEpoch : Text
  receiptMs : Int
  profileDigest : Text
  replay : Replay
  continuity : Continuity
  expiresMs : Int
  derivationDigest : Option Text
  contributors : List Contributor

/-- The name of a quality. -/
def Quality.text : Quality → Text
  | usable => "usable"
  | stale => "stale"
  | invalid => "invalid"
  | unknown => "unknown"

/-- The name of a replay mark. -/
def Replay.text : Replay → Text
  | fresh => "fresh"
  | retained => "retained"
  | replayed => "replayed"

/-- The name of a continuity mark. -/
def Continuity.text : Continuity → Text
  | continuous => "continuous"
  | baseline => "baseline"
  | lost => "lost"

/-- The name of a trust mark. -/
def Trust.text : Trust → Text
  | trusted => "trusted"
  | untrusted => "untrusted"
  | unknown => "unknown"

namespace Contributor

def data (c : Contributor) : Value :=
  .obj [("expires_ms", jint c.expiresMs), ("fact_id", .str c.factId),
    ("receipt_epoch", .str c.receiptEpoch), ("sequence", jint c.sequence),
    ("source_epoch", .str c.sourceEpoch), ("source_id", .str c.sourceId)]

/-- `contributor/3`. -/
def checkIn (c : Contributor) (receiptEpoch : Text) (expiresMs : Int) (l : Limits) :
    Checked Unit := do
  text c.factId "/contributors/fact_id"
  text c.sourceId "/contributors/source_id"
  text c.sourceEpoch "/contributors/source_epoch"
  text c.receiptEpoch "/contributors/receipt_epoch"
  integer c.sequence l "/contributors/sequence" (some 0)
  integer c.expiresMs l "/contributors/expires_ms" (some 0)
  check (decide (c.receiptEpoch = receiptEpoch) && decide (expiresMs ≤ c.expiresMs))
    .invalidDerivationBasis "/contributors"

end Contributor

namespace Fact

def data (f : Fact) : Value :=
  .obj [("affordance_name", .str f.affordanceName), ("affordance_type", .str f.affordanceType.text),
    ("continuity", .str f.continuity.text),
    ("contributors", .arr (f.contributors.map Contributor.data)),
    ("derivation_digest", jopt .str f.derivationDigest), ("expires_ms", jint f.expiresMs),
    ("id", .str f.id), ("profile_digest", .str f.profileDigest), ("quality", .str f.quality.text),
    ("receipt_epoch", .str f.receiptEpoch), ("receipt_ms", jint f.receiptMs),
    ("received_at", jopt .str f.receivedAt), ("replay", .str f.replay.text),
    ("sequence", jint f.sequence), ("source_class", .str f.sourceClass.text),
    ("source_epoch", .str f.sourceEpoch), ("source_id", .str f.sourceId),
    ("source_time", jopt .str f.sourceTime), ("source_time_basis", jopt .str f.sourceTimeBasis),
    ("source_time_trust", .str f.sourceTimeTrust.text),
    ("source_uncertainty_ms", jopt jint f.sourceUncertaintyMs), ("thing_id", .str f.thingId),
    ("unit", jopt MeasureUnit.data f.unit), ("value", f.value)]

/-- `unit_value/4`. -/
def checkUnit (host : Host) (f : Fact) (l : Limits) : Checked Unit :=
  match f.unit with
  | none => .ok ()
  | some u => do
    let u ← u.new host l
    if f.value = .null ∨ f.quality ≠ .usable then .ok ()
    else
      let _ ← u.convert host f.value u l
      .ok ()

/-- `source_clock/2`. -/
def checkClock (f : Fact) (l : Limits) : Checked Unit := do
  f.sourceTimeBasis.elim (.ok ()) fun d => digest d "/source_time_basis"
  f.sourceUncertaintyMs.elim (.ok ()) fun u => integer u l "/source_uncertainty_ms" (some 0)
  check (decide (f.sourceTimeTrust ≠ .trusted)
    || (f.sourceTime.isSome && f.sourceTimeBasis.isSome && f.sourceUncertaintyMs.isSome))
    .missingClockBasis "/source_time_trust"

/-- `derivation/2`. -/
def checkDerivation (f : Fact) (l : Limits) : Checked Unit :=
  if f.derivationDigest = none ∧ f.contributors = [] ∧ f.sourceClass ≠ .derivedReport then .ok ()
  else do
    check (decide (f.sourceClass = .derivedReport)) .unsupportedValue "/source_class"
    check (f.derivationDigest.any isDigest) .invalidDigest "/derivation_digest"
    check (!f.contributors.isEmpty) .invalidDerivation "/contributors"
    Outcome.each (fun c : Contributor => c.checkIn f.receiptEpoch f.expiresMs l) f.contributors
    check (decide (f.contributors.map Contributor.factId).Nodup) .duplicateIdentity "/contributors"

/-- `Fact.new/2`, without the normalized time texts it gives back: no caller here keeps them. -/
def new (host : Host) (f : Fact) (l : Limits) : Checked Fact := do
  let l ← admitData host f.data l
  text f.id "/id"
  text f.affordanceName "/affordance_name"
  text f.sourceId "/source_id"
  text f.sourceEpoch "/source_epoch"
  text f.receiptEpoch "/receipt_epoch"
  iri host f.thingId "/thing_id"
  check (decide (f.affordanceType ≠ .action)) .unsupportedValue "/affordance_type"
  integer f.sequence l "/sequence" (some 0)
  integer f.receiptMs l "/receipt_ms" (some 0)
  integer f.expiresMs l "/expires_ms" (some 0)
  digest f.profileDigest "/profile_digest"
  f.checkUnit host l
  check (!(decide (f.value = .null) && decide (f.quality = .usable))) .invalidQuality "/quality"
  f.sourceTime.elim (.ok ()) fun t => timestamp host t "/source_time"
  f.checkClock l
  f.receivedAt.elim (.ok ()) fun t => timestamp host t "/received_at"
  check (decide (f.receiptMs ≤ f.expiresMs)) .invalidExpiry "/expires_ms"
  f.checkDerivation l
  .ok f

end Fact

/-! ## Snapshots (`snapshot.ex`, `external_binding.ex`) -/

/-- A binding basis: the four legacy members, and the input mapping of an external one. -/
structure BindingBasis where
  profileDigest : Text
  sourceId : Text
  sourceEpoch : Text
  sourceTimeBasis : Option Text
  inputMapping : Option Value

namespace BindingBasis

def data (b : BindingBasis) : Value :=
  let legacy : List (Text × Value) := [("profile_digest", .str b.profileDigest),
    ("source_epoch", .str b.sourceEpoch), ("source_id", .str b.sourceId),
    ("source_time_basis", jopt .str b.sourceTimeBasis)]
  match b.inputMapping with
  | none => .obj legacy
  | some m => .obj ([(("format" : Text), .str "wotex.routines.external-binding@1"), ("input_mapping", m)]
      ++ legacy)

/-- `ExternalBinding.validate/5`. -/
def checkExternal (host : Host) (b : BindingBasis) (mapping : Value) (name : Text)
    (p : Program) (l : Limits) (stale : Code) : Checked Unit :=
  match p.context.bindings.get name with
  | none => .raise
  | some binding =>
    let selected := p.context.bases.find? fun basis => basis.id = binding.basis.id
    match host.inputBasis mapping p.context.registry.data l with
    | .error e => .refuse e
    | .ok expected =>
      let rebuilt := expected.get "input_mapping"
      check (b.data.same expected && (rebuilt.get "legacy_basis_ref").same binding.basis.data
        && (rebuilt.get "basis").same (jopt Basis.data selected)) stale

/-- The installed digest of a binding of the program. -/
def installedDigest (p : Program) (name : Text) : Option Text :=
  (p.context.bindings.get name).map fun b => b.basis.semanticDigest

/-- `binding_basis/3` of a snapshot. -/
def checkIn (host : Host) (b : BindingBasis) (name : Text) (p : Program) (l : Limits) :
    Checked Unit :=
  match b.inputMapping with
  | some m => b.checkExternal host m name p l .staleBindingBasis
  | none => do
    digest b.profileDigest "/binding_bases"
    text b.sourceId "/binding_bases"
    text b.sourceEpoch "/binding_bases"
    b.sourceTimeBasis.elim (.ok ()) fun d => digest d "/binding_bases/source_time_basis"
    check (decide (installedDigest p name = some b.profileDigest)) .staleBindingBasis

end BindingBasis

structure Snapshot where
  id : Text
  membershipGeneration : Text
  activePrograms : List Text
  resourceRevisions : Dict Int
  bindingBases : Dict BindingBasis
  facts : Dict (Option Fact)

namespace Snapshot

def data (s : Snapshot) : Value :=
  .obj [("active_programs", jstrings s.activePrograms),
    ("binding_bases", .obj (s.bindingBases.map BindingBasis.data).entries),
    ("facts", .obj (s.facts.map (jopt Fact.data)).entries), ("id", .str s.id),
    ("membership_generation", .str s.membershipGeneration),
    ("resource_revisions", .obj (s.resourceRevisions.map jint).entries)]

/-- The things and resources the program's bindings name. -/
def resourceNames (p : Program) : List Text :=
  (p.context.bindings.values.flatMap fun b => b.thingId :: b.resourceRoles.values).dedup

/-- `resources/3`. -/
def checkResources (s : Snapshot) (p : Program) (l : Limits) : Checked Unit := do
  fields s.resourceRevisions (resourceNames p)
  Outcome.each (fun r => integer r l "/resource_revisions" (some 0)) s.resourceRevisions.values

section

variable (host : Host) (s : Snapshot) (program : Program) (p : Profile) (l : Limits)
include host

/-- The checks of `Snapshot.new/4` behind the program. -/
def checked :
    Checked Snapshot := do
  let l ← admitData host s.data l
  text s.id "/id"
  text s.membershipGeneration "/membership_generation"
  strings s.activePrograms "/active_programs"
  check (decide ((s.activePrograms.length : Int) ≤ p.activeDefinitions)) .definitionBound "/active_programs"
  Outcome.each (digest · "/active_programs") s.activePrograms
  s.checkResources program l
  fields s.bindingBases program.context.bindings.keys
  Outcome.each (fun e => e.2.checkIn host e.1 program l) s.bindingBases.entries
  fields s.facts program.context.bindings.keys
  Outcome.each (fun f => Option.elim f (.ok ()) fun f => do
    let _ ← Fact.new host f l
    .ok ()) s.facts.values
  .ok s

def new :
    Checked Snapshot := do
  let p ← Profile.new p
  let program ← Compiler.toMap host program p l
  s.checked host program p l

end

/-- `snapshot["facts"][name]`, with `nil` for an absent or an empty fact. -/
def fact (s : Snapshot) (name : Text) : Option Fact := (s.facts.get name).join

end Snapshot

end Wotex.Routines
