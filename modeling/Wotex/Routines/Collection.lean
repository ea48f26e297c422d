import Wotex.Routines.Kernel

/-!
# Collections (`collection.ex`)

A collection evaluates a complete membership of programs at one time: every entry advances its own
retained state with the kernel, and the effects that are pending afterwards are the proposals.

`Collection.toMap` regenerates a supplied collection and compares it with `==`. Its callers read the
supplied term, not the regenerated one.
-/

namespace Wotex.Routines

open Wotex.Json (Value)

/-- `"membership"`. -/
structure Membership where
  generation : Text
  programs : List Text

/-- One entry of a collection input. -/
structure Entry where
  program : Program
  event : Option Event
  snapshot : Snapshot
  prior : Prior

/-- The input of a collection; `pending` says that its format is `collection-input@2`. -/
structure CollectionInput where
  pending : Bool
  membership : Membership
  entries : List Entry
  time : Time

/-- One record of `"transitions"`. -/
structure TransitionRecord where
  programDigest : Text
  result : Option Transition

/-- One record of `"proposal_states"`. -/
structure ProposalState where
  stepOriginal : Text
  status : StepStatus

/-- `Wotex.Routines.Collection`; the states belong to the second format. -/
structure Collection where
  input : CollectionInput
  profile : ProfileOf Num
  limits : LimitsOf Num
  transitions : List TransitionRecord
  proposals : List Proposal
  states : Option (List ProposalState)
  digest : Text

/-- A collection as a caller supplies it: nothing behind `Collection.toMap` reads its transitions, so
they are any term. -/
structure SuppliedCollection where
  input : CollectionInput
  profile : ProfileOf Num
  limits : LimitsOf Num
  transitions : Value
  proposals : List Proposal
  states : Option (List ProposalState)
  digest : Text

def Membership.data (m : Membership) : Value :=
  .obj [("generation", .str m.generation), ("programs", jstrings m.programs)]

def Entry.data (e : Entry) : Value :=
  .obj [("event", jopt Event.data e.event), ("prior", e.prior.data), ("program", e.program.data),
    ("snapshot", e.snapshot.data)]

def CollectionInput.data (i : CollectionInput) : Value :=
  .obj ([(("entries" : Text), .arr (i.entries.map Entry.data))]
    ++ (if i.pending then [(("format" : Text), .str "wotex.routines.collection-input@2")] else [])
    ++ [(("membership" : Text), i.membership.data), ("time", i.time.data)])

def TransitionRecord.data (r : TransitionRecord) : Value :=
  .obj [("program_digest", .str r.programDigest), ("result", jopt Transition.data r.result)]

def ProposalState.data (s : ProposalState) : Value :=
  .obj [("status", .str s.status.text), ("step_original", .str s.stepOriginal)]

namespace SuppliedCollection

variable (c : SuppliedCollection)

/-- The members in key order, behind the digest. -/
def members : List (Text × Value) :=
  [(("format" : Text), .str (if c.states.isSome then "wotex.routines.collection@2"
      else "wotex.routines.collection@1")),
    ("input", c.input.data), ("json_limits", c.limits.data), ("profile", c.profile.data)]
    ++ (match c.states with
      | none => []
      | some states => [(("proposal_states" : Text), .arr (states.map ProposalState.data))])
    ++ [(("proposals" : Text), .arr (c.proposals.map Proposal.data)), ("transitions", c.transitions)]

/-- The term without its digest. -/
def body : Value := .obj c.members

def data : Value := .obj (("collection_digest", .str c.digest) :: c.members)

end SuppliedCollection

namespace Collection

variable (c : Collection)

/-- The collection as its holder supplies it. -/
def supplied : SuppliedCollection :=
  ⟨c.input, c.profile, c.limits, .arr (c.transitions.map TransitionRecord.data), c.proposals,
    c.states, c.digest⟩

/-- The term without its digest. -/
def body : Value := c.supplied.body

/-- The term. -/
def data : Value := c.supplied.data

/-! ## The input -/

/-- `membership/2`. -/
def checkMembership (m : Membership) (p : Profile) : Checked Unit := do
  text m.generation "/membership/generation"
  strings m.programs "/membership/programs"
  Outcome.each (Routines.digest · "/membership/programs") m.programs
  check (decide ((m.programs.length : Int) ≤ p.activeDefinitions)) .definitionBound

/-- `entry/3`. -/
def checkEntry (host : Host) (e : Entry) (p : Profile) (l : Limits) : Checked Unit := do
  let program ← Compiler.toMap host e.program p l
  let _ ← e.snapshot.new host program p l
  let _ ← e.prior.new host program p l
  .ok ()

/-- `entries/3`: the checked entries in reverse order. -/
def checkEntries (host : Host) (es : List Entry) (p : Profile) (l : Limits) :
    Checked (List Entry) := do
  check (decide ((es.length : Int) ≤ p.activeDefinitions)) .definitionBound
  Outcome.each (fun e => checkEntry host e p l) es
  .ok es.reverse

variable (es : List Entry)

/-- `complete/2`. -/
def checkComplete (m : Membership) : Checked Unit :=
  let digests := es.map fun e => e.program.irDigest
  check (decide (sortTexts digests = sortTexts m.programs) && decide digests.Nodup
    && es.all fun e => decide (e.snapshot.membershipGeneration = m.generation)
      && decide (e.snapshot.activePrograms = m.programs)) .incompleteCollection

/-- `consistent/1`: no key has two values that differ by the given comparison from one pair to the
next. -/
def consistent {κ : Type} [DecidableEq κ] (same : Value → Value → Bool) :
    List (κ × Value) → List (κ × Value) → Bool
  | [], _ => true
  | (k, v) :: rest, seen =>
    (match seen.find? fun e => e.1 = k with
      | some e => same e.2 v
      | none => true) && consistent same rest ((k, v) :: seen)

/-- What an observation is of: a thing and an affordance. -/
abbrev ObservationKey := Text × Option (AffordanceType × Text × Operation)

/-- The observation of one binding. -/
def observation (e : Entry) (name : Text) (binding : Binding) (basis : Option Basis) :
    ObservationKey × Value :=
  ((binding.thingId, basis.map fun b => (b.affordance.type, b.affordance.name, b.affordance.operation)),
    .arr [binding.basis.data, jopt BindingBasis.data (e.snapshot.bindingBases.get name),
      jopt Fact.data (e.snapshot.fact name)])

/-- The pairs of `shared_observations/1`. -/
def observations (e : Entry) : List (ObservationKey × Value) :=
  e.program.context.bindings.entries.map fun (name, binding) =>
    observation e name binding (e.program.context.bases.find? fun b => b.ref = binding.basis)

/-- The pairs of `shared_resources/1`. -/
def resources (e : Entry) : List (Text × Value) := (e.snapshot.resourceRevisions.map jint).entries

/-- `coherent/1`. -/
def checkCoherent : Checked Unit :=
  if es.isEmpty then .ok ()
  else do
    check (decide ((es.map fun e => e.snapshot.id).dedup.length = 1)) .incoherentCollectionSnapshot
    check (consistent Value.same (es.flatMap resources) []) .incoherentCollectionSnapshot
    check (consistent Value.same (es.flatMap observations) []) .incoherentCollectionSnapshot

def live (r : Option Run) : Bool := r.any fun r => !r.status.stopped

/-- `busy != original`. -/
def differs (a b : Option Run) : Bool := !(jopt Run.data a).same (jopt Run.data b)

/-- The continuation of a retained run is missing. -/
def incomplete (prior : Prior) (event : Option Event) : Bool :=
  (live prior.original && event.all fun e => prior.original.any fun r =>
      decide (e.original ≠ r.original))
    || (live prior.busy && (differs prior.busy prior.original || event.isNone))

/-- `continuation/2`. -/
def checkContinuation (host : Host) (e : Entry) (l : Limits) : Checked Unit := do
  e.event.elim (.ok ()) fun event => do
    let _ ← event.new host l
    .ok ()
  check (!incomplete e.prior e.event) .incompleteRunContinuation

/-- `continuations/3`. -/
def checkContinuations (host : Host) (es : List Entry) (i : CollectionInput) (l : Limits) :
    Checked Unit :=
  if i.pending then Outcome.each (fun e => checkContinuation host e l) es else .ok ()

/-! ## Evaluation -/

/-- `Enum.sort_by(entries, ir_digest)`. -/
def sorted : List Entry :=
  es.insertionSort fun a b => a.program.irDigest ≤ b.program.irDigest

/-- `collection.ex:288-300`. -/
def transition (host : Host) (e : Entry) (t : Time) (p : Profile) (l : Limits) :
    Checked (Option Transition) :=
  match e.event with
  | none => .ok none
  | some event => do
    let r ← Kernel.advance host e.program event e.snapshot t e.prior p l
    .ok (some r)

/-- `transitions/4` over the sorted entries. -/
def transitionsOf (host : Host) (t : Time) (p : Profile) (l : Limits) :
    List Entry → Checked (List TransitionRecord)
  | [] => .ok []
  | e :: es => do
    let r ← transition host e t p l
    let rs ← transitionsOf host t p l es
    .ok (⟨e.program.irDigest, r⟩ :: rs)

/-- The last run for each program and original. -/
def latest : List Run → List Run
  | [] => []
  | r :: rs =>
    if rs.any fun x => decide (x.programDigest = r.programDigest) && decide (x.original = r.original)
    then latest rs else r :: latest rs

variable (es : List Entry) (rs : List TransitionRecord)

/-- The runs `active_runs/3` counts. -/
def runs : List Run :=
  (es.flatMap fun e => [e.prior.original, e.prior.busy]).reduceOption
    ++ (rs.map fun r => r.result.bind (·.run)).reduceOption

/-- `active_runs/3`. -/
def checkActiveRuns (p : Profile) : Checked Unit :=
  check (decide (((latest (runs es rs)).countP fun r => live (some r) : Int) ≤ p.activeRuns))
    .activeRunBound

/-- The proposal and the state of one pending path. -/
def pendingAt (p : Program) (r : Run) (path : List Num) : Checked (Proposal × ProposalState) :=
  match ExecutionTree.effectAt p path, recordAt r.steps path with
  | some e, some s => do
    let x ← Proposal.fromStep p r.original e s.original
    .ok (x, ⟨s.original, s.status⟩)
  | _, _ => .raise

/-- The proposals and states of the pending paths. -/
def pendingAll (p : Program) (r : Run) : List (List Num) → Checked (List Proposal × List ProposalState)
  | [] => .ok ([], [])
  | path :: paths => do
    let (x, s) ← pendingAt p r path
    let (xs, ss) ← pendingAll p r paths
    .ok (x :: xs, s :: ss)

/-- `collection.ex:343-363`. -/
def pending (host : Host) (e : Entry) (result : Option Transition) (t : Time) (p : Profile)
    (l : Limits) : Checked (List Proposal × List ProposalState) :=
  match result.bind (·.run) with
  | none => .ok ([], [])
  | some r => do
    let values := ObservationView.values host e.program e.snapshot t l
    let paths ← Pending.paths host e.program r values p l
    pendingAll e.program r paths

/-- The pending effects of all entries. -/
def pendingOf (host : Host) (t : Time) (p : Profile) (l : Limits) :
    List (Entry × TransitionRecord) → Checked (List Proposal × List ProposalState)
  | [] => .ok ([], [])
  | (e, r) :: rest => do
    let (xs, ss) ← pending host e r.result t p l
    let (ys, ts) ← pendingOf host t p l rest
    .ok (xs ++ ys, ss ++ ts)

/-- `emitted_proposals/2`. -/
def emitted (rs : List TransitionRecord) : List Proposal :=
  rs.flatMap fun r => (r.result.map (·.proposals)).getD []

section

variable (host : Host)
include host

/-- `proposals/6` over the sorted entries. -/
def proposalsOf (es : List Entry) (rs : List TransitionRecord) (i : CollectionInput)
    (p : Profile) (l : Limits) : Checked (List Proposal × Option (List ProposalState)) :=
  if i.pending then do
    let (xs, ss) ← pendingOf host i.time p l (es.zip rs)
    check (decide ((xs.length : Int) ≤ p.pendingWork)) .pendingWorkBound
    .ok (xs, some ss)
  else do
    let xs := emitted rs
    check (decide ((xs.length : Int) ≤ p.pendingWork)) .pendingWorkBound
    .ok (xs, none)

/-- The bounds and the digest of a collection. -/
def close (c : Collection) (l : Limits) : Checked Collection := do
  bounded host c.body l
  let digest ← hash host c.body l
  let c := { c with digest := digest }
  bounded host c.data l
  .ok c

variable (i : CollectionInput) (p : Profile) (l : Limits)

/-- The checks of `evaluate/3` on its input; they give the checked entries. -/
def inputs : Checked (List Entry) := do
  checkMembership i.membership p
  let _ ← i.time.new host l
  let es ← checkEntries host i.entries p l
  checkComplete es i.membership
  checkCoherent es
  checkContinuations host es i l
  .ok es

/-- The evaluation behind the checks. -/
def results (i : CollectionInput) (es : List Entry) (p : Profile) (l : Limits) :
    Checked Collection := do
  let transitions ← transitionsOf host i.time p l (sorted es)
  checkActiveRuns es transitions p
  let (proposals, states) ← proposalsOf host (sorted es) transitions i p l
  .ok ⟨i, p.map Num.int, l.map Num.int, transitions, proposals, states, []⟩

/-- `collection.ex:79-114`. -/
def evaluate : Checked Collection := do
  let p ← Profile.new p
  let l ← admitData host i.data l
  let es ← inputs host i p l
  let c ← results host i es p l
  c.close host l

/-- `collection.ex:118-124`. -/
def toMap (c : SuppliedCollection) (p : Profile) (l : Limits) :
    Checked SuppliedCollection := do
  let _ ← admitData host c.data l
  let rebuilt ← evaluate host c.input p l
  check (c.data.same rebuilt.data) .staleOrForgedCollection
  .ok c

end

end Collection

end Wotex.Routines
