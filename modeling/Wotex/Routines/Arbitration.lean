import Wotex.Routines.Collection
import Wotex.Term.Grouping

/-!
# Arbitration (`arbitration.ex`)

Arbitration filters the proposals of a collection by their dispositions, groups equivalent ones,
marks the groups that compete for a resource domain and selects the others up to the batch limit.

Groups are keyed by the equivalence members of a proposal, so `5` and `5.0` are different inputs
there; `incompatible?/2` compares the same members with `!=`, where they are not.
-/

namespace Wotex.Routines

open Wotex.Json (Value)

/-- `"constraint"` of a disposition. -/
inductive Constraint where
  | allowed | refused | unknown

/-- `"override"` of a disposition. -/
inductive Override where
  | none | selected | suppressed
  deriving DecidableEq

/-- A disposition. -/
structure Disposition where
  constraint : Constraint
  override : Override

/-- What arbitration decides about one proposal. -/
inductive Verdict where
  | constraintRefused | constraintUnknown | overrideSuppressed | conflict | batchDeferred | selected
  | coalesced
  deriving DecidableEq

/-- One record of `"decisions"`. -/
structure Decided where
  stepOriginal : Text
  outcome : Option Verdict

/-- What `Arbitration.decide/5` gives. -/
structure Arbitrated where
  collectionDigest : Text
  dispositions : Dict Disposition
  batchLimit : Int
  selected : List (List Proposal)
  decisions : List Decided

/-- The name of a constraint. -/
def Constraint.text : Constraint → Text
  | allowed => "allowed"
  | refused => "refused"
  | unknown => "unknown"

/-- The name of an override. -/
def Override.text : Override → Text
  | none => "none"
  | selected => "selected"
  | suppressed => "suppressed"

/-- The name of an outcome. -/
def Verdict.text : Verdict → Text
  | constraintRefused => "constraint-refused"
  | constraintUnknown => "constraint-unknown"
  | overrideSuppressed => "override-suppressed"
  | conflict => "conflict"
  | batchDeferred => "batch-deferred"
  | selected => "selected"
  | coalesced => "coalesced"

def Disposition.data (d : Disposition) : Value :=
  .obj [("constraint", .str d.constraint.text), ("override", .str d.override.text)]

/-- The dispositions as a term. -/
def dispositionsData (d : Dict Disposition) : Value := .obj (d.map Disposition.data).entries

def Decided.data (d : Decided) : Value :=
  .obj [("outcome", jopt (fun v : Verdict => .str v.text) d.outcome),
    ("step_original", .str d.stepOriginal)]

def Arbitrated.data (a : Arbitrated) : Value :=
  .obj [("batch_limit", jint a.batchLimit), ("collection_digest", .str a.collectionDigest),
    ("decisions", .arr (a.decisions.map Decided.data)),
    ("dispositions", dispositionsData a.dispositions),
    ("selected", .arr (a.selected.map fun g => .arr (g.map Proposal.data)))]

/-- `Map.take(proposal, @equivalence)`. -/
structure Signature where
  installedBasis : Ref
  operation : Operation
  input : Scalar Num
  thingId : Text
  resourceRoles : Dict Text
  resourceDomains : List Text
  completion : Stage
  evidenceContract : Ref
  deriving DecidableEq

/-- The signature of a proposal. -/
def Proposal.signature (p : Proposal) : Signature :=
  ⟨p.installedBasis, p.operation, p.input, p.thingId, p.resourceRoles, p.resourceDomains,
    p.completion, p.evidenceContract⟩

/-- `==` on signatures: the input is the only member with numbers. -/
def Signature.same (a b : Signature) : Bool :=
  decide ({ a with input := b.input } = b) && a.input.data.same b.input.data

/-- The outcomes by step. -/
abbrev Outcomes := Text → Option Verdict

/-- `Map.put(outcomes, id, outcome)`. -/
def Outcomes.put (o : Outcomes) (id : Text) (v : Verdict) : Outcomes :=
  fun x => if x = id then some v else o x

namespace Arbitration

variable (d : Dict Disposition)

/-- `dispositions/2`. -/
def checkDispositions (proposals : List Proposal) : Checked Unit :=
  fields d (proposals.map Proposal.stepOriginal)

/-- `batch/3`. -/
def checkBatch (limit : Int) (p : Profile) (l : Limits) : Checked Unit := do
  integer limit l "/batch_limit" (some 1)
  check (decide (limit ≤ p.pendingWork)) .batchBound

/-- `constraints/2`: the allowed proposals in order, and the outcomes of the others. A proposal
without a disposition raises; `dispositions/2` has refused that. -/
def constraints (d : Dict Disposition) : List Proposal → Outcomes → List Proposal × Outcomes
  | [], o => ([], o)
  | p :: ps, o =>
    match (d.get p.stepOriginal).map Disposition.constraint with
    | some .refused => constraints d ps (o.put p.stepOriginal .constraintRefused)
    | some .unknown => constraints d ps (o.put p.stepOriginal .constraintUnknown)
    | _ =>
      let (eligible, o) := constraints d ps o
      (p :: eligible, o)

def incompatible (left right : Proposal) : Bool :=
  !left.signature.same right.signature
    && left.resourceDomains.any fun x => decide (x ∈ right.resourceDomains)

/-- The override of a proposal. -/
def overrideOf (p : Proposal) : Option Override :=
  (d.get p.stepOriginal).map Disposition.override

def suppressed (selected : List Proposal) (p : Proposal) : Bool :=
  match overrideOf d p with
  | some .suppressed => true
  | some .selected => false
  | _ => selected.any (incompatible p)

/-- The walk of `overrides/3`. -/
def suppress (d : Dict Disposition) (selected : List Proposal) :
    List Proposal → Outcomes → List Proposal × Outcomes
  | [], o => ([], o)
  | p :: ps, o =>
    if suppressed d selected p then suppress d selected ps (o.put p.stepOriginal .overrideSuppressed)
    else
      let (eligible, o) := suppress d selected ps o
      (p :: eligible, o)

def overrides (ps : List Proposal) (o : Outcomes) : List Proposal × Outcomes :=
  suppress d (ps.filter fun p => decide (overrideOf d p = some .selected)) ps o

/-- `groups/1`: the groups in the order of their first members. -/
def groups (ps : List Proposal) : List (List Proposal) := Grouping.groups Proposal.signature ps

/-- Two groups compete, by their first members. -/
def compete (a b : List Proposal) : Bool :=
  match a, b with
  | x :: _, y :: _ => incompatible x y
  | _, _ => false

/-- `conflicts/1`: the positions of the groups that compete with a later or an earlier one. -/
def conflicts : List (List Proposal) → Nat → List Nat
  | [], _ => []
  | g :: gs, index =>
    ((gs.zipIdx (index + 1)).flatMap fun (other, j) => if compete g other then [index, j] else [])
      ++ conflicts gs (index + 1)

def mark (ps : List Proposal) (o : Outcomes) (v : Verdict) : Outcomes :=
  ps.foldl (fun o p => o.put p.stepOriginal v) o

/-- The outcomes of a selected group. -/
def markSelected (g : List Proposal) (o : Outcomes) : Outcomes :=
  match g with
  | [] => o
  | first :: rest => mark rest (o.put first.stepOriginal .selected) .coalesced

/-- `select/4` from a position and a count on. -/
def select (conflicts : List Nat) (limit : Int) :
    List (List Proposal) → Nat → Nat → Outcomes → List (List Proposal) × Outcomes
  | [], _, _, o => ([], o)
  | g :: gs, index, count, o =>
    if index ∈ conflicts then select conflicts limit gs (index + 1) count (mark g o .conflict)
    else if limit ≤ count then
      select conflicts limit gs (index + 1) count (mark g o .batchDeferred)
    else
      let (selected, o) := select conflicts limit gs (index + 1) (count + 1) (markSelected g o)
      (g :: selected, o)

/-- The decision behind the checks of `decide/5`. -/
def resolve (digest : Text) (proposals : List Proposal) (d : Dict Disposition) (limit : Int) :
    Arbitrated :=
  let (eligible, o) := constraints d proposals fun _ => none
  let (eligible, o) := overrides d eligible o
  let gs := groups eligible
  let (selected, o) := select (conflicts gs 0) limit gs 0 0 o
  ⟨digest, d, limit, selected, proposals.map fun p => ⟨p.stepOriginal, o p.stepOriginal⟩⟩

/-- `arbitration.ex:50-80`. -/
def decide (host : Host) (c : SuppliedCollection) (d : Dict Disposition) (limit : Int) (p : Profile)
    (l : Limits) : Checked Arbitrated := do
  let p ← Profile.new p
  let l ← Limits.new l
  let c ← Collection.toMap host c p l
  let _ ← admitData host (dispositionsData d) l
  checkDispositions d c.proposals
  checkBatch limit p l
  let result := resolve c.digest c.proposals d limit
  bounded host result.data l
  .ok result

end Arbitration

end Wotex.Routines
