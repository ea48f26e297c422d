import Wotex.Routines.Inputs

/-!
# Observations and the predicate machine

Models `observation_view.ex`, `truth.ex` and `predicate_machine.ex`.

`ObservationView.values` reads each binding of the program: the value of its fact where the fact
is qualified and fresh at the given time, and unknown otherwise. `PredicateMachine.run` runs
predicate code over those readings on a stack of truths.
-/

namespace Wotex.Routines

open Wotex.Json (Value)

/-- A reading: `{:known, value}`, or `none` for `:unknown`. -/
abbrev Reading := Option (Scalar Int)

/-- A reading for every binding of the program. -/
abbrev Values := Dict Reading

/-! ## Qualification (`observation_view.ex`) -/

namespace ObservationView

variable (host : Host)

variable (f : Fact)

/-- `observation_view.ex:30-44`. -/
def identity (binding : Binding) (basis : Basis) (expected : BindingBasis) : Bool :=
  decide (f.quality = .usable) && decide (f.replay = .fresh) && decide (f.continuity ≠ .lost)
    && (!basis.evidence.continuous || decide (f.continuity = .continuous))
    && decide (f.thingId = binding.thingId)
    && decide (f.affordanceType = basis.affordance.type)
    && decide (f.affordanceName = basis.affordance.name)
    && decide (f.profileDigest = expected.profileDigest)
    && decide (f.sourceId = expected.sourceId)
    && decide (f.sourceEpoch = expected.sourceEpoch)
    && decide (f.sourceClass ∈ basis.evidence.sources)

/-- `observation_view.ex:46-52`. -/
def externalSource (expected : BindingBasis) : Bool :=
  match expected.inputMapping with
  | none => true
  | some m =>
    (Value.str f.sourceClass.text).same ((m.get "observation").get "source_class")
      && decide (f.sourceTimeBasis = expected.sourceTimeBasis)
      && (Value.str f.receiptEpoch).same ((m.get "receipt_clock").get "target_epoch")

/-- `source_age?/4`. A fact admitted as trusted has a source time that parses and an
uncertainty (`Fact.trusted_source`), so neither is missing here. -/
def sourceAge (expected : BindingBasis) (t : Time) (freshness : Int) : Bool :=
  decide (f.sourceTimeTrust = .trusted) && f.sourceTimeBasis.isSome
    && decide (f.sourceTimeBasis = expected.sourceTimeBasis)
    && match t.utc, f.sourceTime.bind host.iso8601, f.sourceUncertaintyMs with
      | some (low, high), some center, some uncertainty =>
        decide (center + uncertainty ≤ low) && decide (high - (center - uncertainty) ≤ freshness)
      | _, _, _ => false

/-- `freshness?/4`. -/
def fresh (basis : Basis) (expected : BindingBasis) (t : Time) : Bool :=
  let freshness := basis.evidence.freshnessMs
  decide (f.receiptEpoch = t.epoch) && decide (f.receiptMs ≤ t.elapsedMs)
    && decide (t.elapsedMs - f.receiptMs ≤ freshness) && decide (t.elapsedMs < f.expiresMs)
    && (!basis.evidence.requireSourceTime || sourceAge host f expected t freshness)

/-- `observation_view.ex:80-94`. -/
def value (contract : ValueContract) (l : Limits) : Reading :=
  match contract with
  | .boolean =>
    match f.value with
    | .bool b => some (.bool b)
    | _ => none
  | .enum choices =>
    match f.value with
    | .str s => if s ∈ choices then some (.str s) else none
    | _ => none
  | .integer target =>
    match f.unit with
    | none => none
    | some unit => (unit.convert host f.value target l).toOption.map .num

/-- `observation_view.ex:19-28`. -/
def qualify (f : Option Fact) (binding : Binding) (basis : Option Basis)
    (expected : Option BindingBasis) (t : Time) (l : Limits) : Reading :=
  match f, basis, expected with
  | some f, some basis, some expected =>
    if identity f binding basis expected && externalSource f expected && fresh host f basis expected t then
      value host f basis.value l
    else none
  | _, _, _ => none

/-- `bases[id]`. -/
def findBasis (p : Program) (id : Text) : Option Basis :=
  p.context.bases.find? fun b => b.id = id

def values (p : Program) (s : Snapshot) (t : Time) (l : Limits) : Values :=
  p.context.bindings.mapWithKey fun name binding =>
    qualify host (s.fact name) binding (findBasis p binding.basis.id) (s.bindingBases.get name) t l

end ObservationView

/-! ## Three-valued logic (`truth.ex`) -/

namespace Truth

def negate : Truth → Truth
  | yes => no
  | no => yes
  | unknown => unknown

def result (op : Connective) (args : List Truth) : Truth :=
  match op with
  | .all => if no ∈ args then no else if unknown ∈ args then unknown else yes
  | .any => if yes ∈ args then yes else if unknown ∈ args then unknown else no

/-- `truth.ex:17-25`. -/
def combine (host : Host) (op : Connective) (args : List Truth) (p : Profile) (l : Limits) :
    Checked Truth := do
  let p ← Profile.new p
  let _ ← admitData host (.arr (args.map Truth.data)) l
  check (!args.isEmpty && decide ((args.length : Int) ≤ p.predicateNodes)) .predicateBound "/args"
  .ok (result op args)

end Truth

/-! ## The predicate machine (`predicate_machine.ex`) -/

namespace PredicateMachine

/-- `compare/3`: `eq` is `===`; the orders need two integers. -/
def compare (op : Comparison) (reading : Reading) (expected : Scalar Num) : Truth :=
  match op, reading, expected with
  | .eq, some v, e => if v.map Num.int = e then .yes else .no
  | .gt, some (.num a), .num (.int b) => if b < a then .yes else .no
  | .lt, some (.num a), .num (.int b) => if a < b then .yes else .no
  | _, _, _ => .unknown

variable (host : Host)

/-- `instruction/5` on a stack; `none` halts the machine. -/
def instruction (values : Values) (p : Profile) (l : Limits) (i : Instr Num) (stack : List Truth) :
    Option (List Truth) :=
  match i, stack with
  | .literal t, stack => some (t :: stack)
  | .compare op binding expected, stack =>
    some (compare op (values.get binding).join expected :: stack)
  | .not, t :: stack => some (t.negate :: stack)
  | .combine op (.int count), stack =>
    if 0 < count ∧ count ≤ stack.length then
      (Truth.combine host op (stack.take count.toNat) p l).toOption.map (· :: stack.drop count.toNat)
    else none
  | _, _ => none

def run (code : List (Instr Num)) (values : Values) (p : Profile) (l : Limits) : Checked Truth := do
  check (!code.isEmpty && decide ((code.length : Int) ≤ p.predicateNodes)) .predicateBound
  match code.foldlM (fun stack i => instruction host values p l i stack) [] with
  | some [t] => .ok t
  | _ => refusal .invalidPredicateProgram

end PredicateMachine

end Wotex.Routines
