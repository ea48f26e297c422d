import Wotex.Routines.Validation
import Mathlib.Data.Rat.Cast.Order
import Mathlib.Tactic.LinearCombination
import Mathlib.Tactic.Positivity

/-!
# Installed contracts: units, value contracts, the registry and bases

Models `unit.ex`, `value_contract.ex`, `registry.ex` and `basis.ex`.

A `Registry` is the offline closure of contract identities; a `Basis` is the semantics of one
interaction affordance, identified by the hash of its semantic projection and admitted only when
every contract it names is in the registry. A `data` function, here and in the modules that follow,
writes the members of an object in key order.

Result: `conversion_groupoid`, on the exact conversion between units. The hash is the host's.
-/

namespace Wotex.Routines

open Wotex.Json (Value)

/-- A JSON integer. -/
abbrev jint (i : Int) : Value := .num (.int i)

/-- A list of strings. -/
def jstrings (l : List Text) : Value := .arr (l.map .str)

/-- An optional value, `nil` when absent. -/
def jopt {α : Type} (f : α → Value) : Option α → Value
  | none => .null
  | some a => f a

/-! ## Units (`unit.ex`) -/

/-- The closed dimensions. -/
inductive Dimension where
  | temperature | fraction | illuminance | power | energy | time | electricPotential
  deriving DecidableEq

/-- The name of a dimension. -/
def Dimension.text : Dimension → Text
  | temperature => "temperature"
  | fraction => "fraction"
  | illuminance => "illuminance"
  | power => "power"
  | energy => "energy"
  | time => "time"
  | electricPotential => "electric_potential"

/-- `Wotex.Routines.Unit`: `value * scaleN / scaleD + offsetN / offsetD` over `min..max`. -/
structure MeasureUnit where
  dimension : Dimension
  name : Text
  scaleN : Int
  scaleD : Int
  offsetN : Int
  offsetD : Int
  min : Int
  max : Int

namespace MeasureUnit

def data (u : MeasureUnit) : Value :=
  .obj [("dimension", .str u.dimension.text), ("max", jint u.max), ("min", jint u.min),
    ("name", .str u.name), ("offset_d", jint u.offsetD), ("offset_n", jint u.offsetN),
    ("scale_d", jint u.scaleD), ("scale_n", jint u.scaleN)]

/-- `unit.ex:13-30`. -/
def new (host : Host) (u : MeasureUnit) (l : Limits) : Checked MeasureUnit := do
  let l ← admitData host u.data l
  text u.name "/name"
  integer u.scaleN l "/scale_n" (some 1)
  integer u.scaleD l "/scale_d" (some 1)
  integer u.offsetD l "/offset_d" (some 1)
  integer u.offsetN l "/offset_n"
  integer u.min l "/min"
  integer u.max l "/max"
  check (decide (u.min ≤ u.max)) .outOfDomain "/min"
  .ok u

def inDomain (value : Int) (u : MeasureUnit) : Checked Unit :=
  check (decide (u.min ≤ value) && decide (value ≤ u.max)) .outOfDomain "/value"

/-- `exact_result/4`; the denominator is positive, so `rem` and `div` are those of `Int.tmod`. -/
def exactResult (n d : Int) (u : MeasureUnit) (l : Limits) : Checked Int :=
  if n.tmod d = 0 then do
    let result := n.tdiv d
    integer result l "/value"
    inDomain result u
    .ok result
  else refusal .inexactConversion "/value"

/-- `Unit.convert/4` of an arbitrary term. -/
def convert (host : Host) (value : Value) (source target : MeasureUnit) (l : Limits) :
    Checked Int := do
  let l ← Limits.new l
  let a ← source.new host l
  let b ← target.new host l
  match value with
  | .num (.int v) =>
    integer v l "/value"
    check (decide (a.dimension = b.dimension)) .incompatibleDimension "/dimension"
    inDomain v a
    let n := v * a.scaleN * a.offsetD + a.offsetN * a.scaleD
    let d := a.scaleD * a.offsetD
    let numerator := (n * b.offsetD - b.offsetN * d) * b.scaleD
    let denominator := d * b.offsetD * b.scaleN
    exactResult numerator denominator b l
  | _ => refusal .invalidType "/value"

/-! ### What conversion means -/

/-- The quantity that an integer of the unit stands for. -/
def amount (u : MeasureUnit) (v : Int) : ℚ := u.scaleN / u.scaleD * v + u.offsetN / u.offsetD

/-- An integer within the limit and the domain of the unit. -/
def Holds (u : MeasureUnit) (l : Limits) (v : Int) : Prop :=
  v.natAbs ≤ l.maxInteger.toNat ∧ u.min ≤ v ∧ v ≤ u.max

/-- Two accepted units of one dimension. -/
def Compatible (host : Host) (l : Limits) (a b : MeasureUnit) : Prop :=
  a.new host l = .ok a ∧ b.new host l = .ok b ∧ a.dimension = b.dimension

variable {host : Host} {l : Limits} {a b u : MeasureUnit} {v w : Int}

theorem new_eq_ok (h : u.new host l = .ok a) :
    a = u ∧ l.new = .ok l ∧ 0 < u.scaleN ∧ 0 < u.scaleD ∧ 0 < u.offsetD := by
  simp only [new, admitData, bind_eq_ok, exists_unit, integer_eq_ok] at h
  obtain ⟨_, ⟨l', hl, _, ⟨⟩⟩, _, hn, hd, ho, _, _, _, _, ⟨⟩⟩ := h
  obtain rfl := (Limits.new_eq_ok.mp hl).1
  exact ⟨rfl, hl, hn.2 1 rfl, hd.2 1 rfl, ho.2 1 rfl⟩

theorem exactResult_eq_ok {n d : Int} (hd : 0 < d) :
    exactResult n d u l = .ok w ↔ n = w * d ∧ u.Holds l w := by
  constructor
  · unfold exactResult
    split
    · rename_i hrem
      simp only [bind_eq_ok, exists_unit, integer_eq_ok, inDomain, require_eq_ok, Bool.and_eq_true,
        decide_eq_true_eq]
      rintro ⟨⟨hmax, -⟩, hmin, ⟨⟩⟩
      exact ⟨(Int.tdiv_mul_cancel (Int.dvd_of_tmod_eq_zero hrem)).symm, hmax, hmin⟩
    · rintro ⟨⟩
  · rintro ⟨rfl, hmax, hmin⟩
    rw [exactResult, Int.mul_tdiv_cancel _ hd.ne']
    simp [integer_eq_ok, inDomain, hmax, hmin]

theorem amount_eq_iff (ha : 0 < a.scaleD ∧ 0 < a.offsetD) (hb : 0 < b.scaleD ∧ 0 < b.offsetD) :
    ((v * a.scaleN * a.offsetD + a.offsetN * a.scaleD) * b.offsetD
        - b.offsetN * (a.scaleD * a.offsetD)) * b.scaleD
      = w * (a.scaleD * a.offsetD * b.offsetD * b.scaleN) ↔ b.amount w = a.amount v := by
  have h1 : (a.scaleD : ℚ) ≠ 0 := Int.cast_ne_zero.mpr ha.1.ne'
  have h2 : (a.offsetD : ℚ) ≠ 0 := Int.cast_ne_zero.mpr ha.2.ne'
  have h3 : (b.scaleD : ℚ) ≠ 0 := Int.cast_ne_zero.mpr hb.1.ne'
  have h4 : (b.offsetD : ℚ) ≠ 0 := Int.cast_ne_zero.mpr hb.2.ne'
  rw [amount, amount, div_mul_eq_mul_div, div_mul_eq_mul_div, div_add_div _ _ h3 h4,
    div_add_div _ _ h1 h2, div_eq_div_iff (mul_ne_zero h3 h4) (mul_ne_zero h1 h2)]
  norm_cast
  constructor <;> intro h <;> linear_combination -h

theorem amount_injective (hu : 0 < u.scaleN ∧ 0 < u.scaleD) : Function.Injective u.amount := by
  intro v w h
  have : (u.scaleN : ℚ) / u.scaleD ≠ 0 :=
    div_ne_zero (Int.cast_ne_zero.mpr hu.1.ne') (Int.cast_ne_zero.mpr hu.2.ne')
  exact_mod_cast mul_left_cancel₀ this (add_right_cancel h)

theorem convert_eq_ok : a.convert host (jint v) b l = .ok w ↔
    Compatible host l a b ∧ a.Holds l v ∧ b.Holds l w ∧ b.amount w = a.amount v := by
  simp only [convert, bind_eq_ok, exists_unit, integer_eq_ok, require_eq_ok, decide_eq_true_eq,
    inDomain, Bool.and_eq_true]
  constructor
  · rintro ⟨l', hl, a', ha, b', hb, hv, hdim, hmin, h⟩
    obtain rfl := (Limits.new_eq_ok.mp hl).1
    obtain ⟨rfl, -, -, had, hao⟩ := new_eq_ok ha
    obtain ⟨rfl, -, hbn, hbd, hbo⟩ := new_eq_ok hb
    obtain ⟨heq, hw⟩ := (exactResult_eq_ok (by positivity)).mp h
    exact ⟨⟨ha, hb, hdim⟩, ⟨hv.1, hmin⟩, hw, (amount_eq_iff ⟨had, hao⟩ ⟨hbd, hbo⟩).mp heq⟩
  · rintro ⟨⟨ha, hb, hdim⟩, hv, hw, heq⟩
    obtain ⟨-, hl, -, had, hao⟩ := new_eq_ok ha
    obtain ⟨-, -, hbn, hbd, hbo⟩ := new_eq_ok hb
    exact ⟨l, hl, a, ha, b, hb, ⟨hv.1, by simp⟩, hdim, hv.2, (exactResult_eq_ok (by positivity)).mpr
      ⟨(amount_eq_iff ⟨had, hao⟩ ⟨hbd, hbo⟩).mpr heq, hw⟩⟩

theorem exactResult_ne_raise {n d : Int} : exactResult n d u l ≠ .raise := by
  unfold exactResult
  split <;> simp [integer, inDomain, refusal, Outcome.bind_eq_raise]

@[simp] theorem new_ne_raise : a.new host l ≠ .raise := by
  simp [new, admitData, Limits.new, bounded, integer, text, Outcome.bind_eq_raise]

@[simp] theorem convert_ne_raise {value : Value} : a.convert host value b l ≠ .raise := by
  unfold convert
  split <;> simp [Limits.new, integer, inDomain, refusal, exactResult_ne_raise, Outcome.bind_eq_raise]

/-- **Exact conversion is a partial groupoid.** -/
theorem conversion_groupoid (host : Host) (l : Limits) (a b : MeasureUnit) (v : Int) :
    (∀ w, a.convert host (jint v) b l = .ok w ↔
      Compatible host l a b ∧ a.Holds l v ∧ b.Holds l w ∧ b.amount w = a.amount v) ∧
    ((a.convert host (jint v) b l).Refuses ↔
      ¬∃ w, Compatible host l a b ∧ a.Holds l v ∧ b.Holds l w ∧ b.amount w = a.amount v) ∧
    ∀ w, a.convert host (jint v) b l = .ok w →
      b.convert host (jint w) a l = .ok v ∧ (∀ w', b.amount w' = a.amount v → w' = w) ∧
      ∀ c x, b.convert host (jint w) c l = .ok x → a.convert host (jint v) c l = .ok x := by
  refine ⟨fun w => convert_eq_ok, ?_, fun w h => ?_⟩
  · simp only [← convert_eq_ok]
    have := @convert_ne_raise host l a b (jint v)
    cases hc : a.convert host (jint v) b l <;> simp_all [Outcome.Refuses]
  · obtain ⟨⟨ha, hb, hdim⟩, hv, hw, heq⟩ := convert_eq_ok.mp h
    refine ⟨convert_eq_ok.mpr ⟨⟨hb, ha, hdim.symm⟩, hw, hv, heq.symm⟩, fun w' h' => ?_, ?_⟩
    · obtain ⟨-, -, hn, hd, -⟩ := new_eq_ok hb
      exact amount_injective ⟨hn, hd⟩ (h'.trans heq.symm)
    · intro c x hc
      obtain ⟨⟨-, hc, hdim'⟩, -, hx, heq'⟩ := convert_eq_ok.mp hc
      exact convert_eq_ok.mpr ⟨⟨ha, hc, hdim.trans hdim'⟩, hv, hx, heq'.trans heq⟩

end MeasureUnit

/-! ## Value contracts (`value_contract.ex`) -/

/-- The three value contracts. -/
inductive ValueContract where
  | boolean
  | integer (unit : MeasureUnit)
  | enum (values : List Text)

namespace ValueContract

/-- `"type"`. -/
def typeText : ValueContract → Text
  | boolean => "boolean"
  | integer _ => "integer"
  | enum _ => "enum"

def data : ValueContract → Value
  | boolean => .obj [("enum", .arr []), ("type", .str "boolean"), ("unit", .null)]
  | integer u => .obj [("enum", .arr []), ("type", .str "integer"), ("unit", u.data)]
  | enum values => .obj [("enum", jstrings values), ("type", .str "enum"), ("unit", .null)]

section

variable (host : Host) (c : ValueContract)
include host

/-- `basis.ex:112`, `value_contract.ex:8-28`. -/
def validate (l : Limits) : Checked Unit :=
  match c with
  | boolean => .ok ()
  | integer u => do
    let _ ← u.new host l
    .ok ()
  | enum values => strings values "/value/enum" true

/-- `value_contract.ex:39-52`. -/
def checkValue (value : Value) (l : Limits) : Checked Unit :=
  match c with
  | boolean =>
    match value with
    | .bool _ => .ok ()
    | _ => refusal .invalidValue "/value"
  | integer u => do
    let _ ← u.convert host value u l
    .ok ()
  | enum values => check (decide (value ∈ values.map .str)) .unsupportedValue "/value"

def accepts (value : Value) (l : Limits) : Checked Unit := do
  let _ ← admitData host c.data l
  c.validate host l
  c.checkValue host value l

end

variable {host : Host} {l : Limits} {c : ValueContract}

@[simp] theorem accepts_ne_raise {value : Value} : c.accepts host value l ≠ .raise := by
  cases c <;> simp [accepts, admitData, Limits.new, bounded, validate, checkValue, text, strings,
    Outcome.each_ne_raise, Outcome.bind_eq_raise]
  split <;> simp [refusal]

theorem not_accepts_null : c.accepts host .null l ≠ .ok () := by
  cases c <;> simp [accepts, checkValue, MeasureUnit.convert, refusal]

end ValueContract

/-! ## The registry (`registry.ex`) -/

/-- A closed reference to a contract. -/
structure Ref where
  id : Text
  version : Text
  semanticDigest : Text
  deriving DecidableEq

namespace Ref

def data (r : Ref) : Value :=
  .obj [("id", .str r.id), ("semantic_digest", .str r.semanticDigest), ("version", .str r.version)]

def identity (r : Ref) : Checked Unit := do
  text r.id "/id"
  text r.version "/version"
  digest r.semanticDigest "/semantic_digest"

end Ref

/-- A registry record: a contract and the contracts it imports. -/
structure Contract where
  ref : Ref
  imports : List Ref

namespace Contract

def data (c : Contract) : Value :=
  .obj [("id", .str c.ref.id), ("requires", .arr (c.imports.map Ref.data)),
    ("semantic_digest", .str c.ref.semanticDigest), ("version", .str c.ref.version)]

def record (c : Contract) : Checked Unit := do
  c.ref.identity
  Outcome.each Ref.identity c.imports
  check (decide (c.imports.map Ref.id).Nodup) .duplicateIdentity "/requires"

end Contract

/-- `visit_all/4`: a depth-first walk with the identities done and those on the way; `none` at an
identity that is on its own way. A way never repeats an identity, so a budget above the number of
identities is never used up. -/
def visitAll (next : Text → List Text) : Nat → List Text → List Text → List Text → Option (List Text)
  | 0, _, _, _ => none
  | budget + 1, ids, done, active =>
    ids.foldlM (fun done id =>
      if id ∈ active then none
      else if id ∈ done then some done
      else (visitAll next budget (next id) done (id :: active)).map (id :: ·)) done

/-- The offline closure of contracts. -/
abbrev Registry := List Contract

namespace Registry

/-- `table[id]`. -/
def find (r : Registry) (id : Text) : Option Contract := List.find? (fun c => c.ref.id = id) r

/-- The JSON form. -/
def data (r : Registry) : Value := .arr (r.map Contract.data)

def requireRef (table : Registry) (ref : Ref) : Checked Unit :=
  check (decide ((table.find ref.id).map Contract.ref = some ref)) .unknownRequiredContract "/requires"

def acyclic (table : Registry) : Checked Unit :=
  let next id := ((table.find id).map fun c => c.imports.map Ref.id).getD []
  check (visitAll next (table.length + 1) (sortTexts (table.map (·.ref.id))) [] []).isSome
    .cyclicContract "/requires"

/-- `registry.ex:12-21`. -/
def new (host : Host) (r : Registry) (l : Limits) : Checked Registry := do
  let _ ← admitData host r.data l
  Outcome.each Contract.record r
  check (decide (r.map (·.ref.id)).Nodup) .duplicateIdentity "/id"
  Outcome.each (fun c => Outcome.each r.requireRef c.imports) r
  r.acyclic
  .ok (r.insertionSort fun a b => a.ref.id ≤ b.ref.id)

def requireAll (host : Host) (r : Registry) (refs : List Ref) (l : Limits) : Checked Unit := do
  let r ← r.new host l
  let _ ← admitData host (.arr (refs.map Ref.data)) l
  Outcome.each Ref.identity refs
  Outcome.each r.requireRef refs

end Registry

/-! ## Bases (`basis.ex`) -/

/-- The kind of an interaction affordance. -/
inductive AffordanceType where
  | property | action | event
  deriving DecidableEq

/-- The supported operations. -/
inductive Operation where
  | readproperty | writeproperty | observeproperty | invokeaction | subscribeevent
  deriving DecidableEq

/-- How far an effect has to be reported: the receipt stages in order. -/
inductive Stage where
  | localQueue | protocolResponse | correlatedReport | reportedMatch
  deriving DecidableEq

/-- The accepted classes of a fact's source. -/
inductive SourceClass where
  | deviceReport | derivedReport | protocolResponse
  deriving DecidableEq

namespace AffordanceType

/-- The name of an affordance type. -/
def text : AffordanceType → Text
  | property => "property"
  | action => "action"
  | event => "event"

/-- `@operations`. -/
def operations : AffordanceType → List Operation
  | property => [.readproperty, .writeproperty, .observeproperty]
  | action => [.invokeaction]
  | event => [.subscribeevent]

end AffordanceType

/-- The name of an operation. -/
def Operation.text : Operation → Text
  | readproperty => "readproperty"
  | writeproperty => "writeproperty"
  | observeproperty => "observeproperty"
  | invokeaction => "invokeaction"
  | subscribeevent => "subscribeevent"

namespace Stage

/-- The name of a stage. -/
def text : Stage → Text
  | localQueue => "local_queue"
  | protocolResponse => "protocol_response"
  | correlatedReport => "correlated_report"
  | reportedMatch => "reported_match"

/-- The position in `@stages`. -/
def rank : Stage → Nat
  | localQueue => 0
  | protocolResponse => 1
  | correlatedReport => 2
  | reportedMatch => 3

/-- `@stages`. -/
def all : List Stage := [localQueue, protocolResponse, correlatedReport, reportedMatch]

end Stage

/-- The name of a source class. -/
def SourceClass.text : SourceClass → Text
  | deviceReport => "device_report"
  | derivedReport => "derived_report"
  | protocolResponse => "protocol_response"

/-- `"affordance"`. -/
structure Affordance where
  type : AffordanceType
  name : Text
  operation : Operation

/-- `"evidence"`; `continuous` is `"continuity" => "continuous"`, otherwise `"snapshot"`. -/
structure Evidence where
  sources : List SourceClass
  freshnessMs : Int
  requireSourceTime : Bool
  continuous : Bool
  completion : Stage
  reportContract : Ref

/-- `"repeat"` of an effect. -/
inductive Repeat where
  | never | afterKnownFailure | afterReportedSafe

/-- `"effects"`; `stoppable` is `"stop" => "separate_effect"`, otherwise `"unsupported"`. -/
structure Effects where
  resourceRoles : List Text
  again : Repeat
  stoppable : Bool
  partialPossible : Bool
  unknownPossible : Bool

/-- `"timing"`; `"uncertainty"` is always `"block"`. -/
structure Timing where
  deadlineMs : Int
  durationMs : Int
  dwellMs : Int
  cooldownMs : Int

/-- `"analysis"`. -/
inductive AnalysisBasis where
  | unsupported
  | supported (profile : Ref) (properties : List Text)

/-- `"annotations"`, its members optional. -/
structure Annotations where
  title : Option Text
  description : Option Text
  tags : Option (List Text)

structure Basis where
  id : Text
  version : Text
  byteDigest : Text
  semanticDigest : Text
  implementationDigest : Text
  compilerDigest : Text
  affordance : Affordance
  value : ValueContract
  output : Option ValueContract
  securityContract : Ref
  lifecycleContract : Ref
  requiredContracts : List Ref
  evidence : Evidence
  effects : Effects
  timing : Timing
  analysis : AnalysisBasis
  annotations : Annotations

def Affordance.data (a : Affordance) : Value :=
  .obj [("name", .str a.name), ("operation", .str a.operation.text), ("type", .str a.type.text)]

def Evidence.data (e : Evidence) : Value :=
  .obj [("completion", .str e.completion.text),
    ("continuity", .str (if e.continuous then "continuous" else "snapshot")),
    ("freshness_ms", jint e.freshnessMs), ("report_contract", e.reportContract.data),
    ("require_source_time", .bool e.requireSourceTime),
    ("sources", .arr (e.sources.map fun s => .str s.text))]

/-- The name of a repeat policy. -/
def Repeat.text : Repeat → Text
  | never => "never"
  | afterKnownFailure => "after_known_failure"
  | afterReportedSafe => "after_reported_safe"

def Effects.data (e : Effects) : Value :=
  .obj [("partial_possible", .bool e.partialPossible), ("repeat", .str e.again.text),
    ("resource_roles", jstrings e.resourceRoles),
    ("stop", .str (if e.stoppable then "separate_effect" else "unsupported")),
    ("supersession", .str "block_until_known"), ("unknown_possible", .bool e.unknownPossible)]

def Timing.data (t : Timing) : Value :=
  .obj [("cooldown_ms", jint t.cooldownMs), ("deadline_ms", jint t.deadlineMs),
    ("duration_ms", jint t.durationMs), ("dwell_ms", jint t.dwellMs),
    ("uncertainty", .str "block")]

def AnalysisBasis.data : AnalysisBasis → Value
  | unsupported =>
    .obj [("classification", .str "unsupported"), ("profile", .null), ("properties", .arr [])]
  | supported profile properties =>
    .obj [("classification", .str "supported"), ("profile", profile.data),
      ("properties", jstrings properties)]

/-- The members that are present, in key order. -/
def Annotations.data (a : Annotations) : Value :=
  .obj ((a.description.map fun s => (("description" : Text), Value.str s)).toList
    ++ (a.tags.map fun ts => (("tags" : Text), jstrings ts)).toList
    ++ (a.title.map fun s => (("title" : Text), Value.str s)).toList)

namespace Basis

/-- The reference to the basis: `Map.take(data, ~w(id version semantic_digest))`. -/
def ref (b : Basis) : Ref := ⟨b.id, b.version, b.semanticDigest⟩

/-- The members outside the four digests, in key order. -/
def projection (b : Basis) : List (Text × Value) :=
  [("affordance", b.affordance.data), ("analysis", b.analysis.data),
    ("annotations", b.annotations.data), ("effects", b.effects.data),
    ("evidence", b.evidence.data), ("format", .str "wotex.routines.basis@1"), ("id", .str b.id),
    ("lifecycle_contract", b.lifecycleContract.data), ("output", jopt ValueContract.data b.output),
    ("required_contracts", .arr (b.requiredContracts.map Ref.data)),
    ("security_contract", b.securityContract.data), ("timing", b.timing.data),
    ("value", b.value.data), ("version", .str b.version)]

def data (b : Basis) : Value :=
  .obj [("affordance", b.affordance.data), ("analysis", b.analysis.data),
    ("annotations", b.annotations.data), ("byte_digest", .str b.byteDigest),
    ("compiler_digest", .str b.compilerDigest), ("effects", b.effects.data),
    ("evidence", b.evidence.data), ("format", .str "wotex.routines.basis@1"), ("id", .str b.id),
    ("implementation_digest", .str b.implementationDigest),
    ("lifecycle_contract", b.lifecycleContract.data), ("output", jopt ValueContract.data b.output),
    ("required_contracts", .arr (b.requiredContracts.map Ref.data)),
    ("security_contract", b.securityContract.data), ("semantic_digest", .str b.semanticDigest),
    ("timing", b.timing.data), ("value", b.value.data), ("version", .str b.version)]

/-- `Basis.semantic_digest/2`. -/
def semanticHash (host : Host) (b : Basis) (l : Limits) : Checked Text := do
  let l ← admitData host b.data l
  hash host (.obj b.projection) l

/-- `affordance/1`. -/
def checkAffordance (a : Affordance) : Checked Unit := do
  text a.name "/affordance/name"
  check (decide (a.operation ∈ a.type.operations)) .unsupportedValue "/affordance/operation"

/-- `evidence/2`. -/
def checkEvidence (e : Evidence) (l : Limits) : Checked Unit := do
  check (!e.sources.isEmpty) .missingValue "/evidence/sources"
  check (decide e.sources.Nodup) .duplicateIdentity "/evidence/sources"
  integer e.freshnessMs l "/evidence/freshness_ms" (some 0)

/-- `effects/1`. -/
def checkEffects (e : Effects) : Checked Unit := do
  strings e.resourceRoles "/effects/resource_roles"
  check (e.resourceRoles.isEmpty || e.unknownPossible) .missingUnknownOutcome "/effects/unknown_possible"

/-- `timing/2`. -/
def checkTiming (t : Timing) (l : Limits) : Checked Unit := do
  integer t.deadlineMs l "/timing/deadline_ms" (some 1)
  integer t.durationMs l "/timing/duration_ms" (some 0)
  integer t.dwellMs l "/timing/dwell_ms" (some 0)
  integer t.cooldownMs l "/timing/cooldown_ms" (some 0)

/-- `analysis/1`. -/
def checkAnalysis : AnalysisBasis → Checked Unit
  | .unsupported => .ok ()
  | .supported _ properties => strings properties "/analysis/properties" true

/-- `annotations/1`. -/
def checkAnnotations (a : Annotations) : Checked Unit := do
  Outcome.each (text · "/annotations") (a.title.toList ++ a.description.toList)
  strings (a.tags.getD []) "/annotations/tags"

section

variable (host : Host) (b : Basis) (registry : Registry) (l : Limits)
include host

/-- `basis.ex:217-241`. -/
def contracts : Checked Unit :=
  let model :=
    match b.analysis with
    | .supported profile _ => [profile]
    | .unsupported => []
  registry.requireAll host ([b.ref, b.securityContract, b.lifecycleContract,
    b.evidence.reportContract] ++ b.requiredContracts ++ model) l

/-- `basis.ex:45-65`. -/
def new : Checked Basis := do
  let l ← admitData host b.data l
  text b.id "/id"
  text b.version "/version"
  digest b.byteDigest "/byte_digest"
  digest b.semanticDigest "/semantic_digest"
  digest b.implementationDigest "/implementation_digest"
  digest b.compilerDigest "/compiler_digest"
  checkAffordance b.affordance
  b.value.validate host l
  b.output.elim (.ok ()) fun c => c.validate host l
  checkEvidence b.evidence l
  checkEffects b.effects
  checkTiming b.timing l
  checkAnalysis b.analysis
  checkAnnotations b.annotations
  let expected ← b.semanticHash host l
  check (decide (b.semanticDigest = expected)) .semanticDigestMismatch "/semantic_digest"
  b.contracts host registry l
  .ok b

end

/-- The JSON form of a map from roles to resources. -/
def rolesData (roles : Dict Text) : Value := .obj (roles.map Value.str).entries

/-- `basis.ex:82-96`. -/
def domains (host : Host) (b : Basis) (roles : Dict Text) (registry : Registry) (l : Limits) :
    Checked (List Text) := do
  let b ← b.new host registry l
  let _ ← admitData host (rolesData roles) l
  fields roles b.effects.resourceRoles
  Outcome.each (text · "/bindings") roles.values
  .ok (sortTexts roles.values.dedup)

end Basis

end Wotex.Routines
