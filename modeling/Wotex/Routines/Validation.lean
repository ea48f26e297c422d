import Wotex.Term.Dict
import Wotex.Json.Canonical

/-!
# Refusals, limits, profiles and the shared checks

Models `error.ex`, `limits.ex`, `profile.ex` and `validation.ex` of `packages/wotex-routines`.

The values the routines work on are typed here: a closed member set is a structure, a closed choice
of strings an enumeration, so the refusals of `Validation.fields/4` and `Validation.choice/3` on
those shapes cannot arise. A number the code only compares by value stays a `Num`. Everything
else a constructor checks is checked here, in its order and with its refusal.

What lies outside the model is a `Host`: SHA-256, the text `Jason` gives a float, `URI.new/1`,
`DateTime.from_iso8601/1` and the input mappings of `input.ex`. Nothing is assumed about it unless
a theorem says so.
-/

namespace Wotex.Routines

open Wotex.Json (Value)

/-! ## Refusals (`error.ex`) -/

/-- The refusal codes. -/
inductive Code where
  | invalidLimits | invalidProfile | limitOrJsonError | integerOverflow | invalidType
  | missingField | unknownField | invalidString | invalidDigest | outOfDomain | unsupportedValue
  | missingValue | duplicateIdentity | invalidTimestamp | invalidIri
  | incompatibleDimension | inexactConversion | invalidValueContract | invalidValue
  | semanticDigestMismatch | missingUnknownOutcome | unknownRequiredContract | cyclicContract
  | invalidHysteresis | predicateBound | nodeBound | effectBound | parallelBound | waitBound
  | durationBound | emptyOrInvalidArray | unknownParameter | unknownBinding
  | definitionBound | unknownBindingBasis | missingChildRevision | recursiveInvocation
  | incompatibleParameter | pathBound | incompatibleEffect | incompatiblePredicate
  | incompatibleTrigger | invocationBound | expansionBound | staleOrForgedProgram
  | invalidPredicateProgram | invalidTruth
  | invalidPath | invalidReportContract | invalidClockInterval | invalidQuality
  | missingClockBasis | invalidExpiry | invalidDerivation | invalidDerivationBasis
  | staleBindingBasis | staleEdge | incoherentEdge | foreignEdgeFact | conflictingEdgeFact
  | incoherentRunTime | staleRun | invalidRunPaths | incoherentStepTime | incoherentBranch
  | incoherentReceipts | incoherentSpend | incoherentRunStatus | prematureDelay | incoherentJoin
  | incoherentSequence | staleDueWindow | invalidRunWindow | conflictingRetainedOriginal
  | invalidReceiptPath | conflictingReceipt | outOfOrderReceipt | staleReportContract
  | invalidSatisfaction | clockFormatMismatch | foreignEvent | missingOriginal | inactiveProgram
  | foreignOriginal | triggerMismatch | invalidTransition
  | incompleteRunContinuation | incompleteCollection | incoherentCollectionSnapshot
  | activeRunBound | pendingWorkBound | staleOrForgedCollection | batchBound
  | unsupportedDecisionScope | invalidCollectionDecision | staleDecisionInput | staleDecisionTime
  | staleDecisionArbitration | scheduleDigestMismatch | invalidTemporalQuery | changedTimeBasis
  | missingUtcBasis | staleTemporalCursor | invalidOrdinal
  deriving DecidableEq

structure Error where
  code : Code
  path : String
  deriving DecidableEq

/-- What a routine call gives. -/
abbrev Checked (α : Type) := Outcome Error α

def refusal {α : Type} (code : Code) (path : String := "") : Checked α := .refuse ⟨code, path⟩

/-- A test with its refusal. -/
abbrev check (b : Bool) (code : Code) (path : String := "") : Checked Unit :=
  Outcome.require b ⟨code, path⟩

/-! ## Limits (`limits.ex`) -/

/-- The six members of `Wotex.Routines.Limits`, over a type of numbers: a retained program carries
a copy whose numbers are only compared by value. -/
structure LimitsOf (ν : Type) where
  maxBytes : ν
  maxDepth : ν
  maxNodes : ν
  maxStringBytes : ν
  maxCollectionSize : ν
  maxInteger : ν

namespace LimitsOf

variable {ν μ : Type}

/-- The numbers replaced. -/
def map (f : ν → μ) (l : LimitsOf ν) : LimitsOf μ :=
  ⟨f l.maxBytes, f l.maxDepth, f l.maxNodes, f l.maxStringBytes, f l.maxCollectionSize, f l.maxInteger⟩

def data (l : LimitsOf Num) : Value :=
  .obj [("max_bytes", .num l.maxBytes), ("max_collection_size", .num l.maxCollectionSize),
    ("max_depth", .num l.maxDepth), ("max_integer", .num l.maxInteger),
    ("max_nodes", .num l.maxNodes), ("max_string_bytes", .num l.maxStringBytes)]

end LimitsOf

/-- A selection of limits. -/
abbrev Limits := LimitsOf Int

/-- A selection is positive and within its ceiling. -/
def within (value ceiling : Int) : Bool := decide (0 < value) && decide (value ≤ ceiling)

def Limits.new (l : Limits) : Checked Limits := do
  check (within l.maxBytes 67108864 && within l.maxDepth 64 && within l.maxNodes 2000000
    && within l.maxStringBytes 65536 && within l.maxCollectionSize 8192
    && within l.maxInteger 9223372036854775807) .invalidLimits
  .ok l

/-- `validation.ex:49-53`. -/
def Limits.jsonOptions (l : Limits) : Json.Limits where
  maxBytes := l.maxBytes.toNat
  maxDepth := l.maxDepth.toNat
  maxNodes := l.maxNodes.toNat
  maxStringBytes := l.maxStringBytes.toNat
  maxCollectionSize := l.maxCollectionSize.toNat

/-! ## Profiles (`profile.ex`) -/

/-- The twelve members of `Wotex.Routines.Profile`, over a type of numbers. -/
structure ProfileOf (ν : Type) where
  sourceBytes : ν
  sourceDepth : ν
  expandedNodes : ν
  predicateNodes : ν
  invocationDepth : ν
  parallelWidth : ν
  effects : ν
  waits : ν
  activeDefinitions : ν
  activeRuns : ν
  pendingWork : ν
  runMs : ν

namespace ProfileOf

variable {ν μ : Type}

/-- The numbers replaced. -/
def map (f : ν → μ) (p : ProfileOf ν) : ProfileOf μ :=
  ⟨f p.sourceBytes, f p.sourceDepth, f p.expandedNodes, f p.predicateNodes, f p.invocationDepth,
    f p.parallelWidth, f p.effects, f p.waits, f p.activeDefinitions, f p.activeRuns,
    f p.pendingWork, f p.runMs⟩

def data (p : ProfileOf Num) : Value :=
  .obj [("active_definitions", .num p.activeDefinitions), ("active_runs", .num p.activeRuns),
    ("effects", .num p.effects), ("expanded_nodes", .num p.expandedNodes),
    ("invocation_depth", .num p.invocationDepth), ("parallel_width", .num p.parallelWidth),
    ("pending_work", .num p.pendingWork), ("predicate_nodes", .num p.predicateNodes),
    ("run_ms", .num p.runMs), ("source_bytes", .num p.sourceBytes),
    ("source_depth", .num p.sourceDepth), ("waits", .num p.waits)]

end ProfileOf

/-- A selection of profile bounds. -/
abbrev Profile := ProfileOf Int

/-- `profile.ex:51-64`. -/
def Profile.new (p : Profile) : Checked Profile := do
  check (within p.sourceBytes 1048576 && within p.sourceDepth 32 && within p.expandedNodes 4096
    && within p.predicateNodes 4096 && within p.invocationDepth 16 && within p.parallelWidth 64
    && within p.effects 1024 && within p.waits 1024 && within p.activeDefinitions 1024
    && within p.activeRuns 1024 && within p.pendingWork 1024 && within p.runMs 604800000)
    .invalidProfile
  .ok p

/-! ## The host -/

/-- The functions the routines call that are not modelled. -/
structure Host where
  /-- `:crypto.hash(:sha256, bytes)`. -/
  sha256 : List Char → BitVec 256
  /-- The text `Jason` writes for a float. -/
  float : Flt → List Char
  /-- `URI.new/1` gives a URI with a scheme. -/
  iri : Text → Bool
  /-- `DateTime.from_iso8601/1`, in milliseconds. -/
  iso8601 : Text → Option Int
  /-- `Input.binding_basis/3` (`input.ex`) of an input mapping and a registry. -/
  inputBasis : Value → Value → Limits → Except Error Value

/-- `Base.encode16(bytes, case: :lower)` over the 64 digits of a digest. -/
def hexDigits : Nat → Nat → List Char
  | 0, _ => []
  | k + 1, n => hexDigits k (n / 16) ++ [hexLower (n % 16)]

/-- `"sha256:" <> hex`. -/
def digestText (b : BitVec 256) : Text :=
  's' :: 'h' :: 'a' :: '2' :: '5' :: '6' :: ':' :: hexDigits 64 b.toNat

/-! ## Checks (`validation.ex`) -/

section Checks

variable (host : Host)

variable (data : Value) (l : Limits)

/-- `Validation.bounded/2`; the size of the canonical text is computed without the text
(`Json.bytes_encode`). -/
def bounded : Checked Unit := do
  check (Json.validate l.jsonOptions data) .limitOrJsonError
  check (data.magnitudes l.maxInteger.toNat) .integerOverflow
  check (decide (Json.encodedSize host.float data ≤ l.maxBytes.toNat)) .limitOrJsonError

/-- `Validation.admit/3` on typed data. -/
def admitData : Checked Limits := do
  let l ← Limits.new l
  bounded host data l
  .ok l

def hash : Checked Text :=
  if Json.validate l.jsonOptions data then
    .ok (digestText (host.sha256 (Json.encode host.float data)))
  else refusal .limitOrJsonError

end Checks

/-- `Validation.fields/4` on a map with string keys and no optional members. -/
def fields {α : Type} (data : Dict α) (required : List Text) (path : String := "") :
    Checked Unit := do
  check (required.all fun k => decide (k ∈ data.keys)) .missingField path
  check (data.keys.all fun k => decide (k ∈ required)) .unknownField path

def text (value : Text) (path : String) : Checked Unit :=
  check (!value.isEmpty) .invalidString path

/-- A character of a lower case hexadecimal text. -/
def isHex (c : Char) : Bool :=
  (decide (48 ≤ c.toNat) && decide (c.toNat ≤ 57))
    || (decide (97 ≤ c.toNat) && decide (c.toNat ≤ 102))

/-- `~r/^sha256:[0-9a-f]{64}$/`; `$` also matches in front of a final line break. -/
def isDigest (value : Text) : Bool :=
  let hex := (value.drop 7).take 64
  value.take 7 == ['s', 'h', 'a', '2', '5', '6', ':'] && hex.length == 64 && hex.all isHex
    && (value.drop 71 == [] || value.drop 71 == ['\n'])

def digest (value : Text) (path : String) : Checked Unit := check (isDigest value) .invalidDigest path

/-- The magnitude and the minimum of `Validation.integer/4`. -/
def integer (value : Int) (l : Limits) (path : String) (minimum : Option Int := none) :
    Checked Unit := do
  check (decide (value.natAbs ≤ l.maxInteger.toNat)) .integerOverflow path
  check (minimum.all fun m => decide (m ≤ value)) .outOfDomain path

def strings (values : List Text) (path : String) (nonempty : Bool := false) : Checked Unit := do
  check (!(nonempty && values.isEmpty)) .missingValue path
  check (decide values.Nodup) .duplicateIdentity path
  Outcome.each (text · path) values

def iri (host : Host) (value : Text) (path : String) : Checked Unit :=
  check (!value.isEmpty && host.iri value) .invalidIri path

/-- `Validation.timestamp/2`, without the text it gives back. -/
def timestamp (host : Host) (value : Text) (path : String) : Checked Unit :=
  check (host.iso8601 value).isSome .invalidTimestamp path

/-! ## Digests -/

theorem hexDigits_inj : ∀ {k m n : Nat}, hexDigits k m = hexDigits k n → m % 16 ^ k = n % 16 ^ k
  | 0, m, n, _ => by simp [Nat.mod_one]
  | k + 1, m, n, h => by
    obtain ⟨h1, h2⟩ := List.append_inj' h rfl
    have hd : m % 16 = n % 16 := hexLower_inj _ (Nat.mod_lt _ (by decide)) _
      (Nat.mod_lt _ (by decide)) (List.cons.inj h2).1
    have hq := hexDigits_inj h1
    have split : ∀ x, x % 16 ^ (k + 1) = x % 16 + 16 * (x / 16 % 16 ^ k) := fun x => by
      rw [Nat.pow_succ, Nat.mul_comm, Nat.mod_mul]
    rw [split, split, hd, hq]

theorem digestText_injective : Function.Injective digestText := by
  intro a b h
  simp only [digestText, List.cons.injEq, true_and] at h
  have h := hexDigits_inj h
  have hlt : ∀ x : BitVec 256, x.toNat % 16 ^ 64 = x.toNat := fun x =>
    Nat.mod_eq_of_lt (lt_of_lt_of_le x.isLt (by decide))
  rw [hlt, hlt] at h
  exact BitVec.eq_of_toNat_eq h

/-- SHA-256 does not collide on the canonical texts of two terms. -/
def Host.Separates (host : Host) (a b : Value) : Prop :=
  host.sha256 (Json.encode host.float a) = host.sha256 (Json.encode host.float b) →
    Json.encode host.float a = Json.encode host.float b

theorem hash_eq_ok {host : Host} {v : Value} {l : Limits} {d : Text} : hash host v l = .ok d ↔
      Json.validate l.jsonOptions v = true ∧ d = digestText (host.sha256 (Json.encode host.float v)) := by
  unfold hash
  split
  · rename_i hv
    exact ⟨fun h => ⟨hv, (Outcome.ok.inj h).symm⟩, fun h => congrArg Outcome.ok h.2.symm⟩
  · rename_i hv
    exact ⟨fun h => by simp [refusal] at h, fun h => absurd h.1 hv⟩

/-- Terms with one digest are one term, unless SHA-256 collides on them. -/
theorem eq_of_hash {host : Host} {v w : Value} {l l' : Limits} {d : Text}
    (hf : Json.FloatText host.float) (hs : host.Separates v w) (hv : hash host v l = .ok d)
    (hw : hash host w l' = .ok d) : v = w := by
  have h := (hash_eq_ok.mp hv).2.symm.trans (hash_eq_ok.mp hw).2
  exact Json.encode_inj hf (hs (digestText_injective h))

/-! ## What the checks establish -/

theorem Limits.new_eq_ok {l l' : Limits} :
    l.new = .ok l' ↔ l' = l ∧ (within l.maxBytes 67108864 && within l.maxDepth 64
      && within l.maxNodes 2000000 && within l.maxStringBytes 65536
      && within l.maxCollectionSize 8192 && within l.maxInteger 9223372036854775807) = true := by
  unfold Limits.new
  simp only [bind_eq_ok_unit, require_eq_ok, Outcome.ok.injEq]
  exact ⟨fun h => ⟨h.2.symm, h.1⟩, fun h => ⟨h.2, h.1.symm⟩⟩

theorem integer_eq_ok {value : Int} {l : Limits} {path : String} {minimum : Option Int} :
    integer value l path minimum = .ok () ↔
      value.natAbs ≤ l.maxInteger.toNat ∧ ∀ m ∈ minimum, m ≤ value := by
  unfold integer
  cases minimum <;> simp

end Wotex.Routines
