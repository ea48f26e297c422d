import Wotex.Profiles.Instance

/-!
# Profiles, definitions and registrations (`packages/wotex-profiles/lib/wotex/profiles`: `unit.ex`,
`reader.ex`, `profile.ex`, `definition.ex`, `definitions.ex`, `binding.ex`, `capture.ex`)

Each constructor rechecks its data and keeps it as it is; the semantic identity is the hash of the
canonical text. A native value that is passed in stands for its data: the constructors recompute its
identity, and its retained identities are only checked for their form. The raw identity of a parsed
document is not read by any function here and is left out.
-/

namespace Wotex.Profiles

open Grammar

open Json (Value)

/-- A checked profile or definition: its data and its semantic identity. -/
structure Identified where
  data : Value
  semantic : Text

/-- The reference to a checked profile or definition. -/
def Identified.reference (x : Identified) : Value :=
  putMember "sha256" (.str x.semantic) (takeMembers ["id", "version"] x.data)

section

variable (host : Host) (limits : Limits)

/-! ## Units -/

namespace Unit

/-- `unit.ex:71-77`. -/
def dimension (value : Value) : Result Unit :=
  match value with
  | .arr values =>
    if values.length = 7 then
      check (values.all fun
        | .num (.int i) => decide (-32 ≤ i ∧ i ≤ 32)
        | _ => false) .invalidInput "/unit/dimension"
    else refusal .invalidInput "/unit/dimension"
  | _ => refusal .invalidInput "/unit/dimension"

/-- `unit.ex:18-34`. -/
def new (data : Value) : Result Unit := do
  admitData host limits data
  fields data ["quantity_kind", "dimension", "scale_n", "scale_d",
    "offset_n", "offset_d"] "/unit" []
  id host (data.get "quantity_kind") "/unit/quantity_kind"
  dimension (data.get "dimension")
  Numeric.rational data "scale_n" "scale_d" true "/unit"
  Numeric.rational data "offset_n" "offset_d" false "/unit"

end Unit

/-! ## The reader -/

namespace Reader

/-- The two documents. -/
inductive Kind where
  | profile
  | definition

/-- `@scalars`. -/
def scalars : List Text :=
  ["null", "boolean", "text", "bytes", "sint", "uint",
    "decimal"]

/-- `@fingerprint`. -/
def fingerprintTypes : List Text := ["boolean", "text", "sint", "uint"]

/-- `Wotex.Runtime.operations/0` with the interaction type of each. -/
def operationTypes : List (Text × Text) :=
  [("readproperty", "property"), ("writeproperty", "property"),
    ("observeproperty", "property"), ("unobserveproperty", "property"),
    ("invokeaction", "action"), ("queryaction", "action"),
    ("cancelaction", "action"), ("subscribeevent", "event"),
    ("unsubscribeevent", "event"), ("readallproperties", "thing"),
    ("writeallproperties", "thing"), ("readmultipleproperties", "thing"),
    ("writemultipleproperties", "thing"), ("observeallproperties", "thing"),
    ("unobserveallproperties", "thing"), ("queryallactions", "thing"),
    ("subscribeallevents", "thing"), ("unsubscribeallevents", "thing")]

/-- The domain of an identity. -/
def domain : Kind → Text
  | .profile => "wotex.profile.semantic@1"
  | .definition => "wotex.definition.semantic@1"

/-- `reader.ex:45-56`. -/
def common (data : Value) (required : List Text) (format : Text) : Result Unit := do
  fields data required [] ["annotations"]
  check (data.get "format" == .str format) .unsupportedFormat "/format"
  id host (data.get "id") "/id"
  version (data.get "version") "/version"
  references host limits (data.get "requires") "/requires"
  optionalAnnotations host data

variable (value : Value)

def unit : Result Unit :=
  match value with
  | .null => .ok ()
  | value => Unit.new host limits value

def behaviour (value : Value) : Result Unit :=
  match value with
  | .null => .ok ()
  | value => reference host value "/behaviour"

/-- A path with an index. -/
def indexed (path : Text) (index : Nat) : Text := path ++ Json.decimal index

/-- One predicate of `fingerprint/1`. -/
def predicate (path : Text) : Result Unit := do
  fields value ["field", "operator", "values"] path []
  key (value.get "field") (path ++ "/field")
  check (value.get "operator" == .str "eq" ||
    value.get "operator" == .str "one_of") .invalidInput path
  uniqueScalars (value.get "values") 32 fingerprintTypes (path ++ "/values")
  match value.get "values" with
  | .arr values =>
    check (decide (1 ≤ values.length) && (value.get "operator" != .str "eq" ||
      values.length == 1)) .invalidInput path
  | _ => .raise

/-- `reader.ex:98-116`. -/
def fingerprint (value : Value) : Result Unit :=
  match value with
  | .arr values =>
    if 1 ≤ values.length ∧ values.length ≤ 32 then
      Outcome.each (fun p => predicate p.1 (indexed "/fingerprint/" p.2)) values.zipIdx
    else refusal .invalidInput "/fingerprint"
  | _ => refusal .invalidInput "/fingerprint"

variable (data : Value) (path : Text)

/-- `reader.ex:155-163`. -/
def affordance : Result Unit := do
  fields data ["kind", "name"] path []
  check (data.get "kind" == .str "property" ||
    data.get "kind" == .str "action" ||
    data.get "kind" == .str "event") .invalidInput path
  text (data.get "name") 128 (path ++ "/name")

/-- `reader.ex:165-175`. -/
def operations (values kind : Value) (path : Text) : Result Unit :=
  match values with
  | .arr (v :: vs) =>
    match Schema.texts (v :: vs) with
    | some names =>
      check (decide (names.Pairwise (· < ·)) && names.all fun n =>
        match Dict.find n operationTypes with
        | some type => kind == .str type
        | none => false) .invalidInput path
    | none => refusal .invalidInput path
  | _ => refusal .invalidInput path

/-- The key of a table entry: the canonical bytes of its source. -/
def entryKey (entry : Value) : List Nat :=
  match Runtime.Codec.encode (entry.get "source") with
  | .ok bytes => bytes.map UInt8.toNat
  | _ => []

/-- `reader.ex:177-210`. -/
def conversion : Result Unit :=
  match data with
  | .null => .ok ()
  | .obj _ =>
    if data.get "kind" = .str "affine" then do
      fields data ["kind", "scale_n", "scale_d", "offset_n",
        "offset_d"] path []
      Numeric.rational data "scale_n" "scale_d" true path
      Numeric.rational data "offset_n" "offset_d" false path
    else if data.get "kind" = .str "table" then do
      fields data ["kind", "entries"] path []
      match data.get "entries" with
      | .arr entries => do
        check (decide (1 ≤ entries.length ∧ entries.length ≤ 256)) .inputLimit path
        Outcome.each (fun entry => do
          fields entry ["source", "target"] (path ++ "/entries") []
          scalar (entry.get "source") scalars (path ++ "/entries/source")
          scalar (entry.get "target") scalars (path ++ "/entries/target"))
          entries
        sortedUnique (entries.map entryKey) (path ++ "/entries")
      | _ => refusal .inputLimit path
    else refusal .unsupportedSemantics path
  | _ => refusal .unsupportedSemantics path

/-- `reader.ex:133-153`. -/
def channel : Result Unit := do
  fields data ["id", "affordance", "semantic", "operations",
    "selector", "conversion", "invalid_values", "required"] path []
  key (data.get "id") (path ++ "/id")
  affordance (data.get "affordance") (path ++ "/affordance")
  operations (data.get "operations") ((data.get "affordance").get "kind")
    (path ++ "/operations")
  reference host (data.get "semantic") (path ++ "/semantic")
  check (match data.get "selector" with
    | .obj _ => true
    | _ => false) .invalidInput path
  check (match data.get "required" with
    | .bool _ => true
    | _ => false) .invalidInput path
  uniqueScalars (data.get "invalid_values") 32 scalars (path ++ "/invalid_values")
  conversion (data.get "conversion") (path ++ "/conversion")

/-- The text of a string member, for ordering. -/
def textOf : Text :=
  match value with
  | .str s => s
  | _ => []

/-- `reader.ex:118-131`. -/
def channels (value : Value) : Result Unit :=
  match value with
  | .arr values => do
    check (decide (1 ≤ values.length ∧ values.length ≤ limits.maxChannels)) .inputLimit "/channels"
    Outcome.each (fun p => channel host p.1 (indexed "/channels/" p.2)) values.zipIdx
    sortedUnique (values.map fun v => textOf (v.get "id")) "/channels"
  | _ => refusal .invalidInput "/channels"

/-- `reader.ex:58-84`. -/
def validate (kind : Kind) (data : Value) : Result Unit :=
  match kind with
  | .definition => do
    common host limits data ["format", "id", "version", "value_schema",
      "unit", "behaviour", "requires"] "wotex.semantic@1"
    Schema.check host limits (data.get "value_schema") "/value_schema"
    unit host limits (data.get "unit")
    behaviour host (data.get "behaviour")
  | .profile => do
    common host limits data ["format", "id", "version", "binding",
      "fingerprint", "channels", "requires"] "wotex.profile@1"
    reference host (data.get "binding") "/binding"
    fingerprint (data.get "fingerprint")
    channels host limits (data.get "channels")

/-- `reader.ex:14-21`. -/
def new (kind : Kind) (data : Value) : Result Identified :=
  match data with
  | .obj _ => do
    admitData host limits data
    validate host limits kind data
    let semantic ← identity host limits (domain kind) data
    .ok ⟨data, semantic⟩
  | _ => refusal .invalidInput []

end Reader

variable (data : Value)

abbrev Profile.new : Result Identified := Reader.new host limits .profile data

abbrev Definition.new : Result Identified :=
  Reader.new host limits .definition data

def Definition.reference : Result Value := do
  let checked ← Definition.new host limits data
  .ok checked.reference

/-! ## Registrations -/

namespace Binding

/-- `@fields`. -/
def fieldNames : List Text :=
  ["id", "version", "selector_schema", "operations", "capture_fields",
    "raw_value_contract", "raw_value_schema", "codec_contracts"]

/-- `binding.ex:74-80`. -/
def operations (values : Value) : Result Unit :=
  match values with
  | .arr (v :: vs) =>
    match Schema.texts (v :: vs) with
    | some names =>
      check (decide (names.Pairwise (· < ·)) &&
        names.all fun n => (Dict.find n Reader.operationTypes).isSome) .unsupportedBinding
        "/binding/operations"
    | none => refusal .unsupportedBinding "/binding/operations"
  | _ => refusal .unsupportedBinding "/binding/operations"

/-- `binding.ex:82-88`. -/
def captureFields (values : Value) : Result Unit :=
  match values with
  | .arr values =>
    if values.length ≤ 64 then do
      Outcome.each (fun v => key v "/binding/capture_fields") values
      sortedUnique (values.map Reader.textOf) "/binding/capture_fields"
    else refusal .inputLimit "/binding/capture_fields"
  | _ => refusal .inputLimit "/binding/capture_fields"

variable (data : Value)

/-- `binding.ex:57-72`. -/
def validate : Result Unit := do
  fields data fieldNames "/binding" []
  id host (data.get "id") "/binding/id"
  version (data.get "version") "/binding/version"
  Schema.check host limits (data.get "selector_schema") "/binding/selector_schema"
  check ((data.get "selector_schema").get "type" == .str "object")
    .unsupportedSelector "/binding/selector_schema"
  Schema.check host limits (data.get "raw_value_schema") "/binding/raw_value_schema"
  operations (data.get "operations")
  captureFields (data.get "capture_fields")
  reference host (data.get "raw_value_contract") "/binding/raw_value_contract"
  references host limits (data.get "codec_contracts") "/binding/codec_contracts"

def digest : Result Text := do
  admitData host limits data
  validate host limits data
  identity host limits "wotex.profile.binding@1" data

/-- `binding.ex:29-42`. -/
def new : Result Value := do
  admitData host limits data
  Grammar.fields data ("sha256" :: fieldNames) "/binding" []
  Grammar.digest (data.get "sha256") "/binding/sha256"
  let identity ← digest host limits (deleteMember "sha256" data)
  check (data.get "sha256" == .str identity) .referenceConflict "/binding/sha256"
  .ok data

/-- The reference to a registration. -/
def reference : Value :=
  takeMembers ["id", "version", "sha256"] data

end Binding

/-! ## Captures -/

namespace Capture

/-- `@fields`. -/
def fieldNames : List Text := ["binding", "capture_epoch", "fields"]

/-- `@types`. -/
def types : List Text := ["boolean", "text", "sint", "uint"]

/-- `capture.ex:66-70`. -/
def epoch (value : Value) : Result Unit :=
  match value with
  | .str s =>
    check (s.length == 32 && s.all fun c => c.isDigit || decide ('a' ≤ c ∧ c ≤ 'f')) .invalidInput
      "/capture/capture_epoch"
  | _ => refusal .invalidInput "/capture/capture_epoch"

/-- The values of a map. -/
def mapValues : Value → List Value
  | .obj members => members.map Prod.snd
  | _ => []

/-- The names in a list of strings. -/
def names (value : Value) : List Text :=
  match value with
  | .arr values => values.map Reader.textOf
  | _ => []

variable (data binding : Value)

/-- `capture.ex:52-64`. -/
def validate : Result Unit := do
  fields data fieldNames "/capture" []
  reference host (data.get "binding") "/capture/binding"
  check ((data.get "binding").same (Binding.reference binding)) .staleBasis
    "/capture/binding"
  epoch (data.get "capture_epoch")
  fields (data.get "fields") [] "/capture/fields"
    (names (binding.get "capture_fields"))
  Outcome.each (fun v => scalar v types "/capture/fields")
    (mapValues (data.get "fields"))

/-- `capture.ex:19-26`. -/
def digest : Result Text := do
  admitData host limits data
  let binding ← Binding.new host limits binding
  validate host data binding
  match encoded host limits.options data with
  | some text => .ok (hash host text)
  | none => .raise

/-- `capture.ex:30-44`. -/
def new : Result Value := do
  admitData host limits data
  Grammar.fields data ("digest" :: fieldNames) "/capture" []
  Grammar.digest (data.get "digest") "/capture/digest"
  let identity ← digest host limits (deleteMember "digest" data) binding
  check (data.get "digest" == .str identity) .staleBasis "/capture/digest"
  .ok data

end Capture

end

end Wotex.Profiles
