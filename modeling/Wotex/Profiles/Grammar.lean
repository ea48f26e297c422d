import Wotex.Runtime.Codec

/-!
# Grammar of external profiles (`packages/wotex-profiles/lib/wotex/profiles`: `error.ex`, `limits.ex`,
`numeric.ex`, `grammar.ex`)

Profile data is native JSON (`Json.Value`); a refusal is a code and a path. `Host` holds what the package
takes from outside the repository: `:crypto`, the float texts of `Jason`, `URI.new/1`, and the pinned
TD schema that `Wotex.DataSchema.new/2` runs besides the JSON limits.

Maps are enumerated in key order. The runtime enumerates a map of more than 32 keys in another order;
which of several refusals is reported may then differ, and nothing else.
-/

namespace Wotex.Profiles

open Json (Value decimal)

/-! ## Refusals -/

/-- The codes of `Error`. -/
inductive Code where
  | invalidInput
  | inputLimit
  | numericLimit
  | referenceConflict
  | missingReference
  | cyclicReference
  | unsupportedBinding
  | unsupportedSelector
  | unsupportedSemantics
  | unsupportedSchema
  | unsupportedFormat
  | outOfDomain
  | codecRequired
  | staleBasis
  | fingerprintMismatch
  deriving DecidableEq

structure Error where
  code : Code
  path : Text
  deriving DecidableEq

/-- What a function of the package returns. -/
abbrev Result (α : Type) := Outcome Error α

abbrev refusal {α : Type} (code : Code) (path : Text) : Result α := .refuse ⟨code, path⟩

/-- `true <- condition`, with the refusal of the `else` clause. -/
abbrev check (condition : Bool) (code : Code) (path : Text) : Result Unit :=
  Outcome.require condition ⟨code, path⟩

/-! ## What comes from outside -/

/-- A decimal token: its signed digits and its exponent (`Decimal.new/1`). -/
def decimalToken (t : Text) : Option (Int × Int) :=
  let negative := t.head? == some '-'
  let t := if negative then t.tail else t
  let whole := t.takeWhile Char.isDigit
  let behind := t.dropWhile Char.isDigit
  let fraction := if behind.head? == some '.' then behind.tail.takeWhile Char.isDigit else []
  let behind := if behind.head? == some '.' then behind.tail.dropWhile Char.isDigit else behind
  let exponent := match behind with
    | [] => some (0, [])
    | c :: rest => if c = 'e' ∨ c = 'E' then Runtime.integerParse rest else none
  match whole, exponent with
  | _ :: _, some (e, []) =>
    let c : Int := Nat.ofDigitChars 10 (whole ++ fraction) 0
    some (if negative then -c else c, e - fraction.length)
  | _, _ => none

/-- What the package takes from outside the repository. -/
structure Host where
  /-- The text `Jason` writes for a float. -/
  float : Flt → Text
  /-- It is a decimal token. -/
  floatToken : ∀ f, (decimalToken (float f)).isSome = true
  /-- `:crypto.hash(:sha256, bytes)`. -/
  sha256 : Bytes → Bytes
  /-- `URI.new/1` finds a scheme. -/
  scheme : Text → Bool
  /-- The map passes the pinned TD schema's `dataSchema` fragment. -/
  dataSchema : Value → Bool
  /-- The canonical text of the installed compiler contract, `priv/contracts/compiler.json`. -/
  manifest : Text

/-! ## Limits -/

/-- `Limits`. -/
structure Limits where
  maxBytes : Nat
  maxDepth : Nat
  maxNodes : Nat
  maxChannels : Nat
  maxDefinitions : Nat
  maxBindings : Nat
  maxDependencies : Nat
  maxNumericDigits : Nat

namespace Limits

/-- `@ceilings`, in key order. -/
def ceilings : List (Text × Nat) :=
  [("max_bindings", 64), ("max_bytes", 1048576), ("max_channels", 1024),
    ("max_definitions", 1024), ("max_dependencies", 1024), ("max_depth", 16),
    ("max_nodes", 100000), ("max_numeric_digits", 128)]

/-- A selected limit. -/
def selection (data : Value) (key : Text) (ceiling : Nat) : Option Nat :=
  match data.get key with
  | .num (.int i) => if 1 ≤ i ∧ i ≤ ceiling then some i.toNat else none
  | _ => none

/-- `new/1`: exactly the eight selections, each within its ceiling. -/
def new (data : Value) : Result Limits :=
  match data with
  | .obj members =>
    if members.map Prod.fst = ceilings.map Prod.fst then
      match ceilings.map fun c => selection data c.1 c.2 with
      | [some bindings, some bytes, some channels, some definitions, some dependencies, some depth,
          some nodes, some digits] =>
        .ok ⟨bytes, depth, nodes, channels, definitions, bindings, dependencies, digits⟩
      | _ => refusal .invalidInput "/limits"
    else refusal .invalidInput "/limits"
  | _ => refusal .invalidInput "/limits"

def data (l : Limits) : Value :=
  .obj [("max_bindings", .num (.int l.maxBindings)), ("max_bytes", .num (.int l.maxBytes)),
    ("max_channels", .num (.int l.maxChannels)),
    ("max_definitions", .num (.int l.maxDefinitions)),
    ("max_dependencies", .num (.int l.maxDependencies)),
    ("max_depth", .num (.int l.maxDepth)), ("max_nodes", .num (.int l.maxNodes)),
    ("max_numeric_digits", .num (.int l.maxNumericDigits))]

/-- `grammar.ex:37-45`. -/
def options (l : Limits) : Json.Limits where
  maxBytes := l.maxBytes
  maxDepth := l.maxDepth
  maxNodes := l.maxNodes
  maxStringBytes := min 8192 l.maxBytes
  maxCollectionSize := 1024

end Limits

/-! ## Numbers -/

namespace Numeric

/-- `normalize/2`; each division makes the coefficient smaller, so its magnitude is enough fuel. -/
def normalizeWith : Nat → Int → Int → Int × Int
  | 0, coefficient, exponent => (coefficient, exponent)
  | fuel + 1, coefficient, exponent =>
    if coefficient = 0 then (0, 0)
    else if coefficient % 10 = 0 then normalizeWith fuel (coefficient / 10) (exponent + 1)
    else (coefficient, exponent)

def normalize (coefficient exponent : Int) : Int × Int :=
  normalizeWith (coefficient.natAbs + 1) coefficient exponent

variable (host : Host)

/-- `Decimal.new/1` of the canonical text of a number. -/
def token : Num → Option (Int × Int)
  | .int i => decimalToken (decimal i)
  | .flt f => decimalToken (host.float f)

variable (limits : Limits) (path : Text)

/-- `decimal/3` of a native number. -/
def decimal (n : Num) : Result (Int × Int) :=
  match token host n with
  | none => .raise
  | some (c, e) =>
    let (coefficient, exponent) := normalize c e
    if -18 ≤ exponent ∧ exponent ≤ 18 ∧ coefficient.natAbs < 10 ^ limits.maxNumericDigits then
      .ok (coefficient, exponent)
    else refusal .numericLimit path

/-- `decimal/3` of any term. -/
def decimalOf : Value → Result (Int × Int)
  | .num n => decimal host limits path n
  | _ => refusal .invalidInput path

/-- `numeric.ex:38-50`. -/
def integer (value : Value) (minimum maximum : Int) (path : Text) : Result Int :=
  match value with
  | .str s =>
    if s.bytes ≤ 20 then
      match Runtime.integerParse s with
      | some (n, []) =>
        if minimum ≤ n ∧ n ≤ maximum ∧ Json.decimal n = s then .ok n else refusal .invalidInput path
      | _ => refusal .invalidInput path
    else refusal .invalidInput path
  | _ => refusal .invalidInput path

/-- `numeric.ex:55-66`. -/
def rational (data : Value) (numerator denominator : Text) (positive : Bool) (path : Text) :
    Result Unit := do
  let minimum : Int := if positive then 1 else -9223372036854775808
  let n ← integer (data.get numerator) minimum 9223372036854775807 path
  let d ← integer (data.get denominator) 1 9223372036854775807 path
  check (Int.gcd n d == 1) .invalidInput path

end Numeric

/-! ## Maps and lists -/

/-- `Map.delete/2`. -/
def deleteMember (key : Text) : Value → Value
  | .obj members => .obj (Members.drop key members)
  | value => value

/-- `Map.take/2`. -/
def takeMembers (keys : List Text) : Value → Value
  | .obj members => .obj (members.filter fun m => keys.contains m.1)
  | value => value

/-- `Map.put/3`. -/
def putMember (key : Text) (value : Value) : Value → Value
  | .obj members => .obj (Members.put key value members)
  | other => other

/-- The items of a list. -/
def items : Value → List Value
  | .arr values => values
  | _ => []

namespace Grammar

/-! ## Admission -/

section Admission

variable (host : Host)

mutual
/-- `grammar.ex:47-74`. -/
def native (limits : Limits) : Value → Result Unit
  | .num (.int i) =>
    check (decide (i.natAbs < 10 ^ limits.maxNumericDigits)) .numericLimit []
  | .num (.flt f) => do
    let _ ← Numeric.decimal host limits [] (.flt f)
    .ok ()
  | .str s => check (!s.contains '\x00') .invalidInput []
  | .arr values => nativeItems limits values
  | .obj members => nativeMembers limits members
  | .null | .bool _ => .ok ()

/-- `native/2` on the items of a list. -/
def nativeItems (limits : Limits) : List Value → Result Unit
  | [] => .ok ()
  | v :: vs => do
    native limits v
    nativeItems limits vs

/-- `native/2` on the keys and values of a map. -/
def nativeMembers (limits : Limits) : List (Text × Value) → Result Unit
  | [] => .ok ()
  | (k, v) :: ms => do
    check (!k.contains '\x00') .invalidInput []
    native limits v
    nativeMembers limits ms
end

/-- `Wotex.JSON.encode/2`, `none` where a limit is passed. -/
def encoded (options : Json.Limits) (data : Value) : Option Text :=
  if Json.validate options data then some (Json.encode host.float data) else none

/-- `admit/2`. -/
def admitData (limits : Limits) (data : Value) : Result Unit :=
  if Json.validate limits.options data then do
    native host limits data
    match encoded host limits.options data with
    | some text => check (decide (text.bytes ≤ limits.maxBytes)) .inputLimit []
    | none => refusal .inputLimit []
  else refusal .inputLimit []

end Admission

/-! ## Fields and texts -/

/-- `grammar.ex:78-83`. -/
def fields (data : Value) (required : List Text) (path : Text) (optional : List Text) : Result Unit :=
  match data with
  | .obj members =>
    check ((required.all fun k => (Dict.find k members).isSome) &&
      members.all fun m => (required ++ optional).contains m.1) .invalidInput path
  | _ => refusal .invalidInput path

variable (value : Value)

def text (maximum : Nat) (path : Text) : Result Unit :=
  match value with
  | .str s =>
    check (decide (1 ≤ s.bytes ∧ s.bytes ≤ maximum) && !s.contains '\x00') .invalidInput path
  | _ => refusal .invalidInput path

def id (host : Host) (value : Value) (path : Text) : Result Unit := do
  text value 256 path
  match value with
  | .str s => check (host.scheme s) .invalidInput path
  | _ => refusal .invalidInput path

variable (value : Value) (path : Text)

/-- `grammar.ex:105-110`. -/
def key : Result Unit := do
  text value 128 path
  match value with
  | .str s =>
    check (s.all fun c => c.isAlphanum || c == '.' || c == '_' || c == '-') .invalidInput path
  | _ => refusal .invalidInput path

/-- `version/2`: three decimal numbers below `65_536`. -/
def version : Result Unit :=
  match value with
  | .str s =>
    check (decide (s.bytes ≤ 17) &&
      match (s.splitOn '.').map Runtime.JSON.natural? with
      | [some a, some b, some c] => decide (a ≤ 65535 ∧ b ≤ 65535 ∧ c ≤ 65535)
      | _ => false) .invalidInput path
  | _ => refusal .invalidInput path

def digest : Result Unit :=
  check (Runtime.Grammar.digest (some value)) .invalidInput path

/-- The key of a reference or an entry, `{value["id"], value["version"]}`. -/
def identityKey : Value × Value :=
  (value.get "id", value.get "version")

def reference (host : Host) (value : Value) (path : Text) : Result Unit := do
  fields value ["id", "version", "sha256"] path []
  id host (value.get "id") path
  version (value.get "version") path
  digest (value.get "sha256") path

/-- `sorted_unique/3` of the keys. -/
def sortedUnique {κ : Type} [LinearOrder κ] (keys : List κ) (path : Text) : Result Unit :=
  check (decide (keys.Pairwise (· < ·))) .referenceConflict path

/-- The texts of an identity key. -/
def keyTexts : List Text :=
  match identityKey value with
  | (.str i, .str v) => [i, v]
  | _ => []

/-- `grammar.ex:141-151`. -/
def references (host : Host) (limits : Limits) (values : Value) (path : Text) : Result Unit :=
  match values with
  | .arr values => do
    check (decide (values.length ≤ limits.maxDependencies)) .inputLimit path
    Outcome.each (fun v => reference host v path) values
    sortedUnique (values.map keyTexts) path
  | _ => refusal .invalidInput path

/-! ## Annotations and scalars -/

/-- `Wotex.JSON.Limits`, the defaults. -/
def jsonDefaults : Json.Limits := ⟨1048576, 64, 100000, 262144, 10000⟩

/-- The members of `annotations/1` that are within bounds. -/
def annotation (m : Text × Value) : Bool :=
  decide (1 ≤ m.1.bytes ∧ m.1.bytes ≤ 128) && !m.1.contains '\x00' &&
    match m.2 with
    | .str s => decide (s.bytes ≤ 1024)
    | _ => false

/-- `grammar.ex:165-182`. -/
def annotations (host : Host) (data : Value) : Result Unit :=
  match data with
  | .obj members =>
    if members.length ≤ 16 then
      check (members.all annotation &&
        match encoded host jsonDefaults data with
        | some text => decide (text.bytes ≤ 8192)
        | none => false) .inputLimit "/annotations"
    else refusal .invalidInput "/annotations"
  | _ => refusal .invalidInput "/annotations"

def optionalAnnotations (host : Host) (data : Value) : Result Unit :=
  match Runtime.fetch data "annotations" with
  | some value => annotations host value
  | none => .ok ()

/-- `grammar.ex:192-199`. -/
def scalar (types : List Text) (path : Text) : Result Unit :=
  match Runtime.Codec.validate value with
  | .ok value =>
    match value.get "type" with
    | .str type => check (types.contains type) .invalidInput path
    | _ => refusal .invalidInput path
  | _ => refusal .invalidInput path

/-- `grammar.ex:204-222`. -/
def uniqueScalars (values : Value) (maximum : Nat) (types : List Text) (path : Text) : Result Unit :=
  match values with
  | .arr values => do
    check (decide (values.length ≤ maximum)) .inputLimit path
    Outcome.each (fun v => scalar v types path) values
    check (decide (values.map fun v => (Runtime.Codec.encode v).toOption).Nodup) .invalidInput path
  | _ => refusal .invalidInput path

/-! ## Identities -/

def hash (host : Host) (t : Text) : Text := Runtime.JSON.encode16 (host.sha256 t.utf8)

def identity (host : Host) (limits : Limits) (domain : Text) (data : Value) : Result Text :=
  match encoded host limits.options (deleteMember "annotations" data) with
  | some text => .ok (hash host (domain ++ '\n' :: text))
  | none => refusal .inputLimit []

end Grammar

end Wotex.Profiles
