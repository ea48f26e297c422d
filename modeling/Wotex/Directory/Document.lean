import Wotex.Directory.Error
import Wotex.Json.Canonical
import Wotex.Term.Members

/-!
# Thing Descriptions (`packages/wotex`: `thing_description.ex`, `thing_description/validator.ex`,
`security_references.ex`)

A Thing Description is its document. The bytes it was parsed from and the `changed?` flag are
bookkeeping that no modelled function reads, and are left out.

`Validator.validate/2` collects schema errors and semantic errors; the directory reports the pointer
of the first one. The schema pass is `ExJsonSchema`, which is not part of the repository: `Core`
takes the pointers of its errors as a function of the document. `from_map/2` first admits the
document under the JSON limits (`Json.validate`); the pointer at which that walk stops depends on the
iteration order of a map, so `Core` takes it too.
-/

namespace Wotex.Directory

open Json (Value Limits)

/-- The document of a Thing Description. -/
abbrev Document := Dict Value

/-- What the model takes of the core package as given. -/
structure Core where
  /-- Pointers of the errors of the pinned schema. -/
  schemaErrors : Document → List Text
  /-- Pointer at which the admission under the limits stops (`json.ex:238-320`). It depends on the order in which
  Erlang visits the members of a map, which the model does not have. -/
  limitPath : Limits → Document → Text

/-- `Wotex.JSON.Limits`, the defaults. -/
def defaultLimits : Limits where
  maxBytes := 1048576
  maxDepth := 64
  maxNodes := 100000
  maxStringBytes := 262144
  maxCollectionSize := 10000

namespace ThingDescription

/-- `@context` of the validator. -/
def tdContext : Text := "https://www.w3.org/2022/wot/td/v1.1"

/-- `@legacy_context`. -/
def legacyContext : Text := "https://www.w3.org/2019/wot/td/v1"

def pointerSegment (t : Text) : Text :=
  t.flatMap fun c => if c = '~' then ['~', '0'] else if c = '/' then ['~', '1'] else [c]

/-! ## Security references -/

/-- `security_values/2`: the references with their pointers. -/
def securityValues (path : Text) : Option Value → List (Text × Text)
  | some (.str reference) => [(path, reference)]
  | some (.arr references) => references.zipIdx.flatMap fun
    | (.str reference, index) => [(path ++ "/" ++ Json.decimal index, reference)]
    | _ => []
  | _ => []

/-- `map_value/3` with `nil` for an absent member. -/
def mapValue (key : Text) : Value → Option Value
  | .obj ms => Dict.find key ms
  | _ => none

def sortedMapEntries : Option Value → List (Text × Value)
  | some (.obj ms) => ms
  | _ => []

def formReferences (path : Text) : Option Value → List (Text × Text)
  | some (.arr forms) => forms.zipIdx.flatMap fun (form, index) =>
    securityValues (path ++ "/" ++ Json.decimal index ++ "/security")
      (mapValue "security" form)
  | _ => []

def affordanceReferences (d : Document) : List (Text × Text) :=
  [ascii "properties", ascii "actions", ascii "events"].flatMap fun category =>
    (sortedMapEntries (d.get category)).flatMap fun (name, affordance) =>
      formReferences
        ("/" ++ category ++ "/" ++ pointerSegment name ++ "/forms")
        (mapValue "forms" affordance)

/-- `security_references.ex:78-91`. -/
def comboReferences (definitions : List (Text × Value)) : List (Text × Text) :=
  definitions.flatMap fun (name, definition) =>
    if mapValue "scheme" definition = some (.str "combo") then
      [ascii "oneOf", ascii "allOf"].flatMap fun member =>
        securityValues
          ("/securityDefinitions/" ++ pointerSegment name ++ "/" ++ member)
          (mapValue member definition)
    else []

/-- `SecurityReferences.errors/1`: the pointers of the references that name no definition. -/
def securityErrors (d : Document) : List Text :=
  match d.get "securityDefinitions" with
  | some (.obj definitions) =>
    let references := securityValues "/security" (d.get "security")
      ++ formReferences "/forms" (d.get "forms")
      ++ affordanceReferences d ++ comboReferences definitions
    (references.filter fun r => r.2 ∉ definitions.map Prod.fst).map Prod.fst
  | _ => []

/-! ## Validation -/

/-- `require_context/2`: the clauses that add no error. -/
def supportedContext : Option Value → Bool
  | some (.str c) => c == tdContext
  | some (.arr (.str c :: rest)) =>
    c == tdContext || (c == legacyContext && rest.head? == some (.str tdContext))
  | _ => false

/-- `reject_thing_model/2`: `List.wrap/1` of the type holds `"tm:ThingModel"`. -/
def thingModel : Option Value → Bool
  | some (.str t) => t == "tm:ThingModel"
  | some (.arr ts) => ts.contains (.str "tm:ThingModel")
  | _ => false

/-- The characters `String.trim/1` removes (Unicode `White_Space`). -/
def whitespace (c : Char) : Bool :=
  let n := c.toNat
  (9 ≤ n && n ≤ 13) || n == 0x20 || n == 0x85 || n == 0xA0 || n == 0x1680
    || (0x2000 ≤ n && n ≤ 0x200A) || n == 0x2028 || n == 0x2029 || n == 0x202F || n == 0x205F
    || n == 0x3000

/-- `require_non_empty_title/2`. -/
def emptyTitle : Option Value → Bool
  | some (.str title) => title.all whitespace
  | _ => false

/-- `semantic_errors/1`, as pointers. -/
def semanticErrors (d : Document) : List Text :=
  (if supportedContext (d.get (ascii "@context")) then [] else [ascii "/@context"])
    ++ (if thingModel (d.get (ascii "@type")) then [ascii "/@type"] else [])
    ++ (if emptyTitle (d.get (ascii "title")) then [ascii "/title"] else [])
    ++ securityErrors d

/-- `Validator.validate/2`: the pointers of its errors. -/
def errors (core : Core) (d : Document) : List Text := core.schemaErrors d ++ semanticErrors d

/-- `validate/2`: the pointer of the first error (`core_path/1`) where there is one. -/
def validate (core : Core) (d : Document) : Except Text Unit :=
  match errors core d with
  | [] => .ok ()
  | path :: _ => .error path

/-- `from_map/2` under limits. -/
def fromMap (core : Core) (limits : Limits) (d : Document) : Except Text Unit :=
  if Json.validate limits (.obj d.entries) then validate core d
  else .error (core.limitPath limits d)

def id (d : Document) : Option Value := d.get "id"

variable {core : Core} {limits : Limits} {d : Document}

theorem validate_eq_ok : validate core d = .ok () ↔ errors core d = [] := by
  unfold validate
  split <;> simp_all

theorem fromMap_eq_ok : fromMap core limits d = .ok () ↔
    Json.validate limits (.obj d.entries) = true ∧ validate core d = .ok () := by
  unfold fromMap
  split_ifs with h <;> simp [h]

theorem supportedContext_of_validate (h : validate core d = .ok ()) :
    supportedContext (d.get (ascii "@context")) = true := by
  have h := validate_eq_ok.mp h
  simp only [errors, semanticErrors] at h
  by_contra hc
  simp [hc] at h

end ThingDescription

end Wotex.Directory
