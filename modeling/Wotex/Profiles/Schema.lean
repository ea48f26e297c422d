import Wotex.Profiles.Grammar

/-!
# The schema subset (`packages/wotex-profiles/lib/wotex/profiles/schema.ex`)

A schema is a JSON object of the closed subset: one `type`, optional `enum` and `const`, metadata, and the
operators of the type. `check/3` also runs `Wotex.DataSchema.new/2`, which keeps the map as it is.

The walk follows the schema: the recursive clauses reach a member through the list of members, so that
the recursion is on the term itself.
-/

namespace Wotex.Profiles.Schema

open Json (Value)

/-- `@common`. -/
def common : List Text :=
  ["type", "enum", "const", "title", "description", "readOnly",
    "writeOnly", "observable"]

/-- `@numeric`. -/
def numeric : List Text :=
  ["minimum", "maximum", "exclusiveMinimum", "exclusiveMaximum",
    "multipleOf"]

/-- The types of the subset. -/
inductive Kind where
  | null
  | boolean
  | number
  | integer
  | string
  | array
  | object

/-- The type of a schema, by its name. -/
def kind (type : Value) : Option Kind :=
  match type with
  | .str t =>
    if t = "null" then some .null
    else if t = "boolean" then some .boolean
    else if t = "number" then some .number
    else if t = "integer" then some .integer
    else if t = "string" then some .string
    else if t = "array" then some .array
    else if t = "object" then some .object
    else none
  | _ => none

/-- `schema.ex:29-34`. -/
def operators : Kind → List Text
  | .null | .boolean => []
  | .number | .integer => numeric
  | .string => ["minLength", "maxLength"]
  | .array => ["items", "minItems", "maxItems"]
  | .object => ["properties", "required", "additionalProperties"]

variable (members : List (Text × Value))

def schemaFields (operators : List Text) (path : Text) : Result Unit :=
  match Grammar.fields (.obj members) ["type"] path (common ++ operators) with
  | .ok () => .ok ()
  | _ => refusal .unsupportedSchema path

/-- `schema.ex:43-52`. -/
def metadata (path : Text) : Result Unit :=
  check (members.all fun m =>
    if m.1 = "title" ∨ m.1 = "description" then
      match m.2 with
      | .str _ => true
      | _ => false
    else if m.1 = "readOnly" ∨ m.1 = "writeOnly" ∨ m.1 = "observable" then
      match m.2 with
      | .bool _ => true
      | _ => false
    else true) .unsupportedSchema path

section Checks

variable (host : Host) (limits : Limits)

/-- `schema.ex:60-73`. -/
def enum (members : List (Text × Value)) (path : Text) : Result Unit :=
  match Dict.find "enum" members with
  | none => .ok ()
  | some (.arr values) =>
    if 1 ≤ values.length ∧ values.length ≤ 256 then
      if (values.map (Grammar.encoded host Grammar.jsonDefaults)).all Option.isSome then
        check (decide (values.map (Json.encode host.float)).Nodup) .unsupportedSchema (path ++ "/enum")
      else .raise
    else refusal .unsupportedSchema (path ++ "/enum")
  | some _ => refusal .unsupportedSchema (path ++ "/enum")

mutual
/-- `schema.ex:75-88`. -/
def literalNumbers (path : Text) : Value → Result Unit
  | .num n => do
    let _ ← Numeric.decimal host limits path n
    .ok ()
  | .arr values => literalItems path values
  | .obj members => literalMembers path members
  | _ => .ok ()

/-- `literal_numbers/3` on the items of a list. -/
def literalItems (path : Text) : List Value → Result Unit
  | [] => .ok ()
  | v :: vs => do
    literalNumbers path v
    literalItems path vs

/-- `literal_numbers/3` on the values of a map. -/
def literalMembers (path : Text) : List (Text × Value) → Result Unit
  | [] => .ok ()
  | (_, v) :: ms => do
    literalNumbers path v
    literalMembers path ms
end

variable (members : List (Text × Value))

def literals (path : Text) : Result Unit := do
  enum host members path
  literalMembers host limits path (members.filter fun m => m.1 = "enum" ∨ m.1 = "const")

/-- The clause of `specific/3` on numbers. -/
def numericBounds (path : Text) : Result Unit :=
  Outcome.each (fun m => do
      let (coefficient, _) ← Numeric.decimalOf host limits (path ++ '/' :: m.1) m.2
      check (decide (m.1 ≠ ascii "multipleOf" ∨ 0 < coefficient)) .unsupportedSchema
        (path ++ ascii "/multipleOf"))
    (members.filter fun m => numeric.contains m.1)

/-- `schema.ex:142-148`. -/
def sizes (minimum maximum path : Text) : Result Unit :=
  match (Dict.find minimum members).getD (.num (.int 0)),
    (Dict.find maximum members).getD (.num (.int 1048576)) with
  | .num (.int lower), .num (.int upper) =>
    check (decide (0 ≤ lower ∧ lower ≤ upper ∧ upper ≤ 1048576)) .unsupportedSchema path
  | _, _ => refusal .unsupportedSchema path

/-- The texts of a list of strings. -/
def texts : List Value → Option (List Text)
  | [] => some []
  | .str s :: vs => (texts vs).map (s :: ·)
  | _ :: _ => none

/-- `schema.ex:133-140`. -/
def required (values : Value) (properties : List (Text × Value)) (path : Text) : Result Unit :=
  match values with
  | .arr values =>
    match texts values with
    | some names =>
      check (decide (names.Pairwise (· < ·)) &&
        names.all fun n => (Dict.find n properties).isSome) .unsupportedSchema (path ++ "/required")
    | none => refusal .unsupportedSchema (path ++ "/required")
  | _ => refusal .unsupportedSchema (path ++ "/required")

mutual
/-- `visit/3` and `specific/3`. -/
def visit (path : Text) : Value → Result Unit
  | .obj members =>
    match kind (Value.member (ascii "type") members) with
    | none => refusal .unsupportedSchema path
    | some kind => do
      schemaFields members (operators kind) path
      metadata members path
      literals host limits members path
      match kind with
      | .null | .boolean => .ok ()
      | .number | .integer => numericBounds host limits members path
      | .string => sizes members (ascii "minLength") (ascii "maxLength") path
      | .array => do
        check (Dict.find (ascii "items") members).isSome .unsupportedSchema path
        sizes members (ascii "minItems") (ascii "maxItems") path
        visitItems path members
      | .object =>
        match Value.member (ascii "properties") members,
          Value.member (ascii "additionalProperties") members with
        | .obj properties, .bool false => do
          required ((Dict.find (ascii "required") members).getD (.arr [])) properties path
          visitProperties path members
        | _, _ => refusal .unsupportedSchema path
  | _ => refusal .unsupportedSchema path

/-- The schema of the items. -/
def visitItems (path : Text) : List (Text × Value) → Result Unit
  | [] => .ok ()
  | (k, v) :: ms =>
    if k = "items" then visit (path ++ "/items") v else visitItems path ms

/-- The schemas of the properties. -/
def visitProperties (path : Text) : List (Text × Value) → Result Unit
  | [] => .ok ()
  | (k, v) :: ms =>
    if k = "properties" then
      match v with
      | .obj properties => visitChildren (path ++ "/properties") properties
      | _ => .ok ()
    else visitProperties path ms

/-- Each property: its name, then its schema. -/
def visitChildren (path : Text) : List (Text × Value) → Result Unit
  | [] => .ok ()
  | (k, v) :: ms => do
    Grammar.text (.str k) 128 path
    visit path v
    visitChildren path ms
end

/-- `schema.ex:11-16`. -/
def check (data : Value) (path : Text) : Result Unit :=
  match data with
  | .obj _ =>
    if Json.validate limits.options data && host.dataSchema data then visit host limits path data
    else refusal .unsupportedSchema path
  | _ => refusal .unsupportedSchema path

end Checks

end Wotex.Profiles.Schema
