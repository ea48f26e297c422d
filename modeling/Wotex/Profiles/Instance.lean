import Wotex.Profiles.Schema

/-!
# Instance validation (`packages/wotex-profiles/lib/wotex/profiles/instance.ex`)

`json/4` checks a native value and `c02/4` a typed codec value against a schema of the subset. Both
first bring the value into one form (`Logical`, where a number is a decimal `coefficient * 10 ^ exponent`),
by `native` and `typed`, and then walk it with `visit`. Numbers are compared as fractions under a budget
of digits; passing the budget is `numeric_limit`.
-/

namespace Wotex.Profiles.Instance

open Json (Value)

/-- The common form of native and typed values. -/
inductive Logical where
  | null
  | bool (b : Bool)
  | str (s : Text)
  | num (coefficient exponent : Int)
  | arr (items : List Logical)
  | obj (members : List (Text × Logical))

abbrev domain {α : Type} (path : Text) : Result α := refusal .outOfDomain path

/-! ## Reading -/

section Reading

variable (host : Host) (limits : Limits)

mutual
/-- `instance.ex:33-49`. -/
def native (path : Text) : Value → Result Logical
  | .num n => do
    let (coefficient, exponent) ← Numeric.decimal host limits path n
    .ok (.num coefficient exponent)
  | .arr values => do
    let items ← nativeItems path values
    .ok (.arr items)
  | .obj members => do
    let entries ← nativeMembers path members
    .ok (.obj entries)
  | .null => .ok .null
  | .bool b => .ok (.bool b)
  | .str s => .ok (.str s)

/-- `native/3` on the items of a list. -/
def nativeItems (path : Text) : List Value → Result (List Logical)
  | [] => .ok []
  | v :: vs => do
    let item ← native path v
    let items ← nativeItems path vs
    .ok (item :: items)

/-- `native/3` on the values of a map. -/
def nativeMembers (path : Text) : List (Text × Value) → Result (List (Text × Logical))
  | [] => .ok []
  | (k, v) :: ms => do
    let child ← native path v
    let entries ← nativeMembers path ms
    .ok ((k, child) :: entries)
end

def toInteger (t : Text) : Result Int :=
  match Runtime.integerParse t with
  | some (n, []) => .ok n
  | _ => .raise

mutual
/-- `typed/2`, of a validated value; no clause is left for any other. -/
def typed (path : Text) : Value → Result Logical
  | .obj members =>
    match Value.member "type" members with
    | .str type =>
      if type = "null" then .ok .null
      else if type = "boolean" ∨ type = "text" then
        match Value.member "value" members with
        | .bool b => .ok (.bool b)
        | .str s => .ok (.str s)
        | _ => .raise
      else if type = "sint" ∨ type = "uint" then
        match Value.member "value" members with
        | .str s => do
          let n ← toInteger s
          .ok (.num n 0)
        | _ => .raise
      else if type = "decimal" then
        match Value.member "coefficient" members,
          Value.member "exponent" members with
        | .str s, .num (.int exponent) => do
          let n ← toInteger s
          .ok (.num n exponent)
        | _, _ => .raise
      else if type = "list" then typedItems path members
      else if type = "object" then typedEntries path members
      else if type = "bytes" then refusal .codecRequired path
      else .raise
    | _ => .raise
  | _ => .raise

/-- The `"items"` of a list. -/
def typedItems (path : Text) : List (Text × Value) → Result Logical
  | [] => .raise
  | (k, v) :: ms =>
    if k = "items" then
      match v with
      | .arr values => do
        let items ← typedList path values
        .ok (.arr items)
      | _ => .raise
    else typedItems path ms

/-- `typed/2` on each item. -/
def typedList (path : Text) : List Value → Result (List Logical)
  | [] => .ok []
  | v :: vs => do
    let item ← typed path v
    let items ← typedList path vs
    .ok (item :: items)

/-- The `"entries"` of an object. -/
def typedEntries (path : Text) : List (Text × Value) → Result Logical
  | [] => .raise
  | (k, v) :: ms =>
    if k = "entries" then
      match v with
      | .arr entries => do
        let entries ← typedPairs path entries
        .ok (.obj entries)
      | _ => .raise
    else typedEntries path ms

/-- `typed/2` on the value of each entry; a validated object has its keys in order. -/
def typedPairs (path : Text) : List Value → Result (List (Text × Logical))
  | [] => .ok []
  | .obj entry :: rest =>
    match Value.member "key" entry with
    | .str key => do
      let child ← typedValue path entry
      let entries ← typedPairs path rest
      .ok ((key, child) :: entries)
    | _ => .raise
  | _ :: _ => .raise

/-- The `"value"` of an entry. -/
def typedValue (path : Text) : List (Text × Value) → Result Logical
  | [] => .raise
  | (k, v) :: ms => if k = "value" then typed path v else typedValue path ms
end

end Reading

/-! ## Numbers -/

section Numbers

variable (limits : Limits) (path : Text)

def maximum : Int := 10 ^ limits.maxNumericDigits - 1

/-- `product/4`: the bound is checked in front of the multiplication. -/
def product (a b : Int) : Result Int :=
  if a = 0 ∨ |b| ≤ maximum limits / |a| then .ok (a * b) else refusal .numericLimit path

/-- `fraction/3`, in lowest terms. -/
def fraction : Logical → Result (Int × Int)
  | .num coefficient exponent =>
    if -18 ≤ exponent ∧ exponent ≤ 18 then
      if limits.maxNumericDigits ≤ exponent.natAbs ∨ maximum limits < |coefficient| then
        refusal .numericLimit path
      else
        let factor : Int := 10 ^ exponent.natAbs
        if exponent < 0 then
          let divisor : Int := Int.gcd coefficient factor
          .ok (coefficient / divisor, factor / divisor)
        else do
          let n ← product limits path coefficient factor
          .ok (n, 1)
    else refusal .numericLimit path
  | _ => refusal .numericLimit path

def products (left right : Int × Int) : Result (Int × Int) := do
  let l ← product limits path left.1 right.2
  let r ← product limits path right.1 left.2
  .ok (l, r)

/-- The comparison of an operator of the schema. -/
def compare (key : Text) (a b : Int) : Bool :=
  if key = "minimum" then decide (b ≤ a)
  else if key = "maximum" then decide (a ≤ b)
  else if key = "exclusiveMinimum" then decide (b < a)
  else if key = "exclusiveMaximum" then decide (a < b)
  else decide (a.tmod b = 0)

def numeric (key : Text) (left right : Int × Int) : Result Bool := do
  let (a, b) ← products limits path left right
  .ok (compare key a b)

mutual
/-- `instance.ex:176-192`. -/
def equal : Logical → Logical → Result Bool
  | .num c e, .num c' e' => do
    let a ← fraction limits path (.num c e)
    let b ← fraction limits path (.num c' e')
    let (l, r) ← products limits path a b
    .ok (l == r)
  | .arr as, .arr bs => if as.length = bs.length then equalItems as bs else .ok false
  | .obj as, .obj bs =>
    if as.map Prod.fst = bs.map Prod.fst then equalMembers as bs else .ok false
  | .null, .null => .ok true
  | .bool a, .bool b => .ok (a == b)
  | .str a, .str b => .ok (a == b)
  | _, _ => .ok false

/-- `equal_children/3` on two lists of one length. -/
def equalItems : List Logical → List Logical → Result Bool
  | a :: as, b :: bs => do
    if ← equal a b then equalItems as bs else .ok false
  | _, _ => .ok true

/-- `equal_children/3` on two maps of the same keys, which are at the same places. -/
def equalMembers : List (Text × Logical) → List (Text × Logical) → Result Bool
  | (_, a) :: as, (_, b) :: bs => do
    if ← equal a b then equalMembers as bs else .ok false
  | _, _ => .ok true
end

end Numbers

/-! ## The walk -/

section Walk

variable (host : Host) (limits : Limits)

/-- `type?/2`. -/
def isType : Logical → Option Schema.Kind → Bool
  | .null, some .null => true
  | .bool _, some .boolean => true
  | .str _, some .string => true
  | .arr _, some .array => true
  | .obj _, some .object => true
  | .num _ _, some .number => true
  | .num _ exponent, some .integer => decide (0 ≤ exponent)
  | _, _ => false

/-- `instance.ex:111-118`. -/
def constant (value : Logical) (schema : Value) (path : Text) : Result Unit :=
  match Runtime.fetch schema "const" with
  | none => .ok ()
  | some expected => do
    let expected ← native host limits path expected
    if ← equal limits path value expected then .ok () else domain path

/-- The loop of `enumeration/4`. -/
def oneOf (value : Logical) (path : Text) : List Value → Result Unit
  | [] => domain path
  | expected :: rest => do
    let expected ← native host limits path expected
    if ← equal limits path value expected then .ok () else oneOf value path rest

variable (value : Logical) (schema : Value) (path : Text)

def enumeration : Result Unit :=
  match Runtime.fetch schema "enum" with
  | none => .ok ()
  | some (.arr values) => oneOf host limits value path values
  | some _ => .raise

/-- The clause of `constraints/4` on numbers. -/
def bounds : Result Unit :=
  match schema with
  | .obj members =>
    Outcome.each (fun m => do
        let expected ← native host limits path m.2
        let left ← fraction limits path value
        let right ← fraction limits path expected
        if ← numeric limits path m.1 left right then .ok () else domain path)
      (members.filter fun m => Schema.numeric.contains m.1)
  | _ => .raise

/-- A size of the schema, with its default. -/
def bound (schema : Value) (key : Text) (default : Int) : Int :=
  match Runtime.fetch schema key with
  | some (.num (.int i)) => i
  | _ => default

def size (n : Nat) (schema : Value) (minimum maximum path : Text) : Result Unit :=
  if bound schema minimum 0 ≤ n ∧ (n : Int) ≤ bound schema maximum 1048576 then .ok () else domain path

/-- The keys of a map are properties, and the required ones are there. -/
def closed (members : List (Text × Logical)) (schema : Value) : Bool :=
  match schema.get "properties" with
  | .obj properties =>
    (members.all fun m => (Dict.find m.1 properties).isSome) &&
      match (Runtime.fetch schema "required").getD (.arr []) with
      | .arr names => names.all fun n =>
        match n with
        | .str name => (Dict.find name members).isSome
        | _ => false
      | _ => false
  | _ => false

mutual
/-- `visit/4` and `constraints/4`. -/
def visit (schema : Value) (path : Text) : Logical → Result Unit
  | .null => head .null
  | .bool b => head (.bool b)
  | .num c e => do
    head (.num c e)
    bounds host limits (.num c e) schema path
  | .str s => do
    head (.str s)
    size s.length schema "minLength" "maxLength" path
  | .arr items => do
    head (.arr items)
    size items.length schema "minItems" "maxItems" path
    visitItems (schema.get "items") path 0 items
  | .obj members => do
    head (.obj members)
    if closed members schema then visitMembers (schema.get "properties") path members
    else domain path
where
  /-- The type, then `constants/4`. -/
  head (value : Logical) : Result Unit := do
    check (isType value (Schema.kind (schema.get "type"))) .outOfDomain path
    constant host limits value schema path
    enumeration host limits value schema path

/-- The items, each under its index. -/
def visitItems (schema : Value) (path : Text) : Nat → List Logical → Result Unit
  | _, [] => .ok ()
  | index, v :: vs => do
    visit schema (path ++ '/' :: Json.decimal index) v
    visitItems schema path (index + 1) vs

/-- The values of a map, each under the schema of its property. -/
def visitMembers (properties : Value) (path : Text) : List (Text × Logical) → Result Unit
  | [] => .ok ()
  | (k, v) :: ms => do
    visit (properties.get k) path v
    visitMembers properties path ms
end

variable (value schema : Value) (path : Text)

def json : Result Unit := do
  Grammar.admitData host limits value
  Schema.check host limits schema path
  let value ← native host limits path value
  visit host limits schema path value

/-- `c02/4`. -/
def c02 : Result Unit :=
  match Runtime.Codec.validate value with
  | .ok value => do
    Schema.check host limits schema path
    let value ← typed path value
    visit host limits schema path value
  | _ => refusal .invalidInput path

end Walk

end Wotex.Profiles.Instance
