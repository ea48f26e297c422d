import Wotex.Directory.MergePatch

/-!
# Registration information (`registration.ex`, `identifier.ex`)

A `DateTime` of the ISO calendar is its instant, the digits of its fraction that are shown and its
zone; two are `==` when all of these agree and are compared by their instants. `Calendar` takes the
two conversions of the standard library that are not part of the repository: the ISO 8601 text of a
date and time, and what reads one back. Unix seconds are converted here (`toUnix`, `fromUnix`).

Registration input is a map whose members are JSON, except that `expires` may also be a `DateTime`
(`parse_datetime/2`). A `DateTime` anywhere else is refused, as an extension because its keys are not
strings, as a `ttl` because it is no integer.

The members of `extensions` are in key order, like those of any object.
-/

namespace Wotex.Directory

open Json (Value)

/-! ## Date and time -/

/-- The zone of a date and time: its name, its abbreviation and its offsets in seconds. -/
structure Zone where
  name : Text
  abbreviation : Text
  utcOffset : Int
  stdOffset : Int
  deriving DecidableEq

/-- `Etc/UTC`. -/
def Zone.utc : Zone := ⟨"Etc/UTC", "UTC", 0, 0⟩

/-- A `DateTime` of the ISO calendar: microseconds of its instant since the Unix epoch, the digits of
its fraction that are shown, and its zone. -/
structure DateTime where
  micros : Int
  precision : Nat
  zone : Zone
  deriving DecidableEq

namespace DateTime

/-- `DateTime.to_unix/2` in seconds. -/
def toUnix (t : DateTime) : Int := t.micros / 1000000

/-- `DateTime.from_unix/2` in seconds, for the years the ISO calendar has. -/
def fromUnix (seconds : Int) : Option DateTime :=
  if -377705116800 ≤ seconds ∧ seconds ≤ 253402300799 then
    some ⟨seconds * 1000000, 0, .utc⟩
  else none

end DateTime

/-- The ISO 8601 texts of the standard library. -/
structure Calendar where
  /-- `DateTime.to_iso8601/1`. -/
  text : DateTime → Text
  /-- `DateTime.from_iso8601/1`: the instant in UTC, and the offset that was written. -/
  parse : Text → Option (DateTime × Int)

/-! ## Identifiers -/

namespace Identifier

/-- A character of a scheme after its first. -/
def schemeChar (c : Char) : Bool := c.isAlphanum || c == '+' || c == '.' || c == '-'

/-- `absolute?/1`: `URI.parse/1` finds a scheme. -/
def absolute (t : Text) : Bool :=
  let scheme := t.takeWhile schemeChar
  (scheme.head?.any Char.isAlpha) && (t.drop scheme.length).head? == some ':'

def valid (t : Text) : Bool := t != [] && t.all (fun c => 0x20 < c.toNat) && absolute t

end Identifier

/-! ## Registrations -/

/-- A member of registration input. -/
inductive Member where
  | json (v : Value)
  | datetime (t : DateTime)

/-- A submitted `registration`: a map, or a term that is none. -/
inductive Raw where
  | map (members : List (Text × Member))
  | other

/-- `Registration.input()`. -/
inductive Input where
  | absent
  | present (raw : Raw)

structure Registration where
  created : DateTime
  modified : DateTime
  expires : Option DateTime
  ttl : Option Nat
  retrieved : Option DateTime
  extensions : List (Text × Value)
  deriving DecidableEq

namespace Registration

/-- `@maximum_ttl`. -/
def maximumTtl : Nat := 4294967295

/-- `@server_fields`. -/
def serverFields : List Text := ["created", "modified", "retrieved"]

/-- `@standard_fields`. -/
def standardFields : List Text :=
  ["created", "modified", "expires", "ttl", "retrieved"]

def invalid (operation : Operation) (path : Option Text := none) : Error where
  code := .invalidRequest
  phase := .validation
  operation := operation
  path := path

/-- What `parse_input/3` reads. -/
structure Values where
  ttl : Option Nat
  expires : Option DateTime
  extensions : List (Text × Value)

/-- `Map.drop(raw, @standard_fields)`. -/
def dropStandard {α : Type} (raw : List (Text × α)) : List (Text × α) :=
  raw.filter fun m => m.1 ∉ standardFields

/-- The members that are JSON, where all of them are. -/
def jsonMembers : List (Text × Member) → Option (List (Text × Value))
  | [] => some []
  | (k, .json v) :: ms => (jsonMembers ms).map ((k, v) :: ·)
  | (_, .datetime _) :: _ => none

variable (raw : List (Text × Member))

/-- `registration.ex:201-206`. -/
def validateJson (operation : Operation) : Result (List (Text × Value)) :=
  match jsonMembers raw with
  | none => .refuse (invalid operation)
  | some ms =>
    match MergePatch.apply .default [] ms with
    | .ok _ => .ok ms
    | _ => .refuse (invalid operation)

def validateServerFields (reject : Bool) (operation : Operation) :
    Result Unit :=
  match if reject then serverFields.find? fun f => f ∈ raw.map Prod.fst else none with
  | none => .ok ()
  | some field => .refuse (invalid operation (some ("/registration/" ++ field)))

def parseTtl (operation : Operation) : Option Member → Result (Option Nat)
  | none | some (.json .null) => .ok none
  | some (.json (.num (.int i))) =>
    if 0 ≤ i ∧ i ≤ maximumTtl then .ok (some i.toNat)
    else .refuse (invalid operation (some "/registration/ttl"))
  | _ => .refuse (invalid operation (some "/registration/ttl"))

variable (cal : Calendar)

/-- `registration.ex:225-235`. -/
def parseDatetime (operation : Operation) : Option Member → Result (Option DateTime)
  | none | some (.json .null) => .ok none
  | some (.datetime t) => .ok (some t)
  | some (.json (.str s)) =>
    match cal.parse s with
    | some (t, _) => .ok (some t)
    | none => .refuse (invalid operation (some "/registration/expires"))
  | _ => .refuse (invalid operation (some "/registration/expires"))

/-- `registration.ex:174-195`. -/
def parseInput (operation : Operation) (rejectServerFields : Bool) : Input → Result Values
  | .absent => .ok ⟨none, none, []⟩
  | .present (.map raw) => do
    let extensions ← validateJson (dropStandard raw) operation
    validateServerFields raw rejectServerFields operation
    let ttl ← parseTtl operation (Dict.find "ttl" raw)
    let expires ← parseDatetime cal operation (Dict.find "expires" raw)
    .ok ⟨ttl, expires, extensions⟩
  | .present .other => .refuse (invalid operation)

/-- `registration.ex:237-246`. -/
def expiry (now : DateTime) (ttl : Option Nat) (expires : Option DateTime)
    (operation : Operation) : Result (Option DateTime) :=
  match ttl with
  | some ttl =>
    match DateTime.fromUnix (now.toUnix + ttl) with
    | some t => .ok (some t)
    | none => .refuse (invalid operation)
  | none => .ok expires

def ensureClock (r : Registration) (now : DateTime) (operation : Operation) : Result Unit :=
  check (r.modified.micros ≤ now.micros)
    { code := .clockRegression, phase := .clock, operation := operation }

def create (now : DateTime) (input : Input) (operation : Operation) : Result Registration := do
  let values ← parseInput cal operation true input
  let expires ← expiry now values.ttl values.expires operation
  .ok ⟨now, now, expires, values.ttl, none, values.extensions⟩

variable (r : Registration)

def refreshValues (operation : Operation) : Input → Result Values
  | .absent => .ok ⟨r.ttl, r.expires, r.extensions⟩
  | .present raw => parseInput cal operation true (.present raw)

/-- The registration that `refresh/4` and `from_patch/4` build from what they read. -/
def rebuild (now : DateTime) (values : Values) (operation : Operation) :
    Result Registration := do
  let expires ← expiry now values.ttl values.expires operation
  .ok ⟨r.created, now, expires, values.ttl, none, values.extensions⟩

def refresh (now : DateTime) (input : Input) (operation : Operation) :
    Result Registration := do
  ensureClock r now operation
  let values ← refreshValues cal r operation input
  rebuild r now values operation

def fromPatch (now : DateTime) (raw : List (Text × Value))
    (operation : Operation) : Result Registration := do
  ensureClock r now operation
  let values ← parseInput cal operation false (.present (.map (raw.map fun m => (m.1, .json m.2))))
  rebuild r now values operation

def markRetrieved (now : DateTime) : Registration :=
  { r with retrieved := some now }

def forStorage : Registration := { r with retrieved := none }

def expired (now : DateTime) : Bool :=
  match r.expires with
  | none => false
  | some t => decide (t.micros ≤ now.micros)

/-- `registration.ex:271-278`. -/
def validRelativeExpiry : Bool :=
  match r.ttl with
  | none => true
  | some ttl =>
    match DateTime.fromUnix (r.modified.toUnix + ttl) with
    | some t => decide (r.expires = some t)
    | none => false

def valid : Bool :=
  r.ttl.all (fun ttl => decide (ttl ≤ maximumTtl))
    && decide (r.created.micros ≤ r.modified.micros)
    && r.retrieved.all (fun t => decide (r.modified.micros ≤ t.micros))
    && validRelativeExpiry r
    && (MergePatch.apply .default [] r.extensions).toOption.isSome

def putOptionalDatetime (key : Text) (t : Option DateTime) (ms : List (Text × Value)) :
    List (Text × Value) :=
  match t with
  | none => ms
  | some t => Members.put key (.str (cal.text t)) ms

def putOptionalInteger (key : Text) (n : Option Nat) (ms : List (Text × Value)) : List (Text × Value) :=
  match n with
  | none => ms
  | some n => Members.put key (.num (.int n)) ms

def toMap (r : Registration) : List (Text × Value) :=
  putOptionalDatetime cal "retrieved" r.retrieved
    (putOptionalInteger "ttl" r.ttl
      (putOptionalDatetime cal "expires" r.expires
        (Members.put "modified" (.str (cal.text r.modified))
          (Members.put "created" (.str (cal.text r.created)) r.extensions))))

def serverFieldPatch (patch : Dict Value) : Bool :=
  match patch.get "registration" with
  | none => false
  | some (.obj ms) => serverFields.any fun f => f ∈ ms.map Prod.fst
  | some _ => true

end Registration

end Wotex.Directory
