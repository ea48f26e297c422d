import Wotex.Runtime.JSON
import Wotex.Term.Base64

/-!
# Codec values and grammars

* `Implementation.Grammar`: `closed?`, `token?`, `digest?`, `text?`
  (`packages/wotex-runtime/lib/wotex/runtime/implementation/grammar.ex`);
* `Codec.Grammar`: `flat?` (`codec/grammar.ex`);
* `Codec.Value`: `validate/1` and `encode/1` of the typed trees (`codec/value.ex`), with `Base` of the
  standard library. `visit/3` runs on the levels of nesting still allowed, as the JSON writer does.

The descriptor, registration and policy grammars of `implementation/grammar.ex` are no part of the wire
and are left out.
-/

namespace Wotex.Runtime

open Json (Value decimal)

/-- `Integer.parse/1`. -/
def integerParse (t : Text) : Option (Int × Text) :=
  let (negative, t) := match t with
    | '-' :: t => (true, t)
    | '+' :: t => (false, t)
    | t => (false, t)
  let digits := t.takeWhile Char.isDigit
  if digits = [] then none
  else
    let n : Int := Nat.ofDigitChars 10 digits 0
    some (if negative then -n else n, t.dropWhile Char.isDigit)

/-- `value[key]` where the value is a map with the key. -/
def fetch (value : Value) (key : Text) : Option Value :=
  match value with
  | .obj members => Dict.find key members
  | _ => none

/-! ## `Implementation.Grammar` -/

namespace Grammar

def closed (value : Value) (keys : List Text) : Bool :=
  match value with
  | .obj members => members.length == keys.length && keys.all fun k => (Dict.find k members).isSome
  | _ => false

variable (value : Option Value)

/-- `grammar.ex:22-25`, `grammar.ex:37-38`. -/
def text (max : Nat) : Bool :=
  match value with
  | some (.str s) => decide (1 ≤ s.bytes ∧ s.bytes ≤ max)
  | _ => false

/-- `[a-z0-9]`. -/
def plain (c : Char) : Bool := decide ('a' ≤ c ∧ c ≤ 'z') || c.isDigit

/-- `grammar.ex:28`. -/
def token : Bool :=
  text value 128 &&
    match value with
    | some (.str (c :: rest)) =>
      plain c && rest.all fun d =>
        plain d || d == '.' || d == '_' || d == ':' || d == '/' || d == '-'
    | _ => false

/-- `grammar.ex:34`. -/
def digest : Bool :=
  text value 64 &&
    match value with
    | some (.str s) =>
      s.length == 64 && s.all fun c => c.isDigit || decide ('a' ≤ c ∧ c ≤ 'f')
    | _ => false

end Grammar

namespace Codec

/-! ## `Codec.Grammar` -/

def text (value : Value) (min max : Nat) : Bool :=
  match value with
  | .str s => decide (min ≤ s.bytes ∧ s.bytes ≤ max)
  | _ => false

def primitive : Value → Bool
  | .null => true
  | .bool _ => true
  | .num (.int i) => decide (|i| ≤ JSON.safe)
  | value => text value 0 256

/-- `grammar.ex:8-16`. -/
def flat (value : Option Value) : Bool :=
  match value with
  | some (.obj members) =>
    decide (members.length ≤ 16) &&
      (members.all fun m => text (.str m.1) 1 128 && primitive m.2) &&
      (JSON.encode ⟨4096, 1, 17, 16, 256⟩ (.obj members)).toOption.isSome
  | _ => false

/-! ## `Codec.Value` -/

/-- The codes of `Value.validate/1`. -/
inductive Refusal where
  | outputLimit
  | unsupportedValue

/-- `@wire`. -/
def wire : JSON.Limits := ⟨65536, 24, 4096, 256, 5464⟩

def scalar (value : Value) (keys : List Text) (valid : Bool) (count : Nat) : Outcome Refusal Nat :=
  if valid && Grammar.closed value keys then .ok (count + 1) else .refuse .unsupportedValue

/-- `value.ex:102-109`. -/
def integer (value : Value) (minimum maximum : Int) : Bool :=
  match value with
  | .str s =>
    decide (1 ≤ s.bytes ∧ s.bytes ≤ 20) &&
      match integerParse s with
      | some (n, []) => decide (minimum ≤ n ∧ n ≤ maximum) && decimal n == s
      | _ => false
  | _ => false

/-- `decimal?/2`. -/
def isDecimal (coefficient exponent : Value) : Bool :=
  integer coefficient (-9223372036854775808) 9223372036854775807 &&
    match coefficient, exponent with
    | .str c, .num (.int e) =>
      decide (-32768 ≤ e ∧ e ≤ 32767) &&
        if c = ['0'] then decide (e = 0) else c.getLast? != some '0'
    | _, _ => false

variable (value v : Value) (count : Nat)

/-- `text/3`. -/
def visitText : Outcome Refusal Nat :=
  match v with
  | .str s =>
    if 4096 < s.bytes then .refuse .outputLimit
    else scalar value ["type", "value"] true count
  | _ => scalar value ["type", "value"] false count

/-- `bytes/3`. -/
def visitBytes : Outcome Refusal Nat :=
  match v with
  | .str s =>
    if 5464 < s.bytes then .refuse .outputLimit
    else if Grammar.closed value ["type", "base64"] then
      match Base.decode64 .standard true s with
      | some decoded =>
        if Base.encode64 .standard true decoded = s then
          if decoded.length ≤ 4096 then .ok (count + 1) else .refuse .outputLimit
        else .refuse .unsupportedValue
      | none => .refuse .unsupportedValue
    else .refuse .unsupportedValue
  | _ => .refuse .unsupportedValue

/-- `member/3`: the child of an entry and, in an object, its key. -/
def member (item : Value) (object : Bool) (previous : Option Text) :
    Outcome Refusal (Value × Option Text) :=
  if object then
    match fetch item "key", fetch item "value" with
    | some (.str key), some value =>
      if Grammar.closed item ["key", "value"] && decide (1 ≤ key.bytes ∧ key.bytes ≤ 128) &&
          previous.all (fun p => decide (p < key)) then
        .ok (value, some key)
      else .refuse .unsupportedValue
    | _, _ => .refuse .unsupportedValue
  else .ok (item, none)

/-- `value.ex:125-135`. -/
def members (visit : Value → Nat → Outcome Refusal Nat) (object : Bool) :
    List Value → Nat → Nat → Option Text → Outcome Refusal Nat
  | [], count, _, _ => .ok count
  | item :: rest, count, size, previous =>
    if 256 ≤ size then .refuse .outputLimit
    else do
      let (child, key) ← member item object previous
      let count ← visit child count
      members visit object rest count (size + 1) key

section

variable (visit : Value → Nat → Outcome Refusal Nat)

/-- `value.ex:117-123`. -/
def collection (object : Bool) (value : Value)
    (keys : List Text) (items : Value) (count : Nat) : Outcome Refusal Nat :=
  if Grammar.closed value keys then
    match items with
    | .arr items => members visit object items (count + 1) 0 none
    | _ => .refuse .unsupportedValue
  else .refuse .unsupportedValue

/-- The clauses of `visit/3` over the maps. -/
def node (value : Value) (count : Nat) :
    Outcome Refusal Nat :=
  match fetch value "type" with
  | some (.str type) =>
    if type = "null" then scalar value ["type"] true count
    else if type = "decimal" then
      match fetch value "coefficient", fetch value "exponent" with
      | some c, some e =>
        scalar value ["type", "coefficient", "exponent"] (isDecimal c e) count
      | _, _ => .refuse .unsupportedValue
    else if type = "bytes" then
      match fetch value "base64" with
      | some v => visitBytes value v count
      | none => .refuse .unsupportedValue
    else if type = "list" then
      match fetch value "items" with
      | some items => collection visit false value ["type", "items"] items count
      | none => .refuse .unsupportedValue
    else if type = "object" then
      match fetch value "entries" with
      | some entries => collection visit true value ["type", "entries"] entries count
      | none => .refuse .unsupportedValue
    else
      match fetch value "value" with
      | none => .refuse .unsupportedValue
      | some v =>
        if type = "boolean" then
          scalar value ["type", "value"] (v == .bool true || v == .bool false) count
        else if type = "text" then visitText value v count
        else if type = "sint" then
          scalar value ["type", "value"]
            (integer v (-9223372036854775808) 9223372036854775807) count
        else if type = "uint" then
          scalar value ["type", "value"] (integer v 0 18446744073709551615) count
        else .refuse .unsupportedValue
  | _ => .refuse .unsupportedValue

end

/-- `visit/3`, with the levels of nesting still allowed. -/
def visit : Nat → Value → Nat → Outcome Refusal Nat
  | 0, _, _ => .refuse .outputLimit
  | room + 1, value, count =>
    if 1024 ≤ count then .refuse .outputLimit else node (visit room) value count

variable (value : Value)

def canonical : Outcome Refusal Bytes :=
  match JSON.encode wire value with
  | .ok b => .ok b
  | .refuse .limitExceeded => .refuse .outputLimit
  | _ => .refuse .unsupportedValue

def validate : Outcome Refusal Value := do
  let _ ← visit 8 value 0
  let _ ← canonical value
  .ok value

def encode : Outcome Refusal Bytes := do
  let value ← validate value
  canonical value

end Codec

end Wotex.Runtime
