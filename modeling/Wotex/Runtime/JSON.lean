import Wotex.Json.Canonical
import Wotex.Term.Members
import Wotex.Term.Outcome
import Wotex.Term.Sorting
import Wotex.Term.Utf8

/-!
# Bounded integer JSON (`packages/wotex-runtime/lib/wotex/runtime/implementation/json.ex`)

`encode/2` writes a term with the members of each object in UTF-16 order; `decode/2` reads one back.
Both count nodes, and both refuse at the first limit passed. A term is a `Json.Value`; every other term
of the source (an atom, a tuple, a binary that is not UTF-8) is refused by `emit/5`, as a float is.

The nesting limit is what both recursions run on: `emit` and `parse` take the levels of nesting still
allowed, `limits.depth - depth`, and a level is written or read by means of the next one. The loops over
the members of a container run on the entries still allowed. `string/4` has no bound of its own, so its
loop has the length of the input as fuel, of which each turn takes at least one character.

The parser works on characters. The source matches bytes: in a valid UTF-8 binary an ASCII byte is an
ASCII character, and where the source takes four bytes behind `\u` that cut a character they are no
hexadecimal digits either way.
-/

namespace Wotex.Runtime.JSON

open Json (Value decimal)

/-- The limits of one call. -/
structure Limits where
  bytes : Nat
  depth : Nat
  nodes : Nat
  entries : Nat
  string : Nat

/-- `@defaults`. -/
def defaults : Limits := ⟨65536, 12, 4096, 1024, 4096⟩

/-- The two refusals. -/
inductive Fault where
  | invalidDescriptor
  | limitExceeded

/-- What a reader or a writer returns. -/
abbrev Result (α : Type) := Outcome Fault α

/-- `{:error, :invalid_descriptor}`. -/
abbrev invalid {α : Type} : Result α := .refuse .invalidDescriptor

/-- `{:error, :limit_exceeded}`. -/
abbrev exceeded {α : Type} : Result α := .refuse .limitExceeded

/-- `@safe`. -/
def safe : Int := 9007199254740991

/-! ## Reading strings -/

variable (c : Char)

/-- JSON whitespace. -/
def blank : Bool := c == ' ' || c == '\t' || c == '\n' || c == '\r'

def skip (input : Text) : Text := input.dropWhile blank

/-- A hexadecimal digit of either case. -/
def hexDigit : Option Nat :=
  if '0' ≤ c ∧ c ≤ '9' then some (c.toNat - 48)
  else if 'a' ≤ c ∧ c ≤ 'f' then some (c.toNat - 87)
  else if 'A' ≤ c ∧ c ≤ 'F' then some (c.toNat - 55)
  else none

/-- `hex/1` of four characters. -/
def hex (a b c d : Char) : Result Nat :=
  match hexDigit a, hexDigit b, hexDigit c, hexDigit d with
  | some a, some b, some c, some d => .ok (((a * 16 + b) * 16 + c) * 16 + d)
  | _, _, _, _ => invalid

/-- `surrogate/2`: the second half of a pair is read too, and a half alone is refused. -/
def surrogate (point : Nat) (rest : Text) : Result (Nat × Text) :=
  if 0xD800 ≤ point ∧ point ≤ 0xDBFF then
    match rest with
    | '\\' :: 'u' :: a :: b :: c :: d :: rest => do
      let low ← hex a b c d
      if 0xDC00 ≤ low ∧ low ≤ 0xDFFF then
        .ok (0x10000 + (point - 0xD800) * 1024 + low - 0xDC00, rest)
      else invalid
    | _ => invalid
  else if 0xDC00 ≤ point ∧ point ≤ 0xDFFF then invalid
  else .ok (point, rest)

/-- The short escapes. -/
def unescape : Option Char :=
  if c = '"' ∨ c = '\\' ∨ c = '/' then some c
  else if c = 'b' then some '\x08'
  else if c = 'f' then some '\x0c'
  else if c = 'n' then some '\n'
  else if c = 'r' then some '\r'
  else if c = 't' then some '\t'
  else none

/-- What follows a backslash. -/
def escaped : Text → Result (Option Char × Text)
  | [] => invalid
  | c :: rest =>
    if c = 'u' then
      match rest with
      | a :: b :: c :: d :: rest => do
        let high ← hex a b c d
        let (point, rest) ← surrogate high rest
        .ok (some (Char.ofNat point), rest)
      | _ => invalid
    else
      match unescape c with
      | some c => .ok (some c, rest)
      | none => invalid

/-- The next character of a string, `none` at its closing quote. -/
def character : Text → Result (Option Char × Text)
  | [] => invalid
  | c :: rest =>
    if c = '"' then .ok (none, rest)
    else if c = '\\' then escaped rest
    else if 0x20 ≤ c.toNat then .ok (some c, rest)
    else invalid

/-- `string/4` and `append_string/5`. -/
def stringLoop (limit : Nat) : Nat → Text → Text → Nat → Result (Text × Text)
  | 0, _, _, _ => invalid
  | fuel + 1, input, acc, size => do
    match ← character input with
    | (none, rest) => .ok (acc.reverse, rest)
    | (some c, rest) =>
      if size + c.utf8Size ≤ limit then stringLoop limit fuel rest (c :: acc) (size + c.utf8Size)
      else exceeded

/-- A string behind its opening quote, and what follows it. -/
def string (limit : Nat) (input : Text) : Result (Text × Text) :=
  stringLoop limit (input.length + 1) input [] 0

/-! ## Reading numbers and literals -/

/-- A character of a number token. -/
def numeric : Bool :=
  c == '-' || c == '+' || c == '.' || c == 'e' || c == 'E' || c.isDigit

/-- `number/2`: the token in front of the input; one of more than eighteen characters is spoilt. -/
def number : Text → Text → Text × Text
  | [], token => (token, [])
  | c :: rest, token =>
    if numeric c then
      if token.length < 18 then number rest (token ++ [c]) else (token ++ ['!'], rest)
    else (token, c :: rest)

/-- `0|[1-9][0-9]*`. -/
def natural? (digits : Text) : Option Nat :=
  match digits with
  | [] => none
  | c :: rest =>
    if (c == '0' && rest.isEmpty) || (c != '0' && c.isDigit && rest.all Char.isDigit) then
      some (Nat.ofDigitChars 10 digits 0)
    else none

/-- `-?(0|[1-9][0-9]*)` and `String.to_integer/1`. -/
def integer? : Text → Option Int
  | [] => none
  | c :: rest =>
    if c = '-' then (natural? rest).map fun n => -(n : Int) else (natural? (c :: rest)).map Int.ofNat

/-- The last clause of `parse/4`. -/
def numeral (input : Text) (nodes : Nat) : Result (Value × Text × Nat) :=
  let (token, rest) := number input []
  if token.length ≤ 17 then
    match integer? token with
    | some i => if |i| ≤ safe then .ok (.num (.int i), rest, nodes + 1) else invalid
    | none => invalid
  else invalid

/-- The literals and what they stand for. -/
def literal : Text → Option (Value × Text)
  | 'n' :: 'u' :: 'l' :: 'l' :: rest => some (.null, rest)
  | 't' :: 'r' :: 'u' :: 'e' :: rest => some (.bool true, rest)
  | 'f' :: 'a' :: 'l' :: 's' :: 'e' :: rest => some (.bool false, rest)
  | _ => none

/-! ## Reading containers -/

/-- A reader of one value: the input and the nodes counted, to the value, the rest and the nodes. -/
abbrev Reader := Text → Nat → Result (Value × Text × Nat)

/-- `array/7`: the entries still allowed, the items read, and whether a comma was read. -/
def array (read : Reader) : Nat → List Value → Bool → Text → Nat → Result (List Value × Text × Nat)
  | left, acc, more, input, nodes =>
    if !more && input.head? == some ']' then .ok (acc.reverse, input.tail, nodes)
    else
      match left with
      | 0 => exceeded
      | left + 1 => do
        let (value, rest, nodes) ← read input nodes
        match skip rest with
        | ',' :: next => array read left (value :: acc) true (skip next) nodes
        | ']' :: next => .ok ((value :: acc).reverse, next, nodes)
        | _ => invalid

variable (limits : Limits)

/-- A key behind its opening quote, and what follows the colon. -/
def label (acc : Dict Value) (input : Text) : Result (Text × Text) := do
  let (key, rest) ← string limits.string input
  if (acc.get key).isSome then invalid
  else
    match skip rest with
    | ':' :: rest => .ok (key, skip rest)
    | _ => invalid

/-- `object/6`: the entries still allowed, the members read, and whether a comma was read. -/
def object (limits : Limits) (read : Reader) :
    Nat → Dict Value → Bool → Text → Nat → Result (Dict Value × Text × Nat)
  | left, acc, more, input, nodes =>
    if !more && input.head? == some '}' then .ok (acc, input.tail, nodes)
    else
      match left with
      | 0 => exceeded
      | left + 1 =>
        match input with
        | '"' :: rest => do
          let (key, rest) ← label limits acc rest
          let (value, rest, nodes) ← read rest nodes
          match skip rest with
          | ',' :: next => object limits read left (acc.put key value) true (skip next) nodes
          | '}' :: next => .ok (acc.put key value, next, nodes)
          | _ => invalid
        | _ => invalid

/-- One value, given a reader of the values one level deeper where there may be any. -/
def level (deeper : Option Reader) : Reader := fun input nodes =>
  if limits.nodes ≤ nodes then exceeded
  else
    match input with
    | '{' :: rest =>
      match deeper with
      | none => exceeded
      | some read => do
        let (members, rest, nodes) ←
          object limits read limits.entries Dict.empty false (skip rest) (nodes + 1)
        .ok (.obj members.entries, rest, nodes)
    | '[' :: rest =>
      match deeper with
      | none => exceeded
      | some read => do
        let (items, rest, nodes) ← array read limits.entries [] false (skip rest) (nodes + 1)
        .ok (.arr items, rest, nodes)
    | '"' :: rest => do
      let (s, rest) ← string limits.string rest
      .ok (.str s, rest, nodes + 1)
    | input =>
      match literal input with
      | some (value, rest) => .ok (value, rest, nodes + 1)
      | none => numeral input nodes

/-- `parse/4`, with the levels of nesting still allowed. -/
def parse (limits : Limits) : Nat → Reader
  | 0 => level limits none
  | room + 1 => level limits (some (parse limits room))

/-- `json.ex:11-29`. -/
def decode (input : Bytes) : Result Value :=
  if limits.bytes < input.length then exceeded
  else
    match input.text? with
    | none => invalid
    | some text => do
      let (value, rest, _) ← parse limits limits.depth (skip text) 0
      if skip rest = [] then .ok value else invalid

/-! ## Writing -/

/-- One character in a string. -/
def escape : Text :=
  if c = '"' then ['\\', '"']
  else if c = '\\' then ['\\', '\\']
  else if c.toNat = 8 then ['\\', 'b']
  else if c.toNat = 9 then ['\\', 't']
  else if c.toNat = 10 then ['\\', 'n']
  else if c.toNat = 12 then ['\\', 'f']
  else if c.toNat = 13 then ['\\', 'r']
  else if c.toNat < 32 then
    ['\\', 'u', '0', '0', hexLower (c.toNat / 16), hexLower (c.toNat % 16)]
  else [c]

/-- A string with its quotes. -/
def quoted (s : Text) : Text := '"' :: (s.flatMap escape ++ ['"'])

/-- `json.ex:260-275`. -/
def scalar : Value → Result Text
  | .null => .ok ['n', 'u', 'l', 'l']
  | .bool true => .ok ['t', 'r', 'u', 'e']
  | .bool false => .ok ['f', 'a', 'l', 's', 'e']
  | .num (.int i) => if -safe ≤ i ∧ i ≤ safe then .ok (decimal i) else invalid
  | .str s => if limits.string < s.bytes then exceeded else .ok (quoted s)
  | _ => invalid

/-- The UTF-16 code units of a text; big-endian binaries are ordered as their units are. -/
def utf16 (t : Text) : List Nat :=
  t.flatMap fun c =>
    if c.toNat < 0x10000 then [c.toNat]
    else [0xD800 + (c.toNat - 0x10000) / 1024, 0xDC00 + (c.toNat - 0x10000) % 1024]

/-- The members of an object in the order they are written. -/
def pairs (members : List (Text × Value)) : List (Text × Value) :=
  sortBy (fun m => utf16 m.1) members

/-- A writer of one value: the value, the nodes and the bytes counted, to its text and both counts. -/
abbrev Writer := Value → Nat → Nat → Result (Text × Nat × Nat)

def size (bytes max : Nat) : Result Unit := Outcome.require (decide (bytes ≤ max)) .limitExceeded

/-- `finish/6`; the parts come last first. -/
def finish (first last : Char) (acc : List Text) (nodes bytes : Nat) :
    Result (Text × Nat × Nat) := do
  size bytes limits.bytes
  .ok (first :: ([','].intercalate acc.reverse ++ [last]), nodes, bytes)

/-- `json.ex:230-244`. -/
def emitArray (limits : Limits) (write : Writer) :
    List Value → List Text → Nat → Nat → Nat → Result (Text × Nat × Nat)
  | [], acc, _, nodes, bytes => finish limits '[' ']' acc nodes bytes
  | value :: rest, acc, count, nodes, bytes =>
    if count < limits.entries then do
      let (part, nodes, bytes) ← write value nodes (bytes + if count = 0 then 0 else 1)
      emitArray limits write rest (part :: acc) (count + 1) nodes bytes
    else exceeded

/-- `json.ex:219-228`. -/
def emitObject (limits : Limits) (write : Writer) :
    List (Text × Value) → List Text → Nat → Nat → Result (Text × Nat × Nat)
  | [], acc, nodes, bytes => finish limits '{' '}' acc nodes bytes
  | (key, value) :: rest, acc, nodes, bytes => do
    let key ← scalar limits (.str key)
    let bytes := bytes + key.bytes + 1 + if acc = [] then 0 else 1
    size bytes limits.bytes
    let (part, nodes, bytes) ← write value nodes bytes
    emitObject limits write rest ((key ++ ':' :: part) :: acc) nodes bytes

/-- One value, given a writer of the values one level deeper where there may be any. -/
def emitLevel (deeper : Option Writer) : Writer := fun value nodes bytes =>
  if limits.nodes ≤ nodes then exceeded
  else
    match value, deeper with
    | .obj members, some write =>
      if members.length ≤ limits.entries then
        emitObject limits write (pairs members) [] (nodes + 1) (bytes + 2)
      else exceeded
    | .arr items, some write => emitArray limits write items [] 0 (nodes + 1) (bytes + 2)
    | .obj _, none | .arr _, none => exceeded
    | value, _ => do
      let part ← scalar limits value
      size (bytes + part.bytes) limits.bytes
      .ok (part, nodes + 1, bytes + part.bytes)

/-- `emit/5`, with the levels of nesting still allowed. -/
def emit (limits : Limits) : Nat → Writer
  | 0 => emitLevel limits none
  | room + 1 => emitLevel limits (some (emit limits room))

def encode (value : Value) : Result Bytes := do
  let (text, _, _) ← emit limits limits.depth value 0 0
  .ok text.utf8

/-- `Base.encode16(bytes, case: :lower)`. -/
def encode16 (b : Bytes) : Text :=
  b.flatMap fun x => [hexLower (x.toNat / 16), hexLower (x.toNat % 16)]

/-- `digest/1`, over the hash of `:crypto`. -/
def digest (sha256 : Bytes → Bytes) (value : Value) : Result Text := do
  let encoded ← encode defaults value
  .ok (encode16 (sha256 encoded))

end Wotex.Runtime.JSON
