import Wotex.Runtime.RoundTrip

/-!
# The JSON text of the store

The store writes its state with `dump()` and reads it with `parse` of `nlohmann::json`. Strings, blanks and
decimal numerals are those of RFC 8259, as they are read and written for the runtime's descriptors
(`Runtime.JSON`). The reader keeps what `ParseState` asks of it: a number is kept where
`is_number_unsigned` holds; any other number, and an object with a key written twice, is refused at once,
where the source reads on and then refuses the document, in which no such value may stand. The callback of
`ParseState` throws at nesting `9`, so the reader runs on the levels still allowed.

Result: `parse_dump`, a text written by `dump` reads back.
-/

namespace Wotex.Matter

open Runtime.JSON (blank skip numeric natural? character escape quoted)
open List

/-- A JSON document, with the members of an object in the order of the text. -/
inductive Json where
  | null
  | bool (b : Bool)
  | unsigned (n : Nat)
  | string (s : Text)
  | array (items : List Json)
  | object (members : List (Text × Json))

namespace Json

/-! ## Writing -/

mutual
/-- `dump()`. -/
def dump : Json → Text
  | .null => ['n', 'u', 'l', 'l']
  | .bool true => ['t', 'r', 'u', 'e']
  | .bool false => ['f', 'a', 'l', 's', 'e']
  | .unsigned n => Nat.toDigits 10 n
  | .string s => quoted s
  | .array [] => ['[', ']']
  | .array (v :: vs) => '[' :: (dump v ++ dumpItems vs)
  | .object [] => ['{', '}']
  | .object ((k, v) :: ms) => '{' :: (quoted k ++ ':' :: (dump v ++ dumpMembers ms))

/-- The items behind the first, and the closing bracket. -/
def dumpItems : List Json → Text
  | [] => [']']
  | v :: vs => ',' :: (dump v ++ dumpItems vs)

/-- The members behind the first, and the closing brace. -/
def dumpMembers : List (Text × Json) → Text
  | [] => ['}']
  | (k, v) :: ms => ',' :: (quoted k ++ ':' :: (dump v ++ dumpMembers ms))
end

/-! ## Reading -/

/-- A reader of one value: the value and the rest of the text. -/
abbrev Reader := Text → Option (Json × Text)

/-- A string behind its opening quote, with the characters there can be as fuel. -/
def readString : Nat → Text → Option (Text × Text)
  | 0, _ => none
  | fuel + 1, input =>
    match character input with
    | .ok (none, rest) => some ([], rest)
    | .ok (some c, rest) => (readString fuel rest).map fun (s, rest) => (c :: s, rest)
    | _ => none

/-- A number that `is_number_unsigned` holds of. -/
def readNumber (input : Text) : Option (Json × Text) :=
  let token := input.takeWhile numeric
  match natural? token with
  | some n => if n < 2 ^ 64 then some (.unsigned n, input.dropWhile numeric) else none
  | none => none

/-- A literal or a number. -/
def readScalar : Reader
  | 'n' :: 'u' :: 'l' :: 'l' :: rest => some (.null, rest)
  | 't' :: 'r' :: 'u' :: 'e' :: rest => some (.bool true, rest)
  | 'f' :: 'a' :: 'l' :: 's' :: 'e' :: rest => some (.bool false, rest)
  | input => readNumber input

/-- The items of an array that has one, up to its closing bracket. -/
def readItems (read : Reader) : Nat → Text → Option (List Json × Text)
  | 0, _ => none
  | fuel + 1, input => do
    let (v, rest) ← read input
    match skip rest with
    | ',' :: next => (readItems read fuel (skip next)).map fun (vs, rest) => (v :: vs, rest)
    | ']' :: next => some ([v], next)
    | _ => none

/-- A key and the colon behind it. -/
def readKey : Text → Option (Text × Text)
  | '"' :: input => do
    let (key, rest) ← readString (input.length + 1) input
    match skip rest with
    | ':' :: rest => some (key, skip rest)
    | _ => none
  | _ => none

/-- The members of an object that has one, up to its closing brace. -/
def readMembers (read : Reader) : Nat → Text → Option (List (Text × Json) × Text)
  | 0, _ => none
  | fuel + 1, input => do
    let (key, rest) ← readKey input
    let (v, rest) ← read rest
    match skip rest with
    | ',' :: next =>
      (readMembers read fuel (skip next)).map fun (ms, rest) => ((key, v) :: ms, rest)
    | '}' :: next => some ([(key, v)], next)
    | _ => none

/-- One value, by means of a reader of the values one level deeper. -/
def level (read : Reader) : Reader
  | '{' :: rest =>
    match skip rest with
    | '}' :: next => some (.object [], next)
    | input => do
      let (ms, rest) ← readMembers read (input.length + 1) input
      if (ms.map Prod.fst).Nodup then some (.object ms, rest) else none
  | '[' :: rest =>
    match skip rest with
    | ']' :: next => some (.array [], next)
    | input => (readItems read (input.length + 1) input).map fun (vs, rest) => (.array vs, rest)
  | '"' :: rest => (readString (rest.length + 1) rest).map fun (s, rest) => (.string s, rest)
  | input => readScalar input

/-- A value with so many levels still allowed. -/
def value : Nat → Reader
  | 0 => fun _ => none
  | room + 1 => level (value room)

/-- A byte order mark in front of the text is skipped. -/
def unmarked : Text → Text
  | [] => []
  | c :: rest => if c.toNat = 0xFEFF then rest else c :: rest

/-- The text that the lexer reads; what follows a NUL need not be UTF-8. -/
def scanned (contents : Bytes) : Option Text :=
  contents.text? <|> Bytes.text? (contents.takeWhile (· ≠ 0))

/-- `Json::parse` with the callback of `ParseState`. The lexer takes a NUL outside a string for the end of
its input. -/
def parse (contents : Bytes) : Option Json := do
  let text ← scanned contents
  let (v, rest) ← value 9 (skip (unmarked text))
  match skip rest with
  | [] => some v
  | c :: _ => if c = '\x00' then some v else none

/-! ## Reading back -/

/-- What the reader takes with so many levels allowed. -/
def Fits : Nat → Json → Prop
  | 0, _ => False
  | _ + 1, .unsigned n => n < 2 ^ 64
  | room + 1, .array vs => ∀ v ∈ vs, Fits room v
  | room + 1, .object ms => (ms.map Prod.fst).Nodup ∧ ∀ m ∈ ms, Fits room m.2
  | _ + 1, _ => True

/-- What may follow a value: nothing that continues a number. -/
def Ends (rest : Text) : Prop := ∀ c ∈ rest.head?, numeric c = false

theorem readString_escape {rest : Text} : ∀ (s : Text) {fuel : Nat}, s.length < fuel →
    readString fuel (s.flatMap escape ++ '"' :: rest) = some (s, rest)
  | [], fuel + 1, _ => by simp [readString, character]
  | c :: s, fuel + 1, h => by
    rw [length_cons] at h
    rw [flatMap_cons, append_assoc, readString, Runtime.JSON.character_escape]
    simp [readString_escape s (show s.length < fuel by omega)]

theorem readString_quoted (s rest : Text) :
    ∃ tail, quoted s ++ rest = '"' :: tail ∧ readString (tail.length + 1) tail = some (s, rest) := by
  refine ⟨s.flatMap escape ++ '"' :: rest, by simp [quoted], readString_escape s ?_⟩
  have := Runtime.JSON.length_le_length_escape s
  rw [length_append]
  omega

theorem numeric_toDigits {n : Nat} {c : Char} (h : c ∈ Nat.toDigits 10 n) : numeric c = true := by
  simp [numeric, Wotex.Json.toDigits_isDigit h]

theorem takeWhile_numeric {digits rest : Text} (h : ∀ c ∈ digits, numeric c = true) (hrest : Ends rest) :
    (digits ++ rest).takeWhile numeric = digits ∧ (digits ++ rest).dropWhile numeric = rest := by
  have hr : rest.takeWhile numeric = [] ∧ rest.dropWhile numeric = rest := by
    cases rest with
    | nil => simp
    | cons c rest => simp [hrest c rfl]
  rw [takeWhile_append_of_pos h, dropWhile_append_of_pos h, hr.1, hr.2, append_nil]
  exact ⟨rfl, rfl⟩

theorem readNumber_toDigits {n : Nat} {rest : Text} (hn : n < 2 ^ 64) (hrest : Ends rest) :
    readNumber (Nat.toDigits 10 n ++ rest) = some (.unsigned n, rest) := by
  obtain ⟨ht, hd⟩ := takeWhile_numeric (fun c => numeric_toDigits (n := n) (c := c)) hrest
  simp only [readNumber, ht, hd, Runtime.JSON.natural_toDigits, if_pos hn]

/-- The first character of a written value: ASCII, no blank, and no closing bracket. -/
theorem dump_head (v : Json) :
    ∃ c tail, v.dump = c :: tail ∧ c.toNat < 128 ∧ blank c = false ∧ c ≠ ']' := by
  match v with
  | .null | .bool true | .bool false | .array [] | .object [] =>
    exact ⟨_, _, rfl, by decide, rfl, by decide⟩
  | .string s => exact ⟨'"', _, rfl, by decide, rfl, by decide⟩
  | .array (v :: vs) => exact ⟨'[', _, by rw [dump], by decide, rfl, by decide⟩
  | .object ((k, v) :: ms) => exact ⟨'{', _, by rw [dump], by decide, rfl, by decide⟩
  | .unsigned n =>
    cases h : Nat.toDigits 10 n with
    | nil => exact absurd h Nat.toDigits_ne_nil
    | cons c tail =>
      have hc : c.isDigit = true := Wotex.Json.toDigits_isDigit (n := n) (h ▸ mem_cons_self)
      have hne : ∀ d : Char, d.isDigit = false → c ≠ d := by
        rintro d hd rfl
        rw [hd] at hc
        cases hc
      have hle : c.toNat ≤ 57 := by
        simp only [Char.isDigit, Bool.and_eq_true, decide_eq_true_eq] at hc
        exact hc.2
      refine ⟨c, tail, by rw [dump, h], by omega, ?_, hne ']' rfl⟩
      simp [blank, hne ' ' rfl, hne '\t' rfl, hne '\n' rfl, hne '\r' rfl]

theorem skip_dump (v : Json) (rest : Text) : skip (v.dump ++ rest) = v.dump ++ rest := by
  obtain ⟨c, tail, h, -, hc, -⟩ := v.dump_head
  rw [h, cons_append, skip, dropWhile_cons_of_neg (by simp [hc])]

/-- The reader takes the value off the front of its text. -/
def Reads (read : Reader) (v : Json) : Prop :=
  ∀ rest, Ends rest → read (v.dump ++ rest) = some (v, rest)

section Containers

variable {read : Reader}

theorem ends_items (vs : List Json) (rest : Text) :
    Ends (dumpItems vs ++ rest) ∧ skip (dumpItems vs ++ rest) = dumpItems vs ++ rest := by
  cases vs <;> exact ⟨fun c hc => by obtain rfl := Option.some.inj hc; rfl, rfl⟩

theorem ends_members (ms : List (Text × Json)) (rest : Text) :
    Ends (dumpMembers ms ++ rest) ∧ skip (dumpMembers ms ++ rest) = dumpMembers ms ++ rest := by
  cases ms <;> exact ⟨fun c hc => by obtain rfl := Option.some.inj hc; rfl, rfl⟩

theorem readItems_dump (rest : Text) : ∀ (vs : List Json) (v : Json) (fuel : Nat),
    (∀ w ∈ v :: vs, Reads read w) → vs.length < fuel →
      readItems read fuel (v.dump ++ (dumpItems vs ++ rest)) = some (v :: vs, rest)
  | [], v, fuel + 1, h, _ => by
    rw [readItems, h v (by simp) _ (ends_items [] rest).1]
    simp [dumpItems, skip, blank]
  | w :: vs, v, fuel + 1, h, hfuel => by
    rw [length_cons] at hfuel
    have ih := readItems_dump rest vs w fuel (fun x hx => h x (mem_cons_of_mem _ hx)) (by omega)
    rw [readItems, h v (by simp) _ (ends_items (w :: vs) rest).1]
    simp only [Option.bind_eq_bind, Option.bind_some, (ends_items (w :: vs) rest).2]
    simp [dumpItems, skip_dump, ih]

theorem readKey_quoted (key : Text) (v : Json) (rest : Text) :
    readKey (quoted key ++ ':' :: (v.dump ++ rest)) = some (key, v.dump ++ rest) := by
  obtain ⟨tail, htail, hread⟩ := readString_quoted key (':' :: (v.dump ++ rest))
  rw [htail, readKey, hread]
  change some (key, skip (v.dump ++ rest)) = _
  rw [skip_dump]

theorem readMembers_dump (rest : Text) : ∀ (ms : List (Text × Json)) (k : Text) (v : Json) (fuel : Nat),
    (∀ m ∈ (k, v) :: ms, Reads read m.2) → ms.length < fuel →
      readMembers read fuel (quoted k ++ ':' :: (v.dump ++ (dumpMembers ms ++ rest))) =
        some ((k, v) :: ms, rest)
  | [], k, v, fuel + 1, h, _ => by
    rw [readMembers, readKey_quoted]
    simp only [Option.bind_eq_bind, Option.bind_some]
    rw [h (k, v) (by simp) _ (ends_members [] rest).1]
    simp [dumpMembers, skip, blank]
  | (l, w) :: ms, k, v, fuel + 1, h, hfuel => by
    rw [length_cons] at hfuel
    have ih := readMembers_dump rest ms l w fuel (fun x hx => h x (mem_cons_of_mem _ hx)) (by omega)
    rw [readMembers, readKey_quoted]
    simp only [Option.bind_eq_bind, Option.bind_some]
    rw [h (k, v) (by simp) _ (ends_members ((l, w) :: ms) rest).1]
    simp only [Option.bind_some, (ends_members ((l, w) :: ms) rest).2]
    have hskip : skip (quoted l ++ ':' :: (w.dump ++ (dumpMembers ms ++ rest))) =
        quoted l ++ ':' :: (w.dump ++ (dumpMembers ms ++ rest)) := by
      rfl
    simp [dumpMembers, hskip, ih]

end Containers

variable {read : Reader}

theorem level_unsigned {n : Nat} (h : n < 2 ^ 64) : Reads (level read) (.unsigned n) := by
  intro rest hrest
  have hread := readNumber_toDigits h hrest
  rw [dump]
  cases hd : Nat.toDigits 10 n with
  | nil => exact absurd hd Nat.toDigits_ne_nil
  | cons c tail =>
    have hc : c.isDigit = true := Wotex.Json.toDigits_isDigit (n := n) (hd ▸ mem_cons_self)
    rw [hd, cons_append] at hread
    rw [cons_append]
    -- a digit opens none of the other values
    have hscalar : readScalar (c :: (tail ++ rest)) = readNumber (c :: (tail ++ rest)) := by
      unfold readScalar
      split
      iterate 3 rename_i heq; obtain rfl := (cons.inj heq).1; cases hc
      rfl
    unfold level
    split
    iterate 3 rename_i heq; obtain rfl := (cons.inj heq).1; cases hc
    rw [hscalar, hread]

theorem length_items (vs : List Json) : vs.length < (dumpItems vs).length := by
  induction vs with
  | nil => exact Nat.one_pos
  | cons v vs ih =>
    simp only [dumpItems, length_cons, length_append]
    omega

theorem length_members (ms : List (Text × Json)) : ms.length < (dumpMembers ms).length := by
  induction ms with
  | nil => exact Nat.one_pos
  | cons m ms ih =>
    simp only [dumpMembers, length_cons, length_append]
    omega

theorem level_array {v : Json} {vs : List Json} (h : ∀ w ∈ v :: vs, Reads read w) :
    Reads (level read) (.array (v :: vs)) := by
  intro rest _
  have hlen := length_items vs
  have hskip := v.skip_dump (dumpItems vs ++ rest)
  have hread := readItems_dump rest vs v ((v.dump ++ (dumpItems vs ++ rest)).length + 1) h (by simp; omega)
  obtain ⟨c, tail, hhead, -, -, hc⟩ := v.dump_head
  rw [dump, cons_append, append_assoc, level]
  split
  · rename_i heq
    rw [hskip, hhead] at heq
    exact absurd (cons.inj heq).1 hc
  · rw [hskip, hread]
    rfl

theorem level_object {k : Text} {v : Json} {ms : List (Text × Json)}
    (hkeys : (((k, v) :: ms).map Prod.fst).Nodup) (h : ∀ m ∈ (k, v) :: ms, Reads read m.2) :
    Reads (level read) (.object ((k, v) :: ms)) := by
  intro rest _
  have hlen := length_members ms
  have hread := readMembers_dump rest ms k v
    ((quoted k ++ ':' :: (v.dump ++ (dumpMembers ms ++ rest))).length + 1) h (by simp; omega)
  have hskip : skip (quoted k ++ ':' :: (v.dump ++ (dumpMembers ms ++ rest))) =
      quoted k ++ ':' :: (v.dump ++ (dumpMembers ms ++ rest)) := by
    rfl
  rw [dump, cons_append, append_assoc, cons_append, append_assoc, level]
  split
  · rename_i heq
    cases (cons.inj heq).1
  · rw [hskip, hread]
    simp [if_pos hkeys]

/-- **Every value that fits reads back.** -/
theorem reads_value : ∀ (room : Nat) (v : Json), Fits room v → Reads (value room) v
  | 0, _, h => absurd h id
  | _ + 1, .unsigned _, h => level_unsigned h
  | _ + 1, .null, _ => fun _ _ => rfl
  | _ + 1, .bool true, _ => fun _ _ => rfl
  | _ + 1, .bool false, _ => fun _ _ => rfl
  | _ + 1, .array [], _ => fun _ _ => rfl
  | _ + 1, .object [], _ => fun _ _ => rfl
  | _ + 1, .string s, _ => by
    intro rest _
    obtain ⟨tail, htail, hread⟩ := readString_quoted s rest
    rw [dump, htail, value, level, hread]
    rfl
  | room + 1, .array (v :: vs), h => level_array fun w hw => reads_value room w (h w hw)
  | room + 1, .object ((k, v) :: ms), h =>
    level_object h.1 fun m hm => reads_value room m.2 (h.2 m hm)

/-- **A text written by `dump` reads back**, with a line end behind it. -/
theorem parse_dump {v : Json} (h : Fits 9 v) : parse (v.dump ++ ['\n']).utf8 = some v := by
  have hread := reads_value 9 v h ['\n'] fun c hc => by obtain rfl := Option.some.inj hc; rfl
  obtain ⟨c, tail, hhead, hc, -, -⟩ := v.dump_head
  have hmark : unmarked (v.dump ++ ['\n']) = v.dump ++ ['\n'] := by
    rw [hhead, cons_append, unmarked, if_neg (by omega)]
  rw [parse, scanned, Text.text_utf8]
  simp only [Option.orElse_eq_orElse, Option.orElse_some, Option.bind_eq_bind, Option.bind_some, hmark,
    skip_dump, hread]
  rfl

end Json

end Wotex.Matter
