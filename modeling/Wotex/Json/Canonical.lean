import Wotex.Json.Value
import Mathlib.Tactic.IntervalCases

/-!
# The canonical encoding (`encode/2`, `packages/wotex/lib/wotex/json.ex:57-62, 352-373`)

`encode_value/1` writes objects with sorted keys, without white space, and leaves scalars and keys
to `Jason`. The canonical text is a list of characters; the canonical bytes are its UTF-8.
Integers are written in decimal and strings with the escapes of RFC 8259. How `Jason` renders a
float is a parameter (`float`), with its documented behaviour as `FloatText`: the shortest
decimal that reads back as the same double, always with a fraction or an exponent.

Result: **`encode_inj`**, two terms with one canonical text are identical. The proof reads a
text back from the left: `encode_append_inj` says that a term's text can be continued in one way
only, where the continuation starts with a delimiter.
-/

namespace Wotex.Json

/-! ## Scalars -/

/-- An upper case hexadecimal digit. -/
def hexUpper (n : Nat) : Char :=
  if n < 10 then Char.ofNat (48 + n) else Char.ofNat (55 + n)

/-- A character above the control characters and other than the quote and the backslash, by its
code point (`!` and the blank, which also stand for themselves, are left to `escape`). -/
def plain (c : Char) : Bool := decide (92 < c.toNat) || (decide (34 < c.toNat) && c.toNat != 92)

/-- One character of a JSON string: `Jason`'s escapes. -/
def escape (c : Char) : List Char :=
  if plain c then [c]
  else if c = '"' then ['\\', '"']
  else if c = '\\' then ['\\', '\\']
  else if c = '\x08' then ['\\', 'b']
  else if c = '\t' then ['\\', 't']
  else if c = '\n' then ['\\', 'n']
  else if c = '\x0c' then ['\\', 'f']
  else if c = '\r' then ['\\', 'r']
  else if c.toNat < 32 then ['\\', 'u', '0', '0', hexUpper (c.toNat / 16), hexUpper (c.toNat % 16)]
  else [c]

/-- A string or an object key, without the opening quote. -/
def quoteTail (cs : List Char) : List Char := cs.flatMap escape ++ ['"']

/-- A string or an object key. -/
def quote (s : Text) : List Char := '"' :: quoteTail s

/-- An integer in decimal. -/
def decimal : Int → List Char
  | .ofNat n => Nat.toDigits 10 n
  | .negSucc n => '-' :: Nat.toDigits 10 (n + 1)

/-! ## Terms -/

section Encode

variable (float : Flt → List Char)

mutual
/-- `encode_value/1`. -/
def encode : Value → List Char
  | .null => ['n', 'u', 'l', 'l']
  | .bool true => ['t', 'r', 'u', 'e']
  | .bool false => ['f', 'a', 'l', 's', 'e']
  | .num (.int i) => decimal i
  | .num (.flt f) => float f
  | .str s => quote s
  | .arr [] => ['[', ']']
  | .arr (v :: vs) => '[' :: (encode v ++ encodeItems vs)
  | .obj [] => ['{', '}']
  | .obj ((k, v) :: ms) => '{' :: (quote k ++ ':' :: (encode v ++ encodeMembers ms))

/-- The items after the first one, each behind a comma, and the closing bracket. -/
def encodeItems : List Value → List Char
  | [] => [']']
  | v :: vs => ',' :: (encode v ++ encodeItems vs)

/-- The members after the first one, each behind a comma, and the closing brace. -/
def encodeMembers : List (Text × Value) → List Char
  | [] => ['}']
  | (k, v) :: ms => ',' :: (quote k ++ ':' :: (encode v ++ encodeMembers ms))
end

/-- The bytes of a string or an object key. -/
def quotedSize (s : Text) : Nat := (s.map fun c => Text.bytes (escape c)).sum + 2

mutual
/-- The bytes of the canonical text, without the text. -/
def encodedSize : Value → Nat
  | .str s => quotedSize s
  | .arr [] => 2
  | .arr (v :: vs) => encodedSize v + encodedSizeItems vs + 1
  | .obj [] => 2
  | .obj ((k, v) :: ms) => quotedSize k + encodedSize v + encodedSizeMembers ms + 2
  | v => Text.bytes (encode float v)

/-- The bytes of the items after the first one and of the closing bracket. -/
def encodedSizeItems : List Value → Nat
  | [] => 1
  | v :: vs => encodedSize v + encodedSizeItems vs + 1

/-- The bytes of the members after the first one and of the closing brace. -/
def encodedSizeMembers : List (Text × Value) → Nat
  | [] => 1
  | (k, v) :: ms => quotedSize k + encodedSize v + encodedSizeMembers ms + 2
end

end Encode

/-! ## The length of a text -/

section Size

variable (float : Flt → List Char)

theorem bytes_append (a b : Text) : (a ++ b : Text).bytes = a.bytes + b.bytes := by
  simp [Text.bytes]

theorem bytes_cons (c : Char) (a : Text) : Text.bytes (c :: a) = c.utf8Size + a.bytes := by
  simp [Text.bytes]

theorem bytes_quote (s : Text) : Text.bytes (quote s) = quotedSize s := by
  unfold quote quoteTail quotedSize
  rw [bytes_cons, bytes_append]
  have h : ∀ cs : Text, Text.bytes (cs.flatMap escape) = (cs.map fun c => Text.bytes (escape c)).sum := by
    intro cs
    induction cs with
    | nil => rfl
    | cons c cs ih => rw [List.flatMap_cons, bytes_append, ih, List.map_cons, List.sum_cons]
  rw [h]
  show 1 + (_ + 1) = _ + 2
  omega

mutual
theorem bytes_encode : ∀ v : Value, Text.bytes (encode float v) = encodedSize float v
  | .null | .bool _ | .num _ => by simp [encodedSize]
  | .str s => by simp [encode, encodedSize, bytes_quote]
  | .arr [] => by simp [encode]; rfl
  | .arr (v :: vs) => by
    simp only [encode, encodedSize, bytes_cons, bytes_append, bytes_encode v, bytes_encodeItems vs,
      show ('['.utf8Size) = 1 from rfl]
    omega
  | .obj [] => by simp [encode]; rfl
  | .obj ((k, v) :: ms) => by
    simp only [encode, encodedSize, bytes_cons, bytes_append, bytes_quote, bytes_encode v,
      bytes_encodeMembers ms, show ('{'.utf8Size) = 1 from rfl, show (':'.utf8Size) = 1 from rfl]
    omega

theorem bytes_encodeItems : ∀ vs : List Value, Text.bytes (encodeItems float vs) = encodedSizeItems float vs
  | [] => rfl
  | v :: vs => by
    simp only [encodeItems, encodedSizeItems, bytes_cons, bytes_append, bytes_encode v,
      bytes_encodeItems vs, show (','.utf8Size) = 1 from rfl]
    omega

theorem bytes_encodeMembers : ∀ ms : List (Text × Value),
    Text.bytes (encodeMembers float ms) = encodedSizeMembers float ms
  | [] => rfl
  | (k, v) :: ms => by
    simp only [encodeMembers, encodedSizeMembers, bytes_cons, bytes_append, bytes_quote,
      bytes_encode v, bytes_encodeMembers ms, show (','.utf8Size) = 1 from rfl,
      show (':'.utf8Size) = 1 from rfl]
    omega
end

end Size

/-! ## Reading a text back -/

/-- The characters a number is written with. -/
def isNumeric (c : Char) : Bool := c.isDigit || c = '-' || c = '+' || c = '.' || c = 'e' || c = 'E'

/-- What `Jason` documents about the text of a float: it reads back as the same double, is made
of number characters, starts like a number and is never the text of an integer. -/
structure FloatText (float : Flt → List Char) : Prop where
  injective : Function.Injective float
  numeric : ∀ f, ∀ c ∈ float f, isNumeric c = true
  starts : ∀ f, ∃ c t, float f = c :: t ∧ (c = '-' ∨ c.isDigit = true)
  fractional : ∀ f, '.' ∈ float f ∨ 'e' ∈ float f

/-- The text behind a term: the end, or a delimiter. -/
def Delimited (r : List Char) : Prop := ∀ c ∈ r.head?, isNumeric c = false

theorem delimited_nil : Delimited [] := by simp [Delimited]

theorem delimited_items (float : Flt → List Char) (vs : List Value) (r : List Char) :
    Delimited (encodeItems float vs ++ r) := by
  cases vs <;> simp [Delimited, encodeItems] <;> decide

theorem delimited_members (float : Flt → List Char) (ms : List (Text × Value))
    (r : List Char) : Delimited (encodeMembers float ms ++ r) := by
  rcases ms with _ | ⟨⟨k, v⟩, ms⟩ <;> simp [Delimited, encodeMembers] <;> decide

/-! ### Strings -/

/-- The first character a string text stands for, and what follows it. -/
def unescape : List Char → Option (Char × List Char)
  | '\\' :: 'u' :: _ :: _ :: a :: b :: r =>
    let digit (c : Char) := if c.toNat < 58 then c.toNat - 48 else c.toNat - 55
    some (Char.ofNat (digit a * 16 + digit b), r)
  | '\\' :: 'b' :: r => some ('\x08', r)
  | '\\' :: 't' :: r => some ('\t', r)
  | '\\' :: 'n' :: r => some ('\n', r)
  | '\\' :: 'f' :: r => some ('\x0c', r)
  | '\\' :: 'r' :: r => some ('\r', r)
  | '\\' :: c :: r => some (c, r)
  | '"' :: _ => none
  | c :: r => some (c, r)
  | [] => none

theorem unescape_quote (r : List Char) : unescape ('"' :: r) = none := rfl

theorem unescape_cons {c : Char} {r : List Char} (hq : c ≠ '"') (hb : c ≠ '\\') :
    unescape (c :: r) = some (c, r) := by
  unfold unescape
  split <;> simp_all

theorem unescape_escape (c : Char) (r : List Char) : unescape (escape c ++ r) = some (c, r) := by
  unfold escape
  split_ifs with h0 h1 h2 h3 h4 h5 h6 h7 h8
  · refine unescape_cons ?_ ?_
    · rintro rfl; exact absurd h0 (by decide)
    · rintro rfl; exact absurd h0 (by decide)
  · subst h1; rfl
  · subst h2; rfl
  · subst h3; rfl
  · subst h4; rfl
  · subst h5; rfl
  · subst h6; rfl
  · subst h7; rfl
  · have hc : c = Char.ofNat c.toNat := (Char.ofNat_toNat c).symm
    generalize c.toNat = n at *
    subst hc
    interval_cases n <;> rfl
  · exact unescape_cons h1 h2

theorem quoteTail_inj : ∀ {cs ds r r' : List Char},
    quoteTail cs ++ r = quoteTail ds ++ r' → cs = ds ∧ r = r'
  | [], [], r, r', h => by simpa using h
  | [], c :: cs, r, r', h | c :: cs, [], r, r', h => by
    have hd := congrArg unescape h
    simp only [quoteTail, List.flatMap_nil, List.nil_append, List.flatMap_cons, List.append_assoc,
      List.singleton_append, unescape_quote, unescape_escape] at hd
    exact absurd hd (by simp)
  | c :: cs, d :: ds, r, r', h => by
    have hd := congrArg unescape h
    simp only [quoteTail, List.flatMap_cons, List.append_assoc, unescape_escape,
      Option.some.injEq, Prod.mk.injEq] at hd
    obtain ⟨rfl, ht⟩ := hd
    have ht' : quoteTail cs ++ r = quoteTail ds ++ r' := by
      simpa only [quoteTail, List.append_assoc] using ht
    obtain ⟨rfl, rfl⟩ := quoteTail_inj ht'
    exact ⟨rfl, rfl⟩

theorem quote_inj {s t : Text} {r r' : List Char} (h : quote s ++ r = quote t ++ r') : s = t ∧ r = r' := by
  exact quoteTail_inj (List.cons.inj h).2

/-! ### Numbers -/

theorem digit_numeric {c : Char} (h : c.isDigit = true) : isNumeric c = true := by
  simp [isNumeric, h]

theorem toDigits_isDigit {n : Nat} {c : Char} (h : c ∈ Nat.toDigits 10 n) : c.isDigit = true :=
  Nat.isDigit_of_mem_toDigits (by decide) (by decide) h

theorem decimal_chars {i : Int} {c : Char} (h : c ∈ decimal i) : c = '-' ∨ c.isDigit = true := by
  cases i with
  | ofNat n => exact Or.inr (toDigits_isDigit h)
  | negSucc n =>
    rcases List.mem_cons.mp h with rfl | h
    · exact Or.inl rfl
    · exact Or.inr (toDigits_isDigit h)

theorem decimal_ne_nil (i : Int) : decimal i ≠ [] := by
  cases i with
  | ofNat n => exact Nat.toDigits_ne_nil
  | negSucc n => exact List.cons_ne_nil _ _

theorem toDigits_inj {m n : Nat} (h : Nat.toDigits 10 m = Nat.toDigits 10 n) : m = n := by
  rw [← Nat.ofDigitChars_ten_toDigits (n := m), h, Nat.ofDigitChars_ten_toDigits]

theorem decimal_inj {i j : Int} (h : decimal i = decimal j) : i = j := by
  have signed : ∀ {n : Nat} {t : List Char}, Nat.toDigits 10 n ≠ '-' :: t := fun h =>
    absurd (toDigits_isDigit (h ▸ List.mem_cons_self)) (by decide)
  cases i with
  | ofNat m =>
    cases j with
    | ofNat n => rw [toDigits_inj h]
    | negSucc n => exact absurd h signed
  | negSucc m =>
    cases j with
    | ofNat n => exact absurd h.symm signed
    | negSucc n =>
      have := toDigits_inj (List.cons.inj h).2
      rw [show m = n by omega]

theorem numeric_append_inj {a b r r' : List Char} (ha : ∀ c ∈ a, isNumeric c = true)
    (hb : ∀ c ∈ b, isNumeric c = true) (hr : Delimited r) (hr' : Delimited r')
    (h : a ++ r = b ++ r') : a = b ∧ r = r' := by
  have take : ∀ {x y : List Char}, (∀ c ∈ x, isNumeric c = true) → Delimited y →
      (x ++ y).takeWhile isNumeric = x := by
    intro x y hx hy
    rw [List.takeWhile_append_of_pos hx]
    cases y with
    | nil => simp
    | cons c y => rw [List.takeWhile_cons_of_neg (by simp [hy c (by simp)]), List.append_nil]
  have hab : a = b := by rw [← take ha hr, h, take hb hr']
  subst hab
  exact ⟨rfl, List.append_cancel_left h⟩

/-! ### Terms -/

section Injective

variable {float : Flt → List Char} (hf : FloatText float)

include hf

theorem numeric_of_mem {n : Num} {c : Char} (h : c ∈ encode float (.num n)) : isNumeric c = true := by
  cases n with
  | int i =>
    rcases decimal_chars h with rfl | hd
    · decide
    · exact digit_numeric hd
  | flt f => exact hf.numeric f c h

theorem num_head (n : Num) : ∃ c t, encode float (.num n) = c :: t ∧ (c = '-' ∨ c.isDigit = true) := by
  cases n with
  | int i =>
    obtain ⟨c, t, h⟩ := List.exists_cons_of_ne_nil (decimal_ne_nil i)
    exact ⟨c, t, h, decimal_chars (by rw [h]; exact List.mem_cons_self)⟩
  | flt f => exact hf.starts f

theorem num_inj {m n : Num} (h : encode float (.num m) = encode float (.num n)) : m = n := by
  have mixed : ∀ {i : Int} {f : Flt}, decimal i ≠ float f := by
    intro i f e
    rcases hf.fractional f with h | h
    all_goals
      rw [← e] at h
      rcases decimal_chars h with h | h <;> exact absurd h (by decide)
  cases m with
  | int i =>
    cases n with
    | int j => rw [decimal_inj h]
    | flt g => exact absurd h mixed
  | flt f =>
    cases n with
    | int j => exact absurd h.symm mixed
    | flt g => rw [hf.injective h]

omit hf in
/-- The kind of term a first character announces. -/
def lead (c : Char) : Nat :=
  if c = 'n' then 0 else if c = 't' then 1 else if c = 'f' then 2 else if c = '"' then 3
  else if c = '[' then 4 else if c = '\x7b' then 5 else if c = '-' ∨ c.isDigit then 6 else 7

omit hf in
/-- The kind of a term, as its first character announces it. -/
def Value.kind : Value → Nat
  | .null => 0
  | .bool true => 1
  | .bool false => 2
  | .str _ => 3
  | .arr _ => 4
  | .obj _ => 5
  | .num _ => 6

theorem encode_head (v : Value) : ∃ c t, encode float v = c :: t ∧ lead c = v.kind := by
  rcases v with _ | (_ | _) | n | s | (_ | ⟨v, vs⟩) | (_ | ⟨⟨k, v⟩, ms⟩)
  case num =>
    obtain ⟨c, t, h, hc⟩ := num_head hf n
    refine ⟨c, t, h, ?_⟩
    have hc' : lead c = 6 := by
      unfold lead
      rcases hc with rfl | hc
      · decide
      · split_ifs <;> simp_all
    exact hc'
  all_goals exact ⟨_, _, rfl, rfl⟩

theorem kind_eq {v w : Value} {r r' : List Char} (h : encode float v ++ r = encode float w ++ r') :
    v.kind = w.kind := by
  obtain ⟨c, t, hv, hc⟩ := encode_head hf v
  obtain ⟨d, u, hw, hd⟩ := encode_head hf w
  rw [hv, hw] at h
  rw [← hc, ← hd, (List.cons.inj h).1]

theorem encode_ne_close (v : Value) (r s : List Char) : encode float v ++ r ≠ ']' :: s := by
  obtain ⟨c, t, hv, hc⟩ := encode_head hf v
  rw [hv]
  intro h
  rw [show c = ']' from (List.cons.inj h).1] at hc
  rcases v with _ | (_ | _) | n | s | vs | ms <;> simp [lead, Value.kind] at hc

omit hf in
mutual
/-- **A canonical text is read back in one way.** The first character gives the kind of `w`. -/
theorem encode_append_inj (hf : FloatText float) : ∀ {v w : Value} {r r' : List Char},
    Delimited r → Delimited r' → encode float v ++ r = encode float w ++ r' → v = w ∧ r = r'
  | v, w, r, r', hr, hr', h => by
    have hk := kind_eq hf h
    rcases v with _ | (_ | _) | n | s | (_ | ⟨v, vs⟩) | (_ | ⟨⟨k, v⟩, ms⟩) <;>
      rcases w with _ | (_ | _) | m | t | (_ | ⟨w, ws⟩) | (_ | ⟨⟨l, w⟩, ns⟩) <;>
      simp only [Value.kind] at hk <;> try contradiction
    case num.num =>
      obtain ⟨hn, rfl⟩ := numeric_append_inj (fun _ hc => numeric_of_mem hf hc)
        (fun _ hc => numeric_of_mem hf hc) hr hr' h
      exact ⟨congrArg Value.num (num_inj hf hn), rfl⟩
    case str.str =>
      obtain ⟨rfl, rfl⟩ := quote_inj h
      exact ⟨rfl, rfl⟩
    case arr.nil.arr.cons =>
      simp only [encode, List.cons_append, List.nil_append, List.append_assoc] at h
      exact absurd (List.cons.inj h).2.symm (encode_ne_close hf w _ _)
    case arr.cons.arr.nil =>
      simp only [encode, List.cons_append, List.nil_append, List.append_assoc] at h
      exact absurd (List.cons.inj h).2 (encode_ne_close hf v _ _)
    case arr.cons.arr.cons =>
      simp only [encode, List.cons_append, List.append_assoc] at h
      obtain ⟨rfl, h'⟩ := encode_append_inj hf (delimited_items float vs r)
        (delimited_items float ws r') (List.cons.inj h).2
      obtain ⟨rfl, rfl⟩ := encodeItems_append_inj hf h'
      exact ⟨rfl, rfl⟩
    case obj.cons.obj.cons =>
      simp only [encode, List.cons_append, List.append_assoc] at h
      obtain ⟨rfl, h'⟩ := quote_inj (List.cons.inj h).2
      obtain ⟨rfl, h''⟩ := encode_append_inj hf (delimited_members float ms r)
        (delimited_members float ns r') (List.cons.inj h').2
      obtain ⟨rfl, rfl⟩ := encodeMembers_append_inj hf h''
      exact ⟨rfl, rfl⟩
    case obj.nil.obj.cons | obj.cons.obj.nil => simp [encode, quote] at h
    all_goals simpa [encode] using h

theorem encodeItems_append_inj (hf : FloatText float) : ∀ {vs ws : List Value} {r r' : List Char},
    encodeItems float vs ++ r = encodeItems float ws ++ r' → vs = ws ∧ r = r'
  | [], [], r, r', h => by simpa [encodeItems] using h
  | [], _ :: _, r, r', h | _ :: _, [], r, r', h => by simp [encodeItems] at h
  | v :: vs, w :: ws, r, r', h => by
    have h' : encode float v ++ (encodeItems float vs ++ r) =
        encode float w ++ (encodeItems float ws ++ r') := by simpa [encodeItems] using h
    obtain ⟨rfl, h''⟩ := encode_append_inj hf (delimited_items float vs r) (delimited_items float ws r') h'
    obtain ⟨rfl, rfl⟩ := encodeItems_append_inj hf h''
    exact ⟨rfl, rfl⟩

theorem encodeMembers_append_inj (hf : FloatText float) :
    ∀ {ms ns : List (Text × Value)} {r r' : List Char},
      encodeMembers float ms ++ r = encodeMembers float ns ++ r' → ms = ns ∧ r = r'
  | [], [], r, r', h => by simpa [encodeMembers] using h
  | [], (_, _) :: _, r, r', h | (_, _) :: _, [], r, r', h => by simp [encodeMembers] at h
  | (k, v) :: ms, (l, w) :: ns, r, r', h => by
    have hq : quote k ++ ':' :: (encode float v ++ (encodeMembers float ms ++ r)) =
        quote l ++ ':' :: (encode float w ++ (encodeMembers float ns ++ r')) := by
      simpa [encodeMembers] using h
    obtain ⟨rfl, h'⟩ := quote_inj hq
    obtain ⟨rfl, h''⟩ := encode_append_inj hf (delimited_members float ms r)
      (delimited_members float ns r') (List.cons.inj h').2
    obtain ⟨rfl, rfl⟩ := encodeMembers_append_inj hf h''
    exact ⟨rfl, rfl⟩
end

/-- **One canonical text, one term.** -/
theorem encode_inj {v w : Value} (h : encode float v = encode float w) : v = w := by
  have h' : encode float v ++ [] = encode float w ++ [] := by rw [h]
  exact (encode_append_inj hf delimited_nil delimited_nil h').1

end Injective

/-! ## A float text -/

/-- A float by its sign, significand and binary exponent: a text as `FloatText` asks for. -/
def binaryFloat (f : Flt) : List Char :=
  (if f.neg then ['-'] else []) ++ (Nat.toDigits 10 f.mant ++ 'e' :: decimal f.exp)

theorem toDigits_append_inj {m n : Nat} {r r' : List Char}
    (h : Nat.toDigits 10 m ++ 'e' :: r = Nat.toDigits 10 n ++ 'e' :: r') : m = n ∧ r = r' := by
  have take : ∀ {k : Nat} {t : List Char},
      (Nat.toDigits 10 k ++ 'e' :: t).takeWhile Char.isDigit = Nat.toDigits 10 k := by
    intro k t
    rw [List.takeWhile_append_of_pos fun c hc => toDigits_isDigit hc,
      List.takeWhile_cons_of_neg (by decide), List.append_nil]
  have hd : Nat.toDigits 10 m = Nat.toDigits 10 n := by rw [← take (t := r), h, take]
  rw [hd] at h
  exact ⟨toDigits_inj hd, (List.cons.inj (List.append_cancel_left h)).2⟩

theorem toDigits_head (n : Nat) : ∃ c t, Nat.toDigits 10 n = c :: t ∧ c.isDigit = true := by
  cases h : Nat.toDigits 10 n with
  | nil => exact absurd h Nat.toDigits_ne_nil
  | cons c t => exact ⟨c, t, rfl, toDigits_isDigit (h ▸ List.mem_cons_self)⟩

theorem binaryFloat_injective : Function.Injective binaryFloat := by
  rintro ⟨s, m, e, hc⟩ ⟨s', m', e', hc'⟩ h
  have key : s = s' ∧ m = m' ∧ e = e' := by
    -- the digits of the significand never start with the sign
    have mixed : ∀ {k : Nat} {t u : List Char}, Nat.toDigits 10 k ++ t ≠ '-' :: u := by
      intro k t u hk
      obtain ⟨c, w, hw, hd⟩ := toDigits_head k
      rw [hw] at hk
      exact absurd ((List.cons.inj hk).1 ▸ hd) (by decide)
    cases s <;> cases s' <;> simp only [binaryFloat] at h
    · exact ⟨rfl, (toDigits_append_inj h).1, decimal_inj (toDigits_append_inj h).2⟩
    · exact absurd h mixed
    · exact absurd h.symm mixed
    · have h := (List.cons.inj h).2
      exact ⟨rfl, (toDigits_append_inj h).1, decimal_inj (toDigits_append_inj h).2⟩
  obtain ⟨rfl, rfl, rfl⟩ := key
  rfl

theorem binaryFloat_floatText : FloatText binaryFloat where
  injective := binaryFloat_injective
  numeric f c h := by
    have hd : ∀ n, c ∈ Nat.toDigits 10 n → isNumeric c = true := fun _ hc =>
      digit_numeric (toDigits_isDigit hc)
    have he : c ∈ decimal f.exp → isNumeric c = true := by
      intro hc
      rcases decimal_chars hc with rfl | hc
      · decide
      · exact digit_numeric hc
    rcases List.mem_append.mp h with h | h
    · split at h
      · obtain rfl := List.mem_singleton.mp h
        decide
      · exact absurd h List.not_mem_nil
    · rcases List.mem_append.mp h with h | h
      · exact hd _ h
      · rcases List.mem_cons.mp h with rfl | h
        · decide
        · exact he h
  starts f := by
    obtain ⟨c, t, ht, hc⟩ := toDigits_head f.mant
    unfold binaryFloat
    rw [ht]
    cases f.neg
    · exact ⟨c, t ++ 'e' :: decimal f.exp, rfl, Or.inr hc⟩
    · exact ⟨'-', (c :: t) ++ 'e' :: decimal f.exp, rfl, Or.inl rfl⟩
  fractional f := Or.inr (by simp [binaryFloat])

end Wotex.Json
