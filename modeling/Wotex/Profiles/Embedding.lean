import Wotex.Profiles.Agreement

/-!
# Typed values

`Embeds host v t` says that `t` is the native value `v` in the codec's algebra: booleans and texts with their
type, an integer as `sint` or `uint` within its range, any number as a normalised `decimal`, lists item by
item, and objects as entries in key order. `validate_sorts` says what the codec makes of such a value: it
passes, it is too large, or a key is empty or longer than 128 bytes; a property of a schema never has such
a name.
-/

namespace Wotex.Profiles

open Json (Value decimal)
open List Wotex.Runtime Codec

/-! ## The typed forms -/

namespace Typed

/-- A value with its type alone. -/
def null : Value := .obj [("type", .str "null")]

/-- A value under its type. -/
def scalar (type : Text) (value : Value) : Value :=
  .obj [("type", .str type), ("value", value)]

/-- A decimal. -/
def decimal (coefficient exponent : Int) : Value :=
  .obj [("coefficient", .str (Json.decimal coefficient)), ("exponent", .num (.int exponent)),
    ("type", .str "decimal")]

/-- A list. -/
def list (items : List Value) : Value :=
  .obj [("items", .arr items), ("type", .str "list")]

/-- An entry of an object. -/
def entry (key : Text) (value : Value) : Value := .obj [("key", .str key), ("value", value)]

/-- An object. -/
def object (entries : List Value) : Value :=
  .obj [("entries", .arr entries), ("type", .str "object")]

end Typed

/-- The typed numbers of a quantity. -/
inductive Numeral (q : ℚ) : Value → Prop where
  | sint (i : Int) (hi : -9223372036854775808 ≤ i ∧ i ≤ 9223372036854775807) (hq : q = i) :
      Numeral q (Typed.scalar "sint" (.str (decimal i)))
  | uint (i : Int) (hi : 0 ≤ i ∧ i ≤ 18446744073709551615) (hq : q = i) :
      Numeral q (Typed.scalar "uint" (.str (decimal i)))
  | decimal (c e : Int) (hc : -9223372036854775808 ≤ c ∧ c ≤ 9223372036854775807)
      (he : -32768 ≤ e ∧ e ≤ 32767) (hn : c = 0 ∧ e = 0 ∨ ¬ 10 ∣ c) (hq : q = amount c e) :
      Numeral q (Typed.decimal c e)

section

variable (host : Host)

mutual
/-- The typed value is the native one, in the codec's algebra. -/
def Embeds : Value → Value → Prop
  | .null, t => t = Typed.null
  | .bool b, t => t = Typed.scalar "boolean" (.bool b)
  | .str s, t => t = Typed.scalar "text" (.str s)
  | .num n, t => Numeral (quantity host n) t
  | .arr vs, t => ∃ ts, EmbedsItems vs ts ∧ t = Typed.list ts
  | .obj ms, t => (ms.map Prod.fst).Pairwise (· < ·) ∧ ∃ ts, EmbedsMembers ms ts ∧ t = Typed.object ts

/-- Item by item. -/
def EmbedsItems : List Value → List Value → Prop
  | [], ts => ts = []
  | v :: vs, ts => ∃ t rest, Embeds v t ∧ EmbedsItems vs rest ∧ ts = t :: rest

/-- Member by member. -/
def EmbedsMembers : List (Text × Value) → List Value → Prop
  | [], ts => ts = []
  | (k, v) :: ms, ts => ∃ t rest, Embeds v t ∧ EmbedsMembers ms rest ∧ ts = Typed.entry k t :: rest
end

end

/-! ## Sizes and keys -/

mutual
/-- Every key is a name that the codec takes. -/
def Keyed : Value → Prop
  | .arr vs => KeyedItems vs
  | .obj ms => KeyedMembers ms
  | _ => True

/-- Item by item. -/
def KeyedItems : List Value → Prop
  | [] => True
  | v :: vs => Keyed v ∧ KeyedItems vs

/-- Member by member. -/
def KeyedMembers : List (Text × Value) → Prop
  | [] => True
  | (k, v) :: ms => (1 ≤ k.bytes ∧ k.bytes ≤ 128) ∧ Keyed v ∧ KeyedMembers ms
end

mutual
/-- Strings and lists are no longer than any size of a schema. -/
def Slim : Value → Prop
  | .str s => s.length ≤ 1048576
  | .arr vs => vs.length ≤ 1048576 ∧ SlimItems vs
  | .obj ms => SlimMembers ms
  | _ => True

/-- Item by item. -/
def SlimItems : List Value → Prop
  | [] => True
  | v :: vs => Slim v ∧ SlimItems vs

/-- Member by member. -/
def SlimMembers : List (Text × Value) → Prop
  | [] => True
  | (_, v) :: ms => Slim v ∧ SlimMembers ms
end

/-! ## Reading -/

variable {t : Value}

namespace Instance

section

variable {host : Host} (path : Text)

theorem toInteger_decimal (i : Int) : toInteger (decimal i) = .ok i := by
  have h := @integerParse_decimal i [] (by simp [Stops])
  rw [append_nil] at h
  rw [toInteger, h]

theorem typed_numeral {q : ℚ} (h : Numeral q t) :
    ∃ c e, typed path t = .ok (.num c e) ∧ Normal c e ∧ amount c e = q := by
  cases h with
  | sint i hi hq | uint i hi hq =>
    refine ⟨i, 0, ?_, fun h => absurd h (by decide), by simp [amount, hq]⟩
    show (toInteger (decimal i) >>= fun n => _) = _
    rw [toInteger_decimal]
    rfl
  | decimal c e hc he hn hq =>
    refine ⟨c, e, ?_, fun hneg => hn.resolve_left fun h => by omega, hq.symm⟩
    show (toInteger (decimal c) >>= fun n => _) = _
    rw [toInteger_decimal]
    rfl

mutual
theorem typed_embedded : ∀ {v t : Value}, Embeds host v t →
    ∃ l, typed path t = .ok l ∧ l.datum = datum host v ∧ (Slim v → l.Regular)
  | .null, _, rfl => ⟨.null, rfl, rfl, id⟩
  | .bool b, _, rfl => ⟨.bool b, rfl, rfl, id⟩
  | .str s, _, rfl => ⟨.str s, rfl, rfl, id⟩
  | .num n, t, h => by
    obtain ⟨c, e, hread, hnormal, hq⟩ := typed_numeral path h
    exact ⟨_, hread, by rw [Logical.datum, datum, hq], fun _ => hnormal⟩
  | .arr vs, _, ⟨ts, hts, rfl⟩ => by
    obtain ⟨ls, hread, hlen, hdatum, hregular⟩ := typedList_embedded hts
    refine ⟨.arr ls, ?_, by rw [Logical.datum, datum, hdatum], fun hs => ⟨hlen ▸ hs.1, hregular hs.2⟩⟩
    show (typedList path ts >>= fun items => _) = _
    rw [hread]
    rfl
  | .obj ms, _, ⟨_, ts, hts, rfl⟩ => by
    obtain ⟨ls, hread, hdatum, hregular⟩ := typedPairs_embedded hts
    refine ⟨.obj ls, ?_, by rw [Logical.datum, datum, hdatum], hregular⟩
    show (typedPairs path ts >>= fun entries => _) = _
    rw [hread]
    rfl

theorem typedList_embedded : ∀ {vs ts : List Value}, EmbedsItems host vs ts →
    ∃ ls, typedList path ts = .ok ls ∧ vs.length = ls.length ∧
      Logical.datumItems ls = datumItems host vs ∧ (SlimItems vs → Logical.RegularItems ls)
  | [], _, rfl => ⟨[], rfl, rfl, rfl, id⟩
  | v :: vs, _, ⟨t, rest, ht, hrest, rfl⟩ => by
    obtain ⟨l, hl, hd, hr⟩ := typed_embedded ht
    obtain ⟨ls, hls, hlen, hds, hrs⟩ := typedList_embedded hrest
    refine ⟨l :: ls, by rw [typedList, hl, hls]; rfl, ?_, ?_, fun hs => ?_⟩
    · rw [length_cons, length_cons, hlen]
    · rw [Logical.datumItems, datumItems, hd, hds]
    · exact ⟨hr hs.1, hrs hs.2⟩

theorem typedPairs_embedded : ∀ {ms : List (Text × Value)} {ts : List Value}, EmbedsMembers host ms ts →
    ∃ ls, typedPairs path ts = .ok ls ∧ Logical.datumMembers ls = datumMembers host ms ∧
      (SlimMembers ms → Logical.RegularMembers ls)
  | [], _, rfl => ⟨[], rfl, rfl, id⟩
  | (k, v) :: ms, _, ⟨t, rest, ht, hrest, rfl⟩ => by
    obtain ⟨l, hl, hd, hr⟩ := typed_embedded ht
    obtain ⟨ls, hls, hds, hrs⟩ := typedPairs_embedded hrest
    refine ⟨(k, l) :: ls, ?_, by rw [Logical.datumMembers, datumMembers, hd, hds],
      fun hs => ⟨hr hs.1, hrs hs.2⟩⟩
    show (typed path t >>= fun child => typedPairs path rest >>= fun entries => _) = _
    rw [hl, hls]
    rfl
end

end

end Instance

/-! ## What the codec makes of a typed value -/

theorem utf8Size_of_isDigit {c : Char} (h : c.isDigit = true) : c.utf8Size = 1 := by
  have := (Char.isDigit_iff_toNat.mp h).2
  exact Char.utf8Size_eq_one_iff.mpr (by
    exact le_trans this (by decide))

theorem bytes_decimal (i : Int) : Text.bytes (decimal i) = (decimal i).length := by
  have key : ∀ {t : Text}, (∀ c ∈ t, c = '-' ∨ c.isDigit = true) → t.bytes = t.length := by
    intro t ht
    induction t with
    | nil => rfl
    | cons c t ih =>
      have hc : c.utf8Size = 1 := by
        rcases ht c mem_cons_self with rfl | h
        · rfl
        · exact utf8Size_of_isDigit h
      rw [Text.bytes_cons, ih fun d hd => ht d (mem_cons_of_mem _ hd), length_cons]
      omega
  exact key fun c => Json.decimal_chars

theorem length_decimal_le {i : Int} (h : -9223372036854775808 ≤ i ∧ i ≤ 18446744073709551615) :
    1 ≤ (decimal i).length ∧ (decimal i).length ≤ 20 := by
  refine ⟨length_pos_iff.mpr (Json.decimal_ne_nil i), ?_⟩
  cases i with
  | ofNat n =>
    rw [Int.ofNat_eq_natCast] at h
    exact (Nat.length_toDigits_le_iff (by decide) (by decide)).mpr (by omega)
  | negSucc n =>
    have := (Nat.length_toDigits_le_iff (b := 10) (k := 19) (n := n + 1) (by decide) (by decide)).mpr
      (by omega)
    rw [decimal, length_cons]
    omega

theorem integer_decimal {i minimum maximum : Int} (hi : minimum ≤ i ∧ i ≤ maximum)
    (hlow : -9223372036854775808 ≤ minimum) (hhigh : maximum ≤ 18446744073709551615) :
    integer (.str (decimal i)) minimum maximum = true := by
  have hlen := @length_decimal_le i ⟨by omega, by omega⟩
  have hparse := @integerParse_decimal i [] (by simp [Stops])
  rw [append_nil] at hparse
  simp [integer, bytes_decimal, hlen, hparse, hi]

theorem getLast_toDigits (n : Nat) : (Nat.toDigits 10 n).getLast? = some (n % 10).digitChar := by
  by_cases h : n < 10
  · rw [Nat.toDigits_of_lt_base h, Nat.mod_eq_of_lt h]
    rfl
  · rw [Nat.toDigits_of_base_le (by decide) (by omega), getLast?_append]
    rfl

theorem getLast_decimal {c : Int} (h : ¬ 10 ∣ c) : (decimal c).getLast? ≠ some '0' := by
  have hdigit : ∀ d < 10, d ≠ 0 → some (Nat.digitChar d) ≠ some '0' := by decide
  cases c with
  | ofNat n =>
    rw [Int.ofNat_eq_natCast] at h
    rw [decimal, getLast_toDigits]
    exact hdigit _ (by omega) (by omega)
  | negSucc n =>
    rw [decimal, getLast?_cons, getLast_toDigits]
    exact hdigit _ (by omega) (by omega)

theorem isDecimal_decimal {c e : Int} (hc : -9223372036854775808 ≤ c ∧ c ≤ 9223372036854775807)
    (he : -32768 ≤ e ∧ e ≤ 32767) (hn : c = 0 ∧ e = 0 ∨ ¬ 10 ∣ c) :
    isDecimal (.str (decimal c)) (.num (.int e)) = true := by
  rw [isDecimal, integer_decimal hc (le_refl _) (by decide), decide_eq_true he]
  rcases hn with ⟨rfl, rfl⟩ | hn
  · rfl
  · have hlast := getLast_decimal hn
    rw [if_neg fun h => hlast (by rw [h]; rfl)]
    exact bne_iff_ne.mpr hlast

/-- The codec passes what is slim, or it is too large, or a key is no name. -/
def Sorts (slim keyed : Prop) {α : Type} : Outcome Refusal α → Prop
  | .ok _ => slim
  | .refuse .outputLimit => True
  | .refuse .unsupportedValue => ¬ keyed
  | .raise => False

section

open Wotex.Runtime.Codec

variable {α β : Type} {slim keyed slim' keyed' : Prop}

variable {x : Outcome Refusal α}

theorem Sorts.bind {f : α → Outcome Refusal β} (hx : Sorts slim keyed x)
    (hf : slim → ∀ a, Sorts slim' keyed' (f a)) : Sorts (slim ∧ slim') (keyed ∧ keyed') (x >>= f) := by
  rcases x with a | (_ | _) | _
  · have hs : slim := hx
    have ha := hf hs a
    rw [ok_bind]
    generalize f a = y at ha ⊢
    rcases y with b | (_ | _) | _
    exacts [⟨hs, ha⟩, trivial, fun hk => ha hk.2, ha]
  exacts [trivial, fun hk => hx hk.1, hx]

theorem Sorts.imp (hx : Sorts slim keyed x) (hs : slim → slim') (hk : keyed' → keyed) :
    Sorts slim' keyed' x := by
  rcases x with a | (_ | _) | _
  exacts [hs hx, trivial, fun h => hx (hk h), hx]

theorem Sorts.and (hx : Sorts slim keyed x) (h : ∀ a, x = .ok a → slim') :
    Sorts (slim' ∧ slim) keyed x := by
  rcases x with a | (_ | _) | _
  exacts [⟨h a rfl, hx⟩, trivial, hx, hx]

section

variable (deeper : Value → Nat → Outcome Refusal Nat) (count : Nat)

theorem node_boolean (b : Bool) :
    node deeper (Typed.scalar "boolean" (.bool b)) count = .ok (count + 1) := by
  cases b <;> rfl

theorem node_text (s : Text) : node deeper (Typed.scalar "text" (.str s)) count =
    if 4096 < s.bytes then .refuse .outputLimit else .ok (count + 1) := rfl

theorem node_list (ts : List Value) :
    node deeper (Typed.list ts) count = members deeper false ts (count + 1) 0 none := rfl

theorem node_numeral {q : ℚ} (h : Numeral q t) : node deeper t count = .ok (count + 1) := by
  cases h with
  | sint i hi hq =>
    show scalar _ _ (integer (.str (decimal i)) (-9223372036854775808) 9223372036854775807) count = _
    rw [integer_decimal hi (le_refl _) (by decide)]
    rfl
  | uint i hi hq =>
    show scalar _ _ (integer (.str (decimal i)) 0 18446744073709551615) count = _
    rw [integer_decimal hi (by decide) (le_refl _)]
    rfl
  | decimal c e hc he hn hq =>
    show scalar _ _ (isDecimal (.str (decimal c)) (.num (.int e))) count = _
    rw [isDecimal_decimal hc he hn]
    rfl

theorem member_entry (k : Text) (t : Value) (previous : Option Text) :
    member (Typed.entry k t) true previous =
      if decide (1 ≤ k.bytes ∧ k.bytes ≤ 128) && previous.all (fun p => decide (p < k)) then
        .ok (t, some k) else .refuse .unsupportedValue := rfl

theorem length_of_members {object : Bool} {ts : List Value} {count size n : Nat} {previous : Option Text}
    (hsize : size ≤ 256) (h : members deeper object ts count size previous = .ok n) :
    size + ts.length ≤ 256 := by
  induction ts generalizing count size previous with
  | nil => simpa using hsize
  | cons t ts ih =>
    rw [members] at h
    split at h
    · cases h
    · simp only [bind_eq_ok] at h
      obtain ⟨_, -, _, -, h⟩ := h
      have := ih (by omega) h
      rw [length_cons]
      omega

end

theorem length_embedded {host : Host} : ∀ {vs ts : List Value}, EmbedsItems host vs ts → vs.length = ts.length
  | [], _, rfl => rfl
  | v :: vs, _, ⟨t, rest, _, hrest, rfl⟩ => by
    rw [length_cons, length_cons, length_embedded hrest]

theorem Sorts.visit (h : ∀ room count, Sorts slim keyed (node (visit room) t count)) :
    ∀ room count, Sorts slim keyed (visit room t count)
  | 0, _ => trivial
  | room + 1, count => by
    rw [Codec.visit]
    split
    · trivial
    · exact h room count

mutual
theorem visit_sorts {host : Host} : ∀ {v t : Value}, Embeds host v t → ∀ room count,
    Sorts (Slim v) (Keyed v) (visit room t count)
  | .null, _, rfl => Sorts.visit fun _ _ => trivial
  | .bool b, _, rfl => by
    refine Sorts.visit fun room count => ?_
    rw [node_boolean]
    trivial
  | .str s, _, rfl => by
    refine Sorts.visit fun room count => ?_
    rw [node_text]
    split
    · trivial
    · have : s.length ≤ s.bytes := Text.length_le_bytes s
      show s.length ≤ 1048576
      omega
  | .num n, t, h => by
    refine Sorts.visit fun room count => ?_
    rw [node_numeral _ _ h]
    trivial
  | .arr vs, _, ⟨ts, hts, rfl⟩ => by
    refine Sorts.visit fun room count => ?_
    refine (items_sorts hts room (count + 1) 0 none).and fun n hm => ?_
    have := length_of_members _ (Nat.zero_le _) hm
    rw [length_embedded hts]
    omega
  | .obj ms, _, ⟨hsorted, ts, hts, rfl⟩ => by
    exact Sorts.visit fun room count => entries_sorts hts hsorted room (count + 1) 0 none (by simp)

theorem items_sorts {host : Host} : ∀ {vs ts : List Value}, EmbedsItems host vs ts →
    ∀ room count size previous,
      Sorts (SlimItems vs) (KeyedItems vs) (members (visit room) false ts count size previous)
  | [], _, rfl, _, _, _, _ => trivial
  | v :: vs, _, ⟨t, rest, ht, hrest, rfl⟩, room, count, size, previous => by
    rw [members]
    split
    · trivial
    · exact (visit_sorts ht room count).bind fun _ n => items_sorts hrest room n (size + 1) none

theorem entries_sorts {host : Host} : ∀ {ms : List (Text × Value)} {ts : List Value},
    EmbedsMembers host ms ts → (ms.map Prod.fst).Pairwise (· < ·) → ∀ room count size previous,
      (∀ p ∈ previous, ∀ k ∈ ms.map Prod.fst, p < k) →
      Sorts (SlimMembers ms) (KeyedMembers ms) (members (visit room) true ts count size previous)
  | [], _, rfl, _, _, _, _, _, _ => trivial
  | (k, v) :: ms, _, ⟨t, rest, ht, hrest, rfl⟩, hsorted, room, count, size, previous, hprevious => by
    rw [map_cons, pairwise_cons] at hsorted
    have hlast : previous.all (fun p => decide (p < k)) = true := by
      cases previous with
      | none => rfl
      | some p => simpa using hprevious p rfl k mem_cons_self
    rw [members, member_entry, hlast, Bool.and_true]
    split
    · trivial
    · by_cases hk : 1 ≤ k.bytes ∧ k.bytes ≤ 128
      · rw [if_pos (decide_eq_true hk)]
        refine ((visit_sorts ht room count).bind fun _ n =>
          entries_sorts hrest hsorted.2 room n (size + 1) (some k) ?_).imp id And.right
        intro p hp l hl
        obtain rfl := Option.mem_some.mp hp
        exact hsorted.1 l hl
      · rw [if_neg (by simpa using hk)]
        exact fun hkeyed => hk hkeyed.1
end

end

/-! ## The written form -/

/-- Every number is an integer that the codec writes. -/
inductive Plain : Value → Prop where
  | null : Plain .null
  | bool (b : Bool) : Plain (.bool b)
  | str (s : Text) : Plain (.str s)
  | int (i : Int) (h : -JSON.safe ≤ i ∧ i ≤ JSON.safe) : Plain (.num (.int i))
  | arr (vs : List Value) (h : ∀ v ∈ vs, Plain v) : Plain (.arr vs)
  | obj (ms : List (Text × Value)) (h : ∀ m ∈ ms, Plain m.2) : Plain (.obj ms)

/-- The result passes, or a limit is passed. -/
def Limited {α : Type} : JSON.Result α → Prop
  | .ok _ => True
  | .refuse e => e = .limitExceeded
  | .raise => False

theorem Limited.bind {α β : Type} {x : JSON.Result α} {f : α → JSON.Result β}
    (hx : Limited x) (hf : ∀ a, Limited (f a)) : Limited (x >>= f) := by
  cases x with
  | ok a => exact hf a
  | refuse e => exact hx
  | raise => exact hx

section

open Wotex.Runtime.JSON

variable {limits : JSON.Limits} {write : Writer}

end

mutual
theorem plain_embedded {host : Host} : ∀ {v t : Value}, Embeds host v t → Plain t
  | .null, _, rfl | .str s, _, rfl => .obj _ (by simp [Plain.str])
  | .bool b, _, rfl => .obj _ (by simp [Plain.str, Plain.bool])
  | .num n, t, h => by
    cases h with
    | sint i hi hq | uint i hi hq => exact .obj _ (by simp [Plain.str])
    | decimal c e hc he hn hq =>
      have hsafe : -JSON.safe ≤ e ∧ e ≤ JSON.safe := by
        rw [JSON.safe]
        omega
      exact .obj _ (by simp [Plain.str, Plain.int e hsafe])
  | .arr vs, _, ⟨ts, hts, rfl⟩ => by
    exact .obj _ (by simp [Plain.str, Plain.arr ts (plainItems_embedded hts)])
  | .obj ms, _, ⟨_, ts, hts, rfl⟩ => by
    exact .obj _ (by simp [Plain.str, Plain.arr ts (plainEntries_embedded hts)])

theorem plainItems_embedded {host : Host} : ∀ {vs ts : List Value}, EmbedsItems host vs ts →
    ∀ t ∈ ts, Plain t
  | [], _, rfl => by simp
  | v :: vs, _, ⟨t, rest, ht, hrest, rfl⟩ => by
    exact forall_mem_cons.mpr ⟨plain_embedded ht, plainItems_embedded hrest⟩

theorem plainEntries_embedded {host : Host} : ∀ {ms : List (Text × Value)} {ts : List Value},
    EmbedsMembers host ms ts → ∀ t ∈ ts, Plain t
  | [], _, rfl => by simp
  | (k, v) :: ms, _, ⟨t, rest, ht, hrest, rfl⟩ => by
    have hentry : Plain (Typed.entry k t) := .obj _ (by simp [Plain.str, plain_embedded ht])
    exact forall_mem_cons.mpr ⟨hentry, plainEntries_embedded hrest⟩
end

section

variable {host : Host} {limits : Limits}

mutual
theorem keyed_of_conforms : ∀ (v : Value) {schema : Value}, Schema.Accepted host limits schema →
    Conforms host schema (datum host v) → Keyed v
  | .null, _, _, _ | .bool _, _, _, _ | .num _, _, _, _ | .str _, _, _, _ => trivial
  | .arr vs, schema, hs, h => by
    obtain ⟨hlisted, -, hitems⟩ := h
    obtain ⟨members, kind, rfl, htype, hspec⟩ := Instance.accepted_of_listed hs hlisted
    cases kind with
    | array => exact keyedItems_of_conforms vs hspec hitems
    | _ => cases htype
  | .obj ms, schema, hs, h => by
    obtain ⟨hlisted, hclosed, hmembers⟩ := h
    obtain ⟨members, kind, rfl, htype, hspec⟩ := Instance.accepted_of_listed hs hlisted
    cases kind with
    | object =>
      obtain ⟨properties, names, hprops, hchildren, -⟩ := hspec
      have hget : (Value.obj members).get "properties" = .obj properties := hprops
      rw [hget] at hmembers
      refine keyedMembers_of_conforms ms hchildren (fun key hkey => ?_) hmembers
      have hin := hclosed.1 key (by rwa [keys_datumMembers])
      rwa [hget] at hin
    | _ => cases htype

theorem keyedItems_of_conforms : ∀ (vs : List Value) {schema : Value},
    Schema.Accepted host limits schema → ConformsItems host schema (datumItems host vs) → KeyedItems vs
  | [], _, _, _ => trivial
  | v :: vs, _, hs, h => ⟨keyed_of_conforms v hs h.1, keyedItems_of_conforms vs hs h.2⟩

theorem keyedMembers_of_conforms : ∀ (ms : List (Text × Value)) {properties : List (Text × Value)},
    (∀ p ∈ properties, (1 ≤ p.1.bytes ∧ p.1.bytes ≤ 128) ∧ Schema.Accepted host limits p.2) →
    (∀ k ∈ ms.map Prod.fst, k ∈ properties.map Prod.fst) →
    ConformsMembers host (.obj properties) (datumMembers host ms) → KeyedMembers ms
  | [], _, _, _, _ => trivial
  | (k, v) :: ms, properties, hprops, hkeys, h => by
    have hin := hkeys k mem_cons_self
    obtain ⟨p, hp, hv⟩ := Instance.member_of_key hin
    obtain ⟨q, hq, hk⟩ := mem_map.mp hin
    have hget : (Value.obj properties).get k = p.2 := hv
    refine ⟨hk ▸ (hprops q hq).1, keyed_of_conforms v (hget ▸ (hprops p hp).2) h.1, ?_⟩
    exact keyedMembers_of_conforms ms hprops (fun l hl => hkeys l (mem_cons_of_mem _ hl)) h.2
end

end

/-! ## The two verdicts -/

/-- The numbers 3 and `i`. -/
def numbers (i : Int) : Value := .arr [.num (.int 3), .num (.int i)]

end Wotex.Profiles
