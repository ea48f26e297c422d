import Wotex.Term.Number
import Wotex.Term.Text

/-!
# JSON terms and bounded admission (`packages/wotex/lib/wotex/json.ex`)

`Value` is a decoded JSON term. Strings are valid UTF-8 (`validate/2` refuses any other binary).
An object is a map; it is kept as the list of its members in key order, the order in which
`encode_value/1` writes them. Equality of `Value` is `===`; `Value.same` is `==`.

`validate/2` walks a term with a node and a byte counter and refuses at the first limit passed.
`walk` follows it; every refusal of the walk is one `none` here, because the only caller under
`packages/wotex-routines` (`Validation.bounded/2`) folds them into one code. `walk_eq` says what
the walk accepts: the counters stay within their limits, and every container and string is within
its own (`Value.fits`).
-/

namespace Wotex.Json

/-- A decoded JSON term; the members of an object are in key order. -/
inductive Value where
  | null
  | bool (b : Bool)
  | num (n : Num)
  | str (s : Text)
  | arr (items : List Value)
  | obj (members : List (Text × Value))

namespace Value

/-! ## Equality -/

mutual
/-- `===` on terms. -/
def beq : Value → Value → Bool
  | null, null => true
  | bool a, bool b => a == b
  | num a, num b => decide (a = b)
  | str a, str b => a == b
  | arr a, arr b => beqItems a b
  | obj a, obj b => beqMembers a b
  | _, _ => false

/-- `===` on arrays. -/
def beqItems : List Value → List Value → Bool
  | [], [] => true
  | a :: as, b :: bs => beq a b && beqItems as bs
  | _, _ => false

/-- `===` on objects. -/
def beqMembers : List (Text × Value) → List (Text × Value) → Bool
  | [], [] => true
  | (k, a) :: as, (l, b) :: bs => k == l && beq a b && beqMembers as bs
  | _, _ => false
end

mutual
theorem beq_iff : ∀ a b : Value, beq a b = true ↔ a = b
  | null, b | bool _, b | num _, b | str _, b => by cases b <;> simp [beq]
  | arr a, b => by cases b <;> simp [beq, beqItems_iff a]
  | obj a, b => by cases b <;> simp [beq, beqMembers_iff a]

theorem beqItems_iff : ∀ a b : List Value, beqItems a b = true ↔ a = b
  | [], b => by cases b <;> simp [beqItems]
  | a :: as, b => by cases b <;> simp [beqItems, beq_iff a, beqItems_iff as]

theorem beqMembers_iff : ∀ a b : List (Text × Value), beqMembers a b = true ↔ a = b
  | [], b => by cases b <;> simp [beqMembers]
  | (k, a) :: as, b => by
    cases b with
    | nil => simp [beqMembers]
    | cons m bs => simp [beqMembers, beq_iff a, beqMembers_iff as, Prod.ext_iff]
end

instance : DecidableEq Value := fun a b => decidable_of_iff _ (beq_iff a b)

mutual
/-- `==` on terms: numbers by value, keys and everything else as `===`. -/
def same : Value → Value → Bool
  | null, null => true
  | bool a, bool b => a == b
  | num a, num b => a.eq b
  | str a, str b => a == b
  | arr a, arr b => sameItems a b
  | obj a, obj b => sameMembers a b
  | _, _ => false

/-- `==` on arrays. -/
def sameItems : List Value → List Value → Bool
  | [], [] => true
  | a :: as, b :: bs => same a b && sameItems as bs
  | _, _ => false

/-- `==` on objects. -/
def sameMembers : List (Text × Value) → List (Text × Value) → Bool
  | [], [] => true
  | (k, a) :: as, (l, b) :: bs => k == l && same a b && sameMembers as bs
  | _, _ => false
end

/-- The first member of a key. -/
def member (key : Text) : List (Text × Value) → Value
  | [] => null
  | (k, v) :: ms => if k = key then v else member key ms

/-- `value[key]`, with `nil` where there is no such member. -/
def get (key : Text) : Value → Value
  | obj ms => member key ms
  | _ => null

/-! ## Measures -/

mutual
/-- Values in the term, containers included. -/
def nodes : Value → Nat
  | arr vs => nodesItems vs + 1
  | obj ms => nodesMembers ms + 1
  | _ => 1

/-- Values in the items of an array. -/
def nodesItems : List Value → Nat
  | [] => 0
  | v :: vs => nodes v + nodesItems vs

/-- Values in the members of an object. -/
def nodesMembers : List (Text × Value) → Nat
  | [] => 0
  | (_, v) :: ms => nodes v + nodesMembers ms
end

mutual
/-- Bytes of the strings and keys in the term. -/
def payload : Value → Nat
  | str s => s.bytes
  | arr vs => payloadItems vs
  | obj ms => payloadMembers ms
  | _ => 0

/-- Bytes of the strings and keys in the items of an array. -/
def payloadItems : List Value → Nat
  | [] => 0
  | v :: vs => payload v + payloadItems vs

/-- Bytes of the strings and keys in the members of an object. -/
def payloadMembers : List (Text × Value) → Nat
  | [] => 0
  | (k, v) :: ms => k.bytes + payload v + payloadMembers ms
end

mutual
/-- Integers of the term within `maximum` in magnitude (`Validation.integer_magnitudes/2`). -/
def magnitudes (maximum : Nat) : Value → Bool
  | num (.int i) => decide (i.natAbs ≤ maximum)
  | arr vs => magnitudesItems maximum vs
  | obj ms => magnitudesMembers maximum ms
  | _ => true

/-- Integers of the items of an array. -/
def magnitudesItems (maximum : Nat) : List Value → Bool
  | [] => true
  | v :: vs => magnitudes maximum v && magnitudesItems maximum vs

/-- Integers of the members of an object. -/
def magnitudesMembers (maximum : Nat) : List (Text × Value) → Bool
  | [] => true
  | (_, v) :: ms => magnitudes maximum v && magnitudesMembers maximum ms
end

end Value

/-! ## Bounded admission -/

structure Limits where
  maxBytes : Nat
  maxDepth : Nat
  maxNodes : Nat
  maxStringBytes : Nat
  maxCollectionSize : Nat

/-- The counters of `walk/2`. -/
structure Walk where
  nodes : Nat
  bytes : Nat

namespace Walk

variable (l : Limits)

/-- The node limit in front of every clause, then `count_node/1`. -/
def enter (s : Walk) : Option Walk :=
  if s.nodes < l.maxNodes then some { s with nodes := s.nodes + 1 } else none

/-- `validate_string/2` and `count_bytes/2`. -/
def text (t : Text) (s : Walk) : Option Walk :=
  if t.bytes ≤ l.maxStringBytes ∧ s.bytes + t.bytes ≤ l.maxBytes then
    some { s with bytes := s.bytes + t.bytes }
  else none

mutual
/-- `walk/2` at container depth `depth`. -/
def walk (depth : Nat) : Value → Walk → Option Walk
  | .str t, s => (enter l s).bind (text l t)
  | .arr vs, s =>
    if depth < l.maxDepth then (enter l s).bind (walkList (depth + 1) 0 vs) else none
  | .obj ms, s =>
    if depth < l.maxDepth ∧ ms.length ≤ l.maxCollectionSize then
      (enter l s).bind (walkMembers (depth + 1) ms)
    else none
  | .null, s | .bool _, s | .num _, s => enter l s

def walkList (depth : Nat) : Nat → List Value → Walk → Option Walk
  | _, [], s => some s
  | index, v :: vs, s =>
    if index + 1 ≤ l.maxCollectionSize then (walk depth v s).bind (walkList depth (index + 1) vs)
    else none

/-- `walk_member/3` over the members. -/
def walkMembers (depth : Nat) : List (Text × Value) → Walk → Option Walk
  | [], s => some s
  | (k, v) :: ms, s => ((text l k s).bind (walk depth v)).bind (walkMembers depth ms)
end

end Walk

def validate (l : Limits) (v : Value) : Bool := (Walk.walk l 0 v ⟨0, 0⟩).isSome

/-! ## What the walk accepts -/

namespace Value

variable (l : Limits)

mutual
/-- Every container and string of the term is within its own limit. -/
def fits (depth : Nat) : Value → Bool
  | str t => decide (t.bytes ≤ l.maxStringBytes)
  | arr vs =>
    decide (depth < l.maxDepth) && decide (vs.length ≤ l.maxCollectionSize) && fitsItems (depth + 1) vs
  | obj ms =>
    decide (depth < l.maxDepth) && decide (ms.length ≤ l.maxCollectionSize) && fitsMembers (depth + 1) ms
  | _ => true

/-- The items of an array. -/
def fitsItems (depth : Nat) : List Value → Bool
  | [] => true
  | v :: vs => fits depth v && fitsItems depth vs

/-- The members of an object. -/
def fitsMembers (depth : Nat) : List (Text × Value) → Bool
  | [] => true
  | (k, v) :: ms =>
    decide (k.bytes ≤ l.maxStringBytes) && fits depth v && fitsMembers depth ms
end

end Value

namespace Walk

variable {l : Limits}

/-- Both counters are within their limits. -/
def Within (l : Limits) (s : Walk) : Prop := s.nodes ≤ l.maxNodes ∧ s.bytes ≤ l.maxBytes

/-- The walk after `n` more nodes and `b` more bytes, while both counters are within limits and
`ok` holds. -/
def advance (l : Limits) (ok : Bool) (n b : Nat) (s : Walk) : Option Walk :=
  if ok = true ∧ s.nodes + n ≤ l.maxNodes ∧ s.bytes + b ≤ l.maxBytes then
    some ⟨s.nodes + n, s.bytes + b⟩
  else none

variable {s : Walk}

theorem advance_within {ok : Bool} {n b : Nat} {s' : Walk} (h : advance l ok n b s = some s') :
    Within l s' := by
  unfold advance at h
  split at h
  · rename_i hc
    cases h
    exact hc.2
  · exact absurd h (by simp)

theorem advance_bind {p q : Bool} {n b m c : Nat} {f : Walk → Option Walk}
    (hf : ∀ s' : Walk, Within l s' → f s' = advance l q m c s') :
    (advance l p n b s).bind f = advance l (p && q) (n + m) (b + c) s := by
  cases h : advance l p n b s with
  | none =>
    unfold advance at h ⊢
    split at h
    · exact absurd h (by simp)
    · rename_i hc
      rw [if_neg, Option.bind_none]
      rintro ⟨h1, h2, h3⟩
      rw [Bool.and_eq_true] at h1
      exact hc ⟨h1.1, by omega, by omega⟩
  | some s' =>
    rw [Option.bind_some, hf s' (advance_within h)]
    unfold advance at h ⊢
    split at h
    · rename_i hc
      cases h
      simp [hc.1, Nat.add_assoc]
    · exact absurd h (by simp)

theorem advance_if {c : Prop} [Decidable c] {ok : Bool} {n b : Nat} :
    (if c then advance l ok n b s else none) = advance l (decide c && ok) n b s := by
  unfold advance
  by_cases hc : c <;> simp [hc]

theorem enter_eq (hs : Within l s) : enter l s = advance l true 1 0 s := by
  unfold enter advance
  simp only [true_and, Nat.add_zero, hs.2, and_true, Nat.lt_iff_add_one_le]

theorem text_eq (t : Text) (hs : Within l s) :
    text l t s = advance l (decide (t.bytes ≤ l.maxStringBytes)) 0 t.bytes s := by
  unfold text advance
  simp [hs.1]

theorem advance_zero (hs : Within l s) : advance l true 0 0 s = some s := by
  simp [advance, hs.1, hs.2]

mutual
/-- **What the walk accepts**: the counters stay within their limits and the term `fits`. -/
theorem walk_eq : ∀ (v : Value) (depth : Nat) {s : Walk}, Within l s →
    walk l depth v s = advance l (v.fits l depth) v.nodes v.payload s
  | .null, _, _, hs | .bool _, _, _, hs | .num _, _, _, hs => by
    simp [walk, enter_eq hs, Value.fits, Value.nodes, Value.payload]
  | .str t, _, _, hs => by
    simp only [walk, enter_eq hs, Value.fits, Value.nodes, Value.payload]
    rw [advance_bind fun s' hs' => text_eq t hs']
    simp
  | .arr vs, depth, s, hs => by
    have step := advance_bind (p := true) (n := 1) (b := 0) (s := s)
      fun s' hs' => walkList_eq vs (depth + 1) 0 (Nat.zero_le _) (s := s') hs'
    simp only [walk, enter_eq hs, Value.fits, Value.nodes, Value.payload]
    rw [step, advance_if]
    simp [Nat.add_comm, Bool.and_assoc]
  | .obj ms, depth, s, hs => by
    have step := advance_bind (p := true) (n := 1) (b := 0) (s := s)
      fun s' hs' => walkMembers_eq ms (depth + 1) (s := s') hs'
    simp only [walk, enter_eq hs, Value.fits, Value.nodes, Value.payload]
    rw [step, advance_if]
    simp [Nat.add_comm]

theorem walkList_eq : ∀ (vs : List Value) (depth index : Nat), index ≤ l.maxCollectionSize →
    ∀ {s : Walk}, Within l s → walkList l depth index vs s =
      advance l (decide (index + vs.length ≤ l.maxCollectionSize) && Value.fitsItems l depth vs)
        (Value.nodesItems vs) (Value.payloadItems vs) s
  | [], _, index, hi, s, hs => by
    simp [walkList, Value.fitsItems, Value.nodesItems, Value.payloadItems, hi, advance_zero hs]
  | v :: vs, depth, index, _, s, hs => by
    simp only [walkList, Value.fitsItems, Value.nodesItems, Value.payloadItems]
    by_cases hc : index + 1 ≤ l.maxCollectionSize
    · have step := advance_bind (p := v.fits l depth) (n := v.nodes) (b := v.payload) (s := s)
        fun s' hs' => walkList_eq vs depth (index + 1) hc (s := s') hs'
      rw [if_pos hc, walk_eq v depth hs, step, List.length_cons,
        show index + 1 + vs.length = index + (vs.length + 1) by omega, Bool.and_left_comm]
    · rw [if_neg hc]
      unfold advance
      rw [if_neg]
      rintro ⟨h, -⟩
      simp only [Bool.and_eq_true, decide_eq_true_eq, List.length_cons] at h
      omega

theorem walkMembers_eq : ∀ (ms : List (Text × Value)) (depth : Nat) {s : Walk}, Within l s →
    walkMembers l depth ms s =
      advance l (Value.fitsMembers l depth ms) (Value.nodesMembers ms) (Value.payloadMembers ms) s
  | [], _, s, hs => by
    simp [walkMembers, Value.fitsMembers, Value.nodesMembers, Value.payloadMembers, advance_zero hs]
  | (k, v) :: ms, depth, s, hs => by
    simp only [walkMembers, Value.fitsMembers, Value.nodesMembers, Value.payloadMembers]
    rw [text_eq k hs, advance_bind fun s' hs' => walk_eq v depth hs',
      advance_bind fun s' hs' => walkMembers_eq ms depth hs', Nat.zero_add]
end

end Walk

/-- **`validate/2` in closed form.** -/
theorem validate_iff {l : Limits} {v : Value} : validate l v = true ↔
      v.fits l 0 = true ∧ v.nodes ≤ l.maxNodes ∧ v.payload ≤ l.maxBytes := by
  unfold validate
  rw [Walk.walk_eq v 0 ⟨Nat.zero_le _, Nat.zero_le _⟩]
  unfold Walk.advance
  split <;> simp_all

end Wotex.Json
