import Wotex.Runtime.JSON

/-!
# What bounded JSON writes reads back

`Written` says everything the parts of this development need of a written value: the count of bytes is
right and within its limit, the text has no control characters, and the reader takes the value off the
front of whatever may follow it, with the same count of nodes. `faithful_emit` proves it of `emit/5` by
induction on the levels of nesting; `decode_encode` is the round trip of the two functions. So terms with
one digest are one term, as far as the hash tells (`digest_identifies`).

The members of an object are written in another order than they are kept in. They are distinct, so the
map the reader builds is the one that was written (`Dict.putAll_perm`); that a term is a map at every
level is `Value.ordered`.
-/

namespace Wotex.Json.Value

mutual
/-- Every object of the term holds each key once, in key order. -/
def ordered : Value → Bool
  | arr items => orderedItems items
  | obj members => decide ((members.map Prod.fst).Pairwise (· < ·)) && orderedMembers members
  | _ => true

/-- Every item is ordered. -/
def orderedItems : List Value → Bool
  | [] => true
  | v :: vs => ordered v && orderedItems vs

/-- Every member's value is ordered. -/
def orderedMembers : List (Text × Value) → Bool
  | [] => true
  | (_, v) :: ms => ordered v && orderedMembers ms
end

theorem orderedItems_iff {vs : List Value} : orderedItems vs = true ↔ ∀ v ∈ vs, ordered v = true := by
  induction vs with
  | nil => simp [orderedItems]
  | cons v vs ih => simp [orderedItems, ih]

theorem orderedMembers_iff {ms : List (Text × Value)} :
    orderedMembers ms = true ↔ ∀ m ∈ ms, ordered m.2 = true := by
  induction ms with
  | nil => simp [orderedMembers]
  | cons m ms ih => simp [orderedMembers, ih]

end Wotex.Json.Value

namespace Wotex.Runtime.JSON

open Json (Value decimal)

/-! ## Strings -/

theorem hexDigit_hexLower : ∀ d < 16, hexDigit (hexLower d) = some d := by decide

/-- **A written character reads back.** -/
theorem character_escape (c : Char) (rest : Text) : character (escape c ++ rest) = .ok (some c, rest) := by
  have short : ∀ n, c.toNat = n → Char.ofNat n = c := by
    rintro n rfl
    exact Char.ofNat_toNat c
  unfold escape
  split_ifs with h1 h2 h3 h4 h5 h6 h7 h8
  · subst h1; rfl
  · subst h2; rfl
  · rw [← short _ h3]; rfl
  · rw [← short _ h4]; rfl
  · rw [← short _ h5]; rfl
  · rw [← short _ h6]; rfl
  · rw [← short _ h7]; rfl
  · have hhigh := hexDigit_hexLower (c.toNat / 16) (by omega)
    have hlow := hexDigit_hexLower (c.toNat % 16) (by omega)
    have hpoint : ((0 * 16 + 0) * 16 + c.toNat / 16) * 16 + c.toNat % 16 = c.toNat := by omega
    have hhex : hex '0' '0' (hexLower (c.toNat / 16)) (hexLower (c.toNat % 16)) = .ok c.toNat := by
      rw [hex, hhigh, hlow]
      exact congrArg Outcome.ok hpoint
    have hpair : surrogate c.toNat rest = .ok (c.toNat, rest) := by
      unfold surrogate
      rw [if_neg (by omega), if_neg (by omega)]
    change escaped ('u' :: '0' :: '0' :: _ :: _ :: rest) = _
    rw [escaped, if_pos rfl]
    simp [hhex, hpair]
  · rw [List.singleton_append, character, if_neg h1, if_neg h2, if_pos (by omega)]

variable {rest : Text}

theorem stringLoop_escape {limit : Nat} :
    ∀ (s : Text) {fuel size : Nat} (acc : Text), s.length < fuel → size + s.bytes ≤ limit →
      stringLoop limit fuel (s.flatMap escape ++ '"' :: rest) acc size = .ok (acc.reverse ++ s, rest)
  | [], fuel + 1, size, acc, _, _ => by
    rw [stringLoop]
    simp [character]
  | c :: s, fuel + 1, size, acc, hfuel, hsize => by
    rw [Text.bytes_cons] at hsize
    rw [List.length_cons] at hfuel
    rw [List.flatMap_cons, List.append_assoc, stringLoop, character_escape]
    simp only [ok_bind]
    rw [if_pos (by omega), stringLoop_escape s (c :: acc) (by omega) (by omega)]
    simp

theorem length_escape_pos (c : Char) : 0 < (escape c).length := by
  unfold escape
  split_ifs <;> exact Nat.succ_pos _

theorem length_le_length_escape (s : Text) : s.length ≤ (s.flatMap escape).length := by
  induction s with
  | nil => rfl
  | cons c s ih =>
    have := length_escape_pos c
    rw [List.flatMap_cons, List.length_append, List.length_cons]
    omega

/-- **A written string reads back.** -/
theorem string_quoted {limit : Nat} {s : Text} (h : s.bytes ≤ limit) (rest : Text) :
    string limit (s.flatMap escape ++ '"' :: rest) = .ok (s, rest) := by
  have hlen := length_le_length_escape s
  rw [string, stringLoop_escape s []]
  · rfl
  · rw [List.length_append]
    omega
  · omega

variable {c : Char}

theorem printable_escape {d : Char} (h : d ∈ escape c) : 32 ≤ d.toNat := by
  have hlower : ∀ n < 16, 32 ≤ (hexLower n).toNat := by decide
  unfold escape at h
  split_ifs at h with h1 h2 h3 h4 h5 h6 h7 h8 <;>
    simp only [List.mem_cons, List.not_mem_nil, or_false] at h
  iterate 7 rcases h with rfl | rfl <;> decide
  · rcases h with rfl | rfl | rfl | rfl | rfl | rfl
    iterate 4 decide
    · exact hlower _ (by omega)
    · exact hlower _ (by omega)
  · rw [h]
    omega

theorem printable_quoted {s : Text} {d : Char} (h : d ∈ quoted s) : 32 ≤ d.toNat := by
  simp only [quoted, List.mem_cons, List.mem_append, List.mem_flatMap, List.not_mem_nil, or_false] at h
  obtain rfl | ⟨c, -, h⟩ | rfl := h
  exacts [by decide, printable_escape h, by decide]

/-! ## Numbers -/

/-- What may follow a value: nothing, or a character that neither continues a number nor is skipped. -/
def Delimited (rest : Text) : Prop := ∀ c ∈ rest.head?, numeric c = false ∧ blank c = false

theorem delimited_nil : Delimited [] := by simp [Delimited]

theorem delimited_cons (hn : numeric c = false) (hb : blank c = false) : Delimited (c :: rest) := by
  simp [Delimited, hn, hb]

theorem Delimited.skip (h : Delimited rest) : skip rest = rest := by
  cases rest with
  | nil => rfl
  | cons c rest => rw [JSON.skip, List.dropWhile_cons_of_neg (by simp [(h c rfl).2])]

theorem number_append (hrest : Delimited rest) :
    ∀ {digits : Text} (token : Text), (∀ c ∈ digits, numeric c = true) →
      token.length + digits.length ≤ 18 → number (digits ++ rest) token = (token ++ digits, rest)
  | [], token, _, _ => by
    cases rest with
    | nil => simp [number]
    | cons c rest => simp [number, (hrest c rfl).1]
  | c :: digits, token, hnum, hlen => by
    rw [List.length_cons] at hlen
    rw [List.cons_append, number, if_pos (hnum c List.mem_cons_self), if_pos (by omega),
      number_append hrest (token ++ [c]) (fun d hd => hnum d (List.mem_cons_of_mem _ hd))
        (by rw [List.length_append, List.length_singleton]; omega)]
    simp

/-- The decimal digits of a positive number do not start with a zero. -/
theorem toDigits_head {n : Nat} (h : 0 < n) : ∃ c rest, Nat.toDigits 10 n = c :: rest ∧ c ≠ '0' := by
  induction n using Nat.strongRecOn with
  | ind n ih =>
    by_cases hn : n < 10
    · have hdigit : ∀ d < 10, 0 < d → Nat.digitChar d ≠ '0' := by decide
      exact ⟨n.digitChar, [], Nat.toDigits_of_lt_base hn, hdigit n hn h⟩
    · obtain ⟨c, rest, heq, hc⟩ := ih (n / 10) (by omega) (by omega)
      exact ⟨c, rest ++ [(n % 10).digitChar], by
        rw [Nat.toDigits_of_base_le (by decide) (by omega), heq, List.cons_append], hc⟩

theorem natural_toDigits (n : Nat) : natural? (Nat.toDigits 10 n) = some n := by
  rcases Nat.eq_zero_or_pos n with rfl | h
  · rfl
  · obtain ⟨c, rest, heq, hc⟩ := toDigits_head h
    have hall : ∀ d ∈ c :: rest, d.isDigit = true := fun d hd =>
      Json.toDigits_isDigit (heq ▸ hd)
    have hrest : rest.all Char.isDigit = true :=
      List.all_eq_true.mpr fun d hd => hall d (List.mem_cons_of_mem _ hd)
    have hvalue : Nat.ofDigitChars 10 (c :: rest) 0 = n := heq ▸ Nat.ofDigitChars_ten_toDigits
    rw [heq, natural?, if_pos (by simp [hc, hall c List.mem_cons_self, hrest]), hvalue]

theorem integer_decimal (i : Int) : integer? (decimal i) = some i := by
  cases i with
  | ofNat n =>
    cases heq : Nat.toDigits 10 n with
    | nil => exact absurd heq Nat.toDigits_ne_nil
    | cons c rest =>
      have hc : c ≠ '-' := by
        rintro rfl
        exact absurd (Json.toDigits_isDigit (n := n) (heq ▸ List.mem_cons_self)) (by decide)
      have hnat := natural_toDigits n
      rw [heq] at hnat
      rw [decimal, heq, integer?, if_neg hc, hnat]
      rfl
  | negSucc n =>
    rw [decimal, integer?, natural_toDigits]
    rfl

variable {i : Int}

theorem numeric_decimal (h : c ∈ decimal i) : numeric c = true := by
  rcases Json.decimal_chars h with rfl | h
  · rfl
  · simp [numeric, h]

theorem length_decimal (h : -safe ≤ i ∧ i ≤ safe) : (decimal i).length ≤ 17 := by
  have hlen : ∀ n : Nat, n < 10 ^ 16 → (Nat.toDigits 10 n).length ≤ 16 := fun n hn =>
    (Nat.length_toDigits_le_iff (by decide) (by decide)).mpr hn
  rw [safe] at h
  cases i with
  | ofNat n =>
    have := hlen n (by have := h.2; rw [Int.ofNat_eq_natCast] at this; omega)
    exact this.trans (by decide)
  | negSucc n =>
    have := hlen (n + 1) (by have := h.1; rw [Int.negSucc_eq] at this; omega)
    rw [decimal, List.length_cons]
    omega

theorem decimal_char (h : c ∈ decimal i) : 32 ≤ c.toNat ∧ blank c = false ∧ c ≠ ']' := by
  rcases Json.decimal_chars h with rfl | hd
  · decide
  · have hlow := (Char.isDigit_iff_toNat.mp hd).1
    refine ⟨le_trans (by decide) hlow, ?_, ?_⟩
    · by_contra hb
      simp only [blank, Bool.not_eq_false, Bool.or_eq_true, beq_iff_eq] at hb
      rcases hb with ((rfl | rfl) | rfl) | rfl <;> revert hd <;> decide
    · rintro rfl
      revert hd
      decide

/-- **A written integer reads back.** -/
theorem numeral_decimal (h : -safe ≤ i ∧ i ≤ safe) (hrest : Delimited rest)
    (nodes : Nat) : numeral (decimal i ++ rest) nodes = .ok (.num (.int i), rest, nodes + 1) := by
  have hlen := length_decimal h
  rw [numeral, number_append hrest [] (fun _ => numeric_decimal) (by rw [List.length_nil]; omega)]
  dsimp only
  rw [List.nil_append, if_pos hlen, integer_decimal]
  exact if_pos (abs_le.mpr h)

/-! ## One value -/

/-- What is known of a written value. -/
structure Written (limits : Limits) (read : Reader) (value : Value) (nodes bytes : Nat) (part : Text)
    (nodes' bytes' : Nat) : Prop where
  /-- The count of bytes grows by those of the text. -/
  counted : bytes' = bytes + part.bytes
  within : bytes' ≤ limits.bytes
  printable : ∀ c ∈ part, 32 ≤ c.toNat
  /-- The text starts as a value does. -/
  opens : ∃ c tail, part = c :: tail ∧ blank c = false ∧ c ≠ ']'
  /-- The reader takes the value off, with the count of nodes of the writer. -/
  reads : ∀ rest, Delimited rest → read (part ++ rest) nodes = .ok (value, rest, nodes')

/-- Whatever the writer writes reads back. -/
def Faithful (limits : Limits) (write : Writer) (read : Reader) : Prop :=
  ∀ {value nodes bytes part nodes' bytes'}, value.ordered = true →
    write value nodes bytes = .ok (part, nodes', bytes') →
    Written limits read value nodes bytes part nodes' bytes'

variable {part : Text}

theorem skip_opens (h : ∃ c tail, part = c :: tail ∧ blank c = false ∧ c ≠ ']')
    (rest : Text) : skip (part ++ rest) = part ++ rest := by
  obtain ⟨c, tail, rfl, hc, -⟩ := h
  rw [List.cons_append, skip, List.dropWhile_cons_of_neg (by simp [hc])]

variable {value : Value}

section Scalars

variable {limits : Limits} {deeper : Option Reader} {nodes : Nat}

section

variable (hn : nodes < limits.nodes)
include hn

theorem level_string {s : Text} (hs : s.bytes ≤ limits.string) (rest : Text) :
    level limits deeper (quoted s ++ rest) nodes = .ok (.str s, rest, nodes + 1) := by
  have heq : quoted s ++ rest = '"' :: (s.flatMap escape ++ '"' :: rest) := by simp [quoted]
  rw [heq]
  unfold level
  rw [if_neg (by omega)]
  simp [string_quoted hs]

theorem level_literal {word : Text}
    (h : literal (word ++ rest) = some (value, rest)) :
    level limits deeper (word ++ rest) nodes = .ok (value, rest, nodes + 1) := by
  unfold level
  rw [if_neg (by omega)]
  split
  iterate 3 rename_i heq; rw [heq] at h; cases h
  rw [h]

theorem level_decimal (hi : -safe ≤ i ∧ i ≤ safe) (hrest : Delimited rest) :
    level limits deeper (decimal i ++ rest) nodes = .ok (.num (.int i), rest, nodes + 1) := by
  have hread := numeral_decimal hi hrest nodes
  cases heq : decimal i with
  | nil => exact absurd heq (Json.decimal_ne_nil i)
  | cons c tail =>
    have hc := Json.decimal_chars (i := i) (heq ▸ List.mem_cons_self)
    have hne : c ∉ ['n', 't', 'f', '{', '[', '"'] := by
      intro hmem
      simp only [List.mem_cons, List.not_mem_nil, or_false] at hmem
      rcases hmem with rfl | rfl | rfl | rfl | rfl | rfl <;> revert hc <;> decide
    rw [heq, List.cons_append] at hread
    have hliteral : literal (c :: (tail ++ rest)) = none := by
      unfold literal
      split <;> simp_all
    rw [List.cons_append]
    unfold level
    rw [if_neg (by omega)]
    split
    iterate 3 rename_i h; exact absurd (List.cons.inj h).1 fun h => hne (by simp [h])
    rw [hliteral, hread]

end

end Scalars

variable {limits : Limits}

theorem written_scalar {deeper : Option Reader} {nodes bytes : Nat} (hn : nodes < limits.nodes)
    (h : scalar limits value = .ok part) (hsize : bytes + part.bytes ≤ limits.bytes) :
    Written limits (level limits deeper) value nodes bytes part (nodes + 1) (bytes + part.bytes) := by
  have word : ∀ {w : Text} {v : Value}, (∀ rest, literal (w ++ rest) = some (v, rest)) →
      (∀ c ∈ w, 32 ≤ c.toNat) → (∃ c tail, w = c :: tail ∧ blank c = false ∧ c ≠ ']') →
      bytes + w.bytes ≤ limits.bytes →
      Written limits (level limits deeper) v nodes bytes w (nodes + 1) (bytes + w.bytes) :=
    fun hlit hprint hopens hsize =>
      ⟨rfl, hsize, hprint, hopens, fun rest _ => level_literal hn (hlit rest)⟩
  match value with
  | .null | .bool true | .bool false =>
    cases h
    exact word (fun _ => rfl) (by simp) ⟨_, _, rfl, rfl, by decide⟩ hsize
  | .num (.int i) =>
    rw [scalar] at h
    split_ifs at h with hi
    cases h
    refine ⟨rfl, hsize, fun c hc => (decimal_char hc).1, ?_, fun rest hrest => level_decimal hn hi hrest⟩
    cases heq : decimal i with
    | nil => exact absurd heq (Json.decimal_ne_nil i)
    | cons c tail => exact ⟨c, tail, rfl, (decimal_char (heq ▸ List.mem_cons_self)).2⟩
  | .str s =>
    rw [scalar] at h
    split_ifs at h with hs
    cases h
    exact ⟨rfl, hsize, fun c => printable_quoted, ⟨'"', _, rfl, rfl, by decide⟩,
      fun rest _ => level_string hn (not_lt.mp hs) rest⟩
  | .num (.flt _) | .arr _ | .obj _ => cases h

/-! ## Containers -/

/-- The text behind the first part of a container. -/
def tails (parts : List Text) : Text := parts.flatMap fun p => ',' :: p

theorem intercalate_cons (p : Text) (ps : List Text) : [','].intercalate (p :: ps) = p ++ tails ps := by
  induction ps generalizing p with
  | nil => simp [tails]
  | cons q ps ih =>
    rw [List.intercalate_cons_cons, ih, List.append_assoc]
    rfl

/-- The parts of a container: each is a label with a written value behind it, and all but the first
cost a comma. -/
inductive Entries {ε : Type} (limits : Limits) (read : Reader) (label : ε → Text)
    (value : ε → Value) : Bool → List ε → Nat → Nat → List Text → Nat → Nat → Prop
  | nil (first : Bool) (nodes bytes : Nat) :
      Entries limits read label value first [] nodes bytes [] nodes bytes
  | cons {first : Bool} {e : ε} {rest : List ε} {nodes bytes : Nat} {part : Text} {n b : Nat}
      {parts : List Text} {nodes' bytes' : Nat} :
      Written limits read (value e) nodes (bytes + (label e).bytes + if first then 0 else 1) part n b →
      Entries limits read label value false rest n b parts nodes' bytes' →
      Entries limits read label value first (e :: rest) nodes bytes ((label e ++ part) :: parts) nodes'
        bytes'

section Loops

variable {ε σ τ : Type} {limits : Limits} {write : Writer} {read : Reader} {label : ε → Text}
  {value : ε → Value} {first : Bool} {e : ε} {entries : List ε} {nodes bytes : Nat}
  {parts : List Text} {nodes' bytes' : Nat}

variable {left : Nat}

namespace Entries

section

variable (h : Entries limits read label value first entries nodes bytes parts nodes' bytes')
include h

theorem counted : bytes' = bytes + Text.bytes (if first then [','].intercalate parts else tails parts) := by
  induction h with
  | nil first nodes bytes => cases first <;> rfl
  | @cons first e rest nodes bytes part n b parts nodes' bytes' hw _ ih =>
    rw [ih, hw.counted]
    cases first with
    | true => simp [intercalate_cons]; omega
    | false =>
      have hcomma : Char.utf8Size ',' = 1 := by decide
      simp [tails]
      omega

theorem printable (hl : ∀ e, ∀ c ∈ label e, 32 ≤ c.toNat) : ∀ part ∈ parts, ∀ c ∈ part, 32 ≤ c.toNat := by
  induction h with
  | nil => simp
  | cons hw _ ih =>
    exact List.forall_mem_cons.mpr ⟨List.forall_mem_append.mpr ⟨hl _, hw.printable⟩, ih⟩

end

theorem skip (h : Entries limits read label value first (e :: entries) nodes bytes parts nodes' bytes')
    (hl : ∀ e, ∀ c ∈ (label e).head?, blank c = false) (rest : Text) :
    JSON.skip ([','].intercalate parts ++ rest) = [','].intercalate parts ++ rest := by
  cases h with
  | cons hw _ =>
    rw [intercalate_cons, List.append_assoc, List.append_assoc]
    cases hlabel : label e with
    | nil => exact skip_opens hw.opens _
    | cons c l =>
      have hc : blank c = false := hl e c (by rw [hlabel]; rfl)
      rw [List.cons_append, JSON.skip, List.dropWhile_cons_of_neg (by simp [hc])]

/-- **Reading a container** that is not empty, by a loop that takes one entry a turn. The state of
the loop fits the entries still to come. -/
theorem reads (loop : Nat → σ → Bool → Text → Nat → Result (τ × Text × Nat)) (add : σ → ε → σ)
    (done : σ → τ) (fits : σ → List ε → Prop) {close : Char}
    (turn : ∀ left {acc} more {e es n b part n' b'}, fits acc (e :: es) →
      Written limits read (value e) n b part n' b' → fits (add acc e) es ∧
      (∀ next, loop (left + 1) acc more (label e ++ part ++ ',' :: next) n =
        loop left (add acc e) true (JSON.skip next) n') ∧
      ∀ rest, loop (left + 1) acc more (label e ++ part ++ close :: rest) n =
        .ok (done (add acc e), rest, n'))
    (hl : ∀ e, ∀ c ∈ (label e).head?, blank c = false) {acc : σ} (more : Bool)
    (rest : Text) (hfits : fits acc (e :: entries)) (hleft : entries.length < left)
    (h : Entries limits read label value first (e :: entries) nodes bytes parts nodes' bytes') :
    loop left acc more ([','].intercalate parts ++ close :: rest) nodes =
      .ok (done (entries.foldl add (add acc e)), rest, nodes') := by
  induction entries generalizing e first nodes bytes parts left acc more with
  | nil =>
    cases h with
    | cons hw hrest =>
      cases hrest
      obtain ⟨left, rfl⟩ := Nat.exists_eq_succ_of_ne_zero (Nat.ne_zero_of_lt hleft)
      rw [List.intercalate_singleton]
      exact (turn left more hfits hw).2.2 rest
  | cons e' entries ih =>
    cases h with
    | cons hw hrest =>
      obtain ⟨left, rfl⟩ := Nat.exists_eq_succ_of_ne_zero (Nat.ne_zero_of_lt hleft)
      obtain ⟨hfits', hmore, -⟩ := turn left more hfits hw
      have hnext := ih true hfits' (Nat.lt_of_succ_lt_succ hleft) hrest
      cases hrest with
      | cons hw' hrest' =>
        rw [List.intercalate_cons_cons, List.append_assoc, List.append_assoc, List.singleton_append,
          hmore, (Entries.cons hw' hrest').skip hl]
        exact hnext

end Entries

theorem finish_eq_ok {opening closing : Char} {acc : List Text} {text : Text}
    (h : finish limits opening closing acc nodes bytes = .ok (text, nodes', bytes')) :
    bytes ≤ limits.bytes ∧ text = opening :: ([','].intercalate acc.reverse ++ [closing]) ∧
      nodes' = nodes ∧ bytes' = bytes := by
  simp only [finish, size, bind_eq_ok_unit, require_eq_ok, decide_eq_true_eq] at h
  obtain ⟨hsize, rfl, ⟨⟩⟩ := h
  exact ⟨hsize, rfl, rfl, rfl⟩

theorem emitArray_entries (hf : Faithful limits write read) :
    ∀ {items : List Value} {acc : List Text} {count nodes bytes : Nat} {text : Text}
      {nodes' bytes' : Nat}, (∀ v ∈ items, v.ordered = true) →
      emitArray limits write items acc count nodes bytes = .ok (text, nodes', bytes') →
      items.length ≤ limits.entries - count ∧ bytes' ≤ limits.bytes ∧
        ∃ parts, text = '[' :: ([','].intercalate (acc.reverse ++ parts) ++ [']']) ∧
          Entries limits read (fun _ => []) id (decide (count = 0)) items nodes bytes parts nodes' bytes'
  | [], acc, count, nodes, bytes, text, nodes', bytes', _, h => by
    obtain ⟨hsize, rfl, rfl, rfl⟩ := finish_eq_ok h
    exact ⟨Nat.zero_le _, hsize, [], by rw [List.append_nil], .nil _ _ _⟩
  | value :: items, acc, count, nodes, bytes, text, nodes', bytes', hv, h => by
    obtain ⟨hvalue, hitems⟩ := List.forall_mem_cons.mp hv
    rw [emitArray] at h
    by_cases hcount : count < limits.entries
    · rw [if_pos hcount, bind_eq_ok] at h
      obtain ⟨⟨part, n, b⟩, hw, hrest⟩ := h
      obtain ⟨hlen, hsize, parts, htext, hentries⟩ := emitArray_entries hf hitems hrest
      refine ⟨by rw [List.length_cons]; omega, hsize, part :: parts, by rw [htext]; simp, ?_⟩
      exact Entries.cons (by simpa using hf hvalue hw) (by simpa using hentries)
    · rw [if_neg hcount] at h
      cases h

/-- The label a member is written with. -/
def memberLabel (member : Text × Value) : Text := quoted member.1 ++ [':']

theorem emitObject_entries (hf : Faithful limits write read) :
    ∀ {members : List (Text × Value)} {acc : List Text} {nodes bytes : Nat} {text : Text}
      {nodes' bytes' : Nat}, (∀ m ∈ members, m.2.ordered = true) →
      emitObject limits write members acc nodes bytes = .ok (text, nodes', bytes') →
      (∀ m ∈ members, m.1.bytes ≤ limits.string) ∧ bytes' ≤ limits.bytes ∧
        ∃ parts, text = '{' :: ([','].intercalate (acc.reverse ++ parts) ++ ['}']) ∧
          Entries limits read memberLabel Prod.snd (decide (acc = [])) members nodes bytes parts nodes'
            bytes'
  | [], acc, nodes, bytes, text, nodes', bytes', _, h => by
    obtain ⟨hsize, rfl, rfl, rfl⟩ := finish_eq_ok h
    exact ⟨by simp, hsize, [], by rw [List.append_nil], .nil _ _ _⟩
  | (key, value) :: members, acc, nodes, bytes, text, nodes', bytes', hv, h => by
    obtain ⟨hvalue, hmembers⟩ := List.forall_mem_cons.mp hv
    rw [emitObject, bind_eq_ok] at h
    obtain ⟨label, hlabel, h⟩ := h
    rw [bind_eq_ok_unit, bind_eq_ok] at h
    obtain ⟨-, ⟨part, n, b⟩, hw, hrest⟩ := h
    obtain ⟨hkeys, hsize, parts, htext, hentries⟩ := emitObject_entries hf hmembers hrest
    rw [scalar] at hlabel
    split_ifs at hlabel with hkey
    cases hlabel
    refine ⟨List.forall_mem_cons.mpr ⟨not_lt.mp hkey, hkeys⟩, hsize,
      (memberLabel (key, value) ++ part) :: parts, by rw [htext]; simp [memberLabel], ?_⟩
    have hcolon : Char.utf8Size ':' = 1 := by decide
    have hbytes : bytes + (memberLabel (key, value)).bytes +
        (if decide (acc = []) = true then 0 else 1) =
        bytes + Text.bytes (quoted key) + 1 + if acc = [] then 0 else 1 := by
      simp [memberLabel, hcolon, Nat.add_assoc]
    exact Entries.cons (hbytes ▸ hf hvalue hw) (by simpa using hentries)

/-- One turn of reading an array. -/
theorem array_turn {acc : List Value} {more : Bool} {v : Value}
    (hw : Written limits read v nodes bytes part nodes' bytes') :
    (∀ next, array read (left + 1) acc more (part ++ ',' :: next) nodes =
        array read left (v :: acc) true (skip next) nodes') ∧
      ∀ rest, array read (left + 1) acc more (part ++ ']' :: rest) nodes =
        .ok ((v :: acc).reverse, rest, nodes') := by
  have hopen : ∀ t : Text, (!more && (part ++ t).head? == some ']') = false := by
    obtain ⟨c, tail, rfl, -, hc⟩ := hw.opens
    simp [hc]
  have hcomma : ∀ t, Delimited (',' :: t) := fun t => delimited_cons rfl rfl
  have hend : ∀ t, Delimited (']' :: t) := fun t => delimited_cons rfl rfl
  constructor <;> intro t <;> rw [array, hopen] <;>
    simp only [Bool.false_eq_true, if_false, hw.reads _ (hcomma t), hw.reads _ (hend t), ok_bind,
      (hcomma t).skip, (hend t).skip]

/-- One turn of reading an object, whose member is new. -/
theorem object_turn {acc : Dict Value} {more : Bool} {m : Text × Value}
    (hkey : m.1.bytes ≤ limits.string) (hnew : acc.get m.1 = none)
    (hw : Written limits read m.2 nodes bytes part nodes' bytes') :
    (∀ next, object limits read (left + 1) acc more (memberLabel m ++ part ++ ',' :: next) nodes =
        object limits read left (acc.put m.1 m.2) true (skip next) nodes') ∧
      ∀ rest, object limits read (left + 1) acc more (memberLabel m ++ part ++ '}' :: rest) nodes =
        .ok (acc.put m.1 m.2, rest, nodes') := by
  have hshape : ∀ t : Text, memberLabel m ++ part ++ t =
      '"' :: (m.1.flatMap escape ++ '"' :: ':' :: (part ++ t)) := by
    intro t
    simp [memberLabel, quoted]
  have hlabel : ∀ t : Text, label limits acc (m.1.flatMap escape ++ '"' :: ':' :: (part ++ t)) =
      .ok (m.1, part ++ t) := by
    intro t
    have hcolon : skip (':' :: (part ++ t)) = ':' :: (part ++ t) := rfl
    rw [label, string_quoted hkey]
    simp only [ok_bind, hnew, Option.isSome_none, Bool.false_eq_true, if_false, hcolon, skip_opens hw.opens]
  have hopen : (!more && some '"' == some '}') = false := by cases more <;> rfl
  have hcomma : ∀ t, Delimited (',' :: t) := fun t => delimited_cons rfl rfl
  have hend : ∀ t, Delimited ('}' :: t) := fun t => delimited_cons rfl rfl
  constructor <;> intro t <;> rw [hshape, object] <;>
    simp only [List.head?_cons, hopen, Bool.false_eq_true, if_false, hlabel, ok_bind,
      hw.reads _ (hcomma t), hw.reads _ (hend t), (hcomma t).skip, (hend t).skip]

end Loops

/-! ## One level -/

section Level

variable {limits : Limits} {write : Writer} {read : Reader} {nodes bytes : Nat} {part : Text}
  {nodes' bytes' : Nat}

theorem printable_container {first last : Char} {parts : List Text} (hfirst : 32 ≤ first.toNat)
    (hlast : 32 ≤ last.toNat) (h : ∀ p ∈ parts, ∀ c ∈ p, 32 ≤ c.toNat) :
    ∀ c ∈ first :: ([','].intercalate parts ++ [last]), 32 ≤ c.toNat := by
  have hinner : ∀ c ∈ [','].intercalate parts, 32 ≤ c.toNat := by
    cases parts with
    | nil => simp
    | cons p ps =>
      rw [intercalate_cons, tails, List.forall_mem_append, List.forall_mem_flatMap]
      rw [List.forall_mem_cons] at h
      exact ⟨h.1, fun q hq => List.forall_mem_cons.mpr ⟨by decide, h.2 q hq⟩⟩
  rw [List.forall_mem_cons, List.forall_mem_append, List.forall_mem_singleton]
  exact ⟨hfirst, hinner, hlast⟩

theorem written_array (hf : Faithful limits write read) {items : List Value}
    (hv : ∀ v ∈ items, v.ordered = true) (hn : nodes < limits.nodes)
    (h : emitArray limits write items [] 0 (nodes + 1) (bytes + 2) = .ok (part, nodes', bytes')) :
    Written limits (level limits (some read)) (.arr items) nodes bytes part nodes' bytes' := by
  obtain ⟨hlen, hsize, parts, rfl, hentries⟩ := emitArray_entries hf hv h
  have hcount := hentries.counted
  have hbrackets : Char.utf8Size '[' = 1 ∧ Char.utf8Size ']' = 1 := by decide
  refine ⟨?_, hsize, ?_, ⟨'[', _, rfl, rfl, by decide⟩, fun rest hrest => ?_⟩
  · simp only [List.reverse_nil, List.nil_append, Text.bytes_cons, Text.bytes_append, Text.bytes_nil,
      decide_true, if_true] at hcount ⊢
    omega
  · exact printable_container (by decide) (by decide) (hentries.printable (by simp))
  · have hread : array read limits.entries [] false
        (skip ([','].intercalate parts ++ ']' :: rest)) (nodes + 1) = .ok (items, rest, nodes') := by
      cases items with
      | nil =>
        cases hentries
        rw [array.eq_def]
        rfl
      | cons value items =>
        rw [hentries.skip (by simp)]
        refine (hentries.reads (array read) (fun acc v => v :: acc) List.reverse (fun _ _ => True)
          (fun _ _ _ _ _ _ _ _ _ _ _ hw => ⟨trivial, array_turn hw⟩) (by simp) false rest trivial
          hlen).trans ?_
        simp
    unfold level
    rw [if_neg (by omega)]
    simp [hread]

theorem written_object (hf : Faithful limits write read) {members : List (Text × Value)}
    (hkeys : (members.map Prod.fst).Pairwise (· < ·)) (hv : ∀ m ∈ members, m.2.ordered = true)
    (hn : nodes < limits.nodes) (hlen : members.length ≤ limits.entries)
    (h : emitObject limits write (pairs members) [] (nodes + 1) (bytes + 2) = .ok (part, nodes', bytes')) :
    Written limits (level limits (some read)) (.obj members) nodes bytes part nodes' bytes' := by
  have hperm : (pairs members).Perm members := sortBy_perm _ members
  obtain ⟨hstring, hsize, parts, rfl, hentries⟩ :=
    emitObject_entries hf (fun m hm => hv m (hperm.mem_iff.mp hm)) h
  have hcount := hentries.counted
  have hbraces : Char.utf8Size '{' = 1 ∧ Char.utf8Size '}' = 1 := by decide
  have hlabels : ∀ m, ∀ c ∈ memberLabel m, 32 ≤ c.toNat := by
    simp only [memberLabel, List.mem_append, List.mem_singleton]
    rintro m c (hc | rfl)
    · exact printable_quoted hc
    · decide
  refine ⟨?_, hsize, ?_, ⟨'{', _, rfl, rfl, by decide⟩, fun rest hrest => ?_⟩
  · simp only [List.reverse_nil, List.nil_append, Text.bytes_cons, Text.bytes_append, Text.bytes_nil,
      decide_true, if_true] at hcount ⊢
    omega
  · exact printable_container (by decide) (by decide) (hentries.printable hlabels)
  · have hmap : (Dict.empty.putAll (pairs members) : Dict Value) = ⟨members, hkeys⟩ :=
      Dict.putAll_perm hperm
    have hquote : ∀ m, ∀ c ∈ (memberLabel m).head?, blank c = false := by
      rintro m c ⟨⟩
      rfl
    have hread : object limits read limits.entries Dict.empty false
        (skip ([','].intercalate parts ++ '}' :: rest)) (nodes + 1) =
        .ok (⟨members, hkeys⟩, rest, nodes') := by
      rw [← hmap]
      have hnodup : ((pairs members).map Prod.fst).Nodup :=
        (hperm.map Prod.fst).nodup_iff.mpr (hkeys.imp ne_of_lt)
      have hlen' : (pairs members).length ≤ limits.entries := by rw [hperm.length_eq]; exact hlen
      generalize pairs members = written at *
      cases written with
      | nil =>
        cases hentries
        rw [object.eq_def]
        rfl
      | cons member written =>
        rw [hentries.skip hquote]
        -- the members still to come are new to the map, short enough and distinct
        refine hentries.reads (object limits read) (fun acc m => acc.put m.1 m.2) id (fun acc ms =>
          (∀ m ∈ ms, m.1.bytes ≤ limits.string) ∧ (∀ m ∈ ms, acc.get m.1 = none) ∧
            (ms.map Prod.fst).Nodup) ?_ hquote false rest
          ⟨hstring, fun _ _ => Dict.get_empty _, hnodup⟩ hlen'
        rintro left acc more m ms n b p n' b' ⟨hstring, hnew, hnodup⟩ hw
        obtain ⟨hkey, hstring⟩ := List.forall_mem_cons.mp hstring
        obtain ⟨hfresh, hnew⟩ := List.forall_mem_cons.mp hnew
        obtain ⟨hout, hnodup⟩ := List.nodup_cons.mp hnodup
        refine ⟨⟨hstring, fun other hother => ?_, hnodup⟩, object_turn hkey hfresh hw⟩
        have hne : other.1 ≠ m.1 := fun heq => hout (heq ▸ List.mem_map_of_mem hother)
        rw [Dict.get_put, if_neg hne]
        exact hnew other hother
    unfold level
    rw [if_neg (by omega)]
    simp [hread]

end Level

/-! ## The round trip -/

/-- **One level of writing reads back, if what is deeper does.** -/
theorem faithful_level {deeper : Option Writer} {inner : Option Reader}
    (h : Option.Rel (fun write read => Faithful limits write read) deeper inner) :
    Faithful limits (emitLevel limits deeper) (level limits inner) := by
  intro value nodes bytes part nodes' bytes' hv hemit
  unfold emitLevel at hemit
  split_ifs at hemit with hn
  have scalars : ∀ {v : Value}, (do
      let part ← scalar limits v
      size (bytes + part.bytes) limits.bytes
      .ok (part, nodes + 1, bytes + part.bytes)) = Outcome.ok (part, nodes', bytes') →
      Written limits (level limits inner) v nodes bytes part nodes' bytes' := by
    intro v hs
    simp only [bind_eq_ok, size, require_eq_ok, decide_eq_true_eq] at hs
    obtain ⟨_, hscalar, _, hsize, rfl, ⟨⟩⟩ := hs
    exact written_scalar (not_le.mp hn) hscalar hsize
  cases h with
  | none =>
    cases value with
    | arr items => cases hemit
    | obj members => cases hemit
    | null | bool | num | str => exact scalars hemit
  | some hf =>
    cases value with
    | arr items =>
      exact written_array hf (Value.orderedItems_iff.mp hv) (not_le.mp hn) hemit
    | obj members =>
      rw [Value.ordered, Bool.and_eq_true, decide_eq_true_eq, Value.orderedMembers_iff] at hv
      dsimp only at hemit
      split_ifs at hemit with hlen
      exact written_object hf hv.1 hv.2 (not_le.mp hn) hlen hemit
    | null | bool | num | str => exact scalars hemit

/-- **Everything `emit/5` writes reads back**, by induction on the levels of nesting. -/
theorem faithful_emit (limits : Limits) (room : Nat) :
    Faithful limits (emit limits room) (parse limits room) := by
  induction room with
  | zero => exact faithful_level .none
  | succ room ih => exact faithful_level (.some ih)

section

variable {b : Bytes} (hv : value.ordered = true) (h : encode limits value = .ok b)
include hv h

/-- What `encode/2` returns: the UTF-8 binary of a printable text within the limit that reads back. -/
theorem encode_eq_ok :
    ∃ text nodes, b = text.utf8 ∧ Written limits (parse limits limits.depth) value 0 0 text nodes
      text.bytes := by
  rw [encode, bind_eq_ok] at h
  obtain ⟨⟨text, nodes, bytes⟩, hemit, hb⟩ := h
  have hw := faithful_emit limits limits.depth hv hemit
  refine ⟨text, nodes, (Outcome.ok.inj hb).symm, ?_⟩
  rwa [hw.counted, Nat.zero_add] at hw

/-- **The round trip**: what `encode/2` writes, `decode/2` reads as the same term. -/
theorem decode_encode : decode limits b = .ok value := by
  obtain ⟨text, nodes, rfl, hw⟩ := encode_eq_ok hv h
  have hread := hw.reads [] delimited_nil
  have hskip := skip_opens hw.opens []
  rw [List.append_nil] at hread hskip
  rw [decode, if_neg (by rw [Text.length_utf8]; exact not_lt.mpr hw.within), Text.text_utf8]
  simp only [hskip, hread]
  rfl

end

/-! ## Digests -/

theorem encode16_injective : Function.Injective encode16 := by
  intro a
  induction a with
  | nil =>
    intro b h
    cases b with
    | nil => rfl
    | cons => cases h
  | cons x a ih =>
    intro b h
    cases b with
    | nil => cases h
    | cons y b =>
      obtain ⟨hx, hab⟩ := List.append_inj h rfl
      simp only [List.cons.injEq, and_true] at hx
      have := x.toNat_lt
      have := y.toNat_lt
      have hhigh := hexLower_inj _ (by omega) _ (by omega) hx.1
      have hlow := hexLower_inj _ (by omega) _ (by omega) hx.2
      rw [ih hab, UInt8.toNat_inj.mp (by omega : x.toNat = y.toNat)]

/-- **A digest identifies a term**, unless the hash takes the encodings of two terms to one value. -/
theorem digest_identifies {sha256 : Bytes → Bytes} {v w : Json.Value} (hv : v.ordered = true)
    (hw : w.ordered = true) {d : Text} (h : digest sha256 v = .ok d) (h' : digest sha256 w = .ok d)
    (hs : ∀ b b', encode defaults v = .ok b → encode defaults w = .ok b' → sha256 b = sha256 b' →
      b = b') : v = w := by
  simp only [digest, Outcome.bind_eq_ok, Outcome.ok.injEq] at h h'
  obtain ⟨b, hb, rfl⟩ := h
  obtain ⟨b', hb', he⟩ := h'
  obtain rfl := hs b b' hb hb' (encode16_injective he).symm
  exact Outcome.ok.inj ((decode_encode hv hb).symm.trans (decode_encode hw hb'))

/-- A hash of 32 bytes: the first 32, filled up. -/
def head32 (b : Bytes) : Bytes := (b ++ List.replicate 32 0).take 32

/-- A term to evaluate with. -/
def lamp : Json.Value := .obj [("lamp", .arr [.bool true, .obj [("level", .num (.int 7))]])]

/-- The lamp, read from a text with blanks. -/
def lampRead : Json.Value :=
  (decode defaults (Text.utf8 "\x7b \"lamp\" : [true, \x7b \"level\": 7 \x7d ] \x7d")).toOption.getD .null

theorem lamp_identified : (∃ d, digest head32 lampRead = .ok d ∧ digest head32 lamp = .ok d) ∧
    lampRead = lamp := by
  have h : ∀ v ∈ [lampRead, lamp], v.ordered = true ∧ (encode defaults v).toOption =
      some (Text.utf8 "\x7b\"lamp\":[true,\x7b\"level\":7\x7d]\x7d") := by
    decide +kernel
  obtain ⟨⟨hr, hread⟩, hl, hlamp⟩ := by simpa using h
  have hd : ∀ {v b}, encode defaults v = .ok b → digest head32 v = .ok (encode16 (head32 b)) :=
    fun h => by rw [digest, h, Outcome.ok_bind]
  refine ⟨⟨_, hd hread, hd hlamp⟩, digest_identifies hr hl (hd hread) (hd hlamp) fun b b' hb hb' _ => ?_⟩
  exact Outcome.ok.inj (hb.symm.trans (hread.trans (hlamp.symm.trans hb')))

end Wotex.Runtime.JSON
