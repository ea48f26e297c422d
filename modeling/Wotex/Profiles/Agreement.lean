import Wotex.Profiles.Conformance

/-!
# Native and typed validation agree

`json/4` reads a native value and `c02/4` a typed one; both then walk the same form. The walk decides
`Conforms` (`visit_decides`) under a schema that `Schema.check/3` accepts. `Embeds v t` says that the typed
value `t` is the native value `v` written in the codec's algebra, so both are verdicts on the same data.
-/

namespace Wotex.Profiles

open Json (Value)
open List Schema

/-! ## Accepted schemas -/

namespace Schema

/-- The schema passes the walk of `Schema.check/3`. -/
def Accepted (host : Host) (limits : Limits) (schema : Value) : Prop :=
  ∃ path, visit host limits path schema = .ok ()

section

variable {host : Host} {limits : Limits} {schema : Value} {members properties : List (Text × Value)}
  {path : Text}

theorem texts_eq_some {values : List Value} {names : List Text} (h : texts values = some names) :
    values = names.map Value.str := by
  induction values generalizing names with
  | nil =>
    cases h
    rfl
  | cons v vs ih =>
    cases v with
    | str s =>
      obtain ⟨rest, hrest, rfl⟩ := Option.map_eq_some_iff.mp h
      rw [ih hrest, map_cons]
    | _ => cases h

theorem enum_of_ok (h : enum host members path = .ok ())
    {v : Value} (hv : Dict.find "enum" members = some v) : ∃ vs, v = .arr vs := by
  unfold enum at h
  rw [hv] at h
  cases v with
  | arr vs => exact ⟨vs, rfl⟩
  | _ => cases h

theorem numbers_of_ok (h : numericBounds host limits members path = .ok ()) {key : Text} {v : Value}
    (hm : (key, v) ∈ members) (hkey : key ∈ numeric) : ∃ n, v = .num n := by
  have := Outcome.each_eq_ok.mp h (key, v) (mem_filter.mpr ⟨hm, by simpa using hkey⟩)
  cases v with
  | num n => exact ⟨n, rfl⟩
  | _ => cases this

theorem visitItems_of_ok : ∀ {members : List (Text × Value)},
    (Dict.find "items" members).isSome = true → visitItems host limits path members = .ok () →
      Accepted host limits (Value.member "items" members)
  | [], hsome, _ => by cases hsome
  | (k, v) :: ms, hsome, h => by
    by_cases hk : k = "items"
    · rw [visitItems, if_pos hk] at h
      rw [Value.member, if_pos hk]
      exact ⟨_, h⟩
    · rw [visitItems, if_neg hk] at h
      rw [Dict.find, if_neg hk] at hsome
      rw [Value.member, if_neg hk]
      exact visitItems_of_ok hsome h

theorem visitChildren_of_ok : ∀ {properties : List (Text × Value)},
    visitChildren host limits path properties = .ok () → ∀ p ∈ properties,
      (1 ≤ p.1.bytes ∧ p.1.bytes ≤ 128) ∧ Accepted host limits p.2
  | [], _ => fun p hp => absurd hp not_mem_nil
  | (k, v) :: ms, h => by
    simp only [visitChildren, Grammar.text, bind_eq_ok, exists_unit,
      require_eq_ok, Bool.and_eq_true, decide_eq_true_eq] at h
    rintro p (hp | ⟨_, hp⟩)
    · exact ⟨h.1.1, _, h.2.1⟩
    · exact visitChildren_of_ok h.2.2 p hp

theorem visitProperties_of_ok :
    ∀ {members : List (Text × Value)}, Value.member "properties" members = .obj properties →
      visitProperties host limits path members = .ok () →
      visitChildren host limits (path ++ "/properties") properties = .ok ()
  | [], hm, _ => by cases hm
  | (k, v) :: ms, hm, h => by
    by_cases hk : k = "properties"
    · rw [Value.member, if_pos hk] at hm
      subst hm
      rwa [visitProperties, if_pos hk] at h
    · rw [Value.member, if_neg hk] at hm
      rw [visitProperties.eq_def] at h
      exact visitProperties_of_ok hm ((if_neg hk).symm.trans h)

/-- What is known of the members of an accepted schema, by its type. -/
def Specific (host : Host) (limits : Limits) (members : List (Text × Value)) : Kind → Prop
  | .null | .boolean | .string => True
  | .number | .integer => ∀ key v, (key, v) ∈ members → key ∈ numeric → ∃ n, v = .num n
  | .array => Accepted host limits (Value.member "items" members)
  | .object => ∃ (properties : List (Text × Value)) (names : List Text),
      Value.member "properties" members = .obj properties ∧
      (∀ p ∈ properties, (1 ≤ p.1.bytes ∧ p.1.bytes ≤ 128) ∧ Accepted host limits p.2) ∧
      (Dict.find "required" members).getD (.arr []) = .arr (names.map Value.str)

theorem accepted_cases (h : Accepted host limits schema) :
    ∃ members kind, schema = .obj members ∧
      Schema.kind (Value.member "type" members) = some kind ∧
      (∀ v, Dict.find "enum" members = some v → ∃ vs, v = .arr vs) ∧
      Specific host limits members kind := by
  obtain ⟨path, h⟩ := h
  cases schema with
  | obj members =>
    rw [visit] at h
    split at h
    · cases h
    · rename_i kind hkind
      simp only [literals, bind_eq_ok, exists_unit] at h
      obtain ⟨-, -, ⟨henum, -⟩, h⟩ := h
      refine ⟨members, kind, rfl, hkind, fun v => enum_of_ok henum, ?_⟩
      cases kind with
      | null | boolean | string => trivial
      | number | integer => exact fun key v => numbers_of_ok h
      | array =>
        simp only [bind_eq_ok, exists_unit, require_eq_ok] at h
        exact visitItems_of_ok h.1 h.2.2
      | object =>
        dsimp only at h
        split at h
        · rename_i properties hprops hadd
          simp only [bind_eq_ok, exists_unit] at h
          obtain ⟨hreq, h⟩ := h
          have hchildren := visitChildren_of_ok (visitProperties_of_ok hprops h)
          unfold required at hreq
          split at hreq
          · rename_i values hvalues
            split at hreq
            · rename_i names hnames
              exact ⟨properties, names, hprops, hchildren, by rw [hvalues, texts_eq_some hnames]⟩
            · cases hreq
          · cases hreq
        · cases h
  | _ => cases h

end

end Schema

/-! ## The walk -/

namespace Instance

section

variable {host : Host} {limits : Limits} {schema : Value} {members properties : List (Text × Value)}
  {l : Logical} {key : Text}

theorem isType_iff (hl : l.Regular) (kind : Schema.Kind) :
    isType l (some kind) = true ↔ l.datum.HasType kind := by
  cases l with
  | num c e =>
    cases kind with
    | integer =>
      rw [isType, decide_eq_true_eq]
      exact (amount_whole_iff hl).symm
    | _ => simp [isType, Logical.datum, Datum.HasType]
  | _ => cases kind <;> simp [isType, Logical.datum, Datum.HasType]

/-- A comparison with one literal, in front of what follows each answer. -/
theorem literal_decides {P : Prop} (l : Logical) (v : Value) (path : Text) {no : Result Unit}
    (hyes : l.datum = datum host v → P) (hno : l.datum ≠ datum host v → Decides P no) :
    Decides P (do
      let expected ← native host limits path v
      if ← equal limits path l expected then .ok () else no) := by
  refine (native_yields host limits path v).decides fun expected he => ?_
  refine (equal_yields limits path l expected).decides fun r hr => ?_
  rw [he] at hr
  split
  · rename_i hyes'
    exact hyes (hr.mp hyes')
  · rename_i hno'
    exact hno fun h => hno' (hr.mpr h)

theorem constant_decides (l : Logical) (schema : Value) (path : Text) :
    Decides (∀ c, Runtime.fetch schema "const" = some c → l.datum = datum host c)
      (constant host limits l schema path) := by
  unfold constant
  split
  · rename_i h
    intro c hc
    rw [h] at hc
    cases hc
  · rename_i expected h
    rw [h]
    refine literal_decides l expected path (fun heq c hc => ?_) fun hne => ?_
    · rw [← Option.some.inj hc, heq]
    · exact Or.inl ⟨rfl, fun hall => hne (hall expected rfl)⟩

theorem oneOf_decides (l : Logical) (path : Text) (vs : List Value) :
    Decides (∃ v ∈ vs, l.datum = datum host v) (oneOf host limits l path vs) := by
  induction vs with
  | nil => exact Or.inl ⟨rfl, by simp⟩
  | cons v vs ih =>
    refine literal_decides l v path (fun heq => ⟨v, mem_cons_self, heq⟩) fun hne => ih.congr ?_
    simp [hne]

theorem enumeration_decides (l : Logical) (path : Text)
    (hs : ∀ v, Runtime.fetch schema "enum" = some v → ∃ vs, v = .arr vs) :
    Decides (∀ vs, Runtime.fetch schema "enum" = some (.arr vs) → ∃ v ∈ vs, l.datum = datum host v)
      (enumeration host limits l schema path) := by
  unfold enumeration
  split
  · rename_i h
    intro vs hvs
    rw [h] at hvs
    cases hvs
  · rename_i vs h
    rw [h]
    refine (oneOf_decides l path vs).congr ⟨fun hex vs' heq => ?_, fun hall => hall vs rfl⟩
    obtain rfl := Value.arr.inj (Option.some.inj heq)
    exact hex
  · rename_i v hne h
    obtain ⟨vs, rfl⟩ := hs v h
    exact absurd rfl (hne vs)

theorem head_decides (path : Text) (hl : l.Regular)
    (hs : Accepted host limits schema) :
    Decides (Listed host schema l.datum) (visit.head host limits schema path l) := by
  obtain ⟨members, kind, rfl, hkind, henum, -⟩ := accepted_cases hs
  have hget : Schema.kind ((Value.obj members).get "type") = some kind := hkind
  unfold visit.head
  have htype : Decides (∃ k, some kind = some k ∧ l.datum.HasType k)
      (check (isType l (some kind)) .outOfDomain path) := by
    have := isType_iff hl kind
    simp only [Option.some.injEq, exists_eq_left', ← this]
    unfold check Outcome.require
    split
    · rename_i h
      exact h
    · rename_i h
      exact Or.inl ⟨rfl, h⟩
  rw [Listed, hget]
  exact htype.bind fun _ => (constant_decides l _ path).bind fun _ => enumeration_decides l path henum

theorem accepted_of_listed {d : Datum} (hs : Schema.Accepted host limits schema) (h : Listed host schema d) :
    ∃ members kind, schema = .obj members ∧ d.HasType kind ∧ Specific host limits members kind := by
  obtain ⟨members, kind, rfl, hkind, -, hspec⟩ := accepted_cases hs
  obtain ⟨k, hk, htype⟩ := h.1
  obtain rfl := Option.some.inj (hkind.symm.trans hk)
  exact ⟨members, kind, rfl, htype, hspec⟩

theorem bounds_decides (path : Text) (c e : Int)
    (hs : ∀ key v, (key, v) ∈ members → key ∈ Schema.numeric → ∃ n, v = .num n) :
    Decides (∀ key n, (key, .num n) ∈ members → Bounds key (quantity host n) (amount c e))
      (bounds host limits (.num c e) (.obj members) path) := by
  refine Decides.congr (Decides.each (Q := fun m : Text × Value =>
    ∀ n, m.2 = .num n → Bounds m.1 (quantity host n) (amount c e)) ?_) ?_
  · rintro ⟨key, v⟩ hm
    obtain ⟨hmem, hcontains⟩ := mem_filter.mp hm
    have hkey : key ∈ Schema.numeric := by simpa using hcontains
    obtain ⟨n, rfl⟩ := hs key v hmem hkey
    rw [native]
    refine Yields.decides ((decimal_yields host limits path n).bind
      (S := fun l : Logical => ∃ c' e', l = .num c' e' ∧ amount c' e' = quantity host n)
      fun p hp => ⟨p.1, p.2, rfl, hp.2⟩) ?_
    rintro _ ⟨c', e', rfl, hq⟩
    refine (fraction_yields limits path c e).decides fun left hleft => ?_
    refine (fraction_yields limits path c' e').decides fun right hright => ?_
    refine Yields.decides ((products_yields limits path left right).bind
      (S := fun r : Bool => r = true ↔ Bounds key (quantity host n) (amount c e)) fun p hp => ?_)
      fun r hr => ?_
    · rw [hp, ← hq, ← hleft.2, ← hright.2]
      exact bounds_iff hkey hleft.1 hright.1
    · refine Decides.of_if (hr.trans ⟨fun h n' hn' => ?_, fun h => h n rfl⟩)
      obtain rfl := Value.num.inj hn'
      exact h
  · constructor
    · intro h key n hm
      by_cases hkey : key ∈ Schema.numeric
      · exact h (key, .num n) (mem_filter.mpr ⟨hm, by simpa using hkey⟩) n rfl
      · simp only [Schema.numeric, mem_cons, not_or] at hkey
        simp [Bounds, hkey]
    · rintro h ⟨key, v⟩ hm n rfl
      exact h key n (mem_filter.mp hm).1

theorem size_decides {n : Nat} (hn : n ≤ 1048576) (schema : Value) (minimum maximum path : Text) :
    Decides (Sized schema minimum maximum n) (size n schema minimum maximum path) := by
  refine Decides.of_if (and_congr ?_ ?_)
  · unfold bound
    split
    · rename_i i h
      simp [h]
    · rename_i hne
      exact ⟨fun _ i hi => (hne i hi).elim, fun _ => Int.natCast_nonneg n⟩
  · unfold bound
    split
    · rename_i i h
      simp [h]
    · rename_i hne
      exact ⟨fun _ i hi => (hne i hi).elim, fun _ => by exact_mod_cast hn⟩

theorem find_isSome {α : Type} {members : List (Text × α)} :
    (Dict.find key members).isSome = true ↔ key ∈ members.map Prod.fst := by
  induction members with
  | nil => simp [Dict.find]
  | cons m ms ih =>
    rw [Dict.find]
    split
    · rename_i h
      simp [h]
    · rename_i h
      simp only [ih, map_cons, mem_cons, iff_or_self]
      exact fun hk => absurd hk.symm h

theorem member_of_key (h : key ∈ members.map Prod.fst) : ∃ p ∈ members, Value.member key members = p.2 := by
  induction members with
  | nil => cases h
  | cons m ms ih =>
    obtain ⟨k, v⟩ := m
    rw [Value.member]
    split
    · exact ⟨(k, v), mem_cons_self, rfl⟩
    · rename_i hne
      obtain ⟨p, hp, hv⟩ := ih ((mem_cons.mp h).resolve_left fun hk => hne hk.symm)
      exact ⟨p, mem_cons_of_mem _ hp, hv⟩

theorem closed_iff {names : List Text}
    (hp : Value.member "properties" members = .obj properties)
    (hr : (Dict.find "required" members).getD (.arr []) = .arr (names.map Value.str))
    (ls : List (Text × Logical)) :
    closed ls (.obj members) = true ↔ Closed (.obj members) (ls.map Prod.fst) := by
  have hget : (Value.obj members).get "properties" = .obj properties := hp
  have hreq : (Runtime.fetch (.obj members) "required").getD (.arr []) =
      .arr (names.map Value.str) := hr
  unfold closed Closed
  rw [hget, hreq]
  simp [find_isSome, entries, items]

mutual
/-- **The walk decides the meaning of an accepted schema.** -/
theorem visit_decides : ∀ (l : Logical) {schema : Value} (path : Text), l.Regular →
    Accepted host limits schema →
    Decides (Conforms host schema l.datum) (visit host limits schema path l)
  | .null, _, path, hl, hs | .bool b, _, path, hl, hs => by
    rw [visit]
    exact head_decides path hl hs
  | .str s, _, path, hl, hs => by
    exact (head_decides path hl hs).bind fun _ => size_decides hl _ _ _ _
  | .num c e, schema, path, hl, hs => by
    refine (head_decides path hl hs).bind fun hlisted => ?_
    obtain ⟨members, kind, rfl, htype, hspec⟩ := accepted_of_listed hs hlisted
    -- only the two number types are left, and under both the bounds are numbers
    cases kind with
    | number | integer => exact bounds_decides path c e hspec
    | _ => cases htype
  | .arr vs, schema, path, hl, hs => by
    refine (head_decides path hl hs).bind fun hlisted => ?_
    obtain ⟨members, kind, rfl, htype, hspec⟩ := accepted_of_listed hs hlisted
    cases kind with
    | array =>
      rw [Logical.length_datumItems]
      exact (size_decides hl.1 _ _ _ _).bind fun _ => visitItems_decides vs path 0 hl.2 hspec
    | _ => cases htype
  | .obj ms, schema, path, hl, hs => by
    refine (head_decides path hl hs).bind fun hlisted => ?_
    obtain ⟨members, kind, rfl, htype, hspec⟩ := accepted_of_listed hs hlisted
    cases kind with
    | object =>
      obtain ⟨properties, names, hprops, hchildren, hreq⟩ := hspec
      have hclosed := closed_iff hprops hreq ms
      rw [Logical.keys_datumMembers, ← hclosed]
      split
      · rename_i hc
        have hget : (Value.obj members).get "properties" = .obj properties := hprops
        rw [hget]
        refine (visitMembers_decides ms path hl fun k hk => ?_).congr (by simp [hc])
        have hin := (hclosed.mp hc).1 k hk
        rw [hget] at hin
        obtain ⟨p, hp, hv⟩ := member_of_key hin
        rw [show (Value.obj properties).get k = p.2 from hv]
        exact (hchildren p hp).2
      · rename_i hc
        exact Or.inl ⟨rfl, fun h => hc h.1⟩
    | _ => cases htype

theorem visitItems_decides : ∀ (vs : List Logical) {schema : Value} (path : Text) (index : Nat),
    Logical.RegularItems vs → Accepted host limits schema →
    Decides (ConformsItems host schema (Logical.datumItems vs)) (visitItems host limits schema path index vs)
  | [], _, _, _, _, _ => trivial
  | v :: vs, _, path, index, hl, hs => by
    rw [visitItems]
    exact (visit_decides v _ hl.1 hs).bind fun _ => visitItems_decides vs path (index + 1) hl.2 hs

theorem visitMembers_decides : ∀ (ms : List (Text × Logical)) {properties : Value} (path : Text),
    Logical.RegularMembers ms →
    (∀ k ∈ ms.map Prod.fst, Accepted host limits (properties.get k)) →
    Decides (ConformsMembers host properties (Logical.datumMembers ms))
      (visitMembers host limits properties path ms)
  | [], _, _, _, _ => trivial
  | (k, v) :: ms, _, path, hl, hs => by
    rw [visitMembers]
    exact (visit_decides v _ hl.1 (hs k mem_cons_self)).bind fun _ =>
      visitMembers_decides ms path hl.2 fun l hk => hs l (mem_cons_of_mem _ hk)
end

end

end Instance

/-! ## Verdicts on native values -/

/-- The result accepts where `P` holds and is `out_of_domain` where it does not, but for `numeric_limit`
and the refusals that are excused. -/
def Verdict (P : Prop) (excused : Code → Prop) : Result Unit → Prop
  | .ok () => P
  | .refuse e => e.code = .outOfDomain ∧ ¬ P ∨ e.code = .numericLimit ∨ excused e.code
  | .raise => False

theorem Decides.verdict {P : Prop} {x : Result Unit} (h : Decides P x) (excused : Code → Prop) :
    Verdict P excused x := by
  cases x with
  | ok u => exact h
  | refuse e => exact h.imp_right Or.inl
  | raise => exact h

mutual
/-- A string or a key of the term has a NUL. -/
def hasNul : Value → Bool
  | .str s => s.contains '\x00'
  | .arr values => hasNulItems values
  | .obj members => hasNulMembers members
  | _ => false

/-- An item of a list. -/
def hasNulItems : List Value → Bool
  | [] => false
  | v :: vs => hasNul v || hasNulItems vs

/-- A key or a value of a map. -/
def hasNulMembers : List (Text × Value) → Bool
  | [] => false
  | (k, v) :: ms => k.contains '\x00' || hasNul v || hasNulMembers ms
end

namespace Grammar

/-- The result passes, or refuses over a limit of numbers or over a NUL. -/
def Screens (nul : Bool) : Result Unit → Prop
  | .ok () => True
  | .refuse e => e.code = .numericLimit ∨ e.code = .invalidInput ∧ nul = true
  | .raise => False

theorem Screens.bind {a b : Bool} {x y : Result Unit} (hx : Screens a x) (hy : Screens b y) :
    Screens (a || b) (x >>= fun _ => y) := by
  cases x with
  | ok u =>
    cases y with
    | ok u => trivial
    | refuse e => exact hy.imp_right fun h => ⟨h.1, by simp [h.2]⟩
    | raise => exact hy
  | refuse e => exact hx.imp_right fun h => ⟨h.1, by simp [h.2]⟩
  | raise => exact hx

theorem screens_text (s : Text) :
    Screens (s.contains '\x00') (check (!s.contains '\x00') .invalidInput []) := by
  cases h : s.contains '\x00' <;> simp [Outcome.require, Screens]

section

variable (host : Host) (limits : Limits)

mutual
theorem native_screens : ∀ v : Value, Screens (hasNul v) (native host limits v)
  | .null | .bool _ => trivial
  | .num (.int i) => by
    rw [native]
    unfold check Outcome.require
    split
    · trivial
    · exact Or.inl rfl
  | .num (.flt f) => by
    have := decimal_yields host limits [] (.flt f)
    rw [native]
    cases h : Numeric.decimal host limits [] (.flt f) with
    | ok p => trivial
    | refuse e =>
      rw [h] at this
      exact Or.inl this
    | raise =>
      rw [h] at this
      exact this
  | .str s => screens_text s
  | .arr vs => nativeItems_screens vs
  | .obj ms => nativeMembers_screens ms

theorem nativeItems_screens : ∀ vs : List Value, Screens (hasNulItems vs) (nativeItems host limits vs)
  | [] => trivial
  | v :: vs => (native_screens v).bind (nativeItems_screens vs)

theorem nativeMembers_screens : ∀ ms : List (Text × Value),
    Screens (hasNulMembers ms) (nativeMembers host limits ms)
  | [] => trivial
  | (k, v) :: ms => by
    rw [hasNulMembers, Bool.or_assoc]
    exact (screens_text k).bind ((native_screens v).bind (nativeMembers_screens ms))
end

end

end Grammar

namespace Instance

section

variable (host : Host) (limits : Limits) (path : Text)

mutual
/-- A term within the limits of a profile is read in a regular form. -/
theorem native_regular : ∀ {v : Value} {depth : Nat}, v.fits limits.options depth = true →
    Yields Logical.Regular (native host limits path v)
  | .null, _, _ | .bool _, _, _ => trivial
  | .num n, _, _ => (decimal_yields host limits path n).bind fun p hp => hp.1
  | .str s, _, h => by
    have hb : s.bytes ≤ min 8192 limits.maxBytes := of_decide_eq_true h
    have : s.length ≤ s.bytes := Text.length_le_bytes s
    show s.length ≤ 1048576
    omega
  | .arr vs, _, h => by
    simp only [Value.fits, Bool.and_eq_true, decide_eq_true_eq] at h
    have hlen : vs.length ≤ 1024 := h.1.2
    refine ((nativeItems_yields host limits path vs).and (nativeItems_regular h.2)).bind fun ls hls => ?_
    exact ⟨by have := hls.1.1; omega, hls.2⟩
  | .obj ms, _, h => by
    simp only [Value.fits, Bool.and_eq_true] at h
    exact (nativeMembers_regular h.2).bind fun ls hls => hls

theorem nativeItems_regular : ∀ {vs : List Value} {depth : Nat},
    Value.fitsItems limits.options depth vs = true →
    Yields Logical.RegularItems (nativeItems host limits path vs)
  | [], _, _ => trivial
  | v :: vs, _, h => by
    simp only [Value.fitsItems, Bool.and_eq_true] at h
    exact (native_regular h.1).bind fun l hl => (nativeItems_regular h.2).bind fun ls hls => ⟨hl, hls⟩

theorem nativeMembers_regular : ∀ {ms : List (Text × Value)} {depth : Nat},
    Value.fitsMembers limits.options depth ms = true →
    Yields Logical.RegularMembers (nativeMembers host limits path ms)
  | [], _, _ => trivial
  | (k, v) :: ms, _, h => by
    simp only [Value.fitsMembers, Bool.and_eq_true] at h
    exact (native_regular h.1.2).bind fun l hl => (nativeMembers_regular h.2).bind fun ls hls => ⟨hl, hls⟩
end

end

end Instance

end Wotex.Profiles
