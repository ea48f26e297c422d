import Wotex.Profiles.Instance
import Wotex.Profiles.Numerals

/-!
# What a schema of the subset means

`Datum` is JSON data with exact numbers: the number of a native term is the rational its canonical text
denotes. `Conforms` is the meaning of a schema over it, clause by clause as JSON Schema has it: type,
`const` and `enum`, the bounds and `multipleOf`, lengths, items, closed objects with their required members.

The walk of `instance.ex` decides it up to its budget: `Decides P r` says that the result `r` accepts where
`P` holds, is `out_of_domain` where it does not, or gives up with `numeric_limit`. The steps of the walk
that compute something have such a rule too (`Yields`), and the walk is put together from the rules.
-/

namespace Wotex.Profiles

open Json (Value)
open List

/-! ## Data -/

/-- JSON data with exact numbers; the members of an object are in key order. -/
inductive Datum where
  | null
  | bool (b : Bool)
  | str (s : Text)
  | num (q : ℚ)
  | arr (items : List Datum)
  | obj (members : List (Text × Datum))

section

variable (host : Host)

/-- What the canonical text of a number denotes. -/
def quantity (n : Num) : ℚ :=
  match Numeric.token host n with
  | some (c, e) => amount c e
  | none => 0

mutual
/-- The data of a native term. -/
def datum : Value → Datum
  | .null => .null
  | .bool b => .bool b
  | .str s => .str s
  | .num n => .num (quantity host n)
  | .arr values => .arr (datumItems values)
  | .obj members => .obj (datumMembers members)

/-- The data of a list. -/
def datumItems : List Value → List Datum
  | [] => []
  | v :: vs => datum v :: datumItems vs

/-- The data of a map. -/
def datumMembers : List (Text × Value) → List (Text × Datum)
  | [] => []
  | (k, v) :: ms => (k, datum v) :: datumMembers ms
end

theorem keys_datumMembers (ms : List (Text × Value)) :
    (datumMembers host ms).map Prod.fst = ms.map Prod.fst := by
  induction ms with
  | nil => rfl
  | cons m ms ih => simp [datumMembers, ih]

/-! ## Schemas -/

/-- The types. -/
def Datum.HasType : Datum → Schema.Kind → Prop
  | .null, .null => True
  | .bool _, .boolean => True
  | .str _, .string => True
  | .num _, .number => True
  | .num q, .integer => ∃ i : Int, q = i
  | .arr _, .array => True
  | .obj _, .object => True
  | _, _ => False

/-- The operators on numbers. -/
def Bounds (key : Text) (limit q : ℚ) : Prop :=
  (key = "minimum" → limit ≤ q) ∧ (key = "maximum" → q ≤ limit) ∧
    (key = "exclusiveMinimum" → limit < q) ∧ (key = "exclusiveMaximum" → q < limit) ∧
    (key = "multipleOf" → ∃ i : Int, q = i * limit)

/-- The size is within the two operators, where they are given. -/
def Sized (schema : Value) (minimum maximum : Text) (n : Nat) : Prop :=
  (∀ i, Runtime.fetch schema minimum = some (.num (.int i)) → i ≤ n) ∧
    ∀ i, Runtime.fetch schema maximum = some (.num (.int i)) → (n : Int) ≤ i

/-- The members of a map. -/
def entries : Value → List (Text × Value)
  | .obj members => members
  | _ => []

/-- The type, `const` and `enum`. -/
def Listed (schema : Value) (d : Datum) : Prop :=
  (∃ kind, Schema.kind (schema.get "type") = some kind ∧ d.HasType kind) ∧
    (∀ c, Runtime.fetch schema "const" = some c → d = datum host c) ∧
    ∀ vs, Runtime.fetch schema "enum" = some (.arr vs) → ∃ v ∈ vs, d = datum host v

/-- Every key is a property, and the required ones are there. -/
def Closed (schema : Value) (keys : List Text) : Prop :=
  (∀ k ∈ keys, k ∈ (entries (schema.get "properties")).map Prod.fst) ∧
    ∀ name, Value.str name ∈ items ((Runtime.fetch schema "required").getD (.arr [])) → name ∈ keys

mutual
/-- The data is what the schema describes. -/
def Conforms (schema : Value) : Datum → Prop
  | .null => Listed host schema .null
  | .bool b => Listed host schema (.bool b)
  | .num q => Listed host schema (.num q) ∧
      ∀ key n, (key, .num n) ∈ entries schema → Bounds key (quantity host n) q
  | .str s => Listed host schema (.str s) ∧ Sized schema "minLength" "maxLength" s.length
  | .arr ds => Listed host schema (.arr ds) ∧
      Sized schema "minItems" "maxItems" ds.length ∧
      ConformsItems (schema.get "items") ds
  | .obj ms => Listed host schema (.obj ms) ∧ Closed schema (ms.map Prod.fst) ∧
      ConformsMembers (schema.get "properties") ms

/-- Every item is. -/
def ConformsItems (schema : Value) : List Datum → Prop
  | [] => True
  | d :: ds => Conforms schema d ∧ ConformsItems schema ds

/-- Every member is what the schema of its property describes. -/
def ConformsMembers (properties : Value) : List (Text × Datum) → Prop
  | [] => True
  | (k, d) :: ms => Conforms (properties.get k) d ∧ ConformsMembers properties ms
end

end

/-! ## Results that decide -/

/-- The result accepts where `P` holds, is `out_of_domain` where it does not, or gives up. -/
def Decides (P : Prop) : Result Unit → Prop
  | .ok () => P
  | .refuse e => e.code = .outOfDomain ∧ ¬ P ∨ e.code = .numericLimit
  | .raise => False

/-- The result is a value with `Q`, or gives up. -/
def Yields {α : Type} (Q : α → Prop) : Result α → Prop
  | .ok a => Q a
  | .refuse e => e.code = .numericLimit
  | .raise => False

section

variable {α β : Type} {P R : Prop} {Q : α → Prop}

theorem Decides.bind {x y : Result Unit} (hx : Decides P x) (hy : P → Decides R y) :
    Decides (P ∧ R) (x >>= fun _ => y) := by
  cases x with
  | ok u =>
    have hp : P := hx
    have := hy hp
    cases y with
    | ok u => exact ⟨hp, this⟩
    | refuse e => exact this.imp_left fun h => ⟨h.1, fun hpr => h.2 hpr.2⟩
    | raise => exact this
  | refuse e => exact hx.imp_left fun h => ⟨h.1, fun hpr => h.2 hpr.1⟩
  | raise => exact hx

theorem Decides.congr {x : Result Unit} (hx : Decides P x) (h : P ↔ R) : Decides R x := by
  rwa [← propext h]

theorem Decides.of_if {b : Prop} [Decidable b] {path : Text} (h : b ↔ P) :
    Decides P (if b then .ok () else Instance.domain path) := by
  split
  · rename_i hb
    exact h.mp hb
  · rename_i hb
    exact Or.inl ⟨rfl, fun hp => hb (h.mpr hp)⟩

theorem Decides.each {f : α → Result Unit} {l : List α} (h : ∀ a ∈ l, Decides (Q a) (f a)) :
    Decides (∀ a ∈ l, Q a) (Outcome.each f l) := by
  induction l with
  | nil => exact fun a ha => absurd ha not_mem_nil
  | cons a l ih =>
    refine (Decides.bind (h a mem_cons_self) fun _ =>
      ih fun b hb => h b (mem_cons_of_mem _ hb)).congr ?_
    simp

variable {x : Result α}

theorem Yields.bind {f : α → Result β} {S : β → Prop} (hx : Yields Q x) (hf : ∀ a, Q a → Yields S (f a)) :
    Yields S (x >>= f) := by
  cases x with
  | ok a => exact hf a hx
  | refuse e => exact hx
  | raise => exact hx

theorem Yields.and {S : α → Prop} (hx : Yields Q x) (hs : Yields S x) : Yields (fun a => Q a ∧ S a) x := by
  cases x with
  | ok a => exact ⟨hx, hs⟩
  | refuse e => exact hx
  | raise => exact hx

theorem Yields.decides {f : α → Result Unit} (hx : Yields Q x) (hf : ∀ a, Q a → Decides P (f a)) :
    Decides P (x >>= f) := by
  cases x with
  | ok a => exact hf a hx
  | refuse e => exact Or.inr hx
  | raise => exact hx

end

/-! ## Reading native terms -/

theorem token_isSome (host : Host) (n : Num) : ∃ c e, Numeric.token host n = some (c, e) := by
  cases n with
  | int i => exact ⟨i, 0, token_int host i⟩
  | flt f =>
    obtain ⟨⟨c, e⟩, h⟩ := Option.isSome_iff_exists.mp (host.floatToken f)
    exact ⟨c, e, h⟩

theorem decimal_yields (host : Host) (limits : Limits) (path : Text) (n : Num) :
    Yields (fun p : Int × Int => Normal p.1 p.2 ∧ amount p.1 p.2 = quantity host n)
      (Numeric.decimal host limits path n) := by
  obtain ⟨c, e, h⟩ := token_isSome host n
  unfold Numeric.decimal quantity
  rw [h]
  dsimp only
  split
  · exact ⟨Numeric.normalize_normal c e, Numeric.amount_normalize c e⟩
  · rfl

namespace Instance

mutual
/-- The data of the common form. -/
def Logical.datum : Logical → Datum
  | .null => .null
  | .bool b => .bool b
  | .str s => .str s
  | .num c e => .num (amount c e)
  | .arr items => .arr (datumItems items)
  | .obj members => .obj (datumMembers members)

/-- The data of a list. -/
def Logical.datumItems : List Logical → List Datum
  | [] => []
  | v :: vs => v.datum :: datumItems vs

/-- The data of a map. -/
def Logical.datumMembers : List (Text × Logical) → List (Text × Datum)
  | [] => []
  | (k, v) :: ms => (k, v.datum) :: datumMembers ms
end

mutual
/-- Numbers are normal; strings and lists are no longer than any size of a schema. -/
def Logical.Regular : Logical → Prop
  | .num c e => Normal c e
  | .str s => s.length ≤ 1048576
  | .arr items => items.length ≤ 1048576 ∧ RegularItems items
  | .obj members => RegularMembers members
  | _ => True

/-- Every item is regular. -/
def Logical.RegularItems : List Logical → Prop
  | [] => True
  | v :: vs => v.Regular ∧ RegularItems vs

/-- Every member is regular. -/
def Logical.RegularMembers : List (Text × Logical) → Prop
  | [] => True
  | (_, v) :: ms => v.Regular ∧ RegularMembers ms
end

@[simp] theorem Logical.length_datumItems (vs : List Logical) : (datumItems vs).length = vs.length := by
  induction vs with
  | nil => rfl
  | cons v vs ih => simp [datumItems, ih]

@[simp] theorem Logical.keys_datumMembers (ms : List (Text × Logical)) :
    (datumMembers ms).map Prod.fst = ms.map Prod.fst := by
  induction ms with
  | nil => rfl
  | cons m ms ih => simp [datumMembers, ih]

section

variable (host : Host) (limits : Limits) (path : Text)

mutual
theorem native_yields : ∀ v : Value,
    Yields (fun l : Logical => l.datum = datum host v) (native host limits path v)
  | .null | .bool _ | .str _ => rfl
  | .num n => (decimal_yields host limits path n).bind fun p hp => by
      simp [Yields, Logical.datum, datum, hp.2]
  | .arr vs => (nativeItems_yields vs).bind fun l hl => by
      simp [Yields, Logical.datum, datum, hl.2]
  | .obj ms => (nativeMembers_yields ms).bind fun l hl => by
      simp [Yields, Logical.datum, datum, hl]

theorem nativeItems_yields : ∀ vs : List Value,
    Yields (fun l : List Logical => l.length = vs.length ∧ Logical.datumItems l = datumItems host vs)
      (nativeItems host limits path vs)
  | [] => ⟨rfl, rfl⟩
  | v :: vs => (native_yields v).bind fun l hl => (nativeItems_yields vs).bind fun ls hls => by
      simp [Yields, Logical.datumItems, datumItems, hl, hls.2, hls.1]

theorem nativeMembers_yields : ∀ ms : List (Text × Value),
    Yields (fun l : List (Text × Logical) => Logical.datumMembers l = datumMembers host ms)
      (nativeMembers host limits path ms)
  | [] => rfl
  | (k, v) :: ms => (native_yields v).bind fun l hl => (nativeMembers_yields ms).bind fun ls hls => by
      simp [Yields, Logical.datumMembers, datumMembers, hl, hls]
end

/-! ## Numbers -/

theorem product_yields (a b : Int) : Yields (fun n => n = a * b) (product limits path a b) := by
  unfold product
  split <;> rfl

theorem fraction_yields (c e : Int) :
    Yields (fun p : Int × Int => 0 < p.2 ∧ (p.1 : ℚ) / p.2 = amount c e)
      (fraction limits path (.num c e)) := by
  unfold fraction
  dsimp only
  split
  · split
    · rfl
    · split
      · obtain ⟨k, hk⟩ : ∃ k : Nat, e = -(k : Int) := ⟨e.natAbs, by omega⟩
        have habs : e.natAbs = k := by omega
        set factor : Int := 10 ^ e.natAbs with hfactor
        have hpos : 0 < factor := by positivity
        have hdvd := Int.gcd_dvd_right (a := c) (b := factor)
        have hgcd : (0 : Int) < Int.gcd c factor := by
          have := Int.gcd_pos_of_ne_zero_right c hpos.ne'
          exact_mod_cast this
        refine ⟨Int.ediv_pos_of_pos_of_dvd hpos hgcd.le hdvd, ?_⟩
        have hg : ((Int.gcd c factor : Int) : ℚ) ≠ 0 := by exact_mod_cast hgcd.ne'
        rw [Int.cast_div (Int.gcd_dvd_left (a := c) (b := factor)) hg, Int.cast_div hdvd hg,
          div_div_div_cancel_right₀ hg, amount, hk, zpow_neg, zpow_natCast, hfactor, habs]
        push_cast
        rw [div_eq_mul_inv]
      · rename_i he
        refine (product_yields limits path c _).bind fun n hn => ?_
        obtain ⟨k, rfl⟩ := Int.eq_ofNat_of_zero_le (not_lt.mp he)
        rw [hn]
        refine ⟨one_pos, ?_⟩
        simp [amount]
  · rfl

theorem products_yields (left right : Int × Int) :
    Yields (fun p => p = (left.1 * right.2, right.1 * left.2)) (products limits path left right) :=
  (product_yields limits path _ _).bind fun l hl => (product_yields limits path _ _).bind fun r hr => by
    simp [Yields, hl, hr]

end

section

variable (limits : Limits) (path : Text)

theorem bounds_iff {key : Text} (hkey : key ∈ Schema.numeric) {left right : Int × Int} (hl : 0 < left.2)
    (hr : 0 < right.2) : compare key (left.1 * right.2) (right.1 * left.2) = true ↔
      Bounds key ((right.1 : ℚ) / right.2) ((left.1 : ℚ) / left.2) := by
  have hl' : (0 : ℚ) < left.2 := by exact_mod_cast hl
  have hr' : (0 : ℚ) < right.2 := by exact_mod_cast hr
  have hle : (right.1 : ℚ) / right.2 ≤ left.1 / left.2 ↔ right.1 * left.2 ≤ left.1 * right.2 := by
    rw [div_le_div_iff₀ hr' hl']
    exact_mod_cast Iff.rfl
  have hge : (left.1 : ℚ) / left.2 ≤ right.1 / right.2 ↔ left.1 * right.2 ≤ right.1 * left.2 := by
    rw [div_le_div_iff₀ hl' hr']
    exact_mod_cast Iff.rfl
  have hlt : (right.1 : ℚ) / right.2 < left.1 / left.2 ↔ right.1 * left.2 < left.1 * right.2 := by
    rw [← not_le, hge, not_le]
  have hgt : (left.1 : ℚ) / left.2 < right.1 / right.2 ↔ left.1 * right.2 < right.1 * left.2 := by
    rw [← not_le, hle, not_le]
  have hmul : (∃ i : Int, (left.1 : ℚ) / left.2 = i * (right.1 / right.2)) ↔
      right.1 * left.2 ∣ left.1 * right.2 := by
    refine exists_congr fun i => ?_
    rw [← mul_div_assoc, div_eq_div_iff hl'.ne' hr'.ne']
    constructor
    · intro h
      have : left.1 * right.2 = i * right.1 * left.2 := by exact_mod_cast h
      rw [this]
      ring
    · intro h
      have : ((left.1 * right.2 : Int) : ℚ) = (right.1 * left.2 * i : Int) := by rw [h]
      push_cast at this
      rw [this]
      ring
  simp only [Schema.numeric, mem_cons, not_mem_nil, or_false] at hkey
  -- one operator at a time: the other clauses of `Bounds` speak of other keys
  rcases hkey with rfl | rfl | rfl | rfl | rfl
  · simp +decide [compare, Bounds, hle]
  · simp +decide [compare, Bounds, hge]
  · simp +decide [compare, Bounds, hlt]
  · simp +decide [compare, Bounds, hgt]
  · simp +decide [compare, Bounds, hmul, Int.dvd_iff_tmod_eq_zero]

mutual
theorem equal_yields : ∀ a b : Logical,
    Yields (fun r : Bool => r = true ↔ a.datum = b.datum) (equal limits path a b)
  | .num c e, b => by
    cases b with
    | num c' e' =>
      refine (fraction_yields limits path c e).bind fun p hp => ?_
      refine (fraction_yields limits path c' e').bind fun q hq => ?_
      refine (products_yields limits path p q).bind fun r hr => ?_
      have hp' : (p.2 : ℚ) ≠ 0 := by exact_mod_cast hp.1.ne'
      have hq' : (q.2 : ℚ) ≠ 0 := by exact_mod_cast hq.1.ne'
      simp only [Yields, hr, beq_iff_eq, Logical.datum, Datum.num.injEq, ← hp.2, ← hq.2,
        div_eq_div_iff hp' hq']
      exact_mod_cast Iff.rfl
    | _ => simp [equal, Yields, Logical.datum]
  | .arr as, b => by
    cases b with
    | arr bs =>
      rw [equal]
      split
      · rename_i h
        simpa [Logical.datum] using equalItems_yields as bs h
      · rename_i h
        simp only [Yields, Bool.false_eq_true, Logical.datum, Datum.arr.injEq, false_iff]
        intro heq
        exact h (by simpa using congrArg length heq)
    | _ => simp [equal, Yields, Logical.datum]
  | .obj as, b => by
    cases b with
    | obj bs =>
      rw [equal]
      split
      · rename_i h
        simpa [Logical.datum] using equalMembers_yields as bs h
      · rename_i h
        simp only [Yields, Bool.false_eq_true, Logical.datum, Datum.obj.injEq, false_iff]
        intro heq
        exact h (by simpa using congrArg (map Prod.fst) heq)
    | _ => simp [equal, Yields, Logical.datum]
  | .null, b | .bool _, b | .str _, b => by cases b <;> simp [equal, Yields, Logical.datum]

theorem equalItems_yields : ∀ as bs : List Logical, as.length = bs.length →
    Yields (fun r : Bool => r = true ↔ Logical.datumItems as = Logical.datumItems bs)
      (equalItems limits path as bs)
  | [], [], _ => by simp [equalItems, Yields]
  | a :: as, b :: bs, h => by
    refine (equal_yields a b).bind fun r hr => ?_
    split
    · rename_i hr'
      have := equalItems_yields as bs (by simpa using h)
      simpa [Logical.datumItems, hr.mp hr'] using this
    · rename_i hr'
      simp [Yields, Logical.datumItems, ← hr, hr']

theorem equalMembers_yields : ∀ as bs : List (Text × Logical), as.map Prod.fst = bs.map Prod.fst →
    Yields (fun r : Bool => r = true ↔ Logical.datumMembers as = Logical.datumMembers bs)
      (equalMembers limits path as bs)
  | [], [], _ => by simp [equalMembers, Yields]
  | (k, a) :: as, (l, b) :: bs, h => by
    obtain ⟨rfl, hkeys⟩ := cons.inj h
    refine (equal_yields a b).bind fun r hr => ?_
    split
    · rename_i hr'
      have := equalMembers_yields as bs hkeys
      simpa [Logical.datumMembers, hr.mp hr'] using this
    · rename_i hr'
      simp [Yields, Logical.datumMembers, ← hr, hr']
end

end

end Instance

end Wotex.Profiles
