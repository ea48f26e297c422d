import Wotex.Profiles.Closure
import Wotex.Profiles.Numerals

/-!
# Compilation and regeneration (`packages/wotex-profiles/lib/wotex/profiles`: `compiler.ex`, `checked.ex`,
`projection.ex`)

`check/3` and `compile/4` produce plans from a profile, its closure and a capture; a plan retains its
inputs. `Checked.to_map/2` and `Projection.to_map/2` regenerate a plan from the retained inputs and
compare: the comparison is `==`, which takes `5` and `5.0` for equal. What they return is the regenerated
data.

* `Compiler.forms_check`, `Compiler.forms_compile`: the numbers of a plan are copies from the profile
  and the closure, so their forms can be read off the retained inputs (`copiedForms`).
* `regenerate_eq_ok`: what is accepted, and what is returned.
* `plans_exact_iff`: an accepted plan is the regenerated one exactly where no number of it has another
  form than the number it is a copy of.
-/

namespace Wotex.Profiles

open Json (Value)
open List Closure Grammar

/-- A plan with the inputs it was made from: `Checked` and `Projection`. -/
structure Plan where
  data : Value
  inputs : Value

namespace Compiler

/-- The text of a code, `Atom.to_string/1`. -/
def codeText : Code → Text
  | .invalidInput => "invalid_input"
  | .inputLimit => "input_limit"
  | .numericLimit => "numeric_limit"
  | .referenceConflict => "reference_conflict"
  | .missingReference => "missing_reference"
  | .cyclicReference => "cyclic_reference"
  | .unsupportedBinding => "unsupported_binding"
  | .unsupportedSelector => "unsupported_selector"
  | .unsupportedSemantics => "unsupported_semantics"
  | .unsupportedSchema => "unsupported_schema"
  | .unsupportedFormat => "unsupported_format"
  | .outOfDomain => "out_of_domain"
  | .codecRequired => "codec_required"
  | .staleBasis => "stale_basis"
  | .fingerprintMismatch => "fingerprint_mismatch"

/-- The codes that exclude an optional channel. -/
def excluding : List Code :=
  [.missingReference, .unsupportedBinding, .unsupportedSelector, .unsupportedSemantics, .outOfDomain,
    .codecRequired, .numericLimit]

/-- `compiler.ex:187-201`. -/
def plan (channel definition : Value) (reason : Option Text) : Value :=
  .obj [("affordance", channel.get "affordance"),
    ("channel_id", channel.get "id"),
    ("conversion", channel.get "conversion"),
    ("definition", deleteMember "annotations" definition),
    ("disposition", .str (if reason.isSome then "excluded" else "supported")),
    ("invalid_values", channel.get "invalid_values"),
    ("operations", if reason.isSome then .arr [] else channel.get "operations"),
    ("reason", (reason.map Value.str).getD .null),
    ("required", channel.get "required"),
    ("selector", channel.get "selector"),
    ("semantic", channel.get "semantic")]

/-- The type is `integer` or `number`. -/
def numericType (schema : Value) : Bool :=
  schema.get "type" == .str "integer" || schema.get "type" == .str "number"

section

variable (host : Host)

def identity : Value :=
  .obj [("id", .str "urn:wotex:profiles:compiler"),
    ("sha256", .str (hash host ("wotex.profile.compiler@1\n" ++ host.manifest))),
    ("version", .str "1.0.0")]

def selector (limits : Limits) (value schema : Value) (path : Text) : Result Unit :=
  match Instance.json host limits value schema (path ++ "/selector") with
  | .refuse ⟨.outOfDomain, _⟩ => refusal .unsupportedSelector (path ++ "/selector")
  | result => result

/-- `compiler.ex:239-257`. -/
def conversion (limits : Limits) (value raw target : Value) (path : Text) : Result Unit :=
  match value with
  | .null =>
    check (raw.get "type" == target.get "type" ||
      (numericType raw && numericType target)) .unsupportedSemantics path
  | value =>
    if value.get "kind" = .str "affine" then
      check (numericType raw && numericType target) .unsupportedSemantics path
    else if value.get "kind" = .str "table" then
      Outcome.each (fun entry => do
          Instance.c02 host limits (entry.get "source") raw (path ++ "/conversion")
          Instance.c02 host limits (entry.get "target") target (path ++ "/conversion"))
        (items (value.get "entries"))
    else .raise

/-- `compiler.ex:203-224`. -/
def mechanics (limits : Limits) (channel definition binding : Value) (path : Text) : Result Unit := do
  check ((items (channel.get "operations")).all fun o =>
    (items (binding.get "operations")).contains o) .unsupportedSemantics path
  selector host limits (channel.get "selector") (binding.get "selector_schema") path
  check (definition.get "unit" == .null || numericType (definition.get "value_schema"))
    .unsupportedSemantics path
  Outcome.each (fun v => Instance.c02 host limits v (binding.get "raw_value_schema")
    (path ++ "/invalid_values")) (items (channel.get "invalid_values"))
  conversion host limits (channel.get "conversion") (binding.get "raw_value_schema")
    (definition.get "value_schema") path

def excluded (channel definition : Value) (walk : Walk) (error : Error) : Result (Value × Walk) :=
  if channel.get "required" == .bool false && excluding.contains error.code then
    .ok (plan channel definition (some (codeText error.code)), walk)
  else .refuse error

section

variable (state : State)

/-- `compiler.ex:159-172`. -/
def channel (binding : Entry) (data : Value) (walk : Walk) (path : Text) : Result (Value × Walk) :=
  match definition state (data.get "semantic") walk (path ++ "/semantic") with
  | .ok (definition, next) =>
    match mechanics host state.limits data definition.data binding.data path with
    | .ok () => .ok (plan data definition.data none, next)
    | .refuse error => excluded data definition.data next error
    | .raise => .raise
  | .refuse error =>
    excluded data (indexed state.index (data.get "semantic")) walk error
  | .raise => .raise

/-- `channels/1` and `accumulate/5`. -/
def channels (binding : Entry) :
    List (Value × Nat) → List Value → Walk → Nat → Nat → Result (List Value × Walk)
  | [], plans, walk, _, _ => .ok (plans.reverse, walk)
  | (data, index) :: rest, plans, walk, bytes, nodes => do
    let (plan, walk) ← channel host state binding data walk (Reader.indexed "/channels/" index)
    match encoded host state.limits.options plan with
    | some encoded =>
      let size := bytes + encoded.bytes + 1
      let count := nodes + plan.nodes
      if size ≤ state.limits.maxBytes ∧ count ≤ state.limits.maxNodes then
        channels binding rest (plan :: plans) walk size count
      else refusal .inputLimit "/channels"
    | none => refusal .inputLimit "/channels"

def closureIdentity (walk : Walk) : Result Text :=
  match encoded host state.limits.options (.arr (references walk)) with
  | some text => .ok (Grammar.hash host ("wotex.profile.closure@1\n" ++ text))
  | none => refusal .inputLimit "/closure"

end

/-- `compiler.ex:43-68`. -/
def check (profile closure limits : Value) : Result Plan := do
  let (state, walk, binding) ← prepare host profile closure limits
  let (plans, walk) ← channels host state binding
    (items (state.profile.data.get "channels")).zipIdx [] walk 2 1
  let closureSha256 ← closureIdentity host state walk
  let limitsSha256 ← Grammar.identity host state.limits "wotex.profile.limits@1" state.limits.data
  let data : Value := .obj [("binding", binding.ref), ("channel_plans", .arr plans),
    ("closure_sha256", .str closureSha256), ("compiler_ref", identity host),
    ("limits_sha256", .str limitsSha256), ("profile_sha256", .str state.profile.semantic)]
  admitData host state.limits data
  .ok ⟨data, .obj [("closure", state.closure), ("limits", state.limits.data),
    ("profile", state.profile.data)]⟩

/-- `compiler.ex:109-114`. -/
def fingerprint (predicates fields : Value) : Result Unit :=
  Profiles.check ((items predicates).all fun p =>
    match p.get "field" with
    | .str field =>
      match Runtime.fetch fields field with
      | some value => (items (p.get "values")).contains value
      | none => false
    | _ => false) .fingerprintMismatch "/fingerprint"

/-- `compiler.ex:79-107`. -/
def compile (profile closure capture limits : Value) : Result Plan := do
  let checked ← check host profile closure limits
  let bindings := items ((checked.inputs.get "closure").get "bindings")
  let binding := (bindings.find? fun b =>
    (Binding.reference b).same (checked.data.get "binding")).getD .null
  let limits ← Limits.new (checked.inputs.get "limits")
  let capture ← Capture.new host limits capture binding
  admitData host limits (.obj [("capture", capture),
    ("closure", checked.inputs.get "closure"),
    ("profile", checked.inputs.get "profile")])
  fingerprint ((checked.inputs.get "profile").get "fingerprint")
    (capture.get "fields")
  let data := putMember "capture_epoch" (capture.get "capture_epoch")
    (putMember "capture_digest" (capture.get "digest")
      (deleteMember "limits_sha256" checked.data))
  admitData host limits data
  .ok ⟨data, putMember "capture" capture checked.inputs⟩

end

end Compiler

/-! ## Regeneration -/

/-- The body of both `to_map/2`; `compiler` runs on the retained inputs. -/
def regenerate (host : Host) (retained names : List Text) (path : Text) (compiler : Value → Result Plan)
    (value : Plan) (limits : Value) : Result Value := do
  fields value.inputs retained path []
  let limits ← Limits.new limits
  fields value.data names path []
  admitData host limits value.data
  check ((value.inputs.get "limits").same limits.data) .staleBasis path
  let regenerated ← compiler limits.data
  check (value.data.same regenerated.data) .staleBasis path
  .ok regenerated.data

section

variable (host : Host) (value : Plan) (limits : Value)
include host

/-- The check that `Checked.to_map/2` repeats. -/
def Checked.compiler : Result Plan :=
  Compiler.check host (value.inputs.get "profile") (value.inputs.get "closure") limits

def Checked.toMap : Result Value :=
  regenerate host ["profile", "closure", "limits"]
    ["profile_sha256", "closure_sha256", "compiler_ref", "binding",
      "channel_plans", "limits_sha256"]
    "/checked" (Checked.compiler host value) value limits

/-- The compilation that `Projection.to_map/2` repeats. -/
def Projection.compiler : Result Plan :=
  Compiler.compile host (value.inputs.get "profile") (value.inputs.get "closure")
    (value.inputs.get "capture") limits

def Projection.toMap : Result Value :=
  regenerate host ["profile", "closure", "capture", "limits"]
    ["profile_sha256", "closure_sha256", "capture_digest", "capture_epoch",
      "binding", "compiler_ref", "channel_plans"]
    "/projection" (Projection.compiler host value) value limits

end

/-! ## What is accepted -/

theorem members_of_keys {members : List (Text × Value)} (h : (members.map Prod.fst).Nodup) :
    members = (members.map Prod.fst).map fun k => (k, Value.member k members) := by
  induction members with
  | nil => rfl
  | cons m ms ih =>
    obtain ⟨k, v⟩ := m
    rw [map_cons, nodup_cons] at h
    congr 1
    · simp [Value.member]
    · conv_lhs => rw [ih h.2]
      refine map_congr_left fun l hl => ?_
      have hne : k ≠ l := fun hk => h.1 (hk ▸ hl)
      simp [Value.member, hne]

namespace Limits

theorem selection_eq_some {value : Value} {key : Text} {ceiling n : Nat}
    (h : selection value key ceiling = some n) : value.get key = .num (.int n) := by
  unfold selection at h
  split at h
  · rename_i i hi
    split at h
    · cases h
      rw [hi, Int.toNat_of_nonneg (by omega)]
    · cases h
  · cases h

theorem data_of_new {value : Value} {l : Limits} (h : new value = .ok l) : value = l.data := by
  unfold new at h
  split at h
  · rename_i members
    split at h
    · rename_i hkeys
      split at h
      · rename_i hsel
        cases h
        simp only [ceilings, map_cons, map_nil, cons.injEq, and_true] at hsel
        have hm := @members_of_keys members (by rw [hkeys]; decide)
        rw [hkeys] at hm
        simp only [ceilings, map_cons] at hm
        obtain ⟨h1, h2, h3, h4, h5, h6, h7, h8⟩ := hsel
        have get : ∀ {k : Text} {c n : Nat}, selection (.obj members) k c = some n →
            Value.member k members = .num (.int n) := selection_eq_some
        rw [get h1, get h2, get h3, get h4, get h5, get h6, get h7, get h8] at hm
        rw [hm]
        rfl
      · cases h
    · cases h
  · cases h

theorem forms_data (l : Limits) : l.data.forms = replicate 8 .integer := rfl

end Limits

/-! ## The numbers of a plan -/

/-- The forms of what the plan of a channel copies, from the channel and from its definition. -/
def channelForms (closure channel : Value) : List Num.Form :=
  (channel.get "affordance").forms ++ (channel.get "id").forms ++ (channel.get "conversion").forms ++
    (deleteMember "annotations" (definitionOf closure (channel.get "semantic"))).forms ++
    (channel.get "invalid_values").forms ++ (channel.get "required").forms ++
    (channel.get "selector").forms ++ (channel.get "semantic").forms

/-- The forms of what a plan copies from a profile and a closure. -/
def copiedForms (profile closure : Value) : List Num.Form :=
  (profile.get "binding").forms ++ (items (profile.get "channels")).flatMap (channelForms closure)

theorem formsItems_eq (vs : List Value) : Value.formsItems vs = vs.flatMap Value.forms := by
  induction vs with
  | nil => rfl
  | cons v vs ih => rw [Value.formsItems, ih, flatMap_cons]

theorem forms_of_texts : ∀ {vs : List Value} {names : List Text}, Schema.texts vs = some names →
    vs.flatMap Value.forms = []
  | [], _, _ => rfl
  | v :: vs, names, h => by
    cases v <;> simp [Schema.texts] at h
    obtain ⟨rest, hrest, -⟩ := h
    simp [Value.forms, forms_of_texts hrest]

/-- The operations of a checked channel are texts. -/
theorem forms_operations {host : Host} {limits : Limits} {profile c : Value}
    (h : Reader.validate host limits .profile profile = .ok ())
    (hc : c ∈ items (profile.get "channels")) : (c.get "operations").forms = [] := by
  simp only [Reader.validate, bind_eq_ok_unit] at h
  have h := h.2.2.2
  unfold Reader.channels at h
  split at h
  · rename_i values heq
    simp only [bind_eq_ok_unit, Outcome.each_eq_ok] at h
    rw [heq] at hc
    obtain ⟨i, hi⟩ := mem_iff_getElem?.mp hc
    have hchannel := h.2.1 (c, i) (mem_zipIdx_iff_getElem?.mpr hi)
    simp only [Reader.channel, bind_eq_ok_unit] at hchannel
    have hops := hchannel.2.2.2.1
    unfold Reader.operations at hops
    split at hops
    · rename_i heq
      split at hops
      · rename_i htexts
        rw [heq, Value.forms, formsItems_eq, forms_of_texts htexts]
      · cases hops
    · cases hops
  · cases h

theorem Capture.forms_new {host : Host} {limits : Limits} {data binding found : Value}
    (h : Capture.new host limits data binding = .ok found) :
    (found.get "digest").forms = [] ∧ (found.get "capture_epoch").forms = [] := by
  simp only [Capture.new, Capture.digest, Capture.validate, bind_eq_ok, exists_unit, require_eq_ok,
    beq_iff_eq] at h
  obtain ⟨-, hfields, -, identity, ⟨-, b, -, ⟨-, -, -, hepoch, -⟩, -⟩, hdigest, ⟨⟩⟩ := h
  refine ⟨by rw [hdigest]; rfl, ?_⟩
  cases data with
  | obj members =>
    have hget : (deleteMember "digest" (.obj members)).get "capture_epoch" =
        (Value.obj members).get "capture_epoch" := by
      simp only [deleteMember, Value.get, member_eq, Members.find_drop]
      rw [if_neg (by decide)]
    rw [hget] at hepoch
    unfold Capture.epoch at hepoch
    split at hepoch
    · rename_i heq
      rw [heq]
      rfl
    · cases hepoch
  | _ => cases hfields

namespace Compiler

variable {host : Host} {state : State} {binding : Entry}

theorem forms_plan {closure data : Value} {reason : Option Text}
    (h : (data.get "operations").forms = []) :
    (plan data (definitionOf closure (data.get "semantic")) reason).forms = channelForms closure data := by
  cases reason <;> simp [plan, channelForms, Value.forms, Value.formsMembers, Value.formsItems, h]

theorem excluded_eq_ok {channel definition p : Value} {walk next : Walk} {error : Error}
    (h : excluded channel definition walk error = .ok (p, next)) :
    ∃ reason, p = plan channel definition reason := by
  unfold excluded at h
  split_ifs at h
  cases h
  exact ⟨_, rfl⟩

theorem channel_eq_ok {data p : Value} {walk next : Walk} {path : Text}
    (h : channel host state binding data walk path = .ok (p, next)) :
    ∃ reason, p = plan data (indexed state.index (data.get "semantic")) reason := by
  unfold channel at h
  split at h
  · rename_i d s hd
    obtain ⟨hi, -, hkind⟩ := visit_eq_ok hd
    have hindexed : indexed state.index (data.get "semantic") = d.data := by
      obtain ⟨kind, dd, ref⟩ := d
      obtain rfl : kind = .definition := by simpa [allowed] using hkind
      simp [indexed, hi]
    rw [hindexed]
    split at h
    · cases h
      exact ⟨_, rfl⟩
    · exact excluded_eq_ok h
    · cases h
  · exact excluded_eq_ok h
  · cases h

section

variable {closure : Value}
  (hindex : ∀ reference, indexed state.index reference = definitionOf closure reference)
include hindex

theorem channels_eq_ok : ∀ {l : List (Value × Nat)} {acc out : List Value} {walk next : Walk}
    {bytes nodes : Nat}, channels host state binding l acc walk bytes nodes = .ok (out, next) →
    (∀ c ∈ l, (c.1.get "operations").forms = []) → out.flatMap Value.forms =
      acc.reverse.flatMap Value.forms ++ (l.map Prod.fst).flatMap (channelForms closure)
  | [], _, _, _, _, _, _, h, _ => by
    cases h
    simp
  | (data, i) :: rest, acc, out, walk, next, bytes, nodes, h, hops => by
    obtain ⟨hop, hops⟩ := forall_mem_cons.mp hops
    simp only [channels, bind_eq_ok, Prod.exists] at h
    obtain ⟨p, s, hc, h⟩ := h
    obtain ⟨reason, rfl⟩ := channel_eq_ok hc
    split at h
    · split_ifs at h
      rw [channels_eq_ok h hops, hindex, reverse_cons, flatMap_append, flatMap_singleton,
        forms_plan hop, append_assoc, map_cons, flatMap_cons]
    · cases h

end

variable {profile closure limits : Value} {p : Plan}

/-- **The numbers of a checked plan** are those it copies. -/
theorem forms_check (h : check host profile closure limits = .ok p) :
    p.data.forms = copiedForms profile closure := by
  simp only [check, bind_eq_ok, exists_unit, Prod.exists] at h
  obtain ⟨state, walk, binding, hp, plans, next, hc, cs, -, ls, -, -, ⟨⟩⟩ := h
  obtain ⟨rfl, href, hindex, l, -, hv⟩ := prepare_eq_ok hp
  have hplans := channels_eq_ok hindex hc fun c hc => forms_operations hv (fst_mem_of_mem_zipIdx hc)
  simp [Value.forms, Value.formsMembers, formsItems_eq, href, hplans, copiedForms, identity]

/-- **The numbers of a projection** are those of the checked plan: the capture adds two texts. -/
theorem forms_compile {capture : Value} (h : compile host profile closure capture limits = .ok p) :
    p.data.forms = copiedForms profile closure := by
  simp only [compile, bind_eq_ok, exists_unit] at h
  obtain ⟨checked, hc, l, -, found, hf, -, -, -, ⟨⟩⟩ := h
  rw [← forms_check hc]
  simp only [check, bind_eq_ok, exists_unit, Prod.exists] at hc
  obtain ⟨_, _, _, -, _, _, -, _, -, _, -, -, ⟨⟩⟩ := hc
  obtain ⟨hdigest, hepoch⟩ := Capture.forms_new hf
  show Value.forms (.obj [("binding", _), ("capture_digest", _), ("capture_epoch", _),
    ("channel_plans", _), ("closure_sha256", _), ("compiler_ref", _), ("profile_sha256", _)]) = _
  simp [Value.forms, Value.formsMembers, hdigest, hepoch]

theorem limits_of_check (h : check host profile closure limits = .ok p) :
    ∃ l, Limits.new limits = .ok l := by
  simp only [check, bind_eq_ok, Prod.exists] at h
  obtain ⟨state, walk, binding, hp, -⟩ := h
  obtain ⟨-, -, -, l, hl, -⟩ := prepare_eq_ok hp
  exact ⟨l, hl⟩

end Compiler

/-- The numbers of the stored data have the forms of those in the retained profile and closure that they
are copies of, and the retained limits are integers. -/
def Plan.KeepsForms (value : Plan) : Prop :=
  value.data.forms = copiedForms (value.inputs.get "profile") (value.inputs.get "closure") ∧
    (value.inputs.get "limits").forms = replicate 8 .integer

section

variable {host : Host} {retained names : List Text} {path : Text} {compiler : Value → Result Plan}
  {value : Plan} {limits data : Value}

/-- What is returned is what the compiler makes of the retained inputs; what was stored, and the retained
limits, equal it by `==`. -/
theorem regenerate_eq_ok
    (h : regenerate host retained names path compiler value limits = .ok data) :
    (∃ p, compiler limits = .ok p ∧ p.data = data) ∧ value.data.same data = true ∧
      (value.inputs.get "limits").same limits = true ∧ limits.forms = replicate 8 .integer := by
  simp only [regenerate, bind_eq_ok, exists_unit, require_eq_ok] at h
  obtain ⟨-, l, hl, -, -, hlimits, p, hp, hsame, hdata⟩ := h
  cases hdata
  have hval := Limits.data_of_new hl
  rw [hval]
  exact ⟨⟨p, hp, rfl⟩, hsame, hlimits, l.forms_data⟩

/-- A compiler that reads its limits makes the stored data of the retained inputs where no number changed
its form. -/
theorem regenerate_exact_iff
    (hnew : ∀ {limits p}, compiler limits = .ok p → ∃ l, Limits.new limits = .ok l)
    (hcopied : ∀ {limits p}, compiler limits = .ok p →
      p.data.forms = copiedForms (value.inputs.get "profile") (value.inputs.get "closure"))
    (h : regenerate host retained names path compiler value limits = .ok data) :
    (∃ p, compiler (value.inputs.get "limits") = .ok p ∧ p.data = value.data) ↔ value.KeepsForms := by
  obtain ⟨⟨q, hq, rfl⟩, hsame, hlimits, hforms⟩ := regenerate_eq_ok h
  constructor
  · rintro ⟨p, hp, hdata⟩
    obtain ⟨l, hl⟩ := hnew hp
    exact ⟨hdata ▸ hcopied hp, by rw [Limits.data_of_new hl, l.forms_data]⟩
  · rintro ⟨hdata, hint⟩
    rw [Value.eq_of_forms hlimits (hint.trans hforms.symm),
      Value.eq_of_forms hsame (hdata.trans (hcopied hq).symm)]
    exact ⟨q, hq, rfl⟩

end

/-- **Regeneration is exact where no number changed its form.** What `Checked.to_map/2` and
`Projection.to_map/2` return is what the compiler makes of the retained inputs. The stored data they
accept is what the compiler makes of the retained inputs, limits included, if and only if each number
has the form of the one it copies. -/
theorem plans_exact_iff (host : Host) (value : Plan) (limits data : Value) :
    (Checked.toMap host value limits = .ok data →
      (∃ p, Checked.compiler host value limits = .ok p ∧ p.data = data)
      ∧ ((∃ p, Checked.compiler host value (value.inputs.get "limits") = .ok p
          ∧ p.data = value.data) ↔ value.KeepsForms))
    ∧ (Projection.toMap host value limits = .ok data →
      (∃ p, Projection.compiler host value limits = .ok p ∧ p.data = data)
      ∧ ((∃ p, Projection.compiler host value (value.inputs.get "limits") = .ok p
          ∧ p.data = value.data) ↔ value.KeepsForms)) := by
  refine ⟨fun h => ⟨(regenerate_eq_ok h).1, ?_⟩, fun h => ⟨(regenerate_eq_ok h).1, ?_⟩⟩
  · exact regenerate_exact_iff Compiler.limits_of_check Compiler.forms_check h
  · refine regenerate_exact_iff (fun hp => ?_) Compiler.forms_compile h
    obtain ⟨_, hc, -⟩ := bind_eq_ok.mp hp
    exact Compiler.limits_of_check hc

/-! ## A lamp

One channel, read from register `5`. -/

/-- The digest of every text. -/
def lampDigest : Value := .str (replicate 64 '0')

/-- A reference to evaluate with. -/
def lampReference (id : Text) : Value :=
  .obj [("id", .str id), ("sha256", lampDigest), ("version", .str "1.0.0")]

/-- An integer schema. -/
def lampInteger : Value := .obj [("type", .str "integer")]

/-- The registration of the binding. -/
def lampBinding : Value :=
  .obj [("capture_fields", .arr [.str "model"]), ("codec_contracts", .arr []),
    ("id", .str "urn:binding"),
    ("operations", .arr [.str "readproperty"]),
    ("raw_value_contract", lampReference "urn:contract"),
    ("raw_value_schema", lampInteger),
    ("selector_schema", .obj [("additionalProperties", .bool false),
      ("properties", .obj [("register", lampInteger)]),
      ("type", .str "object")]),
    ("sha256", lampDigest), ("version", .str "1.0.0")]

/-- The definition of the channel's meaning. -/
def lampDefinition : Value :=
  .obj [("behaviour", .null), ("format", .str "wotex.semantic@1"),
    ("id", .str "urn:level"), ("requires", .arr []), ("unit", .null),
    ("value_schema", lampInteger), ("version", .str "1.0.0")]

/-- A selector with its register. -/
def lampSelector (register : Num) : Value := .obj [("register", .num register)]

/-- The affordance of the channel. -/
def lampAffordance : Value :=
  .obj [("kind", .str "property"), ("name", .str "level")]

/-- The profile. -/
def lampProfile : Value :=
  .obj [("binding", lampReference "urn:binding"),
    ("channels", .arr [.obj [("affordance", lampAffordance), ("conversion", .null),
      ("id", .str "level"), ("invalid_values", .arr []),
      ("operations", .arr [.str "readproperty"]), ("required", .bool true),
      ("selector", lampSelector (.int 5)), ("semantic", lampReference "urn:level")]]),
    ("fingerprint", .arr [.obj [("field", .str "model"),
      ("operator", .str "eq"),
      ("values", .arr [.obj [("type", .str "boolean"), ("value", .bool true)]])]]),
    ("format", .str "wotex.profile@1"), ("id", .str "urn:lamp"),
    ("requires", .arr []), ("version", .str "1.0.0")]

/-- What is installed. -/
def lampClosure : Value :=
  .obj [("bindings", .arr [lampBinding]),
    ("contracts", .arr [lampReference "urn:contract"]),
    ("definitions", .arr [lampDefinition])]

/-- What was captured. -/
def lampCapture : Value :=
  .obj [("binding", lampReference "urn:binding"),
    ("capture_epoch", .str (replicate 32 '0')), ("digest", lampDigest),
    ("fields", .obj [("model", .obj [("type", .str "boolean"),
      ("value", .bool true)])])]

variable (register : Num)

/-- The plan of the channel with a register. -/
def lampPlan : Value :=
  .obj [("affordance", lampAffordance), ("channel_id", .str "level"),
    ("conversion", .null), ("definition", lampDefinition),
    ("disposition", .str "supported"), ("invalid_values", .arr []),
    ("operations", .arr [.str "readproperty"]), ("reason", .null),
    ("required", .bool true), ("selector", lampSelector register),
    ("semantic", lampReference "urn:level")]

/-- The checked plan of the lamp with a register. -/
def lampChecked : Plan where
  data := .obj [("binding", lampReference "urn:binding"),
    ("channel_plans", .arr [lampPlan register]), ("closure_sha256", lampDigest),
    ("compiler_ref", lampReference "urn:wotex:profiles:compiler"),
    ("limits_sha256", lampDigest), ("profile_sha256", lampDigest)]
  inputs := .obj [("closure", lampClosure), ("limits", lampLimits.data),
    ("profile", lampProfile)]

/-- The projection of the lamp with a register. -/
def lampProjection : Plan where
  data := .obj [("binding", lampReference "urn:binding"),
    ("capture_digest", lampDigest), ("capture_epoch", .str (replicate 32 '0')),
    ("channel_plans", .arr [lampPlan register]), ("closure_sha256", lampDigest),
    ("compiler_ref", lampReference "urn:wotex:profiles:compiler"),
    ("profile_sha256", lampDigest)]
  inputs := .obj [("capture", lampCapture), ("closure", lampClosure),
    ("limits", lampLimits.data), ("profile", lampProfile)]

/-- `5.0`. -/
def five : Num := .flt (Flt.ofInt 5)

/-- The plans of register `5`, and the projection of register `5.0`, are accepted. -/
theorem lamp_accepted :
    Checked.toMap lampHost (lampChecked (.int 5)) lampLimits.data = .ok (lampChecked (.int 5)).data
    ∧ ∀ register ∈ [.int 5, five],
      Projection.toMap lampHost (lampProjection register) lampLimits.data
        = .ok (lampProjection (.int 5)).data := by
  decide +kernel

theorem lamp_plans_exact :
    (∃ p, Checked.compiler lampHost (lampChecked (.int 5)) lampLimits.data = .ok p
      ∧ p.data = (lampChecked (.int 5)).data)
    ∧ ∃ p, Projection.compiler lampHost (lampProjection (.int 5)) lampLimits.data = .ok p
      ∧ p.data = (lampProjection (.int 5)).data :=
  ⟨(((plans_exact_iff lampHost (lampChecked (.int 5)) lampLimits.data _).1 lamp_accepted.1).2).mpr
      ⟨rfl, rfl⟩,
    (((plans_exact_iff lampHost (lampProjection (.int 5)) lampLimits.data _).2
      (lamp_accepted.2 _ (by simp))).2).mpr ⟨rfl, rfl⟩⟩

/-- The register is `5.0`: accepted, and neither the compiled data nor its canonical text. -/
theorem float_register_accepted :
    Projection.toMap lampHost (lampProjection five) lampLimits.data = .ok (lampProjection (.int 5)).data
    ∧ (lampProjection five).data ≠ (lampProjection (.int 5)).data
    ∧ Json.encode lampHost.float (lampProjection five).data
      ≠ Json.encode lampHost.float (lampProjection (.int 5)).data :=
  ⟨lamp_accepted.2 _ (by simp), by decide +kernel, by decide +kernel⟩

end Wotex.Profiles
