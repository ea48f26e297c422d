import Wotex.Profiles.Reader
import Wotex.Term.Maps
import Wotex.Term.Sorting

/-!
# Selected closures (`packages/wotex-profiles/lib/wotex/profiles`: `definitions.ex`, `closure.ex`)

`prepare/3` checks a profile with the definitions, bindings and contracts that are supplied with it and
walks the references from the profile. The walk marks entries as it goes; each entry it expands is counted
against `max_dependencies`, so that number is also enough fuel for its depth.

Checked data is kept as it is, and no two entries have one id and version: so the definition that the
walk finds for a reference is the one that the closure was given with (`prepare_eq_ok`).
-/

namespace Wotex.Profiles

open Grammar

open Json (Value)
open List
open Std (ExtTreeMap LawfulEqCmp)

/-- `definitions.ex:8-21`. -/
def Definitions.new (host : Host) (limits : Limits) (values : List Value) :
    Result (List Identified) := do
  check (decide (values.length ≤ limits.maxDefinitions)) .inputLimit "/definitions"
  admitData host limits (.arr values)
  let checked ← definitions values []
  let checked := sortBy (fun d => keyTexts d.data) checked
  sortedUnique (checked.map fun d => keyTexts d.data) "/definitions"
  .ok checked
where
  /-- `definitions/2`: the last one first. -/
  definitions : List Value → List Identified → Result (List Identified)
    | [], acc => .ok acc
    | v :: vs, acc => do
      let d ← Definition.new host limits v
      definitions vs (d :: acc)

namespace Closure

/-- What an entry of the index is. -/
inductive EntryKind where
  | profile
  | definition
  | binding
  | contract
  deriving DecidableEq

/-- An entry of the index. -/
structure Entry where
  kind : EntryKind
  data : Value
  ref : Value

/-- A mark of the walk. -/
inductive Mark where
  | visiting
  | done

/-- The entries by id and version. -/
abbrev Index := ExtTreeMap (List Text) Entry compare

instance : Std.TransCmp (compare : List Text → List Text → Ordering) := inferInstance

/-- What the walk reads: the members of `state` that it never changes. -/
structure State where
  profile : Identified
  limits : Limits
  index : Index
  closure : Value

/-- The members of `state` that the walk changes. -/
structure Walk where
  marks : ExtTreeMap (List Text) Mark compare := ∅
  refs : ExtTreeMap (List Text) Value compare := ∅

/-- What a reference may lead to. -/
inductive Expected where
  | kind (k : EntryKind)
  | dependency

def allowed (kind : EntryKind) : Expected → Bool
  | .kind k => kind == k
  | .dependency => kind == .definition || kind == .contract

/-- The definition that an index holds for a reference, or `nil`. -/
def indexed (index : Index) (reference : Value) : Value :=
  match index[keyTexts reference]? with
  | some ⟨.definition, definition, _⟩ => definition
  | _ => .null

def lookup (reference : Value) (index : Index) (path : Text) : Result Entry :=
  match index[keyTexts reference]? with
  | none => refusal .missingReference path
  | some entry => if entry.ref = reference then .ok entry else refusal .referenceConflict path

section

variable (visit : Value → Walk → Text → Expected → Result (Entry × Walk))

/-- `dependencies/4`, over the walk of one reference. -/
def dependencies : List Value → Walk → Text → Expected → Result Walk
  | [], walk, _, _ => .ok walk
  | reference :: rest, walk, path, expected => do
    let (_, walk) ← visit reference walk path expected
    dependencies rest walk path expected

/-- `closure.ex:169-180`. -/
def expandEntry (entry : Entry) (walk : Walk) (path : Text) : Result Walk :=
  match entry.kind with
  | .definition => do
    let walk ← dependencies visit (items (entry.data.get "requires")) walk path .dependency
    match entry.data.get "behaviour" with
    | .null => .ok walk
    | behaviour => dependencies visit [behaviour] walk path (.kind .contract)
  | .binding =>
    dependencies visit
      (entry.data.get "raw_value_contract" :: items (entry.data.get "codec_contracts"))
      walk path (.kind .contract)
  | _ => .ok walk

end

/-- `visit/4` and `expand/4`. -/
def visit (state : State) : Nat → Value → Walk → Text → Expected → Result (Entry × Walk)
  | fuel, reference, walk, path, expected => do
    let key := keyTexts reference
    let entry ← lookup reference state.index path
    check (allowed entry.kind expected) .unsupportedSemantics path
    match walk.marks[key]? with
    | some .visiting => refusal .cyclicReference path
    | some .done => .ok (entry, walk)
    | none =>
      if walk.refs.size < state.limits.maxDependencies then
        match fuel with
        | 0 => refusal .inputLimit path
        | fuel + 1 => do
          let walk ← expandEntry (visit state fuel) entry
            ⟨walk.marks.insert key .visiting, walk.refs.insert key entry.ref⟩ path
          .ok (entry, { walk with marks := walk.marks.insert key .done })
      else refusal .inputLimit path

/-- `cycle_edges/4`, over the walk of one key. -/
def cycleEdges (node : List Text → ExtTreeMap (List Text) Mark compare →
      Result (ExtTreeMap (List Text) Mark compare)) :
    List Value → ExtTreeMap (List Text) Mark compare → Result (ExtTreeMap (List Text) Mark compare)
  | [], marks => .ok marks
  | reference :: rest, marks => do
    let marks ← node (keyTexts reference) marks
    cycleEdges node rest marks

/-- `closure.ex:215-235`. -/
def cycleNode (index : Index) (maximum : Nat) : Nat → List Text →
    ExtTreeMap (List Text) Mark compare → Result (ExtTreeMap (List Text) Mark compare)
  | fuel, key, marks =>
    match marks[key]?, index[key]? with
    | some .visiting, _ => refusal .cyclicReference "/closure/definitions"
    | some .done, _ => .ok marks
    | none, some ⟨.definition, data, _⟩ =>
      if marks.size < maximum then
        match fuel with
        | 0 => refusal .inputLimit "/closure/definitions"
        | fuel + 1 => do
          let marks ← cycleEdges (cycleNode index maximum fuel)
            (items (data.get "requires")) (marks.insert key .visiting)
          .ok (marks.insert key .done)
      else refusal .inputLimit "/closure/definitions"
    | none, _ => .ok marks

def cycles (profile : Identified) (index : Index) (limits : Limits) : Result Unit := do
  let roots := items (profile.data.get "requires") ++
    (items (profile.data.get "channels")).map fun c => c.get "semantic"
  let _ ← cycleEdges (cycleNode index limits.maxDependencies limits.maxDependencies) roots ∅
  .ok ()

/-- The entries of `index/4`. -/
def entries (profile : Identified) (definitions : List Identified) (bindings contracts : List Value) :
    List Entry :=
  [⟨.profile, profile.data, profile.reference⟩] ++
    (definitions.map fun d => ⟨.definition, d.data, d.reference⟩) ++
    (bindings.map fun b => ⟨.binding, b, Binding.reference b⟩) ++
    contracts.map fun c => ⟨.contract, c, c⟩

/-- The loop of `index/4`. -/
def indexOf : List Entry → Index → Result Index
  | [], index => .ok index
  | entry :: rest, index =>
    let key := keyTexts entry.ref
    if index.contains key then refusal .referenceConflict "/closure"
    else indexOf rest (index.insert key entry)

def collection (values : Value) (maximum : Nat) : Result (List Value) :=
  match values with
  | .arr values => if values.length ≤ maximum then .ok values else refusal .inputLimit "/closure"
  | _ => refusal .invalidInput "/closure"

def bindings (host : Host) (limits : Limits) : List Value → List Value → Result (List Value)
  | [], acc => .ok (sortBy keyTexts acc)
  | v :: vs, acc => do
    let b ← Binding.new host limits v
    bindings host limits vs (b :: acc)

def fingerprintFields (predicates fields : Value) : Result Unit :=
  check ((items predicates).all fun p => (items fields).contains (p.get "field"))
    .unsupportedBinding "/fingerprint"

/-- The closure as a map. -/
def closureMap (definitions bindings contracts : List Value) : Value :=
  .obj [("bindings", .arr bindings), ("contracts", .arr contracts),
    ("definitions", .arr definitions)]

/-- `prepare/3`: the state after its walk, with the selected binding. -/
def prepare (host : Host) (profile closure limits : Value) : Result (State × Walk × Entry) := do
  let limits ← Limits.new limits
  fields closure ["definitions", "bindings", "contracts"]
    "/closure" []
  let definitions ← collection (closure.get "definitions") limits.maxDefinitions
  let bindings ← collection (closure.get "bindings") limits.maxBindings
  let contracts ← collection (closure.get "contracts") limits.maxDependencies
  admitData host limits
    (.obj [("closure", closureMap definitions bindings contracts), ("profile", profile)])
  let profile ← Profile.new host limits profile
  let definitions ← Definitions.new host limits definitions
  let bindings ← Closure.bindings host limits bindings []
  references host limits (.arr contracts) "/closure/contracts"
  let index ← indexOf (entries profile definitions bindings contracts) ∅
  cycles profile index limits
  let state : State := ⟨profile, limits, index,
    closureMap (definitions.map Identified.data) bindings contracts⟩
  let visit := visit state limits.maxDependencies
  let (_, walk) ← visit profile.reference {} "/profile" (.kind .profile)
  let (binding, walk) ← visit (profile.data.get "binding") walk "/binding" (.kind .binding)
  fingerprintFields (profile.data.get "fingerprint") (binding.data.get "capture_fields")
  let walk ← dependencies visit (items (profile.data.get "requires")) walk "/requires" .dependency
  .ok (state, walk, binding)

def definition (state : State) (reference : Value) (walk : Walk) (path : Text) : Result (Entry × Walk) :=
  visit state state.limits.maxDependencies reference walk path (.kind .definition)

/-- `references/1`, by id and version. -/
def references (walk : Walk) : List Value := walk.refs.toList.map Prod.snd

end Closure

/-! ## What is retained -/

theorem member_eq (key : Text) (members : List (Text × Value)) :
    Value.member key members = (Dict.find key members).getD .null := by
  induction members with
  | nil => rfl
  | cons m rest ih =>
    simp only [Value.member, Dict.find, ih]
    split_ifs <;> rfl

theorem find_filter {key : Text} {p : Text × Value → Bool} (hp : ∀ v, p (key, v) = true)
    (l : List (Text × Value)) : Dict.find key (l.filter p) = Dict.find key l := by
  induction l with
  | nil => rfl
  | cons m rest ih =>
    obtain ⟨k, v⟩ := m
    by_cases hk : k = key
    · subst hk
      simp [hp v, Dict.find]
    · by_cases h : p (k, v) = true <;> simp [h, Dict.find, hk, ih]

theorem Reader.new_eq_ok {host : Host} {limits : Limits} {kind : Reader.Kind} {data : Value}
    {x : Identified} (h : Reader.new host limits kind data = .ok x) : x.data = data ∧
      Reader.validate host limits kind data = .ok () ∧ keyTexts x.reference = keyTexts x.data := by
  unfold Reader.new at h
  split at h
  · rename_i members
    simp only [bind_eq_ok, exists_unit] at h
    obtain ⟨-, hv, semantic, -, ⟨⟩⟩ := h
    refine ⟨rfl, hv, ?_⟩
    have hget : ∀ key ∈ [("id" : Text), "version"],
        (Identified.reference ⟨.obj members, semantic⟩).get key = (Value.obj members).get key := by
      intro key hkey
      have hne : key ≠ "sha256" := by
        rintro rfl
        revert hkey
        decide
      simp only [Identified.reference, takeMembers, putMember, Value.get, member_eq, Members.find_put,
        if_neg hne]
      rw [find_filter fun v => by simpa using hkey]
    simp [keyTexts, identityKey, hget _ mem_cons_self, hget _ (mem_cons_of_mem _ mem_cons_self)]
  · cases h

theorem Definitions.new_eq_ok {host : Host} {limits : Limits} {values : List Value}
    {ds : List Identified} (h : Definitions.new host limits values = .ok ds) :
    (ds.map Identified.data).Perm values ∧ ∀ d ∈ ds, keyTexts d.reference = keyTexts d.data := by
  have loop : ∀ {vs acc out}, Definitions.new.definitions host limits vs acc = .ok out →
      (∀ d ∈ acc, keyTexts d.reference = keyTexts d.data) →
      (out.map Identified.data).Perm (vs ++ acc.map Identified.data) ∧
        ∀ d ∈ out, keyTexts d.reference = keyTexts d.data := by
    intro vs
    induction vs with
    | nil =>
      rintro acc out ⟨⟩ hacc
      exact ⟨.rfl, hacc⟩
    | cons v vs ih =>
      intro acc out h hacc
      rw [Definitions.new.definitions, bind_eq_ok] at h
      obtain ⟨d, hd, h⟩ := h
      obtain ⟨rfl, -, hkey⟩ := Reader.new_eq_ok hd
      obtain ⟨hperm, hout⟩ := ih h (forall_mem_cons.mpr ⟨hkey, hacc⟩)
      exact ⟨hperm.trans perm_middle, hout⟩
  simp only [Definitions.new, bind_eq_ok, exists_unit] at h
  obtain ⟨-, -, checked, hc, -, ⟨⟩⟩ := h
  obtain ⟨hperm, hkeys⟩ := loop hc (by simp)
  have hsort := sortBy_perm (fun d : Identified => keyTexts d.data) checked
  rw [map_nil, append_nil] at hperm
  exact ⟨(hsort.map _).trans hperm, fun d hd => hkeys d (hsort.mem_iff.mp hd)⟩

/-- The definition that a closure holds under the id and the version of a reference. -/
def definitionOf (closure reference : Value) : Value :=
  ((items (closure.get "definitions")).find? fun d => keyTexts d = keyTexts reference).getD .null

namespace Closure

theorem items_of_collection {values : Value} {maximum : Nat} {l : List Value}
    (h : collection values maximum = .ok l) : items values = l := by
  unfold collection at h
  split at h
  · split_ifs at h
    exact Outcome.ok.inj h
  · cases h

theorem indexOf_eq_ok {k : List Text} {e : Entry} : ∀ {l : List Entry} {index index' : Index},
    indexOf l index = .ok index' → (index'[k]? = some e ↔ index[k]? = some e ∨ e ∈ l ∧ keyTexts e.ref = k)
  | [], _, _, h => by
    cases h
    simp
  | entry :: rest, index, index', h => by
    rw [indexOf] at h
    split_ifs at h with hc
    simp only [indexOf_eq_ok h]
    grind

theorem visit_eq_ok {state : State} {fuel : Nat} {reference : Value} {walk next : Walk} {path : Text}
    {expected : Expected} {entry : Entry}
    (h : visit state fuel reference walk path expected = .ok (entry, next)) :
    state.index[keyTexts reference]? = some entry ∧ entry.ref = reference ∧
      allowed entry.kind expected = true := by
  unfold visit lookup at h
  simp only [bind_eq_ok, exists_unit, require_eq_ok] at h
  obtain ⟨found, hl, ha, h⟩ := h
  obtain rfl : found = entry := by
    split at h
    · cases h
    · exact congrArg Prod.fst (Outcome.ok.inj h)
    · split_ifs at h
      split at h
      · cases h
      · obtain ⟨_, -, h⟩ := bind_eq_ok.mp h
        exact congrArg Prod.fst (Outcome.ok.inj h)
  split at hl
  · cases hl
  · split_ifs at hl with href
    cases hl
    exact ⟨‹_›, href, ha⟩

/-- **What `prepare/3` keeps of its inputs.** -/
theorem prepare_eq_ok {host : Host} {profile closure limits : Value} {state : State} {walk : Walk}
    {binding : Entry} (h : prepare host profile closure limits = .ok (state, walk, binding)) :
    state.profile.data = profile ∧ binding.ref = profile.get "binding" ∧
      (∀ reference, indexed state.index reference = definitionOf closure reference) ∧
      ∃ l, Limits.new limits = .ok l ∧ Reader.validate host l .profile profile = .ok () := by
  simp only [prepare, bind_eq_ok, exists_unit, Prod.exists] at h
  obtain ⟨l, hl, -, definitions, hd, bindings, -, contracts, -, -, p, hp, ds, hds, bs, -, -, index,
    hindex, -, _, _, -, b, _, hb, -, _, -, ⟨⟩⟩ := h
  obtain ⟨rfl, hv, -⟩ := Reader.new_eq_ok hp
  refine ⟨rfl, (visit_eq_ok hb).2.1, fun reference => ?_, l, hl, hv⟩
  have hfound : ∀ e, index[keyTexts reference]? = some e ↔
      e ∈ entries p ds bs contracts ∧ keyTexts e.ref = keyTexts reference := by
    intro e
    rw [indexOf_eq_ok hindex]
    simp
  obtain ⟨hperm, hkeys⟩ := Definitions.new_eq_ok hds
  rw [definitionOf, items_of_collection hd]
  cases hfind : definitions.find? fun d => decide (keyTexts d = keyTexts reference) with
  | some v =>
    obtain ⟨d, hmem, rfl⟩ := mem_map.mp (hperm.mem_iff.mpr (mem_of_find?_eq_some hfind))
    have hkey : keyTexts d.data = keyTexts reference := by simpa using find?_some hfind
    have he := (hfound ⟨.definition, d.data, d.reference⟩).mpr
      ⟨by simpa [entries] using ⟨d, hmem, rfl, rfl⟩, (hkeys d hmem).trans hkey⟩
    simp [indexed, he]
  | none =>
    unfold indexed
    split
    · rename_i he
      obtain ⟨hmem, hkey⟩ := (hfound _).mp he
      obtain ⟨d, hd, rfl, rfl⟩ : ∃ d ∈ ds, d.data = _ ∧ d.reference = _ := by
        simpa [entries] using hmem
      have := find?_eq_none.mp hfind d.data (hperm.mem_iff.mp (mem_map_of_mem hd))
      simp [← hkeys d hd, hkey] at this
    · rfl

end Closure

end Wotex.Profiles
