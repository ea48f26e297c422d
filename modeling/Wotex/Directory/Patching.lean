import Wotex.Directory.Paging

/-!
# What a patch changes

`patch/5` merges the patch into the enriched document (Discovery context and registration added),
takes the registration out again and stores the rest. `patch_cases` says what an accepted call did.

The registration member comes off again, the Discovery context does not: `put_discovery_context/1`
adds it to a stored document that lacks it, and nothing removes it. So the stored document is the
RFC 7396 result **iff** the context was there before or the patch names `@context`
(`patch_framed_iff`); the empty patch already adds it (`empty_patch_adds_context`). Everything else
about the patch is as it should be: `created` stays, `modified` is the clock reading and not earlier,
no member of the patch reaches them, and the new entry is valid.
-/

namespace Wotex.Directory

open ThingDescription ThingDescriptions Rfc7396

open Json (Value)
open ThingDescriptions (registrationKey contextKey discoveryContext contextPresent appendContext)

/-! ## Adding the context -/

/-- Adding the context changes nothing exactly where it is there. -/
theorem appendContext_eq_iff (v : Value) : appendContext v = v ↔ contextPresent (some v) = true := by
  unfold appendContext contextPresent
  cases v with
  | str c =>
    by_cases h : c = discoveryContext <;> simp
  | arr cs =>
    by_cases h : cs.contains (.str discoveryContext) = true
    · simp
    · simp only [h, Bool.false_eq_true, if_false, iff_false, Value.arr.injEq]
      exact fun heq => absurd (congrArg List.length heq) (by simp)
  | _ => simp

/-- What the enriched document holds under a key other than `registration`. -/
theorem get_enrichedMap (host : Host) (d : Document) (r : Registration) {k : Text}
    (hk : k ≠ registrationKey) (hc : k ≠ contextKey) :
    (enrichedMap host d r).get k = d.get k := by
  rw [enrichedMap, Dict.get_put, if_neg hk, putDiscoveryContext, Dict.get_put, if_neg hc]

theorem get_enrichedMap_context (host : Host) (d : Document) (r : Registration) {v : Value}
    (hv : d.get contextKey = some v) :
    (enrichedMap host d r).get contextKey = some (appendContext v) := by
  rw [enrichedMap, Dict.get_put, if_neg (by decide), putDiscoveryContext, Dict.get_put, if_pos rfl, hv]

/-! ## An accepted patch -/

section

variable {host : Host} {service : Service} {ports : Ports} {context : Context}
  {s s' : EtsRepository} {identifier : Text} {patch : Dict Value} {options : Options}
  {m : Mutation} {α : Type}

/-- A fetch over the repository returns what is stored, where that is valid. -/
theorem exec_fetch {operation : Operation} {f : Entry → Call α} {a : α}
    (h : Task.exec (EtsRepository.serve host) s (fetch host identifier operation >>= f) =
      (.ok a, s')) : ∃ e, s.table.lookup identifier = some e ∧ e.valid host.core = true ∧
      Task.exec (EtsRepository.serve host) s (f e) = (.ok a, s') := by
  rw [fetch, fetchOptional, Task.bind_assoc, Task.bind_assoc, Task.exec_ask_bind] at h
  rw [EtsRepository.serve] at h
  cases hl : s.table.lookup identifier with
  | none =>
    rw [hl] at h
    cases h
  | some e =>
    rw [hl] at h
    simp only [Task.exec_lift_bind_eq_ok, bind_eq_ok, validateRepositoryEntry] at h
    obtain ⟨found, ⟨e', he, hfound⟩, e'', he'', h⟩ := h
    split_ifs at he with hv
    cases he
    cases hfound
    cases he''
    exact ⟨e, rfl, hv.1, h⟩

/-- A replacement that is stored is under its identifier afterwards. -/
theorem exec_replaceEntry {e : Entry} {version : Nat} {operation : Operation}
    {f : Entry → Result α} {a : α} (he : e.valid host.core = true)
    (h : Task.exec (EtsRepository.serve host) s
      (replaceEntry host e version operation >>= fun stored => Task.lift (f stored)) = (.ok a, s')) :
    f e = .ok a ∧ s'.table.lookup e.identifier = some e := by
  rw [replaceEntry, Task.bind_assoc, Task.exec_ask_bind, Entry.forStorage_of_valid he] at h
  have hserves := serve_serves host s (.replace e version)
  generalize EtsRepository.serve host s (.replace e version) = served at h hserves
  obtain ⟨reply, after⟩ := served
  cases hserves with
  | nothing hc =>
    simp only [Task.exec_lift_bind_eq_ok] at h
    obtain ⟨stored, hstored, -⟩ := h
    cases reply with
    | entry _ => simp [committed] at hc
    | error reason => cases reason <;> cases hstored
    | _ => cases hstored
  | @replace _ stored hl =>
    simp only [Task.exec_lift_bind_eq_ok, validateStoredEntry] at h
    obtain ⟨stored', hstored, h⟩ := h
    rw [if_pos ⟨he, trivial⟩] at hstored
    cases hstored
    obtain ⟨hf, rfl⟩ := Prod.mk.inj h
    refine ⟨hf, ?_⟩
    rw [Entry.forStorage_of_valid he, Table.lookup_put, if_pos rfl]

/-- **What an accepted patch did**: it found a valid entry that was active, and stored what `patched`
makes of it. -/
theorem patch_cases (h : Task.exec (EtsRepository.serve host) s
      (Directory.patch host service ports context identifier (some patch) options) = (.ok m, s')) :
    ∃ old t, s.table.lookup identifier = some old ∧ old.valid host.core = true ∧
      ports.now = some t ∧ old.active t = true ∧
      patched host service identifier patch t old = .ok m.entry ∧
      s'.table.lookup identifier = some m.entry := by
  simp only [Directory.patch, Task.exec_lift_bind_eq_ok] at h
  obtain ⟨_, -, _, -, _, -, p, hp, _, -, h⟩ := h
  cases hp
  obtain ⟨old, hold, hvalid, h⟩ := exec_fetch h
  simp only [Task.exec_lift_bind_eq_ok] at h
  obtain ⟨t, ht, _, hactive, version, -, e, he, h⟩ := h
  have hev : e.valid host.core = true ∧ e.identifier = identifier := by
    simp only [patched, bind_eq_ok, exists_unit] at he
    obtain ⟨merged, -, extracted, -, -, r, -, he⟩ := he
    exact ⟨Entry.new_valid he, by rw [(Entry.new_eq_ok.mp he).2]⟩
  obtain ⟨hm, hstored⟩ := exec_replaceEntry
    (f := fun stored => .ok (⟨.patch, .patched, stored⟩ : Mutation)) hev.1 h
  cases hm
  have hnow : ports.now = some t := by
    unfold now at ht
    split at ht
    · exact Outcome.ok.inj ht ▸ ‹_›
    · cases ht
  refine ⟨old, t, hold, hvalid, hnow, by simpa [requireActive] using hactive, he, ?_⟩
  rw [← hev.2]
  exact hstored

theorem patched_eq_ok {t : DateTime} {old new : Entry}
    (h : patched host service identifier patch t old = .ok new) :
    Registration.serverFieldPatch patch = false ∧
      new.thingDescription = (Rfc7396.applyDict (enrichedMap host
        old.thingDescription old.registration) patch).delete registrationKey ∧
      validate host.core new.thingDescription = .ok () ∧
      new.registration.created = old.registration.created ∧ new.registration.modified = t ∧
      old.registration.modified.micros ≤ t.micros ∧ new.registration.retrieved = none ∧
      new.valid host.core = true := by
  simp only [patched, mergePatch, bind_eq_ok, exists_unit, check_eq_ok] at h
  obtain ⟨merged, ⟨hserver, hmerged⟩, extracted, hextracted, -, r, hr, hnew⟩ := h
  obtain rfl := MergePatch.applyDict_eq_rfc hmerged
  simp only [fromEnrichedMap, bind_eq_ok, exists_unit, report_eq_ok, fromMap_eq_ok] at hextracted
  obtain ⟨raw, -, -, ⟨-, hvalid⟩, hextracted⟩ := hextracted
  cases hextracted
  simp only [Registration.fromPatch, bind_eq_ok, exists_unit] at hr
  obtain ⟨hclock, values, -, hr⟩ := hr
  obtain ⟨hcreated, hmodified⟩ := rebuild_eq hr
  have hv := Entry.new_valid hnew
  obtain ⟨-, rfl⟩ := Entry.new_eq_ok.mp hnew
  exact ⟨hserver, rfl, hvalid, hcreated, hmodified, by simpa [Registration.ensureClock] using hclock,
    rfl, hv⟩

theorem valid_document {old : Entry} (h : old.valid host.core = true) :
    (∃ v, old.thingDescription.get contextKey = some v) ∧
      old.thingDescription.get registrationKey = none := by
  have hd := (Entry.valid_iff.mp h).1.2.1
  simp only [Entry.validThingDescription, Bool.and_eq_true, List.isEmpty_iff,
    Option.isNone_iff_eq_none] at hd
  refine ⟨?_, hd.2⟩
  have hc := supportedContext_of_validate (validate_eq_ok.mpr hd.1.1)
  cases hv : old.thingDescription.get contextKey with
  | none => rw [show "@context" = contextKey from rfl, hv] at hc; cases hc
  | some v => exact ⟨v, rfl⟩

/-- Under the context, the two results differ only by the target a patch object would be merged
into; a valid document has no object there. -/
theorem patched_context {old old' : Option Value} {p : Value}
    (h : supportedContext (Rfc7396.patched old (some p)) = true) :
    Rfc7396.patched old (some p) = Rfc7396.patched old' (some p) := by
  cases p with
  | obj ps => simp [Rfc7396.patched, Rfc7396.apply, supportedContext] at h
  | _ => simp [Rfc7396.patched, apply]

/-- **The stored document is the RFC 7396 result iff the context was there or is named.** -/
theorem document_iff {d new : Document} {r : Registration}
    (hctx : ∃ v, d.get contextKey = some v) (hreg : d.get registrationKey = none)
    (hnew : new = (applyDict (enrichedMap host d r) patch).delete
      registrationKey) (hvalid : validate host.core new = .ok ()) :
    new = Rfc7396.applyDict d (patch.delete registrationKey) ↔
      contextPresent (d.get contextKey) = true ∨ patch.get contextKey ≠ none := by
  obtain ⟨v, hv⟩ := hctx
  have hne : contextKey ≠ registrationKey := by decide
  -- both results, read off under each key
  have hleft : ∀ k, new.get k = if k = registrationKey then none else
      Rfc7396.patched ((enrichedMap host d r).get k) (patch.get k) := fun k => by
    rw [hnew, Dict.get_delete, get_applyDict]
  have hright : ∀ k, (Rfc7396.applyDict d (patch.delete registrationKey)).get k =
      if k = registrationKey then none else Rfc7396.patched (d.get k) (patch.get k) := fun k => by
    rw [Rfc7396.get_applyDict, Dict.get_delete]
    by_cases hk : k = registrationKey
    · rw [hk, hreg]
      rfl
    · rw [if_neg hk, if_neg hk]
  have hcontext : new.get contextKey = Rfc7396.patched (some (appendContext v)) (patch.get contextKey) := by
    rw [hleft, if_neg hne, get_enrichedMap_context host d r hv]
  constructor
  · intro heq
    rw [or_iff_not_imp_right, not_ne_iff]
    intro hp
    rw [heq, hright, hv, hp] at hcontext
    rw [hv, ← appendContext_eq_iff]
    exact (Option.some.inj hcontext).symm
  · intro hcond
    refine Dict.ext_get fun k => ?_
    by_cases hk : k = registrationKey
    · rw [hleft, hright, if_pos hk, if_pos hk]
    · by_cases hkc : k = contextKey
      · subst hkc
        rw [hcontext, hright, if_neg hk, hv]
        cases hp : patch.get contextKey with
        | none =>
          have hpresent := hcond.resolve_right (not_not.mpr hp)
          rw [hv] at hpresent
          rw [(appendContext_eq_iff v).mpr hpresent]
        | some p =>
          refine patched_context ?_
          rw [← hp, ← hcontext]
          exact supportedContext_of_validate hvalid
      · rw [hleft, hright, if_neg hk, if_neg hk, get_enrichedMap host d r hk hkc]

/-- A patch that changes only what it names: the document is the RFC 7396 result of the patch without
its registration, `created` stays, `modified` is the time of the call and not earlier, no retrieval
time is stored, the patch names no server field, and the entry is valid. -/
structure Framed (host : Host) (t : DateTime) (old new : Entry) (patch : Dict Value) : Prop where
  document : new.thingDescription = applyDict old.thingDescription (patch.delete registrationKey)
  created : new.registration.created = old.registration.created
  modified : new.registration.modified = t ∧ old.registration.modified.micros ≤ t.micros
  retrieved : new.registration.retrieved = none
  server : Registration.serverFieldPatch patch = false
  valid : new.valid host.core = true

/-- **An accepted patch changes only what it names iff the stored document had the Discovery context
or the patch names `@context`.** -/
theorem patch_framed_iff (h : Task.exec (EtsRepository.serve host) s
      (Directory.patch host service ports context identifier (some patch) options) = (.ok m, s')) :
    ∃ old t, s.table.lookup identifier = some old ∧ ports.now = some t ∧ old.active t = true ∧
      s'.table.lookup identifier = some m.entry ∧
      (Framed host t old m.entry patch ↔
        contextPresent (old.thingDescription.get contextKey) = true ∨ patch.get contextKey ≠ none) := by
  obtain ⟨old, t, hold, hvalid, hnow, hactive, hpatched, hstored⟩ := patch_cases h
  obtain ⟨hserver, hdoc, hnewvalid, hcreated, hmodified, hle, hretrieved, hv⟩ :=
    patched_eq_ok hpatched
  obtain ⟨hctx, hreg⟩ := valid_document hvalid
  refine ⟨old, t, hold, hnow, hactive, hstored, ?_⟩
  rw [← document_iff hctx hreg hdoc hnewvalid]
  exact ⟨Framed.document, fun hd => ⟨hd, hcreated, ⟨hmodified, hle⟩, hretrieved, hserver, hv⟩⟩

end

/-! ## Two lamps that are patched -/

/-- The repository after a document was registered under `urn:lamp`. -/
def registered (d : Document) : EtsRepository :=
  (run plainHost .init [.begins 0 plainService (callAt 1 (.register d {})), .goes 0, .goes 0]).store

/-- A patch of `urn:lamp`, one second later. -/
def patchLamp (d : Document) (patch : Dict Value) : Result Mutation × EtsRepository :=
  Task.exec (EtsRepository.serve plainHost) (registered d)
    (Directory.patch plainHost plainService (callAt 2 (.get [])).ports (callAt 2 (.get [])).context
      "urn:lamp" (some patch) {})

theorem exists_of_toOption {x : Result Mutation × EtsRepository} {β : Type} {f : Mutation → β} {b : β}
    (h : x.1.toOption.map f = some b) : ∃ m, x = (.ok m, x.2) ∧ f m = b := by
  obtain ⟨m, hm, rfl⟩ := Option.map_eq_some_iff.mp h
  exact ⟨m, Prod.ext (Outcome.toOption_eq_some.mp hm) rfl, rfl⟩

/-- A lamp whose document already has the Discovery context. -/
def discoverableLamp : Document :=
  (lamp "lamp").put contextKey
    (.arr [.str tdContext, .str discoveryContext])

/-- A patch of the title. -/
def retitle : Dict Value := Dict.empty.put "title" (.str "desk lamp")

set_option maxRecDepth 100000 in
/-- A new title for a lamp with the Discovery context changes the title only. -/
theorem retitled_lamp_framed : ∃ m s' old t, patchLamp discoverableLamp retitle = (.ok m, s') ∧
    (registered discoverableLamp).table.lookup "urn:lamp" = some old ∧
    Framed plainHost t old m.entry retitle := by
  have haccepted : (patchLamp discoverableLamp retitle).1.toOption.map (fun _ => ()) = some () := by
    decide +kernel
  have hcontext : ((registered discoverableLamp).table.lookup "urn:lamp").map
      (fun e => contextPresent (e.thingDescription.get contextKey)) = some true := by
    decide +kernel
  obtain ⟨m, hm, -⟩ := exists_of_toOption haccepted
  obtain ⟨old, t, hold, -, -, -, hiff⟩ := patch_framed_iff hm
  rw [hold] at hcontext
  exact ⟨m, _, old, t, hm, hold, hiff.mpr (Or.inl (Option.some.inj hcontext))⟩

set_option maxRecDepth 100000 in
/-- The empty patch of a lamp without the Discovery context stores another document: the context is
added to it. -/
theorem empty_patch_adds_context : ∃ m s' old, patchLamp (lamp "lamp") .empty = (.ok m, s') ∧
    (registered (lamp "lamp")).table.lookup "urn:lamp" = some old ∧
    old.thingDescription.get contextKey = some (.str ThingDescription.tdContext) ∧
    m.entry.thingDescription.get contextKey =
      some (.arr [.str ThingDescription.tdContext, .str discoveryContext]) ∧
    ∀ t, ¬ Framed plainHost t old m.entry .empty := by
  have haccepted : (patchLamp (lamp "lamp") .empty).1.toOption.map
      (fun m => m.entry.thingDescription.get contextKey) =
      some (some (.arr [.str ThingDescription.tdContext, .str discoveryContext])) := by
    decide +kernel
  have hstored : ((registered (lamp "lamp")).table.lookup "urn:lamp").map
      (fun e => e.thingDescription.get contextKey) =
      some (some (.str ThingDescription.tdContext)) := by
    decide +kernel
  obtain ⟨m, hm, hnew⟩ := exists_of_toOption haccepted
  obtain ⟨old, hold, hctx⟩ := Option.map_eq_some_iff.mp hstored
  refine ⟨m, _, old, hm, hold, hctx, hnew, fun t hframed => ?_⟩
  have hsame := congrArg (fun d => d.get contextKey) hframed.document
  simp only [Rfc7396.get_applyDict, Dict.get_delete, Dict.get_empty, Rfc7396.patched, hnew, hctx,
    ite_self] at hsame
  exact absurd hsame (by decide)

end Wotex.Directory
