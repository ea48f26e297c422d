import Wotex.Directory.Service

/-!
# What an operation asks of the repository

`perform_follows` goes once through every operation of the directory: whatever a repository replies,
the requests an operation makes are fetches, inserts of entries it built, conditional requests that
come right after the fetch they rest on, and one batch or list. A property of the requests then needs
one argument per kind of request (`Permits`), not one per operation.

`Built` says how an entry that is written comes about: its document was admitted under the limits of
the service, its registration was created, refreshed or rebuilt at the clock reading, and `Entry.new/4`
accepted both. `Inputs` are the registration inputs of a call: none, JSON from the document, or the
`:registration` option.
-/

namespace Wotex.Directory

open ThingDescriptions

open Json (Value Limits)
open Wotex.Task (Follows follows_lift follows_lift_bind follows_bind_lift follows_ask_bind)

/-! ## Entries that are written -/

/-- The registration inputs a call with these options can come to. -/
structure Inputs (options : Options) (I : Input → Prop) : Prop where
  absent : I .absent
  json : ∀ ms : List (Text × Value), I (.present (.map (ms.map fun m => (m.1, .json m.2))))
  other : I (.present .other)
  option : ∀ raw, options.registration = some raw → I (.present raw)

/-- How an entry that is written at a time comes about, over the entry that was fetched. -/
inductive Built (host : Host) (limits : Limits) (I : Input → Prop) (t : DateTime) :
    Option Entry → Entry → Prop where
  | created {identifier : Text} {d : Document} {r : Registration} {input : Input} {e : Entry}
      (hinput : I input) (hr : Registration.create host.calendar t input .register = .ok r)
      (hd : Json.validate limits (.obj d.entries) = true)
      (he : Entry.new host.core identifier d r 1 .active = .ok e) :
      Built host limits I t none e
  | refreshed {old : Entry} {d : Document} {r : Registration} {input : Input}
      {operation : Operation} {e : Entry} (hinput : I input)
      (hr : old.registration.refresh host.calendar t input operation = .ok r)
      (hd : Json.validate limits (.obj d.entries) = true)
      (he : Entry.new host.core old.identifier d r (old.version + 1) .active = .ok e) :
      Built host limits I t (some old) e
  | patched {old : Entry} {d : Document} {r : Registration} {raw : List (Text × Value)} {e : Entry}
      (hr : old.registration.fromPatch host.calendar t raw .patch = .ok r)
      (hd : Json.validate limits (.obj d.entries) = true)
      (he : Entry.new host.core old.identifier d r (old.version + 1) .active = .ok e) :
      Built host limits I t (some old) e

section

variable {host : Host} {limits : Limits} {I : Input → Prop} {t : DateTime} {old e : Entry}
  {found : Option Entry}

theorem Built.valid (h : Built host limits I t found e) : e.valid host.core = true := by
  cases h with
  | created _ _ _ he => exact Entry.new_valid he
  | refreshed _ _ _ he => exact Entry.new_valid he
  | patched _ _ he => exact Entry.new_valid he

theorem rebuild_eq {r r' : Registration} {values : Registration.Values} {operation : Operation}
    (h : r.rebuild t values operation = .ok r') : r'.created = r.created ∧ r'.modified = t := by
  simp only [Registration.rebuild, bind_eq_ok] at h
  obtain ⟨expires, -, h⟩ := h
  cases h
  exact ⟨rfl, rfl⟩

/-- An entry built over another is its registration rebuilt, at the next version. -/
theorem Built.rebuilt (h : Built host limits I t (some old) e) :
    e.identifier = old.identifier ∧ e.version = old.version + 1 ∧
      ∃ operation values r, old.registration.ensureClock t operation = .ok () ∧
        old.registration.rebuild t values operation = .ok r ∧ e.registration = r.forStorage := by
  cases h with
  | @refreshed _ d r input operation _ hinput hr hd he =>
    simp only [Registration.refresh, bind_eq_ok, exists_unit] at hr
    obtain ⟨hclock, values, -, hr⟩ := hr
    obtain ⟨-, rfl⟩ := Entry.new_eq_ok.mp he
    exact ⟨rfl, rfl, operation, values, r, hclock, hr, rfl⟩
  | @patched _ d r raw _ hr hd he =>
    simp only [Registration.fromPatch, bind_eq_ok, exists_unit] at hr
    obtain ⟨hclock, values, -, hr⟩ := hr
    obtain ⟨-, rfl⟩ := Entry.new_eq_ok.mp he
    exact ⟨rfl, rfl, .patch, values, r, hclock, hr, rfl⟩

end

/-! ## Requests of a call -/

/-- What a property of the requests of a call has to allow. -/
structure Permits (host : Host) (limits : Limits) (I : Input → Prop) (ports : Ports)
    (guard : Option (Request × Reply) → Request → Prop) : Prop where
  fetch : ∀ last identifier, guard last (.fetch identifier)
  insert : ∀ last t e, ports.now = some t → Built host limits I t none e → guard last (.insert e)
  replace : ∀ t old e, ports.now = some t → Built host limits I t (some old) e →
    guard (some (.fetch old.identifier, .entry old)) (.replace e old.version)
  delete : ∀ old : Entry,
    guard (some (.fetch old.identifier, .entry old)) (.delete old.identifier old.version)
  expireDue : ∀ last cutoff limit strategy, guard last (.expireDue cutoff limit strategy)

section

variable {host : Host} {service : Service} {ports : Ports} {context : Context} {options : Options}
  {I : Input → Prop} {guard : Option (Request × Reply) → Request → Prop} {α : Type}
  {last : Option (Request × Reply)} {identifier : Text} {operation : Operation} {e existing : Entry}
  {t : DateTime}

section

variable (hp : Permits host service.limits I ports guard)
include hp

theorem follows_fetchOptional {f : Option Entry → Call α} (hnone : ∀ last, Follows guard last (f none))
    (hsome : ∀ e, e.identifier = identifier →
      Follows guard (some (.fetch identifier, .entry e)) (f (some e))) :
    Follows guard last (fetchOptional host identifier operation >>= f) := by
  refine follows_ask_bind (hp.fetch _ _) fun reply =>
    follows_lift_bind fun found hfound => ?_
  cases reply with
  | entry e =>
    simp only [validateRepositoryEntry, bind_eq_ok] at hfound
    obtain ⟨e', he, hfound⟩ := hfound
    split_ifs at he with hv
    cases he
    cases hfound
    exact hsome e hv.2
  | error reason =>
    cases found with
    | none => exact hnone _
    | some e => cases reason <;> cases hfound
  | _ =>
    cases found with
    | none => exact hnone _
    | some e => cases hfound

theorem follows_fetch {f : Entry → Call α} (h : ∀ e, e.identifier = identifier →
      Follows guard (some (.fetch identifier, .entry e)) (f e)) :
    Follows guard last (fetch host identifier operation >>= f) := by
  unfold fetch
  rw [Task.bind_assoc]
  refine follows_fetchOptional hp (fun last => ?_) fun e he => ?_
  · exact follows_lift _
  · exact h e he

theorem follows_insertEntry {f : Entry → Result α} (ht : ports.now = some t)
    (he : Built host service.limits I t none e) : Follows guard last
      (insertEntry host e operation >>= fun stored => Task.lift (f stored)) := by
  refine follows_bind_lift f (follows_ask_bind ?_ fun _ => follows_lift _)
  rw [Entry.forStorage_of_valid he.valid]
  exact hp.insert _ t e ht he

theorem follows_replaceEntry {f : Entry → Result α} (ht : ports.now = some t)
    (hid : existing.identifier = identifier) (he : Built host service.limits I t (some existing) e) :
    Follows guard (some (.fetch identifier, .entry existing))
      (replaceEntry host e existing.version operation >>= fun stored => Task.lift (f stored)) := by
  refine follows_bind_lift f (follows_ask_bind ?_ fun _ => follows_lift _)
  rw [Entry.forStorage_of_valid he.valid, ← hid]
  exact hp.replace t existing e ht he

end

theorem now_eq (h : now ports operation = .ok t) : ports.now = some t := by
  unfold now at h
  split at h
  · exact Outcome.ok.inj h ▸ ‹_›
  · cases h

theorem expectedVersion_eq {version : Nat}
    (h : expectedVersion existing options operation = .ok version) :
    version = existing.version := by
  unfold expectedVersion at h
  split at h
  · exact (Outcome.ok.inj h).symm
  · split_ifs at h
    exact (Outcome.ok.inj h).symm

variable {d : Document}

/-- The document of a submission is admitted under the limits, and its registration is JSON. -/
theorem normalizeAndExtract_ok (hi : Inputs options I) {x : Document × Input}
    (h : normalizeAndExtract host service.limits d operation = .ok x) :
    Json.validate service.limits (.obj x.1.entries) = true ∧ I x.2 := by
  simp only [normalizeAndExtract, bind_eq_ok, exists_unit] at h
  obtain ⟨-, h⟩ := h
  split at h
  · simp only [bind_eq_ok, exists_unit, report_eq_ok, ThingDescription.fromMap_eq_ok] at h
    obtain ⟨hm, hx⟩ := h
    cases hx
    exact ⟨hm.1, hi.absent⟩
  · simp only [bind_eq_ok, exists_unit, report_eq_ok, ThingDescription.fromMap_eq_ok] at h
    obtain ⟨-, hm, hx⟩ := h
    cases hx
    refine ⟨hm.1, ?_⟩
    split
    · exact hi.json _
    · exact hi.other

theorem registrationInput_ok (hi : Inputs options I) {extracted input : Input} (he : I extracted)
    (h : registrationInput extracted options operation = .ok input) : I input := by
  unfold registrationInput at h
  split at h
  · exact Outcome.ok.inj h ▸ he
  · rename_i raw hraw
    cases h
    exact hi.option _ hraw
  · cases h

/-! ## Each operation -/

variable (hp : Permits host service.limits I ports guard) (hi : Inputs options I)

include hp

section

variable {input : Input} (ht : ports.now = some t) (hinput : I input)
  (hd : Json.validate service.limits (.obj d.entries) = true)
include ht hinput hd

theorem follows_create : Follows guard last (create host identifier d input t) := by
  refine follows_lift_bind fun r hr => follows_lift_bind fun entry he => ?_
  exact follows_insertEntry hp ht (.created hinput hr hd he)

theorem follows_reregister (hid : existing.identifier = identifier) :
    Follows guard (some (.fetch identifier, .entry existing))
      (reregister host identifier d input t existing) := by
  refine follows_lift_bind fun r hr => follows_lift_bind fun entry he => ?_
  subst hid
  exact follows_replaceEntry hp ht rfl (.refreshed hinput hr hd he)

end

theorem follows_delete : Follows guard none (delete host ports context identifier options) := by
  iterate 4 refine follows_lift_bind fun _ _ => ?_
  refine follows_fetch hp fun existing hid => ?_
  refine follows_lift_bind fun version hv => ?_
  obtain rfl := expectedVersion_eq hv
  refine follows_bind_lift _ (follows_ask_bind ?_ fun _ => follows_lift _)
  rw [← hid]
  exact hp.delete existing

theorem follows_expire : Follows guard none (expire host service ports context options) := by
  iterate 6 refine follows_lift_bind fun _ _ => ?_
  refine follows_ask_bind (hp.expireDue _ _ _ _) fun _ => follows_lift_bind fun _ _ => ?_
  exact follows_lift_bind fun _ _ => follows_lift _

theorem follows_get : Follows guard none (get host ports context identifier) := by
  iterate 3 refine follows_lift_bind fun _ _ => ?_
  refine follows_fetch hp fun e _ => ?_
  exact follows_lift_bind fun _ _ => follows_lift_bind fun _ _ => follows_lift _

theorem follows_patch {p : Option (Dict Value)} :
    Follows guard none (patch host service ports context identifier p options) := by
  iterate 5 refine follows_lift_bind fun _ _ => ?_
  refine follows_fetch hp fun existing hid => ?_
  refine follows_lift_bind fun t ht => follows_lift_bind fun _ _ =>
    follows_lift_bind fun version hv => follows_lift_bind fun entry he => ?_
  obtain rfl := expectedVersion_eq hv
  subst hid
  simp only [patched, bind_eq_ok, exists_unit] at he
  obtain ⟨merged, -, extracted, hextracted, -, r, hr, he⟩ := he
  simp only [fromEnrichedMap, bind_eq_ok, exists_unit,
    report_eq_ok, ThingDescription.fromMap_eq_ok] at hextracted
  obtain ⟨raw, -, -, ⟨hd, -⟩, hextracted⟩ := hextracted
  cases hextracted
  exact follows_replaceEntry hp (now_eq ht) rfl (.patched hr hd he)

include hi

theorem follows_register : Follows guard none (register host service ports context d options) := by
  iterate 3 refine follows_lift_bind fun _ _ => ?_
  refine follows_lift_bind fun extracted hextracted => follows_lift_bind fun input hinput =>
    follows_lift_bind fun t ht => ?_
  obtain ⟨hd, hx⟩ := normalizeAndExtract_ok hi hextracted
  have hI := registrationInput_ok hi hx hinput
  -- a document without an identifier is created under a generated one
  have hanonymous : Follows guard none (Task.lift (generateIdentifier ports .register) >>=
      fun identifier => Task.lift (putId host service.limits extracted.1
        identifier .register) >>= fun identified => create host identifier identified input t) := by
    refine follows_lift_bind fun _ _ => follows_lift_bind fun identified hid => ?_
    simp only [putId, bind_eq_ok, exists_unit, report_eq_ok, ThingDescription.fromMap_eq_ok] at hid
    obtain ⟨⟨hput, -⟩, hid⟩ := hid
    cases hid
    exact follows_create hp (now_eq ht) hI hput
  split
  · exact hanonymous
  · exact hanonymous
  · refine follows_lift_bind fun _ _ => follows_lift_bind fun _ _ => ?_
    exact follows_fetchOptional hp (fun _ => follows_create hp (now_eq ht) hI hd) fun e he =>
      follows_reregister hp (now_eq ht) hI hd he
  · exact follows_lift _

theorem follows_replace : Follows guard none (replace host service ports context identifier d options) := by
  iterate 4 refine follows_lift_bind fun _ _ => ?_
  refine follows_fetch hp fun existing hid => ?_
  refine follows_lift_bind fun t ht => follows_lift_bind fun _ _ =>
    follows_lift_bind fun version hv => follows_lift_bind fun entry he => ?_
  obtain rfl := expectedVersion_eq hv
  subst hid
  simp only [replacement, bind_eq_ok, exists_unit] at he
  obtain ⟨extracted, hextracted, -, input, hinput, r, hr, he⟩ := he
  obtain ⟨hd, hx⟩ := normalizeAndExtract_ok hi hextracted
  exact follows_replaceEntry hp (now_eq ht) rfl (.refreshed (registrationInput_ok hi hx hinput) hr hd he)

end

/-- The options of a command that carries registration input. -/
def Command.options : Command → Options
  | .register _ options | .replace _ _ options => options
  | _ => {}

/-- A command that reads pages. -/
def Command.lists : Command → Bool
  | .list _ | .query _ => true
  | _ => false

/-- **Every request of an operation is of a permitted kind.** -/
theorem perform_follows {host : Host} {service : Service} {i : Invocation} {I : Input → Prop}
    {guard : Option (Request × Reply) → Request → Prop}
    (hp : Permits host service.limits I i.ports guard) (hi : Inputs i.command.options I)
    (hl : i.command.lists = true → ∀ last q c t, guard last (.list q c t)) :
    Follows guard none (perform host service i) := by
  obtain ⟨command, context, ports⟩ := i
  have hquery : (∀ last q c t, guard last (.list q c t)) → ∀ q,
      Follows guard none (query host service ports context q) := fun hl q => by
    iterate 5 refine follows_lift_bind fun _ _ => ?_
    refine follows_ask_bind (hl _ _ _ _) fun _ => follows_lift_bind fun _ _ => ?_
    exact follows_lift_bind fun _ _ => follows_lift _
  cases command with
  | register d options => exact follows_bind_lift _ (follows_register hp hi)
  | get identifier => exact follows_bind_lift _ (follows_get hp)
  | replace identifier d options => exact follows_bind_lift _ (follows_replace hp hi)
  | patch identifier p options => exact follows_bind_lift _ (follows_patch hp)
  | delete identifier options => exact follows_bind_lift _ (follows_delete hp)
  | list options =>
    refine follows_bind_lift _ (follows_lift_bind fun _ _ => ?_)
    exact follows_lift_bind fun _ _ => hquery (hl rfl) _
  | query q => exact follows_bind_lift _ (hquery (hl rfl) q)
  | expire options => exact follows_bind_lift _ (follows_expire hp)

end Wotex.Directory
