import Wotex.Directory.EtsRepository
import Wotex.Directory.Requests

/-!
# Conditional updates under interleaving

`replace/5`, `patch/5`, a registration over an existing entry and `delete/4` fetch an entry and then
commit under its version; the two requests are separate steps of the repository process. `run` is
any interleaving of the operations of any number of callers over the ETS repository.

* `perform_resting`: every conditional request of an operation goes out right after the fetch it
  rests on, with the version that was fetched, and a replacement is `Derived` from what was fetched.
* `Serves.untouched`, `Serves.grows`: a request that commits nothing under an identifier leaves it as
  it is, and one that does not remove the entry raises its version.
* `updates_kept_iff`: every update of a run replaces exactly the value that was fetched, with nothing
  committed under the identifier in between, **iff** no entry is removed between the fetch and the
  commit of an update. A removed entry that is registered again starts over at version 1, and the
  version cannot tell the two apart (`recreated_entry_overwritten`).
-/

namespace Wotex.Directory

/-! ## What a served request commits -/

/-- The identifiers under which something was committed. -/
def committed : Request → Reply → List Text
  | .insert e, .entry _ => [e.identifier]
  | .replace e _, .entry _ => [e.identifier]
  | .delete identifier _, .done => [identifier]
  | .expireDue _ _ _, .entries es => es.map Entry.identifier
  | _, _ => []

/-- The identifiers whose entry was removed. -/
def removed : Request → Reply → List Text
  | .delete identifier _, .done => [identifier]
  | .expireDue _ _ .purge, .entries es => es.map Entry.identifier
  | _, _ => []

/-- The identifier of a conditional update that was committed. -/
def updated : Request → Reply → Option Text
  | .replace e _, .entry _ => some e.identifier
  | .delete identifier _, .done => some identifier
  | _, _ => none

theorem removed_subset {q : Request} {r : Reply} {k : Text} (h : k ∈ removed q r) : k ∈ committed q r := by
  unfold removed at h
  split at h <;> simp_all [committed]

/-! ## What an operation asks for -/

/-- A replacement that rests on the entry it replaces. -/
structure Derived (old new : Entry) : Prop where
  identifier : new.identifier = old.identifier
  version : new.version = old.version + 1
  created : new.registration.created = old.registration.created
  modified : old.registration.modified.micros ≤ new.registration.modified.micros

/-- An entry that is written is valid, and a conditional request goes out right after the fetch it
rests on. -/
def Rests (host : Host) (last : Option (Request × Reply)) : Request → Prop
  | .insert e => e.valid host.core = true
  | .replace e version => e.valid host.core = true ∧
      ∃ old, last = some (.fetch e.identifier, .entry old) ∧ version = old.version ∧ Derived old e
  | .delete identifier version => ∃ old, last = some (.fetch identifier, .entry old) ∧
      version = old.version
  | _ => True

/-- The requests of a call rest on its fetches. -/
def Resting {α : Type} (host : Host) (last : Option (Request × Reply)) (c : Call α) : Prop :=
  Task.Follows (Rests host) last c

section

variable {host : Host} {service : Service}

theorem Built.derived {limits : Json.Limits} {I : Input → Prop} {t : DateTime} {old e : Entry}
    (h : Built host limits I t (some old) e) : Derived old e := by
  obtain ⟨hid, hversion, operation, values, r, hclock, hr, he⟩ := h.rebuilt
  obtain ⟨hcreated, hmodified⟩ := rebuild_eq hr
  have hle : old.registration.modified.micros ≤ t.micros := by
    simpa [Registration.ensureClock] using hclock
  refine ⟨hid, hversion, ?_, ?_⟩
  · rw [he]
    exact hcreated
  · rw [he]
    show _ ≤ r.modified.micros
    rwa [hmodified]

/-- Resting on a fetch allows every kind of request an operation makes. -/
theorem rests_permits {ports : Ports} {limits : Json.Limits} {I : Input → Prop} :
    Permits host limits I ports (Rests host) where
  fetch _ _ := trivial
  insert _ _ _ _ he := he.valid
  replace _ old e _ he := by
    refine ⟨he.valid, old, ?_, rfl, he.derived⟩
    rw [he.derived.identifier]
  delete old := ⟨old, rfl, rfl⟩
  expireDue _ _ _ _ := trivial

/-- **Every conditional request of an operation rests on a fetch of that operation.** -/
theorem perform_resting (i : Invocation) : Resting host none (perform host service i) := by
  have hinputs : Inputs i.command.options fun _ => True :=
    ⟨trivial, fun _ => trivial, trivial, fun _ _ => trivial⟩
  exact perform_follows rests_permits hinputs fun _ _ _ _ _ => trivial

end

/-! ## What a request does to an identifier -/

variable {f : Entry}

section

open EtsRepository

variable {host : Host} {s s' : EtsRepository} {q : Request} {r : Reply} {k : Text}

/-- **Everything a request can do**: commit nothing and leave the repository as it is, or commit one
of four mutations and advance the revision. -/
inductive Serves (s : EtsRepository) : Request → Reply → EtsRepository → Prop where
  | nothing {q : Request} {r : Reply} (h : committed q r = []) : Serves s q r s
  | insert {e : Entry} (h : s.table.lookup e.identifier = none) :
      Serves s (.insert e) (.entry e) ⟨s.table.put e.forStorage, s.revision + 1⟩
  | replace {e stored : Entry} (h : s.table.lookup e.identifier = some stored) :
      Serves s (.replace e stored.version) (.entry e) ⟨s.table.put e.forStorage, s.revision + 1⟩
  | delete {identifier : Text} {stored : Entry} (h : s.table.lookup identifier = some stored) :
      Serves s (.delete identifier stored.version) .done ⟨s.table.delete identifier, s.revision + 1⟩
  | expire {cutoff : DateTime} {limit : Nat} {strategy : Strategy}
      (h : batch s.table cutoff limit strategy ≠ []) :
      Serves s (.expireDue cutoff limit strategy)
        (.entries ((batch s.table cutoff limit strategy).map fun e => expiredReply e strategy))
        ⟨(batch s.table cutoff limit strategy).foldl (fun t e => EtsRepository.expire t e strategy)
          s.table, s.revision + 1⟩

theorem serve_serves (host : Host) (s : EtsRepository) (q : Request) :
    Serves s q (serve host s q).1 (serve host s q).2 := by
  cases q with
  | fetch identifier =>
    rw [serve]
    split <;> exact .nothing rfl
  | insert e =>
    rw [serve]
    split
    · exact .nothing rfl
    · rename_i h
      exact .insert h
  | replace e version =>
    rw [serve]
    split
    · exact .nothing rfl
    · rename_i stored h
      split_ifs with hv
      · exact .nothing rfl
      · obtain rfl := not_ne_iff.mp hv
        exact .replace h
  | delete identifier version =>
    rw [serve]
    split
    · exact .nothing rfl
    · rename_i stored h
      split_ifs with hv
      · exact .nothing rfl
      · obtain rfl := not_ne_iff.mp hv
        exact .delete h
  | list query cursor activeAt => exact .nothing rfl
  | expireDue cutoff limit strategy =>
    rw [serve]
    split_ifs with h
    · exact .nothing (by simp [committed, h])
    · exact .expire h

@[simp] theorem identifier_expiredReply (e : Entry) (strategy : Strategy) :
    (expiredReply e strategy).identifier = e.identifier := by
  cases strategy <;> rfl

/-- **A request that commits nothing under an identifier leaves it as it is.** -/
theorem Serves.untouched (h : Serves s q r s') (hk : k ∉ committed q r) :
    s'.table.lookup k = s.table.lookup k := by
  cases h with
  | nothing _ => rfl
  | @insert e _ | @replace e _ _ =>
    have hne : k ≠ e.forStorage.identifier := by simpa [committed] using hk
    rw [Table.lookup_put, if_neg hne]
  | @delete identifier _ _ =>
    have hne : k ≠ identifier := by simpa [committed] using hk
    rw [Table.lookup_delete, if_neg hne]
  | @expire cutoff limit strategy _ =>
    refine lookup_foldl_expire_of_notMem strategy _ _ ?_
    simpa [committed] using hk

/-- **A request that commits without removing raises the version.** -/
theorem Serves.grows (h : Serves s q r s') {last : Option (Request × Reply)} (hrests : Rests host last q)
    (hc : k ∈ committed q r) (hr : k ∉ removed q r) (hf : s.table.lookup k = some f) :
    ∃ g, s'.table.lookup k = some g ∧ f.version < g.version := by
  cases h with
  | nothing h => exact absurd (h ▸ hc) List.not_mem_nil
  | @insert e h =>
    obtain rfl : k = e.identifier := by simpa [committed] using hc
    exact absurd (h.symm.trans hf) (by simp)
  | @replace e stored h =>
    obtain ⟨hvalid, old, -, hv, hd⟩ := hrests
    obtain rfl : k = e.identifier := by simpa [committed] using hc
    obtain rfl : stored = f := Option.some.inj (h.symm.trans hf)
    refine ⟨e, ?_, ?_⟩
    · rw [Entry.forStorage_of_valid hvalid, Table.lookup_put, if_pos rfl]
    · rw [hd.version, ← hv]
      exact Nat.lt_succ_self _
  | @delete identifier stored h => exact absurd hc hr
  | @expire cutoff limit strategy _ =>
    obtain ⟨e, he, rfl⟩ : ∃ e ∈ batch s.table cutoff limit strategy, e.identifier = k := by
      simpa [committed] using hc
    obtain rfl : e = f := Option.some.inj ((mem_batch he).1.symm.trans hf)
    have hafter := lookup_foldl_expire strategy _ s.table (batch_sorted s.table cutoff limit strategy) he
    cases strategy with
    | purge => exact absurd hc hr
    | retain => exact ⟨expiredEntry e, hafter, Nat.lt_succ_self _⟩

end

/-! ## Runs -/

/-- A turn: a caller begins a call of the directory, or its next request is served. -/
inductive Turn where
  | begins (caller : Nat) (service : Service) (call : Invocation)
  | goes (caller : Nat)

/-- The move of a turn. -/
def Turn.move (host : Host) : Turn → Move Nat Request Reply (Result Response)
  | .begins caller service call => .start caller (perform host service call)
  | .goes caller => .serve caller

/-- The events of directory calls over the ETS repository. -/
abbrev Events := List (Event Nat EtsRepository Request Reply)

/-- Directory calls interleaved over the ETS repository. -/
def run (host : Host) (s : EtsRepository) (turns : List Turn) :
    Clients Nat EtsRepository Request Reply (Result Response) :=
  Clients.run (EtsRepository.serve host) s (turns.map (Turn.move host))

variable (events : Events)

/-- The event at `i` is the fetch, of the entry `f`, on which a request of the caller at `j` rests. -/
def Fetched (i j caller : Nat) (identifier : Text) (f : Entry) : Prop :=
  i < j ∧ (∃ e, events[i]? = some e ∧ e.caller = caller ∧ e.request = .fetch identifier ∧
      e.reply = .entry f) ∧
    ∀ k e, i < k → k < j → events[k]? = some e → e.caller ≠ caller

/-- No event strictly between two others has the identifier in `what`. -/
def Clear (what : Request → Reply → List Text) (i j : Nat) (identifier : Text) :
    Prop :=
  ∀ k e, i < k → k < j → events[k]? = some e → identifier ∉ what e.request e.reply

/-- Every update replaces exactly the value its caller fetched: that value is the one stored when the
update is served, nothing was committed under the identifier in between, and a replacement is derived
from it. -/
def Kept : Prop :=
  ∀ j e identifier, events[j]? = some e → updated e.request e.reply = some identifier →
    ∃ i f, Fetched events i j e.caller identifier f ∧ e.before.table.lookup identifier = some f ∧
      Clear events committed i j identifier ∧
      ∀ g version, e.request = .replace g version → Derived f g

/-- No entry is removed between the fetch and the commit of an update of it. -/
def Undisturbed : Prop :=
  ∀ i j e identifier f, events[j]? = some e → updated e.request e.reply = some identifier →
    Fetched events i j e.caller identifier f → Clear events removed i j identifier

section

variable {host : Host} {s : EtsRepository} {turns : List Turn}

theorem run_tracked (host : Host) (s : EtsRepository) (turns : List Turn) :
    Clients.Tracked (EtsRepository.serve host) (Rests host) (run host s turns) := by
  refine Clients.run_tracked fun c call h => ?_
  obtain ⟨turn, -, hturn⟩ := List.mem_map.mp h
  cases turn with
  | begins caller service i =>
    obtain ⟨rfl, rfl⟩ := Move.start.inj hturn
    exact perform_resting i
  | goes caller => cases hturn

variable {identifier : Text}

/-- An update that was served: the fetch it rests on, and what its commit found. -/
theorem updated_cases {j : Nat} {e : Event Nat EtsRepository Request Reply}
    (he : (run host s turns).events[j]? = some e) (hu : updated e.request e.reply = some identifier) :
    ∃ i f stored, Fetched (run host s turns).events i j e.caller identifier f ∧
      e.before.table.lookup identifier = some stored ∧ stored.version = f.version ∧
      ∀ g version, e.request = .replace g version → Derived f g := by
  have ht := run_tracked host s turns
  obtain ⟨last, hlatest, hrests⟩ := ht.events j e he
  have hserves := serve_serves host e.before e.request
  rw [← (ht.served j e he).1] at hserves
  obtain ⟨caller, before, request, reply⟩ := e
  dsimp only at hu hlatest hrests hserves ⊢
  generalize (EtsRepository.serve host before request).2 = after at hserves
  cases hserves with
  | nothing h =>
    unfold updated at hu
    split at hu <;> simp [committed] at h hu
  | insert h => cases hu
  | @replace g stored h =>
    obtain ⟨-, old, rfl, hv, hd⟩ := hrests
    cases hu
    obtain ⟨i, e, hij, hei, hc, hq, hr, hclear⟩ := hlatest
    refine ⟨i, old, stored, ⟨hij, ⟨e, hei, hc, hq, hr⟩, hclear⟩, h, hv, ?_⟩
    rintro g' version ⟨⟩
    exact hd
  | @delete id stored h =>
    obtain ⟨old, rfl, hv⟩ := hrests
    cases hu
    obtain ⟨i, e, hij, hei, hc, hq, hr, hclear⟩ := hlatest
    refine ⟨i, old, stored, ⟨hij, ⟨e, hei, hc, hq, hr⟩, hclear⟩, h, hv, ?_⟩
    rintro g' version ⟨⟩
  | expire h => cases hu

/-- A fetch that returned an entry found it stored, and left the repository as it was. -/
theorem fetched_stored {i j caller : Nat}
    (h : Fetched (run host s turns).events i j caller identifier f) :
    ((run host s turns).storeAt (i + 1)).table.lookup identifier = some f := by
  obtain ⟨-, ⟨e, hei, -, hq, hr⟩, -⟩ := h
  obtain ⟨hreply, hafter⟩ := (run_tracked host s turns).served i e hei
  rw [hafter, hq]
  rw [hr, hq, EtsRepository.serve] at hreply
  rw [EtsRepository.serve]
  split at hreply
  · rename_i stored hl
    obtain rfl := Reply.entry.inj hreply
    exact hl
  · cases hreply

/-- The fetch an update rests on is the latest event of its caller, so there is only one. -/
theorem Fetched.unique {events : Events} {i i' j caller : Nat} {f' : Entry}
    (h : Fetched events i j caller identifier f) (h' : Fetched events i' j caller identifier f') :
    i = i' := by
  obtain ⟨hij, ⟨e, hei, hc, -⟩, hclear⟩ := h
  obtain ⟨hij', ⟨e', hei', hc', -⟩, hclear'⟩ := h'
  rcases Nat.lt_trichotomy i i' with hlt | heq | hgt
  · exact absurd hc' (hclear i' e' hlt hij' hei')
  · exact heq
  · exact absurd hc (hclear' i e hgt hij hei)

/-- What is stored under an identifier while nothing removes it: some entry, at no lower a version,
and the fetched one itself as long as nothing was committed. -/
def Held (events : Events) (i : Nat) (identifier : Text) (f : Entry) (k : Nat) (s : EtsRepository) : Prop :=
  ∃ g, s.table.lookup identifier = some g ∧ f.version ≤ g.version ∧
    (g.version = f.version → g = f ∧ Clear events committed i k identifier)

/-- **Between a fetch and a commit without a removal, the entry is held.** -/
theorem held_of_clear {i j caller : Nat}
    (hf : Fetched (run host s turns).events i j caller identifier f)
    (hj : j ≤ (run host s turns).events.length)
    (hclear : Clear (run host s turns).events removed i j identifier) :
    Held (run host s turns).events i identifier f j ((run host s turns).storeAt j) := by
  have ht := run_tracked host s turns
  refine ht.stretch_rule (P := Held (run host s turns).events i identifier f) (i := i + 1) ?_ hj hf.1 ?_
  · refine ⟨f, fetched_stored hf, Nat.le_refl _, fun _ => ⟨rfl, fun k e h1 h2 => ?_⟩⟩
    omega
  · rintro k e hik hkj he ⟨g, hg, hle, hsame⟩
    have hserves := serve_serves host e.before e.request
    rw [← (ht.served k e he).1] at hserves
    by_cases hc : identifier ∈ committed e.request e.reply
    · -- a commit that removes nothing: from here on the version is past the fetched one
      obtain ⟨last, -, hrests⟩ := ht.events k e he
      obtain ⟨g', hg', hlt⟩ := hserves.grows hrests hc (hclear k e (by omega) hkj he) hg
      exact ⟨g', hg', by omega, fun h => absurd h (by omega)⟩
    · refine ⟨g, (hserves.untouched hc).trans hg, hle, fun h => ⟨(hsame h).1, fun m e' h1 h2 he' => ?_⟩⟩
      rcases Nat.lt_or_ge m k with hm | hm
      · exact (hsame h).2 m e' h1 hm he'
      · obtain rfl : m = k := by omega
        obtain rfl := Option.some.inj (he.symm.trans he')
        exact hc

/-- **Updates are kept exactly where nothing is removed under them.** In every interleaving of
directory calls, every update replaces the value its caller fetched, with nothing committed in
between, iff no entry is removed between the fetch and the commit of an update of it. -/
theorem updates_kept_iff (host : Host) (s : EtsRepository) (turns : List Turn) :
    Kept (run host s turns).events ↔ Undisturbed (run host s turns).events := by
  constructor
  · intro hkept i j e identifier f he hu hf k e' h1 h2 he' hr
    obtain ⟨i', f', hf', -, hclear, -⟩ := hkept j e identifier he hu
    obtain rfl := hf.unique hf'
    exact hclear k e' h1 h2 he' (removed_subset hr)
  · intro hund j e identifier he hu
    obtain ⟨i, f, stored, hf, hstored, hversion, hderived⟩ := updated_cases he hu
    have hj : j < (run host s turns).events.length := (List.getElem?_eq_some_iff.mp he).1
    obtain ⟨g, hg, -, hsame⟩ := held_of_clear hf (Nat.le_of_lt hj) (hund i j e identifier f he hu hf)
    have hat : (run host s turns).storeAt j = e.before := by
      simp [Clients.storeAt, he]
    rw [hat, hstored] at hg
    cases hg
    obtain ⟨rfl, hclear⟩ := hsame hversion
    exact ⟨i, stored, hf, hstored, hclear, hderived⟩

end

/-! ## A removed entry that is registered again -/

/-- A host whose schema accepts every document and whose texts hold nothing. -/
def plainHost : Host where
  core := ⟨fun _ => [], fun _ _ => []⟩
  calendar := ⟨fun _ => [], fun _ => none⟩

/-- The defaults of `Service.new/1`. -/
def plainService : Service where
  defaultPageLimit := 50
  maxPageLimit := 200
  defaultExpiryBatchLimit := 100
  maxExpiryBatchLimit := 1000
  expiryStrategy := .purge
  patchBounds := .default
  limits := defaultLimits
  bounds := by decide

/-- A Thing Description with a title, under one identifier. -/
def lamp (title : String) : Document :=
  ((((Dict.empty.put "@context" (.str ThingDescription.tdContext)).put "id"
    (.str "urn:lamp")).put "title" (.str (ascii title))).put
    "securityDefinitions"
    (.obj [("open", .obj [("scheme", .str "nosec")])])).put
    "security" (.str "open")

/-- A call at a time in seconds that the ports allow. -/
def callAt (seconds : Int) (command : Command) : Invocation where
  command := command
  context := ⟨some "operator"⟩
  ports := ⟨fun _ _ => .allow, some ⟨seconds * 1000000, 0, .utc⟩, none⟩

/-- Caller 1 fetches the first lamp in order to replace it; caller 2 deletes it and registers a
second lamp under its identifier; then the replacement of caller 1 is served. -/
def recreation : List Turn :=
  [.begins 0 plainService (callAt 1 (.register (lamp "first") {})), .goes 0, .goes 0,
   .begins 1 plainService (callAt 2 (.replace "urn:lamp" (lamp "edited first") {})), .goes 1,
   .begins 2 plainService (callAt 3 (.delete "urn:lamp" {})), .goes 2, .goes 2,
   .begins 2 plainService (callAt 4 (.register (lamp "second") {})), .goes 2, .goes 2,
   .goes 1]

/-- The caller of an event, what it committed, and the update it was. -/
def brief (e : Event Nat EtsRepository Request Reply) : Nat × List Text × Option Text :=
  (e.caller, committed e.request e.reply, updated e.request e.reply)

set_option maxRecDepth 100000 in
theorem recreation_events : (run plainHost .init recreation).events.map brief =
    [(0, [], none), (0, [ascii "urn:lamp"], none), (1, [], none), (2, [], none),
     (2, [ascii "urn:lamp"], some (ascii "urn:lamp")), (2, [], none),
     (2, [ascii "urn:lamp"], none), (1, [ascii "urn:lamp"], some (ascii "urn:lamp"))] := by
  decide +kernel

/-- The update of caller 1 is committed over the second lamp, which caller 1 never fetched. -/
theorem recreated_entry_overwritten : ¬ Kept (run plainHost .init recreation).events := by
  intro hkept
  have hbrief := recreation_events
  simp only [List.map_eq_cons_iff, List.map_eq_nil_iff, brief, Prod.mk.injEq] at hbrief
  obtain ⟨e0, _, heq, ⟨h0, -⟩, e1, _, rfl, ⟨h1, -⟩, e2, _, rfl, -, e3, _, rfl, ⟨h3, -⟩,
    e4, _, rfl, ⟨h4, hcommit, -⟩, e5, _, rfl, ⟨h5, -⟩, e6, _, rfl, ⟨h6, -⟩,
    e7, _, rfl, ⟨h7, -, hu⟩, rfl⟩ := hbrief
  rw [heq] at hkept
  obtain ⟨i, f, ⟨hi, ⟨e, he, hc, -⟩, -⟩, -, hclear, -⟩ := hkept 7 e7 _ rfl hu
  -- caller 1 has one earlier event, its fetch at index 2
  obtain rfl : i = 2 := by
    interval_cases i
    all_goals first
      | rfl
      | (obtain rfl := Option.some.inj he
         omega)
  refine hclear 4 e4 (by omega) (by omega) rfl ?_
  rw [hcommit]
  exact List.mem_singleton_self _

end Wotex.Directory
