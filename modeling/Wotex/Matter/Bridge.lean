import Wotex.Matter.Recovery
import Wotex.Term.Allocator

/-!
# Endpoint numbers are never reused

The registry of a bridge is an allocator: `Allocate` gives the next number, `Remove` takes a thing out, and
nothing else changes it (`plan_moves`). A commit that did not succeed is one such move ahead of what stands,
so whatever reopening finds continues the history of what was shown before (`Tracked`): a number that was
once seen stays given, and one that was never seen may be given again.

A run is that of one store: a power loss may take anything but the directory itself, behind which the next
creation makes another store.

Results: `plan_moves` and `Sound.shownBy` (one request, and every run), `reports_shown` (a report is what the
open store has), `endpoints_never_reused`.
-/

namespace Wotex.Matter

open Allocator (Moves Runs)
open List Contents Allocator

/-! ## The registry as an allocator -/

/-- The registry as an allocator. -/
def Contents.allocator (contents : Contents) : Allocator Bytes BridgedDeviceType :=
  ⟨fun thing => contents.endpoints[thing]?.map fun e => (e.endpoint, e.deviceType), contents.nextEndpoint⟩

variable {contents : Contents} {thing : Bytes}

theorem allocator_active {n : Nat} {type : BridgedDeviceType} :
    contents.allocator.active thing = some (n, type) ↔ contents.endpoints[thing]? = some ⟨n, type⟩ := by
  simp only [allocator, Option.map_eq_some_iff]
  constructor
  · rintro ⟨e, he, heq⟩
    obtain ⟨rfl, rfl⟩ := Prod.mk.inj heq
    exact he
  · exact fun h => ⟨_, h, rfl⟩

theorem allocator_none : contents.allocator.active thing = none ↔ contents.endpoints[thing]? = none := by
  simp [allocator]

theorem allocator_inj {contents' : Contents} :
    contents.allocator.active thing = contents'.allocator.active thing ↔
      contents.endpoints[thing]? = contents'.endpoints[thing]? := by
  refine ⟨fun h => ?_, fun h => by simp [allocator, h]⟩
  refine Option.map_injective ?_ h
  rintro ⟨n, t⟩ ⟨m, u⟩ heq
  obtain ⟨rfl, rfl⟩ := Prod.mk.inj heq
  rfl

theorem allocator_initial : initial.allocator = fresh firstEndpoint := by
  simp [allocator, fresh, initial]

variable {bridge : BridgeIdentity} {operation : Operation} {next : Contents} {reply : Reply}

/-- **What an operation commits is one move ahead.** -/
theorem plan_moves {store : Store}
    (h : plan (.bridge bridge) store operation = some (.commit next reply)) :
    Moves store.contents.allocator next.allocator := by
  have hdoes := plan_does h
  cases operation with
  | get | lookup | endpoints | retired => exact hdoes.elim
  | set key value size =>
    obtain ⟨k, -, -, rfl⟩ := hdoes
    exact .same
  | delete key =>
    obtain ⟨k, rfl⟩ := hdoes
    exact .same
  | allocate thing type =>
    obtain ⟨-, hnew, -, -, rfl, -⟩ := hdoes
    convert Moves.give thing type (allocator_none.mpr hnew) using 1
    simp only [allocator, Tables.getElem_insert]
    congr 1
    funext x
    by_cases hx : x = thing
    · simp [hx]
    · simp [hx, Ne.symm hx]
  | remove thing =>
    obtain rfl : next = _ := hdoes
    convert Moves.release (a := store.contents.allocator) thing using 1
    simp only [allocator, Tables.getElem_erase]
    congr 1
    funext x
    by_cases hx : x = thing
    · simp [hx]
    · simp [hx, Ne.symm hx]

/-! ## Histories -/

/-- What an open store has in memory that answers. -/
def World.shown (world : World) : Option Contents :=
  (world.store.filter fun store => !store.poisoned).map Store.contents

/-- What the store had in memory behind each step, where it was open and answered. -/
def shownBy (identity : Identity) : World → List Event → List Contents
  | _, [] => []
  | world, event :: events =>
    (step identity world event).1.shown.toList ++ shownBy identity (step identity world event).1 events

/-- The event takes the directory of the store. -/
def Event.loses : Event → Bool
  | .powerLoss gone _ _ => gone
  | _ => false

/-- One move ahead of what stands, or the empty store where nothing stands. -/
def Ledger.Ahead (ledger : Ledger) (contents : Contents) : Prop :=
  (∃ standing, ledger.standing = some standing ∧ Moves standing.allocator contents.allocator) ∨
    ledger.standing = none ∧ contents = initial

/-- The history of a store, with its ledger. -/
structure Tracked (world : World) (ledger : Ledger) (history : List Contents) : Prop where
  runs : Runs firstEndpoint (history.map allocator)
  last : (history.map allocator).getLast? = ledger.standing.map allocator
  pending : ∀ contents, ledger.pending = some contents → ledger.Ahead contents
  absent : world.directory = none → ledger = Ledger.start

section Tracked

variable {identity : Identity} {world : World} {ledger : Ledger} {history : List Contents}

variable {contents : Contents} {world' : World}

section

variable (h : Tracked world ledger history)
include h

theorem Tracked.show (hm : ledger.Ahead contents) :
    Runs firstEndpoint ((history ++ [contents]).map allocator) ∧
      ((history ++ [contents]).map allocator).getLast? = some contents.allocator := by
  refine ⟨?_, by simp⟩
  rw [map_append, map_singleton]
  rcases hm with ⟨standing, hs, hm⟩ | ⟨hs, rfl⟩
  · exact h.runs.append (by rw [h.last, hs]; rfl) hm
  · have hnil : history.map allocator = [] := by
      rw [← getLast?_eq_none_iff, h.last, hs]
      rfl
    rw [hnil]
    exact ⟨isChain_singleton _, fun a ha => by obtain rfl := Option.some.inj ha; rfl⟩

theorem Tracked.quiet (hshown : world'.shown = none ∨ ∃ contents, world'.shown = some contents ∧
      ledger.standing = some contents)
    (habsent : world'.directory = none → world.directory = none) :
    Tracked world' ledger (history ++ world'.shown.toList) := by
  rcases hshown with hs | ⟨contents, hs, hstand⟩
  · rw [hs, Option.toList_none, append_nil]
    exact ⟨h.runs, h.last, h.pending, fun hd => h.absent (habsent hd)⟩
  · rw [hs]
    obtain ⟨hruns, hlast⟩ := h.show (.inl ⟨contents, hstand, .same⟩)
    exact ⟨hruns, by rw [hstand]; exact hlast, h.pending, fun hd => h.absent (habsent hd)⟩

theorem Tracked.torn (hm : ledger.Ahead contents) (hshown : world'.shown = none)
    (hd : world'.directory ≠ none) :
    Tracked world' ⟨ledger.standing, some contents⟩ (history ++ world'.shown.toList) := by
  rw [hshown, Option.toList_none, append_nil]
  refine ⟨h.runs, h.last, ?_, fun hnone => absurd hnone hd⟩
  rintro _ ⟨⟩
  exact hm

theorem Tracked.settle (hm : ledger.Ahead contents) (hshown : world'.shown = some contents)
    (hd : world'.directory ≠ none) :
    Tracked world' ⟨some contents, none⟩ (history ++ world'.shown.toList) := by
  rw [hshown]
  obtain ⟨hruns, hlast⟩ := h.show hm
  exact ⟨hruns, hlast, nofun, fun hnone => absurd hnone hd⟩

theorem Tracked.committing {disk : Disk Name} {store : Store} (hm : ledger.Ahead next)
    (fates : List Fate) : Tracked (committing identity disk store next reply fates).1
      (ledger.note (committing identity disk store next reply fates).2)
      (history ++ (committing identity disk store next reply fates).1.shown.toList) := by
  unfold Matter.committing
  split
  · exact h.quiet (.inl rfl) nofun
  · rename_i run hrun
    cases hend : run.ending with
    | completed => exact h.settle hm rfl (Option.some_ne_none _)
    | failed => exact h.torn hm rfl (Option.some_ne_none _)
    | stopped => exact h.torn hm rfl (Option.some_ne_none _)

theorem Tracked.creating (hd : world.directory = none) (fates : List Fate) :
    Tracked (creating identity fates).1 (ledger.note (creating identity fates).2)
      (history ++ (creating identity fates).1.shown.toList) := by
  have hfirst : ledger.Ahead initial := .inr ⟨by rw [h.absent hd]; rfl, rfl⟩
  unfold Matter.creating
  dsimp only
  split
  · exact h.quiet (.inl rfl) nofun
  · exact h.quiet (.inl rfl) nofun
  · unfold Matter.committing
    cases hrun : commit identity initial (exec [.create Name.lock, .keep .lock] fates Disk.empty).left
        (exec [.create Name.lock, .keep .lock] fates Disk.empty).disk with
    | none => exact h.quiet (.inl rfl) nofun
    | some run =>
      cases hend : run.ending <;> simp [hend]
      · exact h.settle hfirst rfl (Option.some_ne_none _)
      · exact h.torn hfirst rfl (Option.some_ne_none _)
      · exact h.torn hfirst rfl (Option.some_ne_none _)

omit h in
theorem Sound.shown_standing (h : Sound identity world ledger) (hs : world.shown = some contents) :
    ledger.standing = some contents ∧ Writable identity contents := by
  obtain ⟨store, hstore, rfl⟩ := Option.map_eq_some_iff.mp hs
  obtain ⟨hopen, hgood⟩ := Option.filter_eq_some_iff.mp hstore
  obtain ⟨hstand, disk, -, hholds⟩ := h.store store hopen
  exact ⟨hstand, (hholds (by simpa using hgood)).2.1⟩

theorem Tracked.idle (hsound : Sound identity world ledger) {n : Note} (hc : n.commit = none)
    (ho : ∀ contents, n.reply ≠ some (.opened contents)) :
    Tracked world (ledger.note n) (history ++ world.shown.toList) := by
  rw [note_quiet hc ho]
  refine h.quiet ?_ id
  cases hs : world.shown with
  | none => exact .inl rfl
  | some contents => exact .inr ⟨contents, rfl, (hsound.shown_standing hs).1⟩

theorem Tracked.reopen (hsound : Sound identity world ledger) :
    Tracked (reopen identity world).1 (ledger.note (reopen identity world).2)
      (history ++ (reopen identity world).1.shown.toList) := by
  rcases reopen_cases identity world with ⟨e, heq⟩ | ⟨disk, contents, hd, hlock, hclean, hread, heq⟩
  · rw [heq]
    exact h.idle hsound rfl nofun
  · rw [heq]
    refine h.settle ?_ rfl (Option.some_ne_none _)
    rcases (hsound.shown hd hlock hclean hread).1 with hl | hl
    · exact .inl ⟨contents, hl, .same⟩
    · exact h.pending contents hl

/-- **One step.** -/
theorem Tracked.step (hsound : Sound (.bridge bridge) world ledger) {event : Event}
    (hkept : event.loses = false) :
    Tracked (step (.bridge bridge) world event).1 (ledger.note (step (.bridge bridge) world event).2)
      (history ++ (step (.bridge bridge) world event).1.shown.toList) := by
  cases event with
  | create fates =>
    simp only [Matter.step]
    rcases create_cases (.bridge bridge) world fates with ⟨n, heq, hc, ho⟩ | ⟨left, -, hd, heq⟩
    · rw [heq]
      exact h.idle hsound hc ho
    · rw [heq]
      exact h.creating hd left
  | reopen => exact h.reopen hsound
  | operate operation fates =>
    simp only [Matter.step, Matter.operate]
    split
    · rename_i disk store hd hs
      obtain ⟨hstand, -⟩ := hsound.store store hs
      split
      · exact h.idle hsound rfl nofun
      · rename_i reply hplan
        exact h.idle hsound rfl fun _ ho => plan_not_opened hplan (Option.some.inj ho)
      · rename_i next reply hplan
        exact h.committing (.inl ⟨store.contents, hstand, plan_moves hplan⟩) fates
    · exact h.idle hsound rfl nofun
  | close => exact h.quiet (.inl rfl) id
  | powerLoss gone kept junk =>
    obtain rfl : gone = false := hkept
    refine h.quiet (.inl rfl) fun hd => ?_
    simpa [Matter.step] using hd

theorem Tracked.run (hsound : Sound (.bridge bridge) world ledger) {events : List Event}
    (hkept : ∀ e ∈ events, e.loses = false) :
    Tracked (run (.bridge bridge) world events).1 (ledger.notes (run (.bridge bridge) world events).2)
      (history ++ shownBy (.bridge bridge) world events) := by
  induction events generalizing world ledger history with
  | nil => simpa [Matter.run, Ledger.notes, shownBy] using h
  | cons event events ih =>
    have hstep := h.step hsound (hkept event mem_cons_self)
    have hrest := ih hstep (hsound.step event).sound fun e he => hkept e (mem_cons_of_mem _ he)
    rw [append_assoc] at hrest
    exact hrest

end

theorem tracked_start : Tracked World.start Ledger.start [] :=
  ⟨⟨isChain_nil, nofun⟩, rfl, nofun, fun _ => rfl⟩

theorem Sound.shownBy (h : Sound identity world ledger) (events : List Event) :
    ∀ contents ∈ shownBy identity world events, Writable identity contents := by
  induction events generalizing world ledger with
  | nil => exact fun _ hc => absurd hc not_mem_nil
  | cons event events ih =>
    refine forall_mem_append.mpr ⟨fun contents hc => ?_, ih (h.step event).sound⟩
    exact ((h.step event).sound.shown_standing (Option.mem_toList.mp hc)).2

end Tracked

/-! ## Reports -/

/-- The things and endpoints that a step reports. -/
def reported : Event → Note → List (Bytes × BridgeEndpoint)
  | .operate (.allocate thing _) _, ⟨some (.endpoint e), _⟩ => [(thing, e)]
  | .operate (.lookup thing) _, ⟨some (.endpoint e), _⟩ => [(thing, e)]
  | .operate .endpoints _, ⟨some (.endpoints active), _⟩ => active.toList
  | _, _ => []

/-- All that a run reports. -/
def reports (identity : Identity) : World → List Event → List (Bytes × BridgeEndpoint)
  | _, [] => []
  | world, event :: events =>
    reported event (step identity world event).2 ++ reports identity (step identity world event).1 events

section Reports

variable {identity : Identity} {store : Store} {world : World}

variable {e : BridgeEndpoint}

/-- An answer other than an error is that of a commit that succeeded. -/
theorem committing_endpoint {disk : Disk Name} {fates : List Fate}
    (h : (committing identity disk store next reply fates).2.reply = some (.endpoint e)) :
    (committing identity disk store next reply fates).1.shown = some next ∧ reply = .endpoint e := by
  unfold committing at h ⊢
  split at h
  · cases h
  split at h
  · exact ⟨rfl, Option.some.inj h⟩
  · cases h
  · cases h

theorem shown_of_plan {p : Plan} (hs : world.store = some store)
    (h : plan identity store operation = some p) (hp : ∀ e, p ≠ .answer (.error e)) :
    world.shown = some store.contents := by
  simp [World.shown, hs, plan_unpoisoned h hp]

theorem operate_reply {fates : List Fate} {r : Reply}
    (h : (operate identity world operation fates).2.reply = some r) :
    ∃ store, world.store = some store ∧ ((plan identity store operation = some (.answer r) ∧
          (operate identity world operation fates).1 = world) ∨
        ∃ disk next reply, plan identity store operation = some (.commit next reply) ∧
          operate identity world operation fates = committing identity disk store next reply fates) := by
  unfold operate at h ⊢
  split
  · rename_i disk store hd hs
    simp only [hd, hs] at h
    refine ⟨store, hs, ?_⟩
    cases hplan : plan identity store operation with
    | none =>
      rw [hplan] at h
      cases h
    | some p =>
      rw [hplan] at h
      cases p with
      | answer reply =>
        cases h
        exact .inl ⟨rfl, rfl⟩
      | commit next reply => exact .inr ⟨disk, next, reply, rfl, rfl⟩
  · rename_i hno
    split at h
    · rename_i disk store hd hs
      exact absurd hs (hno disk store hd)
    · cases h

/-- **A report is what the open store has.** -/
theorem reported_shown {event : Event} {r : Bytes × BridgeEndpoint}
    (h : r ∈ reported event (step identity world event).2) :
    ∃ contents, (step identity world event).1.shown = some contents ∧
      contents.endpoints[r.1]? = some r.2 := by
  unfold reported at h
  -- a controller has no endpoints to report
  cases identity with
  | controller identity =>
    split at h
    iterate 3
      rename_i hn
      obtain ⟨_, _, ⟨hplan, -⟩ | ⟨_, _, _, hplan, -⟩⟩ :=
        operate_reply (congrArg Note.reply hn) <;> cases hplan
    cases h
  | bridge identity =>
  split at h
  · rename_i thing type fates e _ hn
    obtain rfl := mem_singleton.mp h
    obtain ⟨store, hs, ⟨hplan, hworld⟩ | ⟨disk, next, reply, hplan, heq⟩⟩ :=
      operate_reply (congrArg Note.reply hn)
    · exact ⟨store.contents, (congrArg World.shown hworld).trans (shown_of_plan hs hplan nofun),
        plan_does hplan⟩
    · have hreply := congrArg Note.reply hn
      change (operate _ _ _ _).2.reply = _ at hreply
      rw [heq] at hreply
      obtain ⟨hshown, rfl⟩ := committing_endpoint hreply
      obtain ⟨-, -, -, -, rfl, hr⟩ := plan_does hplan
      refine ⟨_, (congrArg (fun w => World.shown w.1) heq).trans hshown, ?_⟩
      rw [Reply.endpoint.inj hr]
      exact (Tables.getElem_insert _ _ _ _).trans (if_pos rfl)
  · rename_i thing fates e _ hn
    obtain rfl := mem_singleton.mp h
    obtain ⟨store, hs, ⟨hplan, hworld⟩ | ⟨_, next, reply, hplan, -⟩⟩ :=
      operate_reply (congrArg Note.reply hn)
    · exact ⟨store.contents, (congrArg World.shown hworld).trans (shown_of_plan hs hplan nofun),
        plan_does hplan⟩
    · exact (plan_does hplan).elim
  · rename_i fates active _ hn
    obtain ⟨store, hs, ⟨hplan, hworld⟩ | ⟨_, next, reply, hplan, -⟩⟩ :=
      operate_reply (congrArg Note.reply hn)
    · have hshown := shown_of_plan hs hplan nofun
      obtain rfl : active = _ := plan_does hplan
      exact ⟨store.contents, (congrArg World.shown hworld).trans hshown,
        Std.ExtTreeMap.mem_toList_iff_getElem?_eq_some.mp h⟩
    · exact (plan_does hplan).elim
  · cases h

theorem reports_shown {events : List Event} {r : Bytes × BridgeEndpoint}
    (h : r ∈ reports identity world events) :
    ∃ contents ∈ shownBy identity world events, contents.endpoints[r.1]? = some r.2 := by
  induction events generalizing world with
  | nil => cases h
  | cons event events ih =>
    rcases mem_append.mp h with h | h
    · obtain ⟨contents, hs, hr⟩ := reported_shown h
      exact ⟨contents, mem_append_left _ (Option.mem_toList.mpr hs), hr⟩
    · obtain ⟨contents, hs, hr⟩ := ih h
      exact ⟨contents, mem_append_right _ hs, hr⟩

end Reports

/-! ## Whole runs -/

section Histories

variable {history : List Contents}

variable {n : Nat}

theorem owns_iff {thing : Bytes} {type : BridgedDeviceType} :
    Owns (history.map allocator) n thing type ↔
      ∃ contents ∈ history, contents.endpoints[thing]? = some ⟨n, type⟩ := by
  simp [Owns, allocator_active]

/-- The number was given to some thing. -/
def HandedOut (history : List Contents) (n : Nat) : Prop :=
  ∃ contents ∈ history, ∃ (thing : Bytes) (e : BridgeEndpoint),
    contents.endpoints[thing]? = some e ∧ e.endpoint = n

theorem handedOut_iff : HandedOut history n ↔ ∃ thing type, Owns (history.map allocator) n thing type := by
  constructor
  · rintro ⟨contents, hc, thing, ⟨m, type⟩, he, rfl⟩
    exact ⟨thing, type, owns_iff.mpr ⟨contents, hc, he⟩⟩
  · rintro ⟨thing, type, ho⟩
    obtain ⟨contents, hc, he⟩ := owns_iff.mp ho
    exact ⟨contents, hc, thing, _, he, rfl⟩

/-- `Retired`, of a registry: the number is behind the counter and no thing has it. -/
theorem retired_iff {contents : Contents} :
    (n < contents.nextEndpoint && contents.endpoints.toList.all fun e => e.2.endpoint != n) = true ↔
      n < contents.nextEndpoint ∧ ¬ HandedOut [contents] n := by
  rw [Bool.and_eq_true, decide_eq_true_eq, all_eq_true]
  refine and_congr_right fun _ => ?_
  constructor
  · rintro h ⟨c, hc, thing, e, he, rfl⟩
    obtain rfl := mem_singleton.mp hc
    simpa using h (thing, e) (Std.ExtTreeMap.mem_toList_iff_getElem?_eq_some.mpr he)
  · intro h e he
    simp only [bne_iff_ne]
    intro heq
    exact h ⟨contents, mem_singleton_self _, e.1, e.2,
      Std.ExtTreeMap.mem_toList_iff_getElem?_eq_some.mp he, heq⟩

end Histories

/-- An open store that is not poisoned answers `Retired`, for a number in the range. -/
theorem retired_answers {bridge : BridgeIdentity} {world : World} {ledger : Ledger}
    {contents : Contents} {endpoint : Nat} (h : Sound (.bridge bridge) world ledger)
    (hs : world.shown = some contents) (hrange : firstEndpoint ≤ endpoint ∧ endpoint ≤ maximumEndpoint)
    (fates : List Fate) :
    ∃ b, (step (.bridge bridge) world (.operate (.retired endpoint) fates)).2.reply =
      some (.retired b) := by
  obtain ⟨store, hstore, rfl⟩ := Option.map_eq_some_iff.mp hs
  obtain ⟨hopen, hgood⟩ := Option.filter_eq_some_iff.mp hstore
  obtain ⟨-, disk, hdisk, -⟩ := h.store store hopen
  have hin : ¬ (endpoint < firstEndpoint ∨ maximumEndpoint < endpoint) := by omega
  have hpoisoned : store.poisoned = false := by simpa using hgood
  simp [step, operate, hdisk, hopen, plan, retired, hpoisoned, hin]

/-- **Endpoint numbers are never reused.** Over every run of one bridge store, with failed and interrupted
commits, restarts and power losses: what is reported is what the open store has; no number is reported for
two things; a thing that stays registered keeps its number and device type; a number that is new is above
every number before it, within the range; and `Retired`, which an open store that is not poisoned answers for
every number in the range, reports exactly the numbers that were given and are not active. -/
theorem endpoints_never_reused (bridge : BridgeIdentity) (events : List Event)
    (hkept : ∀ e ∈ events, e.loses = false) :
    (∀ r ∈ reports (.bridge bridge) .start events,
      ∃ contents ∈ shownBy (.bridge bridge) .start events, contents.endpoints[r.1]? = some r.2) ∧
    (∀ r ∈ reports (.bridge bridge) .start events, ∀ r' ∈ reports (.bridge bridge) .start events,
      r.2.endpoint = r'.2.endpoint → r.1 = r'.1) ∧
    (∀ (before between after : List Contents) (thing : Bytes),
      shownBy (.bridge bridge) .start events = before ++ between ++ after →
      (∀ contents ∈ between, contents.endpoints[thing]? ≠ none) →
      ∀ contents ∈ between, ∀ contents' ∈ between,
        contents.endpoints[thing]? = contents'.endpoints[thing]?) ∧
    (∀ (before : List Contents) (contents : Contents) (after : List Contents) (thing : Bytes)
        (e : BridgeEndpoint),
      shownBy (.bridge bridge) .start events = before ++ contents :: after →
      contents.endpoints[thing]? = some e →
      firstEndpoint ≤ e.endpoint ∧ e.endpoint ≤ maximumEndpoint ∧
        (¬ HandedOut before e.endpoint → ∀ n, HandedOut before n → n < e.endpoint)) ∧
    (∀ endpoint fates, (run (.bridge bridge) .start events).1.shown ≠ none →
      firstEndpoint ≤ endpoint ∧ endpoint ≤ maximumEndpoint → ∃ b,
        (step (.bridge bridge) (run (.bridge bridge) .start events).1
          (.operate (.retired endpoint) fates)).2.reply = some (.retired b)) ∧
    ∀ endpoint fates b,
      (step (.bridge bridge) (run (.bridge bridge) .start events).1
        (.operate (.retired endpoint) fates)).2.reply = some (.retired b) →
      (b = true ↔ HandedOut (shownBy (.bridge bridge) .start events) endpoint ∧
        ¬ HandedOut (run (.bridge bridge) .start events).1.shown.toList endpoint) := by
  have hsound : Sound (.bridge bridge) .start .start := sound_start
  have htracked := tracked_start.run hsound hkept
  rw [nil_append] at htracked
  have hwritable := hsound.shownBy events
  refine ⟨fun r hr => reports_shown hr, ?_, ?_, ?_, ?_, ?_⟩
  · intro r hr r' hr' heq
    obtain ⟨c, hc, he⟩ := reports_shown hr
    obtain ⟨c', hc', he'⟩ := reports_shown hr'
    have hne : (shownBy (.bridge bridge) .start events).map Contents.allocator ≠ [] :=
      fun hnil => by simp [map_eq_nil_iff.mp hnil] at hc
    obtain ⟨last, hlast⟩ := Option.ne_none_iff_exists'.mp (mt getLast?_eq_none_iff.mp hne)
    have howns : Allocator.Owns ((shownBy (.bridge bridge) .start events).map Contents.allocator)
        r.2.endpoint r'.1 r'.2.deviceType := owns_iff.mpr ⟨c', hc', by rw [he', heq]⟩
    exact ((htracked.runs.known hlast).single (owns_iff.mpr ⟨c, hc, he⟩) howns).1
  · intro before between after thing hsplit hstay contents hc contents' hc'
    have hchain := htracked.runs.1
    rw [hsplit, map_append, map_append] at hchain
    refine allocator_inj.mp (Allocator.stays hchain ?_ (mem_map_of_mem hc) (mem_map_of_mem hc'))
    exact forall_mem_map.mpr fun c hcb hnone => hstay c hcb (allocator_none.mp hnone)
  · intro before contents after thing e hsplit he
    have hregistered : Registered contents.endpoints contents.nextEndpoint :=
      (hwritable contents (by rw [hsplit]; simp)).registry
    obtain ⟨hfirst, hlt, -⟩ := hregistered.entry he
    refine ⟨hfirst, Nat.lt_succ_iff.mp (hlt.trans_le hregistered.next_le), fun hnew n hn => ?_⟩
    have hruns := htracked.runs
    rw [hsplit, map_append] at hruns
    obtain ⟨thing', type', ho⟩ := handedOut_iff.mp hn
    exact Allocator.new_above hruns (allocator_active.mpr he)
      (fun k r ho => hnew (handedOut_iff.mpr ⟨k, r, ho⟩)) ho
  · intro endpoint fates hs hrange
    obtain ⟨contents, hs⟩ := Option.ne_none_iff_exists'.mp hs
    exact retired_answers (hsound.run events) hs hrange fates
  · intro endpoint fates b hb
    obtain ⟨store, hs, ⟨hplan, -⟩ | ⟨_, _, _, hplan, -⟩⟩ := operate_reply hb
    · have hshown := shown_of_plan hs hplan nofun
      obtain ⟨hfirst, rfl⟩ := plan_does hplan
      have hstand := ((hsound.run events).shown_standing hshown).1
      have hknown := htracked.runs.known (htracked.last.trans (by rw [hstand]; rfl))
      rw [retired_iff, hshown]
      refine and_congr_left fun _ => ⟨fun hlt => ?_, fun hh => ?_⟩
      · exact handedOut_iff.mpr (hknown.given hfirst hlt)
      · obtain ⟨thing, type, ho⟩ := handedOut_iff.mp hh
        exact (hknown.below ho).2
    · exact (plan_does hplan).elim

/-- A bridge to run with. -/
def sampleBridge : BridgeIdentity := ⟨[98], replicate 64 48, 1, 1⟩

/-- An allocation whose process ends behind the removal of the marker; the store is opened again, its thing
found and taken out, and another one gets the next number. -/
def interruptedAllocation : List Event :=
  [.create (replicate 18 .done),
    .operate (.allocate [116] .onOffLight) (replicate 14 .done),
    .reopen, .operate (.lookup [116]) [],
    .operate (.remove [116]) (replicate 15 .done),
    .operate (.allocate [117] .temperatureSensor) (replicate 15 .done)]

theorem interrupted_allocation_kept :
    reports (.bridge sampleBridge) .start interruptedAllocation =
        [([116], ⟨3, .onOffLight⟩), ([117], ⟨4, .temperatureSensor⟩)] ∧
      HandedOut (shownBy (.bridge sampleBridge) .start interruptedAllocation) 3 ∧
      ¬ HandedOut (run (.bridge sampleBridge) .start interruptedAllocation).1.shown.toList 3 := by
  have hkept : ∀ e ∈ interruptedAllocation, e.loses = false := by
    simp [interruptedAllocation, Event.loses]
  have hretired : (step (.bridge sampleBridge) (run (.bridge sampleBridge) .start interruptedAllocation).1
      (.operate (.retired 3) [])).2.reply = some (.retired true) := by decide +kernel
  obtain ⟨-, -, -, -, -, h⟩ := endpoints_never_reused sampleBridge interruptedAllocation hkept
  exact ⟨by decide +kernel, (h 3 [] true hretired).mp rfl⟩

end Wotex.Matter
