import Wotex.Term.Maps
import Wotex.Zigbee.Event

/-!
# Route custody (`routes.ex`)

The consumer's table of which peer, by raw IEEE identity, was last seen at which 16 bit route. The
table is keyed by identity for outgoing traffic (`checkPeer`, `checkRequest`) and searched by route
for incoming events (`resolve`).

* `adopt` takes a complete interview. `insert` refuses an older observation of the same peer,
  quarantines every entry at an occupied route together with the newcomer (`conflict`), and
  otherwise stores the entry.
* `rebind` moves the table to a new owner epoch. It keeps the records and withdraws their authority.
* The map's entries are in key order, so `Enum.sort_by(&elem(&1, 0))` on them is the identity.
* A `Change` is one of the three calls. The consumer keeps the table a call returns, also the one
  returned with a refusal (`apply`), and a history is a list of changes (`run`).

Results:
* `apply_moves`: what a change can do to a valid table, guards included (`Moves`).
* `Moves.valid`: a change keeps `valid`.
* `Moves.exclusive`: a current entry's route stays its own.
* `resolve_peer`: an event from the route of a recorded peer is attributed to that peer.
* `run_sequence`: within one epoch the owner sequence of a peer does not go back.
-/

namespace Wotex.Zigbee

open Std (ExtTreeMap)
open List

/-- `status`. -/
inductive RouteStatus where
  | current | unverified | conflicted
  deriving DecidableEq

/-- `entry`. -/
structure RouteEntry where
  peerIeee : Ieee
  routeAddress : Nat
  ownerEpoch : Reference
  ownerSequence : Nat
  generation : Nat
  observedAtMs : Int
  expiresAtMs : Int
  status : RouteStatus
  lastConflict : Option Ieee
  deriving DecidableEq

namespace RouteEntry

/-- `valid_entry_time?/1`. -/
def validTimes (entry : RouteEntry) : Bool :=
  validTime entry.observedAtMs && validTime entry.expiresAtMs &&
    inRange (entry.expiresAtMs - entry.observedAtMs) 1 86400000

/-- `valid_entry_status?/1`. -/
def validStatus (entry : RouteEntry) : Bool :=
  match entry.status with
  | .conflicted => entry.lastConflict.any fun other => validIeee other && other ≠ entry.peerIeee
  | .current | .unverified => entry.lastConflict = none

/-- `valid_entry?/3`. -/
def valid (ieee : Ieee) (entry : RouteEntry) (generation : Nat) : Bool :=
  entry.peerIeee = ieee && validIeee ieee && inRange entry.routeAddress 0 0xFFF7 &&
    inRange entry.ownerSequence 1 maxGeneration && inRange entry.generation 1 generation &&
    entry.validTimes && entry.validStatus

/-- `stale_entry?/2`. -/
def stale (previous entry : RouteEntry) : Bool :=
  previous.ownerEpoch = entry.ownerEpoch &&
    (decide (entry.ownerSequence < previous.ownerSequence) ||
      (entry.ownerSequence = previous.ownerSequence &&
        (entry.routeAddress, entry.observedAtMs) ≠ (previous.routeAddress, previous.observedAtMs)))

/-- An entry quarantined by a claim of another peer. -/
def demoted (other : Ieee) (generation : Nat) (entry : RouteEntry) : RouteEntry :=
  { entry with status := .conflicted, lastConflict := some other, generation := generation }

end RouteEntry

structure Routes where
  epoch : Reference
  capacity : Nat
  generation : Nat := 0
  entries : ExtTreeMap Ieee RouteEntry compare := ∅
  deriving DecidableEq

/-- What `adopt/4` returns. -/
inductive Adoption where
  | adopted (table : Routes)
  | refused (error : Error) (table : Option Routes)

/-- What `resolve/3` returns. -/
structure Resolution where
  entry : RouteEntry
  event : Event

namespace Routes

def error (kind : Kind) : Error := ⟨kind, .routes⟩

def failure {α : Type} (kind : Kind) : Result α := .refuse (error kind)

@[simp] theorem failure_eq_ok {α : Type} {kind : Kind} {a : α} : failure kind = .ok a ↔ False := by
  simp [failure]

def new (epoch : Reference) (capacity : Nat := 128) : Result Routes :=
  if inRange capacity 1 1024 then .ok { epoch, capacity } else failure .invalidValue

variable (table : Routes)

def valid : Bool :=
  inRange table.capacity 1 1024 && inRange table.generation 0 maxGeneration &&
    decide (table.entries.size ≤ table.capacity) &&
    table.entries.toList.all fun e => RouteEntry.valid e.1 e.2 table.generation

def tableAdmission : Result Unit := .require table.valid (error .invalidValue)

def generationAdmission : Result Unit :=
  .require (table.generation ≠ maxGeneration) (error .correlationExhausted)

def sameEpoch {α : Type} [DecidableEq α] (epoch other : α) : Result Unit :=
  .require (epoch = other) (error .staleEpoch)

/-- The record of a peer after `rebind/2`. -/
def fenced (entry : RouteEntry) : RouteEntry :=
  { entry with status := if entry.status = .conflicted then .conflicted else .unverified }

/-- `routes.ex:93-113`. -/
def rebind (epoch : Reference) : Result Routes :=
  if ¬ table.valid then failure .invalidValue
  else if epoch = table.epoch then failure .invalidValue
  else if table.generation = maxGeneration then failure .correlationExhausted
  else .ok { table with
    epoch, generation := table.generation + 1
    entries := table.entries.map fun _ entry => fenced entry }

/-- The guard of `build_entry/7`. -/
def buildable (ieee : Ieee) (route sequence : Nat) (observed now ttl : Int) : Bool :=
  validIeee ieee && inRange route 0 0xFFF7 && inRange sequence 1 maxGeneration &&
    validTime now && validTime observed && inRange ttl 1 86400000 && decide (observed ≤ now) &&
    decide (now < observed + ttl) && validTime (observed + ttl)

/-- `routes.ex:253-273`. -/
def buildEntry (ieee : Ieee) (route : Nat) (epoch : Reference) (sequence : Option Nat)
    (observed : Option Int) (now ttl : Int) : Result RouteEntry :=
  match sequence, observed with
  | some sequence, some observed =>
    if buildable ieee route sequence observed now ttl then
      .ok {
        peerIeee := ieee, routeAddress := route, ownerEpoch := epoch, ownerSequence := sequence
        observedAtMs := observed, expiresAtMs := observed + ttl, generation := 1
        status := .current, lastConflict := none }
    else failure .invalidValue
  | _, _ => failure .invalidValue

/-- The pattern an identity step must match. -/
def identified (result : Interview.Result) (step : Interview.Step) (response : Event) : Bool :=
  step.stage = .identity && step.issues = [] && step.admission = some ⟨5, 1, 0, [0]⟩ &&
    response.kind = .zdoIeeeAddress && response.ownerEpoch = some result.ownerEpoch &&
    response.status = some 0 &&
    response.zdo = some (.ieeeAddress 0 result.peerIeee result.routeAddress)

/-- `routes.ex:218-251`. -/
def interviewEntry (result : Interview.Result) (now ttl : Int) : Result RouteEntry :=
  match result.outcome, result.identityMatches, result.steps with
  | .complete, true, step :: _ =>
    match step.response with
    | some response =>
      if identified result step response then
        buildEntry result.peerIeee result.routeAddress result.ownerEpoch response.ownerSequence
          response.receivedAtMs now ttl
      else failure .invalidValue
    | none => failure .invalidValue
  | _, _, _ => failure .invalidValue

variable (entry : RouteEntry)

/-- The other entries at the route of a new one, in key order. -/
def others : List (Ieee × RouteEntry) :=
  table.entries.toList.filter fun e =>
    e.1 ≠ entry.peerIeee && e.2.routeAddress = entry.routeAddress

/-- The table after a claim on an occupied route. -/
def conflicted (first : Ieee) (others : List (Ieee × RouteEntry)) (generation : Nat) : Routes :=
  let entries :=
    Maps.revise (fun old => some (old.demoted entry.peerIeee generation)) others table.entries
  { table with
    generation
    entries :=
      if entries.size < table.capacity || entries.contains entry.peerIeee then
        entries.insert entry.peerIeee (entry.demoted first generation)
      else entries }

/-- The table with a new entry. -/
def stored (generation : Nat) : Routes :=
  { table with
    generation, entries := table.entries.insert entry.peerIeee { entry with generation } }

/-- `quarantined` of `insert/2`. -/
def quarantined (previous : Option RouteEntry) (entry : RouteEntry) : Bool :=
  previous.any fun p => p.status = .conflicted && p.routeAddress = entry.routeAddress

/-- `routes.ex:275-312`. -/
def insert (entry : RouteEntry) : Adoption :=
  let generation := table.generation + 1
  let previous := table.entries[entry.peerIeee]?
  if previous.any fun p => p.stale entry then
    .refused (error .staleObservation) (some table)
  else
    match table.others entry with
    | (first, old) :: rest =>
      .refused (error .routeConflict)
        (some (table.conflicted entry first ((first, old) :: rest) generation))
    | [] =>
      if quarantined previous entry then .refused (error .routeConflict) (some table)
      else if table.capacity ≤ table.entries.size && previous.isNone then
        .refused (error .overload) (some table)
      else .adopted (table.stored entry generation)

/-- The clauses of `adopt/4` before `insert/2`. -/
def adoptable (result : Interview.Result) (now ttl : Int) : Result RouteEntry := do
  tableAdmission table
  let entry ← interviewEntry result now ttl
  sameEpoch table.epoch entry.ownerEpoch
  generationAdmission table
  .ok entry

def adopt (result : Interview.Result) (now ttl : Int) : Adoption :=
  match table.adoptable result now ttl with
  | .ok entry => table.insert entry
  | .refuse e => .refused e (if table.valid then some table else none)
  | .raise => .refused (error .invalidValue) none

def forget (ieee : Ieee) : Result Routes := do
  tableAdmission table
  .require (validIeee ieee) (error .invalidValue)
  generationAdmission table
  .ok { table with entries := table.entries.erase ieee, generation := table.generation + 1 }

def sourceEntry (route : Option Nat) : Result RouteEntry :=
  match (table.entries.toList.map Prod.snd).filter fun entry => some entry.routeAddress = route with
  | [entry] => .ok entry
  | [] => failure .unknownRoute
  | _ => failure .routeConflict

def peerEntry (ieee : Ieee) : Result RouteEntry :=
  match table.entries[ieee]? with
  | some entry => .ok entry
  | none => failure .unknownRoute

/-- `routes.ex:357-366`. -/
def usable (entry : RouteEntry) (epoch : Reference) (now : Int) : Result Unit :=
  if ¬ validTime now ∨ now < entry.observedAtMs then failure .invalidValue
  else if entry.ownerEpoch ≠ epoch then failure .staleEpoch
  else if entry.status = .conflicted then failure .routeConflict
  else if entry.status ≠ .current then failure .unknownRoute
  else if entry.expiresAtMs ≤ now then failure .routeExpired
  else .ok ()

/-- `routes.ex:368-374`. -/
def observationAdmission (event : Event) (entry : RouteEntry) (now : Int) : Result Unit :=
  .require
    ((event.receivedAtMs.any fun received =>
        validTime received && decide (entry.observedAtMs ≤ received) && decide (received ≤ now)) &&
      event.ownerSequence.any fun sequence => inRange sequence entry.ownerSequence maxGeneration)
    (error .staleObservation)

/-- `routes.ex:164-174`. -/
def resolve (event : Event) (now : Int) : Result Resolution := do
  tableAdmission table
  sameEpoch (some table.epoch) event.ownerEpoch
  let entry ← sourceEntry table event.sourceAddress
  usable entry table.epoch now
  observationAdmission event entry now
  .ok { entry, event }

/-- `routes.ex:186-199`. -/
def checkPeer (ieee : Ieee) (route : Nat) (epoch : Reference) (now : Int) :
    Result Int := do
  tableAdmission table
  sameEpoch table.epoch epoch
  .require (validIeee ieee && inRange route 0 0xFFF7) (error .invalidValue)
  let entry ← peerEntry table ieee
  usable entry epoch now
  if entry.routeAddress = route then .ok entry.expiresAtMs else failure .routeMismatch

/-- `routes.ex:204-216`. -/
def checkRequest (request : DataRequest) (epoch : Reference) (now : Int) :
    Result Int := do
  tableAdmission table
  sameEpoch table.epoch epoch
  .require request.valid (error .invalidValue)
  let entry ← peerEntry table request.peerIeee
  usable entry epoch now
  .require (entry.routeAddress = request.routeAddress) (error .routeMismatch)
  .ok entry.expiresAtMs

/-- One call of the consumer. -/
inductive Change where
  | adopt (result : Interview.Result) (now ttl : Int)
  | forget (ieee : Ieee)
  | rebind (epoch : Reference)

/-- The table the consumer holds after a call. -/
def apply : Change → Routes
  | .adopt result now ttl =>
    match table.adopt result now ttl with
    | .adopted table' => table'
    | .refused _ table' => table'.getD table
  | .forget ieee => (table.forget ieee).toOption.getD table
  | .rebind epoch => (table.rebind epoch).toOption.getD table

/-- The table after a history. -/
def run (changes : List Change) : Routes := changes.foldl apply table

/-! ## Validity -/

variable {table} {ieee : Ieee} {entry} {generation : Nat} {now expiry : Int}
  {epoch : Reference} {event : Event} {resolution : Resolution} {request : DataRequest}

theorem valid_iff : table.valid = true ↔
    (1 ≤ table.capacity ∧ table.capacity ≤ 1024) ∧ table.generation ≤ maxGeneration ∧
      table.entries.size ≤ table.capacity ∧ ∀ ieee entry, table.entries[ieee]? = some entry →
        RouteEntry.valid ieee entry table.generation = true := by
  simp [valid, and_assoc]

section

variable (h : RouteEntry.valid ieee entry generation = true)
include h

/-- A valid record stays valid when it is stamped anew, at a table that has not gone back. -/
theorem valid_stamped {stamp later : Nat} (hs : 1 ≤ stamp) (hl : stamp ≤ later) :
    RouteEntry.valid ieee { entry with generation := stamp } later = true := by
  simp only [RouteEntry.valid, Bool.and_eq_true, inRange_iff] at h ⊢
  obtain ⟨⟨⟨h, -⟩, htimes⟩, hstatus⟩ := h
  exact ⟨⟨⟨h, hs, hl⟩, htimes⟩, hstatus⟩

theorem valid_later {later : Nat} (hl : generation ≤ later) : RouteEntry.valid ieee entry later = true := by
  have hg : 1 ≤ entry.generation ∧ entry.generation ≤ generation := by
    simp only [RouteEntry.valid, Bool.and_eq_true, inRange_iff] at h
    exact h.1.1.2
  exact valid_stamped h hg.1 (hg.2.trans hl)

theorem valid_demoted {other : Ieee} {stamp : Nat} (hother : validIeee other = true)
    (hne : other ≠ ieee) (hs : 1 ≤ stamp) :
    RouteEntry.valid ieee (entry.demoted other stamp) stamp = true := by
  simp only [RouteEntry.valid, Bool.and_eq_true, inRange_iff, decide_eq_true_eq] at h ⊢
  obtain ⟨⟨⟨⟨⟨⟨rfl, hieee⟩, hroute⟩, hsequence⟩, -⟩, htimes⟩, -⟩ := h
  refine ⟨⟨⟨⟨⟨⟨rfl, hieee⟩, hroute⟩, hsequence⟩, hs, le_refl _⟩, htimes⟩, ?_⟩
  simp [RouteEntry.validStatus, RouteEntry.demoted, hother, hne]

theorem valid_fenced : RouteEntry.valid ieee (fenced entry) generation = true := by
  simp only [RouteEntry.valid, Bool.and_eq_true] at h ⊢
  refine ⟨h.1, ?_⟩
  have hstatus := h.2
  unfold fenced RouteEntry.validStatus at *
  cases hs : entry.status <;> simp_all

theorem valid_peer : entry.peerIeee = ieee ∧ validIeee ieee = true := by
  simp only [RouteEntry.valid, Bool.and_eq_true, decide_eq_true_eq] at h
  exact h.1.1.1.1.1

end

variable {result : Interview.Result} {ttl : Int}

/-- What an accepted interview gives: a current record, valid at any generation. -/
theorem interviewEntry_spec : interviewEntry result now ttl = .ok entry →
      entry.status = .current ∧ RouteEntry.valid entry.peerIeee entry 1 = true := by
  fun_cases interviewEntry result now ttl <;> try simp
  intro h
  unfold buildEntry failure at h
  split at h
  · split_ifs at h with hbuild
    cases h
    simp only [buildable, Bool.and_eq_true, inRange_iff] at hbuild
    refine ⟨rfl, ?_⟩
    simp only [RouteEntry.valid, RouteEntry.validTimes, RouteEntry.validStatus, Bool.and_eq_true,
      inRange_iff, decide_eq_true_eq]
    refine ⟨⟨⟨⟨⟨⟨trivial, ?_⟩, ?_⟩, ?_⟩, ?_⟩, ⟨?_, ?_⟩, ?_⟩, trivial⟩ <;> first | tauto | omega
  · cases h

/-! ## What a change does -/

/-- A table takes up the record of an interview. -/
structure Claim (table : Routes) (result : Interview.Result) (now ttl : Int) (entry : RouteEntry) :
    Prop where
  interviewed : interviewEntry result now ttl = .ok entry
  epoch : table.epoch = entry.ownerEpoch
  generation : table.generation < maxGeneration
  fresh : ∀ previous, table.entries[entry.peerIeee]? = some previous → previous.stale entry = false

/-- What a change can make of a valid table. -/
inductive Moves (table : Routes) : Change → Routes → Prop where
  /-- A refusal, and a peer or an epoch the table does not take. -/
  | kept (change : Change) : Moves table change table
  | stored {result : Interview.Result} {now ttl : Int} {entry : RouteEntry}
      (claim : Claim table result now ttl entry) (free : table.others entry = [])
      (room : table.entries.size < table.capacity ∨ entry.peerIeee ∈ table.entries) :
      Moves table (.adopt result now ttl) (table.stored entry (table.generation + 1))
  | conflicted {result : Interview.Result} {now ttl : Int} {entry : RouteEntry}
      {first : Ieee} {old : RouteEntry} {rest : List (Ieee × RouteEntry)}
      (claim : Claim table result now ttl entry)
      (occupied : table.others entry = (first, old) :: rest) :
      Moves table (.adopt result now ttl)
        (table.conflicted entry first (table.others entry) (table.generation + 1))
  | forgotten {ieee : Ieee} (generation : table.generation < maxGeneration) :
      Moves table (.forget ieee)
        { table with entries := table.entries.erase ieee, generation := table.generation + 1 }
  | rebound {epoch : Reference} (generation : table.generation < maxGeneration) :
      Moves table (.rebind epoch)
        { table with
          epoch, generation := table.generation + 1
          entries := table.entries.map fun _ entry => fenced entry }

theorem generationAdmission_eq_ok (h : table.valid = true) :
    generationAdmission table = .ok () ↔ table.generation < maxGeneration := by
  have hle := (valid_iff.mp h).2.1
  simp only [generationAdmission, require_eq_ok, decide_eq_true_eq]
  omega

theorem insert_moves (interviewed : interviewEntry result now ttl = .ok entry)
    (epoch : table.epoch = entry.ownerEpoch) (generation : table.generation < maxGeneration) :
    ∃ table', Moves table (.adopt result now ttl) table' ∧ (table.insert entry = .adopted table' ∨
        ∃ e, table.insert entry = .refused e (some table')) := by
  unfold insert
  by_cases hstale : (table.entries[entry.peerIeee]?.any fun p => p.stale entry) = true
  · exact ⟨table, .kept _, Or.inr ⟨_, if_pos hstale⟩⟩
  have claim : Claim table result now ttl entry :=
    ⟨interviewed, epoch, generation, fun previous hp => by simpa [hp] using hstale⟩
  simp only [hstale, Bool.false_eq_true, if_false]
  cases hothers : table.others entry with
  | cons head rest =>
    exact ⟨_, .conflicted claim hothers, Or.inr ⟨error .routeConflict, by rw [hothers]⟩⟩
  | nil =>
    split_ifs with hq hroom
    · exact ⟨table, .kept _, Or.inr ⟨_, rfl⟩⟩
    · exact ⟨table, .kept _, Or.inr ⟨_, rfl⟩⟩
    · refine ⟨_, .stored claim hothers ?_, Or.inl rfl⟩
      by_cases hmem : entry.peerIeee ∈ table.entries
      · exact Or.inr hmem
      · simp [hmem] at hroom
        exact Or.inl hroom

/-- **One change of a valid table is one of the moves.** -/
theorem apply_moves (h : table.valid = true) (change : Change) :
    Moves table change (table.apply change) := by
  cases change with
  | adopt result now ttl =>
    simp only [apply, adopt]
    cases ha : table.adoptable result now ttl with
    | ok entry =>
      simp only [adoptable, sameEpoch, bind_eq_ok, exists_unit, require_eq_ok, decide_eq_true_eq] at ha
      obtain ⟨-, _, interviewed, epoch, generation, ⟨⟩⟩ := ha
      obtain ⟨table', hmoves, hinsert⟩ := insert_moves interviewed epoch
        ((generationAdmission_eq_ok h).mp generation)
      rcases hinsert with hinsert | ⟨e, hinsert⟩ <;> simpa [hinsert] using hmoves
    | refuse e => simpa [h] using Moves.kept (.adopt result now ttl)
    | raise => simpa using Moves.kept (.adopt result now ttl)
  | forget ieee =>
    cases hf : table.forget ieee with
    | ok table' =>
      have hforgot := hf
      simp only [forget, bind_eq_ok_unit] at hforgot
      obtain ⟨-, -, generation, hforgot⟩ := hforgot
      cases hforgot
      rw [apply, hf]
      exact .forgotten ((generationAdmission_eq_ok h).mp generation)
    | refuse e | raise => simpa [apply, hf, Outcome.toOption] using Moves.kept (.forget ieee)
  | rebind epoch =>
    simp only [apply, rebind]
    split_ifs with h2 h3
    · exact .kept _
    · exact .kept _
    · have hle := (valid_iff.mp h).2.1
      exact .rebound (by omega)

/-! ## Reading a table after a change -/

theorem mem_others {e : Ieee × RouteEntry} :
    e ∈ table.others entry ↔ table.entries[e.1]? = some e.2 ∧ e.1 ≠ entry.peerIeee ∧
      e.2.routeAddress = entry.routeAddress := by
  rw [others, ← ExtTreeMap.mem_toList_iff_getElem?_eq_some]
  simp

theorem mem_others_keys :
    ieee ∈ (table.others entry).map Prod.fst ↔ ∃ old, table.entries[ieee]? = some old ∧
      ieee ≠ entry.peerIeee ∧ old.routeAddress = entry.routeAddress := by
  simp [mem_others]

theorem nodup_others (table : Routes) (entry : RouteEntry) : ((table.others entry).map Prod.fst).Nodup :=
  (Maps.nodup_keys table.entries).sublist (filter_sublist.map _)

/-- The record of another peer after a claim on an occupied route. -/
def challenged (entry : RouteEntry) (generation : Nat) (old : RouteEntry) : RouteEntry :=
  if old.routeAddress = entry.routeAddress then old.demoted entry.peerIeee generation else old

section

variable (table) (entry) (generation)

theorem getElem?_demoted (ieee : Ieee) :
    (Maps.revise (fun old => some (old.demoted entry.peerIeee generation)) (table.others entry)
        table.entries)[ieee]? = if ieee = entry.peerIeee then table.entries[ieee]?
      else table.entries[ieee]?.map (challenged entry generation) := by
  rw [Maps.getElem?_revise _ ieee _ table.entries (nodup_others table entry)
    fun e he => (mem_others.mp he).1]
  by_cases hmem : ieee ∈ (table.others entry).map Prod.fst
  · obtain ⟨old, hold, hne, hroute⟩ := mem_others_keys.mp hmem
    simp [hmem, hold, hne, challenged, hroute]
  · split_ifs with hpeer
    · rfl
    · cases hold : table.entries[ieee]? with
      | none => rfl
      | some old =>
        have hroute : old.routeAddress ≠ entry.routeAddress := fun hr =>
          hmem (mem_others_keys.mpr ⟨old, hold, hpeer, hr⟩)
        simp [challenged, hroute]

theorem size_demoted :
    (Maps.revise (fun old => some (old.demoted entry.peerIeee generation)) (table.others entry)
      table.entries).size = table.entries.size := by
  refine Maps.size_revise _ _ _ fun e he => ?_
  rw [ExtTreeMap.mem_iff_isSome_getElem?, (mem_others.mp he).1]
  rfl

/-- The records after a claim on an occupied route: those of other peers at that route are
quarantined, and the newcomer's, where there is room for it, is quarantined too. -/
theorem getElem?_conflicted (first : Ieee) (generation : Nat)
    (ieee : Ieee) : (table.conflicted entry first (table.others entry) generation).entries[ieee]? =
      if ieee = entry.peerIeee then
        if table.entries.size < table.capacity ∨ entry.peerIeee ∈ table.entries then
          some (entry.demoted first generation) else none
      else table.entries[ieee]?.map (challenged entry generation) := by
  have hread := getElem?_demoted table entry generation
  have hmem : (Maps.revise (fun old => some (old.demoted entry.peerIeee generation))
      (table.others entry) table.entries).contains entry.peerIeee = true ↔ entry.peerIeee ∈ table.entries := by
    rw [ExtTreeMap.contains_eq_isSome_getElem?, hread, if_pos rfl, ExtTreeMap.mem_iff_isSome_getElem?]
  simp only [conflicted, size_demoted, Bool.or_eq_true, decide_eq_true_eq, hmem]
  by_cases hpeer : ieee = entry.peerIeee
  · subst hpeer
    rw [if_pos rfl]
    split_ifs with hroom
    · simp
    · rw [hread, if_pos rfl, ExtTreeMap.getElem?_eq_none fun hm => hroom (Or.inr hm)]
  · split_ifs <;> simp [ExtTreeMap.getElem?_insert, hread, hpeer, Ne.symm hpeer]

theorem getElem?_stored (ieee : Ieee) :
    (table.stored entry generation).entries[ieee]? =
      if ieee = entry.peerIeee then some { entry with generation } else table.entries[ieee]? := by
  by_cases hpeer : ieee = entry.peerIeee
  · simp [stored, hpeer]
  · simp [stored, ExtTreeMap.getElem?_insert, hpeer, Ne.symm hpeer]

end

/-! ## Invariants -/

theorem size_conflicted_le {first : Ieee} (h : table.entries.size ≤ table.capacity) :
    (table.conflicted entry first (table.others entry) generation).entries.size ≤
      table.capacity := by
  simp only [conflicted, size_demoted, Bool.or_eq_true, decide_eq_true_eq]
  split_ifs with hroom
  · rw [ExtTreeMap.size_insert, size_demoted]
    split_ifs with hmem
    · exact h
    · exact hroom.resolve_right hmem
  · rw [size_demoted]
    exact h

variable {table' : Routes} {change : Change}

/-- **A change keeps `valid?`.** -/
theorem Moves.valid (hmoves : Moves table change table') (h : table.valid = true) :
    table'.valid = true := by
  obtain ⟨hcapacity, hgeneration, hsize, hentries⟩ := valid_iff.mp h
  cases hmoves with
  | kept => exact h
  | @stored result now ttl entry claim free room =>
    have hvalid := (interviewEntry_spec claim.interviewed).2
    refine valid_iff.mpr ⟨hcapacity, claim.generation, ?_, ?_⟩
    · simp only [Routes.stored, ExtTreeMap.size_insert]
      split_ifs with hmem
      · exact hsize
      · exact room.resolve_right hmem
    · intro ieee found hread
      rw [getElem?_stored] at hread
      split_ifs at hread with hpeer
      · cases hread
        rw [hpeer]
        exact valid_stamped hvalid (Nat.succ_pos _) (le_refl _)
      · exact valid_later (hentries ieee found hread) (Nat.le_succ _)
  | @conflicted result now ttl entry first old rest claim occupied =>
    have hvalid := (interviewEntry_spec claim.interviewed).2
    have hfirst : (first, old) ∈ table.others entry := occupied ▸ mem_cons_self
    obtain ⟨hfound, hne, -⟩ := mem_others.mp hfirst
    refine valid_iff.mpr ⟨hcapacity, claim.generation, size_conflicted_le hsize, ?_⟩
    intro ieee found hread
    rw [getElem?_conflicted] at hread
    split_ifs at hread with hpeer hroom
    · cases hread
      rw [hpeer]
      exact valid_demoted hvalid (valid_peer (hentries first old hfound)).2 hne (Nat.succ_pos _)
    · obtain ⟨before, hbefore, rfl⟩ := Option.map_eq_some_iff.mp hread
      have hv := hentries ieee before hbefore
      unfold challenged
      split_ifs with hroute
      · exact valid_demoted hv (valid_peer hvalid).2 (Ne.symm hpeer) (Nat.succ_pos _)
      · exact valid_later hv (Nat.le_succ _)
  | forgotten generation =>
    refine valid_iff.mpr ⟨hcapacity, generation, ?_, ?_⟩
    · exact ExtTreeMap.size_erase_le.trans hsize
    · intro ieee found hread
      simp only [ExtTreeMap.getElem?_erase] at hread
      split_ifs at hread
      exact valid_later (hentries ieee found hread) (Nat.le_succ _)
  | rebound generation =>
    refine valid_iff.mpr ⟨hcapacity, generation, ?_, ?_⟩
    · rw [ExtTreeMap.size_map]
      exact hsize
    · intro ieee found hread
      rw [ExtTreeMap.getElem?_map] at hread
      obtain ⟨before, hbefore, rfl⟩ := Option.map_eq_some_iff.mp hread
      exact valid_fenced (valid_later (hentries ieee before hbefore) (Nat.le_succ _))

/-- A current entry's route is held by no other entry. -/
def Exclusive (table : Routes) : Prop :=
  ∀ (ieee : Ieee) (entry : RouteEntry), table.entries[ieee]? = some entry →
    entry.status = .current →
    ∀ (ieee' : Ieee) (entry' : RouteEntry), table.entries[ieee']? = some entry' →
      entry'.routeAddress = entry.routeAddress → ieee' = ieee

/-- **A change keeps the routes of current entries apart.** -/
theorem Moves.exclusive (hmoves : Moves table change table') (hx : table.Exclusive) :
    table'.Exclusive := by
  intro ieee entry hread hcurrent ieee' entry' hread' hroute
  cases hmoves with
  | kept => exact hx ieee entry hread hcurrent ieee' entry' hread' hroute
  | @stored result now ttl fresh claim free room =>
    -- No other entry is at the route of the new one, so only two old entries can meet.
    have hfree : ∀ k e, table.entries[k]? = some e → k ≠ fresh.peerIeee →
        e.routeAddress ≠ fresh.routeAddress := by
      intro k e hk hne hr
      have hmem : (k, e) ∈ table.others fresh := mem_others.mpr ⟨hk, hne, hr⟩
      rw [free] at hmem
      exact not_mem_nil hmem
    rw [getElem?_stored] at hread hread'
    split_ifs at hread with hpeer
    · cases hread
      split_ifs at hread' with hpeer'
      · exact hpeer'.trans hpeer.symm
      · exact absurd hroute (hfree ieee' entry' hread' hpeer')
    · split_ifs at hread' with hpeer'
      · cases hread'
        exact absurd hroute.symm (hfree ieee entry hread hpeer)
      · exact hx ieee entry hread hcurrent ieee' entry' hread' hroute
  | @conflicted result now ttl claim first old rest _ occupied =>
    rw [getElem?_conflicted] at hread hread'
    split_ifs at hread with hpeer hroom
    · cases hread
      simp [RouteEntry.demoted] at hcurrent
    · obtain ⟨before, hbefore, rfl⟩ := Option.map_eq_some_iff.mp hread
      -- A current entry was not at the claimed route, and the claim did not touch it.
      by_cases hclaim : before.routeAddress = claim.routeAddress
      · simp [challenged, hclaim, RouteEntry.demoted] at hcurrent
      · rw [challenged, if_neg hclaim] at hcurrent hroute
        split_ifs at hread' with hpeer' hroom
        · cases hread'
          exact absurd hroute.symm hclaim
        · obtain ⟨before', hbefore', rfl⟩ := Option.map_eq_some_iff.mp hread'
          have hsame : (challenged claim (table.generation + 1) before').routeAddress =
              before'.routeAddress := by
            unfold challenged
            split_ifs <;> rfl
          exact hx ieee before hbefore hcurrent ieee' before' hbefore' (hsame ▸ hroute)
  | forgotten generation =>
    simp only [ExtTreeMap.getElem?_erase] at hread hread'
    split_ifs at hread hread'
    exact hx ieee entry hread hcurrent ieee' entry' hread' hroute
  | rebound generation =>
    rw [ExtTreeMap.getElem?_map] at hread
    obtain ⟨before, hbefore, rfl⟩ := Option.map_eq_some_iff.mp hread
    simp only [fenced] at hcurrent
    split_ifs at hcurrent

theorem run_append (table : Routes) (before after : List Change) :
    table.run (before ++ after) = (table.run before).run after := foldl_append

/-- Every table of a history is valid and keeps the routes of current entries apart. -/
theorem run_sound (h : table.valid = true) (hx : table.Exclusive) :
    ∀ changes : List Change, (table.run changes).valid = true ∧ (table.run changes).Exclusive := by
  intro changes
  induction changes generalizing table with
  | nil => exact ⟨h, hx⟩
  | cons change rest ih =>
    have hmoves := apply_moves h change
    exact ih (hmoves.valid h) (hmoves.exclusive hx)

theorem new_sound {capacity : Nat} (h : new epoch capacity = .ok table) :
    table.valid = true ∧ table.Exclusive := by
  unfold new failure at h
  split_ifs at h with hcapacity
  cases h
  exact ⟨valid_iff.mpr ⟨inRange_iff.mp hcapacity, Nat.zero_le _, by simp, by simp⟩, by simp [Exclusive]⟩

/-! ## Outgoing and incoming lookups -/

theorem usable_eq_ok (h : usable entry epoch now = .ok ()) : now < entry.expiresAtMs := by
  unfold usable failure at h
  split_ifs at h with h1 h2 h3 h4 h5
  exact lt_of_not_ge h5

theorem peerEntry_eq_ok : peerEntry table ieee = .ok entry ↔ table.entries[ieee]? = some entry := by
  unfold peerEntry
  cases table.entries[ieee]? <;> simp

/-- The entry of an incoming event is the only one at the event's route. -/
theorem sourceEntry_unique {route : Nat} {found : RouteEntry}
    (h : sourceEntry table (some route) = .ok entry) (hread : table.entries[ieee]? = some found)
    (hroute : found.routeAddress = route) : found = entry := by
  have hmem : found ∈ (table.entries.toList.map Prod.snd).filter
      fun e => some e.routeAddress = some route := by
    refine mem_filter.mpr ⟨mem_map.mpr ⟨(ieee, found), ?_, rfl⟩, by simp [hroute]⟩
    exact ExtTreeMap.mem_toList_iff_getElem?_eq_some.mpr hread
  unfold sourceEntry at h
  split at h
  · rename_i only honly
    rw [honly, mem_singleton] at hmem
    rw [hmem, Outcome.ok.inj h]
  all_goals cases h

theorem resolve_eq_ok (h : table.resolve event now = .ok resolution) :
    sourceEntry table event.sourceAddress = .ok resolution.entry ∧
      ∃ received, event.receivedAtMs = some received ∧ received ≤ now := by
  simp only [resolve, bind_eq_ok, exists_unit, observationAdmission, require_eq_ok, Bool.and_eq_true] at h
  obtain ⟨-, -, entry, hentry, -, ⟨hreceived, -⟩, h⟩ := h
  cases h
  obtain ⟨received, hr, hle⟩ := (Option.any_eq_true _ _).mp hreceived
  simp only [Bool.and_eq_true, decide_eq_true_eq] at hle
  exact ⟨hentry, received, hr, hle.2⟩

theorem checkPeer_eq_ok {route : Nat} (h : table.checkPeer ieee route epoch now = .ok expiry) :
    ∃ entry, table.entries[ieee]? = some entry ∧ entry.routeAddress = route := by
  simp only [checkPeer, bind_eq_ok, exists_unit, peerEntry_eq_ok] at h
  obtain ⟨-, -, -, entry, hread, -, h⟩ := h
  unfold failure at h
  split_ifs at h with hroute
  exact ⟨entry, hread, hroute⟩

/-- A request is accepted at the route of its peer, before the custody of the route expires. -/
theorem checkRequest_eq_ok (h : table.checkRequest request epoch now = .ok expiry) :
    now < expiry ∧ ∃ entry, table.entries[request.peerIeee]? = some entry ∧
      entry.routeAddress = request.routeAddress := by
  simp only [checkRequest, bind_eq_ok, exists_unit, peerEntry_eq_ok, require_eq_ok, decide_eq_true_eq] at h
  obtain ⟨-, -, -, entry, hread, husable, hroute, h⟩ := h
  cases h
  exact ⟨usable_eq_ok husable, entry, hread, hroute⟩

theorem checkRequest_ne_raise : table.checkRequest request epoch now ≠ .raise := by
  iterate 3 refine bind_ne_raise require_ne_raise fun _ _ => ?_
  refine bind_ne_raise ?_ fun entry _ => ?_
  · unfold peerEntry
    split <;> simp [failure]
  refine bind_ne_raise ?_ fun _ _ => ?_
  · unfold usable
    split_ifs <;> simp [failure]
  · exact bind_ne_raise require_ne_raise fun _ _ => by simp

/-- An event from the route of a recorded peer is attributed to that peer, if to any. -/
theorem resolve_peer (hvalid : table.valid = true) (hread : table.entries[ieee]? = some entry)
    (hsource : event.sourceAddress = some entry.routeAddress)
    (h : table.resolve event now = .ok resolution) : resolution.entry.peerIeee = ieee := by
  have hunique : entry = resolution.entry :=
    sourceEntry_unique (hsource ▸ (resolve_eq_ok h).1) hread rfl
  rw [← hunique]
  exact (valid_peer ((valid_iff.mp hvalid).2.2.2 ieee entry hread)).1

/-! ## Owner sequences -/

/-- The change is neither a `rebind` nor a `forget` of the peer. -/
def Change.Keeps (ieee : Ieee) : Change → Prop
  | .adopt .. => True
  | .forget other => other ≠ ieee
  | .rebind _ => False

theorem Claim.sequence {previous : RouteEntry} (claim : Claim table result now ttl entry)
    (hread : table.entries[entry.peerIeee]? = some previous)
    (hepoch : previous.ownerEpoch = table.epoch) : previous.ownerSequence ≤ entry.ownerSequence := by
  have hfresh := claim.fresh previous hread
  by_contra hlt
  simp [RouteEntry.stale, hepoch, claim.epoch, hlt] at hfresh

/-- **One change.** A peer's record of the table's own epoch stays one, and its owner sequence does
not go back. -/
theorem Moves.sequence (hmoves : Moves table change table') (hread : table.entries[ieee]? = some entry)
    (hepoch : entry.ownerEpoch = table.epoch) (hkeeps : change.Keeps ieee) :
    ∃ entry', table'.entries[ieee]? = some entry' ∧ entry'.ownerEpoch = table'.epoch ∧
      entry.ownerSequence ≤ entry'.ownerSequence := by
  cases hmoves with
  | kept => exact ⟨entry, hread, hepoch, le_refl _⟩
  | @stored result now ttl fresh claim free room =>
    rw [getElem?_stored]
    by_cases hpeer : ieee = fresh.peerIeee
    · subst hpeer
      rw [if_pos rfl]
      exact ⟨_, rfl, claim.epoch.symm, claim.sequence hread hepoch⟩
    · rw [if_neg hpeer]
      exact ⟨entry, hread, hepoch, le_refl _⟩
  | @conflicted result now ttl fresh first old rest claim occupied =>
    rw [getElem?_conflicted]
    by_cases hpeer : ieee = fresh.peerIeee
    · subst hpeer
      have hmem : fresh.peerIeee ∈ table.entries := by
        rw [ExtTreeMap.mem_iff_isSome_getElem?, hread]
        rfl
      rw [if_pos rfl, if_pos (Or.inr hmem)]
      exact ⟨_, rfl, claim.epoch.symm, claim.sequence hread hepoch⟩
    · rw [if_neg hpeer, hread]
      refine ⟨_, rfl, ?_⟩
      unfold challenged
      split_ifs <;> exact ⟨hepoch, le_refl _⟩
  | @forgotten other generation =>
    have hne : other ≠ ieee := hkeeps
    exact ⟨entry, by simp [ExtTreeMap.getElem?_erase, hne, hread], hepoch, le_refl _⟩
  | rebound => exact hkeeps.elim

/-- **A history without `rebind` and without `forget` of the peer.** -/
theorem run_sequence : ∀ {changes : List Change} {table : Routes} {entry : RouteEntry},
    table.valid = true → table.entries[ieee]? = some entry → entry.ownerEpoch = table.epoch →
    (∀ change ∈ changes, change.Keeps ieee) →
    ∃ entry', (table.run changes).entries[ieee]? = some entry' ∧ entry.ownerSequence ≤ entry'.ownerSequence
  | [], _, entry, _, hread, _, _ => ⟨entry, hread, le_refl _⟩
  | change :: rest, table, entry, h, hread, hepoch, hkeeps => by
    obtain ⟨hchange, hrest⟩ := forall_mem_cons.mp hkeeps
    have hmoves := apply_moves h change
    obtain ⟨middle, hmiddle, hmepoch, hle⟩ := hmoves.sequence hread hepoch hchange
    obtain ⟨last, hlast, hle'⟩ := run_sequence (hmoves.valid h) hmiddle hmepoch hrest
    exact ⟨last, hlast, hle.trans hle'⟩

/-- **The route table never confuses two devices.** In every table of a history that starts at
`new/2` a current entry's route is its own; whenever a peer or a request is accepted for an identity
and a route, an event from that route that `resolve/3` accepts is attributed to that identity; and
until the next `rebind/2` the owner sequence of a record that was adopted in the table's epoch does
not decrease, except that `forget/2` removes the record. -/
theorem devices_distinct {epoch : Reference} {capacity : Nat} {start : Routes}
    (hnew : new epoch capacity = .ok start) (changes : List Change) :
    (start.run changes).Exclusive ∧
    (∀ (ieee : Ieee) (route : Nat) (owner : Reference) (now expiry : Int),
      (start.run changes).checkPeer ieee route owner now = .ok expiry →
      ∀ (event : Event) (arrival : Int) (resolution : Resolution),
        event.sourceAddress = some route →
        (start.run changes).resolve event arrival = .ok resolution →
        resolution.entry.peerIeee = ieee) ∧
    (∀ (request : DataRequest) (owner : Reference) (now expiry : Int),
      (start.run changes).checkRequest request owner now = .ok expiry →
      ∀ (event : Event) (arrival : Int) (resolution : Resolution),
        event.sourceAddress = some request.routeAddress →
        (start.run changes).resolve event arrival = .ok resolution →
        resolution.entry.peerIeee = request.peerIeee) ∧
    (∀ (ieee : Ieee) (entry : RouteEntry),
      (start.run changes).entries[ieee]? = some entry →
      entry.ownerEpoch = (start.run changes).epoch →
      ∀ later : List Change, (∀ change ∈ later, change.Keeps ieee) →
        ∃ entry', (start.run (changes ++ later)).entries[ieee]? = some entry' ∧
          entry.ownerSequence ≤ entry'.ownerSequence) := by
  obtain ⟨hvalid, hexclusive⟩ := run_sound (new_sound hnew).1 (new_sound hnew).2 changes
  refine ⟨hexclusive, ?_, ?_, ?_⟩
  · intro ieee route owner now expiry hcheck event arrival resolution hsource hresolve
    obtain ⟨entry, hread, rfl⟩ := checkPeer_eq_ok hcheck
    exact resolve_peer hvalid hread hsource hresolve
  · intro request owner now expiry hcheck event arrival resolution hsource hresolve
    obtain ⟨-, entry, hread, hroute⟩ := checkRequest_eq_ok hcheck
    exact resolve_peer hvalid hread (hroute ▸ hsource) hresolve
  · intro ieee entry hread hepoch later hkeeps
    rw [run_append]
    exact run_sequence hvalid hread hepoch hkeeps

/-- An interview that identifies a peer, at an owner epoch and sequence. -/
def interviewed (epoch sequence : Nat) (peer : Ieee := 7) (route : Nat := 21) : Interview.Result where
  peerIeee := peer
  routeAddress := route
  ownerEpoch := epoch
  outcome := .complete
  identityMatches := true
  steps := [{
    stage := .identity
    admission := some ⟨5, 1, 0, [0]⟩
    response := some {
      kind := .zdoIeeeAddress, subsystem := 5, id := 0x81, payload := []
      status := some 0, zdo := some (.ieeeAddress 0 peer route), ownerEpoch := some epoch
      receivedAtMs := some 0, ownerSequence := some sequence }
    issues := [] }]

/-- Two peers are adopted, at routes of their own. -/
def adoptions : List Change := [.adopt (interviewed 1 3) 0 10, .adopt (interviewed 1 4 8 22) 0 10]

/-- A message from the second one's route. -/
def incoming : Event where
  kind := .afIncoming
  subsystem := 4
  id := 0x81
  payload := []
  sourceAddress := some 22
  ownerEpoch := some 1
  receivedAtMs := some 5
  ownerSequence := some 5

theorem interview_distinct :
    (run { epoch := 1, capacity := 4 } adoptions).Exclusive ∧
      (∃ resolution, (run { epoch := 1, capacity := 4 } adoptions).resolve incoming 6 = .ok resolution ∧
        resolution.entry.peerIeee = 8) ∧
      ∃ entry', (run { epoch := 1, capacity := 4 } (adoptions ++
          [.adopt (interviewed 1 5) 0 10])).entries[(7 : Ieee)]? = some entry' ∧
        3 ≤ entry'.ownerSequence := by
  have h : new 1 4 = .ok { epoch := 1, capacity := 4 } := by decide
  obtain ⟨exclusive, peer, -, sequence⟩ := devices_distinct h adoptions
  refine ⟨exclusive, ?_, ?_⟩
  · have hsome : ((run { epoch := 1, capacity := 4 } adoptions).resolve incoming 6).toOption.isSome := by
      decide +kernel
    obtain ⟨resolution, hresolve⟩ := Option.isSome_iff_exists.mp hsome
    have hresolve := Outcome.toOption_eq_some.mp hresolve
    exact ⟨resolution, hresolve, peer 8 22 1 5 10 (by decide +kernel) incoming 6 resolution rfl hresolve⟩
  · exact sequence 7
      { peerIeee := 7, routeAddress := 21, ownerEpoch := 1, ownerSequence := 3, generation := 1
        observedAtMs := 0, expiresAtMs := 10, status := .current, lastConflict := none }
      (by decide) (by decide) [.adopt (interviewed 1 5) 0 10] (by simp [Change.Keeps])

/-- A record kept over `rebind/2` has the sequence of the old epoch. The first adoption in the new
epoch is compared with nothing, so the peer's sequence falls from 100 to 5 without a `forget/2` and
without a further `rebind/2`. -/
theorem sequence_restarts_after_rebind :
    ∃ (start table : Routes) (before after : RouteEntry),
      new 1 4 = .ok start ∧
      table = start.run [.adopt (interviewed 1 100) 0 10, .rebind 2] ∧
      table.entries[(7 : Ieee)]? = some before ∧
      (table.run [.adopt (interviewed 2 5) 0 10]).entries[(7 : Ieee)]? = some after ∧
      (table.run [.adopt (interviewed 2 5) 0 10]).epoch = table.epoch ∧
      after.ownerSequence < before.ownerSequence :=
  ⟨{ epoch := 1, capacity := 4 }, _,
    { peerIeee := 7, routeAddress := 21, ownerEpoch := 1, ownerSequence := 100, generation := 1
      observedAtMs := 0, expiresAtMs := 10, status := .unverified, lastConflict := none },
    { peerIeee := 7, routeAddress := 21, ownerEpoch := 2, ownerSequence := 5, generation := 3
      observedAtMs := 0, expiresAtMs := 10, status := .current, lastConflict := none },
    by decide, rfl, by decide, by decide, by decide, by decide⟩

end Routes

end Wotex.Zigbee
