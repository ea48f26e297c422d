import Wotex.Zigbee.Observation
import Wotex.Zigbee.Routes

/-!
# Reporting cadence (`freshness.ex`)

The consumer's table of expected streams. Each entry keeps its policy, when it was armed, the latest
matching receipt, the latest eligible one and one previous receipt. A periodic entry is late once
its interval and grace have passed since the eligible receipt, or since arming.

* `observe` goes through the route table and the decoders, and visits the entries in key order. The
  visit is a fold that could leave by an exception (`Observation.build`); `matchEntries_eq` says that
  it does not on a valid table and what it computes.
* A `Call` is one call of the consumer; refused calls leave the table. `Happening` is what an
  accepted call adds to the history, newest first.
* The meaning of lateness is stated on the history alone: `arming` is the last arming of a stream,
  `lastEligible` the receipt time of its last eligible observation since, by what the message holds
  (`Observation.renews`) and not by the receipt it got.

Results:
* `valid_iff`: `valid?/1` decides `Sound`, which every accepted call keeps (`arm_eq_ok`,
  `snapshot_eq_ok`, `forget_eq_ok`, `rebind_eq_ok` and `Accepts.sound_table`).
* `Tracks`: the table agrees with the history, stream by stream; `Tracks.next` is the step.
* `lateness_exact`: a periodic row is late exactly when the history says so.
-/

namespace Wotex.Zigbee

open Observation

open Std (ExtTreeMap)

/-- The time a receipt's event was observed; valid receipts have one. -/
def Receipt.receivedAt (receipt : Receipt) : Int := receipt.event.receivedAtMs.getD 0

/-- The owner sequence of a receipt's event; valid receipts have one. -/
def Receipt.sequence (receipt : Receipt) : Nat := receipt.event.ownerSequence.getD 0

/-- `history`. -/
structure PreviousReceipt where
  policy : Policy
  receipt : Receipt
  deriving DecidableEq

/-- `entry`. -/
structure FreshnessEntry where
  policy : Policy
  armedAtMs : Int
  latest : Option Receipt
  eligible : Option Receipt
  previous : Option PreviousReceipt
  deriving DecidableEq

structure Freshness where
  epoch : Reference
  capacity : Nat
  lastNowMs : Option Int := none
  lastOwnerSequence : Nat := 0
  lastReceivedAtMs : Option Int := none
  entries : ExtTreeMap PolicyKey FreshnessEntry compare := ∅
  deriving DecidableEq

/-- `state` of a row. -/
inductive RowState where
  | awaiting | withinWindow | late | onChange | disabled

/-- `row`: an entry with its state and deadline. -/
structure Row where
  entry : FreshnessEntry
  state : RowState
  dueAtMs : Option Int

/-- An element of `matched`. -/
structure Matched where
  policy : Policy
  receipt : Receipt

namespace FreshnessEntry

variable (entry : FreshnessEntry)

/-- The time an entry's window is counted from. -/
def basis : Int :=
  match entry.eligible with
  | none => entry.armedAtMs
  | some receipt => receipt.receivedAt

def deadline : Option Int :=
  match entry.policy.expectedInterval with
  | .periodic interval => some (entry.basis + interval + entry.policy.graceMs)
  | .onChange | .disabled => none

def validDeadline : Bool := entry.deadline.all validTime

/-- `freshness.ex:282-284`. -/
def history : Option FreshnessEntry → Option PreviousReceipt
  | none => none
  | some entry =>
    match entry.latest with
    | none => entry.previous
    | some receipt => some ⟨entry.policy, receipt⟩

/-- `reset_entry/3`. -/
def reset (policy : Policy) (previous : Option FreshnessEntry) (now : Int) : FreshnessEntry where
  policy := policy
  armedAtMs := now
  latest := none
  eligible := none
  previous := history previous

/-- The entry after a matching receipt. -/
def withReceipt (receipt : Receipt) : FreshnessEntry :=
  { entry with
    latest := some receipt
    eligible := if Observation.eligible receipt then some receipt else entry.eligible }

/-- `state` of `row/2`. -/
def state (now : Int) : RowState :=
  match entry.policy.expectedInterval with
  | .onChange => .onChange
  | .disabled => .disabled
  | .periodic interval =>
    if entry.basis + interval + entry.policy.graceMs ≤ now then .late
    else if entry.eligible.isNone then .awaiting
    else .withinWindow

def row (now : Int) : Row where
  entry := entry
  state := entry.state now
  dueAtMs := entry.deadline

/-- `freshness.ex:344-360`. -/
def receiptOrder : Bool :=
  match entry.latest, entry.eligible with
  | none, none => true
  | none, some _ => false
  | some latest, eligible =>
    if Observation.eligible latest then eligible = some latest
    else
      match eligible with
      | none => true
      | some receipt =>
        Observation.eligible receipt && decide (receipt.sequence < latest.sequence) &&
          decide (receipt.receivedAt ≤ latest.receivedAt)

end FreshnessEntry

def validHistory (previous : Option PreviousReceipt) (key : PolicyKey) (armed : Int) : Bool :=
  previous.all fun history =>
    history.policy.valid && history.policy.key = some key &&
      Observation.validReceipt history.receipt history.policy &&
      decide (history.receipt.receivedAt ≤ armed)

namespace Freshness

def error (kind : Kind) : Error := ⟨kind, .freshness⟩

def failure {α : Type} (kind : Kind) : Result α := .refuse (error kind)

@[simp] theorem failure_eq_ok {α : Type} {kind : Kind} {a : α} : failure kind = .ok a ↔ False := by
  simp [failure]

def new (epoch : Reference) (capacity : Nat := 128) : Result Freshness :=
  if inRange capacity 1 1024 then .ok { epoch, capacity } else failure .invalidValue

variable (table : Freshness)

/-- `freshness.ex:312-320`. -/
def validWatermarks : Bool :=
  (table.lastNowMs.any validTime ||
      table.lastNowMs.isNone && table.lastOwnerSequence = 0 && table.entries.isEmpty) &&
    if table.lastOwnerSequence = 0 then table.lastReceivedAtMs.isNone
    else table.lastReceivedAtMs.any fun received =>
      validTime received && table.lastNowMs.all fun now => received ≤ now

/-- `freshness.ex:334-342`. -/
def currentReceipt (receipt : Option Receipt) (entry : FreshnessEntry) (table : Freshness) : Bool :=
  receipt.all fun receipt =>
    validReceipt receipt entry.policy &&
      receipt.event.ownerEpoch = some table.epoch &&
      decide (entry.armedAtMs ≤ receipt.receivedAt) &&
      (table.lastReceivedAtMs.all fun last => receipt.receivedAt ≤ last) &&
      decide (receipt.sequence ≤ table.lastOwnerSequence)

def validEntry (key : PolicyKey) (entry : FreshnessEntry) (table : Freshness) : Bool :=
  entry.policy.valid && entry.policy.key = some key && validTime entry.armedAtMs &&
    (table.lastNowMs.any fun now => validTime now && decide (entry.armedAtMs ≤ now)) &&
    currentReceipt entry.latest entry table && currentReceipt entry.eligible entry table &&
    entry.receiptOrder && validHistory entry.previous key entry.armedAtMs && entry.validDeadline

def valid : Bool :=
  inRange table.capacity 1 1024 && inRange table.lastOwnerSequence 0 maxGeneration &&
    decide (table.entries.size ≤ table.capacity) && table.validWatermarks &&
    table.entries.toList.all fun e => validEntry e.1 e.2 table

def admission (now : Int) : Result Unit :=
  if ¬ table.valid ∨ ¬ validTime now then failure .invalidValue
  else if table.lastNowMs.any fun last => now < last then failure .staleObservation
  else .ok ()

def capacityAdmission (key : PolicyKey) : Result Unit :=
  .require (decide (table.entries.size < table.capacity) || table.entries.contains key) (error .overload)

/-- The selector of a policy that passes `Policy.valid?/1`. -/
def policyKey (policy : Policy) : Result PolicyKey :=
  match policy.key with
  | some key => .ok key
  | none => failure .invalidValue

/-- `freshness.ex:123-135`. -/
def arm (policy : Policy) (now : Int) : Result Freshness := do
  admission table now
  let key ← policyKey policy
  capacityAdmission table key
  .require (FreshnessEntry.reset policy table.entries[key]? now).validDeadline (error .invalidValue)
  .ok { table with
    entries := table.entries.insert key (.reset policy table.entries[key]? now)
    lastNowMs := some now }

def sameEpoch {α : Type} [DecidableEq α] (epoch other : α) : Result Unit :=
  .require (epoch = other) (error .staleEpoch)

def observationAdmission (event : Event) : Result Unit :=
  .require
    ((event.ownerSequence.any fun sequence => table.lastOwnerSequence < sequence) &&
      table.lastReceivedAtMs.all fun last => event.receivedAtMs.any fun received => last ≤ received)
    (error .staleObservation)

/-- The receipt of an event for one entry, if it was observed since the entry was armed. -/
def matching (entry : FreshnessEntry) (peer : Ieee) (event : Event) (message : Message) :
    Result (Option Receipt) := do
  let receipt ← build entry.policy peer event message
  .ok (receipt.filter fun receipt => entry.armedAtMs ≤ receipt.receivedAt)

/-- The entries and the matched receipts, last one first, of a visit. -/
abbrev Visit := ExtTreeMap PolicyKey FreshnessEntry compare × List Matched

/-- One step of `match_entries/4`. -/
def visit (peer : Ieee) (event : Event) (message : Message) (state : Visit)
    (e : PolicyKey × FreshnessEntry) : Result Visit := do
  let receipt ← matching e.2 peer event message
  .ok (match receipt with
    | some receipt => (state.1.insert e.1 (e.2.withReceipt receipt),
        ⟨e.2.policy, receipt⟩ :: state.2)
    | none => state)

def matchEntries (entries : ExtTreeMap PolicyKey FreshnessEntry compare) (peer : Ieee)
    (event : Event) (message : Message) : Result Visit := do
  let state ← entries.toList.foldlM (visit peer event message) (entries, [])
  .ok (state.1, state.2.reverse)

/-- What `observe/4` returns; `peer` is the source that the route table gave. -/
structure Observed where
  table : Freshness
  peer : Ieee
  event : Event
  message : Message
  matched : List Matched

/-- `freshness.ex:160-183`. -/
def observe (routes : Routes) (event : Event) (now : Int) :
    Result Observed := do
  admission table now
  .require (routes.valid && validEvent event) (error .invalidValue)
  sameEpoch table.epoch routes.epoch
  sameEpoch (some table.epoch) event.ownerEpoch
  observationAdmission table event
  let source ← routes.resolve event now
  let message ← decode event
  let state ← matchEntries table.entries source.entry.peerIeee event message
  .require (state.1.toList.all fun e => e.2.validDeadline) (error .invalidValue)
  .ok {
    table := { table with
      entries := state.1, lastNowMs := some now
      lastOwnerSequence := event.ownerSequence.getD 0, lastReceivedAtMs := event.receivedAtMs }
    peer := source.entry.peerIeee, event, message, matched := state.2 }

/-- What `snapshot/2` returns. -/
structure Snapshot where
  table : Freshness
  evaluatedAtMs : Int
  rows : List Row

def snapshot (now : Int) : Result Snapshot := do
  admission table now
  .ok {
    table := { table with lastNowMs := some now }, evaluatedAtMs := now
    rows := table.entries.toList.map fun e => e.2.row now }

/-- `freshness.ex:210-220`. -/
def forget (policy : Policy) (now : Int) :
    Result (Freshness × FreshnessEntry) := do
  admission table now
  let key ← policyKey policy
  match table.entries[key]? with
  | some entry => .ok ({ table with entries := table.entries.erase key, lastNowMs := some now }, entry)
  | none => failure .invalidValue

/-- `freshness.ex:231-252`. -/
def rebind (epoch : Reference) (now : Int) : Result Freshness := do
  admission table now
  .require (epoch ≠ table.epoch) (error .invalidValue)
  let entries := table.entries.map fun _ entry => FreshnessEntry.reset entry.policy (some entry) now
  .require (entries.toList.all fun e => e.2.validDeadline) (error .invalidValue)
  .ok { table with
    epoch, entries, lastNowMs := some now, lastOwnerSequence := 0, lastReceivedAtMs := none }

/-! ## Validity -/

/-- What `current_receipt?/3` says of a receipt in a valid table. -/
structure Current (receipt : Receipt) (entry : FreshnessEntry) (epoch : Reference)
    (last : Option Int) (sequence : Nat) : Prop where
  valid : validReceipt receipt entry.policy = true
  epoch : receipt.event.ownerEpoch = some epoch
  armed : entry.armedAtMs ≤ receipt.receivedAt
  received : ∃ received, last = some received ∧ receipt.receivedAt ≤ received
  sequence : receipt.sequence ≤ sequence

/-- What `valid_entry?/3` says of an entry in a valid table with these watermarks. -/
structure Held (key : PolicyKey) (entry : FreshnessEntry) (epoch : Reference)
    (clock last : Option Int) (sequence : Nat) : Prop where
  policy : entry.policy.valid = true
  selector : entry.policy.selector = key
  armedTime : validTime entry.armedAtMs = true
  armed : ∃ now, clock = some now ∧ entry.armedAtMs ≤ now
  latest : ∀ receipt, entry.latest = some receipt → Current receipt entry epoch last sequence
  eligible : ∀ receipt, entry.eligible = some receipt → Current receipt entry epoch last sequence
  order : entry.receiptOrder = true
  previous : validHistory entry.previous key entry.armedAtMs = true
  deadline : entry.validDeadline = true

/-- What `valid?/1` says. -/
structure Sound (table : Freshness) : Prop where
  capacity : 1 ≤ table.capacity ∧ table.capacity ≤ 1024
  sequence : table.lastOwnerSequence ≤ maxGeneration
  size : table.entries.size ≤ table.capacity
  clock : ∀ now, table.lastNowMs = some now → validTime now = true
  unused : table.lastNowMs = none → table.lastOwnerSequence = 0 ∧ table.entries = ∅
  unseen : table.lastOwnerSequence = 0 → table.lastReceivedAtMs = none
  seen : table.lastOwnerSequence ≠ 0 → ∃ received now, table.lastReceivedAtMs = some received ∧
    validTime received = true ∧ table.lastNowMs = some now ∧ received ≤ now
  entries : ∀ key entry, table.entries[key]? = some entry →
    Held key entry table.epoch table.lastNowMs table.lastReceivedAtMs table.lastOwnerSequence

variable {receipt : Receipt} {policy : Policy} {entry : FreshnessEntry} {table} {table' : Freshness}
  {key : PolicyKey} {now : Int} {epoch : Reference} {clock last last' : Option Int}
  {sequence sequence' : Nat}

theorem sequence_pos (h : validReceipt receipt policy = true) : 1 ≤ receipt.sequence := by
  simp only [validReceipt, validEvent, ownerFields, Bool.and_eq_true] at h
  obtain ⟨sequence, hsequence, hrange⟩ := (Option.any_eq_true _ _).mp h.1.1.2.1.2
  simp only [Receipt.sequence, hsequence]
  exact (inRange_iff.mp hrange).1

theorem currentReceipt_iff {receipt : Option Receipt}
    (hseen : table.lastOwnerSequence ≠ 0 → ∃ received, table.lastReceivedAtMs = some received) :
    currentReceipt receipt entry table = true ↔ ∀ found, receipt = some found →
      Current found entry table.epoch table.lastReceivedAtMs table.lastOwnerSequence := by
  rw [currentReceipt, Option.all_eq_true]
  refine forall_congr' fun found => imp_congr_right fun _ => ?_
  simp only [Bool.and_eq_true, decide_eq_true_eq, Option.all_eq_true]
  constructor
  · rintro ⟨⟨⟨⟨hvalid, hepoch⟩, harmed⟩, hreceived⟩, hsequence⟩
    -- a receipt has a positive sequence, so the table has seen an event
    have hpos := sequence_pos hvalid
    obtain ⟨last, hlast⟩ := hseen (by omega)
    exact ⟨hvalid, hepoch, harmed, ⟨last, hlast, hreceived last hlast⟩, hsequence⟩
  · rintro ⟨hvalid, hepoch, harmed, ⟨last, hlast, hle⟩, hsequence⟩
    refine ⟨⟨⟨⟨hvalid, hepoch⟩, harmed⟩, fun other hother => ?_⟩, hsequence⟩
    rw [hlast, Option.some.injEq] at hother
    exact hother ▸ hle

theorem validEntry_iff (hclock : ∀ now, table.lastNowMs = some now → validTime now = true)
    (hseen : table.lastOwnerSequence ≠ 0 → ∃ received, table.lastReceivedAtMs = some received) :
    validEntry key entry table = true ↔ Held key entry table.epoch table.lastNowMs
      table.lastReceivedAtMs table.lastOwnerSequence := by
  simp only [validEntry, Bool.and_eq_true, decide_eq_true_eq, Policy.key_eq_some,
    currentReceipt_iff hseen, Option.any_eq_true]
  constructor
  · rintro ⟨⟨⟨⟨⟨⟨⟨⟨hpolicy, hkey⟩, harmed⟩, now, hnow, -, hle⟩, hlatest⟩, heligible⟩, horder⟩,
      hprevious⟩, hdeadline⟩
    exact ⟨hpolicy, hkey.2, harmed, ⟨now, hnow, hle⟩, hlatest, heligible, horder, hprevious, hdeadline⟩
  · rintro ⟨hpolicy, hkey, harmed, ⟨now, hnow, hle⟩, hlatest, heligible, horder, hprevious, hdeadline⟩
    exact ⟨⟨⟨⟨⟨⟨⟨⟨hpolicy, hpolicy, hkey⟩, harmed⟩, now, hnow, hclock now hnow, hle⟩, hlatest⟩,
      heligible⟩, horder⟩, hprevious⟩, hdeadline⟩

theorem validWatermarks_iff : table.validWatermarks = true ↔
    (∀ now, table.lastNowMs = some now → validTime now = true) ∧
    (table.lastNowMs = none → table.lastOwnerSequence = 0 ∧ table.entries = ∅) ∧
    (table.lastOwnerSequence = 0 → table.lastReceivedAtMs = none) ∧
    (table.lastOwnerSequence ≠ 0 → ∃ received now, table.lastReceivedAtMs = some received ∧
      validTime received = true ∧ table.lastNowMs = some now ∧ received ≤ now) := by
  unfold validWatermarks
  cases hnow : table.lastNowMs with
  | none =>
    by_cases hzero : table.lastOwnerSequence = 0
    · simp [hzero]
    · simp [hzero]
  | some now =>
    by_cases hzero : table.lastOwnerSequence = 0
    · simp [hzero]
    · simp [hzero, Option.any_eq_true]

/-- **`valid?/1` decides `Sound`.** -/
theorem valid_iff : table.valid = true ↔ table.Sound := by
  simp only [valid, Bool.and_eq_true, inRange_iff, decide_eq_true_eq, validWatermarks_iff,
    List.all_eq_true, Prod.forall, ExtTreeMap.mem_toList_iff_getElem?_eq_some]
  constructor
  · rintro ⟨⟨⟨⟨hcapacity, hsequence⟩, hsize⟩, hclock, hunused, hunseen, hseen⟩, hentries⟩
    refine ⟨hcapacity, hsequence.2, hsize, hclock, hunused, hunseen, hseen, ?_⟩
    intro key entry hread
    refine (validEntry_iff hclock fun h => ?_).mp (hentries key entry hread)
    obtain ⟨received, -, hreceived, -⟩ := hseen h
    exact ⟨received, hreceived⟩
  · intro h
    refine ⟨⟨⟨⟨h.capacity, Nat.zero_le _, h.sequence⟩, h.size⟩, h.clock, h.unused, h.unseen, h.seen⟩, ?_⟩
    intro key entry hread
    refine (validEntry_iff h.clock fun hs => ?_).mpr (h.entries key entry hread)
    obtain ⟨received, -, hreceived, -⟩ := h.seen hs
    exact ⟨received, hreceived⟩

theorem policyKey_eq_ok : policyKey policy = .ok key ↔ policy.valid = true ∧ policy.selector = key := by
  unfold policyKey
  cases hkey : policy.key with
  | none =>
    simp only [failure_eq_ok, false_iff]
    intro h
    rw [Policy.key_eq_some.mpr h] at hkey
    cases hkey
  | some found =>
    rw [← Policy.key_eq_some, hkey]
    simp

/-! ## Entries over time -/

/-- The receipts of an entry stay current while the watermarks of one epoch move on. -/
theorem Held.later (h : Held key entry epoch clock last sequence) (hnow : ∀ t, clock = some t → t ≤ now)
    (hlast : ∀ t, last = some t → ∃ t', last' = some t' ∧ t ≤ t') (hsequence : sequence ≤ sequence') :
    Held key entry epoch (some now) last' sequence' := by
  have hcurrent : ∀ receipt, Current receipt entry epoch last sequence →
      Current receipt entry epoch last' sequence' := by
    intro receipt hc
    obtain ⟨t, ht, hle⟩ := hc.received
    obtain ⟨t', ht', hle'⟩ := hlast t ht
    exact ⟨hc.valid, hc.epoch, hc.armed, ⟨t', ht', hle.trans hle'⟩, hc.sequence.trans hsequence⟩
  obtain ⟨t, ht, hle⟩ := h.armed
  exact { h with
    armed := ⟨now, rfl, hle.trans (hnow t ht)⟩
    latest := fun receipt hr => hcurrent receipt (h.latest receipt hr)
    eligible := fun receipt hr => hcurrent receipt (h.eligible receipt hr) }

/-- **An admitted call moves the clock of a valid table**, which stays valid. -/
theorem admission_eq_ok (h : admission table now = .ok ()) :
    validTime now = true ∧ Sound { table with lastNowMs := some now } := by
  unfold admission failure at h
  split_ifs at h with hvalid hstale
  rw [not_or, not_not, not_not] at hvalid
  have sound := valid_iff.mp hvalid.1
  have hlater : ∀ last, table.lastNowMs = some last → last ≤ now := by
    intro last hlast
    simpa [hlast] using hstale
  refine ⟨hvalid.2, { sound with clock := ?_, unused := ?_, seen := ?_, entries := ?_ }⟩
  · exact fun t ht => Option.some.inj ht ▸ hvalid.2
  · intro hn
    cases hn
  · intro hs
    obtain ⟨received, last, hreceived, hvalid, hlast, hle⟩ := sound.seen hs
    exact ⟨received, now, hreceived, hvalid, rfl, hle.trans (hlater last hlast)⟩
  · exact fun key entry hread => (sound.entries key entry hread).later hlater
      (fun t ht => ⟨t, ht, le_refl _⟩) (le_refl _)

/-- The receipt that an entry of a valid table hands on is a valid one from before. -/
theorem Sound.history (sound : Sound { table with lastNowMs := some now })
    (hread : table.entries[key]? = some entry) :
    validHistory (FreshnessEntry.history (some entry)) key now = true := by
  have h := sound.entries key entry hread
  cases hlatest : entry.latest with
  | none =>
    obtain ⟨last, hlast, harmed⟩ := h.armed
    cases hlast
    have hprevious := h.previous
    simp only [FreshnessEntry.history, hlatest]
    simp only [validHistory, Option.all_eq_true, Bool.and_eq_true, decide_eq_true_eq] at hprevious ⊢
    intro previous hp
    obtain ⟨hvalid, hle⟩ := hprevious previous hp
    exact ⟨hvalid, hle.trans harmed⟩
  | some receipt =>
    have hc := h.latest receipt hlatest
    have hpos := sequence_pos hc.valid
    obtain ⟨last, hlast, hle⟩ := hc.received
    obtain ⟨received, watermark, hreceived, -, hwatermark, hbefore⟩ :=
      sound.seen (by have := hc.sequence; omega)
    obtain rfl := Option.some.inj (hlast.symm.trans hreceived)
    cases hwatermark
    simp only [FreshnessEntry.history, hlatest, validHistory, Option.all_some, Bool.and_eq_true,
      decide_eq_true_eq]
    exact ⟨⟨⟨h.policy, Policy.key_eq_some.mpr ⟨h.policy, h.selector⟩⟩, hc.valid⟩, hle.trans hbefore⟩

theorem held_reset {previous : Option FreshnessEntry} (hpolicy : policy.valid = true)
    (hkey : policy.selector = key) (hnow : validTime now = true)
    (hhistory : validHistory (FreshnessEntry.history previous) key now = true)
    (hdeadline : (FreshnessEntry.reset policy previous now).validDeadline = true) :
    Held key (FreshnessEntry.reset policy previous now) epoch (some now) last sequence where
  policy := hpolicy
  selector := hkey
  armedTime := hnow
  armed := ⟨now, rfl, le_refl _⟩
  latest := by
    intro receipt h
    cases h
  eligible := by
    intro receipt h
    cases h
  order := rfl
  previous := hhistory
  deadline := hdeadline

/-- Only eligible receipts are kept as such, and only after a matching one. -/
theorem eligible_of_order (h : entry.receiptOrder = true) (he : entry.eligible = some receipt) :
    Observation.eligible receipt = true := by
  unfold FreshnessEntry.receiptOrder at h
  rw [he] at h
  cases hl : entry.latest with
  | none => simp [hl] at h
  | some latest =>
    simp only [hl] at h
    split_ifs at h with hlatest
    · rw [decide_eq_true_eq, Option.some.injEq] at h
      exact h ▸ hlatest
    · simp only [Bool.and_eq_true] at h
      exact h.1.1

theorem Held.withReceipt (h : Held key entry epoch clock last sequence)
    (h' : Held key entry epoch clock last' sequence')
    (hreceipt : Current receipt entry epoch last' sequence') (hsequence : sequence < receipt.sequence)
    (hlast : ∀ t, last = some t → t ≤ receipt.receivedAt)
    (hdeadline : (entry.withReceipt receipt).validDeadline = true) :
    Held key (entry.withReceipt receipt) epoch clock last' sequence' where
  policy := h'.policy
  selector := h'.selector
  armedTime := h'.armedTime
  armed := h'.armed
  latest := by
    intro found hfound
    cases hfound
    exact { hreceipt with }
  eligible := by
    intro found hfound
    have hcurrent : Current found entry epoch last' sequence' := by
      simp only [FreshnessEntry.withReceipt] at hfound
      split_ifs at hfound
      · exact Option.some.inj hfound ▸ hreceipt
      · exact h'.eligible found hfound
    exact { hcurrent with }
  order := by
    by_cases he : Observation.eligible receipt = true
    · simp [FreshnessEntry.withReceipt, FreshnessEntry.receiptOrder, he]
    · cases hold : entry.eligible with
      | none => simp [FreshnessEntry.withReceipt, FreshnessEntry.receiptOrder, he, hold]
      | some old =>
        have hcurrent := h.eligible old hold
        obtain ⟨t, ht, hle⟩ := hcurrent.received
        have hbefore : old.receivedAt ≤ receipt.receivedAt := hle.trans (hlast t ht)
        have hless : old.sequence < receipt.sequence := hcurrent.sequence.trans_lt hsequence
        simp [FreshnessEntry.withReceipt, FreshnessEntry.receiptOrder, he, hold,
          eligible_of_order h.order hold, hbefore, hless]
  previous := h'.previous
  deadline := hdeadline

/-! ## What the calls return -/

theorem mem_of_all {m : ExtTreeMap PolicyKey FreshnessEntry compare}
    (h : (m.toList.all fun e => e.2.validDeadline) = true) (hread : m[key]? = some entry) :
    entry.validDeadline = true :=
  List.all_eq_true.mp h (key, entry) (ExtTreeMap.mem_toList_iff_getElem?_eq_some.mpr hread)

theorem arm_eq_ok (h : table.arm policy now = .ok table') : table'.Sound ∧ table' = { table with
      entries := table.entries.insert policy.selector (.reset policy table.entries[policy.selector]? now)
      lastNowMs := some now } := by
  simp only [arm, bind_eq_ok, exists_unit, policyKey_eq_ok, capacityAdmission,
    require_eq_ok, Bool.or_eq_true, decide_eq_true_eq] at h
  obtain ⟨hadmission, key, ⟨hpolicy, rfl⟩, hroom, hdeadline, h⟩ := h
  obtain ⟨hnow, sound⟩ := admission_eq_ok hadmission
  cases h
  refine ⟨{ sound with size := ?_, unused := by simp, entries := ?_ }, rfl⟩
  · simp only [ExtTreeMap.size_insert]
    split_ifs with hmem
    · exact sound.size
    · exact hroom.resolve_right hmem
  · intro key entry hread
    simp only [ExtTreeMap.getElem?_insert, compare_eq_iff_eq] at hread
    split_ifs at hread with hkey
    · cases hread
      refine held_reset hpolicy hkey hnow ?_ hdeadline
      cases hprevious : table.entries[policy.selector]? with
      | none => rfl
      | some previous => exact hkey ▸ sound.history hprevious
    · exact sound.entries key entry hread

variable {taken : Snapshot}

theorem snapshot_eq_ok (h : table.snapshot now = .ok taken) : taken.table.Sound ∧ taken = {
      table := { table with lastNowMs := some now }, evaluatedAtMs := now
      rows := table.entries.toList.map fun e => e.2.row now } := by
  simp only [snapshot, bind_eq_ok_unit] at h
  obtain rfl := Outcome.ok.inj h.2
  exact ⟨(admission_eq_ok h.1).2, rfl⟩

theorem forget_eq_ok {result : Freshness × FreshnessEntry} (h : table.forget policy now = .ok result) :
    result.1.Sound ∧ result.1 =
      { table with entries := table.entries.erase policy.selector, lastNowMs := some now } := by
  simp only [forget, bind_eq_ok, exists_unit, policyKey_eq_ok] at h
  obtain ⟨hadmission, key, ⟨-, rfl⟩, h⟩ := h
  have sound := (admission_eq_ok hadmission).2
  split at h
  · cases h
    refine ⟨{ sound with
      size := ExtTreeMap.size_erase_le.trans sound.size
      unused := by simp
      entries := fun key entry hread => ?_ }, rfl⟩
    simp only [ExtTreeMap.getElem?_erase] at hread
    split_ifs at hread
    exact sound.entries key entry hread
  · exact (failure_eq_ok.mp h).elim

theorem rebind_eq_ok (h : table.rebind epoch now = .ok table') :
    table'.Sound ∧ table' = { table with
      epoch, lastNowMs := some now, lastOwnerSequence := 0, lastReceivedAtMs := none
      entries := table.entries.map fun _ entry =>
        FreshnessEntry.reset entry.policy (some entry) now } := by
  simp only [rebind, bind_eq_ok_unit, require_eq_ok] at h
  obtain ⟨hadmission, -, hdeadlines, h⟩ := h
  obtain ⟨hnow, sound⟩ := admission_eq_ok hadmission
  cases h
  refine ⟨{ sound with
    sequence := Nat.zero_le _
    size := ExtTreeMap.size_map.trans_le sound.size
    unused := by simp
    unseen := fun _ => rfl
    seen := fun hs => absurd rfl hs
    entries := fun key entry hread => ?_ }, rfl⟩
  have hdeadline := mem_of_all hdeadlines hread
  rw [ExtTreeMap.getElem?_map] at hread
  obtain ⟨before, hbefore, rfl⟩ := Option.map_eq_some_iff.mp hread
  have held := sound.entries key before hbefore
  exact held_reset held.policy held.selector hnow (sound.history hbefore) hdeadline

/-- The receipt of an event for one entry. -/
def found (peer : Ieee) (event : Event) (message : Message) (entry : FreshnessEntry) : Option Receipt :=
  (matching entry peer event message).toOption.join

/-- The entry after an event. -/
def visited (peer : Ieee) (event : Event) (message : Message) (entry : FreshnessEntry) :
    Option FreshnessEntry :=
  (found peer event message entry).map entry.withReceipt

variable {peer : Ieee} {event : Event} {message : Message} {routes : Routes} {observed : Observed}

theorem matching_eq (peer : Ieee) (hpolicy : entry.policy.valid = true)
    (hdecode : decode event = .ok message) :
    matching entry peer event message = .ok (found peer event message entry) := by
  obtain ⟨receipt, hreceipt⟩ := build_total hpolicy hdecode peer
  have hmatching : matching entry peer event message =
      .ok (receipt.filter fun r => entry.armedAtMs ≤ r.receivedAt) := by
    rw [matching, hreceipt]
    rfl
  rw [found, hmatching]
  rfl

theorem foldlM_visit (peer : Ieee) (hdecode : decode event = .ok message) :
    ∀ (l : List (PolicyKey × FreshnessEntry)) (state : Visit), (∀ e ∈ l, e.2.policy.valid = true) →
      l.foldlM (visit peer event message) state = .ok
        (Maps.revise (visited peer event message) l state.1,
          (l.filterMap fun e => (found peer event message e.2).map (Matched.mk e.2.policy)).reverse ++
            state.2)
  | [], state, _ => by simp [Maps.revise]
  | e :: rest, state, h => by
    obtain ⟨he, hrest⟩ := List.forall_mem_cons.mp h
    rw [List.foldlM_cons, visit, matching_eq peer he hdecode, ok_bind, ok_bind,
      foldlM_visit peer hdecode rest _ hrest]
    cases hfound : found peer event message e.2 <;> simp [Maps.revise, visited, hfound]

/-- **The visit of a valid table.** It returns, with every matching entry revised and the matched
receipts in key order. -/
theorem matchEntries_eq {entries : ExtTreeMap PolicyKey FreshnessEntry compare} (peer : Ieee)
    (hpolicies : ∀ (key : PolicyKey) (entry : FreshnessEntry), entries[key]? = some entry →
      entry.policy.valid = true) (hdecode : decode event = .ok message) :
    matchEntries entries peer event message = .ok
      (Maps.revise (visited peer event message) entries.toList entries,
        entries.toList.filterMap fun e =>
          (found peer event message e.2).map (Matched.mk e.2.policy)) := by
  rw [matchEntries, foldlM_visit peer hdecode _ _ fun e he => hpolicies e.1 e.2
    (ExtTreeMap.mem_toList_iff_getElem?_eq_some.mp he)]
  simp

/-- What an accepted `observe/4` did. -/
structure Accepts (table : Freshness) (routes : Routes) (event : Event) (now : Int)
    (observed : Observed) : Prop where
  sound : Sound { table with lastNowMs := some now }
  valid : validEvent event = true
  epoch : event.ownerEpoch = some table.epoch
  resolved : ∃ source, routes.resolve event now = .ok source ∧ source.entry.peerIeee = observed.peer
  decoded : decode event = .ok observed.message
  sequence : ∃ sequence, event.ownerSequence = some sequence ∧ table.lastOwnerSequence < sequence
  received : ∃ received, event.receivedAtMs = some received ∧
    (∀ last, table.lastReceivedAtMs = some last → last ≤ received) ∧ received ≤ now
  updated : observed.table = { table with
    entries := Maps.revise (visited observed.peer event observed.message) table.entries.toList table.entries
    lastNowMs := some now, lastOwnerSequence := event.ownerSequence.getD 0
    lastReceivedAtMs := event.receivedAtMs }
  matched : observed.matched = table.entries.toList.filterMap fun e =>
    (found observed.peer event observed.message e.2).map (Matched.mk e.2.policy)
  deadlines : ∀ (key : PolicyKey) (entry : FreshnessEntry),
    observed.table.entries[key]? = some entry → entry.validDeadline = true

theorem observe_eq_ok (h : table.observe routes event now = .ok observed) :
    Accepts table routes event now observed := by
  simp only [observe, sameEpoch, observationAdmission, bind_eq_ok, exists_unit,
    require_eq_ok, Bool.and_eq_true, decide_eq_true_eq] at h
  obtain ⟨hadmission, ⟨-, hvalid⟩, -, hepoch, ⟨hsequence, hreceived⟩, source, hsource, message,
    hdecode, state, hstate, hdeadlines, h⟩ := h
  have sound := (admission_eq_ok hadmission).2
  rw [matchEntries_eq source.entry.peerIeee (fun key entry hread =>
    (sound.entries key entry hread).policy) hdecode] at hstate
  cases hstate
  cases h
  obtain ⟨sequence, hs, hless⟩ := (Option.any_eq_true _ _).mp hsequence
  obtain ⟨received, hr, hle⟩ := (Routes.resolve_eq_ok hsource).2
  refine ⟨sound, hvalid, hepoch.symm, ⟨source, hsource, rfl⟩, hdecode, ⟨sequence, hs, of_decide_eq_true hless⟩,
    ⟨received, hr, ?_, hle⟩, rfl, rfl, fun key entry hread => mem_of_all hdeadlines hread⟩
  intro last hlast
  simpa [hlast, hr] using hreceived

theorem found_eq_some : found peer event message entry = some receipt ↔
      build entry.policy peer event message = .ok (some receipt) ∧
        entry.armedAtMs ≤ receipt.receivedAt := by
  unfold found matching
  cases build entry.policy peer event message with
  | ok built => cases built <;> simp [Outcome.toOption]
  | refuse e => simp [Outcome.toOption]
  | raise => simp [Outcome.toOption]

section

variable (h : Accepts table routes event now observed)
include h

theorem Accepts.getElem? (key : PolicyKey) :
    observed.table.entries[key]? = table.entries[key]?.map fun entry =>
      (visited observed.peer event observed.message entry).getD entry := by
  rw [h.updated]
  exact Maps.getElem?_revise_toList _ _ key

theorem Accepts.held (hread : observed.table.entries[key]? = some entry) :
    Held key entry table.epoch (some now) event.receivedAtMs (event.ownerSequence.getD 0) := by
  obtain ⟨sequence, hsequence, hless⟩ := h.sequence
  obtain ⟨received, hreceived, hlast, -⟩ := h.received
  have hdeadline := h.deadlines key entry hread
  rw [h.getElem? key] at hread
  obtain ⟨before, hbefore, rfl⟩ := Option.map_eq_some_iff.mp hread
  have held := h.sound.entries key before hbefore
  rw [hsequence, hreceived]
  have hlater : Held key before table.epoch (some now) (some received) sequence :=
    held.later (fun t ht => (Option.some.inj ht).ge)
      (fun last hl => ⟨received, rfl, hlast last hl⟩) hless.le
  unfold visited at hdeadline ⊢
  cases hfound : found observed.peer event observed.message before with
  | none => exact hlater
  | some receipt =>
    rw [hfound] at hdeadline
    obtain ⟨hbuild, harmed⟩ := found_eq_some.mp hfound
    obtain ⟨-, hevent⟩ := (build_eq_ok hbuild).2 receipt rfl
    have hat : receipt.receivedAt = received := by
      rw [Receipt.receivedAt, hevent, hreceived]
      rfl
    have hseq : receipt.sequence = sequence := by
      rw [Receipt.sequence, hevent, hsequence]
      rfl
    exact held.withReceipt hlater ⟨build_validReceipt h.valid h.decoded hbuild,
      by rw [hevent, h.epoch], harmed, ⟨received, rfl, hat.le⟩, hseq.le⟩ (hseq ▸ hless)
      (fun last hl => hat ▸ hlast last hl) hdeadline

/-- **An accepted event keeps the table valid.** -/
theorem Accepts.sound_table : observed.table.Sound := by
  obtain ⟨sequence, hsequence, hless⟩ := h.sequence
  obtain ⟨received, hreceived, -, hle⟩ := h.received
  have howner : ownerFields event = true := by
    have := h.valid
    simp only [validEvent, Bool.and_eq_true] at this
    exact this.1.2
  simp only [ownerFields, hsequence, hreceived, Option.any_some, Bool.and_eq_true, inRange_iff] at howner
  have hentries : ∀ (key : PolicyKey) (entry : FreshnessEntry),
      observed.table.entries[key]? = some entry → _ := fun _ _ => h.held
  rw [h.updated] at hentries ⊢
  refine { h.sound with
    sequence := ?_, size := ?_, unused := by simp, unseen := ?_, seen := ?_
    entries := hentries }
  · simpa [hsequence] using howner.1.2.2
  · refine (Maps.size_revise _ _ _ fun e he => ?_).le.trans h.sound.size
    rw [ExtTreeMap.mem_iff_isSome_getElem?, ExtTreeMap.mem_toList_iff_getElem?_eq_some.mp he]
    rfl
  · intro hzero
    simp only [hsequence, Option.getD_some] at hzero
    omega
  · exact fun _ => ⟨received, now, hreceived, howner.2, rfl, hle⟩

/-- The receipt of an event for an entry is what `build` makes of it, unless the event is older than
the arming. -/
theorem Accepts.found_eq (hread : table.entries[key]? = some entry) :
    ∃ built, build entry.policy observed.peer event observed.message = .ok built ∧
      found observed.peer event observed.message entry =
        if event.receivedAtMs.getD 0 < entry.armedAtMs then none else built := by
  obtain ⟨built, hbuild⟩ :=
    build_total (h.sound.entries key entry hread).policy h.decoded observed.peer
  refine ⟨built, hbuild, ?_⟩
  rw [found, matching, hbuild]
  cases built with
  | none => simp [Outcome.toOption]
  | some receipt =>
    have hevent := ((build_eq_ok hbuild).2 receipt rfl).2
    split_ifs with harmed
    · simp [Outcome.toOption, Receipt.receivedAt, hevent, harmed]
    · simp [Outcome.toOption, Receipt.receivedAt, hevent, not_lt.mp harmed]

/-- **Only an eligible observation has an eligible disposition**, on every matched stream. -/
theorem Accepts.dispositions {matched : Matched} (hmatched : matched ∈ observed.matched) :
    renews matched.policy observed.peer event observed.message = true ↔
      matched.receipt.disposition ∈ [Disposition.value, .null, .checkin] := by
  rw [h.matched] at hmatched
  obtain ⟨⟨key, entry⟩, -, hfound⟩ := List.mem_filterMap.mp hmatched
  obtain ⟨receipt, hreceipt, rfl⟩ := Option.map_eq_some_iff.mp hfound
  rw [(build_eq_ok (found_eq_some.mp hreceipt).1).1]
  simp [eligible, or_assoc]

end

/-! ## Histories -/

/-- One call of the consumer. -/
inductive Call where
  | arm (policy : Policy) (now : Int)
  | observe (routes : Routes) (event : Event) (now : Int)
  | snapshot (now : Int)
  | forget (policy : Policy) (now : Int)
  | rebind (epoch : Reference) (now : Int)

/-- What an accepted call adds to the history. -/
inductive Happening where
  | armed (policy : Policy) (now : Int)
  | observed (peer : Ieee) (event : Event) (message : Message)
  | checked (now : Int)
  | forgotten (policy : Policy)
  | rebound (now : Int)

/-- The table with its history, newest happening first. -/
structure Watch where
  table : Freshness
  history : List Happening := []

/-- What follows an accepted call; a refused one changes nothing. -/
def Watch.accepted {α : Type} (watch : Watch) (result : Result α) (report : α → Watch) : Watch :=
  match result with
  | .ok a => report a
  | .refuse _ | .raise => watch

/-- A watch after a call. -/
def Watch.next (watch : Watch) : Call → Watch
  | .arm policy now => watch.accepted (watch.table.arm policy now) fun table =>
    ⟨table, .armed policy now :: watch.history⟩
  | .observe routes event now => watch.accepted (watch.table.observe routes event now) fun observed =>
    ⟨observed.table, .observed observed.peer event observed.message :: watch.history⟩
  | .snapshot now => watch.accepted (watch.table.snapshot now) fun taken =>
    ⟨taken.table, .checked now :: watch.history⟩
  | .forget policy now => watch.accepted (watch.table.forget policy now) fun result =>
    ⟨result.1, .forgotten policy :: watch.history⟩
  | .rebind epoch now => watch.accepted (watch.table.rebind epoch now) fun table =>
    ⟨table, .rebound now :: watch.history⟩

/-- The watch after a list of calls. -/
def watch (table : Freshness) (calls : List Call) : Watch := calls.foldl Watch.next { table }

/-- The policy of a stream and when it was last armed. -/
def arming (key : PolicyKey) : List Happening → Option (Policy × Int)
  | [] => none
  | .armed policy now :: rest =>
    if policy.selector = key then some (policy, now) else arming key rest
  | .forgotten policy :: rest => if policy.selector = key then none else arming key rest
  | .rebound now :: rest => (arming key rest).map fun armed => (armed.1, now)
  | .observed _ _ _ :: rest | .checked _ :: rest => arming key rest

/-- The receipt time of the last eligible observation of a stream since it was armed. -/
def lastEligible (key : PolicyKey) : List Happening → Option Int
  | [] => none
  | .armed policy _ :: rest => if policy.selector = key then none else lastEligible key rest
  | .forgotten policy :: rest => if policy.selector = key then none else lastEligible key rest
  | .rebound _ :: _ => none
  | .checked _ :: rest => lastEligible key rest
  | .observed peer event message :: rest =>
    if (arming key rest).any fun armed => renews armed.1 peer event message then event.receivedAtMs
    else lastEligible key rest

/-! ## The table agrees with its history -/

variable {w : Watch}

/-- The table agrees with the history, stream by stream. -/
structure Tracks (watch : Watch) : Prop where
  sound : watch.table.Sound
  /-- The streams of the table are those armed and not forgotten, with their policies and times. -/
  streams : ∀ key, arming key watch.history =
    watch.table.entries[key]?.map fun entry => (entry.policy, entry.armedAtMs)
  /-- The window of an entry is counted from its arming or its last eligible observation since. -/
  windows : ∀ (key : PolicyKey) (entry : FreshnessEntry), watch.table.entries[key]? = some entry →
    entry.basis = max entry.armedAtMs ((lastEligible key watch.history).getD entry.armedAtMs)

theorem Tracks.arm (h : Tracks w) (ha : w.table.arm policy now = .ok table) :
    Tracks ⟨table, .armed policy now :: w.history⟩ := by
  obtain ⟨sound, rfl⟩ := arm_eq_ok ha
  refine ⟨sound, fun key => ?_, fun key entry hentry => ?_⟩
  · simp only [arming, ExtTreeMap.getElem?_insert, compare_eq_iff_eq]
    split_ifs
    · rfl
    · exact h.streams key
  · simp only [ExtTreeMap.getElem?_insert, compare_eq_iff_eq] at hentry
    rw [lastEligible]
    split_ifs at hentry ⊢
    · cases hentry
      exact (max_self now).symm
    · exact h.windows key entry hentry

theorem Tracks.forgotten (h : Tracks w) {result : Freshness × FreshnessEntry}
    (hf : w.table.forget policy now = .ok result) :
    Tracks ⟨result.1, .forgotten policy :: w.history⟩ := by
  obtain ⟨sound, htable⟩ := forget_eq_ok hf
  rw [htable] at sound ⊢
  refine ⟨sound, fun key => ?_, fun key entry hentry => ?_⟩
  · simp only [arming, ExtTreeMap.getElem?_erase, compare_eq_iff_eq]
    split_ifs
    · rfl
    · exact h.streams key
  · simp only [ExtTreeMap.getElem?_erase, compare_eq_iff_eq] at hentry
    rw [lastEligible]
    split_ifs at hentry ⊢
    exact h.windows key entry hentry

theorem Tracks.rebound (h : Tracks w) (hr : w.table.rebind epoch now = .ok table) :
    Tracks ⟨table, .rebound now :: w.history⟩ := by
  obtain ⟨sound, rfl⟩ := rebind_eq_ok hr
  refine ⟨sound, fun key => ?_, fun key entry hentry => ?_⟩
  · rw [ExtTreeMap.getElem?_map, arming, h.streams key, Option.map_map, Option.map_map]
    rfl
  · rw [ExtTreeMap.getElem?_map] at hentry
    obtain ⟨before, -, rfl⟩ := Option.map_eq_some_iff.mp hentry
    exact (max_self now).symm

/-- What one event does to the window of one entry. An eligible observation from before the arming
is not matched, and it could not move the window either: it is older than the arming. -/
theorem basis_visited (h : Accepts table routes event now observed)
    (hread : table.entries[key]? = some entry)
    {renewed : Option Int} (hbasis : entry.basis = max entry.armedAtMs (renewed.getD entry.armedAtMs)) :
    ((visited observed.peer event observed.message entry).getD entry).basis =
      max entry.armedAtMs ((if renews entry.policy observed.peer event observed.message then
        event.receivedAtMs else renewed).getD entry.armedAtMs) := by
  obtain ⟨received, hreceived, hlast, -⟩ := h.received
  obtain ⟨built, hbuild, hfound⟩ := h.found_eq hread
  obtain ⟨hrenews, hevent⟩ := build_eq_ok hbuild
  rw [visited, hfound, hrenews, hreceived, Option.getD_some]
  split_ifs with harmed heligible heligible
  · have hnone : entry.eligible = none := by
      cases he : entry.eligible with
      | none => rfl
      | some old =>
        have hcurrent := (h.sound.entries key entry hread).eligible old he
        obtain ⟨last, hl, hle⟩ := hcurrent.received
        have := hcurrent.armed
        have := hlast last hl
        omega
    simp [FreshnessEntry.basis, hnone, harmed.le]
  · simpa using hbasis
  · obtain ⟨receipt, rfl, he⟩ := (Option.any_eq_true _ _).mp heligible
    have hat : receipt.receivedAt = received := by
      rw [Receipt.receivedAt, (hevent receipt rfl).2, hreceived]
      rfl
    simp [FreshnessEntry.basis, FreshnessEntry.withReceipt, he, hat, not_lt.mp harmed]
  · cases built with
    | none => simpa using hbasis
    | some receipt =>
      simp_all [FreshnessEntry.basis, FreshnessEntry.withReceipt]

theorem Tracks.observe (h : Tracks w)
    (ho : w.table.observe routes event now = .ok observed) :
    Tracks ⟨observed.table, .observed observed.peer event observed.message :: w.history⟩ := by
  have haccepts := observe_eq_ok ho
  have hsame : ∀ entry,
      (((visited observed.peer event observed.message entry).getD entry).policy,
        ((visited observed.peer event observed.message entry).getD entry).armedAtMs) =
      (entry.policy, entry.armedAtMs) := by
    intro entry
    unfold visited
    cases found observed.peer event observed.message entry <;> rfl
  refine ⟨haccepts.sound_table, fun key => ?_, fun key entry hentry => ?_⟩
  · rw [haccepts.getElem? key, arming, h.streams key, Option.map_map]
    exact congrArg (Option.map · _) (funext fun entry => (hsame entry).symm)
  · rw [haccepts.getElem? key] at hentry
    obtain ⟨before, hbefore, rfl⟩ := Option.map_eq_some_iff.mp hentry
    rw [basis_visited haccepts hbefore (h.windows key before hbefore), (Prod.mk.inj (hsame before)).2,
      lastEligible, h.streams key, hbefore]
    rfl

theorem Tracks.accepted {α : Type} (h : Tracks w) {result : Result α} {report : α → Watch}
    (hreport : ∀ a, result = .ok a → Tracks (report a)) :
    Tracks (w.accepted result report) := by
  cases result with
  | ok a => exact hreport a rfl
  | refuse | raise => exact h

/-- **One call keeps the table in agreement with its history.** -/
theorem Tracks.next (h : Tracks w) (call : Call) : Tracks (w.next call) := by
  cases call with
  | arm policy now => exact h.accepted fun _ ha => h.arm ha
  | observe routes event now => exact h.accepted fun _ ho => h.observe ho
  | snapshot now =>
    refine h.accepted fun taken ht => ?_
    obtain ⟨sound, rfl⟩ := snapshot_eq_ok ht
    exact ⟨sound, h.streams, h.windows⟩
  | forget policy now => exact h.accepted fun _ hf => h.forgotten hf
  | rebind epoch now => exact h.accepted fun _ hr => h.rebound hr

/-- **Every history.** -/
theorem foldl_tracks : ∀ (calls : List Call) {w : Watch}, Tracks w → Tracks (calls.foldl Watch.next w)
  | [], _, h => h
  | call :: rest, _, h => foldl_tracks rest (h.next call)

theorem new_tracks {capacity : Nat} (h : new epoch capacity = .ok table) : Tracks { table } := by
  unfold new failure at h
  split_ifs at h with hcapacity
  cases h
  refine ⟨⟨inRange_iff.mp hcapacity, Nat.zero_le _, ?_, ?_, ?_, ?_, ?_, ?_⟩, ?_, ?_⟩
  all_goals simp [arming]

/-! ## Lateness -/

/-- The deadline of a periodic stream, read off the history. -/
def due (history : List Happening) (policy : Policy) (interval : Int) : Option Int :=
  (arming policy.selector history).map fun armed =>
    max armed.2 ((lastEligible policy.selector history).getD armed.2) + interval + policy.graceMs

theorem state_late {interval : Int} (h : entry.policy.expectedInterval = .periodic interval) :
    entry.state now = .late ↔ entry.basis + interval + entry.policy.graceMs ≤ now := by
  simp only [FreshnessEntry.state, h]
  split_ifs with hlate hnone
  · simp [hlate]
  · simp [hlate]
  · simp [hlate]

theorem mem_rows (h : table.snapshot now = .ok taken) {row : Row} :
    row ∈ taken.rows ↔ ∃ (key : PolicyKey) (entry : FreshnessEntry),
      table.entries[key]? = some entry ∧ entry.row now = row := by
  obtain ⟨-, rfl⟩ := snapshot_eq_ok h
  simp

theorem Tracks.armed (h : Tracks w) (hread : w.table.entries[key]? = some entry) :
    arming entry.policy.selector w.history = some (entry.policy, entry.armedAtMs) := by
  rw [(h.sound.entries key entry hread).selector, h.streams key, hread]
  rfl

theorem Tracks.rows (h : Tracks w) (ht : w.table.snapshot now = .ok taken) (policy : Policy) :
    (∃ row ∈ taken.rows, row.entry.policy = policy) ↔
      ∃ armed, arming policy.selector w.history = some (policy, armed) := by
  constructor
  · rintro ⟨row, hrow, rfl⟩
    obtain ⟨key, entry, hread, rfl⟩ := (mem_rows ht).mp hrow
    exact ⟨entry.armedAtMs, h.armed hread⟩
  · rintro ⟨armed, harmed⟩
    rw [h.streams] at harmed
    obtain ⟨entry, hread, hpair⟩ := Option.map_eq_some_iff.mp harmed
    exact ⟨entry.row now, (mem_rows ht).mpr ⟨_, entry, hread, rfl⟩, (Prod.mk.inj hpair).1⟩

theorem Tracks.late_iff (h : Tracks w) {interval : Int} (ht : w.table.snapshot now = .ok taken)
    {row : Row} (hrow : row ∈ taken.rows)
    (hinterval : row.entry.policy.expectedInterval = .periodic interval) :
    ∃ deadline, due w.history row.entry.policy interval = some deadline ∧
      (row.state = .late ↔ deadline ≤ now) := by
  obtain ⟨key, entry, hread, rfl⟩ := (mem_rows ht).mp hrow
  refine ⟨entry.basis + interval + entry.policy.graceMs, ?_, state_late hinterval⟩
  rw [h.windows key entry hread, ← (h.sound.entries key entry hread).selector]
  show Option.map _ (arming entry.policy.selector w.history) = _
  rw [h.armed hread]
  rfl

/-- An event that is no eligible observation of a stream since its arming leaves its deadline. -/
theorem Accepts.deadline_kept (h : Accepts table routes event now observed)
    (hread : table.entries[key]? = some entry)
    (hrenews : renews entry.policy observed.peer event observed.message = true →
      event.receivedAtMs.getD 0 < entry.armedAtMs) :
    ∃ entry', observed.table.entries[key]? = some entry' ∧ entry'.deadline = entry.deadline := by
  rw [h.getElem? key, hread]
  refine ⟨_, rfl, ?_⟩
  obtain ⟨built, hbuild, hfound⟩ := h.found_eq hread
  rw [(build_eq_ok hbuild).1] at hrenews
  dsimp only [visited]
  rw [hfound]
  split_ifs with harmed
  · rfl
  · cases built with
    | none => rfl
    | some receipt =>
      have hnot : eligible receipt = false := Bool.eq_false_iff.mpr fun he => harmed (hrenews he)
      simp [FreshnessEntry.deadline, FreshnessEntry.basis, FreshnessEntry.withReceipt, hnot]

/-- **Lateness is exact.** After every history of calls from an empty table: the table is valid;
the rows of a snapshot are the streams armed and not forgotten; a periodic row is late at `now`
exactly when `now` has reached the later of its arming and the receipt of its last eligible
observation since, plus interval and grace. An accepted event is attributed by the route table. Of the
streams it matches, it is an eligible observation of those whose receipt is a value, a null or a
check-in, so of none that it leaves ambiguous, unsupported, of the wrong type or behind an opaque tail;
and it leaves the deadline of each stream that it does not renew. -/
theorem lateness_exact {epoch : Reference} {capacity : Nat} {start : Freshness}
    (hnew : new epoch capacity = .ok start) (calls : List Call) :
    (start.watch calls).table.valid = true ∧
    (∀ (now : Int) (taken : Snapshot), (start.watch calls).table.snapshot now = .ok taken →
      (∀ policy, (∃ row ∈ taken.rows, row.entry.policy = policy) ↔
        ∃ armed, arming policy.selector (start.watch calls).history = some (policy, armed)) ∧
      ∀ row ∈ taken.rows, ∀ interval, row.entry.policy.expectedInterval = .periodic interval →
        ∃ deadline, due (start.watch calls).history row.entry.policy interval = some deadline ∧
          (row.state = .late ↔ deadline ≤ now)) ∧
    (∀ (routes : Routes) (event : Event) (now : Int) (observed : Observed),
      (start.watch calls).table.observe routes event now = .ok observed →
      (∃ source, routes.resolve event now = .ok source ∧ source.entry.peerIeee = observed.peer) ∧
      decode event = .ok observed.message ∧
      (∀ matched ∈ observed.matched,
        renews matched.policy observed.peer event observed.message = true ↔
          matched.receipt.disposition ∈ [Disposition.value, .null, .checkin]) ∧
      ∀ (key : PolicyKey) (entry : FreshnessEntry),
        (start.watch calls).table.entries[key]? = some entry →
        (renews entry.policy observed.peer event observed.message = true →
          event.receivedAtMs.getD 0 < entry.armedAtMs) →
        ∃ entry', observed.table.entries[key]? = some entry' ∧ entry'.deadline = entry.deadline) := by
  have h : Tracks (start.watch calls) := foldl_tracks calls (new_tracks hnew)
  refine ⟨valid_iff.mpr h.sound, fun now taken ht => ⟨h.rows ht, ?_⟩, ?_⟩
  · intro row hrow interval hinterval
    exact h.late_iff ht hrow hinterval
  · intro routes event now observed hobserve
    have haccepts := observe_eq_ok hobserve
    exact ⟨haccepts.resolved, haccepts.decoded, fun _ => haccepts.dispositions,
      fun key entry => haccepts.deadline_kept⟩

/-- An expectation of the on/off attribute every 100 ms. -/
def lamp : Policy where
  kind := .report
  peerIeee := 7
  remoteEndpoint := 1
  localEndpoint := 1
  cluster := 6
  attributeId := some 0
  type := some 0x10
  direction := .serverToClient
  manufacturer := none
  fullRange := false
  expectedInterval := .periodic 100
  graceMs := 0

/-- The lamp's peer was adopted at route 21. -/
def lampRoutes : Routes := Routes.run { epoch := 1, capacity := 4 } [.adopt (Routes.interviewed 1 1) 0 1000]

/-- A report of these records, received from the lamp. -/
def lampReport (sequence : Nat) (received : Int) (records : Bytes) : Event where
  kind := .afIncoming
  subsystem := 4
  id := 0x81
  payload := [0x18, 1, 0x0A] ++ records
  endpoint := some 1
  sourceAddress := some 21
  sourceEndpoint := some 1
  cluster := some 6
  ownerEpoch := some 1
  receivedAtMs := some received
  ownerSequence := some sequence

/-- The attribute twice. -/
def ambiguous : Event := lampReport 3 60 [0, 0, 0x10, 1, 0, 0, 0x10, 0]

/-- The attribute, and another one of a type outside the catalogue. -/
def opaqueTail : Event := lampReport 4 70 [0, 0, 0x10, 1, 1, 0, 0x48, 2]

/-- The lamp is armed and sends its value, the ambiguous and the opaque report. -/
def lampCalls : List Call :=
  [.arm lamp 0, .observe lampRoutes (lampReport 2 50 [0, 0, 0x10, 1]) 50,
    .observe lampRoutes ambiguous 60, .observe lampRoutes opaqueTail 70]

/-- The table of the lamp after the first calls. -/
def lampTable (n : Nat) : Freshness := (watch { epoch := 1, capacity := 4 } (lampCalls.take n)).table

/-- The last two reports: the calls before, the event, its time and its disposition. -/
def lampSeen : List (Nat × Event × Int × Disposition) :=
  [(2, ambiguous, 60, .ambiguous), (3, opaqueTail, 70, .opaqueTail)]

/-- The value renews the window; the ambiguous and the opaque report are taken and do not. -/
theorem lamp_late :
    (∃ taken, (lampTable 4).snapshot 149 = .ok taken ∧
      ∃ row ∈ taken.rows, row.entry.policy = lamp ∧ row.state ≠ .late) ∧
    (∃ taken, (lampTable 4).snapshot 150 = .ok taken ∧
      ∃ row ∈ taken.rows, row.entry.policy = lamp ∧ row.state = .late) ∧
    ∀ report ∈ lampSeen, ∃ observed,
      (lampTable report.1).observe lampRoutes report.2.1 report.2.2.1 = .ok observed ∧
      observed.matched.map (·.receipt.disposition) = [report.2.2.2] ∧
      ∃ entry, observed.table.entries[lamp.selector]? = some entry ∧ entry.deadline = some 150 := by
  have h := fun n => lateness_exact (show new 1 4 = .ok { epoch := 1, capacity := 4 } by decide)
    (lampCalls.take n)
  have row : ∀ now, ((lampTable 4).snapshot now).toOption.isSome = true →
      ∃ taken, (lampTable 4).snapshot now = .ok taken ∧
        ∃ row ∈ taken.rows, row.entry.policy = lamp ∧ (row.state = .late ↔ 150 ≤ now) := by
    intro now htaken
    obtain ⟨taken, htaken⟩ := Option.isSome_iff_exists.mp htaken
    have htaken := Outcome.toOption_eq_some.mp htaken
    obtain ⟨hrows, hlate⟩ := (h 4).2.1 now taken htaken
    obtain ⟨row, hrow, hpolicy⟩ := (hrows lamp).mpr ⟨0, by decide +kernel⟩
    obtain ⟨deadline, hdue, hiff⟩ := hlate row hrow 100 (hpolicy ▸ rfl)
    rw [hpolicy] at hdue
    cases hdue
    exact ⟨taken, htaken, row, hrow, hpolicy, hiff⟩
  refine ⟨?_, ?_, fun report hreport => ?_⟩
  · obtain ⟨taken, htaken, row, hrow, hpolicy, hlate⟩ := row 149 (by decide +kernel)
    exact ⟨taken, htaken, row, hrow, hpolicy, by simp [hlate]⟩
  · obtain ⟨taken, htaken, row, hrow, hpolicy, hlate⟩ := row 150 (by decide +kernel)
    exact ⟨taken, htaken, row, hrow, hpolicy, hlate.mpr le_rfl⟩
  · have hseen : ∀ report ∈ lampSeen,
        (((lampTable report.1).observe lampRoutes report.2.1 report.2.2.1).toOption.any fun o =>
          o.matched.map (·.receipt.disposition) = [report.2.2.2] &&
            !renews lamp o.peer report.2.1 o.message) = true ∧
          ((lampTable report.1).entries[lamp.selector]?.any fun entry =>
            entry.policy = lamp && entry.deadline = some 150) = true := by
      decide +kernel
    obtain ⟨hobserved, hentry⟩ := hseen report hreport
    obtain ⟨entry, hread, hentry⟩ := (Option.any_eq_true _ _).mp hentry
    obtain ⟨observed, hobserved, hmatched⟩ := (Option.any_eq_true _ _).mp hobserved
    simp only [Bool.and_eq_true, decide_eq_true_eq, Bool.not_eq_true'] at hmatched hentry
    have hobserved := Outcome.toOption_eq_some.mp hobserved
    obtain ⟨entry', hread', hkept⟩ := ((h report.1).2.2 _ _ _ _ hobserved).2.2.2 _ entry hread
      (by simp [hentry.1, hmatched.2])
    exact ⟨observed, hobserved, hmatched.1, entry', hread', hkept.trans hentry.2⟩

end Freshness

end Wotex.Zigbee
