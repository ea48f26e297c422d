import Mathlib.Algebra.Order.BigOperators.Group.List
import Mathlib.Data.List.Dedup
import Wotex.Term.Picking
import Wotex.Zigbee.Routes

/-!
# The downlink queue (`downlinks.ex`)

The consumer's finite queue of AF requests, one first-in first-out lane per peer, with bounds on the
number of entries, the entries per peer and the payload bytes.

* `enqueue` gives each admitted request the next ticket. Tickets are never used twice.
* An entry leaves the queue in one of five ways (`Departure`): `take` hands it out as ready or
  reports it as refused by the route table, `take` and `expire` report it as expired, `cancel` and
  `rebind` report it as cancelled or invalidated.
* The reductions of `select/3` and `classify/4` are the folds of `Picking`.
* A `Call` is one call of the consumer; a refused call leaves the queue as it was. `Ledger` is the
  queue with the tickets admitted and the departures reported so far.

Results:
* `step_effect`: what a call does to a valid queue (`Effect`), for all five calls.
* `Accounts.next` and `foldl_accounts`: a call, and so every history, keeps the accounts
  (`Accounts`): tickets admitted are exactly those pending and those reported, and the lane of a
  peer is handed out in order.
* `tickets_conserved`: the same from an empty queue, with the deadlines of the deliveries.

Out of scope: the transport that a delivery is handed to, and its reply.
-/

namespace Wotex.Zigbee

open List Picking

/-- `entry`. -/
structure DownlinkEntry where
  ticket : Nat
  request : DataRequest
  enqueuedAtMs : Int
  expiresAtMs : Int
  deriving DecidableEq

/-- `delivery`. -/
structure Delivery where
  entry : DownlinkEntry
  deadlineMs : Int
  ownerEpoch : Reference

/-- `refusal`. -/
structure Refusal where
  entry : DownlinkEntry
  reason : Kind

structure Downlinks where
  epoch : Reference
  capacity : Nat
  perPeer : Nat
  maxBytes : Nat
  generation : Nat := 0
  lastNowMs : Option Int := none
  entries : List DownlinkEntry := []
  deriving DecidableEq

namespace Downlinks

/-- `error` of `failure/1`. -/
def error (kind : Kind) : Error := ⟨kind, .downlinks⟩

def failure {α : Type} (kind : Kind) : Result α := .refuse (error kind)

variable {α : Type}

@[simp] theorem failure_eq_ok {kind : Kind} {a : α} : failure kind = .ok a ↔ False := by
  simp [failure]

/-- `@max_lifetime_ms`. -/
def maxLifetimeMs : Int := 86400000

section

variable (entry : DownlinkEntry)

def baseEntry : Bool :=
  inRange entry.ticket 1 maxGeneration && entry.request.valid && validTime entry.enqueuedAtMs &&
    validTime entry.expiresAtMs &&
    inRange (entry.expiresAtMs - entry.enqueuedAtMs) 1 maxLifetimeMs

def validEntry (queue : Downlinks) (previous : Nat) : Bool :=
  baseEntry entry && inRange entry.ticket (previous + 1) queue.generation &&
    queue.lastNowMs.any fun last => validTime last && decide (entry.enqueuedAtMs ≤ last)

/-- The reduction of `valid_entries?/1`, from the previous ticket on. -/
def validFrom (queue : Downlinks) : Nat → List DownlinkEntry → Bool
  | _, [] => true
  | previous, entry :: rest =>
    validEntry entry queue previous && validFrom queue entry.ticket rest

/-- The peer and the correlation of an entry. -/
def context : Ieee × Bytes :=
  (entry.request.peerIeee, entry.request.correlationId)

end

variable (entries : List DownlinkEntry)

def distinctContexts : Bool :=
  (entries.map context).length = (entries.map context).dedup.length

variable (queue : Downlinks)

def validEntries : Bool :=
  validFrom queue 0 queue.entries && distinctContexts queue.entries

def payloadBytes : Nat :=
  (entries.map fun entry => entry.request.data.length).sum

def peerCount (peer : Ieee) : Nat :=
  entries.countP fun entry => entry.request.peerIeee = peer

/-- `Enum.frequencies_by(entries, & &1.request.peer_ieee)`. -/
def frequencies : List (Ieee × Nat) :=
  (entries.map fun entry => entry.request.peerIeee).dedup.map fun peer =>
    (peer, peerCount entries peer)

def withinBudgets (entries : List DownlinkEntry) : Bool :=
  decide (payloadBytes entries ≤ queue.maxBytes) &&
    (frequencies entries).all fun e => decide (e.2 ≤ queue.perPeer)

def valid : Bool :=
  inRange queue.capacity 1 1024 && inRange queue.perPeer 1 128 &&
    inRange queue.maxBytes 1 131072 && inRange queue.generation 0 maxGeneration &&
    queue.lastNowMs.all validTime && decide (queue.entries.length ≤ queue.capacity) &&
    validEntries queue && withinBudgets queue queue.entries

/-- The options of `new/2`. -/
structure Options where
  capacity : Nat := 128
  perPeer : Nat := 8
  maxBytes : Nat := 16384

def new (epoch : Reference) (options : Options := {}) : Result Downlinks :=
  let queue : Downlinks :=
    { epoch, capacity := options.capacity, perPeer := options.perPeer, maxBytes := options.maxBytes }
  if queue.valid then .ok queue else failure .invalidValue

def validDelivery (delivery : Delivery) : Bool :=
  baseEntry delivery.entry && validTime delivery.deadlineMs &&
    decide (delivery.entry.enqueuedAtMs < delivery.deadlineMs) &&
    decide (delivery.deadlineMs ≤ delivery.entry.expiresAtMs)

def admission (now : Int) : Result Unit :=
  if ¬ queue.valid ∨ ¬ validTime now then failure .invalidValue
  else if queue.lastNowMs.any fun last => now < last then failure .staleObservation
  else .ok ()

def duplicate (request : DataRequest) : Bool :=
  entries.any fun entry =>
    entry.request.peerIeee = request.peerIeee && entry.request.correlationId = request.correlationId

variable (request : DataRequest)

/-- `downlinks.ex:253-262`. -/
def entryAdmission : Result Unit :=
  if queue.generation = maxGeneration then failure .correlationExhausted
  else if duplicate queue.entries request then failure .invalidValue
  else if queue.entries.length = queue.capacity then failure .overload
  else if queue.perPeer ≤ peerCount queue.entries request.peerIeee then failure .overload
  else if queue.maxBytes < payloadBytes queue.entries + request.data.length then failure .overload
  else .ok ()

/-- The entry `enqueue/4` adds. -/
def admitted (now lifetime : Int) : DownlinkEntry where
  ticket := queue.generation + 1
  request := request
  enqueuedAtMs := now
  expiresAtMs := now + lifetime

/-- `downlinks.ex:124-151`. -/
def enqueue (now lifetime : Int) :
    Result (Downlinks × Nat) := do
  admission queue now
  .require request.valid (error .invalidValue)
  .require (inRange lifetime 1 maxLifetimeMs) (error .invalidValue)
  .require (validTime (now + lifetime)) (error .invalidValue)
  entryAdmission queue request
  .ok ({ queue with
    entries := queue.entries ++ [queue.admitted request now lifetime]
    generation := queue.generation + 1, lastNowMs := some now }, queue.generation + 1)

/-- The test of `expire/2`. -/
def due (now : Int) (entry : DownlinkEntry) : Bool := decide (entry.expiresAtMs ≤ now)

def expire (now : Int) : Result (Downlinks × List DownlinkEntry) := do
  admission queue now
  .ok ({ queue with entries := queue.entries.filter fun e => !due now e, lastNowMs := some now },
    queue.entries.filter (due now))

/-- The test of `select/3`. -/
def isFor (peer : Ieee) (entry : DownlinkEntry) : Bool := entry.request.peerIeee = peer

def select (peer : Ieee) (limit : Nat) : List DownlinkEntry × List DownlinkEntry :=
  let state := entries.foldl (pickStep (isFor peer)) ([], [], limit)
  (state.1.reverse, state.2.1.reverse)

section

variable (routes : Routes) (epoch : Reference) (now : Int) (entry : DownlinkEntry)

/-- The delivery of an entry that the route table accepts. -/
def delivered :
    Option Delivery :=
  match routes.checkRequest entry.request epoch now with
  | .ok custodyExpiry =>
    some { entry, ownerEpoch := epoch, deadlineMs := min entry.expiresAtMs custodyExpiry }
  | _ => none

/-- The refusal of an entry that the route table does not accept. -/
def refusal :
    Option Refusal :=
  match routes.checkRequest entry.request epoch now with
  | .refuse e => some { entry, reason := e.kind }
  | _ => none

end

def classify (entries : List DownlinkEntry) (routes : Routes) (epoch : Reference) (now : Int) :
    List Delivery × List Refusal :=
  let state := entries.foldl (classifyStep (delivered routes epoch now) (refusal routes epoch now)) ([], [])
  (state.1.reverse, state.2.reverse)

/-- What `take/5` returns. -/
structure Taken where
  queue : Downlinks
  ready : List Delivery
  refused : List Refusal
  expired : List DownlinkEntry

/-- `downlinks.ex:174-194`. -/
def take (routes : Routes) (peer : Ieee) (now : Int) (limit : Nat := 1) :
    Result Taken := do
  admission queue now
  .require (routes.valid && validIeee peer) (error .invalidValue)
  .require (inRange limit 1 queue.perPeer) (error .invalidValue)
  .require (queue.epoch = routes.epoch) (error .staleEpoch)
  let (current, expired) ← expire queue now
  let (selected, retained) := select current.entries peer limit
  let (ready, refused) := classify selected routes queue.epoch now
  .ok { queue := { current with entries := retained }, ready, refused, expired }

/-- `downlinks.ex:199-208`. -/
def cancel (ticket : Nat) : Result (Downlinks × DownlinkEntry) :=
  if queue.valid && inRange ticket 1 queue.generation then
    match queue.entries.filter fun e => e.ticket = ticket with
    | [entry] => .ok ({ queue with entries := queue.entries.filter fun e => e.ticket ≠ ticket }, entry)
    | _ => failure .invalidValue
  else failure .invalidValue

def rebind (epoch : Reference) : Result (Downlinks × List DownlinkEntry) :=
  if queue.valid && epoch ≠ queue.epoch then
    .ok ({ queue with epoch, entries := [] }, queue.entries)
  else failure .invalidValue

/-! ## Histories -/

/-- One call of the consumer. -/
inductive Call where
  | enqueue (request : DataRequest) (now lifetime : Int)
  | expire (now : Int)
  | take (routes : Routes) (peer : Ieee) (now : Int) (limit : Nat)
  | cancel (ticket : Nat)
  | rebind (epoch : Reference)

/-- How an entry left the queue; a delivery with the time of the call that handed it out. -/
inductive Departure where
  | ready (now : Int) (delivery : Delivery)
  | refused (refusal : Refusal)
  | expired (entry : DownlinkEntry)
  | cancelled (entry : DownlinkEntry)
  | invalidated (entry : DownlinkEntry)

/-- The entry that left. -/
def Departure.entry : Departure → DownlinkEntry
  | .ready _ delivery => delivery.entry
  | .refused refusal => refusal.entry
  | .expired entry | .cancelled entry | .invalidated entry => entry

/-- What follows an accepted call; a refused one leaves the queue and reports nothing. -/
def accepted {α : Type} (queue : Downlinks) (result : Result α)
    (report : α → Downlinks × List Nat × List Departure) : Downlinks × List Nat × List Departure :=
  match result with
  | .ok a => report a
  | .refuse _ | .raise => (queue, [], [])

/-- The queue after a call, the tickets it admitted and the departures it reported. -/
def step (queue : Downlinks) : Call → Downlinks × List Nat × List Departure
  | .enqueue request now lifetime =>
    queue.accepted (queue.enqueue request now lifetime) fun r => (r.1, [r.2], [])
  | .expire now => queue.accepted (queue.expire now) fun r => (r.1, [], r.2.map .expired)
  | .take routes peer now limit =>
    queue.accepted (queue.take routes peer now limit) fun taken =>
      (taken.queue, [], taken.expired.map .expired ++ taken.ready.map (.ready now) ++
        taken.refused.map .refused)
  | .cancel ticket => queue.accepted (queue.cancel ticket) fun r => (r.1, [], [.cancelled r.2])
  | .rebind epoch => queue.accepted (queue.rebind epoch) fun r => (r.1, [], r.2.map .invalidated)

/-- The queue with everything admitted and reported so far. -/
structure Ledger where
  queue : Downlinks
  admitted : List Nat := []
  departures : List Departure := []

/-- One more call. -/
def Ledger.next (ledger : Ledger) (call : Call) : Ledger where
  queue := (ledger.queue.step call).1
  admitted := ledger.admitted ++ (ledger.queue.step call).2.1
  departures := ledger.departures ++ (ledger.queue.step call).2.2

/-- The accounts of a history. -/
def history (queue : Downlinks) (calls : List Call) : Ledger := calls.foldl Ledger.next { queue }

/-! ## Validity -/

/-- What `valid?/1` says. -/
structure Sound (queue : Downlinks) : Prop where
  capacity : 1 ≤ queue.capacity ∧ queue.capacity ≤ 1024
  perPeer : 1 ≤ queue.perPeer ∧ queue.perPeer ≤ 128
  maxBytes : 1 ≤ queue.maxBytes ∧ queue.maxBytes ≤ 131072
  generation : queue.generation ≤ maxGeneration
  clock : ∀ last, queue.lastNowMs = some last → validTime last = true
  length : queue.entries.length ≤ queue.capacity
  entries : ∀ entry ∈ queue.entries, baseEntry entry = true ∧ entry.ticket ≤ queue.generation ∧
    ∃ last, queue.lastNowMs = some last ∧ entry.enqueuedAtMs ≤ last
  tickets : queue.entries.Pairwise fun a b => a.ticket < b.ticket
  contexts : (queue.entries.map context).Nodup
  payload : payloadBytes queue.entries ≤ queue.maxBytes
  lanes : ∀ peer, peerCount queue.entries peer ≤ queue.perPeer

variable {queue} {queue' : Downlinks} {entries} {retained : List DownlinkEntry} {now : Int}
  {ticket : Nat} {epoch : Reference} {routes : Routes} {entry : DownlinkEntry}

theorem validEntry_iff {previous : Nat} :
    validEntry entry queue previous = true ↔ baseEntry entry = true ∧ previous < entry.ticket ∧
      entry.ticket ≤ queue.generation ∧
      ∃ last, queue.lastNowMs = some last ∧ validTime last = true ∧ entry.enqueuedAtMs ≤ last := by
  simp [validEntry, Option.any_eq_true, and_assoc]

theorem validFrom_iff : ∀ {previous : Nat} {entries : List DownlinkEntry},
    validFrom queue previous entries = true ↔ (∀ entry ∈ entries, validEntry entry queue 0 = true) ∧
        (previous :: entries.map DownlinkEntry.ticket).IsChain (· < ·)
  | _, [] => by simp [validFrom]
  | previous, entry :: rest => by
    rw [validFrom, Bool.and_eq_true, validFrom_iff, forall_mem_cons, map_cons,
      isChain_cons_cons, validEntry_iff, validEntry_iff]
    constructor
    · rintro ⟨⟨hbase, hlt, hentry⟩, hrest, hchain⟩
      exact ⟨⟨⟨hbase, Nat.zero_lt_of_lt hlt, hentry⟩, hrest⟩, hlt, hchain⟩
    · rintro ⟨⟨⟨hbase, -, hentry⟩, hrest⟩, hlt, hchain⟩
      exact ⟨⟨hbase, hlt, hentry⟩, hrest, hchain⟩

theorem distinctContexts_iff : distinctContexts entries = true ↔ (entries.map context).Nodup := by
  rw [distinctContexts, decide_eq_true_eq]
  constructor
  · intro h
    rw [← (dedup_sublist (entries.map context)).eq_of_length h.symm]
    exact nodup_dedup _
  · intro h
    rw [List.Nodup.dedup h]

theorem withinBudgets_iff :
    withinBudgets queue entries = true ↔ payloadBytes entries ≤ queue.maxBytes ∧
      ∀ peer, peerCount entries peer ≤ queue.perPeer := by
  simp only [withinBudgets, frequencies, Bool.and_eq_true, decide_eq_true_eq, all_map,
    all_eq_true, mem_dedup, Function.comp_apply]
  refine and_congr_right fun _ => ⟨fun h peer => ?_, fun h peer _ => h peer⟩
  by_cases hmem : peer ∈ entries.map fun entry => entry.request.peerIeee
  · exact h peer hmem
  · have hzero : peerCount entries peer = 0 := by
      refine countP_eq_zero.mpr fun e he hpeer => hmem ?_
      exact mem_map.mpr ⟨e, he, of_decide_eq_true hpeer⟩
    omega

/-- **`valid?/1` decides `Sound`.** -/
theorem valid_iff : queue.valid = true ↔ queue.Sound := by
  simp only [valid, validEntries, Bool.and_eq_true, inRange_iff, decide_eq_true_eq, validFrom_iff,
    distinctContexts_iff, withinBudgets_iff, validEntry_iff, Option.all_eq_true,
    isChain_iff_pairwise, pairwise_cons, pairwise_map]
  constructor
  · rintro ⟨⟨⟨⟨⟨⟨⟨hcapacity, hpeer⟩, hbytes⟩, hgeneration⟩, hclock⟩, hlength⟩,
      ⟨hentries, -, htickets⟩, hcontexts⟩, hpayload, hlanes⟩
    refine ⟨hcapacity, hpeer, hbytes, hgeneration.2, hclock, hlength, fun entry he => ?_, htickets,
      hcontexts, hpayload, hlanes⟩
    obtain ⟨hbase, -, hticket, last, hlast, -, hle⟩ := hentries entry he
    exact ⟨hbase, hticket, last, hlast, hle⟩
  · intro h
    have hpos : ∀ entry ∈ queue.entries, 0 < entry.ticket := fun entry he => by
      have hbase := (h.entries entry he).1
      simp only [baseEntry, Bool.and_eq_true, inRange_iff] at hbase
      exact hbase.1.1.1.1.1
    refine ⟨⟨⟨⟨⟨⟨⟨h.capacity, h.perPeer⟩, h.maxBytes⟩, Nat.zero_le _, h.generation⟩, h.clock⟩,
      h.length⟩, ⟨fun entry he => ?_, forall_mem_map.mpr hpos, h.tickets⟩, h.contexts⟩, h.payload,
      h.lanes⟩
    obtain ⟨hbase, hticket, last, hlast, hle⟩ := h.entries entry he
    exact ⟨hbase, hpos entry he, hticket, last, hlast, h.clock last hlast, hle⟩

/-- Removing entries, and moving the clock on, keeps a queue valid. -/
theorem Sound.retain (h : queue.Sound) (hsub : retained.Sublist queue.entries) {now : Option Int}
    (hnow : ∀ t, now = some t → validTime t = true)
    (hlater : ∀ last, queue.lastNowMs = some last → ∃ t, now = some t ∧ last ≤ t) (epoch : Reference) :
    Sound { queue with entries := retained, lastNowMs := now, epoch } :=
  { h with
    clock := hnow
    length := hsub.length_le.trans h.length
    entries := fun entry he => by
      obtain ⟨hbase, hticket, last, hlast, hle⟩ := h.entries entry (hsub.subset he)
      obtain ⟨t, ht, hlt⟩ := hlater last hlast
      exact ⟨hbase, hticket, t, ht, hle.trans hlt⟩
    tickets := h.tickets.sublist hsub
    contexts := h.contexts.sublist (hsub.map _)
    payload := ((hsub.map _).sum_le_sum fun _ _ => Nat.zero_le _).trans h.payload
    lanes := fun peer => hsub.countP_le.trans (h.lanes peer) }

/-! ## What a call does -/

/-- The lane of a peer. -/
def lane (peer : Ieee) (entries : List DownlinkEntry) : List Nat :=
  (entries.filter (isFor peer)).map DownlinkEntry.ticket

/-- The tickets of a peer that became ready, in the order of the departures. -/
def readyTickets (peer : Ieee) (departures : List Departure) : List Nat :=
  departures.filterMap fun
    | .ready _ delivery => if isFor peer delivery.entry then some delivery.entry.ticket else none
    | _ => none

/-- A delivery is in time and passes the delivery check. -/
def Departure.Timely : Departure → Prop
  | .ready now delivery => now < delivery.deadlineMs ∧ validDelivery delivery = true
  | _ => True

/-- What a call does to a valid queue. -/
inductive Effect (queue : Downlinks) : Downlinks × List Nat × List Departure → Prop where
  /-- The call is refused. -/
  | kept : Effect queue (queue, [], [])
  /-- The call adds one entry with the next ticket. -/
  | admitted {queue' : Downlinks} {entry : DownlinkEntry} (sound : queue'.Sound)
      (entries : queue'.entries = queue.entries ++ [entry])
      (ticket : entry.ticket = queue.generation + 1)
      (generation : queue'.generation = entry.ticket) :
      Effect queue (queue', [entry.ticket], [])
  /-- The call removes entries: what stays and what is reported are the entries of the queue, and
  the ready entries of a lane come before those of the lane that stay. -/
  | released {queue' : Downlinks} {departures : List Departure} (sound : queue'.Sound)
      (generation : queue'.generation = queue.generation)
      (conserved : (departures.map Departure.entry ++ queue'.entries).Perm queue.entries)
      (ordered : ∀ peer, (readyTickets peer departures ++ lane peer queue'.entries).Sublist
        (lane peer queue.entries))
      (timely : ∀ departure ∈ departures, departure.Timely) :
      Effect queue (queue', [], departures)

theorem admission_eq_ok (h : admission queue now = .ok ()) :
    queue.Sound ∧ validTime now = true ∧ ∀ last, queue.lastNowMs = some last → last ≤ now := by
  unfold admission failure at h
  split_ifs at h with hvalid hstale
  rw [not_or, not_not, not_not] at hvalid
  refine ⟨valid_iff.mp hvalid.1, hvalid.2, fun last hlast => ?_⟩
  simpa [hlast] using hstale

theorem readyTickets_append (peer : Ieee) (before after : List Departure) :
    readyTickets peer (before ++ after) = readyTickets peer before ++ readyTickets peer after :=
  filterMap_append

theorem readyTickets_reported {report : α → Departure}
    (h : ∀ a now delivery, report a ≠ .ready now delivery) (peer : Ieee) (removed : List α) :
    readyTickets peer (removed.map report) = [] := by
  refine filterMap_eq_nil_iff.mpr (forall_mem_map.mpr fun a _ => ?_)
  cases hr : report a with
  | ready now delivery => exact absurd hr (h a now delivery)
  | refused | expired | cancelled | invalidated => rfl

theorem lane_sublist (h : retained.Sublist entries)
    (peer : Ieee) : (lane peer retained).Sublist (lane peer entries) :=
  (h.filter _).map _

/-- A call that reports the removed entries, none of them as ready. -/
theorem Effect.of_reported {removed : List DownlinkEntry} {report : DownlinkEntry → Departure}
    (sound : queue'.Sound) (generation : queue'.generation = queue.generation)
    (hsub : queue'.entries.Sublist queue.entries)
    (hperm : (removed ++ queue'.entries).Perm queue.entries)
    (hentry : ∀ entry, (report entry).entry = entry)
    (hnot : ∀ entry now delivery, report entry ≠ .ready now delivery) :
    Effect queue (queue', [], removed.map report) := by
  refine .released sound generation ?_ ?_ ?_
  · rw [map_map, show Departure.entry ∘ report = id from funext hentry, map_id]
    exact hperm
  · intro peer
    rw [readyTickets_reported hnot]
    exact lane_sublist hsub peer
  · refine forall_mem_map.mpr fun entry _ => ?_
    cases hr : report entry with
    | ready now delivery => exact absurd hr (hnot entry now delivery)
    | refused | expired | cancelled | invalidated => trivial

theorem entryAdmission_eq_ok {request : DataRequest} (h : entryAdmission queue request = .ok ()) :
    queue.generation ≠ maxGeneration ∧ duplicate queue.entries request = false ∧
      queue.entries.length ≠ queue.capacity ∧
      peerCount queue.entries request.peerIeee < queue.perPeer ∧
      payloadBytes queue.entries + request.data.length ≤ queue.maxBytes := by
  unfold entryAdmission failure at h
  split_ifs at h with h1 h2 h3 h4 h5
  exact ⟨h1, Bool.eq_false_iff.mpr h2, h3, Nat.lt_of_not_le h4, Nat.le_of_not_lt h5⟩

/-- **`enqueue/4`.** -/
theorem enqueue_effect {request : DataRequest} {lifetime : Int}
    (h : queue.enqueue request now lifetime = .ok (queue', ticket)) :
    Effect queue (queue', [ticket], []) := by
  simp only [enqueue, bind_eq_ok_unit, require_eq_ok, inRange_iff] at h
  obtain ⟨hadmission, hrequest, hlifetime, hexpiry, hentry, h⟩ := h
  cases h
  obtain ⟨sound, hnow, hlater⟩ := admission_eq_ok hadmission
  obtain ⟨hgeneration, hduplicate, hlength, hlane, hpayload⟩ := entryAdmission_eq_ok hentry
  have hgen := sound.generation
  have hbase : baseEntry (queue.admitted request now lifetime) = true := by
    simp only [baseEntry, admitted, Bool.and_eq_true, inRange_iff]
    refine ⟨⟨⟨⟨⟨?_, ?_⟩, hrequest⟩, hnow⟩, hexpiry⟩, ?_, ?_⟩ <;> omega
  refine @Effect.admitted queue _ (queue.admitted request now lifetime) ?_ rfl rfl rfl
  exact { sound with
    generation := by
      show queue.generation + 1 ≤ maxGeneration
      omega
    clock := fun last hlast => Option.some.inj hlast ▸ hnow
    length := by
      have := sound.length
      simp only [length_append, length_cons, length_nil]
      omega
    entries := by
      refine forall_mem_append.mpr ⟨fun entry he => ?_,
        forall_mem_singleton.mpr ⟨hbase, le_refl _, now, rfl, le_refl _⟩⟩
      obtain ⟨hb, hticket, last, hlast, hle⟩ := sound.entries entry he
      exact ⟨hb, hticket.trans (Nat.le_succ _), now, rfl, hle.trans (hlater last hlast)⟩
    tickets := by
      refine pairwise_append.mpr ⟨sound.tickets, pairwise_singleton _ _, ?_⟩
      exact fun a ha => forall_mem_singleton.mpr (Nat.lt_succ_of_le (sound.entries a ha).2.1)
    contexts := by
      rw [map_append, nodup_append]
      refine ⟨sound.contexts, nodup_singleton _, forall_mem_map.mpr fun entry he =>
        forall_mem_singleton.mpr fun heq => ?_⟩
      obtain ⟨hpeer, hcorrelation⟩ := Prod.mk.inj heq
      have hany : duplicate queue.entries request = true :=
        any_eq_true.mpr ⟨entry, he, by simpa using ⟨hpeer, hcorrelation⟩⟩
      rw [hduplicate] at hany
      exact Bool.false_ne_true hany
    payload := by
      simpa [payloadBytes, admitted] using hpayload
    lanes := by
      intro peer
      have hpeer := sound.lanes peer
      simp only [peerCount] at hpeer hlane ⊢
      by_cases heq : request.peerIeee = peer
      · subst heq
        simpa [admitted] using hlane
      · simpa [admitted, heq] using hpeer }

section

variable {expired : List DownlinkEntry} (h : queue.expire now = .ok (queue', expired))
include h

/-- What an accepted `expire/2` says, for the call itself and for its use in `take/5`. -/
theorem expire_eq_ok :
    queue'.Sound ∧ queue'.lastNowMs = some now ∧ queue'.generation = queue.generation ∧
      queue'.entries = queue.entries.filter (fun e => !due now e) ∧
      expired = queue.entries.filter (due now) := by
  simp only [expire, bind_eq_ok_unit] at h
  obtain ⟨hadmission, h⟩ := h
  cases h
  obtain ⟨sound, hnow, hlater⟩ := admission_eq_ok hadmission
  refine ⟨?_, rfl, rfl, rfl, rfl⟩
  exact sound.retain filter_sublist (fun t ht => Option.some.inj ht ▸ hnow)
    (fun last hlast => ⟨now, rfl, hlater last hlast⟩) queue.epoch

/-- **`expire/2`.** -/
theorem expire_effect : Effect queue (queue', [], expired.map .expired) := by
  obtain ⟨sound, -, generation, hentries, rfl⟩ := expire_eq_ok h
  refine .of_reported sound generation ?_ ?_ (fun _ => rfl) (fun _ _ _ => Departure.noConfusion)
  · rw [hentries]
    exact filter_sublist
  · rw [hentries]
    exact filter_append_perm _ _

end

theorem filter_ticket (h : entries.filter (fun e => e.ticket = ticket) = [entry]) :
    ([entry] ++ entries.filter fun e => e.ticket ≠ ticket).Perm entries := by
  rw [← h]
  simpa using filter_append_perm (fun e : DownlinkEntry => decide (e.ticket = ticket)) entries

/-- **`cancel/2`.** -/
theorem cancel_effect (h : queue.cancel ticket = .ok (queue', entry)) :
    Effect queue (queue', [], [.cancelled entry]) := by
  unfold cancel at h
  split at h
  · rename_i hguard
    have sound := valid_iff.mp (Bool.and_eq_true_iff.mp hguard).1
    split at h
    · rename_i found hfound
      cases h
      refine @Effect.of_reported queue _ [entry] .cancelled ?_ rfl filter_sublist
        (filter_ticket hfound) (fun _ => rfl) (fun _ _ _ => Departure.noConfusion)
      exact sound.retain filter_sublist sound.clock (fun last hlast => ⟨last, hlast, le_refl _⟩) queue.epoch
    · cases h
  · cases h

/-- **`rebind/2`.** -/
theorem rebind_effect {invalidated : List DownlinkEntry}
    (h : queue.rebind epoch = .ok (queue', invalidated)) :
    Effect queue (queue', [], invalidated.map .invalidated) := by
  unfold rebind failure at h
  split_ifs at h with hguard
  rw [Bool.and_eq_true] at hguard
  have sound := valid_iff.mp hguard.1
  cases h
  refine .of_reported ?_ rfl (nil_sublist _) (by simp) (fun _ => rfl) (fun _ _ _ => Departure.noConfusion)
  exact sound.retain (nil_sublist _) sound.clock (fun last hlast => ⟨last, hlast, le_refl _⟩) epoch

/-! ### `take/5` -/

variable (entries)

theorem select_eq (peer : Ieee) (limit : Nat) :
    select entries peer limit = pick (isFor peer) limit entries := by
  simpa [select] using foldl_pick (isFor peer) entries [] [] limit

theorem classify_eq (routes : Routes) (epoch : Reference) (now : Int) :
    classify entries routes epoch now = (entries.filterMap (delivered routes epoch now),
        entries.filterMap (refusal routes epoch now)) := by
  simpa [classify] using
    foldl_classify (delivered routes epoch now) (refusal routes epoch now) entries [] []

theorem delivered_eq_some {delivery : Delivery} : delivered routes epoch now entry = some delivery ↔
      ∃ expiry, routes.checkRequest entry.request epoch now = .ok expiry ∧
        delivery = { entry, ownerEpoch := epoch, deadlineMs := min entry.expiresAtMs expiry } := by
  unfold delivered
  cases routes.checkRequest entry.request epoch now <;> simp [eq_comm]

/-- The table's check returns or refuses, so a selected entry is ready or refused, never both. -/
theorem classified (entry : DownlinkEntry) :
    (∃ d, delivered routes epoch now entry = some d ∧ d.entry = entry ∧
        refusal routes epoch now entry = none) ∨
      ∃ r, refusal routes epoch now entry = some r ∧ r.entry = entry ∧
        delivered routes epoch now entry = none := by
  unfold delivered refusal
  cases hcheck : routes.checkRequest entry.request epoch now with
  | ok expiry => exact Or.inl ⟨_, rfl, rfl, rfl⟩
  | refuse e => exact Or.inr ⟨_, rfl, rfl, rfl⟩
  | raise => exact absurd hcheck Routes.checkRequest_ne_raise

theorem delivered_timely (sound : queue.Sound) {delivery : Delivery} (hnow : validTime now = true)
    (hlast : queue.lastNowMs = some now) (hmem : entry ∈ queue.entries) (hdue : due now entry = false)
    (h : delivered routes epoch now entry = some delivery) :
    now < delivery.deadlineMs ∧ validDelivery delivery = true := by
  obtain ⟨expiry, hcheck, rfl⟩ := delivered_eq_some.mp h
  obtain ⟨hbase, -, last, hlast', hle⟩ := sound.entries entry hmem
  obtain rfl : now = last := Option.some.inj (hlast.symm.trans hlast')
  have hexpiry : now < expiry := (Routes.checkRequest_eq_ok hcheck).1
  have hopen : now < entry.expiresAtMs := by simpa [due] using hdue
  have hfuture : now < min entry.expiresAtMs expiry := lt_min hopen hexpiry
  have hend : validTime entry.expiresAtMs = true := by
    simp only [baseEntry, Bool.and_eq_true] at hbase
    exact hbase.1.2
  refine ⟨hfuture, ?_⟩
  simp only [validTime, inRange_iff] at hnow hend
  have hmin : min entry.expiresAtMs expiry ≤ entry.expiresAtMs := min_le_left _ _
  simp only [validDelivery, validTime, Bool.and_eq_true, inRange_iff, decide_eq_true_eq]
  exact ⟨⟨⟨hbase, by omega, by omega⟩, by omega⟩, hmin⟩

theorem readyTickets_of_ready (peer : Ieee) (now : Int) (ready : List Delivery) :
    readyTickets peer (ready.map (.ready now)) = lane peer (ready.map Delivery.entry) := by
  induction ready with
  | nil => rfl
  | cons delivery rest ih =>
    unfold readyTickets lane at ih ⊢
    by_cases h : isFor peer delivery.entry = true <;> simp [h, ih]

theorem map_delivered_sublist : ∀ selected : List DownlinkEntry,
      ((selected.filterMap (delivered routes epoch now)).map Delivery.entry).Sublist selected
  | [] => List.Sublist.slnil
  | entry :: rest => by
    cases h : delivered routes epoch now entry with
    | none =>
      rw [filterMap_cons_none h]
      exact (map_delivered_sublist rest).cons entry
    | some delivery =>
      obtain ⟨expiry, -, rfl⟩ := delivered_eq_some.mp h
      rw [filterMap_cons_some h]
      exact (map_delivered_sublist rest).cons_cons entry

section

variable {peer : Ieee} {limit : Nat} {taken : Taken} (h : queue.take routes peer now limit = .ok taken)
include h

theorem take_eq_ok :
    validTime now = true ∧ ∃ current, queue.expire now = .ok (current, taken.expired) ∧
      taken.queue = { current with entries := (pick (isFor peer) limit current.entries).2 } ∧
      taken.ready = (pick (isFor peer) limit current.entries).1.filterMap
        (delivered routes queue.epoch now) ∧
      taken.refused = (pick (isFor peer) limit current.entries).1.filterMap
        (refusal routes queue.epoch now) := by
  simp only [take, bind_eq_ok, exists_unit] at h
  obtain ⟨hadmission, -, -, -, ⟨current, expired⟩, hexpire, h⟩ := h
  rw [select_eq, classify_eq] at h
  cases h
  exact ⟨(admission_eq_ok hadmission).2.1, current, hexpire, rfl, rfl, rfl⟩

/-- **`take/5`.** The picked entries of the lane are its first ones, so those that become ready come
before everything that stays. -/
theorem take_effect :
    Effect queue (taken.queue, [], taken.expired.map .expired ++
      taken.ready.map (.ready now) ++ taken.refused.map .refused) := by
  obtain ⟨hnow, current, hexpire, hqueue, hready, hrefused⟩ := take_eq_ok h
  obtain ⟨sound, hlast, generation, hentries, hexpired⟩ := expire_eq_ok hexpire
  generalize hpick : pick (isFor peer) limit current.entries = picked at *
  have hsub : picked.2.Sublist current.entries := hpick ▸ pick_sublist _ _ _
  have hperm : (picked.1 ++ picked.2).Perm current.entries := hpick ▸ pick_perm _ _ _
  have hcurrent : current.entries.Sublist queue.entries := hentries ▸ filter_sublist
  rw [hqueue, hready, hrefused]
  refine .released ?_ generation ?_ ?_ ?_
  · exact sound.retain hsub sound.clock (fun last hl => ⟨last, hl, le_refl _⟩) current.epoch
  · -- expired, ready, refused and retained entries together
    have hsorted : ((picked.1.filterMap (delivered routes queue.epoch now)).map Delivery.entry ++
        (picked.1.filterMap (refusal routes queue.epoch now)).map Refusal.entry).Perm picked.1 :=
      classify_perm fun entry _ => classified entry
    have hall : (taken.expired ++ current.entries).Perm queue.entries := by
      rw [hexpired, hentries]
      exact filter_append_perm _ _
    refine List.Perm.trans ?_ hall
    simp only [map_append, map_map, Function.comp_def, Departure.entry, map_id', append_assoc]
    refine List.Perm.append_left _ ?_
    rw [← append_assoc]
    exact (hsorted.append_right _).trans hperm
  · intro other
    rw [readyTickets_append, readyTickets_append, readyTickets_of_ready,
      readyTickets_reported (fun _ _ _ => Departure.noConfusion),
      readyTickets_reported (fun _ _ _ => Departure.noConfusion), append_nil]
    have hselected : (lane other ((picked.1.filterMap (delivered routes queue.epoch now)).map
        Delivery.entry)).Sublist (lane other picked.1) :=
      lane_sublist (map_delivered_sublist picked.1) other
    refine (hselected.append_right _).trans ?_
    refine List.Sublist.trans ?_ (lane_sublist hcurrent other)
    by_cases hother : other = peer
    · subst hother
      have happend : picked.1 ++ picked.2.filter (isFor other) =
          current.entries.filter (isFor other) := hpick ▸ pick_append _ _ _
      have hfor : picked.1.filter (isFor other) = picked.1 :=
        filter_eq_self.mpr (hpick ▸ pick_of_mem _ _ _)
      rw [lane, lane, lane, hfor, ← happend, map_append]
    · have hnone : picked.1.filter (isFor other) = [] := by
        refine filter_eq_nil_iff.mpr fun entry he hfor => hother ?_
        have hpeer := pick_of_mem (isFor peer) limit current.entries entry (hpick ▸ he)
        exact (of_decide_eq_true hfor).symm.trans (of_decide_eq_true hpeer)
      have hstay : picked.2.filter (isFor other) = current.entries.filter (isFor other) := by
        rw [← hpick]
        refine pick_other (fun entry he => ?_) _ _
        exact decide_eq_false fun hp => hother ((of_decide_eq_true he).symm.trans hp)
      rw [lane, lane, lane, hnone, hstay, map_nil, nil_append]
  · simp only [forall_mem_append, forall_mem_map]
    refine ⟨⟨fun _ _ => trivial, fun delivery hd => ?_⟩, fun _ _ => trivial⟩
    obtain ⟨entry, he, hdelivered⟩ := mem_filterMap.mp hd
    have hmem : entry ∈ current.entries := hperm.subset (mem_append_left _ he)
    have hopen : due now entry = false := by
      rw [hentries, mem_filter] at hmem
      simpa using hmem.2
    exact delivered_timely sound hnow hlast hmem hopen hdelivered

end

theorem accepted_effect {result : Result α} {report : α → Downlinks × List Nat × List Departure}
    (h : ∀ a, result = .ok a → Effect queue (report a)) :
    Effect queue (queue.accepted result report) := by
  cases result with
  | ok a => exact h a rfl
  | refuse | raise => exact .kept

/-- **One call of a queue is one of the effects.** -/
theorem step_effect (queue : Downlinks) (call : Call) : Effect queue (queue.step call) := by
  cases call with
  | enqueue request now lifetime => exact accepted_effect fun _ h => enqueue_effect h
  | expire now => exact accepted_effect fun _ h => expire_effect h
  | take routes peer now limit => exact accepted_effect fun _ h => take_effect h
  | cancel ticket => exact accepted_effect fun _ h => cancel_effect h
  | rebind epoch => exact accepted_effect fun _ h => rebind_effect h

/-! ## The accounts of a history -/

/-- The tickets that left, in the order of the departures. -/
def left (departures : List Departure) : List Nat := departures.map fun d => d.entry.ticket

/-- The accounts of the calls so far. -/
structure Accounts (ledger : Ledger) : Prop where
  sound : ledger.queue.Sound
  /-- Every admitted ticket is pending or has left, and no other ticket is or has. -/
  conserved : (left ledger.departures ++ ledger.queue.entries.map DownlinkEntry.ticket).Perm ledger.admitted
  /-- Tickets are admitted in increasing order. -/
  increasing : ledger.admitted.Pairwise (· < ·)
  issued : ∀ ticket ∈ ledger.admitted, ticket ≤ ledger.queue.generation
  /-- The ready tickets of a peer, followed by its pending ones, are in the order of admission. -/
  ordered : ∀ peer, (readyTickets peer ledger.departures ++ lane peer ledger.queue.entries).Pairwise (· < ·)
  timely : ∀ departure ∈ ledger.departures, departure.Timely

theorem readyTickets_subset (peer : Ieee) (departures : List Departure) :
    ∀ ticket ∈ readyTickets peer departures, ticket ∈ left departures := by
  intro ticket h
  obtain ⟨departure, hd, hticket⟩ := mem_filterMap.mp h
  refine mem_map.mpr ⟨departure, hd, ?_⟩
  cases departure with
  | ready now delivery =>
    dsimp only at hticket
    split_ifs at hticket
    exact Option.some.inj hticket
  | refused | expired | cancelled | invalidated => cases hticket

theorem lane_subset (peer : Ieee) (entries : List DownlinkEntry) :
    ∀ ticket ∈ lane peer entries, ticket ∈ entries.map DownlinkEntry.ticket :=
  ((filter_sublist).map _).subset

/-- **One call keeps the accounts.** -/
theorem Accounts.next {ledger : Ledger} (h : Accounts ledger) (call : Call) :
    Accounts (ledger.next call) := by
  unfold Ledger.next
  generalize hstep : ledger.queue.step call = result
  have heffect : Effect ledger.queue result := hstep ▸ step_effect ledger.queue call
  cases heffect with
  | kept => simpa using h
  | @admitted queue' entry sound entries ticket generation =>
    have hbound : ∀ t ∈ ledger.admitted, t < entry.ticket := fun t ht => by
      have := h.issued t ht
      omega
    have hpast : ∀ t ∈ left ledger.departures ++ ledger.queue.entries.map DownlinkEntry.ticket,
        t < entry.ticket := fun t ht => hbound t (h.conserved.subset ht)
    constructor
    · exact sound
    · rw [entries, append_nil, map_append, ← append_assoc]
      exact h.conserved.append_right _
    · refine pairwise_append.mpr ⟨h.increasing, pairwise_singleton _ _, ?_⟩
      exact fun t ht => forall_mem_singleton.mpr (hbound t ht)
    · refine forall_mem_append.mpr ⟨fun t ht => generation ▸ (hbound t ht).le, ?_⟩
      exact forall_mem_singleton.mpr generation.ge
    · -- the new entry goes to the end of its lane, behind every ticket issued before
      intro peer
      rw [entries, append_nil, lane, filter_append, map_append, ← append_assoc]
      refine pairwise_append.mpr ⟨h.ordered peer, ?_, ?_⟩
      · exact (pairwise_singleton _ entry.ticket).sublist ((filter_sublist).map _)
      · intro t ht t' ht'
        have hnew : t' = entry.ticket := by
          simpa using ((filter_sublist (p := isFor peer) (l := [entry])).map
            DownlinkEntry.ticket).subset ht'
        refine hnew ▸ hpast t ?_
        rcases mem_append.mp ht with ht | ht
        · exact mem_append_left _ (readyTickets_subset peer _ t ht)
        · exact mem_append_right _ (lane_subset peer _ t ht)
    · simpa using h.timely
  | @released queue' departures sound generation conserved ordered timely =>
    constructor
    · exact sound
    · have htickets := (conserved.map DownlinkEntry.ticket)
      rw [map_append, map_map] at htickets
      rw [left, map_append, append_assoc, append_nil]
      exact (htickets.append_left _).trans h.conserved
    · simpa using h.increasing
    · intro t ht
      rw [append_nil] at ht
      exact generation ▸ h.issued t ht
    · intro peer
      rw [readyTickets_append, append_assoc]
      exact (h.ordered peer).sublist ((List.Sublist.refl _).append (ordered peer))
    · exact forall_mem_append.mpr ⟨h.timely, timely⟩

/-- **Every history keeps the accounts.** -/
theorem foldl_accounts : ∀ (calls : List Call) {ledger : Ledger}, Accounts ledger →
    Accounts (calls.foldl Ledger.next ledger)
  | [], _, h => h
  | call :: rest, _, h => foldl_accounts rest (h.next call)

theorem new_accounts {options : Options} (h : new epoch options = .ok queue) : Accounts { queue } := by
  unfold new failure at h
  dsimp only at h
  split_ifs at h with hvalid
  cases h
  exact {
    sound := valid_iff.mp hvalid
    conserved := by simp [left]
    increasing := List.Pairwise.nil
    issued := by simp
    ordered := by simp [readyTickets, lane]
    timely := by simp }

/-- **The downlink queue conserves tickets.** After every history of calls from an empty queue: the
queue is valid; the tickets admitted, all different and in increasing order, are exactly those that
left and those still pending, so that each left at most once and in one way; the tickets of one
peer became ready in the order of admission; and every delivery was handed out before its deadline
and passes `valid_delivery?/1`. -/
theorem tickets_conserved {epoch : Reference} {options : Options} {queue : Downlinks}
    (hnew : new epoch options = .ok queue) (calls : List Call) :
    (queue.history calls).queue.valid = true ∧
    (left (queue.history calls).departures ++
      (queue.history calls).queue.entries.map DownlinkEntry.ticket).Perm (queue.history calls).admitted ∧
    (queue.history calls).admitted.Pairwise (· < ·) ∧
    (left (queue.history calls).departures ++
      (queue.history calls).queue.entries.map DownlinkEntry.ticket).Nodup ∧
    (∀ peer, (readyTickets peer (queue.history calls).departures).Pairwise (· < ·)) ∧
    (∀ now delivery, .ready now delivery ∈ (queue.history calls).departures →
      now < delivery.deadlineMs ∧ validDelivery delivery = true) := by
  have h : Accounts (queue.history calls) := foldl_accounts calls (new_accounts hnew)
  refine ⟨valid_iff.mpr h.sound, h.conserved, h.increasing, ?_, fun peer => ?_,
    fun now delivery hd => h.timely _ hd⟩
  · exact h.conserved.nodup_iff.mpr (h.increasing.imp Nat.ne_of_lt)
  · exact (pairwise_append.mp (h.ordered peer)).1

/-- A request to the peer with identity 7 at route 21. -/
def command (correlation : UInt8) : DataRequest where
  peerIeee := 7
  routeAddress := 21
  destinationEndpoint := 1
  sourceEndpoint := 1
  cluster := 6
  transaction := 0
  correlationId := [correlation]
  data := [1, 0, 2]

/-- The route table that has adopted that peer. -/
def custody : Routes := (Routes.mk 1 4 0 ∅).run [.adopt (Routes.interviewed 1 3) 0 10]

/-- Two commands are queued, the first is handed out and the second cancelled. -/
theorem commands_conserved :
    new 1 = .ok { epoch := 1, capacity := 128, perPeer := 8, maxBytes := 16384 } ∧
      left (history { epoch := 1, capacity := 128, perPeer := 8, maxBytes := 16384 }
        [.enqueue (command 1) 0 5, .enqueue (command 2) 1 5, .take custody 7 2 1,
          .cancel 2]).departures = [1, 2] ∧
      (history { epoch := 1, capacity := 128, perPeer := 8, maxBytes := 16384 }
        [.enqueue (command 1) 0 5, .enqueue (command 2) 1 5, .take custody 7 2 1,
          .cancel 2]).queue.valid = true := by
  have h : new 1 = .ok { epoch := 1, capacity := 128, perPeer := 8, maxBytes := 16384 } := by decide
  exact ⟨h, by decide, (tickets_conserved h _).1⟩

end Downlinks

end Wotex.Zigbee
