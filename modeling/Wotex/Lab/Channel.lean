import Mathlib
import Wotex.Term.Members
import Wotex.Term.Pairs
import Wotex.Term.Utf8

/-!
# The continuum channel (`packages/wotex-lab/lib/wotex/lab/continuum/channel.ex`)

A server that carries values between named endpoints under a fault schedule. Each accepted send makes an
item, `pending` at first. `transmit` drops it, holds it or dispatches it; a held item is delivered by a later
send, when the sequence that releases it is reached (`releaseHolds`). While the channel is disconnected
`transmit` does nothing, and `reconnect` transmits every item that is not acknowledged or failed.

The delivery id of the source is `delivery-` and the sequence number, so an item is looked up by its sequence
number, and `items` is in the order of `order`. Held items come in the order in which they were held. A value
is given by what the codec makes of it. A delivery record that `Delivery.from_map/1` refuses would stop the
server and end the run; the model goes on.

* `Moves` is what a transmission can do to the items, with the messages it sends.
* `Sound` is the condition on a send under which it keeps the channel's promises; `respected_iff` says that a
  run keeps them exactly when each of its steps is sound.

Results: `exec_kept` (a sound run keeps the promises), `unsound_send` (a send that is not sound breaks one),
`respected_iff`. Out of scope: what an endpoint does with a delivery.
-/

namespace Wotex.Lab.Channel

open List

/-! ## Data -/

structure FaultSchedule where
  drop : List Int
  duplicate : List Int
  hold : List (Int × Int)
  drop_pos : ∀ n ∈ drop, 0 < n
  duplicate_pos : ∀ n ∈ duplicate, 0 < n
  hold_later : ∀ p ∈ hold, p.1 < p.2

def FaultSchedule.new (drop duplicate : List Int) (hold : List (Int × Int)) : Option FaultSchedule :=
  if h : (∀ n ∈ drop, 0 < n) ∧ (∀ n ∈ duplicate, 0 < n) ∧ ∀ p ∈ hold, p.1 < p.2 then
    some ⟨drop, duplicate, hold, h.1, h.2.1, h.2.2⟩
  else none

/-- The status of a delivery. -/
inductive Status where
  | pending
  | inFlight
  | delivered
  | acknowledged
  | failed
  deriving DecidableEq

/-- `status in [:pending, :in_flight, :delivered]`. -/
def Status.isOpen : Status → Bool
  | .pending | .inFlight | .delivered => true
  | .acknowledged | .failed => false

/-- The failure of a dropped delivery. -/
structure Failure where
  code : Text
  message : Text

/-- An item of the channel. -/
structure Item where
  sequence : Nat
  source : Text
  destination : Text
  wire : Bytes
  itemKind : Text
  itemId : Text
  attempt : Nat
  status : Status
  emittedAt : Int
  acknowledgedAt : Option Int
  receiptToken : Nat
  error : Option Failure

/-- The process attached to an endpoint, its monitor, and whether it is told the source. -/
structure Attachment where
  pid : Nat
  monitor : Nat
  source : Bool

/-- `{:wotex_continuum, ...}`, with the source and the receipt token for a source-aware attachment. -/
structure Message where
  pid : Nat
  destination : Text
  receipt : Option (Text × Nat)
  delivery : Nat
  wire : Bytes

/-- The code of an error. -/
inductive Code where
  | invalidEndpoint
  | endpointInUse
  | sourceNotAttached
  | capacityExhausted
  | invalidContinuumValue
  | invalidReceiptToken
  | unknownDelivery
  | value (code : Text)

/-- The retry class of an error. -/
inductive Class where
  | unavailable
  | protocol
  | permanent

/-- `Wotex.Lab.Error`, phase `channel`. -/
structure Error where
  code : Code
  message : Text
  retry : Option Class

def error (code : Code) (message : Text) : Error := ⟨code, message, some .permanent⟩

/-- The state of the server; `references` counts the references made so far. -/
structure State where
  capacity : Nat
  faults : FaultSchedule
  endpoints : Dict Attachment
  monitors : List (Nat × Text)
  sequence : Nat
  connected : Bool
  items : List Item
  held : List Nat
  references : Nat

def State.init (capacity : Nat) (faults : FaultSchedule) : State :=
  ⟨capacity, faults, .empty, [], 0, true, [], [], 0⟩

/-- What the codec makes of a value: the canonical bytes, and the kind and the id of its map. -/
structure Value where
  wire : Option Bytes
  map : Except Error (Text × Text)

/-- The calls, and the notice of a dead process. -/
inductive Input where
  | attach (endpoint : Bytes) (pid : Nat) (source : Bool)
  | send (caller : Nat) (source destination : Bytes) (value : Value) (now : Int)
  | ack (caller : Nat) (delivery : Nat) (token : Option Nat) (now : Int)
  | deliveries
  | disconnect
  | reconnect
  | down (monitor : Nat)

/-- The reply of a call. -/
inductive Reply where
  | ok
  | error (error : Error)
  | delivery (item : Option Item)
  | deliveries (items : List Item)

/-! ## The server -/

namespace State

/-- `state.items[id]`. -/
def item (s : State) (id : Nat) : Option Item := s.items.find? fun i => i.sequence = id

/-- `put_in(state, [:items, item.id], item)`. -/
def put (s : State) (item : Item) : State :=
  { s with items := s.items.map fun i => if i.sequence = item.sequence then item else i }

/-- `endpoint?/1`, with the name it is valid for. -/
def endpointName (value : Bytes) : Option Text :=
  if 1 ≤ value.length ∧ value.length ≤ 256 then value.text? else none

variable (s : State) (item : Item)

def deliver : List Message :=
  match s.endpoints.get item.destination with
  | some attachment => [⟨attachment.pid, item.destination,
      if attachment.source then some (item.source, item.receiptToken) else none, item.sequence, item.wire⟩]
  | none => []

/-- `fault?(state, item, :drop)`: faults apply to the first attempt only. -/
def drops : Bool :=
  item.attempt = 1 && s.faults.drop.contains (item.sequence : Int)

/-- `fault?(state, item, :duplicate)`. -/
def duplicates : Bool :=
  item.attempt = 1 && s.faults.duplicate.contains (item.sequence : Int)

/-- `fault?(state, item, :hold)`. -/
def holds : Bool :=
  item.attempt = 1 && (s.faults.hold.lookup (item.sequence : Int)).isSome

def fail : State :=
  s.put { item with
    status := .failed
    error := some ⟨"dropped", "delivery dropped by the fault schedule"⟩ }

def hold : State := { s with held := s.held ++ [item.sequence] }

def dispatch : State × List Message :=
  (s.put { item with status := .inFlight },
    (replicate (if s.duplicates item then 2 else 1) (s.deliver item)).flatten)

/-- `transmit/2`; every caller passes the id of an item. -/
def transmit (s : State) (id : Nat) : State × List Message :=
  match s.item id with
  | none => (s, [])
  | some item =>
    if !s.connected then (s, [])
    else if s.drops item then (s.fail item, [])
    else if s.holds item && !s.held.contains item.sequence then (s.hold item, [])
    else s.dispatch item

/-- `Enum.reduce/3` over ids, with the messages of each. -/
def sweep (f : State → Nat → State × List Message) (s : State) : List Nat → State × List Message
  | [] => (s, [])
  | id :: ids =>
    let first := f s id
    let rest := sweep f first.1 ids
    (rest.1, first.2 ++ rest.2)

variable (s : State)

/-- `state.faults.hold[held] <= sequence`. -/
def due (sequence held : Nat) : Bool :=
  match s.faults.hold.lookup (held : Int) with
  | some until_ => until_ ≤ (sequence : Int)
  | none => false

/-- The reduction of `release_holds/2`. -/
def release (id : Nat) : State × List Message :=
  let s := { s with held := s.held.filter (· ≠ id) }
  match s.item id with
  | none => (s, [])
  | some item => (s.put { item with status := .inFlight }, s.deliver item)

def releaseHolds (sequence : Nat) : State × List Message :=
  s.sweep release (s.held.filter (s.due sequence))

/-- The number of deliveries that are not acknowledged or failed. -/
def unacknowledged : Nat := s.items.countP fun i => i.status.isOpen

/-- The checks of a send, and the state with the new item. -/
def accept (caller : Nat) (source destination : Bytes) (value : Value) (now : Int) :
    Except Error State := do
  let invalid := error .invalidEndpoint "source and destination endpoints are invalid"
  let some source := endpointName source | .error invalid
  let some destination := endpointName destination | .error invalid
  if ((s.endpoints.get source).map Attachment.pid) ≠ some caller then
    .error (error .sourceNotAttached "caller does not own the source endpoint")
  else if s.capacity ≤ s.unacknowledged then
    .error ⟨.capacityExhausted, "unacknowledged deliveries reached capacity", some .unavailable⟩
  else
    let some wire := value.wire
      | .error ⟨.invalidContinuumValue, "value is not a registered continuum value", some .protocol⟩
    let (kind, id) ← value.map
    .ok { s with
      sequence := s.sequence + 1
      items := s.items ++ [{
        sequence := s.sequence + 1, source := source, destination := destination, wire := wire,
        itemKind := kind, itemId := id, attempt := 1, status := .pending, emittedAt := now,
        acknowledgedAt := none, receiptToken := s.references, error := none }]
      references := s.references + 1 }

/-- `handle_call({:attach, ...})`. -/
def attach (endpoint : Bytes) (pid : Nat) (source : Bool) : State × Reply :=
  match endpointName endpoint with
  | none => (s, .error (error .invalidEndpoint "endpoint attachment is invalid"))
  | some name =>
    match s.endpoints.get name with
    | some attachment =>
      if attachment.pid ≠ pid then
        (s, .error (error .endpointInUse "endpoint already has an owner"))
      else ({ s with endpoints := s.endpoints.put name { attachment with source := source } }, .ok)
    | none =>
      ({ s with
          endpoints := s.endpoints.put name ⟨pid, s.references, source⟩
          monitors := (s.references, name) :: s.monitors
          references := s.references + 1 }, .ok)

def authorizedAck (item : Item) (caller : Nat) (token : Option Nat) : Bool :=
  (s.endpoints.get item.destination).map Attachment.pid = some caller && token.all (· = item.receiptToken)

/-- `acknowledge/3` and `acknowledge_item/3`. -/
def acknowledge (caller delivery : Nat) (token : Option Nat) (now : Int) : State × Reply :=
  let unknown : Error := ⟨.unknownDelivery, "delivery cannot be acknowledged", none⟩
  match s.item delivery with
  | none => (s, .error unknown)
  | some item =>
    if s.authorizedAck item caller token then
      match item.status with
      | .inFlight | .delivered =>
        (s.put { item with status := .acknowledged, acknowledgedAt := some now }, .ok)
      | .acknowledged => (s, .ok)
      | .pending | .failed => (s, .error unknown)
    else (s, .error (error .invalidReceiptToken "delivery token is invalid"))

/-- The reduction of a reconnection. -/
def replay (id : Nat) : State × List Message :=
  match s.item id with
  | none => (s, [])
  | some item =>
    let attempt := if item.status = .pending then item.attempt else item.attempt + 1
    (s.put { item with attempt := attempt, status := .pending }).transmit id

/-- `handle_call(:reconnect)`. -/
def reconnect : State × List Message :=
  let open_ := (s.items.filter fun i => i.status.isOpen).map Item.sequence
  { s with connected := true }.sweep replay open_

/-- `handle_info({:DOWN, ...})`. -/
def down (monitor : Nat) : State :=
  match s.monitors.lookup monitor with
  | none => s
  | some endpoint => { s with
      endpoints := s.endpoints.delete endpoint
      monitors := s.monitors.filter fun m => m.1 ≠ monitor }

end State

/-- The state, the messages and the reply of an input; a notice has no reply. -/
structure Step where
  state : State
  messages : List Message
  reply : Option Reply

/-- `handle_call/3` and `handle_info/2`. -/
def step (s : State) : Input → Step
  | .attach endpoint pid source =>
    let (next, reply) := s.attach endpoint pid source
    ⟨next, [], some reply⟩
  | .send caller source destination value now =>
    match s.accept caller source destination value now with
    | .error e => ⟨s, [], some (.error e)⟩
    | .ok accepted =>
      let (sent, messages) := accepted.transmit accepted.sequence
      let (released, more) := sent.releaseHolds accepted.sequence
      ⟨released, messages ++ more, some (.delivery (released.item accepted.sequence))⟩
  | .ack caller delivery token now =>
    let (next, reply) := s.acknowledge caller delivery token now
    ⟨next, [], some reply⟩
  | .deliveries => ⟨s, [], some (.deliveries s.items)⟩
  | .disconnect => ⟨{ s with connected := false }, [], some .ok⟩
  | .reconnect =>
    let (next, messages) := s.reconnect
    ⟨next, messages, some .ok⟩
  | .down monitor => ⟨s.down monitor, [], none⟩

/-- The state behind a run. -/
def exec (s : State) (inputs : List Input) : State := inputs.foldl (fun s input => (step s input).state) s

/-! ## What a transmission can do -/

/-- Every item of a well-formed state has its place as its sequence number, only an item the schedule drops is
failed, and such an item is not held. -/
structure State.Valid (s : State) : Prop where
  sequences : s.items.map Item.sequence = range' 1 s.sequence
  failed : ∀ i ∈ s.items, i.status = .failed → (i.sequence : Int) ∈ s.faults.drop
  held : ∀ k ∈ s.held, (k : Int) ∉ s.faults.drop ∧ k ∈ s.items.map Item.sequence
  held_nodup : s.held.Nodup

namespace State

variable {s t : State} {k : Nat} {i j : Item} {faults : FaultSchedule} {xs ys : List Nat}
   {m : List Message}

theorem Valid.nodup (h : s.Valid) : (s.items.map Item.sequence).Nodup := by
  rw [h.sequences]
  exact nodup_range'

theorem item_eq_some (hs : (s.items.map Item.sequence).Nodup) :
    s.item k = some i ↔ i ∈ s.items ∧ i.sequence = k := by
  constructor
  · intro h
    exact ⟨mem_of_find?_eq_some h, by simpa using find?_some h⟩
  · rintro ⟨hi, rfl⟩
    obtain ⟨j, hj⟩ : ∃ j, s.item i.sequence = some j := by
      rw [← Option.isSome_iff_exists]
      exact find?_isSome.mpr ⟨i, hi, by simp⟩
    have hj' : j.sequence = i.sequence := by simpa using find?_some hj
    rw [hj, inj_on_of_nodup_map hs (mem_of_find?_eq_some hj) hi hj']

/-- What can become of an item: a delivery that is acknowledged or failed stays so, and only an item the
schedule drops can fail. -/
structure Evolve (faults : FaultSchedule) (touched : List Nat) (i j : Item) : Prop where
  sequence : j.sequence = i.sequence
  destination : j.destination = i.destination
  settled : i.status.isOpen = false → j.status = i.status
  failed : j.status = .failed → i.status = .failed ∨ (i.sequence : Int) ∈ faults.drop
  frame : i.sequence ∉ touched → j = i

theorem Evolve.refl (faults : FaultSchedule) (touched : List Nat) (i : Item) : Evolve faults touched i i :=
  ⟨rfl, rfl, fun _ => rfl, Or.inl, fun _ => rfl⟩

theorem Evolve.trans {k : Item}
    (h : Evolve faults xs i j) (h' : Evolve faults ys j k) : Evolve faults (xs ++ ys) i k where
  sequence := h'.sequence.trans h.sequence
  destination := h'.destination.trans h.destination
  settled hi := by
    have hj := h.settled hi
    exact (h'.settled (by rw [hj]; exact hi)).trans hj
  failed hk := by
    rcases h'.failed hk with hj | hj
    · exact h.failed hj
    · exact Or.inr (h.sequence ▸ hj)
  frame hi := by
    rw [mem_append, not_or] at hi
    have hj := h.frame hi.1
    subst hj
    exact h'.frame hi.2

theorem Evolve.open_before (h : Evolve faults xs i j) (hj : j.status.isOpen = true) :
    i.status.isOpen = true := by
  by_contra hi
  rw [Bool.not_eq_true] at hi
  rw [h.settled hi, hi] at hj
  cases hj

/-- **What a transmission can do**: nothing but items and held items changes, each item evolves, and messages
are sent on a connected channel, for open items. -/
structure Moves (touched : List Nat) (s t : State) (messages : List Message) : Prop where
  keeps : t = { s with items := t.items, held := t.held }
  items : List.Forall₂ (Evolve s.faults touched) s.items t.items
  held : ∀ k ∈ t.held, k ∈ s.held ∨ k ∈ touched ∧ (k : Int) ∉ s.faults.drop ∧ k ∈ s.items.map Item.sequence
  held_nodup : s.held.Nodup → t.held.Nodup
  messages : ∀ m ∈ messages, s.connected = true ∧
    ∃ i ∈ s.items, i.sequence = m.delivery ∧ i.status.isOpen = true

theorem Moves.refl (touched : List Nat) (s : State) : Moves touched s s [] :=
  ⟨rfl, forall₂_same.mpr fun i _ => Evolve.refl _ _ i, fun _ => Or.inl, id, by simp⟩

section

variable (h : Moves xs s t m)
include h

theorem Moves.sequences : t.items.map Item.sequence = s.items.map Item.sequence :=
  map_eq_of_forall₂ (fun _ _ hij => hij.sequence) h.items

theorem Moves.trans {u : State} {n : List Message}
    (h' : Moves ys t u n) : Moves (xs ++ ys) s u (m ++ n) where
  keeps := by
    rw [h'.keeps, h.keeps]
  items := by
    have hfaults : t.faults = s.faults := by rw [h.keeps]
    refine forall₂_trans (fun i j k hij hjk => hij.trans hjk) h.items ?_
    rw [← hfaults]
    exact h'.items
  held k hk := by
    rcases h'.held k hk with hk | ⟨htouched, hdrop, hk⟩
    · exact (h.held k hk).imp id fun hk => ⟨mem_append_left _ hk.1, hk.2⟩
    · rw [h.keeps] at hdrop
      rw [h.sequences] at hk
      exact Or.inr ⟨mem_append_right _ htouched, hdrop, hk⟩
  held_nodup hs := h'.held_nodup (h.held_nodup hs)
  messages a ha := by
    rcases mem_append.mp ha with ha | ha
    · exact h.messages a ha
    · obtain ⟨hc, j, hj, hseq, hopen⟩ := h'.messages a ha
      obtain ⟨i, hi, hij⟩ := forall₂_exists_left h.items hj
      rw [h.keeps] at hc
      exact ⟨hc, i, hi, hij.sequence.symm.trans hseq, hij.open_before hopen⟩

theorem Moves.mono (hsub : ∀ k ∈ xs, k ∈ ys) : Moves ys s t m :=
  { h with
    items := h.items.imp fun _ _ hij => { hij with frame := fun hn => hij.frame fun hx => hn (hsub _ hx) }
    held := fun k hk => (h.held k hk).imp id fun hk => ⟨hsub k hk.1, hk.2⟩ }

theorem Moves.item_frame (hs : (s.items.map Item.sequence).Nodup) (hk : k ∉ xs) (hi : s.item k = some i) :
    t.item k = some i := by
  obtain ⟨hmem, rfl⟩ := (item_eq_some hs).mp hi
  obtain ⟨j, hj, hij⟩ := forall₂_exists_right h.items hmem
  obtain rfl := hij.frame hk
  exact (item_eq_some (by rw [h.sequences]; exact hs)).mpr ⟨hj, rfl⟩

theorem Moves.unacknowledged_le : t.unacknowledged ≤ s.unacknowledged :=
  countP_le_of_forall₂ (fun _ _ hij => hij.open_before) h.items

theorem Moves.valid (hs : s.Valid) : t.Valid where
  sequences := by
    rw [h.sequences, hs.sequences, h.keeps]
  failed j hj hfailed := by
    obtain ⟨i, hi, hij⟩ := forall₂_exists_left h.items hj
    rw [h.keeps, hij.sequence]
    rcases hij.failed hfailed with hi' | hdrop
    · exact hs.failed i hi hi'
    · exact hdrop
  held k hk := by
    rw [h.sequences, h.keeps]
    rcases h.held k hk with hk | hk
    · exact hs.held k hk
    · exact hk.2
  held_nodup := h.held_nodup hs.held_nodup

end

section

variable (hs : (s.items.map Item.sequence).Nodup)
include hs

theorem moves_put (hi : i ∈ s.items)
    (hij : Evolve s.faults [i.sequence] i j) : Moves [i.sequence] s (s.put j) [] where
  keeps := rfl
  items := forall₂_map_self fun a ha => by
    split
    · rename_i hseq
      obtain rfl := inj_on_of_nodup_map hs ha hi (hseq.trans hij.sequence)
      exact hij
    · exact Evolve.refl _ _ a
  held _ := Or.inl
  held_nodup := id
  messages := by simp

omit hs in
theorem mem_deliver {m : Message} (hm : m ∈ s.deliver i) : m.delivery = i.sequence := by
  unfold deliver at hm
  split at hm
  · obtain rfl := mem_singleton.mp hm
    rfl
  · cases hm

omit hs in
/-- An open item evolves with every status it is given but `failed`, which needs a drop. -/
theorem evolve_status (hopen : i.status.isOpen = true) (hseq : j.sequence = i.sequence)
    (hdest : j.destination = i.destination)
    (hfailed : j.status = .failed → (i.sequence : Int) ∈ faults.drop) : Evolve faults [i.sequence] i j where
  sequence := hseq
  destination := hdest
  settled h := by rw [hopen] at h; cases h
  failed h := Or.inr (hfailed h)
  frame h := absurd mem_cons_self h

variable (hi : s.item k = some i)
include hi

theorem transmit_moves
    (hopen : i.status.isOpen = true) : Moves [k] s (s.transmit k).1 (s.transmit k).2 := by
  obtain ⟨hmem, rfl⟩ := (item_eq_some hs).mp hi
  unfold transmit
  rw [hi]
  dsimp only
  split
  · exact Moves.refl _ s
  · rename_i hconn
    split
    · rename_i hdrop
      refine moves_put hs hmem (evolve_status hopen rfl rfl fun _ => ?_)
      simp only [drops, Bool.and_eq_true, contains_iff_mem] at hdrop
      exact hdrop.2
    · rename_i hdrop
      split
      · rename_i hhold
        simp only [holds, Bool.and_eq_true, Bool.not_eq_true', contains_eq_mem, decide_eq_false_iff_not]
          at hhold
        refine ⟨rfl, forall₂_same.mpr fun a _ => Evolve.refl _ _ a, fun k hk => ?_,
          fun hn => hn.append (nodup_singleton _) (disjoint_singleton.mpr hhold.2), by simp⟩
        simp only [drops, Bool.and_eq_true, contains_iff_mem, hhold.1.1, true_and] at hdrop
        rcases mem_append.mp hk with hk | hk
        · exact Or.inl hk
        · obtain rfl := mem_singleton.mp hk
          exact Or.inr ⟨mem_cons_self, hdrop, mem_map_of_mem hmem⟩
      · have hput := moves_put hs hmem (j := { i with status := .inFlight })
          (evolve_status hopen rfl rfl nofun)
        refine { hput with messages := fun m hm => ?_ }
        obtain ⟨copy, hcopy, hm⟩ := mem_flatten.mp hm
        obtain rfl := eq_of_mem_replicate hcopy
        exact ⟨by simpa using hconn, i, hmem, (mem_deliver hm).symm, hopen⟩

theorem replay_moves (hopen : i.status.isOpen = true) : Moves [k] s (s.replay k).1 (s.replay k).2 := by
  obtain ⟨hmem, rfl⟩ := (item_eq_some hs).mp hi
  unfold replay
  rw [hi]
  dsimp only
  generalize hj : ({ i with
    attempt := if i.status = .pending then i.attempt else i.attempt + 1
    status := .pending } : Item) = j
  have hstatus : j.status = .pending := by rw [← hj]
  have hseq : j.sequence = i.sequence := by rw [← hj]
  have hput : Moves [i.sequence] s (s.put j) [] :=
    moves_put hs hmem (evolve_status hopen hseq (by rw [← hj]) fun h => by rw [hstatus] at h; cases h)
  have hs' : ((s.put j).items.map Item.sequence).Nodup := by rw [hput.sequences]; exact hs
  have hj' : (s.put j).item i.sequence = some j := by
    refine (item_eq_some hs').mpr ⟨?_, hseq⟩
    exact mem_map.mpr ⟨i, hmem, if_pos hseq.symm⟩
  exact (hput.trans (transmit_moves hs' hj' (by rw [hstatus]; rfl))).mono (by simp)

/-- A delivery that may be released: it is open, and the channel is connected or nobody is attached. -/
def Releasable (s : State) (i : Item) : Prop :=
  i.status.isOpen = true ∧ (s.connected = true ∨ s.endpoints.get i.destination = none)

omit hs in
theorem release_eq :
    s.release k =
      ({ s with held := s.held.filter (· ≠ k) }.put { i with status := .inFlight }, s.deliver i) := by
  unfold release
  dsimp only
  rw [show State.item { s with held := s.held.filter (· ≠ k) } k = some i from hi]
  rfl

theorem release_moves (hrel : s.Releasable i) : Moves [k] s (s.release k).1 (s.release k).2 := by
  obtain ⟨hmem, rfl⟩ := (item_eq_some hs).mp hi
  have hput := moves_put hs hmem (j := { i with status := .inFlight }) (evolve_status hrel.1 rfl rfl nofun)
  rw [release_eq hi]
  refine { hput with
    keeps := rfl
    held := fun k hk => Or.inl (mem_of_mem_filter hk)
    held_nodup := fun hn => hn.filter _
    messages := fun m hm => ⟨?_, i, hmem, (mem_deliver hm).symm, hrel.1⟩ }
  rcases hrel.2 with hc | hnone
  · exact hc
  · dsimp only [deliver] at hm
    rw [hnone] at hm
    cases hm

end

/-- A reduction over distinct ids, from what one step does to an item that meets the condition. -/
theorem sweep_moves {f : State → Nat → State × List Message} {P : State → Item → Prop}
    (hf : ∀ s : State, (s.items.map Item.sequence).Nodup → ∀ k i, s.item k = some i → P s i →
      Moves [k] s (f s k).1 (f s k).2)
    (hP : ∀ (s t : State) i, t = { s with items := t.items, held := t.held } → P s i → P t i) :
    ∀ (ids : List Nat) (s : State), (s.items.map Item.sequence).Nodup → ids.Nodup →
      (∀ k ∈ ids, ∃ i, s.item k = some i ∧ P s i) → Moves ids s (s.sweep f ids).1 (s.sweep f ids).2
  | [], s, _, _, _ => Moves.refl _ s
  | id :: ids, s, hs, hids, h => by
    obtain ⟨i, hi, hPi⟩ := h id mem_cons_self
    have first := hf s hs id i hi hPi
    have hs' : ((f s id).1.items.map Item.sequence).Nodup := by rw [first.sequences]; exact hs
    refine first.trans (sweep_moves hf hP ids _ hs' (nodup_cons.mp hids).2 fun k hk => ?_)
    obtain ⟨j, hj, hPj⟩ := h k (mem_cons_of_mem _ hk)
    have hne : k ∉ [id] := by
      rw [mem_singleton]
      rintro rfl
      exact (nodup_cons.mp hids).1 hk
    exact ⟨j, first.item_frame hs hne hj, hP _ _ _ first.keeps hPj⟩

/-! ## One input -/

theorem mem_range' (hs : s.Valid) : k ∈ s.items.map Item.sequence ↔ 1 ≤ k ∧ k ≤ s.sequence := by
  rw [hs.sequences, mem_range'_1]
  omega

theorem accept_eq_ok {caller : Nat} {source destination : Bytes} {value : Value} {now : Int}
    (h : s.accept caller source destination value now = .ok t) :
    s.unacknowledged < s.capacity ∧ ∃ item : Item, item.sequence = s.sequence + 1 ∧ item.status = .pending ∧
      t = { s with
        sequence := s.sequence + 1
        items := s.items ++ [item]
        references := s.references + 1 } := by
  revert h
  fun_cases accept s caller source destination value now
  case case3 =>
    cases value.map with
    | error => nofun
    | ok =>
      rintro ⟨⟩
      exact ⟨by omega, _, rfl, rfl, rfl⟩
  all_goals nofun

theorem accept_valid (hs : s.Valid) {caller : Nat} {source destination : Bytes} {value : Value}
    {now : Int} (h : s.accept caller source destination value now = .ok t) : t.Valid := by
  obtain ⟨-, item, hseq, hstatus, rfl⟩ := accept_eq_ok h
  refine ⟨?_, fun i hi hfailed => ?_, fun k hk => ?_, hs.held_nodup⟩
  · rw [map_append, hs.sequences, map_singleton, hseq, range'_1_concat, Nat.add_comm]
  · rcases mem_append.mp hi with hi | hi
    · exact hs.failed i hi hfailed
    · rw [mem_singleton.mp hi, hstatus] at hfailed
      cases hfailed
  · rw [map_append]
    exact ⟨(hs.held k hk).1, mem_append_left _ (hs.held k hk).2⟩

theorem due_self (s : State) (n : Nat) : s.due n n = false := by
  unfold due
  split
  · rename_i until_ h
    obtain ⟨before, after, hsplit, -⟩ := lookup_eq_some_iff.mp h
    have hlater := s.faults.hold_later ((n : Int), until_) (by rw [hsplit]; simp)
    simpa using hlater
  · rfl

theorem item_put (s : State) (j : Item) (k : Nat) :
    (s.put j).item k = if k = j.sequence then (s.item k).map fun _ => j else s.item k := by
  have hseq : ∀ i : Item, (if i.sequence = j.sequence then j else i).sequence = i.sequence := by
    intro i
    split
    · rename_i h
      exact h.symm
    · rfl
  unfold item put
  rw [find?_map]
  simp only [Function.comp_def, hseq]
  cases hi : s.items.find? fun i => i.sequence = k with
  | none => simp
  | some i =>
    obtain rfl : i.sequence = k := by simpa using find?_some hi
    split <;> simp_all

end State

/-- A send releases no acknowledged delivery, and none to an attached process while the channel is
disconnected. -/
def Sound (s : State) : Input → Prop
  | .send caller source destination value now =>
    (∃ t, s.accept caller source destination value now = .ok t) →
      ∀ k ∈ s.held, s.due (s.sequence + 1) k = true → ∀ i, s.item k = some i →
        i.status ≠ .acknowledged ∧ (s.connected = true ∨ s.endpoints.get i.destination = none)
  | _ => True

/-- What a sound input does. -/
structure Kept (s : State) (input : Input) (r : Step) : Prop where
  valid : r.state.Valid
  settled : ∀ i ∈ s.items, i.status.isOpen = false →
    ∃ j ∈ r.state.items, j.sequence = i.sequence ∧ j.status = i.status
  messages : ∀ m ∈ r.messages, (s.connected = true ∨ input = .reconnect) ∧
    (m.delivery = s.sequence + 1 ∨ ∃ i ∈ s.items, i.sequence = m.delivery ∧ i.status.isOpen = true)
  capacity : r.state.capacity = s.capacity
  bounded : s.unacknowledged ≤ s.capacity → r.state.unacknowledged ≤ s.capacity

variable {s t : State} {input : Input} {k caller : Nat} {source destination : Bytes} {value : Value}
   {now : Int}

/-- A transmission keeps the promises, on a state with the same items. -/
theorem Kept.of_moves {s₁ : State} {r : Step} {xs : List Nat} (hs : s₁.Valid)
    (hitems : s₁.items = s.items) (hcap : s₁.capacity = s.capacity)
    (hconn : s₁.connected = true → s.connected = true ∨ input = .reconnect)
    (h : State.Moves xs s₁ r.state r.messages) : Kept s input r where
  valid := h.valid hs
  settled i hi hclosed := by
    obtain ⟨j, hj, hij⟩ := forall₂_exists_right h.items (hitems ▸ hi)
    exact ⟨j, hj, hij.sequence, hij.settled hclosed⟩
  messages m hm := by
    obtain ⟨hc, i, hi, hseq, hopen⟩ := h.messages m hm
    exact ⟨hconn hc, Or.inr ⟨i, hitems ▸ hi, hseq, hopen⟩⟩
  capacity := by
    rw [h.keeps]
    exact hcap
  bounded hb := by
    refine h.unacknowledged_le.trans ?_
    rw [State.unacknowledged, hitems]
    exact hb

/-- A state with the same items and no messages keeps the promises. -/
theorem Kept.idle {reply : Option Reply} (hs : t.Valid) (hitems : t.items = s.items)
    (hcap : t.capacity = s.capacity) : Kept s input ⟨t, [], reply⟩ where
  valid := hs
  settled i hi _ := ⟨i, hitems ▸ hi, rfl, rfl⟩
  messages _ := nofun
  capacity := hcap
  bounded hb := by
    rw [State.unacknowledged, hitems]
    exact hb

section

variable (hs : s.Valid)
include hs

theorem attach_kept (endpoint : Bytes) (pid : Nat) (source : Bool) :
    Kept s (.attach endpoint pid source) (step s (.attach endpoint pid source)) := by
  rw [step]
  fun_cases State.attach s endpoint pid source <;> exact Kept.idle { hs with } rfl rfl

theorem down_kept (monitor : Nat) : Kept s (.down monitor) (step s (.down monitor)) := by
  unfold step State.down
  dsimp only
  split <;> exact Kept.idle { hs with } rfl rfl

theorem ack_kept (caller delivery : Nat) (token : Option Nat) (now : Int) :
    Kept s (.ack caller delivery token now) (step s (.ack caller delivery token now)) := by
  have same : ∀ reply, Kept s (.ack caller delivery token now) ⟨s, [], some reply⟩ :=
    fun reply => Kept.idle { hs with } rfl rfl
  have acked : ∀ {item : Item} reply, s.item delivery = some item → item.status.isOpen = true →
      Kept s (.ack caller delivery token now)
        ⟨s.put { item with status := .acknowledged, acknowledgedAt := some now }, [], some reply⟩ :=
    fun reply hitem hopen => Kept.of_moves hs rfl rfl Or.inl (State.moves_put hs.nodup
      ((State.item_eq_some hs.nodup).mp hitem).1 (State.evolve_status hopen rfl rfl nofun))
  rw [step]
  fun_cases State.acknowledge s caller delivery token now
  case case2 item hitem _ hstatus | case3 item hitem _ hstatus =>
    exact acked _ hitem (by rw [hstatus]; rfl)
  all_goals exact same _

theorem reconnect_kept : Kept s .reconnect (step s .reconnect) := by
  have hs₁ : State.Valid { s with connected := true } := { hs with }
  refine Kept.of_moves hs₁ rfl rfl (fun _ => Or.inr rfl)
    (State.sweep_moves (P := fun _ i => i.status.isOpen = true)
      (fun s hs k i hi hopen => State.replay_moves hs hi hopen) (fun _ _ _ _ h => h) _ _ hs₁.nodup ?_ ?_)
  · exact hs.nodup.sublist (List.Sublist.map _ filter_sublist)
  · refine forall_mem_map.mpr fun i hi => ?_
    rw [mem_filter] at hi
    exact ⟨i, (State.item_eq_some hs₁.nodup).mpr ⟨hi.1, rfl⟩, hi.2⟩

/-- A held item that is due with a send is there, and it is not failed. -/
theorem State.Valid.item_of_held (hk : k ∈ s.held) :
    ∃ i, s.item k = some i ∧ k ≤ s.sequence ∧ i.status ≠ .failed := by
  obtain ⟨hdrop, hmem⟩ := hs.held k hk
  obtain ⟨i, hi, rfl⟩ := mem_map.mp hmem
  exact ⟨i, (State.item_eq_some hs.nodup).mpr ⟨hi, rfl⟩, ((State.mem_range' hs).mp hmem).2,
    fun hfailed => hdrop (hs.failed i hi hfailed)⟩

/-- An accepted send: the new item is transmitted, and the items due are those that were held. -/
theorem accepted_moves (h : s.accept caller source destination value now = .ok t) :
    t.sequence = s.sequence + 1 ∧
    State.Moves [s.sequence + 1] t (t.transmit t.sequence).1 (t.transmit t.sequence).2 ∧
    (∀ k i, s.item k = some i → k ≤ s.sequence → (t.transmit t.sequence).1.item k = some i) ∧
    ∀ k, k ∈ (t.transmit t.sequence).1.held → s.due (s.sequence + 1) k = true → k ∈ s.held := by
  have ht := State.accept_valid hs h
  obtain ⟨-, item, hseq, hstatus, rfl⟩ := State.accept_eq_ok h
  have hitem : State.item _ (s.sequence + 1) = some item :=
    (State.item_eq_some ht.nodup).mpr ⟨by simp, hseq⟩
  have hmoves := State.transmit_moves ht.nodup hitem (by rw [hstatus]; rfl)
  refine ⟨rfl, hmoves, fun k i hi hk => ?_, fun k hk hdue => ?_⟩
  · obtain ⟨hmem, hi'⟩ := (State.item_eq_some hs.nodup).mp hi
    refine hmoves.item_frame ht.nodup (by simp; omega) ?_
    exact (State.item_eq_some ht.nodup).mpr ⟨by simp [hmem], hi'⟩
  · rcases hmoves.held k hk with hk | ⟨hk, -⟩
    · exact hk
    · rw [mem_singleton.mp hk, State.due_self] at hdue
      cases hdue

omit hs in
theorem step_send (h : s.accept caller source destination value now = .ok t) :
    step s (.send caller source destination value now) =
      ⟨((t.transmit t.sequence).1.releaseHolds t.sequence).1,
        (t.transmit t.sequence).2 ++ ((t.transmit t.sequence).1.releaseHolds t.sequence).2,
        some (.delivery (((t.transmit t.sequence).1.releaseHolds t.sequence).1.item t.sequence))⟩ := by
  rw [step, h]

theorem send_kept (hsound : Sound s (.send caller source destination value now)) :
    Kept s (.send caller source destination value now)
      (step s (.send caller source destination value now)) := by
  cases h : s.accept caller source destination value now with
  | error e =>
    rw [step, h]
    exact Kept.idle { hs with } rfl rfl
  | ok t =>
    have ht := State.accept_valid hs h
    obtain ⟨hseq, hsent, hframe, hheld⟩ := accepted_moves hs h
    obtain ⟨hroom, item, hitem, hstatus, htdef⟩ := State.accept_eq_ok h
    have hsound := hsound ⟨t, h⟩
    rw [step_send h]
    generalize t.transmit t.sequence = sent at hsent hframe hheld
    have hsentv := hsent.valid ht
    have hfaults : sent.1.faults = s.faults := by rw [hsent.keeps, htdef]
    have hdue : ∀ k, sent.1.due t.sequence k = s.due (s.sequence + 1) k := fun k => by
      rw [State.due, State.due, hfaults, hseq]
    have hreleased : State.Moves (sent.1.held.filter (sent.1.due t.sequence)) sent.1
        (sent.1.releaseHolds t.sequence).1 (sent.1.releaseHolds t.sequence).2 := by
      refine State.sweep_moves (P := State.Releasable)
        (fun s hs k i hi hrel => State.release_moves hs hi hrel) ?_ _ _ hsentv.nodup
        (hsentv.held_nodup.filter _) ?_
      · intro a b i hab hrel
        rw [hab]
        exact hrel
      · intro k hk
        rw [mem_filter, hdue] at hk
        have hk' := hheld k hk.1 hk.2
        obtain ⟨i, hi, hle, hfailed⟩ := hs.item_of_held hk'
        obtain ⟨hacked, hconn⟩ := hsound k hk' hk.2 i hi
        refine ⟨i, hframe k i hi hle, ?_, ?_⟩
        · cases hst : i.status <;> simp_all [Status.isOpen]
        · rw [hsent.keeps, htdef]
          exact hconn
    have hall := hsent.trans hreleased
    refine ⟨hall.valid ht, fun i hi hclosed => ?_, fun m hm => ?_, ?_, fun hb => ?_⟩
    · obtain ⟨j, hj, hij⟩ := forall₂_exists_right hall.items (a := i) (by rw [htdef]; simp [hi])
      exact ⟨j, hj, hij.sequence, hij.settled hclosed⟩
    · obtain ⟨hc, i, hi, him, hopen⟩ := hall.messages m hm
      rw [htdef] at hc hi
      refine ⟨Or.inl hc, ?_⟩
      rcases mem_append.mp hi with hi | hi
      · exact Or.inr ⟨i, hi, him, hopen⟩
      · rw [mem_singleton.mp hi, hitem] at him
        exact Or.inl him.symm
    · rw [hall.keeps, htdef]
    · refine hall.unacknowledged_le.trans ?_
      rw [htdef, State.unacknowledged, countP_append]
      have hone : [item].countP (fun i => i.status.isOpen) ≤ 1 := countP_le_length
      rw [State.unacknowledged] at hroom
      omega

/-- **A sound input keeps the promises.** -/
theorem step_kept (h : Sound s input) : Kept s input (step s input) := by
  cases input with
  | attach endpoint pid source => exact attach_kept hs endpoint pid source
  | send caller source destination value now => exact send_kept hs h
  | ack caller delivery token now => exact ack_kept hs caller delivery token now
  | deliveries => exact Kept.idle { hs with } rfl rfl
  | disconnect => exact Kept.idle { hs with } rfl rfl
  | reconnect => exact reconnect_kept hs
  | down monitor => exact down_kept hs monitor

end

/-! ## A send that is not sound -/

theorem State.held_transmit {id : Nat} (hk : k ∈ s.held) : k ∈ (s.transmit id).1.held := by
  fun_cases transmit s id
  case case4 => exact mem_append_left _ hk
  all_goals exact hk

theorem State.release_other (s : State) {j : Nat} (hne : k ≠ j) :
    (s.release j).1.item k = s.item k ∧ (s.release j).1.endpoints = s.endpoints := by
  cases hi : s.item j with
  | none =>
    unfold release
    dsimp only
    rw [show State.item { s with held := s.held.filter (· ≠ j) } j = none from hi]
    exact ⟨rfl, rfl⟩
  | some i =>
    have hj : i.sequence = j := by simpa using find?_some hi
    rw [release_eq hi, State.item_put, if_neg (by rw [← hj] at hne; exact hne)]
    exact ⟨rfl, rfl⟩

theorem State.sweep_release_other (k : Nat) : ∀ (ids : List Nat) (s : State), k ∉ ids →
    (s.sweep release ids).1.item k = s.item k
  | [], _, _ => rfl
  | id :: ids, s, hk => by
    rw [mem_cons, not_or] at hk
    exact (sweep_release_other k ids _ hk.2).trans (s.release_other hk.1).1

/-- A release puts the item in flight and sends it to the attached process, whatever its status is. -/
theorem State.sweep_release {i : Item} : ∀ (ids : List Nat) (s : State), k ∈ ids → ids.Nodup →
    s.item k = some i → (s.sweep release ids).1.item k = some { i with status := .inFlight } ∧
      ∀ m ∈ s.deliver i, m ∈ (s.sweep release ids).2
  | [], _, hk, _, _ => absurd hk not_mem_nil
  | id :: ids, s, hk, hids, hi => by
    obtain ⟨hid, hids⟩ := nodup_cons.mp hids
    by_cases hkid : k = id
    · subst hkid
      have hseq : i.sequence = k := by simpa using find?_some hi
      have hfirst : (s.release k).1.item k = some { i with status := .inFlight } := by
        rw [release_eq hi, State.item_put, if_pos hseq.symm]
        rw [show State.item { s with held := s.held.filter (· ≠ k) } k = some i from hi]
        rfl
      refine ⟨(sweep_release_other k ids _ hid).trans hfirst, fun m hm => mem_append_left _ ?_⟩
      rw [release_eq hi]
      exact hm
    · obtain ⟨hother, hends⟩ := s.release_other hkid
      have hrest := sweep_release ids (s.release id).1 ((mem_cons.mp hk).resolve_left hkid) hids
        (hother.trans hi)
      refine ⟨hrest.1, fun m hm => mem_append_right _ (hrest.2 m ?_)⟩
      rw [deliver, hends]
      exact hm

/-- A send that is not sound puts an acknowledged delivery in flight again, or sends a message on a
disconnected channel. -/
theorem unsound_send (hs : s.Valid) (h : ¬ Sound s (.send caller source destination value now)) :
    (∃ k i j, s.item k = some i ∧ i.status = .acknowledged ∧ j.status = .inFlight ∧
      (step s (.send caller source destination value now)).state.item k = some j) ∨
    s.connected = false ∧ (step s (.send caller source destination value now)).messages ≠ [] := by
  simp only [Sound, not_forall] at h
  obtain ⟨⟨t, h⟩, k, hk, hdue, i, hi, hbad⟩ := h
  have ht := State.accept_valid hs h
  obtain ⟨hseq, hsent, hframe, -⟩ := accepted_moves hs h
  obtain ⟨-, item, -, -, htdef⟩ := State.accept_eq_ok h
  obtain ⟨-, -, hle, -⟩ := hs.item_of_held hk
  have hheld : k ∈ (t.transmit t.sequence).1.held := State.held_transmit (by rw [htdef]; exact hk)
  rw [step_send h]
  generalize t.transmit t.sequence = sent at hsent hframe hheld
  have hdue' : sent.1.due t.sequence k = true := by
    rw [State.due, show sent.1.faults = s.faults by rw [hsent.keeps, htdef], hseq]
    exact hdue
  obtain ⟨hitem, hmessages⟩ := State.sweep_release (sent.1.held.filter (sent.1.due t.sequence)) sent.1
    (mem_filter.mpr ⟨hheld, hdue'⟩) ((hsent.valid ht).held_nodup.filter _) (hframe k i hi hle)
  by_cases hacked : i.status = .acknowledged
  · exact Or.inl ⟨k, i, _, hi, hacked, rfl, hitem⟩
  · simp only [not_and_or, not_not, hacked, false_or, not_or, Bool.not_eq_true] at hbad
    refine Or.inr ⟨hbad.1, fun hnil => ?_⟩
    obtain ⟨attachment, hattached⟩ := Option.ne_none_iff_exists'.mp hbad.2
    have hends : sent.1.endpoints = s.endpoints := by rw [hsent.keeps, htdef]
    have hmem := hmessages _ (by rw [State.deliver, hends, hattached]; exact mem_cons_self)
    have hnone : (State.sweep State.release sent.1 (sent.1.held.filter (sent.1.due t.sequence))).2 = [] :=
      (append_eq_nil_iff.mp hnil).2
    rw [hnone] at hmem
    cases hmem

/-! ## Runs -/

/-- The status of a delivery. -/
def State.statusOf (s : State) (k : Nat) : Option Status := (s.item k).map Item.status

/-- On a connected channel a send is sound unless a held delivery is acknowledged. -/
theorem sound_of_connected (hc : s.connected = true)
    (h : ∀ k ∈ s.held, s.statusOf k ≠ some .acknowledged) (input : Input) : Sound s input := by
  cases input with
  | send caller source destination value now =>
    intro _ k hk _ i hi
    refine ⟨fun hst => h k hk ?_, Or.inl hc⟩
    rw [State.statusOf, hi, Option.map_some, hst]
  | attach | ack | deliveries | disconnect | reconnect | down => trivial

/-- The promises of the channel over a run: acknowledged and failed deliveries stay so, messages are sent on
a connected channel only, none for a delivery that was acknowledged, and no more than `capacity` deliveries
are open. -/
structure Respected (s : State) (inputs : List Input) : Prop where
  settled : ∀ before between after k status, inputs = before ++ between ++ after →
    (exec s before).statusOf k = some status → status = .acknowledged ∨ status = .failed →
    (exec s (before ++ between)).statusOf k = some status
  silent : ∀ before input after, inputs = before ++ input :: after →
    (step (exec s before) input).messages ≠ [] → (exec s before).connected = true ∨ input = .reconnect
  once : ∀ before between input after k, inputs = before ++ between ++ input :: after →
    (exec s before).statusOf k = some .acknowledged →
    ∀ m ∈ (step (exec s (before ++ between)) input).messages, m.delivery ≠ k
  bounded : ∀ before after, inputs = before ++ after → (exec s before).unacknowledged ≤ s.capacity

theorem exec_append (s : State) (xs ys : List Input) : exec s (xs ++ ys) = exec (exec s xs) ys :=
  foldl_append

theorem init_valid (capacity : Nat) (faults : FaultSchedule) : (State.init capacity faults).Valid where
  sequences := rfl
  failed := by simp [State.init]
  held := by simp [State.init]
  held_nodup := nodup_nil

theorem exec_kept (hs : s.Valid) (inputs : List Input)
    (h : ∀ before input after, inputs = before ++ input :: after → Sound (exec s before) input) :
    (exec s inputs).Valid ∧ (exec s inputs).capacity = s.capacity ∧
    (∀ i ∈ s.items, i.status.isOpen = false →
      ∃ j ∈ (exec s inputs).items, j.sequence = i.sequence ∧ j.status = i.status) ∧
    (s.unacknowledged ≤ s.capacity → (exec s inputs).unacknowledged ≤ s.capacity) := by
  induction inputs generalizing s with
  | nil => exact ⟨hs, rfl, fun i hi _ => ⟨i, hi, rfl, rfl⟩, id⟩
  | cons input inputs ih =>
    have kept := step_kept hs (h [] input inputs rfl)
    obtain ⟨hv, hcap, hsettled, hbound⟩ := ih kept.valid fun before i after heq =>
      h (input :: before) i after (by rw [heq]; rfl)
    refine ⟨hv, hcap.trans kept.capacity, fun i hi hclosed => ?_, fun hb => ?_⟩
    · obtain ⟨j, hj, hseq, hst⟩ := kept.settled i hi hclosed
      obtain ⟨k, hk, hseq', hst'⟩ := hsettled j hj (by rw [hst]; exact hclosed)
      exact ⟨k, hk, hseq'.trans hseq, hst'.trans hst⟩
    · rw [← kept.capacity] at hb ⊢
      refine hbound ?_
      rw [kept.capacity] at hb ⊢
      exact kept.bounded hb

theorem State.statusOf_eq_some (hs : s.Valid) {status : Status} :
    s.statusOf k = some status ↔ ∃ i ∈ s.items, i.sequence = k ∧ i.status = status := by
  simp [statusOf, State.item_eq_some hs.nodup, and_assoc]

/-- **A run keeps the promises exactly when every send in it is sound.** -/
theorem respected_iff (capacity : Nat) (faults : FaultSchedule) (inputs : List Input) :
    Respected (.init capacity faults) inputs ↔ ∀ before input after, inputs = before ++ input :: after →
      Sound (exec (.init capacity faults) before) input := by
  have hinit := init_valid capacity faults
  constructor
  · intro h before
    -- the inputs in front of this one are sound already, so the state here is valid
    induction hn : before.length using Nat.strong_induction_on generalizing before with
    | _ n ih =>
      subst hn
      intro input after heq
      have hv := (exec_kept hinit before fun b i a hb =>
        ih b.length (by rw [hb]; simp) b rfl i (a ++ input :: after) (by rw [heq, hb]; simp)).1
      cases input with
      | send caller source destination value now =>
        by_contra hsound
        rcases unsound_send hv hsound with ⟨k, i, j, hi, hst, hst', hj⟩ | ⟨hconn, hmsg⟩
        · have hkept := h.settled before [.send caller source destination value now] after k .acknowledged
            (by rw [heq]; simp) (by rw [State.statusOf, hi, Option.map_some, hst]) (Or.inl rfl)
          have hnow : (exec (.init capacity faults)
              (before ++ [.send caller source destination value now])).statusOf k = some .inFlight := by
            rw [exec_append, State.statusOf, show (exec _ [_]).item k = some j from hj, Option.map_some, hst']
          rw [hnow] at hkept
          cases hkept
        · rcases h.silent before _ after heq hmsg with hc | hc
          · rw [hconn] at hc
            cases hc
          · cases hc
      | attach | ack | deliveries | disconnect | reconnect | down => trivial
  · intro h
    have front : ∀ before after, inputs = before ++ after → ∀ b i a, before = b ++ i :: a →
        Sound (exec (.init capacity faults) b) i := fun before after heq b i a hb =>
      h b i (a ++ after) (by rw [heq, hb]; simp)
    have settled : ∀ before between after k status, inputs = before ++ between ++ after →
        (exec (.init capacity faults) before).statusOf k = some status →
        status = .acknowledged ∨ status = .failed →
        (exec (.init capacity faults) (before ++ between)).statusOf k = some status := by
      intro before between after k status heq hk hclosed
      have hv := (exec_kept hinit _ (front before (between ++ after) (by rw [heq]; simp))).1
      obtain ⟨i, hi, hseq, hst⟩ := (State.statusOf_eq_some hv).mp hk
      rw [exec_append]
      obtain ⟨hv', -, hsettled, -⟩ := exec_kept hv between fun b i a hb => by
        rw [← exec_append]
        exact h (before ++ b) i (a ++ after) (by rw [heq, hb]; simp)
      obtain ⟨j, hj, hseq', hst'⟩ := hsettled i hi (by rw [hst]; rcases hclosed with rfl | rfl <;> rfl)
      exact (State.statusOf_eq_some hv').mpr ⟨j, hj, hseq'.trans hseq, hst'.trans hst⟩
    refine ⟨settled, fun before input after heq hmsg => ?_,
      fun before between input after k heq hk m hm hmk => ?_, fun before after heq => ?_⟩
    · have hv := (exec_kept hinit _ (front before (input :: after) heq)).1
      obtain ⟨m, hm⟩ := exists_mem_of_ne_nil _ hmsg
      exact ((step_kept hv (h before input after heq)).messages m hm).1
    · have hv := (exec_kept hinit _ (front (before ++ between) (input :: after) heq)).1
      have hacked := settled before between (input :: after) k .acknowledged heq hk (Or.inl rfl)
      obtain ⟨i, hi, hseq, hst⟩ := (State.statusOf_eq_some hv).mp hacked
      rcases ((step_kept hv (h _ input after heq)).messages m hm).2 with hnew | ⟨j, hj, hjseq, hopen⟩
      · have := ((State.mem_range' hv).mp (mem_map_of_mem hi)).2
        omega
      · obtain rfl := inj_on_of_nodup_map hv.nodup hi hj (by rw [hseq, hjseq, hmk])
        rw [hst] at hopen
        cases hopen
    · exact (exec_kept hinit _ (front before after heq)).2.2.2 (Nat.zero_le _)

/-- A send from endpoint `a`, owned by process 1, to endpoint `b`, owned by process 2. -/
def sampleSend : Input :=
  .send 1 (ascii "a").utf8 (ascii "b").utf8 ⟨some [], .ok (ascii "receipt", ascii "r")⟩ 0

/-- The two endpoints. -/
def sampleEndpoints : List Input :=
  [.attach (ascii "a").utf8 1 false, .attach (ascii "b").utf8 2 true]

theorem held_once :
    (let faults : FaultSchedule := ⟨[], [], [(1, 2)], by simp, by simp, by simp⟩
     let inputs := sampleEndpoints ++ [sampleSend, sampleSend]
     Respected (.init 4 faults) inputs ∧
      (step (exec (.init 4 faults) (sampleEndpoints ++ [sampleSend])) sampleSend).messages.map
        Message.delivery = [2, 1]) := by
  intro faults inputs
  refine ⟨(respected_iff 4 faults inputs).mpr fun before input after heq => ?_, by decide +kernel⟩
  have fine : ∀ n < 4, (exec (.init 4 faults) (inputs.take n)).connected = true ∧
      ∀ k ∈ (exec (.init 4 faults) (inputs.take n)).held,
        (exec (.init 4 faults) (inputs.take n)).statusOf k ≠ some .acknowledged := by decide +kernel
  have hlen : before.length < 4 := by
    have : inputs.length = 4 := by decide +kernel
    rw [heq, length_append, length_cons] at this
    omega
  have here := fine before.length hlen
  rw [heq, take_left] at here
  exact sound_of_connected here.1 here.2 input

/-- A held delivery is replayed and acknowledged, and the send that releases it sends it again, puts it in
flight and exceeds the capacity; and a send on a disconnected channel delivers a held item. -/
theorem held_delivery_again :
    (let faults : FaultSchedule := ⟨[], [], [(1, 3)], by simp, by simp, by simp⟩
     let acked := exec (.init 2 faults)
      (sampleEndpoints ++ [sampleSend, .disconnect, .reconnect, .ack 2 1 none 0, sampleSend])
     let off := exec (.init 3 faults) (sampleEndpoints ++ [sampleSend, .disconnect, sampleSend])
     (acked.statusOf 1 = some .acknowledged ∧ (step acked sampleSend).state.statusOf 1 = some .inFlight ∧
        (step acked sampleSend).messages.map Message.delivery = [3, 1] ∧
        (step acked sampleSend).state.unacknowledged = 3) ∧
      off.connected = false ∧ (step off sampleSend).messages.map Message.delivery = [1]) := by
  decide +kernel

end Wotex.Lab.Channel
