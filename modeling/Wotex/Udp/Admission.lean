import Wotex.Term.Bytes
import Wotex.Term.Sorting
import Mathlib.Data.List.Range
import Mathlib.Algebra.BigOperators.Group.List.Basic

/-!
# UDP admission (`packages/wotex-udp/lib/wotex/udp/admission.ex`)

The row of the admission table: the requests that were admitted and not released, with the counters the
checks read. `insert` is what a producer computes from the row it read, `take` and `release` what the owner
computes.

A map of requests is the list of its entries with distinct ids, in admission order. A non-conforming request
term is refused before the table is read.

`Event` records what was done to the row. `Ledger.Accounts` says how the row and the record belong together;
`Ledger.Step` is one atomic change, and `accounts_step` says that each keeps the accounts.
-/

namespace Wotex.Udp

open List

/-- `operation`. -/
inductive Operation where
  | local_
  | send
  | recv
  | recvBatch
  | join
  | leave
  | close
  deriving DecidableEq

/-- An argument: a binary, an integer, a float by its value, or another term. -/
inductive Arg where
  | binary (data : Bytes)
  | number (n : Int)
  | float (value : Rat)
  | other (term : Nat)
  deriving DecidableEq

/-- `request`. -/
structure Request where
  id : Nat
  caller : Nat
  reply : Nat
  operation : Operation
  args : List Arg
  deadline : Int
  epoch : Nat
  deriving DecidableEq

namespace Request

/-- `valid_request?/1`. -/
def valid (r : Request) : Bool :=
  r.args.length ≤ 3 && (r.operation != .send || match r.args with
    | [_, .binary _, _] => true
    | _ => false)

/-- `poll?/1`; `== 0` takes a float that is zero too. -/
def poll (r : Request) : Bool :=
  (r.operation = .send || r.operation = .recv || r.operation = .recvBatch) &&
    (r.args.getLast? = some (.number 0) || r.args.getLast? = some (.float 0))

def bytes (r : Request) : Nat :=
  match r.operation, r.args with
  | .send, [_, .binary data, _] => data.length
  | _, _ => 0

end Request

/-- A request of the row. -/
structure Item where
  request : Request
  sequence : Nat
  claimed : Bool
  deriving DecidableEq

def Item.id (i : Item) : Nat := i.request.id

/-- The item as it was admitted. -/
def Item.fresh (i : Item) : Item := { i with claimed := false }

/-- `kind` of the errors; their operation is `admission`. -/
inductive Kind where
  | closed
  | overload
  | timeout
  | invalidHandle

/-- `state`. -/
structure Row where
  maxCalls : Nat
  maxBytes : Nat
  bytes : Int
  sequence : Nat
  notification : Nat
  notified : Bool
  closing : Bool
  requests : List Item
  deriving DecidableEq

namespace Row

def new (maxCalls maxBytes notification : Nat) : Row :=
  ⟨maxCalls, maxBytes, 0, 0, notification, false, false, []⟩

variable (row : Row)

/-- The item of a request in a row. -/
def item (request : Request) : Item := ⟨request, row.sequence + 1, false⟩

/-- The decision of `reserve/3` on the row it read: a refusal, or the updated row. -/
def insert (request : Request) : Except Kind Row :=
  if row.closing then .error .closed
  else if row.maxCalls ≤ row.requests.length ∨ (row.maxBytes : Int) < row.bytes + request.bytes then
    .error .overload
  else if request.poll ∧ 0 < row.requests.length then .error .timeout
  else if request.id ∈ row.requests.map Item.id then .error .invalidHandle
  else .ok { row with
    requests := row.requests ++ [row.item request]
    bytes := row.bytes + request.bytes
    sequence := (row.item request).sequence
    closing := request.operation = .close
    notified := true }

/-- The requests no `take` has returned. -/
def waiting : List Item := row.requests.filter fun i => !i.claimed

/-- The update of `take/2`. -/
def take (notification : Nat) : Row :=
  { row with
    requests := row.requests.filter (·.claimed) ++ row.waiting.map fun i => { i with claimed := true }
    notification := notification
    notified := false }

/-- What `take/2` returns. -/
def published : List Item := sortBy Item.sequence row.waiting

/-- The update of `release/2`. -/
def release (id : Nat) : Row :=
  match row.requests.find? fun i => i.id = id with
  | none => row
  | some i => { row with
      requests := row.requests.filter fun j => j.id ≠ id
      bytes := row.bytes - i.request.bytes
      closing := row.closing && i.request.operation != .close }

end Row

/-! ## The record -/

/-- What was done to a row. -/
inductive Event where
  | admitted (item : Item)
  | taken (batch : List Item)
  | released (id : Nat)

variable (events : List Event)

/-- The requests admitted, in order. -/
def admissions : List Item :=
  events.flatMap fun
    | .admitted item => [item]
    | _ => []

/-- The requests returned by `take`, batch after batch. -/
def returned : List Item :=
  events.flatMap fun
    | .taken batch => batch
    | _ => []

variable (l : List Item)

/-- The effect of an event on the requests admitted and not released. -/
def unreleasedStep : Event → List Item
  | .admitted item => l ++ [item]
  | .taken _ => l
  | .released id => l.filter fun i => i.id ≠ id

/-- The requests admitted and not released. -/
def unreleased : List Item := events.foldl unreleasedStep []

/-- The total size of the sends among them. -/
def totalBytes : Nat := (l.map fun i => i.request.bytes).sum

/-- **What the record says**: the bounds, that sequence numbers count the admissions, that batches are the
admissions in order and complete at each take, and that nothing is admitted beside a close. -/
structure History (maxCalls maxBytes : Nat) (events : List Event) : Prop where
  calls : (unreleased events).length ≤ maxCalls
  bytes : totalBytes (unreleased events) ≤ maxBytes
  sequences : (admissions events).map Item.sequence = range' 1 (admissions events).length
  order : returned events <+: admissions events
  complete : ∀ before batch after, events = before ++ .taken batch :: after →
    returned (before ++ [.taken batch]) = admissions before
  alone : ∀ before item after, events = before ++ .admitted item :: after →
    ∀ i ∈ unreleased before, i.request.operation ≠ .close

/-- A row with the record of what was done to it. -/
structure Ledger where
  row : Row
  events : List Event

/-- One atomic change of the row. -/
inductive Ledger.Step : Ledger → Ledger → Prop where
  | insert (l : Ledger) (request : Request) (row : Row) (h : l.row.insert request = .ok row) :
      Ledger.Step l ⟨row, l.events ++ [.admitted (l.row.item request)]⟩
  | take (l : Ledger) (notification : Nat) :
      Ledger.Step l ⟨l.row.take notification, l.events ++ [.taken l.row.published]⟩
  | release (l : Ledger) (i : Item) (hi : i ∈ l.row.requests) (hclaimed : i.claimed = true) :
      Ledger.Step l ⟨l.row.release i.id, l.events ++ [.released i.id]⟩

/-- The row and its record belong together. -/
structure Ledger.Accounts (l : Ledger) : Prop where
  history : History l.row.maxCalls l.row.maxBytes l.events
  content : unreleased l.events = l.row.requests.map Item.fresh
  grouped : l.row.requests = l.row.requests.filter (·.claimed) ++ l.row.waiting
  waiting : admissions l.events = returned l.events ++ l.row.waiting
  sequence : l.row.sequence = (admissions l.events).length
  ids : (l.row.requests.map Item.id).Nodup
  bytes : l.row.bytes = totalBytes l.row.requests
  closing : l.row.requests.countP (fun i => i.request.operation = .close) = if l.row.closing then 1 else 0
  notified : l.row.waiting ≠ [] → l.row.notified = true

/-! ## Atomic changes keep the accounts -/

theorem totalBytes_fresh : totalBytes (l.map Item.fresh) = totalBytes l := by
  simp [totalBytes, Function.comp_def, Item.fresh]

theorem totalBytes_append (l m : List Item) : totalBytes (l ++ m) = totalBytes l + totalBytes m := by
  simp [totalBytes]

theorem unreleased_concat (e : Event) :
    unreleased (events ++ [e]) = unreleasedStep (unreleased events) e := by
  simp [unreleased]

theorem admissions_append (xs ys : List Event) : admissions (xs ++ ys) = admissions xs ++ admissions ys :=
  flatMap_append

theorem returned_append (xs ys : List Event) : returned (xs ++ ys) = returned xs ++ returned ys :=
  flatMap_append

/-- A place in a list with one more member is the new last one or a place of the list. -/
theorem split_concat {α : Type} {l before after : List α} {e x : α} (h : l ++ [e] = before ++ x :: after) :
    (before = l ∧ x = e) ∨ ∃ after', l = before ++ x :: after' := by
  rcases after.eq_nil_or_concat with rfl | ⟨after', y, rfl⟩
  · obtain ⟨rfl, hx⟩ := append_inj' h rfl
    exact Or.inl ⟨rfl, (cons.inj hx).1.symm⟩
  · rw [concat_eq_append, ← cons_append, ← append_assoc] at h
    exact Or.inr ⟨after', (append_inj' h rfl).1⟩

theorem History.concat {calls bytes : Nat} {events : List Event} {e : Event} (h : History calls bytes events)
    (hcalls : (unreleased (events ++ [e])).length ≤ calls)
    (hbytes : totalBytes (unreleased (events ++ [e])) ≤ bytes)
    (hsequences : (admissions (events ++ [e])).map Item.sequence =
      range' 1 (admissions (events ++ [e])).length)
    (horder : returned (events ++ [e]) <+: admissions (events ++ [e]))
    (hcomplete : ∀ batch, e = .taken batch → returned (events ++ [e]) = admissions events)
    (halone : ∀ item, e = .admitted item → ∀ i ∈ unreleased events, i.request.operation ≠ .close) :
    History calls bytes (events ++ [e]) := by
  refine ⟨hcalls, hbytes, hsequences, horder, fun before batch after heq => ?_, fun before item after heq => ?_⟩
  all_goals rcases split_concat heq with ⟨rfl, rfl⟩ | ⟨after', heq⟩
  · exact hcomplete batch rfl
  · exact h.complete before batch after' heq
  · exact halone item rfl
  · exact h.alone before item after' heq

theorem new_accounts (maxCalls maxBytes notification : Nat) :
    Ledger.Accounts ⟨.new maxCalls maxBytes notification, []⟩ where
  history := ⟨Nat.zero_le _, Nat.zero_le _, rfl, prefix_rfl, by simp, by simp⟩
  content := rfl
  grouped := rfl
  waiting := rfl
  sequence := rfl
  ids := nodup_nil
  bytes := rfl
  closing := rfl
  notified h := absurd rfl h

variable {l : Ledger} {i : Item}

variable (h : l.Accounts)
include h

/-- The sequence numbers of the requests that wait are increasing. -/
theorem Ledger.Accounts.waiting_sorted : l.row.waiting.Pairwise fun i j => i.sequence < j.sequence := by
  have hsorted : ((admissions l.events).map Item.sequence).Pairwise (· < ·) := by
    rw [h.history.sequences]
    exact pairwise_lt_range'
  rw [h.waiting, map_append] at hsorted
  exact pairwise_map.mp (pairwise_append.mp hsorted).2.1

theorem Ledger.Accounts.published : l.row.published = l.row.waiting :=
  sortBy_of_pairwise _ (h.waiting_sorted.imp Nat.le_of_lt)

omit h in
theorem insert_eq_ok {row row' : Row} {request : Request} (h : row.insert request = .ok row') :
    row.closing = false ∧ row.requests.length < row.maxCalls ∧
      row.bytes + request.bytes ≤ row.maxBytes ∧ request.id ∉ row.requests.map Item.id ∧
      row' = { row with
        requests := row.requests ++ [row.item request]
        bytes := row.bytes + request.bytes
        sequence := row.sequence + 1
        closing := request.operation = .close
        notified := true } := by
  unfold Row.insert at h
  split_ifs at h with hclosing hroom hpoll hid
  rw [not_or, not_le, not_lt] at hroom
  cases h
  exact ⟨by simpa using hclosing, hroom.1, hroom.2, hid, rfl⟩

theorem Ledger.Accounts.inserted {request : Request} {row : Row} (hrow : l.row.insert request = .ok row) :
    Ledger.Accounts ⟨row, l.events ++ [.admitted (l.row.item request)]⟩ := by
  obtain ⟨hclosing, hcalls, hbytes, hid, rfl⟩ := insert_eq_ok hrow
  have hnone : ∀ i ∈ l.row.requests, i.request.operation ≠ .close := by
    have hcount := h.closing
    rw [hclosing] at hcount
    simpa using hcount
  have hadm : admissions (l.events ++ [.admitted (l.row.item request)]) =
      admissions l.events ++ [l.row.item request] := admissions_append _ _
  have hret : returned (l.events ++ [.admitted (l.row.item request)]) = returned l.events :=
    (returned_append _ _).trans (append_nil _)
  have hunrel : unreleased (l.events ++ [.admitted (l.row.item request)]) =
      (l.row.requests ++ [l.row.item request]).map Item.fresh := by
    rw [unreleased_concat, h.content, map_append]
    rfl
  have htotal : totalBytes (l.row.requests ++ [l.row.item request]) =
      totalBytes l.row.requests + request.bytes := by
    rw [totalBytes_append]
    rfl
  have hitems : (l.row.requests ++ [l.row.item request]).filter (fun i => !i.claimed) =
      l.row.waiting ++ [l.row.item request] := filter_append _ _
  have hb := h.bytes
  refine ⟨h.history.concat ?_ ?_ ?_ ?_ nofun fun _ _ i hi => ?_, hunrel, ?_, ?_, ?_, ?_, ?_, ?_, fun _ => rfl⟩
  · rw [hunrel]
    simpa using hcalls
  · rw [hunrel, totalBytes_fresh]
    omega
  · rw [hadm, map_append, h.history.sequences, length_append, length_singleton,
      range'_1_concat, map_singleton, show (l.row.item request).sequence = l.row.sequence + 1 from rfl,
      h.sequence, Nat.add_comm 1]
  · rw [hret, hadm]
    exact h.history.order.trans (prefix_append _ _)
  · rw [h.content] at hi
    obtain ⟨j, hj, rfl⟩ := mem_map.mp hi
    exact hnone j hj
  · show l.row.requests ++ [l.row.item request] = filter _ _ ++ filter _ _
    rw [hitems, filter_append, ← append_assoc,
      show [l.row.item request].filter (·.claimed) = [] from rfl, append_nil, ← h.grouped]
  · rw [hadm, hret, h.waiting, append_assoc, ← hitems]
    rfl
  · rw [hadm, length_append, ← h.sequence]
    rfl
  · rw [map_append]
    refine h.ids.append (nodup_singleton _) ?_
    simpa [Item.id, Row.item] using hid
  · rw [htotal, hb]
    push_cast
    rfl
  · rw [countP_append, countP_eq_zero.mpr (by simpa using hnone), Nat.zero_add]
    by_cases hclose : request.operation = .close <;> simp [Row.item, hclose]

theorem Ledger.Accounts.take (notification : Nat) :
    Ledger.Accounts ⟨l.row.take notification, l.events ++ [.taken l.row.published]⟩ := by
  have hadm : admissions (l.events ++ [.taken l.row.published]) = admissions l.events :=
    (admissions_append _ _).trans (append_nil _)
  have hret : returned (l.events ++ [.taken l.row.published]) = admissions l.events := by
    rw [returned_append, h.waiting, ← h.published]
    exact congrArg (returned l.events ++ ·) (append_nil _)
  have hunrel : unreleased (l.events ++ [.taken l.row.published]) = unreleased l.events := unreleased_concat _ _
  have hreq : (l.row.take notification).requests = l.row.requests.map fun i => { i with claimed := true } := by
    have hold : (l.row.requests.filter (·.claimed)).map (fun i => { i with claimed := true }) =
        l.row.requests.filter (·.claimed) :=
      (map_congr_left fun i hi => by simp [← (mem_filter.mp hi).2]).trans (map_id _)
    calc (l.row.take notification).requests
        = l.row.requests.filter (·.claimed) ++ l.row.waiting.map fun i => { i with claimed := true } := rfl
      _ = (l.row.requests.filter (·.claimed) ++ l.row.waiting).map fun i => { i with claimed := true } := by
        rw [map_append, hold]
      _ = l.row.requests.map fun i => { i with claimed := true } := by rw [← h.grouped]
  have hwaiting : (l.row.take notification).waiting = [] := by
    rw [Row.waiting, hreq]
    simp
  refine ⟨h.history.concat (hunrel ▸ h.history.calls) (hunrel ▸ h.history.bytes)
    (hadm ▸ h.history.sequences) ?_ (fun _ _ => hret) nofun, ?_, ?_, ?_, ?_, ?_, ?_, ?_,
    fun hne => absurd hwaiting hne⟩
  · rw [hret, hadm]
  · rw [hunrel, h.content, hreq, map_map]
    rfl
  · rw [hwaiting, append_nil, hreq]
    exact (filter_eq_self.mpr (by simp)).symm
  · rw [hadm, hret, hwaiting, append_nil]
  · exact hadm ▸ h.sequence
  · rw [hreq, map_map]
    exact h.ids
  · show l.row.bytes = _
    rw [h.bytes, hreq]
    simp [totalBytes, Function.comp_def]
  · rw [hreq, countP_map]
    exact h.closing

section

variable (hi : i ∈ l.row.requests)
include hi

theorem Ledger.Accounts.remove :
    (l.row.requests.find? fun j => j.id = i.id) = some i ∧
      l.row.requests.Perm (i :: l.row.requests.filter fun j => j.id ≠ i.id) := by
  have hinj : ∀ j ∈ l.row.requests, j.id = i.id → j = i := fun j hj hid =>
    inj_on_of_nodup_map h.ids hj hi hid
  constructor
  · obtain ⟨j, hj⟩ : ∃ j, (l.row.requests.find? fun j => j.id = i.id) = some j := by
      rw [← Option.isSome_iff_exists]
      exact find?_isSome.mpr ⟨i, hi, by simp⟩
    rw [hj, hinj j (mem_of_find?_eq_some hj) (by simpa using find?_some hj)]
  · have hfilter : (l.row.requests.filter fun j => j.id ≠ i.id) = l.row.requests.erase i := by
      rw [h.ids.of_map.erase_eq_filter]
      refine filter_congr fun j hj => ?_
      by_cases hji : j = i
      · simp [hji]
      · have hne : j.id ≠ i.id := fun hid => hji (hinj j hj hid)
        simp [hne, hji]
    rw [hfilter]
    exact perm_cons_erase hi

theorem Ledger.Accounts.release_eq : l.row.release i.id = { l.row with
      requests := l.row.requests.filter fun j => j.id ≠ i.id
      bytes := l.row.bytes - i.request.bytes
      closing := l.row.closing && i.request.operation != .close } := by
  rw [Row.release, (h.remove hi).1]

theorem Ledger.Accounts.release (hclaimed : i.claimed = true) :
    Ledger.Accounts ⟨l.row.release i.id, l.events ++ [.released i.id]⟩ := by
  obtain ⟨-, hperm⟩ := h.remove hi
  have hadm : admissions (l.events ++ [.released i.id]) = admissions l.events :=
    (admissions_append _ _).trans (append_nil _)
  have hret : returned (l.events ++ [.released i.id]) = returned l.events :=
    (returned_append _ _).trans (append_nil _)
  have hunrel : unreleased (l.events ++ [.released i.id]) =
      (l.row.requests.filter fun j => j.id ≠ i.id).map Item.fresh := by
    rw [unreleased_concat, h.content, unreleasedStep, filter_map]
    rfl
  have htotal : totalBytes l.row.requests =
      i.request.bytes + totalBytes (l.row.requests.filter fun j => j.id ≠ i.id) := by
    rw [totalBytes, (hperm.map _).sum_eq]
    rfl
  have hkept : l.row.waiting.filter (fun j => j.id ≠ i.id) = l.row.waiting := by
    refine filter_eq_self.mpr fun j hj => ?_
    obtain ⟨hj, hwaits⟩ := mem_filter.mp hj
    rw [decide_eq_true_eq]
    intro hid
    simp [inj_on_of_nodup_map h.ids hj hi hid, hclaimed] at hwaits
  have hwaiting : (l.row.requests.filter fun j => j.id ≠ i.id).filter (fun j => !j.claimed) =
      l.row.waiting := by
    rw [filter_comm]
    exact hkept
  have hb := h.bytes
  rw [h.release_eq hi]
  refine ⟨h.history.concat ?_ ?_ (hadm ▸ h.history.sequences) ?_ nofun nofun, hunrel, ?_, ?_, hadm ▸ h.sequence,
    h.ids.sublist (filter_sublist.map _), ?_, ?_, fun hne => h.notified (hwaiting ▸ hne)⟩
  · rw [hunrel, length_map]
    have := h.history.calls
    rw [h.content, length_map] at this
    exact (length_filter_le _ _).trans this
  · rw [hunrel, totalBytes_fresh]
    have := h.history.bytes
    rw [h.content, totalBytes_fresh] at this
    omega
  · rw [hret, hadm]
    exact h.history.order
  · show l.row.requests.filter _ = (l.row.requests.filter _).filter _ ++ filter _ _
    rw [hwaiting]
    nth_rewrite 1 [h.grouped]
    rw [filter_append, hkept, filter_comm]
  · rw [hadm, hret, h.waiting, ← hwaiting]
    rfl
  · show l.row.bytes - i.request.bytes = ((totalBytes (l.row.requests.filter _) : Nat) : Int)
    omega
  · have hcount := h.closing
    rw [hperm.countP_eq] at hcount
    by_cases hclose : i.request.operation = .close
    · by_cases hc : l.row.closing = true <;> simp_all
    · simp_all

end

/-- **An atomic change keeps the accounts.** -/
theorem accounts_step {m : Ledger} (step : Ledger.Step l m) : m.Accounts := by
  cases step with
  | insert request row hrow => exact h.inserted hrow
  | take notification => exact h.take notification
  | release i hi hclaimed => exact h.release hi hclaimed

end Wotex.Udp
