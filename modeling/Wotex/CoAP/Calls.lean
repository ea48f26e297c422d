import Wotex.CoAP.Connection

/-!
# The books of a connection

What was sent and the state agree. Every admitted call is in the table until it is answered, and a call of
the table is the active one or in the queue (`Ledger`). The Message IDs that were used and the confirmable
messages that were passed on are those of the two tables of recent keys (`Recalls`), as long as the clock
does not go back. An `Account` is both; a Message ID and a message enter their tables before they are sent,
and are pending in between.

* `Account.finish`, `Account.putCall`, `Account.start`, `Account.admitCall`: the changes of a call.
* `Account.use`, `Account.remember`: the changes of the tables; `Account.send` takes up what is pending.
* `Account.quiet`: outputs that are in no log change nothing, nor do the other members of the state.
-/

namespace Wotex.CoAP.Connection

open Process (Next Step)
open List

/-- The call that an output admits. -/
def Output.admits : Output → Option Nat
  | .admitted ref => some ref
  | _ => none

/-- The call that an output answers. -/
def Output.answers : Output → Option Nat
  | .answer ref _ => some ref
  | _ => none

/-- The Message ID that an output uses for a request, and when. -/
def Output.uses : Output → Option (Int × Int)
  | .request _ mid now _ => some (mid, now)
  | .cancellation mid now _ => some (mid, now)
  | _ => none

/-- The key of a confirmable message. -/
def confirmable (m : Message) (time : Int) : Option (Key × Int) :=
  if m.type = .con then some ((m.messageId, m.token), time) else none

/-- The confirmable datagram whose content an output passes on, and when it was remembered. -/
def Output.processes : Output → Option (Key × Int)
  | .exchanged _ _ source => source.bind fun x => confirmable x.1 x.2
  | .report m _ remembered => confirmable m remembered
  | _ => none

variable (o : List Output)

/-- The calls that were admitted. -/
def admitted : List Nat := o.filterMap Output.admits

/-- The calls that were answered. -/
def answered : List Nat := o.filterMap Output.answers

/-- The Message IDs used for requests. -/
def used : List (Int × Int) := o.filterMap Output.uses

/-- The confirmable datagrams whose content was passed on. -/
def processed : List (Key × Int) := o.filterMap Output.processes

variable (o o' : List Output)

@[simp] theorem admitted_append : admitted (o ++ o') = admitted o ++ admitted o' :=
  filterMap_append

@[simp] theorem answered_append : answered (o ++ o') = answered o ++ answered o' :=
  filterMap_append

@[simp] theorem used_append : used (o ++ o') = used o ++ used o' :=
  filterMap_append

@[simp] theorem processed_append : processed (o ++ o') = processed o ++ processed o' := filterMap_append

/-- Outputs that are in none of the logs. -/
structure Quiet (o : List Output) : Prop where
  admitted : admitted o = []
  answered : answered o = []
  used : used o = []
  processed : processed o = []

theorem quiet_nil : Quiet [] := ⟨rfl, rfl, rfl, rfl⟩

theorem Quiet.append {o o' : List Output} (h : Quiet o) (h' : Quiet o') : Quiet (o ++ o') :=
  ⟨by simp [h.admitted, h'.admitted], by simp [h.answered, h'.answered], by simp [h.used, h'.used],
    by simp [h.processed, h'.processed]⟩

theorem quiet_kill (pids : List Nat) : Quiet (pids.map .kill) := by
  induction pids with
  | nil => exact quiet_nil
  | cons pid pids ih => exact ⟨ih.admitted, ih.answered, ih.used, ih.processed⟩

theorem quiet_ite {c : Prop} [Decidable c] {o o' : List Output} (h : Quiet o) (h' : Quiet o') :
    Quiet (if c then o else o') := by
  split_ifs
  · exact h
  · exact h'

/-! ## The books -/

/-- What was sent agrees with the table of calls, the queue and the active call. -/
structure Book (o : List Output) (active : Option Nat) (calls : AList fun _ : Nat => Call)
    (queue : List Nat) (references : Nat) (watching : Bool) : Prop where
  /-- An admitted call is answered or in the table. -/
  perm : (admitted o).Perm (answered o ++ calls.keys)
  nodup : (admitted o).Nodup
  fresh : ∀ ref ∈ admitted o, ref < references
  /-- A call of the table is the active one or in the queue, and not both. -/
  owned : calls.keys.Perm (active.toList ++ queue)
  idle : ∀ ref call, calls.lookup ref = some call → active ≠ some ref →
    call.worker = none ∧ call.exchange = none
  working : ∀ ref call, calls.lookup ref = some call → active = some ref →
    call.worker.isSome ∧ ∀ x ∈ call.exchange, x.value.Scheduled
  watched : ∀ ref call, calls.lookup ref = some call → isObservation call.kind = true → watching = true

def Ledger (o : List Output) (s : State) : Prop :=
  Book o s.active s.calls s.queue s.references s.observation.isSome

/-- The tables know the Message IDs that were used and the messages that were passed on, up to the readings of
an event; `u` and `p` are in the tables and not sent yet. -/
def Recalls (r : Readings) (u : List (Int × Int)) (p : List (Key × Int)) (o : List Output) (s : State) :
    Prop :=
  r.now ≤ r.remembered ∧ Recent.Uses lifetime r.now (used o ++ u) s.history ∧
    Recent.Memory lifetime 1024 r.remembered (processed o ++ p) s.responseOrder s.responses

/-- Both books, the second one where `T` says that the clock does not go back. -/
def Account (T : Prop) (r : Readings) (u : List (Int × Int)) (p : List (Key × Int)) (o : List Output)
    (s : State) : Prop := Ledger o s ∧ (T → Recalls r u p o s)

variable {T : Prop} {r : Readings} {u : List (Int × Int)} {p : List (Key × Int)} {o o' : List Output}
  {s s' : State} {ref : Nat} {call : Call}

theorem Account.quiet (h : Account T r u p o s) (ho : Quiet o') : Account T r u p (o ++ o') s := by
  refine ⟨⟨?_, ?_, ?_, h.1.owned, h.1.idle, h.1.working, h.1.watched⟩, fun ht => ?_⟩
  · simpa [ho.admitted, ho.answered] using h.1.perm
  · simpa [ho.admitted] using h.1.nodup
  · simpa [ho.admitted] using h.1.fresh
  · simpa [Recalls, ho.used, ho.processed] using h.2 ht

/-- An output that is not about a call takes up what is pending. -/
theorem Account.send (x : Output) (hx : x.admits = none ∧ x.answers = none)
    (h : Account T r x.uses.toList x.processes.toList o s) : Account T r [] [] (o ++ [x]) s := by
  have hlog : ∀ {α : Type} (f : Output → Option α), [x].filterMap f = (f x).toList := fun f => by
    cases hf : f x <;> simp [hf]
  have hadm : admitted [x] = [] := by rw [admitted, hlog, hx.1]; rfl
  have hans : answered [x] = [] := by rw [answered, hlog, hx.2]; rfl
  refine ⟨⟨?_, ?_, ?_, h.1.owned, h.1.idle, h.1.working, h.1.watched⟩, fun ht => ?_⟩
  · simpa [hadm, hans] using h.1.perm
  · simpa [hadm] using h.1.nodup
  · simpa [hadm] using h.1.fresh
  · rw [Recalls, used_append, processed_append, append_nil, append_nil]
    exact h.2 ht

theorem Account.later (h : Account T r u p o s) (n : Nat) :
    Account T r u p o { s with references := s.references + n } :=
  ⟨⟨h.1.perm, h.1.nodup, fun x hx => (h.1.fresh x hx).trans_le (Nat.le_add_right _ _), h.1.owned,
    h.1.idle, h.1.working, h.1.watched⟩, h.2⟩

theorem Account.watching (h : Account T r u p o s) (w : Watch) :
    Account T r u p o { s with observation := some w } :=
  ⟨⟨h.1.perm, h.1.nodup, h.1.fresh, h.1.owned, h.1.idle, h.1.working, fun _ _ _ _ => rfl⟩, h.2⟩

theorem Ledger.lookup (h : Ledger o s) (hmem : ref ∈ s.active.toList ++ s.queue) :
    ∃ call, s.calls.lookup ref = some call :=
  Option.isSome_iff_exists.mp (AList.lookup_isSome.mpr (AList.mem_keys.mpr (h.owned.mem_iff.mpr hmem)))

theorem Ledger.active_lookup (h : Ledger o s) (hactive : s.active = some ref) :
    ∃ call, s.calls.lookup ref = some call := h.lookup (by simp [hactive])

/-! ## The tables of recent keys -/

theorem Account.expireHistory (h : Account T r [] p o s) :
    Account T r [] p o { s with history := Recent.expire lifetime id r.now s.history } :=
  ⟨h.1, fun ht => ⟨(h.2 ht).1, (h.2 ht).2.1.expire le_rfl, (h.2 ht).2.2⟩⟩

/-- **A Message ID that is not in the history may be used.** -/
theorem Account.use (h : Account T r [] p o s) {mid : Int} (hfree : s.history.lookup mid = none) :
    Account T r [(mid, r.now)] p o { s with history := s.history.insert mid r.now } := by
  refine ⟨h.1, fun ht => ?_⟩
  obtain ⟨hnow, huses, hmemory⟩ := h.2 ht
  rw [append_nil] at huses
  refine ⟨hnow, huses.use le_rfl fun time htime => ?_, hmemory⟩
  rw [hfree] at htime
  cases htime

theorem Account.expireResponses (h : Account T r u p o s) : Account T r u p o (expireResponses r s) :=
  ⟨h.1, fun ht => ⟨(h.2 ht).1, (h.2 ht).2.1, (h.2 ht).2.2.expire le_rfl (h.2 ht).1⟩⟩

/-- **A message that is not remembered may be passed on.** -/
theorem Account.remember (h : Account T r u [] o s) {m : Message}
    (hnew : s.responses.lookup (m.messageId, m.token) = none) :
    Account T r u [((m.messageId, m.token), r.remembered)] o (remember r s m) := by
  refine ⟨h.1, fun ht => ?_⟩
  obtain ⟨hnow, huses, hmemory⟩ := h.2 ht
  rw [append_nil] at hmemory
  exact ⟨hnow, huses, hmemory.remember le_rfl hnew⟩

/-! ## Changes of a call -/

variable {calls : AList fun _ : Nat => Call}

theorem keys_perm_of_lookup (h : calls.lookup ref = some call) :
    calls.keys.Perm (ref :: calls.keys.erase ref) := by
  refine perm_cons_erase (AList.mem_keys.mp (AList.lookup_isSome.mp ?_))
  rw [h]
  rfl

theorem keys_insert_perm (h : calls.lookup ref = some call)
    (call' : Call) : (calls.insert ref call').keys.Perm calls.keys := by
  rw [AList.keys_insert]
  exact (keys_perm_of_lookup h).symm

/-- A call of a table with a new entry is the new one or another one. -/
theorem lookup_insert_cases {x : Nat} {c : Call} (h : (calls.insert ref call).lookup x = some c) :
    x = ref ∧ c = call ∨ x ≠ ref ∧ calls.lookup x = some c := by
  by_cases hne : x = ref
  · subst hne
    rw [AList.lookup_insert] at h
    exact .inl ⟨rfl, (Option.some.inj h).symm⟩
  · exact .inr ⟨hne, by rwa [AList.lookup_insert_ne hne] at h⟩

/-- The active call and the queue without a call. -/
theorem filter_owned (active : Option Nat) (queue : List Nat) (ref : Nat) :
    (active.toList ++ queue).filter (· ≠ ref) =
      (if active = some ref then none else active).toList ++ queue.filter (· ≠ ref) := by
  cases active with
  | none => simp
  | some x =>
    by_cases hx : x = ref
    · simp [hx]
    · simp [hx]

theorem finish_of_lookup (h : s.calls.lookup ref = some call) (result : Answer) :
    finish s ref result = (call.worker.toList.map .kill ++ [reply ref call result], { s with
        active := if s.active = some ref then none else s.active
        calls := s.calls.erase ref
        queue := s.queue.filter (· ≠ ref) }) := by
  rw [finish, h]

/-- A call of the table that is left behind a call that ends. -/
theorem lookup_erase_cases {x : Nat} (h : (calls.erase ref).lookup x = some call) :
    x ≠ ref ∧ calls.lookup x = some call := by
  by_cases hne : x = ref
  · rw [hne, AList.lookup_erase] at h
    cases h
  · exact ⟨hne, by rwa [AList.lookup_erase_ne hne] at h⟩

/-- **A call that ends is answered and leaves the table.** -/
theorem Account.finish (h : Account T r u p o s) (ref : Nat) (result : Answer) :
    Account T r u p (o ++ (finish s ref result).1) (finish s ref result).2 := by
  cases hcall : s.calls.lookup ref with
  | none =>
    rw [Connection.finish, hcall]
    exact h.quiet quiet_nil
  | some call =>
    rw [finish_of_lookup hcall]
    have hkill := h.quiet (quiet_kill call.worker.toList)
    have hactive : ∀ {x}, x ≠ ref →
        ((if s.active = some ref then none else s.active) = some x ↔ s.active = some x) := by
      intro x hne
      split_ifs with hr
      · rw [hr]
        exact ⟨nofun, fun hx => absurd (Option.some.inj hx).symm hne⟩
      · exact Iff.rfl
    have howned := h.1.owned.erase ref
    rw [List.Nodup.erase_eq_filter (h.1.owned.nodup_iff.mp s.calls.keys_nodup),
      show (fun x => x != ref) = fun x => decide (x ≠ ref) from
        funext fun x => by rw [Bool.eq_iff_iff, bne_iff_ne, decide_eq_true_eq],
      filter_owned, ← AList.keys_erase] at howned
    rw [← append_assoc]
    refine ⟨⟨?_, ?_, ?_, howned, ?_, ?_, ?_⟩, fun ht => ?_⟩
    · rw [admitted_append, answered_append, AList.keys_erase]
      show (admitted _ ++ []).Perm ((answered _ ++ [ref]) ++ _)
      rw [append_nil, append_assoc]
      exact hkill.1.perm.trans ((keys_perm_of_lookup hcall).append_left _)
    · rw [admitted_append]
      exact (append_nil _).symm ▸ hkill.1.nodup
    · rw [admitted_append]
      exact (append_nil _).symm ▸ hkill.1.fresh
    · intro x c hx hidle
      obtain ⟨hne, hx⟩ := lookup_erase_cases hx
      exact h.1.idle x c hx fun hxa => hidle ((hactive hne).mpr hxa)
    · intro x c hx hwork
      obtain ⟨hne, hx⟩ := lookup_erase_cases hx
      exact h.1.working x c hx ((hactive hne).mp hwork)
    · exact fun x c hx hk => h.1.watched x c (lookup_erase_cases hx).2 hk
    · rw [Recalls, used_append, processed_append]
      exact (append_nil (used _)).symm ▸ (append_nil (processed _)).symm ▸ hkill.2 ht

/-- **The active call may get another record**: it keeps its worker and kind, and its exchange is
scheduled. -/
theorem Account.putCall (h : Account T r u p o s) (hactive : s.active = some ref)
    (hcall : s.calls.lookup ref = some call) (call' : Call) (hworker : call'.worker = call.worker)
    (hkind : call'.kind = call.kind) (hexchange : ∀ x ∈ call'.exchange, x.value.Scheduled) :
    Account T r u p o (putCall s ref call') := by
  have hkeys := keys_insert_perm hcall call'
  refine ⟨⟨h.1.perm.trans (hkeys.symm.append_left _), h.1.nodup, h.1.fresh, hkeys.trans h.1.owned,
    ?_, ?_, ?_⟩, h.2⟩
  · intro x c hx hidle
    rcases lookup_insert_cases hx with ⟨rfl, -⟩ | ⟨-, hx⟩
    · exact absurd hactive hidle
    · exact h.1.idle x c hx hidle
  · intro x c hx hwork
    rcases lookup_insert_cases hx with ⟨rfl, rfl⟩ | ⟨-, hx⟩
    · exact ⟨hworker ▸ (h.1.working x call hcall hwork).1, hexchange⟩
    · exact h.1.working x c hx hwork
  · intro x c hx hk
    rcases lookup_insert_cases hx with ⟨rfl, rfl⟩ | ⟨-, hx⟩
    · exact h.1.watched x call hcall (hkind ▸ hk)
    · exact h.1.watched x c hx hk

/-! ## The queue -/

/-- A handler that goes on with the books in order. -/
def Runs (T : Prop) (r : Readings) (o : List Output) (t : Handled) : Prop :=
  ∃ s, t.next = .go s ∧ Account T r [] [] (o ++ t.outputs) s

theorem Runs.prepend {t : Handled} (h : Runs T r (o ++ o') t) : Runs T r o (t.prepend o') := by
  obtain ⟨s, hnext, hs⟩ := h
  exact ⟨s, hnext, by rwa [append_assoc] at hs⟩

theorem Account.runs (h : Account T r [] [] o s) : Runs T r o ⟨[], .go s⟩ := ⟨s, rfl, h.quiet quiet_nil⟩

theorem uniqueToken_ne_raise (responses : AList fun _ : Key => Int × Nat) (excluded : Option Bytes)
    (draw : Nat → Option Bytes) (n : Nat) : uniqueToken responses excluded draw n ≠ .raise := by
  induction n with
  | zero => exact nofun
  | succ n ih =>
    unfold uniqueToken
    split
    · exact nofun
    · split_ifs
      · exact ih
      · exact nofun
      · exact nofun

/-- A call with a token always has one, or a failure. -/
theorem callToken_ne_raise (h : isObservation call.kind = true → s.observation.isSome) :
    callToken r s ref call ≠ .raise := by
  unfold callToken
  split
  all_goals first
    | exact uniqueToken_ne_raise _ _ _ _
    | (rename_i hkind
       obtain ⟨w, hw⟩ := Option.isSome_iff_exists.mp (h (by rw [hkind]; rfl))
       rw [hw]
       dsimp only
       split_ifs
       · exact nofun
       · exact nofun)

variable {queue : List Nat}

/-- The call at the head of the queue leaves it where it ends. -/
theorem finish_pop (hcall : s.calls.lookup ref = some call) (hqueue : s.queue = ref :: queue)
    (result : Answer) :
    Connection.finish { s with queue := queue } ref result = Connection.finish s ref result := by
  have hpopped : ({ s with queue := queue } : State).calls.lookup ref = some call := hcall
  rw [finish_of_lookup hcall, finish_of_lookup hpopped]
  simp [hqueue]

/-- **The head of the queue becomes the active call.** -/
theorem Account.start (h : Account T r [] [] o s) (hactive : s.active = none)
    (hqueue : s.queue = ref :: queue) (hcall : s.calls.lookup ref = some call) (token : Bytes) :
    Runs T r o (start { s with queue := queue } ref call token) := by
  have hnone : ∀ x, s.active ≠ some x := fun x hx => by
    rw [hactive] at hx
    cases hx
  have howned := h.1.owned
  rw [hactive, hqueue] at howned
  have hkeys := keys_insert_perm hcall
  have hspawn : Quiet [.spawn s.references ref
    { call with message := { call.message with token := token } }] := ⟨rfl, rfl, rfl, rfl⟩
  have hbase := (h.later 1).quiet hspawn
  refine ⟨_, rfl, ⟨hbase.1.perm.trans ((hkeys _).symm.append_left _), hbase.1.nodup, hbase.1.fresh,
    (hkeys _).trans howned, ?_, ?_, ?_⟩, hbase.2⟩
  · intro x c hx hne
    rcases lookup_insert_cases hx with ⟨rfl, -⟩ | ⟨-, hx⟩
    · exact absurd rfl hne
    · exact h.1.idle x c hx (hnone x)
  · intro x c hx hxr
    rcases lookup_insert_cases hx with ⟨rfl, rfl⟩ | ⟨hne, -⟩
    · refine ⟨rfl, fun y hy => ?_⟩
      rw [(h.1.idle x call hcall (hnone x)).2] at hy
      cases hy
    · exact absurd (Option.some.inj hxr).symm hne
  · intro x c hx hk
    rcases lookup_insert_cases hx with ⟨rfl, rfl⟩ | ⟨-, hx⟩
    · exact h.1.watched x call hcall hk
    · exact h.1.watched x c hx hk

/-- `activate/2` where what comes behind it runs. -/
theorem Account.activate (h : Account T r [] [] o s) {behind : State → Handled}
    (hactive : s.active = none) (hqueue : s.queue = ref :: queue)
    (hbehind : ∀ result, Runs T r (o ++ (Connection.finish s ref result).1)
      (behind (Connection.finish s ref result).2)) :
    Runs T r o (activate r behind { s with queue := queue } ref) := by
  have hmem : ref ∈ s.active.toList ++ s.queue := by simp [hqueue]
  obtain ⟨call, hcall⟩ := h.1.lookup hmem
  have hended : ∀ result, Runs T r o (.prepend (Connection.finish { s with queue := queue } ref result).1
      (behind (Connection.finish { s with queue := queue } ref result).2)) := by
    intro result
    rw [finish_pop hcall hqueue]
    exact (hbehind result).prepend
  unfold Connection.activate
  rw [hcall]
  dsimp only
  split_ifs
  · exact hended _
  · cases htoken : callToken r { s with queue := queue } ref call with
    | ok token => exact h.start hactive hqueue hcall token
    | refuse e => exact hended _
    | raise => exact absurd htoken (callToken_ne_raise fun hk => h.1.watched ref call hcall hk)

/-- **`next/1` keeps the books.** -/
theorem nextWithin_runs (fuel : Nat) :
    ∀ {o s}, Account T r [] [] o s → Runs T r o (nextWithin r fuel s) := by
  induction fuel with
  | zero => exact fun h => h.runs
  | succ fuel ih =>
    intro o s h
    unfold nextWithin
    split
    · rename_i ref queue hactive hqueue
      exact h.activate hactive hqueue fun result => ih (h.finish ref result)
    · exact h.runs

/-- **A new call joins the queue.** -/
theorem Account.admitCall (h : Account T r [] [] o s) (m : Message) {kind : Kind}
    (options : List (Blockwise.TransferKey × Int)) (deadline : Int) (caller : Nat)
    (hallowed : allowed s kind = true) : Runs T r o (admitCall r s m kind options deadline caller) := by
  have hnew : s.references ∉ s.calls.keys := fun hmem =>
    absurd (h.1.fresh _ (h.1.perm.mem_iff.mpr (mem_append_right _ hmem))) (lt_irrefl _)
  have hinactive : s.active ≠ some s.references := fun hactive => by
    obtain ⟨c, hc⟩ := h.1.active_lookup hactive
    exact hnew (AList.mem_keys.mp (AList.lookup_isSome.mp (by rw [hc]; rfl)))
  refine Runs.prepend (nextWithin_runs _ ⟨⟨?_, ?_, ?_, ?_, ?_, ?_, ?_⟩, fun ht => ?_⟩)
  · -- the new reference is admitted and enters the table
    rw [admitted_append, answered_append]
    show (admitted o ++ [s.references]).Perm ((answered o ++ []) ++ (s.calls.insert s.references _).keys)
    rw [append_nil, AList.keys_insert, erase_of_not_mem hnew]
    exact (perm_append_singleton _ _).trans ((h.1.perm.cons _).trans perm_middle.symm)
  · rw [admitted_append]
    exact List.Nodup.append h.1.nodup (nodup_singleton _) fun x hx hx' => by
      obtain rfl := mem_singleton.mp hx'
      exact lt_irrefl _ (h.1.fresh _ hx)
  · rw [admitted_append]
    have hlater := Nat.lt_add_of_pos_right (n := s.references) Nat.two_pos
    exact forall_mem_append.mpr ⟨fun x hx => (h.1.fresh x hx).trans hlater, forall_mem_singleton.mpr hlater⟩
  · show (s.calls.insert s.references _).keys.Perm (s.active.toList ++ (s.queue ++ [s.references]))
    rw [AList.keys_insert, erase_of_not_mem hnew, ← append_assoc]
    exact (h.1.owned.cons _).trans (perm_append_singleton _ _).symm
  · intro x c hx hne
    rcases lookup_insert_cases hx with ⟨-, rfl⟩ | ⟨-, hx⟩
    · exact ⟨rfl, rfl⟩
    · exact h.1.idle x c hx hne
  · intro x c hx hactive
    rcases lookup_insert_cases hx with ⟨rfl, -⟩ | ⟨-, hx⟩
    · exact absurd hactive hinactive
    · exact h.1.working x c hx hactive
  · intro x c hx hk
    rcases lookup_insert_cases hx with ⟨-, rfl⟩ | ⟨-, hx⟩
    · -- an observation's call is only allowed where there is an observation
      unfold allowed at hallowed
      cases hobs : s.observation with
      | some w => simp [Connection.putCall, hobs]
      | none =>
        rw [hobs] at hallowed
        cases kind with
        | observation capability operation => cases hallowed
        | _ => cases hk
    · exact h.1.watched x c hx hk
  · rw [Recalls, used_append, processed_append]
    exact (append_nil (used o)).symm ▸ (append_nil (processed o)).symm ▸ h.2 ht

end Wotex.CoAP.Connection
