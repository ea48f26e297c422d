import Wotex.CoAP.Events

/-!
# What a connection guarantees over every run

* `run_tracked`: with a clock that does not go back, the Message IDs of two requests and two acceptances of
  one confirmable message are 247 seconds apart; the second also where 1024 others were accepted between
  them.
* `duplicate_acknowledged`: a remembered confirmable message is acknowledged and does nothing else, unless
  the active call has expired.
* `deadline_answered`: the deadline of an admitted call leaves it answered.
* `ownership`: all of this with the answers to calls and the coherence of queue, table and active call.
* `expired_unacknowledged`: where the active call has expired, a duplicate is dropped.
-/

namespace Wotex.CoAP.Connection

open Process (Next Step)
open List Process

/-- The readings of the clock do not go back. -/
def Clock (inputs : List (Readings × Event)) : Prop :=
  (inputs.flatMap fun i => i.1.times).Pairwise (· ≤ ·)

instance (inputs : List (Readings × Event)) : Decidable (Clock inputs) :=
  inferInstanceAs (Decidable (List.Pairwise _ _))

/-- Uses of a Message ID for requests are apart. -/
def Spaced (o : List Output) : Prop :=
  (used o).Pairwise fun a b => a.1 = b.1 → a.2 + lifetime ≤ b.2

/-- A confirmable message is passed on again only after its lifetime, or after 1024 others. -/
def Once (o : List Output) : Prop :=
  ∀ i j a b, i < j → (processed o)[i]? = some a → (processed o)[j]? = some b → a.1 = b.1 →
    a.2 + lifetime ≤ b.2 ∨ i + 1024 < j

variable {T : Prop} {o o' : List Output} {s s' : State} {r : Readings}

/-! ## Runs -/

/-- What holds of everything that was sent when the process has ended. -/
structure Ended (T : Prop) (o : List Output) : Prop where
  perm : (answered o).Perm (admitted o)
  nodup : (admitted o).Nodup
  apart : T → Spaced o ∧ Once o

/-- **The end of the books.** -/
theorem Account.closes (h : Account T r [] [] o s) (hc : Closes r s o')
    (hlate : T → r.remembered ≤ r.cancellation) : Ended T (o ++ o') := by
  have hadmitted : admitted (o ++ o') = admitted o := by
    rw [admitted_append, hc.admitted, append_nil]
  refine ⟨?_, hadmitted ▸ h.1.nodup, fun ht => ?_⟩
  · rw [hadmitted, answered_append, hc.answered]
    exact h.1.perm.symm
  · obtain ⟨hnow, huses, hmemory⟩ := h.2 ht
    rw [append_nil] at huses hmemory
    unfold Spaced Once
    rw [used_append, hc.used, processed_append, hc.processed, append_nil]
    refine ⟨?_, hmemory.spaced⟩
    rcases bestEffortCancel_cases r s with hnone | ⟨mid, bytes, hone, hfree⟩
    · rw [hnone]
      exact (append_nil (used o)).symm ▸ huses.spaced
    · rw [hone]
      exact huses.spaced_snoc (hnow.trans (hlate ht)) hfree

/-- The books before the messages that are still to come. -/
def Tracked (T : Prop) (rest : List (Readings × Event)) (o : List Output) (s : State) : Prop :=
  Ledger o s ∧ (T → Clock rest ∧ ∃ floor, Recent.Uses lifetime floor (used o) s.history ∧
    Recent.Memory lifetime 1024 floor (processed o) s.responseOrder s.responses ∧
    ∀ t ∈ rest.flatMap fun i => i.1.times, floor ≤ t)

variable (config : Config) (mid : Int) (inputs : List (Readings × Event))

theorem tracked_init : Tracked (Clock inputs) inputs [] (init config mid) := by
  refine ⟨⟨.refl _, .nil, ?_, .refl _, ?_, ?_, ?_⟩, fun hclock => ⟨hclock, ?_⟩⟩
  · exact fun _ hx => absurd hx not_mem_nil
  · exact fun _ _ => nofun
  · exact fun _ _ => nofun
  · exact fun _ _ => nofun
  -- the first reading is a floor
  · refine ⟨((inputs.flatMap fun i => i.1.times).head?).getD 0, Recent.Uses.nil _ _ _,
      Recent.Memory.empty _ _ _, ?_⟩
    unfold Clock at hclock
    cases htimes : inputs.flatMap fun i => i.1.times with
    | nil => exact fun t ht => absurd ht not_mem_nil
    | cons first times =>
      rw [htimes] at hclock
      exact forall_mem_cons.mpr ⟨le_rfl, (pairwise_cons.mp hclock).1⟩

/-- The readings of one event in order, behind `floor` and before those of the rest. -/
theorem clock_cons {e : Event} {rest : List (Readings × Event)} (hclock : Clock ((r, e) :: rest)) :
    r.now ≤ r.remembered ∧ r.remembered ≤ r.cancellation ∧ Clock rest ∧
      ∀ t ∈ rest.flatMap fun i => i.1.times, r.remembered ≤ t := by
  obtain ⟨hnow, hrest, hbetween⟩ := pairwise_append.mp hclock
  simp only [Readings.times, pairwise_cons, mem_cons, forall_eq_or_imp] at hnow
  obtain ⟨-, ⟨hremembered, -⟩, ⟨-, hcancellation, -⟩, -⟩ := hnow
  exact ⟨hremembered, hcancellation, hrest, hbetween r.remembered (by simp [Readings.times])⟩

/-- **One event of the process**, with the last callback behind it. -/
theorem Tracked.leads (i : Readings × Event) (rest : List (Readings × Event)) (o : List Output)
    (s : State) (h : Tracked T (i :: rest) o s) :
    Leads process (Tracked T rest) (Ended T) o s i := by
  obtain ⟨r, e⟩ := i
  have haccount : Account T r [] [] o s := by
    refine ⟨h.1, fun ht => ?_⟩
    obtain ⟨hclock, floor, huses, hmemory, hfloor⟩ := h.2 ht
    have hnow : floor ≤ r.now := hfloor _ (by simp [Readings.times])
    have hremembered := (clock_cons hclock).1
    rw [Recalls, append_nil, append_nil]
    exact ⟨hremembered, huses.mono hnow, hmemory.mono (hnow.trans hremembered)⟩
  have hlate : T → r.remembered ≤ r.cancellation := fun ht => (clock_cons (h.2 ht).1).2.1
  by_cases hclose : e = .close
  · subst hclose
    have hquiet : ∀ reply, Quiet ((if s.handle then [.close] else []) ++ [.respond reply]) :=
      fun _ => (quiet_ite ⟨rfl, rfl, rfl, rfl⟩ quiet_nil).append ⟨rfl, rfl, rfl, rfl⟩
    have hend := fun reply => haccount.closes (haccount.1.close r (hquiet reply)) hlate
    simp only [← append_assoc (bestEffortCancel r s)] at hend
    change Ended T _
    rw [append_assoc]
    exact hend _
  · refine leads_of_ends (handle_keeps haccount e hclose) ?_ ?_ ?_
    · intro o s hs
      refine ⟨hs.1, fun ht => ?_⟩
      obtain ⟨hnow, huses, hmemory⟩ := hs.2 ht
      rw [append_nil] at huses hmemory
      obtain ⟨-, -, hrest, hbetween⟩ := clock_cons (h.2 ht).1
      exact ⟨hrest, r.remembered, huses.mono hnow, hmemory, hbetween⟩
    · exact fun o s hs => hs.closes (hs.1.terminate r) hlate
    · exact fun o' ho' => (haccount.quiet ho').closes ((haccount.quiet ho').1.terminate r) hlate

/-- **The books of every run.** -/
theorem run_tracked :
    Holds (Tracked (Clock inputs) []) (Ended (Clock inputs))
      (run process (init config mid) inputs).1
      (run process (init config mid) inputs).2 := by
  have hrun := run_rule Tracked.leads (tracked_init config mid inputs)
  rwa [nil_append] at hrun

/-! ## Duplicates -/

/-- A confirmable message of the peer that is remembered when it arrives. -/
structure Duplicate (r : Readings) (s : State) (host : List Int) (port : Int) (bytes : Bytes)
    (m : Message) : Prop where
  ready : s.phase = .ready
  peer : host = s.config.host ∧ port = s.config.port
  decoded : decoded bytes = .ok m
  con : m.type = .con
  remembered : ∃ time order, s.responses.lookup (m.messageId, m.token) = some (time, order)
    ∧ r.now - time < lifetime

section

variable {host : List Int} {port : Int} {bytes : Bytes} {m : Message} (h : Duplicate r s host port bytes m)
include h

/-- **A duplicate is acknowledged and does nothing else** while the active call has not expired. -/
theorem duplicate_acknowledged (hexpired : activeExpired r s = some false) :
    handle r s (.data host port bytes) =
      .prepend [.control .ack m.messageId] (rearm r (expireResponses r s)) := by
  obtain ⟨time, order, hlookup, hyoung⟩ := h.remembered
  have hsome : ((expireResponses r s).responses.lookup (m.messageId, m.token)).isSome := by
    rw [expireResponses, Recent.lookup_expire.mpr ⟨hlookup, hyoung⟩]
    rfl
  have hincoming : incoming r s bytes = ⟨[.control .ack m.messageId], .go (expireResponses r s)⟩ := by
    rw [incoming, h.decoded]
    exact if_pos ⟨h.con, hsome⟩
  rw [handle, if_pos h.ready, unlessExpired, hexpired]
  simp [datagram, if_pos h.peer, hincoming]

/-- The content of a duplicate is not passed on, whether or not the active call has expired. -/
theorem duplicate_not_processed : processed (handle r s (.data host port bytes)).outputs = [] := by
  cases hexpired : activeExpired r s with
  | none =>
    rw [handle, if_pos h.ready, unlessExpired, hexpired]
    rfl
  | some b =>
    cases b with
    | false =>
      rw [duplicate_acknowledged h hexpired]
      rfl
    | true =>
      cases hactive : s.active with
      | none =>
        rw [activeExpired, hactive] at hexpired
        cases hexpired
      | some ref =>
        rw [handle, if_pos h.ready, unlessExpired, hexpired, hactive]
        dsimp only
        unfold deadline
        cases hcall : s.calls.lookup ref with
        | none => rfl
        | some call =>
          rw [finish_of_lookup hcall]
          rw [processed_append, (quiet_kill _).processed]
          rfl

end

/-! ## Deadlines -/

variable {ref : Nat}

theorem finish_answers {call : Call} (hcall : s.calls.lookup ref = some call) (result : Answer) :
    ref ∈ answered (finish s ref result).1 := by
  rw [finish_of_lookup hcall, answered_append]
  exact mem_append_right _ mem_cons_self

theorem deadline_answers {call : Call} (hcall : s.calls.lookup ref = some call) :
    ref ∈ answered (handle r s (.deadline ref)).outputs := by
  rw [handle]
  split_ifs
  · rw [deadline, hcall]
    exact finish_answers hcall _
  · exact finish_answers hcall _

theorem mem_answered_run {i : Readings × Event} {rest : List (Readings × Event)}
    (h : ref ∈ answered (handle i.1 s i.2).outputs) :
    ref ∈ answered (run process s (i :: rest)).1 := by
  rw [run]
  have hmem : ref ∈ answered (process.handle s i).outputs := h
  cases (process.handle s i).next with
  | go s' | stop s' | crash =>
    rw [answered_append]
    exact mem_append_left _ hmem

variable (config : Config) (mid : Int)

/-- **A call that was admitted is answered behind its deadline**, and at once where the owner has ended. -/
theorem deadline_answered {before after : List (Readings × Event)}
    (hadmitted : ref ∈ admitted (run process (init config mid) before).1) : ref ∈ answered
      (run process (init config mid) (before ++ (r, .deadline ref) :: after)).1 := by
  have hledger := run_tracked config mid before
  rw [run_append]
  cases hend : (Process.run process (init config mid) before).2 with
  | none =>
    rw [hend] at hledger
    exact hledger.perm.mem_iff.mpr hadmitted
  | some s =>
    rw [hend] at hledger
    rw [answered_append]
    rcases mem_append.mp (hledger.1.perm.mem_iff.mp hadmitted) with hans | hcalls
    · exact mem_append_left _ hans
    · obtain ⟨call, hcall⟩ :=
        Option.isSome_iff_exists.mp (AList.lookup_isSome.mpr (AList.mem_keys.mpr hcalls))
      exact mem_append_right _ (mem_answered_run (deadline_answers hcall))

/-! ## The whole -/

/-- The queue, the table of calls and the active call agree. -/
structure Coherent (s : State) : Prop where
  /-- The active call is in the table and has a worker. -/
  active : ∀ ref, s.active = some ref → ∃ call, s.calls.lookup ref = some call ∧ call.worker.isSome
  /-- A queued call is in the table, once in the queue and not active. -/
  queued : ∀ ref ∈ s.queue, (s.calls.lookup ref).isSome ∧ s.active ≠ some ref
  once : s.queue.Nodup
  /-- A call of the table is active or queued. -/
  placed : ∀ ref call, s.calls.lookup ref = some call → s.active = some ref ∨ ref ∈ s.queue
  /-- Only the active call has an exchange. -/
  exchange : ∀ ref call, s.calls.lookup ref = some call → call.exchange.isSome → s.active = some ref

theorem Ledger.coherent (h : Ledger o s) : Coherent s := by
  have hnodup : (s.active.toList ++ s.queue).Nodup := h.owned.nodup_iff.mp s.calls.keys_nodup
  obtain ⟨-, hqueue, hapart⟩ := nodup_append.mp hnodup
  refine ⟨?_, ?_, hqueue, ?_, ?_⟩
  · intro ref hactive
    obtain ⟨call, hcall⟩ := h.active_lookup hactive
    exact ⟨call, hcall, (h.working ref call hcall hactive).1⟩
  · intro ref href
    obtain ⟨call, hcall⟩ := Ledger.lookup h (mem_append_right _ href)
    refine ⟨by rw [hcall]; rfl, fun hactive => ?_⟩
    exact hapart ref (by simp [hactive]) ref href rfl
  · intro ref call hcall
    have hmem : ref ∈ s.calls.keys :=
      AList.mem_keys.mp (AList.lookup_isSome.mp (by rw [hcall]; rfl))
    rcases mem_append.mp (h.owned.mem_iff.mp hmem) with hactive | hin
    · exact .inl (Option.mem_toList.mp hactive)
    · exact .inr hin
  · intro ref call hcall hexchange
    by_contra hactive
    rw [(h.idle ref call hcall hactive).2] at hexchange
    cases hexchange

/-- The active call, if there is one, has not reached its deadline. -/
def Unexpired (r : Readings) (s : State) : Prop :=
  ∀ ref call, s.active = some ref → s.calls.lookup ref = some call → r.arrival < call.deadline

theorem Ledger.unexpired (h : Ledger o s) (hu : Unexpired r s) : activeExpired r s = some false := by
  unfold activeExpired
  cases hactive : s.active with
  | none => rfl
  | some ref =>
    obtain ⟨call, hcall⟩ := h.active_lookup hactive
    dsimp only
    rw [hcall, Option.map_some, decide_eq_false (Int.not_le.mpr (hu ref call hactive hcall))]

/-- What the owner sends for messages from its start on, and its state if it still runs. -/
def run (inputs : List (Readings × Event)) : List Output × Option State :=
  Process.run process (init config mid) inputs

/-- **Ownership over every interleaving of messages.** -/
theorem ownership (config : Config) (mid : Int) (inputs : List (Readings × Event)) :
    -- Message IDs and accepted contents are apart
    (Clock inputs → Spaced (run config mid inputs).1 ∧ Once (run config mid inputs).1)
    -- a duplicate is acknowledged and nothing else, its content is never passed on
    ∧ (∀ s, (run config mid inputs).2 = some s → ∀ r host port bytes m,
        Duplicate r s host port bytes m →
          processed (handle r s (.data host port bytes)).outputs = []
          ∧ (Unexpired r s → handle r s (.data host port bytes) =
              .prepend [.control .ack m.messageId] (rearm r (expireResponses r s))))
    -- every admitted call has at most one answer, exactly one behind its deadline or the end
    ∧ (answered (run config mid inputs).1).Nodup
    ∧ (∀ ref ∈ answered (run config mid inputs).1, ref ∈ admitted (run config mid inputs).1)
    ∧ ((run config mid inputs).2 = none →
        (answered (run config mid inputs).1).Perm (admitted (run config mid inputs).1))
    ∧ (∀ before r ref after, inputs = before ++ (r, .deadline ref) :: after →
        ref ∈ admitted (run config mid before).1 → ref ∈ answered (run config mid inputs).1)
    -- a call without an answer is in the table, which agrees with the queue and the active call
    ∧ ∀ s, (run config mid inputs).2 = some s →
        (admitted (run config mid inputs).1).Perm (answered (run config mid inputs).1 ++ s.calls.keys)
        ∧ Coherent s := by
  have hrun := run_tracked config mid inputs
  have hrunning : ∀ s, (run config mid inputs).2 = some s →
      Tracked (Clock inputs) [] (run config mid inputs).1 s := by
    intro s hs
    unfold run at hs
    rw [hs] at hrun
    exact hrun
  have hended : (run config mid inputs).2 = none → Ended (Clock inputs) (run config mid inputs).1 := by
    intro hs
    unfold run at hs
    rw [hs] at hrun
    exact hrun
  have hcounted : (answered (run config mid inputs).1).Nodup
      ∧ (∀ ref ∈ answered (run config mid inputs).1, ref ∈ admitted (run config mid inputs).1)
      ∧ (Clock inputs → Spaced (run config mid inputs).1 ∧ Once (run config mid inputs).1) := by
    cases hend : (run config mid inputs).2 with
    | none =>
      have ha := hended hend
      exact ⟨ha.perm.nodup_iff.mpr ha.nodup, fun ref href => ha.perm.mem_iff.mp href, ha.apart⟩
    | some s =>
      obtain ⟨hl, hknown⟩ := hrunning s hend
      refine ⟨(nodup_append.mp (hl.perm.nodup_iff.mp hl.nodup)).1,
        fun ref href => hl.perm.mem_iff.mpr (mem_append_left _ href), fun hclock => ?_⟩
      obtain ⟨-, floor, huses, hmemory, -⟩ := hknown hclock
      exact ⟨huses.spaced, hmemory.spaced⟩
  refine ⟨hcounted.2.2, ?_, hcounted.1, hcounted.2.1, fun hend => (hended hend).perm, ?_, ?_⟩
  · intro s hs r host port bytes m hdup
    exact ⟨duplicate_not_processed hdup,
      fun hu => duplicate_acknowledged hdup (Ledger.unexpired (hrunning s hs).1 hu)⟩
  · rintro before r ref after rfl hadmitted
    exact deadline_answered config mid hadmitted
  · exact fun s hs => ⟨(hrunning s hs).1.perm, Ledger.coherent (hrunning s hs).1⟩

/-! ## A confirmable response and its duplicate -/

/-- A peer, and acknowledgements awaited for two seconds. -/
def lamp : Config := ⟨[192, 0, 2, 7], 5683, some 2000, none, true⟩

/-- Every reading at one time; processes live, the adapter works, the token is `<<7>>`. -/
def reading (time : Int) : Readings where
  arrival := time
  now := time
  remembered := time
  received := time
  cancellation := time
  activation _ := time
  alive _ := true
  token _ _ := some [7]
  messageId := some
  uniform := 1
  send := none
  control := none
  setActiveOnce := none
  close := none
  observation := true

/-- A request without a body. -/
def get : Message := ⟨.con, 1, 0, [], [], []⟩

/-- A confirmable response with Message ID 4660 and token `<<7>>`. -/
def response : Bytes := [65, 69, 18, 52, 7]

/-- A call with its exchange and the response to it. -/
def answeredExchange : List (Readings × Event) :=
  [(reading 0, .opened (.ok ())), (reading 1, .submit get .request [] 1000 9),
    (reading 2, .exchange 4 { get with token := [7] } 6),
    (reading 3, .data [192, 0, 2, 7] 5683 response)]

/-- The response arrives again. -/
def duplicated : List (Readings × Event) :=
  answeredExchange ++ [(reading 4, .data [192, 0, 2, 7] 5683 response)]

set_option maxRecDepth 100000 in
/-- A response, its duplicate and the deadline of the call: one Message ID is used, the response is passed
on once, and the call is answered. -/
theorem response_owned :
    Clock (duplicated ++ [(reading 1000, .deadline 4)])
    ∧ Spaced (run lamp 100 (duplicated ++ [(reading 1000, .deadline 4)])).1
    ∧ 4 ∈ answered (run lamp 100 (duplicated ++ [(reading 1000, .deadline 4)])).1
    ∧ used (run lamp 100 (duplicated ++ [(reading 1000, .deadline 4)])).1 = [(100, 2)]
    ∧ processed (run lamp 100 (duplicated ++ [(reading 1000, .deadline 4)])).1
        = [((4660, [7]), 3)] := by
  have hclock : Clock (duplicated ++ [(reading 1000, .deadline 4)]) := by decide +kernel
  have howned := ownership lamp 100 (duplicated ++ [(reading 1000, .deadline 4)])
  refine ⟨hclock, (howned.1 hclock).1, ?_, by decide +kernel, by decide +kernel⟩
  refine howned.2.2.2.2.2.1 duplicated (reading 1000) 4 [] rfl ?_
  decide +kernel

set_option maxRecDepth 100000 in
/-- **A duplicate that arrives when the active call has expired is not acknowledged**: it only ends the
call. -/
theorem expired_unacknowledged :
    ∃ s, (run lamp 100 answeredExchange).2 = some s
      ∧ (∃ m, Duplicate (reading 1000) s [192, 0, 2, 7] 5683 response m ∧ m.messageId = 4660)
      ∧ (handle (reading 1000) s (.data [192, 0, 2, 7] 5683 response)).outputs
          = [.kill 6, .answer 4 (.refuse (.new .timeout))] := by
  refine ⟨_, rfl, ⟨⟨.con, 69, 4660, [7], [], []⟩, ⟨?_, ?_, ?_, rfl, 3, 0, ?_, ?_⟩, rfl⟩, ?_⟩
  all_goals decide +kernel

end Wotex.CoAP.Connection
