import Wotex.CoAP.Calls

/-!
# The events of a connection

Every handler of the owner keeps the books (`Keeps`); one that leaves by an exception has sent nothing that is
in a log. A request takes up the Message ID it used (`Account.launch`), and the content of a confirmable
message is passed on behind its acceptance (`Account.acceptCon`).

* `handle_keeps`: every event but a close.
* `Account.terminate`, `Account.close`: the last callback answers every call that is left, and uses at most
  one more Message ID.
-/

namespace Wotex.CoAP.Connection

open Process (Next Step)
open List

/-- A handler that keeps the books. -/
def Keeps (T : Prop) (r : Readings) (o : List Output) (t : Handled) : Prop :=
  t.Ends (fun o' s => Account T r [] [] (o ++ o') s) Quiet

variable {T : Prop} {r : Readings} {u : List (Int × Int)} {p : List (Key × Int)} {o o' : List Output}
  {s s' : State} {ref : Nat} {call : Call}

theorem Runs.keeps {t : Handled} (h : Runs T r o t) : Keeps T r o t := by
  obtain ⟨s, hnext, hs⟩ := h
  unfold Keeps Step.Ends
  rw [hnext]
  exact hs

theorem Keeps.prepend {t : Handled} (ho : Quiet o') (h : Keeps T r (o ++ o') t) :
    Keeps T r o (t.prepend o') :=
  Step.ends_prepend.mpr (h.imp (fun o'' s hs => by rwa [append_assoc] at hs) fun _ hc => ho.append hc)

section

variable (h : Account T r [] [] o s)
include h

theorem Account.same : Keeps T r o ⟨[], .go s⟩ := h.quiet quiet_nil

theorem Account.stop : Keeps T r o ⟨[], .stop s⟩ := h.quiet quiet_nil

theorem Account.respond (result : Result (Option Nat)) :
    Keeps T r o ⟨[.respond result], .go s⟩ := h.send _ ⟨rfl, rfl⟩

end

/-! ## Exchanges -/

variable (source : Option (Message × Int))

theorem exchanged_runs (result : Answer)
    (h : Account T r [] (source.bind fun x => confirmable x.1 x.2).toList o s)
    (hactive : s.active = some ref) (hcall : s.calls.lookup ref = some call) :
    Runs T r o ⟨[.exchanged ref result source], .go (putCall s ref { call with exchange := none })⟩ := by
  have hput := h.putCall hactive hcall { call with exchange := none } rfl rfl fun _ => nofun
  exact ⟨_, rfl, hput.send (.exchanged ref result source) ⟨rfl, rfl⟩⟩

theorem exchangeReply_keeps (result : Result Message)
    (h : Account T r [] (source.bind fun x => confirmable x.1 x.2).toList o s) :
    Keeps T r o (exchangeReply r s result source) := by
  fun_cases exchangeReply r s result source
  case case4 ref hactive call hcall _ _ =>
    exact (exchanged_runs source _ h hactive hcall).keeps
  all_goals exact quiet_nil

variable {record : Record}

/-- **A datagram of the active exchange is sent**; it takes up the Message ID it uses. -/
theorem Account.transmit {datagram : Output}
    (h : Account T r datagram.uses.toList datagram.processes.toList o s)
    (hd : datagram.admits = none ∧ datagram.answers = none) (hactive : s.active = some ref)
    (hcall : s.calls.lookup ref = some call) (hexchange : call.exchange = some record) :
    Keeps T r o (transmit r s datagram) := by
  have hsent := h.send datagram hd
  refine Runs.keeps (Runs.prepend ?_)
  cases r.send with
  | none => exact hsent.runs
  | some e =>
    simp only [exchangeReply, hactive, hcall, hexchange]
    exact exchanged_runs none _ hsent hactive hcall

/-- `arm/2` of the active call, where what comes behind it keeps the books. -/
theorem Account.arm (h : Account T r u p o s) (hactive : s.active = some ref)
    (hcall : s.calls.lookup ref = some call) {call' : Call} (hworker : call'.worker = call.worker)
    (hkind : call'.kind = call.kind) (hrecord : record.value.Scheduled) {behind : State → Handled}
    (hbehind : ∀ o, Account T r u p o (Connection.putCall s ref { call' with exchange := some record }) →
      Keeps T r o (behind (Connection.putCall s ref { call' with exchange := some record }))) :
    Keeps T r o (arm s ref call' record behind) := by
  unfold Connection.arm
  split
  · rename_i wake _
    have hs : Quiet [.schedule (.retry ref record.reference) wake] := ⟨rfl, rfl, rfl, rfl⟩
    refine Keeps.prepend hs (hbehind _ ?_)
    refine (h.quiet hs).putCall hactive hcall _ hworker hkind fun x hx => ?_
    obtain rfl : record = x := Option.some.inj hx
    exact hrecord
  · exact quiet_nil

theorem Account.cancellationStarted {kind : Kind} (h : Account T r u p o s)
    (hs : cancellationStarted s kind = some s') :
    Account T r u p o s' ∧ s'.active = s.active ∧ s'.calls = s.calls := by
  unfold Connection.cancellationStarted at hs
  split at hs
  · obtain ⟨w, -, rfl⟩ := Option.map_eq_some_iff.mp hs
    exact ⟨h.watching _, rfl, rfl⟩
  · cases hs
    exact ⟨h, rfl, rfl⟩

section

variable (h : Account T r [] [] o s) (hactive : s.active = some ref)
  (hcall : s.calls.lookup ref = some call)
include h hactive hcall

/-- **A launched exchange uses its Message ID.** -/
theorem Account.launch {mid : Int} (hfree : s.history.lookup mid = none)
    {x : Exchange} (hx : x.Scheduled) : Keeps T r o (launch r s ref call mid x) := by
  have hused : Account T r [(mid, r.now)] [] o { s with
      mid := (mid + 1) % 65536, history := s.history.insert mid r.now
      references := s.references + 1 } := (h.use hfree).later 1
  refine hused.arm hactive hcall ?_ ?_ ?_ fun o ho => ?_
  · rfl
  · rfl
  · exact hx
  · cases hstarted : Connection.cancellationStarted _ call.kind with
    | none => exact quiet_nil
    | some s' =>
      obtain ⟨hs', hact, hcalls⟩ := ho.cancellationStarted hstarted
      have hlookup : s'.calls.lookup ref = some { call with
          sent := true, exchange := some ⟨x, s.references⟩ } := by
        rw [hcalls]
        exact AList.lookup_insert _
      exact hs'.transmit ⟨rfl, rfl⟩ (hact.trans hactive) hlookup rfl

theorem Account.beginExchange (m : Message) : Keeps T r o (beginExchange r s ref call m) := by
  have hexp := h.expireHistory
  unfold Connection.beginExchange
  dsimp only
  cases nextMid r s.mid with
  | raise => exact quiet_nil
  | refuse e => exact hexp.respond _
  | ok mid =>
    dsimp only
    split_ifs with hfree
    · exact hexp.respond _
    · cases hnew : Exchange.new { m with messageId := mid } r.now call.deadline
        (s.config.ackTimeout.getD (2000 + r.uniform - 1)) with
      | raise => exact quiet_nil
      | refuse e => exact hexp.respond _
      | ok x =>
        exact hexp.launch hactive hcall (Option.not_isSome_iff_eq_none.mp hfree)
          (Exchange.new_scheduled hnew)

theorem Account.retry (hrecord : call.exchange = some record) :
    Keeps T r o (retry r s ref call record) := by
  have hscheduled : record.value.Scheduled := (h.1.working ref call hcall hactive).2 record hrecord
  have htick : record.value.tick r.now = .ok (record.value.advance r.now) := by
    rw [Exchange.tick, hscheduled.validate]
    rfl
  unfold Connection.retry
  rw [htick]
  cases hadvance : record.value.advance r.now with
  | timeout => exact exchangeReply_keeps none _ h
  | wait x =>
    obtain rfl := Exchange.advance_wait hadvance
    exact h.arm hactive hcall rfl rfl hscheduled fun o ho => ho.same
  | send bytes x =>
    exact h.arm hactive hcall rfl rfl (Exchange.advance_scheduled hscheduled hadvance).2
      fun o ho => ho.transmit ⟨rfl, rfl⟩ hactive (AList.lookup_insert _) rfl

end

/-! ## Datagrams -/

theorem Account.unknown (h : Account T r [] [] o s) (m : Message) : Keeps T r o (unknown s m) :=
  h.quiet (quiet_ite ⟨rfl, rfl, rfl, rfl⟩ quiet_nil)

/-- **A message whose content is passed on was not remembered.** -/
theorem Account.acceptCon (h : Account T r [] [] o s) {m : Message} {success : State → Handled}
    {failed : Error → Handled} (hnew : m.type = .con → s.responses.lookup (m.messageId, m.token) = none)
    (hsuccess : ∀ o s', Account T r [] (confirmable m r.remembered).toList o s' →
      Keeps T r o (success s')) (hfailed : ∀ o e, Account T r [] [] o s → Keeps T r o (failed e)) :
    Keeps T r o (acceptCon r s m success failed) := by
  unfold Connection.acceptCon
  split_ifs with hcon
  · have hack : Quiet [.control .ack m.messageId] := ⟨rfl, rfl, rfl, rfl⟩
    refine Keeps.prepend hack ?_
    cases r.control with
    | none =>
      refine hsuccess _ _ ?_
      rw [confirmable, if_pos hcon]
      exact (h.quiet hack).remember (hnew hcon)
    | some e => exact hfailed _ e (h.quiet hack)
  · refine hsuccess o s ?_
    rw [confirmable, if_neg hcon]
    exact h

theorem Account.cancellationConfirmed (h : Account T r u p o s) {result : Result Message}
    (hs : cancellationConfirmed s call result = some s') : Account T r u p o s' := by
  revert hs
  fun_cases Connection.cancellationConfirmed s call result
  case case1 =>
    intro hs
    obtain ⟨w, -, rfl⟩ := Option.map_eq_some_iff.mp hs
    exact h.watching _
  all_goals
    rintro ⟨⟩
    exact h

section Received

variable {m : Message} (hnew : m.type = .con → s.responses.lookup (m.messageId, m.token) = none)
include hnew

theorem Account.correlate (h : Account T r [] [] o s) (hactive : s.active = some ref) :
    Keeps T r o (correlate r s ref m) := by
  unfold Connection.correlate
  obtain ⟨call, hcall⟩ := h.1.active_lookup hactive
  rw [hcall]
  dsimp only
  cases hexchange : call.exchange with
  | none => exact h.unknown m
  | some record =>
    have hscheduled : record.value.Scheduled := (h.1.working ref call hcall hactive).2 record hexchange
    dsimp only
    cases record.value.incoming m with
    | ignore => exact h.unknown m
    | ack => exact h.arm hactive hcall rfl rfl (hscheduled.acknowledge true) fun o ho => ho.same
    | result result =>
      refine h.acceptCon hnew (fun o s' hs' => ?_) fun o e ho => exchangeReply_keeps none _ ho
      cases hconfirmed : Connection.cancellationConfirmed s' call result with
      | none => exact quiet_nil
      | some s'' =>
        exact exchangeReply_keeps (some (m, r.remembered)) _ (hs'.cancellationConfirmed hconfirmed)

theorem Account.notifyObservation (h : Account T r [] [] o s) : Keeps T r o (notifyObservation r s m) := by
  refine h.acceptCon hnew (fun o s' hs' => ?_) fun o e ho => ?_
  · exact hs'.send (.report m r.received r.remembered) ⟨rfl, rfl⟩
  · exact ho.send (.transportFailed e) ⟨rfl, rfl⟩

end Received

section

variable (h : Account T r [] [] o s)
include h

theorem Account.receive (m : Message) : Keeps T r o (receive r s m) := by
  unfold Connection.receive
  split_ifs with hduplicate
  · exact h.send (.control .ack m.messageId) ⟨rfl, rfl⟩
  · have hnew : m.type = .con → s.responses.lookup (m.messageId, m.token) = none := fun hcon =>
      Option.not_isSome_iff_eq_none.mp fun hsome => hduplicate ⟨hcon, hsome⟩
    cases observationReport s m with
    | none => exact quiet_nil
    | some b =>
      cases b with
      | true => exact h.notifyObservation hnew
      | false =>
        cases hactive : s.active with
        | none => exact h.unknown m
        | some ref => exact h.correlate hnew hactive

theorem Account.datagram (host : List Int) (port : Int) (bytes : Bytes) :
    Keeps T r o (datagram r s host port bytes) := by
  have hfirst : Keeps T r o
      (if host = s.config.host ∧ port = s.config.port then incoming r s bytes else ⟨[], .go s⟩) := by
    split_ifs
    · unfold incoming
      cases decoded bytes with
      | ok m => exact h.expireResponses.receive m
      | refuse e => exact h.same
      | raise => exact quiet_nil
    · exact h.same
  unfold Connection.datagram
  revert hfirst
  generalize (if host = s.config.host ∧ port = s.config.port then incoming r s bytes
    else ⟨[], .go s⟩ : Handled) = t
  intro ht
  -- the adapter is armed again behind whatever goes on
  obtain ⟨outputs, next⟩ := t
  cases next with
  | go s' =>
    have hend := Account.send .setActiveOnce ⟨rfl, rfl⟩ ht
    rw [append_assoc] at hend
    dsimp only [rearm]
    cases r.setActiveOnce with
    | none => exact hend
    | some e => exact hend
  | stop s' => exact ht
  | crash => exact ht

/-! ## Events -/

theorem Account.deadline (ref : Nat) : Keeps T r o (deadline s ref) := by
  unfold Connection.deadline
  cases s.calls.lookup ref with
  | none => exact quiet_nil
  | some call =>
    dsimp only
    split_ifs
    · exact h.finish ref _
    · exact h.finish ref _

theorem Account.unlessExpired {otherwise : Handled}
    (ho : Keeps T r o otherwise) : Keeps T r o (unlessExpired r s otherwise) := by
  unfold Connection.unlessExpired
  split
  · exact quiet_nil
  · exact h.deadline _
  · exact ho

theorem Account.submit (m : Message) (kind : Kind) (options : List (Blockwise.TransferKey × Int))
    (deadline : Int) (caller : Nat) : Keeps T r o (submit r s m kind options deadline caller) := by
  unfold Connection.submit
  split_ifs with hallowed
  · exact h.respond _
  · exact h.respond _
  · exact h.respond _
  · exact (h.admitCall m options deadline caller (by simpa using hallowed)).keeps

theorem Account.exchange (hactive : s.active = some ref) (m : Message)
    (worker : Nat) : Keeps T r o (exchange r s ref m worker) := by
  unfold Connection.exchange
  obtain ⟨call, hcall⟩ := h.1.active_lookup hactive
  rw [hcall]
  dsimp only
  split_ifs
  · exact h.beginExchange hactive hcall m
  · exact h.respond _

theorem Account.retryDue (hactive : s.active = some ref) (reference : Nat) :
    Keeps T r o (retryDue r s ref reference) := by
  unfold Connection.retryDue
  obtain ⟨call, hcall⟩ := h.1.active_lookup hactive
  rw [hcall]
  dsimp only
  cases hexchange : call.exchange with
  | none => exact h.same
  | some record =>
    dsimp only
    split_ifs
    · exact h.retry hactive hcall hexchange
    · exact h.same

theorem Account.observe (request : Message) (receiver : Nat)
    (deadline : Int) : Keeps T r o (observe r s request receiver deadline) := by
  unfold Connection.observe
  split_ifs
  · exact h.respond _
  · exact h.respond _
  · exact h.respond _
  · unfold startObservation
    cases observed r s request with
    | raise => exact quiet_nil
    | refuse e => exact h.respond _
    | ok m =>
      split_ifs
      · exact ((h.watching _).later 5).send (.schedule _ deadline) ⟨rfl, rfl⟩
      · exact quiet_nil

omit h in
theorem quiet_emitTerminal (r : Readings) (s : State) (e : Error) : Quiet (emitTerminal r s e).1 := by
  unfold emitTerminal
  cases s.observation with
  | none => exact quiet_nil
  | some w => exact quiet_ite ⟨rfl, rfl, rfl, rfl⟩ quiet_nil

theorem Account.emitTerminal (e : Error) : Account T r [] [] o (emitTerminal r s e).2 := by
  unfold Connection.emitTerminal
  cases s.observation with
  | none => exact h
  | some w => exact h.watching _

theorem Account.observationTimeout {before : List Output}
    (hb : Quiet before) : Keeps T r o (observationTimeout r s before) :=
  (h.emitTerminal _).quiet (hb.append (quiet_emitTerminal r s _))

theorem Account.startupFailed (e : Error) : Keeps T r o (startupFailed s e) := by
  unfold Connection.startupFailed
  split_ifs
  · exact h.send (.started (.refuse e)) ⟨rfl, rfl⟩
  · exact h.same

theorem Account.startup (result : Result Unit) : Keeps T r o (startup r s result) := by
  cases result with
  | raise => exact h.startupFailed _
  | refuse e => exact h.startupFailed e
  | ok u =>
    have hopen : Account T r [] [] (o ++ [.setActiveOnce]) { s with
        handle := true, adapterMonitor := some s.references, references := s.references + 1 } :=
      (h.later 1).send .setActiveOnce ⟨rfl, rfl⟩
    refine Keeps.prepend ⟨rfl, rfl, rfl, rfl⟩ ?_
    cases r.setActiveOnce with
    | none => exact hopen.quiet (quiet_ite ⟨rfl, rfl, rfl, rfl⟩ quiet_nil)
    | some e => exact hopen.startupFailed e

theorem Account.workerExit (worker : Nat) (normal : Bool) : Keeps T r o (workerExit s worker normal) := by
  unfold Connection.workerExit
  split_ifs
  · exact h.same
  · have hs : Account T r [] [] o { s with openWorker := none } := h
    exact hs.startupFailed _
  · cases s.active with
    | none => exact h.same
    | some ref =>
      dsimp only
      cases s.calls.lookup ref with
      | none => exact quiet_nil
      | some call =>
        dsimp only
        split_ifs
        · exact h.stop
        · exact h.same

omit h in
/-- The sender of a message gets an answer behind what is done. -/
theorem Account.respondTo {done : List Output × State} (h : Account T r [] [] (o ++ done.1) done.2)
    (result : Result (Option Nat)) : Keeps T r o (respondTo result done) := by
  have hend := h.send (.respond result) ⟨rfl, rfl⟩
  rw [append_assoc] at hend
  exact hend

theorem Account.withCapability (capability : Nat) {clause : Watch → Handled}
    (hclause : ∀ w, Keeps T r o (clause w)) : Keeps T r o (withCapability s capability clause) := by
  unfold Connection.withCapability
  cases s.observation with
  | none => exact h.respond _
  | some w =>
    dsimp only
    split_ifs
    · exact hclause w
    · exact h.respond _

theorem Account.watchCancel (w : Watch) (deadline : Int) :
    Account T r [] [] (o ++ (watchCancel s w deadline).1) (watchCancel s w deadline).2 := by
  unfold Connection.watchCancel
  split_ifs
  · exact h.quiet quiet_nil
  · exact ((h.watching _).later 1).send (.schedule _ deadline) ⟨rfl, rfl⟩

/-- **Every event but a close keeps the books.** -/
theorem handle_keeps (e : Event) (hclose : e ≠ .close) : Keeps T r o (handle r s e) := by
  cases e with
  | close => exact absurd rfl hclose
  | ready =>
    rw [handle]
    cases s.phase with
    | opening => exact h.same
    | ready => exact h.respond _
    | failed e => exact h.send (.respond (.refuse e)) ⟨rfl, rfl⟩
  | observe request receiver deadline =>
    rw [handle]
    split_ifs
    · exact h.observe request receiver deadline
    · exact quiet_nil
  | observationOwner ref deadline =>
    rw [handle]
    cases s.observation with
    | none => exact h.respond _
    | some w =>
      dsimp only
      split_ifs
      · exact Account.respondTo (h.watchCancel w deadline) _
      · exact h.respond _
  | observationPhase capability deadline =>
    refine h.withCapability capability fun w => Account.respondTo ?_ _
    exact ((h.watching _).later 1).send (.schedule _ deadline) ⟨rfl, rfl⟩
  | observationEstablished capability =>
    exact h.withCapability capability fun w => Account.respondTo ((h.watching _).quiet quiet_nil) _
  | observationTerminal capability e =>
    refine h.withCapability capability fun w => Account.respondTo ?_ _
    exact (h.emitTerminal e).quiet (quiet_emitTerminal r s e)
  | observationAbort capability =>
    refine h.withCapability capability fun w => Account.respondTo ?_ _
    cases s.active with
    | none => exact h.quiet quiet_nil
    | some ref => exact h.finish ref _
  | submit m kind options deadline caller =>
    rw [handle]
    split_ifs
    · exact h.submit m kind options deadline caller
    · exact h.respond _
  | exchange ref m worker =>
    rw [handle]
    split_ifs with hactive
    · exact h.exchange hactive m worker
    · exact h.respond _
  | opened result =>
    rw [handle]
    split_ifs
    · have hs : Account T r [] [] o { s with openWorker := none } := h
      exact hs.startup result
    · exact h.same
  | startupDeadline =>
    rw [handle]
    split_ifs
    · have hs : Account T r [] [] (o ++ s.openWorker.toList.map .kill) { s with openWorker := none } :=
        h.quiet (quiet_kill _)
      exact Keeps.prepend (quiet_kill _) (hs.startupFailed _)
    · exact h.same
  | data host port bytes =>
    rw [handle]
    split_ifs
    · exact h.unlessExpired (h.datagram host port bytes)
    · exact h.stop
  | adapterFailed => exact h.stop
  | retry ref reference =>
    rw [handle]
    split_ifs with hactive
    · exact h.retryDue hactive reference
    · exact h.same
  | deadline ref =>
    rw [handle]
    split_ifs
    · exact h.deadline ref
    · exact h.finish ref _
  | completed ref result =>
    rw [handle]
    split_ifs
    · exact h.unlessExpired (Runs.prepend (nextWithin_runs _ (h.finish ref result))).keeps
    · exact h.same
  | observationDeadline reference =>
    rw [handle]
    cases s.observation with
    | none => exact h.same
    | some w =>
      dsimp only
      split_ifs
      · exact h.observationTimeout ⟨rfl, rfl, rfl, rfl⟩
      · exact h.observationTimeout quiet_nil
      · exact h.same
  | cancelDeadline reference =>
    rw [handle]
    cases s.observation with
    | none => exact h.same
    | some w =>
      dsimp only
      split_ifs
      · exact h.observationTimeout quiet_nil
      · exact h.same
  | down monitor =>
    rw [handle]
    split_ifs
    · exact h.stop
    · unfold callerDown
      split
      · exact h.same
      · split_ifs
        · exact h.stop
        · exact h.finish _ _
  | creatorExit => exact h.stop
  | workerExit worker normal => exact h.workerExit worker normal
  | other => exact h.same

end

/-! ## The end -/

section

variable (r : Readings) (s : State)

/-- The request of `best_effort_cancel/1` has a free Message ID. -/
theorem bestEffortCancel_cases : bestEffortCancel r s = [] ∨
    ∃ mid bytes, bestEffortCancel r s = [.cancellation mid r.cancellation bytes]
      ∧ ∀ time, s.history.lookup mid = some time → time + lifetime ≤ r.cancellation := by
  fun_cases bestEffortCancel r s
  case case2 mid _ hfree bytes _ =>
    refine .inr ⟨mid, bytes, rfl, fun time htime => ?_⟩
    rw [htime, Option.getD_some] at hfree
    omega
  all_goals exact .inl rfl

theorem bestEffortCancel_logs : admitted (bestEffortCancel r s) = [] ∧
    answered (bestEffortCancel r s) = [] ∧ processed (bestEffortCancel r s) = [] := by
  rcases bestEffortCancel_cases r s with hnil | ⟨mid, bytes, hone, -⟩
  · rw [hnil]
    exact ⟨rfl, rfl, rfl⟩
  · rw [hone]
    exact ⟨rfl, rfl, rfl⟩

/-- Outputs behind which nothing more is to be answered: the calls that are left have their answers, and at
most the last cancellation uses a Message ID. -/
structure Closes (r : Readings) (s : State) (o : List Output) : Prop where
  admitted : admitted o = []
  answered : answered o = s.calls.keys
  used : used o = used (bestEffortCancel r s)
  processed : processed o = []

/-- The answers to the calls that are left. -/
theorem replies (calls : List (Σ _ : Nat, Call)) (result : Answer) :
    admitted (calls.map fun e => reply e.1 e.2 result) = [] ∧
      answered (calls.map fun e => reply e.1 e.2 result) = calls.keys ∧
      used (calls.map fun e => reply e.1 e.2 result) = [] ∧
      processed (calls.map fun e => reply e.1 e.2 result) = [] := by
  induction calls with
  | nil => exact ⟨rfl, rfl, rfl, rfl⟩
  | cons e calls ih => exact ⟨ih.1, congrArg (e.1 :: ·) ih.2.1, ih.2.2⟩

theorem quiet_terminateObservation : Quiet (terminateObservation r s) := by
  refine (quiet_emitTerminal r s _).append ?_
  cases s.observation with
  | none => exact quiet_nil
  | some w => exact (quiet_ite ⟨rfl, rfl, rfl, rfl⟩ quiet_nil).append ⟨rfl, rfl, rfl, rfl⟩

end

/-- **The last callback answers the calls that are left.** -/
theorem Ledger.terminate (h : Ledger o s) (r : Readings) : Closes r s (terminate s r) := by
  have hworker : ∃ workers, activeWorker s = some workers := by
    unfold activeWorker
    cases hactive : s.active with
    | none => exact ⟨[], rfl⟩
    | some ref =>
      obtain ⟨call, hcall⟩ := h.active_lookup hactive
      exact ⟨call.worker.toList, by dsimp only; rw [hcall]; rfl⟩
  obtain ⟨workers, hworkers⟩ := hworker
  have hbefore := (quiet_kill s.openWorker.toList).append (quiet_kill workers)
  have hclose : Quiet (if s.handle then [Output.close] else []) :=
    quiet_ite ⟨rfl, rfl, rfl, rfl⟩ quiet_nil
  have hbehind := (quiet_terminateObservation r s).append hclose
  obtain ⟨hadm, hans, hused, hprocessed⟩ := replies s.calls.entries (failure .connectionClosed)
  obtain ⟨hadm', hans', hprocessed'⟩ := bestEffortCancel_logs r s
  have hterminate : Connection.terminate s r = (s.openWorker.toList.map .kill ++ workers.map .kill) ++
      bestEffortCancel r s ++ (terminateObservation r s ++ if s.handle then [.close] else []) ++
      s.calls.entries.map fun e => reply e.1 e.2 (failure .connectionClosed) := by
    simp [Connection.terminate, hworkers]
  rw [hterminate]
  refine ⟨?_, ?_, ?_, ?_⟩
  · simp only [admitted_append, hbefore.admitted, hadm', hbehind.admitted, hadm, append_nil]
  · simp only [answered_append, hbefore.answered, hans', hbehind.answered, hans]
    rfl
  · simp only [used_append, hbefore.used, hbehind.used, hused, nil_append, append_nil]
  · simp only [processed_append, hbefore.processed, hprocessed', hbehind.processed, hprocessed, append_nil]

/-- A close cancels at once; behind it the last callback cancels nothing more. -/
theorem Ledger.close (h : Ledger o s) (r : Readings) (ho : Quiet o') :
    Closes r s (bestEffortCancel r s ++ o' ++ Connection.terminate { s with handle := false } r) := by
  have hclosed : Ledger o { s with handle := false } := h
  have hend := hclosed.terminate r
  have hnone : bestEffortCancel r { s with handle := false } = [] := by
    cases s.observation <;> rfl
  obtain ⟨hadm, hans, hprocessed⟩ := bestEffortCancel_logs r s
  refine ⟨?_, ?_, ?_, ?_⟩
  · simp [hadm, ho.admitted, hend.admitted]
  · simp [hans, ho.answered, hend.answered]
  · simp only [used_append, ho.used, hend.used, hnone, append_nil]
    exact append_nil _
  · simp [hprocessed, ho.processed, hend.processed]

end Wotex.CoAP.Connection
