import Mathlib.Data.List.Chain
import Wotex.CoAP.Observation

/-!
# The order of delivered reports

A notification is compared with the report before it on every route to the receiver: directly, behind a
block assembly, or after it was held back. The response to a renewal is not compared with anything.

* `handle_good`: one event keeps the invariant `Coherent` and what was delivered `Ordered`.
* `run_ordered`: over every sequence of events, a notification is fresh relative to the report delivered
  before it, and no event is delivered twice.
* `renewal_repeats`: a renewal delivers the same sequence number again.
-/

namespace Wotex.CoAP.Observation

open List

/-- The event that brought a report: a notification, or the response to a registration or renewal. -/
def Brings (inputs : List Input) (a : Arrival) : Prop :=
  ∃ r r' e, inputs[a.event]? = some (r, r', e)
    ∧ if a.notified then e = .report a.report.first a.report.receivedAt
      else ∃ ref, e = .result ref (.response a.report.first a.report.receivedAt)

/-- The relation between a delivered report and the next one. -/
def Follows (a b : Arrival) : Prop := b.notified = true → fresh a b = true

/-! ## The invariant -/

section Invariant

variable (inputs : List Input) (n : Nat)

/-- Reports delivered before event `n`. -/
structure Ordered (d : List Arrival) : Prop where
  chain : d.IsChain Follows
  once : (d.map Arrival.event).Nodup
  known : ∀ a ∈ d, a.event < n ∧ Brings inputs a

/-- A report of a known event that was not delivered. -/
structure Held (d : List Arrival) (a : Arrival) : Prop where
  known : a.event < n ∧ Brings inputs a
  new : a.event ∉ d.map Arrival.event

/-- A report that may be delivered next. -/
structure Ready (d : List Arrival) (a : Arrival) : Prop extends Held inputs n d a where
  follows : ∀ last ∈ d.getLast?, Follows last a

/-- The state agrees with what was delivered: an active or renewing coordinator has the last delivered
report, an assembling one a report that may be delivered next, and a pending notification is another
one that was not delivered. -/
structure Coherent (d : List Arrival) (s : State) : Prop where
  ordered : Ordered inputs n d
  pending : ∀ p, s.pending = some p → p.notified = true ∧ Held inputs n d p
    ∧ ∀ a, s.phase = .assembling → s.report = some a → p.event ≠ a.event
  registering : s.phase = .registering → s.report = none
  active : s.phase = .active → s.pending = none ∧ ∃ a, s.report = some a ∧ d.getLast? = some a
  renewing : s.phase = .renewing → ∃ a, s.report = some a ∧ d.getLast? = some a
  assembling : s.phase = .assembling → ∃ a, s.report = some a ∧ Ready inputs n d a
  timer : ∀ ref, s.timer = some ref → s.phase = .active

/-- What a handler leaves behind the reports delivered so far. -/
def Good (d : List Arrival) (t : Handled) : Prop :=
  match t.next with
  | .go s => Coherent inputs n (d ++ delivered t.outputs) s
  | _ => Ordered inputs n (d ++ delivered t.outputs)

end Invariant

variable {inputs : List Input} {n : Nat} {d : List Arrival} {s : State} {a : Arrival}

@[simp] theorem delivered_append (o o' : List Output) :
    delivered (o ++ o') = delivered o ++ delivered o' := filterMap_append

@[simp] theorem delivered_nil : delivered [] = [] := rfl

@[simp] theorem delivered_deliver (a : Arrival) (o : List Output) :
    delivered (.deliver a :: o) = a :: delivered o := rfl

variable {o : List Output} {r r' : Readings} {behind : State → Handled} {m : Message}

theorem delivered_eq_nil (h : ∀ a, .deliver a ∉ o) : delivered o = [] := by
  rw [delivered, filterMap_eq_nil_iff]
  intro x hx
  cases x with
  | deliver a => exact absurd hx (h a)
  | _ => rfl

theorem Ordered.snoc (h : Ordered inputs n d) (ha : Ready inputs n d a) : Ordered inputs n (d ++ [a]) where
  chain := by
    refine isChain_append.mpr ⟨h.chain, isChain_singleton a, ?_⟩
    intro x hx y hy
    obtain rfl : a = y := by simpa using hy
    exact ha.follows x hx
  once := by
    rw [map_append, nodup_append]
    refine ⟨h.once, nodup_singleton _, ?_⟩
    intro x hx y hy hxy
    obtain rfl : y = a.event := by simpa using hy
    exact ha.new (hxy ▸ hx)
  known := forall_mem_append.mpr ⟨h.known, forall_mem_singleton.mpr ha.known⟩

theorem Ordered.mono (h : Ordered inputs n d) : Ordered inputs (n + 1) d :=
  ⟨h.chain, h.once, fun a ha => ⟨Nat.lt_succ_of_lt (h.known a ha).1, (h.known a ha).2⟩⟩

theorem Held.mono (h : Held inputs n d a) : Held inputs (n + 1) d a :=
  ⟨⟨Nat.lt_succ_of_lt h.known.1, h.known.2⟩, h.new⟩

theorem Coherent.mono (h : Coherent inputs n d s) : Coherent inputs (n + 1) d s :=
  { h with
    ordered := h.ordered.mono
    pending := fun p hp => ⟨(h.pending p hp).1, (h.pending p hp).2.1.mono, (h.pending p hp).2.2⟩
    assembling := fun hs => by
      obtain ⟨a, ha, hr⟩ := h.assembling hs
      exact ⟨a, ha, hr.toHeld.mono, hr.follows⟩ }

/-! ## The functions keep it -/

theorem good_go (h : Coherent inputs n d s) (ho : ∀ a, .deliver a ∉ o) : Good inputs n d ⟨o, .go s⟩ := by
  rw [Good, delivered_eq_nil ho, append_nil]
  exact h

theorem good_end (h : Ordered inputs n d) (ho : ∀ a, .deliver a ∉ o) {x : Process.Next State}
    (hx : ∀ s, x ≠ .go s) : Good inputs n d ⟨o, x⟩ := by
  cases x with
  | go s => exact absurd rfl (hx s)
  | stop s | crash =>
    rw [Good, delivered_eq_nil ho, append_nil]
    exact h

theorem good_crash (h : Ordered inputs n d) : Good inputs n d ⟨[], .crash⟩ :=
  good_end h (by simp) (fun _ => nofun)

theorem good_prepend {t : Handled} (h : Good inputs n (d ++ delivered o) t) :
    Good inputs n d (.prepend o t) := by
  unfold Good at h ⊢
  unfold Process.Step.prepend
  cases ht : t.next <;> simpa [ht] using h

theorem good_prepend_nil {t : Handled} (ho : ∀ a, .deliver a ∉ o)
    (h : Good inputs n d t) : Good inputs n d (.prepend o t) :=
  good_prepend (by rwa [delivered_eq_nil ho, append_nil])

theorem good_terminal (h : Ordered inputs n d) (e : Error) : Good inputs n d (terminal s e) := by
  refine good_end h (fun a ha => ?_) (fun _ => nofun)
  simp only [mem_append, mem_singleton, mem_map] at ha
  rcases ha with (ha | ha) | ⟨k, -, ha⟩
  · cases ha
  · split at ha
    · cases mem_singleton.mp ha
    · cases ha
  · cases ha

theorem good_task (h : Coherent inputs n d s) (op : Operation) : Good inputs n d (task s op) :=
  good_go { h with } (by simp)

theorem good_arm (h : Coherent inputs n d s) (hs : s.phase = .active) (now : Int) :
    Good inputs n d (arm now s) :=
  good_go { h with timer := fun _ _ => hs } (by simp)

/-- What may come behind a delivery: it keeps the invariant where the state has the last delivered report
and this pending one. -/
def Continues (inputs : List Input) (n : Nat) (pending : Option Arrival) (behind : State → Handled) :
    Prop :=
  ∀ d a s, Ordered inputs n d → d.getLast? = some a → s.report = some a → s.pending = pending →
    (∀ p, pending = some p → p.notified = true ∧ Held inputs n d p) → Good inputs n d (behind s)

theorem settle_continues (r : Readings) : Continues inputs n none (settle r) := by
  intro d a s hord hlast hreport hpending _
  unfold settle
  rw [hreport]
  refine good_arm ?_ rfl _
  refine ⟨hord, fun p hp => ?_, nofun, fun _ => ⟨hpending, a, rfl, hlast⟩, nofun, nofun, fun _ _ => rfl⟩
  rw [hpending] at hp
  cases hp

theorem Ready.complete {report : Report} (h : Ready inputs n d a)
    (hc : a.report.complete m = .ok report) : Ready inputs n d { a with report := report } := by
  rw [Report.complete_ok hc]
  exact ⟨⟨⟨h.known.1, h.known.2⟩, h.new⟩, h.follows⟩

section

variable (hord : Ordered inputs n d) (hreport : s.report = some a) (ha : Ready inputs n d a)
  (hpending : ∀ p, s.pending = some p → p.notified = true ∧ Held inputs n d p ∧ p.event ≠ a.event)
  (hbehind : Continues inputs n s.pending behind)
include hord hreport ha hpending hbehind

theorem good_deliver : Good inputs n d (deliver r behind s) := by
  unfold deliver
  split
  · exact good_terminal hord _
  · rw [hreport]
    split
    · rename_i h
      cases h
    · exact good_end hord (by simp) (fun _ => nofun)
    · rename_i x count hx hcount
      cases hx
      split
      · refine good_prepend ?_
        split
        · refine good_prepend_nil (by split <;> simp) ?_
          refine hbehind (d ++ [a]) a _ (hord.snoc ha) getLast?_concat rfl rfl ?_
          intro p hp
          obtain ⟨hnot, hheld, hne⟩ := hpending p hp
          refine ⟨hnot, hheld.known, ?_⟩
          rw [map_append, mem_append, not_or]
          exact ⟨hheld.new, by simpa using hne⟩
        · exact good_crash (hord.snoc ha)
      · exact good_terminal hord _

theorem good_assembled (result : Result Message) : Good inputs n d (assembled r behind s result) := by
  unfold assembled
  split
  · exact good_terminal hord _
  · exact good_crash hord
  · rw [hreport]
    dsimp only
    split
    · rename_i report hc
      exact good_deliver hord rfl (ha.complete hc) hpending hbehind
    · exact good_terminal hord _
    · exact good_crash hord

end

theorem good_assemble (h : Coherent inputs n d s)
    (hphase : s.phase = .assembling) (hreport : s.report = some a)
    (hbehind : Continues inputs n s.pending behind) : Good inputs n d (assemble r behind s a) := by
  obtain ⟨a', ha', hready⟩ := h.assembling hphase
  obtain rfl := Option.some.inj (hreport.symm.trans ha')
  refine good_prepend_nil (by simp) ?_
  split
  · split_ifs
    · exact good_terminal h.ordered _
    · split
      · refine good_assembled h.ordered hreport hready (fun p hp => ?_) hbehind _
        obtain ⟨hnot, hheld, hne⟩ := h.pending p hp
        exact ⟨hnot, hheld, hne a hphase hreport⟩
      · exact good_task h _
      · exact good_crash h.ordered
  · exact good_crash h.ordered

/-- A notification that was not delivered and is not the one being assembled. -/
structure Candidate (inputs : List Input) (n : Nat) (d : List Arrival) (s : State) (a : Arrival) :
    Prop where
  notified : a.notified = true
  held : Held inputs n d a
  other : ∀ b, s.phase = .assembling → s.report = some b → a.event ≠ b.event

section

variable (h : Coherent inputs n d s)
include h

theorem Coherent.hold (ha : Candidate inputs n d s a)
    (hactive : s.phase ≠ .active) : Coherent inputs n d { s with pending := some a } :=
  { h with
    active := fun hs => absurd hs hactive
    pending := fun p hp => by
      cases hp
      exact ⟨ha.notified, ha.held, ha.other⟩ }

theorem good_hold (ha : Candidate inputs n d s a)
    (hactive : s.phase ≠ .active) : Good inputs n d ⟨[], .go { s with pending := some a }⟩ :=
  good_go (h.hold ha hactive) (by simp)

theorem good_same : Good inputs n d ⟨[], .go s⟩ := good_go h (by simp)

/-- **A notification is dropped, held back or assembled where it is fresh.** -/
theorem good_candidate (ha : Candidate inputs n d s a) (hcancel : s.phase ≠ .canceling)
    (hbehind : Continues inputs n s.pending behind) : Good inputs n d (candidate r behind s a) := by
  have hidle : s.report = none → s.phase ≠ .active := fun hnone hs => by
    obtain ⟨-, x, hx, -⟩ := h.active hs
    rw [hnone] at hx
    cases hx
  fun_cases candidate r behind s a
  case case1 | case6 | case7 => exact good_terminal h.ordered _
  case case2 | case3 => exact good_hold h ha (hidle ‹s.report = none›)
  case case4 | case5 => exact good_same h
  case case8 hphase =>
    exact good_hold h ha (by rcases hphase with hp | hp <;> rw [hp] <;> exact nofun)
  case case9 report hreport hfresh _ _ hphase =>
    -- neither assembling nor renewing, and there is a report: the coordinator is active
    have hactive : s.phase = .active := by
      cases hp : s.phase with
      | active => rfl
      | registering =>
        rw [h.registering hp] at hreport
        cases hreport
      | canceling => exact absurd hp hcancel
      | assembling => exact absurd (.inl hp) hphase
      | renewing => exact absurd (.inr hp) hphase
    obtain ⟨hpending, last, hlast, hdlast⟩ := h.active hactive
    obtain rfl := Option.some.inj (hreport.symm.trans hlast)
    rw [hpending, Bool.not_eq_true', Bool.not_eq_false] at hfresh
    refine good_assemble ⟨h.ordered, fun p hp => ?_, nofun, nofun, nofun, fun _ => ?_, nofun⟩ rfl rfl
      hbehind
    · have hp' : s.pending = some p := hp
      rw [hpending] at hp'
      cases hp'
    · refine ⟨a, rfl, ha.held, fun x hx _ => ?_⟩
      obtain rfl := Option.some.inj (hdlast.symm.trans hx)
      exact hfresh

end

theorem pending_continues (r r' : Readings) (p : Option Arrival) : Continues inputs n p (pending r r') := by
  intro d a s hord hlast hreport hpending hheld
  unfold pending
  rw [hreport]
  split
  · rename_i hnone
    exact settle_continues r d a s hord hlast hreport hnone fun _ => nofun
  · rename_i h
    cases h
  · rename_i x report hx hrep
    cases hrep
    obtain ⟨hnot, hh⟩ := hheld x (hpending.symm.trans hx)
    have hcoherent : Coherent inputs n d { s with phase := .active, report := some a, pending := none } := by
      refine ⟨hord, fun _ hp => ?_, nofun, fun _ => ⟨rfl, a, rfl, hlast⟩, nofun, nofun, fun _ _ => rfl⟩
      cases hp
    split
    · exact good_candidate hcoherent ⟨hnot, hh, fun _ => nofun⟩ nofun (settle_continues r')
    · exact settle_continues r d a _ hord hlast rfl rfl fun _ => nofun

/-! ## Events -/

theorem Ordered.held_now (h : Ordered inputs n d) (ha : a.event = n) (hb : Brings inputs a) :
    Held inputs (n + 1) d a := by
  refine ⟨⟨by omega, hb⟩, fun hmem => ?_⟩
  obtain ⟨x, hx, hxa⟩ := mem_map.mp hmem
  have hlt := (h.known x hx).1
  omega

theorem good_incoming {receivedAt : Int} (hin : inputs[n]? = some (r, r', .report m receivedAt))
    (h : Coherent inputs n d s) (hcancel : s.phase ≠ .canceling) :
    Good inputs (n + 1) d (incoming r r' n s m receivedAt) := by
  unfold incoming
  split
  · rename_i report hnew
    obtain ⟨rfl, rfl⟩ := Report.new_ok hnew
    refine good_candidate h.mono ⟨rfl, ?_, ?_⟩ hcancel (pending_continues r r' _)
    · exact h.ordered.held_now rfl ⟨r, r', _, hin, rfl⟩
    · intro b hphase hb
      obtain ⟨x, hx, hready⟩ := h.assembling hphase
      obtain rfl := Option.some.inj (hb.symm.trans hx)
      exact hready.known.1.ne'
  · exact good_terminal h.mono.ordered _
  · exact good_crash h.mono.ordered

theorem good_registered {receivedAt : Int} {ref : Nat}
    (hin : inputs[n]? = some (r, r', .result ref (.response m receivedAt)))
    (h : Coherent inputs n d s) (hactive : s.phase ≠ .active) :
    Good inputs (n + 1) d (registered r r' n s m receivedAt) := by
  unfold registered
  split
  · rename_i report hnew
    obtain ⟨rfl, rfl⟩ := Report.new_ok hnew
    split
    · refine good_assemble ⟨h.mono.ordered, ?_, nofun, nofun, nofun, ?_, ?_⟩ rfl rfl
        (pending_continues r r' _)
      · intro p hp
        obtain ⟨hnot, hheld, -⟩ := h.pending p hp
        refine ⟨hnot, hheld.mono, fun b _ hb => ?_⟩
        cases hb
        exact hheld.known.1.ne
      · exact fun _ => ⟨_, rfl, h.ordered.held_now rfl ⟨r, r', _, hin, ref, rfl⟩, fun _ _ => nofun⟩
      · exact fun ref hr => absurd (h.timer ref hr) hactive
    · exact good_terminal h.mono.ordered _
  · exact good_terminal h.mono.ordered _
  · exact good_crash h.mono.ordered

theorem good_completed {o : Outcome} {ref : Nat} (hin : inputs[n]? = some (r, r', .result ref o))
    (h : Coherent inputs n d s) : Good inputs (n + 1) d (completed r r' n s o) := by
  fun_cases completed r r' n s o
  case case1 =>
    refine good_end h.mono.ordered (fun a ha => ?_) (fun _ => nofun)
    obtain ⟨k, -, hk⟩ := mem_map.mp ha
    cases hk
  case case2 | case3 => exact good_terminal h.mono.ordered _
  case case4 hphase | case5 hphase => exact good_registered hin h (by rw [hphase]; exact nofun)
  case case6 hphase =>
    obtain ⟨a, ha, hready⟩ := h.mono.assembling hphase
    refine good_assembled h.mono.ordered ha hready (fun p hp => ?_) (pending_continues r r' _) _
    obtain ⟨hnot, hheld, hne⟩ := h.mono.pending p hp
    exact ⟨hnot, hheld, hne a hphase ha⟩
  case case7 => exact good_crash h.mono.ordered

theorem good_renew (h : Coherent inputs n d s)
    (hlast : ∃ a, s.report = some a ∧ d.getLast? = some a) : Good inputs n d (renew r s) := by
  refine good_prepend_nil (by simp) ?_
  split
  · -- a coordinator that renews still has the last delivered report
    refine good_task ?_ _
    exact ⟨h.ordered, fun p hp => ⟨(h.pending p hp).1, (h.pending p hp).2.1, fun _ => nofun⟩, nofun, nofun,
      fun _ => hlast, nofun, fun _ => nofun⟩
  · exact good_crash h.ordered

/-- **One event keeps the invariant.** -/
theorem handle_good {e : Event} (hin : inputs[n]? = some (r, r', e))
    (h : Coherent inputs n d s) : Good inputs (n + 1) d (handle r r' n s e) := by
  have hm := h.mono
  cases e with
  | cancel own deadline =>
    rw [handle]
    split_ifs
    · exact good_go hm (by simp)
    · exact good_go { hm with } (by simp)
    · exact good_go hm (by simp)
    · refine good_prepend_nil (by simp) (good_task ?_ _)
      exact ⟨hm.ordered, fun _ => nofun, nofun, nofun, nofun, nofun, fun _ => nofun⟩
  | register => exact good_task hm _
  | report m receivedAt =>
    rw [handle]
    split_ifs with hphase
    · exact good_same hm
    · exact good_incoming hin h hphase
  | transportFailed e => exact good_terminal hm.ordered _
  | result ref o =>
    rw [handle]
    split_ifs
    · exact good_completed hin { h with }
    · exact good_same hm
  | expiry ref now =>
    rw [handle]
    split_ifs with htimer
    · exact good_arm hm (h.timer ref htimer) _
    · exact good_renew hm (hm.active (h.timer ref htimer)).2
    · exact good_terminal hm.ordered _
    · exact good_same hm
  | connectionDown => exact good_terminal hm.ordered _
  | receiverDown => exact good_end hm.ordered (by simp) (fun _ => nofun)
  | callerDown =>
    rw [handle]
    split_ifs
    · exact good_end hm.ordered (by simp) (fun _ => nofun)
    · exact good_same hm
  | exit ref =>
    rw [handle]
    split_ifs
    · exact good_terminal hm.ordered _
    · exact good_same hm
  | other => exact good_same hm

/-! ## Runs -/

theorem delivered_terminate (s : State) : delivered (terminate s) = [] := by
  refine delivered_eq_nil fun a ha => ?_
  simp only [terminate, mem_append, mem_singleton, mem_map] at ha
  rcases ha with (ha | ⟨k, -, ha⟩) | ha
  · split at ha
    · cases mem_singleton.mp ha
    · cases ha
  · cases ha
  · cases ha

/-- The events from some number on are left, and the state agrees with what was delivered. -/
def Upcoming (inputs : List Input) (rest : List (Input × Nat)) (o : List Output) (s : State) : Prop :=
  ∃ n, rest = (inputs.drop n).zipIdx n ∧ Coherent inputs n (delivered o) s

/-- **One of the events that are left.** -/
theorem Upcoming.leads {i : Input × Nat} {rest : List (Input × Nat)} (h : Upcoming inputs (i :: rest) o s) :
    Process.Leads process (Upcoming inputs rest) (fun o => ∃ n, Ordered inputs n (delivered o)) o s i := by
  obtain ⟨n, hrest, h⟩ := h
  cases hd : inputs.drop n with
  | nil => simp [hd] at hrest
  | cons x tail =>
    rw [hd] at hrest
    cases hrest
    have hin : inputs[n]? = some x := by
      rw [← head?_drop, hd]
      rfl
    have hgood := handle_good hin h
    unfold Good at hgood
    unfold Process.Leads
    simp only [process, delivered_append, delivered_terminate, append_nil]
    cases hnext : (handle x.1 x.2.1 n s x.2.2).next with
    | go s' =>
      rw [hnext] at hgood
      exact ⟨n + 1, by rw [← tail_drop, hd]; rfl, by rwa [delivered_append]⟩
    | stop s' | crash =>
      rw [hnext] at hgood
      exact ⟨n + 1, hgood⟩

/-- **Delivered notifications are fresh, and delivered once.** Over every sequence of events and readings:
a notification is fresh relative to the report delivered before it, whatever route either of them took;
the reports delivered come from different events, each of which carried that report. -/
theorem run_ordered (config : Config) (inputs : List Input) :
    let d := delivered (run (init config) inputs)
    d.IsChain (fun a b => b.notified = true → fresh a b = true)
      ∧ (d.map Arrival.event).Nodup ∧ ∀ a ∈ d, Brings inputs a := by
  have hinit : Coherent inputs 0 [] (init config) := by
    exact ⟨⟨isChain_nil, nodup_nil, fun _ => nofun⟩, fun _ => nofun, fun _ => rfl, nofun, nofun, nofun,
      fun _ => nofun⟩
  have hstart : Upcoming inputs inputs.zipIdx [] (init config) := ⟨0, rfl, hinit⟩
  have hrun := Process.run_rule (I := Upcoming inputs) (fun _ _ _ _ h => h.leads) hstart
  obtain ⟨m, h⟩ : ∃ m, Ordered inputs m (delivered (run (init config) inputs)) := by
    cases hend : (Process.run process (init config) inputs.zipIdx).2 with
    | some s =>
      rw [hend] at hrun
      obtain ⟨m, -, h⟩ := hrun
      exact ⟨m, h.ordered⟩
    | none =>
      rw [hend] at hrun
      exact hrun
  exact ⟨h.chain, h.once, fun a ha => (h.known a ha).2⟩

/-- A subscription to a property. -/
def thermometer : Config := ⟨⟨.con, 1, 0, [1], [(11, [116])], []⟩, .property, true, 1000, 5000, 5000⟩

/-- Readings at one time of a receiver and a connection that answer. -/
def ready (now : Int) : Readings := ⟨now, now, now, now, now, some 0, true, true⟩

/-- A response with sequence number 10 that is fresh for a second. -/
def warm (mid : Int) : Message := ⟨.ack, 69, mid, [1], [(6, [10]), (14, [1])], [50, 49]⟩

/-- A registration, and a renewal two seconds later. -/
def renewal : List Input :=
  [(ready 0, ready 0, .register), (ready 0, ready 0, .result 0 (.response (warm 7) 0)),
    (ready 2000, ready 2000, .expiry 1 2000), (ready 2001, ready 2001, .result 2 (.response (warm 8) 2001))]

set_option maxRecDepth 100000 in
/-- **A renewal may deliver the sequence number that was delivered before.** -/
theorem renewal_repeats :
    (delivered (run (init thermometer) renewal)).map
      (fun a => (a.report.metadata.observe, a.report.receivedAt)) = [(10, 0), (10, 2001)]
    ∧ ¬ (delivered (run (init thermometer) renewal)).IsChain fun a b => fresh a b = true := by
  decide +kernel

end Wotex.CoAP.Observation
