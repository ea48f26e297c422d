import Wotex.Routines.Call
import Wotex.Routines.Evolution

/-!
# Histories: sequences of accepted calls on one original

`History` is a finite sequence of accepted calls of the kernel on one original, each given the run
the one before returned, with any events, snapshots, times and other retained state. The step lemma
is `advance_continues`; what a whole history preserves follows by induction.

Results: `proposed_once` (no effect is proposed twice) and `proposals_bounded` (a history proposes no more
effects than the program has nodes). Out of scope: what a host does with a proposal.
-/

namespace Wotex.Routines

open StepRecord (Evolves)
open List Receipt Kernel Outcome Proposal ExecutionTree

variable {host : Host} {program : Program} {event : Event} {s : Snapshot} {t : Time} {prior : Prior}
  {p : Profile} {l : Limits} {x : Transition} {r : Run}

/-! ## One call -/

namespace Kernel

variable (h : advance host program event s t prior p l = .ok x)
include h

theorem advance_coherence (hr : x.run = some r) : r.Coherence host program l :=
  (checked_eq_ok.mp ((advance_eq_ok.mp h).2.2.1 r hr)).2.2

omit h in
theorem step_eq_ok {c : Call} : step c prior = .ok x ↔ correspondence c prior = .ok ()
    ∧ matchingTime prior c.time = .ok () ∧ ∃ e eligible, edge c prior = .ok (e, eligible)
      ∧ transition c prior eligible = .ok (x.run, x.proposals, x.outcome)
      ∧ x.edge = e ∧ x.basis = basis c prior := by
  simp only [step, bind_eq_ok, exists_unit, Prod.exists, ok.injEq]
  constructor
  · rintro ⟨hc, ht, e, b, he, r, ps, o, htr, rfl⟩
    exact ⟨hc, ht, e, b, he, htr, rfl, rfl⟩
  · rintro ⟨hc, ht, e, b, he, htr, rfl, hb⟩
    exact ⟨hc, ht, _, b, he, _, _, _, htr, by rw [← hb]⟩

/-- **A call on a retained run** continues it. -/
theorem advance_continues (hr : prior.original = some r) :
    ∃ r', x.run = some r' ∧ Continues program r r' x.proposals := by
  obtain ⟨ha, hs, -⟩ := advance_eq_ok.mp h
  obtain ⟨g⟩ := ha.regeneration
  obtain ⟨-, -, e, b, -, htr, -⟩ := step_eq_ok.mp hs
  simp only [transition, hr, bind_eq_ok, Prod.exists, ok.injEq, Prod.mk.injEq] at htr
  obtain ⟨r', ps, hc, hr', rfl, -⟩ := htr
  exact ⟨r', hr'.symm, continueRun_continues ((ha.original hr).pathValues_nodup g) hc⟩

/-- **A call without a retained run** begins one or proposes nothing. -/
theorem advance_begins (hr : prior.original = none) : (x.run = none ∧ x.proposals = [])
      ∨ ∃ r₀ r', x.run = some r' ∧ r₀.original = event.original
        ∧ Continues program r₀ r' x.proposals := by
  obtain ⟨ha, hs, -⟩ := advance_eq_ok.mp h
  obtain ⟨g⟩ := ha.regeneration
  obtain ⟨-, -, e, b, -, htr, -⟩ := step_eq_ok.mp hs
  simp only [transition, hr] at htr
  split at htr
  · cases htr
  iterate 2
    split at htr
    · simp only [ok.injEq, Prod.mk.injEq] at htr
      exact .inl ⟨htr.1.symm, htr.2.1.symm⟩
  simp only [bind_eq_ok, Prod.exists, ok.injEq, Prod.mk.injEq, beginRun] at htr
  obtain ⟨r', ps, ⟨_, -, hb⟩, hr', rfl, -⟩ := htr
  split at hb
  · cases hb
  · simp only [bind_eq_ok, exists_unit] at hb
    obtain ⟨-, steps, hst, hb⟩ := hb
    refine .inr ⟨_, r', hr'.symm, rfl, continueRun_continues ?_ hb⟩
    have hn := g.pathValues_nodup
    rwa [← map_eq_of_forall₂ (f := fun n : Node Num => n.path.map Num.value)
      (g := fun s : StepRecord => s.path.map Num.value) ?_ (recordsOf_eq_ok.mp hst)] at hn
    rintro n s ⟨id, -, rfl⟩
    rfl

theorem advance_original (hr : prior.original = some r) : r.original = event.original := by
  obtain ⟨hc, -⟩ := step_eq_ok.mp (advance_eq_ok.mp h).2.1
  simp only [correspondence, hr, bind_eq_ok, exists_unit, require_eq_ok, Option.all_some,
    decide_eq_true_eq] at hc
  exact hc.2.2.2.1

end Kernel

/-! ## Histories -/

/-- A sequence of accepted calls on one original, from a retained run to the run of the last call. -/
inductive History (host : Host) (program : Program) (original : Text) :
    Option Run → List Transition → Option Run → Prop
  | nil (r : Option Run) : History host program original r [] r
  | cons {event : Event} {s : Snapshot} {t : Time} {prior : Prior} {p : Profile} {l : Limits}
      {x : Transition} {xs : List Transition} {r : Option Run} (ho : event.original = original)
      (h : advance host program event s t prior p l = .ok x)
      (rest : History host program original x.run xs r) :
      History host program original prior.original (x :: xs) r

/-- A later state of a run: its records evolved and its spent list only gained entries. -/
structure Run.Evolves (r r' : Run) : Prop where
  steps : List.Forall₂ StepRecord.Evolves r.steps r'.steps
  spent : r.spent.Sublist r'.spent

theorem Run.Evolves.refl (r : Run) : r.Evolves r := ⟨forall₂_evolves_refl _, List.Sublist.refl _⟩

theorem Run.Evolves.trans {a b c : Run} (h : a.Evolves b) (h' : b.Evolves c) : a.Evolves c :=
  ⟨forall₂_evolves_trans h.steps h'.steps, h.spent.trans h'.spent⟩

/-- **One call** makes the run evolve. -/
theorem Kernel.advance_evolves (h : advance host program event s t prior p l = .ok x)
    (hr : prior.original = some r) : ∃ r', x.run = some r' ∧ r.Evolves r' := by
  obtain ⟨r', hr', hc⟩ := advance_continues h hr
  refine ⟨r', hr', hc.steps, ?_⟩
  rw [((advance_eq_ok.mp h).1.original hr).spent, (advance_coherence h hr').spent]
  exact spending_sublist hc.steps

namespace History

variable {original : Text} {o o' : Option Run} {xs : List Transition}

/-- **A whole history** makes the run evolve. -/
theorem evolves (h : History host program original o xs o') (hr : o = some r) :
    ∃ r', o' = some r' ∧ r.Evolves r' := by
  induction h generalizing r with
  | nil o => exact ⟨r, hr, .refl r⟩
  | cons _ h _ ih =>
    obtain ⟨r₁, hr₁, he⟩ := advance_evolves h hr
    obtain ⟨r', hr', he'⟩ := ih hr₁
    exact ⟨r', hr', he.trans he'⟩

end History

/-! ## Receipts -/

/-- The step an event with a receipt is about, the slot it fills and its receipt. -/
def Event.filing (host : Host) (e : Event) : Option (List Int × Slot × Receipt) :=
  let digest := digestText (host.sha256 (Json.encode host.float e.data))
  match e.kind with
  | .satisfied path ref _ _ => some (path, .satisfied, ⟨ref, digest, .matched⟩)
  | kind => (arrival kind).map fun a => (a.path, a.slot, ⟨a.ref, digest, a.outcome⟩)

/-- The event would change an occupied slot: its own slot holds another receipt, or it is a new result
for a step whose terminal slot is filled. -/
def Event.Conflicts (host : Host) (e : Event) (r : Run) : Prop :=
  ∃ path slot x s, e.filing host = some (path, slot, x) ∧ findStep r.steps path = some s ∧
    ((∃ y, s.receipts.get slot = some y ∧ y ≠ x)
      ∨ (∃ stage, slot = .stage stage) ∧ s.receipts.get slot = none ∧ s.receipts.terminal.isSome)

/-- The event's slot holds the event's own receipt. -/
def Event.Repeats (host : Host) (e : Event) (r : Run) : Prop :=
  ∃ path slot x s, e.filing host = some (path, slot, x) ∧ findStep r.steps path = some s ∧
    s.receipts.get slot = some x

theorem Event.filing_of_arrival {e : Event} {a : Arrival} (ha : arrival e.kind = some a) :
    e.filing host = some (a.path, a.slot,
      ⟨a.ref, digestText (host.sha256 (Json.encode host.float e.data)), a.outcome⟩) := by
  unfold filing
  cases hk : e.kind <;> simp_all [arrival]

/-- An event that files a receipt has an arrival or is a satisfaction. -/
theorem Event.filing_cases {e : Event} {path : List Int} {slot : Slot} {x : Receipt}
    (h : e.filing host = some (path, slot, x)) :
    (∃ a, arrival e.kind = some a ∧ path = a.path ∧ slot = a.slot ∧ x = ⟨a.ref,
        digestText (host.sha256 (Json.encode host.float e.data)), a.outcome⟩)
      ∨ ∃ ref factId contract, e.kind = .satisfied path ref factId contract ∧ slot = .satisfied
        ∧ x = ⟨ref, digestText (host.sha256 (Json.encode host.float e.data)), .matched⟩ := by
  cases ha : arrival e.kind with
  | some a =>
    rw [filing_of_arrival ha] at h
    simp only [Option.some.injEq, Prod.mk.injEq] at h
    exact .inl ⟨a, rfl, h.1.symm, h.2.1.symm, h.2.2.symm⟩
  | none =>
    right
    unfold filing at h
    split at h
    · rename_i q ref factId contract hk
      obtain ⟨rfl, ⟨⟩⟩ := h
      exact ⟨ref, factId, contract, hk, rfl, rfl⟩
    · simp [ha] at h

theorem hash_ne_raise (host : Host) (v : Json.Value) (l : Limits) : hash host v l ≠ .raise := by
  unfold hash
  split <;> simp [refusal]

namespace Receipt

theorem update_refuses {s : StepRecord} {node : Option (EffectNode Num)} {kind : EventKind}
    {a : Arrival} {x : Receipt} (ha : arrival kind = some a)
    (h : (∃ y, s.receipts.get a.slot = some y ∧ y ≠ x)
      ∨ (∃ stage, a.slot = .stage stage) ∧ s.receipts.get a.slot = none ∧ s.receipts.terminal.isSome) :
    (update s node kind a.slot x).Refuses := by
  rcases h with ⟨y, hy, hne⟩ | ⟨⟨stage, hst⟩, hnone, hterm⟩
  · rw [update, hy]
    exact ⟨_, if_neg hne⟩
  · rw [update, hnone]
    dsimp only
    unfold fresh
    split
    · simp only [arrival, Option.some.injEq] at ha
      simp [← ha] at hst
    · simp only [arrival, Option.some.injEq] at ha
      simp [← ha] at hst
    · exact ⟨_, rfl⟩
    · refine Refuses.bind (require_refuses ?_) _
      simp [Option.isNone_eq_false_iff.mpr hterm]
    · exact ⟨_, rfl⟩

/-- An event with a receipt that does not fit its step is refused. -/
theorem apply_refuses {a : Arrival} {s : StepRecord} (ha : arrival event.kind = some a)
    (hs : findStep r.steps a.path = some s)
    (h : ∀ x : Receipt, hash host event.data l = .ok x.digest → x.ref = a.ref → x.outcome = a.outcome →
      (update s (findEffect program a.path) event.kind a.slot x).Refuses) :
    (apply host r event program l).Refuses := by
  simp only [apply, ha, hs]
  split
  · refine bind_refuses (hash_ne_raise _ _ _) fun d hd => ?_
    exact (h ⟨a.ref, d, a.outcome⟩ hd rfl rfl).bind _
  · exact ⟨_, rfl⟩

end Receipt

namespace Kernel

variable {c : Call}

theorem correspondence_ne_raise : correspondence c prior ≠ .raise := by
  exact bind_ne_raise require_ne_raise fun _ _ =>
    bind_ne_raise require_ne_raise fun _ _ =>
    bind_ne_raise require_ne_raise fun _ _ =>
    bind_ne_raise require_ne_raise fun _ _ => require_ne_raise

theorem continueRun_refuses (h : c.event.Conflicts c.host r) : (continueRun c r).Refuses := by
  obtain ⟨path, slot, x, s, hf, hs, hc⟩ := h
  rcases Event.filing_cases hf with ⟨a, ha, rfl, rfl, rfl⟩ | ⟨ref, factId, contract, hk, rfl, rfl⟩
  · have happ : (apply c.host r c.event c.program c.limits).Refuses := by
      refine apply_refuses ha hs fun x hx hr ho => update_refuses ha ?_
      rcases x with ⟨ref, d, o⟩
      obtain ⟨-, rfl⟩ := hash_eq_ok.mp hx
      obtain rfl : ref = a.ref := hr
      obtain rfl : o = a.outcome := ho
      exact hc
    -- an event with an arrival passes the trigger and meets the receipt first
    have hl : (continueLive c r).Refuses := by
      have ht : repeatTrigger r c.program c.event = .ok () := by
        unfold repeatTrigger
        cases hk : c.event.kind <;> simp_all [arrival]
      simp only [continueLive, ht]
      exact happ.bind _
    unfold continueRun
    cases hk : c.event.kind <;> simp_all [arrival]
  · simp only [continueRun, hk, Satisfaction.classify, hs]
    refine Refuses.bind (bind_refuses ?_ fun x hx => ?_) _
    · exact bind_ne_raise (hash_ne_raise _ _ _) fun _ _ => by simp
    · obtain ⟨d, hd, ⟨⟩⟩ := bind_eq_ok.mp hx
      obtain ⟨-, rfl⟩ := hash_eq_ok.mp hd
      rcases hc with ⟨y, hy, hne⟩ | ⟨⟨stage, hst⟩, -⟩
      · rw [show s.receipts.satisfied = some y from hy]
        exact ⟨_, if_neg hne⟩
      · cases hst

/-- The kernel's step on a retained run is the continuation, unless an earlier check refuses. -/
theorem step_refuses (hr : prior.original = some r) (hk : ∀ binding f, c.event.kind ≠ .fact binding f)
    (h : (continueRun c r).Refuses) : (step c prior).Refuses := by
  have he : edge c prior = .ok (prior.edge, true) := by
    unfold edge
    split
    · rename_i b f hf
      exact absurd hf (hk b f)
    · rfl
  refine bind_refuses correspondence_ne_raise fun _ _ => ?_
  refine bind_refuses require_ne_raise fun _ _ => ?_
  simp only [he, transition, hr]
  exact (h.bind _).bind _

/-- **A conflicting event is refused.** -/
theorem advance_refuses (hi : inputs host program event s t prior p l = .ok c)
    (hr : prior.original = some r) (h : event.Conflicts host r) :
    (advance host program event s t prior p l).Refuses := by
  obtain ⟨rfl, ha⟩ := inputs_eq_ok.mp hi
  have hk : ∀ binding f, event.kind ≠ .fact binding f := by
    rintro binding f hk
    obtain ⟨path, slot, x, s, hf, -⟩ := h
    simp [Event.filing, hk, arrival] at hf
  simp only [advance, hi]
  exact (step_refuses hr hk (continueRun_refuses h)).bind _

theorem continueRun_repeats {r' : Run} {xs : List Proposal}
    (hn : (r.steps.map fun s => s.path.map Num.value).Nodup) (h : c.event.Repeats c.host r)
    (hc : continueRun c r = .ok (r', xs)) : List.Forall₂ StepRecord.Walked r.steps r'.steps := by
  obtain ⟨path, slot, x, s, hf, hs, hx⟩ := h
  have live : continueLive c r = .ok (r', xs) →
      (∀ r₁, apply c.host r c.event c.program c.limits = .ok r₁ → r₁.steps = r.steps) →
      List.Forall₂ StepRecord.Walked r.steps r'.steps := by
    intro hl hsame
    obtain ⟨r₁, ha, hw, -⟩ := continueLive_emits hn hl
    exact hsame r₁ ha ▸ hw
  rcases Event.filing_cases hf with ⟨a, ha, rfl, rfl, rfl⟩ | ⟨ref, factId, contract, hk, rfl, rfl⟩
  · refine live ?_ fun r₁ h₁ => ?_
    · unfold continueRun at hc
      cases hk : c.event.kind <;> simp_all [arrival]
    · obtain ⟨s', d, changed, hs', -, hd, hu, rfl⟩ := (apply_eq_ok ha).mp h₁
      obtain rfl := Option.some.inj (hs.symm.trans hs')
      obtain ⟨-, rfl⟩ := hash_eq_ok.mp hd
      rw [update, hx] at hu
      simp only [if_true, ok.injEq] at hu
      subst hu
      exact replaceStep_self hn hs
  · simp only [continueRun, hk, bind_eq_ok] at hc
    obtain ⟨f, hf, hc⟩ := hc
    cases f with
    | duplicate =>
      dsimp only at hc
      split at hc
      · cases hc
        exact forall₂_same.mpr fun s _ => .refl s
      · refine live hc fun r₁ h₁ => ?_
        simp only [apply, hk, arrival, ok.injEq] at h₁
        rw [← h₁]
    | fresh =>
      have := Satisfaction.classify_fresh hf s hs
      simp [Receipts.get, this] at hx

/-- **A repeated event changes no receipt.** -/
theorem advance_repeats (h : advance host program event s t prior p l = .ok x)
    (hr : prior.original = some r) (hrep : event.Repeats host r) :
    ∃ r', x.run = some r' ∧ r'.steps.map StepRecord.receipts = r.steps.map StepRecord.receipts := by
  obtain ⟨ha, hs, -⟩ := advance_eq_ok.mp h
  obtain ⟨g⟩ := ha.regeneration
  obtain ⟨-, -, e, b, -, htr, -⟩ := step_eq_ok.mp hs
  simp only [transition, hr, bind_eq_ok, Prod.exists, ok.injEq, Prod.mk.injEq] at htr
  obtain ⟨r', ps, hc, hr', -⟩ := htr
  exact ⟨r', hr'.symm, map_eq_of_forall₂ (fun _ _ hx => hx.filed)
    (continueRun_repeats ((ha.original hr).pathValues_nodup g) hrep hc)⟩

end Kernel

namespace History

variable {original : Text}

/-- **Receipts are written once and spending only grows.** Over every history the run evolves: filled
slots, starts and branches stay and the spent list only gains entries. A conflicting event is
refused, and a repeated event changes no receipt. -/
theorem receipts_written_once :
    (∀ (r : Run) (xs : List Transition) (o : Option Run),
      History host program original (some r) xs o → ∃ r', o = some r' ∧ r.Evolves r')
    ∧ ∀ (event : Event) (s : Snapshot) (t : Time) (prior : Prior) (p : Profile) (l : Limits) (r : Run),
      prior.original = some r →
      (∀ c, Kernel.inputs host program event s t prior p l = .ok c → event.Conflicts host r →
        (Kernel.advance host program event s t prior p l).Refuses)
      ∧ ∀ x, Kernel.advance host program event s t prior p l = .ok x → event.Repeats host r →
        ∃ r', x.run = some r'
          ∧ r'.steps.map StepRecord.receipts = r.steps.map StepRecord.receipts :=
  ⟨fun _ _ _ h => h.evolves rfl, fun _ _ _ _ _ _ _ hr =>
    ⟨fun _ hi hc => Kernel.advance_refuses hi hr hc, fun _ h hrep => Kernel.advance_repeats h hr hrep⟩⟩

end History

/-- The admission of the lamp's first effect. -/
def lampHeld : EventKind := .admission [0] "a" true

/-- The first effect with its admission. -/
def lampReserved : StepRecord :=
  { lampEffect with
    status := .reserved
    receipts := { admission := some (lampReceipt "a" lampHeld .held) } }

/-- The run before the admission. -/
def lampStarted : Run := lampRun 0 lampEffect lampDelay lampSecond

/-- The run after the admission. -/
def lampAdmitted : Run := lampRun 1 lampReserved lampDelay lampSecond

set_option maxRecDepth 100000 in
/-- The admission at 3, with the second effect proposed; the admission again; another admission. -/
theorem lamp_calls :
    (advanceChecked (lampCall lampProgram lampHeld 3) ⟨some lampStarted, none, none⟩).toOption.map
        (fun x => (x.run.map Run.steps, x.proposals.map path)) =
      some (some (lampRun 3 lampReserved { lampDelay with status := .completed }
        (lampStep [.int 1, .int 1] .effect .proposed (some 3) (some (.int 503)))).steps,
        [[.int 1, .int 1]])
    ∧ (advanceChecked (lampCall lampProgram lampHeld 1)
        ⟨some lampAdmitted, none, none⟩).toOption.isSome = true
    ∧ inputsChecked (lampCall lampProgram (.admission [0] "b" true) 1)
        ⟨some lampAdmitted, none, none⟩ = .ok () := by
  decide +kernel

theorem lamp_admits : ∃ x, lampAdvance lampProgram lampHeld 3 lampStarted = .ok x
    ∧ x.proposals.map path = [[.int 1, .int 1]] := by
  obtain ⟨x, hx, hp⟩ := Option.map_eq_some_iff.mp lamp_calls.1
  rw [toOption_eq_some, ← lampAdvance_eq lamp_accepted] at hx
  exact ⟨x, hx, (Prod.mk.inj hp).2⟩

/-- The first effect's admission is filed, repeated and contradicted. -/
theorem lamp_written_once :
    (∃ xs o r', xs ≠ [] ∧ History lampHost lampProgram "o" (some lampStarted) xs o ∧ o = some r'
      ∧ lampStarted.Evolves r')
    ∧ (∃ x r', lampAdvance lampProgram lampHeld 1 lampAdmitted = .ok x ∧ x.run = some r'
      ∧ r'.steps.map StepRecord.receipts = lampAdmitted.steps.map StepRecord.receipts)
    ∧ (lampAdvance lampProgram (.admission [0] "b" true) 1 lampAdmitted).Refuses := by
  obtain ⟨once, calls⟩ := @History.receipts_written_once lampHost lampProgram "o"
  refine ⟨?_, ?_, ?_⟩
  · obtain ⟨x, hx, -⟩ := lamp_admits
    have h : History lampHost lampProgram "o" (some lampStarted) [x] x.run := .cons rfl hx (.nil _)
    obtain ⟨r', hr', he⟩ := once _ _ _ h
    exact ⟨[x], x.run, r', by simp, h, hr', he⟩
  · obtain ⟨x, hx⟩ := Option.isSome_iff_exists.mp lamp_calls.2.1
    rw [Outcome.toOption_eq_some, ← lampAdvance_eq lamp_accepted] at hx
    obtain ⟨r', hr'⟩ := (calls _ _ _ _ _ _ lampAdmitted rfl).2 x hx
      ⟨[0], .admission, lampReceipt "a" lampHeld .held, lampReserved, rfl, rfl, rfl⟩
    exact ⟨x, r', hx, hr'⟩
  · refine (calls _ _ _ _ _ _ lampAdmitted rfl).1 (lampCall lampProgram (.admission [0] "b" true) 1)
      (Kernel.inputs_eq_ok.mpr ⟨rfl, lamp_accepted, lamp_calls.2.2⟩) ?_
    exact ⟨[0], .admission, lampReceipt "b" (.admission [0] "b" true) .held, lampReserved, rfl, rfl,
      .inl ⟨lampReceipt "a" lampHeld .held, rfl, fun h => absurd (congrArg Receipt.ref h) (by decide)⟩⟩

/-! ## Proposals -/

variable {k : Limits}

/-- Proposals at places of the tree, in its order, have different paths. -/
theorem paths_nodup_of_places {xs : List Proposal} (g : Regeneration host program p l)
    (h : (xs.map place).Sublist (program.places program.ir.steps.nodes)) :
    (xs.map path).Nodup := by
  have hsub := h.map Prod.snd
  rw [Program.places, map_map, map_map] at hsub
  exact g.paths_nodup.sublist hsub

/-- Every proposal is of a record of the run. -/
def Run.Owns (r : Run) (ps : List Proposal) : Prop :=
  ∀ x ∈ ps, ∃ s ∈ r.steps, s.path = x.path ∧ s.original = x.stepOriginal

theorem Run.owns_of {Q : StepRecord → Prop} {ps : List Proposal}
    (h : ∀ x ∈ ps, ∃ s ∈ r.steps, s.path = x.path ∧ s.original = x.stepOriginal ∧ Q s) : r.Owns ps := by
  intro x hx
  obtain ⟨s, hs, hp, ho, -⟩ := h x hx
  exact ⟨s, hs, hp, ho⟩

section

variable (h : r.Coherence host program k) (g : Regeneration host program p l)
  (hf : Json.FloatText host.float)
  (hs : ∀ a ∈ program.ir.steps.nodes, ∀ b ∈ program.ir.steps.nodes, host.Separates
    (identityData program r.original a.path)
    (identityData program r.original b.path))
include h g hf hs

/-- Different records of an accepted run have different identities, unless SHA-256 collides. -/
theorem Run.Coherence.eq_of_original {s s' : StepRecord} (hm : s ∈ r.steps) (hm' : s' ∈ r.steps)
    (he : s.original = s'.original) : s = s' := by
  obtain ⟨n, hn, id, hid, hc⟩ := forall₂_exists_right h.steps hm
  obtain ⟨n', hn', id', hid', hc'⟩ := forall₂_exists_right h.steps hm'
  simp only [Run.checkRecord, bind_eq_ok, exists_unit, require_eq_ok,
    Bool.and_eq_true, decide_eq_true_eq] at hc hc'
  have ho : id = id' := (hc.1.1.2.symm.trans he).trans hc'.1.1.2
  have hd := eq_of_hash hf (hs n hn n' hn') hid (ho ▸ hid')
  have hp : n.path = n'.path := by
    simp only [identityData, Json.Value.obj.injEq, cons.injEq, Prod.mk.injEq, true_and, and_true] at hd
    simpa using pathData_eq Json.Agreement.identical hd
  refine inj_on_of_nodup_map (h.pathValues_nodup g) hm hm' ?_
  rw [pathSame_iff.mp hc.1.1.1, pathSame_iff.mp hc'.1.1.1]
  exact congrArg (map Num.value) hp

/-- Proposals of different records of one accepted run have different identities. -/
theorem Run.Coherence.originals_nodup {ps : List Proposal} (hn : (ps.map path).Nodup)
    (hown : r.Owns ps) : (ps.map stepOriginal).Nodup := by
  refine List.Nodup.map_on (fun x hx y hy he => ?_) (List.Nodup.of_map _ hn)
  obtain ⟨s, hm, hsp, hso⟩ := hown x hx
  obtain ⟨s', hm', hsp', hso'⟩ := hown y hy
  have hss := h.eq_of_original g hf hs hm hm' (by rw [hso, hso', he])
  exact inj_on_of_nodup_map hn hx hy (by rw [← hsp, ← hsp', hss])

end

namespace History

variable {original : Text} {o o' : Option Run} {xs : List Transition}

/-- The proposals of a history. -/
def proposals (xs : List Transition) : List Proposal := xs.flatMap Transition.proposals

/-- The proposals of a call and of what follows it: the first are of records that are sent now, the
others of records that are still unsent. -/
theorem nodup_append {r₁ : Run} {xs ys : List Proposal} (hc : r₁.Coherence host program k)
    (g : Regeneration host program p l) (he : Emits program r r₁ xs)
    (hys : (ys.map path).Nodup)
    (hu : ∀ y ∈ ys, ∃ s ∈ r₁.steps, s.path = y.path ∧ s.original = y.stepOriginal
      ∧ s.status = .unsent) : ((xs ++ ys).map path).Nodup := by
  rw [map_append]
  refine List.Nodup.append (paths_nodup_of_places g he.ordered) hys ?_
  intro q hq hq'
  obtain ⟨x, hx, rfl⟩ := mem_map.mp hq
  obtain ⟨y, hy, hyx⟩ := mem_map.mp hq'
  obtain ⟨s, hs, hsp, -, hne⟩ := he.sent x hx
  obtain ⟨s', hs', hsp', -, hun⟩ := hu y hy
  have : s = s' := inj_on_of_nodup_map (hc.paths_nodup g) hs hs' (by rw [hsp, hsp', hyx])
  exact hne (this ▸ hun)

/-- From a retained run, only records that are still unsent are proposed, each once. -/
theorem proposals_unsent (h : History host program original o xs o') (hr : o = some r) :
    ((proposals xs).map path).Nodup
      ∧ ∀ x ∈ proposals xs, ∃ s ∈ r.steps, s.path = x.path ∧ s.original = x.stepOriginal
        ∧ s.status = .unsent := by
  induction h generalizing r with
  | nil o => exact ⟨nodup_nil, by simp [proposals]⟩
  | cons _ h _ ih =>
    obtain ⟨r₁, hr₁, hc⟩ := advance_continues h hr
    obtain ⟨hn, hu⟩ := ih hr₁
    obtain ⟨g⟩ := (advance_eq_ok.mp h).1.regeneration
    refine ⟨nodup_append (advance_coherence h hr₁) g hc.emits hn hu,
      forall_mem_append.mpr ⟨hc.emits.unsent, fun y hy => ?_⟩⟩
    obtain ⟨s, hs, hsp, hso, hsu⟩ := hu y hy
    obtain ⟨s₀, hs₀, he⟩ := forall₂_exists_left hc.steps hs
    exact ⟨s₀, hs₀, he.path.symm.trans hsp, he.original.symm.trans hso, he.sent hsu⟩

/-- The proposals of a history have different paths and, if there are any, belong to one accepted
run. -/
theorem proposals_owned (h : History host program original o xs o') :
    ((proposals xs).map path).Nodup
      ∧ (proposals xs = [] ∨ ∃ (r : Run) (l k : Limits) (profile : Profile),
          r.Coherence host program l ∧ Nonempty (Regeneration host program profile k)
          ∧ r.original = original ∧ r.Owns (proposals xs)) := by
  induction h with
  | nil o => exact ⟨nodup_nil, .inl rfl⟩
  | @cons event s t prior p l x xs o' ho h rest ih =>
    have ha := (advance_eq_ok.mp h).1
    obtain ⟨g⟩ := ha.regeneration
    cases hr : prior.original with
    | some r =>
      obtain ⟨hn, hu⟩ := proposals_unsent (.cons ho h rest) hr
      exact ⟨hn, .inr ⟨r, l, l, p, ha.original hr, ⟨g⟩, (advance_original h hr).trans ho, Run.owns_of hu⟩⟩
    | none =>
      rcases advance_begins h hr with ⟨hx, hp⟩ | ⟨r₀, r₁, hr₁, hor, hc⟩
      · rw [proposals, flatMap_cons, hp]
        exact ih
      · obtain ⟨hn, hu⟩ := proposals_unsent rest hr₁
        have hcoh := advance_coherence h hr₁
        exact ⟨nodup_append hcoh g hc.emits hn hu,
          .inr ⟨r₁, l, l, p, hcoh, ⟨g⟩, hc.emits.original.trans (hor.trans ho),
            forall_mem_append.mpr ⟨Run.owns_of hc.emits.sent, Run.owns_of hu⟩⟩⟩

/-- **No effect is proposed twice.** Over a history the proposals have different paths, and different
step identities unless SHA-256 collides on the identities of the program's nodes; a call on a stopped
run proposes nothing. -/
theorem proposed_once :
    (∀ (o o' : Option Run) (xs : List Transition), History host program original o xs o' →
      ((proposals xs).map Proposal.path).Nodup
      ∧ (Json.FloatText host.float →
        (∀ a ∈ program.ir.steps.nodes, ∀ b ∈ program.ir.steps.nodes, host.Separates
          (ExecutionTree.identityData program original a.path)
          (ExecutionTree.identityData program original b.path)) →
        ((proposals xs).map Proposal.stepOriginal).Nodup))
    ∧ ∀ (event : Event) (s : Snapshot) (t : Time) (prior : Prior) (p : Profile) (l : Limits)
      (x : Transition) (r : Run), Kernel.advance host program event s t prior p l = .ok x →
      prior.original = some r → r.status.stopped = true → x.proposals = [] := by
  refine ⟨fun o o' xs h => ?_, fun event s t prior p l x r h hr hst => ?_⟩
  · obtain ⟨hn, hown⟩ := h.proposals_owned
    refine ⟨hn, fun hf hs => ?_⟩
    rcases hown with he | ⟨r, l, k, profile, hc, ⟨g⟩, rfl, hown⟩
    · simp [he]
    · exact hc.originals_nodup g hf hs hn hown
  · obtain ⟨r', -, hc⟩ := Kernel.advance_continues h hr
    exact hc.emits.stopped hst

/-- **However long a history is**, it proposes no more effects than the program has nodes. -/
theorem proposals_bounded (h : History host program original o xs o') :
    (proposals xs).length ≤ program.ir.steps.nodes.length := by
  obtain ⟨hn, he | ⟨r, _, _, _, hc, -, -, hown⟩⟩ := h.proposals_owned
  · simp [he]
  · have hsub : (proposals xs).map Proposal.path ⊆ r.steps.map StepRecord.path := by
      refine forall_mem_map.mpr fun x hx => ?_
      obtain ⟨s, hs, hp, -⟩ := hown x hx
      exact hp ▸ mem_map_of_mem hs
    have hle := (hn.subperm hsub).length_le
    rwa [length_map, length_map, hc.steps.length_eq] at hle

end History

set_option maxRecDepth 100000 in
theorem lamp_separates : ∀ a ∈ lampProgram.ir.steps.nodes, ∀ b ∈ lampProgram.ir.steps.nodes,
    lampHost.Separates (identityData lampProgram "o" a.path)
      (identityData lampProgram "o" b.path) := by
  unfold Host.Separates
  decide +kernel

/-- The run with nothing started. -/
def lampFresh : Run :=
  { lampStarted with
    steps := lampStarted.steps.map fun s =>
      { s with status := .unsent, startedMs := none, deadlineMs := none } }

/-- The results of calls one after the other. -/
def lampHistory (o : Option Run) : List (EventKind × Int) → Checked (List Transition)
  | [] => .ok []
  | (kind, ms) :: rest => do
    let x ← advanceChecked (lampCall lampProgram kind ms) ⟨o, none, none⟩
    let xs ← lampHistory x.run rest
    .ok (x :: xs)

theorem lampHistory_cons {o : Option Run} {kind : EventKind} {ms : Int}
    {rest : List (EventKind × Int)} {x : Transition} {xs : List Transition}
    (h : lampHistory o ((kind, ms) :: rest) = .ok (x :: xs)) :
    Kernel.advance lampHost lampProgram (lampEvent kind) lampSnapshot (lampTime ms) ⟨o, none, none⟩
      lampProfile lampLimits = .ok x ∧ lampHistory x.run rest = .ok xs := by
  simp only [lampHistory, bind_eq_ok] at h
  obtain ⟨x, hx, xs, hxs, rfl, rfl⟩ := h
  exact ⟨(Kernel.advance_eq lamp_accepted).trans hx, hxs⟩

set_option maxRecDepth 100000 in
/-- Both effects are proposed, the run is cancelled and called once more. -/
theorem lampHistory_eq :
    (lampHistory (some lampFresh) [(.resume, 1), (.resume, 5), (.cancel, 6), (.resume, 7)]).toOption.map
      (map fun x => (x.proposals.length, x.run.map fun r => r.status.stopped)) =
    some [(1, some false), (1, some false), (0, some true), (0, some true)] := by
  decide +kernel

theorem lamp_proposed_once : ∃ x₁ x₂ x₃ x₄ o,
    History lampHost lampProgram "o" (some lampFresh) [x₁, x₂, x₃, x₄] o
    ∧ x₁.proposals ≠ [] ∧ x₂.proposals ≠ []
    ∧ ((History.proposals [x₁, x₂, x₃, x₄]).map Proposal.stepOriginal).Nodup
    ∧ (∃ r, x₃.run = some r ∧ r.status.stopped = true) ∧ x₄.proposals = [] := by
  obtain ⟨xs, hxs, he⟩ := Option.map_eq_some_iff.mp lampHistory_eq
  rw [toOption_eq_some] at hxs
  rcases xs with _ | ⟨x₁, _ | ⟨x₂, _ | ⟨x₃, _ | ⟨x₄, _ | ⟨x₅, xs⟩⟩⟩⟩⟩ <;> simp at he
  obtain ⟨⟨h₁, -⟩, ⟨h₂, -⟩, ⟨-, r, hr, hstopped⟩, -⟩ := he
  obtain ⟨hx₁, hxs⟩ := lampHistory_cons hxs
  obtain ⟨hx₂, hxs⟩ := lampHistory_cons hxs
  obtain ⟨hx₃, hxs⟩ := lampHistory_cons hxs
  obtain ⟨hx₄, -⟩ := lampHistory_cons hxs
  have h : History lampHost lampProgram "o" (some lampFresh) [x₁, x₂, x₃, x₄] x₄.run :=
    .cons rfl hx₁ (.cons rfl hx₂ (.cons rfl hx₃ (.cons rfl hx₄ (.nil _))))
  obtain ⟨once, stopped⟩ := @History.proposed_once lampHost lampProgram "o"
  refine ⟨x₁, x₂, x₃, x₄, _, h, ?_, ?_, (once _ _ _ h).2 Json.binaryFloat_floatText lamp_separates,
    ⟨r, hr, hstopped⟩, stopped _ _ _ _ _ _ _ r hx₄ hr hstopped⟩
  · exact length_pos_iff.mp (by omega)
  · exact length_pos_iff.mp (by omega)

theorem lamp_proposals_bounded : ∃ xs o, History lampHost lampProgram "o" (some lampStarted) xs o ∧
    History.proposals xs ≠ [] ∧ (History.proposals xs).length ≤ 5 := by
  obtain ⟨x, hx, hp⟩ := lamp_admits
  have h : History lampHost lampProgram "o" (some lampStarted) [x] x.run := .cons rfl hx (.nil _)
  refine ⟨[x], x.run, h, ?_, h.proposals_bounded⟩
  intro he
  simp only [History.proposals, flatMap_cons, flatMap_nil, append_nil] at he
  simp [he] at hp

end Wotex.Routines
