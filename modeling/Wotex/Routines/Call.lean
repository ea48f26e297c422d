import Wotex.Routines.Retained
import Wotex.Routines.Kernel

/-!
# One call of the kernel

`Kernel.Accepted` says what the checked inputs of a call are, `advance_eq_ok` what an accepted call
is. The same program is checked again inside the snapshot, the retained runs and the retained edge;
`advance_eq` states the call with that check made once.
-/

namespace Wotex.Routines

open Wotex.Json (Value)

variable {host : Host} {program : Program} {event : Event} {s : Snapshot} {t : Time} {prior : Prior}
  {p : Profile} {l : Limits}

/-! ## Inputs -/

theorem Event.new_ok {e e' : Event} (h : e.new host l = .ok e') : e' = e := by
  simp only [new, bind_eq_ok] at h
  obtain ⟨-, -, -, -, -, -, -, -, ⟨⟩⟩ := h
  rfl

theorem Time.new_ok {t t' : Time} (h : t.new host l = .ok t') :
    t' = t ∧ bounded host t.data l = .ok () ∧ 0 ≤ t.elapsedMs
      ∧ t.elapsedMs.natAbs ≤ l.maxInteger.toNat := by
  simp only [new, bind_eq_ok, exists_unit] at h
  obtain ⟨l', hl, -, -, he, h⟩ := h
  obtain ⟨rfl, -, hb⟩ := admitData_ok hl
  obtain ⟨hm, h0⟩ := integer_eq_ok.mp he
  have ht : t' = t := by
    split at h <;> simp only [bind_eq_ok, exists_unit, Outcome.ok.injEq] at h
    · exact h.2.2.symm
    · exact h.2.2.2.2.symm
  exact ⟨ht, hb, h0 0 rfl, hm⟩

theorem Snapshot.checked_ok {s s' : Snapshot} (h : s.checked host program p l = .ok s') : s' = s := by
  simp only [checked, bind_eq_ok, exists_unit] at h
  obtain ⟨-, -, -, -, -, -, -, -, -, -, -, -, ⟨⟩⟩ := h
  rfl

/-! ## The program is checked once -/

/-- A retained run behind the program. -/
def Run.checked (host : Host) (r : Run) (program : Program) (l : Limits) : Checked Unit := do
  let l ← admitData host r.data l
  r.coherent host program l

/-- The checks of `ExecutionPrior.new/4` behind the program. -/
def Prior.checked (host : Host) (prior : Prior) (program : Program) (l : Limits) : Checked Unit := do
  let _ ← admitData host prior.data l
  prior.original.elim (.ok ()) fun r => r.checked host program l
  prior.busy.elim (.ok ()) fun r => r.checked host program l
  prior.edge.elim (.ok ()) fun e => do
    let _ ← e.checked host program l
    .ok ()
  check (Prior.coherent prior.original prior.busy) .conflictingRetainedOriginal

/-- The checks of `Kernel.inputs` behind the program. -/
def Kernel.inputsChecked (c : Kernel.Call) (prior : Prior) : Checked Unit := do
  let _ ← c.event.new c.host c.limits
  let _ ← c.snapshot.checked c.host c.program c.profile c.limits
  let _ ← c.time.new c.host c.limits
  prior.checked c.host c.program c.limits

/-- `Kernel.advance/7` behind the program. -/
def Kernel.advanceChecked (c : Kernel.Call) (prior : Prior) : Checked Transition := do
  Kernel.inputsChecked c prior
  let result ← Kernel.step c prior
  result.run.elim (.ok ()) fun r => r.checked c.host c.program c.limits
  bounded c.host result.data c.limits
  .ok result

section Once

variable (h : Compiler.toMap host program p l = .ok program)
include h

theorem Prior.retained_eq (r : Option Run) :
    Prior.retained host r program p l = r.elim (.ok ()) fun r => r.checked host program l := by
  cases r with
  | none => rfl
  | some r => simp [retained, Run.new, h, Outcome.bind_assoc, Run.checked]

theorem Prior.new_eq :
    prior.new host program p l = prior.checked host program l >>= fun _ => .ok prior := by
  have he : (Edge.retained host prior.edge program p l >>= fun _ => (.ok () : Checked Unit)) =
      prior.edge.elim (.ok ()) fun e => e.checked host program l >>= fun _ => .ok () := by
    cases prior.edge with
    | none => rfl
    | some e => simp [Edge.retained, Edge.new, h, Outcome.bind_assoc]
  have hb : ∀ f : Unit → Checked Prior, (Edge.retained host prior.edge program p l >>= fun _ => f ())
      = (Edge.retained host prior.edge program p l >>= fun _ => (.ok () : Checked Unit)) >>= f := by
    intro f
    simp [Outcome.bind_assoc]
  simp only [new, Prior.retained_eq h, checked, Outcome.bind_assoc]
  rw [hb fun _ => check (coherent prior.original prior.busy) .conflictingRetainedOriginal >>=
    fun _ => .ok prior, he]

/-- **The inputs, with the program checked once.** -/
theorem Kernel.inputs_eq : inputs host program event s t prior p l =
    inputsChecked ⟨host, program, event, s, t, p, l⟩ prior >>=
      fun _ => .ok ⟨host, program, event, s, t, p, l⟩ := by
  obtain ⟨-, r, -⟩ := Compiler.toMap_ok h
  simp only [inputs, inputsChecked, Snapshot.new, r.profileNew, r.limitsNew, h, Prior.new_eq h,
    ok_bind, Outcome.bind_assoc]
  cases he : event.new host l with
  | refuse e => rfl
  | raise => rfl
  | ok e =>
    obtain rfl := Event.new_ok he
    cases hs : s.checked host program p l with
    | refuse e => rfl
    | raise => rfl
    | ok s' =>
      obtain rfl := Snapshot.checked_ok hs
      cases ht : t.new host l with
      | refuse e => rfl
      | raise => rfl
      | ok t' =>
        obtain ⟨rfl, -⟩ := Time.new_ok ht
        rfl

/-- **The call, with the program checked once.** -/
theorem Kernel.advance_eq : advance host program event s t prior p l =
    advanceChecked ⟨host, program, event, s, t, p, l⟩ prior := by
  simp [advance, inputs_eq h, advanceChecked, Outcome.bind_assoc, checkedRun, Prior.retained_eq h]

end Once

namespace Kernel

/-- The checked inputs of a call. -/
structure Accepted (c : Call) (prior : Prior) : Prop where
  program : Compiler.toMap c.host c.program c.profile c.limits = .ok c.program
  checks : inputsChecked c prior = .ok ()

theorem inputs_eq_ok {c : Call} : inputs host program event s t prior p l = .ok c ↔
    c = ⟨host, program, event, s, t, p, l⟩ ∧ Accepted c prior := by
  constructor
  · intro h
    have hq : Compiler.toMap host program p l = .ok program := by
      simp only [inputs, bind_eq_ok] at h
      obtain ⟨p', hp, l', hl, q, hq, -⟩ := h
      obtain rfl := Profile.new_ok hp
      obtain rfl := Limits.new_ok hl
      obtain ⟨rfl, -⟩ := Compiler.toMap_ok hq
      exact hq
    simp only [inputs_eq hq, bind_eq_ok, exists_unit] at h
    obtain ⟨hc, ⟨⟩⟩ := h
    exact ⟨rfl, hq, hc⟩
  · rintro ⟨rfl, hq, hc⟩
    simp [inputs_eq hq, hc]

theorem toMap_of_advance {x : Transition} (h : advance host program event s t prior p l = .ok x) :
    Compiler.toMap host program p l = .ok program := by
  simp only [advance, bind_eq_ok, inputs_eq_ok] at h
  obtain ⟨c, ⟨rfl, hc⟩, -⟩ := h
  exact hc.program

/-- **An accepted call**: the inputs are accepted, the step gives the result, its run is accepted and
it is within the bounds. -/
theorem advance_eq_ok {x : Transition} : advance host program event s t prior p l = .ok x ↔
    Accepted ⟨host, program, event, s, t, p, l⟩ prior
      ∧ step ⟨host, program, event, s, t, p, l⟩ prior = .ok x
      ∧ (∀ r, x.run = some r → r.checked host program l = .ok ())
      ∧ bounded host x.data l = .ok () := by
  have hr : (x.run.elim (.ok ()) fun r => r.checked host program l) = .ok () ↔
      ∀ r, x.run = some r → r.checked host program l = .ok () := by
    cases x.run <;> simp
  rw [← hr]
  constructor
  · intro h
    have hq := toMap_of_advance h
    simp only [advance_eq hq, advanceChecked, bind_eq_ok, exists_unit] at h
    obtain ⟨hc, y, hs, hn, hb, ⟨⟩⟩ := h
    exact ⟨⟨hq, hc⟩, hs, hn, hb⟩
  · rintro ⟨⟨hq, hc⟩, hs, hn, hb⟩
    simp [advance_eq hq, advanceChecked, hc, hs, hn, hb]

theorem checked_eq_ok {r : Run} :
    r.checked host program l = .ok () ↔ l.new = .ok l ∧ bounded host r.data l = .ok ()
      ∧ r.Coherence host program l := by
  simp only [Run.checked, bind_eq_ok, Run.coherent_iff]
  constructor
  · rintro ⟨l', hl, hc⟩
    obtain ⟨rfl, hn, hb⟩ := admitData_ok hl
    exact ⟨hn, hb, hc⟩
  · rintro ⟨hn, hb, hc⟩
    exact ⟨l, by simp [admitData, hn, hb], hc⟩

namespace Accepted

variable {c : Call}

theorem regeneration (h : Accepted c prior) : Nonempty (Regeneration c.host c.program c.profile c.limits) :=
  ⟨(Compiler.toMap_ok h.program).2.choose⟩

theorem parts (h : Accepted c prior) : c.event.new c.host c.limits = .ok c.event
    ∧ c.snapshot.checked c.host c.program c.profile c.limits = .ok c.snapshot
    ∧ c.time.new c.host c.limits = .ok c.time
    ∧ prior.checked c.host c.program c.limits = .ok () := by
  have hc := h.checks
  simp only [inputsChecked, bind_eq_ok] at hc
  obtain ⟨e, he, s', hs, t', ht, hr⟩ := hc
  obtain rfl := Event.new_ok he
  obtain rfl := Snapshot.checked_ok hs
  obtain rfl := (Time.new_ok ht).1
  exact ⟨he, hs, ht, hr⟩

theorem original (h : Accepted c prior) {r : Run} (hr : prior.original = some r) :
    r.Coherence c.host c.program c.limits := by
  have hp := h.parts.2.2.2
  simp only [Prior.checked, hr, bind_eq_ok, exists_unit] at hp
  obtain ⟨_, -, ho, -⟩ := hp
  exact (checked_eq_ok.mp ho).2.2

end Accepted

end Kernel

/-! ## Calls of the lamp program -/

/-- The identity of a step in the run `"o"`. -/
def lampId (path : List Num) : Text :=
  digestText (lampHost.sha256 (Json.encode lampHost.float
    (ExecutionTree.identityData lampProgram "o" path)))

/-- A record without receipts. -/
def lampStep (path : List Num) (kind : Kind) (status : StepStatus) (started : Option Int)
    (deadline : Option Num) : StepRecord :=
  ⟨path, lampId path, kind, status, started, deadline, none, {}⟩

/-- The first effect, proposed at the start. -/
def lampEffect : StepRecord := lampStep [.int 0] .effect .proposed (some 0) (some (.int 500))

/-- The delay, started with the run. -/
def lampDelay : StepRecord := lampStep [.int 1, .int 0] .delay .waiting (some 0) (some (.int 1000))

/-- The second effect behind the delay. -/
def lampSecond : StepRecord := lampStep [.int 1, .int 1] .effect .unsent none none

/-- The run `"o"`, started at 0, over its leaves. -/
def lampRun (lastMs : Int) (effect delay second : StepRecord) : Run where
  format := .run1
  original := "o"
  programDigest := lampProgram.irDigest
  sourceDigest := lampProgram.sourceDigest
  compilerBasis := lampContext.compilerBasis
  epoch := "e"
  clockGeneration := "g"
  startMs := 0
  lastMs := lastMs
  deadlineMs := 1000
  status := .running
  steps := [lampStep [] .parallel .waiting (some 0) (some (.int 1000)), effect,
    lampStep [.int 1] .sequence .waiting (some 0) (some (.int 1000)), delay, second]
  spent := spending [effect, second]
  window := none
  reason := none

/-- A snapshot without facts. -/
def lampSnapshot : Snapshot where
  id := "i"
  membershipGeneration := "m"
  activePrograms := [lampProgram.irDigest]
  resourceRevisions := ⟨[("urn:t", 0)], by decide⟩
  bindingBases := ⟨[("x", ⟨lampBasis.semanticDigest, "s", "t", none, none⟩)], by decide⟩
  facts := ⟨[("x", none)], by decide⟩

/-- A time on the clock of the run. -/
def lampTime (ms : Int) : Time := ⟨"e", "g", ms, none, .time1⟩

/-- An event of the run. -/
def lampEvent (kind : EventKind) : Event := ⟨"o", lampProgram.irDigest, kind⟩

variable (program : Program) (kind : EventKind) (ms : Int)

/-- The inputs of a call on the run. -/
def lampCall : Kernel.Call :=
  ⟨lampHost, program, lampEvent kind, lampSnapshot, lampTime ms, lampProfile, lampLimits⟩

/-- A call on the run. -/
def lampAdvance (r : Run) : Checked Transition :=
  Kernel.advance lampHost program (lampEvent kind) lampSnapshot (lampTime ms) ⟨some r, none, none⟩
    lampProfile lampLimits

theorem lampAdvance_eq {program : Program} {kind : EventKind} {ms : Int} {r : Run}
    (h : Compiler.toMap lampHost program lampProfile lampLimits = .ok program) :
    lampAdvance program kind ms r = Kernel.advanceChecked (lampCall program kind ms) ⟨some r, none, none⟩ :=
  Kernel.advance_eq h

/-- The receipt of an event. -/
def lampReceipt (ref : Text) (kind : EventKind) (outcome : ReceiptOutcome) : Receipt :=
  ⟨ref, digestText (lampHost.sha256 (Json.encode lampHost.float (lampEvent kind).data)), outcome⟩

end Wotex.Routines
