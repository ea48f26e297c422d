import Wotex.Routines.Edge
import Wotex.Routines.Call

/-!
# Reported edges over whole sequences

A `Chain` is a finite sequence of accepted calls of `Edge.advance`, each given the edge the one before
returned, from no edge on. A `Report` keeps what one call was about: the fact, its reading, the basis
and the time it was judged under, and the result. `Labelled` grounds the reason of a result in what
was reported: a call that did not reset the edge was about a qualified fact that goes behind none
before it.

`Tracks` relates an edge to the reports that led to it. One call keeps it (`Stepped.evaluate`), so it
holds along every chain on one basis and clock, and an eligible result can be traced back through it.

Result: `Chain.genuine`. Out of scope: chains that change the basis or the clock.
-/

namespace Wotex.Routines

open List

namespace Edge

/-! ## Reports -/

/-- What one call was about. -/
structure Report where
  fact : Fact
  reading : Reading
  basis : BindingBasis
  time : Time
  result : EdgeResult

/-- The side of the trigger a value is on: active, inactive, or neither between the thresholds. -/
def side (t : EdgeTrigger Num) (value : Scalar Int) : Option Bool :=
  match t.hysteresis, value with
  | none, .bool b => some (match t.direction with
      | .rising => b
      | .falling => !b)
  | some h, .num v =>
    match t.direction with
    | .rising =>
      if h.enter.le (.int v) then some true else if (Num.int v).le h.exit then some false else none
    | .falling =>
      if (Num.int v).le h.enter then some true else if h.exit.le (.int v) then some false else none
  | _, _ => none

/-- What the edge holds for a value between the thresholds. -/
def held (e : Edge) : Option Bool := if e.candidateSinceMs.isSome then some true else e.baseline

theorem active_eq_ok {t : EdgeTrigger Num} {v : Scalar Int} {e : Edge} {a : Option Bool}
    (h : active t v e = .ok a) : a = (side t v).or e.held := by
  obtain ⟨binding, direction, debounce, cooldown, hysteresis⟩ := t
  cases hysteresis <;> cases v <;>
    simp [active, side] at h ⊢
  · exact h.symm
  · cases direction <;> dsimp only at h ⊢ <;> subst h <;> split_ifs <;> simp_all [held]

namespace Report

variable (trigger : EdgeTrigger Num) (x : Report)

/-- The fact was qualified, and the call did not reset the edge. -/
def Valid : Prop :=
  x.fact.continuity = .continuous ∧ x.reading.isSome = true ∧ x.result.reason ≠ .unqualified

/-- The call took its fact as a new sample: it was qualified, not a duplicate and not regressed. -/
def Taken : Prop := x.Valid ∧ x.result.reason ≠ .duplicate

/-- A sample on a side of the trigger. -/
def On (active : Bool) : Prop := x.Taken ∧ ∃ v, x.reading = some v ∧ side trigger v = some active

def Quiet : Prop := x.Valid ∧ x.result.eligible = false

end Report

/-- What the reason of a result says of its report and those before it. -/
structure Labelled (before : List Report) (x : Report) : Prop where
  /-- A call on a fact that is not qualified is `unqualified`. -/
  valid : x.result.reason ≠ .unqualified → x.Valid
  /-- So is one judged at an earlier time. -/
  later : x.Valid → ∀ y ∈ before, y.Valid → y.time.elapsedMs ≤ x.time.elapsedMs
  /-- A `duplicate` has the identity of a sample. -/
  repeated : x.result.reason = .duplicate →
    ∃ y ∈ before, y.Taken ∧ (y.fact.id = x.fact.id ∨ y.fact.sequence = x.fact.sequence)
  /-- A new sample is behind none. -/
  increasing : x.Taken → ∀ y ∈ before, y.Taken →
    y.fact.sequence < x.fact.sequence ∧ y.fact.receiptMs ≤ x.fact.receiptMs

variable {trigger : EdgeTrigger Num} {xs : List Report} {x : Report}

/-- Behind an inactive sample no call reset the edge or was eligible. -/
def Low (trigger : EdgeTrigger Num) (xs : List Report) : Prop :=
  ∃ past low mid, xs = past ++ low :: mid ∧ low.On trigger false ∧ ∀ y ∈ low :: mid, y.Quiet

/-- Behind that, an active sample at `since` from which on no sample was inactive. -/
def High (trigger : EdgeTrigger Num) (since : Int) (xs : List Report) : Prop :=
  ∃ past low mid high rest, xs = past ++ low :: (mid ++ high :: rest) ∧ low.On trigger false
    ∧ high.On trigger true ∧ high.time.elapsedMs = since
    ∧ (∀ y ∈ low :: (mid ++ high :: rest), y.Quiet) ∧ ∀ y ∈ rest, ¬ y.On trigger false

theorem forall_mem_snoc {P : Report → Prop} (h : ∀ y ∈ xs, P y) (hx : P x) : ∀ y ∈ xs ++ [x], P y :=
  forall_mem_append.mpr ⟨h, forall_mem_singleton.mpr hx⟩

theorem Low.start (hx : x.On trigger false) (hq : x.Quiet) : Low trigger (xs ++ [x]) :=
  ⟨xs, x, [], rfl, hx, by simpa using hq⟩

theorem Low.snoc (h : Low trigger xs) (hq : x.Quiet) : Low trigger (xs ++ [x]) := by
  obtain ⟨past, low, mid, rfl, hl, hm⟩ := h
  exact ⟨past, low, mid ++ [x], by simp, hl, forall_mem_snoc hm hq⟩

variable {since : Int}

theorem High.low (h : High trigger since xs) : Low trigger xs := by
  obtain ⟨past, low, mid, high, rest, rfl, hl, -, -, hq, -⟩ := h
  exact ⟨past, low, mid ++ high :: rest, rfl, hl, hq⟩

theorem High.start (h : Low trigger xs) (hx : x.On trigger true) (hq : x.Quiet) :
    High trigger x.time.elapsedMs (xs ++ [x]) := by
  obtain ⟨past, low, mid, rfl, hl, hm⟩ := h
  exact ⟨past, low, mid, x, [], by simp, hl, hx, rfl, forall_mem_snoc hm hq, by simp⟩

theorem High.snoc (h : High trigger since xs) (hq : x.Quiet) (hx : ¬ x.On trigger false) :
    High trigger since (xs ++ [x]) := by
  obtain ⟨past, low, mid, high, rest, rfl, hl, hh, ht, hm, hr⟩ := h
  refine ⟨past, low, mid, high, rest ++ [x], by simp, hl, hh, ht, ?_, forall_mem_snoc hr hx⟩
  rw [show low :: (mid ++ high :: (rest ++ [x])) = (low :: (mid ++ high :: rest)) ++ [x] by simp]
  exact forall_mem_snoc hm hq

/-- The reports that make a result eligible: an inactive sample, and behind it an active sample from
which the edge was held for the debounce; none of the calls since the inactive sample reset the
edge or was about a fact that was not qualified, and none since the active one found it inactive
again. -/
def Genuine (trigger : EdgeTrigger Num) (before : List Report) (x : Report) : Prop :=
  ∃ past low mid high rest, before ++ [x] = past ++ low :: (mid ++ high :: rest)
    ∧ low.On trigger false ∧ high.On trigger true
    ∧ (∀ y ∈ mid ++ high :: rest, y.Valid)
    ∧ (∀ y ∈ rest, ¬ y.On trigger false)
    ∧ trigger.debounceMs.value ≤ ((x.time.elapsedMs - high.time.elapsedMs : Int) : ℚ)

theorem Genuine.of_low (h : Low trigger xs) (hx : x.On trigger true) (hd : trigger.debounceMs.value ≤ 0) :
    Genuine trigger xs x := by
  obtain ⟨past, low, mid, rfl, hl, hm⟩ := h
  refine ⟨past, low, mid, x, [], by simp, hl, hx, ?_, by simp, by simpa using hd⟩
  exact forall_mem_snoc (fun y hy => (hm y (mem_cons_of_mem _ hy)).1) hx.1.1

theorem Genuine.of_high (h : High trigger since xs) (hx : x.Valid) (hn : ¬ x.On trigger false)
    (hd : trigger.debounceMs.value ≤ ((x.time.elapsedMs - since : Int) : ℚ)) :
    Genuine trigger xs x := by
  obtain ⟨past, low, mid, high, rest, rfl, hl, hh, rfl, hm, hr⟩ := h
  refine ⟨past, low, mid, high, rest ++ [x], by simp, hl, hh, ?_, forall_mem_snoc hr hn, hd⟩
  rw [show mid ++ high :: (rest ++ [x]) = (mid ++ high :: rest) ++ [x] by simp]
  exact forall_mem_snoc (fun y hy => (hm y (mem_cons_of_mem _ hy)).1) hx

theorem Low.mem_of_eligible (h : Low trigger xs) {past mid : List Report} (he : xs = past ++ x :: mid)
    (hx : x.result.eligible = true) : ∃ low ∈ mid, low.On trigger false := by
  obtain ⟨past', low, mid', rfl, hl, hq⟩ := h
  have hne : ∀ y ∈ low :: mid', y ≠ x := fun y hy e => by
    have := (hq y hy).2
    rw [e, hx] at this
    cases this
  rcases append_eq_append_iff.mp he with ⟨t, -, ht⟩ | ⟨t, -, ht⟩
  · exact absurd rfl (hne x (ht ▸ by simp))
  · cases t with
    | nil =>
      simp only [nil_append, cons.injEq] at ht
      exact absurd ht.1.symm (hne low mem_cons_self)
    | cons y t =>
      simp only [cons_append, cons.injEq] at ht
      exact ⟨low, ht.2 ▸ by simp, hl⟩

/-! ## An edge and its reports -/

/-- What the retained sample and time say about the reports that led to an edge. -/
structure Recorded (xs : List Report) (e : Edge) : Prop where
  newest : ∀ y ∈ xs, y.Taken → ∃ s, e.sample = some s ∧ y.fact.sequence ≤ s.sequence ∧
    y.fact.receiptMs ≤ s.receiptMs
  sample : ∀ s, e.sample = some s → ∃ y ∈ xs, y.Taken ∧ y.fact.id = s.factId ∧ y.fact.sequence = s.sequence
  clock : ∀ y ∈ xs, y.Valid → y.time.elapsedMs ≤ e.lastElapsedMs

/-- What an edge says about the reports that led to it. -/
structure Tracks (trigger : EdgeTrigger Num) (xs : List Report) (e : Edge) : Prop where
  inactive : e.baseline = some false → Low trigger xs
  candidate : ∀ since, e.candidateSinceMs = some since → e.baseline = some false ∧ High trigger since xs
  cooldown : ∀ past x mid, xs = past ++ x :: mid → x.result.eligible = true →
    (∀ y ∈ mid, y.result.eligible = false) →
    Num.int e.cooldownUntilMs = (Num.int x.time.elapsedMs).add trigger.cooldownMs
  recorded : Recorded xs e

theorem eq_snoc {past mid : List Report} {y : Report} (h : xs ++ [x] = past ++ y :: mid) :
    (mid = [] ∧ y = x ∧ past = xs) ∨ ∃ mid', mid = mid' ++ [x] ∧ xs = past ++ y :: mid' := by
  rcases eq_nil_or_concat mid with rfl | ⟨mid', z, rfl⟩
  · obtain ⟨h1, h2⟩ := append_inj' h rfl
    simp only [cons.injEq, and_true] at h2
    exact .inl ⟨rfl, h2.symm, h1.symm⟩
  · rw [concat_eq_append, ← cons_append, ← append_assoc] at h
    obtain ⟨h1, h2⟩ := append_inj' h rfl
    exact .inr ⟨mid', by rw [concat_eq_append, h2], h1⟩

variable {e e' : Edge}

/-- A call that takes no sample. -/
theorem Recorded.keep (h : Recorded xs e) (hx : ¬ x.Taken) (hs : e'.sample = e.sample)
    (hle : e.lastElapsedMs ≤ e'.lastElapsedMs) (hv : x.Valid → x.time.elapsedMs ≤ e'.lastElapsedMs) :
    Recorded (xs ++ [x]) e' where
  newest := forall_mem_snoc (hs ▸ h.newest) fun ht => absurd ht hx
  sample s he := by
    obtain ⟨y, hy, hk⟩ := h.sample s (hs ▸ he)
    exact ⟨y, mem_append_left _ hy, hk⟩
  clock := forall_mem_snoc (fun y hy hyv => (h.clock y hy hyv).trans hle) hv

/-- A call that takes its fact as a sample. -/
theorem Recorded.take (hl : Labelled xs x) (hx : x.Taken) {s : Sample} (hs : e'.sample = some s)
    (hf : s.factId = x.fact.id ∧ s.sequence = x.fact.sequence ∧ s.receiptMs = x.fact.receiptMs)
    (hle : e'.lastElapsedMs = x.time.elapsedMs) : Recorded (xs ++ [x]) e' where
  newest := by
    refine forall_mem_snoc (fun y hy hyt => ⟨s, hs, ?_⟩) fun _ => ⟨s, hs, by simp [hf]⟩
    obtain ⟨hlt, hr⟩ := hl.increasing hx y hy hyt
    exact ⟨hf.2.1 ▸ hlt.le, hf.2.2 ▸ hr⟩
  sample s' he := by
    obtain rfl := Option.some.inj (hs.symm.trans he)
    exact ⟨x, mem_append_right _ mem_cons_self, hx, hf.1.symm, hf.2.1.symm⟩
  clock := hle ▸ forall_mem_snoc (hl.later hx.1) fun _ => Int.le_refl _

namespace Tracks

variable (h : Tracks trigger xs e)
include h

theorem snoc (hx : x.result.eligible = false) (hc : e'.cooldownUntilMs = e.cooldownUntilMs)
    (inactive : e'.baseline = some false → Low trigger (xs ++ [x]))
    (candidate : ∀ since, e'.candidateSinceMs = some since →
      e'.baseline = some false ∧ High trigger since (xs ++ [x]))
    (recorded : Recorded (xs ++ [x]) e') : Tracks trigger (xs ++ [x]) e' where
  inactive := inactive
  candidate := candidate
  recorded := recorded
  cooldown past y mid he hy hm := by
    rcases eq_snoc he with ⟨-, rfl, -⟩ | ⟨mid', rfl, rfl⟩
    · simp [hx] at hy
    · rw [hc]
      exact h.cooldown past y mid' rfl hy fun z hz => hm z (mem_append_left _ hz)

end Tracks

/-! ## One call -/

/-- What an edge is about: a basis and a clock. -/
def ground (e : Edge) : BindingBasis × TimeFormat × Text × Text :=
  (e.bindingBasis, e.format, e.epoch, e.clockGeneration)

theorem replaced_of_ground {e fresh : Edge} (h : e.ground = fresh.ground) :
    replaced (some e) fresh = false := by
  simp only [ground, Prod.mk.injEq] at h
  simp [replaced, h, Json.Value.same_refl]

section Call

variable {e : Edge} {digest original : Text} {l : Limits}

/-- What a call does with a retained edge. -/
structure Stepped (trigger : EdgeTrigger Num) (xs : List Report) (e : Edge) (x : Report) : Prop where
  tracks : Tracks trigger (xs ++ [x]) x.result.edge
  ground : x.result.edge.ground = e.ground
  eligible : x.result.eligible = true →
    x.Taken ∧ Genuine trigger xs x ∧ Low trigger xs ∧ e.cooldownUntilMs ≤ x.time.elapsedMs
  labelled : Labelled xs x

/-- A call that resets the edge. -/
theorem Stepped.unqualified (h : Tracks trigger xs e) {t : Int} (hle : e.lastElapsedMs ≤ t)
    (hx : x.result = ⟨{ e with lastElapsedMs := t }.reset, false, .unqualified⟩) :
    Stepped trigger xs e x := by
  have hv : ¬ x.Valid := fun hv => hv.2.2 (by rw [hx])
  have ht : ¬ x.Taken := fun ht => hv ht.1
  refine ⟨?_, by rw [hx]; rfl, by simp [hx], ⟨by simp [hx], fun h => absurd h hv, by simp [hx],
    fun h => absurd h ht⟩⟩
  rw [hx]
  exact h.snoc (by rw [hx]) rfl (by simp [reset]) (by simp [reset])
    (h.recorded.keep ht rfl hle fun h => absurd h hv)

/-- A call that repeats the last sample. -/
theorem Stepped.duplicate (h : Tracks trigger xs e) (hv : x.Valid)
    (hle : e.lastElapsedMs ≤ x.time.elapsedMs) (hsame : e.sameIdentity x.fact = true)
    (hx : x.result = ⟨{ e with lastElapsedMs := x.time.elapsedMs }, false, .duplicate⟩) :
    Stepped trigger xs e x := by
  have hq : x.Quiet := ⟨hv, by rw [hx]⟩
  have ht : ¬ x.Taken := fun ht => ht.2 (by rw [hx])
  obtain ⟨s, hsome, hid⟩ := (Option.any_eq_true _ _).mp hsame
  obtain ⟨y, hy, hyt, hf, hseq⟩ := h.recorded.sample s hsome
  refine ⟨?_, by rw [hx]; rfl, by simp [hx], ⟨fun _ => hv,
    fun _ y hy hyv => (h.recorded.clock y hy hyv).trans hle,
    fun _ => ⟨y, hy, hyt, by simpa [hf, hseq] using hid⟩, fun h => absurd h ht⟩⟩
  rw [hx]
  refine h.snoc hq.2 rfl (fun hl => (h.inactive hl).snoc hq) (fun since hsince => ?_)
    (h.recorded.keep ht rfl hle fun _ => Int.le_refl _)
  obtain ⟨hl, hh⟩ := h.candidate since hsince
  exact ⟨hl, hh.snoc hq fun ho => ht ho.1⟩

variable {t : Time}

/-- A sample that is taken leaves what the edge remembers. -/
theorem transition_ok {a : Option Bool} {r : EdgeResult}
    (h : Edge.transition e a original t trigger l = .ok r) :
    r.reason ≠ .unqualified ∧ r.reason ≠ .duplicate ∧ r.edge.sample = e.sample ∧
      r.edge.lastElapsedMs = e.lastElapsedMs ∧ r.edge.ground = e.ground := by
  revert h
  fun_cases Edge.transition e a original t trigger l
  case case7 =>
    simp only [bind_eq_ok_unit]
    rintro ⟨-, ⟨⟩⟩
    exact ⟨by simp, by simp, rfl, rfl, rfl⟩
  all_goals
    rintro ⟨⟩
    try exact ⟨by simp, by simp, rfl, rfl, rfl⟩

/-- **A new sample.** The cases are those of `transition`. -/
theorem Stepped.transition (h : Tracks trigger xs e) {v : Scalar Int} (hread : x.reading = some v)
    (hcont : x.fact.continuity = .continuous) (hle : e.lastElapsedMs ≤ x.time.elapsedMs)
    (hnew : ∀ s, e.sample = some s → s.sequence < x.fact.sequence ∧ s.receiptMs ≤ x.fact.receiptMs)
    (ht : transition (e.remember x.fact digest x.time) ((side trigger v).or e.held) original x.time
      trigger l = .ok x.result) : Stepped trigger xs e x := by
  obtain ⟨hu, hd, hs, hlast, hg⟩ := transition_ok ht
  have valid : x.Valid := ⟨hcont, by simp [hread], hu⟩
  have labelled : Labelled xs x := by
    refine ⟨fun _ => valid, fun _ y hy hyv => (h.recorded.clock y hy hyv).trans hle,
      fun hdup => absurd hdup hd, fun _ y hy hyt => ?_⟩
    obtain ⟨s, hsome, hseq, hrec⟩ := h.recorded.newest y hy hyt
    obtain ⟨hlt, hr⟩ := hnew s hsome
    exact ⟨hseq.trans_lt hlt, hrec.trans hr⟩
  have taken : x.Taken := ⟨valid, hd⟩
  have recorded := Recorded.take labelled taken hs ⟨rfl, rfl, rfl⟩ hlast
  have on : ∀ {b}, side trigger v = some b → x.On trigger b := fun hside => ⟨taken, v, hread, hside⟩
  have off : (side trigger v).or e.held = some true → ¬ x.On trigger false := by
    rintro ha ⟨-, w, hw, hside⟩
    obtain rfl := Option.some.inj (hread.symm.trans hw)
    simp [hside] at ha
  -- without a candidate the edge holds inactive, so the sample itself is active
  have hside : e.baseline = some false → (side trigger v).or e.held = some true →
      e.candidateSinceMs = none → side trigger v = some true := by
    intro hbf ha hcn
    simpa [held, hcn, hbf] using Option.or_eq_some_iff.mp ha
  suffices hk : Tracks trigger (xs ++ [x]) x.result.edge ∧ (x.result.eligible = true →
      Genuine trigger xs x ∧ Low trigger xs ∧ e.cooldownUntilMs ≤ x.time.elapsedMs) from
    ⟨hk.1, hg, fun he => ⟨taken, hk.2 he⟩, labelled⟩
  clear hu hd hs hlast hg labelled taken
  generalize ha : (side trigger v).or e.held = act at ht off hside
  obtain ⟨fact, reading, basis, time, result⟩ := x
  revert ht
  fun_cases Edge.transition (e.remember fact digest time) act original time trigger l
  · -- the first sample is the baseline
    rename_i hbn
    rintro ⟨⟩
    have hcn : e.candidateSinceMs = none := Option.eq_none_iff_forall_ne_some.mpr fun since hcs =>
      absurd ((h.candidate since hcs).1.symm.trans hbn) (by simp)
    have hheld : e.held = none := by simp [held, hcn, show e.baseline = none from hbn]
    refine ⟨h.snoc rfl rfl (fun hl => ?_) (fun since hs => ?_) recorded, by simp⟩
    · rw [hheld, Option.or_none] at ha
      exact .start (on (ha.trans hl)) ⟨valid, rfl⟩
    · exact absurd (hcn.symm.trans hs) (by simp)
  · rintro ⟨⟩
    exact ⟨h.snoc rfl rfl (by simp) (by simp) recorded, by simp⟩
  · -- an inactive sample, or one between the thresholds of an inactive edge
    rintro ⟨⟩
    refine ⟨h.snoc rfl rfl (fun _ => ?_) (by simp) recorded, by simp⟩
    rcases Option.or_eq_some_iff.mp ha with hs | ⟨-, hheld⟩
    · exact .start (on hs) ⟨valid, rfl⟩
    · refine (h.inactive ?_).snoc ⟨valid, rfl⟩
      revert hheld
      fun_cases held e
      · rintro ⟨⟩
      · exact id
  · rename_i hbt
    rintro ⟨⟩
    refine ⟨h.snoc rfl rfl (fun hl => ?_) (fun since hs => ?_) recorded, by simp⟩
    · exact absurd (hbt.symm.trans hl) (by simp)
    · exact absurd (hbt.symm.trans (h.candidate since hs).1) (by simp)
  · -- suppressed by the cooldown
    rintro ⟨⟩
    exact ⟨h.snoc rfl rfl (by simp) (by simp) recorded, by simp⟩
  · rename_i hbf _ _ _
    rintro ⟨⟩
    suffices hhigh : High trigger (e.candidateSinceMs.getD time.elapsedMs) _ from
      ⟨h.snoc rfl rfl (fun _ => hhigh.low) (fun since hs => ⟨hbf, Option.some.inj hs ▸ hhigh⟩)
        recorded, by simp⟩
    cases hcs : e.candidateSinceMs with
    | none => exact .start (h.inactive hbf) (on (hside hbf rfl hcs)) ⟨valid, rfl⟩
    | some since => exact (h.candidate since hcs).2.snoc ⟨valid, rfl⟩ (off rfl)
  · rename_i hbf since hcool hdeb _ d hd
    simp only [bind_eq_ok_unit]
    rintro ⟨-, ⟨⟩⟩
    have hdeb : trigger.debounceMs.value
        ≤ ((time.elapsedMs - e.candidateSinceMs.getD time.elapsedMs : Int) : ℚ) := by
      simpa [Num.lt, since, remember] using hdeb
    refine ⟨⟨by simp, by simp, ?_, recorded⟩, fun _ => ⟨?_, h.inactive hbf, Int.not_lt.mp hcool⟩⟩
    · intro past y mid he hy hm
      rcases eq_snoc he with ⟨-, rfl, -⟩ | ⟨mid', rfl, -⟩
      · exact hd.symm
      · exact absurd (hm _ (mem_append_right _ mem_cons_self)) (by simp)
    · cases hcs : e.candidateSinceMs with
      | none =>
        refine .of_low (h.inactive hbf) (on (hside hbf rfl hcs)) ?_
        simpa [hcs] using hdeb
      | some since =>
        refine .of_high (h.candidate since hcs).2 valid (off rfl) ?_
        simpa [hcs] using hdeb
  · rintro ⟨⟩

/-- **A call that takes a sample.** -/
theorem Stepped.take (h : Tracks trigger xs e) (hcont : x.fact.continuity = .continuous)
    (hle : e.lastElapsedMs ≤ x.time.elapsedMs)
    (hnew : ∀ s, e.sample = some s → s.sequence < x.fact.sequence ∧ s.receiptMs ≤ x.fact.receiptMs)
    (ht : take e x.reading x.fact digest original x.time trigger l = .ok x.result) :
    Stepped trigger xs e x := by
  unfold Edge.take at ht
  split at ht
  · cases ht
  · rename_i v hv
    obtain ⟨act, hact, ht⟩ := bind_eq_ok.mp ht
    obtain rfl := active_eq_ok hact
    exact .transition h hv hcont hle hnew ht

/-- **A call on a retained edge** of the same basis and clock. -/
theorem Stepped.evaluate (h : Tracks trigger xs e) {fresh : Edge} {qualified : Bool}
    (hq : qualified = true → x.fact.continuity = .continuous ∧ x.reading.isSome = true)
    (hr : replaced (some e) fresh = false)
    (ht : evaluate (some e) fresh qualified x.reading x.fact digest original x.time trigger l
      = .ok x.result) : Stepped trigger xs e x := by
  obtain ⟨fact, reading, basis, time, result⟩ := x
  simp only [Edge.evaluate, hr] at ht
  split_ifs at ht with hqual hconf hlt hsame hreg
  · cases ht
    exact .unqualified h (Int.le_refl _) rfl
  · cases ht
  · cases ht
    exact .unqualified h (Int.le_refl _) rfl
  · cases ht
    obtain ⟨hc, hs⟩ := hq (by simpa using hqual)
    exact .duplicate h ⟨hc, hs, by simp⟩ (Int.not_lt.mp hlt) hsame rfl
  · cases ht
    exact .unqualified h (Int.not_lt.mp hlt) rfl
  · refine .take h (hq (by simpa using hqual)).1 (Int.not_lt.mp hlt) (fun s hs => ?_) ht
    simpa [regressed, hs] using hreg

end Call

/-! ## Chains -/

/-- What a call reads for the trigger's binding. -/
def readingOf (host : Host) (program : Program) (trigger : EdgeTrigger Num) (s : Snapshot) (t : Time)
    (l : Limits) : Reading :=
  ((ObservationView.values host program s t l).get trigger.binding).join

/-- A sequence of accepted calls from no edge, each given the edge of the one before. -/
inductive Chain (host : Host) (program : Program) (trigger : EdgeTrigger Num) :
    List Report → Option Edge → Prop
  | nil : Chain host program trigger [] none
  | snoc {xs : List Report} {prior : Option Edge} {event : Event} {s : Snapshot} {t : Time}
      {p : Profile} {l : Limits} {result : EdgeResult} {f : Fact} {basis : BindingBasis}
      (h : Chain host program trigger xs prior)
      (accepted : advance host program event s t prior p l = .ok result)
      (fact : input program event s = .ok (trigger, f))
      (ground : s.bindingBases.get trigger.binding = some basis) :
      Chain host program trigger
        (xs ++ [⟨f, readingOf host program trigger s t l, basis, t, result⟩]) (some result.edge)

/-- The clock of a report. -/
def Report.clock (x : Report) : TimeFormat × Text × Text :=
  (x.time.format, x.time.epoch, x.time.clockGeneration)

variable {host : Host} {program : Program} {event : Event} {s : Snapshot} {t : Time}
  {prior : Option Edge} {p : Profile} {l : Limits} {result : EdgeResult} {f : Fact}
  {basis : BindingBasis}

theorem retained_ok {e : Option Edge} (h : retained host prior program p l = .ok e) : e = prior := by
  cases prior with
  | none => exact (Outcome.ok.inj h).symm
  | some e =>
    simp only [retained, new, checked, bind_eq_ok, Outcome.ok.injEq] at h
    obtain ⟨_, ⟨_, -, _, -, _, -, _, -, _, -, rfl⟩, rfl⟩ := h
    rfl

section

variable (h : advance host program event s t prior p l = .ok result)
include h

theorem advance_ok : step host program event s t prior l = .ok result := by
  simp only [advance, bind_eq_ok] at h
  obtain ⟨q, hq, e, he, s', hs, t', ht, pr, hpr, r, hr, _, -, ⟨⟩⟩ := h
  obtain ⟨rfl, -⟩ := Compiler.toMap_ok hq
  obtain rfl := Event.new_ok he
  obtain rfl := (Time.new_ok ht).1
  obtain rfl := retained_ok hpr
  simp only [Snapshot.new, bind_eq_ok] at hs
  obtain ⟨p', -, q', hq', hs⟩ := hs
  obtain rfl := Snapshot.checked_ok hs
  exact hr

theorem advance_evaluates (hi : input program event s = .ok (trigger, f))
    (hb : s.bindingBases.get trigger.binding = some basis) :
    ∃ digest, evaluate prior (initial program trigger.binding basis t)
      (decide (f.continuity = .continuous) && (readingOf host program trigger s t l).isSome)
      (readingOf host program trigger s t l) f digest event.original t trigger l = .ok result := by
  have h := advance_ok h
  simp only [step, hi, hb, ok_bind, bind_eq_ok] at h
  obtain ⟨digest, -, h⟩ := h
  exact ⟨digest, h⟩

end

theorem Tracks.initial (program : Program) (binding : Text) (basis : BindingBasis) (t : Time) :
    Tracks trigger [] (Edge.initial program binding basis t) :=
  ⟨by simp [Edge.initial], by simp [Edge.initial], by simp, by simp, by simp [Edge.initial], by simp⟩

/-- **One call of a chain** on one basis and clock: it steps from the retained edge, or from the
initial one. -/
theorem Chain.stepped {x : Report} {xs : List Report}
    (h : advance host program event s t prior p l = .ok result)
    (hi : input program event s = .ok (trigger, f))
    (hb : s.bindingBases.get trigger.binding = some basis)
    (hx : x = ⟨f, readingOf host program trigger s t l, basis, t, result⟩)
    (hp : ∀ e, prior = some e → Tracks trigger xs e
      ∧ e.ground = (Edge.initial program trigger.binding basis t).ground)
    (hn : prior = none → xs = []) : ∃ e, Stepped trigger xs e x ∧ (prior = some e ∨ xs = [])
      ∧ e.ground = (Edge.initial program trigger.binding basis t).ground := by
  obtain ⟨digest, he⟩ := advance_evaluates h hi hb
  subst hx
  cases prior with
  | some e =>
    obtain ⟨ht, hg⟩ := hp e rfl
    refine ⟨e, .evaluate ht (fun hq => ?_) (replaced_of_ground hg) he, .inl rfl, hg⟩
    simpa using hq
  | none =>
    obtain rfl := hn rfl
    refine ⟨Edge.initial program trigger.binding basis t, ?_, .inr rfl, rfl⟩
    have ht : Tracks trigger [] _ := Tracks.initial program trigger.binding basis t
    simp only [evaluate] at he
    split at he
    · exact .unqualified ht (Int.le_refl _) (Outcome.ok.inj he).symm
    · rename_i hq
      refine .take ht ?_ (Int.le_refl _) (by simp [Edge.initial]) he
      simp only [Bool.not_eq_true', Bool.not_eq_false, Bool.and_eq_true, decide_eq_true_eq] at hq
      exact hq.1

/-- What a chain establishes about each of its reports. -/
structure Reported (trigger : EdgeTrigger Num) (before : List Report) (x : Report) : Prop where
  taken : x.result.eligible = true → x.Taken
  genuine : x.result.eligible = true → Genuine trigger before x
  inactive : x.result.eligible = true → ∀ past y mid, before = past ++ y :: mid →
    y.result.eligible = true → ∃ low ∈ mid, low.On trigger false
  cooldown : x.result.eligible = true → ∀ past y mid, before = past ++ y :: mid →
    y.result.eligible = true → (∀ z ∈ mid, z.result.eligible = false) →
    trigger.cooldownMs.value ≤ ((x.time.elapsedMs - y.time.elapsedMs : Int) : ℚ)
  labelled : Labelled before x

theorem value_of_add {a b : Int} {c : Num} (h : Num.int a = (Num.int b).add c) :
    c.value = ((a - b : Int) : ℚ) := by
  cases c with
  | int c =>
    simp only [Num.add_int, Num.int.injEq] at h
    rw [h, Num.value_int, add_sub_cancel_left]
  | flt f => simp [Num.add] at h

theorem Stepped.reported {e : Edge} (h : Stepped trigger xs e x) (ht : xs ≠ [] → Tracks trigger xs e) :
    Reported trigger xs x where
  taken he := (h.eligible he).1
  genuine he := (h.eligible he).2.1
  inactive he past y mid hxs hy := (h.eligible he).2.2.1.mem_of_eligible hxs hy
  labelled := h.labelled
  cooldown he past y mid hxs hy hm := by
    have hc := (ht (by simp [hxs])).cooldown past y mid hxs hy hm
    rw [value_of_add hc]
    have := (h.eligible he).2.2.2
    exact_mod_cast Int.sub_le_sub_right this _

/-- **A whole chain** on one basis and clock. -/
theorem Chain.reported {clock : TimeFormat × Text × Text} (h : Chain host program trigger xs prior)
    (hg : ∀ x ∈ xs, x.basis = basis ∧ x.clock = clock) : (prior = none → xs = [])
      ∧ (∀ e, prior = some e → Tracks trigger xs e ∧ e.ground = (basis, clock))
      ∧ ∀ before x after, xs = before ++ x :: after → Reported trigger before x := by
  induction h with
  | nil => exact ⟨fun _ => rfl, by simp, by simp⟩
  | @snoc xs prior event s t p l result f b _ hadv hi hb ih =>
    obtain ⟨hnone, hsome, hrep⟩ := ih fun x hx => hg x (mem_append_left _ hx)
    have hlast := hg _ (mem_append_right xs mem_cons_self)
    have hground : (Edge.initial program trigger.binding b t).ground = (basis, clock) := by
      rw [← hlast.2, ← hlast.1]
      rfl
    obtain ⟨e, hst, hpe, hge⟩ := Chain.stepped hadv hi hb rfl
      (fun e he => ⟨(hsome e he).1, (hsome e he).2.trans hground.symm⟩) hnone
    refine ⟨by simp, ?_, ?_⟩
    · intro e' he'
      cases he'
      exact ⟨hst.tracks, hst.ground.trans (hge.trans hground)⟩
    · intro before x after hxs
      rcases eq_snoc hxs with ⟨-, rfl, rfl⟩ | ⟨after', rfl, hxs'⟩
      · refine hst.reported fun hne => ?_
        rcases hpe with hpe | hpe
        · exact (hsome e hpe).1
        · exact absurd hpe hne
      · exact hrep before x after' hxs'

/-- **Reported edges are genuine.** Along every chain on one basis and one clock, in one clock
grammar: an eligible result has its inactive sample and its active samples over the debounce;
between two eligible results there is an inactive sample, and between successive ones the cooldown;
the reasons are those the reports give (`Labelled`), so the samples taken have growing sequence
numbers, and a fact taken before never makes a result eligible. -/
theorem Chain.genuine {clock : TimeFormat × Text × Text} (h : Chain host program trigger xs prior)
    (hg : ∀ x ∈ xs, x.basis = basis ∧ x.clock = clock) :
    (∀ before x after, xs = before ++ x :: after → x.result.eligible = true →
      Genuine trigger before x ∧ ∀ y ∈ before, y.Taken → y.fact ≠ x.fact)
    ∧ (∀ past y mid x after, xs = past ++ y :: (mid ++ x :: after) → y.result.eligible = true →
      x.result.eligible = true → (∃ low ∈ mid, low.On trigger false)
        ∧ ((∀ z ∈ mid, z.result.eligible = false) →
          trigger.cooldownMs.value ≤ ((x.time.elapsedMs - y.time.elapsedMs : Int) : ℚ)))
    ∧ ∀ before x after, xs = before ++ x :: after → Labelled before x := by
  obtain ⟨-, -, hrep⟩ := h.reported hg
  refine ⟨?_, ?_, fun before x after hxs => (hrep before x after hxs).labelled⟩
  · intro before x after hxs hx
    have hr := hrep before x after hxs
    refine ⟨hr.genuine hx, fun y hy hyt he => ?_⟩
    have hlt := (hr.labelled.increasing (hr.taken hx) y hy hyt).1
    simp [he] at hlt
  · intro past y mid x after hxs hy hx
    have hr := hrep (past ++ y :: mid) x after (by rw [hxs]; simp)
    exact ⟨hr.inactive hx past y mid rfl hy, hr.cooldown hx past y mid rfl hy⟩

/-! ## The lamp's level -/

/-- `Edge.advance/7` behind the program. -/
def advanceChecked (host : Host) (program : Program) (event : Event) (s : Snapshot) (t : Time)
    (prior : Option Edge) (p : Profile) (l : Limits) : Checked EdgeResult := do
  let _ ← event.new host l
  let _ ← s.checked host program p l
  let _ ← t.new host l
  prior.elim (.ok ()) fun e => e.checked host program l >>= fun _ => .ok ()
  let result ← step host program event s t prior l
  let _ ← result.edge.checked host program l
  .ok result

theorem advance_of_checked (h : Compiler.toMap host program p l = .ok program)
    (hc : advanceChecked host program event s t prior p l = .ok result) :
    advance host program event s t prior p l = .ok result := by
  obtain ⟨-, g, -⟩ := Compiler.toMap_ok h
  simp only [advanceChecked, bind_eq_ok, exists_unit] at hc
  obtain ⟨e, he, s', hs, t', ht, hp, r, hr, e', he', ⟨⟩⟩ := hc
  obtain rfl := Event.new_ok he
  obtain rfl := Snapshot.checked_ok hs
  obtain rfl := (Time.new_ok ht).1
  have hret : retained host prior program p l = .ok prior := by
    cases prior with
    | none => rfl
    | some e =>
      simp only [Option.elim_some, bind_eq_ok] at hp
      obtain ⟨e₁, hp, -⟩ := hp
      have hk : retained host (some e) program p l = .ok (some e₁) := by
        simp [retained, new, h, hp]
      rw [hk, retained_ok hk]
  simp [advance, Snapshot.new, g.profileNew, h, he, hs, ht, hret, hr, new, he']

/-- A report of the lamp's level. -/
def lampFact (id : Text) (sequence level receiptMs : Int) : Fact where
  id := id
  thingId := "urn:t"
  affordanceType := .property
  affordanceName := "p"
  value := jint level
  unit := some ⟨.fraction, "u", 1, 1, 0, 1, 0, 100⟩
  quality := .usable
  sourceClass := .deviceReport
  sourceId := "s"
  sourceEpoch := "t"
  sequence := sequence
  sourceTime := none
  sourceTimeTrust := .untrusted
  sourceTimeBasis := none
  sourceUncertaintyMs := none
  receivedAt := none
  receiptEpoch := "e"
  receiptMs := receiptMs
  profileDigest := lampBasis.semanticDigest
  replay := .fresh
  continuity := .continuous
  expiresMs := 900
  derivationDigest := none
  contributors := []

/-- The snapshot with a report. -/
def lampFacts (f : Fact) : Snapshot :=
  { lampSnapshot with facts := ⟨[("x", some f)], pairwise_singleton _ _⟩ }

/-- The lamp's trigger. -/
def lampTrigger : EdgeTrigger Num := ⟨"x", .rising, .int 0, .int 10, some ⟨.int 5, .int 3⟩⟩

/-- The results of reporting facts one after the other. -/
def lampObserve (prior : Option Edge) : List (Fact × Time) → Checked (List EdgeResult)
  | [] => .ok []
  | (f, t) :: rest => do
    let r ← advanceChecked lampHost lampProgram (lampEvent (.fact "x" f.id)) (lampFacts f) t prior
      lampProfile lampLimits
    let rs ← lampObserve (some r.edge) rest
    .ok (r :: rs)

/-- The report of one of them. -/
def lampReport (x : (Fact × Time) × EdgeResult) : Report where
  fact := x.1.1
  reading := readingOf lampHost lampProgram lampTrigger (lampFacts x.1.1) x.1.2 lampLimits
  basis := ⟨lampBasis.semanticDigest, "s", "t", none, none⟩
  time := x.1.2
  result := x.2

theorem lampObserve_chain {fs : List (Fact × Time)} : ∀ {prior : Option Edge} {rs : List EdgeResult}
    {xs : List Report}, Chain lampHost lampProgram lampTrigger xs prior → lampObserve prior fs = .ok rs →
    ∃ e, Chain lampHost lampProgram lampTrigger (xs ++ (fs.zip rs).map lampReport) e := by
  induction fs with
  | nil =>
    intro prior rs xs h ho
    exact ⟨prior, by simpa using h⟩
  | cons f fs ih =>
    intro prior rs xs h ho
    simp only [lampObserve, bind_eq_ok] at ho
    obtain ⟨r, hr, rs, hrs, ⟨⟩⟩ := ho
    have hi : input lampProgram (lampEvent (.fact "x" f.1.id)) (lampFacts f.1) =
        .ok (lampTrigger, f.1) := by
      simp [input, lampProgram, lampWith, lampEvent, lampTrigger, lampFacts, Snapshot.fact, Dict.get,
        Dict.find]
    obtain ⟨e, he⟩ := ih (.snoc h (advance_of_checked lamp_accepted hr) hi rfl) hrs
    exact ⟨e, by simpa [lampReport] using he⟩

/-- A level of 7 received at 3, reported before and after a level of 1 received at 2. -/
def lampRise : List (Fact × Time) :=
  [(lampFact "f" 5 7 3, lampTime 1), (lampFact "h" 4 1 2, lampTime 2), (lampFact "f" 5 7 3, lampTime 3)]

/-- Another fall and rise, on the same clock in the other grammar. -/
def lampAgain : List (Fact × Time) :=
  [(lampFact "i" 6 1 3, { lampTime 4 with grammar := .time2 none }),
    (lampFact "j" 7 7 3, { lampTime 5 with grammar := .time2 none })]

set_option maxRecDepth 100000 in
theorem lamp_observes :
    (lampObserve none lampRise).toOption.map (map EdgeResult.eligible) = some [false, false, true]
    ∧ (lampObserve none (lampRise ++ lampAgain)).toOption.map (map EdgeResult.eligible) =
      some [false, false, true, false, true] := by
  decide +kernel

/-- The binding basis of the lamp's reports. -/
def lampGround : BindingBasis := ⟨lampBasis.semanticDigest, "s", "t", none, none⟩

theorem lamp_rises : ∃ x₁ x₂ x₃ e, Chain lampHost lampProgram lampTrigger [x₁, x₂, x₃] e
    ∧ (∀ x ∈ [x₁, x₂, x₃], x.basis = lampGround ∧ x.clock = (TimeFormat.time1, ascii "e", ascii "g"))
    ∧ x₃.result.eligible = true := by
  obtain ⟨rs, hrs, he⟩ := Option.map_eq_some_iff.mp lamp_observes.1
  rw [Outcome.toOption_eq_some] at hrs
  obtain ⟨e, hc⟩ := lampObserve_chain .nil hrs
  rcases rs with _ | ⟨r₁, _ | ⟨r₂, _ | ⟨r₃, _ | ⟨r₄, rs⟩⟩⟩⟩ <;> simp at he
  refine ⟨_, _, _, e, hc, ?_, he.2.2⟩
  simp only [forall_mem_cons]
  exact ⟨⟨rfl, rfl⟩, ⟨rfl, rfl⟩, ⟨rfl, rfl⟩, by simp⟩

theorem lamp_genuine : ∃ before x e, Chain lampHost lampProgram lampTrigger (before ++ [x]) e
    ∧ x.result.eligible = true ∧ Genuine lampTrigger before x := by
  obtain ⟨x₁, x₂, x₃, e, hc, hg, h₃⟩ := lamp_rises
  exact ⟨[x₁, x₂], x₃, e, hc, h₃, ((Chain.genuine hc hg).1 [x₁, x₂] x₃ [] rfl h₃).1⟩

/-- The fact of the rise was reported before, unqualified; and the second rise, in the other clock
grammar, comes 2 after the first with a cooldown of 10. -/
theorem lamp_repeats : ∃ before x mid y e,
    Chain lampHost lampProgram lampTrigger (before ++ x :: (mid ++ [y])) e
    ∧ (∀ z ∈ before ++ x :: (mid ++ [y]), z.basis = x.basis ∧ z.time.epoch = x.time.epoch
      ∧ z.time.clockGeneration = x.time.clockGeneration)
    ∧ x.result.eligible = true ∧ (∃ z ∈ before, z.fact = x.fact)
    ∧ y.result.eligible = true ∧ (∀ z ∈ mid, z.result.eligible = false)
    ∧ ((y.time.elapsedMs - x.time.elapsedMs : Int) : ℚ) < lampTrigger.cooldownMs.value := by
  obtain ⟨rs, hrs, he⟩ := Option.map_eq_some_iff.mp lamp_observes.2
  rw [Outcome.toOption_eq_some] at hrs
  obtain ⟨e, hc⟩ := lampObserve_chain .nil hrs
  rcases rs with _ | ⟨r₁, _ | ⟨r₂, _ | ⟨r₃, _ | ⟨r₄, _ | ⟨r₅, _ | ⟨r₆, rs⟩⟩⟩⟩⟩⟩ <;> simp at he
  refine ⟨lampReport _ :: [lampReport _], lampReport _, [lampReport _], lampReport _, e, hc, ?_,
    he.2.2.1, ⟨_, mem_cons_self, rfl⟩, he.2.2.2.2, ?_, ?_⟩
  · simp [lampReport, lampTime]
  · simpa [lampReport] using he.2.2.2.1
  · norm_num [lampReport, lampTime, lampTrigger]

end Edge

end Wotex.Routines
