import Mathlib.Data.List.Basic
import Mathlib.Logic.Function.Basic
import Mathlib.Logic.Function.Iterate

/-!
# Publish sequences (`priv/native/publish_sequence.c`)

The sequence numbers of one subscription lie on the ring `1 .. 2^32 - 1`, which wraps past its maximum to 1.
The state keeps the last number delivered, a circular cache of the last 1024 numbers with their digests,
and the recovery of one gap. The pointers of the calls are never null here; the arguments a call writes
through are part of its result.

* `recent_record`: the cache, read from its newest entry, is the list of the last 1024 entries recorded.
* `step_follows`: what one call does to the numbers recorded so far.
* `sequencing`: the promises over every history of calls.
-/

namespace Wotex.Opcua

/-- `WOP_SEQUENCE_DIGEST` bytes. -/
abbrev Digest := Vector UInt8 32

open List

/-- `WopSequenceEntry`. -/
structure SequenceEntry where
  sequence : UInt32
  digest : Digest

/-- `WopSequence`. -/
structure Sequence where
  last : UInt32
  cache : Nat → SequenceEntry
  head : Nat
  count : Nat
  recovering : Bool
  recoverNext : UInt32
  recoverLeft : UInt32
  target : UInt32
  targetDigest : Digest

/-- `WopSequenceVerdict`; a gap has its first missing number and their number. -/
inductive Verdict where
  | deliver | duplicate | gap (first count : UInt32) | conflict | tooLarge | stale | invalid
  deriving DecidableEq

/-- `WopRecovery`. -/
inductive Recovery where
  | continue_ | complete | failed
  deriving DecidableEq

namespace Sequence

/-- `WOP_SEQUENCE_CACHE`. -/
def cacheSize : Nat := 1024

/-- `WOP_SEQUENCE_REPUBLISH`. -/
def republishLimit : UInt32 := 100

/-- `RING`. -/
def ring : Nat := 4294967295

/-- Zeroed memory. -/
def blank : Digest := .replicate 32 0

def init (last : UInt32) : Sequence :=
  ⟨last, fun _ => ⟨0, blank⟩, 0, 0, false, 0, 0, 0, blank⟩

def next (sequence : UInt32) : UInt32 := if sequence = 4294967295 then 1 else sequence + 1

variable (s : Sequence)

/-- The number `record` takes. -/
def expected : UInt32 := if s.last ≠ 0 then next s.last else 1

/-- The entries `cached` looks at, in its order. -/
def recent : List SequenceEntry :=
  (range s.count).map fun i => s.cache ((s.head + cacheSize - 1 - i) % cacheSize)

def cached (sequence : UInt32) : Option SequenceEntry :=
  s.recent.find? fun entry => entry.sequence = sequence

def classify (sequence : UInt32) (digest : Digest) : Verdict :=
  if sequence = 0 then .invalid
  else
    match s.cached sequence with
    | some entry => if entry.digest = digest then .duplicate else .conflict
    | none =>
      let distance := (sequence.toNat - 1 + ring - (s.expected.toNat - 1)) % ring
      if distance = 0 then .deliver
      else if ring / 2 ≤ distance then .stale
      else if republishLimit.toNat < distance then .tooLarge
      else .gap s.expected (UInt32.ofNat distance)

def record (sequence : UInt32) (digest : Digest) : Option Sequence :=
  if sequence = 0 ∨ sequence ≠ s.expected then none
  else some { s with
    cache := Function.update s.cache s.head ⟨sequence, digest⟩
    head := (s.head + 1) % cacheSize
    count := if s.count < cacheSize then s.count + 1 else s.count
    last := sequence }

def begin (target : UInt32) (digest : Digest) (first count : UInt32) : Option Sequence :=
  if s.recovering ∨ count = 0 ∨ republishLimit < count ∨ first ≠ s.expected then none
  else some { s with
    recovering := true, recoverNext := first, recoverLeft := count, target, targetDigest := digest }

def pending : Option UInt32 :=
  if s.recovering ∧ s.recoverLeft ≠ 0 then some s.recoverNext else none

def republished (requested : UInt32) (available : Bool) (sequence : UInt32)
    (digest : Digest) : Sequence × Recovery :=
  if s.recovering ∧ requested = s.recoverNext ∧ available ∧ sequence = requested then
    match s.record sequence digest with
    | some s' =>
      let s' := { s' with recoverNext := next sequence, recoverLeft := s.recoverLeft - 1 }
      if s'.recoverLeft ≠ 0 then (s', .continue_) else ({ s' with recovering := false }, .complete)
    | none => ({ s with recovering := false }, .failed)
  else ({ s with recovering := false }, .failed)

/-! ## Histories -/

/-- One call. -/
inductive Call where
  | classify (sequence : UInt32) (digest : Digest)
  | record (sequence : UInt32) (digest : Digest)
  | begin (target : UInt32) (digest : Digest) (first count : UInt32)
  | republished (requested : UInt32) (available : Bool) (sequence : UInt32) (digest : Digest)

/-- The state after a call, with the entry it recorded. -/
def step (s : Sequence) : Call → Sequence × List SequenceEntry
  | .classify _ _ => (s, [])
  | .record sequence digest =>
    match s.record sequence digest with
    | some s' => (s', [⟨sequence, digest⟩])
    | none => (s, [])
  | .begin target digest first count => ((s.begin target digest first count).getD s, [])
  | .republished requested available sequence digest =>
    let result := s.republished requested available sequence digest
    (result.1, if result.2 = .failed then [] else [⟨sequence, digest⟩])

/-- The state after a history, with the entries recorded in it, the newest first. -/
def run (s : Sequence) (calls : List Call) : Sequence × List SequenceEntry :=
  calls.foldl (fun (s, log) call => ((step s call).1, (step s call).2 ++ log)) (s, [])

/-- Republishing: every pending number arrives, with some digest. -/
def recover (s : Sequence) : List Digest → Sequence × List Recovery
  | [] => (s, [])
  | digest :: digests =>
    match s.pending with
    | some sequence =>
      let (s', recovery) := s.republished sequence true sequence digest
      ((s'.recover digests).1, recovery :: (s'.recover digests).2)
    | none => (s, [])

/-! ## The ring -/

/-- The next number of the ring, and 1 behind the number 0 of a new subscription. -/
def successor (n : Nat) : Nat := n % ring + 1

theorem toNat_expected (s : Sequence) : s.expected.toNat = successor s.last.toNat := by
  have hlt := s.last.toNat_lt
  unfold expected next successor ring
  split_ifs with h0 hmax
  · rw [hmax]
    rfl
  · have hne : s.last.toNat ≠ 4294967295 := fun h => hmax (UInt32.toNat_inj.mp h)
    rw [Nat.mod_eq_of_lt (a := s.last.toNat) (by omega)]
    exact Nat.mod_eq_of_lt (by simp; omega)
  · rw [not_not.mp h0]
    rfl

variable {s s' : Sequence} {sequence : UInt32} {digest : Digest} {log : List SequenceEntry}

theorem expected_ne_zero (s : Sequence) : s.expected ≠ 0 := fun h => by
  simpa [h, successor] using s.toNat_expected

theorem record_eq_some : s.record sequence digest = some s' ↔ sequence = s.expected ∧ s' = { s with
      cache := Function.update s.cache s.head ⟨sequence, digest⟩
      head := (s.head + 1) % cacheSize
      count := if s.count < cacheSize then s.count + 1 else s.count
      last := sequence } := by
  have hpos := s.expected_ne_zero
  unfold record
  by_cases h : sequence = s.expected
  · simp [h, hpos, eq_comm]
  · simp [h]

/-! ## The cache -/

/-- **A recorded entry comes first in the cache**, and the 1024th falls out. -/
theorem recent_record (hhead : s.head < cacheSize) (hcount : s.count ≤ cacheSize)
    (h : s.record sequence digest = some s') :
    s'.recent = (⟨sequence, digest⟩ :: s.recent).take cacheSize ∧ s'.head < cacheSize ∧
      s'.count ≤ cacheSize := by
  obtain ⟨-, rfl⟩ := record_eq_some.mp h
  have hsize : (if s.count < cacheSize then s.count + 1 else s.count) = min 1023 s.count + 1 := by
    unfold cacheSize at hcount ⊢
    split_ifs <;> omega
  unfold cacheSize at hhead
  refine ⟨?_, Nat.mod_lt _ (by decide), le_of_eq_of_le hsize (by unfold cacheSize; omega)⟩
  simp only [recent, hsize, range_succ_eq_map, map_cons, map_map]
  simp only [cacheSize, take_succ_cons, ← map_take, take_range, cons.injEq]
  constructor
  · rw [show ((s.head + 1) % 1024 + 1024 - 1 - 0) % 1024 = s.head by omega, Function.update_self]
  · refine map_congr_left fun i hi => ?_
    have hi := mem_range.mp hi
    rw [Function.comp_apply,
      show ((s.head + 1) % 1024 + 1024 - 1 - i.succ) % 1024 = (s.head + 1024 - 1 - i) % 1024 by omega]
    exact Function.update_of_ne (by omega) _ _

/-- The state after the entries of a log, the newest first, were recorded behind a number. -/
structure Follows (start : UInt32) (log : List SequenceEntry) (s : Sequence) : Prop where
  head : s.head < cacheSize
  count : s.count ≤ cacheSize
  recent : s.recent = log.take cacheSize
  last : s.last = (log.head?.map SequenceEntry.sequence).getD start
  chain : List.IsChain (fun a b => a = successor b) (log.map (·.sequence.toNat) ++ [start.toNat])
  back : ∀ i entry, log[i]? = some entry →
    entry.sequence ≠ 0 ∧ (entry.sequence.toNat + i) % ring = s.last.toNat % ring

theorem init_follows (start : UInt32) : Follows start [] (init start) :=
  ⟨Nat.zero_lt_succ _, Nat.zero_le _, rfl, rfl, List.IsChain.singleton _, by simp⟩

theorem Follows.record {start : UInt32} (h : Follows start log s)
    (hs : s.record sequence digest = some s') : Follows start (⟨sequence, digest⟩ :: log) s' := by
  obtain ⟨hrecent, hhead, hcount⟩ := recent_record h.head h.count hs
  obtain ⟨rfl, rfl⟩ := record_eq_some.mp hs
  refine ⟨hhead, hcount, ?_, rfl, ?_, fun i entry hi => ?_⟩
  · rw [hrecent, h.recent]
    simp [cacheSize, take_take]
  · have hlast := h.last
    cases log <;>
      exact isChain_cons_cons.mpr ⟨(toNat_expected s).trans (by rw [hlast]; rfl), h.chain⟩
  · cases i with
    | zero =>
      cases hi
      exact ⟨s.expected_ne_zero, rfl⟩
    | succ i =>
      obtain ⟨hpos, hback⟩ := h.back i entry hi
      refine ⟨hpos, ?_⟩
      rw [toNat_expected]
      unfold successor ring at *
      omega

/-- **One call** records nothing or the number that is expected. -/
theorem step_follows {start : UInt32} (h : Follows start log s) (call : Call) :
    Follows start ((step s call).2 ++ log) (step s call).1 := by
  cases call with
  | classify sequence digest => exact h
  | record sequence digest =>
    simp only [step]
    cases hs : s.record sequence digest with
    | some s' => exact h.record hs
    | none => exact h
  | begin target digest first count =>
    simp only [step, begin]
    split_ifs
    · exact h
    · exact { h with }
  | republished requested available sequence digest =>
    by_cases hreq : s.recovering ∧ requested = s.recoverNext ∧ available ∧ sequence = requested
    · obtain ⟨hr, rfl, ha, rfl⟩ := hreq
      cases hs : s.record s.recoverNext digest with
      | some s' =>
        have hs' := h.record hs
        by_cases hleft : s.recoverLeft - 1 = 0
        · simpa [step, republished, hr, ha, hs, hleft] using { hs' with }
        · simpa [step, republished, hr, ha, hs, hleft] using { hs' with }
      | none => simpa [step, republished, hs] using { h with }
    · simpa [step, republished, hreq] using { h with }

theorem run_follows (start : UInt32) (calls : List Call) :
    Follows start (run (init start) calls).2 (run (init start) calls).1 := by
  have go : ∀ (calls : List Call) s log, Follows start log s → Follows start
      (calls.foldl (fun (s, log) call => ((step s call).1, (step s call).2 ++ log)) (s, log)).2
      (calls.foldl (fun (s, log) call => ((step s call).1, (step s call).2 ++ log)) (s, log)).1 := by
    intro calls
    induction calls with
    | nil => exact fun _ _ h => h
    | cons call calls ih => exact fun s log h => ih _ _ (step_follows h call)
  exact go calls _ _ (init_follows start)

/-! ## Verdicts -/

variable {start : UInt32}

section

variable (h : Follows start log s)
include h

/-- Where an entry of the cache is in the log. -/
theorem Follows.mem_recent {entry : SequenceEntry} (hentry : entry ∈ s.recent) :
    ∃ i < 1024, log[i]? = some entry := by
  rw [h.recent] at hentry
  obtain ⟨i, hi⟩ := mem_iff_getElem?.mp hentry
  rw [getElem?_take] at hi
  split_ifs at hi with hlt
  exact ⟨i, hlt, hi⟩

theorem Follows.cached_expected : s.cached s.expected = none := by
  refine find?_eq_none.mpr fun entry hentry heq => ?_
  obtain ⟨i, hlt, hi⟩ := h.mem_recent hentry
  have hback := (h.back i entry hi).2
  rw [of_decide_eq_true heq, toNat_expected] at hback
  unfold successor ring at hback
  omega

theorem Follows.cached_recorded {entry : SequenceEntry}
    (hentry : entry ∈ log.take cacheSize) : s.cached entry.sequence = some entry := by
  rw [← h.recent] at hentry
  cases hfound : s.cached entry.sequence with
  | none => exact absurd (find?_eq_none.mp hfound entry hentry) (by simp)
  | some found =>
    have hseq : found.sequence = entry.sequence := by simpa using find?_some hfound
    obtain ⟨i, hi, hi'⟩ := h.mem_recent hentry
    obtain ⟨j, hj, hj'⟩ := h.mem_recent (mem_of_find?_eq_some hfound)
    have hsame : i = j := by
      have h1 := (h.back i entry hi').2
      have h2 := (h.back j found hj').2
      rw [hseq] at h2
      unfold ring at h1 h2
      omega
    rw [← hsame, hi'] at hj'
    exact hj'.symm

/-- **The verdict `deliver`** is for the number that is expected. -/
theorem Follows.classify_deliver : s.classify sequence digest = .deliver ↔ sequence = s.expected := by
  constructor
  · intro hd
    unfold classify at hd
    split_ifs at hd with h0
    split at hd
    · split_ifs at hd
    · dsimp only at hd
      split_ifs at hd with hdist
      have hseq := sequence.toNat_lt
      have hexp := s.expected.toNat_lt
      have hpos : sequence.toNat ≠ 0 := fun hz => h0 (UInt32.toNat_inj.mp hz)
      have hpos' : s.expected.toNat ≠ 0 := fun hz => s.expected_ne_zero (UInt32.toNat_inj.mp hz)
      unfold ring at hdist
      exact UInt32.toNat_inj.mp (by omega)
  · rintro rfl
    rw [classify, if_neg s.expected_ne_zero, h.cached_expected]
    exact if_pos (by rw [Nat.add_sub_cancel_left]; rfl)

end

theorem iterate_successor {n : Nat} (hn : n ≠ 0) (hle : n ≤ ring) (k : Nat) :
    successor^[k] n = (n - 1 + k) % ring + 1 := by
  induction k with
  | zero =>
    unfold ring at *
    rw [Function.iterate_zero_apply]
    omega
  | succ k ih =>
    rw [Function.iterate_succ_apply', ih, successor, Nat.mod_add_mod, Nat.add_assoc]

/-- **The verdict `gap`** names the run in front of the number. -/
theorem classify_gap {first count : UInt32} (hg : s.classify sequence digest = .gap first count) :
    first = s.expected ∧ count ≠ 0 ∧ count ≤ republishLimit ∧
      successor^[count.toNat] first.toNat = sequence.toNat := by
  unfold classify at hg
  split_ifs at hg with h0
  split at hg
  · split_ifs at hg
  · dsimp only at hg
    split_ifs at hg with hdist hstale hlarge
    obtain ⟨rfl, rfl⟩ := Verdict.gap.inj hg
    have hseq := sequence.toNat_lt
    have hexp := s.expected.toNat_lt
    have hpos : sequence.toNat ≠ 0 := fun hz => h0 (UInt32.toNat_inj.mp hz)
    have hpos' : s.expected.toNat ≠ 0 := fun hz => s.expected_ne_zero (UInt32.toNat_inj.mp hz)
    generalize hd : (sequence.toNat - 1 + ring - (s.expected.toNat - 1)) % ring = d at *
    have hlimit : d ≤ 100 := Nat.not_lt.mp hlarge
    have hcount : (UInt32.ofNat d).toNat = d := UInt32.toNat_ofNat_of_lt' (by unfold UInt32.size; omega)
    refine ⟨rfl, fun hz => hdist ?_, UInt32.le_iff_toNat_le.mpr (by rw [hcount]; exact hlimit), ?_⟩
    · rw [← hcount, hz]
      rfl
    · unfold ring at hd
      rw [iterate_successor hpos' (by unfold ring; omega)]
      unfold ring
      omega

/-! ## Recovery -/

theorem begin_eq_some {target first count : UInt32} : s.begin target digest first count = some s' ↔
    s.recovering = false ∧ count ≠ 0 ∧ count ≤ republishLimit ∧ first = s.expected ∧ s' = { s with
      recovering := true, recoverNext := first, recoverLeft := count, target, targetDigest := digest } := by
  unfold begin
  split_ifs with h
  · simp only [false_iff]
    rintro ⟨h1, h2, h3, h4, -⟩
    simp [h1, h2, h4] at h
    exact absurd h3 (UInt32.not_le.mpr h)
  · simp only [not_or, not_not, UInt32.not_lt] at h
    simp [h, eq_comm]

/-- **The missing run arrives.** -/
theorem Follows.recover (h : Follows start log s) (hr : s.recovering = true)
    (hn : s.recoverNext = s.expected) (digests : List Digest) (hd : digests ≠ [])
    (hl : s.recoverLeft.toNat = digests.length) :
    (s.recover digests).2 = replicate (digests.length - 1) .continue_ ++ [.complete] ∧
      ∃ log', Follows start log' (s.recover digests).1 ∧
        (s.recover digests).1.expected.toNat = successor^[digests.length] s.expected.toNat := by
  induction digests generalizing s log with
  | nil => exact absurd rfl hd
  | cons digest digests ih =>
    have hpending : s.pending = some s.expected := by
      have hleft : s.recoverLeft ≠ 0 := fun hz => by simp [hz] at hl
      simp [pending, hr, hleft, hn]
    obtain ⟨s₁, hs₁⟩ : ∃ s₁, s.record s.expected digest = some s₁ :=
      ⟨_, record_eq_some.mpr ⟨rfl, rfl⟩⟩
    have h₁ := h.record hs₁
    have hlast : s₁.last = s.expected ∧ s₁.recovering = true := by
      obtain ⟨-, rfl⟩ := record_eq_some.mp hs₁
      exact ⟨rfl, hr⟩
    have hexpected : s₁.expected = next s.expected := by
      rw [expected, hlast.1, if_pos s.expected_ne_zero]
    have hsucc : s₁.expected.toNat = successor s.expected.toNat := hlast.1 ▸ toNat_expected s₁
    have hleft : (s.recoverLeft - 1).toNat = digests.length := by
      rw [UInt32.toNat_sub_of_le _ _ (UInt32.le_iff_toNat_le.mpr (by simp [hl])), hl]
      rfl
    simp only [Sequence.recover, hpending, republished, hr, hn, hs₁]
    cases digests with
    | nil =>
      have hz : s.recoverLeft - 1 = 0 := UInt32.toNat_inj.mp hleft
      simp only [hz]
      exact ⟨rfl, _, { h₁ with }, hsucc⟩
    | cons d ds =>
      have hz : s.recoverLeft - 1 ≠ 0 := fun hz => by simp [hz] at hleft
      obtain ⟨hresults, log', h', hend⟩ := ih (s := { s₁ with
        recoverNext := next s.expected, recoverLeft := s.recoverLeft - 1 })
        { h₁ with } hlast.2 hexpected.symm (cons_ne_nil _ _) hleft
      rw [if_pos hz]
      refine ⟨?_, log', h', ?_⟩
      · exact congrArg (Recovery.continue_ :: ·) hresults
      · rw [length_cons, Function.iterate_succ_apply, ← hsucc]
        exact hend

/-- **Publish sequencing delivers a gap-free run.** Over every history of calls behind a start: the numbers
recorded are consecutive on the ring; `deliver` is the verdict on the successor of the last one exactly; an
entry among the last 1024 is a duplicate or a conflict; and a gap is the run in front of the number, at most
100 long, so that a recovery begun for it completes when the run arrives, and the number is then delivered. -/
theorem sequencing (start : UInt32) (calls : List Call) :
    let s := (run (init start) calls).1
    let log := (run (init start) calls).2
    let numbers := log.map (·.sequence.toNat) ++ [start.toNat]
    numbers.IsChain (fun a b => a = successor b) ∧ numbers.head? = some s.last.toNat ∧
    (∀ sequence digest, s.classify sequence digest = .deliver ↔ sequence.toNat = successor s.last.toNat) ∧
    (∀ entry ∈ log.take 1024, ∀ digest, s.classify entry.sequence digest =
      if entry.digest = digest then .duplicate else .conflict) ∧
    ∀ target digest first count, s.classify target digest = .gap first count →
      first.toNat = successor s.last.toNat ∧ successor^[count.toNat] first.toNat = target.toNat ∧
      count.toNat ≤ 100 ∧ ((s.begin target digest first count).isSome ↔ s.recovering = false) ∧
      ∀ s', s.begin target digest first count = some s' → ∀ digests : List Digest,
        digests.length = count.toNat →
        (s'.recover digests).2 = replicate (count.toNat - 1) .continue_ ++ [.complete] ∧
        ∀ digest', (s'.recover digests).1.classify target digest' = .deliver := by
  intro s log numbers
  have h : Follows start log s := run_follows start calls
  refine ⟨h.chain, ?_, fun sequence digest => ?_, fun entry hentry digest => ?_,
    fun target digest first count hg => ?_⟩
  · rw [h.last]
    cases hlog : log <;> simp [numbers, hlog]
  · rw [h.classify_deliver, ← toNat_expected, UInt32.toNat_inj]
  · obtain ⟨i, hi⟩ := mem_iff_getElem?.mp (mem_of_mem_take hentry)
    rw [classify, if_neg (h.back i entry hi).1, h.cached_recorded hentry]
  · obtain ⟨rfl, hzero, hlimit, hrun⟩ := classify_gap hg
    refine ⟨toNat_expected s, hrun, UInt32.le_iff_toNat_le.mp hlimit, ?_, fun s' hs' digests hd => ?_⟩
    · rw [Option.isSome_iff_exists]
      simp [begin_eq_some, hzero, hlimit]
    · obtain ⟨-, -, -, -, rfl⟩ := begin_eq_some.mp hs'
      have hne : digests ≠ [] := by
        rintro rfl
        exact hzero (UInt32.toNat_inj.mp hd.symm)
      obtain ⟨hresults, log', h', hend⟩ := Follows.recover (s := { s with
        recovering := true, recoverNext := s.expected, recoverLeft := count, target, targetDigest := digest })
        { h with } rfl rfl digests hne hd.symm
      rw [hd] at hresults hend
      exact ⟨hresults, fun digest' => h'.classify_deliver.mpr (UInt32.toNat_inj.mp (hrun.symm.trans hend.symm))⟩

/-- Behind `2^32 - 2` and `2^32 - 1` the number 3 shows a gap of two, across the wrap, that is recovered. -/
theorem wrap_recovered :
    (let calls : List Call := [.record 4294967294 blank, .record 4294967295 blank]
     let s := (run (init 4294967293) calls).1
     s.classify 3 blank = .gap 1 2 ∧ s.classify 4294967295 blank = .duplicate ∧
      ∃ s', s.begin 3 blank 1 2 = some s' ∧ (s'.recover [blank, blank]).2 = [.continue_, .complete] ∧
        (s'.recover [blank, blank]).1.classify 3 blank = .deliver) := by
  intro calls s
  have hgap : s.classify 3 blank = .gap 1 2 := by decide +kernel
  obtain ⟨-, -, -, -, hgaps⟩ := sequencing 4294967293 calls
  obtain ⟨-, -, -, hbegin, hrecover⟩ := hgaps 3 blank 1 2 hgap
  obtain ⟨s', hs'⟩ := Option.isSome_iff_exists.mp (hbegin.mpr rfl)
  obtain ⟨hresults, hdeliver⟩ := hrecover s' hs' [blank, blank] rfl
  exact ⟨hgap, by decide +kernel, s', hs', hresults, hdeliver blank⟩

end Sequence

end Wotex.Opcua
