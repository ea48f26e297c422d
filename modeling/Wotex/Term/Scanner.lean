import Mathlib.Data.List.Basic

/-!
# Scanners of streams that arrive in chunks

A scanner looks at the head of what has arrived and waits, takes an item off, or refuses. Once it has
decided, more input changes nothing about the decision (`take_append`, `refuse_append`), which is all
that chunk invariance needs.

* `scan_append`: scanning `l ++ m` is scanning `l` and going on with what it left, followed by `m`.
* `feed_scan`: feeding chunk after chunk comes to the end of scanning the whole stream at once, with the
  same outputs where nothing is refused. A refused chunk delivers nothing, so where the stream is refused
  the outputs delivered before are a front part of those of the whole.
-/

namespace Wotex.Scanning

open List

/-- What a scanner makes of the input at hand. -/
inductive Decision (β ω : Type) where
  /-- Nothing is decided yet. -/
  | wait
  /-- An output, and the input behind it. -/
  | take (output : ω) (rest : List β)
  /-- The stream is refused. -/
  | refuse

/-- A scanner whose decisions do not depend on what comes later. -/
structure Scanner (β ω : Type) where
  decide : List β → Decision β ω
  shrinks : ∀ {l o rest}, decide l = .take o rest → rest.length < l.length
  take_append : ∀ {l o rest} (m), decide l = .take o rest → decide (l ++ m) = .take o (rest ++ m)
  refuse_append : ∀ {l} (m), decide l = .refuse → decide (l ++ m) = .refuse

namespace Scanner

variable {β ω : Type} (s : Scanner β ω)

/-- Scanning with a bound on the number of decisions. -/
def scanWith : Nat → List β → List ω × Option (List β)
  | 0, l => ([], some l)
  | n + 1, l =>
    match s.decide l with
    | .wait => ([], some l)
    | .take o rest => (o :: (scanWith n rest).1, (scanWith n rest).2)
    | .refuse => ([], none)

/-- The outputs of a stream, and what is left of it unless it is refused. -/
def scan (l : List β) : List ω × Option (List β) := s.scanWith (l.length + 1) l

/-- Feeding chunks behind what earlier ones left: a refused chunk delivers nothing and ends it. -/
def feed : List β → List (List β) → List ω × Option (List β)
  | buffer, [] => ([], some buffer)
  | buffer, chunk :: chunks =>
    match s.scan (buffer ++ chunk) with
    | (o, some rest) => (o ++ (feed rest chunks).1, (feed rest chunks).2)
    | (_, none) => ([], none)

variable {s}

theorem scanWith_eq : ∀ {n : Nat} {l : List β}, l.length < n → s.scanWith n l = s.scan l := by
  have step : ∀ (k n : Nat) (l : List β), l.length < n → l.length < k →
      s.scanWith n l = s.scanWith k l := by
    intro k
    induction k with
    | zero => intro n l _ hk; exact absurd hk (Nat.not_lt_zero _)
    | succ k ih =>
      intro n l hn hk
      cases n with
      | zero => exact absurd hn (Nat.not_lt_zero _)
      | succ n =>
        unfold scanWith
        cases hd : s.decide l with
        | wait => rfl
        | refuse => rfl
        | take o rest =>
          have hlt := s.shrinks hd
          dsimp only
          rw [ih n rest (by omega) (by omega)]
  intro n l h
  exact step _ _ _ h (Nat.lt_succ_self _)

theorem scan_wait {l : List β} (h : s.decide l = .wait) : s.scan l = ([], some l) := by
  rw [scan, scanWith, h]

theorem scan_refuse {l : List β} (h : s.decide l = .refuse) : s.scan l = ([], none) := by
  rw [scan, scanWith, h]

theorem scan_take {l rest : List β} {o : ω} (h : s.decide l = .take o rest) :
    s.scan l = (o :: (s.scan rest).1, (s.scan rest).2) := by
  have hlt := s.shrinks h
  rw [scan, scanWith, h]
  dsimp only
  rw [scanWith_eq (by omega)]

theorem induct {P : List β → Prop} (wait : ∀ l, s.decide l = .wait → P l)
    (refuse : ∀ l, s.decide l = .refuse → P l)
    (take : ∀ l o rest, s.decide l = .take o rest → P rest → P l) (l : List β) : P l := by
  induction hn : l.length using Nat.strongRecOn generalizing l with
  | ind n ih =>
    cases hd : s.decide l with
    | wait => exact wait l hd
    | refuse => exact refuse l hd
    | take o rest =>
      have hlt := s.shrinks hd
      exact take l o rest hd (ih rest.length (by omega) rest rfl)

theorem wait_of_scan {l rest : List β} (h : (s.scan l).2 = some rest) : s.decide rest = .wait := by
  induction l using s.induct with
  | wait l hd =>
    rw [scan_wait hd] at h
    exact Option.some.inj h ▸ hd
  | refuse l hd =>
    rw [scan_refuse hd] at h
    cases h
  | take l o r hd ih =>
    rw [scan_take hd] at h
    exact ih h

theorem length_le_of_scan {l rest : List β} (h : (s.scan l).2 = some rest) : rest.length ≤ l.length := by
  induction l using s.induct with
  | wait l hd =>
    rw [scan_wait hd] at h
    exact Option.some.inj h ▸ Nat.le_refl _
  | refuse l hd =>
    rw [scan_refuse hd] at h
    cases h
  | take l o r hd ih =>
    rw [scan_take hd] at h
    have := s.shrinks hd
    have := ih h
    omega

/-- **Scanning a stream that goes on.** -/
theorem scan_append (l m : List β) : s.scan (l ++ m) = match s.scan l with
      | (o, some rest) => (o ++ (s.scan (rest ++ m)).1, (s.scan (rest ++ m)).2)
      | (o, none) => (o, none) := by
  induction l using s.induct with
  | wait l hd =>
    rw [scan_wait hd]
    rfl
  | refuse l hd =>
    rw [scan_refuse hd, scan_refuse (s.refuse_append m hd)]
  | take l o rest hd ih =>
    rw [scan_take (s.take_append m hd), scan_take hd, ih]
    obtain ⟨outputs, left⟩ := s.scan rest
    cases left <;> rfl

/-- **Chunk invariance.** From a buffer that is waiting, feeding chunks ends as scanning the buffer and
the whole stream does; the outputs are the same where the stream is not refused, and a front part of them
otherwise. -/
theorem feed_scan {buffer : List β} (chunks : List (List β)) (hb : s.decide buffer = .wait) :
    (s.feed buffer chunks).2 = (s.scan (buffer ++ chunks.flatten)).2 ∧
      (s.feed buffer chunks).1 <+: (s.scan (buffer ++ chunks.flatten)).1 ∧
      ((s.scan (buffer ++ chunks.flatten)).2 ≠ none →
        (s.feed buffer chunks).1 = (s.scan (buffer ++ chunks.flatten)).1) := by
  induction chunks generalizing buffer with
  | nil =>
    rw [flatten_nil, append_nil, scan_wait hb]
    exact ⟨rfl, prefix_refl _, fun _ => rfl⟩
  | cons chunk chunks ih =>
    rw [flatten_cons, ← append_assoc, scan_append, feed]
    cases hend : (s.scan (buffer ++ chunk)).2 with
    | none =>
      rw [show s.scan (buffer ++ chunk) = ((s.scan (buffer ++ chunk)).1, none) from Prod.ext rfl hend]
      exact ⟨rfl, nil_prefix, fun h => absurd rfl h⟩
    | some rest =>
      rw [show s.scan (buffer ++ chunk) = ((s.scan (buffer ++ chunk)).1, some rest) from Prod.ext rfl hend]
      obtain ⟨hsame, hfront, heq⟩ := ih (wait_of_scan hend)
      refine ⟨hsame, ?_, fun h => ?_⟩
      · exact prefix_append_right_inj _ |>.mpr hfront
      · dsimp only
        rw [heq h]

end Scanner

end Wotex.Scanning
