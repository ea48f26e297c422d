import Wotex.Udp.Admission
import Mathlib.Data.List.Perm.Basic

/-!
# Producers against the owner

`enqueue` reads the row and then replaces it if it is still the row it read, in up to 64 attempts; `take` and
`release` do the same until they succeed. A `System` is the table with any number of producers, each between
two accesses to the table, and the single owner; a `Move` is one access, so a list of moves is one
interleaving. When the owner stops its table is gone, and what a producer then tries is refused.

The owner releases requests it has taken, each once (`ingest/2`, `reject/3` and `finish/3` of `owner.ex`).

A replacement succeeds only on the row that was read, so it is an atomic change of the row (`Ledger.Step`);
`Invariant` adds to the accounts of the row who wakes the owner and how far the owner's retries can go.

Results: `Invariant.step` and `Invariant.run` (one access, and every interleaving), `admission_in_order`.
Out of scope: the socket, and the requests of the callers after their admission.
-/

namespace Wotex.Udp

open List

/-! ## The system -/

/-- Where a call of `enqueue/2` is: about to read or to replace the row it has read, with the attempts that
are left, about to send the wakeup it was given, or finished. -/
inductive Phase where
  | reading (attempts : Nat)
  | swapping (attempts : Nat) (old : Row)
  | admitted (wake : Option Nat)
  | finished (result : Except Kind (Option Nat))

/-- A caller of `enqueue/2`. -/
structure Producer where
  request : Request
  phase : Phase

/-- `enqueue/2` has admitted the request. -/
def Phase.ok : Phase → Bool
  | .admitted _ | .finished (.ok _) => true
  | _ => false

/-- An update of the owner. -/
inductive Task where
  | take (notification : Nat)
  | release (id : Nat)
  deriving DecidableEq

/-- Where the owner is in `mutate/2`, with the number of replacements that failed. -/
inductive OwnerPhase where
  | idle
  | reading (task : Task) (failures : Nat)
  | swapping (task : Task) (failures : Nat) (old : Row)
  deriving DecidableEq

/-- The table, the producers and the owner, with the requests the owner took and has not released, the
notification aliases made so far, and the record of the table. -/
structure System where
  table : Option Row
  producers : List Producer
  owner : OwnerPhase
  pending : List Nat
  aliases : Nat
  events : List Event

/-- `init/1` of the owner. -/
def System.new (maxCalls maxBytes : Nat) : System :=
  ⟨some (.new maxCalls maxBytes 0), [], .idle, [], 1, []⟩

/-- One access to the table, or the start of a call. -/
inductive Move where
  | enqueue (request : Request)
  | producer (index : Nat)
  | take
  | release (id : Nat)
  | owner
  | stop

namespace System

variable (s : System)

/-- The producer at a place has the phase. -/
def become (index : Nat) (p : Producer) (phase : Phase) : System :=
  { s with producers := s.producers.set index { p with phase := phase } }

/-- The table after a replacement by a producer. -/
def replaced (old updated : Row) (request : Request) : System :=
  { s with table := some updated, events := s.events ++ [.admitted (old.item request)] }

/-- The next access of a producer, `reserve/3`. The update is the one it computed from the row it read. -/
def advance (index : Nat) (p : Producer) : System :=
  match p.phase with
  | .reading 0 => s.become index p (.finished (.error .overload))
  | .reading (attempts + 1) =>
    match s.table with
    | none => s.become index p (.finished (.error .invalidHandle))
    | some row =>
      match row.insert p.request with
      | .error kind => s.become index p (.finished (.error kind))
      | .ok _ => s.become index p (.swapping attempts row)
  | .swapping attempts old =>
    match s.table with
    | none => s.become index p (.finished (.error .invalidHandle))
    | some row =>
      if row = old then
        match old.insert p.request with
        | .error kind => s.become index p (.finished (.error kind))
        | .ok updated =>
          (s.replaced old updated p.request).become index p
            (.admitted (if old.notified then none else some old.notification))
      else s.become index p (.reading attempts)
  | .admitted wake => s.become index p (.finished (.ok wake))
  | .finished result => s.become index p (.finished result)

/-- The owner's update of a row, with what it records. -/
def commit (row : Row) : Task → System
  | .take notification =>
    { s with
      table := some (row.take notification)
      owner := .idle
      pending := s.pending ++ row.published.map Item.id
      events := s.events ++ [.taken row.published] }
  | .release id =>
    { s with
      table := some (row.release id)
      owner := .idle
      pending := s.pending.filter (· ≠ id)
      events := s.events ++ [.released id] }

/-- The next access of the owner, `mutate/2`. -/
def mutate (row : Row) : System :=
  match s.owner with
  | .idle => s
  | .reading task failures => { s with owner := .swapping task failures row }
  | .swapping task failures old =>
    if row = old then s.commit row task else { s with owner := .reading task (failures + 1) }

/-- One move; a move that is not possible changes nothing. -/
def step : Move → System
  | .enqueue request =>
    let phase := if request.valid then .reading 64 else .finished (.error .invalidHandle)
    { s with producers := s.producers ++ [⟨request, phase⟩] }
  | .producer index =>
    match s.producers[index]? with
    | none => s
    | some p => s.advance index p
  | .take =>
    if s.table.isSome ∧ s.owner = .idle then
      { s with owner := .reading (.take s.aliases) 0, aliases := s.aliases + 1 }
    else s
  | .release id =>
    if s.table.isSome ∧ s.owner = .idle ∧ id ∈ s.pending then { s with owner := .reading (.release id) 0 }
    else s
  | .owner =>
    match s.table with
    | none => s
    | some row => s.mutate row
  | .stop => { s with table := none, owner := .idle }

/-- An interleaving. -/
def run (moves : List Move) : System := moves.foldl step s

/-- The requests of the callers that were admitted. -/
def accepted : List Request := (s.producers.filter (·.phase.ok)).map Producer.request

/-- A producer was given the wakeup for an alias: it has sent it or is about to. -/
def Wakes (alias_ : Nat) : Prop :=
  ∃ p ∈ s.producers, p.phase = .admitted (some alias_) ∨ p.phase = .finished (.ok (some alias_))

end System

/-! ## The invariant -/

/-- The owner releases what it has taken. -/
def Task.Allowed (pending : List Nat) : Task → Prop
  | .take _ => True
  | .release id => id ∈ pending

/-- Every failure of the owner is answered by a request admitted since it started. -/
def OwnerPhase.Paced (row : Row) (pending : List Nat) : OwnerPhase → Prop
  | .idle => True
  | .reading task failures => task.Allowed pending ∧ failures ≤ row.requests.length
  | .swapping task failures old => task.Allowed pending ∧ failures ≤ old.requests.length ∧
      (row = old ∨ old.requests.length < row.requests.length)

/-- What holds of the table while the owner runs. -/
structure System.Live (s : System) (maxCalls maxBytes : Nat) (row : Row) : Prop where
  calls : row.maxCalls = maxCalls
  bytes : row.maxBytes = maxBytes
  accounts : Ledger.Accounts ⟨row, s.events⟩
  wakes : row.notified = true → s.Wakes row.notification
  pending : ∀ id ∈ s.pending, ∃ i ∈ row.requests, i.id = id ∧ i.claimed = true
  paced : s.owner.Paced row s.pending

/-- The invariant of the system. -/
structure System.Invariant (s : System) (maxCalls maxBytes : Nat) : Prop where
  history : History maxCalls maxBytes s.events
  accepted : ((admissions s.events).map Item.request).Perm s.accepted
  live : ∀ row, s.table = some row → s.Live maxCalls maxBytes row

namespace System

variable {s : System} {maxCalls maxBytes index : Nat} {p : Producer} {phase : Phase} {row : Row}

theorem new_invariant (maxCalls maxBytes : Nat) :
    (System.new maxCalls maxBytes).Invariant maxCalls maxBytes where
  history := (new_accounts maxCalls maxBytes 0).history
  accepted := List.Perm.nil
  live row hrow := by
    cases hrow
    exact ⟨rfl, rfl, new_accounts maxCalls maxBytes 0, nofun, by simp [System.new], trivial⟩

theorem mem_set_of_ne {l : List Producer} {p' q : Producer} (hp : l[index]? = some p) (hq : q ∈ l)
    (hne : q ≠ p) : q ∈ l.set index p' := by
  obtain ⟨j, hj⟩ := mem_iff_getElem?.mp hq
  refine mem_iff_getElem?.mpr ⟨j, ?_⟩
  rw [getElem?_set_ne (fun h => hne ?_)]
  · exact hj
  · rw [h, hj] at hp
    exact Option.some.inj hp

/-- A producer that goes on keeps the wakeups that were given: one that was given one only goes on to send
it. -/
theorem wakes_become (hp : s.producers[index]? = some p)
    (hphase : ∀ wake, p.phase = .admitted wake ∨ p.phase = .finished (.ok wake) →
      phase = .finished (.ok wake)) {alias_ : Nat} (h : s.Wakes alias_) :
    (s.become index p phase).Wakes alias_ := by
  obtain ⟨q, hq, hwake⟩ := h
  by_cases hqp : q = p
  · subst hqp
    refine ⟨{ q with phase := phase }, ?_, Or.inr (hphase _ hwake)⟩
    exact List.mem_set (List.getElem?_eq_some_iff.mp hp).1 _
  · exact ⟨q, mem_set_of_ne hp hq hqp, hwake⟩

theorem accepted_perm (hp : s.producers[index]? = some p) (phase : Phase) :
    ∃ others, s.accepted.Perm ((if p.phase.ok then [p.request] else []) ++ others) ∧
      (s.become index p phase).accepted.Perm ((if phase.ok then [p.request] else []) ++ others) := by
  obtain ⟨hlt, hget⟩ := List.getElem?_eq_some_iff.mp hp
  have split : ∀ (l : List Producer) (q : Producer) (h : index < l.length), l[index] = q →
      ((l.filter (·.phase.ok)).map Producer.request).Perm ((if q.phase.ok then [q.request] else []) ++
        ((l.eraseIdx index).filter (·.phase.ok)).map Producer.request) := by
    intro l q h hq
    have hperm := ((getElem_cons_eraseIdx_perm h).symm.filter (·.phase.ok)).map Producer.request
    rw [hq] at hperm
    split <;> rename_i hok <;> simpa [hok] using hperm
  refine ⟨((s.producers.eraseIdx index).filter fun q : Producer => q.phase.ok).map Producer.request,
    split s.producers p hlt hget, ?_⟩
  have hset := split (s.producers.set index { p with phase := phase }) { p with phase := phase }
    (by simpa using hlt) (getElem_set_self _)
  rwa [eraseIdx_set_eq] at hset

section

variable (h : s.Invariant maxCalls maxBytes)
include h

section

variable (hp : s.producers[index]? = some p)
include hp

theorem Invariant.become
    (hphase : ∀ wake, p.phase = .admitted wake ∨ p.phase = .finished (.ok wake) →
      phase = .finished (.ok wake)) (hok : phase.ok = p.phase.ok) :
    (s.become index p phase).Invariant maxCalls maxBytes where
  history := h.history
  accepted := by
    obtain ⟨others, hold, hnew⟩ := accepted_perm hp phase
    rw [hok] at hnew
    exact h.accepted.trans (hold.trans hnew.symm)
  live row hrow :=
    let live := h.live row hrow
    { live with wakes := fun hn => wakes_become hp hphase (live.wakes hn) }

omit hp in
omit h in
theorem Phase.ok_of_given {wake : Option Nat}
    (h : phase = .admitted wake ∨ phase = .finished (.ok wake)) : phase.ok = true := by
  rcases h with rfl | rfl <;> rfl

/-- A producer that was given nothing yet goes on without being given anything. -/
theorem Invariant.goes (hold : p.phase.ok = false) (hok : phase.ok = false) :
    (s.become index p phase).Invariant maxCalls maxBytes :=
  h.become hp (fun _ hw => absurd (Phase.ok_of_given hw) (by simp [hold])) (hok.trans hold.symm)

theorem Invariant.replaced {old updated : Row} (hphase : p.phase.ok = false) (hrow : s.table = some old)
    (hins : old.insert p.request = .ok updated) : ((s.replaced old updated p.request).become index p
      (.admitted (if old.notified then none else some old.notification))).Invariant maxCalls maxBytes := by
  have live := h.live old hrow
  have haccounts := accounts_step live.accounts (.insert _ p.request updated hins)
  obtain ⟨-, -, -, -, rfl⟩ := insert_eq_ok hins
  refine ⟨?_, ?_, fun row hrow' => ?_⟩
  · rw [← live.calls, ← live.bytes]
    exact haccounts.history
  · obtain ⟨others, hold, hnew⟩ := accepted_perm hp
      (.admitted (if old.notified then none else some old.notification))
    rw [hphase] at hold
    show ((admissions (s.events ++ [.admitted (old.item p.request)])).map Item.request).Perm _
    rw [admissions_append, map_append]
    exact (perm_append_singleton _ _).trans (((h.accepted.trans hold).cons _).trans hnew.symm)
  · obtain rfl := Option.some.inj hrow'
    refine ⟨live.calls, live.bytes, haccounts, fun _ => ?_, fun id hid => ?_, ?_⟩
    · by_cases hn : old.notified = true
      · exact wakes_become hp (fun _ hw => absurd (Phase.ok_of_given hw) (by simp [hphase])) (live.wakes hn)
      · refine ⟨⟨p.request, .admitted (some old.notification)⟩, ?_, Or.inl rfl⟩
        rw [if_neg hn]
        exact List.mem_set (List.getElem?_eq_some_iff.mp hp).1 _
    · obtain ⟨i, hi, hii⟩ := live.pending id hid
      exact ⟨i, mem_append_left _ hi, hii⟩
    · have hpaced := live.paced
      have hlonger : old.requests.length < (old.requests ++ [old.item p.request]).length := by simp
      show s.owner.Paced _ s.pending
      cases howner : s.owner with
      | idle => trivial
      | reading task failures =>
        rw [howner] at hpaced
        exact ⟨hpaced.1, hpaced.2.trans hlonger.le⟩
      | swapping task failures read =>
        rw [howner] at hpaced
        obtain ⟨hallowed, hfail, hread⟩ := hpaced
        refine ⟨hallowed, hfail, Or.inr ?_⟩
        rcases hread with rfl | hread
        · exact hlonger
        · exact hread.trans hlonger

theorem Invariant.advance : (s.advance index p).Invariant maxCalls maxBytes := by
  fun_cases System.advance s index p
  case case7 hrow _ hphase hins =>
    exact h.replaced hp (by rw [hphase]; rfl) hrow hins
  case case9 hphase | case10 hphase =>
    refine h.become hp (fun wake hw => ?_) (by simp [hphase, Phase.ok])
    rw [hphase] at hw
    rcases hw with hw | hw <;> cases hw
    rfl
  all_goals exact h.goes hp (by simp [*, Phase.ok]) rfl

end

/-- A replacement by the owner is a take or the release of a request it took. -/
theorem Invariant.commit (hrow : s.table = some row) {task : Task} (hallowed : task.Allowed s.pending) :
    (s.commit row task).Invariant maxCalls maxBytes := by
  have live := h.live row hrow
  cases task with
  | take notification =>
    have haccounts := accounts_step live.accounts (.take _ notification)
    refine ⟨?_, ?_, fun row' hrow' => ?_⟩
    · rw [← live.calls, ← live.bytes]
      exact haccounts.history
    · show ((admissions (s.events ++ [.taken row.published])).map Item.request).Perm s.accepted
      simpa [admissions] using h.accepted
    · obtain rfl : row.take notification = row' := Option.some.inj hrow'
      refine ⟨live.calls, live.bytes, haccounts, nofun, fun id hid => ?_, trivial⟩
      rcases mem_append.mp hid with hid | hid
      · obtain ⟨i, hi, hii, hclaimed⟩ := live.pending id hid
        exact ⟨i, mem_append_left _ (mem_filter.mpr ⟨hi, hclaimed⟩), hii, hclaimed⟩
      · obtain ⟨i, hi, rfl⟩ := mem_map.mp hid
        refine ⟨{ i with claimed := true }, mem_append_right _ (mem_map_of_mem ?_), rfl, rfl⟩
        exact (sortBy_perm _ _).mem_iff.mp hi
  | release id =>
    obtain ⟨i, hi, rfl, hclaimed⟩ := live.pending id hallowed
    have haccounts := accounts_step live.accounts (.release _ i hi hclaimed)
    have hupdated := live.accounts.release_eq hi
    rw [System.commit]
    rw [hupdated] at haccounts ⊢
    refine ⟨?_, ?_, fun row' hrow' => ?_⟩
    · rw [← live.calls, ← live.bytes]
      exact haccounts.history
    · show ((admissions (s.events ++ [.released i.id])).map Item.request).Perm s.accepted
      simpa [admissions] using h.accepted
    · cases hrow'
      refine ⟨live.calls, live.bytes, haccounts, live.wakes, fun id hid => ?_, trivial⟩
      obtain ⟨hid, hne⟩ := mem_filter.mp hid
      obtain ⟨j, hj, hji, hjc⟩ := live.pending id hid
      exact ⟨j, mem_filter.mpr ⟨hj, by rw [hji]; exact hne⟩, hji, hjc⟩

theorem Invariant.mutate (hrow : s.table = some row) : (s.mutate row).Invariant maxCalls maxBytes := by
  have hpaced := (h.live row hrow).paced
  have goes : ∀ phase : OwnerPhase, phase.Paced row s.pending →
      System.Invariant { s with owner := phase } maxCalls maxBytes := fun phase hphase =>
    ⟨h.history, h.accepted, fun row' hrow' => by
      obtain rfl : row = row' := Option.some.inj (hrow.symm.trans hrow')
      exact { h.live row hrow with paced := hphase }⟩
  fun_cases System.mutate s row
  case case1 => exact h
  case case2 howner =>
    rw [howner] at hpaced
    exact goes _ ⟨hpaced.1, hpaced.2, Or.inl rfl⟩
  case case3 howner =>
    rw [howner] at hpaced
    exact h.commit hrow hpaced.1
  case case4 howner hne =>
    rw [howner] at hpaced
    obtain ⟨hallowed, hfail, hread⟩ := hpaced
    -- the row changed since it was read, so it has grown
    have := hread.resolve_left hne
    exact goes _ ⟨hallowed, by omega⟩

/-- **Every move keeps the invariant.** -/
theorem Invariant.step (move : Move) : (s.step move).Invariant maxCalls maxBytes := by
  have starts : ∀ (task : Task) (aliases : Nat), task.Allowed s.pending → System.Invariant { s with
      owner := .reading task 0, aliases := aliases } maxCalls maxBytes := fun task aliases hallowed =>
    ⟨h.history, h.accepted, fun row hrow => { h.live row hrow with paced := ⟨hallowed, Nat.zero_le _⟩ }⟩
  fun_cases System.step s move
  case case1 request _ =>
    refine ⟨h.history, ?_, fun row hrow => ?_⟩
    · have hnew :
          (if request.valid then Phase.reading 64 else .finished (.error .invalidHandle)).ok = false := by
        split <;> rfl
      show ((admissions s.events).map Item.request).Perm ((filter _ (s.producers ++ [_])).map _)
      rw [filter_append, filter_singleton, hnew]
      simpa [System.accepted] using h.accepted
    have live := h.live row hrow
    refine { live with wakes := fun hn => ?_ }
    obtain ⟨p, hp, hwake⟩ := live.wakes hn
    exact ⟨p, mem_append_left _ hp, hwake⟩
  case case3 hp => exact h.advance hp
  case case4 => exact starts _ _ trivial
  case case6 hid => exact starts _ _ hid.2.2
  case case9 hrow => exact h.mutate hrow
  case case10 => exact ⟨h.history, h.accepted, fun _ => nofun⟩
  all_goals exact h

theorem Invariant.run (moves : List Move) : (s.run moves).Invariant maxCalls maxBytes := by
  induction moves generalizing s with
  | nil => exact h
  | cons move moves ih => exact ih (h.step move)

end

/-- The replacements of the owner's current call that failed. -/
def failures (s : System) : Nat :=
  match s.owner with
  | .idle => 0
  | .reading _ failures => failures
  | .swapping _ failures _ => failures

/-- **Admission over every interleaving**: what the record says of the requests (`History`); the requests it
admits are those of the callers that were told so; the byte counter
is the size of the sends that are not released; while a request waits the table is marked notified and a
producer has the wakeup for the current alias; and a call of the owner fails no more often than `maxCalls`
times, so it does come back. -/
theorem admission_in_order (maxCalls maxBytes : Nat) (moves : List Move) :
    let s := (System.new maxCalls maxBytes).run moves
    History maxCalls maxBytes s.events ∧ ((admissions s.events).map Item.request).Perm s.accepted ∧
      ∀ row, s.table = some row →
        row.bytes = totalBytes (unreleased s.events) ∧
        (row.waiting ≠ [] → row.notified = true ∧ s.Wakes row.notification) ∧
        s.failures ≤ maxCalls := by
  intro s
  have h : s.Invariant maxCalls maxBytes := (new_invariant maxCalls maxBytes).run moves
  refine ⟨h.history, h.accepted, fun row hrow => ?_⟩
  have live := h.live row hrow
  have hcalls : row.requests.length ≤ maxCalls := by
    have := h.history.calls
    rwa [live.accounts.content, length_map] at this
  refine ⟨?_, fun hw => ?_, ?_⟩
  · rw [live.accounts.content, totalBytes_fresh]
    exact live.accounts.bytes
  · have hn := live.accounts.notified hw
    exact ⟨hn, live.wakes hn⟩
  · have hpaced := live.paced
    unfold System.failures
    cases howner : s.owner with
    | idle => exact Nat.zero_le _
    | reading task failures =>
      rw [howner] at hpaced
      exact hpaced.2.trans hcalls
    | swapping task failures old =>
      rw [howner] at hpaced
      obtain ⟨-, hfail, hread⟩ := hpaced
      have : old.requests.length ≤ row.requests.length := by
        rcases hread with rfl | hlt
        · exact Nat.le_refl _
        · exact hlt.le
      exact hfail.trans (this.trans hcalls)

/-- Two sends race for the row, the second one tries again, and the owner takes both. -/
theorem two_sends_in_order :
    (let send (id : Nat) : Request := ⟨id, 1, 1, .send, [.other 0, .binary [1, 2], .number 5], 9, 0⟩
     let moves : List Move := [.enqueue (send 7), .enqueue (send 8), .producer 0, .producer 1, .producer 0,
      .producer 1, .producer 1, .producer 1, .producer 0, .take, .owner, .owner]
     let s := (System.new 2 4).run moves
     returned s.events = admissions s.events ∧ s.accepted = [send 7, send 8] ∧
      History 2 4 s.events ∧ ∃ row, s.table = some row ∧ row.bytes = 4 ∧
        row.bytes = totalBytes (unreleased s.events)) := by
  intro send moves s
  obtain ⟨history, -, live⟩ := admission_in_order 2 4 moves
  obtain ⟨row, hrow, hbytes⟩ : ∃ row, s.table = some row ∧ row.bytes = 4 :=
    ⟨⟨2, 4, 4, 2, 1, false, false, [⟨send 7, 1, true⟩, ⟨send 8, 2, true⟩]⟩, by decide +kernel, rfl⟩
  exact ⟨by decide +kernel, by decide +kernel, history, row, hrow, hbytes, (live row hrow).1⟩

end System

end Wotex.Udp
