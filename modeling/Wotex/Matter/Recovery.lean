import Wotex.Matter.Operations

/-!
# Recovery after a crash

What is found in the directory of a store after any failure, end of the process or power loss.

A directory *refuses* where opening it does not come as far as reading the state: a temporary file or the
marker is left, or the lock or the state is missing. `Keeps old` says of a disk that every directory a power
loss can leave, and the one that is seen, refuses or has the state file `old`. A commit takes a disk that
keeps the old state to one that keeps the old or the new one, wherever it ends (`commit_triple`): up to the
first `fsync` of the directory the state is the old one, from there to the removal of the marker every
directory refuses, and from then on the state is the new one.

`Sound` carries this over a run, with a ledger of the contents that stand and of the commit begun since.

Results: `Sound.step`, what a step makes of a world, and `Settled.run`, the ledger of a run in which only the
last commit did not succeed.
-/

namespace Wotex.Matter

open Std (ExtTreeMap)
open List Matter
open Disk

/-! ## Directories -/

/-- Opening does not come as far as reading the state. -/
def Refuses (e : Entries Name) : Prop :=
  e .temporary ≠ none ∨ e .intent ≠ none ∨ e .lock = none ∨ e .state = none

/-- The state file holds the bytes, and keeps them. -/
def Shows (files : Nat → File) (bytes : Bytes) (e : Entries Name) : Prop :=
  ∃ i, e .state = some i ∧ files i = ⟨bytes, true⟩

/-- Every directory there can be refuses or shows the old state. -/
def Keeps (old : Option Bytes) (d : Disk Name) : Prop :=
  d.Each fun e => Refuses e ∨ ∃ bytes ∈ old, Shows d.files bytes e

/-- Nothing of a commit is left. -/
def Clean (d : Disk Name) : Prop := d.entries .temporary = none ∧ d.entries .intent = none

theorem cleanCommitState_iff {d : Disk Name} : cleanCommitState d = true ↔ Clean d := by
  simp [cleanCommitState, Clean]

theorem Shows.update {files : Nat → File} {bytes : Bytes} {e : Entries Name} (h : Shows files bytes e)
    {i : Nat} (hi : e .state ≠ some i) (f : File) : Shows (Function.update files i f) bytes e := by
  obtain ⟨j, hj, hf⟩ := h
  have hne : j ≠ i := fun hji => hi (hji ▸ hj)
  exact ⟨j, hj, by rw [Function.update_of_ne hne, hf]⟩

section Keeps

variable {old : Option Bytes} {d : Disk Name}

theorem keeps_of_intent (h : d.Each fun e => e .intent ≠ none) : Keeps old d :=
  h.imp fun _ he => .inl (.inr (.inl he))

theorem Keeps.setFile (h : Keeps old d) {i : Nat} (hi : d.Each fun e => e .state ≠ some i) (f : File) :
    Keeps old (d.setFile i f) := by
  refine each_setFile.mpr ((h.and hi).imp ?_)
  rintro e ⟨hr | ⟨bytes, hb, hs⟩, hne⟩
  · exact .inl hr
  · exact .inr ⟨bytes, hb, hs.update hne f⟩

/-- A new file of a commit makes every directory refuse that has it. -/
theorem Keeps.create (h : Keeps old d) {name : Name} (hname : name = .temporary ∨ name = .intent) :
    Keeps old (d.create name) := by
  have hfresh : d.Each fun e => e .state ≠ some d.next :=
    d.each_below.imp fun e he hs => lt_irrefl _ (he .state _ hs)
  refine each_create ((h.and hfresh).imp ?_) (h.imp fun e _ => .inl ?_)
  · rintro e ⟨hr | ⟨bytes, hb, hs⟩, hne⟩
    · exact .inl hr
    · exact .inr ⟨bytes, hb, hs.update hne _⟩
  · rcases hname with rfl | rfl
    · exact .inl (by simp)
    · exact .inr (.inl (by simp))

theorem state_ne_next {name : Name} (hname : name ≠ .state) :
    (d.create name).Each fun e => e .state ≠ some d.next := by
  have hfresh : d.Each fun e => e .state ≠ some d.next :=
    d.each_below.imp fun e he hs => lt_irrefl _ (he .state _ hs)
  exact each_create hfresh (hfresh.imp fun e he => by rwa [Function.update_of_ne hname.symm])

theorem Keeps.powerLoss (h : Keeps old d) (kept : List Bool) (junk : Nat → Bytes) :
    Keeps old (d.powerLoss kept junk) := by
  refine (each_powerLoss h kept junk).imp ?_
  rintro e (hr | ⟨bytes, hb, i, hi, hf⟩)
  · exact .inl hr
  · exact .inr ⟨bytes, hb, i, hi, by rw [files_powerLoss (by rw [hf]), hf]⟩

end Keeps

/-! ## A commit -/

section Commit

variable (old : Option Bytes) (bytes : Bytes)

/-- The temporary file is there and no more. -/
def Drafted (f : File) (d : Disk Name) : Prop :=
  Keeps old d ∧ d.entries .intent = none ∧
    ∃ t, d.entries .temporary = some t ∧ d.files t = f ∧ d.Each fun e => e .state ≠ some t

variable (d : Disk Name)

/-- The temporary file is synced and the marker is there. -/
def Marked : Prop :=
  Keeps old d ∧ ∃ t p, d.entries .temporary = some t ∧ d.files t = ⟨bytes, true⟩ ∧
    d.entries .intent = some p ∧ p ≠ t ∧ d.Each fun e => e .state ≠ some p

/-- Every directory has the marker; the new state is still the temporary file. -/
def Announced : Prop :=
  (d.Each fun e => e .intent ≠ none) ∧ ∃ t, d.entries .temporary = some t ∧ d.files t = ⟨bytes, true⟩

/-- Every directory has the marker; the new state is seen. -/
def Replaced : Prop :=
  (d.Each fun e => e .intent ≠ none) ∧ d.entries .temporary = none ∧ Shows d.files bytes d.entries

/-- Every directory has the new state; the marker is seen or not. -/
def Installed : Prop :=
  d.Each fun e => e .temporary = none ∧ Shows d.files bytes e

/-- What a commit leaves that does not succeed. -/
def Torn : Prop := Keeps old d ∨ Keeps (some bytes) d

variable {old bytes} {d : Disk Name}

theorem Installed.keeps (h : Installed bytes d) : Keeps (some bytes) d :=
  h.imp fun _ he => .inr ⟨bytes, rfl, he.2⟩

theorem Drafted.create (h : Keeps old d) (hc : Clean d) :
    Drafted old ⟨[], false⟩ (d.create .temporary) := by
  refine ⟨h.create (.inl rfl), ?_, d.next, ?_, ?_, state_ne_next (by decide)⟩
  · rw [entries_create]
    exact hc.2
  · rw [entries_create, Function.update_self]
  · rw [files_create, Function.update_self]

variable {i : Nat} {f : File}

section

variable (h : Drafted old f d) (hi : d.entries .temporary = some i)
include h hi

theorem Drafted.setFile (g : File) : Drafted old g (d.setFile i g) := by
  obtain ⟨hk, hintent, t, ht, -, hne⟩ := h
  obtain rfl : t = i := Option.some.inj (ht.symm.trans hi)
  exact ⟨hk.setFile hne g, hintent, t, ht, by rw [files_setFile, Function.update_self], hne⟩

theorem Drafted.file : d.files i = f := by
  obtain ⟨-, -, t, ht, hf, -⟩ := h
  exact Option.some.inj (ht.symm.trans hi) ▸ hf

end

theorem Drafted.mark (h : Drafted old ⟨bytes, true⟩ d) : Marked old bytes (d.create .intent) := by
  obtain ⟨hk, -, t, ht, hf, -⟩ := h
  have hlt : t < d.next := d.entries_below .temporary t ht
  refine ⟨hk.create (.inr rfl), t, d.next, ?_, ?_, ?_, hlt.ne', state_ne_next (by decide)⟩
  · rw [entries_create, Function.update_of_ne (by decide), ht]
  · rw [files_create, Function.update_of_ne hlt.ne, hf]
  · rw [entries_create, Function.update_self]

theorem Marked.setFile (h : Marked old bytes d) (hi : d.entries .intent = some i) (g : File) :
    Marked old bytes (d.setFile i g) := by
  obtain ⟨hk, t, p, ht, hf, hp, hne, hstate⟩ := h
  obtain rfl : p = i := Option.some.inj (hp.symm.trans hi)
  refine ⟨hk.setFile hstate g, t, p, ht, ?_, hp, hne, hstate⟩
  rw [files_setFile, Function.update_of_ne hne.symm, hf]

theorem Marked.announce (h : Marked old bytes d) : Announced bytes d.syncDirectory := by
  obtain ⟨-, t, p, ht, hf, hp, -⟩ := h
  exact ⟨each_syncDirectory (by rw [hp]; exact Option.some_ne_none p), t, ht, hf⟩

theorem Announced.replace (h : Announced bytes d) : Replaced bytes (d.move .temporary .state) := by
  obtain ⟨hintent, t, ht, hf⟩ := h
  refine ⟨each_move hintent (hintent.imp fun e he => ?_), ?_, t, ?_, hf⟩
  · rwa [Function.update_of_ne (by decide)]
  · rw [entries_move, Function.update_of_ne (by decide), Function.update_self]
  · rw [entries_move, Function.update_self, ht]

theorem Replaced.install (h : Replaced bytes d) : Installed bytes d.syncDirectory :=
  each_syncDirectory h.2

theorem Installed.unmark (h : Installed bytes d) :
    Installed bytes (d.remove .intent) ∧ Clean (d.remove .intent) := by
  have hupdate : ∀ e : Entries Name, e .temporary = none ∧ Shows d.files bytes e →
      (Function.update e .intent none) .temporary = none ∧
        Shows d.files bytes (Function.update e .intent none) := by
    rintro e ⟨ht, i, hi, hf⟩
    exact ⟨ht, i, by rw [Function.update_of_ne (by decide), hi], hf⟩
  refine ⟨each_remove h (h.imp hupdate), ?_, ?_⟩
  · rw [entries_remove]
    exact (hupdate _ h.entries).1
  · rw [entries_remove, Function.update_self]

/-- **A commit keeps the old state or the new one**, wherever it ends. -/
theorem commit_triple : Triple (fun d => Keeps old d ∧ Clean d) (commitCalls bytes)
      (fun d => Keeps (some bytes) d ∧ Clean d) (Torn old bytes) := by
  have drafted : ∀ {f : File} (d : Disk Name), Drafted old f d → Torn old bytes d :=
    fun _ h => .inl h.1
  have marked : ∀ d : Disk Name, Marked old bytes d → Torn old bytes d := fun _ h => .inl h.1
  have installed : ∀ d : Disk Name, Installed bytes d → Torn old bytes d := fun _ h => .inr h.keeps
  -- the temporary file
  refine triple_quiet rfl (fun d h => .inl h.1) (R := Drafted old ⟨[], false⟩) ?_ ?_
  · rintro d d' ⟨hk, hc⟩ h
    exact (perform_create.mp h).2 ▸ Drafted.create hk hc
  refine triple_keep drafted ?_
  refine triple_write drafted (fun d i _ h hi => drafted _ (h.setFile hi _))
    (R := Drafted old ⟨bytes, false⟩) ?_ ?_
  · intro d i h hi
    rw [append, h.file hi]
    exact h.setFile hi _
  refine triple_quiet rfl drafted (R := Drafted old ⟨bytes, true⟩) ?_ ?_
  · intro d d' h hd
    obtain ⟨i, hi, rfl⟩ := perform_sync.mp hd
    rw [h.file hi]
    exact h.setFile hi _
  refine triple_keep drafted ?_
  -- the marker
  refine triple_quiet rfl drafted (R := Marked old bytes) ?_ ?_
  · intro d d' h hd
    exact (perform_create.mp hd).2 ▸ h.mark
  refine triple_keep marked ?_
  refine triple_write marked (fun d i _ h hi => marked _ (h.setFile hi _))
    (fun d i h hi => h.setFile hi _) ?_
  refine triple_quiet rfl marked (R := Marked old bytes) ?_ ?_
  · intro d d' h hd
    obtain ⟨i, hi, rfl⟩ := perform_sync.mp hd
    exact h.setFile hi _
  refine triple_keep marked ?_
  refine triple_quiet rfl marked (R := Announced bytes) ?_ ?_
  · intro d d' h hd
    exact perform_syncDirectory.mp hd ▸ h.announce
  -- every directory refuses from here to the removal of the marker
  refine triple_quiet rfl (fun d h => .inl (keeps_of_intent h.1)) (R := Replaced bytes) ?_ ?_
  · intro d d' h hd
    exact (perform_rename.mp hd).2 ▸ h.replace
  refine triple_quiet rfl (fun d h => .inl (keeps_of_intent h.1)) (R := Installed bytes) ?_ ?_
  · intro d d' h hd
    exact perform_syncDirectory.mp hd ▸ h.install
  refine triple_quiet rfl installed (R := fun d => Installed bytes d ∧ Clean d) ?_ ?_
  · intro d d' h hd
    exact (perform_unlink.mp hd).2 ▸ h.unmark
  refine triple_quiet rfl (fun d h => installed d h.1) (R := fun d => Installed bytes d ∧ Clean d) ?_
    (triple_nil fun d h => ⟨h.1.keeps, h.2⟩)
  rintro d d' ⟨h, hc⟩ hd
  exact perform_syncDirectory.mp hd ▸ ⟨each_syncDirectory h.entries, hc⟩

end Commit

/-! ## Runs -/

/-- What stands and what was begun since. -/
structure Ledger where
  /-- What the last successful commit wrote, or a later reopening found. -/
  standing : Option Contents
  /-- What a commit since then was to write that did not succeed. -/
  pending : Option Contents

namespace Ledger

/-- Before the first commit. -/
def start : Ledger := ⟨none, none⟩

variable (ledger : Ledger)

/-- The ledger after a step. -/
def note (n : Note) : Ledger :=
  match n.commit, n.reply with
  | some (contents, .completed), _ => ⟨some contents, none⟩
  | some (contents, _), _ => ⟨ledger.standing, some contents⟩
  | none, some (.opened contents) => ⟨some contents, none⟩
  | none, _ => ledger

/-- The ledger after some steps. -/
def notes (ns : List Note) : Ledger := ns.foldl note ledger

/-- One of the two. -/
def Lists (contents : Contents) : Prop :=
  ledger.standing = some contents ∨ ledger.pending = some contents

end Ledger

/-- The disk keeps the contents, and they can be read back. -/
def Holds (identity : Identity) (disk : Disk Name) (contents : Contents) : Prop :=
  Writable identity contents ∧
    ∃ bytes, serializeState identity contents = some bytes ∧ Keeps (some bytes) disk

/-- The directory keeps what the ledger lists, or nothing. -/
def Ledger.Covers (ledger : Ledger) (identity : Identity) (disk : Disk Name) : Prop :=
  Keeps none disk ∨ ∃ contents, ledger.Lists contents ∧ Holds identity disk contents

/-- A world and its ledger. -/
structure Sound (identity : Identity) (world : World) (ledger : Ledger) : Prop where
  disk : ∀ disk, world.directory = some disk → ledger.Covers identity disk
  /-- An open store has what stands; where it is not poisoned nothing is pending. -/
  store : ∀ store, world.store = some store →
    ledger.standing = some store.contents ∧
      ∃ disk, world.directory = some disk ∧
        (store.poisoned = false → ledger.pending = none ∧ Holds identity disk store.contents)

section Sound

variable {identity : Identity} {world : World} {ledger : Ledger} {disk : Disk Name} {contents : Contents}

theorem Holds.powerLoss (h : Holds identity disk contents) (kept : List Bool) (junk : Nat → Bytes) :
    Holds identity (disk.powerLoss kept junk) contents := by
  obtain ⟨hw, bytes, hb, hk⟩ := h
  exact ⟨hw, bytes, hb, hk.powerLoss kept junk⟩

theorem sound_start : Sound identity World.start Ledger.start := ⟨nofun, nofun⟩

theorem Sound.close (h : Sound identity world ledger) : Sound identity { world with store := none } ledger :=
  ⟨h.disk, nofun⟩

theorem Ledger.Covers.shut (h : ledger.Covers identity disk) : Sound identity ⟨some disk, none⟩ ledger :=
  ⟨by rintro d ⟨⟩; exact h, nofun⟩

theorem Ledger.Covers.poisoned (h : ledger.Covers identity disk)
    (hstand : ledger.standing = some contents) : Sound identity ⟨some disk, some ⟨contents, true⟩⟩ ledger := by
  refine ⟨?_, ?_⟩
  · rintro d ⟨⟩
    exact h
  · rintro s ⟨⟩
    exact ⟨hstand, disk, rfl, nofun⟩

theorem Holds.sound (h : Holds identity disk contents) :
    Sound identity ⟨some disk, some ⟨contents, false⟩⟩ ⟨some contents, none⟩ := by
  refine ⟨?_, ?_⟩
  · rintro d ⟨⟩
    exact .inr ⟨contents, .inl rfl, h⟩
  · rintro s ⟨⟩
    exact ⟨rfl, disk, rfl, fun _ => ⟨rfl, h⟩⟩

/-- What a step makes of a sound world: a sound one, with a commit of what can be read back or without one,
and then an answer that a store was opened is that of a reopening. -/
structure Advances (identity : Identity) (ledger : Ledger) (next : World × Note) : Prop where
  sound : Sound identity next.1 (ledger.note next.2)
  writable : ∀ a ∈ next.2.commit, Writable identity a.1
  opened : next.2.commit = none → ∀ contents, next.2.reply = some (.opened contents) → ledger.Lists contents

/-- A refusal, or the end of a process that has begun no commit, leaves the ledger as it was. -/
theorem note_quiet {n : Note} (hc : n.commit = none) (hr : ∀ contents, n.reply ≠ some (.opened contents)) :
    ledger.note n = ledger := by
  obtain ⟨reply, commit⟩ := n
  obtain rfl : commit = none := hc
  match reply with
  | none | some (.error _) | some .done | some (.value _ _) | some (.endpoint _) | some (.endpoints _)
  | some (.retired _) => rfl
  | some (.opened contents) => exact absurd rfl (hr contents)

theorem Sound.idle (h : Sound identity world ledger) {n : Note} (hc : n.commit = none)
    (hr : ∀ contents, n.reply ≠ some (.opened contents)) : Advances identity ledger (world, n) :=
  ⟨by rwa [note_quiet hc hr], by simp [hc], fun _ _ ho => absurd ho (hr _)⟩

/-! ### Commits -/

/-- How a commit of contents that can be read back ends, from a disk that keeps `old`. -/
theorem commit_keeps {old : Option Bytes} {next : Contents} {fates : List Fate} {run : Execution Name}
    (h : Keeps old disk) (hw : Writable identity next) (hc : commit identity next fates disk = some run) :
    (run.ending = .completed → Holds identity run.disk next) ∧
      (Keeps old run.disk ∨ Holds identity run.disk next) := by
  obtain ⟨bytes, hb, hc⟩ := Option.bind_eq_some_iff.mp hc
  split at hc
  · rename_i hclean
    cases hc
    have htriple := @commit_triple old bytes disk fates ⟨h, cleanCommitState_iff.mp hclean⟩
    split at htriple
    · have := htriple.1
      exact ⟨fun _ => ⟨hw, bytes, hb, this⟩, .inr ⟨hw, bytes, hb, this⟩⟩
    · rename_i hend
      refine ⟨fun h => absurd h hend, htriple.imp_right fun h => ⟨hw, bytes, hb, h⟩⟩
  · cases hc

/-- **A commit of an open store.** -/
theorem Sound.committing {store : Store} {next : Contents} {reply : Reply}
    (hstand : ledger.standing = some store.contents) (hh : Holds identity disk store.contents)
    (hw : Writable identity next) (fates : List Fate) :
    Advances identity ledger (committing identity disk store next reply fates) := by
  have hnext : ∀ {ending : Ending}, ∀ a ∈ some (next, ending), Writable identity a.1 := by
    rintro _ a ⟨⟩
    exact hw
  obtain ⟨hwold, old, hold, hk⟩ := hh
  unfold Matter.committing
  split
  · have hcovers : ledger.Covers identity disk := .inr ⟨store.contents, .inl hstand, hwold, old, hold, hk⟩
    exact (hcovers.poisoned hstand).idle rfl nofun
  rename_i run hrun
  obtain ⟨hdone, htorn⟩ := commit_keeps hk hw hrun
  have hcovers : Ledger.Covers ⟨ledger.standing, some next⟩ identity run.disk := by
    rcases htorn with h | h
    · exact .inr ⟨store.contents, .inl hstand, hwold, old, hold, h⟩
    · exact .inr ⟨next, .inr rfl, h⟩
  split
  · rename_i hend
    exact ⟨(hdone hend).sound, hnext, nofun⟩
  · exact ⟨hcovers.poisoned hstand, hnext, nofun⟩
  · exact ⟨hcovers.shut, hnext, nofun⟩

/-! ### Creation -/

theorem keeps_of_stateless {d : Disk Name} (h : d.Each fun e => e .state = none) : Keeps none d :=
  h.imp fun _ he => .inl (.inr (.inr (.inr he)))

theorem lock_triple :
    Triple (fun d : Disk Name => d.Each fun e => e .state = none) [.create .lock, .keep .lock] (Keeps none)
      (Keeps none) := by
  refine triple_quiet rfl (fun _ => keeps_of_stateless) (R := fun d => d.Each fun e => e .state = none)
    ?_ (triple_keep (fun _ => keeps_of_stateless) (triple_nil fun _ => keeps_of_stateless))
  intro d d' h hd
  rw [← (perform_create.mp hd).2]
  exact each_create h (h.imp fun e he => by rwa [Function.update_of_ne (by decide)])

theorem lock_keeps (fates : List Fate) :
    Keeps none (exec [.create Name.lock, .keep .lock] fates empty).disk := by
  have h := lock_triple empty fates fun kept hk => by
    obtain rfl := sublist_nil.mp hk
    rfl
  split at h <;> exact h

theorem writable_initial (h : identity.valid = true) : Writable identity initial := by
  refine ⟨h, by decide, ?_, ?_⟩
  · intro key value hv
    simp [initial] at hv
  · cases identity with
    | controller => exact ⟨rfl, rfl⟩
    | bridge =>
      refine ⟨by decide, by decide, by decide, ?_, ?_⟩
      · intro thing e he
        simp [initial] at he
      · intro thing other e e' he
        simp [initial] at he

theorem Sound.creating (hvalid : identity.valid = true) (ledger : Ledger) (fates : List Fate) :
    Advances identity ledger (creating identity fates) := by
  have hw := writable_initial hvalid
  have hlock := lock_keeps fates
  have hnext : ∀ {ending : Ending}, ∀ a ∈ some (initial, ending), Writable identity a.1 := by
    rintro _ a ⟨⟩
    exact hw
  have hempty : ledger.Covers identity (exec [.create Name.lock, .keep .lock] fates empty).disk := .inl hlock
  unfold Matter.creating
  dsimp only
  split
  · exact hempty.shut.idle rfl nofun
  · exact hempty.shut.idle rfl nofun
  unfold Matter.committing
  cases hrun : commit identity initial (exec [.create Name.lock, .keep .lock] fates empty).left
      (exec [.create Name.lock, .keep .lock] fates empty).disk with
  | none => exact hempty.shut.idle rfl nofun
  | some run =>
    obtain ⟨hdone, htorn⟩ := commit_keeps hlock hw hrun
    have hcovers : Ledger.Covers ⟨ledger.standing, some initial⟩ identity run.disk :=
      htorn.imp_right fun h => ⟨initial, .inr rfl, h⟩
    cases hend : run.ending <;> simp [hend]
    · exact ⟨(hdone hend).sound, hnext, nofun⟩
    · exact ⟨hcovers.shut, hnext, nofun⟩
    · exact ⟨hcovers.shut, hnext, nofun⟩

/-! ### Reopening -/

variable (h : Sound identity world ledger)
include h

/-- **What a directory shows that does not refuse** is what the ledger lists. -/
theorem Sound.shown (hd : world.directory = some disk) (hlock : disk.entries .lock ≠ none)
    (hclean : Clean disk) (hread : (readState disk >>= fun c => parseState c identity) = some contents) :
    ledger.Lists contents ∧ Holds identity disk contents := by
  obtain ⟨raw, hraw, hparse⟩ := Option.bind_eq_some_iff.mp hread
  obtain ⟨file, hfile, hraw⟩ := Option.bind_eq_some_iff.mp hraw
  dsimp only at hraw
  split at hraw
  swap
  · cases hraw
  cases hraw
  have hopen : ¬ Refuses disk.entries := by
    rintro (ht | hi | hl | hs)
    · exact ht hclean.1
    · exact hi hclean.2
    · exact hlock hl
    · rw [hfile] at hs
      cases hs
  rcases h.disk disk hd with hk | ⟨listed, hlist, hw, bytes, hb, hk⟩
  · rcases hk.entries with hr | ⟨bytes, hb, -⟩
    · exact absurd hr hopen
    · cases hb
  · rcases hk.entries with hr | ⟨bytes', hb', i, hi, hf⟩
    · exact absurd hr hopen
    · cases hb'
      obtain rfl : file = i := Option.some.inj (hfile.symm.trans hi)
      rw [hf, parseState_serializeState hw hb] at hparse
      cases hparse
      exact ⟨hlist, hw, bytes, hb, hk⟩

omit h in
theorem reopen_cases (identity : Identity) (world : World) :
    (∃ e, reopen identity world = (world, refusal e)) ∨
      ∃ disk contents, world.directory = some disk ∧ disk.entries .lock ≠ none ∧ Clean disk ∧
        (readState disk >>= fun c => parseState c identity) = some contents ∧
        reopen identity world = (⟨some disk, some ⟨contents, false⟩⟩, ⟨some (.opened contents), none⟩) := by
  fun_cases reopen identity world
  case case7 disk _ hd hlock hclean contents hread =>
    refine .inr ⟨disk, contents, hd, ?_, ?_, hread, rfl⟩
    · simpa using hlock
    · exact cleanCommitState_iff.mp (by simpa using hclean)
  all_goals exact .inl ⟨_, rfl⟩

omit h in
theorem reopen_commit (identity : Identity) (world : World) : (reopen identity world).2.commit = none := by
  rcases reopen_cases identity world with ⟨e, heq⟩ | ⟨_, _, _, _, _, _, heq⟩
  · rw [heq]
    rfl
  · rw [heq]

theorem Sound.reopen : Advances identity ledger (reopen identity world) := by
  rcases reopen_cases identity world with ⟨e, heq⟩ | ⟨disk, contents, hd, hlock, hclean, hread, heq⟩
  · rw [heq]
    exact h.idle rfl nofun
  · rw [heq]
    obtain ⟨hlist, hh⟩ := h.shown hd hlock hclean hread
    refine ⟨hh.sound, nofun, ?_⟩
    rintro - _ ⟨⟩
    exact hlist

/-! ### Steps and runs -/

theorem Sound.operate (operation : Operation) (fates : List Fate) :
    Advances identity ledger (operate identity world operation fates) := by
  unfold Matter.operate
  split
  · rename_i disk store hd hs
    obtain ⟨hstand, disk', hd', hopen⟩ := h.store store hs
    obtain rfl : disk = disk' := Option.some.inj (hd.symm.trans hd')
    split
    · exact h.idle rfl nofun
    · rename_i reply hplan
      exact h.idle rfl fun contents hr => plan_not_opened hplan (Option.some.inj hr)
    · rename_i next reply hplan
      obtain ⟨-, hh⟩ := hopen (plan_unpoisoned hplan nofun)
      exact Sound.committing hstand hh (plan_writable hh.1 hplan) fates
  · exact h.idle rfl nofun

omit h in
theorem create_cases (identity : Identity) (world : World) (fates : List Fate) :
    (∃ n, create identity world fates = (world, n) ∧ n.commit = none ∧
      ∀ contents, n.reply ≠ some (.opened contents)) ∨
    ∃ left, identity.valid = true ∧ world.directory = none ∧
      create identity world fates = creating identity left := by
  fun_cases create identity world fates
  case case3 hvalid _ hd => exact .inr ⟨_, by simpa using hvalid, hd, rfl⟩
  all_goals exact .inl ⟨_, rfl, rfl, nofun⟩

theorem Sound.create (fates : List Fate) : Advances identity ledger (create identity world fates) := by
  rcases create_cases identity world fates with ⟨n, heq, hc, ho⟩ | ⟨left, hvalid, -, heq⟩
  · rw [heq]
    exact h.idle hc ho
  · rw [heq]
    exact Sound.creating hvalid ledger left

/-- **One step.** -/
theorem Sound.step (event : Event) : Advances identity ledger (step identity world event) := by
  cases event with
  | create fates => exact h.create fates
  | reopen => exact h.reopen
  | operate operation fates => exact h.operate operation fates
  | close => exact h.close.idle rfl nofun
  | powerLoss gone kept junk =>
    refine Sound.idle ⟨?_, fun _ hs => by cases hs⟩ rfl nofun
    intro disk hd
    cases gone with
    | true => cases hd
    | false =>
      obtain ⟨before, hb, rfl⟩ := Option.map_eq_some_iff.mp hd
      rcases h.disk before hb with hk | ⟨contents, hlist, hh⟩
      · exact .inl (hk.powerLoss kept junk)
      · exact .inr ⟨contents, hlist, hh.powerLoss kept junk⟩

/-- **A run.** -/
theorem Sound.run (events : List Event) :
    Sound identity (run identity world events).1 (ledger.notes (run identity world events).2) := by
  induction events generalizing world ledger with
  | nil => exact h
  | cons event events ih => exact ih (h.step event).sound

end Sound

/-! ## The commits of a run -/

/-- The commits that were begun, with how they ended. -/
def commits (notes : List Note) : List (Contents × Ending) := notes.filterMap Note.commit

/-- Where only the last of the commits did not succeed: what stands is what the one before it wrote, or what
it was to write itself, and nothing else is pending. -/
def Settled (attempts : List (Contents × Ending)) (ledger : Ledger) : Prop :=
  ∀ done last, attempts = done ++ last → (∀ a ∈ done, a.2 = .completed) →
    (∀ a ∈ last, a.2 ≠ .completed) → last.length ≤ 1 →
      (ledger.standing = done.getLast?.map Prod.fst ∨ ∃ a ∈ last, ledger.standing = some a.1) ∧
        ∀ contents, ledger.pending = some contents → ∃ a ∈ last, a.1 = contents

variable {attempts : List (Contents × Ending)} {ledger : Ledger}

theorem Settled.lists (h : Settled attempts ledger) {contents : Contents} (hl : ledger.Lists contents)
    {done last : List (Contents × Ending)} (hsplit : attempts = done ++ last)
    (hdone : ∀ a ∈ done, a.2 = .completed) (hlast : ∀ a ∈ last, a.2 ≠ .completed)
    (hlen : last.length ≤ 1) :
    done.getLast?.map Prod.fst = some contents ∨ ∃ a ∈ last, a.1 = contents := by
  obtain ⟨hstand, hpend⟩ := h done last hsplit hdone hlast hlen
  rcases hl with hl | hl
  · rcases hstand with hstand | ⟨a, ha, hstand⟩
    · exact .inl (hstand.symm.trans hl)
    · exact .inr ⟨a, ha, Option.some.inj (hstand.symm.trans hl)⟩
  · exact .inr (hpend contents hl)

theorem settled_start : Settled [] Ledger.start := by
  intro done last hsplit _ _ _
  obtain ⟨rfl, rfl⟩ := append_eq_nil_iff.mp hsplit.symm
  exact ⟨.inl rfl, fun _ => nofun⟩

theorem Settled.commit (h : Settled attempts ledger) (n : Note) {contents : Contents} {ending : Ending}
    (hc : n.commit = some (contents, ending)) :
    Settled (attempts ++ [(contents, ending)]) (ledger.note n) := by
  intro done last hsplit hdone hlast hlen
  -- the new commit ends one of the two lists, by how it ended
  have hends : (last = [] ∧ done = attempts ++ [(contents, ending)]) ∨
      (last = [(contents, ending)] ∧ done = attempts) := by
    match last, hlen with
    | [], _ => exact .inl ⟨rfl, by simpa using hsplit.symm⟩
    | [a], _ =>
      obtain ⟨rfl, ha⟩ := append_inj' hsplit rfl
      exact .inr ⟨ha.symm, rfl⟩
  rcases hends with ⟨rfl, rfl⟩ | ⟨rfl, rfl⟩
  · have hend : ending = .completed := hdone (contents, ending) (by simp)
    subst hend
    simp [Ledger.note, hc]
  · have hend : ending ≠ .completed := hlast (contents, ending) (by simp)
    obtain ⟨hstand, -⟩ := h done [] (by simp) hdone (by simp) (by simp)
    have hnote : ledger.note n = ⟨ledger.standing, some contents⟩ := by
      cases ending with
      | completed => exact absurd rfl hend
      | failed | stopped => simp [Ledger.note, hc]
    rw [hnote]
    refine ⟨.inl ?_, fun _ hp => ⟨(contents, ending), by simp, Option.some.inj hp⟩⟩
    simpa using hstand

theorem Settled.quiet (h : Settled attempts ledger) (n : Note) (hc : n.commit = none)
    (ho : ∀ contents, n.reply = some (.opened contents) → ledger.Lists contents) :
    Settled attempts (ledger.note n) := by
  by_cases hr : ∃ contents, n.reply = some (.opened contents)
  · obtain ⟨contents, hr⟩ := hr
    have hnote : ledger.note n = ⟨some contents, none⟩ := by simp [Ledger.note, hc, hr]
    rw [hnote]
    intro done last hsplit hdone hlast hlen
    refine ⟨?_, fun _ => nofun⟩
    rcases h.lists (ho contents hr) hsplit hdone hlast hlen with hl | ⟨a, ha, rfl⟩
    · exact .inl hl.symm
    · exact .inr ⟨a, ha, rfl⟩
  · rw [note_quiet hc fun contents heq => hr ⟨contents, heq⟩]
    exact h

section Commits

variable {identity : Identity} {world : World}

section

variable (h : Settled attempts ledger) (hs : Sound identity world ledger)
include h hs

theorem Settled.step (event : Event) :
    Settled (attempts ++ (step identity world event).2.commit.toList)
      (ledger.note (step identity world event).2) := by
  cases hc : (Matter.step identity world event).2.commit with
  | none =>
    rw [Option.toList_none, append_nil]
    exact h.quiet _ hc ((hs.step event).opened hc)
  | some attempt => exact h.commit _ hc

theorem Settled.run
    (events : List Event) : Settled (attempts ++ commits (Matter.run identity world events).2)
      (ledger.notes (run identity world events).2) := by
  induction events generalizing world ledger attempts with
  | nil => simpa [commits, run, Ledger.notes] using h
  | cons event events ih =>
    have hcommits : commits (Matter.run identity world (event :: events)).2 =
        (Matter.step identity world event).2.commit.toList ++
          commits (Matter.run identity (Matter.step identity world event).1 events).2 := by
      simp only [run, commits, filterMap_cons]
      cases (Matter.step identity world event).2.commit <;> rfl
    rw [hcommits, ← append_assoc]
    exact ih (h.step hs event) (hs.step event).sound

end

theorem Sound.commits (h : Sound identity world ledger) (events : List Event) :
    ∀ a ∈ commits (Matter.run identity world events).2, Writable identity a.1 := by
  induction events generalizing world ledger with
  | nil => exact fun a ha => absurd ha not_mem_nil
  | cons event events ih =>
    rintro ⟨contents, ending⟩ ha
    obtain ⟨n, hn, hc⟩ := mem_filterMap.mp ha
    rcases mem_cons.mp hn with rfl | hn
    · exact (h.step event).writable _ hc
    · exact ih (h.step event).sound _ (mem_filterMap.mpr ⟨n, hn, hc⟩)

end Commits

/-- **Crash recovery.** After any run, with failures, ends of the process and power losses at any call of a
commit, reopening refuses or finds what stands or what a commit since was to write. Where only the last of
the commits did not succeed, that is what the last successful commit wrote or what this one was to write.
Whatever a run commits is within the limits of the store, and within them a document reads back. -/
theorem crash_recovery (identity : Identity) (events : List Event) :
    (∀ contents, (reopen identity (run identity .start events).1).2.reply = some (.opened contents) →
      (Ledger.start.notes (run identity .start events).2).Lists contents ∧
      ∀ done last, commits (run identity .start events).2 = done ++ last →
        (∀ a ∈ done, a.2 = .completed) → (∀ a ∈ last, a.2 ≠ .completed) → last.length ≤ 1 →
          done.getLast?.map Prod.fst = some contents ∨ ∃ a ∈ last, a.1 = contents) ∧
    (∀ a ∈ commits (run identity .start events).2, Writable identity a.1) ∧
    ∀ contents bytes, Writable identity contents → serializeState identity contents = some bytes →
      parseState bytes identity = some contents := by
  have hstart : Sound identity .start .start := sound_start
  have hsound := hstart.run events
  have hsettled := settled_start.run hstart events
  refine ⟨fun contents ho => ?_, sound_start.commits events, fun _ _ => parseState_serializeState⟩
  have hlist := hsound.reopen.opened (reopen_commit ..) contents ho
  exact ⟨hlist, fun _ _ hsplit hdone hlast hlen => hsettled.lists hlist hsplit hdone hlast hlen⟩

/-- An identity to run with. -/
def sampleIdentity : Identity := .controller ⟨1, 1, 1⟩

/-- A store is made; the process ends in a commit of it before the last `fsync`, and a power loss spares the
removal of the marker. -/
def interruptedSet : List Event :=
  [.create (replicate 18 .done),
    .operate (.set (some [107]) (some [1, 2]) 2) (replicate 14 .done),
    .powerLoss false [true] fun _ => []]

/-- What the interrupted commit was to write. -/
def interruptedContents : Contents := ⟨(∅ : Values).insert [107] [1, 2], ∅, firstEndpoint⟩

theorem interrupted_set_found :
    (reopen sampleIdentity (run sampleIdentity .start interruptedSet).1).2.reply =
        some (.opened interruptedContents) ∧
      (([(initial, Ending.completed)] : List (Contents × Ending)).getLast?.map Prod.fst =
          some interruptedContents ∨
        ∃ a ∈ [(interruptedContents, Ending.stopped)], a.1 = interruptedContents) ∧
      ∃ bytes, serializeState sampleIdentity initial = some bytes ∧
        parseState bytes sampleIdentity = some initial := by
  have hopen : (reopen sampleIdentity (run sampleIdentity .start interruptedSet).1).2.reply =
      some (.opened interruptedContents) := by decide +kernel
  have hsplit : commits (run sampleIdentity .start interruptedSet).2 =
      [(initial, .completed)] ++ [(interruptedContents, .stopped)] := by decide +kernel
  have hsome : (serializeState sampleIdentity initial).isSome = true := by decide +kernel
  obtain ⟨bytes, hbytes⟩ := Option.isSome_iff_exists.mp hsome
  have h := crash_recovery sampleIdentity interruptedSet
  refine ⟨hopen, (h.1 _ hopen).2 _ _ hsplit (by simp) (by simp) (by simp), bytes, hbytes, ?_⟩
  exact h.2.2 _ _ (h.2.1 (initial, .completed) (by rw [hsplit]; simp)) hbytes

/-- `SerializeState` writes an empty key, which `ParseState` does not take. -/
theorem empty_key_lost :
    ∃ bytes, serializeState sampleIdentity ⟨(∅ : Values).insert [] [], ∅, firstEndpoint⟩ = some bytes ∧
      parseState bytes sampleIdentity = none := by
  have hsome : (serializeState sampleIdentity ⟨(∅ : Values).insert [] [], ∅, firstEndpoint⟩).isSome =
      true := by decide +kernel
  have hnone : ((serializeState sampleIdentity ⟨(∅ : Values).insert [] [], ∅, firstEndpoint⟩).bind
      fun bytes => parseState bytes sampleIdentity) = none := by decide +kernel
  obtain ⟨bytes, hbytes⟩ := Option.isSome_iff_exists.mp hsome
  rw [hbytes] at hnone
  exact ⟨bytes, hbytes, hnone⟩

end Wotex.Matter
