import Wotex.Term.Bytes
import Mathlib.Data.List.Sublists
import Mathlib.Logic.Function.Basic

/-!
# A directory that survives crashes

A directory gives each name a file, by its number. A change of the directory (a file made, moved or
removed) sets a few entries at once; it is seen by every process from then on, but it is sure to survive
a power loss only behind an `fsync` of the directory. Until then it may survive or not, each change for
itself. So a disk is the entries that are sure, the changes since, and the files; a file keeps its
contents over a power loss where it was synced after its last write, and may hold anything otherwise.

`Each P` says that `P` holds of every directory a power loss can leave at this moment, and of the one
that processes see. `each_record`, `each_syncDirectory` say what a change and an `fsync` do to it.

A program is a list of calls. `exec` runs it against a list of fates, one for each call: it is done, it
fails, or the process ends at it. `Triple P ops Q C` is the rule of reasoning: from `P` a completed run
ends in `Q`, and one that fails or ends early, wherever it does, leaves `C`.
-/

namespace Wotex

open List

/-- The file each name stands for. -/
abbrev Entries (ν : Type) := ν → Option Nat

/-- A change of a directory: the entries it sets, all at once. -/
abbrev Change (ν : Type) := List (ν × Option Nat)

/-- A file: what it holds, and whether that survives a power loss. -/
structure File where
  contents : Bytes
  synced : Bool

section

variable {ν : Type} [DecidableEq ν]

section

variable (e : Entries ν)

/-- The entries after a change. -/
def Entries.change (c : Change ν) : Entries ν :=
  c.foldl (fun e p => Function.update e p.1 p.2) e

/-- The entries after some changes. -/
def Entries.changes (cs : List (Change ν)) : Entries ν := cs.foldl Entries.change e

/-- Every file of the directory has a number below `n`. -/
def Entries.Below (n : Nat) : Prop := ∀ name i, e name = some i → i < n

/-- Every file of the change has a number below `n`. -/
def Change.Below (c : Change ν) (n : Nat) : Prop := ∀ p ∈ c, ∀ i, p.2 = some i → i < n

@[simp] theorem Entries.change_nil : e.change [] = e := rfl

@[simp] theorem Entries.change_cons (p : ν × Option Nat) (c : Change ν) :
    e.change (p :: c) = Entries.change (Function.update e p.1 p.2) c := rfl

end

variable {e : Entries ν}

theorem Entries.below_change {n : Nat} {c : Change ν} (he : e.Below n)
    (hc : c.Below n) : (e.change c).Below n := by
  induction c generalizing e with
  | nil => exact he
  | cons p c ih =>
    refine ih ?_ fun q hq => hc q (mem_cons_of_mem _ hq)
    intro name i hi
    simp only [Function.update_apply] at hi
    split at hi
    · exact hc p mem_cons_self i hi
    · exact he name i hi

theorem Entries.below_changes {n : Nat} {cs : List (Change ν)} (he : e.Below n)
    (hcs : ∀ c ∈ cs, c.Below n) : (e.changes cs).Below n := by
  induction cs generalizing e with
  | nil => exact he
  | cons c cs ih =>
    exact ih (below_change he (hcs c mem_cons_self)) fun d hd => hcs d (mem_cons_of_mem _ hd)

omit [DecidableEq ν] in
theorem Entries.Below.mono {m n : Nat} (h : e.Below m) (hmn : m ≤ n) : e.Below n :=
  fun name i hi => lt_of_lt_of_le (h name i hi) hmn

/-- A directory with its files. -/
structure Disk (ν : Type) [DecidableEq ν] where
  /-- The entries that survive a power loss. -/
  stable : Entries ν
  /-- What was changed since, the oldest change first. -/
  changes : List (Change ν)
  files : Nat → File
  /-- The number of the next file. -/
  next : Nat
  stable_below : stable.Below next
  changes_below : ∀ c ∈ changes, c.Below next

namespace Disk

/-- A directory without entries. -/
def empty : Disk ν where
  stable := fun _ => none
  changes := []
  files := fun _ => ⟨[], true⟩
  next := 0
  stable_below := fun _ _ => nofun
  changes_below := fun _ => nofun

variable (d : Disk ν)

/-- What processes see. -/
def entries : Entries ν := d.stable.changes d.changes

theorem entries_below : d.entries.Below d.next :=
  Entries.below_changes d.stable_below d.changes_below

/-! ## Changes -/

/-- One more change, of files there are. -/
def record (c : Change ν) (h : c.Below d.next) : Disk ν :=
  { d with
    changes := d.changes ++ [c]
    changes_below := forall_mem_append.mpr ⟨d.changes_below, forall_mem_singleton.mpr h⟩ }

/-- A file replaced. -/
def setFile (i : Nat) (f : File) : Disk ν := { d with files := Function.update d.files i f }

/-- One more file, empty and without a name. -/
def addFile : Disk ν :=
  { d with
    files := Function.update d.files d.next ⟨[], false⟩
    next := d.next + 1
    stable_below := d.stable_below.mono (Nat.le_succ _)
    changes_below := fun c hc p hp i hi => Nat.lt_succ_of_lt (d.changes_below c hc p hp i hi) }

variable (name : ν)

theorem below_create : Change.Below [(name, some d.next)] d.addFile.next := by
  refine forall_mem_singleton.mpr fun i hi => ?_
  cases hi
  exact Nat.lt_succ_self _

/-- `openat` with `O_CREAT | O_EXCL`. -/
def create : Disk ν :=
  d.addFile.record [(name, some d.next)] (d.below_create name)

theorem below_move (source target : ν) :
    Change.Below [(source, none), (target, d.entries source)] d.next := by
  intro p hp j hj
  simp only [mem_cons, not_mem_nil, or_false] at hp
  rcases hp with rfl | rfl
  · cases hj
  · exact d.entries_below source _ hj

/-- `renameat`: one change, of both names. -/
def move (source target : ν) : Disk ν :=
  d.record [(source, none), (target, d.entries source)] (d.below_move source target)

theorem below_remove : Change.Below [(name, none)] d.next :=
  forall_mem_singleton.mpr nofun

/-- `unlinkat`. -/
def remove : Disk ν := d.record [(name, none)] (d.below_remove name)

/-- `fsync` of the directory. -/
def syncDirectory : Disk ν :=
  { d with
    stable := d.entries
    changes := []
    stable_below := d.entries_below
    changes_below := fun _ => nofun }

variable (kept : List Bool)

/-- The changes a power loss spares. -/
def spared : List (Change ν) :=
  ((d.changes.zip kept).filter Prod.snd).map Prod.fst

theorem spared_sublist : (d.spared kept).Sublist d.changes := by
  have h : ((d.changes.zip kept).map Prod.fst).Sublist d.changes := by
    rw [zip_eq_zip_take_min, map_fst_zip (by simp)]
    exact take_sublist _ _
  exact (filter_sublist.map Prod.fst).trans h

/-- A power loss: which changes survive, and what is found in a file that was not synced. -/
def powerLoss (junk : Nat → Bytes) : Disk ν where
  stable := d.stable.changes (d.spared kept)
  changes := []
  files := fun i => if (d.files i).synced then d.files i else ⟨junk i, true⟩
  next := d.next
  stable_below := Entries.below_changes d.stable_below fun c hc =>
    d.changes_below c ((d.spared_sublist kept).subset hc)
  changes_below := fun _ => nofun

/-! ## What every power loss leaves -/

/-- `P` holds of every directory that a power loss can leave now, and of the one processes see. -/
def Each (P : Entries ν → Prop) : Prop :=
  ∀ kept : List (Change ν), kept.Sublist d.changes → P (d.stable.changes kept)

variable {d : Disk ν} {P Q : Entries ν → Prop} {name : ν}

theorem Each.entries (h : d.Each P) : P d.entries := h d.changes (List.Sublist.refl _)

theorem Each.imp (h : d.Each P) (hpq : ∀ e, P e → Q e) : d.Each Q := fun kept hk => hpq _ (h kept hk)

theorem Each.and (hp : d.Each P) (hq : d.Each Q) : d.Each fun e => P e ∧ Q e :=
  fun kept hk => ⟨hp kept hk, hq kept hk⟩

theorem each_below (d : Disk ν) : d.Each fun e => e.Below d.next := fun _ hk =>
  Entries.below_changes d.stable_below fun c hc => d.changes_below c (hk.subset hc)

theorem entries_record (d : Disk ν) (c : Change ν) (h : c.Below d.next) :
    (d.record c h).entries = d.entries.change c := by
  simp [entries, record, Entries.changes]

/-- **A change survives or not**: what holds of every directory without it and with it. -/
theorem each_record {c : Change ν} (h : c.Below d.next) (without : d.Each P)
    (taken : d.Each fun e => P (e.change c)) : (d.record c h).Each P := by
  intro kept hk
  obtain ⟨old, new, rfl, ho, hn⟩ := sublist_append_iff.mp hk
  rcases sublist_singleton.mp hn with rfl | rfl
  · rw [append_nil]
    exact without old ho
  · have := taken old ho
    simpa [record, Entries.changes] using this

/-- **An `fsync` of the directory** leaves what processes see. -/
theorem each_syncDirectory (h : P d.entries) : d.syncDirectory.Each P := by
  intro kept hk
  obtain rfl := sublist_nil.mp hk
  exact h

@[simp] theorem entries_syncDirectory (d : Disk ν) : d.syncDirectory.entries = d.entries := rfl

@[simp] theorem files_syncDirectory (d : Disk ν) : d.syncDirectory.files = d.files := rfl

theorem each_create (without : d.Each P)
    (taken : d.Each fun e => P (Function.update e name (some d.next))) : (d.create name).Each P :=
  each_record (d.below_create name) without taken

@[simp] theorem entries_create (d : Disk ν) (name : ν) :
    (d.create name).entries = Function.update d.entries name (some d.next) :=
  entries_record d.addFile _ (d.below_create name)

@[simp] theorem files_create (d : Disk ν) (name : ν) :
    (d.create name).files = Function.update d.files d.next ⟨[], false⟩ := rfl

theorem each_remove (without : d.Each P)
    (taken : d.Each fun e => P (Function.update e name none)) : (d.remove name).Each P :=
  each_record (d.below_remove name) without taken

@[simp] theorem entries_remove (d : Disk ν) (name : ν) :
    (d.remove name).entries = Function.update d.entries name none :=
  entries_record _ _ _

@[simp] theorem files_remove (d : Disk ν) (name : ν) : (d.remove name).files = d.files := rfl

theorem each_move {source target : ν} (without : d.Each P) (taken : d.Each fun e =>
      P (Function.update (Function.update e source none) target (d.entries source))) :
    (d.move source target).Each P :=
  each_record (d.below_move source target) without taken

@[simp] theorem entries_move (d : Disk ν) (source target : ν) : (d.move source target).entries =
      Function.update (Function.update d.entries source none) target (d.entries source) :=
  entries_record _ _ _

@[simp] theorem files_move (d : Disk ν) (source target : ν) : (d.move source target).files = d.files :=
  rfl

@[simp] theorem entries_setFile (d : Disk ν) (i : Nat) (f : File) : (d.setFile i f).entries = d.entries :=
  rfl

@[simp] theorem files_setFile (d : Disk ν) (i : Nat) (f : File) :
    (d.setFile i f).files = Function.update d.files i f := rfl

theorem each_setFile {i : Nat} {f : File} : (d.setFile i f).Each P ↔ d.Each P := Iff.rfl

/-- **A power loss** leaves one of those directories. -/
theorem each_powerLoss (h : d.Each P) (kept : List Bool) (junk : Nat → Bytes) :
    (d.powerLoss kept junk).Each P := by
  intro kept' hk
  obtain rfl := sublist_nil.mp hk
  exact h _ (d.spared_sublist kept)

theorem files_powerLoss {i : Nat} (h : (d.files i).synced = true) (kept : List Bool)
    (junk : Nat → Bytes) : (d.powerLoss kept junk).files i = d.files i :=
  if_pos h

end Disk

/-! ## Programs -/

/-- A call on the directory. A descriptor is named by the entry it was opened under. -/
inductive Call (ν : Type) where
  | create (name : ν)
  | write (name : ν) (bytes : Bytes)
  | sync (name : ν)
  /-- `fchmod`, `flock` or `close`: it may fail, but it changes neither the file nor the directory. -/
  | keep (name : ν)
  | rename (source target : ν)
  | unlink (name : ν)
  | syncDirectory

/-- How a call ends: a call to write that fails, or at which the process ends, has written a part. -/
inductive Fate where
  | done
  | failed (written : Nat)
  | stopped (written : Nat)

/-- How a program ends. -/
inductive Ending where
  | completed
  | failed
  | stopped
  deriving DecidableEq

namespace Disk

/-- Bytes behind those of a file. -/
def append (d : Disk ν) (i : Nat) (bytes : Bytes) : Disk ν :=
  d.setFile i ⟨(d.files i).contents ++ bytes, false⟩

/-- A call that is done; `none` where the directory does not allow it. -/
def perform (d : Disk ν) : Call ν → Option (Disk ν)
  | .create name => if d.entries name = none then some (d.create name) else none
  | .write name bytes => (d.entries name).map fun i => d.append i bytes
  | .sync name => (d.entries name).map fun i => d.setFile i ⟨(d.files i).contents, true⟩
  | .keep _ => some d
  | .rename source target => if d.entries source = none then none else some (d.move source target)
  | .unlink name => if d.entries name = none then none else some (d.remove name)
  | .syncDirectory => some d.syncDirectory

variable {name : ν}

variable {d d' : Disk ν}

@[simp] theorem perform_create :
    d.perform (.create name) = some d' ↔ d.entries name = none ∧ d.create name = d' := by
  simp [perform]

@[simp] theorem perform_write {bytes : Bytes} :
    d.perform (.write name bytes) = some d' ↔ ∃ i, d.entries name = some i ∧ d.append i bytes = d' := by
  simp [perform]

@[simp] theorem perform_sync : d.perform (.sync name) = some d' ↔
      ∃ i, d.entries name = some i ∧ d.setFile i ⟨(d.files i).contents, true⟩ = d' := by
  simp [perform]

@[simp] theorem perform_keep : d.perform (.keep name) = some d' ↔ d = d' := by
  simp [perform]

@[simp] theorem perform_rename {source target : ν} : d.perform (.rename source target) = some d' ↔
      (∃ i, d.entries source = some i) ∧ d.move source target = d' := by
  simp [perform, Option.ne_none_iff_exists']

@[simp] theorem perform_unlink :
    d.perform (.unlink name) = some d' ↔ (∃ i, d.entries name = some i) ∧ d.remove name = d' := by
  simp [perform, Option.ne_none_iff_exists']

@[simp] theorem perform_syncDirectory : d.perform .syncDirectory = some d' ↔ d.syncDirectory = d' := by
  simp [perform]

/-- What a call that is not done has done. -/
def partially (d : Disk ν) (written : Nat) : Call ν → Disk ν
  | .write name bytes => ((d.entries name).map fun i => d.append i (bytes.take written)).getD d
  | _ => d

end Disk

/-- How a program ended, the disk then, and the fates left over. -/
structure Execution (ν : Type) [DecidableEq ν] where
  ending : Ending
  disk : Disk ν
  left : List Fate

/-- The calls in order, up to the first that is not done. Without a fate the process ends. -/
def exec : List (Call ν) → List Fate → Disk ν → Execution ν
  | [], fates, d => ⟨.completed, d, fates⟩
  | _ :: _, [], d => ⟨.stopped, d, []⟩
  | call :: _, .stopped written :: fates, d => ⟨.stopped, d.partially written call, fates⟩
  | call :: _, .failed written :: fates, d => ⟨.failed, d.partially written call, fates⟩
  | call :: calls, .done :: fates, d =>
    match d.perform call with
    | some d => exec calls fates d
    | none => ⟨.failed, d, fates⟩

/-- From `P` a completed run ends in `Q`, and one that fails or ends early leaves `C`. -/
def Triple (P : Disk ν → Prop) (calls : List (Call ν)) (Q C : Disk ν → Prop) : Prop :=
  ∀ (d : Disk ν) (fates : List Fate), P d →
    if (exec calls fates d).ending = .completed then Q (exec calls fates d).disk
    else C (exec calls fates d).disk

/-- A call that does nothing where it is not done. -/
def Call.quiet : Call ν → Bool
  | .write _ _ => false
  | _ => true

variable {P Q R C : Disk ν → Prop} {name : ν} {call : Call ν} {calls : List (Call ν)}

theorem triple_nil (h : ∀ d, P d → Q d) : Triple P [] Q C := by
  intro d fates hP
  rw [exec]
  exact h d hP

/-- **One call**: what is left where it is not done, and what it does where it is. -/
theorem triple_cons (before : ∀ d, P d → C d) (part : ∀ d written, P d → C (d.partially written call))
    (next : ∀ d d', P d → d.perform call = some d' → R d') (rest : Triple R calls Q C) :
    Triple P (call :: calls) Q C := by
  intro d fates hP
  match fates with
  | [] =>
    exact before d hP
  | .stopped written :: fates | .failed written :: fates =>
    exact part d written hP
  | .done :: fates =>
    rw [exec]
    split
    · rename_i d' h
      exact rest d' fates (next d d' hP h)
    · exact before d hP

theorem triple_quiet (hq : call.quiet = true) (before : ∀ d, P d → C d)
    (next : ∀ d d', P d → d.perform call = some d' → R d') (rest : Triple R calls Q C) :
    Triple P (call :: calls) Q C := by
  refine triple_cons before (fun d written hP => ?_) next rest
  cases call with
  | write => cases hq
  | _ => exact before d hP

theorem triple_keep (before : ∀ d, P d → C d) (rest : Triple P calls Q C) :
    Triple P (.keep name :: calls) Q C :=
  triple_quiet rfl before (fun _ _ hP h => Disk.perform_keep.mp h ▸ hP) rest

/-- A call to write: what a part of the bytes leaves, and what all of them do. -/
theorem triple_write {bytes : Bytes} (before : ∀ d, P d → C d)
    (part : ∀ d i front, P d → d.entries name = some i → C (d.append i front))
    (next : ∀ d i, P d → d.entries name = some i → R (d.append i bytes)) (rest : Triple R calls Q C) :
    Triple P (.write name bytes :: calls) Q C := by
  refine triple_cons before (fun d written hP => ?_) (fun d d' hP h => ?_) rest
  · cases he : d.entries name with
    | none =>
      rw [Disk.partially, he]
      exact before d hP
    | some i =>
      rw [Disk.partially, he]
      exact part d i _ hP he
  · obtain ⟨i, he, rfl⟩ := Disk.perform_write.mp h
    exact next d i hP he

end

end Wotex
