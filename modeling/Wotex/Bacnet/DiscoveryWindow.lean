import Wotex.Term.Sorting
import Mathlib.Data.Finset.Option
import Mathlib.Data.List.Lex

/-!
# Discovery windows (`packages/wotex-bacnet/lib/wotex/bacnet/discovery_window.ex`, `device.ex`)

A window collects the I-Am records of one Who-Is until it expires. A report is a source with what the
SDK decodes of the APDU, `none` where it decodes no I-Am of a device; `Device.fromApdu` validates it. The
map of devices is the list of its values, which have distinct keys. `Window.opened` is what `new/5` returns
for admitted options, without the request and the destination, which the window does not read.

Devices are compared with what was collected one by one, so a conflict, a full window and a repetition may
each come first. `Tracks` says what a window has after any reports: it has failed exactly when the **set**
of records is not `Admissible`. So the order of the reports does not matter (`order_independent`).

Results: `Tracks.accept` and `Tracks.receive` (one report, and all), `order_independent`. Out of scope: the
SDK's decoder and the socket.
-/

namespace Wotex.Bacnet

open List

/-- `source`: an IPv4 address and a port. -/
structure Source where
  (a b c d port : Nat)
  deriving DecidableEq

inductive Segmentation where
  | segmentedBoth | segmentedTransmit | segmentedReceive | noSegmentation
  deriving DecidableEq

/-- An I-Am of a device as the SDK decodes it. -/
structure IAm where
  deviceInstance : Int
  maxApdu : Int
  segmentation : Segmentation
  vendorId : Int
  deriving DecidableEq

structure Device extends IAm where
  source : Source
  deriving DecidableEq

/-- `{source, instance}`; tuples are ordered element by element. -/
def Device.key (d : Device) : List Int :=
  [d.source.a, d.source.b, d.source.c, d.source.d, d.source.port, d.deviceInstance]

def Source.valid (s : Source) : Bool :=
  s.a ≤ 255 && s.b ≤ 255 && s.c ≤ 255 && s.d ≤ 255 && 0 < s.port && s.port ≤ 65535

def Device.fromApdu (source : Source) (iAm : Option IAm) : Option Device :=
  (iAm.map fun iAm => { iAm with source }).filter fun d =>
    d.source.valid && 0 ≤ d.deviceInstance && d.deviceInstance ≤ 4194302 && 0 < d.maxApdu &&
      d.maxApdu ≤ 65535 && 0 ≤ d.vendorId && d.vendorId ≤ 65535

/-- The codes of the errors. -/
inductive Code where
  | deadlineExceeded | discoveryLimit | conflictingDiscoveryResponse

structure Window where
  limit : Nat
  range : Option (Int × Int)
  deadline : Int
  expires : Int
  devices : List Device
  ignored : Nat
  outcome : Option (Except Code (List Device))

/-- A report and when it was received. -/
structure Report where
  source : Source
  iAm : Option IAm
  now : Int

namespace Window

/-- The window of `new/5`. -/
def opened (limit : Nat) (range : Option (Int × Int)) (deadline expires : Int) : Window :=
  ⟨limit, range, deadline, expires, [], 0, none⟩

variable (w : Window)

def fail (code : Code) : Window := { w with devices := [], outcome := some (.error code) }

def ignore : Window := { w with ignored := min (w.ignored + 1) 4294967295 }

/-- The instance is not outside the range that was asked for. -/
def inRange (d : Device) : Bool :=
  w.range.all fun r => r.1 ≤ d.deviceInstance && d.deviceInstance ≤ r.2

/-- `discovery_window.ex:84-104`. -/
def collect (d : Device) : Window :=
  if !w.inRange d then w.ignore
  else
    match w.devices.find? fun known => known.key = d.key with
    | some known => if known = d then w else w.fail .conflictingDiscoveryResponse
    | none =>
      if w.devices.length < w.limit then { w with devices := w.devices ++ [d] }
      else w.fail .discoveryLimit

def finish (now : Int) : Window :=
  if w.outcome.isSome then w
  else if w.deadline ≤ now then w.fail .deadlineExceeded
  else if now < w.expires then w
  else { w with outcome := some (.ok (sortBy Device.key w.devices)) }

/-- `discovery_window.ex:59-68`. -/
def accept (r : Report) : Window :=
  if w.outcome.isSome then w
  else if w.expires ≤ r.now then w.finish r.now
  else
    match Device.fromApdu r.source r.iAm with
    | some d => w.collect d
    | none => w.ignore

/-! ## What is collected -/

/-- The record of a report that is in the range. -/
def record (r : Report) : Option Device := (Device.fromApdu r.source r.iAm).filter w.inRange

/-- The records of the reports. -/
def records (reports : List Report) : Finset Device := (reports.filterMap w.record).toFinset

/-- No two records with one source and instance differ, and there are not too many. -/
def Admissible (limit : Nat) (seen : Finset Device) : Prop :=
  (∀ a ∈ seen, ∀ b ∈ seen, a.key = b.key → a = b) ∧ seen.card ≤ limit

theorem Admissible.mono {limit : Nat} {seen more : Finset Device} (h : Admissible limit more)
    (hsub : seen ⊆ more) : Admissible limit seen :=
  ⟨fun a ha b hb => h.1 a (hsub ha) b (hsub hb), (Finset.card_le_card hsub).trans h.2⟩

/-- The window `w` opened as `b` has these records, or has failed because of them. -/
structure Tracks (b w : Window) (seen : Finset Device) : Prop where
  kept : w = { b with devices := w.devices, ignored := w.ignored, outcome := w.outcome }
  state : (w.outcome = none ∧ w.devices.Nodup ∧ w.devices.toFinset = seen ∧ Admissible b.limit seen) ∨
    (∃ code, w.outcome = some (.error code)) ∧ ¬ Admissible b.limit seen

variable {b w : Window} {seen : Finset Device}

theorem tracks_collect {d : Device} (hw : w.outcome = none)
    (hkept : w = { b with devices := w.devices, ignored := w.ignored, outcome := w.outcome })
    (hnodup : w.devices.Nodup) (hadm : Admissible b.limit w.devices.toFinset)
    (hd : w.inRange d = true) : Tracks b (w.collect d) (insert d w.devices.toFinset) := by
  have hlimit : w.limit = b.limit := by rw [hkept]
  have failed : ∀ code, ¬ Admissible b.limit (insert d w.devices.toFinset) →
      Tracks b (w.fail code) (insert d w.devices.toFinset) := fun code hbad =>
    ⟨by rw [fail, hkept], .inr ⟨⟨code, rfl⟩, hbad⟩⟩
  fun_cases collect w d
  case case1 hout => simp [hd] at hout
  case case2 _ hfound =>
    rw [Finset.insert_eq_of_mem (mem_toFinset.mpr (mem_of_find?_eq_some hfound))]
    exact ⟨hkept, .inl ⟨hw, hnodup, rfl, hadm⟩⟩
  case case3 _ known hfound hne =>
    have hkey : known.key = d.key := by simpa using find?_some hfound
    have hmem := mem_toFinset.mpr (mem_of_find?_eq_some hfound)
    exact failed _ fun hbad => hne (hbad.1 _ (Finset.mem_insert_of_mem hmem) _
      (Finset.mem_insert_self _ _) hkey)
  all_goals
    rename_i hnone hroom
    have hnew : ∀ e ∈ w.devices, e.key ≠ d.key := by simpa using hnone
    have hfresh : d ∉ w.devices := fun hd => hnew d hd rfl
    have hcard : (insert d w.devices.toFinset).card = w.devices.length + 1 := by
      rw [Finset.card_insert_of_notMem (by simpa using hfresh), toFinset_card_of_nodup hnodup]
  case case4 =>
    refine ⟨by rw [hkept], .inl ⟨hw, ?_, by ext; simp, fun e he f hf hef => ?_, by omega⟩⟩
    · exact hnodup.append (nodup_singleton d) (disjoint_singleton.mpr hfresh)
    · rw [Finset.mem_insert, mem_toFinset] at he hf
      rcases he with rfl | he <;> rcases hf with rfl | hf
      · rfl
      · exact absurd hef.symm (hnew f hf)
      · exact absurd hef (hnew e he)
      · exact hadm.1 e (mem_toFinset.mpr he) f (mem_toFinset.mpr hf) hef
  case case5 => exact failed _ fun hbad => absurd hbad.2 (by omega)

/-- **One report.** -/
theorem Tracks.accept (h : Tracks b w seen) {r : Report} (hr : r.now < b.expires) :
    Tracks b (w.accept r) ((b.record r).toFinset ∪ seen) := by
  obtain ⟨hkept, ⟨hw, hnodup, rfl, hadm⟩ | ⟨⟨code, hcode⟩, hbad⟩⟩ := h
  swap
  · rw [Window.accept, if_pos (by rw [hcode]; rfl)]
    exact ⟨hkept, .inr ⟨⟨code, hcode⟩, fun h => hbad (h.mono Finset.subset_union_right)⟩⟩
  have hrange : w.inRange = b.inRange := by rw [hkept]; rfl
  have ignored : b.record r = none →
      Tracks b w.ignore ((b.record r).toFinset ∪ w.devices.toFinset) := fun hnone => by
    rw [hnone]
    exact ⟨by rw [ignore, hkept], .inl ⟨hw, hnodup, rfl, hadm⟩⟩
  rw [Window.accept, if_neg (by rw [hw]; simp), if_neg (by rw [hkept]; exact not_le.mpr hr)]
  split
  · rename_i d hd
    by_cases hin : w.inRange d = true
    · have hrecord : b.record r = some d := by simp [record, hd, ← hrange, hin]
      rw [hrecord]
      exact tracks_collect hw hkept hnodup hadm hin
    · rw [collect, if_pos (by simp [hin])]
      exact ignored (by simp [record, hd, ← hrange, hin])
  · rename_i hd
    exact ignored (by simp [record, hd])

/-- **All reports.** -/
theorem Tracks.receive {reports : List Report} (hr : ∀ r ∈ reports, r.now < b.expires)
    (h : Tracks b b ∅) : Tracks b (reports.foldl Window.accept b) (b.records reports) := by
  induction reports using reverseRecOn with
  | nil => exact h
  | append_singleton reports r ih =>
    rw [foldl_concat]
    have hrecords : b.records (reports ++ [r]) = (b.record r).toFinset ∪ b.records reports := by
      cases hd : b.record r <;> simp [records, hd]
    rw [hrecords]
    exact (ih fun r hr' => hr r (mem_append_left _ hr')).accept (hr r (by simp))

/-- What may happen to a window. -/
inductive Call where
  | accept (report : Report)
  | finish (now : Int)

def next (w : Window) : Call → Window
  | .accept report => w.accept report
  | .finish now => w.finish now

theorem next_of_outcome (h : w.outcome.isSome = true) (call : Call) : w.next call = w := by
  cases call with
  | accept report => exact if_pos h
  | finish now => exact if_pos h

theorem failed_stays {code : Code} (h : w.outcome = some (.error code)) (calls : List Call) :
    (calls.foldl next w).outcome = some (.error code) := by
  induction calls with
  | nil => exact h
  | cons call calls ih => rwa [foldl_cons, next_of_outcome (by rw [h]; rfl)]

/-- Success with these records, in key order. -/
def Succeeds (limit : Nat) (seen : Finset Device) (ds : List Device) : Prop :=
  Admissible limit seen ∧ ds.toFinset = seen ∧ ds.Pairwise fun a b => a.key < b.key

variable {limit : Nat} {range : Option (Int × Int)} {deadline expires now : Int} {reports : List Report}

theorem sortBy_key_pairwise {ds : List Device} (hnodup : ds.Nodup)
    (hadm : Admissible limit ds.toFinset) :
    (sortBy Device.key ds).Pairwise fun a b => a.key < b.key := by
  have hperm := sortBy_perm Device.key ds
  have mem : ∀ {a}, a ∈ sortBy Device.key ds → a ∈ ds.toFinset := fun ha =>
    mem_toFinset.mpr (hperm.mem_iff.mp ha)
  exact ((sortBy_pairwise Device.key ds).and (hperm.nodup_iff.mpr hnodup)).imp_of_mem
    fun ha hb hab => lt_of_le_of_ne hab.1 fun heq => hab.2 (hadm.1 _ (mem ha) _ (mem hb) heq)

/-- Two lists of the same devices in key order are one. -/
theorem eq_of_sorted {ds es : List Device} (hd : ds.Pairwise fun a b => a.key < b.key)
    (he : es.Pairwise fun a b => a.key < b.key) (h : ds.toFinset = es.toFinset) : ds = es := by
  have nodup : ∀ {l : List Device}, (l.Pairwise fun a b => a.key < b.key) → l.Nodup :=
    fun h => h.imp fun hlt heq => absurd (congrArg Device.key heq) hlt.ne
  exact List.Perm.eq_of_pairwise (fun a b _ _ hab hba => absurd hab (lt_asymm hba)) hd he
    (perm_of_nodup_nodup_toFinset_eq (nodup hd) (nodup he) h)

theorem finish_receive (hr : ∀ r ∈ reports, r.now < expires) (hnow : expires ≤ now ∧ now < deadline)
    (ds : List Device) : let b := opened limit range deadline expires
    ((reports.foldl accept b).finish now).outcome = some (.ok ds) ↔
      Succeeds limit (b.records reports) ds := by
  intro b
  have hfresh : Tracks b b ∅ := ⟨rfl, .inl ⟨rfl, nodup_nil, rfl, by simp [Admissible]⟩⟩
  obtain ⟨hkept, hstate⟩ := hfresh.receive hr
  generalize reports.foldl accept b = w at hkept hstate
  obtain ⟨hw, hnodup, hseen, hadm⟩ | ⟨⟨code, hcode⟩, hbad⟩ := hstate
  · rw [finish, if_neg (by rw [hw]; simp), if_neg (by rw [hkept]; exact not_le.mpr hnow.2),
      if_neg (by rw [hkept]; exact not_lt.mpr hnow.1), ← hseen]
    have hsorted := sortBy_key_pairwise hnodup (hseen ▸ hadm)
    have hset := toFinset_eq_of_perm _ _ (sortBy_perm Device.key w.devices)
    simp only [Option.some.injEq, Except.ok.injEq]
    constructor
    · rintro rfl
      exact ⟨hseen ▸ hadm, hset, hsorted⟩
    · rintro ⟨-, hds, hpairs⟩
      exact eq_of_sorted hsorted hpairs (hset.trans hds.symm)
  · have hbad' : ¬ Admissible limit (b.records reports) := hbad
    simp [finish, hcode, Succeeds, hbad']

/-- **The order of the reports does not matter**: a window that is finished after its expiry and before the
caller's deadline succeeds exactly when the set of records is admissible, with these records in key order; so
it does for every permutation; and a window that has failed never succeeds. -/
theorem order_independent (hr : ∀ r ∈ reports, r.now < expires)
    (hnow : expires ≤ now ∧ now < deadline) :
    let b := opened limit range deadline expires
    (∀ reports' : List Report, reports'.Perm reports → ∀ ds : List Device,
      ((reports'.foldl accept b).finish now).outcome = some (.ok ds) ↔
        Succeeds limit (b.records reports) ds) ∧
    ∀ (w : Window) (code : Code) (calls : List Call), w.outcome = some (.error code) →
      (calls.foldl next w).outcome = some (.error code) := by
  refine ⟨fun reports' hp ds => ?_, fun w code calls h => failed_stays h calls⟩
  refine (finish_receive (fun r h => hr r (hp.mem_iff.mp h)) hnow ds).trans ?_
  rw [records, records, toFinset_eq_of_perm _ _ (hp.filterMap _)]

/-- A device at an address of its own. -/
def device (i : Nat) : Device := ⟨⟨i, 1476, .noSegmentation, 0⟩, ⟨192, 0, 2, i, 47808⟩⟩

/-- Two devices say that they are there, one of them twice. -/
def repeated : List Report := [42, 7, 42].map fun i => ⟨(device i).source, some (device i).toIAm, 3⟩

/-- Another order of the reports. -/
def reordered : List Report := [42, 42, 7].map fun i => ⟨(device i).source, some (device i).toIAm, 3⟩

theorem repeated_succeeds : reordered.Perm repeated ∧
    ((reordered.foldl accept (opened 2 none 10 5)).finish 7).outcome =
      some (.ok [device 7, device 42]) := by
  have hp : reordered.Perm repeated := .map _ (.cons 42 (.swap 7 42 []))
  refine ⟨hp, ((order_independent (by decide) (by decide)).1 reordered hp _).mpr ?_⟩
  exact ⟨⟨by decide, by decide⟩, by decide, by decide⟩

end Window

end Wotex.Bacnet
