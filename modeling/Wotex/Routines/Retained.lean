import Wotex.Routines.Compiled

/-!
# What `Run.new` establishes about a retained run

`Run.Coherence` states the checks of `Run.new` behind the JSON admission as relations: one record for
every node, in preorder, each against its node; the spent list; the tree relations; the window.
`coherent_iff` says that the checks are that.

The records of an accepted run have different paths, also by value, so looking a record up by its
own path finds it (`recordAt_of_mem`).
-/

namespace Wotex.Routines

open Wotex.Json (Value)
open List ExecutionTree

/-! ## Paths and records -/

theorem pathSame_iff {a b : List Num} : pathSame a b = true ↔ a.map Num.value = b.map Num.value := by
  induction a generalizing b with
  | nil => cases b <;> simp [pathSame]
  | cons x a ih => cases b <;> simp [pathSame, ih, Num.eq_iff]

variable {steps : List StepRecord}

theorem recordAt_eq_some {path : List Num} {s : StepRecord} (h : recordAt steps path = some s) :
    s ∈ steps ∧ s.path = path := by
  induction steps with
  | nil => simp [recordAt] at h
  | cons r rs ih =>
    simp only [recordAt, Option.or_eq_some_iff] at h
    rcases h with h | ⟨-, h⟩
    · exact ⟨mem_cons_of_mem r (ih h).1, (ih h).2⟩
    · by_cases hp : r.path = path
      · rw [if_pos hp] at h
        cases h
        exact ⟨mem_cons_self, hp⟩
      · simp [hp] at h

theorem recordAt_eq_none {path : List Num} :
    recordAt steps path = none ↔ path ∉ steps.map StepRecord.path := by
  induction steps with
  | nil => simp [recordAt]
  | cons r rs ih =>
    simp only [recordAt, Option.or_eq_none_iff, ih, map_cons, mem_cons, not_or, ite_eq_right_iff,
      reduceCtorEq]
    exact ⟨fun h => ⟨fun e => h.2 e.symm, h.1⟩, fun h => ⟨h.2, fun e => h.1 e.symm⟩⟩

/-- With different paths, the record at a record's path is that record. -/
theorem recordAt_of_mem {s : StepRecord} (hn : (steps.map StepRecord.path).Nodup) (h : s ∈ steps) :
    recordAt steps s.path = some s := by
  induction steps with
  | nil => exact absurd h not_mem_nil
  | cons r rs ih =>
    rw [map_cons, nodup_cons] at hn
    rcases mem_cons.mp h with rfl | h
    · simp [recordAt, recordAt_eq_none.mpr hn.1]
    · simp [recordAt, ih hn.2 h]

theorem paths_nodup_of_values
    (hn : (steps.map fun s => s.path.map Num.value).Nodup) : (steps.map StepRecord.path).Nodup := by
  rw [show (fun s : StepRecord => s.path.map Num.value) = map Num.value ∘ StepRecord.path from rfl,
    ← map_map] at hn
  exact List.Nodup.of_map _ hn

/-! ## Coherence -/

variable {ns : List (Node Num)}

namespace ExecutionTree

variable {host : Host} {p : Program} {original : Text} {l : Limits}

/-- The record of a node before anything happened to it, with its identity. -/
def Regenerated (host : Host) (p : Program) (original : Text) (l : Limits) (n : Node Num)
    (s : StepRecord) : Prop :=
  ∃ id, identity host p original n.path l = .ok id ∧ s = emptyRecord n id

theorem recordsOf_eq_ok {rs : List StepRecord} : recordsOf host p original l ns = .ok rs ↔
      List.Forall₂ (Regenerated host p original l) ns rs := by
  induction ns generalizing rs with
  | nil =>
    simp only [recordsOf, Outcome.ok.injEq, forall₂_nil_left_iff]
    exact eq_comm
  | cons n ns ih =>
    simp only [recordsOf, bind_eq_ok, Outcome.ok.injEq, forall₂_cons_left_iff, ih]
    constructor
    · rintro ⟨id, hid, rs', hrs, rfl⟩
      exact ⟨_, rs', ⟨id, hid, rfl⟩, hrs, rfl⟩
    · rintro ⟨_, rs', ⟨id, hid, rfl⟩, hrs, rfl⟩
      exact ⟨id, hid, rs', hrs, rfl⟩

end ExecutionTree

namespace Run

variable {host : Host} {p : Program} {l : Limits} {r : Run}

/-- A record against its node: the checks of `record/6` with the regenerated identity. -/
def RecordOk (host : Host) (p : Program) (l : Limits) (r : Run) (s : StepRecord) (n : Node Num) :
    Prop :=
  ∃ id, identity host p r.original n.path l = .ok id ∧ checkRecord s (emptyRecord n id) n r p l = .ok ()

/-- The checks of `Run.new` behind the JSON admission. -/
structure Coherence (host : Host) (r : Run) (p : Program) (l : Limits) : Prop where
  header : r.checkHeader p l = .ok ()
  steps : List.Forall₂ (RecordOk host p l r) r.steps p.ir.steps.nodes
  spent : r.spent = spending r.steps
  tree : r.checkCoherentTree p = .ok ()
  window : r.checkWindow host p l = .ok ()

theorem checkRecords_iff {original : Text} (ho : original = r.original) :
    ∀ {ss es : List StepRecord} {ns : List (Node Num)},
      List.Forall₂ (Regenerated host p original l) ns es →
      ((ss.length = es.length ∧ checkRecords r p l ss es ns = .ok ()) ↔
        List.Forall₂ (RecordOk host p l r) ss ns)
  | [], _, _, .nil => by simp [checkRecords]
  | _ :: _, _, _, .nil => by simp
  | [], _, _, .cons _ _ => by simp
  | s :: ss, _, _, .cons (a := n) ⟨id, hid, he⟩ h => by
    subst he ho
    simp only [length_cons, Nat.add_right_cancel_iff, checkRecords, bind_eq_ok_unit,
      forall₂_cons, ← checkRecords_iff rfl h]
    constructor
    · rintro ⟨hl, hr, hrs⟩
      exact ⟨⟨id, hid, hr⟩, hl, hrs⟩
    · rintro ⟨⟨id', hid', hr⟩, hl, hrs⟩
      obtain rfl := Outcome.ok.inj (hid.symm.trans hid')
      exact ⟨hl, hr, hrs⟩

theorem regenerated_of_recordOk {ss : List StepRecord} (h : List.Forall₂ (RecordOk host p l r) ss ns) :
    ∃ es, List.Forall₂ (Regenerated host p r.original l) ns es := by
  induction h with
  | nil => exact ⟨[], .nil⟩
  | cons hx _ ih =>
    obtain ⟨id, hid, -⟩ := hx
    obtain ⟨es, hes⟩ := ih
    exact ⟨_ :: es, .cons ⟨id, hid, rfl⟩ hes⟩

/-- **The checks are the relations.** -/
theorem coherent_iff : r.coherent host p l = .ok () ↔ r.Coherence host p l := by
  simp only [coherent, records, checkSteps, bind_eq_ok, exists_unit, require_eq_ok, decide_eq_true_eq]
  constructor
  · rintro ⟨hh, es, hes, hsteps, hspent, ht, hw⟩
    rw [recordsOf_eq_ok] at hes
    exact ⟨hh, (checkRecords_iff rfl hes).mp hsteps, hspent, ht, hw⟩
  · rintro ⟨hh, hsteps, hspent, ht, hw⟩
    obtain ⟨es, hes⟩ := regenerated_of_recordOk hsteps
    exact ⟨hh, es, recordsOf_eq_ok.mpr hes, (checkRecords_iff rfl hes).mpr hsteps, hspent, ht, hw⟩

theorem recordOk_paths {ss : List StepRecord} (h : List.Forall₂ (RecordOk host p l r) ss ns) :
    ss.map (fun s => s.path.map Num.value) = ns.map fun n => n.path.map Num.value := by
  induction h with
  | nil => rfl
  | cons hx _ ih =>
    obtain ⟨id, -, hc⟩ := hx
    simp only [checkRecord, bind_eq_ok, exists_unit, require_eq_ok, Bool.and_eq_true] at hc
    rw [map_cons, ih, pathSame_iff.mp hc.1.1.1]
    rfl

namespace Coherence

variable {profile : Profile} {k : Limits}

theorem paths (h : r.Coherence host p l) :
    r.steps.map (fun s => s.path.map Num.value) = p.ir.steps.nodes.map fun n => n.path.map Num.value :=
  recordOk_paths h.steps

theorem pathValues_nodup (h : r.Coherence host p l) (g : Regeneration host p profile k) :
    (r.steps.map fun s => s.path.map Num.value).Nodup :=
  h.paths ▸ g.pathValues_nodup

theorem paths_nodup (h : r.Coherence host p l) (g : Regeneration host p profile k) :
    (r.steps.map StepRecord.path).Nodup :=
  paths_nodup_of_values (h.pathValues_nodup g)

end Coherence

end Run

end Wotex.Routines
