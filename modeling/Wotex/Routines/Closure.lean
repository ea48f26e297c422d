import Mathlib.Logic.Relation
import Wotex.Routines.Compiled
import Wotex.Routines.Regeneration

/-!
# Closed definitions

The closure check of a context (`compilation_context.ex`) walks the invocations depth first. It accepts iff
every invocation names a definition in its revision, none leads back to itself, and the arguments match
(`closure_and_expansion`). The walk keeps the list of what it is done with `Ordered`: an identity comes after
all those it leads to. What a step invokes is said on the step itself (`Step.Invoked`); `mem_calls` ties the
list of the source's `calls/1` to it.

Results: `visitAll_isSome_iff` (the walk succeeds iff nothing leads back to itself), `build_ne_raise` (on an
accepted context the expansion returns or refuses), `closure_and_expansion`.
-/

namespace Wotex.Routines

open List
open Outcome (bind_eq_raise each_eq_ok each_ne_raise)
open Relation (TransGen)

/-! ## The walk -/

section

variable {next : Text → List Text}

def Ordered (next : Text → List Text) : List Text → Prop
  | [] => True
  | id :: done => next id ⊆ done ∧ Ordered next done

theorem Ordered.acc : ∀ {done : List Text}, Ordered next done → ∀ id ∈ done, Acc (fun a b => a ∈ next b) id
  | _ :: _, ⟨hnext, h⟩, id, hid => by
    rcases mem_cons.mp hid with rfl | hid
    · exact ⟨_, fun a ha => h.acc a (hnext ha)⟩
    · exact h.acc id hid

theorem not_transGen_of_acc {id : Text} (h : Acc (fun a b => a ∈ next b) id) :
    ¬ TransGen (fun a b => b ∈ next a) id id := by
  have hacc := h.transGen
  clear h
  induction hacc with
  | intro id _ ih => exact fun hc => ih id (Relation.transGen_swap.mpr hc) hc

theorem visitAll_cons {budget : Nat} {id : Text} {ids done active : List Text} :
    visitAll next (budget + 1) (id :: ids) done active =
      (if id ∈ active then none else if id ∈ done then some done
        else (visitAll next budget (next id) done (id :: active)).map (id :: ·)).bind
      fun done => visitAll next (budget + 1) ids done active := by
  rw [visitAll]
  rfl

theorem visitAll_ordered {budget : Nat} {ids done active done' : List Text}
    (h : visitAll next budget ids done active = some done') (hdone : Ordered next done) :
    Ordered next done' ∧ done ⊆ done' ∧ ids ⊆ done' := by
  induction budget generalizing ids done active done' with
  | zero => cases h
  | succ budget ihb =>
    induction ids generalizing done with
    | nil =>
      cases h
      exact ⟨hdone, Subset.refl _, nil_subset _⟩
    | cons id ids ih =>
      rw [visitAll_cons, Option.bind_eq_some_iff] at h
      obtain ⟨first, hfirst, h⟩ := h
      have hone : Ordered next first ∧ done ⊆ first ∧ id ∈ first := by
        split_ifs at hfirst with _ hid
        · cases hfirst
          exact ⟨hdone, Subset.refl _, hid⟩
        · obtain ⟨below, hbelow, rfl⟩ := Option.map_eq_some_iff.mp hfirst
          obtain ⟨horder, hsub, hnext⟩ := ihb hbelow hdone
          exact ⟨⟨hnext, horder⟩, fun _ hx => mem_cons_of_mem _ (hsub hx), mem_cons_self⟩
      obtain ⟨horder, hsub, hids⟩ := ih h hone.1
      exact ⟨horder, Subset.trans hone.2.1 hsub, cons_subset.mpr ⟨hsub hone.2.2, hids⟩⟩

/-- The way to an identity repeats none, so it is shorter than the budget. -/
theorem visitAll_isSome {names : List Text} (hnext : ∀ id, next id ⊆ names)
    (hacyclic : ∀ id, ¬ TransGen (fun a b => b ∈ next a) id id) {budget : Nat} {ids done active : List Text}
    (hids : ids ⊆ names) (hnodup : active.Nodup) (hactive : active ⊆ names)
    (hway : ∀ a ∈ active, ∀ id ∈ ids, TransGen (fun a b => b ∈ next a) a id)
    (hbudget : names.length < budget + active.length) :
    (visitAll next budget ids done active).isSome := by
  induction budget generalizing ids done active with
  | zero => exact absurd (hnodup.subperm hactive).length_le (by omega)
  | succ budget ihb =>
    induction ids generalizing done with
    | nil => rfl
    | cons id ids ih =>
      obtain ⟨hid, hids⟩ := cons_subset.mp hids
      have hfresh : id ∉ active := fun h => hacyclic id (hway id h id mem_cons_self)
      have hrest : ∀ done, (visitAll next (budget + 1) ids done active).isSome := fun _ =>
        ih hids fun a ha j hj => hway a ha j (mem_cons_of_mem _ hj)
      have hbelow : (visitAll next budget (next id) done (id :: active)).isSome :=
        ihb (hnext id) (nodup_cons.mpr ⟨hfresh, hnodup⟩) (cons_subset.mpr ⟨hid, hactive⟩)
          (forall_mem_cons.mpr ⟨fun j hj => .single hj,
            fun a ha j hj => (hway a ha id mem_cons_self).tail hj⟩)
          (by rw [length_cons]; omega)
      obtain ⟨below, hbelow⟩ := Option.isSome_iff_exists.mp hbelow
      rw [visitAll_cons, hbelow]
      split_ifs <;> exact hrest _

theorem visitAll_isSome_iff {names ids : List Text} (hnext : ∀ id, next id ⊆ names) (hids : ids ~ names) :
    (visitAll next (names.length + 1) ids [] []).isSome ↔
      ∀ id, ¬ TransGen (fun a b => b ∈ next a) id id := by
  refine ⟨fun h id hc => ?_, fun h => visitAll_isSome hnext h hids.subset nodup_nil (nil_subset _)
    nofun (by simp)⟩
  obtain ⟨done, hdone⟩ := Option.isSome_iff_exists.mp h
  obtain ⟨horder, -, hsub⟩ := visitAll_ordered hdone trivial
  -- a cycle enters its identity, so the walk has been there
  obtain ⟨a, -, ha⟩ := Relation.TransGen.tail'_iff.mp hc
  exact not_transGen_of_acc (horder.acc id (hsub (hids.symm.subset (hnext a ha)))) hc

end

/-! ## The closure check -/

/-- The step makes the invocation, itself or in a step below it. -/
inductive Step.Invoked (call : Text × Text × Dict Arg) : Step → Prop
  | invoke {id : Text} : Invoked call (.invoke id call.1 call.2.1 call.2.2)
  | sequence {id : Text} {steps : List Step} {s : Step} (hs : s ∈ steps) (h : Invoked call s) :
      Invoked call (.sequence id steps)
  | parallel {id : Text} {branches : List Step} {s : Step} (hs : s ∈ branches) (h : Invoked call s) :
      Invoked call (.parallel id branches)
  | yes {id : Text} {condition : Predicate} {yes no : Step} (h : Invoked call yes) :
      Invoked call (.ite id condition yes no)
  | no {id : Text} {condition : Predicate} {yes no : Step} (h : Invoked call no) :
      Invoked call (.ite id condition yes no)

namespace Context

section

variable {call : Text × Text × Dict Arg}

mutual
theorem mem_calls : ∀ {s : Step}, call ∈ calls s ↔ s.Invoked call
  | .invoke id routineId revision arguments => by
    rw [calls, mem_singleton]
    constructor
    · rintro rfl
      exact .invoke
    · rintro ⟨⟩
      rfl
  | .sequence id steps => by
    rw [calls, mem_callsList]
    constructor
    · rintro ⟨s, hs, h⟩
      exact .sequence hs h
    · rintro (_ | ⟨hs, h⟩)
      exact ⟨_, hs, h⟩
  | .parallel id steps => by
    rw [calls, mem_callsList]
    constructor
    · rintro ⟨s, hs, h⟩
      exact .parallel hs h
    · rintro (_ | _ | ⟨hs, h⟩)
      exact ⟨_, hs, h⟩
  | .ite id condition yes no => by
    rw [calls, mem_append, mem_calls, mem_calls]
    refine ⟨fun h => h.elim .yes .no, fun h => ?_⟩
    cases h with
    | yes h => exact .inl h
    | no h => exact .inr h
  | .noop _ | .effect .. | .wait .. | .delay .. => by
    simp only [calls, not_mem_nil, false_iff]
    rintro ⟨⟩

theorem mem_callsList : ∀ {ss : List Step}, call ∈ callsList ss ↔ ∃ s ∈ ss, s.Invoked call
  | [] => by simp [callsList]
  | s :: ss => by
    rw [callsList, mem_append, mem_calls, mem_callsList]
    simp
end

end

end Context

/-! ## The expansion of a checked context -/

namespace Expansion

variable {host : Host} {env : Env} {declared : Source.Env}

@[simp] theorem charge_ne_raise {count maximum : Int} : charge count maximum ≠ .raise := by
  unfold charge refusal
  split <;> nofun

@[simp] theorem typedArgument_ne_raise {target : ValueContract} : ∀ {a : Arg},
    typedArgument host env target a ≠ .raise
  | .scalar s => by simp [typedArgument, bind_eq_raise]
  | .parameter name => by
    simp only [typedArgument]
    split
    · simp [bind_eq_raise]
    · refine bind_ne_raise require_ne_raise fun _ _ => bind_ne_raise (by simp) fun _ h => ?_
      split
      · nofun
      · rename_i hnone
        rw [hnone] at h
        exact absurd h ValueContract.not_accepts_null
    · nofun

theorem bindArguments_ne_raise {targets : Dict ValueContract} {inputs : Dict Arg} :
    bindArguments host env targets inputs ≠ .raise := by
  refine Dict.traverse_ne_raise fun name input => ?_
  split <;> simp [refusal]

theorem exists_binding (hb : declared.bindings ⊆ env.installed.bindings.keys) {name : Text}
    (h : Source.checkBinding declared name = .ok ()) : ∃ r, env.installed.bindings.get name = some r := by
  simp only [Source.checkBinding, bind_eq_ok, exists_unit, require_eq_ok, decide_eq_true_eq] at h
  exact Dict.exists_get (hb h.2)

mutual
theorem predicate_ne_raise (hb : declared.bindings ⊆ env.installed.bindings.keys) :
    ∀ {q : Predicate} {c : Count} {d d' : Source.Count},
    Source.predicate declared q d = .ok d' → predicate host env q c ≠ .raise
  | q, c, d, d', h => by
    rw [Source.predicate] at h
    rw [predicate]
    refine bind_ne_raise charge_ne_raise fun _ _ => ?_
    cases q with simp only [bind_eq_ok, exists_unit] at h
    | literal => nofun
    | compare =>
      obtain ⟨r, hr⟩ := exists_binding hb h.2.1
      simp [hr, bind_eq_raise]
    | not => exact bind_ne_raise (predicate_ne_raise hb h.2) nofun
    | combine => exact bind_ne_raise (predicates_ne_raise hb h.2.2) nofun

theorem predicates_ne_raise (hb : declared.bindings ⊆ env.installed.bindings.keys) :
    ∀ {qs : List Predicate} {c : Count} {d d' : Source.Count},
    Source.predicates declared qs d = .ok d' → predicates host env qs c ≠ .raise
  | [], _, _, _, _ => nofun
  | q :: qs, c, d, d', h => by
    simp only [Source.predicates, bind_eq_ok] at h
    obtain ⟨_, hq, hqs⟩ := h
    exact bind_ne_raise (predicate_ne_raise hb hq) fun _ _ => bind_ne_raise (predicates_ne_raise hb hqs) nofun
end

/-- The invocation of a definition that is installed does not raise. -/
def Invocation.Quiet (invocation : Invocation) (env : Env) : Prop :=
  ∀ id routineId revision arguments path c, (findSource env.installed.definitions routineId).isSome →
    invocation env id routineId revision arguments path c ≠ .raise

variable {invocation : Invocation}

mutual
theorem nodeWith_ne_raise (hb : declared.bindings ⊆ env.installed.bindings.keys) (hi : invocation.Quiet env) :
    ∀ {s : Step} {path : List Int} {c : Count} {d d' : Source.Count}, Source.node declared s d = .ok d' →
    (∀ call ∈ Context.calls s, (findSource env.installed.definitions call.1).isSome) →
      nodeWith host invocation env s path c ≠ .raise
  | s, path, c, d, d', h, hs => by
    rw [Source.node] at h
    simp only [bind_eq_ok, exists_unit] at h
    obtain ⟨-, -, -, h⟩ := h
    rw [nodeWith]
    refine bind_ne_raise require_ne_raise fun _ _ => bind_ne_raise charge_ne_raise fun _ _ => ?_
    cases s with simp only [bind_eq_ok, exists_unit] at h
    | noop => nofun
    | effect =>
      obtain ⟨r, hr⟩ := exists_binding hb h.1
      simp [hr, bind_eq_raise]
    | sequence => exact bind_ne_raise (childrenWith_ne_raise hb hi h.2 hs) nofun
    | parallel => exact bind_ne_raise (childrenWith_ne_raise hb hi h.2.2 hs) nofun
    | ite _ q yes no =>
      obtain ⟨_, hq, _, hy, hn⟩ := h
      simp only [Context.calls, forall_mem_append] at hs
      exact bind_ne_raise (predicate_ne_raise hb hq) fun _ _ => bind_ne_raise
        (nodeWith_ne_raise hb hi hy hs.1) fun _ _ => bind_ne_raise (nodeWith_ne_raise hb hi hn hs.2) nofun
    | wait =>
      obtain ⟨-, -, _, hq, -⟩ := h
      exact bind_ne_raise charge_ne_raise fun _ _ => bind_ne_raise (predicate_ne_raise hb hq) nofun
    | delay => simp [bind_eq_raise]
    | invoke => exact hi _ _ _ _ _ _ (hs _ (mem_singleton_self _))

theorem childrenWith_ne_raise (hb : declared.bindings ⊆ env.installed.bindings.keys)
    (hi : invocation.Quiet env) :
    ∀ {ss : List Step} {path : List Int} {index : Int} {c : Count} {d d' : Source.Count},
    Source.nodes declared ss d = .ok d' →
    (∀ call ∈ Context.callsList ss, (findSource env.installed.definitions call.1).isSome) →
      childrenWith host invocation env ss path index c ≠ .raise
  | [], _, _, _, _, _, _, _ => nofun
  | s :: ss, path, index, c, d, d', h, hs => by
    simp only [Source.nodes, bind_eq_ok] at h
    obtain ⟨_, hn, hns⟩ := h
    simp only [Context.callsList, forall_mem_append] at hs
    exact bind_ne_raise (nodeWith_ne_raise hb hi hn hs.1) fun _ _ =>
      bind_ne_raise (childrenWith_ne_raise hb hi hns hs.2) nofun
end

/-- What `resolve` checks of a definition. -/
structure Closed (host : Host) (installed : Installed) (s : Source) : Prop where
  new : ∃ p l, s.new host p l = .ok s
  bound : s.bindings ⊆ installed.bindings.keys
  found : ∀ call ∈ Context.calls s.steps, (findSource installed.definitions call.1).isSome

/-- Neither the condition, the trigger nor the steps of a checked definition raise. -/
theorem Closed.body {s : Source} (env : Env) (hc : Closed host env.installed s) (hi : invocation.Quiet env)
    (c : Count) (path : List Int) : predicate host env s.condition c ≠ .raise ∧
      checkTrigger host env s.trigger ≠ .raise ∧ nodeWith host invocation env s.steps path c ≠ .raise := by
  obtain ⟨p, l, h⟩ := hc.new
  simp only [Source.new, bind_eq_ok, exists_unit] at h
  obtain ⟨_, -, _, -, _, -, -, -, -, -, -, htrigger, _, hq, _, hsteps, -⟩ := h
  refine ⟨predicate_ne_raise hc.bound hq, ?_, nodeWith_ne_raise hc.bound hi hsteps hc.found⟩
  cases ht : s.trigger with
  | edge e =>
    simp only [ht, Source.checkTrigger, bind_eq_ok, exists_unit] at htrigger
    obtain ⟨r, hr⟩ := exists_binding hc.bound htrigger.1
    simp only [checkTrigger, hr]
    refine bind_ne_raise require_ne_raise fun _ _ => ?_
    split <;> simp [bind_eq_raise, refusal]
  | _ => simp [checkTrigger]

theorem invoke_quiet : ∀ (depth : Nat) {env : Env},
    (∀ s ∈ env.installed.definitions, Closed host env.installed s) → (invoke host depth).Quiet env
  | 0, _, _ => fun _ _ _ _ _ _ _ => by simp [invoke, refusal]
  | depth + 1, env, hc => fun id routineId revision arguments path c hs => by
    obtain ⟨child, hchild⟩ := Option.isSome_iff_exists.mp hs
    have hbody := fun args => Closed.body { env with parameters := child.parameters, args := args }
      (hc child (mem_of_find?_eq_some hchild)) (invoke_quiet depth hc)
    simp only [invoke, hchild]
    refine bind_ne_raise bindArguments_ne_raise fun args _ => bind_ne_raise ?_
      fun _ _ => bind_ne_raise (hbody args c []).1 fun r _ => bind_ne_raise (hbody args r.2 _).2.2 (by simp)
    simp [Context.checkArguments, fields, bind_eq_raise, each_ne_raise]

end Expansion

/-! ## Both together -/

namespace Context

section

variable {host : Host} {l : Limits}

/-- The definitions of a context are the root source and sources that pass their own check. -/
theorem checkSources_spec {p : Profile} : ∀ {ss acc out : List Source},
    checkSources host p l ss acc = .ok out → (∀ s ∈ acc, s.new host p l = .ok s) →
      acc ⊆ out ∧ ∀ s ∈ out, s.new host p l = .ok s
  | [], acc, out, h, hacc => by
    cases h
    exact ⟨Subset.refl _, hacc⟩
  | s :: ss, acc, out, h, hacc => by
    simp only [checkSources, bind_eq_ok, exists_unit] at h
    obtain ⟨s', hs, -, h⟩ := h
    obtain rfl := Source.new_ok hs
    obtain ⟨hsub, hout⟩ := checkSources_spec h (by simpa [or_imp, forall_and] using ⟨hacc, hs⟩)
    exact ⟨Subset.trans (subset_append_left _ _) hsub, hout⟩

/-- **An accepted context does not make the expansion raise**: it returns a tree or refuses. -/
theorem build_ne_raise {c : Context} {source : Source} {p : Profile} {installed : Installed}
    (hs : source.new host p l = .ok source) (h : c.resolve host source p l = .ok installed) :
    Expansion.build host source installed p l ≠ .raise := by
  simp only [resolve, checkDefinitions, fields, closure, bind_eq_ok, exists_unit, require_eq_ok, all_eq_true,
    decide_eq_true_eq, each_eq_ok, checkRevision] at h
  obtain ⟨_, -, -, _, -, bases, -, definitions, ⟨-, hd⟩, hkeys, bindings, hb, -, hclosure, ⟨⟩⟩ := h
  obtain ⟨hsub, hnew⟩ := checkSources_spec hd (by simpa using hs)
  have hc : ∀ s ∈ definitions, Expansion.Closed host ⟨c, bindings, definitions⟩ s := fun s hm =>
    { new := ⟨p, l, hnew s hm⟩
      bound := fun name hname => by
        rw [Dict.traverse_keys hb]
        exact hkeys.1 name (by simpa using ⟨s, hm, hname⟩)
      found := fun call hcall => by
        have := hclosure.1 s hm call hcall
        cases hf : findSource definitions call.1 <;> simp_all }
  have hbody := Expansion.Closed.body
    ⟨⟨c, bindings, definitions⟩, p, l, source.parameters, c.arguments⟩ (hc source (hsub mem_cons_self))
    (Expansion.invoke_quiet p.invocationDepth.toNat hc)
  exact bind_ne_raise (hbody {} []).1 fun r _ => bind_ne_raise (hbody r.2 []).2.1 fun _ _ =>
    bind_ne_raise (hbody r.2 []).2.2 (by simp)

end

variable (host : Host) (definitions : List Source) (l : Limits)

/-- A definition invokes another. -/
def Invokes (a b : Text) : Prop :=
  ∃ s, findSource definitions a = some s ∧ ∃ call, Step.Invoked call s.steps ∧ call.1 = b

/-- The arguments of an invocation are those of the invoked definition. -/
def Matches (source child : Source) (arguments : Dict Arg) : Prop :=
  (child.parameters.keys ⊆ arguments.keys ∧ arguments.keys ⊆ child.parameters.keys) ∧
    ∀ e ∈ arguments.entries, ∀ target, child.parameters.get e.1 = some target →
      declaredArgument host source.parameters target l e.2 = .ok ()

/-- **Closure and expansion.** The closure check accepts iff every invocation names a definition in
its revision, none leads back to itself and the arguments match. A tree that is built has its paths in
increasing order, so distinct and in preorder, and of at most 32 steps, and its counts, with every copy of an
invoked definition, are within the profile. On an accepted context `build` does return or refuse. -/
theorem closure_and_expansion :
    (closure host definitions l = .ok () ↔
      (∀ s ∈ definitions, ∀ call, s.steps.Invoked call → ∃ child,
        findSource definitions call.1 = some child ∧ child.revision = call.2.1) ∧
      (∀ id, ¬ TransGen (Invokes definitions) id id) ∧
      ∀ s ∈ definitions, ∀ call, s.steps.Invoked call → ∀ child,
        findSource definitions call.1 = some child → Matches host l s child call.2.2) ∧
    (∀ (source : Source) (installed : Installed) (p : Profile) (ir : IR Int), p.new = .ok p →
      Expansion.build host source installed p l = .ok ir →
        (ir.steps.nodes.map Node.path).Pairwise (· < ·) ∧ (∀ n ∈ ir.steps.nodes, n.path.length ≤ 32) ∧
        (Expansion.Count.plus ⟨0, ir.condition.length, 0, 0⟩ ir.steps.nodes).Within p) ∧
    ∀ (c : Context) (source : Source) (p : Profile) (installed : Installed),
      source.new host p l = .ok source → c.resolve host source p l = .ok installed →
        Expansion.build host source installed p l ≠ .raise := by
  refine ⟨?_, fun source installed p ir hp h => ?_, fun c source p installed => build_ne_raise⟩
  swap
  · obtain ⟨hcode, hplaced, hgrows⟩ := Expansion.build_expands h
    simp only [Profile.new, bind_eq_ok, require_eq_ok, Bool.and_eq_true, within, decide_eq_true_eq] at hp
    exact ⟨hplaced.sorted, hgrows.short, hgrows.within (by simp [Expansion.Count.Within]; omega)⟩
  simp only [← mem_calls, closure, bind_eq_ok, exists_unit, each_eq_ok, checkRevision,
    require_eq_ok, decide_eq_true_eq, Option.map_eq_some_iff]
  refine and_congr_right fun hrev => and_congr ?_ ?_
  · have hnext : (fun a b => b ∈ ((findSource definitions a).map fun s =>
        (calls s.steps).map Prod.fst).getD []) = Invokes definitions := by
      funext a b
      cases h : findSource definitions a <;> simp [Invokes, h, ← mem_calls]
    have hnames : ∀ id, ((findSource definitions id).map fun s =>
        (calls s.steps).map Prod.fst).getD [] ⊆ definitions.map Source.id := by
      intro id name hname
      obtain ⟨s, hs, call, hcall, rfl⟩ := (congrFun₂ hnext id name).mp hname
      obtain ⟨child, hchild, -⟩ := hrev s (mem_of_find?_eq_some hs) call (mem_calls.mpr hcall)
      exact mem_map.mpr ⟨child, mem_of_find?_eq_some hchild, by simpa using find?_some hchild⟩
    have hwalk := visitAll_isSome_iff hnames (perm_insertionSort (· ≤ ·) _)
    rw [length_map, hnext] at hwalk
    exact hwalk
  · refine forall₂_congr fun s hs => ?_
    rw [validateCalls, each_eq_ok]
    refine forall₂_congr fun call hcall => ?_
    obtain ⟨child, hchild, -⟩ := hrev s hs call hcall
    simp only [hchild, fields, bind_eq_ok, exists_unit, require_eq_ok, all_eq_true, decide_eq_true_eq,
      each_eq_ok, Option.some.injEq, forall_eq']
    refine and_congr_right fun hkeys => forall₂_congr fun e he => ?_
    obtain ⟨target, htarget⟩ := Dict.exists_get (hkeys.2 e.1 (mem_map_of_mem he))
    simp [htarget]

/-- A definition that invokes the lamp's. -/
def lampCaller : Source :=
  { lampSource with id := "c", steps := .sequence "q" [.noop "n", .invoke "i" "s" "1" Dict.empty] }

/-- The lamp's context with its definition to be installed. -/
def lampLibrary : Context := { lampContext with definitions := [lampSource] }

set_option maxRecDepth 100000 in
theorem lamp_closed :
    closure lampHost [lampCaller, lampSource] lampLimits = .ok () ∧
    (∃ child, findSource [lampCaller, lampSource] "s" = some child ∧ child.revision = "1") ∧
    (∀ id, ¬ TransGen (Invokes [lampCaller, lampSource]) id id) ∧
    ∃ installed, lampLibrary.resolve lampHost lampCaller lampProfile lampLimits = .ok installed ∧
      Expansion.build lampHost lampCaller installed lampProfile lampLimits ≠ .raise ∧
      ∃ ir, Expansion.build lampHost lampCaller installed lampProfile lampLimits = .ok ir ∧
        ir.steps.nodes.length = 8 ∧ (ir.steps.nodes.map Node.path).Pairwise (· < ·) := by
  obtain ⟨hclosure, hbuild, hquiet⟩ := closure_and_expansion lampHost [lampCaller, lampSource] lampLimits
  have h : closure lampHost [lampCaller, lampSource] lampLimits = .ok () := by decide +kernel
  obtain ⟨hrevision, hacyclic, -⟩ := hclosure.mp h
  have hnew : (lampCaller.new lampHost lampProfile lampLimits).toOption.isSome = true := by decide +kernel
  obtain ⟨source, hsource⟩ := Option.isSome_iff_exists.mp hnew
  obtain rfl := Source.new_ok (Outcome.toOption_eq_some.mp hsource)
  have hrun : ((lampLibrary.resolve lampHost lampCaller lampProfile lampLimits).toOption.bind fun installed =>
      (Expansion.build lampHost lampCaller installed lampProfile lampLimits).toOption.map
        fun ir => ir.steps.nodes.length) = some 8 := by
    decide +kernel
  simp only [Option.bind_eq_some_iff, Option.map_eq_some_iff, Outcome.toOption_eq_some] at hrun hsource
  obtain ⟨installed, hresolve, ir, hir, hlength⟩ := hrun
  exact ⟨h, hrevision lampCaller mem_cons_self ("s", "1", Dict.empty)
    (.sequence (s := .invoke "i" "s" "1" Dict.empty) (by simp) .invoke), hacyclic, installed, hresolve,
    hquiet lampLibrary lampCaller lampProfile installed hsource hresolve, ir, hir, hlength,
    (hbuild lampCaller installed lampProfile ir rfl hir).1⟩

end Context

end Wotex.Routines
