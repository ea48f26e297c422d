import Wotex.Routines.History
import Wotex.Routines.Collection

/-!
# What an evaluated collection holds

The proposals of a collection come entry by entry, in the order of the program digests. Those of one
entry are of one accepted run, in the order of the tree (`Produced`). So all steps of a collection have
different identities, unless SHA-256 collides on them (`originals_nodup`).
-/

namespace Wotex.Routines

open List Proposal
open Outcome

/-! ## Pending effects -/

variable {path : List Num} {host : Host} {r : Run} {l : Limits}

namespace Pending

variable {env : Env}

variable {ps : List (List Num)}

variable {body : StepRecord → Checked (List (List Num))}

theorem guarded_ok (h : guarded env path body = .ok ps) :
    ps = [] ∨ ∃ r, env.records path = some r ∧ body r = .ok ps := by
  unfold guarded at h
  split at h
  · exact .inl (ok.inj h).symm
  · rename_i r hr
    split at h
    · exact .inl (ok.inj h).symm
    · exact .inr ⟨r, hr, h⟩

theorem gate_ok {code : List (Instr Num)} {body : Checked (List (List Num))}
    (h : gate env code body = .ok ps) : ps = [] ∨ body = .ok ps := by
  simp only [gate, bind_eq_ok] at h
  obtain ⟨t, -, h⟩ := h
  split at h
  · exact .inr h
  · exact .inl (ok.inj h).symm

theorem guarded_sublist {qs : List (List Num)}
    (h : guarded env path body = .ok ps)
    (hb : ∀ r, body r = .ok ps → ps.Sublist qs) : ps.Sublist qs := by
  rcases guarded_ok h with rfl | ⟨r, -, h⟩
  · exact nil_sublist _
  · exact hb r h

mutual
/-- The pending paths are those of nodes of the tree, in its order. -/
theorem visit_sublist : ∀ {n : Node Num} {ps : List (List Num)}, visit env n = .ok ps →
    ps.Sublist (n.nodes.map Node.path)
  | .noop .., ps, h | .wait .., ps, h | .delay .., ps, h => by
    cases h
    exact nil_sublist _
  | .effect e, ps, h => by
    refine guarded_sublist h fun r hr => ?_
    split at hr
    · cases hr
      exact List.Sublist.refl _
    · cases hr
      exact nil_sublist _
  | .sequence _ _ steps, ps, h => by
    refine guarded_sublist h fun r hr => ?_
    exact (first_sublist hr).cons _
  | .parallel _ _ branches, ps, h => by
    refine guarded_sublist h fun r hr => ?_
    exact (all_sublist hr).cons _
  | .ite _ _ _ yes no, ps, h => by
    refine guarded_sublist h fun r hr => ?_
    simp only [Node.nodes, map_cons, map_append]
    split at hr
    · exact ((visit_sublist hr).trans (sublist_append_left _ _)).cons _
    · exact ((visit_sublist hr).trans (sublist_append_right _ _)).cons _
    · cases hr
      exact nil_sublist _
  | .invoke _ _ body, ps, h => by
    refine guarded_sublist h fun r hr => ?_
    rcases gate_ok hr with rfl | hr
    · exact nil_sublist _
    · exact (visit_sublist hr).cons _

theorem first_sublist : ∀ {ns : List (Node Num)} {ps : List (List Num)}, first env ns = .ok ps →
    ps.Sublist ((Node.nodesList ns).map Node.path)
  | [], ps, h => by
    cases h
    exact nil_sublist _
  | n :: ns, ps, h => by
    unfold first at h
    simp only [Node.nodesList, map_append]
    split at h
    · exact (first_sublist h).trans (sublist_append_right _ _)
    · exact (visit_sublist h).trans (sublist_append_left _ _)

theorem all_sublist : ∀ {ns : List (Node Num)} {ps : List (List Num)}, all env ns = .ok ps →
    ps.Sublist ((Node.nodesList ns).map Node.path)
  | [], ps, h => by
    cases h
    exact nil_sublist _
  | n :: ns, ps, h => by
    simp only [all, bind_eq_ok, ok.injEq] at h
    obtain ⟨xs, hx, ys, hy, rfl⟩ := h
    simp only [Node.nodesList, map_append]
    exact (visit_sublist hx).append (all_sublist hy)
end

theorem paths_sublist {p : Program} {values : Values} {profile : Profile}
    (h : paths host p r values profile l = .ok ps) :
    ps.Sublist (p.ir.steps.nodes.map Node.path) := by
  unfold paths at h
  split at h
  · cases h
    exact nil_sublist _
  · rcases gate_ok h with rfl | h
    · exact nil_sublist _
    · exact visit_sublist h

end Pending

/-! ## One entry -/

variable {program : Program} {p : Profile}

theorem Kernel.advance_run_original {event : Event} {s : Snapshot} {t : Time} {prior : Prior}
    {x : Transition} (h : advance host program event s t prior p l = .ok x) (hr : x.run = some r) :
    r.original = event.original := by
  cases ho : prior.original with
  | some r₀ =>
    obtain ⟨r', hr', hc⟩ := advance_continues h ho
    obtain rfl := Option.some.inj (hr.symm.trans hr')
    exact hc.emits.original.trans (advance_original h ho)
  | none =>
    rcases advance_begins h ho with ⟨hx, -⟩ | ⟨r₀, r₁, hr₁, hor, hc⟩
    · simp [hr] at hx
    · obtain rfl := Option.some.inj (hr.symm.trans hr₁)
      exact hc.emits.original.trans hor

/-- Proposals in the order of the tree, of records of one accepted run. -/
structure Entry.Produced (host : Host) (e : Entry) (l : Limits) (ps : List Proposal) : Prop where
  ordered : (ps.map place).Sublist (e.program.places e.program.ir.steps.nodes)
  owned : ps = [] ∨ ∃ (v : Event) (r : Run), e.event = some v ∧ r.original = v.original
    ∧ r.Coherence host e.program l ∧ r.Owns ps

variable {e : Entry}

theorem Entry.Produced.nil : e.Produced host l [] :=
  ⟨nil_sublist _, .inl rfl⟩

namespace Collection

variable {host : Host} {e : Entry} {t : Time} {p : Profile} {l : Limits} {x : Option Transition}
  {xs : List Proposal} {ss : List ProposalState} {es : List Entry} {rs : List TransitionRecord}

theorem transition_eq_ok : transition host e t p l = .ok x ↔
    (e.event = none ∧ x = none) ∨ ∃ v y, e.event = some v ∧ x = some y
      ∧ Kernel.advance host e.program v e.snapshot t e.prior p l = .ok y := by
  unfold transition
  cases e.event with
  | none => simp [eq_comm]
  | some v =>
    simp only [bind_eq_ok, ok.injEq, reduceCtorEq, false_and, false_or, Option.some.injEq]
    exact ⟨fun ⟨y, h, hx⟩ => ⟨v, y, rfl, hx.symm, h⟩, fun ⟨_, y, hv, hx, h⟩ => ⟨y, hv ▸ h, hx.symm⟩⟩

/-- **The first format**: what the transition of an entry emits. -/
theorem emitted_produced (h : transition host e t p l = .ok x) :
    e.Produced host l ((x.map (·.proposals)).getD []) := by
  rcases transition_eq_ok.mp h with ⟨-, rfl⟩ | ⟨v, y, hv, rfl, hy⟩
  · exact .nil
  have continued : ∀ r₀ r, y.run = some r → Kernel.Continues e.program r₀ r y.proposals →
      e.Produced host l y.proposals := by
    intro r₀ r hr hc
    exact ⟨hc.emits.ordered, .inr ⟨v, r, hv, Kernel.advance_run_original hy hr,
      Kernel.advance_coherence hy hr, Run.owns_of hc.emits.sent⟩⟩
  rw [Option.map_some]
  cases ho : e.prior.original with
  | some r₀ =>
    obtain ⟨r, hr, hc⟩ := Kernel.advance_continues hy ho
    exact continued r₀ r hr hc
  | none =>
    rcases Kernel.advance_begins hy ho with ⟨-, hp⟩ | ⟨r₀, r, hr, -, hc⟩
    · rw [hp]
      exact .nil
    · exact continued r₀ r hr hc

theorem pendingAt_ok {x : Proposal} {s : ProposalState} (h : pendingAt program r path = .ok (x, s)) :
    x.place = (program.irDigest, path) ∧ s.stepOriginal = x.stepOriginal
      ∧ ∃ y ∈ r.steps, y.path = x.path ∧ y.original = x.stepOriginal := by
  unfold pendingAt at h
  split at h
  · rename_i n y hn hy
    simp only [bind_eq_ok] at h
    obtain ⟨x', hx, rfl, rfl⟩ := h
    obtain ⟨m, hm, hme⟩ := Option.bind_eq_some_iff.mp hn
    have hmp : m.path = path := by simpa using find?_some hm
    obtain rfl : n.path = path := by
      cases m <;> simp_all [Node.path]
    unfold fromStep at hx
    split at hx <;> cases hx
    obtain ⟨hym, hyp⟩ := recordAt_eq_some hy
    exact ⟨rfl, rfl, y, hym, hyp, rfl⟩
  · cases h

theorem pendingAll_ok {paths : List (List Num)} (h : pendingAll program r paths = .ok (xs, ss)) :
    xs.map place = paths.map (fun q => (program.irDigest, q)) ∧ r.Owns xs
      ∧ ss.map ProposalState.stepOriginal = xs.map stepOriginal := by
  induction paths generalizing xs ss with
  | nil =>
    cases h
    exact ⟨rfl, by simp [Run.Owns], rfl⟩
  | cons path paths ih =>
    simp only [pendingAll, bind_eq_ok, Prod.exists] at h
    obtain ⟨x, s, hx, ys, ts, hys, rfl, rfl⟩ := h
    obtain ⟨hp, hs, hy⟩ := pendingAt_ok hx
    obtain ⟨hps, hown, hss⟩ := ih hys
    exact ⟨by rw [map_cons, hp, hps, map_cons], forall_mem_cons.mpr ⟨hy, hown⟩,
      by rw [map_cons, map_cons, hs, hss]⟩

/-- **The second format**: what is pending after the transition of an entry. -/
theorem pending_produced (h : transition host e t p l = .ok x)
    (hp : pending host e x t p l = .ok (xs, ss)) : e.Produced host l xs
      ∧ ss.map ProposalState.stepOriginal = xs.map stepOriginal := by
  unfold pending at hp
  split at hp
  · cases hp
    exact ⟨.nil, rfl⟩
  · rename_i r hr
    obtain ⟨paths, hpaths, hall⟩ := bind_eq_ok.mp hp
    obtain ⟨hplaces, hown, hss⟩ := pendingAll_ok hall
    have hsub := (Pending.paths_sublist hpaths).map fun q => (e.program.irDigest, q)
    rw [map_map, ← hplaces] at hsub
    refine ⟨⟨hsub, .inr ?_⟩, hss⟩
    rcases transition_eq_ok.mp h with ⟨-, rfl⟩ | ⟨v, y, hv, rfl, hy⟩
    · cases hr
    · exact ⟨v, r, hv, Kernel.advance_run_original hy hr, Kernel.advance_coherence hy hr, hown⟩

/-! ## All entries -/

theorem transitionsOf_eq_ok :
    transitionsOf host t p l es = .ok rs ↔ List.Forall₂ (fun e r => r.programDigest = e.program.irDigest
      ∧ transition host e t p l = .ok r.result) es rs := by
  induction es generalizing rs with
  | nil =>
    rw [forall₂_nil_left_iff]
    exact ⟨fun h => (ok.inj h).symm, fun h => h ▸ rfl⟩
  | cons e es ih =>
    simp only [transitionsOf, bind_eq_ok, ok.injEq, ih, forall₂_cons_left_iff]
    constructor
    · rintro ⟨x, hx, ys, hys, rfl⟩
      exact ⟨_, ys, ⟨rfl, hx⟩, hys, rfl⟩
    · rintro ⟨r, ys, ⟨hd, hx⟩, hys, rfl⟩
      exact ⟨r.result, hx, ys, hys, by rw [← hd]⟩

section

variable (h : List.Forall₂ (fun e r => transition host e t p l = .ok r.result) es rs)
include h

theorem pendingOf_produced (hp : pendingOf host t p l (es.zip rs) = .ok (xs, ss)) :
    (∃ pss : List (List Proposal), xs = pss.flatten
      ∧ List.Forall₂ (fun e ps => e.Produced host l ps) es pss)
      ∧ ss.map ProposalState.stepOriginal = xs.map stepOriginal := by
  induction h generalizing xs ss with
  | nil =>
    cases hp
    exact ⟨⟨[], rfl, .nil⟩, rfl⟩
  | cons hr _ ih =>
    simp only [zip_cons_cons, pendingOf, bind_eq_ok, Prod.exists] at hp
    obtain ⟨ys, ts, hy, zs, us, hz, rfl, rfl⟩ := hp
    obtain ⟨hpr, hts⟩ := pending_produced hr hy
    obtain ⟨⟨pss, rfl, hpss⟩, hus⟩ := ih hz
    exact ⟨⟨ys :: pss, rfl, .cons hpr hpss⟩, by rw [map_append, hts, hus, map_append]⟩

theorem emittedOf_produced :
    ∃ pss : List (List Proposal), emitted rs = pss.flatten
      ∧ List.Forall₂ (fun e ps => e.Produced host l ps) es pss := by
  induction h with
  | nil => exact ⟨[], rfl, .nil⟩
  | cons hr _ ih =>
    obtain ⟨pss, hpss, hprod⟩ := ih
    refine ⟨_ :: pss, ?_, .cons (emitted_produced hr) hprod⟩
    rw [emitted, flatMap_cons, flatten_cons, ← hpss, emitted]

end

end Collection

/-! ## Identities -/

/-- The terms whose hashes are the step identities of an entry. -/
def Entry.identities (e : Entry) : List Json.Value :=
  e.event.elim [] fun v =>
    e.program.ir.steps.nodes.map fun n => ExecutionTree.identityData e.program v.original n.path

/-- SHA-256 does not collide on the step identities of a collection. -/
def CollectionInput.Separated (host : Host) (i : CollectionInput) : Prop :=
  ∀ a ∈ i.entries.flatMap Entry.identities, ∀ b ∈ i.entries.flatMap Entry.identities, host.Separates a b

variable {es : List Entry}

namespace Entry.Produced

variable {host : Host} {e : Entry} {l : Limits} {ps : List Proposal}

theorem identity (h : e.Produced host l ps) {x : Proposal} (hx : x ∈ ps) :
    ∃ d ∈ e.identities, hash host d l = .ok x.stepOriginal
      ∧ ∃ o path, d = ExecutionTree.identityData e.program o path := by
  rcases h.owned with rfl | ⟨v, r, hv, ho, hc, hown⟩
  · exact absurd hx not_mem_nil
  · obtain ⟨s, hs, -, hso⟩ := hown x hx
    obtain ⟨n, hn, id, hid, hck⟩ := forall₂_exists_right hc.steps hs
    simp only [Run.checkRecord, bind_eq_ok, exists_unit, require_eq_ok,
      Bool.and_eq_true, decide_eq_true_eq] at hck
    refine ⟨_, ?_, ?_, v.original, n.path, rfl⟩
    · rw [identities, hv]
      exact mem_map_of_mem hn
    · rw [← hso, hck.1.1.2, ← ho]
      exact hid

theorem originals_nodup (h : e.Produced host l ps) (g : Regeneration host e.program p l)
    (hf : Json.FloatText host.float) (hs : ∀ a ∈ e.identities, ∀ b ∈ e.identities, host.Separates a b) :
    (ps.map stepOriginal).Nodup := by
  rcases h.owned with rfl | ⟨v, r, hv, ho, hc, hown⟩
  · exact nodup_nil
  · refine hc.originals_nodup g hf (fun a ha b hb => ?_) (paths_nodup_of_places g h.ordered) hown
    rw [identities, hv] at hs
    rw [ho]
    exact hs _ (mem_map_of_mem ha) _ (mem_map_of_mem hb)

/-- **Steps of different programs have different identities**, and so have all steps of a
collection. -/
theorem flatten_nodup (hf : Json.FloatText host.float) {pss : List (List Proposal)}
    (h : List.Forall₂ (fun e ps => e.Produced host l ps) es pss)
    (hg : ∀ e ∈ es, Nonempty (Regeneration host e.program p l))
    (hd : (es.map fun e => e.program.irDigest).Nodup)
    (hs : ∀ a ∈ es.flatMap identities, ∀ b ∈ es.flatMap identities, host.Separates a b) :
    (pss.flatten.map stepOriginal).Nodup := by
  induction h with
  | nil => exact nodup_nil
  | @cons e ps es pss hp hps ih =>
    rw [map_cons, nodup_cons] at hd
    have hhead : ∀ a ∈ e.identities, a ∈ (e :: es).flatMap identities := fun a ha =>
      mem_flatMap.mpr ⟨e, mem_cons_self, ha⟩
    have htail : ∀ a ∈ es.flatMap identities, a ∈ (e :: es).flatMap identities := fun a ha =>
      mem_append_right _ ha
    obtain ⟨g⟩ := hg e mem_cons_self
    rw [flatten_cons, map_append]
    refine List.Nodup.append
      (hp.originals_nodup g hf fun a ha b hb => hs a (hhead a ha) b (hhead b hb))
      (ih (fun e he => hg e (mem_cons_of_mem _ he)) hd.2
        fun a ha b hb => hs a (htail a ha) b (htail b hb)) ?_
    intro id hid hid'
    obtain ⟨x, hx, rfl⟩ := mem_map.mp hid
    obtain ⟨y, hy, he⟩ := mem_map.mp hid'
    obtain ⟨ps', hps', hyp⟩ := mem_flatten.mp hy
    obtain ⟨e', he', hp'⟩ := forall₂_exists_left hps hps'
    obtain ⟨a, ha, hash, o, path, rfl⟩ := hp.identity hx
    obtain ⟨b, hb, hash', o', path', rfl⟩ := hp'.identity hyp
    have heq := eq_of_hash hf (hs _ (hhead _ ha) _ (htail _ (mem_flatMap.mpr ⟨e', he', hb⟩)))
      hash (he ▸ hash')
    simp only [ExecutionTree.identityData, Json.Value.obj.injEq, cons.injEq, Prod.mk.injEq,
      Json.Value.str.injEq, true_and, and_true] at heq
    exact hd.1 (mem_map.mpr ⟨e', he', heq.2.2.symm⟩)

end Entry.Produced

/-! ## Evaluated collections -/

namespace Collection

variable {host : Host} {i : CollectionInput} {p : Profile} {l : Limits} {c : Collection}

/-- An evaluated collection: its input, its entries in the order of their programs, and what they
gave. -/
structure Evaluated (host : Host) (i : CollectionInput) (p : Profile) (l : Limits) (c : Collection) :
    Prop where
  input : c.input = i
  profile : c.profile = p.map Num.int
  limits : c.limits = l.map Num.int
  profileNew : p.new = .ok p
  limitsNew : l.new = .ok l
  inputBounded : bounded host i.data l = .ok ()
  inputs : inputs host i p l = .ok i.entries.reverse
  regenerates : ∀ e ∈ i.entries, Nonempty (Regeneration host e.program p l)
  distinct : (i.entries.map fun e => e.program.irDigest).Nodup
  transitions : List.Forall₂ (fun e r => r.programDigest = e.program.irDigest
    ∧ transition host e i.time p l = .ok r.result) (sorted i.entries.reverse) c.transitions
  active : checkActiveRuns i.entries.reverse c.transitions p = .ok ()
  proposals : proposalsOf host (sorted i.entries.reverse) c.transitions i p l = .ok (c.proposals, c.states)
  bodyBounded : bounded host c.body l = .ok ()
  digest : hash host c.body l = .ok c.digest
  bounded : bounded host c.data l = .ok ()

theorem mem_sorted : e ∈ sorted es.reverse ↔ e ∈ es := by
  simp [sorted]

theorem inputs_ok (h : inputs host i p l = .ok es) : es = i.entries.reverse
    ∧ (∀ e ∈ i.entries, checkEntry host e p l = .ok ())
    ∧ (i.entries.map fun e => e.program.irDigest).Nodup := by
  simp only [inputs, checkEntries, bind_eq_ok, exists_unit, each_eq_ok, ok.injEq] at h
  obtain ⟨-, -, -, es', ⟨-, he, rfl⟩, hc, -, -, rfl⟩ := h
  simp only [checkComplete, require_eq_ok, Bool.and_eq_true, decide_eq_true_eq] at hc
  refine ⟨rfl, he, ?_⟩
  have := hc.1.2
  rwa [map_reverse, nodup_reverse] at this

theorem evaluate_ok (h : evaluate host i p l = .ok c) : Evaluated host i p l c := by
  simp only [evaluate, bind_eq_ok] at h
  obtain ⟨p', hp, l', hl, es, he, c', hr, hcl⟩ := h
  obtain rfl := Profile.new_ok hp
  obtain ⟨rfl, hln, hb⟩ := admitData_ok hl
  obtain ⟨rfl, hes, hd⟩ := inputs_ok he
  simp only [results, bind_eq_ok, exists_unit, Prod.exists, ok.injEq] at hr
  obtain ⟨ts, ht, ha, xs, ss, hx, rfl⟩ := hr
  simp only [close, bind_eq_ok, exists_unit, ok.injEq] at hcl
  obtain ⟨hbody, d, hdig, hdata, rfl⟩ := hcl
  refine ⟨rfl, rfl, rfl, hp, hln, hb, he, fun e hm => ?_, hd, transitionsOf_eq_ok.mp ht, ha, hx, hbody,
    hdig, hdata⟩
  have := hes e hm
  simp only [checkEntry, bind_eq_ok] at this
  obtain ⟨q, hq, -⟩ := this
  exact ⟨(Compiler.toMap_ok hq).2.choose⟩

namespace Evaluated

variable (h : Evaluated host i p l c)
include h

theorem regenerates_sorted : ∀ e ∈ sorted i.entries.reverse, Nonempty (Regeneration host e.program p l) :=
  fun e he => h.regenerates e (mem_sorted.mp he)

theorem results : List.Forall₂ (fun e r => transition host e i.time p l = .ok r.result)
      (sorted i.entries.reverse) c.transitions :=
  h.transitions.imp fun _ _ h => h.2

theorem produced : ∃ pss : List (List Proposal), c.proposals = pss.flatten
      ∧ List.Forall₂ (fun e ps => e.Produced host l ps) (sorted i.entries.reverse) pss := by
  have hp := h.proposals
  unfold proposalsOf at hp
  split at hp
  · simp only [bind_eq_ok, exists_unit, Prod.exists, ok.injEq, Prod.mk.injEq] at hp
    obtain ⟨xs, ss, hx, -, rfl, -⟩ := hp
    exact (pendingOf_produced h.results hx).1
  · simp only [bind_eq_ok, exists_unit, ok.injEq, Prod.mk.injEq] at hp
    obtain ⟨-, hx, -⟩ := hp
    rw [← hx]
    exact emittedOf_produced h.results

/-- **The steps of a collection have different identities**, unless SHA-256 collides on them. -/
theorem originals_nodup (hf : Json.FloatText host.float)
    (hs : i.Separated host) : (c.proposals.map stepOriginal).Nodup := by
  obtain ⟨pss, hpss, hprod⟩ := h.produced
  rw [hpss]
  have hperm : (sorted i.entries.reverse).Perm i.entries :=
    (perm_insertionSort _ _).trans (reverse_perm _)
  refine Entry.Produced.flatten_nodup hf hprod h.regenerates_sorted
    ((hperm.map _).nodup_iff.mpr h.distinct) ?_
  intro a ha b hb
  exact hs a ((hperm.flatMap_right _).mem_iff.mp ha) b ((hperm.flatMap_right _).mem_iff.mp hb)

end Evaluated

theorem get_proposals (s : SuppliedCollection) :
    s.data.get "proposals" = .arr (s.proposals.map Proposal.data) := by
  unfold SuppliedCollection.data SuppliedCollection.members
  cases s.states <;> rfl

/-- **A supplied collection** is the one its input evaluates to, by `==`, and has its identities. -/
theorem toMap_ok {s s' : SuppliedCollection} (h : toMap host s p l = .ok s') : s' = s
    ∧ ∃ c, Evaluated host s.input p l c ∧ s.data.same c.data = true
      ∧ s.proposals.map Proposal.stepOriginal = c.proposals.map Proposal.stepOriginal := by
  simp only [toMap, bind_eq_ok, exists_unit, require_eq_ok, ok.injEq] at h
  obtain ⟨-, -, c, hc, hsame, rfl⟩ := h
  refine ⟨rfl, c, evaluate_ok hc, hsame, ?_⟩
  have hm := Json.Agreement.same.get hsame "proposals"
  refine Json.Agreement.same.items Proposal.data
    (fun hxy => Json.Agreement.same.str (Json.Agreement.same.get hxy "step_original")) ?_
  have hg := get_proposals s
  have hg' := get_proposals c.supplied
  unfold SuppliedCollection.data at hg hg'
  rw [hg, hg'] at hm
  exact hm

theorem toMap_of_evaluate (h : evaluate host i p l = .ok c) :
    toMap host c.supplied p l = .ok c.supplied := by
  have hc := evaluate_ok h
  have hi : c.supplied.input = i := hc.input
  have hb : Routines.bounded host c.supplied.data l = .ok () := hc.bounded
  have hsame : c.supplied.data.same c.data = true := Json.Value.same_refl _
  simp only [toMap, admitData, hc.limitsNew, hb, hi, h, hsame, ok_bind]
  rfl

/-! ## The programs are checked once -/

/-- `checkEntry` behind the program. -/
def entryChecked (host : Host) (e : Entry) (p : Profile) (l : Limits) : Checked Unit := do
  let _ ← e.snapshot.checked host e.program p l
  e.prior.checked host e.program l

/-- `transition` behind the program. -/
def transitionChecked (host : Host) (e : Entry) (t : Time) (p : Profile) (l : Limits) :
    Checked (Option Transition) :=
  match e.event with
  | none => .ok none
  | some event => do
    let r ← Kernel.advanceChecked ⟨host, e.program, event, e.snapshot, t, p, l⟩ e.prior
    .ok (some r)

/-- `evaluate` behind the program, for one entry. -/
def evaluateChecked (host : Host) (pending : Bool) (m : Membership) (e : Entry) (t : Time)
    (p : Profile) (l : Limits) : Checked Collection := do
  let i : CollectionInput := ⟨pending, m, [e], t⟩
  let p ← Profile.new p
  let l ← admitData host i.data l
  checkMembership m p
  let _ ← t.new host l
  check (decide ((1 : Int) ≤ p.activeDefinitions)) .definitionBound
  entryChecked host e p l
  checkComplete [e] m
  checkCoherent [e]
  checkContinuations host [e] i l
  let r ← transitionChecked host e t p l
  let transitions := [⟨e.program.irDigest, r⟩]
  checkActiveRuns [e] transitions p
  let (proposals, states) ← proposalsOf host [e] transitions i p l
  close host ⟨i, p.map Num.int, l.map Num.int, transitions, proposals, states, []⟩ l

/-- **The evaluation of one entry, with its program checked once.** -/
theorem evaluate_eq {pending : Bool} {m : Membership} {t : Time}
    (h : Compiler.toMap host e.program p l = .ok e.program) :
    evaluate host ⟨pending, m, [e], t⟩ p l = evaluateChecked host pending m e t p l := by
  obtain ⟨-, g, -⟩ := Compiler.toMap_ok h
  have hentry : checkEntry host e p l = entryChecked host e p l := by
    simp [checkEntry, entryChecked, Snapshot.new, h, g.profileNew, Prior.new_eq h, bind_assoc]
  have htrans : transition host e t p l = transitionChecked host e t p l := by
    unfold transition transitionChecked
    cases e.event with
    | none => rfl
    | some v => simp [Kernel.advance_eq h]
  have hsorted : sorted [e] = [e] := rfl
  simp [evaluate, evaluateChecked, inputs, results, checkEntries, transitionsOf, hentry, htrans, hsorted,
    g.profileNew, admitData, g.limitsNew, each_cons, bind_assoc]

end Collection

end Wotex.Routines
