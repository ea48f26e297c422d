import Wotex.Routines.Arbiter
import Wotex.Routines.Collected

/-!
# The arbiter on accepted collections

`Arbiter.safe_iff` at the arbiter's own relation and at the proposals of an accepted collection. What
the arbiter does not see are aliases: signatures that are equal by `==` and not identical, such as
the inputs `5` and `5.0`.

Result: `decide_safe_iff`. Out of scope: how the proposals came about, and what is done with the verdicts.
-/

namespace Wotex.Routines

open List Arbitration Collection

theorem Signature.rivals_of_clashes {a b : Signature} (h : a.clashes b = true) : a.rivals b = true := by
  simp only [clashes, rivals, Bool.and_eq_true, decide_eq_true_eq] at h ⊢
  refine ⟨fun he => ?_, h.2⟩
  rw [he, same_refl] at h
  exact absurd h.1 (by simp)

namespace Arbiter

/-- Eligible proposals for a common domain with signatures that are equal by `==` are identical in
them, or the first is contested by a third proposal anyway. -/
def Unaliased (d : Dict Disposition) (ps : List Proposal) : Prop :=
  let es := eligible Signature.clashes d ps
  ∀ p ∈ es, ∀ q ∈ es, p.signature.shares q.signature = true → p.signature.same q.signature = true →
    p.signature = q.signature ∨ ∃ r ∈ es, p.signature.clashes r.signature = true

theorem discerning_iff_unaliased {d : Dict Disposition} {ps : List Proposal} :
    Discerning Signature.clashes d ps ↔ Unaliased d ps := by
  simp only [Discerning, contested, any_eq_true]
  refine forall₂_congr fun p hp => forall₂_congr fun q hq => ?_
  constructor
  · intro h hsh hsame
    by_cases he : p.signature = q.signature
    · exact .inl he
    · exact .inr (h (by simp [Signature.rivals, he, hsh]))
  · intro h hr
    simp only [Signature.rivals, Bool.and_eq_true, decide_eq_true_eq] at hr
    by_cases hsame : p.signature.same q.signature = true
    · exact (h hr.2 hsame).resolve_left hr.1
    · exact ⟨q, hq, by simp [Signature.clashes, hr.2, hsame]⟩

end Arbiter

namespace Arbitration

variable {host : Host} {c : SuppliedCollection} {d : Dict Disposition} {limit : Int} {p : Profile}
  {l : Limits} {a : Arbitrated}

theorem decide_ok (h : decide host c d limit p l = .ok a) :
    toMap host c p l = .ok c ∧ checkDispositions d c.proposals = .ok ()
      ∧ checkBatch limit p l = .ok () ∧ a = resolve c.digest c.proposals d limit
      ∧ bounded host a.data l = .ok () := by
  simp only [decide, bind_eq_ok, exists_unit] at h
  obtain ⟨p', hp, l', hl, c', hc, l'', -, hd, hb, hr, ⟨⟩⟩ := h
  obtain rfl := Profile.new_ok hp
  obtain rfl := Limits.new_ok hl
  obtain ⟨rfl, -⟩ := toMap_ok hc
  exact ⟨hc, hd, hb, rfl, hr⟩

theorem checkBatch_ok (h : checkBatch limit p l = .ok ()) : 1 ≤ limit := by
  simp only [checkBatch, bind_eq_ok, exists_unit, integer_eq_ok] at h
  exact h.1.2 1 rfl

/-- **The arbiter is safe exactly without aliases.** -/
theorem decide_safe_iff (hf : Json.FloatText host.float) (hs : c.input.Separated host)
    (h : Arbitration.decide host c d limit p l = .ok a) :
    Arbiter.Safe Signature.clashes c.proposals d limit a ↔ Arbiter.Unaliased d c.proposals := by
  obtain ⟨hc, -, hb, rfl, -⟩ := decide_ok h
  obtain ⟨-, e, he, -, hids⟩ := Collection.toMap_ok hc
  have hn : (c.proposals.map Proposal.stepOriginal).Nodup := hids ▸ he.originals_nodup hf hs
  have hl := checkBatch_ok hb
  rw [Arbiter.resolve_eq hn, ← Arbiter.discerning_iff_unaliased]
  exact Arbiter.safe_iff (fun _ _ => Signature.rivals_of_clashes) (List.Nodup.of_map _ hn) _ (by omega)

end Arbitration

/-! ## A collection of the lamp program -/

/-- The run `"o"` in a collection. -/
def lampEntry (program : Program) : Entry :=
  ⟨program, some (lampEvent .resume), lampSnapshot, ⟨some lampStarted, none, none⟩⟩

/-- The programs of the collection. -/
def lampMembership : Membership := ⟨"m", [lampProgram.irDigest]⟩

/-- The evaluation at 3, where both effects are pending. -/
def lampEvaluate (program : Program) : Checked Collection :=
  evaluate lampHost ⟨true, lampMembership, [lampEntry program], lampTime 3⟩ lampProfile lampLimits

set_option maxRecDepth 100000 in
/-- Both effects are allowed. -/
def lampDispositions : Dict Disposition :=
  ⟨[(lampId [.int 0], ⟨.allowed, .none⟩), (lampId [.int 1, .int 1], ⟨.allowed, .none⟩)],
    by decide +kernel⟩

/-- The decision about both effects. -/
def lampDecide (c : Collection) : Checked Arbitrated :=
  decide lampHost c.supplied lampDispositions 2 lampProfile lampLimits

/-- The checks of `lampDecide` behind the collection, and the groups it selects. -/
def lampSelects (c : Collection) : Checked (List (List (Scalar Num × List Text))) := do
  let _ ← admitData lampHost (dispositionsData lampDispositions) lampLimits
  checkDispositions lampDispositions c.proposals
  checkBatch 2 lampProfile lampLimits
  let a := resolve c.digest c.proposals lampDispositions 2
  bounded lampHost a.data lampLimits
  .ok (a.selected.map fun g => g.map fun p => (p.input, p.resourceDomains))

/-- The selected groups: both effects in one if their inputs are identical. -/
def lampGroups (level : Num) : List (List (Scalar Num × List Text)) :=
  if level = .int 5 then [[(.num (.int 5), ["urn:t"]), (.num level, ["urn:t"])]]
  else [[(.num (.int 5), ["urn:t"])], [(.num level, ["urn:t"])]]

set_option maxRecDepth 100000 in
set_option synthInstance.maxSize 1000 in
/-- The collections with the second input `5` and with the second input `5.0`. -/
theorem lamp_collections :
    ∀ level ∈ [Num.int 5, flt 5], (evaluateChecked lampHost true lampMembership
        (lampEntry (lampWith (.int 3) level)) (lampTime 3) lampProfile lampLimits).toOption.bind
        (fun c => if level = .int 5 → ∀ p ∈ c.proposals, ∀ q ∈ c.proposals, p.signature = q.signature
          then (lampSelects c).toOption else none) = some (lampGroups level) := by
  decide +kernel

theorem lamp_decides (level : Num) (h : level ∈ [Num.int 5, flt 5]) :
    ∃ c a, lampEvaluate (lampWith (.int 3) level) = .ok c ∧ lampDecide c = .ok a
      ∧ (a.selected.map fun g => g.map fun p => (p.input, p.resourceDomains)) = lampGroups level
      ∧ (level = .int 5 → ∀ p ∈ c.proposals, ∀ q ∈ c.proposals, p.signature = q.signature) := by
  have hacc : Compiler.toMap lampHost (lampWith (.int 3) level) lampProfile lampLimits
      = .ok (lampWith (.int 3) level) := by
    rcases mem_pair.mp h with rfl | rfl
    · exact lamp_accepted
    · exact lampWith_accepted (.tail _ (.tail _ (.head _)))
  obtain ⟨c, hc, hv⟩ := Option.bind_eq_some_iff.mp (lamp_collections level h)
  rw [Outcome.toOption_eq_some, ← evaluate_eq (e := lampEntry (lampWith (.int 3) level)) hacc] at hc
  rw [Option.ite_none_right_eq_some, Outcome.toOption_eq_some] at hv
  obtain ⟨hsig, hs⟩ := hv
  have he := evaluate_ok hc
  have hmap := toMap_of_evaluate hc
  simp only [lampSelects, bind_eq_ok, exists_unit, Outcome.ok.injEq] at hs
  obtain ⟨k, hk, hd, hb, hr, hsel⟩ := hs
  refine ⟨c, _, hc, ?_, hsel, hsig⟩
  have hd' : Arbitration.checkDispositions lampDispositions c.supplied.proposals = .ok () := hd
  simp only [lampDecide, Arbitration.decide, he.profileNew, he.limitsNew, hmap, hk, hd', ok_bind]
  exact congrArg (· >>= fun _ => Outcome.ok _) hr

theorem lamp_safe : ∃ c a, lampDecide c = .ok a
    ∧ Arbiter.Safe Signature.clashes c.proposals lampDispositions 2 a := by
  obtain ⟨c, a, hc, ha, -, hsig⟩ := lamp_decides (.int 5) (by simp)
  refine ⟨c, a, ha, (Arbitration.decide_safe_iff Json.binaryFloat_floatText ?_ ha).mpr ?_⟩
  · have hi : c.supplied.input = _ := (Collection.evaluate_ok hc).input
    rw [hi]
    intro x hx y hy
    simp only [flatMap_cons, flatMap_nil, append_nil] at hx hy
    obtain ⟨m, hm, rfl⟩ := mem_map.mp hx
    obtain ⟨n, hn, rfl⟩ := mem_map.mp hy
    exact lamp_separates m hm n hn
  · intro p hp q hq _ _
    exact .inl (hsig rfl p (Arbiter.mem_eligible.mp hp).1 q (Arbiter.mem_eligible.mp hq).1)

/-- With the inputs `5` and `5.0`, two groups with one domain are selected. -/
theorem lamp_unsafe : ∃ c a, lampEvaluate (lampWith (.int 3) (flt 5)) = .ok c ∧ lampDecide c = .ok a
    ∧ ∃ p q, a.selected = [[p], [q]] ∧ p.resourceDomains = ["urn:t"] ∧ q.resourceDomains = ["urn:t"]
      ∧ p.input = .num (.int 5) ∧ q.input = .num (flt 5) := by
  obtain ⟨c, a, hc, ha, hsel, -⟩ := lamp_decides (flt 5) (by simp)
  refine ⟨c, a, hc, ha, ?_⟩
  rw [lampGroups] at hsel
  rcases hs : a.selected with _ | ⟨_ | ⟨p, _ | _⟩, _ | ⟨_ | ⟨q, _ | _⟩, _ | _⟩⟩ <;>
    simp [hs] at hsel
  exact ⟨p, q, rfl, hsel.1.2, hsel.2.2, hsel.1.1, hsel.2.1⟩

end Wotex.Routines
