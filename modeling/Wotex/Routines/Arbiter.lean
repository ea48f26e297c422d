import Mathlib.Data.List.Flatten
import Wotex.Routines.Arbitration
import Wotex.Routines.Alias

/-!
# What arbitration is for

`arbitrate` states the decision directly, over a relation `clash` between signatures: who is
eligible, which groups are contested, which of the others fit the batch, and the verdict on each
proposal. The arbiter's passes compute it with the relation that compares signatures by `==`
(`resolve_eq`), provided that the steps have different identities.

Over a relation that separates all different signatures with a common domain, the decision is safe;
the arbiter's relation does not separate `5` from `5.0`, and `safe_iff` says what follows.

Results: `resolve_eq`, `batch_perm` and `deferred_iff` (who fits the batch), `safe_iff`.
-/

namespace Wotex.Routines

open List Proposal
open Signature

/-! ## Clashes -/

theorem Scalar.same_iff {a b : Scalar Num} :
    a.data.same b.data = true ↔ a.map Num.value = b.map Num.value := by
  cases a <;> cases b <;> simp [Scalar.data, Scalar.map, Json.Value.same, Num.eq_iff]

namespace Signature

variable (a b : Signature)

/-- The signatures have a domain in common. -/
def shares : Bool := a.resourceDomains.any fun x => decide (x ∈ b.resourceDomains)

/-- Not equal by `==`, with a common domain: `incompatible?/2`. -/
def clashes : Bool := !a.same b && a.shares b

/-- Not identical, with a common domain. -/
def rivals : Bool := decide (a ≠ b) && a.shares b

theorem shares_comm : a.shares b = b.shares a := by
  rw [Bool.eq_iff_iff]
  simp only [shares, any_eq_true, decide_eq_true_eq]
  exact ⟨fun ⟨x, h, h'⟩ => ⟨x, h', h⟩, fun ⟨x, h, h'⟩ => ⟨x, h', h⟩⟩

theorem same_refl (a : Signature) : a.same a = true := by simp [same, Json.Value.same_refl]

theorem same_comm (a b : Signature) : a.same b = b.same a := by
  rw [Bool.eq_iff_iff]
  simp only [same, Bool.and_eq_true, Scalar.same_iff]
  cases a
  cases b
  constructor <;> rintro ⟨h, h'⟩ <;> simp_all

end Signature

/-- A relation that can decide which signatures exclude each other. -/
structure Clash (clash : Signature → Signature → Bool) : Prop where
  irrefl : ∀ a, clash a a = false
  symm : ∀ a b, clash a b = clash b a

theorem clashes_clash : Clash clashes :=
  ⟨fun a => by simp [clashes, same_refl], fun a b => by simp [clashes, same_comm, shares_comm]⟩

/-! ## The decision -/

namespace Arbiter

open Arbitration (constraints suppress suppressed mark markSelected select conflicts compete groups
  overrideOf overrides incompatible)

/-- The verdict a constraint gives by itself. -/
def barred (d : Dict Disposition) (id : Text) : Option Verdict :=
  match (d.get id).map Disposition.constraint with
  | some .refused => some .constraintRefused
  | some .unknown => some .constraintUnknown
  | _ => none

/-- The proposal passes its constraint. -/
def allowed (d : Dict Disposition) (p : Proposal) : Bool := (barred d p.stepOriginal).isNone

/-- The verdict on an uncontested proposal, over the groups that fit the batch. -/
def seat (batch : List (List Proposal)) (p : Proposal) : Verdict :=
  if batch.any fun g => g.head? = some p then .selected
  else if batch.any fun g => decide (p ∈ g) then .coalesced
  else .batchDeferred

section

variable (clash : Signature → Signature → Bool) (d : Dict Disposition)

/-- An allowed proposal with a selected override excludes this one. -/
def overruled (ps : List Proposal) (p : Proposal) : Bool :=
  match overrideOf d p with
  | some .suppressed => true
  | some .selected => false
  | _ => ps.any fun q => allowed d q && decide (overrideOf d q = some .selected)
      && clash p.signature q.signature

/-- The proposals that take part. -/
def eligible (ps : List Proposal) : List Proposal :=
  ps.filter fun p => allowed d p && !overruled clash d ps p

variable (es : List Proposal)

/-- Some eligible proposal excludes this one. -/
def contested (p : Proposal) : Bool :=
  es.any fun q => clash p.signature q.signature

/-- The groups that are not contested, in order. -/
def free : List (List Proposal) :=
  (groups es).filter fun g => !g.any (contested clash es)

/-- The verdict on an eligible proposal, over the groups that fit the batch. -/
def place (batch : List (List Proposal)) (p : Proposal) : Verdict :=
  if contested clash es p then .conflict else seat batch p

/-- The verdict on a proposal. -/
def verdict (ps es : List Proposal) (batch : List (List Proposal)) (p : Proposal) : Verdict :=
  match barred d p.stepOriginal with
  | some v => v
  | none => if overruled clash d ps p then .overrideSuppressed else place clash es batch p

/-- The decision. -/
def arbitrate (digest : Text) (ps : List Proposal) (limit : Int) : Arbitrated :=
  let es := eligible clash d ps
  let batch := (free clash es).take limit.toNat
  ⟨digest, d, limit, batch, ps.map fun p => ⟨p.stepOriginal, some (verdict clash d ps es batch p)⟩⟩

end

/-! ## The arbiter's passes -/

variable (d : Dict Disposition)

theorem constraints_eq (ps : List Proposal) (o : Outcomes) :
    constraints d ps o = (ps.filter (allowed d),
      fun id => if id ∈ ps.map stepOriginal then (barred d id).or (o id) else o id) := by
  induction ps generalizing o with
  | nil => simp [constraints]
  | cons p ps ih =>
    -- a verdict of its own is written first; the rest does not change it
    have hcons : constraints d (p :: ps) o = match barred d p.stepOriginal with
        | some v => constraints d ps (o.put p.stepOriginal v)
        | none => (p :: (constraints d ps o).1, (constraints d ps o).2) := by
      rw [constraints, barred]
      rcases (d.get p.stepOriginal).map Disposition.constraint with _ | _ | _ | _ <;> rfl
    rw [hcons]
    cases hv : barred d p.stepOriginal <;>
    · simp only [ih]
      refine Prod.ext (by simp [allowed, hv]) (funext fun id => ?_)
      by_cases hid : id = p.stepOriginal <;> simp [hid, hv, Outcomes.put]

theorem suppress_eq (selected ps : List Proposal) (o : Outcomes) :
    suppress d selected ps o = (ps.filter fun p => !suppressed d selected p,
        fun id => if ∃ p ∈ ps, p.stepOriginal = id ∧ suppressed d selected p = true then
          some .overrideSuppressed else o id) := by
  induction ps generalizing o with
  | nil => simp [suppress]
  | cons p ps ih =>
    rw [suppress, ih, ih]
    split_ifs with hs
    · refine Prod.ext (by simp [hs]) (funext fun id => ?_)
      by_cases hid : id = p.stepOriginal
      · simp [hid, hs, Outcomes.put]
      · simp [Outcomes.put, hid, Ne.symm hid]
    · simp [hs]

theorem mark_eq (ps : List Proposal) (o : Outcomes) (v : Verdict) : mark ps o v =
      fun id => if id ∈ ps.map stepOriginal then some v else o id := by
  induction ps generalizing o with
  | nil => simp [mark]
  | cons p ps ih =>
    unfold mark at ih ⊢
    rw [foldl_cons, ih]
    funext id
    by_cases hid : id = p.stepOriginal <;> simp [hid, Outcomes.put]

variable {g es : List Proposal} {p : Proposal}

/-- The outcomes of a selected group: its first member is selected, the others are coalesced. -/
theorem markSelected_eq (hn : (g.map stepOriginal).Nodup) (o : Outcomes) :
    (∀ p ∈ g, markSelected g o p.stepOriginal = some (if g.head? = some p then .selected else .coalesced))
    ∧ ∀ id, id ∉ g.map stepOriginal → markSelected g o id = o id := by
  cases g with
  | nil => simp [markSelected]
  | cons first rest =>
    rw [map_cons, nodup_cons] at hn
    simp only [markSelected, mark_eq]
    refine ⟨fun p hp => ?_, fun id hid => ?_⟩
    · rcases mem_cons.mp hp with rfl | hp
      · simp [hn.1, Outcomes.put]
      · have hm := mem_map_of_mem (f := stepOriginal) hp
        have hne : first ≠ p := fun e => hn.1 (e ▸ hm)
        simp [hm, hne]
    · simp only [map_cons, mem_cons, not_or] at hid
      simp [hid.1, hid.2, Outcomes.put]

variable {batch : List (List Proposal)}

theorem seat_cons_of_not_mem (hp : p ∉ g) : seat (g :: batch) p = seat batch p := by
  have hh : g.head? ≠ some p := fun h => hp (mem_of_mem_head? h)
  simp [seat, hp, hh]

theorem seat_cons_of_mem (hp : p ∈ g) (hb : ∀ h ∈ batch, p ∉ h) :
    seat (g :: batch) p = if g.head? = some p then .selected else .coalesced := by
  have hh : batch.any (fun h => h.head? = some p) = false := by
    simp only [any_eq_false, decide_eq_true_eq]
    exact fun h hm he => hb h hm (mem_of_mem_head? he)
  simp [seat, hp, hh]

theorem seat_nil (p : Proposal) : seat [] p = .batchDeferred := rfl

/-- **The selection pass.** `bad` says which groups are marked by index. -/
theorem select_eq (conf : List Nat) (limit : Int) (bad : List Proposal → Bool) :
    ∀ (gs : List (List Proposal)) (index count : Nat) (o : Outcomes),
      (∀ j (h : j < gs.length), index + j ∈ conf ↔ bad gs[j] = true) →
      (gs.flatten.map stepOriginal).Nodup →
      let batch := (gs.filter fun g => !bad g).take (limit - count).toNat
      (select conf limit gs index count o).1 = batch
      ∧ (∀ g ∈ gs, ∀ p ∈ g, (select conf limit gs index count o).2 p.stepOriginal =
        some (if bad g then .conflict else seat batch p))
      ∧ ∀ id, id ∉ gs.flatten.map stepOriginal → (select conf limit gs index count o).2 id = o id
  | [], _, _, _, _, _ => by simp [select]
  | g :: gs, index, count, o, hbad, hn => by
    have hg : index ∈ conf ↔ bad g = true := hbad 0 (Nat.zero_lt_succ _)
    have hrest : ∀ j (h : j < gs.length), index + 1 + j ∈ conf ↔ bad gs[j] = true := fun j h => by
      have := hbad (j + 1) (Nat.succ_lt_succ h)
      rwa [← Nat.add_assoc, Nat.add_right_comm] at this
    rw [flatten_cons, map_append] at hn
    obtain ⟨hng, hngs, hdis⟩ := nodup_append'.mp hn
    have hapart : ∀ p ∈ g, ∀ h ∈ gs, p ∉ h := fun p hp h hh hph =>
      hdis (mem_map_of_mem hp) (mem_map_of_mem (mem_flatten.mpr ⟨h, hh, hph⟩))
    -- the rest of the pass leaves what the first group got
    have glue : ∀ (count' : Nat) (o₁ : Outcomes) (v : Proposal → Verdict)
        (f : Proposal → Verdict),
        (∀ p ∈ g, o₁ p.stepOriginal = some (v p)) →
        (∀ id, id ∉ g.map stepOriginal → o₁ id = o id) →
        (∀ p ∈ g, v p = if bad g then .conflict else f p) →
        (∀ h ∈ gs, ∀ p ∈ h, seat ((gs.filter fun g => !bad g).take (limit - count').toNat) p = f p) →
        (∀ h ∈ g :: gs, ∀ p ∈ h,
          (select conf limit gs (index + 1) count' o₁).2 p.stepOriginal =
            some (if bad h then .conflict else f p))
        ∧ ∀ id, id ∉ (g :: gs).flatten.map stepOriginal →
          (select conf limit gs (index + 1) count' o₁).2 id = o id := by
      intro count' o₁ v f hv ho hvf hf
      obtain ⟨-, ih, ihid⟩ := select_eq conf limit bad gs (index + 1) count' o₁ hrest hngs
      refine ⟨fun h hh p hp => ?_, fun id hid => ?_⟩
      · rcases mem_cons.mp hh with rfl | hh
        · rw [ihid _ (fun hm => hdis (mem_map_of_mem hp) hm), hv p hp, hvf p hp]
        · rw [ih h hh p hp, hf h hh p hp]
      · simp only [flatten_cons, map_append, mem_append, not_or] at hid
        rw [ihid id hid.2, ho id hid.1]
    have marked : ∀ v, (∀ p ∈ g, mark g o v p.stepOriginal = some v)
        ∧ ∀ id, id ∉ g.map stepOriginal → mark g o v id = o id := by
      intro v
      rw [mark_eq]
      exact ⟨fun p hp => if_pos (mem_map_of_mem hp), fun id hid => if_neg hid⟩
    unfold select
    split_ifs with hi hl
    · have hb : bad g = true := hg.mp hi
      rw [filter_cons_of_neg (by simp [hb])]
      refine ⟨(select_eq conf limit bad gs (index + 1) count _ hrest hngs).1, ?_⟩
      exact glue count _ _ _ (marked _).1 (marked _).2 (fun p _ => by simp [hb]) fun _ _ _ _ => rfl
    all_goals
      have hb : bad g = false := by simpa using fun h => hi (hg.mpr h)
      rw [filter_cons_of_pos (by simp [hb])]
    · have h0 : (limit - count).toNat = 0 := by omega
      have hsel := (select_eq conf limit bad gs (index + 1) count (mark g o .batchDeferred) hrest hngs).1
      rw [h0, take_zero] at hsel ⊢
      exact ⟨hsel, glue count _ _ _ (marked _).1 (marked _).2 (fun p _ => by simp [hb, seat_nil])
        fun _ _ _ _ => by rw [h0, take_zero]⟩
    · have hs : (limit - count).toNat = (limit - (count + 1 : Nat)).toNat + 1 := by omega
      obtain ⟨hsel, -⟩ := select_eq conf limit bad gs (index + 1) (count + 1) (markSelected g o) hrest hngs
      rw [hs, take_succ_cons]
      refine ⟨by simp [hsel], glue (count + 1) _ _ _ (markSelected_eq hng o).1
        (markSelected_eq hng o).2 (fun p hp => ?_) fun h hh p hp => ?_⟩
      · simp only [hb]
        exact (seat_cons_of_mem hp fun h hh =>
          hapart p hp h (mem_filter.mp (mem_of_mem_take hh)).1).symm
      · exact (seat_cons_of_not_mem fun hpg => hapart p hpg h hh hp).symm

/-- The positions the conflict pass collects: those of two groups that compete. -/
theorem mem_conflicts {gs : List (List Proposal)} {k i : Nat} : i ∈ conflicts gs k ↔
    ∃ a b g h, a < b ∧ gs[a]? = some g ∧ gs[b]? = some h ∧ compete g h = true
      ∧ (i = k + a ∨ i = k + b) := by
  induction gs generalizing k with
  | nil => simp [conflicts]
  | cons g gs ih =>
    simp only [conflicts, mem_append, mem_flatMap, Prod.exists, ih]
    constructor
    · rintro (⟨h, j, hm, hi⟩ | ⟨a, b, x, y, hab, ha, hb, hc, hi⟩)
      · rw [mk_mem_zipIdx_iff_le_and_getElem?_sub] at hm
        split at hi
        · rename_i hc
          refine ⟨0, j - k, g, h, by omega, rfl, ?_, hc, ?_⟩
          · rw [show j - k = j - (k + 1) + 1 by omega]
            exact hm.2
          · simp only [mem_cons, not_mem_nil, or_false] at hi
            omega
        · simp at hi
      · exact ⟨a + 1, b + 1, x, y, by omega, ha, hb, hc, by omega⟩
    · rintro ⟨a, b, x, y, hab, ha, hb, hc, hi⟩
      obtain ⟨b, rfl⟩ : ∃ b', b = b' + 1 := ⟨b - 1, by omega⟩
      cases a with
      | zero =>
        cases ha
        refine .inl ⟨y, k + 1 + b, ?_, ?_⟩
        · rw [mk_mem_zipIdx_iff_le_and_getElem?_sub]
          exact ⟨by omega, by rwa [Nat.add_sub_cancel_left]⟩
        · rw [if_pos hc]
          simp only [mem_cons]
          omega
      | succ a => exact .inr ⟨a, b, x, y, by omega, ha, hb, hc, by omega⟩

theorem signature_of_mem_group (hg : g ∈ groups es) {q : Proposal} (hp : p ∈ g) (hq : q ∈ g) :
    p.signature = q.signature := by
  obtain ⟨a, -, rfl⟩ := (Grouping.mem_groups _).mp hg
  simp only [mem_filter, decide_eq_true_eq] at hp hq
  exact hp.2.trans hq.2.symm

theorem compete_iff {h : List Proposal} (hg : g ∈ groups es) (hh : h ∈ groups es) {q : Proposal}
    (hp : p ∈ g) (hq : q ∈ h) : compete g h = p.signature.clashes q.signature := by
  cases g with
  | nil => exact absurd hp not_mem_nil
  | cons x g =>
    cases h with
    | nil => exact absurd hq not_mem_nil
    | cons y h =>
      rw [signature_of_mem_group hg hp mem_cons_self, signature_of_mem_group hh hq mem_cons_self]
      rfl

theorem mem_group_of_mem (hp : p ∈ es) : ∃ g ∈ groups es, p ∈ g :=
  ⟨_, (Grouping.mem_groups _).mpr ⟨p, hp, rfl⟩, mem_filter.mpr ⟨hp, by simp⟩⟩

theorem mem_of_mem_group (hg : g ∈ groups es) (hp : p ∈ g) : p ∈ es := by
  obtain ⟨a, -, rfl⟩ := (Grouping.mem_groups _).mp hg
  exact (mem_filter.mp hp).1

/-- **The conflict pass** marks the contested groups. -/
theorem mem_conflicts_groups {j : Nat} (hj : j < (groups es).length) :
    0 + j ∈ conflicts (groups es) 0 ↔ ((groups es)[j].any (contested clashes es)) = true := by
  have hgj := getElem_mem hj
  rw [mem_conflicts, any_eq_true]
  constructor
  · rintro ⟨a, b, g, h, hab, ha, hb, hc, hi⟩
    have hg := mem_of_getElem? ha
    have hh := mem_of_getElem? hb
    obtain ⟨p, hp⟩ := exists_mem_of_ne_nil _ (Grouping.ne_nil_of_mem_groups _ hg)
    obtain ⟨q, hq⟩ := exists_mem_of_ne_nil _ (Grouping.ne_nil_of_mem_groups _ hh)
    rw [compete_iff hg hh hp hq] at hc
    rcases hi with hi | hi
    · obtain rfl : j = a := by omega
      obtain rfl : (groups es)[j] = g := by
        rwa [getElem?_eq_getElem hj, Option.some.injEq] at ha
      exact ⟨p, hp, any_eq_true.mpr ⟨q, mem_of_mem_group hh hq, hc⟩⟩
    · obtain rfl : j = b := by omega
      obtain rfl : (groups es)[j] = h := by
        rwa [getElem?_eq_getElem hj, Option.some.injEq] at hb
      exact ⟨q, hq, any_eq_true.mpr ⟨p, mem_of_mem_group hg hp, clashes_clash.symm _ _ ▸ hc⟩⟩
  · rintro ⟨p, hp, hcon⟩
    obtain ⟨q, hq, hc⟩ := any_eq_true.mp hcon
    obtain ⟨h, hh, hqh⟩ := mem_group_of_mem hq
    obtain ⟨i, hi, rfl⟩ := mem_iff_getElem.mp hh
    have hne : i ≠ j := by
      rintro rfl
      rw [signature_of_mem_group hgj hp hqh, clashes_clash.irrefl] at hc
      cases hc
    rcases Nat.lt_or_gt_of_ne hne with hlt | hlt
    · refine ⟨i, j, _, _, hlt, getElem?_eq_getElem hi, getElem?_eq_getElem hj, ?_, .inr rfl⟩
      rw [compete_iff hh hgj hqh hp, clashes_clash.symm]
      exact hc
    · refine ⟨j, i, _, _, hlt, getElem?_eq_getElem hj, getElem?_eq_getElem hi, ?_, .inl rfl⟩
      rw [compete_iff hgj hh hp hqh]
      exact hc

/-- The override pass is about the allowed proposals of the whole list. -/
theorem suppressed_eq (ps : List Proposal) (p : Proposal) :
    suppressed d ((ps.filter (allowed d)).filter fun q =>
      decide (overrideOf d q = some .selected)) p = overruled clashes d ps p := by
  have hany : (((ps.filter (allowed d)).filter fun q =>
      decide (overrideOf d q = some .selected)).any (incompatible p)) =
      ps.any fun q => allowed d q && decide (overrideOf d q = some .selected)
        && p.signature.clashes q.signature := by
    rw [any_filter, any_filter]
    refine congrArg (any ps) (funext fun q => ?_)
    rw [Bool.and_assoc]
    rfl
  unfold suppressed overruled
  rcases overrideOf d p with _ | _ | _ | _
  exacts [hany, hany, rfl, rfl]

/-- **The filtering passes**: who stays, and the outcome of everyone so far. -/
theorem filtered_eq {ps : List Proposal} (hn : (ps.map stepOriginal).Nodup)
    (d : Dict Disposition) {es' : List Proposal} {o o' : Outcomes}
    (hc : constraints d ps (fun _ => none) = (es', o')) (ho : overrides d es' o' = (es, o)) :
    es = eligible clashes d ps ∧ ∀ p ∈ ps, o p.stepOriginal = (barred d p.stepOriginal).or
      (if overruled clashes d ps p then some .overrideSuppressed else none) := by
  rw [constraints_eq] at hc
  obtain ⟨rfl, rfl⟩ := Prod.mk.injEq .. ▸ hc
  rw [overrides, suppress_eq] at ho
  obtain ⟨rfl, rfl⟩ := Prod.mk.injEq .. ▸ ho
  refine ⟨?_, fun p hp => ?_⟩
  · rw [filter_filter]
    refine filter_congr fun p _ => ?_
    rw [suppressed_eq, Bool.and_comm]
  · have hmem : p.stepOriginal ∈ ps.map stepOriginal := mem_map_of_mem hp
    -- by identity, the suppressed proposal can only be this one
    have hex : (∃ q ∈ ps.filter (allowed d), q.stepOriginal = p.stepOriginal
        ∧ suppressed d ((ps.filter (allowed d)).filter fun q =>
          decide (overrideOf d q = some .selected)) q = true)
        ↔ allowed d p = true ∧ overruled clashes d ps p = true := by
      simp only [suppressed_eq, mem_filter]
      constructor
      · rintro ⟨q, ⟨hq, ha⟩, he, hs⟩
        obtain rfl := inj_on_of_nodup_map hn hq hp he
        exact ⟨ha, hs⟩
      · rintro ⟨ha, hs⟩
        exact ⟨p, ⟨hp, ha⟩, rfl, hs⟩
    simp only [hex, hmem]
    cases hb : barred d p.stepOriginal <;> simp [allowed, hb]

theorem any_contested {clash : Signature → Signature → Bool} (hg : g ∈ groups es)
    (hp : p ∈ g) : g.any (contested clash es) = contested clash es p := by
  rw [Bool.eq_iff_iff, any_eq_true]
  constructor
  · rintro ⟨q, hq, hc⟩
    rwa [contested, signature_of_mem_group hg hp hq]
  · exact fun h => ⟨p, hp, h⟩

/-- **The arbiter decides as stated**, with `==` on signatures, if the steps have different
identities. -/
theorem resolve_eq {ps : List Proposal} (hn : (ps.map stepOriginal).Nodup) (digest : Text)
    (d : Dict Disposition) (limit : Int) :
    Arbitration.resolve digest ps d limit = arbitrate clashes d digest ps limit := by
  unfold Arbitration.resolve
  generalize hc : constraints d ps (fun _ => none) = c
  obtain ⟨es', o'⟩ := c
  dsimp only
  generalize ho : overrides d es' o' = c
  obtain ⟨es, o⟩ := c
  obtain ⟨hes, hold⟩ := filtered_eq hn d hc ho
  have hsub : es.Sublist ps := hes ▸ filter_sublist
  have hnes : ((groups es).flatten.map stepOriginal).Nodup :=
    (((Grouping.flatten_groups_perm _ es).map _).nodup_iff).mpr (hn.sublist (hsub.map _))
  obtain ⟨hsel, hin, hout⟩ := select_eq _ limit
    (fun g => g.any (contested clashes es)) (groups es) 0 0 o
    (fun j hj => mem_conflicts_groups hj) hnes
  have hlim : (limit - (0 : Nat)).toNat = limit.toNat := by simp
  rw [hlim] at hsel hin
  simp only [arbitrate, ← hes, Arbitrated.mk.injEq, true_and]
  refine ⟨hsel, map_congr_left fun p hp => ?_⟩
  refine congrArg (Decided.mk p.stepOriginal) ?_
  by_cases hpe : p ∈ es
  · obtain ⟨g, hg, hpg⟩ := mem_group_of_mem hpe
    have hel : p ∈ eligible clashes d ps := hes ▸ hpe
    simp only [eligible, mem_filter, Bool.and_eq_true, allowed, Option.isNone_iff_eq_none,
      Bool.not_eq_true'] at hel
    simp [hin g hg p hpg, any_contested hg hpg, verdict, hel.2.1, hel.2.2, place, free]
  · have hid : p.stepOriginal ∉ (groups es).flatten.map stepOriginal := by
      intro hm
      obtain ⟨q, hq, he⟩ := mem_map.mp hm
      have hqe := (Grouping.flatten_groups_perm _ es).mem_iff.mp hq
      exact hpe (inj_on_of_nodup_map hn (hsub.subset hqe) hp he ▸ hqe)
    rw [hout _ hid, hold p hp, verdict]
    cases hb : barred d p.stepOriginal with
    | some v => simp
    | none =>
      have hov : overruled clashes d ps p = true := by
        by_contra h
        refine hpe (hes ▸ mem_filter.mpr ⟨hp, ?_⟩)
        simpa [allowed, hb] using h
      simp [hov]

/-! ## Safety -/

/-- A safe decision about proposals: the selected groups have no domain in common; every proposal
has one verdict, and the groups hold exactly the selected and coalesced ones; the batch is within
its limit, and a proposal is in conflict exactly if it is eligible and some eligible proposal is its
rival; what is deferred finds the batch full, and the batch is taken from the front. -/
structure Safe (clash : Signature → Signature → Bool) (ps : List Proposal) (d : Dict Disposition)
    (limit : Int) (a : Arbitrated) : Prop where
  disjoint : a.selected.Pairwise fun g h =>
    ∀ p ∈ g, ∀ q ∈ h, List.Disjoint p.resourceDomains q.resourceDomains
  verdicts : ∃ v : Proposal → Verdict,
    a.decisions = ps.map (fun p => ⟨p.stepOriginal, some (v p)⟩)
    ∧ a.selected.flatten.Perm (ps.filter fun p => decide (v p = .selected ∨ v p = .coalesced))
    ∧ (∀ p ∈ ps, v p = .conflict ↔ p ∈ eligible clash d ps
      ∧ ∃ q ∈ eligible clash d ps, p.signature.rivals q.signature = true)
    ∧ ∃ deferred, (groups (eligible clash d ps)).filter
        (fun g => g.all fun p => decide (v p ≠ .conflict)) = a.selected ++ deferred
      ∧ (deferred ≠ [] → (a.selected.length : Int) = limit)
      ∧ ∀ p ∈ ps, v p = .batchDeferred ↔ p ∈ deferred.flatten
  batch : (a.selected.length : Int) ≤ limit

/-- Wherever an eligible proposal has an eligible rival, the relation sees one. -/
def Discerning (clash : Signature → Signature → Bool) (d : Dict Disposition) (ps : List Proposal) :
    Prop :=
  ∀ p ∈ eligible clash d ps, ∀ q ∈ eligible clash d ps, p.signature.rivals q.signature = true →
    contested clash (eligible clash d ps) p = true

section

variable {clash : Signature → Signature → Bool} {d : Dict Disposition} {ps : List Proposal}

theorem mem_eligible : p ∈ eligible clash d ps ↔
    p ∈ ps ∧ barred d p.stepOriginal = none ∧ overruled clash d ps p = false := by
  simp [eligible, allowed]

theorem verdict_of_eligible (hp : p ∈ eligible clash d ps) (es : List Proposal)
    (batch : List (List Proposal)) : verdict clash d ps es batch p = place clash es batch p := by
  obtain ⟨-, hb, ho⟩ := mem_eligible.mp hp
  simp [verdict, hb, ho]

theorem verdict_of_not_eligible (hm : p ∈ ps) (hp : p ∉ eligible clash d ps) (es : List Proposal)
    (batch : List (List Proposal)) : verdict clash d ps es batch p ∈
      [Verdict.constraintRefused, .constraintUnknown, .overrideSuppressed] := by
  unfold verdict
  cases hb : barred d p.stepOriginal with
  | some v =>
    unfold barred at hb
    split at hb <;> simp_all
  | none =>
    have ho : overruled clash d ps p = true := by
      by_contra h
      exact hp (mem_eligible.mpr ⟨hm, hb, by simpa using h⟩)
    simp [ho]

section

variable (batch : List (List Proposal)) (p : Proposal)

/-- A proposal is seated where it is in a group of the batch, and deferred otherwise. -/
theorem seat_cases :
    (seat batch p = .selected ∨ seat batch p = .coalesced) ∧ (∃ g ∈ batch, p ∈ g)
      ∨ seat batch p = .batchDeferred ∧ ∀ g ∈ batch, p ∉ g := by
  unfold seat
  split_ifs with hfirst hmem
  · obtain ⟨g, hg, he⟩ := any_eq_true.mp hfirst
    exact .inl ⟨.inl rfl, g, hg, mem_of_mem_head? (of_decide_eq_true he)⟩
  · obtain ⟨g, hg, he⟩ := any_eq_true.mp hmem
    exact .inl ⟨.inr rfl, g, hg, of_decide_eq_true he⟩
  · exact .inr ⟨rfl, by simpa using hmem⟩

theorem seat_ne_conflict : seat batch p ≠ .conflict := by
  rcases seat_cases batch p with ⟨h | h, -⟩ | ⟨h, -⟩ <;> simp [h]

end

theorem seat_taken_iff : (seat batch p = .selected ∨ seat batch p = .coalesced) ↔ ∃ g ∈ batch, p ∈ g := by
  rcases seat_cases batch p with ⟨h, hg⟩ | ⟨h, hn⟩
  · exact iff_of_true h hg
  · simpa [h] using hn

theorem seat_deferred_iff : seat batch p = .batchDeferred ↔ ∀ g ∈ batch, p ∉ g := by
  rcases seat_cases batch p with ⟨h, g, hg, hp⟩ | ⟨h, hn⟩
  · exact iff_of_false (by rcases h with h | h <;> simp [h]) fun hn => hn g hg hp
  · exact iff_of_true h hn

theorem verdict_eq_conflict (hm : p ∈ ps) (batch : List (List Proposal)) :
    verdict clash d ps (eligible clash d ps) batch p = .conflict ↔
      p ∈ eligible clash d ps ∧ contested clash (eligible clash d ps) p = true := by
  by_cases hp : p ∈ eligible clash d ps
  · rw [verdict_of_eligible hp, place]
    by_cases hc : contested clash (eligible clash d ps) p = true
    · simp [hp, hc]
    · simp [hc, seat_ne_conflict]
  · have := verdict_of_not_eligible hm hp (eligible clash d ps) batch
    simp only [hp, false_and, iff_false]
    intro he
    simp [he] at this

theorem mem_free {es g : List Proposal} :
    g ∈ free clash es ↔ g ∈ groups es ∧ ∀ p ∈ g, contested clash es p = false := by
  simp [free]

theorem free_pairwise (es : List Proposal) :
    (free clash es).Pairwise fun g h => ∀ p ∈ g, ∀ q ∈ h, p.signature ≠ q.signature :=
  (Grouping.groups_pairwise _ es).sublist filter_sublist

/-- If the relation discerns rivals, groups that are not contested have no domain in common. -/
theorem disjoint_of_discerning (h : Discerning clash d ps) :
    (free clash (eligible clash d ps)).Pairwise fun g h =>
      ∀ p ∈ g, ∀ q ∈ h, List.Disjoint p.resourceDomains q.resourceDomains := by
  refine List.Pairwise.imp_of_mem ?_ (free_pairwise _)
  intro g k hg hk hne p hp q hq x hx hx'
  obtain ⟨hg, hfree⟩ := mem_free.mp hg
  obtain ⟨hk, -⟩ := mem_free.mp hk
  have hrival : p.signature.rivals q.signature = true := by
    simp only [rivals, Bool.and_eq_true, decide_eq_true_eq]
    exact ⟨hne p hp q hq, any_eq_true.mpr ⟨x, hx, decide_eq_true hx'⟩⟩
  have := h p (mem_of_mem_group hg hp) q (mem_of_mem_group hk hq) hrival
  simp [hfree p hp] at this

theorem flatten_free_nodup (hn : ps.Nodup) : (free clash (eligible clash d ps)).flatten.Nodup := by
  have hes : (eligible clash d ps).Nodup := hn.sublist filter_sublist
  have hg := (Grouping.flatten_groups_perm signature (eligible clash d ps)).nodup_iff.mpr hes
  exact hg.sublist (List.Sublist.flatten filter_sublist)

theorem batch_perm (hn : ps.Nodup) (n : Nat) :
    ((free clash (eligible clash d ps)).take n).flatten.Perm (ps.filter fun p => decide
      (verdict clash d ps (eligible clash d ps) ((free clash (eligible clash d ps)).take n) p = .selected
        ∨ verdict clash d ps (eligible clash d ps) ((free clash (eligible clash d ps)).take n) p
          = .coalesced)) := by
  set es := eligible clash d ps
  have hnb : ((free clash es).take n).flatten.Nodup :=
    (flatten_free_nodup hn).sublist (List.Sublist.flatten (take_sublist _ _))
  refine (perm_ext_iff_of_nodup hnb (hn.filter _)).mpr fun p => ?_
  rw [mem_flatten, ← seat_taken_iff, mem_filter, decide_eq_true_eq]
  constructor
  · intro h
    obtain ⟨g, hg, hp⟩ := seat_taken_iff.mp h
    obtain ⟨hgg, hfree⟩ := mem_free.mp (mem_of_mem_take hg)
    have hpe : p ∈ es := mem_of_mem_group hgg hp
    refine ⟨(mem_eligible.mp hpe).1, ?_⟩
    rw [verdict_of_eligible hpe, place, hfree p hp]
    exact h
  · rintro ⟨hm, h⟩
    by_cases hpe : p ∈ es
    · rw [verdict_of_eligible hpe, place] at h
      split at h
      · simp at h
      · exact h
    · have := verdict_of_not_eligible hm hpe es ((free clash es).take n)
      rcases h with h | h <;> simp [h] at this

theorem deferred_iff (hm : p ∈ ps) (n : Nat) :
    verdict clash d ps (eligible clash d ps) ((free clash (eligible clash d ps)).take n) p
      = .batchDeferred ↔ p ∈ ((free clash (eligible clash d ps)).drop n).flatten := by
  set es := eligible clash d ps
  have happ := take_append_drop n (free clash es)
  by_cases hpe : p ∈ es
  · rw [verdict_of_eligible hpe, place, mem_flatten]
    split
    · rename_i hc
      refine ⟨fun h => by simp at h, ?_⟩
      rintro ⟨g, hg, hp⟩
      have := (mem_free.mp (mem_of_mem_drop hg)).2 p hp
      simp [hc] at this
    · rename_i hc
      obtain ⟨g, hg, hp⟩ := mem_group_of_mem hpe
      have hgf : g ∈ free clash es := by
        refine mem_free.mpr ⟨hg, fun q hq => ?_⟩
        rw [contested, signature_of_mem_group hg hq hp]
        simpa [contested] using hc
      rw [seat_deferred_iff]
      constructor
      · intro h
        rw [← happ, mem_append] at hgf
        exact ⟨g, hgf.resolve_left fun hgt => h g hgt hp, hp⟩
      · rintro ⟨k, hk, hpk⟩ h hh hph
        have hpw : (free clash es).Pairwise _ := free_pairwise es
        rw [← happ, pairwise_append] at hpw
        exact hpw.2.2 h hh k hk p hph p hpk rfl
  · have hv := verdict_of_not_eligible hm hpe es ((free clash es).take n)
    constructor
    · intro h
      simp [h] at hv
    · intro h
      obtain ⟨g, hg, hp⟩ := mem_flatten.mp h
      exact absurd (mem_of_mem_group (mem_free.mp (mem_of_mem_drop hg)).1 hp) hpe

/-- **The decision is safe exactly if the relation discerns the rivals.** -/
theorem safe_iff (hr : ∀ a b, clash a b = true → rivals a b = true) (hn : ps.Nodup)
    (digest : Text) {limit : Int} (hl : 0 ≤ limit) :
    Safe clash ps d limit (arbitrate clash d digest ps limit) ↔ Discerning clash d ps := by
  set es := eligible clash d ps with hes
  set batch := (free clash es).take limit.toNat with hbatch
  constructor
  · rintro ⟨-, ⟨v, hv, -, hconf, -⟩, -⟩ p hp q hq hrival
    have hvp : ∀ p ∈ ps, v p = verdict clash d ps es batch p := by
      intro p hp
      have := map_inj_left.mp hv p hp
      simpa using this.symm
    have hm := (mem_eligible.mp hp).1
    have := (hconf p hm).mpr ⟨hp, q, hq, hrival⟩
    rw [hvp p hm] at this
    exact ((verdict_eq_conflict hm batch).mp this).2
  · intro h
    refine ⟨(disjoint_of_discerning h).sublist (take_sublist _ _),
      ⟨verdict clash d ps es batch, rfl, batch_perm hn _, fun p hm => ?_,
        (free clash es).drop limit.toNat, ?_, fun hne => ?_, fun p hm => deferred_iff hm _⟩, ?_⟩
    · rw [verdict_eq_conflict hm]
      refine and_congr_right fun hp => ⟨fun hc => ?_, fun ⟨q, hq, hrival⟩ => h p hp q hq hrival⟩
      obtain ⟨q, hq, hc⟩ := any_eq_true.mp hc
      exact ⟨q, hq, hr _ _ hc⟩
    · show _ = batch ++ _
      rw [take_append_drop]
      refine filter_congr fun g hg => ?_
      rw [Bool.eq_iff_iff]
      simp only [all_eq_true, decide_eq_true_eq, Bool.not_eq_true', any_eq_false]
      refine forall₂_congr fun p hp => ?_
      have hpe := mem_of_mem_group hg hp
      rw [ne_eq, verdict_eq_conflict (mem_eligible.mp hpe).1]
      simp [hpe, hes]
    · show ((batch.length : Nat) : Int) = limit
      have : limit.toNat < (free clash es).length := by
        by_contra hc
        exact hne (drop_eq_nil_of_le (by omega))
      rw [length_take]
      omega
    · show ((batch.length : Nat) : Int) ≤ limit
      rw [length_take]
      omega

end

end Arbiter

end Wotex.Routines
