import Mathlib.Data.List.Basic
import Mathlib.Order.Compare

/-!
# Maps with ordered keys

A map of the source is a `Std.ExtTreeMap`: two maps with the same entries are one value, and
`toList` is in key order. The standard library has the rules for one `insert`, `erase` and `map`;
here are those for a fold that visits listed entries and replaces the values of some of them
(`getElem?_revise_toList`, `size_revise`).
-/

namespace Wotex.Maps

open Std (ExtTreeMap TransCmp LawfulEqCmp)
open List

instance lawfulEqCmp_compare {κ : Type} [LinearOrder κ] : LawfulEqCmp (compare : κ → κ → Ordering) where
  eq_of_compare h := compare_eq_iff_eq.mp h

variable {κ α : Type} {cmp : κ → κ → Ordering} [TransCmp cmp]

/-- The map after a visit of the listed entries, each with its new value if it gets one. -/
def revise (f : α → Option α) (entries : List (κ × α)) (m : ExtTreeMap κ α cmp) :
    ExtTreeMap κ α cmp :=
  entries.foldl (fun m e => (f e.2).elim m (m.insert e.1)) m

theorem getElem?_revise [LawfulEqCmp cmp] [DecidableEq κ] (f : α → Option α) (a : κ) :
    ∀ (entries : List (κ × α)) (m : ExtTreeMap κ α cmp), (entries.map Prod.fst).Nodup →
      (∀ e ∈ entries, m[e.1]? = some e.2) → (revise f entries m)[a]? =
        if a ∈ entries.map Prod.fst then m[a]?.map fun v => (f v).getD v else m[a]?
  | [], m, _, _ => by simp [revise]
  | (k, v) :: rest, m, hnodup, h => by
    obtain ⟨hnew, hnodup⟩ := nodup_cons.mp hnodup
    obtain ⟨hk, hrest⟩ := forall_mem_cons.mp h
    -- the first step changes the entry at `k` only
    have hfirst : ∀ j, ((f v).elim m (m.insert k))[j]? =
        if j = k then some ((f v).getD v) else m[j]? := by
      intro j
      by_cases hj : j = k
      · subst hj
        cases hf : f v <;> simp [hk]
      · have hcmp : ¬ cmp k j = .eq := fun hc => hj (LawfulEqCmp.eq_of_compare hc).symm
        cases hf : f v <;> simp [ExtTreeMap.getElem?_insert, hj, hcmp]
    have hkept : ∀ e ∈ rest, ((f v).elim m (m.insert k))[e.1]? = some e.2 := by
      intro e he
      have hne : e.1 ≠ k := fun heq => hnew (mem_map.mpr ⟨e, he, heq⟩)
      rw [hfirst, if_neg hne]
      exact hrest e he
    show (revise f rest ((f v).elim m (m.insert k)))[a]? = _
    rw [getElem?_revise f a rest _ hnodup hkept, hfirst, map_cons]
    by_cases hak : a = k
    · subst hak
      simp [hnew, hk]
    · by_cases hmem : a ∈ rest.map Prod.fst
      · rw [if_pos hmem, if_neg hak, if_pos (mem_cons_of_mem _ hmem)]
      · rw [if_neg hmem, if_neg hak, if_neg (by simp [hak, hmem])]

theorem size_revise (f : α → Option α) :
    ∀ (entries : List (κ × α)) (m : ExtTreeMap κ α cmp), (∀ e ∈ entries, e.1 ∈ m) →
      (revise f entries m).size = m.size
  | [], _, _ => rfl
  | (k, v) :: rest, m, h => by
    obtain ⟨hk, hrest⟩ := forall_mem_cons.mp h
    show (revise f rest ((f v).elim m (m.insert k))).size = _
    cases hf : f v with
    | none => exact size_revise f rest m hrest
    | some w =>
      show (revise f rest (m.insert k w)).size = _
      rw [size_revise f rest (m.insert k w) fun e he => by simp [hrest e he],
        ExtTreeMap.size_insert, if_pos (ExtTreeMap.contains_iff_mem.mpr hk)]

theorem nodup_keys [LawfulEqCmp cmp] (m : ExtTreeMap κ α cmp) : (m.toList.map Prod.fst).Nodup := by
  refine pairwise_map.mpr (ExtTreeMap.distinct_keys_toList.imp fun {a b} hne heq => hne ?_)
  rw [heq]
  exact Std.ReflCmp.compare_self

/-- **A visit of every entry.** -/
theorem getElem?_revise_toList [LawfulEqCmp cmp] [DecidableEq κ] (f : α → Option α)
    (m : ExtTreeMap κ α cmp) (a : κ) :
    (revise f m.toList m)[a]? = m[a]?.map fun v => (f v).getD v := by
  rw [getElem?_revise f a _ _ (nodup_keys m) fun e he => ExtTreeMap.mem_toList_iff_getElem?_eq_some.mp he]
  split_ifs with hmem
  · rfl
  · cases hread : m[a]? with
    | none => rfl
    | some v =>
      exact absurd (mem_map.mpr ⟨(a, v), ExtTreeMap.mem_toList_iff_getElem?_eq_some.mpr hread, rfl⟩) hmem

end Wotex.Maps
