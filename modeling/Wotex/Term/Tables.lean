import Mathlib.Data.List.Nodup
import Wotex.Term.Maps

/-!
# Ordered maps

What is needed of the core library's `ExtTreeMap` beyond its own lemmas and those of `Maps`, for keys that
compare equal only where they are equal.
-/

namespace Wotex.Tables

open Std (ExtTreeMap)

variable {κ α : Type} [Ord κ] [Std.TransOrd κ] {m : ExtTreeMap κ α}

theorem mem_iff_ne_none {k : κ} : k ∈ m ↔ m[k]? ≠ none := by
  rw [ExtTreeMap.mem_iff_contains, ExtTreeMap.contains_eq_isSome_getElem?, Option.isSome_iff_ne_none]

theorem size_insert_of_none {k : κ} (h : m[k]? = none) (v : α) : (m.insert k v).size = m.size + 1 := by
  rw [ExtTreeMap.size_insert, if_neg]
  rw [← ExtTreeMap.mem_iff_contains, mem_iff_ne_none]
  exact not_not.mpr h

theorem size_insert_of_some {k : κ} (h : m[k]? ≠ none) (v : α) : (m.insert k v).size = m.size := by
  rw [ExtTreeMap.size_insert, if_pos]
  rw [← ExtTreeMap.mem_iff_contains, mem_iff_ne_none]
  exact h

variable [Std.LawfulEqOrd κ]

variable (m : ExtTreeMap κ α)

theorem getElem_insert (k a : κ) [DecidableEq κ] (v : α) :
    (m.insert k v)[a]? = if k = a then some v else m[a]? := by
  rw [ExtTreeMap.getElem?_insert]
  simp

theorem getElem_erase (k a : κ) [DecidableEq κ] : (m.erase k)[a]? = if k = a then none else m[a]? := by
  rw [ExtTreeMap.getElem?_erase]
  simp

theorem ofList_toList : ExtTreeMap.ofList m.toList = m := by
  apply ExtTreeMap.ext_getElem?
  intro k
  cases h : m[k]? with
  | some v =>
    exact ExtTreeMap.getElem?_ofList_of_mem Std.ReflCmp.compare_self m.distinct_keys_toList
      (ExtTreeMap.mem_toList_iff_getElem?_eq_some.mpr h)
  | none =>
    classical
    apply ExtTreeMap.getElem?_ofList_of_contains_eq_false
    rw [Bool.eq_false_iff]
    intro hmem
    rw [List.contains_iff_mem, ExtTreeMap.map_fst_toList_eq_keys, ExtTreeMap.mem_keys,
      mem_iff_ne_none] at hmem
    exact hmem h

end Wotex.Tables
