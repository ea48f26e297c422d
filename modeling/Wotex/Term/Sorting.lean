import Mathlib.Data.List.Sort

/-!
# Stable sorting by a key

`Enum.sort_by/2` is stable: members with one key keep their order. `sortBy` is the insertion sort
with the property that says so, `sortBy_filter`.
-/

namespace Wotex

open List

variable {α κ : Type} [LinearOrder κ] (key : α → κ)

variable (l : List α)

/-- `Enum.sort_by(list, key)`. -/
def sortBy : List α := l.insertionSort fun a b => key a ≤ key b

theorem sortBy_perm : (sortBy key l).Perm l := perm_insertionSort _ l

theorem sortBy_pairwise : (sortBy key l).Pairwise fun a b => key a ≤ key b := by
  exact pairwise_insertionSort _ l

theorem sortBy_of_pairwise {l : List α} (h : l.Pairwise fun a b => key a ≤ key b) : sortBy key l = l :=
  List.Pairwise.insertionSort_eq h

theorem orderedInsert_filter (a : α) (l : List α) (k : κ) :
    (l.orderedInsert (fun a b => key a ≤ key b) a).filter (fun b => key b = k) =
      (a :: l).filter fun b => key b = k := by
  induction l with
  | nil => rfl
  | cons b l ih =>
    rw [orderedInsert]
    split
    · rfl
    · rename_i hab
      -- the head goes first, so its key is another one than the inserted member's
      rw [filter_cons, ih]
      by_cases hb : key b = k
      · have ha : key a ≠ k := fun ha => hab (by rw [ha, hb])
        simp [hb, ha]
      · simp [hb, filter_cons]

/-- **Stability**: members with one key keep their order. -/
theorem sortBy_filter (k : κ) :
    (sortBy key l).filter (fun a => key a = k) = l.filter fun a => key a = k := by
  induction l with
  | nil => rfl
  | cons a l ih =>
    rw [sortBy, insertionSort_cons, orderedInsert_filter, filter_cons, filter_cons]
    rw [sortBy] at ih
    rw [ih]

end Wotex
