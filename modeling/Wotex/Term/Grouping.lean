import Mathlib.Data.List.Nodup
import Mathlib.Data.List.Perm.Basic

/-!
# Grouping a list by a key

`groups` collects the members of a list under their keys, in the order of first occurrence, with one
pass over the list. `groups_cons` gives the recursion its properties are proved by: the first group is
the first member with those of its key, and the rest are the groups of the other members.
-/

namespace Wotex.Grouping

open List

variable {α κ : Type} [DecidableEq κ] (key : α → κ)

/-- A member joins the group of its key or opens one. -/
def enter : List (κ × List α) → α → List (κ × List α)
  | [], a => [(key a, [a])]
  | (k, g) :: gs, a => if k = key a then (k, g ++ [a]) :: gs else (k, g) :: enter gs a

variable (l : List α)

/-- The groups in the order of their first members. -/
def groups : List (List α) := (l.foldl (enter key) []).map Prod.snd

/-- The first group takes the members of its key; the others go past it. -/
theorem foldl_enter_cons (k : κ) (g : List α) (gs : List (κ × List α)) :
    l.foldl (enter key) ((k, g) :: gs) = (k, g ++ l.filter fun a => key a = k) ::
      (l.filter fun a => key a ≠ k).foldl (enter key) gs := by
  induction l generalizing g gs with
  | nil => simp
  | cons a l ih =>
    rw [foldl_cons, enter]
    by_cases h : k = key a
    · subst h
      rw [if_pos rfl, ih]
      simp
    · simp [h, ih, Ne.symm h]

@[simp] theorem groups_nil : groups key [] = [] := rfl

/-- **The recursion.** -/
theorem groups_cons (a : α) (l : List α) : groups key (a :: l) =
    (a :: l.filter fun b => key b = key a) :: groups key (l.filter fun b => key b ≠ key a) := by
  simp [groups, enter, foldl_enter_cons]

theorem induct {P : List α → Prop} (nil : P [])
    (cons : ∀ a l, P (l.filter fun b => key b ≠ key a) → P (a :: l)) (l : List α) : P l := by
  induction hn : l.length using Nat.strongRecOn generalizing l with
  | ind n ih =>
    cases l with
    | nil => exact nil
    | cons a l =>
      refine cons a l (ih _ ?_ _ rfl)
      have := length_filter_le (fun b => decide (key b ≠ key a)) l
      simp only [length_cons] at hn
      omega

theorem mem_groups {l g : List α} : g ∈ groups key l ↔ ∃ a ∈ l, g = l.filter fun b => key b = key a := by
  induction l using induct key with
  | nil => simp
  | cons a l ih =>
    rw [groups_cons, mem_cons, ih]
    -- the class of a member with another key is that of the rest
    have hrest : ∀ b, key b ≠ key a → ((a :: l).filter fun c => key c = key b) =
        (l.filter fun c => key c ≠ key a).filter fun c => key c = key b := by
      intro b hb
      rw [filter_cons_of_neg (by simpa using Ne.symm hb), filter_filter]
      refine filter_congr fun c _ => ?_
      by_cases hc : key c = key b <;> simp [hc, hb]
    constructor
    · rintro (rfl | ⟨b, hb, rfl⟩)
      · exact ⟨a, mem_cons_self, by simp⟩
      · simp only [mem_filter, decide_eq_true_eq] at hb
        exact ⟨b, mem_cons_of_mem a hb.1, (hrest b hb.2).symm⟩
    · rintro ⟨b, hb, rfl⟩
      by_cases hk : key b = key a
      · simp [hk]
      · have hbl : b ∈ l := (mem_cons.mp hb).resolve_left fun h => hk (h ▸ rfl)
        exact .inr ⟨b, by simp [hbl, hk], hrest b hk⟩

theorem groups_pairwise : (groups key l).Pairwise fun g h => ∀ a ∈ g, ∀ b ∈ h, key a ≠ key b := by
  induction l using induct key with
  | nil => exact List.Pairwise.nil
  | cons a l ih =>
    rw [groups_cons]
    refine pairwise_cons.mpr ⟨fun h hh b hb c hc => ?_, ih⟩
    obtain ⟨d, hd, rfl⟩ := (mem_groups key).mp hh
    have hbk : key b = key a := by
      rcases mem_cons.mp hb with rfl | hb
      · rfl
      · simpa using (mem_filter.mp hb).2
    have hck : key c ≠ key a := by
      have := (mem_filter.mp (mem_filter.mp hc).1).2
      simpa using this
    exact hbk ▸ Ne.symm hck

theorem flatten_groups_perm : (groups key l).flatten.Perm l := by
  induction l using induct key with
  | nil => exact .nil
  | cons a l ih =>
    rw [groups_cons]
    refine .cons a ?_
    have h := filter_append_perm (fun b => decide (key b = key a)) l
    have he : (l.filter fun b => key b ≠ key a) = l.filter fun b => !decide (key b = key a) :=
      filter_congr fun b _ => by by_cases hb : key b = key a <;> simp
    exact (ih.append_left _).trans (he ▸ h)

theorem ne_nil_of_mem_groups {l g : List α} (h : g ∈ groups key l) : g ≠ [] := by
  obtain ⟨a, ha, rfl⟩ := (mem_groups key).mp h
  exact ne_nil_of_mem (mem_filter.mpr ⟨ha, by simp⟩)

end Wotex.Grouping
