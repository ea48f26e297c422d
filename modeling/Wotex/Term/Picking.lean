import Mathlib.Data.List.Basic

/-!
# Taking from a queue

`Enum.reduce/3` over a queue with reversed accumulators is the usual way to take the first few
entries that pass a test, or to sort entries into two lists.

* `pick p n l` is what the first fold computes (`foldl_pick`): the first `n` entries with `p`, and
  the rest in order. Nothing is lost (`pick_perm`) and the picked entries come first among those
  with `p` (`pick_append`).
* `foldl_classify` and `classify_perm` are the same for sorting into two lists.
-/

namespace Wotex.Picking

open List

variable {α β γ : Type}

/-- The first `n` entries with `p`, and the other entries, both in order. -/
def pick (p : α → Bool) : Nat → List α → List α × List α
  | _, [] => ([], [])
  | n, a :: rest =>
    if 0 < n && p a then (a :: (pick p (n - 1) rest).1, (pick p (n - 1) rest).2)
    else ((pick p n rest).1, a :: (pick p n rest).2)

/-- One step of the fold that computes `pick`. -/
def pickStep (p : α → Bool) (state : List α × List α × Nat) (a : α) : List α × List α × Nat :=
  if 0 < state.2.2 && p a then (a :: state.1, state.2.1, state.2.2 - 1)
  else (state.1, a :: state.2.1, state.2.2)

theorem foldl_pick (p : α → Bool) : ∀ (l picked kept : List α) (n : Nat),
    ((l.foldl (pickStep p) (picked, kept, n)).1.reverse,
      (l.foldl (pickStep p) (picked, kept, n)).2.1.reverse) =
      (picked.reverse ++ (pick p n l).1, kept.reverse ++ (pick p n l).2)
  | [], picked, kept, n => by simp [pick]
  | a :: rest, picked, kept, n => by
    rw [foldl_cons]
    by_cases h : (0 < n && p a) = true
    · rw [show pickStep p (picked, kept, n) a = (a :: picked, kept, n - 1) from if_pos h,
        foldl_pick p rest, pick, if_pos h]
      simp
    · rw [show pickStep p (picked, kept, n) a = (picked, a :: kept, n) from if_neg h,
        foldl_pick p rest, pick, if_neg h]
      simp

theorem pick_perm (p : α → Bool) : ∀ (n : Nat) (l : List α), ((pick p n l).1 ++ (pick p n l).2).Perm l
  | _, [] => by simp [pick]
  | n, a :: rest => by
    rw [pick]
    split_ifs with h
    · exact (pick_perm p (n - 1) rest).cons a
    · exact perm_middle.trans ((pick_perm p n rest).cons a)

theorem pick_sublist (p : α → Bool) : ∀ (n : Nat) (l : List α), (pick p n l).2.Sublist l
  | _, [] => by simp [pick]
  | n, a :: rest => by
    rw [pick]
    split_ifs with h
    · exact (pick_sublist p (n - 1) rest).cons a
    · exact (pick_sublist p n rest).cons_cons a

theorem pick_of_mem (p : α → Bool) : ∀ (n : Nat) (l : List α), ∀ a ∈ (pick p n l).1, p a = true
  | _, [], a, h => by simp [pick] at h
  | n, b :: rest, a, h => by
    rw [pick] at h
    split_ifs at h with hb
    · rcases mem_cons.mp h with rfl | h
      · exact (Bool.and_eq_true _ _ ▸ hb).2
      · exact pick_of_mem p (n - 1) rest a h
    · exact pick_of_mem p n rest a h

theorem pick_zero (p : α → Bool) : ∀ l : List α, pick p 0 l = ([], l)
  | [] => rfl
  | a :: rest => by simp [pick, pick_zero p rest]

/-- **First come, first served.** The picked entries, followed by those with `p` that stay, are all
entries with `p` in order. -/
theorem pick_append (p : α → Bool) : ∀ (n : Nat) (l : List α),
    (pick p n l).1 ++ (pick p n l).2.filter p = l.filter p
  | _, [] => by simp [pick]
  | n, a :: rest => by
    by_cases hn : n = 0
    · simp [hn, pick_zero]
    · by_cases ha : p a = true
      · have h : (0 < n && p a) = true := by simp [ha, Nat.pos_of_ne_zero hn]
        rw [pick, if_pos h, filter_cons_of_pos ha]
        simp [pick_append p (n - 1) rest]
      · have h : ¬ (0 < n && p a) = true := by simp [ha]
        rw [pick, if_neg h, filter_cons_of_neg ha, filter_cons_of_neg ha, pick_append p n rest]

theorem pick_other {p q : α → Bool} (hq : ∀ a, q a = true → p a = false) :
    ∀ (n : Nat) (l : List α), (pick p n l).2.filter q = l.filter q
  | _, [] => by simp [pick]
  | n, a :: rest => by
    rw [pick]
    split_ifs with h
    · have ha : ¬ q a = true := fun hqa => by simp [hq a hqa] at h
      rw [filter_cons_of_neg ha]
      exact pick_other hq (n - 1) rest
    · rw [filter_cons, filter_cons, pick_other hq n rest]

/-! ## Sorting into two lists -/

/-- One step of a fold that puts each entry on one of two lists. -/
def classifyStep (f : α → Option β) (g : α → Option γ) (state : List β × List γ) (a : α) :
    List β × List γ :=
  ((f a).toList ++ state.1, (g a).toList ++ state.2)

theorem foldl_classify (f : α → Option β) (g : α → Option γ) :
    ∀ (l : List α) (left : List β) (right : List γ),
      ((l.foldl (classifyStep f g) (left, right)).1.reverse,
        (l.foldl (classifyStep f g) (left, right)).2.reverse) =
        (left.reverse ++ l.filterMap f, right.reverse ++ l.filterMap g)
  | [], left, right => by simp
  | a :: rest, left, right => by
    rw [foldl_cons, classifyStep, foldl_classify f g rest]
    cases hf : f a <;> cases hg : g a <;> simp [hf, hg]

/-- When every entry goes to exactly one of the lists, under its own name, none is lost. -/
theorem classify_perm {f : α → Option β} {g : α → Option γ} {b : β → α} {c : γ → α} :
    ∀ {l : List α}, (∀ a ∈ l, (∃ x, f a = some x ∧ b x = a ∧ g a = none) ∨
        ∃ y, g a = some y ∧ c y = a ∧ f a = none) →
      ((l.filterMap f).map b ++ (l.filterMap g).map c).Perm l
  | [], _ => by simp
  | a :: rest, h => by
    obtain ⟨ha, hrest⟩ := forall_mem_cons.mp h
    have ih := classify_perm hrest
    rcases ha with ⟨x, hf, hb, hg⟩ | ⟨y, hg, hc, hf⟩
    · rw [filterMap_cons_some hf, filterMap_cons_none hg, map_cons, hb]
      exact ih.cons a
    · rw [filterMap_cons_none hf, filterMap_cons_some hg, map_cons, hc]
      exact perm_middle.trans (ih.cons a)

end Wotex.Picking
