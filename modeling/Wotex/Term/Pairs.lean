import Mathlib.Data.List.Forall2
import Mathlib.Data.List.Nodup

/-!
# Two lists side by side

What the proofs about record lists need beyond Mathlib's `List.Forall₂`.
-/

namespace Wotex

open List

variable {α β γ : Type*} {R : α → β → Prop}

variable {as : List α} {bs : List β}

theorem forall₂_trans {S : β → γ → Prop} {T : α → γ → Prop} (hT : ∀ a b c, R a b → S b c → T a c)
    {cs : List γ} (h : List.Forall₂ R as bs) (h' : List.Forall₂ S bs cs) :
    List.Forall₂ T as cs := by
  induction h generalizing cs with
  | nil => cases h' with | nil => exact .nil
  | cons hx _ ih => cases h' with | cons hy hs => exact .cons (hT _ _ _ hx hy) (ih hs)

theorem forall₂_exists_right (h : List.Forall₂ R as bs) {a : α} (ha : a ∈ as) : ∃ b ∈ bs, R a b := by
  induction h with
  | nil => exact absurd ha not_mem_nil
  | @cons x y _ _ hx _ ih =>
    rcases mem_cons.mp ha with rfl | ha
    · exact ⟨y, mem_cons_self, hx⟩
    · obtain ⟨b, hb, hr⟩ := ih ha
      exact ⟨b, mem_cons_of_mem y hb, hr⟩

theorem forall₂_exists_left (h : List.Forall₂ R as bs) {b : β} (hb : b ∈ bs) : ∃ a ∈ as, R a b :=
  forall₂_exists_right (R := flip R) h.flip hb

theorem forall₂_map_self {S : α → α → Prop} {f : α → α} (h : ∀ a ∈ as, S a (f a)) :
    List.Forall₂ S as (as.map f) :=
  forall₂_map_right_iff.mpr (forall₂_same.mpr h)

/-- A function that the relation keeps takes the same values on both lists. -/
theorem map_eq_of_forall₂ {f : α → γ} {g : β → γ} (hR : ∀ a b, R a b → g b = f a)
    (h : List.Forall₂ R as bs) : bs.map g = as.map f := by
  induction h with
  | nil => rfl
  | cons hx _ ih => rw [map_cons, map_cons, hR _ _ hx, ih]

/-- A property that the relation takes back is no more frequent on the right. -/
theorem countP_le_of_forall₂ {p : α → Bool} {q : β → Bool} (hR : ∀ a b, R a b → q b = true → p a = true)
    (h : List.Forall₂ R as bs) : bs.countP q ≤ as.countP p := by
  induction h with
  | nil => exact Nat.le_refl _
  | @cons a b _ _ hx _ ih =>
    rw [countP_cons, countP_cons]
    refine Nat.add_le_add ih ?_
    split
    · rename_i hb
      exact Nat.le_of_eq (if_pos (hR a b hx hb)).symm
    · exact Nat.zero_le _

theorem mapM_eq_some_iff {f : α → Option β} {l : List α} {r : List β} :
    l.mapM f = some r ↔ List.Forall₂ (fun a b => f a = some b) l r := by
  induction l generalizing r with
  | nil => cases r <;> simp
  | cons a l ih =>
    rw [mapM_cons]
    cases r with
    | nil => cases f a <;> cases l.mapM f <;> simp
    | cons b r => simp [Option.bind_eq_some_iff, ih]

end Wotex
