import Mathlib.Data.List.Sort
import Mathlib.Order.Basic

/-!
# Keyset paging

A list in strictly increasing key order is read page by page: a page starts behind the last key of
the page before it, keeps the items that are live when it is read, and has at most so many of them.
It says where to go on when there are more.

* `walk_sorted`: along a walk the keys increase strictly, so nothing is read twice.
* `walk_live`: what is on a page was in the list and live when the page was read.
* `walk_complete`: a walk that ends has read every item that was live at all its pages.
* `ended_of_length`: a walk that may take more pages than there are items ends.
-/

namespace Wotex.Keyset

open List

variable {α κ τ : Type} [LinearOrder κ] (key : α → κ) (live : τ → α → Bool) (l : List α)

/-- The items behind a key. -/
def ahead : Option κ → List α
  | none => l
  | some k => l.filter fun a => k < key a

/-- The live items behind a key. -/
def waiting (after : Option κ) (t : τ) : List α := (ahead key l after).filter (live t)

/-- Where a page that does not hold all of the items sends its reader. -/
def next (items : List α) (n : Nat) : Option κ :=
  if n < items.length then (items.take n).getLast?.map key else none

/-- The pages read by the given limits and times. -/
def walk (after : Option κ) : List (Nat × τ) → List (τ × List α)
  | [] => []
  | (n, t) :: rs => (t, (waiting key live l after t).take n) ::
    match next key (waiting key live l after t) n with
    | none => []
    | some k => walk (some k) rs

/-- The last page read has no next one. -/
def ended (after : Option κ) : List (Nat × τ) → Bool
  | [] => false
  | (n, t) :: rs =>
    match next key (waiting key live l after t) n with
    | none => true
    | some k => ended (some k) rs

variable {key live l} {after : Option κ} {n : Nat} {t : τ} {k : κ} {a : α}

theorem mem_ahead : a ∈ ahead key l after ↔ a ∈ l ∧ ∀ k ∈ after, k < key a := by
  cases after with
  | none => simp [ahead]
  | some k => simp [ahead]

theorem mem_waiting : a ∈ waiting key live l after t ↔
    (a ∈ l ∧ ∀ k ∈ after, k < key a) ∧ live t a = true := by
  rw [waiting, mem_filter, mem_ahead]

theorem take_eq_of_next_none (hn : 0 < n) (h : next key (waiting key live l after t) n = none) :
    (waiting key live l after t).take n = waiting key live l after t := by
  unfold next at h
  split_ifs at h with hlt
  · rw [Option.map_eq_none_iff, getLast?_eq_none_iff, take_eq_nil_iff] at h
    rcases h with h | h
    · omega
    · rw [h] at hlt
      exact absurd hlt (by simp)
  · exact take_of_length_le (not_lt.mp hlt)

section

variable (hl : l.Pairwise fun a b => key a < key b)

include hl

theorem waiting_sorted : (waiting key live l after t).Pairwise fun a b => key a < key b := by
  refine List.Pairwise.filter _ ?_
  cases after with
  | none => exact hl
  | some k => exact hl.filter _

/-- What is on a page is at most the key it sends its reader to, what is left is past it. -/
theorem next_spec (h : next key (waiting key live l after t) n = some k) :
    (∀ a ∈ (waiting key live l after t).take n, key a ≤ k) ∧
      (∀ a ∈ (waiting key live l after t).drop n, k < key a) ∧
      ∃ a ∈ waiting key live l after t, key a = k := by
  have hs : (waiting key live l after t).Pairwise fun a b => key a < key b := waiting_sorted hl
  generalize waiting key live l after t = items at h hs ⊢
  unfold next at h
  split_ifs at h with hn
  rw [Option.map_eq_some_iff] at h
  obtain ⟨last, hlast, rfl⟩ := h
  obtain ⟨front, hfront⟩ := getLast?_eq_some_iff.mp hlast
  have hsplit : (items.take n ++ items.drop n).Pairwise fun a b => key a < key b := by
    rwa [take_append_drop]
  rw [pairwise_append, hfront, pairwise_append] at hsplit
  obtain ⟨⟨-, -, hlt⟩, -, hgt⟩ := hsplit
  refine ⟨?_, fun a ha => hgt last (by simp) a ha, last, ?_, rfl⟩
  · rw [hfront, forall_mem_append, forall_mem_singleton]
    exact ⟨fun a ha => le_of_lt (hlt a ha last (mem_singleton_self _)), le_refl _⟩
  · exact mem_of_mem_take (hfront ▸ mem_append_right _ (mem_singleton_self _))

/-- **Along a walk the keys increase strictly**, from past the key it started behind. -/
theorem walk_sorted : ∀ (rs : List (Nat × τ)) (after : Option κ),
    ((walk key live l after rs).flatMap Prod.snd).Pairwise (fun a b => key a < key b) ∧
      ∀ a ∈ (walk key live l after rs).flatMap Prod.snd, ∀ k ∈ after, k < key a
  | [], _ => by simp [walk]
  | (n, t) :: rs, after => by
    have hpage : ∀ a ∈ (waiting key live l after t).take n, ∀ k ∈ after, k < key a :=
      fun a ha => (mem_waiting.mp (mem_of_mem_take ha)).1.2
    have hs : (waiting key live l after t).Pairwise fun a b => key a < key b := waiting_sorted hl
    rw [walk]
    split
    · rw [flatMap_singleton]
      exact ⟨hs.take, hpage⟩
    · rename_i k hk
      obtain ⟨hle, -, b, hb, hbk⟩ := next_spec hl hk
      obtain ⟨hsorted, hpast⟩ := walk_sorted rs (some k)
      rw [flatMap_cons, pairwise_append]
      refine ⟨⟨hs.take, hsorted, fun a ha c hc => ?_⟩, forall_mem_append.mpr ⟨hpage, fun a ha j hj => ?_⟩⟩
      · exact lt_of_le_of_lt (hle a ha) (hpast c hc k rfl)
      · exact lt_trans (hbk ▸ (mem_waiting.mp hb).1.2 j hj) (hpast a ha k rfl)

/-- **A walk that ends has read every item that was live at all of its pages.** -/
theorem walk_complete : ∀ (rs : List (Nat × τ)) (after : Option κ), (∀ r ∈ rs, 0 < r.1) →
    ended key live l after rs = true → a ∈ ahead key l after →
      (∀ p ∈ walk key live l after rs, live p.1 a = true) → a ∈ (walk key live l after rs).flatMap Prod.snd
  | [], _, _, h, _, _ => absurd h (by simp [ended])
  | (n, t) :: rs, after, hpos, hend, ha, hlive => by
    rw [walk] at hlive ⊢
    rw [ended] at hend
    rw [flatMap_cons, mem_append]
    have hw : a ∈ waiting key live l after t :=
      mem_filter.mpr ⟨ha, hlive _ mem_cons_self⟩
    split at hend
    · rename_i hnone
      rw [take_eq_of_next_none (hpos _ mem_cons_self) hnone]
      exact Or.inl hw
    · rename_i k hk
      rw [hk] at hlive
      rw [← take_append_drop n (waiting key live l after t), mem_append] at hw
      refine hw.imp_right fun hdrop => ?_
      refine walk_complete rs (some k) (fun r hr => hpos r (mem_cons_of_mem _ hr)) hend ?_
        fun p hp => hlive p (mem_cons_of_mem _ hp)
      refine mem_ahead.mpr ⟨(mem_ahead.mp ha).1, ?_⟩
      intro j hj
      cases hj
      exact (next_spec hl hk).2.1 a hdrop

/-- **A walk that may take more pages than there are items ends.** -/
theorem ended_of_length : ∀ (rs : List (Nat × τ)) (after : Option κ),
    (ahead key l after).length < rs.length → ended key live l after rs = true
  | [], _, h => absurd h (by simp)
  | (n, t) :: rs, after, h => by
    rw [ended]
    split
    · rfl
    · rename_i k hk
      refine ended_of_length rs (some k) ?_
      obtain ⟨-, -, b, hb, hbk⟩ := next_spec hl hk
      obtain ⟨⟨hbl, hbafter⟩, -⟩ := mem_waiting.mp hb
      -- the key moves on, so the item it belongs to is no longer ahead
      have hsub : ahead key l (some k) = (ahead key l after).filter fun a => k < key a := by
        cases after with
        | none => rfl
        | some j =>
          have hjk : j < k := hbk ▸ hbafter j rfl
          rw [ahead, ahead, filter_filter]
          refine filter_congr fun a _ => ?_
          by_cases hka : k < key a
          · simp [lt_trans hjk hka]
          · simp [hka]
      have hlt : (ahead key l (some k)).length < (ahead key l after).length := by
        rw [hsub]
        refine length_filter_lt_length_iff_exists.mpr ⟨b, mem_ahead.mpr ⟨hbl, hbafter⟩, ?_⟩
        simp [hbk]
      rw [length_cons] at h
      omega

end

/-- **What is on a page was in the list and live when the page was read.** -/
theorem walk_live : ∀ (rs : List (Nat × τ)) (after : Option κ) {p : τ × List α},
    p ∈ walk key live l after rs → a ∈ p.2 → a ∈ l ∧ live p.1 a = true
  | [], _, _, hp, _ => absurd hp (by simp [walk])
  | (n, t) :: rs, after, p, hp, ha => by
    rw [walk, mem_cons] at hp
    rcases hp with rfl | hp
    · have := mem_waiting.mp (mem_of_mem_take ha)
      exact ⟨this.1.1, this.2⟩
    · split at hp
      · exact absurd hp not_mem_nil
      · exact walk_live rs _ hp ha

end Wotex.Keyset
