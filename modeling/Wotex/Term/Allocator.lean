import Mathlib.Data.List.Chain
import Mathlib.Data.List.Induction

/-!
# Numbers that are never given twice

An allocator gives each key the next number, with a record of the key, and takes keys out again; the counter
only grows. `Runs` is a history of such an allocator from an empty one, as a list of its states.

Of a whole history: a number belongs to one key and one record (`Known.single`), the numbers given are exactly
those from the first one up to the counter (`Known.below`, `Known.given`), a new number is above all that
were there before (`new_above`), and a key that stays keeps its number (`stays`).
-/

namespace Wotex

open List

/-- The keys that have a number, and the next number. -/
structure Allocator (κ ρ : Type) where
  active : κ → Option (Nat × ρ)
  next : Nat

namespace Allocator

variable {κ ρ : Type} [DecidableEq κ]

/-- No key, and the first number. -/
def fresh (first : Nat) : Allocator κ ρ := ⟨fun _ => none, first⟩

variable (a : Allocator κ ρ) (k : κ)

/-- The next number given to a key. -/
def give (r : ρ) : Allocator κ ρ :=
  ⟨fun x => if x = k then some (a.next, r) else a.active x, a.next + 1⟩

/-- A key taken out. -/
def release : Allocator κ ρ :=
  ⟨fun x => if x = k then none else a.active x, a.next⟩

/-- What a step can do. -/
inductive Moves (a : Allocator κ ρ) : Allocator κ ρ → Prop where
  | same : Moves a a
  | give (k : κ) (r : ρ) (h : a.active k = none) : Moves a (a.give k r)
  | release (k : κ) : Moves a (a.release k)

/-- The key has the number in some state of the history. -/
def Owns (as : List (Allocator κ ρ)) (n : Nat) (k : κ) (r : ρ) : Prop :=
  ∃ a ∈ as, a.active k = some (n, r)

/-- A history from an empty allocator. -/
def Runs (first : Nat) (as : List (Allocator κ ρ)) : Prop :=
  as.IsChain Moves ∧ ∀ a ∈ as.head?, a = fresh first

variable {first : Nat} {as : List (Allocator κ ρ)} {a b : Allocator κ ρ}

/-! ## One step -/

variable {n : Nat} {k : κ}

section

variable (h : Moves a b)
include h

/-- An entry after a step was there before, or it is the new one. -/
theorem Moves.cases {r : ρ} (hb : b.active k = some (n, r)) :
    a.active k = some (n, r) ∨ (n = a.next ∧ b = a.give k r ∧ a.active k = none) := by
  cases h with
  | same => exact .inl hb
  | give k' r' hnone =>
    simp only [Allocator.give] at hb
    split at hb
    · rename_i hk
      subst hk
      cases hb
      exact .inr ⟨rfl, rfl, hnone⟩
    · exact .inl hb
  | release k' =>
    simp only [Allocator.release] at hb
    split at hb
    · cases hb
    · exact .inl hb

theorem Moves.next_le : a.next ≤ b.next := by
  cases h with
  | same => exact le_rfl
  | give => exact Nat.le_succ _
  | release => exact le_rfl

theorem Moves.given (hn : a.next ≤ n) (hb : n < b.next) : ∃ k r, b.active k = some (n, r) := by
  cases h with
  | same => exact absurd hb (not_lt.mpr hn)
  | give k r _ =>
    obtain rfl : n = a.next := le_antisymm (Nat.lt_succ_iff.mp hb) hn
    exact ⟨k, r, if_pos rfl⟩
  | release => exact absurd hb (not_lt.mpr hn)

theorem Moves.single {k' : κ} {r r' : ρ} (hk : b.active k = some (a.next, r))
    (hk' : b.active k' = some (a.next, r')) (hna : ∀ k r, a.active k ≠ some (a.next, r)) :
    k = k' ∧ r = r' := by
  rcases h.cases hk with hk | ⟨-, rfl, -⟩
  · exact absurd hk (hna k r)
  · simp only [Allocator.give] at hk'
    split at hk'
    · exact ⟨by symm; assumption, (Prod.mk.inj (Option.some.inj hk')).2⟩
    · exact absurd hk' (hna k' r')

theorem Moves.keeps {x : Nat × ρ} (ha : a.active k = some x) (hb : b.active k ≠ none) :
    b.active k = some x := by
  obtain ⟨⟨n, r⟩, hn⟩ := Option.ne_none_iff_exists'.mp hb
  rcases h.cases hn with hn' | ⟨-, -, hnone⟩
  · rw [hn, ← hn', ha]
  · rw [ha] at hnone
    cases hnone

end

/-! ## Histories -/

/-- What is known of the numbers of a history that ends in `a`. -/
structure Known (first : Nat) (as : List (Allocator κ ρ)) (a : Allocator κ ρ) : Prop where
  first_le : first ≤ a.next
  /-- Every number given is in the range of the counter. -/
  below : ∀ {n : Nat} {k : κ} {r : ρ}, Owns as n k r → first ≤ n ∧ n < a.next
  /-- Every number in the range of the counter was given. -/
  given : ∀ {n : Nat}, first ≤ n → n < a.next → ∃ k r, Owns as n k r
  /-- A number belongs to one key. -/
  single : ∀ {n : Nat} {k k' : κ} {r r' : ρ}, Owns as n k r → Owns as n k' r' → k = k' ∧ r = r'

omit [DecidableEq κ] in
theorem owns_append {r : ρ} : Owns (as ++ [b]) n k r ↔ Owns as n k r ∨ b.active k = some (n, r) := by
  simp [Owns, or_and_right, exists_or]

omit [DecidableEq κ] in
theorem known_fresh : Known first [fresh first] (fresh first : Allocator κ ρ) := by
  have hnone : ∀ {n : Nat} {k : κ} {r : ρ}, ¬ Owns [(fresh first : Allocator κ ρ)] n k r := by
    rintro n k r ⟨a, ha, h⟩
    obtain rfl := mem_singleton.mp ha
    cases h
  refine ⟨le_rfl, fun h => absurd h hnone, fun h h' => ?_, fun h => absurd h hnone⟩
  exact absurd h' (not_lt.mpr h)

theorem Known.step (h : Known first as a) (hlast : a ∈ as) (hm : Moves a b) :
    Known first (as ++ [b]) b := by
  have hcases : ∀ {n : Nat} {k : κ} {r : ρ}, Owns (as ++ [b]) n k r →
      Owns as n k r ∨ (n = a.next ∧ n < b.next ∧ b.active k = some (n, r)) := by
    intro n k r ho
    rcases owns_append.mp ho with ho | hb
    · exact .inl ho
    · rcases hm.cases hb with hb' | ⟨rfl, rfl, -⟩
      · exact .inl ⟨a, hlast, hb'⟩
      · exact .inr ⟨rfl, Nat.lt_succ_self _, hb⟩
  have hnot : ∀ {k : κ} {r : ρ}, ¬ Owns as a.next k r := fun ho => lt_irrefl _ (h.below ho).2
  refine ⟨h.first_le.trans hm.next_le, ?_, ?_, ?_⟩
  · intro n k r ho
    rcases hcases ho with ho | ⟨rfl, hlt, -⟩
    · exact ⟨(h.below ho).1, (h.below ho).2.trans_le hm.next_le⟩
    · exact ⟨h.first_le, hlt⟩
  · intro n hn hb
    by_cases ha : n < a.next
    · obtain ⟨k, r, ho⟩ := h.given hn ha
      exact ⟨k, r, owns_append.mpr (.inl ho)⟩
    · obtain ⟨k, r, hk⟩ := hm.given (not_lt.mp ha) hb
      exact ⟨k, r, owns_append.mpr (.inr hk)⟩
  · intro n k k' r r' ho ho'
    rcases hcases ho with ho | ⟨rfl, -, hk⟩ <;> rcases hcases ho' with ho' | ⟨hn', -, hk'⟩
    · exact h.single ho ho'
    · exact absurd (hn' ▸ ho) hnot
    · exact absurd ho' hnot
    · exact hm.single hk hk' fun k r hk => hnot ⟨a, hlast, hk⟩

theorem Runs.append (h : Runs first as) (hlast : as.getLast? = some a) (hm : Moves a b) :
    Runs first (as ++ [b]) := by
  refine ⟨isChain_append.mpr ⟨h.1, isChain_singleton _, ?_⟩, ?_⟩
  · intro x hx y hy
    obtain rfl := Option.some.inj (hlast.symm.trans hx)
    cases hy
    exact hm
  · intro x hx
    cases as with
    | nil => cases hlast
    | cons c as => exact h.2 x hx

theorem Runs.front {bs : List (Allocator κ ρ)} (h : Runs first (as ++ bs)) : Runs first as := by
  refine ⟨(isChain_append.mp h.1).1, fun x hx => h.2 x ?_⟩
  cases as with
  | nil => cases hx
  | cons c as => exact hx

theorem Runs.known (h : Runs first as) (hlast : as.getLast? = some a) : Known first as a := by
  induction as using reverseRecOn generalizing a with
  | nil => cases hlast
  | append_singleton as b ih =>
    obtain rfl : b = a := by simpa using hlast
    obtain ⟨-, -, hmove⟩ := isChain_append.mp h.1
    cases hl : as.getLast? with
    | none =>
      obtain rfl := getLast?_eq_none_iff.mp hl
      obtain rfl := h.2 b rfl
      exact known_fresh
    | some c => exact (ih h.front hl).step (mem_of_getLast? hl) (hmove c hl b rfl)

/-- **A key that stays keeps its number.** -/
theorem stays {before between after : List (Allocator κ ρ)}
    (h : (before ++ between ++ after).IsChain Moves) (hk : ∀ c ∈ between, c.active k ≠ none)
    (ha : a ∈ between) (hb : b ∈ between) : a.active k = b.active k := by
  have hchain : between.IsChain Moves :=
    (isChain_append.mp (isChain_append.mp h).1).2.1
  -- every state has the number of the first
  have hall : ∀ (c : Allocator κ ρ) (cs : List (Allocator κ ρ)), (c :: cs).IsChain Moves →
      (∀ d ∈ c :: cs, d.active k ≠ none) → ∀ d ∈ c :: cs, d.active k = c.active k := by
    intro c cs
    induction cs generalizing c with
    | nil => simp
    | cons e cs ih =>
      intro hc hne
      refine forall_mem_cons.mpr ⟨rfl, fun d hd => ?_⟩
      obtain ⟨hce, hrest⟩ := isChain_cons_cons.mp hc
      obtain ⟨hnc, hne⟩ := forall_mem_cons.mp hne
      obtain ⟨x, hx⟩ := Option.ne_none_iff_exists'.mp hnc
      rw [ih e hrest hne d hd, hx, hce.keeps hx (hne e mem_cons_self)]
  cases between with
  | nil => cases ha
  | cons c cs => rw [hall c cs hchain hk a ha, hall c cs hchain hk b hb]

/-- **A new number is above every number before it.** -/
theorem new_above {before after : List (Allocator κ ρ)} {r : ρ} (h : Runs first (before ++ a :: after))
    (hn : a.active k = some (n, r)) (hnew : ∀ k r, ¬ Owns before n k r) {m : Nat} {k' : κ} {r' : ρ}
    (hm : Owns before m k' r') : m < n := by
  obtain ⟨-, -, hmove⟩ := isChain_append.mp h.1
  cases hl : before.getLast? with
  | none =>
    obtain rfl := getLast?_eq_none_iff.mp hl
    obtain ⟨_, hc, -⟩ := hm
    cases hc
  | some c =>
    rcases (hmove c hl a rfl).cases hn with hc | ⟨rfl, -, -⟩
    · exact absurd ⟨c, mem_of_getLast? hl, hc⟩ (hnew k r)
    · exact ((h.front.known hl).below hm).2

end Allocator

end Wotex
