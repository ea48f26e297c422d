import Mathlib.Data.List.AList
import Mathlib.Data.List.MinMax
import Mathlib.Order.Interval.Finset.Nat

/-!
# Keys that were used recently

A table of keys with the time of their use. Entries leave it after a horizon `H`, so a key that is not in
the table was not used for that long. A table of bounded size also loses its oldest entry.

* `Uses`: two uses of a key are `H` apart, kept by `Uses.expire` and `Uses.use`.
* `Memory`: two acceptances of a key are `H` apart or have `cap` others between them, kept by
  `Memory.expire` and `Memory.remember`.

The `floor` of both is a time that the clock has passed.
-/

namespace Wotex.Recent

open List

variable {κ β : Type} [DecidableEq κ]

/-- The entries that have a property. -/
def keep (p : β → Bool) (t : AList fun _ : κ => β) : AList fun _ : κ => β :=
  ⟨t.entries.filter fun e => p e.2, t.nodupKeys.sublist filter_sublist⟩

theorem lookup_keep {p : β → Bool} {t : AList fun _ : κ => β} {k : κ} {b : β} :
    (keep p t).lookup k = some b ↔ t.lookup k = some b ∧ p b = true := by
  rw [← Option.mem_def, ← Option.mem_def, AList.mem_lookup_iff, AList.mem_lookup_iff]
  exact mem_filter

/-- The entries younger than the horizon. -/
def expire (H : Int) (time : β → Int) (now : Int) (t : AList fun _ : κ => β) : AList fun _ : κ => β :=
  keep (fun b => now - time b < H) t

theorem lookup_expire {H now : Int} {time : β → Int} {t : AList fun _ : κ => β} {k : κ} {b : β} :
    (expire H time now t).lookup k = some b ↔ t.lookup k = some b ∧ now - time b < H := by
  rw [expire, lookup_keep, decide_eq_true_eq]

/-! ## Uses of keys -/

/-- The uses of a log are `H` apart for each key, and a use of the last `H` is in the table. -/
structure Uses (H floor : Int) (log : List (κ × Int)) (t : AList fun _ : κ => Int) : Prop where
  spaced : log.Pairwise fun a b => a.1 = b.1 → a.2 + H ≤ b.2
  known : ∀ a ∈ log, t.lookup a.1 = some a.2 ∨ a.2 + H ≤ floor

section Uses

variable {H floor now : Int} {log : List (κ × Int)} {t : AList fun _ : κ => Int} {k : κ}

theorem Uses.nil (H floor : Int) (t : AList fun _ : κ => Int) : Uses H floor [] t :=
  ⟨List.Pairwise.nil, fun _ ha => absurd ha not_mem_nil⟩

variable (h : Uses H floor log t)
include h

section

variable (hnow : floor ≤ now)
include hnow

theorem Uses.mono : Uses H now log t :=
  ⟨h.spaced, fun a ha => (h.known a ha).imp_right fun hle => hle.trans hnow⟩

theorem Uses.expire : Uses H now log (expire H id now t) where
  spaced := h.spaced
  known a ha := by
    rcases h.known a ha with hin | hout
    · by_cases hyoung : now - a.2 < H
      · exact .inl (lookup_expire.mpr ⟨hin, hyoung⟩)
      · exact .inr (by omega)
    · exact .inr (hout.trans hnow)

theorem Uses.spaced_snoc (hfree : ∀ time, t.lookup k = some time → time + H ≤ now) :
    (log ++ [(k, now)]).Pairwise fun a b => a.1 = b.1 → a.2 + H ≤ b.2 := by
  refine pairwise_append.mpr ⟨h.spaced, pairwise_singleton _ _, ?_⟩
  intro a ha b hb hkey
  obtain rfl := mem_singleton.mp hb
  rcases h.known a ha with hin | hout
  · rw [show a.1 = k from hkey] at hin
    exact hfree a.2 hin
  · exact hout.trans hnow

theorem Uses.use (hfree : ∀ time, t.lookup k = some time → time + H ≤ now) :
    Uses H now (log ++ [(k, now)]) (t.insert k now) where
  spaced := h.spaced_snoc hnow hfree
  known a ha := by
    rcases mem_append.mp ha with ha | ha
    · by_cases hkey : a.1 = k
      · -- the entry of the key is overwritten, so the earlier use must be old
        rcases h.known a ha with hin | hout
        · exact .inr (hfree a.2 (hkey ▸ hin))
        · exact .inr (hout.trans hnow)
      · rw [AList.lookup_insert_ne hkey]
        exact (h.known a ha).imp_right fun hle => hle.trans hnow
    · obtain rfl := mem_singleton.mp ha
      exact .inl (AList.lookup_insert t)

end

end Uses

/-! ## A memory of bounded size -/

/-- The entry that was made first. -/
def oldest (t : AList fun _ : κ => Int × Nat) : Option (Σ _ : κ, Int × Nat) :=
  t.entries.argmin fun e => e.2.2

/-- A new entry; it pushes the oldest one out of a full memory. -/
def remember (cap : Nat) (k : κ) (now : Int) (order : Nat) (t : AList fun _ : κ => Int × Nat) :
    AList fun _ : κ => Int × Nat :=
  let t := t.insert k (now, order)
  if cap < t.entries.length then
    match oldest t with
    | some e => t.erase e.1
    | none => t
  else t

/-- The acceptances of a log are `H` apart for each key, or have `cap` others between them; an entry of
the memory is the acceptance with its number. -/
structure Memory (H : Int) (cap : Nat) (floor : Int) (log : List (κ × Int)) (order : Nat)
    (t : AList fun _ : κ => Int × Nat) : Prop where
  count : order = log.length
  spaced : ∀ i j a b, i < j → log[i]? = some a → log[j]? = some b → a.1 = b.1 → a.2 + H ≤ b.2 ∨ i + cap < j
  stored : ∀ k x, t.lookup k = some x → log[x.2]? = some (k, x.1)
  known : ∀ i a, log[i]? = some a → t.lookup a.1 = some (a.2, i) ∨ a.2 + H ≤ floor ∨ i + cap < log.length

section Memory

variable {H floor now : Int} {cap order : Nat} {log : List (κ × Int)}
  {t : AList fun _ : κ => Int × Nat} {k : κ}

theorem Memory.empty (H : Int) (cap : Nat) (floor : Int) :
    Memory H cap floor ([] : List (κ × Int)) 0 ∅ where
  count := rfl
  spaced i _ _ _ _ ha := by cases ha
  stored k x hx := by cases hx
  known i a ha := by cases ha

variable (h : Memory H cap floor log order t)
include h

theorem Memory.mono (hnow : floor ≤ now) : Memory H cap now log order t :=
  { h with known := fun i a ha => (h.known i a ha).imp_right fun hor => hor.imp_left fun hle =>
      hle.trans hnow }

theorem Memory.expire {later : Int} (hfloor : floor ≤ later) (hnow : now ≤ later) :
    Memory H cap later log order (expire H Prod.fst now t) where
  count := h.count
  spaced := h.spaced
  stored k x hx := h.stored k x (lookup_expire.mp hx).1
  known i a ha := by
    rcases h.known i a ha with hin | hout | hmany
    · by_cases hyoung : now - a.2 < H
      · exact .inl (lookup_expire.mpr ⟨hin, hyoung⟩)
      · exact .inr (.inl (by omega))
    · exact .inr (.inl (hout.trans hfloor))
    · exact .inr (.inr hmany)

omit h in
/-- The numbers of the entries from one number on are different places of the log, so there are no more
entries than places. -/
theorem length_le_of_stored {first : Nat}
    (hstored : ∀ k x, t.lookup k = some x → log[x.2]? = some (k, x.1))
    (hfirst : ∀ e ∈ t.entries, first ≤ e.2.2) : t.entries.length ≤ log.length - first := by
  have hplace : ∀ e ∈ t.entries, log[e.2.2]? = some (e.1, e.2.1) := fun e he =>
    hstored e.1 e.2 (AList.mem_lookup_iff.mpr he)
  have hnodup : (t.entries.map fun e => e.2.2).Nodup := by
    refine t.nodupKeys.nodup.map_on ?_
    intro e he e' he' horder
    have hsame := hplace e he
    rw [horder, hplace e' he'] at hsame
    have hkey : e'.1 = e.1 := congrArg Prod.fst (Option.some.inj hsame)
    exact t.nodupKeys.eq_of_fst_eq he he' hkey.symm
  have hsubset : (t.entries.map fun e => e.2.2).toFinset ⊆ Finset.Ico first log.length := by
    intro n hn
    obtain ⟨e, he, rfl⟩ := mem_map.mp (mem_toFinset.mp hn)
    obtain ⟨hlt, -⟩ := List.getElem?_eq_some_iff.mp (hplace e he)
    exact Finset.mem_Ico.mpr ⟨hfirst e he, hlt⟩
  have hcard := Finset.card_le_card hsubset
  rwa [List.toFinset_card_of_nodup hnodup, List.length_map, Nat.card_Ico] at hcard

theorem Memory.insert (hnow : floor ≤ now) (hnew : t.lookup k = none) :
    Memory H cap now (log ++ [(k, now)]) (order + 1) (t.insert k (now, order)) := by
  have hold : ∀ {i : Nat} {a : κ × Int}, log[i]? = some a → (log ++ [(k, now)])[i]? = some a :=
    fun {i a} ha => by
      rw [List.getElem?_append_left (List.getElem?_eq_some_iff.mp ha).1]
      exact ha
  have hlast : ∀ {i : Nat} {a : κ × Int}, (log ++ [(k, now)])[i]? = some a →
      log[i]? = some a ∨ i = log.length ∧ a = (k, now) := by
    intro i a ha
    by_cases hi : i < log.length
    · rw [getElem?_append_left hi] at ha
      exact .inl ha
    · rw [getElem?_append_right (Nat.le_of_not_lt hi)] at ha
      obtain ⟨hlt, heq⟩ := List.getElem?_eq_some_iff.mp ha
      have hi' : i - log.length = 0 := by simpa using hlt
      refine .inr ⟨by omega, ?_⟩
      simpa using heq.symm
  refine ⟨by rw [length_append, h.count]; rfl, ?_, ?_, ?_⟩
  · intro i j a b hij ha hb hkey
    rcases hlast hb with hb | ⟨rfl, rfl⟩
    · have hj := (List.getElem?_eq_some_iff.mp hb).1
      rcases hlast ha with ha | ⟨rfl, -⟩
      · exact h.spaced i j a b hij ha hb hkey
      · omega
    · rcases hlast ha with ha | ⟨rfl, -⟩
      · rcases h.known i a ha with hin | hout | hmany
        · rw [show a.1 = k from hkey, hnew] at hin
          cases hin
        · exact .inl (hout.trans hnow)
        · exact .inr hmany
      · omega
  · intro k' x hx
    by_cases hk : k' = k
    · subst hk
      rw [AList.lookup_insert] at hx
      cases hx
      rw [h.count]
      exact getElem?_concat_length
    · rw [AList.lookup_insert_ne hk] at hx
      exact hold (h.stored k' x hx)
  · intro i a ha
    rcases hlast ha with ha | ⟨rfl, rfl⟩
    · rw [length_append]
      rcases h.known i a ha with hin | hout | hmany
      · have hk : a.1 ≠ k := by
          rintro rfl
          rw [hnew] at hin
          cases hin
        exact .inl (by rw [AList.lookup_insert_ne hk]; exact hin)
      · exact .inr (.inl (hout.trans hnow))
      · exact .inr (.inr (Nat.lt_succ_of_lt hmany))
    · rw [h.count]
      exact .inl (AList.lookup_insert t)

/-- The oldest entry of a memory of more than `cap` entries has `cap` acceptances behind it. -/
theorem Memory.erase_oldest (hfull : cap < t.entries.length) {e : Σ _ : κ, Int × Nat}
    (he : oldest t = some e) : Memory H cap floor log order (t.erase e.1) := by
  have hmem : e ∈ t.entries := argmin_mem he
  have hmin : ∀ e' ∈ t.entries, e.2.2 ≤ e'.2.2 := fun e' he' =>
    @List.le_of_mem_argmin _ _ _ (fun e : Σ _ : κ, Int × Nat => e.2.2) _ _ _ he' he
  have hmany : e.2.2 + cap < log.length := by
    have := length_le_of_stored h.stored hmin
    omega
  refine ⟨h.count, h.spaced, ?_, ?_⟩
  · intro k x hx
    by_cases hk : k = e.1
    · rw [hk, AList.lookup_erase] at hx
      cases hx
    · rw [AList.lookup_erase_ne hk] at hx
      exact h.stored k x hx
  · intro i a ha
    rcases h.known i a ha with hin | hold
    · by_cases hk : a.1 = e.1
      · -- the entry that leaves is the one of this acceptance
        have hentry : t.lookup e.1 = some e.2 := AList.mem_lookup_iff.mpr hmem
        rw [hk, hentry] at hin
        obtain hx := Option.some.inj hin
        rw [hx] at hmany
        exact .inr (.inr hmany)
      · exact .inl (by rw [AList.lookup_erase_ne hk]; exact hin)
    · exact .inr hold

/-- **A key that is not in the memory may be accepted.** -/
theorem Memory.remember (hnow : floor ≤ now) (hnew : t.lookup k = none) :
    Memory H cap now (log ++ [(k, now)]) (order + 1) (remember cap k now order t) := by
  have hins := h.insert hnow hnew
  unfold Recent.remember
  dsimp only
  split_ifs with hfull
  · cases hold : oldest (t.insert k (now, order)) with
    | none => exact hins
    | some e => exact hins.erase_oldest hfull hold
  · exact hins

end Memory

end Wotex.Recent
