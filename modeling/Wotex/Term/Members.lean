import Wotex.Term.Dict

/-!
# Editing maps kept in key order

`Map.put/3` and `Map.delete/2` on the entries of a `Dict`. Reading after an edit needs no order
(`find_put`, `find_drop`); the order is what makes two maps with the same readings one value
(`Dict.ext_get`).
-/

namespace Wotex

open List Dict

namespace Members

variable {α : Type}

/-- `Map.put/3` on entries in key order. -/
def put (key : Text) (v : α) : List (Text × α) → List (Text × α)
  | [] => [(key, v)]
  | (k, w) :: rest =>
    if key < k then (key, v) :: (k, w) :: rest
    else if key = k then (key, v) :: rest
    else (k, w) :: put key v rest

/-- `Map.delete/2`. -/
def drop (key : Text) (l : List (Text × α)) : List (Text × α) := l.filter fun e => e.1 ≠ key

/-- **Reading after `put`.** -/
theorem find_put (key : Text) (v : α) (j : Text) : ∀ l : List (Text × α),
    find j (put key v l) = if j = key then some v else find j l
  | [] => by
    by_cases h : j = key
    · simp [put, find, h]
    · simp [put, find, h, Ne.symm h]
  | (k, w) :: rest => by
    unfold put
    by_cases hj : j = key
    · subst hj
      rw [if_pos rfl]
      split_ifs with hlt heq
      · simp [find]
      · simp [find]
      · rw [find, if_neg (Ne.symm heq), find_put j v j rest, if_pos rfl]
    · split_ifs with hlt heq
      · simp [find, Ne.symm hj]
      · subst heq
        simp [find, Ne.symm hj]
      · rw [find, find, find_put key v j rest, if_neg hj]

/-- **Reading after `drop`.** -/
theorem find_drop (key j : Text) : ∀ l : List (Text × α),
    find j (drop key l) = if j = key then none else find j l
  | [] => by simp [drop, find]
  | (k, w) :: rest => by
    have ih := find_drop key j rest
    by_cases hk : k = key
    · rw [show drop key ((k, w) :: rest) = drop key rest by simp [drop, hk], ih]
      by_cases hj : j = key
      · simp [hj]
      · simp [find, hk, Ne.symm hj]
    · rw [show drop key ((k, w) :: rest) = (k, w) :: drop key rest by simp [drop, hk], find, find, ih]
      by_cases hj : j = key
      · simp [hj, hk]
      · simp [hj]

variable {key : Text}

theorem mem_put {v : α} {e : Text × α} : ∀ {l : List (Text × α)}, e ∈ put key v l → e = (key, v) ∨ e ∈ l
  | [], h => by simpa [put] using h
  | (k, w) :: rest, h => by
    unfold put at h
    split_ifs at h with hlt heq
    · exact mem_cons.mp h
    · exact (mem_cons.mp h).imp_right (mem_cons_of_mem _)
    · rcases mem_cons.mp h with h | h
      · exact Or.inr (h ▸ mem_cons_self)
      · exact (mem_put h).imp_right (mem_cons_of_mem _)

theorem mem_drop {e : Text × α} {l : List (Text × α)} : e ∈ drop key l ↔ e ∈ l ∧ e.1 ≠ key := by
  simp [drop]

theorem sorted_put {v : α} : ∀ {l : List (Text × α)},
    (l.map Prod.fst).Pairwise (· < ·) → ((put key v l).map Prod.fst).Pairwise (· < ·)
  | [], _ => by simp [put]
  | (k, w) :: rest, h => by
    have hs := h
    rw [map_cons, pairwise_cons] at hs
    unfold put
    split_ifs with hlt heq
    · rw [map_cons, pairwise_cons]
      exact ⟨forall_mem_cons.mpr ⟨hlt, fun j hj => lt_trans hlt (hs.1 j hj)⟩, h⟩
    · subst heq
      simpa using hs
    · have hgt : k < key := lt_of_le_of_ne (not_lt.mp hlt) (Ne.symm heq)
      rw [map_cons, pairwise_cons]
      refine ⟨forall_mem_map.mpr fun e he => ?_, sorted_put hs.2⟩
      rcases mem_put he with rfl | he
      · exact hgt
      · exact hs.1 _ (mem_map_of_mem he)

theorem sorted_drop {l : List (Text × α)} (h : (l.map Prod.fst).Pairwise (· < ·)) :
    ((drop key l).map Prod.fst).Pairwise (· < ·) :=
  h.sublist ((filter_sublist).map _)

end Members

namespace Dict

variable {α : Type}

variable (d : Dict α) (key : Text)

/-- `Map.put/3`. -/
def put (v : α) : Dict α :=
  ⟨Members.put key v d.entries, Members.sorted_put d.sorted⟩

def delete : Dict α :=
  ⟨Members.drop key d.entries, Members.sorted_drop d.sorted⟩

theorem get_put (v : α) (j : Text) : (d.put key v).get j = if j = key then some v else d.get j :=
  Members.find_put key v j d.entries

theorem get_delete (d : Dict α) (key j : Text) : (d.delete key).get j = if j = key then none else d.get j :=
  Members.find_drop key j d.entries

@[simp] theorem get_empty (j : Text) : (empty : Dict α).get j = none := rfl

/-- **Two maps with the same readings are one value.** -/
theorem ext_get {d e : Dict α} (h : ∀ k, d.get k = e.get k) : d = e := by
  have hmem : ∀ m, m ∈ d.entries ↔ m ∈ e.entries := by
    rintro ⟨k, v⟩
    rw [← get_eq_some_iff, ← get_eq_some_iff, h]
  have hperm : d.entries.Perm e.entries := by
    rw [perm_ext_iff_of_nodup (List.Nodup.of_map _ d.keys_nodup) (List.Nodup.of_map _ e.keys_nodup)]
    exact hmem
  have sorted : ∀ f : Dict α, f.entries.Pairwise fun a b => a.1 < b.1 :=
    fun f => pairwise_map.mp f.sorted
  have hl : d.entries = e.entries :=
    hperm.eq_of_pairwise (fun a b _ _ hab hba => absurd hab (lt_asymm hba)) (sorted d) (sorted e)
  cases d
  cases e
  cases hl
  rfl

/-- `Map.put/3` of one member after another. -/
def putAll (d : Dict α) (l : List (Text × α)) : Dict α := l.foldl (fun d e => d.put e.1 e.2) d

variable {l : List (Text × α)} {d : Dict α}

theorem get_putAll (hkeys : (l.map Prod.fst).Nodup)
    (hnew : ∀ e ∈ l, d.get e.1 = none) (k : Text) (v : α) :
    (d.putAll l).get k = some v ↔ d.get k = some v ∨ (k, v) ∈ l := by
  induction l generalizing d with
  | nil => simp [putAll]
  | cons e l ih =>
    obtain ⟨hout, hkeys⟩ := nodup_cons.mp hkeys
    have hstep : ∀ f ∈ l, (d.put e.1 e.2).get f.1 = none := by
      intro f hf
      have hne : f.1 ≠ e.1 := fun h => hout (h ▸ mem_map_of_mem hf)
      rw [get_put, if_neg hne]
      exact hnew f (mem_cons_of_mem _ hf)
    rw [putAll, foldl_cons, ← putAll, ih hkeys hstep, get_put]
    by_cases hk : k = e.1
    · simp [hk, hnew e mem_cons_self, Prod.ext_iff, eq_comm]
    · simp [hk, Prod.ext_iff]

/-- **A map is the members put into it, in whatever order.** -/
theorem putAll_perm (h : l.Perm d.entries) : empty.putAll l = d := by
  have hkeys : (l.map Prod.fst).Nodup := (h.map Prod.fst).nodup_iff.mpr d.keys_nodup
  refine ext_get fun k => Option.ext fun v => ?_
  rw [get_putAll hkeys (fun _ _ => get_empty _), h.mem_iff, get_empty, get_eq_some_iff]
  simp

end Dict

end Wotex
