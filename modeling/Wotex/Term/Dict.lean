import Wotex.Term.Outcome
import Wotex.Term.Text

/-!
# Text-keyed maps

A map of the source with string keys, as the list of its entries in strictly increasing key order.
Two maps with the same entries are one value, and the order is the one in which
`Wotex.JSON.encode/2` writes the members.
-/

namespace Wotex

open List

/-- A map with string keys, its entries in key order. -/
structure Dict (α : Type) where
  entries : List (Text × α)
  sorted : (entries.map Prod.fst).Pairwise (· < ·)

namespace Dict

variable {α β ε : Type}

instance [DecidableEq α] : DecidableEq (Dict α) := fun a b =>
  decidable_of_iff (a.entries = b.entries) (by cases a; cases b; simp)

/-- `%{}`. -/
def empty : Dict α := ⟨[], List.Pairwise.nil⟩

variable (d : Dict α)

def keys : List Text := d.entries.map Prod.fst

def values : List α := d.entries.map Prod.snd

/-- The first entry of a key. -/
def find (key : Text) : List (Text × α) → Option α
  | [] => none
  | (k, v) :: rest => if k = key then some v else find key rest

/-- `data[key]`, with `nil` for an absent key. -/
def get (key : Text) : Option α := find key d.entries

/-- The map with every value replaced. -/
def map (f : α → β) (d : Dict α) : Dict β :=
  ⟨d.entries.map fun e => (e.1, f e.2), by simpa [Function.comp_def] using d.sorted⟩

/-- The map with every value replaced, the key at hand. -/
def mapWithKey (f : Text → α → β) (d : Dict α) : Dict β :=
  ⟨d.entries.map fun e => (e.1, f e.1 e.2), by simpa [Function.comp_def] using d.sorted⟩

/-- The entries with every value computed, up to the first refusal. -/
def traverseEntries (f : Text → α → Outcome ε β) : List (Text × α) → Outcome ε (List (Text × β))
  | [] => .ok []
  | (k, v) :: rest => do
    let w ← f k v
    let ws ← traverseEntries f rest
    .ok ((k, w) :: ws)

theorem traverseEntries_keys {f : Text → α → Outcome ε β} :
    ∀ {l : List (Text × α)} {m : List (Text × β)}, traverseEntries f l = .ok m →
      m.map Prod.fst = l.map Prod.fst
  | [], m, h => by
    obtain rfl : [] = m := by simpa [traverseEntries] using h
    rfl
  | (k, v) :: rest, m, h => by
    simp only [traverseEntries, bind_eq_ok] at h
    obtain ⟨w, -, ws, hws, hm⟩ := h
    cases hm
    simp [traverseEntries_keys hws]

/-- The map with every value computed in key order, up to the first refusal. -/
def traverse (f : Text → α → Outcome ε β) (d : Dict α) : Outcome ε (Dict β) :=
  match h : traverseEntries f d.entries with
  | .ok l => .ok ⟨l, by rw [traverseEntries_keys h]; exact d.sorted⟩
  | .refuse e => .refuse e
  | .raise => .raise

section

variable {f : Text → α → Outcome ε β} {d : Dict α}

theorem traverse_keys {d' : Dict β} (h : d.traverse f = .ok d') : d'.keys = d.keys := by
  unfold Dict.traverse at h
  split at h
  case h_1 heq =>
    cases h
    exact traverseEntries_keys heq
  all_goals cases h

theorem traverse_ne_raise (h : ∀ k v, f k v ≠ .raise) : d.traverse f ≠ .raise := by
  have hentries : ∀ l, traverseEntries f l ≠ .raise := fun l => by
    induction l with
    | nil => nofun
    | cons e rest ih => exact bind_ne_raise (h _ _) fun _ _ => bind_ne_raise ih nofun
  unfold Dict.traverse
  split
  case h_3 heq => exact absurd heq (hentries _)
  all_goals nofun

end

@[simp] theorem map_map {γ : Type} (f : α → β) (g : β → γ) (d : Dict α) :
    (d.map f).map g = d.map (g ∘ f) := by
  simp [map]

@[simp] theorem map_id : d.map id = d := by
  simp [map]

/-! ## Lookup -/

variable {key : Text}

theorem find_eq_some_of_mem {v : α} :
    ∀ {l : List (Text × α)}, (l.map Prod.fst).Pairwise (· < ·) → (key, v) ∈ l → find key l = some v
  | [], _, h => absurd h not_mem_nil
  | (k, w) :: rest, hs, h => by
    rw [map_cons, pairwise_cons] at hs
    unfold find
    rcases mem_cons.mp h with h | h
    · obtain ⟨rfl, rfl⟩ := Prod.mk.inj h
      rw [if_pos rfl]
    · have hlt : k < key := hs.1 key (mem_map_of_mem h)
      rw [if_neg (ne_of_lt hlt), find_eq_some_of_mem hs.2 h]

theorem mem_of_find_eq_some {v : α} : ∀ {l : List (Text × α)}, find key l = some v → (key, v) ∈ l
  | [], h => absurd h (by simp [find])
  | (k, w) :: rest, h => by
    unfold find at h
    split at h
    · cases h
      rename_i hk
      exact hk ▸ mem_cons_self
    · exact mem_cons_of_mem _ (mem_of_find_eq_some h)

theorem get_eq_some_iff {d : Dict α} {v : α} : d.get key = some v ↔ (key, v) ∈ d.entries :=
  ⟨mem_of_find_eq_some, find_eq_some_of_mem d.sorted⟩

theorem exists_get {d : Dict α} (h : key ∈ d.keys) : ∃ v, d.get key = some v := by
  obtain ⟨⟨_, v⟩, hm, rfl⟩ := mem_map.mp h
  exact ⟨v, get_eq_some_iff.mpr hm⟩

theorem keys_nodup : d.keys.Nodup := d.sorted.imp ne_of_lt

end Dict

end Wotex
