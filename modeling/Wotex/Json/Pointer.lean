import Wotex.Directory.Document
import Wotex.Profiles.Numerals

/-!
# JSON Pointers (`join_pointer/2`, `resolve_pointer/2`, `packages/wotex/lib/wotex/json.ex:64-109, 401-407`)

A pointer is resolved segment by segment: a member of an object by its name, an element of an array by
what `Integer.parse/1` reads. `Reaches` is the step RFC 6901 allows. Joining a member name to a pointer
and resolving is one more step (`resolve_join`), with one exception: `join/2` takes the pointer `/`,
which RFC 6901 reads as the member with the empty name, for the root. An element can also be reached by
a numeral with a sign or leading zeros. `pointers_exact` says exactly when neither matters.
-/

namespace Wotex.Json.Pointer

open Directory.ThingDescription (pointerSegment)
open List

/-- `join_pointer/2`. -/
def join (path segment : Text) : Text :=
  if path = ['/'] then '/' :: pointerSegment segment else path ++ '/' :: pointerSegment segment

/-- `String.replace/3` of a tilde and a digit by a character. -/
def replace (digit char : Char) : Text → Text
  | '~' :: c :: rest =>
    if c = digit then char :: replace digit char rest else '~' :: replace digit char (c :: rest)
  | c :: rest => c :: replace digit char rest
  | [] => []

def unescapeSegment (segment : Text) : Text := replace '0' '~' (replace '1' '/' segment)

/-- `json.ex:94-103`. -/
def step : Value → Text → Option Value
  | .obj members, segment => Dict.find segment members
  | .arr items, segment =>
    match Runtime.integerParse segment with
    | some (index, []) => if 0 ≤ index ∧ index < items.length then items[index.toNat]? else none
    | _ => none
  | _, _ => none

/-- `resolve_pointer/2`. -/
def resolve (value : Value) : Text → Option Value
  | [] => some value
  | '/' :: pointer => ((pointer.splitOn '/').map unescapeSegment).foldlM step value
  | _ => none

variable {v w : Value} {p m : Text}

theorem replace_cons {digit char c : Char} {rest : Text} (h : c ≠ '~') :
    replace digit char (c :: rest) = c :: replace digit char rest := by
  rw [replace]
  simp [h]

theorem unescape_segment (m : Text) : unescapeSegment (pointerSegment m) = m := by
  have slashes : replace '1' '/' (pointerSegment m)
      = m.flatMap fun c => if c = '~' then ['~', '0'] else [c] := by
    induction m with
    | nil => rfl
    | cons c m ih =>
      rw [pointerSegment, flatMap_cons, flatMap_cons, ← pointerSegment, ← ih]
      split_ifs with htilde hslash
      · simp [replace]
      · simp [replace, hslash]
      · exact replace_cons htilde
  rw [unescapeSegment, slashes]
  clear slashes
  induction m with
  | nil => rfl
  | cons c m ih =>
    rw [flatMap_cons]
    split_ifs with htilde
    · simp [replace, htilde, ih]
    · rw [singleton_append, replace_cons htilde, ih]

theorem slash_notMem (m : Text) : '/' ∉ pointerSegment m := by
  simp only [pointerSegment, mem_flatMap, not_exists, not_and]
  intro c _
  split_ifs with h h' <;> simp [Ne.symm, *]

theorem resolve_join (h : resolve v p = some w) (hp : p ≠ ['/']) : resolve v (join p m) = step w m := by
  have hsplit : ((pointerSegment m).splitOn '/').map unescapeSegment = [m] := by
    rw [splitOn_eq_singleton (slash_notMem m), map_singleton, unescape_segment]
  rw [join, if_neg hp]
  unfold resolve at h
  split at h
  · cases h
    rw [nil_append, resolve, hsplit]
    simp
  · rw [cons_append, resolve, splitOn_append_cons_self, map_append, hsplit, foldlM_append, h]
    simp
  · cases h

/-- A step of RFC 6901: a member by its name, an element by its canonical index. -/
def Reaches : Value → Text → Value → Prop
  | .obj members, m, x => Dict.find m members = some x
  | .arr items, m, x => ∃ i : Nat, items[i]? = some x ∧ m = decimal i
  | _, _, _ => False

theorem step_arr {items : List Value} {x : Value} : step (.arr items) m = some x ↔
    ∃ i : Nat, Runtime.integerParse m = some ((i : Int), []) ∧ items[i]? = some x := by
  constructor
  · intro h
    rw [step] at h
    split at h
    · rename_i index hparse
      split_ifs at h with hin
      rw [← Int.toNat_of_nonneg hin.1] at hparse
      exact ⟨_, hparse, h⟩
    · cases h
  · rintro ⟨i, hparse, hx⟩
    obtain ⟨hlt, rfl⟩ := List.getElem?_eq_some_iff.mp hx
    simp [step, hparse, hlt]

theorem parse_decimal (i : Nat) : Runtime.integerParse (decimal i) = some ((i : Int), []) := by
  have := @Profiles.integerParse_decimal i [] (by simp [Profiles.Stops])
  rwa [append_nil] at this

/-- The numeral is the canonical one wherever it stands for an element. -/
def Unaliased (w : Value) (m : Text) : Prop :=
  ∀ items (i : Nat), w = .arr items → i < items.length →
    Runtime.integerParse m = some ((i : Int), []) → m = decimal i

theorem step_reaches_iff : (∀ x, step w m = some x ↔ Reaches w m x) ↔ Unaliased w m := by
  cases w with
  | arr items =>
    simp only [step_arr]
    constructor
    · rintro h _ i ⟨⟩ hi hparse
      obtain ⟨j, -, rfl⟩ := (h items[i]).mp ⟨i, hparse, getElem?_eq_getElem hi⟩
      have heq := hparse.symm.trans (parse_decimal j)
      simp_all
    · intro h x
      constructor
      · rintro ⟨i, hparse, hx⟩
        exact ⟨i, hx, h items i rfl (List.getElem?_eq_some_iff.mp hx).1 hparse⟩
      · rintro ⟨i, hx, rfl⟩
        exact ⟨i, parse_decimal i, hx⟩
  | _ => simp [step, Reaches, Unaliased]

/-- **Joining is one more step, unless the pointer is `/`; a step is that of RFC 6901, unless a numeral
with a sign or leading zeros stands for an element.** -/
theorem pointers_exact (h : resolve v p = some w) :
    (resolve v (join p m) = step w m ↔ p ≠ ['/'] ∨ step v m = step w m) ∧
      ((∀ x, step w m = some x ↔ Reaches w m x) ↔ Unaliased w m) := by
  refine ⟨?_, step_reaches_iff⟩
  by_cases hp : p = ['/']
  · have hroot : join ['/'] m = join [] m := rfl
    rw [hp, hroot, resolve_join rfl (by simp)]
    simp
  · simp [hp, resolve_join h hp]

theorem member_joined : resolve (.obj [("a", .arr [.null])]) "/a" = some (.arr [.null]) ∧
    resolve (.obj [("a", .arr [.null])]) (join "/a" "0") = step (.arr [.null]) "0" :=
  ⟨by decide, (pointers_exact (by decide)).1.mpr (.inl (by decide))⟩

/-- The pointer `/` is the member with the empty name, whose member `a` is not the root's; and `+0` reaches
an element. -/
theorem slash_and_sign : (∃ v w m, resolve v "/" = some w ∧ resolve v (join "/" m) ≠ step w m) ∧
    ∃ w m x, step w m = some x ∧ ¬Reaches w m x := by
  refine ⟨⟨.obj [("", .obj [("a", .null)]), ("a", .bool true)], .obj [("a", .null)], "a", by decide,
    by decide⟩, .arr [.null], "+0", .null, by decide, ?_⟩
  rintro ⟨i, hi, hm⟩
  cases i with
  | zero => revert hm; decide
  | succ i => cases hi

end Wotex.Json.Pointer
