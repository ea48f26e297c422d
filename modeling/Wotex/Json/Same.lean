import Wotex.Json.Value
import Mathlib.Data.List.Forall2

/-!
# What `==` and `===` establish about encoded terms

A typed value is compared through its JSON form, and the comparison is `==` (`Value.same`) or `===`
(equality). Both descend through arrays and objects, keep strings, booleans and keys apart, and
differ only at numbers: `===` keeps them identical, `==` keeps their values.

`Agreement f R` says that of a relation `R`: related terms have the same shape, and related
numbers have the same image under `f`. One proof per encoder then serves both comparisons.
-/

namespace Wotex.Json

open List

namespace Value

/-- The outermost constructor of a term. -/
def shape : Value → Nat
  | null => 0
  | bool _ => 1
  | num _ => 2
  | str _ => 3
  | arr _ => 4
  | obj _ => 5

mutual
theorem same_refl : ∀ v : Value, v.same v = true
  | null => rfl
  | bool _ | str _ => by simp [same]
  | num n => by simp [same, Num.eq_refl n]
  | arr vs => by simp [same, sameItems_refl vs]
  | obj ms => by simp [same, sameMembers_refl ms]

theorem sameItems_refl : ∀ vs : List Value, sameItems vs vs = true
  | [] => rfl
  | v :: vs => by simp [sameItems, same_refl v, sameItems_refl vs]

theorem sameMembers_refl : ∀ ms : List (Text × Value), sameMembers ms ms = true
  | [] => rfl
  | (k, v) :: ms => by simp [sameMembers, same_refl v, sameMembers_refl ms]
end

theorem sameItems_iff {as bs : List Value} :
    sameItems as bs = true ↔ List.Forall₂ (fun a b => a.same b = true) as bs := by
  induction as generalizing bs with
  | nil => cases bs <;> simp [sameItems]
  | cons a as ih => cases bs <;> simp [sameItems, ih]

theorem sameMembers_iff {as bs : List (Text × Value)} : sameMembers as bs = true ↔
      List.Forall₂ (fun a b => a.1 = b.1 ∧ a.2.same b.2 = true) as bs := by
  induction as generalizing bs with
  | nil => cases bs <;> simp [sameMembers]
  | cons a as ih => cases bs <;> simp [sameMembers, ih]

end Value

/-- A comparison of terms that is exact but for numbers, where it keeps `f`. -/
structure Agreement {α : Type} (f : Num → α) (R : Value → Value → Prop) : Prop where
  shape : ∀ {a b}, R a b → a.shape = b.shape
  null : R .null .null
  bool : ∀ {a b}, R (.bool a) (.bool b) → a = b
  num : ∀ {a b}, R (.num a) (.num b) → f a = f b
  str : ∀ {a b}, R (.str a) (.str b) → a = b
  arr : ∀ {a b}, R (.arr a) (.arr b) → List.Forall₂ R a b
  obj : ∀ {a b}, R (.obj a) (.obj b) → List.Forall₂ (fun x y => x.1 = y.1 ∧ R x.2 y.2) a b

namespace Agreement

theorem same : Agreement Num.value fun a b => a.same b = true where
  shape {a b} h := by cases a <;> cases b <;> simp_all [Value.same, Value.shape]
  null := rfl
  bool h := by simpa [Value.same] using h
  num h := Num.eq_iff.mp h
  str h := by simpa [Value.same] using h
  arr h := Value.sameItems_iff.mp h
  obj h := Value.sameMembers_iff.mp h

theorem identical : Agreement (id : Num → Num) Eq where
  shape h := congrArg Value.shape h
  null := rfl
  bool h := Value.bool.inj h
  num h := Value.num.inj h
  str h := Value.str.inj h
  arr h := by
    obtain rfl := Value.arr.inj h
    exact forall₂_same.mpr fun _ _ => rfl
  obj h := by
    obtain rfl := Value.obj.inj h
    exact forall₂_same.mpr fun _ _ => ⟨rfl, rfl⟩

variable {α : Type} {f : Num → α} {R : Value → Value → Prop} (agree : Agreement f R)

include agree

theorem member {a b : List (Text × Value)}
    (h : List.Forall₂ (fun x y => x.1 = y.1 ∧ R x.2 y.2) a b) (key : Text) :
    R (Value.member key a) (Value.member key b) := by
  induction h with
  | nil => exact agree.null
  | cons hx _ ih =>
    unfold Value.member
    rw [hx.1]
    split
    · exact hx.2
    · exact ih

theorem get {a b : List (Text × Value)} (h : R (.obj a) (.obj b)) (key : Text) :
    R ((Value.obj a).get key) ((Value.obj b).get key) :=
  agree.member (agree.obj h) key

theorem items {β γ : Type} (enc : β → Value) {g : β → γ}
    (hg : ∀ {x y}, R (enc x) (enc y) → g x = g y) :
    ∀ {xs ys : List β}, R (.arr (xs.map enc)) (.arr (ys.map enc)) → xs.map g = ys.map g := by
  intro xs ys h
  replace h := agree.arr h
  rw [forall₂_map_left_iff, forall₂_map_right_iff] at h
  induction h with
  | nil => rfl
  | cons hx _ ih => rw [map_cons, map_cons, hg hx, ih]

theorem entries {β γ : Type} {enc : β → Value} {g : β → γ}
    (hg : ∀ {x y}, R (enc x) (enc y) → g x = g y) {xs ys : List (Text × β)}
    (h : R (.obj (xs.map fun e => (e.1, enc e.2))) (.obj (ys.map fun e => (e.1, enc e.2)))) :
    (xs.map fun e => (e.1, g e.2)) = ys.map fun e => (e.1, g e.2) := by
  replace h := agree.obj h
  rw [forall₂_map_left_iff, forall₂_map_right_iff] at h
  induction h with
  | nil => rfl
  | cons hx _ ih => rw [map_cons, map_cons, hx.1, hg hx.2, ih]

end Agreement

end Wotex.Json
