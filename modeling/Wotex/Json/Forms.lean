import Wotex.Json.Same
import Mathlib.Algebra.Order.Field.Basic
import Mathlib.Algebra.Order.Field.Power
import Mathlib.Tactic.Ring

/-!
# What `==` leaves open

Terms that are equal by `==` differ at most in the forms of their numbers: whether a number is an
integer or a float, and the sign of a float, which only a zero leaves open. `Value.forms` lists them
in the order of the term, and `eq_of_forms` says that nothing else is left.
-/

namespace Wotex

namespace Flt

theorem scale_eq (m e : Int) : scale m e = m * (2 : ℚ) ^ e := by
  unfold scale
  split
  · rename_i he
    obtain ⟨n, rfl⟩ := Int.eq_ofNat_of_zero_le he
    simp
  · obtain ⟨n, hn⟩ := Int.eq_ofNat_of_zero_le (show 0 ≤ -e by omega)
    rw [← neg_neg e, hn]
    simp [Rat.mkRat_eq_div, div_eq_mul_inv]

theorem value_eq (f : Flt) : f.value = (if f.neg then -1 else 1) * (f.mant * (2 : ℚ) ^ f.exp) := by
  rw [value, scale_eq, signed]
  split <;> simp

/-- Of two canonical significands of one magnitude none has the lower exponent. -/
theorem exp_le_of_magnitude {f g : Flt} (h : f.mant * (2 : ℚ) ^ f.exp = g.mant * (2 : ℚ) ^ g.exp) :
    g.exp ≤ f.exp := by
  by_contra hlt
  obtain ⟨k, hk⟩ : ∃ k : Nat, g.exp = f.exp + 1 + k :=
    ⟨(g.exp - f.exp - 1).toNat, by omega⟩
  have hfull : 2 ^ 52 ≤ g.mant := by
    rcases g.canon.2.2 with he | hm
    · have := f.canon.2.1
      omega
    · exact hm
  have hmant : f.mant = g.mant * (2 * 2 ^ k) := by
    rw [hk, zpow_add₀ two_ne_zero, zpow_add₀ two_ne_zero, zpow_natCast] at h
    have hp : (2 : ℚ) ^ f.exp ≠ 0 := zpow_ne_zero _ two_ne_zero
    have : (f.mant : ℚ) = g.mant * (2 * 2 ^ k) :=
      mul_right_cancel₀ hp (by rw [h]; ring)
    exact_mod_cast this
  have hk1 : 1 ≤ 2 ^ k := Nat.one_le_two_pow
  have : 2 ^ 52 * (2 * 1) ≤ g.mant * (2 * 2 ^ k) :=
    Nat.mul_le_mul hfull (Nat.mul_le_mul_left 2 hk1)
  have := f.canon.1
  omega

theorem eq_of_value {f g : Flt} (hv : f.value = g.value) (hn : f.neg = g.neg) : f = g := by
  have hm : f.mant * (2 : ℚ) ^ f.exp = g.mant * (2 : ℚ) ^ g.exp := by
    rw [value_eq, value_eq, hn] at hv
    exact mul_left_cancel₀ (by split <;> norm_num) hv
  have he : f.exp = g.exp := le_antisymm (exp_le_of_magnitude hm.symm) (exp_le_of_magnitude hm)
  rw [he] at hm
  have hmant : f.mant = g.mant :=
    Nat.cast_injective (mul_right_cancel₀ (zpow_ne_zero _ two_ne_zero) hm)
  cases f
  cases g
  simp_all

end Flt

/-- The type of a number, and the sign of a float. -/
inductive Num.Form where
  | integer
  | float (neg : Bool)

/-- The form of a number. -/
def Num.form : Num → Num.Form
  | .int _ => .integer
  | .flt f => .float f.neg

theorem Num.eq_of_form {a b : Num} (hv : a.value = b.value) (hf : a.form = b.form) : a = b := by
  cases a <;> cases b <;> simp [form] at hf
  · rw [int_of_value_eq hv]
  · rw [Flt.eq_of_value hv hf]

namespace Json.Value

mutual
/-- The forms of the numbers of a term, in its order. -/
def forms : Value → List Num.Form
  | num n => [n.form]
  | arr vs => formsItems vs
  | obj ms => formsMembers ms
  | _ => []

/-- The forms of the numbers of an array. -/
def formsItems : List Value → List Num.Form
  | [] => []
  | v :: vs => forms v ++ formsItems vs

/-- The forms of the numbers of an object. -/
def formsMembers : List (Text × Value) → List Num.Form
  | [] => []
  | (_, v) :: ms => forms v ++ formsMembers ms
end

mutual
theorem length_forms_of_same : ∀ {a b : Value}, a.same b = true → a.forms.length = b.forms.length
  | null, b, h | bool _, b, h | num _, b, h | str _, b, h => by
    cases b <;> simp_all [same, forms]
  | arr as, b, h => by
    cases b <;> simp [same] at h
    exact length_formsItems_of_same h
  | obj as, b, h => by
    cases b <;> simp [same] at h
    exact length_formsMembers_of_same h

theorem length_formsItems_of_same : ∀ {as bs : List Value}, sameItems as bs = true →
    (formsItems as).length = (formsItems bs).length
  | [], bs, h => by cases bs <;> simp_all [sameItems]
  | a :: as, bs, h => by
    cases bs <;> simp [sameItems] at h
    simp [formsItems, length_forms_of_same h.1, length_formsItems_of_same h.2]

theorem length_formsMembers_of_same : ∀ {as bs : List (Text × Value)}, sameMembers as bs = true →
    (formsMembers as).length = (formsMembers bs).length
  | [], bs, h => by cases bs <;> simp_all [sameMembers]
  | (k, a) :: as, bs, h => by
    cases bs <;> simp [sameMembers] at h
    simp [formsMembers, length_forms_of_same h.1.2, length_formsMembers_of_same h.2]
end

mutual
theorem eq_of_forms : ∀ {a b : Value}, a.same b = true → a.forms = b.forms → a = b
  | null, b, h, _ | bool _, b, h, _ | str _, b, h, _ => by cases b <;> simp_all [same]
  | num n, b, h, hf => by
    cases b <;> simp [same] at h
    rw [Num.eq_of_form (Num.eq_iff.mp h) (by simpa [forms] using hf)]
  | arr as, b, h, hf => by
    cases b <;> simp [same] at h
    rw [eq_of_formsItems h hf]
  | obj as, b, h, hf => by
    cases b <;> simp [same] at h
    rw [eq_of_formsMembers h hf]

theorem eq_of_formsItems : ∀ {as bs : List Value}, sameItems as bs = true →
    formsItems as = formsItems bs → as = bs
  | [], bs, h, _ => by cases bs <;> simp_all [sameItems]
  | a :: as, bs, h, hf => by
    cases bs <;> simp [sameItems] at h
    obtain ⟨ha, has⟩ := List.append_inj hf (length_forms_of_same h.1)
    rw [eq_of_forms h.1 ha, eq_of_formsItems h.2 has]

theorem eq_of_formsMembers : ∀ {as bs : List (Text × Value)}, sameMembers as bs = true →
    formsMembers as = formsMembers bs → as = bs
  | [], bs, h, _ => by cases bs <;> simp_all [sameMembers]
  | (k, a) :: as, bs, h, hf => by
    cases bs <;> simp [sameMembers] at h
    obtain ⟨ha, has⟩ := List.append_inj hf (length_forms_of_same h.1.2)
    rw [h.1.1, eq_of_forms h.1.2 ha, eq_of_formsMembers h.2 has]
end

end Json.Value

end Wotex
