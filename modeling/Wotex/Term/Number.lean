import Mathlib.Algebra.Order.Ring.Rat
import Mathlib.Data.Nat.Log
import Mathlib.Tactic.Linarith

/-!
# Integers and floats: the two number types of a JSON term

A decoded JSON number is an integer or an IEEE 754 double, and the runtime compares the two
in two ways. `===`, pattern matching, `in` and map keys keep them apart: `0` and `0.0` differ, and
so do `0.0` and `-0.0`. `==`, `<`, `min` and `max` compare by value: `0 == 0.0`. The comparison by
value is exact (the runtime converts the less precise operand only below `2 ^ 53`).

* `Flt` is a finite double in canonical form: sign, significand below `2 ^ 53`, exponent at
  least `-1074`, and a full significand unless the exponent is the least one. Equality of `Flt` is
  `===`. The exponent has no upper bound; no number compared here comes near `2 ^ 1024`.
* `Num` is a JSON number, `Num.value` its value. Equality of `Num` is `===`, equality of values
  is `==`.
* `Num.add` is `+`: exact on integers; with a float operand both sides become doubles and the
  exact sum is rounded to nearest, ties to even.
-/

namespace Wotex

/-- A finite IEEE 754 double, `(-1) ^ neg * mant * 2 ^ exp`, in canonical form. -/
structure Flt where
  neg : Bool
  mant : Nat
  exp : Int
  canon : mant < 2 ^ 53 ∧ -1074 ≤ exp ∧ (exp = -1074 ∨ 2 ^ 52 ≤ mant)
  deriving DecidableEq

namespace Flt

/-- `m * 2 ^ e` as a rational. -/
def scale (m e : Int) : ℚ :=
  if 0 ≤ e then ((m * 2 ^ e.toNat : Int) : ℚ) else mkRat m (2 ^ (-e).toNat)

/-- The signed significand. -/
def signed (f : Flt) : Int := if f.neg then -(f.mant : Int) else f.mant

/-- The value of a double. -/
def value (f : Flt) : ℚ := scale f.signed f.exp

/-- `0.0` and `-0.0`. -/
def zero (neg : Bool) : Flt := ⟨neg, 0, -1074, by decide⟩

/-- The significand of `m` over `2 ^ s`, rounded to nearest, ties to even. -/
def nearest (m s : Nat) : Nat :=
  let q := m / 2 ^ s
  let r := m % 2 ^ s
  if 2 ^ s < 2 * r ∨ (2 ^ s = 2 * r ∧ q % 2 = 1) then q + 1 else q

theorem nearest_bounds (m s : Nat) : m / 2 ^ s ≤ nearest m s ∧ nearest m s ≤ m / 2 ^ s + 1 := by
  unfold nearest
  simp only
  split <;> omega

theorem le_shifted {m s : Nat} (hm : m ≠ 0) (h : m.log2 = 52 + s) : 2 ^ 52 ≤ m / 2 ^ s := by
  rw [Nat.le_div_iff_mul_le (Nat.two_pow_pos s), ← Nat.pow_add, ← h]
  exact Nat.log2_self_le hm

theorem scaled_lt {m k : Nat} (h : m.log2 + k ≤ 52) : m * 2 ^ k < 2 ^ 53 := by
  calc m * 2 ^ k < 2 ^ (m.log2 + 1) * 2 ^ k :=
        Nat.mul_lt_mul_of_pos_right Nat.lt_log2_self (Nat.two_pow_pos k)
    _ = 2 ^ (m.log2 + 1 + k) := (Nat.pow_add _ _ _).symm
    _ ≤ 2 ^ 53 := Nat.pow_le_pow_right (by decide) (by omega)

theorem le_scaled {m k : Nat} (hm : m ≠ 0) (h : m.log2 + k = 52) : 2 ^ 52 ≤ m * 2 ^ k := by
  rw [← h, Nat.pow_add]
  exact Nat.mul_le_mul_right _ (Nat.log2_self_le hm)

/-- The double nearest to `m * 2 ^ e`, ties to even. -/
def round (neg : Bool) (m : Nat) (e : Int) : Flt :=
  if hm : m = 0 then zero neg
  else
    -- the exponent that leaves 53 significant bits, or the least one
    let t := max (e + m.log2 - 52) (-1074)
    if ht : t ≤ e then
      ⟨neg, m * 2 ^ (e - t).toNat, t, by
        refine ⟨scaled_lt (by omega), by omega, ?_⟩
        by_cases h : t = -1074
        · exact Or.inl h
        · exact Or.inr (le_scaled hm (by omega))⟩
    else
      let s := (t - e).toNat
      let q := nearest m s
      if hq : q < 2 ^ 53 then
        ⟨neg, q, t, by
          refine ⟨hq, by omega, ?_⟩
          by_cases h : t = -1074
          · exact Or.inl h
          · have h1 := le_shifted (s := s) hm (by omega)
            have h2 := (nearest_bounds m s).1
            exact Or.inr (h1.trans h2)⟩
      else
        -- the carry out of the significand
        ⟨neg, 2 ^ 52, t + 1, by
          refine ⟨by decide, by omega, Or.inr (le_refl _)⟩⟩

/-- The conversion of an integer operand. -/
def ofInt (i : Int) : Flt := round (decide (i < 0)) i.natAbs 0

/-- Float addition: the exact sum, rounded. -/
def add (a b : Flt) : Flt :=
  let e := min a.exp b.exp
  let n := a.signed * 2 ^ (a.exp - e).toNat + b.signed * 2 ^ (b.exp - e).toNat
  round (if n = 0 then a.neg && b.neg else decide (n < 0)) n.natAbs e

end Flt

/-- A JSON number. Equality is `===`. -/
inductive Num where
  | int (i : Int)
  | flt (f : Flt)
  deriving DecidableEq

namespace Num

/-- The value `==` and the order compare. -/
def value : Num → ℚ
  | int i => i
  | flt f => f.value

variable (a b : Num)

/-- `a == b` on numbers. -/
def eq : Bool := decide (a.value = b.value)

/-- `a <= b`. -/
def le : Bool := decide (a.value ≤ b.value)

/-- `a < b`. -/
def lt : Bool := decide (a.value < b.value)

/-- `Kernel.min/2`: the first operand when they compare equal. -/
def min : Num := if a.le b then a else b

/-- A float operand. -/
def toFlt : Num → Flt
  | int i => Flt.ofInt i
  | flt f => f

/-- `a + b`. -/
def add : Num → Num → Num
  | int a, int b => int (a + b)
  | a, b => flt (a.toFlt.add b.toFlt)

/-- `is_integer/1`. -/
def isInt : Num → Bool
  | int _ => true
  | flt _ => false

@[simp] theorem value_int (i : Int) : (int i).value = i := rfl

@[simp] theorem add_int (a b : Int) : (int a).add (int b) = int (a + b) := rfl

theorem eq_iff {a b : Num} : a.eq b = true ↔ a.value = b.value := by
  simp [eq]

theorem eq_refl (a : Num) : a.eq a = true := eq_iff.mpr rfl

theorem int_of_value_eq {a b : Int} (h : (int a).value = (int b).value) : a = b := by
  simpa using h

example : (int 1).eq (flt (Flt.ofInt 1)) = true := by decide +kernel

example : int 1 ≠ flt (Flt.ofInt 1) := by decide

-- beyond `2 ^ 53` a float operand makes the sum inexact
example : ((int (2 ^ 53)).add (flt (Flt.ofInt 3))).eq (int (2 ^ 53 + 4)) = true := by
  decide +kernel

end Num

end Wotex
