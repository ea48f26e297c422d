import Wotex.Json.Forms
import Wotex.Profiles.Grammar

/-!
# Decimal numerals

A number of a profile is read from its canonical text: `Numeric.decimal` takes the digits and the exponent
of the token and moves factors of ten into the exponent. `amount c e` is the rational that a pair
stands for; neither reading nor normalising changes it.

`Flt.scientific` is an exact text of a double, so there is a host to evaluate with.
-/

namespace Wotex.Profiles

open Json (decimal)
open List

/-- The rational of a coefficient and an exponent. -/
def amount (coefficient exponent : Int) : ℚ := coefficient * (10 : ℚ) ^ exponent

/-! ## Reading -/

/-- A text that does not go on with a digit. -/
def Stops (rest : Text) : Prop := ∀ c ∈ rest.head?, c.isDigit = false

section

variable {digits rest : Text} (hd : ∀ c ∈ digits, c.isDigit = true) (hr : Stops rest)
include hd hr

theorem takeWhile_digits : (digits ++ rest).takeWhile Char.isDigit = digits := by
  rw [takeWhile_append_of_pos hd]
  cases rest with
  | nil => simp
  | cons c rest => rw [takeWhile_cons_of_neg (by simp [hr c rfl]), append_nil]

theorem dropWhile_digits : (digits ++ rest).dropWhile Char.isDigit = rest := by
  rw [dropWhile_append_of_pos hd]
  cases rest with
  | nil => rfl
  | cons c rest => rw [dropWhile_cons_of_neg (by simp [hr c rfl])]

end

/-- What a reader makes of a number in front of something else: it starts with no sign, and its digits are those
that are taken. -/
theorem digits_read (n : Nat) {rest : Text} (hr : Stops rest) : ∃ c cs, Nat.toDigits 10 n = c :: cs ∧ c ≠ '-' ∧
    c ≠ '+' ∧ (c :: (cs ++ rest)).takeWhile Char.isDigit = c :: cs ∧
    (c :: (cs ++ rest)).dropWhile Char.isDigit = rest ∧ Nat.ofDigitChars 10 (c :: cs) 0 = n := by
  cases h : Nat.toDigits 10 n with
  | nil => exact absurd h Nat.toDigits_ne_nil
  | cons c cs =>
    have hdigits : ∀ d ∈ c :: cs, d.isDigit = true := fun d hd => Json.toDigits_isDigit (h ▸ hd)
    have hc := hdigits c mem_cons_self
    refine ⟨c, cs, rfl, ?_, ?_, takeWhile_digits hdigits hr, dropWhile_digits hdigits hr,
      h ▸ Nat.ofDigitChars_ten_toDigits⟩ <;> rintro rfl <;> revert hc <;> decide

theorem integerParse_decimal (i : Int) {rest : Text} (hr : Stops rest) :
    Runtime.integerParse (decimal i ++ rest) = some (i, rest) := by
  cases i with
  | ofNat n =>
    obtain ⟨c, cs, heq, hminus, hplus, htake, hdrop, hv⟩ := digits_read n hr
    rw [decimal, heq]
    unfold Runtime.integerParse
    simp [hminus, hplus, htake, hdrop, hv]
  | negSucc n =>
    obtain ⟨c, cs, heq, -, -, htake, hdrop, hv⟩ := digits_read (n + 1) hr
    rw [decimal, heq]
    simp [Runtime.integerParse, htake, hdrop, hv, Int.negSucc_eq]

theorem decimalToken_decimal (i : Int) {behind : Text} {e : Int}
    (hb : behind = [] ∧ e = 0 ∨ ∃ rest, behind = 'e' :: rest ∧ Runtime.integerParse rest = some (e, [])) :
    decimalToken (decimal i ++ behind) = some (i, e) := by
  have hstops : Stops behind := by
    rcases hb with ⟨rfl, -⟩ | ⟨rest, rfl, -⟩ <;> simp [Stops]
  cases i with
  | ofNat n =>
    obtain ⟨c, cs, heq, hminus, -, htake, hdrop, hv⟩ := digits_read n hstops
    rw [decimal, heq]
    unfold decimalToken
    rcases hb with ⟨rfl, rfl⟩ | ⟨rest, rfl, h⟩
    · rw [append_nil] at htake hdrop
      simp [hminus, htake, hdrop, hv]
    · simp [hminus, htake, hdrop, hv, h]
  | negSucc n =>
    obtain ⟨c, cs, heq, -, -, htake, hdrop, hv⟩ := digits_read (n + 1) hstops
    rw [decimal, heq]
    unfold decimalToken
    rcases hb with ⟨rfl, rfl⟩ | ⟨rest, rfl, h⟩
    · rw [append_nil] at htake hdrop
      simp [htake, hdrop, hv, Int.negSucc_eq]
    · simp [htake, hdrop, hv, h, Int.negSucc_eq]

theorem token_int (host : Host) (i : Int) : Numeric.token host (.int i) = some (i, 0) := by
  have h := decimalToken_decimal i (e := 0) (Or.inl ⟨rfl, rfl⟩)
  rwa [append_nil] at h

/-- A double as its digits over a power of ten. -/
def scientific (f : Flt) : Text :=
  decimal (f.signed * 2 ^ f.exp.toNat * 5 ^ (-f.exp).toNat) ++ 'e' :: decimal (min f.exp 0)

theorem decimalToken_scientific (f : Flt) : decimalToken (scientific f) =
    some (f.signed * 2 ^ f.exp.toNat * 5 ^ (-f.exp).toNat, min f.exp 0) := by
  have h := @integerParse_decimal (min f.exp 0) [] (by simp [Stops])
  rw [append_nil] at h
  exact decimalToken_decimal _ (Or.inr ⟨_, rfl, h⟩)

/-- A host to evaluate with; its SHA-256 gives one digest to every text. -/
def lampHost : Host where
  float := scientific
  floatToken f := by rw [decimalToken_scientific]; rfl
  sha256 _ := replicate 32 0
  scheme t := t.contains ':'
  dataSchema _ := true
  manifest := "{}"

/-- Limits to evaluate with. -/
def lampLimits : Limits := ⟨100000, 16, 10000, 4, 4, 4, 16, 32⟩

/-! ## Normal form -/

/-- No factor of ten is left in the coefficient of a number with decimal places. -/
def Normal (coefficient exponent : Int) : Prop := exponent < 0 → ¬ 10 ∣ coefficient

namespace Numeric

theorem amount_normalizeWith (fuel : Nat) (c e : Int) :
    amount (normalizeWith fuel c e).1 (normalizeWith fuel c e).2 = amount c e := by
  induction fuel generalizing c e with
  | zero => rfl
  | succ fuel ih =>
    rw [normalizeWith]
    split
    · rename_i h
      simp [amount, h]
    · split
      · rename_i h
        rw [ih, amount, amount, zpow_add_one₀ (by norm_num)]
        obtain ⟨k, rfl⟩ := Int.dvd_of_emod_eq_zero h
        rw [Int.mul_ediv_cancel_left _ (by norm_num)]
        push_cast
        ring
      · rfl

theorem amount_normalize (c e : Int) : amount (normalize c e).1 (normalize c e).2 = amount c e :=
  amount_normalizeWith _ c e

theorem normalizeWith_normal {fuel : Nat} {c : Int} (hf : c.natAbs < fuel) (e : Int) :
    Normal (normalizeWith fuel c e).1 (normalizeWith fuel c e).2 := by
  induction fuel generalizing c e with
  | zero => omega
  | succ fuel ih =>
    rw [normalizeWith]
    split
    · intro h
      exact absurd h (by decide)
    · split
      · exact ih (by omega) _
      · rename_i h
        intro _ hd
        exact h (Int.emod_eq_zero_of_dvd hd)

theorem normalize_normal (c e : Int) : Normal (normalize c e).1 (normalize c e).2 :=
  normalizeWith_normal (Nat.lt_succ_self _) e

end Numeric

theorem amount_whole_iff {c e : Int} (h : Normal c e) : (∃ i : Int, amount c e = i) ↔ 0 ≤ e := by
  constructor
  · rintro ⟨i, hi⟩
    by_contra hneg
    obtain ⟨k, hk⟩ : ∃ k : Nat, e = -((k : Int) + 1) := ⟨(-e - 1).toNat, by omega⟩
    refine h (by omega) ⟨10 ^ k * i, ?_⟩
    have hpow : (10 : ℚ) ^ (k + 1) ≠ 0 := by positivity
    rw [amount, hk, zpow_neg, ← Nat.cast_add_one, zpow_natCast, ← div_eq_mul_inv, div_eq_iff hpow] at hi
    have : (c : ℚ) = ((i * 10 ^ (k + 1) : Int) : ℚ) := by rw [hi]; push_cast; ring
    rw [Int.cast_injective this]
    ring
  · intro he
    obtain ⟨k, rfl⟩ := Int.eq_ofNat_of_zero_le he
    exact ⟨c * 10 ^ k, by simp [amount]⟩

end Wotex.Profiles
