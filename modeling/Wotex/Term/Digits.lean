import Mathlib.Algebra.Order.Ring.Abs
import Mathlib.Data.List.DropRight
import Mathlib.Data.Nat.Digits.Defs
import Mathlib.Tactic.Ring

/-!
# Decimal digits, most significant first

The value of a list of digits, what zeros in front and behind do to it, and how it prints. A number with a
factor `10 ^ k` that is not divisible by ten any more loses exactly `k` zeros when it is divided by ten as
long as that is possible (`strip_mul_pow`).
-/

namespace Wotex.Digits

open List

/-- The value of digits, most significant first. -/
def value (ds : List Nat) : Nat := ds.foldl (fun acc d => acc * 10 + d) 0

theorem foldl_value (ds : List Nat) (a : Nat) :
    ds.foldl (fun acc d => acc * 10 + d) a = a * 10 ^ ds.length + value ds := by
  induction ds generalizing a with
  | nil => simp [value]
  | cons d ds ih =>
    have hcons : value (d :: ds) = (0 * 10 + d) * 10 ^ ds.length + value ds := ih _
    rw [foldl_cons, ih, hcons, length_cons]
    ring

@[simp] theorem value_nil : value [] = 0 := rfl

theorem value_append (xs ys : List Nat) : value (xs ++ ys) = value xs * 10 ^ ys.length + value ys := by
  rw [value, foldl_append, ← value, foldl_value]

theorem value_concat (ds : List Nat) (d : Nat) : value (ds ++ [d]) = 10 * value ds + d := by
  simp [value]
  ring

theorem value_cons (d : Nat) (ds : List Nat) : value (d :: ds) = d * 10 ^ ds.length + value ds := by
  have := value_append [d] ds
  simpa [value] using this

theorem value_eq_ofDigits (ds : List Nat) : value ds = Nat.ofDigits 10 ds.reverse := by
  induction ds using reverseRecOn with
  | nil => rfl
  | append_singleton ds d ih =>
    rw [value_concat, reverse_append, reverse_singleton, singleton_append, Nat.ofDigits_cons, ih]
    ring

variable {ds : List Nat}

theorem value_eq_zero_iff : value ds = 0 ↔ ∀ d ∈ ds, d = 0 := by
  induction ds with
  | nil => simp
  | cons d ds ih =>
    rw [value_cons, Nat.add_eq_zero_iff, ih]
    simp

theorem value_dropWhile_zero (ds : List Nat) : value (ds.dropWhile (· = 0)) = value ds := by
  induction ds with
  | nil => rfl
  | cons d ds ih =>
    by_cases hd : d = 0
    · rw [dropWhile_cons_of_pos (by simpa using hd), value_cons, hd]
      omega
    · rw [dropWhile_cons_of_neg (by simpa using hd)]

theorem not_dvd_value_rdropWhile (h : ∀ d ∈ ds, d ≤ 9) (hne : value ds ≠ 0) :
    ¬ 10 ∣ value (ds.rdropWhile (· = 0)) := by
  obtain hnil | ⟨body, d, hbody⟩ := (ds.rdropWhile (· = 0)).eq_nil_or_concat
  · exact absurd (value_eq_zero_iff.mpr (by simpa using hnil)) hne
  · rw [concat_eq_append] at hbody
    have hd : d ≠ 0 := by
      have := rdropWhile_last_not (p := fun d : Nat => decide (d = 0)) (l := ds) (by rw [hbody]; simp)
      simpa [hbody] using this
    have hd9 : d ≤ 9 := by
      have hmem : d ∈ ds.rdropWhile (· = 0) := by rw [hbody]; simp
      exact h d (( rdropWhile_prefix _ _).subset hmem)
    rw [hbody, value_concat]
    omega

/-- The value is that of the digits without the zeros behind, and a power of ten for these. -/
theorem value_rdropWhile (ds : List Nat) :
    value ds = value (ds.rdropWhile (· = 0)) * 10 ^ (ds.length - (ds.rdropWhile (· = 0)).length) := by
  induction ds using reverseRecOn with
  | nil => rfl
  | append_singleton ds d ih =>
    by_cases hd : d = 0
    · have hle := ( rdropWhile_prefix (fun d : Nat => decide (d = 0)) ds).length_le
      rw [rdropWhile_concat_pos _ _ _ (by simpa using hd), value_concat, hd, length_append, length_singleton,
        Nat.sub_add_comm hle]
      nth_rewrite 1 [ih]
      ring
    · rw [rdropWhile_concat_neg _ _ _ (by simpa using hd), Nat.sub_self, Nat.pow_zero, Nat.mul_one]

theorem toDigits_value (h : ∀ d ∈ ds, d ≤ 9) {d : Nat} (hd : ds.head? = some d) (hne : d ≠ 0) :
    Nat.toDigits 10 (value ds) = ds.map Nat.digitChar := by
  induction ds using reverseRecOn with
  | nil => cases hd
  | append_singleton ds x ih =>
    have hx : x < 10 := Nat.lt_succ_of_le (h x (by simp))
    cases ds with
    | nil =>
      rw [nil_append, value_cons]
      simpa using Nat.toDigits_of_lt_base hx
    | cons first rest =>
      have hds : ∀ y ∈ first :: rest, y ≤ 9 := fun y hy => h y (mem_append_left _ hy)
      have hpos : 0 < value (first :: rest) := by
        refine Nat.pos_of_ne_zero fun hz => hne ?_
        obtain rfl : first = d := by simpa using hd
        exact value_eq_zero_iff.mp hz first mem_cons_self
      rw [value_concat, ← Nat.toDigits_append_toDigits (by decide) hpos hx, ih hds (by simpa using hd),
        Nat.toDigits_of_lt_base hx, map_append, map_singleton]

/-- Division by ten as long as it is possible, counting in the exponent. -/
def strip : Nat → Int → Int → Int × Int
  | 0, c, e => (c, e)
  | fuel + 1, c, e => if c.tmod 10 = 0 then strip fuel (c.tdiv 10) (e + 1) else (c, e)

theorem strip_mul_pow {c : Int} (hc : ¬ 10 ∣ c) (k : Nat) (e : Int) {fuel : Nat} (hfuel : k ≤ fuel) :
    strip fuel (c * 10 ^ k) e = (c, e + k) := by
  induction k generalizing e fuel with
  | zero =>
    have hmod : c.tmod 10 ≠ 0 := fun h => hc (Int.dvd_of_tmod_eq_zero h)
    cases fuel with
    | zero => simp [strip]
    | succ fuel => simp [strip, hmod]
  | succ k ih =>
    obtain ⟨fuel, rfl⟩ : ∃ m, fuel = m + 1 := ⟨fuel - 1, by omega⟩
    have hmul : c * 10 ^ (k + 1) = c * 10 ^ k * 10 := by ring
    rw [strip, hmul, Int.mul_tmod_left, Int.mul_tdiv_cancel _ (by decide), ih _ (by omega)]
    push_cast
    ring_nf

theorem lt_natAbs_mul_pow {c : Int} (hc : c ≠ 0) (k : Nat) : k < (c * 10 ^ k).natAbs := by
  rw [Int.natAbs_mul]
  have hk : k < 10 ^ k := Nat.lt_pow_self (by decide)
  have hpos : 1 ≤ c.natAbs := Nat.one_le_iff_ne_zero.mpr (by simpa using hc)
  exact hk.trans_le (Nat.le_mul_of_pos_left _ hpos)

end Wotex.Digits
