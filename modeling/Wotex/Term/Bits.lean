import Mathlib.Data.Nat.Bitwise
import Wotex.Term.Bytes

/-!
# Bits of a binary, least significant bit first

`bit data i` is bit `i % 8` of byte `i / 8`. `packBits` collects booleans into bytes in that order, the last
byte padded with zeros; `bit_packBits` reads them back.
-/

namespace Wotex

open List

/-- Bit `i` of a binary; there are only zeros behind its end. -/
def bit (data : Bytes) (i : Nat) : Bool := (data.getD (i / 8) 0).toNat.testBit (i % 8)

/-- The number whose bits, from position `k` on, are those of the list. -/
def setBits (k : Nat) (acc : Nat) : List Bool → Nat
  | [] => acc
  | v :: rest => setBits (k + 1) (if v then acc ||| 1 <<< k else acc) rest

/-- The list in groups of eight, the last one shorter. -/
def octets {α : Type} : Nat → List α → List (List α)
  | 0, _ => []
  | n + 1, l => l.take 8 :: octets n (l.drop 8)

variable (values : List Bool)

/-- Booleans in bytes. -/
def packBits : Bytes :=
  (octets ((values.length + 7) / 8) values).map fun group => byte (setBits 0 0 group)

theorem testBit_setBits : ∀ (l : List Bool) (k acc i : Nat),
    (setBits k acc l).testBit i = (acc.testBit i || (decide (k ≤ i) && l.getD (i - k) false))
  | [], k, acc, i => by simp [setBits]
  | v :: rest, k, acc, i => by
    rw [setBits, testBit_setBits rest]
    rcases Nat.lt_trichotomy i k with h | rfl | h
    · have h1 : ¬ k + 1 ≤ i := by omega
      have h2 : ¬ k ≤ i := by omega
      cases v <;> simp [h1, h2]
    · cases v <;> simp
    · have h1 : k + 1 ≤ i := by omega
      have h2 : k ≤ i := by omega
      have h3 : i - k = i - (k + 1) + 1 := by omega
      cases v <;> simp [h1, h2, h3, Nat.testBit_succ]

theorem setBits_lt (l : List Bool) (h : l.length ≤ 8) : setBits 0 0 l < 256 := by
  refine Nat.lt_pow_two_of_testBit (n := 8) _ fun i hi => ?_
  rw [testBit_setBits]
  simp [getElem?_eq_none (show l.length ≤ i by omega)]

theorem length_octets {α : Type} : ∀ (n : Nat) (l : List α), (octets n l).length = n
  | 0, _ => rfl
  | n + 1, l => by rw [octets, length_cons, length_octets n]

theorem getElem?_octets {α : Type} : ∀ (n : Nat) (l : List α) (k : Nat), k < n →
    (octets n l)[k]? = some ((l.drop (8 * k)).take 8)
  | 0, _, k, h => absurd h (Nat.not_lt_zero k)
  | n + 1, l, 0, _ => rfl
  | n + 1, l, k + 1, h => by
    rw [octets, getElem?_cons_succ, getElem?_octets n _ k (by omega), drop_drop]
    congr 3
    omega

@[simp] theorem length_packBits : (packBits values).length = (values.length + 7) / 8 := by
  rw [packBits, length_map, length_octets]

/-- **Reading packed bits back.** -/
theorem bit_packBits (i : Nat) : bit (packBits values) i = values.getD i false := by
  rw [bit, packBits, getD_eq_getElem?_getD, getElem?_map]
  by_cases h : i / 8 < (values.length + 7) / 8
  · rw [getElem?_octets _ _ _ h, Option.map_some, Option.getD_some, toNat_byte
      (setBits_lt _ (by rw [length_take]; omega)), testBit_setBits]
    simp only [Nat.zero_testBit, Bool.false_or, Nat.zero_le, decide_true, Bool.true_and,
      Nat.sub_zero, getD_eq_getElem?_getD, getElem?_take, getElem?_drop]
    rw [if_pos (by omega), Nat.div_add_mod]
  · rw [getElem?_eq_none (by rw [length_octets]; omega), getD_eq_getElem?_getD, getElem?_eq_none (by omega)]
    simp

end Wotex
