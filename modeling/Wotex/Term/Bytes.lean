import Mathlib.Data.Nat.Digits.Lemmas
import Mathlib.Data.List.Basic

/-!
# Binaries

A binary is the list of its bytes. `byte` and `unsigned` move between bytes and numbers, most
significant byte first, and `uint` is the shortest binary of a number.
-/

namespace Wotex

/-- A binary. -/
abbrev Bytes := List UInt8

/-- `<<n>>`. -/
def byte (n : Nat) : UInt8 := UInt8.ofNat n

theorem toNat_byte {n : Nat} (h : n < 256) : (byte n).toNat = n := by
  simp [byte, Nat.mod_eq_of_lt h]

@[simp] theorem byte_toNat (b : UInt8) : byte b.toNat = b := by
  simp [byte]

theorem byte_lt (b : UInt8) : b.toNat < 256 := b.toNat_lt

/-- `<<n::16>>`. -/
def word (n : Nat) : Bytes := [byte (n / 256), byte (n % 256)]

theorem word_toNat (high low : UInt8) : word (high.toNat * 256 + low.toNat) = [high, low] := by
  have := byte_lt low
  have h1 : (high.toNat * 256 + low.toNat) / 256 = high.toNat := by omega
  have h2 : (high.toNat * 256 + low.toNat) % 256 = low.toNat := by omega
  rw [word, h1, h2, byte_toNat, byte_toNat]

theorem toNat_nibbles {a b : Nat} (ha : a < 16) (hb : b < 16) :
    (byte (a * 16 + b)).toNat / 16 = a ∧ (byte (a * 16 + b)).toNat % 16 = b := by
  rw [toNat_byte (by omega)]
  omega

namespace Bytes

/-- `:binary.decode_unsigned/1`. -/
def unsigned (b : Bytes) : Nat := Nat.ofDigits 256 (b.reverse.map UInt8.toNat)

/-- The shortest binary of a number, empty for zero. -/
def uint (n : Nat) : Bytes := ((Nat.digits 256 n).map byte).reverse

@[simp] theorem uint_zero : uint 0 = [] := rfl

@[simp] theorem unsigned_uint (n : Nat) : unsigned (uint n) = n := by
  have h : (Nat.digits 256 n).map (UInt8.toNat ∘ byte) = Nat.digits 256 n := by
    refine (List.map_congr_left fun d hd => ?_).trans (List.map_id _)
    exact toNat_byte (Nat.digits_lt_base (by decide) hd)
  rw [unsigned, uint, List.reverse_reverse, List.map_map, h, Nat.ofDigits_digits]

theorem length_uint_le {n k : Nat} (h : n < 256 ^ k) : (uint n).length ≤ k := by
  rw [uint, List.length_reverse, List.length_map]
  exact Nat.digits_length_le_iff (by decide) n |>.mpr h

end Bytes

end Wotex
