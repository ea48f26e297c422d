import Wotex.Term.Bytes
import Wotex.Term.Text

/-!
# Base64 (`Base64Encode`, `Base64Value`, `Base64Decode`, `packages/wotex-matter/native/src/storage.cpp:120-205`)

Three bytes are four characters of six bits, and an end of one or two bytes is filled with `=`. The
shifts and masks of the source are quotients and remainders here. The decoder encodes what it has read
and takes the text only where that gives the text back, so each value has one spelling.

Results: `base64Decode_base64Encode`, what is written reads back up to the length of a value;
`base64_exact`, nothing else is read.
-/

namespace Wotex.Matter

/-- `kMaximumValueBytes`. -/
def maximumValueBytes : Nat := 65535

/-- The characters for six bits. -/
def alphabet : Text := "ABCDEFGHIJKLMNOPQRSTUVWXYZabcdefghijklmnopqrstuvwxyz0123456789+/"

variable (value shift : Nat)

/-- The character of the six bits of a group above its lowest `shift`. -/
def sextet : Char := alphabet.getD (value / 2 ^ shift % 64) '='

variable (first second third : UInt8)

/-- Three bytes as one number. -/
def group : Nat :=
  first.toNat * 2 ^ 16 + second.toNat * 2 ^ 8 + third.toNat

/-- `Base64Encode`. -/
def base64Encode : Bytes → Text
  | [] => []
  | [first] =>
    let value := group first 0 0
    [sextet value 18, sextet value 12, '=', '=']
  | [first, second] =>
    let value := group first second 0
    [sextet value 18, sextet value 12, sextet value 6, '=']
  | first :: second :: third :: rest =>
    let value := group first second third
    sextet value 18 :: sextet value 12 :: sextet value 6 :: sextet value 0 :: base64Encode rest

/-- `Base64Value`. -/
def base64Value (value : Char) : Option Nat :=
  if 'A' ≤ value ∧ value ≤ 'Z' then some (value.toNat - 65)
  else if 'a' ≤ value ∧ value ≤ 'z' then some (value.toNat - 97 + 26)
  else if '0' ≤ value ∧ value ≤ '9' then some (value.toNat - 48 + 52)
  else if value = '+' then some 62
  else if value = '/' then some 63
  else none

/-- One turn of the loop of `Base64Decode`: four characters, the last of the text or not. -/
def base64Group (last : Bool) (a b c d : Char) : Option Bytes := do
  let padC := c == '='
  let padD := d == '='
  let a ← base64Value a
  let b ← base64Value b
  let c ← if padC then some 0 else base64Value c
  let d ← if padD then some 0 else base64Value d
  if (!last && (padC || padD)) || (padC && !padD) then none
  else
    let value := a * 2 ^ 18 + b * 2 ^ 12 + c * 2 ^ 6 + d
    some (byte (value / 2 ^ 16 % 256) :: (if padC then [] else [byte (value / 2 ^ 8 % 256)]) ++
      if padD then [] else [byte (value % 256)])

/-- The loop of `Base64Decode`. -/
def base64Groups : Text → Option Bytes
  | a :: b :: c :: d :: rest => do
    let bytes ← base64Group rest.isEmpty a b c d
    let others ← base64Groups rest
    some (bytes ++ others)
  | [] => some []
  | _ => none

/-- `Base64Decode`. -/
def base64Decode (encoded : Text) : Option Bytes := do
  let bytes ← base64Groups encoded
  if bytes.length ≤ maximumValueBytes ∧ base64Encode bytes = encoded then some bytes else none

/-! ## Reading back -/

theorem alphabet_value : ∀ n < 64, base64Value (alphabet.getD n '=') = some n ∧ alphabet.getD n '=' ≠ '=' := by
  decide

theorem base64Value_sextet : base64Value (sextet value shift) = some (value / 2 ^ shift % 64) :=
  (alphabet_value _ (Nat.mod_lt _ (by decide))).1

theorem sextet_beq : (sextet value shift == '=') = false :=
  beq_eq_false_iff_ne.mpr (alphabet_value _ (Nat.mod_lt _ (by decide))).2

theorem sextets {value : Nat} (h : value < 2 ^ 24) :
    value / 2 ^ 18 % 64 * 2 ^ 18 + value / 2 ^ 12 % 64 * 2 ^ 12 + value / 2 ^ 6 % 64 * 2 ^ 6 +
      value / 2 ^ 0 % 64 = value := by
  omega

theorem group_lt : group first second third < 2 ^ 24 := by
  have := first.toNat_lt; have := second.toNat_lt; have := third.toNat_lt
  unfold group
  omega

theorem group_bytes :
    byte (group first second third / 2 ^ 16 % 256) = first ∧
      byte (group first second third / 2 ^ 8 % 256) = second ∧
      byte (group first second third % 256) = third := by
  have := first.toNat_lt; have := second.toNat_lt; have := third.toNat_lt
  have h1 : group first second third / 2 ^ 16 % 256 = first.toNat := by unfold group; omega
  have h2 : group first second third / 2 ^ 8 % 256 = second.toNat := by unfold group; omega
  have h3 : group first second third % 256 = third.toNat := by unfold group; omega
  rw [h1, h2, h3]
  simp

theorem base64Groups_encode : ∀ bytes : Bytes, base64Groups (base64Encode bytes) = some bytes
  | [] => rfl
  | [first] => by
    have hbits : group first 0 0 / 2 ^ 18 % 64 * 2 ^ 18 + group first 0 0 / 2 ^ 12 % 64 * 2 ^ 12 +
        0 * 2 ^ 6 + 0 = group first 0 0 := by
      have h : group first 0 0 = first.toNat * 2 ^ 16 := by simp [group]
      have := first.toNat_lt
      omega
    simp only [base64Encode, base64Groups, base64Group, base64Value_sextet, Option.bind_eq_bind,
      Option.bind_some, hbits, (group_bytes first 0 0).1]
    rfl
  | [first, second] => by
    have hbits : group first second 0 / 2 ^ 18 % 64 * 2 ^ 18 + group first second 0 / 2 ^ 12 % 64 * 2 ^ 12 +
        group first second 0 / 2 ^ 6 % 64 * 2 ^ 6 + 0 = group first second 0 := by
      have h : group first second 0 = first.toNat * 2 ^ 16 + second.toNat * 2 ^ 8 := by simp [group]
      have := first.toNat_lt
      have := second.toNat_lt
      omega
    obtain ⟨h1, h2, -⟩ := group_bytes first second 0
    simp only [base64Encode, base64Groups, base64Group, base64Value_sextet, sextet_beq, Option.bind_eq_bind,
      Option.bind_some, hbits, h1, h2]
    rfl
  | first :: second :: third :: rest => by
    obtain ⟨h1, h2, h3⟩ := group_bytes first second third
    simp only [base64Encode, base64Groups, base64Group, base64Value_sextet, sextet_beq, Bool.or_self,
      Bool.and_false, Option.bind_eq_bind, Option.bind_some, sextets (group_lt first second third), h1, h2,
      h3, base64Groups_encode rest]
    rfl

/-- **A value reads back.** -/
theorem base64Decode_base64Encode {bytes : Bytes} (h : bytes.length ≤ maximumValueBytes) :
    base64Decode (base64Encode bytes) = some bytes := by
  simp [base64Decode, base64Groups_encode, h]

/-- **Each value has one spelling**: the decoder takes the encoding of a value and nothing else. -/
theorem base64_exact {encoded : Text} {bytes : Bytes} : base64Decode encoded = some bytes ↔
    bytes.length ≤ maximumValueBytes ∧ base64Encode bytes = encoded := by
  constructor
  · intro h
    simp only [base64Decode, Option.bind_eq_bind, Option.bind_eq_some_iff, Option.ite_none_right_eq_some] at h
    obtain ⟨_, -, h, ⟨⟩⟩ := h
    exact h
  · rintro ⟨h, rfl⟩
    exact base64Decode_base64Encode h

end Wotex.Matter
