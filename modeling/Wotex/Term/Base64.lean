import Wotex.Term.Utf8

/-!
# Base64 (`Base` of the standard library)

`encode64/2` and `decode64/2` with their URL-safe forms, over the last two characters of the alphabet
and the option `padding`. Three bytes are four numbers of six bits, and the bits below an end of one or
two bytes are dropped, so a text need not be the encoding of what it decodes to. Without `padding`
the decoder takes an end with and without `=`.

Results: `urlDecode64_urlEncode64`, a text reads back; `ne_of_mem`, the characters that do not occur.
-/

namespace Wotex.Base

/-- The last two characters of an alphabet. -/
structure Alphabet where
  plus : Char
  slash : Char

def Alphabet.standard : Alphabet := ⟨'+', '/'⟩

def Alphabet.url : Alphabet := ⟨'-', '_'⟩

/-- The numbers of six bits of a binary. -/
def sextets : Bytes → List Nat
  | [] => []
  | [a] => [a.toNat / 4, a.toNat % 4 * 16]
  | [a, b] => [a.toNat / 4, a.toNat % 4 * 16 + b.toNat / 16, b.toNat % 16 * 4]
  | a :: b :: c :: rest => a.toNat / 4 :: (a.toNat % 4 * 16 + b.toNat / 16) ::
    (b.toNat % 16 * 4 + c.toNat / 64) :: c.toNat % 64 :: sextets rest

/-- The bytes of numbers of six bits. -/
def octets : List Nat → Option Bytes
  | [] => some []
  | [_] => none
  | [a, b] => some [byte (a * 4 + b / 16)]
  | [a, b, c] => some [byte (a * 4 + b / 16), byte (b % 16 * 16 + c / 4)]
  | a :: b :: c :: d :: rest => (octets rest).map fun rest =>
    byte (a * 4 + b / 16) :: byte (b % 16 * 16 + c / 4) :: byte (c % 4 * 64 + d) :: rest

/-- A text without its padding. -/
def unpadded (t : Text) : Text :=
  if t.length % 4 ≠ 0 then t
  else if ['=', '='].isSuffixOf t then t.dropLast.dropLast
  else if ['='].isSuffixOf t then t.dropLast
  else t

variable (alphabet : Alphabet) (padding : Bool)

def symbol (n : Nat) : Char :=
  if n < 26 then Char.ofNat (65 + n)
  else if n < 52 then Char.ofNat (71 + n)
  else if n < 62 then Char.ofNat (n - 4)
  else if n = 62 then alphabet.plus
  else alphabet.slash

def number (c : Char) : Option Nat :=
  if 'A' ≤ c ∧ c ≤ 'Z' then some (c.toNat - 65)
  else if 'a' ≤ c ∧ c ≤ 'z' then some (c.toNat - 71)
  else if '0' ≤ c ∧ c ≤ '9' then some (c.toNat + 4)
  else if c = alphabet.plus then some 62
  else if c = alphabet.slash then some 63
  else none

def encode64 (b : Bytes) : Text :=
  (sextets b).map (symbol alphabet) ++
    if padding then List.replicate ((3 - b.length % 3) % 3) '=' else []

def decode64 (t : Text) : Option Bytes :=
  if padding ∧ t.length % 4 ≠ 0 then none
  else ((unpadded t).mapM (number alphabet)).bind octets

/-- `Base.url_encode64(text, padding: false)`. -/
def urlEncode64 (t : Text) : Text := encode64 .url false t.utf8

/-- `Base.url_decode64(text, padding: false)`, where that is a string. -/
def urlDecode64 (t : Text) : Option Text := (decode64 .url false t).bind Bytes.text?

/-! ## Reading back -/

theorem octets_sextets : ∀ b : Bytes, octets (sextets b) = some b ∧ ∀ n ∈ sextets b, n < 64
  | [] => ⟨rfl, by simp [sextets]⟩
  | [a] => by
    have := a.toNat_lt
    have h : a.toNat / 4 * 4 + a.toNat % 4 * 16 / 16 = a.toNat := by omega
    simp only [sextets, octets, h, byte_toNat, List.forall_mem_cons]
    exact ⟨trivial, by omega, by omega, by simp⟩
  | [a, b] => by
    have := a.toNat_lt
    have := b.toNat_lt
    have h1 : a.toNat / 4 * 4 + (a.toNat % 4 * 16 + b.toNat / 16) / 16 = a.toNat := by omega
    have h2 : (a.toNat % 4 * 16 + b.toNat / 16) % 16 * 16 + b.toNat % 16 * 4 / 4 = b.toNat := by omega
    simp only [sextets, octets, h1, h2, byte_toNat, List.forall_mem_cons]
    exact ⟨trivial, by omega, by omega, by omega, by simp⟩
  | a :: b :: c :: rest => by
    have := a.toNat_lt
    have := b.toNat_lt
    have := c.toNat_lt
    have h1 : a.toNat / 4 * 4 + (a.toNat % 4 * 16 + b.toNat / 16) / 16 = a.toNat := by omega
    have h2 : (a.toNat % 4 * 16 + b.toNat / 16) % 16 * 16 + (b.toNat % 16 * 4 + c.toNat / 64) / 4 =
        b.toNat := by omega
    have h3 : (b.toNat % 16 * 4 + c.toNat / 64) % 4 * 64 + c.toNat % 64 = c.toNat := by omega
    obtain ⟨hrest, hlt⟩ := octets_sextets rest
    simp only [sextets, octets, hrest, h1, h2, h3, byte_toNat, List.forall_mem_cons]
    exact ⟨rfl, by omega, by omega, by omega, by omega, hlt⟩

theorem number_symbol : ∀ n < 64, number .url (symbol .url n) = some n ∧ symbol .url n ≠ '=' ∧
    symbol .url n ≠ '.' := by
  decide

theorem ne_of_mem {t : Text} {c : Char} (h : c ∈ urlEncode64 t) : c ≠ '=' ∧ c ≠ '.' := by
  obtain ⟨n, hn, rfl⟩ := List.mem_map.mp (by simpa [urlEncode64, encode64] using h :
    c ∈ (sextets t.utf8).map (symbol .url))
  exact (number_symbol n ((octets_sextets _).2 n hn)).2

theorem unpadded_of_notMem {t : Text} (h : '=' ∉ t) : unpadded t = t := by
  unfold unpadded
  split_ifs with _ h2 h1
  · rfl
  · exact absurd ((List.isSuffixOf_iff_suffix.mp h2).mem (by simp)) h
  · exact absurd ((List.isSuffixOf_iff_suffix.mp h1).mem (by simp)) h
  · rfl

theorem mapM_number : ∀ l : List Nat, (∀ n ∈ l, n < 64) → (l.map (symbol .url)).mapM (number .url) = some l
  | [], _ => rfl
  | n :: l, h => by
    obtain ⟨hn, hl⟩ := List.forall_mem_cons.mp h
    simp [(number_symbol n hn).1, mapM_number l hl]

/-- **What is encoded reads back.** -/
theorem urlDecode64_urlEncode64 (t : Text) : urlDecode64 (urlEncode64 t) = some t := by
  obtain ⟨hread, hlt⟩ := octets_sextets t.utf8
  rw [urlDecode64, decode64, unpadded_of_notMem fun h => (ne_of_mem h).1 rfl]
  simp [urlEncode64, encode64, mapM_number _ hlt, hread]

end Wotex.Base
