import Wotex.Term.Bytes
import Wotex.Term.Text

/-!
# UTF-8

The binary of a text and the text of a binary. The encoding and the decoder are the core library's; what
is added is what a line protocol needs of them: a text reads back from its binary (`text_utf8`), the
length of the binary (`length_utf8`), and that an ASCII byte of the binary is an ASCII character of the
text (`mem_of_mem_utf8`).
-/

namespace Wotex

open List

/-- The UTF-8 binary of a text. -/
def Text.utf8 (t : Text) : Bytes := t.flatMap String.utf8EncodeChar

/-- The text of a binary, where `String.valid?/1` holds. -/
def Bytes.text? (b : Bytes) : Option Text := (ByteArray.utf8Decode? ⟨b.toArray⟩).map Array.toList

namespace Text

theorem utf8_encode (t : Text) : (⟨t.utf8.toArray⟩ : ByteArray) = t.utf8Encode := by
  rw [utf8Encode]
  apply ByteArray.ext
  simp [utf8]

/-- **A text reads back from its binary.** -/
@[simp] theorem text_utf8 (t : Text) : Bytes.text? t.utf8 = some t := by
  rw [Bytes.text?, utf8_encode]
  induction t with
  | nil => rfl
  | cons c t ih =>
    simp

theorem utf8_of_text {b : Bytes} {t : Text} (h : b.text? = some t) : t.utf8 = b := by
  obtain ⟨a, ha, rfl⟩ := Option.map_eq_some_iff.mp h
  have hget := ByteArray.utf8Encode_get_utf8Decode? (b := ⟨b.toArray⟩) (h := by rw [ha]; rfl)
  simp only [ha] at hget
  rw [← utf8_encode] at hget
  simpa using congrArg (fun x : ByteArray => x.data.toList) hget

theorem length_utf8 (t : Text) : t.utf8.length = t.bytes := by
  rw [utf8, length_flatMap, bytes]
  simp

@[simp] theorem bytes_nil : Text.bytes [] = 0 := rfl

@[simp] theorem bytes_cons (c : Char) (t : Text) : Text.bytes (c :: t) = c.utf8Size + Text.bytes t :=
  rfl

@[simp] theorem bytes_append (s t : Text) : Text.bytes (s ++ t) = Text.bytes s + Text.bytes t := by
  simp [Text.bytes]

theorem length_le_bytes (t : Text) : t.length ≤ t.bytes := by
  induction t with
  | nil => rfl
  | cons c t ih =>
    have := c.utf8Size_pos
    rw [length_cons, bytes_cons]
    omega

/-- An ASCII byte in the encoding of a character is the character. -/
theorem toNat_of_mem_encode {c : Char} {b : UInt8} (h : b ∈ String.utf8EncodeChar c)
    (hb : b.toNat < 128) : c.toNat = b.toNat := by
  unfold String.utf8EncodeChar at h
  dsimp only at h
  split_ifs at h with h1 h2 h3 <;> simp only [mem_cons, not_mem_nil, or_false] at h
  · rw [h, UInt8.toNat_ofNat', Nat.mod_eq_of_lt (by omega)]
    rfl
  all_goals
    -- every byte of a longer encoding has its top bit set
    exfalso
    rcases h with rfl | rfl | rfl | rfl <;> rw [UInt8.toNat_ofNat'] at hb <;> omega

theorem mem_of_mem_utf8 {t : Text} {b : UInt8} (h : b ∈ t.utf8) (hb : b.toNat < 128) :
    ∃ c ∈ t, c.toNat = b.toNat := by
  obtain ⟨c, hc, hm⟩ := mem_flatMap.mp h
  exact ⟨c, hc, toNat_of_mem_encode hm hb⟩

end Text

end Wotex
