import Mathlib.Algebra.GroupWithZero.Nat
import Mathlib.Data.Char
import Mathlib.Data.List.Lex
import Mathlib.Data.List.Sort

/-!
# Texts

A binary of the source is valid UTF-8 wherever it is admitted, so it is modelled by its characters.
Texts are ordered by their code points, which for UTF-8 is the order of their bytes.
-/

namespace Wotex

/-- A valid UTF-8 binary. -/
abbrev Text := List Char

/-- The text of an ASCII literal. Reading its bytes is what the kernel evaluates fastest. -/
def ascii (s : String) : Text := s.toByteArray.data.toList.map fun b => Char.ofNat b.toNat

instance : Coe String Text := ⟨ascii⟩

instance (t : Text) (l : List Text) : Decidable (t ∈ l) := inferInstance

/-- `byte_size/1`. -/
def Text.bytes (t : Text) : Nat := (t.map Char.utf8Size).sum

/-- `Enum.sort/1` of texts. -/
def sortTexts (l : List Text) : List Text := l.insertionSort (· ≤ ·)

/-- A lower case hexadecimal digit. -/
def hexLower (n : Nat) : Char := if n < 10 then Char.ofNat (48 + n) else Char.ofNat (87 + n)

theorem hexLower_inj : ∀ m < 16, ∀ n < 16, hexLower m = hexLower n → m = n := by
  decide

end Wotex
