import Wotex.Json.Canonical
import Wotex.Term.Bytes
import Wotex.Term.Digits

/-!
# Packed-decimal registers (`packages/wotex-modbus/lib/wotex/modbus/register_codec.ex`)

Registers hold a number in packed BCD, four bits a digit, with an optional sign in the last four bits. The
configuration gives the number of registers, the order of the bytes in a register and of the registers, the
decimal scale and whether there is a sign. The result is a decimal value without trailing zeros.

Three programs decode it: `RegisterCodec` itself (here), the reference program in Rust
(`test/native/register_codec_rust/src/main.rs`, namespace `Rust`), which works on the text of the hex digits,
and the one in C++ (`test/native/register_codec_cpp/main.cpp`, namespace `Cpp`), which addresses the bytes by
index and accumulates a signed 64-bit integer. A configuration and the metadata are JSON values.

`decode_eq`, `Rust.project_eq` and `Cpp.projected_eq` reduce each program to one function of the digits
(`outcome`); `outcome_denotes` says what that function computes.
-/

namespace Wotex.Modbus.RegisterCodec

open Json
open List
open Digits

/-! ## The values the programs exchange -/

/-- The refusals. -/
inductive Code where
  | invalidInput
  | unsupportedFormat
  | unsupportedValue
  deriving DecidableEq

/-- What a decoder returns. -/
abbrev Result (α : Type) := Except Code α

/-- `%{"type" => "decimal", "coefficient" => ..., "exponent" => ...}`. -/
def decimalValue (coefficient : Text) (exponent : Int) : Value :=
  .obj [("coefficient", .str coefficient), ("exponent", .num (.int exponent)),
    ("type", .str "decimal")]

section

variable (value : Value)

/-- `closed?/2`, `closed`: an object with the keys and no other. -/
def closed (keys : List Text) : Bool :=
  match value with
  | .obj members => members.length = keys.length && keys.all fun key => members.any fun m => m.1 = key
  | _ => false

/-- `integer`: an integer in a range. -/
def integer (low high : Int) : Bool :=
  match value with
  | .num (.int i) => low ≤ i && i ≤ high
  | _ => false

/-- An integer of a JSON value. -/
def int : Int :=
  match value with
  | .num (.int i) => i
  | _ => 0

/-- A boolean of a JSON value. -/
def boolean? : Option Bool :=
  match value with
  | .bool b => some b
  | _ => none

/-- `text`: a string with a byte size in a range. -/
def text (low high : Nat) : Bool :=
  match value with
  | .str s => low ≤ s.bytes && s.bytes ≤ high
  | _ => false

end

/-- `2^53 - 1`. -/
def safeInteger : Int := 9007199254740991

/-- `flat`: the metadata of a `decode` frame. -/
def flat (value : Value) : Bool :=
  match value with
  | .obj members => members.length ≤ 16 && members.all (fun m =>
      1 ≤ m.1.bytes && m.1.bytes ≤ 128 && (m.2 = .null || (boolean? m.2).isSome ||
        integer m.2 (-safeInteger) safeInteger || text m.2 0 256)) &&
      encodedSize (fun _ => []) value ≤ 4096
  | _ => false

/-- `@fields`. -/
def fields : List Text :=
  ["registers", "byte_order", "word_order", "scale", "signed"]

/-! ## The decoder -/

/-- `value in ~w(big little)`. -/
def order (value : Value) : Bool := value = .str "big" || value = .str "little"

def configuration (value : Value) : Bool :=
  closed value fields && integer (value.get "registers") 1 4 &&
    order (value.get "byte_order") && order (value.get "word_order") &&
    integer (value.get "scale") (-32768) 32767 && (boolean? (value.get "signed")).isSome

/-- `format/1`; a JSON string is valid UTF-8. -/
def format (metadata : Value) : Result Unit :=
  match metadata with
  | .obj [(key, .str format)] =>
    if key = "format" ∧ format.bytes ≤ 256 then
      if format = "packed-bcd-v1" then .ok () else .error .unsupportedFormat
    else .error .invalidInput
  | _ => .error .invalidInput

/-- `for <<a, b <- input>>`. -/
def words : Bytes → List (UInt8 × UInt8)
  | a :: b :: rest => (a, b) :: words rest
  | _ => []

/-- The four-bit digits of a byte. -/
def digitsOf (b : UInt8) : List Nat := [b.toNat / 16, b.toNat % 16]

def nibbles (input : Bytes) (value : Value) : List Nat :=
  let words := (words input).map fun (a, b) =>
    if value.get "byte_order" = .str "big" then [a, b] else [b, a]
  let words := if value.get "word_order" = .str "big" then words else words.reverse
  words.flatten.flatMap digitsOf

/-- `register_codec.ex:105-115`. -/
def sign (digits : List Nat) (signed : Bool) : Result (List Nat × Int) :=
  if signed then
    match digits.getLast? with
    | some 12 => .ok (digits.dropLast, 1)
    | some 13 => .ok (digits.dropLast, -1)
    | _ => .error .invalidInput
  else .ok (digits, 1)

/-- `coefficient/1` from an accumulator. -/
def coefficient : List Nat → Nat → Result Nat
  | [], acc => .ok acc
  | digit :: digits, acc =>
    if digit ≤ 9 then coefficient digits (acc * 10 + digit) else .error .invalidInput

/-- `normalized/2`. The absolute value is fuel enough: each division by ten makes it smaller. -/
def normalized : Nat → Int → Int → Result Value
  | 0, _, _ => .ok (decimalValue "0" 0)
  | fuel + 1, value, exponent =>
    if value = 0 then .ok (decimalValue "0" 0)
    else if value.tmod 10 = 0 then normalized fuel (value.tdiv 10) (exponent + 1)
    else if -32768 ≤ exponent ∧ exponent ≤ 32767 then .ok (decimalValue (decimal value) exponent)
    else .error .unsupportedValue

/-- `register_codec.ex:48-61`. -/
def decode (input : Bytes) (metadata value : Value) : Result Value := do
  if configuration value then .ok () else .error .invalidInput
  format metadata
  if (input.length : Int) = int (value.get "registers") * 2 then .ok () else .error .invalidInput
  let (digits, sign) ← sign (nibbles input value) ((boolean? (value.get "signed")).getD false)
  let coefficient ← coefficient digits 0
  if coefficient ≠ 0 ∨ sign = 1 then
    normalized (coefficient * sign).natAbs (coefficient * sign) (int (value.get "scale"))
  else .error .unsupportedValue

/-! ## The reference program in Rust -/

namespace Rust

structure Configuration where
  width : Nat
  reverseBytes : Bool
  reverseWords : Bool
  signed : Bool
  scale : Int

variable (value : Value)

/-- The closure `order` of `Configuration::new`. -/
def order? : Option Bool :=
  if value = .str "big" then some false
  else if value = .str "little" then some true
  else none

/-- `Configuration::new`. -/
def Configuration.new : Option Configuration :=
  if !closed value fields || !integer (value.get "registers") 1 4 ||
      !integer (value.get "scale") (-32768) 32767 then none
  else do
    let reverseBytes ← order? (value.get "byte_order")
    let reverseWords ← order? (value.get "word_order")
    let signed ← boolean? (value.get "signed")
    some ⟨(int (value.get "registers")).toNat, reverseBytes, reverseWords, signed,
      int (value.get "scale")⟩

/-- `metadata["format"].is_string()`. -/
def string? : Option Text :=
  match value with
  | .str s => some s
  | _ => none

/-- `format!("{byte:02x}")`. -/
def hex (b : UInt8) : List Char := [Nat.digitChar (b.toNat / 16), Nat.digitChar (b.toNat % 16)]

variable (c : Configuration)

/-- The hex digits of the bytes in order. -/
def digits (bytes : Bytes) : List Char :=
  let words := (words bytes).map fun (a, b) => if c.reverseBytes then [a, b].reverse else [a, b]
  let words := if c.reverseWords then words.reverse else words
  words.flatten.flatMap hex

/-- The sign, with the digits in front of it. -/
def negative (digits : List Char) : Result (Bool × List Char) :=
  if c.signed then
    match digits.getLast? with
    | some 'c' => .ok (false, digits.dropLast)
    | some 'd' => .ok (true, digits.dropLast)
    | _ => .error .invalidInput
  else .ok (false, digits)

/-- The decimal of digits: zeros behind are trimmed, then zeros in front. -/
def trimmed (negative : Bool) (digits : List Char) : Result Value :=
  if digits.all (·.isDigit) then
    if digits.all (· = '0') then
      if negative then .error .unsupportedValue else .ok (decimalValue "0" 0)
    else
      let unscaled := digits.rdropWhile (· = '0')
      let exponent := c.scale + ((digits.length - unscaled.length : Nat) : Int)
      if 32767 < exponent then .error .unsupportedValue
      else
        let coefficient := unscaled.dropWhile (· = '0')
        .ok (decimalValue (if negative then '-' :: coefficient else coefficient) exponent)
  else .error .invalidInput

/-- `Configuration::project`. -/
def Configuration.project (bytes : Bytes) (metadata : Value) : Result Value :=
  if !closed metadata ["format"] || !(string? (metadata.get "format")).isSome then
    .error .invalidInput
  else if metadata.get "format" ≠ .str "packed-bcd-v1" then .error .unsupportedFormat
  else if bytes.length ≠ c.width * 2 then .error .invalidInput
  else do
    let (negative, digits) ← negative c (digits c bytes)
    trimmed c negative digits

end Rust

/-! ## The reference program in C++ -/

namespace Cpp

def configuration (value : Value) : Bool :=
  closed value fields && integer (value.get "registers") 1 4 &&
    integer (value.get "scale") (-32768) 32767 && (boolean? (value.get "signed")).isSome &&
    order (value.get "byte_order") && order (value.get "word_order")

/-- The loops over the registers and over the bytes of a register. -/
def digits (bytes : Bytes) (config : Value) (words : Nat) : List Nat :=
  (range words).flatMap fun logical =>
    let physical := if config.get "word_order" = .str "big" then logical
      else words - logical - 1
    (range 2).flatMap fun part =>
      let offset := if config.get "byte_order" = .str "big" then part else 1 - part
      digitsOf (bytes.getD (physical * 2 + offset) 0)

/-- The sign, with the digits in front of it. -/
def negative (digits : List Nat) (signed : Bool) : Result (Bool × List Nat) :=
  if signed then
    let sign := digits.getLast?.getD 0
    if sign ≠ 12 ∧ sign ≠ 13 then .error .invalidInput else .ok (sign = 13, digits.dropLast)
  else .ok (false, digits)

/-- The loop that accumulates an `int64_t`. -/
def coefficient : List Nat → Int → Result Int
  | [], acc => .ok acc
  | digit :: digits, acc =>
    if 9 < digit then .error .invalidInput else coefficient digits ((acc * 10 + digit).bmod (2 ^ 64))

def projected (bytes : Bytes) (metadata config : Value) : Result Value :=
  if !closed metadata ["format"] || !text (metadata.get "format") 0 256 then
    .error .invalidInput
  else if metadata.get "format" ≠ .str "packed-bcd-v1" then .error .unsupportedFormat
  else
    let words := (int (config.get "registers")).toNat
    if bytes.length ≠ words * 2 then .error .invalidInput
    else do
      let (negative, digits) ← negative (digits bytes config words)
        ((boolean? (config.get "signed")).getD false)
      let coefficient ← coefficient digits 0
      if negative ∧ coefficient = 0 then .error .unsupportedValue
      else
        let scale := int (config.get "scale")
        let (coefficient, exponent) :=
          if coefficient = 0 then (coefficient, 0)
          else strip coefficient.natAbs coefficient scale
        if 32767 < exponent then .error .unsupportedValue
        else
          let coefficient := if negative then -coefficient else coefficient
          .ok (decimalValue (decimal coefficient) exponent)

end Cpp

/-! ## One function of the digits -/

/-- The sign and the digits in front of it. -/
def split (signed : Bool) (digits : List Nat) : Option (Bool × List Nat) :=
  if signed then
    if digits.getLast? = some 12 then some (false, digits.dropLast)
    else if digits.getLast? = some 13 then some (true, digits.dropLast)
    else none
  else some (false, digits)

/-- The decimal of a sign and digits: the digits without the zeros behind, which count in the exponent. -/
def scaled (scale : Int) (negative : Bool) (digits : List Nat) : Result Value :=
  if ∀ d ∈ digits, d ≤ 9 then
    if value digits = 0 then
      if negative then .error .unsupportedValue else .ok (decimalValue "0" 0)
    else
      let body := digits.rdropWhile (· = 0)
      let exponent := scale + ((digits.length - body.length : Nat) : Int)
      if 32767 < exponent then .error .unsupportedValue
      else .ok (decimalValue (decimal (if negative then -(value body : Int) else value body)) exponent)
  else .error .invalidInput

/-- What the digits of an input stand for. -/
def outcome (signed : Bool) (scale : Int) (digits : List Nat) : Result Value :=
  match split signed digits with
  | none => .error .invalidInput
  | some (negative, digits) => scaled scale negative digits

/-- The answer of all three programs: the format, then the width, then the digits. -/
def answer (bytes : Bytes) (metadata value : Value) : Result Value := do
  format metadata
  if (bytes.length : Int) = int (value.get "registers") * 2 then
    outcome ((boolean? (value.get "signed")).getD false) (int (value.get "scale"))
      (nibbles bytes value)
  else .error .invalidInput

theorem split_cases {signed : Bool} {digits : List Nat} {p : Bool × List Nat}
    (h : split signed digits = some p) :
    (signed = false ∧ p = (false, digits) ∨ signed = true ∧ digits = p.2 ++ [if p.1 then 13 else 12])
      ∧ p.2.length ≤ digits.length := by
  unfold split at h
  split_ifs at h with hs h12 h13
  all_goals cases h
  · exact ⟨.inr ⟨hs, (dropLast_append_getLast? 12 h12).symm⟩, by simp⟩
  · exact ⟨.inr ⟨hs, (dropLast_append_getLast? 13 h13).symm⟩, by simp⟩
  · exact ⟨.inl ⟨by simpa using hs, rfl⟩, Nat.le_refl _⟩

theorem coefficient_eq (ds : List Nat) (acc : Nat) : coefficient ds acc =
    if ∀ d ∈ ds, d ≤ 9 then .ok (ds.foldl (fun acc d => acc * 10 + d) acc) else .error .invalidInput := by
  induction ds generalizing acc with
  | nil => rfl
  | cons d ds ih =>
    rw [coefficient, ih]
    by_cases hd : d ≤ 9 <;> simp [hd]

theorem normalized_eq {c : Int} (hc : ¬ 10 ∣ c) (k : Nat) (e : Int) {fuel : Nat} (hfuel : k < fuel) :
    normalized fuel (c * 10 ^ k) e = if -32768 ≤ e + k ∧ e + k ≤ 32767 then
      .ok (decimalValue (decimal c) (e + k)) else .error .unsupportedValue := by
  have hne : c ≠ 0 := fun h => hc (h ▸ dvd_zero _)
  induction k generalizing e fuel with
  | zero =>
    obtain ⟨fuel, rfl⟩ : ∃ m, fuel = m + 1 := ⟨fuel - 1, by omega⟩
    have hmod : c.tmod 10 ≠ 0 := fun h => hc (Int.dvd_of_tmod_eq_zero h)
    simp [normalized, hne, hmod]
  | succ k ih =>
    obtain ⟨fuel, rfl⟩ : ∃ m, fuel = m + 1 := ⟨fuel - 1, by omega⟩
    have hmul : c * 10 ^ (k + 1) = c * 10 ^ k * 10 := by ring
    have hnz : c * 10 ^ k * 10 ≠ 0 := by positivity
    rw [normalized, hmul, if_neg hnz, Int.mul_tmod_left, if_pos rfl, Int.mul_tdiv_cancel _ (by decide),
      ih _ (by omega)]
    rw [show e + 1 + (k : Int) = e + ((k + 1 : Nat) : Int) by push_cast; ring]

variable {ds : List Nat}

theorem value_body (h : ∀ d ∈ ds, d ≤ 9) (hne : value ds ≠ 0) :
    ∃ (c : Nat) (k : Nat), c = value (ds.rdropWhile (· = 0)) ∧
      k = ds.length - (ds.rdropWhile (· = 0)).length ∧ value ds = c * 10 ^ k ∧ ¬ (10 : Int) ∣ c := by
  refine ⟨_, _, rfl, rfl, value_rdropWhile ds, fun hdvd => ?_⟩
  exact not_dvd_value_rdropWhile h hne (by exact_mod_cast hdvd)

theorem decode_scaled {scale sign : Int} (hs : -32768 ≤ scale) {negative : Bool}
    (hsign : sign = if negative then -1 else 1) (ds : List Nat) :
    (do
      let c ← coefficient ds 0
      if c ≠ 0 ∨ sign = 1 then normalized (c * sign).natAbs (c * sign) scale
      else .error .unsupportedValue) = scaled scale negative ds := by
  rw [coefficient_eq, scaled]
  by_cases hall : ∀ d ∈ ds, d ≤ 9
  · rw [if_pos hall, if_pos hall, show ds.foldl (fun acc d => acc * 10 + d) 0 = value ds from rfl]
    show (if value ds ≠ 0 ∨ _ then _ else _) = _
    by_cases hz : value ds = 0
    · rw [hz]
      cases negative <;> simp [hsign, normalized]
    · obtain ⟨c, k, hc, hk, hvalue, hdvd⟩ := value_body hall hz
      have hdvd' : ¬ 10 ∣ (c : Int) * sign := by
        cases negative <;> simpa [hsign] using hdvd
      have hmul : (value ds : Int) * sign = c * sign * 10 ^ k := by
        rw [hvalue]
        push_cast
        ring
      have hfuel := lt_natAbs_mul_pow (c := c * sign) (fun h => hdvd' (h ▸ dvd_zero _)) k
      rw [if_pos (Or.inl hz), if_neg hz, hmul, normalized_eq hdvd' k scale hfuel]
      dsimp only
      rw [← hc, ← hk]
      by_cases he : 32767 < scale + (k : Int)
      · rw [if_pos he, if_neg (by omega)]
      · rw [if_neg he, if_pos (by omega)]
        cases negative <;> simp [hsign]
  · rw [if_neg hall, if_neg hall]
    rfl

theorem sign_eq (signed : Bool) (digits : List Nat) : sign digits signed = match split signed digits with
    | none => .error .invalidInput
    | some (negative, ds) => .ok (ds, if negative then -1 else 1) := by
  unfold sign split
  cases signed with
  | false => rfl
  | true =>
    by_cases h12 : digits.getLast? = some 12
    · simp [h12]
    · by_cases h13 : digits.getLast? = some 13 <;> simp [h12, h13]

/-! ## The metadata and the configuration -/

variable {value metadata : Value}

theorem closed_format : closed metadata ["format"] = true ↔ ∃ v, metadata = .obj [("format", v)] := by
  constructor
  · intro h
    unfold closed at h
    split at h
    · simp only [Bool.and_eq_true, decide_eq_true_eq] at h
      obtain ⟨m, rfl⟩ := length_eq_one_iff.mp h.1
      obtain ⟨key, v⟩ := m
      obtain rfl : key = "format" := by simpa using h.2
      exact ⟨v, rfl⟩
    · cases h
  · rintro ⟨v, rfl⟩
    simp [closed]

theorem format_cases (h : flat metadata = true) :
    (∃ s, metadata = .obj [("format", .str s)] ∧ s.bytes ≤ 256) ∨
      format metadata = .error .invalidInput ∧
        (closed metadata ["format"] = false ∨ ∀ s, metadata.get "format" ≠ .str s) := by
  by_cases hc : closed metadata ["format"] = true
  · obtain ⟨v, rfl⟩ := closed_format.mp hc
    cases v with
    | str s =>
      refine Or.inl ⟨s, rfl, ?_⟩
      simp [flat, boolean?, integer, text] at h
      exact h.1.2
    | null | bool | num | arr | obj => exact Or.inr ⟨rfl, Or.inr fun s => by simp [Value.get, Value.member]⟩
  · refine Or.inr ⟨?_, Or.inl (by simpa using hc)⟩
    unfold format
    split
    · rename_i key format
      rw [if_neg fun hkey => hc (closed_format.mpr ⟨.str format, by rw [hkey.1]⟩)]
    · rfl

/-- What a configuration holds. -/
structure Admitted (value : Value) : Prop where
  closed : closed value fields = true
  registers : ∃ n : Nat, value.get "registers" = .num (.int n) ∧ 1 ≤ n ∧ n ≤ 4
  byteOrder : order (value.get "byte_order") = true
  wordOrder : order (value.get "word_order") = true
  scale : ∃ i : Int, value.get "scale" = .num (.int i) ∧ -32768 ≤ i ∧ i ≤ 32767
  signed : ∃ b, value.get "signed" = .bool b

theorem integer_iff {low high : Int} :
    integer value low high = true ↔ ∃ i, value = .num (.int i) ∧ low ≤ i ∧ i ≤ high := by
  unfold integer
  split
  · simp
  · rename_i h
    simp only [Bool.false_eq_true, false_iff, not_exists, not_and]
    exact fun i hi => absurd hi (h i)

theorem boolean_isSome : (boolean? value).isSome = true ↔ ∃ b, value = .bool b := by
  unfold boolean?
  split
  · simp
  · rename_i h
    simp only [Option.isSome_none, Bool.false_eq_true, false_iff, not_exists]
    exact fun b hb => h b hb

theorem admitted_of_configuration (h : configuration value = true) : Admitted value := by
  simp only [configuration, Bool.and_eq_true, integer_iff, boolean_isSome] at h
  obtain ⟨⟨⟨⟨⟨hclosed, i, hi, hlow, hhigh⟩, hb⟩, hw⟩, hs⟩, hsigned⟩ := h
  exact ⟨hclosed, ⟨i.toNat, by rw [hi, Int.toNat_of_nonneg (by omega)], by omega, by omega⟩, hb, hw, hs,
    hsigned⟩

/-- The checks of the two reference programs in front of the digits. They differ in how they test the text
of the format (`known`), and agree with the decoder whatever `body` makes of an input of the right length. -/
theorem answer_eq (h : Admitted value) (hm : flat metadata = true) (bytes : Bytes) {known : Bool}
    {body : Result Value}
    (hknown : ∀ s, metadata.get (ascii "format") = .str s → s.bytes ≤ 256 → known = true)
    (hunknown : (∀ s, metadata.get (ascii "format") ≠ .str s) → known = false)
    (hbody : bytes.length = (int (value.get (ascii "registers"))).toNat * 2 →
      body = outcome ((boolean? (value.get (ascii "signed"))).getD false) (int (value.get (ascii "scale")))
        (nibbles bytes value)) :
    (if !closed metadata [ascii "format"] || !known then .error .invalidInput
      else if metadata.get (ascii "format") ≠ .str (ascii "packed-bcd-v1") then .error .unsupportedFormat
      else if bytes.length ≠ (int (value.get (ascii "registers"))).toNat * 2 then .error .invalidInput
      else body) = answer bytes metadata value := by
  obtain ⟨n, hn, -, -⟩ := h.registers
  rw [hn] at hbody ⊢
  rcases format_cases hm with ⟨s, rfl, hs⟩ | ⟨hf, hrefused⟩
  · have hget : Value.get (ascii "format") (.obj [(ascii "format", .str s)]) = .str s := by
      simp [Value.get, Value.member]
    have hwidth : (bytes.length : Int) = int (.num (.int n)) * 2 ↔
        bytes.length = (int (.num (.int n))).toNat * 2 := by
      simp only [int]
      omega
    have hkey : ascii "format" = ascii "format" ∧ s.bytes ≤ 256 := ⟨rfl, hs⟩
    rw [if_neg (by rw [closed_format.mpr ⟨_, rfl⟩, hknown s hget hs]; decide), hget, answer, format,
      if_pos hkey, hn]
    by_cases hformat : s = ascii "packed-bcd-v1"
    · rw [if_neg (by simp [hformat]), if_pos hformat]
      by_cases hlen : bytes.length = (int (.num (.int n))).toNat * 2
      · rw [if_neg (not_not.mpr hlen), hbody hlen]
        exact (if_pos (hwidth.mpr hlen)).symm
      · rw [if_pos hlen]
        exact (if_neg (mt hwidth.mp hlen)).symm
    · rw [if_pos (by simp [hformat]), if_neg hformat]
      rfl
  · rw [answer, hf, if_pos]
    · rfl
    · rcases hrefused with hclosed | hstring
      · simp [hclosed]
      · simp [hunknown hstring]

theorem decode_eq (hc : configuration value = true) (bytes : Bytes) (metadata : Value) :
    decode bytes metadata value = answer bytes metadata value := by
  have hscale : -32768 ≤ int (value.get "scale") := by
    obtain ⟨i, hi, hlow, -⟩ := (admitted_of_configuration hc).scale
    rw [hi]
    exact hlow
  unfold decode answer
  rw [if_pos hc]
  cases hf : format metadata with
  | error e => rfl
  | ok u =>
    by_cases hlen : (bytes.length : Int) = int (value.get "registers") * 2
    · simp only [if_pos hlen, sign_eq, outcome]
      cases split ((boolean? (value.get "signed")).getD false) (nibbles bytes value) with
      | none => rfl
      | some p => exact decode_scaled hscale rfl p.2
    · simp [bind, Except.bind, if_neg hlen]

/-! ## The program in Rust -/

namespace Rust

theorem digitChar_spec (d : Nat) : (d.digitChar = '0' ↔ d = 0) ∧ (d.digitChar = 'c' ↔ d = 12) ∧
    (d.digitChar = 'd' ↔ d = 13) := by
  have small : ∀ d < 16, (Nat.digitChar d = '0' ↔ d = 0) ∧ (Nat.digitChar d = 'c' ↔ d = 12) ∧
      (Nat.digitChar d = 'd' ↔ d = 13) := by decide
  by_cases hd : d < 16
  · exact small d hd
  · have hstar : d.digitChar = '*' := by
      unfold Nat.digitChar
      repeat rw [if_neg (by omega)]
    have hno : ∀ {c : Char} {n : Nat}, '*' ≠ c → n < 16 → ('*' = c ↔ d = n) := fun hc hn =>
      ⟨fun h => absurd h hc, fun h => by omega⟩
    rw [hstar]
    exact ⟨hno (by decide) (by decide), hno (by decide) (by decide), hno (by decide) (by decide)⟩

theorem zero_comp_digitChar : (fun c : Char => decide (c = '0')) ∘ Nat.digitChar = fun d => decide (d = 0) :=
  funext fun d => by simp

theorem rdropWhile_digitChar (ds : List Nat) :
    (ds.map Nat.digitChar).rdropWhile (· = '0') = (ds.rdropWhile (· = 0)).map Nat.digitChar := by
  rw [rdropWhile, ← map_reverse, dropWhile_map, zero_comp_digitChar, ← map_reverse]
  rfl

theorem decimal_neg {n : Nat} (h : n ≠ 0) : decimal (-(n : Int)) = '-' :: Nat.toDigits 10 n := by
  obtain ⟨m, rfl⟩ := Nat.exists_eq_succ_of_ne_zero h
  rfl

theorem dropWhile_digitChar (h : ∀ d ∈ ds, d ≤ 9) (hne : Digits.value ds ≠ 0) :
    (ds.map Nat.digitChar).dropWhile (· = '0') = Nat.toDigits 10 (Digits.value ds) := by
  rw [dropWhile_map, zero_comp_digitChar, ← value_dropWhile_zero]
  rw [← value_dropWhile_zero] at hne
  cases hd : ds.dropWhile fun d => decide (d = 0) with
  | nil =>
    rw [hd] at hne
    exact absurd rfl hne
  | cons d rest =>
    have hnz : d ≠ 0 := by
      have := head_dropWhile_not (fun d : Nat => decide (d = 0)) (l := ds) (by rw [hd]; simp)
      simpa [hd] using this
    refine (toDigits_value (fun x hx => h x ?_) rfl hnz).symm
    exact (dropWhile_suffix _).subset (hd ▸ hx)

theorem trimmed_eq (c : Configuration) (negative : Bool) (ds : List Nat) :
    trimmed c negative (ds.map Nat.digitChar) = scaled c.scale negative ds := by
  have hdigits : ((ds.map Nat.digitChar).all (·.isDigit) = true) = ∀ d ∈ ds, d ≤ 9 := by
    simp [Nat.lt_succ_iff]
  have hzeros : ((ds.map Nat.digitChar).all (· = '0') = true) = (value ds = 0) := by
    rw [value_eq_zero_iff]
    simp
  unfold trimmed scaled
  simp only [hdigits, hzeros]
  split
  · rename_i hall
    split
    · rfl
    · rename_i hz
      rw [rdropWhile_digitChar, length_map, length_map]
      split
      · rfl
      · obtain ⟨c, k, hc, -, hvalue, -⟩ := value_body hall hz
        have hbody : ∀ d ∈ ds.rdropWhile (· = 0), d ≤ 9 := fun d hd =>
          hall d (( rdropWhile_prefix _ _).subset hd)
        have hne : value (ds.rdropWhile (· = 0)) ≠ 0 := by
          intro h
          rw [hvalue, hc, h, Nat.zero_mul] at hz
          exact hz rfl
        rw [dropWhile_digitChar hbody hne]
        cases negative with
        | false => rfl
        | true => rw [if_pos rfl, if_pos rfl, decimal_neg hne]
  · rfl

theorem negative_eq (c : Configuration) (ds : List Nat) :
    negative c (ds.map Nat.digitChar) = match split c.signed ds with
      | none => .error .invalidInput
      | some (negative, ds) => .ok (negative, ds.map Nat.digitChar) := by
  unfold negative split
  cases c.signed with
  | false => rfl
  | true =>
    rw [if_pos rfl, if_pos rfl, getLast?_map, ← map_dropLast]
    cases hlast : ds.getLast? with
    | none => rfl
    | some d =>
      obtain ⟨-, hc, hd⟩ := digitChar_spec d
      rw [Option.map_some]
      split
      · rename_i h
        obtain rfl := hc.mp (Option.some.inj h)
        rfl
      · rename_i h
        obtain rfl := hd.mp (Option.some.inj h)
        rfl
      · rename_i h12 h13
        rw [if_neg fun h => h12 (by rw [hc.mpr (Option.some.inj h)]),
          if_neg fun h => h13 (by rw [hd.mpr (Option.some.inj h)])]

theorem digits_eq {c : Configuration}
    (hb : c.reverseBytes = !decide (value.get "byte_order" = .str "big"))
    (hw : c.reverseWords = !decide (value.get "word_order" = .str "big")) (bytes : Bytes) :
    digits c bytes = (nibbles bytes value).map Nat.digitChar := by
  have hhex : hex = fun b => (digitsOf b).map Nat.digitChar := rfl
  unfold digits nibbles
  rw [hb, hw, hhex]
  rw [map_flatMap]
  by_cases hB : value.get "byte_order" = .str "big" <;>
    by_cases hW : value.get "word_order" = .str "big" <;> simp

theorem new_eq (h : Admitted value) : Configuration.new value = some
    ⟨(int (value.get "registers")).toNat,
      !decide (value.get "byte_order" = .str "big"),
      !decide (value.get "word_order" = .str "big"),
      (boolean? (value.get "signed")).getD false, int (value.get "scale")⟩ := by
  have horder : ∀ v, RegisterCodec.order v = true → order? v = some (!decide (v = .str "big")) := by
    intro v hv
    unfold order?
    by_cases hbig : v = .str "big"
    · rw [if_pos hbig, decide_eq_true hbig]
      rfl
    · have hlittle : v = .str "little" := by
        simpa [RegisterCodec.order, hbig] using hv
      rw [if_neg hbig, if_pos hlittle, decide_eq_false hbig]
      rfl
  obtain ⟨n, hn, hlow, hhigh⟩ := h.registers
  obtain ⟨b, hb⟩ := h.signed
  have hregisters : integer (value.get "registers") 1 4 = true :=
    integer_iff.mpr ⟨n, hn, by omega, by omega⟩
  have hscale : integer (value.get "scale") (-32768) 32767 = true := integer_iff.mpr h.scale
  unfold Configuration.new
  rw [if_neg (by simp [h.closed, hregisters, hscale]), horder _ h.byteOrder, horder _ h.wordOrder, hb]
  rfl

theorem project_eq (h : Admitted value) (hm : flat metadata = true) (bytes : Bytes) :
    ∃ c, Configuration.new value = some c ∧ c.project bytes metadata = answer bytes metadata value := by
  refine ⟨_, new_eq h, answer_eq h hm bytes ?_ ?_ fun hlen => ?_⟩
  · intro s hs _
    rw [hs]
    rfl
  · intro hstring
    unfold string?
    split
    · rename_i s hs
      exact absurd hs (hstring s)
    · rfl
  · rw [digits_eq rfl rfl, negative_eq, outcome]
    cases split ((boolean? (value.get "signed")).getD false) (nibbles bytes value) with
    | none => rfl
    | some p => exact trimmed_eq _ p.1 p.2

end Rust

/-! ## The program in C++ -/

namespace Cpp

theorem words_eq {n : Nat} {bytes : Bytes} (h : bytes.length = n * 2) :
    words bytes = (range n).map fun k => (bytes.getD (k * 2) 0, bytes.getD (k * 2 + 1) 0) := by
  induction n generalizing bytes with
  | zero =>
    obtain rfl : bytes = [] := length_eq_zero_iff.mp (by omega)
    rfl
  | succ n ih =>
    match bytes, h with
    | a :: b :: rest, h =>
      have hrest : rest.length = n * 2 := by
        simp only [length_cons] at h
        omega
      rw [words, ih hrest, range_succ_eq_map, map_cons, map_map]
      refine congrArg₂ _ rfl (map_congr_left fun k _ => ?_)
      rw [Function.comp_apply, show (k + 1) * 2 = k * 2 + 1 + 1 by omega]
      rfl
    | [_], h => simp at h; omega
    | [], h => simp at h

theorem map_range_reverse {α : Type} (f : Nat → α) (n : Nat) :
    (range n).map (fun k => f (n - k - 1)) = ((range n).map f).reverse := by
  refine ext_getElem (by simp) fun k hk _ => ?_
  simp only [getElem_map, getElem_range, getElem_reverse, length_map, length_range]
  congr 1
  omega

theorem digits_eq {n : Nat} {bytes : Bytes} (h : bytes.length = n * 2) (value : Value) :
    digits bytes value n = nibbles bytes value := by
  unfold digits nibbles
  rw [words_eq h]
  by_cases hB : value.get "byte_order" = .str "big" <;>
    by_cases hW : value.get "word_order" = .str "big" <;>
    simp [hB, hW, range_succ, ← map_range_reverse, ← flatMap_def, flatMap_assoc]

theorem length_digits (bytes : Bytes) (value : Value) (n : Nat) : (digits bytes value n).length = n * 4 := by
  simp [digits, digitsOf]

theorem negative_eq (signed : Bool) (ds : List Nat) : negative ds signed = match split signed ds with
    | none => .error .invalidInput
    | some p => .ok p := by
  unfold negative split
  cases signed with
  | false => rfl
  | true =>
    cases hlast : ds.getLast? with
    | none => rfl
    | some d =>
      by_cases h12 : d = 12
      · simp [h12]
      · by_cases h13 : d = 13 <;> simp [h12, h13]

theorem coefficient_eq {acc : Nat} (h : (acc + 1) * 10 ^ ds.length ≤ 2 ^ 63) :
    coefficient ds acc = if ∀ d ∈ ds, d ≤ 9 then .ok ((ds.foldl (fun acc d => acc * 10 + d) acc : Nat) : Int)
      else .error .invalidInput := by
  induction ds generalizing acc with
  | nil => rfl
  | cons d ds ih =>
    rw [coefficient]
    by_cases hd : 9 < d
    · rw [if_pos hd, if_neg fun hall => by have := hall d mem_cons_self; omega]
    · have hpow : 1 ≤ 10 ^ ds.length := Nat.one_le_pow _ _ (by decide)
      have hbound : (acc * 10 + d + 1) * 10 ^ ds.length ≤ 2 ^ 63 := by
        refine le_trans (Nat.mul_le_mul_right _ (by omega : acc * 10 + d + 1 ≤ (acc + 1) * 10)) ?_
        calc (acc + 1) * 10 * 10 ^ ds.length = (acc + 1) * (10 ^ ds.length * 10) := by ring
          _ ≤ 2 ^ 63 := h
      have hsmall : acc * 10 + d < 2 ^ 63 := by nlinarith
      have hwrap : ((acc : Int) * 10 + d).bmod (2 ^ 64) = ((acc * 10 + d : Nat) : Int) := by
        exact Int.bmod_eq_of_le (by omega) (by omega)
      rw [hwrap, ih hbound]
      have hd' : d ≤ 9 := by omega
      simp [hd']

theorem projected_scaled (scale : Int) (negative : Bool) (h : ds.length ≤ 16) :
    (do
      let coefficient ← coefficient ds 0
      if negative ∧ coefficient = 0 then .error .unsupportedValue
      else
        let (coefficient, exponent) :=
          if coefficient = 0 then (coefficient, 0)
          else strip coefficient.natAbs coefficient scale
        if 32767 < exponent then .error .unsupportedValue
        else
          let coefficient := if negative then -coefficient else coefficient
          .ok (decimalValue (decimal coefficient) exponent)) = scaled scale negative ds := by
  have hbound : (0 + 1) * 10 ^ ds.length ≤ 2 ^ 63 := by
    have : 10 ^ ds.length ≤ 10 ^ 16 := Nat.pow_le_pow_right (by decide) h
    omega
  have hcoefficient := @coefficient_eq ds 0 hbound
  rw [Nat.cast_zero] at hcoefficient
  rw [hcoefficient, scaled]
  by_cases hall : ∀ d ∈ ds, d ≤ 9
  · rw [if_pos hall, if_pos hall, show ds.foldl (fun acc d => acc * 10 + d) 0 = value ds from rfl]
    by_cases hz : value ds = 0
    · rw [hz]
      cases negative <;> rfl
    · obtain ⟨c, k, hc, hk, hvalue, hdvd⟩ := value_body hall hz
      have hc0 : (c : Int) ≠ 0 := fun h => hdvd (h ▸ dvd_zero _)
      have hfuel := lt_natAbs_mul_pow hc0 k
      have hcast : (value ds : Int) = c * 10 ^ k := by
        rw [hvalue]
        push_cast
        rfl
      have hne : (value ds : Int) ≠ 0 := by exact_mod_cast hz
      simp only [bind, Except.bind]
      rw [if_neg (fun hn => hne hn.2), if_neg hne, if_neg hz, hcast, strip_mul_pow hdvd k scale hfuel.le]
      rw [← hc, ← hk]
  · rw [if_neg hall, if_neg hall]
    rfl

theorem configuration_eq (h : RegisterCodec.configuration value = true) : configuration value = true := by
  simp only [RegisterCodec.configuration, Bool.and_eq_true] at h
  simp only [configuration, Bool.and_eq_true]
  tauto

theorem projected_eq (h : Admitted value) (hm : flat metadata = true) (bytes : Bytes) :
    projected bytes metadata value = answer bytes metadata value := by
  refine answer_eq h hm bytes ?_ ?_ fun hlen => ?_
  · intro s hs hle
    simp [hs, text, hle]
  · intro hstring
    unfold text
    split
    · rename_i s hs
      exact absurd hs (hstring s)
    · rfl
  · obtain ⟨n, hn, hlow, hhigh⟩ := h.registers
    rw [digits_eq hlen, negative_eq, outcome]
    cases hsplit : split ((boolean? (value.get "signed")).getD false) (nibbles bytes value) with
    | none => rfl
    | some p =>
      refine projected_scaled _ p.1 ((split_cases hsplit).2.trans ?_)
      rw [← digits_eq hlen, length_digits, hn]
      simp only [int]
      omega

end Cpp

/-! ## What the result denotes -/

/-- Packed BCD: digits by their position, or digits with a sign behind them. -/
inductive Packed : Bool → List Nat → Int → Prop where
  | unsigned {ds : List Nat} (h : ∀ d ∈ ds, d ≤ 9) : Packed false ds (Nat.ofDigits 10 ds.reverse : Nat)
  | positive {ds : List Nat} (h : ∀ d ∈ ds, d ≤ 9) : Packed true (ds ++ [12]) (Nat.ofDigits 10 ds.reverse : Nat)
  | negative {ds : List Nat} (h : ∀ d ∈ ds, d ≤ 9) :
      Packed true (ds ++ [13]) (-(Nat.ofDigits 10 ds.reverse : Nat))

/-- A decimal value in normal form, with the number it denotes. -/
def Denotes (result : Value) (q : ℚ) : Prop :=
  ∃ c e : Int, result = decimalValue (decimal c) e ∧ q = c * 10 ^ e ∧ (c = 0 ∧ e = 0 ∨ ¬ 10 ∣ c)

theorem scaled_denotes {scale : Int} {negative : Bool} {result : Value}
    (h : scaled scale negative ds = .ok result) : (∀ d ∈ ds, d ≤ 9) ∧
      Denotes result ((if negative then -(Digits.value ds : ℚ) else Digits.value ds) * 10 ^ scale) := by
  revert h
  fun_cases scaled scale negative ds
  case case2 hall hz _ =>
    rintro ⟨⟩
    exact ⟨hall, 0, 0, rfl, by simp [hz], Or.inl ⟨rfl, rfl⟩⟩
  case case4 hall hz body exponent _ =>
    rintro ⟨⟩
    unfold exponent body
    obtain ⟨c, k, hc, hk, hvalue, hdvd⟩ := value_body hall hz
    rw [← hc, ← hk, hvalue]
    refine ⟨hall, _, _, rfl, ?_, Or.inr ?_⟩
    · rw [zpow_add₀ (by norm_num)]
      cases negative <;> simp <;> ring
    · cases negative <;> simpa using hdvd
  all_goals nofun

theorem outcome_denotes {signed : Bool} {scale : Int} {digits : List Nat} {result : Value}
    (h : outcome signed scale digits = .ok result) :
    ∃ n : Int, Packed signed digits n ∧ Denotes result (n * 10 ^ scale) := by
  unfold outcome at h
  split at h
  · cases h
  · rename_i negative ds hsplit
    obtain ⟨hall, hdenotes⟩ := scaled_denotes h
    rw [Digits.value_eq_ofDigits] at hdenotes
    obtain ⟨⟨rfl, hp⟩ | ⟨rfl, rfl⟩, -⟩ := split_cases hsplit
    · cases hp
      exact ⟨_, .unsigned hall, by simpa using hdenotes⟩
    · cases negative with
      | false => exact ⟨_, .positive hall, by simpa using hdenotes⟩
      | true => exact ⟨_, .negative hall, by simpa using hdenotes⟩

/-- **The three decoders agree**, for every configuration, every input and flat metadata; and a result denotes
the packed number times the scale, in normal form. -/
theorem decoders_agree {value metadata : Value} (hc : configuration value = true) (hm : flat metadata = true)
    (bytes : Bytes) :
    (∃ c, Rust.Configuration.new value = some c ∧ c.project bytes metadata = decode bytes metadata value) ∧
    (Cpp.configuration value = true ∧ Cpp.projected bytes metadata value = decode bytes metadata value) ∧
    ∀ result, decode bytes metadata value = .ok result →
      ∃ n : Int, Packed ((boolean? (value.get "signed")).getD false) (nibbles bytes value) n ∧
        Denotes result (n * 10 ^ int (value.get "scale")) := by
  have admitted := admitted_of_configuration hc
  rw [decode_eq hc]
  refine ⟨Rust.project_eq admitted hm bytes, ⟨Cpp.configuration_eq hc, Cpp.projected_eq admitted hm bytes⟩,
    fun result h => ?_⟩
  unfold answer at h
  cases hf : format metadata with
  | error e =>
    rw [hf] at h
    cases h
  | ok u =>
    rw [hf] at h
    split at h
    · exact outcome_denotes h
    · cases h

theorem meter_decoded :
    (let value : Value := .obj [("byte_order", .str "big"), ("registers", .num (.int 2)),
      ("scale", .num (.int (-3))), ("signed", .bool true), ("word_order", .str "little")]
     let metadata : Value := .obj [("format", .str "packed-bcd-v1")]
     let bytes : Bytes := [0x50, 0x0D, 0x01, 0x23]
     decode bytes metadata value = .ok (decimalValue "-1235" (-1)) ∧
      Cpp.projected bytes metadata value = decode bytes metadata value) := by
  intro value metadata bytes
  have agree := @decoders_agree value metadata (by decide +kernel) (by decide +kernel) bytes
  exact ⟨by decide +kernel, agree.2.1.2⟩

end Wotex.Modbus.RegisterCodec
