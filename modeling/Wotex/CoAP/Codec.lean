import Wotex.CoAP.Message
import Wotex.Term.Sorting

/-!
# The datagram codec (`codec.ex`)

A datagram is a header of four bytes, the token, the options in increasing order and the payload
behind its marker. Option numbers are written as differences and, like the lengths of the values, in
a nibble with two escapes.

* `correspondence`: a datagram that decodes is the encoding of its message, and the encoding of a
  message decodes to the message with its options stably sorted.
-/

namespace Wotex.CoAP

open List

/-- `@types`. -/
def MessageType.number : MessageType → Nat
  | con => 0
  | non => 1
  | ack => 2
  | rst => 3

/-- `@reverse`, on two bits. -/
def MessageType.ofNumber : Nat → MessageType
  | 0 => con
  | 1 => non
  | 2 => ack
  | _ => rst

namespace Codec

/-- `@maximum`. -/
def maximum : Nat := 1152

/-- `@single`. -/
def single : List Int := [3, 6, 7, 12, 14, 17, 23, 27, 28, 35, 39, 60]

/-- `@known`. -/
def known : List Int := [1, 3, 4, 5, 6, 7, 8, 11, 12, 14, 15, 17, 20, 23, 27, 28, 35, 39, 60]

/-- `@lengths`. -/
def lengths : List (Int × Nat × Nat) :=
  [(1, 0, 8), (3, 1, 255), (4, 1, 8), (5, 0, 0), (6, 0, 3), (7, 0, 2), (8, 0, 255), (11, 0, 255),
    (12, 0, 2), (14, 0, 4), (15, 0, 255), (17, 0, 2), (20, 0, 255), (23, 0, 3), (27, 0, 3), (28, 0, 4),
    (35, 1, 1034), (39, 1, 255), (60, 0, 4), (292, 0, 8)]

/-! ## Validity -/

variable (m : Message)

/-- `valid_header/1`; the type is one of the four. -/
def validHeader : Result Unit := do
  check (decide (0 ≤ m.code ∧ m.code ≤ 255)) .invalidCode
  check (decide (0 ≤ m.messageId ∧ m.messageId ≤ 65535)) .invalidMessageId
  check (decide (m.token.length ≤ 8)) .invalidToken

def validOption (entry : Int × Bytes) : Bool :=
  decide (0 ≤ entry.1 ∧ entry.1 ≤ 65535 ∧ entry.2.length ≤ maximum)

def optionsShape : List (Int × Bytes) → Nat → Result Unit
  | [], _ => .ok ()
  | entry :: rest, left + 1 =>
    if validOption entry then optionsShape rest left else failure .invalidOption
  | _ :: _, 0 => failure .optionLimit

def valid : Result Unit := do
  validHeader m
  optionsShape m.options 64
  check (!(decide (m.code = 0)
    && (!m.token.isEmpty || !m.options.isEmpty || !m.payload.isEmpty))) .invalidEmptyMessage
  check (!(decide (m.type = .rst) && decide (m.code ≠ 0))) .invalidReset

/-- The value has a length that the table refuses. -/
def wrongLength (entry : Int × Bytes) : Bool :=
  lengths.any fun (number, low, high) =>
    decide (number = entry.1 ∧ ¬ (low ≤ entry.2.length ∧ entry.2.length ≤ high))

variable (options : List (Int × Bytes))

def semantics : Result Unit := do
  check (!options.any fun e => decide (e.1 % 2 = 1 ∧ e.1 ∉ known)) .unsupportedCriticalOption
  check (!single.any fun number => decide (1 < options.countP fun e => e.1 = number)) .duplicateOption
  check (!options.any wrongLength) .invalidOptionLength

def validateOptions : Result Unit := do
  valid m
  semantics m.options

def option (number : Int) : List Bytes :=
  (m.options.filter fun e => e.1 = number).map Prod.snd

/-! ## Encoding -/

/-- `extended/1`: the nibble and the bytes behind it. -/
def extended (n : Nat) : Nat × Bytes :=
  if n < 13 then (n, [])
  else if n < 269 then (13, [byte (n - 13)])
  else (14, word (n - 269))

/-- One option behind the number of the previous one. -/
def encodeOption (previous : Int) (entry : Int × Bytes) : Bytes :=
  let delta := extended (entry.1 - previous).toNat
  let length := extended entry.2.length
  byte (delta.1 * 16 + length.1) :: (delta.2 ++ length.2 ++ entry.2)

/-- `encode_options/3`, which never fails. -/
def encodeOptions : List (Int × Bytes) → Int → Bytes
  | [], _ => []
  | entry :: tail, previous => encodeOption previous entry ++ encodeOptions tail entry.1

/-- The payload behind its marker. -/
def encodePayload (payload : Bytes) : Bytes := if payload = [] then [] else 255 :: payload

/-- The first four bytes. -/
def header : Bytes :=
  byte (64 + m.type.number * 16 + m.token.length) :: byte m.code.toNat :: word m.messageId.toNat

/-- `Enum.sort_by(options, &elem(&1, 0))`. -/
def sortOptions : List (Int × Bytes) := sortBy Prod.fst options

def encode : Result Bytes := do
  valid m
  let data := header m ++ m.token ++ encodeOptions (sortOptions m.options) 0 ++ encodePayload m.payload
  if data.length ≤ maximum then .ok data else failure .messageTooLarge

/-! ## Decoding -/

/-- `codec.ex:226-229`. -/
def expand (n : Nat) (rest : Bytes) : Result (Nat × Bytes) :=
  if n < 13 then .ok (n, rest)
  else
    match n, rest with
    | 13, extra :: rest => .ok (extra.toNat + 13, rest)
    | 14, high :: low :: rest => .ok (high.toNat * 256 + low.toNat + 269, rest)
    | _, _ => failure .invalidOption

/-- `decode_options/4`, over the number of options that may still follow. -/
def decodeOptions : Nat → Bytes → Int → Result (List (Int × Bytes) × Bytes)
  | _, [], _ => .ok ([], [])
  | left, first :: rest, previous =>
    if first = 255 then
      if rest = [] then failure .emptyPayloadMarker else .ok ([], rest)
    else
      match left with
      | 0 => failure .optionLimit
      | left + 1 => do
        let (delta, rest) ← expand (first.toNat / 16) rest
        let (size, rest) ← expand (first.toNat % 16) rest
        if size ≤ rest.length ∧ previous + delta ≤ 65535 then
          let (options, payload) ← decodeOptions left (rest.drop size) (previous + delta)
          .ok ((previous + delta, rest.take size) :: options, payload)
        else failure .invalidOption

/-- `codec.ex:76-95`. -/
def decode (data : Bytes) : Result Message :=
  if maximum < data.length then failure .messageTooLarge
  else
    match data with
    | first :: code :: high :: low :: rest =>
      let size := first.toNat % 16
      if first.toNat / 64 = 1 ∧ size ≤ 8 ∧ size ≤ rest.length then do
        let (options, payload) ← decodeOptions 64 (rest.drop size) 0
        let m : Message := ⟨.ofNumber (first.toNat / 16 % 4), code.toNat, high.toNat * 256 + low.toNat,
          rest.take size, options, payload⟩
        valid m
        .ok m
      else failure .invalidHeader
    | _ => failure .invalidHeader

/-! ## What the checks establish -/

variable {left : Nat}

variable {options : List (Int × Bytes)}

theorem optionsShape_eq_ok {u : Unit} :
    optionsShape options left = .ok u ↔ options.length ≤ left ∧ ∀ e ∈ options, validOption e = true := by
  induction options generalizing left with
  | nil => simp [optionsShape]
  | cons e rest ih =>
    cases left with
    | zero => simp [optionsShape, failure]
    | succ left =>
      rw [optionsShape]
      split
      · rename_i he
        simp [ih, he]
      · rename_i he
        simp [failure, he]

/-- A valid message. -/
structure Valid (m : Message) : Prop where
  code : 0 ≤ m.code ∧ m.code ≤ 255
  messageId : 0 ≤ m.messageId ∧ m.messageId ≤ 65535
  token : m.token.length ≤ 8
  count : m.options.length ≤ 64
  options : ∀ e ∈ m.options, 0 ≤ e.1 ∧ e.1 ≤ 65535 ∧ e.2.length ≤ maximum
  empty : m.code = 0 → m.token = [] ∧ m.options = [] ∧ m.payload = []
  reset : m.type = .rst → m.code = 0

variable {m : Message}

theorem valid_eq_ok {u : Unit} : valid m = .ok u ↔ Valid m := by
  simp only [valid, validHeader, check_eq_ok, bind_eq_ok_unit, optionsShape_eq_ok, validOption,
    decide_eq_true_eq, Bool.not_eq_true', Bool.and_eq_false_iff, Bool.or_eq_false_iff,
    decide_eq_false_iff_not, Bool.not_eq_false', List.isEmpty_iff]
  constructor
  · rintro ⟨⟨hc, hi, ht⟩, ⟨hn, ho⟩, he, hr⟩
    exact ⟨hc, hi, ht, hn, ho, by tauto, by tauto⟩
  · rintro ⟨hc, hi, ht, hn, ho, he, hr⟩
    exact ⟨⟨hc, hi, ht⟩, ⟨hn, ho⟩, by tauto, by tauto⟩

theorem Valid.sorted (h : Valid m) : Valid { m with options := sortOptions m.options } :=
  { h with
    count := by
      rw [sortOptions, (sortBy_perm _ _).length_eq]
      exact h.count
    options := fun e he => h.options e ((sortBy_perm Prod.fst m.options).mem_iff.mp he)
    empty := fun h0 => by
      obtain ⟨ht, ho, hp⟩ := h.empty h0
      exact ⟨ht, by rw [ho]; rfl, hp⟩ }

variable {data : Bytes}

theorem encode_eq_ok : encode m = .ok data ↔ Valid m ∧
    data = header m ++ m.token ++ encodeOptions (sortOptions m.options) 0 ++ encodePayload m.payload
      ∧ data.length ≤ maximum := by
  simp only [encode, bind_eq_ok_unit, valid_eq_ok]
  refine and_congr_right fun _ => ?_
  split
  · rename_i hl
    exact ⟨fun h => by obtain rfl := Outcome.ok.inj h; exact ⟨rfl, hl⟩, fun h => by rw [h.1]⟩
  · rename_i hl
    exact ⟨fun h => by simp [failure] at h, fun h => absurd (h.1 ▸ h.2) hl⟩

/-! ## Nibbles -/

theorem extended_lt (n : Nat) : (extended n).1 < 15 := by
  unfold extended
  split
  · omega
  · split <;> simp

theorem expand_extended {n : Nat} (h : n < 65805) (rest : Bytes) :
    expand (extended n).1 ((extended n).2 ++ rest) = .ok (n, rest) := by
  unfold extended
  split
  · rename_i hn
    simp [expand, hn]
  · split
    · simp only [expand, cons_append, nil_append, Nat.lt_irrefl, if_false]
      rw [toNat_byte (by omega), Nat.sub_add_cancel (by omega)]
    · simp only [expand, word, cons_append, nil_append]
      rw [if_neg (by decide), toNat_byte (by omega), toNat_byte (by omega)]
      have : (n - 269) / 256 * 256 + (n - 269) % 256 + 269 = n := by omega
      rw [this]

/-- What is read is an escape, and no other one gives the same number. -/
theorem expand_ok {n v : Nat} {bytes rest : Bytes} (h : expand n bytes = .ok (v, rest)) :
    (extended v).1 = n ∧ bytes = (extended v).2 ++ rest := by
  unfold expand at h
  split at h
  · rename_i hn
    cases h
    simp [extended, hn]
  · split at h
    · rename_i extra rest' _
      cases h
      have := byte_lt extra
      rw [extended, if_neg (by omega), if_pos (by omega)]
      simp
    · cases h
      rw [extended]
      rw [Nat.add_sub_cancel, word_toNat]
      exact ⟨rfl, rfl⟩
    · cases h

/-! ## Options -/

theorem byte_nibbles_ne_marker {a b : Nat} (ha : a < 15) (hb : b < 15) : byte (a * 16 + b) ≠ 255 := by
  intro h
  have := congrArg UInt8.toNat h
  rw [toNat_byte (by omega)] at this
  simp at this
  omega

theorem decodeOptions_marker {previous : Int} {payload : Bytes} (h : payload ≠ []) :
    decodeOptions left (255 :: payload) previous = .ok ([], payload) := by
  unfold decodeOptions
  simp [h]

theorem decodeOptions_cons {previous : Int} {entry : Int × Bytes} (hp : previous ≤ entry.1)
    (h0 : 0 ≤ previous) (hn : entry.1 ≤ 65535) (hl : entry.2.length ≤ maximum) (bytes : Bytes) :
    decodeOptions (left + 1) (encodeOption previous entry ++ bytes) previous = (do
      let (options, payload) ← decodeOptions left bytes entry.1
      .ok (entry :: options, payload)) := by
  have hd := extended_lt (entry.1 - previous).toNat
  have hs := extended_lt entry.2.length
  obtain ⟨h16, hmod⟩ := toNat_nibbles (a := (extended (entry.1 - previous).toNat).1)
    (b := (extended entry.2.length).1) (by omega) (by omega)
  have hprev : previous + ((entry.1 - previous).toNat : Int) = entry.1 := by omega
  have hmax : maximum = 1152 := rfl
  rw [encodeOption, cons_append, decodeOptions, if_neg (byte_nibbles_ne_marker hd hs)]
  dsimp only
  rw [h16, hmod, append_assoc, append_assoc, expand_extended (by omega), ok_bind]
  rw [expand_extended (by omega), ok_bind]
  rw [hprev, if_pos ⟨by simp, hn⟩, drop_left, take_left]

/-- **Options are read back**, in order. -/
theorem decodeOptions_encodeOptions {payload : Bytes} :
    ∀ {left : Nat} {previous : Int}, options.length ≤ left → 0 ≤ previous →
      (∀ e ∈ options, previous ≤ e.1) → options.Pairwise (fun a b => a.1 ≤ b.1) →
      (∀ e ∈ options, e.1 ≤ 65535 ∧ e.2.length ≤ maximum) →
      decodeOptions left (encodeOptions options previous ++ encodePayload payload) previous
        = .ok (options, payload) := by
  induction options with
  | nil =>
    intro left previous _ _ _ _ _
    unfold encodePayload
    split
    · rename_i hp
      simp [encodeOptions, decodeOptions, hp]
    · rename_i hp
      exact decodeOptions_marker hp
  | cons e options ih =>
    intro left previous hl h0 hp hs hv
    obtain ⟨left, rfl⟩ : ∃ n, left = n + 1 := ⟨left - 1, by simp at hl; omega⟩
    have hpe := hp e mem_cons_self
    obtain ⟨hn, hsz⟩ := hv e mem_cons_self
    rw [pairwise_cons] at hs
    rw [encodeOptions, append_assoc, decodeOptions_cons hpe h0 hn hsz, ih (by simpa using hl)
      (h0.trans hpe) hs.1 hs.2 fun x hx => hv x (mem_cons_of_mem e hx)]
    rfl

/-- **What is read are encoded options**, in order. -/
theorem decodeOptions_ok : ∀ {left : Nat} {bytes : Bytes} {previous : Int}
    {options : List (Int × Bytes)} {payload : Bytes},
    decodeOptions left bytes previous = .ok (options, payload) →
      encodeOptions options previous ++ encodePayload payload = bytes
      ∧ (∀ e ∈ options, previous ≤ e.1) ∧ options.Pairwise (fun a b => a.1 ≤ b.1)
  | left, [], previous, options, payload, h => by
    simp only [decodeOptions] at h
    obtain ⟨rfl, ⟨⟩⟩ := h
    simp [encodeOptions, encodePayload]
  | left, first :: rest, previous, options, payload, h => by
    unfold decodeOptions at h
    split at h
    · rename_i hf
      split at h
      · cases h
      · rename_i hr
        obtain ⟨rfl, rfl⟩ := h
        simp [encodeOptions, encodePayload, hr, hf]
    · cases left with
      | zero => cases h
      | succ left =>
        simp only [bind_eq_ok, Prod.exists] at h
        obtain ⟨delta, rest₁, hd, size, rest₂, hs, h⟩ := h
        obtain ⟨hd', rfl⟩ := expand_ok hd
        obtain ⟨hs', rfl⟩ := expand_ok hs
        split at h
        · rename_i hc
          simp only [bind_eq_ok, Prod.exists] at h
          obtain ⟨options', payload', ho, ⟨⟩⟩ := h
          obtain ⟨hbytes, hge, hpw⟩ := decodeOptions_ok ho
          have hdelta : (previous + (delta : Int) - previous).toNat = delta := by omega
          have hsize : (rest₂.take size).length = size := by simp [hc.1]
          refine ⟨?_, forall_mem_cons.mpr ⟨by simp, fun e he => ?_⟩, pairwise_cons.mpr ⟨hge, hpw⟩⟩
          · rw [encodeOptions, encodeOption, append_assoc, hbytes]
            rw [hdelta, hsize, hd', hs', Nat.div_add_mod']
            simp
          · have := hge e he
            omega
        · cases h

/-! ## Datagrams -/

@[simp] theorem ofNumber_number (t : MessageType) : MessageType.ofNumber t.number = t := by
  cases t <;> rfl

theorem number_ofNumber {n : Nat} (h : n < 4) : (MessageType.ofNumber n).number = n := by
  interval_cases n <;> rfl

theorem number_lt (t : MessageType) : t.number < 4 := by
  cases t <;> decide

/-- **A datagram that decodes is the encoding of its message**, whose options are sorted. -/
theorem encode_of_decode (h : decode data = .ok m) :
    encode m = .ok data ∧ m.options.Pairwise (fun a b => a.1 ≤ b.1) := by
  unfold decode at h
  split at h
  · cases h
  · rename_i hmax
    split at h
    · rename_i first code high low rest
      dsimp only at h
      split at h
      · rename_i hc
        simp only [bind_eq_ok, Prod.exists, exists_unit, valid_eq_ok] at h
        obtain ⟨options, payload, ho, hv, ⟨⟩⟩ := h
        obtain ⟨hbytes, -, hpw⟩ := decodeOptions_ok ho
        refine ⟨encode_eq_ok.mpr ⟨hv, ?_, by omega⟩, hpw⟩
        have htype : 64 + (MessageType.ofNumber (first.toNat / 16 % 4)).number * 16
            + (rest.take (first.toNat % 16)).length = first.toNat := by
          rw [number_ofNumber (by omega), length_take]
          omega
        have hid : ((high.toNat : Int) * 256 + (low.toNat : Int)).toNat =
            high.toNat * 256 + low.toNat := by omega
        rw [sortOptions, sortBy_of_pairwise _ hpw, append_assoc, hbytes, header]
        rw [htype, byte_toNat, hid, word_toNat, Int.toNat_natCast, byte_toNat, append_assoc,
          take_append_drop]
        rfl
      · cases h
    · cases h

/-- **An encoded message decodes** to the message with its options sorted. -/
theorem decode_of_encode (h : encode m = .ok data) :
    decode data = .ok { m with options := sortOptions m.options } := by
  obtain ⟨hv, rfl, hl⟩ := encode_eq_ok.mp h
  have ht := hv.token
  have hn := number_lt m.type
  have hcode := hv.code
  have hmid := hv.messageId
  have hfirst : (byte (64 + m.type.number * 16 + m.token.length)).toNat =
      64 + m.type.number * 16 + m.token.length := toNat_byte (by omega)
  have hopts : decodeOptions 64 (encodeOptions (sortOptions m.options) 0 ++ encodePayload m.payload) 0
      = .ok (sortOptions m.options, m.payload) :=
    decodeOptions_encodeOptions hv.sorted.count le_rfl (fun e he => (hv.sorted.options e he).1)
      (sortBy_pairwise _ _) fun e he => (hv.sorted.options e he).2
  have hdata : header m ++ m.token ++ encodeOptions (sortOptions m.options) 0 ++ encodePayload m.payload
      = byte (64 + m.type.number * 16 + m.token.length) :: byte m.code.toNat
        :: byte (m.messageId.toNat / 256) :: byte (m.messageId.toNat % 256)
        :: (m.token ++ (encodeOptions (sortOptions m.options) 0 ++ encodePayload m.payload)) := by
    simp [header, word]
  rw [hdata] at hl ⊢
  unfold decode
  rw [if_neg (Nat.not_lt.mpr hl)]
  dsimp only
  rw [hfirst]
  have hsize : (64 + m.type.number * 16 + m.token.length) % 16 = m.token.length := by omega
  have hkind : (64 + m.type.number * 16 + m.token.length) / 16 % 4 = m.type.number := by omega
  rw [hsize, hkind, if_pos ⟨by omega, ht, by simp⟩, drop_left, take_left, hopts,
    ok_bind, ofNumber_number, toNat_byte (by omega), toNat_byte (by omega), toNat_byte (by omega)]
  have hm : (⟨m.type, (m.code.toNat : Int), ((m.messageId.toNat / 256 : Nat) : Int) * 256
      + ((m.messageId.toNat % 256 : Nat) : Int), m.token, sortOptions m.options, m.payload⟩ : Message)
      = { m with options := sortOptions m.options } := by
    have h1 : (m.code.toNat : Int) = m.code := by omega
    have h2 : ((m.messageId.toNat / 256 : Nat) : Int) * 256 + ((m.messageId.toNat % 256 : Nat) : Int)
        = m.messageId := by omega
    rw [h1, h2]
  rw [hm, (valid_eq_ok (u := ())).mpr hv.sorted, ok_bind]

/-- **Datagrams and messages correspond.** A datagram that decodes is the encoding of its message; an
encoded message decodes to itself with its options stably sorted; and the datagrams that decode are in
one to one correspondence with the messages that encode and have sorted options. -/
theorem correspondence :
    (∀ data m, decode data = .ok m → encode m = .ok data)
    ∧ (∀ m data, encode m = .ok data →
      decode data = .ok { m with options := sortOptions m.options }
      ∧ (sortOptions m.options).Perm m.options
      ∧ (sortOptions m.options).Pairwise (fun a b => a.1 ≤ b.1)
      ∧ ∀ number, option { m with options := sortOptions m.options } number = option m number)
    ∧ ∀ data m, decode data = .ok m ↔ encode m = .ok data ∧ m.options.Pairwise fun a b => a.1 ≤ b.1 := by
  refine ⟨fun data m h => (encode_of_decode h).1, fun m data h => ⟨decode_of_encode h,
    sortBy_perm _ _, sortBy_pairwise _ _, fun number => ?_⟩, fun data m => ⟨encode_of_decode, ?_⟩⟩
  · exact congrArg (map Prod.snd) (sortBy_filter Prod.fst m.options number)
  · rintro ⟨h, hs⟩
    rw [decode_of_encode h, sortOptions, sortBy_of_pairwise _ hs]

/-- A request for `/a/b` of a host, with its options out of order. -/
def request : Message :=
  ⟨.con, 1, 0x1234, [7], [(11, [97]), (3, [104]), (11, [98])], [1]⟩

theorem request_correspondence : ∃ data, encode request = .ok data
    ∧ decode data = .ok { request with options := [(3, [104]), (11, [97]), (11, [98])] } := by
  have h : encode request = .ok [0x41, 1, 0x12, 0x34, 7, 0x31, 104, 0x81, 97, 0x01, 98, 255, 1] := by
    decide
  exact ⟨_, h, (correspondence.2.1 _ _ h).1⟩

end Codec

end Wotex.CoAP
