import Wotex.Modbus.Command
import Wotex.Term.Bits
import Wotex.Term.Scanner

/-!
# Requests and responses (`codec.ex`, and the receiving end of `connection.ex`)

`encode/2` writes a valid command behind a header, `decode/1` takes one frame off the bytes at hand, and
`response/3` checks a frame against the command it answers. `receive` is `receive_bytes/2` and `respond/3` of
the connection, one chunk after the other: bytes are collected up to a frame, which has to be the only one.
Deadlines and the socket are not modelled.

* `receive_frame`: however a frame is split, it comes to the response of the frame.
* `response_eq_ok`: **a response is accepted exactly where it answers the command** (`Matches`).
-/

namespace Wotex.Modbus

open Scanning
open List

namespace Codec

/-- `frame`. -/
structure Frame where
  transactionId : Nat
  unitId : Nat
  pdu : Bytes

/-- What a response returns: registers, coils, or `:written`. -/
inductive Reply where
  | registers (values : List Nat) | bits (values : List Bool) | written

/-! ## Encoding -/

/-- `if v`. -/
def truthy : Item → Bool
  | .bool b => b
  | _ => true

/-- `<<value::16>>`, which raises for what is no integer. -/
def registerBytes : Item → Result Bytes
  | .int n => .ok (word n)
  | _ => .raise

/-- `for value <- values, into: <<>>, do: <<value::16>>`. -/
def registersBytes : List Item → Result Bytes
  | [] => .ok []
  | v :: rest => do
    let first ← registerBytes v
    let others ← registersBytes rest
    .ok (first ++ others)

/-- `codec.ex:77-93`. -/
def pdu (c : Command) : Result Bytes :=
  match c.function, c.values with
  | 5, [v] => .ok (5 :: word c.address.offset ++ word (if truthy v then 0xFF00 else 0))
  | 6, [v] => do
    let value ← registerBytes v
    .ok (6 :: word c.address.offset ++ value)
  | 15, values =>
    let bits := packBits (values.map truthy)
    .ok (15 :: word c.address.offset ++ word c.address.quantity ++ byte bits.length :: bits)
  | 16, values => do
    let registers ← registersBytes values
    .ok (16 :: word c.address.offset ++ word c.address.quantity ++ byte registers.length :: registers)
  | f, _ =>
    if f = 1 ∨ f = 2 ∨ f = 3 ∨ f = 4 then
      .ok (byte f :: word c.address.offset ++ word c.address.quantity)
    else .raise

/-- A frame as it is sent. -/
def adu (transactionId unitId : Nat) (payload : Bytes) : Bytes :=
  word transactionId ++ word 0 ++ word (payload.length + 1) ++ byte unitId :: payload

def encode (c : Command) (transactionId : Nat) : Result Bytes :=
  if transactionId ≤ 65535 then do
    c.validate
    let payload ← pdu c
    .ok (adu transactionId c.address.unitId payload)
  else failure .invalidCommand

/-! ## Decoding -/

/-- `<<high, low>>` as a number. -/
def number (high low : UInt8) : Nat := high.toNat * 256 + low.toNat

/-- `decode/1`: more bytes are needed, a frame and the bytes behind it, or `:invalid_mbap`. -/
def decode (data : Bytes) : Decision UInt8 Frame :=
  match data with
  | t1 :: t0 :: p1 :: p0 :: l1 :: l0 :: rest =>
    if number p1 p0 ≠ 0 ∨ number l1 l0 < 2 ∨ 254 < number l1 l0 then .refuse
    else if rest.length < number l1 l0 then .wait
    else
      match rest with
      | unit :: data =>
        .take ⟨number t1 t0, unit.toNat, data.take (number l1 l0 - 1)⟩ (data.drop (number l1 l0 - 1))
      | [] => .wait
  | _ => .wait

/-- `for <<value::16 <- data>>, do: value`. -/
def words : Bytes → List Nat
  | high :: low :: rest => number high low :: words rest
  | _ => []

/-- The unused bits of the last byte of coils are zero. -/
def padded (quantity : Nat) (data : Bytes) : Bool :=
  decide (quantity % 8 = 0) || (data.getLast?.getD 0).toNat >>> (quantity % 8) == 0

/-- `codec.ex:108-140`. -/
def parseResponse (payload : Bytes) (c : Command) : Result Reply :=
  match payload with
  | [exception, code] =>
    if exception.toNat = c.function + 128 then
      .refuse ⟨.remoteException, none, some (code.toNat, c.function)⟩
    else matched
  | _ => matched
where
  matched : Result Reply :=
    if c.function = 5 ∨ c.function = 6 then do
      let request ← pdu c
      if payload = request then .ok .written else failure .responseMismatch
    else
      match payload with
      | f :: count :: data =>
        if f.toNat = c.function ∧ (c.function = 3 ∨ c.function = 4) ∧
            count.toNat = c.address.quantity * 2 ∧ data.length = count.toNat then
          .ok (.registers (words data))
        else if f.toNat = c.function ∧ (c.function = 1 ∨ c.function = 2) ∧
            count.toNat = (c.address.quantity + 7) / 8 ∧ data.length = count.toNat then
          if padded c.address.quantity data then
            .ok (.bits ((range c.address.quantity).map (bit data)))
          else failure .invalidPadding
        else if f.toNat = c.function ∧ (c.function = 15 ∨ c.function = 16) ∧
            count :: data = word c.address.offset ++ word c.address.quantity then .ok .written
        else failure .invalidResponse
      | _ => failure .invalidResponse

def response (frame : Frame) (c : Command) (transactionId : Nat) : Result Reply := do
  c.validate
  if frame.transactionId = transactionId ∧ frame.unitId = c.address.unitId ∧
      transactionId ≤ 65535 ∧ 1 ≤ frame.pdu.length ∧ frame.pdu.length ≤ 253 then
    parseResponse frame.pdu c
  else failure .responseMismatch

/-- `respond/3` of the connection: the frame has to be the only one. -/
def respond (frame : Frame) (tail : Bytes) (c : Command) (transactionId : Nat) : Result Reply :=
  match response frame c transactionId with
  | .refuse e =>
    if e.code ≠ .remoteException then .refuse e
    else if tail = [] then .refuse e
    else failure .responseMismatch
  | result => if tail = [] then result else failure .responseMismatch

/-- `receive_bytes/2` of the connection over the chunks of the answer to a command; `none` while bytes are
missing. -/
def receive (c : Command) (transactionId : Nat) : Bytes → List Bytes → Option (Result Reply)
  | _, [] => none
  | buffer, bytes :: chunks =>
    if 260 < buffer.length + bytes.length then some (failure .invalidMbap)
    else
      match decode (buffer ++ bytes) with
      | .wait => receive c transactionId (buffer ++ bytes) chunks
      | .refuse => some (failure .invalidMbap)
      | .take frame tail => some (respond frame tail c transactionId)

/-! ## Chunks -/

theorem number_word {n : Nat} (h : n < 65536) : number (byte (n / 256)) (byte (n % 256)) = n := by
  rw [number, toNat_byte (by omega), toNat_byte (by omega)]
  omega

/-- `decode/1` as a scanner. -/
def scanner : Scanner UInt8 Frame where
  decide := decode
  shrinks {l o rest} h := by
    unfold decode at h
    split at h
    · split_ifs at h
      split at h
      · cases h
        simp only [length_cons, length_drop]
        omega
      · cases h
    · cases h
  take_append {l o rest} m h := by
    unfold decode at h
    split at h
    · rename_i t1 t0 p1 p0 l1 l0 body
      split_ifs at h with hbad hshort
      cases body with
      | nil => cases h
      | cons unit data =>
        cases h
        have hle : number l1 l0 - 1 ≤ data.length := by
          rw [length_cons] at hshort
          omega
        simp only [cons_append, decode]
        rw [if_neg hbad, if_neg (by simp only [length_cons, length_append] at hshort ⊢; omega),
          take_append_of_le_length hle, drop_append_of_le_length hle]
    · cases h
  refuse_append {l} m h := by
    unfold decode at h
    split at h
    · rename_i t1 t0 p1 p0 l1 l0 body
      split_ifs at h with hbad
      · simp only [cons_append, decode]
        rw [if_pos hbad]
      · split at h <;> cases h
    · cases h

variable {t : Nat} {payload : Bytes} {frame : Frame} {c : Command} {r : Reply}

theorem decode_adu {unit : Nat} (ht : t ≤ 65535) (hu : unit ≤ 255) (h1 : 1 ≤ payload.length)
    (h253 : payload.length ≤ 253) : decode (adu t unit payload) = .take ⟨t, unit, payload⟩ [] := by
  have hlen := number_word (show payload.length + 1 < 65536 by omega)
  have hzero := number_word (show 0 < 65536 by omega)
  simp only [adu, word, cons_append, nil_append, decode]
  rw [hlen, if_neg (by omega), if_neg (by simp), number_word (by omega), toNat_byte (by omega),
    Nat.add_sub_cancel, take_length, drop_length]

theorem adu_inj {t' unit unit' : Nat} {payload' : Bytes} (ht : t ≤ 65535) (ht' : t' ≤ 65535)
    (hu : unit ≤ 255) (hu' : unit' ≤ 255) (h : adu t unit payload = adu t' unit' payload') :
    t = t' ∧ unit = unit' ∧ payload = payload' := by
  simp only [adu, word, cons_append, nil_append, cons.injEq] at h
  obtain ⟨h1, h0, -, -, -, -, hunit, hpayload⟩ := h
  refine ⟨?_, ?_, hpayload⟩
  · rw [← number_word (show t < 65536 by omega), ← number_word (show t' < 65536 by omega), h1, h0]
  · rw [← toNat_byte (show unit < 256 by omega), ← toNat_byte (show unit' < 256 by omega), hunit]

theorem length_of_decode {data : Bytes} (h : decode data = .take frame []) : data.length ≤ 260 := by
  unfold decode at h
  split at h
  · rename_i t1 t0 p1 p0 l1 l0 rest
    split_ifs at h with hbad hshort
    cases rest with
    | nil => cases h
    | cons unit data =>
      have htail := (Decision.take.inj h).2
      rw [drop_eq_nil_iff] at htail
      simp only [length_cons] at hshort ⊢
      omega
  · cases h

/-- **However a frame is split into chunks, it comes to its response.** -/
theorem receive_frame : ∀ {chunks : List Bytes} {buffer : Bytes},
    decode buffer = .wait → decode (buffer ++ chunks.flatten) = .take frame [] →
      (buffer ++ chunks.flatten).length ≤ 260 →
      receive c t buffer chunks = some (respond frame [] c t)
  | [], buffer, hwait, htake, _ => by
    rw [flatten_nil, append_nil, hwait] at htake
    cases htake
  | bytes :: chunks, buffer, _, htake, hlen => by
    rw [flatten_cons, ← append_assoc] at htake hlen
    rw [receive, if_neg (by simp at hlen; omega)]
    cases hd : decode (buffer ++ bytes) with
    | wait => exact receive_frame hd htake hlen
    | refuse =>
      have hrefuse : decode (buffer ++ bytes ++ chunks.flatten) = .refuse := scanner.refuse_append _ hd
      rw [hrefuse] at htake
      cases htake
    | take frame' tail =>
      have htake' : decode (buffer ++ bytes ++ chunks.flatten) = .take frame' (tail ++ chunks.flatten) :=
        scanner.take_append _ hd
      rw [htake'] at htake
      obtain ⟨rfl, htail⟩ := Decision.take.inj htake
      rw [(append_eq_nil_iff.mp htail).1]

theorem respond_nil (frame : Frame) (c : Command) (t : Nat) :
    respond frame [] c t = response frame c t := by
  unfold respond
  split
  · rename_i e he
    rw [he]
    simp
  · rw [if_pos rfl]

/-! ## Responses -/

/-- The last byte is padded with zeros where there are only zeros behind the coils. -/
theorem padded_iff {quantity : Nat} {data : Bytes} (hq : 1 ≤ quantity)
    (hlen : data.length = (quantity + 7) / 8) :
    padded quantity data = true ↔ ∀ i, quantity ≤ i → bit data i = false := by
  have hbehind : ∀ i, data.length ≤ i / 8 → bit data i = false := fun i hi => by
    rw [bit, getD_eq_default _ _ hi]
    exact Nat.zero_testBit _
  have hlast : data.getLast?.getD 0 = data.getD ((quantity - 1) / 8) 0 := by
    rw [getLast?_eq_getElem?, getD_eq_getElem?_getD, show data.length - 1 = (quantity - 1) / 8
      by omega]
  rw [padded, Bool.or_eq_true, decide_eq_true_eq, beq_iff_eq, hlast]
  constructor
  · rintro (hzero | hzero) i hi
    · exact hbehind i (by omega)
    · by_cases hin : i / 8 < data.length
      · have hk : i / 8 = (quantity - 1) / 8 := by omega
        have hbit := congrArg (fun n => n.testBit (i % 8 - quantity % 8)) hzero
        simp only [Nat.testBit_shiftRight, Nat.zero_testBit] at hbit
        rw [bit, hk]
        rwa [show quantity % 8 + (i % 8 - quantity % 8) = i % 8 by omega] at hbit
      · exact hbehind i (by omega)
  · intro h
    by_cases hmod : quantity % 8 = 0
    · exact .inl hmod
    · refine .inr (Nat.eq_of_testBit_eq fun j => ?_)
      rw [Nat.testBit_shiftRight, Nat.zero_testBit]
      by_cases hj : quantity % 8 + j < 8
      · have hbit := h (8 * ((quantity - 1) / 8) + (quantity % 8 + j)) (by omega)
        rw [bit] at hbit
        rwa [show (8 * ((quantity - 1) / 8) + (quantity % 8 + j)) / 8 = (quantity - 1) / 8 by omega,
          show (8 * ((quantity - 1) / 8) + (quantity % 8 + j)) % 8 = quantity % 8 + j by omega] at hbit
      · refine Nat.testBit_lt_two_pow (lt_of_lt_of_le (byte_lt _) ?_)
        exact Nat.pow_le_pow_right (n := 2) (by decide) (show 8 ≤ quantity % 8 + j by omega)

/-- A payload that answers a command, and what it says. -/
inductive Matches (c : Command) : Bytes → Reply → Prop where
  /-- Registers: the function, the byte count and as many bytes. -/
  | registers {data : Bytes} (hf : c.function = 3 ∨ c.function = 4)
      (hlen : data.length = c.address.quantity * 2) :
      Matches c (byte c.function :: byte (c.address.quantity * 2) :: data) (.registers (words data))
  /-- Coils: the function, the byte count and as many bytes, with zeros behind the last coil. -/
  | bits {data : Bytes} (hf : c.function = 1 ∨ c.function = 2)
      (hlen : data.length = (c.address.quantity + 7) / 8)
      (hpad : ∀ i, c.address.quantity ≤ i → bit data i = false) :
      Matches c (byte c.function :: byte ((c.address.quantity + 7) / 8) :: data)
        (.bits ((range c.address.quantity).map (bit data)))
  /-- A written range: its offset and quantity. -/
  | range (hf : c.function = 15 ∨ c.function = 16) :
      Matches c (byte c.function :: word c.address.offset ++ word c.address.quantity) .written
  /-- A single value written: the request itself. -/
  | echo {request : Bytes} (hf : c.function = 5 ∨ c.function = 6) (hp : pdu c = .ok request) :
      Matches c request .written

theorem byte_of_toNat {b : UInt8} {n : Nat} (h : b.toNat = n) : b = byte n := by
  rw [← h, byte_toNat]

theorem matches_of_matched (hq : 1 ≤ c.address.quantity)
    (h : parseResponse.matched payload c = .ok r) : Matches c payload r := by
  unfold parseResponse.matched at h
  by_cases hsingle : c.function = 5 ∨ c.function = 6
  · simp only [if_pos hsingle, bind_eq_ok, ite_failure_eq_ok] at h
    obtain ⟨request, hrequest, rfl, h⟩ := h
    cases h
    exact .echo hsingle hrequest
  rw [if_neg hsingle] at h
  split at h
  · split_ifs at h with hregisters hbits hpad hrange
    · obtain ⟨hf, hfunction, hcount, hlen⟩ := hregisters
      cases h
      rw [byte_of_toNat hf, byte_of_toNat hcount]
      exact .registers hfunction (hlen.trans hcount)
    · obtain ⟨hf, hfunction, hcount, hlen⟩ := hbits
      cases h
      rw [byte_of_toNat hf, byte_of_toNat hcount]
      exact .bits hfunction (hlen.trans hcount) ((padded_iff hq (hlen.trans hcount)).mp hpad)
    · exact (failure_eq_ok.mp h).elim
    · obtain ⟨hf, hfunction, heq⟩ := hrange
      cases h
      rw [byte_of_toNat hf, heq]
      exact .range hfunction
    · exact (failure_eq_ok.mp h).elim
  · exact (failure_eq_ok.mp h).elim

/-- A payload that answers a valid command goes through the clause that accepts it. -/
theorem matched_of_matches (hc : c.Valid)
    (h : Matches c payload r) : parseResponse.matched payload c = .ok r := by
  unfold parseResponse.matched
  cases h with
  | @registers data hf hlen =>
    have hquantity : c.address.quantity * 2 < 256 := by
      cases hc with
      | readBits hf' _ => dsimp only at hf ⊢; omega
      | readRegisters _ _ hq => dsimp only at hf ⊢; omega
      | _ => dsimp only at hf; omega
    rw [if_neg (by omega)]
    dsimp only
    rw [toNat_byte (show c.function < 256 by omega), toNat_byte hquantity, if_pos ⟨rfl, hf, rfl, hlen⟩]
  | @bits data hf hlen hpad =>
    have hbounds : 1 ≤ c.address.quantity ∧ (c.address.quantity + 7) / 8 < 256 := by
      cases hc with
      | readBits _ ha => have := ha.quantity; dsimp only; omega
      | _ => dsimp only at hf; omega
    rw [if_neg (by omega)]
    dsimp only
    rw [toNat_byte (show c.function < 256 by omega), toNat_byte hbounds.2,
      if_neg (by rintro ⟨-, h, -⟩; omega), if_pos ⟨rfl, hf, rfl, hlen⟩,
      if_pos ((padded_iff hbounds.1 hlen).mpr hpad)]
  | range hf =>
    rw [if_neg (by omega)]
    simp only [word, cons_append]
    rw [toNat_byte (show c.function < 256 by omega), if_neg (by rintro ⟨-, h, -⟩; omega),
      if_neg (by rintro ⟨-, h, -⟩; omega), if_pos ⟨rfl, hf, trivial⟩]
  | echo hf hp =>
    simp [if_pos hf, hp]

/-- A payload that answers a valid command is longer than an exception and fits in a frame. -/
theorem Matches.length (hc : c.Valid)
    (h : Matches c payload r) : 3 ≤ payload.length ∧ payload.length ≤ 253 := by
  cases h with
  | registers hf hlen =>
    simp only [length_cons]
    cases hc with
    | readRegisters _ ha hq => have := ha.quantity; dsimp only at hlen; omega
    | _ => dsimp only at hf; omega
  | bits hf hlen =>
    simp only [length_cons]
    cases hc with
    | readBits _ ha => have := ha.quantity; dsimp only at hlen; omega
    | _ => dsimp only at hf; omega
  | range hf => simp [word]
  | echo hf hp =>
    cases hc with
    | writeCoil ha hq =>
      cases hp
      simp [word]
    | writeRegister ha hq =>
      cases hp
      simp [word]
    | _ => dsimp only at hf; omega

/-- **The payloads that are accepted.** -/
theorem parseResponse_eq_ok (hc : c.Valid) : parseResponse payload c = .ok r ↔ Matches c payload r := by
  have hq : 1 ≤ c.address.quantity := by
    cases hc <;> exact (‹Address.Admitted _›).quantity.1
  constructor
  · intro h
    unfold parseResponse at h
    split at h
    · split_ifs at h
      exact matches_of_matched hq h
    · exact matches_of_matched hq h
  · intro h
    have hmatched := matched_of_matches hc h
    unfold parseResponse
    split
    · exact absurd (h.length hc).1 (by simp)
    · exact hmatched

/-- **A response is accepted exactly where it answers the command**: the command is valid, the transaction
and the unit are its own, and the payload matches. -/
theorem response_eq_ok :
    response frame c t = .ok r ↔ c.Valid ∧ frame.transactionId = t ∧ t ≤ 65535 ∧
      frame.unitId = c.address.unitId ∧ Matches c frame.pdu r := by
  rw [response, bind_eq_ok_unit, Command.validate_iff, ite_failure_eq_ok]
  constructor
  · rintro ⟨hc, ⟨htid, hunit, ht, -⟩, h⟩
    exact ⟨hc, htid, ht, hunit, (parseResponse_eq_ok hc).mp h⟩
  · rintro ⟨hc, htid, ht, hunit, hm⟩
    have hlen := hm.length hc
    exact ⟨hc, ⟨htid, hunit, ht, by omega, hlen.2⟩, (parseResponse_eq_ok hc).mpr hm⟩

end Codec

end Wotex.Modbus
