import Wotex.Term.Bytes
import Wotex.Zigbee.Error

/-!
# Cluster library frames (`zcl.ex`, `zcl/value.ex`, `zcl/wire.ex`, `zcl/poll_control.ex`)

The decoders that an observation of the freshness table goes through.

* `decodeValue` is `Value.decode/3` over the finite catalogue of types. A type outside it takes the
  whole remainder as opaque bytes.
* `parseAttributes` reads the records of a Read Attributes Response or a Report. Its recursion is on
  the number of records that may still follow, as in the source.
* `PollControl.decode` reads the finite Poll Control profile, each command with its parameters.

`decodeAttributes_numeric`: the raw bytes of a numeric record have exactly the width of its type, so
that reading the record again with the full range cannot fail (`decodeValue_full`).
-/

namespace Wotex.Zigbee.Zcl

/-- `direction`. -/
inductive Direction where
  | clientToServer | serverToClient
  deriving DecidableEq

/-- The reporting category of a type. -/
inductive Category where
  | analog | discrete

/-- A decoded value. -/
inductive Value where
  | null
  | int (value : Int)
  | bool (value : Bool)
  | bytes (value : Bytes)
  | unsupported (type : Nat)
  deriving DecidableEq

/-- `@numeric`: the width in bytes and whether the type is signed. -/
def numeric : Nat → Option (Nat × Bool)
  | 0x20 => some (1, false)
  | 0x21 => some (2, false)
  | 0x23 => some (4, false)
  | 0x28 => some (1, true)
  | 0x29 => some (2, true)
  | _ => none

def valueFailure {α : Type} (kind : Kind) : Result α := .refuse ⟨kind, .zclValue⟩

def category (type : Nat) : Result Category :=
  if (numeric type).isSome then .ok .analog
  else if type ∈ [0x10, 0x41, 0x42] then .ok .discrete
  else valueFailure .invalidValue

/-- The non-value of `limits/2`. -/
def nonValue (width : Nat) (signed : Bool) : Int :=
  if signed then -(1 <<< (width * 8 - 1) : Nat) else (1 <<< (width * 8) : Nat) - 1

def unpack (raw : Bytes) (width : Nat) (signed : Bool) : Int :=
  if signed && decide (1 <<< (width * 8 - 1) ≤ Bytes.unsigned raw.reverse) then
    Bytes.unsigned raw.reverse - (1 <<< (width * 8) : Nat)
  else Bytes.unsigned raw.reverse

/-- A value, its bytes and what follows them. -/
structure Decoded where
  value : Value
  raw : Bytes
  tail : Bytes

/-- The clauses of `decode_value/3` for the other types. -/
def decodeOther (type : Nat) (bytes : Bytes) : Result Decoded :=
  if type = 0x10 then
    match bytes with
    | 0xFF :: tail => .ok ⟨.null, [0xFF], tail⟩
    | value :: tail =>
      if value = 0 ∨ value = 1 then .ok ⟨.bool (value = 1), [value], tail⟩
      else valueFailure .invalidFrame
    | [] => valueFailure .invalidFrame
  else if type = 0x41 ∨ type = 0x42 then
    match bytes with
    | 0xFF :: tail => .ok ⟨.null, [0xFF], tail⟩
    | length :: rest =>
      if length.toNat ≤ 64 ∧ length.toNat ≤ rest.length then
        .ok ⟨.bytes (rest.take length.toNat), length :: rest.take length.toNat, rest.drop length.toNat⟩
      else valueFailure .invalidFrame
    | [] => valueFailure .invalidFrame
  else .ok ⟨.unsupported type, bytes, []⟩

/-- The numeric clause of `decode_value/3`. -/
def decodeNumeric (width : Nat) (signed : Bool) (bytes : Bytes) (full : Bool) : Result Decoded :=
  if width ≤ bytes.length then
    .ok ⟨if unpack (bytes.take width) width signed = nonValue width signed ∧ ¬ full then .null
        else .int (unpack (bytes.take width) width signed),
      bytes.take width, bytes.drop width⟩
  else valueFailure .invalidFrame

/-- `Value.decode/3`. -/
def decodeValue (type : Nat) (bytes : Bytes) (full : Bool := false) : Result Decoded :=
  if type ≤ 255 ∧ bytes.length ≤ 128 then
    match numeric type with
    | some (width, signed) => decodeNumeric width signed bytes full
    | none => if full then valueFailure .invalidFrame else decodeOther type bytes
  else valueFailure .invalidFrame

/-- The status of a record. -/
inductive Status where
  | success
  | error (status : Nat)
  deriving DecidableEq

/-- `attribute`. -/
structure Attribute where
  id : Nat
  status : Status
  type : Option Nat
  value : Option Value
  raw : Option Bytes
  deriving DecidableEq

/-- The admitted attribute commands. -/
inductive Command where
  | readResponse | report
  deriving DecidableEq

/-- A parsed header of `Wire.parse/1`, the command still a byte. -/
structure Header where
  manufacturer : Option Nat
  direction : Direction
  sequence : Nat
  command : Nat

/-- `decoded`. -/
structure Attributes where
  command : Command
  manufacturer : Option Nat
  direction : Direction
  sequence : Nat
  attributes : List Attribute

def invalid {α : Type} : Result α := .refuse ⟨.invalidFrame, .zcl⟩

@[simp] theorem invalid_eq_ok {α : Type} {a : α} : invalid = .ok a ↔ False := by simp [invalid]

@[simp] theorem valueFailure_eq_ok {α : Type} {kind : Kind} {a : α} :
    valueFailure kind = .ok a ↔ False := by simp [valueFailure]

/-- `<<n::little-16>>` read back. -/
def little (low high : UInt8) : Nat := low.toNat + 256 * high.toNat

/-- `wire.ex:36-52`. -/
def Wire.parse (bytes : Bytes) : Result (Header × Bytes) :=
  match bytes with
  | control :: rest =>
    if bytes.length ≤ 128 ∧ control &&& 0xE3 = 0 then
      let direction : Direction := if control &&& 8 = 0 then .clientToServer else .serverToClient
      if control &&& 4 = 0 then
        match rest with
        | sequence :: command :: payload =>
          .ok (⟨none, direction, sequence.toNat, command.toNat⟩, payload)
        | _ => invalid
      else
        match rest with
        | low :: high :: sequence :: command :: payload =>
          .ok (⟨some (little low high), direction, sequence.toNat, command.toNat⟩, payload)
        | _ => invalid
    else invalid
  | [] => invalid

/-- A record of a value, with the bytes behind it. -/
def record (id : Nat) (type : UInt8) (rest : Bytes) (fullRangeIds : List Nat) :
    Result (Attribute × Bytes) := do
  let decoded ← decodeValue type.toNat rest (decide (id ∈ fullRangeIds))
  .ok ({ id, status := .success, type := some type.toNat, value := some decoded.value,
         raw := some decoded.raw }, decoded.tail)

/-- The next record of `parse_attributes/5`. -/
def nextRecord (command : Command) (fullRangeIds : List Nat) (bytes : Bytes) : Result (Attribute × Bytes) :=
  match command, bytes with
  | .readResponse, low :: high :: status :: rest =>
    if status ≠ 0 then
      .ok ({ id := little low high, status := .error status.toNat, type := none, value := none,
             raw := none }, rest)
    else
      match rest with
      | type :: rest => record (little low high) type rest fullRangeIds
      | [] => invalid
  | .report, low :: high :: type :: rest => record (little low high) type rest fullRangeIds
  | _, _ => invalid

/-- `zcl.ex:102-138`. -/
def parseAttributes (command : Command) (fullRangeIds : List Nat) :
    Nat → Bytes → List Attribute → Result (List Attribute)
  | _, [], [] => invalid
  | _, [], attributes => .ok attributes.reverse
  | 0, _ :: _, _ => invalid
  | remaining + 1, byte :: rest, attributes => do
    let (item, tail) ← nextRecord command fullRangeIds (byte :: rest)
    parseAttributes command fullRangeIds remaining tail (item :: attributes)

/-- The command byte of an attribute frame. -/
def attributeCommand (command : Nat) : Result Command :=
  if command = 1 then .ok .readResponse else if command = 0x0A then .ok .report else invalid

/-- The clauses of `decode_attributes/3` once the arguments are admitted. -/
def attributesOf (bytes : Bytes) (maxAttributes : Nat) (fullRangeIds : List Nat) :
    Result Attributes := do
  let (header, payload) ← Wire.parse bytes
  let command ← attributeCommand header.command
  let attributes ← parseAttributes command fullRangeIds maxAttributes payload []
  .ok { command, manufacturer := header.manufacturer, direction := header.direction,
        sequence := header.sequence, attributes }

/-- `decode_attributes/3`; every failure of a clause is `invalid()`. -/
def decodeAttributes (bytes : Bytes) (maxAttributes : Nat := 32) (fullRangeIds : List Nat := []) :
    Result Attributes :=
  if bytes.length ≤ 128 ∧ 1 ≤ maxAttributes ∧ maxAttributes ≤ 32 ∧ fullRangeIds.length ≤ 32 ∧
      (∀ id ∈ fullRangeIds, id ≤ 0xFFFF) ∧ fullRangeIds.Nodup then
    match attributesOf bytes maxAttributes fullRangeIds with
    | .ok decoded => .ok decoded
    | .refuse _ | .raise => invalid
  else invalid

/-! ## Poll Control -/

namespace PollControl

/-- `@commands`. -/
inductive ClientCommand where
  | checkinResponse | fastPollStop | setLongPoll | setShortPoll
  deriving DecidableEq

/-- The commands of the finite profile with their parameters. -/
inductive Body where
  | checkin
  | checkinResponse (startFastPolling : Bool) (timeoutQs : Nat)
  | fastPollStop
  | setLongPoll (intervalQs : Nat)
  | setShortPoll (intervalQs : Nat)
  | defaultResponse (originalCommand : ClientCommand) (status : Status)
  deriving DecidableEq

/-- `message`. -/
structure Message where
  body : Body
  sequence : Nat
  direction : Direction
  disableDefaultResponse : Bool
  raw : Bytes

def failure {α : Type} (kind : Kind) : Result α := .refuse ⟨kind, .pollControl⟩

/-- `@commands`. -/
def clientCommand : UInt8 → Option ClientCommand
  | 0 => some .checkinResponse
  | 1 => some .fastPollStop
  | 2 => some .setLongPoll
  | 3 => some .setShortPoll
  | _ => none

/-- `poll_control.ex:171-181`. -/
def decoded (raw : Bytes) (control sequence : UInt8) (direction : Direction) (body : Body) : Message where
  body := body
  sequence := sequence.toNat
  direction := direction
  disableDefaultResponse := control &&& 16 ≠ 0
  raw := raw

/-- The command of a frame after the sequence byte, for each frame control. -/
def body (control : UInt8) (rest : Bytes) : Option (Direction × Body) :=
  if control = 9 ∨ control = 25 then
    match rest with
    | [0] => some (.serverToClient, .checkin)
    | _ => none
  else if control = 1 ∨ control = 17 then
    match rest with
    | [0, start, low, high] =>
      if start = 0 ∨ start = 1 then
        some (.clientToServer, .checkinResponse (start = 1) (little low high))
      else none
    | [1] => some (.clientToServer, .fastPollStop)
    | [2, a, b, c, d] =>
      let interval := little a b + 65536 * little c d
      if 4 ≤ interval ∧ interval ≤ 0x6E0000 then some (.clientToServer, .setLongPoll interval)
      else none
    | [3, low, high] =>
      if 1 ≤ little low high then some (.clientToServer, .setShortPoll (little low high)) else none
    | _ => none
  else if control = 8 ∨ control = 24 then
    match rest with
    | [11, command, status] =>
      (clientCommand command).map fun original =>
        (.serverToClient, .defaultResponse original (if status = 0 then .success else .error status.toNat))
    | _ => none
  else none

/-- `poll_control.ex:96-126`, `value.ex:71-79`. -/
def decode (raw : Bytes) : Result Message :=
  match raw with
  | control :: sequence :: rest =>
    match body control rest with
    | some (direction, body) => .ok (decoded raw control sequence direction body)
    | none => failure .invalidFrame
  | _ => failure .invalidFrame

end PollControl

/-! ## Numeric records -/

variable {bytes : Bytes}

theorem decodeNumeric_eq_ok {width : Nat} {signed full : Bool} {decoded : Decoded}
    (h : decodeNumeric width signed bytes full = .ok decoded) :
    decoded.raw.length = width ∧ decoded.raw.length ≤ bytes.length := by
  unfold decodeNumeric at h
  split_ifs at h with hlength
  all_goals first
    | exact (valueFailure_eq_ok.mp h).elim
    | rw [← Outcome.ok.inj h]
      simp [hlength]

/-- Numeric bytes are read again in full, whatever they stand for. -/
theorem decodeValue_full {type width : Nat} {signed : Bool} {raw : Bytes} (htype : type ≤ 255)
    (hnumeric : numeric type = some (width, signed)) (hlength : raw.length = width)
    (hshort : raw.length ≤ 128) :
    decodeValue type raw true = .ok ⟨.int (unpack raw width signed), raw, []⟩ := by
  subst hlength
  simp [decodeValue, htype, hshort, hnumeric, decodeNumeric]

/-- The raw bytes of a numeric record have the width of its type. -/
def Attribute.Sized (item : Attribute) : Prop :=
  ∀ type width signed, item.type = some type → numeric type = some (width, signed) →
    type ≤ 255 ∧ ∃ raw, item.raw = some raw ∧ raw.length = width ∧ raw.length ≤ 128

variable {ids : List Nat}

theorem record_sized {id : Nat} {type : UInt8} {rest : Bytes} {found : Attribute × Bytes}
    (h : record id type rest ids = .ok found) : found.1.Sized := by
  simp only [record, bind_eq_ok] at h
  obtain ⟨decoded, hdecoded, h⟩ := h
  cases h
  intro type' width signed htype hnumeric
  obtain rfl : type.toNat = type' := Option.some.inj htype
  unfold decodeValue at hdecoded
  by_cases hguard : type.toNat ≤ 255 ∧ rest.length ≤ 128
  · rw [if_pos hguard, hnumeric] at hdecoded
    obtain ⟨hwidth, hle⟩ := decodeNumeric_eq_ok hdecoded
    exact ⟨hguard.1, decoded.raw, rfl, hwidth, hle.trans hguard.2⟩
  · rw [if_neg hguard] at hdecoded
    exact (valueFailure_eq_ok.mp hdecoded).elim

theorem nextRecord_sized {command : Command} {found : Attribute × Bytes}
    (h : nextRecord command ids bytes = .ok found) : found.1.Sized := by
  unfold nextRecord at h
  split at h
  · split_ifs at h with hstatus
    · rw [← Outcome.ok.inj h]
      intro type width signed htype
      cases htype
    · split at h
      · exact record_sized h
      · exact (invalid_eq_ok.mp h).elim
  · exact record_sized h
  · exact (invalid_eq_ok.mp h).elim

theorem parseAttributes_sized {command : Command} :
    ∀ {remaining : Nat} {bytes : Bytes} {before found : List Attribute},
      (∀ item ∈ before, item.Sized) →
      parseAttributes command ids remaining bytes before = .ok found → ∀ item ∈ found, item.Sized
  | remaining, [], [], found, _, h => by
    simp [parseAttributes] at h
  | remaining, [], first :: before, found, hbefore, h => by
    simp only [parseAttributes] at h
    intro item hmem
    rw [← Outcome.ok.inj h] at hmem
    exact hbefore item (List.mem_reverse.mp hmem)
  | 0, byte :: rest, before, found, _, h => by
    simp [parseAttributes] at h
  | remaining + 1, byte :: rest, before, found, hbefore, h => by
    simp only [parseAttributes, bind_eq_ok] at h
    obtain ⟨⟨item, tail⟩, hnext, h⟩ := h
    refine parseAttributes_sized ?_ h
    exact List.forall_mem_cons.mpr ⟨nextRecord_sized hnext, hbefore⟩

/-- **Numeric records of an accepted frame have the width of their type.** -/
theorem decodeAttributes_numeric {maxAttributes : Nat} {decoded : Attributes}
    (h : decodeAttributes bytes maxAttributes ids = .ok decoded) :
    ∀ item ∈ decoded.attributes, item.Sized := by
  unfold decodeAttributes at h
  split_ifs at h with hguard
  · split at h
    · rename_i found hfound
      cases h
      simp only [attributesOf, bind_eq_ok] at hfound
      obtain ⟨⟨header, payload⟩, -, command, -, attributes, hattributes, hfound⟩ := hfound
      rw [← Outcome.ok.inj hfound]
      exact parseAttributes_sized (by simp) hattributes
    · exact (invalid_eq_ok.mp h).elim
    · exact (invalid_eq_ok.mp h).elim
  · exact (invalid_eq_ok.mp h).elim

end Wotex.Zigbee.Zcl
