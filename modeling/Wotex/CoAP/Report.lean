import Wotex.CoAP.Blockwise

/-!
# Freshness and reports (`observe.ex`, `observation/report.ex`)

A report is the first message of a notification or of a response to a registration, with what its
options say and the time of its arrival; the message with the whole body is filled in later.
-/

namespace Wotex.CoAP

/-- `Observe.fresh?/3`: 24-bit serial arithmetic, or more than 128 seconds. -/
def Observe.fresh (previous current : Nat) (elapsed : Int) : Bool :=
  decide (previous ≤ 16777215 ∧ current ≤ 16777215 ∧ 0 ≤ elapsed)
    && (decide (128000 < elapsed)
      || (decide (current ≠ previous) && decide ((current - previous : Int) % 16777216 < 8388608)))

/-- The options of a report. -/
structure Metadata where
  code : Int
  observe : Nat
  etag : Option Bytes
  contentFormat : Option Nat
  maxAge : Nat
  deriving DecidableEq

structure Report where
  first : Message
  metadata : Metadata
  receivedAt : Int
  message : Option Message

namespace Report

def status (m : Message) : Result Unit :=
  if 64 ≤ m.code ∧ m.code ≤ 94 then .ok ()
  else if 128 ≤ m.code ∧ m.code ≤ 191 then .refuse (.new .remoteResponse (some m.code))
  else failure .invalidObservationResponse

/-- `first_value/3` with the default `nil`; more than one value matches no clause. -/
def firstValue (m : Message) (number : Int) : Result (Option Bytes) :=
  match Codec.option m number with
  | [] => .ok none
  | [value] => .ok (some value)
  | _ => .raise

/-- `integer_option/3` with the default `nil`. -/
def integerOption (m : Message) (number : Int) : Result (Option Nat) := do
  let value ← firstValue m number
  .ok (value.map Bytes.unsigned)

variable (first : Message)

/-- `report.ex:30-51`. -/
def new (now : Int) : Result Report := do
  Codec.validateOptions first
  let _ ← Codec.encode first
  status first
  match Codec.option first 6 with
  | [sequence] =>
    check (decide ((Codec.option first 4).length ≤ 1)) .invalidObservationResponse
    let etag ← firstValue first 4
    let contentFormat ← integerOption first 12
    let maxAge ← integerOption first 14
    .ok ⟨first, ⟨first.code, sequence.unsigned, etag, contentFormat, maxAge.getD 60⟩, now, none⟩
  | _ => failure .invalidObservationResponse

/-- The message with a whole body that the first message stands for. -/
def expected (payload : Bytes) : Message :=
  { first with payload := payload, options := first.options.filter fun e => e.1 ∉ [23, 27] }

/-- `validate_complete/2`; every refusal is the same one. -/
def validateComplete : Option Message → Result Unit
  | none => .ok ()
  | some complete =>
    match Codec.validateOptions complete with
    | .ok () => check (decide (complete.payload.length ≤ 1048576 ∧ complete = expected first complete.payload))
        .invalidObservationResponse
    | _ => failure .invalidObservationResponse

/-- `report.ex:74-86`. -/
def validate (r : Report) : Result Unit :=
  match new r.first r.receivedAt with
  | .ok reconstructed =>
    if r.metadata = reconstructed.metadata then validateComplete r.first r.message
    else failure .invalidObservationResponse
  | .refuse _ => failure .invalidObservationResponse
  | .raise => .raise

def complete (r : Report) (m : Message) : Result Report := do
  validate r
  Codec.validateOptions m
  check (decide (m.payload.length ≤ 1048576 ∧ m = expected r.first m.payload)) .invalidObservationResponse
  .ok { r with message := some m }

theorem new_ok {first : Message} {now : Int} {r : Report} (h : new first now = .ok r) :
    r.first = first ∧ r.receivedAt = now := by
  simp only [new, bind_eq_ok, exists_unit] at h
  obtain ⟨-, _, -, -, h⟩ := h
  split at h
  · simp only [bind_eq_ok, exists_unit] at h
    obtain ⟨-, _, -, _, -, _, -, ⟨⟩⟩ := h
    exact ⟨rfl, rfl⟩
  · cases h

theorem complete_ok {r r' : Report} {m : Message} (h : complete r m = .ok r') :
    r' = { r with message := some m } := by
  simp only [complete, bind_eq_ok, exists_unit, Outcome.ok.injEq] at h
  exact h.2.2.2.symm

end Report

end Wotex.CoAP
