import Wotex.Term.Bytes
import Wotex.Term.Outcome

/-!
# Messages and failures (`message.ex`, `error.ex`)

The fields of a message are typed; numbers are integers, because the codec checks their ranges. A
failure keeps its code, the response code it reports, its retry class and its effect. `retryable` is
`false` everywhere and `field` is `nil` everywhere, so both are left out.
-/

namespace Wotex.CoAP

/-- `type`. -/
inductive MessageType where
  | con | non | ack | rst
  deriving DecidableEq

structure Message where
  type : MessageType
  code : Int
  messageId : Int
  token : Bytes
  options : List (Int × Bytes)
  payload : Bytes
  deriving DecidableEq

/-- The codes of the failures of the modelled functions. -/
inductive Code where
  -- the codec
  | invalidCode | invalidMessageId | invalidToken | invalidOption | optionLimit | invalidEmptyMessage
  | invalidReset | messageTooLarge | invalidHeader | emptyPayloadMarker | unsupportedCriticalOption
  | duplicateOption | invalidOptionLength
  -- blocks and transfers
  | invalidBlockSize | invalidBlock | blockOutOfOrder | invalidBlockPayload | bodyLimit
  | invalidTransferOptions | continuationTokenConflict | invalidContinuation | managedBlockOption
  | invalidRequest | invalidBlockwiseMethod | blockAckMismatch | nonAtomicBlockWrite
  | incompleteBlockWrite | missingBlock | blockSizeChanged | representationChanged
  | incompleteResponse | blockLimit | invalidExchangeResult | exchangeFailed | remoteResponse
  | invalidResponse
  -- exchanges and connections
  | invalidExchange | reset | timeout | connectionClosed | observationActive | busy | canceled
  | exchangeUnavailable | invalidExecution | invalidSubscription | datagramFailed
  -- observations
  | invalidObservationResponse | overlappingEventReport | receiverOverflow | observationStale
  | observationFailed | invalidCancellationResponse
  deriving DecidableEq

/-- `class`. -/
inductive ErrorClass where
  | timeout | unavailable | rateLimited | protocol | permanent
  deriving DecidableEq

/-- `effect`. -/
inductive Effect where
  | none | unknown
  deriving DecidableEq

/-- `Wotex.CoAP.Error`; `remote` is the code in the details. -/
structure Error where
  code : Code
  remote : Option Int
  errorClass : Option ErrorClass
  effect : Effect
  deriving DecidableEq

/-- `error.ex:48-94`. -/
def classify : Code → Option ErrorClass
  | .timeout => some .timeout
  | .connectionClosed | .datagramFailed | .exchangeUnavailable => some .unavailable
  | .busy | .observationActive => some .rateLimited
  | .invalidHeader | .invalidResponse | .remoteResponse | .reset | .invalidBlock | .blockOutOfOrder
  | .invalidBlockPayload | .incompleteResponse | .invalidObservationResponse
  | .invalidCancellationResponse | .representationChanged | .overlappingEventReport
  | .unsupportedCriticalOption | .duplicateOption | .invalidOptionLength | .emptyPayloadMarker =>
    some .protocol
  | .invalidRequest | .invalidExecution | .invalidSubscription | .invalidBlockSize => some .permanent
  | _ => none

def Error.new (code : Code) (remote : Option Int := none) : Error := ⟨code, remote, classify code, .none⟩

def Error.withEffect (e : Error) : Effect → Error
  | .unknown => { e with effect := .unknown, errorClass := some .permanent }
  | .none => { e with effect := .none, errorClass := classify e.code }

/-- What a function of the package returns. -/
abbrev Result (α : Type) := Outcome Error α

def failure {α : Type} (code : Code) : Result α := .refuse (.new code)

/-- One test of a `cond` that fails with a code. -/
def check (b : Bool) (code : Code) : Result Unit := Outcome.require b (.new code)

theorem check_eq_ok {b : Bool} {code : Code} {u : Unit} : check b code = .ok u ↔ b = true :=
  require_eq_ok

end Wotex.CoAP
