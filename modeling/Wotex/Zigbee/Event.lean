import Mathlib.Data.List.Basic
import Wotex.Term.Bytes
import Wotex.Zigbee.Error

/-!
# What the coordinator host observes and sends

The values of `event.ex`, `reply.ex`, `interview/result.ex` and `data_request.ex` that the route
table, the downlink queue and the freshness table read.

* A raw IEEE identity is its 64 bit value, so the order of two binaries is the order of their
  values. `Reference` stands for an Erlang reference, of which only equality is used.
* Of the ZDO responses only the IEEE address response is read; the others are `Zdo.other`.
* An interview step keeps what `Routes.adopt/4` matches on. The confirmation and the decoded
  attributes of a step are left out.
-/

namespace Wotex.Zigbee

def inRange {α : Type} [LE α] [DecidableLE α] (value low high : α) : Bool :=
  decide (low ≤ value) && decide (value ≤ high)

@[simp] theorem inRange_iff {α : Type} [LE α] [DecidableLE α] {value low high : α} :
    inRange value low high = true ↔ low ≤ value ∧ value ≤ high := by
  simp [inRange]

/-- The eight raw EUI-64 bytes. -/
abbrev Ieee := Fin (2 ^ 64)

instance ieee_neZero : NeZero (2 ^ 64) := ⟨by decide⟩

def validIeee (ieee : Ieee) : Bool := ieee ≠ 0 && ieee ≠ 0xFFFFFFFFFFFFFFFF

/-- An Erlang reference. -/
abbrev Reference := Nat

/-- `@max_generation`, `@max_ticket` and `@max_sequence`. -/
def maxGeneration : Nat := 0xFFFFFFFFFFFFFFFF

/-- `@max_time`. -/
def maxTime : Int := 0x7FFFFFFFFFFFFFFF

def validTime (value : Int) : Bool := inRange value (-maxTime) maxTime

/-- The kinds of an indication. -/
inductive EventKind where
  | apsConfirm | afIncoming | zdoIeeeAddress | zdoNodeDescriptor | zdoActiveEndpoints
  | zdoSimpleDescriptor | zdoBind | zdoUnbind | zdoPermitJoin | permitJoinIndication
  | zdoIndication | malformedIndication | unknownIndication
  deriving DecidableEq

/-- A decoded ZDO payload. -/
inductive Zdo where
  | ieeeAddress (status : Nat) (peerIeee : Ieee) (networkAddress : Nat)
  | other
  deriving DecidableEq

structure Event where
  kind : EventKind
  subsystem : Nat
  id : Nat
  payload : Bytes
  status : Option Nat := none
  endpoint : Option Nat := none
  transaction : Option Nat := none
  sourceAddress : Option Nat := none
  sourceEndpoint : Option Nat := none
  cluster : Option Nat := none
  linkQuality : Option Nat := none
  securityUsed : Option Bool := none
  zdo : Option Zdo := none
  ownerEpoch : Option Reference := none
  receivedAtMs : Option Int := none
  ownerSequence : Option Nat := none
  deriving DecidableEq

structure Reply where
  subsystem : Nat
  id : Nat
  status : Nat
  payload : Bytes
  deriving DecidableEq

namespace Interview

/-- `stage`. -/
inductive Stage where
  | identity | node | active
  | simple (endpoint : Nat)
  | basic (endpoint : Nat)
  deriving DecidableEq

/-- The issues of a step: those of the flow itself and the kind it was ended with. -/
inductive Issue where
  | ncpRejected | apsFailure | statusFailure | identityMismatch | overload | invalidEndpoint
  | duplicateAttribute | unexpectedAttribute | missingAttribute | attributeFailure | invalidValue
  | ended (kind : Kind)

/-- One recorded step. -/
structure Step where
  stage : Stage
  admission : Option Reply
  response : Option Event
  issues : List Issue

/-- `outcome`. -/
inductive InterviewOutcome where
  | complete | incomplete

structure Result where
  peerIeee : Ieee
  routeAddress : Nat
  ownerEpoch : Reference
  outcome : InterviewOutcome
  identityMatches : Bool
  steps : List Step

end Interview

structure DataRequest where
  peerIeee : Ieee
  routeAddress : Nat
  destinationEndpoint : Nat
  sourceEndpoint : Nat
  cluster : Nat
  transaction : Nat
  correlationId : Bytes
  data : Bytes
  radius : Nat := 5
  apsAck : Bool := true
  apsSecurity : Bool := true
  deriving DecidableEq

namespace DataRequest

variable (request : DataRequest)

def validTarget : Bool :=
  validIeee request.peerIeee && inRange request.routeAddress 0 0xFFFE &&
    inRange request.destinationEndpoint 1 240 && inRange request.sourceEndpoint 1 240 &&
    inRange request.cluster 0 0xFFFF

def validTransfer : Bool :=
  inRange request.transaction 0 255 && inRange request.correlationId.length 1 64 &&
    decide (request.data.length ≤ 128) && inRange request.radius 1 30

def valid : Bool := request.validTarget && request.validTransfer

end DataRequest

end Wotex.Zigbee
