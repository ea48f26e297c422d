import Mathlib.Data.List.Lex
import Mathlib.Order.Lattice
import Wotex.Term.Maps
import Wotex.Zigbee.Event
import Wotex.Zigbee.Zcl

/-!
# Expectations and receipts (`freshness/policy.ex`, `freshness/observation.ex`)

* A `Policy` selects one stream of attribute reports or Poll Control check-ins and says how often it
  is expected. `Policy.key` is its selector; selectors are ordered as Erlang orders the tuples, where
  a number comes before `nil` (`PolicyKey.rank`).
* `Observation.build` is what one accepted event means to one policy: nothing, or a receipt with a
  disposition. It reads a record again when the policy has the full range, with a match that would
  raise if that failed. `build_total`: it does not.
* `renews` says on the message what an eligible observation of a stream is; `build_eq_ok`: it is what
  gets one of the eligible dispositions.
-/

namespace Wotex.Zigbee

open Zcl (Direction Attribute)
open List

/-- `kind` of a policy. -/
inductive StreamKind where
  | report | checkin
  deriving DecidableEq

/-- `expected_interval_ms`. -/
inductive Cadence where
  | periodic (interval : Int)
  | onChange
  | disabled
  deriving DecidableEq

structure Policy where
  kind : StreamKind
  peerIeee : Ieee
  remoteEndpoint : Nat
  localEndpoint : Nat
  cluster : Nat
  attributeId : Option Nat
  type : Option Nat
  direction : Direction
  manufacturer : Option Nat
  fullRange : Bool
  expectedInterval : Cadence
  graceMs : Int
  deriving DecidableEq

/-- `key`. -/
structure PolicyKey where
  kind : StreamKind
  peerIeee : Ieee
  remoteEndpoint : Nat
  localEndpoint : Nat
  cluster : Nat
  attributeId : Option Nat
  direction : Direction
  manufacturer : Option Nat
  deriving DecidableEq

namespace PolicyKey

/-- A number or `nil`, in Erlang's order. -/
def optional : Option Nat → List Nat
  | some n => [0, n]
  | none => [1, 0]

/-- The tuple as numbers that are ordered in the same way. -/
def rank (key : PolicyKey) : List Nat :=
  [match key.kind with | .checkin => 0 | .report => 1, key.peerIeee.val, key.remoteEndpoint,
      key.localEndpoint, key.cluster] ++ optional key.attributeId ++
    [match key.direction with | .clientToServer => 0 | .serverToClient => 1] ++
    optional key.manufacturer

theorem optional_injective {a b : Option Nat} (h : optional a = optional b) : a = b := by
  cases a <;> cases b <;> simp_all [optional]

theorem length_optional (a : Option Nat) : (optional a).length = 2 := by
  cases a <;> rfl

theorem rank_injective : Function.Injective rank := by
  rintro ⟨kind, peer, remote, localEndpoint, cluster, id, direction, manufacturer⟩
    ⟨kind', peer', remote', localEndpoint', cluster', id', direction', manufacturer'⟩ h
  simp only [rank, append_assoc] at h
  obtain ⟨hhead, htail⟩ := append_inj h rfl
  obtain ⟨hid, hrest⟩ := append_inj htail (by rw [length_optional, length_optional])
  obtain ⟨hdirection, hmanufacturer⟩ := append_inj hrest rfl
  simp only [cons.injEq, and_true, Fin.val_inj] at hhead hdirection
  obtain ⟨hkind, rfl, rfl, rfl, rfl⟩ := hhead
  obtain rfl := optional_injective hid
  obtain rfl := optional_injective hmanufacturer
  obtain rfl : kind = kind' := by cases kind <;> cases kind' <;> simp_all
  obtain rfl : direction = direction' := by cases direction <;> cases direction' <;> simp_all
  rfl

instance : LinearOrder PolicyKey := LinearOrder.lift' rank rank_injective

end PolicyKey

/-- `endpoint?/1`. -/
def validEndpoint (value : Nat) : Bool := inRange value 1 240

namespace Policy

/-- `@max_interval_ms`. -/
def maxIntervalMs : Int := 31536000000

/-- `cadence?/1`. -/
def validCadence (policy : Policy) : Bool :=
  inRange policy.graceMs 0 maxIntervalMs &&
    match policy.expectedInterval with
    | .periodic interval => inRange interval 1 maxIntervalMs
    | .disabled => policy.graceMs = 0
    | .onChange => policy.kind = .report && policy.graceMs = 0

/-- `type_policy?/2`. -/
def validType (type : Option Nat) (full : Bool) : Bool :=
  match type.map Zcl.category with
  | some (.ok .analog) => true
  | some (.ok .discrete) => !full
  | _ => false

variable (policy : Policy)

/-- `selector?/1`. -/
def validSelector : Bool :=
  match policy.kind with
  | .checkin =>
    policy.cluster = 0x0020 && policy.attributeId = none && policy.type = none &&
      policy.direction = .serverToClient && policy.manufacturer = none && policy.fullRange = false
  | .report =>
    inRange policy.cluster 0 0xFFFF && (policy.attributeId.any fun id => inRange id 0 0xFFFF) &&
      (policy.manufacturer.all fun code => inRange code 0 0xFFFF) &&
      validType policy.type policy.fullRange

def valid : Bool :=
  validIeee policy.peerIeee && validEndpoint policy.remoteEndpoint &&
    validEndpoint policy.localEndpoint && policy.validCadence && policy.validSelector

/-- The tuple of `key/1`. -/
def selector : PolicyKey where
  kind := policy.kind
  peerIeee := policy.peerIeee
  remoteEndpoint := policy.remoteEndpoint
  localEndpoint := policy.localEndpoint
  cluster := policy.cluster
  attributeId := policy.attributeId
  direction := policy.direction
  manufacturer := policy.manufacturer

def key : Option PolicyKey := if policy.valid then some policy.selector else none

theorem key_eq_some {policy : Policy} {key : PolicyKey} :
    policy.key = some key ↔ policy.valid = true ∧ policy.selector = key := by
  unfold Policy.key
  split <;> simp_all

end Policy

/-- `disposition`. -/
inductive Disposition where
  | value | null | checkin | ambiguous | unsupported | wrongType | opaqueTail
  deriving DecidableEq

/-- `receipt`. -/
structure Receipt where
  peerIeee : Ieee
  event : Event
  disposition : Disposition
  records : List Attribute
  deriving DecidableEq

/-- The decoded message of an observation. -/
inductive Message where
  | attributes (message : Zcl.Attributes)
  | pollControl (message : Zcl.PollControl.Message)

namespace Observation

def failure {α : Type} (kind : Kind) : Result α := .refuse ⟨kind, .freshness⟩

@[simp] theorem failure_eq_ok {α : Type} {kind : Kind} {a : α} : failure kind = .ok a ↔ False := by
  simp [failure]

variable (event : Event)

def sourceFields : Bool :=
  event.kind = .afIncoming && event.subsystem = 4 && event.id = 0x81 &&
    decide (event.payload.length ≤ 128) && event.sourceEndpoint.any validEndpoint &&
    event.endpoint.any validEndpoint && (event.sourceAddress.any fun a => inRange a 0 0xFFF7) &&
    event.cluster.any fun c => inRange c 0 0xFFFF

def ownerFields : Bool :=
  event.ownerEpoch.isSome && (event.ownerSequence.any fun s => inRange s 1 maxGeneration) &&
    event.receivedAtMs.any validTime

def metadataFields : Bool :=
  event.status = none && event.zdo = none && (event.transaction.all fun t => inRange t 0 255) &&
    event.linkQuality.all fun q => inRange q 0 255

def validEvent : Bool :=
  sourceFields event && ownerFields event && metadataFields event

/-- `observation.ex:79-86`. -/
def checkin : Result Message :=
  if event.cluster = some 0x0020 then
    match Zcl.PollControl.decode event.payload with
    | .ok message =>
      if message.body = .checkin then .ok (.pollControl message) else failure .invalidFrame
    | .refuse _ | .raise => failure .invalidFrame
  else failure .invalidFrame

def decode : Result Message :=
  match Zcl.decodeAttributes event.payload with
  | .ok message =>
    if message.command = .report then .ok (.attributes message) else failure .unsupportedProfile
  | .refuse _ | .raise => checkin event

def sourceMatches (policy : Policy) (peer : Ieee) (event : Event) : Bool :=
  policy.peerIeee = peer && some policy.remoteEndpoint = event.sourceEndpoint &&
    some policy.localEndpoint = event.endpoint && some policy.cluster = event.cluster

/-- The record has a type outside the catalogue. -/
def unreadable (record : Attribute) : Bool :=
  match record.value with
  | some (.unsupported _) => true
  | _ => false

/-- `observation.ex:120-130`. -/
def disposition (records all : List Attribute) (expectedType : Option Nat) : Disposition :=
  match records with
  | [record] =>
    if unreadable record then .unsupported
    else if record.type ≠ expectedType then .wrongType
    else if all.any unreadable then .opaqueTail
    else if record.value = some .null then .null
    else .value
  | _ => .ambiguous

/-- The record read again with the full range; the match raises where that fails. -/
def reread (record : Attribute) : Result Attribute :=
  match record.type, record.raw with
  | some type, some raw =>
    match Zcl.decodeValue type raw true with
    | .ok ⟨value, _, []⟩ => .ok { record with value := some value }
    | _ => .raise
  | _, _ => .raise

/-- `observation.ex:132-137`. -/
def interpret (records : List Attribute) (disposition : Disposition) (full : Bool) :
    Result (List Attribute) :=
  match records with
  | [record] =>
    if full ∧ (disposition = .value ∨ disposition = .null) then do
      let record ← reread record
      .ok [record]
    else .ok records
  | _ => .ok records

/-- The records of the policy's attribute. -/
def selected (policy : Policy) (attributes : List Attribute) : List Attribute :=
  attributes.filter fun r => some r.id = policy.attributeId

/-- The disposition of a receipt: with the full range there is no null. -/
def settled (found : Disposition) (full : Bool) : Disposition :=
  if found = .null ∧ full then .value else found

variable (policy : Policy) (peer : Ieee) (event : Event)

/-- `receipt/4` for a report policy. -/
def reported (attributes : List Attribute) : Result (Option Receipt) :=
  if selected policy attributes = [] then .ok none
  else do
    let found := disposition (selected policy attributes) attributes policy.type
    let records ← interpret (selected policy attributes) found policy.fullRange
    .ok (some { peerIeee := peer, event, records, disposition := settled found policy.fullRange })

/-- `header_matches?/2` and `receipt/4`. -/
def received : Message → Result (Option Receipt)
  | .pollControl message =>
    if policy.kind = .checkin ∧ message.body = .checkin then
      .ok (some { peerIeee := peer, event, disposition := .checkin, records := [] })
    else .ok none
  | .attributes message =>
    if policy.kind = .report ∧ message.command = .report ∧ policy.direction = message.direction ∧
        policy.manufacturer = message.manufacturer then
      reported policy peer event message.attributes
    else .ok none

def build (message : Message) : Result (Option Receipt) :=
  if sourceMatches policy peer event then received policy peer event message else .ok none

def validReceipt (receipt : Receipt) (policy : Policy) : Bool :=
  validEvent receipt.event &&
    match decode receipt.event with
    | .ok message => build policy receipt.peerIeee receipt.event message = .ok (some receipt)
    | .refuse _ | .raise => false

def eligible (receipt : Receipt) : Bool :=
  receipt.disposition = .value || receipt.disposition = .null || receipt.disposition = .checkin

/-- Exactly one record, of the type, in a message with none of a type outside the catalogue. -/
def plain (records all : List Attribute) (type : Option Nat) : Bool :=
  match records with
  | [record] => record.type = type && !all.any unreadable
  | _ => false

/-- The message is an eligible observation of the policy's stream: a check-in, or a report with a plain
record of the attribute. -/
def renews (message : Message) : Bool :=
  sourceMatches policy peer event &&
    match message with
    | .pollControl message => policy.kind = .checkin && message.body = .checkin
    | .attributes message =>
      policy.kind = .report && message.command = .report && policy.direction = message.direction &&
        policy.manufacturer = message.manufacturer &&
        plain (selected policy message.attributes) message.attributes policy.type

/-! ## Receipts are built -/

variable {event : Event} {policy : Policy} {message : Message}

theorem checkin_ne_attributes {message : Zcl.Attributes} : checkin event ≠ .ok (.attributes message) := by
  unfold checkin
  split_ifs
  · split
    · split_ifs <;> simp
    · simp
    · simp
  · simp

theorem decode_attributes {message : Zcl.Attributes}
    (h : decode event = .ok (.attributes message)) :
    Zcl.decodeAttributes event.payload = .ok message := by
  unfold decode at h
  split at h
  · rename_i found hfound
    split_ifs at h with hreport
    · rw [hfound, Message.attributes.inj (Outcome.ok.inj h)]
    · exact (failure_eq_ok.mp h).elim
  · exact absurd h checkin_ne_attributes
  · exact absurd h checkin_ne_attributes

theorem numeric_of_analog {type : Nat} (h : Zcl.category type = .ok .analog) :
    ∃ width signed, Zcl.numeric type = some (width, signed) := by
  unfold Zcl.category at h
  split_ifs at h with hnumeric hdiscrete
  · obtain ⟨found, hfound⟩ := Option.isSome_iff_exists.mp hnumeric
    exact ⟨found.1, found.2, hfound⟩
  · cases h
  · exact (Zcl.valueFailure_eq_ok.mp h).elim

theorem numeric_of_fullRange (h : policy.valid = true) (hfull : policy.fullRange = true) :
    ∃ type width signed, policy.type = some type ∧ Zcl.numeric type = some (width, signed) := by
  have hselector : policy.validSelector = true := by
    simp only [Policy.valid, Bool.and_eq_true] at h
    exact h.2
  have htype : Policy.validType policy.type true = true := by
    unfold Policy.validSelector at hselector
    split at hselector
    · simp [hfull] at hselector
    · simp only [Bool.and_eq_true] at hselector
      exact hfull ▸ hselector.2
  unfold Policy.validType at htype
  split at htype
  · rename_i hanalog
    obtain ⟨type, ht, hcategory⟩ := Option.map_eq_some_iff.mp hanalog
    obtain ⟨width, signed, hnumeric⟩ := numeric_of_analog hcategory
    exact ⟨type, width, signed, ht, hnumeric⟩
  · simp at htype
  · simp at htype

theorem disposition_plain {records all : List Attribute} {type : Option Nat}
    (h : ∀ record ∈ records, record ∈ all) :
    plain records all type = true ↔
      disposition records all type = .value ∨ disposition records all type = .null := by
  unfold plain disposition
  split
  · rename_i record
    cases hrecord : unreadable record with
    | true =>
      -- An unreadable record of the attribute is one of the message.
      have hall : all.any unreadable = true :=
        any_eq_true.mpr ⟨record, h record (mem_singleton_self _), hrecord⟩
      simp [hall]
    | false =>
      by_cases htype : record.type = type
      · cases hall : all.any unreadable <;> by_cases hnull : record.value = some .null <;>
          simp [htype, hnull]
      · simp [htype]
  · simp

theorem interpret_total {attributes : List Attribute}
    (hpolicy : policy.valid = true) (hsized : ∀ item ∈ attributes, item.Sized) :
    ∃ records, interpret (selected policy attributes)
      (disposition (selected policy attributes) attributes policy.type) policy.fullRange =
        .ok records := by
  unfold interpret
  split
  · rename_i record hrecords
    split_ifs with hfull
    · have hmem : record ∈ attributes := by
        have hselected : record ∈ selected policy attributes := by
          rw [hrecords]
          exact mem_singleton_self _
        exact (mem_filter.mp hselected).1
      obtain ⟨type, width, signed, htype, hnumeric⟩ := numeric_of_fullRange hpolicy hfull.1
      have hrecord : record.type = some type := by
        rw [hrecords] at hfull
        have hplain := (disposition_plain (by simpa using hmem)).mpr hfull.2
        simp only [plain, Bool.and_eq_true, decide_eq_true_eq] at hplain
        exact hplain.1.trans htype
      obtain ⟨hbyte, raw, hraw, hwidth, hshort⟩ :=
        hsized record hmem type width signed hrecord hnumeric
      refine ⟨[{ record with value := some (.int (Zcl.unpack raw width signed)) }], ?_⟩
      have hreread : reread record =
          .ok { record with value := some (.int (Zcl.unpack raw width signed)) } := by
        unfold reread
        rw [hrecord, hraw]
        dsimp only
        rw [Zcl.decodeValue_full hbyte hnumeric hwidth hshort]
      rw [hreread]
      rfl
    · exact ⟨_, rfl⟩
  · exact ⟨_, rfl⟩

/-- **Building a receipt returns**, for a valid policy and a decoded message: the match on a record
read again never fails. -/
theorem build_total (hpolicy : policy.valid = true) (hdecode : decode event = .ok message)
    (peer : Ieee) : ∃ receipt, build policy peer event message = .ok receipt := by
  unfold build
  split_ifs with hsource
  · cases message with
    | pollControl message =>
      rw [received]
      split_ifs <;> exact ⟨_, rfl⟩
    | attributes message =>
      rw [received]
      split_ifs with hheader
      · unfold reported
        split_ifs with hnone
        · exact ⟨_, rfl⟩
        · obtain ⟨records, hrecords⟩ := interpret_total hpolicy
            (Zcl.decodeAttributes_numeric (decode_attributes hdecode))
          dsimp only
          rw [hrecords]
          exact ⟨_, rfl⟩
      · exact ⟨_, rfl⟩
  · exact ⟨_, rfl⟩

variable {peer : Ieee} {receipt : Receipt}

theorem eligible_settled {records all : List Attribute} {type : Option Nat} {full : Bool}
    (h : ∀ record ∈ records, record ∈ all) {receipt : Receipt}
    (hreceipt : receipt.disposition = settled (disposition records all type) full) :
    eligible receipt = plain records all type := by
  have hcheckin : disposition records all type ≠ .checkin := by
    unfold disposition
    split
    · split_ifs <;> simp
    · simp
  rw [Bool.eq_iff_iff, disposition_plain h]
  unfold eligible
  rw [hreceipt, settled]
  cases hfound : disposition records all type <;> cases full <;> simp_all

/-- **What renews a stream**: a message gets an eligible disposition exactly when it is an eligible
observation of the stream, and a receipt is of its peer and event. -/
theorem build_eq_ok {found : Option Receipt} (h : build policy peer event message = .ok found) :
    renews policy peer event message = found.any eligible ∧
      ∀ receipt ∈ found, receipt.peerIeee = peer ∧ receipt.event = event := by
  unfold build at h
  unfold renews
  split_ifs at h with hsource
  · cases message with
    | pollControl message =>
      rw [received] at h
      split_ifs at h with hcheckin
      · cases h
        simp [hsource, hcheckin, eligible]
      · cases h
        simp_all
    | attributes message =>
      rw [received] at h
      split_ifs at h with hheader
      · unfold reported at h
        split_ifs at h with hnone
        · cases h
          simp [hnone, plain]
        · obtain ⟨records, -, h⟩ := bind_eq_ok.mp h
          cases h
          have hmem : ∀ record ∈ selected policy message.attributes, record ∈ message.attributes :=
            fun record hrecord => (mem_filter.mp hrecord).1
          rw [Option.any_some, eligible_settled hmem rfl]
          simp [hsource, hheader]
      · cases h
        simp_all
  · cases h
    simp [hsource]

/-- **A built receipt is valid.** -/
theorem build_validReceipt (hevent : validEvent event = true) (hdecode : decode event = .ok message)
    (h : build policy peer event message = .ok (some receipt)) :
    validReceipt receipt policy = true := by
  obtain ⟨rfl, rfl⟩ := (build_eq_ok h).2 receipt rfl
  simp [validReceipt, hevent, hdecode, h]

end Observation

end Wotex.Zigbee
