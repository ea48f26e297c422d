import Wotex.Matter.Base64
import Wotex.Matter.Json
import Wotex.Term.Pairs
import Wotex.Term.Tables

/-!
# The document of the store (`packages/wotex-matter/native/src/storage.cpp:30-120, 272-454`)

`SerializeState` writes the values and, for a bridge, the endpoint registry of one store under its identity;
`ParseState` takes a document back that carries the identity expected of it. Byte strings of the source are
`Bytes`; a `std::map` is an `ExtTreeMap`, whose entries are in key order too. `dump()` throws at a string
that is not UTF-8, which is where `serializeState` has no text for one.

`Writable` says what a document has to hold to be taken back, and `parseState_serializeState` that nothing
else is needed. `SerializeState` itself asks for none of it: it writes an empty key, which `ParseState` then
refuses.
-/

namespace Wotex.Matter

open Std (ExtTreeMap)
open List

/-! ## Identities -/

structure ControllerIdentity where
  fabricId : UInt64
  controllerNodeId : UInt64
  vendorId : UInt16
  deriving DecidableEq

structure BridgeIdentity where
  bridgeId : Bytes
  modelSha256 : Bytes
  vendorId : UInt16
  productId : UInt16
  deriving DecidableEq

inductive Identity where
  | controller (identity : ControllerIdentity)
  | bridge (identity : BridgeIdentity)

/-- `kMaximumOperationalNode`. -/
def maximumOperationalNode : Nat := 0xFFFFFFEFFFFFFFFF

/-- `UINT16_MAX`. -/
def uint16Max : Nat := 65535

/-- `ValidIdentity` of a controller. -/
def ControllerIdentity.valid (identity : ControllerIdentity) : Bool :=
  0 < identity.fabricId.toNat && 0 < identity.controllerNodeId.toNat &&
    identity.controllerNodeId.toNat ≤ maximumOperationalNode && 0 < identity.vendorId.toNat &&
    identity.vendorId.toNat < uint16Max

/-- A lower case hexadecimal digit. -/
def hexByte (b : UInt8) : Bool := (48 ≤ b.toNat && b.toNat ≤ 57) || (97 ≤ b.toNat && b.toNat ≤ 102)

/-- `ValidIdentity` of a bridge. -/
def BridgeIdentity.valid (identity : BridgeIdentity) : Bool :=
  !identity.bridgeId.isEmpty && identity.bridgeId.length ≤ 256 && identity.modelSha256.length == 64 &&
    identity.modelSha256.all hexByte && 0 < identity.vendorId.toNat &&
    identity.vendorId.toNat < uint16Max && 0 < identity.productId.toNat

/-- `ValidIdentity`. -/
def Identity.valid : Identity → Bool
  | .controller identity => identity.valid
  | .bridge identity => identity.valid

/-! ## Keys -/

/-- A continuation byte. -/
def continues (b : UInt8) : Bool := b.toNat / 64 == 2

/-- `ValidUtf8`: UTF-8 without the byte zero. -/
def validUtf8 : Bytes → Bool
  | [] => true
  | first :: rest =>
    let f := first.toNat
    if f = 0 then false
    else if f ≤ 0x7F then validUtf8 rest
    else if 0xC2 ≤ f ∧ f ≤ 0xDF then
      match rest with
      | a :: rest => continues a && validUtf8 rest
      | _ => false
    else if 0xE0 ≤ f ∧ f ≤ 0xEF then
      match rest with
      | a :: b :: rest =>
        let point := (f % 16 * 64 + a.toNat % 64) * 64 + b.toNat % 64
        continues a && continues b && !(point < 0x800) && !(0xD800 ≤ point && point ≤ 0xDFFF) &&
          validUtf8 rest
      | _ => false
    else if 0xF0 ≤ f ∧ f ≤ 0xF4 then
      match rest with
      | a :: b :: c :: rest =>
        let point := ((f % 8 * 64 + a.toNat % 64) * 64 + b.toNat % 64) * 64 + c.toNat % 64
        continues a && continues b && continues c && !(point < 0x10000) && !(0x10FFFF < point) &&
          validUtf8 rest
      | _ => false
    else false

/-- `kMaximumKeyBytes`. -/
def maximumKeyBytes : Nat := 255

/-- A key that is not empty, not too long and UTF-8: `ValidKey` and the check of `ParseState`. -/
def validKey (key : Bytes) : Bool := !key.isEmpty && key.length ≤ maximumKeyBytes && validUtf8 key

/-! ## What a store holds -/

abbrev Values := ExtTreeMap Bytes Bytes

inductive BridgedDeviceType where
  | onOffLight
  | temperatureSensor
  deriving DecidableEq

namespace BridgedDeviceType

/-- The number of a device type. -/
def code : BridgedDeviceType → Nat
  | .onOffLight => 0x0100
  | .temperatureSensor => 0x0302

/-- The device type of a number. -/
def ofCode? (n : Nat) : Option BridgedDeviceType :=
  if n = 0x0100 then some .onOffLight else if n = 0x0302 then some .temperatureSensor else none

@[simp] theorem ofCode_code (t : BridgedDeviceType) : ofCode? t.code = some t := by
  cases t <;> rfl

end BridgedDeviceType

structure BridgeEndpoint where
  endpoint : Nat
  deviceType : BridgedDeviceType
  deriving DecidableEq

abbrev Endpoints := ExtTreeMap Bytes BridgeEndpoint

/-- What one commit writes. -/
structure Contents where
  values : Values
  endpoints : Endpoints
  nextEndpoint : Nat

instance : DecidableEq Contents := fun a b =>
  decidable_of_iff (a.values = b.values ∧ a.endpoints = b.endpoints ∧ a.nextEndpoint = b.nextEndpoint)
    (by cases a; cases b; simp)

/-- `kMaximumKeys`. -/
def maximumKeys : Nat := 4096

/-- `kMaximumFileBytes`. -/
def maximumFileBytes : Nat := 16 * 1024 * 1024

/-- `kMaximumLiveEndpoints`. -/
def maximumLiveEndpoints : Nat := 16

/-- `kFirstEndpoint`. -/
def firstEndpoint : Nat := 3

/-- `kMaximumEndpoint`. -/
def maximumEndpoint : Nat := 65534

/-- The longest name of a thing. -/
def maximumThingBytes : Nat := 256

/-! ## Writing -/

/-- `kSchema`. -/
def storeSchema : Text := "wotex.matter.store"

/-- `kBridgeSchema`. -/
def bridgeSchema : Text := "wotex.matter.bridge-store"

/-- One entry of `encoded_values`. -/
def valueMember (entry : Bytes × Bytes) : Option (Text × Json) :=
  entry.1.text?.map fun key => (key, .string (base64Encode entry.2))

/-- One entry of `active`. -/
def activeEntry (entry : Bytes × BridgeEndpoint) : Json :=
  .object
    [("thing", .string (base64Encode entry.1)), ("endpoint", .unsigned entry.2.endpoint),
      ("device_type", .unsigned entry.2.deviceType.code)]

/-- The registry as it is written. -/
def registryDocument (endpoints : Endpoints) (next : Nat) : Json :=
  .object [("next", .unsigned next), ("active", .array (endpoints.toList.map activeEntry))]

/-- The members of the document of a controller. -/
def controllerMembers (identity : ControllerIdentity) (values : Json) : List (Text × Json) :=
  [("schema", .string storeSchema), ("version", .unsigned 1),
    ("fabric_id", .unsigned identity.fabricId.toNat),
    ("controller_node_id", .unsigned identity.controllerNodeId.toNat),
    ("vendor_id", .unsigned identity.vendorId.toNat),
    ("authority", .string "generate_root"), ("values", values)]

/-- The members of the document of a bridge. -/
def bridgeMembers (identity : BridgeIdentity) (sha256 : Text) (contents : Contents) (values : Json) :
    List (Text × Json) :=
  [("schema", .string bridgeSchema), ("version", .unsigned 1),
    ("bridge_id", .string (base64Encode identity.bridgeId)),
    ("model_sha256", .string sha256), ("vendor_id", .unsigned identity.vendorId.toNat),
    ("product_id", .unsigned identity.productId.toNat),
    ("endpoints", registryDocument contents.endpoints contents.nextEndpoint),
    ("values", values)]

variable (identity : Identity) (contents : Contents)

/-- The document of `SerializeState`, where every string of it is UTF-8. -/
def stateDocument : Option Json := do
  let values ← contents.values.toList.mapM valueMember
  match identity with
  | .controller identity => some (.object (controllerMembers identity (.object values)))
  | .bridge identity => do
    let sha256 ← identity.modelSha256.text?
    some (.object (bridgeMembers identity sha256 contents (.object values)))

/-- `SerializeState`. -/
def serializeState : Option Bytes := do
  let document ← stateDocument identity contents
  let bytes := (document.dump ++ ['\n']).utf8
  if bytes.length ≤ maximumFileBytes then some bytes else none

/-! ## Reading -/

namespace Json

/-- `document[key]`. -/
def member (key : Text) : Json → Option Json
  | .object members => members.lookup key
  | _ => none

/-- The value of an unsigned number. -/
def unsigned? : Json → Option Nat
  | .unsigned n => some n
  | _ => none

/-- The value of a string. -/
def string? : Json → Option Text
  | .string s => some s
  | _ => none

/-- The items of an array. -/
def array? : Json → Option (List Json)
  | .array items => some items
  | _ => none

/-- The members of an object. -/
def object? : Json → Option (List (Text × Json))
  | .object members => some members
  | _ => none

variable (document : Json) (key : Text)

/-- An unsigned number of an object. -/
def unsignedAt : Option Nat := document.member key >>= unsigned?

/-- A string of an object. -/
def stringAt : Option Text := document.member key >>= string?

end Json

/-- The keys of an object and no others. -/
def sameKeys (keys expected : List Text) : Bool :=
  keys.length == expected.length && keys.all expected.contains && expected.all keys.contains

variable (document : Json)

/-- `ExactKeys`. -/
def exactKeys (expected : List Text) : Bool :=
  match document with
  | .object members => sameKeys (members.map Prod.fst) expected
  | _ => false

/-- `ParseController`. -/
def parseController (expected : ControllerIdentity) : Option Unit := do
  guard (exactKeys document
    ["authority", "controller_node_id", "fabric_id", "schema", "values",
      "vendor_id", "version"])
  guard ((← document.stringAt "schema") = storeSchema)
  let fabricId ← document.unsignedAt "fabric_id"
  let controllerNodeId ← document.unsignedAt "controller_node_id"
  let vendorId ← document.unsignedAt "vendor_id"
  guard ((← document.stringAt "authority") = "generate_root")
  guard (vendorId ≠ 0 ∧ vendorId < uint16Max)
  let identity : ControllerIdentity :=
    ⟨UInt64.ofNat fabricId, UInt64.ofNat controllerNodeId, UInt16.ofNat vendorId⟩
  guard (identity.valid ∧ identity = expected)

/-- One entry of the registry, the checks against the other entries apart. -/
def parseEntry (next : Nat) (entry : Json) : Option (Bytes × BridgeEndpoint) := do
  guard (exactKeys entry ["device_type", "endpoint", "thing"])
  let endpoint ← entry.unsignedAt "endpoint"
  let deviceType ← entry.unsignedAt "device_type" >>= BridgedDeviceType.ofCode?
  let thing ← entry.stringAt "thing" >>= base64Decode
  guard (firstEndpoint ≤ endpoint ∧ endpoint < next ∧ thing ≠ [] ∧ thing.length ≤ maximumThingBytes)
  some (thing, ⟨endpoint, deviceType⟩)

/-- The registry of a bridge: no number twice and no thing twice. -/
def parseRegistry (registry : Json) : Option (Endpoints × Nat) := do
  guard (exactKeys registry ["active", "next"])
  let next ← registry.unsignedAt "next"
  let items ← registry.member "active" >>= Json.array?
  guard (items.length ≤ maximumLiveEndpoints)
  guard (firstEndpoint ≤ next ∧ next ≤ maximumEndpoint + 1)
  let active ← items.mapM (parseEntry next)
  guard ((active.map fun e => e.2.endpoint).Nodup ∧ (active.map Prod.fst).Nodup)
  some (ExtTreeMap.ofList active, next)

/-- `ParseBridge`. -/
def parseBridge (expected : BridgeIdentity) : Option (Endpoints × Nat) := do
  guard (exactKeys document
    ["bridge_id", "endpoints", "model_sha256", "product_id", "schema",
      "values", "vendor_id", "version"])
  guard ((← document.stringAt "schema") = bridgeSchema)
  let bridgeId ← document.stringAt "bridge_id" >>= base64Decode
  let modelSha256 ← document.stringAt "model_sha256"
  let vendorId ← document.unsignedAt "vendor_id"
  let productId ← document.unsignedAt "product_id"
  guard (vendorId ≠ 0 ∧ vendorId < uint16Max ∧ productId ≠ 0 ∧ productId ≤ uint16Max)
  let identity : BridgeIdentity :=
    ⟨bridgeId, modelSha256.utf8, UInt16.ofNat vendorId, UInt16.ofNat productId⟩
  guard (identity.valid ∧ identity = expected)
  document.member "endpoints" >>= parseRegistry

/-- One entry of `document["values"]`. -/
def parseValue (entry : Text × Json) : Option (Bytes × Bytes) := do
  guard (validKey entry.1.utf8)
  let value ← entry.2.string? >>= base64Decode
  some (entry.1.utf8, value)

/-- The identity of the document, with the registry that the identity has. -/
def parseIdentity : Identity → Option (Endpoints × Nat)
  | .controller expected => (parseController document expected).map fun _ => (∅, firstEndpoint)
  | .bridge expected => parseBridge document expected

/-- `ParseState` behind the reading of the text. -/
def parseDocument (expected : Identity) : Option Contents := do
  guard ((← document.unsignedAt "version") = 1)
  let members ← document.member "values" >>= Json.object?
  guard (members.length ≤ maximumKeys)
  let (endpoints, next) ← parseIdentity document expected
  let values ← members.mapM parseValue
  some ⟨ExtTreeMap.ofList values, endpoints, next⟩

/-- `ParseState`. -/
def parseState (contents : Bytes) (expected : Identity) : Option Contents := do
  parseDocument (← Json.parse contents) expected

/-! ## What reads back -/

/-- A registry that `ParseBridge` takes. -/
structure Registered (endpoints : Endpoints) (next : Nat) : Prop where
  first_le : firstEndpoint ≤ next
  next_le : next ≤ maximumEndpoint + 1
  size_le : endpoints.size ≤ maximumLiveEndpoints
  entry : ∀ {thing : Bytes} {e : BridgeEndpoint}, endpoints[thing]? = some e →
    firstEndpoint ≤ e.endpoint ∧ e.endpoint < next ∧ thing ≠ [] ∧ thing.length ≤ maximumThingBytes
  single : ∀ {thing other : Bytes} {e e' : BridgeEndpoint}, endpoints[thing]? = some e →
    endpoints[other]? = some e' → e.endpoint = e'.endpoint → thing = other

/-- The registry of an identity: that of a controller is empty. -/
def Identity.Registry (identity : Identity) (endpoints : Endpoints) (next : Nat) : Prop :=
  match identity with
  | .controller _ => endpoints = ∅ ∧ next = firstEndpoint
  | .bridge _ => Registered endpoints next

/-- What the store commits, and what a document has to hold to be taken back. -/
structure Writable (identity : Identity) (contents : Contents) : Prop where
  valid : identity.valid = true
  size_le : contents.values.size ≤ maximumKeys
  entry : ∀ {key value : Bytes}, contents.values[key]? = some value →
    validKey key = true ∧ value.length ≤ maximumValueBytes
  registry : identity.Registry contents.endpoints contents.nextEndpoint

/-! ### Values -/

section Values

variable {values : Values} {members : List (Text × Json)}

theorem valueMember_eq_some {entry : Bytes × Bytes} {m : Text × Json} (h : valueMember entry = some m) :
    m.1.utf8 = entry.1 ∧ m.2 = .string (base64Encode entry.2) := by
  obtain ⟨key, hkey, rfl⟩ := Option.map_eq_some_iff.mp h
  exact ⟨Text.utf8_of_text hkey, rfl⟩

section

variable (h : values.toList.mapM valueMember = some members)
include h

theorem length_members : members.length = values.size := by
  rw [← (mapM_eq_some_iff.mp h).length_eq, ExtTreeMap.length_toList]

theorem fits_values (room : Nat) : Json.Fits (room + 2) (.object members) := by
  have hpairs := mapM_eq_some_iff.mp h
  constructor
  · have hkeys : (members.map Prod.fst).map Text.utf8 = values.toList.map Prod.fst := by
      rw [map_map]
      exact map_eq_of_forall₂ (f := Prod.fst) (g := fun m : Text × Json => m.1.utf8)
        (fun _ _ hm => (valueMember_eq_some hm).1) hpairs
    exact List.Nodup.of_map Text.utf8 (hkeys ▸ Maps.nodup_keys values)
  · intro m hm
    obtain ⟨e, -, he⟩ := forall₂_exists_left hpairs hm
    rw [(valueMember_eq_some he).2]
    trivial

/-- **The values read back.** -/
theorem parseValues (entry : ∀ {key value}, values[key]? = some value →
      validKey key = true ∧ value.length ≤ maximumValueBytes) :
    members.mapM parseValue = some values.toList := by
  rw [mapM_eq_some_iff]
  have hall : ∀ e ∈ values.toList, validKey e.1 = true ∧ e.2.length ≤ maximumValueBytes :=
    fun e he => entry (ExtTreeMap.mem_toList_iff_getElem?_eq_some.mp he)
  refine List.Forall₂.flip (((forall₂_and_left _ _).mpr ⟨hall, mapM_eq_some_iff.mp h⟩).imp ?_)
  rintro ⟨key, value⟩ ⟨text, json⟩ ⟨⟨hkey, hlen⟩, hm⟩
  obtain ⟨htext, hjson⟩ := valueMember_eq_some hm
  dsimp only at htext hjson hkey hlen
  subst htext hjson
  simp [flip, parseValue, hkey, Json.string?, base64Decode_base64Encode hlen]

end

end Values

/-! ### Identities -/

theorem fits_controller (identity : ControllerIdentity) {values : Json} {room : Nat}
    (h : Json.Fits (room + 1) values) :
    Json.Fits (room + 2) (.object (controllerMembers identity values)) := by
  have h1 := identity.fabricId.toNat_lt
  have h2 := identity.controllerNodeId.toNat_lt
  have h3 := identity.vendorId.toNat_lt
  refine ⟨by simp [controllerMembers]; decide, ?_⟩
  simp only [controllerMembers, forall_mem_cons]
  exact ⟨trivial, (by decide : 1 < 2 ^ 64), h1, h2, h3.trans (by decide), trivial, h, nofun⟩

/-- **The identity of a controller reads back.** -/
theorem parseController_members {identity : ControllerIdentity} (h : identity.valid = true)
    (values : Json) :
    parseController (.object (controllerMembers identity values)) identity = some () := by
  have hvendor : identity.vendorId.toNat ≠ 0 ∧ identity.vendorId.toNat < uint16Max := by
    simp only [ControllerIdentity.valid, Bool.and_eq_true, decide_eq_true_eq] at h
    omega
  refine Option.bind_eq_some_iff.mpr ⟨(), if_pos hvendor, ?_⟩
  simp [h]

theorem fits_entry {entry : Bytes × BridgeEndpoint} (h : entry.2.endpoint < 2 ^ 64) (room : Nat) :
    Json.Fits (room + 2) (activeEntry entry) := by
  have hcode : entry.2.deviceType.code < 2 ^ 64 := by
    cases entry.2.deviceType <;> decide
  refine ⟨by simp; decide, ?_⟩
  simp only [forall_mem_cons]
  exact ⟨trivial, h, hcode, nofun⟩

theorem parseEntry_activeEntry {next : Nat} {entry : Bytes × BridgeEndpoint}
    (h : firstEndpoint ≤ entry.2.endpoint ∧ entry.2.endpoint < next ∧ entry.1 ≠ [] ∧
      entry.1.length ≤ maximumThingBytes) : parseEntry next (activeEntry entry) = some entry := by
  obtain ⟨thing, endpoint, deviceType⟩ := entry
  have hlen : thing.length ≤ maximumValueBytes := h.2.2.2.trans (by decide)
  refine Option.bind_eq_some_iff.mpr ⟨_, BridgedDeviceType.ofCode_code deviceType, ?_⟩
  refine Option.bind_eq_some_iff.mpr ⟨_, base64Decode_base64Encode hlen, ?_⟩
  simp [guard, if_pos h]

section Registry

variable {endpoints : Endpoints} {next : Nat}

variable (h : Registered endpoints next)
include h

theorem Registered.mem {e : Bytes × BridgeEndpoint} (he : e ∈ endpoints.toList) :
    firstEndpoint ≤ e.2.endpoint ∧ e.2.endpoint < next ∧ e.1 ≠ [] ∧ e.1.length ≤ maximumThingBytes :=
  h.entry (ExtTreeMap.mem_toList_iff_getElem?_eq_some.mp he)

theorem Registered.nodup : (endpoints.toList.map fun e => e.2.endpoint).Nodup := by
  rw [nodup_iff_pairwise_ne, pairwise_map]
  refine (pairwise_map.mp (nodup_iff_pairwise_ne.mp (Maps.nodup_keys endpoints))).imp_of_mem ?_
  intro a b ha hb hne heq
  exact hne (h.single (ExtTreeMap.mem_toList_iff_getElem?_eq_some.mp ha)
    (ExtTreeMap.mem_toList_iff_getElem?_eq_some.mp hb) heq)

theorem fits_registry (room : Nat) : Json.Fits (room + 4) (registryDocument endpoints next) := by
  have hnext : next < 2 ^ 64 := lt_of_le_of_lt h.next_le (by decide)
  refine ⟨by simp; decide, ?_⟩
  simp only [forall_mem_cons]
  refine ⟨hnext, forall_mem_map.mpr fun e he => ?_, nofun⟩
  exact fits_entry ((h.mem he).2.1.trans hnext) room

/-- **The registry reads back.** -/
theorem parseRegistry_registryDocument :
    parseRegistry (registryDocument endpoints next) = some (endpoints, next) := by
  have hread : (endpoints.toList.map activeEntry).mapM (parseEntry next) = some endpoints.toList := by
    rw [mapM_eq_some_iff, forall₂_map_left_iff]
    exact forall₂_same.mpr fun e he => parseEntry_activeEntry (h.mem he)
  have hlen : (endpoints.toList.map activeEntry).length ≤ maximumLiveEndpoints := by
    rw [length_map, ExtTreeMap.length_toList]
    exact h.size_le
  refine Option.bind_eq_some_iff.mpr ⟨(), if_pos hlen, ?_⟩
  refine Option.bind_eq_some_iff.mpr ⟨(), if_pos (And.intro h.first_le h.next_le), ?_⟩
  refine Option.bind_eq_some_iff.mpr ⟨_, hread, ?_⟩
  refine Option.bind_eq_some_iff.mpr ⟨(), if_pos (And.intro h.nodup (Maps.nodup_keys endpoints)), ?_⟩
  rw [Tables.ofList_toList]

end Registry

variable {contents : Contents} {identity : Identity}

section

variable {identity : BridgeIdentity} {sha256 : Text}

theorem fits_bridge {values : Json} (room : Nat)
    (h : Registered contents.endpoints contents.nextEndpoint) (hv : Json.Fits (room + 4) values) :
    Json.Fits (room + 5) (.object (bridgeMembers identity sha256 contents values)) := by
  have h1 := identity.vendorId.toNat_lt
  have h2 := identity.productId.toNat_lt
  refine ⟨by simp [bridgeMembers]; decide, ?_⟩
  simp only [bridgeMembers, forall_mem_cons]
  exact ⟨trivial, (by decide : 1 < 2 ^ 64), trivial, trivial, h1.trans (by decide), h2.trans (by decide),
    fits_registry h room, hv, nofun⟩

/-- **The identity and the registry of a bridge read back.** -/
theorem parseBridge_members (hvalid : identity.valid = true)
    (hsha : identity.modelSha256.text? = some sha256)
    (h : Registered contents.endpoints contents.nextEndpoint) (values : Json) :
    parseBridge (.object (bridgeMembers identity sha256 contents values)) identity =
      some (contents.endpoints, contents.nextEndpoint) := by
  have hv := hvalid
  simp only [BridgeIdentity.valid, Bool.and_eq_true, decide_eq_true_eq] at hv
  have hids : identity.vendorId.toNat ≠ 0 ∧ identity.vendorId.toNat < uint16Max ∧
      identity.productId.toNat ≠ 0 ∧ identity.productId.toNat ≤ uint16Max := by
    have := identity.productId.toNat_lt
    have : uint16Max = 65535 := rfl
    omega
  have hlen : identity.bridgeId.length ≤ maximumValueBytes := by
    have : maximumValueBytes = 65535 := rfl
    omega
  have hidentity : (⟨identity.bridgeId, sha256.utf8, UInt16.ofNat identity.vendorId.toNat,
      UInt16.ofNat identity.productId.toNat⟩ : BridgeIdentity) = identity := by
    rw [Text.utf8_of_text hsha]
    simp
  refine Option.bind_eq_some_iff.mpr ⟨_, base64Decode_base64Encode hlen, ?_⟩
  iterate 3 refine Option.bind_eq_some_iff.mpr ⟨_, rfl, ?_⟩
  refine Option.bind_eq_some_iff.mpr ⟨(), if_pos hids, ?_⟩
  rw [hidentity]
  refine Option.bind_eq_some_iff.mpr ⟨(), if_pos ⟨hvalid, rfl⟩, ?_⟩
  exact parseRegistry_registryDocument h

end

/-! ### Documents -/

section

variable {document : Json} (h : Writable identity contents)
  (hd : stateDocument identity contents = some document)
include h hd

theorem fits_stateDocument : Json.Fits 9 document := by
  obtain ⟨members, hm, hd⟩ := Option.bind_eq_some_iff.mp hd
  cases identity with
  | controller identity =>
    cases hd
    exact fits_controller identity (fits_values hm 6)
  | bridge identity =>
    obtain ⟨sha256, -, hd⟩ := Option.bind_eq_some_iff.mp hd
    cases hd
    exact fits_bridge 4 h.registry (fits_values hm 6)

theorem parseDocument_stateDocument : parseDocument document identity = some contents := by
  obtain ⟨members, hm, hd⟩ := Option.bind_eq_some_iff.mp hd
  have hlen : members.length ≤ maximumKeys := length_members hm ▸ h.size_le
  have hvalues := parseValues hm h.entry
  -- behind the identity, both documents are read alike
  have hrest : ∀ document, document.unsignedAt "version" = some 1 →
      document.member "values" = some (.object members) →
      parseIdentity document identity = some (contents.endpoints, contents.nextEndpoint) →
      parseDocument document identity = some contents := by
    intro document hversion hmembers hidentity
    simp [parseDocument, hversion, hmembers, hidentity, hvalues, hlen, Json.object?, Tables.ofList_toList]
  cases identity with
  | controller identity =>
    cases hd
    refine hrest _ rfl rfl ?_
    rw [parseIdentity, parseController_members h.valid, h.registry.1, h.registry.2]
    rfl
  | bridge identity =>
    obtain ⟨sha256, hsha, hd⟩ := Option.bind_eq_some_iff.mp hd
    cases hd
    exact hrest _ rfl rfl (parseBridge_members h.valid hsha h.registry _)

end

/-- **What was serialized reads back**, for everything the store commits. -/
theorem parseState_serializeState {bytes : Bytes} (h : Writable identity contents)
    (hs : serializeState identity contents = some bytes) :
    parseState bytes identity = some contents := by
  obtain ⟨document, hd, hs⟩ := Option.bind_eq_some_iff.mp hs
  obtain ⟨-, hs⟩ := Option.ite_none_right_eq_some.mp hs
  cases hs
  rw [parseState, Json.parse_dump (fits_stateDocument h hd)]
  exact parseDocument_stateDocument h hd

end Wotex.Matter
