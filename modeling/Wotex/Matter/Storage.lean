import Wotex.Matter.Document
import Wotex.Term.Disk

/-!
# The durable store (`DurableStorage`, `BridgeStorage`: `storage.cpp:225-270, 507-773` and
`bridge_storage.cpp` of `packages/wotex-matter/native/src`)

A store is the values and the endpoint registry of one identity, in memory and in the file `store.json` of a
directory of its own. Every change writes the whole document: to `store.tmp`, then the marker `store.pending`,
then a rename over `store.json`, then the marker is removed, with an `fsync` behind each of these. A commit
that fails poisons the store. Opening a store refuses a directory in which `store.tmp` or `store.pending`
is left.

The world is the directory, which may not be there, and the open store, of which there is at most one since
the lock file is held. An operation comes with the fates of the calls its commit makes, so that it can fail
at each of them, or the process can end there; a power loss comes with the changes of the directory that
survive it and with what is found in a file that was not synced. It may also take the directory itself, for
`mkdir` is never followed by an `fsync` of the parent.

Ownership and mode of the files are not modelled: every file in the directory is one the store has made.
-/

namespace Wotex.Matter

open Std (ExtTreeMap)

/-- The files of a store. -/
inductive Name where
  /-- `store.json`. -/
  | state
  /-- `store.lock`. -/
  | lock
  /-- `store.tmp`. -/
  | temporary
  /-- `store.pending`. -/
  | intent
  deriving DecidableEq

/-- The errors of `CHIP_ERROR` that a store answers. -/
inductive ChipError where
  | invalidArgument
  | openFailed
  | persistedStorageFailed
  | persistedStorageValueNotFound
  | bufferTooSmall
  | endpointPoolFull
  | notFound
  deriving DecidableEq

/-- `DurableStorage`. -/
structure Store where
  contents : Contents
  poisoned : Bool

/-- What a call of the store answers. -/
inductive Reply where
  | error (e : ChipError)
  | done
  | opened (contents : Contents)
  | value (copied : Bytes) (complete : Bool)
  | endpoint (e : BridgeEndpoint)
  | endpoints (active : Endpoints)
  | retired (retired : Bool)
  deriving DecidableEq

/-! ## Operations -/

/-- What an operation does: it answers at once, or it commits and answers where that succeeds. -/
inductive Plan where
  | answer (reply : Reply)
  | commit (next : Contents) (reply : Reply)

/-- `ValidKey`: a key that is not a null pointer. -/
def normalized (key : Option Bytes) : Option Bytes := key.filter validKey

variable (store : Store)

/-- `SyncGetKeyValue`, with a buffer of `size` bytes or without one. -/
def syncGetKeyValue (key : Option Bytes) (buffer : Bool) (size : UInt16) : Plan :=
  if store.poisoned then .answer (.error .persistedStorageFailed)
  else
    match normalized key with
    | none => .answer (.error .invalidArgument)
    | some key =>
      if !buffer && 0 < size.toNat then .answer (.error .invalidArgument)
      else
        match store.contents.values[key]? with
        | none => .answer (.error .persistedStorageValueNotFound)
        | some value => .answer (.value (value.take size.toNat) (value.length ≤ size.toNat))

/-- `SyncSetKeyValue`, with a value of at least `size` bytes or a null pointer. -/
def syncSetKeyValue (key value : Option Bytes) (size : UInt16) : Plan :=
  if store.poisoned then .answer (.error .persistedStorageFailed)
  else
    match normalized key with
    | none => .answer (.error .invalidArgument)
    | some key =>
      if value.isNone && 0 < size.toNat then .answer (.error .invalidArgument)
      else if store.contents.values[key]? = none ∧ maximumKeys ≤ store.contents.values.size then
        .answer (.error .persistedStorageFailed)
      else
        let bytes := (value.getD []).take size.toNat
        .commit { store.contents with values := store.contents.values.insert key bytes } .done

/-- `SyncDeleteKeyValue`. -/
def syncDeleteKeyValue (key : Option Bytes) : Plan :=
  if store.poisoned then .answer (.error .persistedStorageFailed)
  else
    match normalized key with
    | none => .answer (.error .invalidArgument)
    | some key =>
      if store.contents.values[key]? = none then .answer (.error .persistedStorageValueNotFound)
      else .commit { store.contents with values := store.contents.values.erase key } .done

/-- `ValidThing`. -/
def validThing (thing : Bytes) : Bool := !thing.isEmpty && thing.length ≤ maximumThingBytes

variable (store : Store)

/-- `BridgeStorage::Allocate`. -/
def allocate (thing : Bytes) (type : BridgedDeviceType) : Plan :=
  if store.poisoned then .answer (.error .persistedStorageFailed)
  else if !validThing thing then .answer (.error .invalidArgument)
  else
    match store.contents.endpoints[thing]? with
    | some found =>
      if found.deviceType = type then .answer (.endpoint found) else .answer (.error .invalidArgument)
    | none =>
      if maximumLiveEndpoints ≤ store.contents.endpoints.size ∨
          maximumEndpoint < store.contents.nextEndpoint then
        .answer (.error .endpointPoolFull)
      else
        let allocated : BridgeEndpoint := ⟨store.contents.nextEndpoint % 2 ^ 16, type⟩
        .commit
          { store.contents with
            endpoints := store.contents.endpoints.insert thing allocated
            nextEndpoint := store.contents.nextEndpoint + 1 }
          (.endpoint allocated)

/-- `BridgeStorage::Remove`. -/
def remove (thing : Bytes) : Plan :=
  if store.poisoned then .answer (.error .persistedStorageFailed)
  else if !validThing thing then .answer (.error .invalidArgument)
  else if store.contents.endpoints[thing]? = none then .answer (.error .notFound)
  else .commit { store.contents with endpoints := store.contents.endpoints.erase thing } .done

/-- `BridgeStorage::Lookup`. -/
def lookup (thing : Bytes) : Plan :=
  if store.poisoned then .answer (.error .persistedStorageFailed)
  else if !validThing thing then .answer (.error .invalidArgument)
  else
    match store.contents.endpoints[thing]? with
    | none => .answer (.error .notFound)
    | some found => .answer (.endpoint found)

/-- `BridgeStorage::Endpoints`. -/
def endpoints : Plan :=
  if store.poisoned then .answer (.error .persistedStorageFailed)
  else .answer (.endpoints store.contents.endpoints)

/-- `BridgeStorage::Retired`. -/
def retired (endpoint : Nat) : Plan :=
  if store.poisoned then .answer (.error .persistedStorageFailed)
  else if endpoint < firstEndpoint ∨ maximumEndpoint < endpoint then .answer (.error .invalidArgument)
  else
    .answer (.retired (endpoint < store.contents.nextEndpoint &&
      store.contents.endpoints.toList.all fun e => e.2.endpoint != endpoint))

/-- An operation on an open store. -/
inductive Operation where
  | get (key : Option Bytes) (buffer : Bool) (size : UInt16)
  | set (key value : Option Bytes) (size : UInt16)
  | delete (key : Option Bytes)
  | allocate (thing : Bytes) (type : BridgedDeviceType)
  | remove (thing : Bytes)
  | lookup (thing : Bytes)
  | endpoints
  | retired (endpoint : Nat)

/-- The plan of an operation. The operations on endpoints are those of a `BridgeStorage`, which has the
identity of a bridge; `none` without one. -/
def plan (identity : Identity) (store : Store) : Operation → Option Plan
  | .get key buffer size => some (syncGetKeyValue store key buffer size)
  | .set key value size => some (syncSetKeyValue store key value size)
  | .delete key => some (syncDeleteKeyValue store key)
  | operation =>
    match identity, operation with
    | .bridge _, .allocate thing type => some (allocate store thing type)
    | .bridge _, .remove thing => some (remove store thing)
    | .bridge _, .lookup thing => some (lookup store thing)
    | .bridge _, .endpoints => some (endpoints store)
    | .bridge _, .retired endpoint => some (retired store endpoint)
    | _, _ => none

/-! ## Commits -/

/-- `CleanCommitState`. -/
def cleanCommitState (disk : Disk Name) : Bool :=
  (disk.entries .temporary).isNone && (disk.entries .intent).isNone

/-- What the marker holds. -/
def pendingMark : Bytes := (ascii "pending\n").utf8

/-- The calls of `Commit`. -/
def commitCalls (bytes : Bytes) : List (Call Name) :=
  [.create .temporary, .keep .temporary, .write .temporary bytes, .sync .temporary, .keep .temporary,
    .create .intent, .keep .intent, .write .intent pendingMark, .sync .intent, .keep .intent,
    .syncDirectory, .rename .temporary .state, .syncDirectory, .unlink .intent, .syncDirectory]

/-- `Commit` of a store that is not poisoned; `none` where it fails before its first call. -/
def commit (identity : Identity) (contents : Contents) (fates : List Fate) (disk : Disk Name) :
    Option (Execution Name) := do
  let bytes ← serializeState identity contents
  if cleanCommitState disk then some (exec (commitCalls bytes) fates disk) else none

/-! ## The world -/

/-- The directory of a store and the open store. -/
structure World where
  directory : Option (Disk Name)
  store : Option Store

/-- What can happen. -/
inductive Event where
  /-- `OpenStore` with `CreateNew`. -/
  | create (fates : List Fate)
  /-- `OpenStore` with `OpenExisting`. -/
  | reopen
  | operate (operation : Operation) (fates : List Fate)
  /-- The store is closed, or its process ends between two operations. -/
  | close
  | powerLoss (gone : Bool) (kept : List Bool) (junk : Nat → Bytes)

/-- What a step shows: the answer, where a process is left to take it, and the commit that was begun. -/
structure Note where
  reply : Option Reply
  commit : Option (Contents × Ending)

/-- A refusal. -/
def refusal (e : ChipError) : Note := ⟨some (.error e), none⟩

/-- What a new store holds. -/
def initial : Contents := ⟨∅, ∅, firstEndpoint⟩

variable (identity : Identity)

/-- A commit of the open store, with the answer of the operation where it succeeds. -/
def committing (disk : Disk Name) (store : Store) (next : Contents) (reply : Reply)
    (fates : List Fate) : World × Note :=
  match commit identity next fates disk with
  | none => (⟨some disk, some { store with poisoned := true }⟩, refusal .persistedStorageFailed)
  | some run =>
    match run.ending with
    | .completed => (⟨some run.disk, some ⟨next, false⟩⟩, ⟨some reply, some (next, .completed)⟩)
    | .failed =>
      (⟨some run.disk, some { store with poisoned := true }⟩,
        ⟨some (.error .persistedStorageFailed), some (next, .failed)⟩)
    | .stopped => (⟨some run.disk, none⟩, ⟨none, some (next, .stopped)⟩)

/-- `OpenStore` with `CreateNew`, behind `mkdir`: the lock file, then a commit of an empty store. A store
whose commit fails is closed again. -/
def creating (fates : List Fate) : World × Note :=
  let locked := exec [.create Name.lock, .keep .lock] fates Disk.empty
  match locked.ending with
  | .stopped => (⟨some locked.disk, none⟩, ⟨none, none⟩)
  | .failed => (⟨some locked.disk, none⟩, refusal .openFailed)
  | .completed =>
    let (world, note) := committing identity locked.disk ⟨initial, false⟩ initial (.opened initial)
      locked.left
    match note.commit with
    | some (_, .completed) => (world, note)
    | _ => ({ world with store := none }, note)

/-- `OpenStore` with `CreateNew`. -/
def create (world : World) (fates : List Fate) : World × Note :=
  if !identity.valid then (world, refusal .invalidArgument)
  else
    match world.directory, fates with
    | some _, _ => (world, refusal .openFailed)
    | none, .done :: fates => creating identity fates
    | none, .failed _ :: _ => (world, refusal .openFailed)
    | none, _ => (world, ⟨none, none⟩)

/-- `ReadState`. -/
def readState (disk : Disk Name) : Option Bytes := do
  let file ← disk.entries .state
  let contents := (disk.files file).contents
  if 0 < contents.length ∧ contents.length ≤ maximumFileBytes then some contents else none

variable (identity : Identity) (world : World)

/-- `OpenStore` with `OpenExisting`. -/
def reopen : World × Note :=
  if !identity.valid then (world, refusal .invalidArgument)
  else
    match world.directory, world.store with
    | none, _ | some _, some _ => (world, refusal .openFailed)
    | some disk, none =>
      if (disk.entries .lock).isNone then (world, refusal .openFailed)
      else if !cleanCommitState disk then (world, refusal .persistedStorageFailed)
      else
        match readState disk >>= fun contents => parseState contents identity with
        | none => (world, refusal .persistedStorageFailed)
        | some contents => (⟨some disk, some ⟨contents, false⟩⟩, ⟨some (.opened contents), none⟩)

/-- An operation on the open store. -/
def operate (operation : Operation) (fates : List Fate) : World × Note :=
  match world.directory, world.store with
  | some disk, some store =>
    match plan identity store operation with
    | none => (world, ⟨none, none⟩)
    | some (.answer reply) => (world, ⟨some reply, none⟩)
    | some (.commit next reply) => committing identity disk store next reply fates
  | _, _ => (world, ⟨none, none⟩)

/-- One step. -/
def step : Event → World × Note
  | .create fates => create identity world fates
  | .reopen => reopen identity world
  | .operate operation fates => operate identity world operation fates
  | .close => ({ world with store := none }, ⟨none, none⟩)
  | .powerLoss gone kept junk =>
    (⟨if gone then none else world.directory.map fun disk => disk.powerLoss kept junk, none⟩, ⟨none, none⟩)

/-- The steps in order, with what they show. -/
def run (identity : Identity) : World → List Event → World × List Note
  | world, [] => (world, [])
  | world, event :: events =>
    let (world, note) := step identity world event
    let (world, notes) := run identity world events
    (world, note :: notes)

/-- Nothing there yet. -/
def World.start : World := ⟨none, none⟩

end Wotex.Matter
