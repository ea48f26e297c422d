import Wotex.Directory.Listing
import Wotex.Term.Clients

/-!
# The directory facade (`directory.ex`, `service.ex`, `repository.ex`)

An operation is a `Call`: a `with` chain that makes requests of the repository port. What the other
ports answer during one call is an argument of it (`Ports`): the verdicts of the authorization port,
one clock reading and one generated identifier. The request context only carries a principal here;
its other two members are handed to the ports and read by none of the modelled functions.

The options of a call are a keyword list; `Options.keys` are the keys it gives. An option value that
is no integer where one is expected is refused like a non-positive integer, so options are integers.

A repository that leaves by an exception takes the call with it (`Reply.exit`).
-/

namespace Wotex.Directory

open Json (Value Limits)

/-! ## The repository port -/

/-- The expiry strategies. -/
inductive Strategy where
  | purge | retain
  deriving DecidableEq

/-- The callbacks of `Wotex.Directory.Repository`. -/
inductive Request where
  | fetch (identifier : Text)
  | insert (entry : Entry)
  | replace (entry : Entry) (expectedVersion : Nat)
  | delete (identifier : Text) (expectedVersion : Nat)
  | list (query : Query) (cursor : Option Cursor) (activeAt : DateTime)
  | expireDue (cutoff : DateTime) (limit : Nat) (strategy : Strategy)

/-- The reasons a repository refuses for. -/
inductive Refusal where
  | notFound | alreadyExists | conflict | collectionChanged
  | corruptEntry (identifier : Text)

/-- What a repository returns. -/
inductive Reply where
  /-- `{:ok, %Entry{}}` -/
  | entry (entry : Entry)
  /-- `:not_found` -/
  | notFound
  /-- `:ok` -/
  | done
  /-- `{:ok, %Page{}}` -/
  | page (page : Page)
  /-- `{:ok, entries}` -/
  | entries (entries : List Entry)
  /-- `{:error, reason}` -/
  | error (reason : Refusal)
  /-- The repository process left by an exception. -/
  | exit

/-- A call of the directory over a repository. -/
abbrev Call (α : Type) := Task Request Reply Error α

/-! ## Service, ports and options -/

/-- `Wotex.Directory.Service`, without its ports. -/
structure Service where
  defaultPageLimit : Nat
  maxPageLimit : Nat
  defaultExpiryBatchLimit : Nat
  maxExpiryBatchLimit : Nat
  expiryStrategy : Strategy
  patchBounds : MergePatch.Bounds
  limits : Limits
  /-- `validate_bounds/1`. -/
  bounds : 0 < defaultPageLimit ∧ defaultPageLimit ≤ maxPageLimit ∧ 0 < defaultExpiryBatchLimit ∧
    defaultExpiryBatchLimit ≤ maxExpiryBatchLimit ∧ 0 < patchBounds.maxDepth ∧
    0 < patchBounds.maxNodes

/-- What is authorized. -/
inductive Target where
  | collection
  | entry (identifier : Text)

/-- What the authorization port answers: `:ok`, `:deny` or `{:error, :forbidden}`, anything else. -/
inductive Verdict where
  | allow | forbid | failure

/-- What the other ports answer during a call. -/
structure Ports where
  authorize : Operation → Target → Verdict
  now : Option DateTime
  generate : Option Text

structure Context where
  principal : Option Text

/-- The keys of an option list. -/
inductive Key where
  | registration | ifVersion | limit | strategy | other
  deriving DecidableEq

/-- The options of a call. -/
structure Options where
  registration : Option Raw := none
  ifVersion : Option Int := none
  limit : Option Int := none
  strategy : Option (Option Strategy) := none
  other : Bool := false

def Options.keys (o : Options) : List Key :=
  (if o.registration.isSome then [.registration] else [])
    ++ (if o.ifVersion.isSome then [.ifVersion] else [])
    ++ (if o.limit.isSome then [.limit] else [])
    ++ (if o.strategy.isSome then [.strategy] else [])
    ++ (if o.other then [.other] else [])

/-- `operation` and `status` of a `Mutation`. -/
inductive Status where
  | created | replaced | patched | deleted

structure Mutation where
  operation : Operation
  status : Status
  entry : Entry

structure Expiry where
  strategy : Strategy
  cutoff : DateTime
  entries : List Entry

/-! ## Clauses -/

variable (operation : Operation)

variable (identifier : Text)

def conflict : Error :=
  { code := .conflict, phase := .repository, operation := operation, identifier := some identifier }

def repositoryError (identifier : Option Text) : Error :=
  { code := .repositoryFailure, phase := .repository, operation := operation,
    identifier := identifier }

/-- The failure of an operation on a missing entry. -/
def missing : Error :=
  { code := .notFound, phase := .repository, operation := operation, identifier := some identifier }

/-- A refused request. -/
def invalidRequest : Error :=
  { code := .invalidRequest, phase := .validation, operation := operation }

def validContext (context : Context) (operation : Operation) : Result Unit :=
  check (context.principal.isSome = true)
    { code := .invalidContext, phase := .validation, operation := operation }

def validOptions (options : Options) (allowed : List Key) (operation : Operation) : Result Unit :=
  check (∀ k ∈ options.keys, k ∈ allowed) (invalidRequest operation)

def validIdentifier (operation : Operation) : Result Unit :=
  check (Identifier.valid identifier = true) (invalidRequest operation)

def matchingIdentifier (id : Option Value) (operation : Operation) :
    Result Unit :=
  check (id = some (.str identifier))
    { code := .identifierMismatch, phase := .validation, operation := operation,
      identifier := some identifier }

/-- `active/3`. -/
def requireActive (e : Entry) (now : DateTime) (operation : Operation) : Result Unit :=
  check (e.active now = true)
    { code := .expired, phase := .expiry, operation := operation, identifier := some e.identifier }

variable (ports : Ports) (operation : Operation)

/-- `directory.ex:467-494`. -/
def authorize (target : Target) : Result Unit :=
  let identifier := match target with
    | .collection => none
    | .entry identifier => some identifier
  match ports.authorize operation target with
  | .allow => .ok ()
  | .forbid => .refuse
    { code := .forbidden, phase := .authorization, operation := operation, identifier := identifier }
  | .failure => .refuse
    { code := .authorizationFailure, phase := .authorization, operation := operation,
      identifier := identifier }

def now : Result DateTime :=
  match ports.now with
  | some t => .ok t
  | none => .refuse { code := .clockFailure, phase := .clock, operation := operation }

def generateIdentifier : Result Text :=
  match ports.generate with
  | some identifier =>
    if Identifier.valid identifier then .ok identifier
    else .refuse { code := .identifierFailure, phase := .identifier, operation := operation }
  | none => .refuse { code := .identifierFailure, phase := .identifier, operation := operation }

def registrationInput (extracted : Input) (options : Options) (operation : Operation) :
    Result Input :=
  match options.registration, extracted with
  | none, input => .ok input
  | some (.map raw), .absent => .ok (.present (.map raw))
  | some _, _ => .refuse (invalidRequest operation)

/-- `directory.ex:410-429`. -/
def expectedVersion (existing : Entry) (options : Options) (operation : Operation) : Result Nat :=
  match options.ifVersion with
  | none => .ok existing.version
  | some version =>
    if 0 < version then
      if version = existing.version then .ok existing.version
      else .refuse { conflict operation existing.identifier with expectedVersion := some version }
    else .refuse { invalidRequest operation with identifier := some existing.identifier }

/-! ## Requests of the repository -/

section

variable (host : Host)

variable (e : Entry)

def validateRepositoryEntry (identifier : Text) (operation : Operation) :
    Result Entry :=
  if e.valid host.core = true ∧ e.identifier = identifier then .ok e
  else .refuse (repositoryError operation (some identifier))

/-- `validate_stored_entry/3`. Both repositories reply with the term they were handed, so `==` is
equality. -/
def validateStoredEntry (stored expected : Entry) (operation : Operation) : Result Entry :=
  if stored.valid host.core = true ∧ stored = expected then .ok stored
  else .refuse (repositoryError operation (some expected.identifier))

variable (identifier : Text) (operation : Operation)

/-- `directory.ex:538-548`. -/
def fetchOptional : Call (Option Entry) := do
  let reply ← Task.ask (.fetch identifier)
  Task.lift <| match reply with
    | .entry e => do
      let e ← validateRepositoryEntry host e identifier operation
      .ok (some e)
    | .notFound | .error .notFound => .ok none
    | .exit => .raise
    | _ => .refuse (repositoryError operation (some identifier))

def fetch : Call Entry := do
  let found ← fetchOptional host identifier operation
  Task.lift <| match found with
    | some e => .ok e
    | none => .refuse (missing operation identifier)

/-- `directory.ex:550-561`. -/
def insertEntry (operation : Operation) : Call Entry := do
  let reply ← Task.ask (.insert e.forStorage)
  Task.lift <| match reply with
    | .entry stored => validateStoredEntry host stored e.forStorage operation
    | .error .alreadyExists | .error .conflict => .refuse (conflict operation e.identifier)
    | .exit => .raise
    | _ => .refuse (repositoryError operation (some e.identifier))

/-- `directory.ex:563-583`. -/
def replaceEntry (expectedVersion : Nat) (operation : Operation) : Call Entry := do
  let reply ← Task.ask (.replace e.forStorage expectedVersion)
  Task.lift <| match reply with
    | .entry stored => validateStoredEntry host stored e.forStorage operation
    | .error .conflict => .refuse (conflict operation e.identifier)
    | .error .notFound => .refuse (missing operation e.identifier)
    | .exit => .raise
    | _ => .refuse (repositoryError operation (some e.identifier))

variable (identifier : Text)

/-- `directory.ex:585-604`. -/
def deleteEntry (expectedVersion : Nat) : Call Unit := do
  let reply ← Task.ask (.delete identifier expectedVersion)
  Task.lift <| match reply with
    | .done => .ok ()
    | .error .conflict => .refuse (conflict .delete identifier)
    | .error .notFound => .refuse (missing .delete identifier)
    | .exit => .raise
    | _ => .refuse (repositoryError .delete (some identifier))

/-- `directory.ex:609-625`. -/
def listEntries (query : Query) (cursor : Option Cursor) (activeAt : DateTime) : Call Page := do
  let reply ← Task.ask (.list query cursor activeAt)
  Task.lift <| match reply with
    | .page page => .ok page
    | .error .collectionChanged => .refuse
      { code := .collectionChanged, phase := .listing, operation := .list }
    | .exit => .raise
    | _ => .refuse (repositoryError .list none)

/-- `directory.ex:627-635`. -/
def expireEntries (cutoff : DateTime) (limit : Nat) (strategy : Strategy) :
    Call (List Entry) := do
  let reply ← Task.ask (.expireDue cutoff limit strategy)
  Task.lift <| match reply with
    | .entries es => .ok es
    | .exit => .raise
    | _ => .refuse (repositoryError .expire none)

/-! ## Operations -/

variable (service : Service) (ports : Ports) (context : Context)

variable (identifier : Text) (d : Document) (input : Input) (t : DateTime)

/-- `register_identified/7` for an identifier that has no entry. -/
def create : Call Mutation := do
  let registration ← Task.lift (Registration.create host.calendar t input .register)
  let entry ← Task.lift (Entry.new host.core identifier d registration 1 .active)
  let stored ← insertEntry host entry .register
  Task.lift (.ok ⟨.register, .created, stored⟩)

/-- `register_identified/7` for an identifier that has one. -/
def reregister (existing : Entry) : Call Mutation := do
  let registration ← Task.lift (existing.registration.refresh host.calendar t input .register)
  let entry ← Task.lift (Entry.new host.core identifier d registration (existing.version + 1) .active)
  let stored ← replaceEntry host entry existing.version .register
  Task.lift (.ok ⟨.register, .replaced, stored⟩)

/-- `directory.ex:53-84`. -/
def register (d : Document) (options : Options) : Call Mutation := do
  Task.lift (validContext context .register)
  Task.lift (validOptions options [.registration] .register)
  Task.lift (authorize ports .register .collection)
  let extracted ← Task.lift (ThingDescriptions.normalizeAndExtract host service.limits d .register)
  let input ← Task.lift (registrationInput extracted.2 options .register)
  let t ← Task.lift (now ports .register)
  match ThingDescription.id extracted.1 with
  | none | some .null =>
    let identifier ← Task.lift (generateIdentifier ports .register)
    let identified ← Task.lift
      (ThingDescriptions.putId host service.limits extracted.1 identifier .register)
    create host identifier identified input t
  | some (.str identifier) =>
    Task.lift (validIdentifier identifier .register)
    Task.lift (authorize ports .register (.entry identifier))
    let found ← fetchOptional host identifier .register
    match found with
    | none => create host identifier extracted.1 input t
    | some existing => reregister host identifier extracted.1 input t existing
  | some _ => Task.lift .raise

variable (identifier : Text)

/-- `directory.ex:91-105`. -/
def get : Call Entry := do
  Task.lift (validContext context .get)
  Task.lift (validIdentifier identifier .get)
  Task.lift (authorize ports .get (.entry identifier))
  let e ← fetch host identifier .get
  let t ← Task.lift (now ports .get)
  Task.lift (requireActive e t .get)
  Task.lift (.ok (e.markRetrieved t))

/-- What `replace/5` makes of the entry it fetched. -/
def replacement (d : Document) (options : Options) (t : DateTime)
    (existing : Entry) : Result Entry := do
  let extracted ← ThingDescriptions.normalizeAndExtract host service.limits d .replace
  matchingIdentifier identifier (ThingDescription.id extracted.1) .replace
  let input ← registrationInput extracted.2 options .replace
  let registration ← existing.registration.refresh host.calendar t input .replace
  Entry.new host.core identifier extracted.1 registration (existing.version + 1) .active

/-- `directory.ex:117-159`. -/
def replace (d : Document) (options : Options) : Call Mutation := do
  Task.lift (validContext context .replace)
  Task.lift (validIdentifier identifier .replace)
  Task.lift (validOptions options [.ifVersion, .registration] .replace)
  Task.lift (authorize ports .replace (.entry identifier))
  let existing ← fetch host identifier .replace
  let t ← Task.lift (now ports .replace)
  Task.lift (requireActive existing t .replace)
  let version ← Task.lift (expectedVersion existing options .replace)
  let entry ← Task.lift (replacement host service identifier d options t existing)
  let stored ← replaceEntry host entry version .replace
  Task.lift (.ok ⟨.replace, .replaced, stored⟩)

def mergePatch (existing : Entry) (patch : Dict Value) : Result Document := do
  check (Registration.serverFieldPatch patch = false)
    { code := .invalidRequest, phase := .patch, operation := .patch,
      path := some "/registration" }
  MergePatch.applyDict service.patchBounds
    (ThingDescriptions.enrichedMap host existing.thingDescription existing.registration) patch

/-- What `patch/5` makes of the entry it fetched. -/
def patched (patch : Dict Value) (t : DateTime) (existing : Entry) :
    Result Entry := do
  let merged ← mergePatch host service existing patch
  let extracted ← ThingDescriptions.fromEnrichedMap host service.limits merged .patch
  matchingIdentifier identifier (ThingDescription.id extracted.1) .patch
  let registration ← existing.registration.fromPatch host.calendar t extracted.2 .patch
  Entry.new host.core identifier extracted.1 registration (existing.version + 1) .active

/-- `patch/5`; a patch that is no map is `none`. -/
def patch (identifier : Text) (patch : Option (Dict Value)) (options : Options) :
    Call Mutation := do
  Task.lift (validContext context .patch)
  Task.lift (validIdentifier identifier .patch)
  Task.lift (validOptions options [.ifVersion] .patch)
  let patch ← Task.lift <| match patch with
    | some patch => .ok patch
    | none => .refuse { code := .invalidRequest, phase := .patch, operation := .patch }
  Task.lift (authorize ports .patch (.entry identifier))
  let existing ← fetch host identifier .patch
  let t ← Task.lift (now ports .patch)
  Task.lift (requireActive existing t .patch)
  let version ← Task.lift (expectedVersion existing options .patch)
  let entry ← Task.lift (patched host service identifier patch t existing)
  let stored ← replaceEntry host entry version .patch
  Task.lift (.ok ⟨.patch, .patched, stored⟩)

/-- `directory.ex:210-227`. -/
def delete (options : Options) : Call Mutation := do
  Task.lift (validContext context .delete)
  Task.lift (validIdentifier identifier .delete)
  Task.lift (validOptions options [.ifVersion] .delete)
  Task.lift (authorize ports .delete (.entry identifier))
  let existing ← fetch host identifier .delete
  let version ← Task.lift (expectedVersion existing options .delete)
  deleteEntry identifier version
  Task.lift (.ok ⟨.delete, .deleted, existing⟩)

def listingCursor (q : Query) : Result (Option Cursor) :=
  match q.cursor with
  | none => .ok none
  | some cursor => do
    let c ← Cursor.decode cursor
    .ok (some c)

/-- `directory.ex:256-269`. -/
def query (q : Query) : Call Page := do
  Task.lift (validContext context .list)
  Task.lift (q.validate service.maxPageLimit)
  let cursor ← Task.lift (listingCursor q)
  Task.lift (authorize ports .list .collection)
  let activeAt ← Task.lift (now ports .list)
  let page ← listEntries q cursor activeAt
  Task.lift (page.validate host.core q activeAt)
  Task.lift (.ok (page.markRetrieved activeAt))

/-- The options of `list/3`; `other` is a key outside of them. -/
structure ListOptions where
  profile : Profile := .listing
  limit : Option Int := none
  format : Format := .array
  cursor : Option Text := none
  other : Bool := false

def list (options : ListOptions) : Call Page := do
  Task.lift (check (options.other = false) Cursor.invalid)
  let q : Query := ⟨options.profile, options.limit.getD service.defaultPageLimit, options.format,
    options.cursor⟩
  Task.lift (q.validate service.maxPageLimit)
  query host service ports context q

variable (options : Options)

def expiryLimit : Result Nat :=
  let limit : Int := options.limit.getD service.defaultExpiryBatchLimit
  if 0 < limit ∧ limit ≤ service.maxExpiryBatchLimit then .ok limit.toNat
  else .refuse (invalidRequest .expire)

def expiryStrategy : Result Strategy :=
  match options.strategy.getD (some service.expiryStrategy) with
  | some strategy => .ok strategy
  | none => .refuse (invalidRequest .expire)

def validExpiryEntry (cutoff : DateTime) (strategy : Strategy) : Bool :=
  e.valid host.core && e.registration.expired cutoff
    && (decide (strategy = .purge) || decide (e.state = .expired))

def validExpiryEntries (entries : List Entry) (cutoff : DateTime) (limit : Nat)
    (strategy : Strategy) : Result Unit :=
  let identifiers := entries.map Entry.identifier
  check (entries.length ≤ limit ∧ identifiers = sortTexts identifiers ∧ identifiers.Nodup
      ∧ entries.all (fun e => validExpiryEntry host e cutoff strategy) = true)
    (repositoryError .expire none)

/-- `directory.ex:275-291`. -/
def expire : Call Expiry := do
  Task.lift (validContext context .expire)
  Task.lift (validOptions options [.limit, .strategy] .expire)
  let limit ← Task.lift (expiryLimit service options)
  let strategy ← Task.lift (expiryStrategy service options)
  Task.lift (authorize ports .expire .collection)
  let cutoff ← Task.lift (now ports .expire)
  let entries ← expireEntries cutoff limit strategy
  Task.lift (validExpiryEntries host entries cutoff limit strategy)
  Task.lift (.ok ⟨strategy, cutoff, entries⟩)

end

/-! ## Any operation -/

/-- An operation with its arguments. -/
inductive Command where
  | register (d : Document) (options : Options)
  | get (identifier : Text)
  | replace (identifier : Text) (d : Document) (options : Options)
  | patch (identifier : Text) (patch : Option (Dict Value)) (options : Options)
  | delete (identifier : Text) (options : Options)
  | list (options : ListOptions)
  | query (q : Query)
  | expire (options : Options)

/-- What an operation returns. -/
inductive Response where
  | mutation (m : Mutation)
  | entry (e : Entry)
  | page (p : Page)
  | expiry (x : Expiry)

/-- A call: the operation, its context, and what the ports answer during it. -/
structure Invocation where
  command : Command
  context : Context
  ports : Ports

/-- The call of an operation. -/
def perform (host : Host) (service : Service) (i : Invocation) : Call Response :=
  match i.command with
  | .register d options => do
    let m ← register host service i.ports i.context d options
    Task.lift (.ok (.mutation m))
  | .get identifier => do
    let e ← get host i.ports i.context identifier
    Task.lift (.ok (.entry e))
  | .replace identifier d options => do
    let m ← replace host service i.ports i.context identifier d options
    Task.lift (.ok (.mutation m))
  | .patch identifier p options => do
    let m ← patch host service i.ports i.context identifier p options
    Task.lift (.ok (.mutation m))
  | .delete identifier options => do
    let m ← delete host i.ports i.context identifier options
    Task.lift (.ok (.mutation m))
  | .list options => do
    let p ← list host service i.ports i.context options
    Task.lift (.ok (.page p))
  | .query q => do
    let p ← query host service i.ports i.context q
    Task.lift (.ok (.page p))
  | .expire options => do
    let x ← expire host service i.ports i.context options
    Task.lift (.ok (.expiry x))

end Wotex.Directory
