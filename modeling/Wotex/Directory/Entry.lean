import Wotex.Directory.Registration

/-!
# Entries and Discovery documents (`entry.ex`, `thing_descriptions.ex`)

`Host` gathers what the directory takes from outside the repository: the schema pass of the core
package and the ISO 8601 texts.

Entry construction checks the value invariant and drops the response-only `retrieved`, so a
constructed entry is `valid` (`Entry.new_valid`).

A relative expiry is counted from the whole second of the clock reading and compared at microseconds
(`Entry.active_iff`), so an entry ends early by the fraction of the second at which it was made, and
lasts as long as promised **iff** there is none (`Entry.lasts_iff`).
-/

namespace Wotex.Directory

open ThingDescription Registration

open Json (Value Limits)

/-- What is outside the repository. -/
structure Host where
  core : Core
  calendar : Calendar

/-! ## Discovery documents -/

namespace ThingDescriptions

/-- `@discovery_context`. -/
def discoveryContext : Text := "https://www.w3.org/2022/wot/discovery"

/-- The key of the Discovery member. -/
def registrationKey : Text := "registration"

/-- `"@context"`. -/
def contextKey : Text := "@context"

def invalid (operation : Operation) (path : Option Text) : Error where
  code := .invalidThingDescription
  phase := .validation
  operation := operation
  path := path

/-- A result of the core package, its failure reported by the pointer of the first error. -/
def report (operation : Operation) : Except Text Unit → Result Unit
  | .ok () => .ok ()
  | .error path => .refuse (invalid operation (some path))

@[simp] theorem report_eq_ok {operation : Operation} {x : Except Text Unit} {u : Unit} :
    report operation x = .ok u ↔ x = .ok () := by
  unfold report
  split <;> simp

def contextPresent : Option Value → Bool
  | some (.str c) => c == discoveryContext
  | some (.arr cs) => cs.contains (.str discoveryContext)
  | _ => false

def appendContext : Value → Value
  | .str c => if c = discoveryContext then .str c else .arr [.str c, .str discoveryContext]
  | .arr cs =>
    if cs.contains (.str discoveryContext) then .arr cs else .arr (cs ++ [.str discoveryContext])
  | v => .arr [v, .str discoveryContext]

variable (d : Document)

def putDiscoveryContext : Document :=
  d.put contextKey <| match d.get contextKey with
    | none => .arr [.str discoveryContext]
    | some v => appendContext v

/-- `registration_context/3` for a document with a registration. -/
def registrationContext (operation : Operation) : Result Unit :=
  check (contextPresent (d.get contextKey) = true) (invalid operation (some "/@context"))

variable (host : Host)

/-- `thing_descriptions.ex:28-38`. -/
def normalizeAndExtract (limits : Limits) (d : Document) (operation : Operation) :
    Result (Document × Input) := do
  report operation (validate host.core d)
  let base := d.delete registrationKey
  match d.get registrationKey with
  | none =>
    report operation (fromMap host.core limits base)
    .ok (base, .absent)
  | some registration =>
    registrationContext d operation
    report operation (fromMap host.core limits base)
    .ok (base, .present (match registration with
      | .obj ms => .map (ms.map fun m => (m.1, .json m.2))
      | _ => .other))

/-- The registration that `from_enriched_map/3` takes off a document. -/
def popRegistration (operation : Operation) : Result (List (Text × Value)) :=
  match d.get registrationKey with
  | none => .ok []
  | some (.obj ms) => .ok ms
  | some _ => .refuse (invalid operation (some "/registration"))

variable (limits : Limits) (d : Document)

/-- `thing_descriptions.ex:43-55`. -/
def fromEnrichedMap (operation : Operation) :
    Result (Document × List (Text × Value)) := do
  let registration ← popRegistration d operation
  registrationContext d operation
  let base := d.delete registrationKey
  report operation (fromMap host.core limits base)
  .ok (base, registration)

def putId (identifier : Text) (operation : Operation) :
    Result Document := do
  let identified := d.put "id" (.str identifier)
  report operation (fromMap host.core limits identified)
  .ok identified

def enrichedMap (r : Registration) : Document :=
  (putDiscoveryContext d).put registrationKey (.obj (r.toMap host.calendar))

end ThingDescriptions

/-! ## Entries -/

/-- `state`. -/
inductive EntryState where
  | active | expired
  deriving DecidableEq

structure Entry where
  identifier : Text
  thingDescription : Document
  registration : Registration
  version : Nat
  state : EntryState
  deriving DecidableEq

namespace Entry

def validThingDescription (core : Core) (d : Document) (identifier : Text) : Bool :=
  (ThingDescription.errors core d).isEmpty
    && decide (ThingDescription.id d = some (.str identifier))
    && (d.get ThingDescriptions.registrationKey).isNone

/-- `entry.ex:38-67`. -/
def new (core : Core) (identifier : Text) (d : Document) (r : Registration) (version : Nat)
    (state : EntryState) : Result Entry := do
  check (Identifier.valid identifier = true ∧ validThingDescription core d identifier = true
      ∧ r.valid = true ∧ 0 < version)
    { code := .invalidRequest, phase := .validation, operation := .service,
      identifier := some identifier }
  .ok ⟨identifier, d, r.forStorage, version, state⟩

def valid (core : Core) (e : Entry) : Bool :=
  decide (new core e.identifier e.thingDescription e.registration e.version e.state = .ok e)

variable (e : Entry)

def active (now : DateTime) : Bool :=
  match e.state with
  | .expired => false
  | .active => !e.registration.expired now

def markRetrieved (now : DateTime) : Entry :=
  { e with registration := e.registration.markRetrieved now }

def forStorage : Entry := { e with registration := e.registration.forStorage }

@[simp] theorem identifier_forStorage : e.forStorage.identifier = e.identifier := rfl

variable {core : Core} {identifier : Text} {d : Document} {r : Registration} {version : Nat}
  {state : EntryState} {e : Entry}

theorem new_eq_ok : new core identifier d r version state = .ok e ↔
    (Identifier.valid identifier = true ∧ validThingDescription core d identifier = true
      ∧ r.valid = true ∧ 0 < version) ∧ e = ⟨identifier, d, r.forStorage, version, state⟩ := by
  simp only [new, bind_eq_ok, exists_unit, check_eq_ok, Outcome.ok.injEq]
  exact and_congr_right fun _ => eq_comm

theorem valid_iff : e.valid core = true ↔ (Identifier.valid e.identifier = true ∧
      validThingDescription core e.thingDescription e.identifier = true ∧
      e.registration.valid = true ∧ 0 < e.version) ∧ e.registration.retrieved = none := by
  rw [valid, decide_eq_true_eq, new_eq_ok]
  refine and_congr_right fun _ => ⟨fun h => ?_, fun h => ?_⟩
  · rw [h]
    rfl
  · rcases e with ⟨i, td, ⟨_, _, _, _, _, _⟩, v, s⟩
    cases h
    rfl

theorem valid_forStorage (h : r.valid = true) : r.forStorage.valid = true := by
  simp only [Registration.valid, Bool.and_eq_true] at h ⊢
  obtain ⟨⟨⟨⟨h1, h2⟩, -⟩, h4⟩, h5⟩ := h
  exact ⟨⟨⟨⟨h1, h2⟩, rfl⟩, h4⟩, h5⟩

/-- **A constructed entry satisfies the value invariant.** -/
theorem new_valid (h : new core identifier d r version state = .ok e) : e.valid core = true := by
  obtain ⟨⟨h1, h2, h3, h4⟩, rfl⟩ := new_eq_ok.mp h
  exact valid_iff.mpr ⟨⟨h1, h2, valid_forStorage h3, h4⟩, rfl⟩

theorem forStorage_of_valid (h : e.valid core = true) : e.forStorage = e := by
  obtain ⟨-, hr⟩ := valid_iff.mp h
  rcases e with ⟨i, td, ⟨_, _, _, _, _, _⟩, v, s⟩
  cases hr
  rfl

/-! ## Relative expiry -/

/-- A registration that `create/3`, `refresh/4` or `from_patch/4` made at a clock reading. -/
inductive Made (cal : Calendar) (now : DateTime) (r : Registration) : Prop where
  | created (input : Input) (operation : Operation)
      (h : Registration.create cal now input operation = .ok r)
  | refreshed (old : Registration) (input : Input) (operation : Operation)
      (h : old.refresh cal now input operation = .ok r)
  | patched (old : Registration) (raw : List (Text × Value)) (operation : Operation)
      (h : old.fromPatch cal now raw operation = .ok r)

variable {cal : Calendar} {now : DateTime} {ttl : Nat}

theorem expiry_relative {given : Option Nat} {expires found : Option DateTime}
    {operation : Operation} (hgiven : given = some ttl)
    (h : expiry now given expires operation = .ok found) :
    ∃ t, found = some t ∧ t.micros = (now.toUnix + ttl) * 1000000 := by
  subst hgiven
  simp only [expiry] at h
  split at h
  · rename_i t ht
    unfold DateTime.fromUnix at ht
    split_ifs at ht
    cases ht
    cases h
    exact ⟨_, rfl, rfl⟩
  · cases h

theorem Made.expires (h : Made cal now r) (httl : r.ttl = some ttl) :
    ∃ t, r.expires = some t ∧ t.micros = (now.toUnix + ttl) * 1000000 := by
  cases h with
  | created input operation h =>
    simp only [create, bind_eq_ok] at h
    obtain ⟨values, -, expires, hexpires, h⟩ := h
    cases h
    exact expiry_relative httl hexpires
  | refreshed old input operation h | patched old raw operation h =>
    simp only [refresh, fromPatch, rebuild, bind_eq_ok] at h
    obtain ⟨-, -, values, -, expires, hexpires, h⟩ := h
    cases h
    exact expiry_relative httl hexpires

/-- When an entry with a time to live is active. -/
theorem active_iff (h : Made cal now e.registration) (httl : e.registration.ttl = some ttl)
    (hstate : e.state = .active) (t : DateTime) :
    e.active t = true ↔ t.micros < (now.toUnix + ttl) * 1000000 := by
  obtain ⟨expires, hexpires, hmicros⟩ := h.expires httl
  simp [active, hstate, expired, hexpires, hmicros]

/-- **An entry lasts as long as promised exactly when it was made at a whole second**, or was not to
last at all. -/
theorem lasts_iff (h : Made cal now e.registration) (httl : e.registration.ttl = some ttl)
    (hstate : e.state = .active) :
    (∀ t : DateTime, now.micros ≤ t.micros →
      (e.active t = true ↔ t.micros < now.micros + ttl * 1000000)) ↔
      ttl = 0 ∨ now.micros % 1000000 = 0 := by
  simp only [active_iff h httl hstate, DateTime.toUnix]
  constructor
  · intro hall
    by_contra hne
    -- the last microsecond promised
    have hlast := hall ⟨now.micros + ttl * 1000000 - 1, 6, .utc⟩ (by dsimp only; omega)
    dsimp only at hlast
    omega
  · intro hwhole t ht
    omega

/-- An entry registered at a clock reading for one second. -/
def brief (now : DateTime) : Entry :=
  ⟨[], .empty, ⟨now, now, some ⟨(now.toUnix + 1) * 1000000, 0, .utc⟩, some 1, none, []⟩, 1, .active⟩

/-- The registration input of `brief`. -/
def briefInput : Input := .present (.map [("ttl", .json (.num (.int 1)))])

/-- The calendar that reads and writes no text. -/
def noCalendar : Calendar := ⟨fun _ => [], fun _ => none⟩

/-- Made at a whole second, the entry lasts until the next. -/
theorem brief_lasts : Made noCalendar ⟨0, 6, .utc⟩ (brief ⟨0, 6, .utc⟩).registration
    ∧ ∀ t : DateTime, (0 : Int) ≤ t.micros →
      ((brief ⟨0, 6, .utc⟩).active t = true ↔ t.micros < 0 + (1 : Nat) * 1000000) :=
  have made := .created briefInput .register (by decide)
  ⟨made, (lasts_iff made rfl rfl).mpr (.inr rfl)⟩

/-- Made half a second past, it is gone 0.7 s later. -/
theorem brief_shortened :
    Made noCalendar ⟨500000, 6, .utc⟩ (brief ⟨500000, 6, .utc⟩).registration
      ∧ (brief ⟨500000, 6, .utc⟩).active ⟨1200000, 6, .utc⟩ = false
      ∧ (1200000 : Int) < 500000 + 1 * 1000000 :=
  ⟨.created briefInput .register (by decide), by decide, by decide⟩

end Entry

end Wotex.Directory
