import Wotex.Directory.Entry
import Wotex.Term.Base64

/-!
# Bounded listings (`cursor.ex`, `query.ex`, `page.ex`)

A cursor is the text `wtd1.<revision>.<identifier>` with both segments in URL-safe Base64
(`Wotex.Base`), which holds no dot and reads back. So what is encoded decodes to the same continuation
(`Cursor.decode_encode`).
-/

namespace Wotex.Directory

/-! ## Cursors -/

structure Cursor where
  collectionRevision : Text
  lastIdentifier : Text

namespace Cursor

/-- `@prefix`. -/
def tag : Text := "wtd1"

def invalid : Error where
  code := .invalidRequest
  phase := .listing
  operation := .list

def encode (collectionRevision lastIdentifier : Text) : Result Text :=
  if collectionRevision ≠ [] ∧ Identifier.valid lastIdentifier = true then
    .ok (['.'].intercalate [tag, Base.urlEncode64 collectionRevision, Base.urlEncode64 lastIdentifier])
  else .refuse invalid

/-- `cursor.ex:51-66`. -/
def decode (cursor : Text) : Result Cursor :=
  match cursor.splitOn '.' with
  | [head, revisionSegment, identifierSegment] =>
    match Base.urlDecode64 revisionSegment, Base.urlDecode64 identifierSegment with
    | some collectionRevision, some lastIdentifier =>
      if head = tag ∧ collectionRevision ≠ [] ∧ Identifier.valid lastIdentifier = true then
        .ok ⟨collectionRevision, lastIdentifier⟩
      else .refuse invalid
    | _, _ => .refuse invalid
  | _ => .refuse invalid

def valid (cursor : Text) : Bool := (decode cursor).toOption.isSome

variable {revision identifier cursor : Text}

theorem encode_eq_ok : encode revision identifier = .ok cursor ↔
    (revision ≠ [] ∧ Identifier.valid identifier = true) ∧
      cursor = ['.'].intercalate [tag, Base.urlEncode64 revision, Base.urlEncode64 identifier] := by
  unfold encode
  split_ifs with h
  · simp [h, eq_comm]
  · simp [h]

/-- **An encoded cursor decodes to the continuation it was made of.** -/
theorem decode_encode (h : encode revision identifier = .ok cursor) :
    decode cursor = .ok ⟨revision, identifier⟩ := by
  obtain ⟨⟨hr, hi⟩, rfl⟩ := encode_eq_ok.mp h
  have hsplit : (['.'].intercalate [tag, Base.urlEncode64 revision, Base.urlEncode64 identifier]).splitOn '.'
      = [tag, Base.urlEncode64 revision, Base.urlEncode64 identifier] := by
    refine List.splitOn_intercalate '.' (fun segment hs => ?_) (List.cons_ne_nil _ _)
    simp only [List.mem_cons, List.not_mem_nil, or_false] at hs
    rcases hs with rfl | rfl | rfl
    · decide
    · exact fun h => (Base.ne_of_mem h).2 rfl
    · exact fun h => (Base.ne_of_mem h).2 rfl
  rw [decode, hsplit]
  simp [Base.urlDecode64_urlEncode64, hr, hi]

end Cursor

/-! ## Queries -/

/-- `profile`. -/
inductive Profile where
  | listing | other
  deriving DecidableEq

/-- `format`. -/
inductive Format where
  | array | collection | other
  deriving DecidableEq

structure Query where
  profile : Profile
  limit : Int
  format : Format
  cursor : Option Text

def Query.validate (q : Query) (maxLimit : Nat) : Result Unit := do
  check (q.profile = .listing) { code := .unsupportedQueryProfile, phase := .listing, operation := .list }
  check (0 < q.limit ∧ q.limit ≤ maxLimit) Cursor.invalid
  check (q.format = .array ∨ q.format = .collection) Cursor.invalid
  check (q.cursor.all (Cursor.valid) = true) Cursor.invalid

/-! ## Pages -/

structure Page where
  entries : List Entry
  nextCursor : Option Text
  collectionRevision : Text
  deriving DecidableEq

namespace Page

def invalid : Error where
  code := .invalidPage
  phase := .listing
  operation := .list

variable (core : Core)

def baseValid (p : Page) : Bool :=
  p.entries.all (Entry.valid core) && p.collectionRevision != [] && p.nextCursor.all (Cursor.valid)

variable (entries : List Entry) (revision : Text) (more : Bool)

/-- `next_cursor/2`. -/
def cursorAfter : Result (Option Text) :=
  if more then
    match entries.getLast? with
    | none => .refuse invalid
    | some last =>
      match Cursor.encode revision last.identifier with
      | .ok cursor => .ok (some cursor)
      | _ => .refuse invalid
  else .ok none

/-- `page.ex:35-47`, `page.ex:51-56`. -/
def new : Result Page := do
  check (baseValid core ⟨entries, none, revision⟩ = true) invalid
  let nextCursor ← cursorAfter entries revision more
  .ok ⟨entries, nextCursor, revision⟩

variable (p : Page)

def validateEntries (q : Query) (activeAt : DateTime) : Result Unit :=
  let identifiers := p.entries.map Entry.identifier
  check (p.entries.length ≤ q.limit ∧ identifiers = sortTexts identifiers ∧ identifiers.Nodup
    ∧ p.entries.all (fun e => e.active activeAt) = true) invalid

/-- `page.ex:136-150`. -/
def validateContinuation (q : Query) : Result Unit :=
  match q.cursor with
  | none => .ok ()
  | some cursor =>
    match Cursor.decode cursor with
    | .ok c =>
      if c.collectionRevision ≠ p.collectionRevision then
        .refuse { code := .collectionChanged, phase := .listing, operation := .list }
      else check (∀ e ∈ p.entries, c.lastIdentifier < e.identifier) invalid
    | _ => .refuse invalid

/-- `page.ex:152-163`. -/
def validateNextCursor : Result Unit :=
  match p.nextCursor with
  | none => .ok ()
  | some cursor =>
    match p.entries.getLast? with
    | none => .refuse invalid
    | some last =>
      check (Cursor.encode p.collectionRevision last.identifier = .ok cursor) invalid

def validate (q : Query) (activeAt : DateTime) : Result Unit := do
  check (baseValid core p = true) invalid
  validateEntries p q activeAt
  validateContinuation p q
  validateNextCursor p

def markRetrieved (now : DateTime) : Page :=
  { p with entries := p.entries.map fun e => e.markRetrieved now }

end Page

end Wotex.Directory
