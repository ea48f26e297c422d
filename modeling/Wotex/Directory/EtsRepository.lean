import Wotex.Directory.Service

/-!
# The ETS repository (`packages/wotex-lab`: `adapters/directory/ets_repository.ex`)

One process owns an ordered set of entries by identifier and a revision number that every committed
mutation advances. A callback is one call of that process, so it is atomic. The counters of calls and
the last context, which only `stats/1` reads, are left out.

`Table` keeps every entry under its own identifier. An exception inside a callback (`Page.new!/1` on
an entry that is not valid) is `Reply.exit`; it would end the process, and no run of the directory
gets there.
-/

namespace Wotex.Directory

open List

/-- The ordered set: entries in identifier order, each under its own identifier. -/
structure Table where
  rows : Dict Entry
  keyed : ∀ m ∈ rows.entries, m.2.identifier = m.1

namespace Table

/-- `:ets.new/2`. -/
def empty : Table := ⟨.empty, fun _ h => absurd h not_mem_nil⟩

variable (t : Table)

/-- `:ets.lookup/2`. -/
def lookup (identifier : Text) : Option Entry := t.rows.get identifier

/-- `:ets.insert/2`. -/
def put (e : Entry) : Table :=
  ⟨t.rows.put e.identifier e, fun m hm => by
    rcases Members.mem_put hm with rfl | hm
    · rfl
    · exact t.keyed m hm⟩

/-- `:ets.delete/2`. -/
def delete (identifier : Text) : Table :=
  ⟨t.rows.delete identifier, fun m hm => t.keyed m (Members.mem_drop.mp hm).1⟩

/-- The entries in identifier order (`:ets.tab2list/1`). -/
def toList : List Entry := t.rows.entries.map Prod.snd

variable {t : Table} {e : Entry} {k : Text}

theorem lookup_put (t : Table) (e : Entry) (k : Text) :
    (t.put e).lookup k = if k = e.identifier then some e else t.lookup k :=
  Dict.get_put t.rows e.identifier e k

theorem lookup_delete (t : Table) (identifier k : Text) :
    (t.delete identifier).lookup k = if k = identifier then none else t.lookup k :=
  Dict.get_delete t.rows identifier k

theorem lookup_identifier (h : t.lookup k = some e) : e.identifier = k :=
  t.keyed (k, e) (Dict.get_eq_some_iff.mp h)

theorem mem_toList : e ∈ t.toList ↔ t.lookup e.identifier = some e := by
  rw [lookup, Dict.get_eq_some_iff, toList, mem_map]
  constructor
  · rintro ⟨⟨k, e⟩, hm, rfl⟩
    rwa [t.keyed _ hm]
  · exact fun h => ⟨_, h, rfl⟩

theorem toList_sorted (t : Table) : t.toList.Pairwise fun a b => a.identifier < b.identifier := by
  rw [toList, pairwise_map]
  have hs := pairwise_map.mp t.rows.sorted
  refine hs.imp_of_mem fun {a b} ha hb hab => ?_
  rwa [t.keyed a ha, t.keyed b hb]

end Table

/-- The state of the repository process. -/
structure EtsRepository where
  table : Table
  revision : Nat

namespace EtsRepository

def init : EtsRepository := ⟨.empty, 0⟩

/-- `revision/1`. -/
def revisionText (s : EtsRepository) : Text := "ets:" ++ Json.decimal s.revision

def due (e : Entry) (cutoff : DateTime) : Strategy → Bool
  | .purge => e.registration.expired cutoff
  | .retain => decide (e.state = .active) && e.registration.expired cutoff

/-- The entry `expire/3` stores and returns under `:retain`. -/
def expiredEntry (e : Entry) : Entry := { e with state := .expired, version := e.version + 1 }

/-- The entry `expire/3` returns. -/
def expiredReply (e : Entry) : Strategy → Entry
  | .purge => e
  | .retain => expiredEntry e

/-- `expire/3` on the table. -/
def expire (t : Table) (e : Entry) : Strategy → Table
  | .purge => t.delete e.identifier
  | .retain => t.put (expiredEntry e)

/-- The entries a batch takes. -/
def batch (t : Table) (cutoff : DateTime) (limit : Nat) (strategy : Strategy) : List Entry :=
  (t.toList.filter fun e => due e cutoff strategy).take limit

/-- `collect/5`: the active ones of the entries ahead, up to `remaining`. -/
def collect (activeAt : DateTime) : Nat → List Entry → List Entry
  | _, [] => []
  | 0, _ :: _ => []
  | remaining + 1, e :: rest =>
    if e.active activeAt then e :: collect activeAt remaining rest
    else collect activeAt (remaining + 1) rest

/-- The entries behind `:ets.first/1` or `:ets.next/2`. -/
def ahead (t : Table) : Option Text → List Entry
  | none => t.toList
  | some identifier => t.toList.filter fun e => identifier < e.identifier

variable (host : Host)

variable (s : EtsRepository)

def keysetPage (limit : Nat) (after : Option Text) (activeAt : DateTime) :
    Result Page :=
  let entries := collect activeAt (limit + 1) (ahead s.table after)
  Page.new host.core (entries.take limit) s.revisionText (decide (limit < entries.length))

/-- `page/4`. The limit is positive once the query is validated. -/
def page (q : Query) (cursor : Option Cursor) (activeAt : DateTime) : Reply :=
  if cursor.all (fun c => c.collectionRevision = s.revisionText) then
    match keysetPage host s q.limit.toNat (cursor.map Cursor.lastIdentifier) activeAt with
    | .ok p => .page p
    | _ => .exit
  else .error .collectionChanged

/-- `handle_call/3`. -/
def serve : Request → Reply × EtsRepository
  | .fetch identifier =>
    match s.table.lookup identifier with
    | some e => (.entry e, s)
    | none => (.notFound, s)
  | .insert e =>
    match s.table.lookup e.identifier with
    | some _ => (.error .alreadyExists, s)
    | none => (.entry e, ⟨s.table.put e.forStorage, s.revision + 1⟩)
  | .replace e expectedVersion =>
    match s.table.lookup e.identifier with
    | none => (.error .notFound, s)
    | some stored =>
      if stored.version ≠ expectedVersion then (.error .conflict, s)
      else (.entry e, ⟨s.table.put e.forStorage, s.revision + 1⟩)
  | .delete identifier expectedVersion =>
    match s.table.lookup identifier with
    | none => (.error .notFound, s)
    | some stored =>
      if stored.version ≠ expectedVersion then (.error .conflict, s)
      else (.done, ⟨s.table.delete identifier, s.revision + 1⟩)
  | .list q cursor activeAt => (page host s q cursor activeAt, s)
  | .expireDue cutoff limit strategy =>
    let taken := batch s.table cutoff limit strategy
    (.entries (taken.map fun e => expiredReply e strategy),
      if taken = [] then s
      else ⟨taken.foldl (fun t e => expire t e strategy) s.table, s.revision + 1⟩)

/-! ## What a batch does to the table -/

variable {host} {s : EtsRepository} {t : Table} {cutoff : DateTime} {limit : Nat}
  {strategy : Strategy} {e : Entry} {k : Text}

theorem mem_batch (h : e ∈ batch t cutoff limit strategy) :
    t.lookup e.identifier = some e ∧ due e cutoff strategy = true := by
  have h := mem_filter.mp (mem_of_mem_take h)
  exact ⟨Table.mem_toList.mp h.1, h.2⟩

theorem batch_sorted (t : Table) (cutoff : DateTime) (limit : Nat) (strategy : Strategy) :
    (batch t cutoff limit strategy).Pairwise fun a b => a.identifier < b.identifier :=
  (t.toList_sorted.filter _).take

theorem lookup_foldl_expire_of_notMem (strategy : Strategy) : ∀ (es : List Entry) (t : Table),
    k ∉ es.map Entry.identifier → (es.foldl (fun t e => expire t e strategy) t).lookup k = t.lookup k
  | [], _, _ => rfl
  | e :: es, t, h => by
    simp only [map_cons, mem_cons, not_or] at h
    rw [foldl_cons, lookup_foldl_expire_of_notMem strategy es _ h.2]
    cases strategy with
    | purge => rw [expire, Table.lookup_delete, if_neg h.1]
    | retain => rw [expire, Table.lookup_put, if_neg (show k ≠ (expiredEntry e).identifier from h.1)]

/-- What a batch leaves under the identifier of an entry it took. -/
theorem lookup_foldl_expire (strategy : Strategy) : ∀ (es : List Entry) (t : Table),
    (es.Pairwise fun a b => a.identifier < b.identifier) → e ∈ es →
      (es.foldl (fun t e => expire t e strategy) t).lookup e.identifier = match strategy with
        | .purge => none
        | .retain => some (expiredEntry e)
  | a :: es, t, hs, h => by
    rw [pairwise_cons] at hs
    rw [foldl_cons]
    rcases mem_cons.mp h with rfl | h
    · have hnot : e.identifier ∉ es.map Entry.identifier := by
        rw [mem_map]
        rintro ⟨b, hb, heq⟩
        exact lt_irrefl _ (heq ▸ hs.1 b hb)
      rw [lookup_foldl_expire_of_notMem strategy es _ hnot]
      cases strategy with
      | purge => rw [expire, Table.lookup_delete, if_pos rfl]
      | retain => rw [expire, Table.lookup_put,
          if_pos (show e.identifier = (expiredEntry e).identifier from rfl)]
    · exact lookup_foldl_expire strategy es _ hs.2 h

end EtsRepository

end Wotex.Directory
