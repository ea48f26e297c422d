import Wotex.Directory.Updates
import Wotex.Term.Keyset
import Wotex.Term.Pairs

/-!
# Listing page by page (`directory.ex:236-272,606-626`, `ets_repository.ex:195-234`)

A client reads the collection with `query/3` and goes on with the `next_cursor` of each page
(`follow`). `readPage_eq` says what one call returns over the ETS repository: the live entries behind
the cursor up to the limit, a cursor to the last of them when there are more, and no refusal by
`Page.validate/3`. A chain of such calls is then a keyset walk over the table (`follow_spec`), and
`paging_complete` is what `Wotex.Keyset` says of those, with the revision check added: the revision
counts the committed mutations of a run (`run_revision`), so that a cursor from before one is refused.

`Sound` is what the directory keeps of the repository (`run_sound`): all entries are valid.

Results:
* `run_sound`, `run_revision`: what every run of the directory keeps of its repository.
* `readPage_eq`, `follow_spec`: one call, and a chain of calls, as a keyset walk.
* `paging_complete`: the pages are in identifier order without repetition, hold only live entries, hold every
  entry that is live throughout once the chain has ended, and no call goes on behind a mutation.

Out of scope: repositories other than the ETS one, and readings that are refused before the repository is asked
(`Reading.Admissible`).
-/

namespace Wotex.Directory

open EtsRepository (serve revisionText)
open List Cursor
open Keyset

/-! ## The repository the directory keeps -/

/-- Every stored entry is valid. -/
def Sound (host : Host) (s : EtsRepository) : Prop :=
  ∀ k e, s.table.lookup k = some e → e.valid host.core = true

theorem Serves.sound {host : Host} {s s' : EtsRepository} {q : Request} {r : Reply}
    {last : Option (Request × Reply)} (h : Serves s q r s') (hq : Rests host last q) (hs : Sound host s) :
    Sound host s' := by
  have put : ∀ e : Entry, e.valid host.core = true →
      ∀ k f, (s.table.put e.forStorage).lookup k = some f → f.valid host.core = true := by
    intro e he k f hf
    rw [Entry.forStorage_of_valid he, Table.lookup_put] at hf
    split_ifs at hf
    · exact Option.some.inj hf ▸ he
    · exact hs k f hf
  cases h with
  | nothing _ => exact hs
  | insert _ => exact put _ hq
  | replace _ => exact put _ hq.1
  | delete _ =>
    intro k f hf
    rw [Table.lookup_delete] at hf
    split_ifs at hf
    exact hs k f hf
  | @expire cutoff limit strategy _ =>
    intro k f hf
    by_cases hk : k ∈ (EtsRepository.batch s.table cutoff limit strategy).map Entry.identifier
    · obtain ⟨e, he, rfl⟩ := mem_map.mp hk
      rw [EtsRepository.lookup_foldl_expire strategy _ s.table
        (EtsRepository.batch_sorted s.table cutoff limit strategy) he] at hf
      cases strategy with
      | purge => cases hf
      | retain =>
        cases hf
        have hv := Entry.valid_iff.mp (hs _ _ (EtsRepository.mem_batch he).1)
        exact Entry.valid_iff.mpr ⟨⟨hv.1.1, hv.1.2.1, hv.1.2.2.1, Nat.succ_pos _⟩, hv.2⟩
    · rw [EtsRepository.lookup_foldl_expire_of_notMem strategy _ _ hk] at hf
      exact hs k f hf

/-- **The directory stores valid entries only**, in every interleaving of its calls. -/
theorem run_sound {host : Host} {s : EtsRepository} (hs : Sound host s) (turns : List Turn) :
    Sound host (run host s turns).store := by
  have ht := run_tracked host s turns
  have h0 : (run host s turns).storeAt 0 = s := Clients.run_storeAt_zero s _
  rw [← Clients.storeAt_length]
  refine ht.stretch_rule (P := fun _ s => Sound host s) (i := 0) (h0.symm ▸ hs) (Nat.le_refl _)
    (Nat.zero_le _) fun k e _ _ he hb => ?_
  obtain ⟨last, -, hq⟩ := ht.events k e he
  exact (serve_serves host e.before e.request).sound hq hb

/-- **The revision counts what was committed**: it never falls, and a commit raises it. -/
theorem run_revision (host : Host) (s : EtsRepository) (turns : List Turn)
    (h : ∃ e ∈ (run host s turns).events, committed e.request e.reply ≠ []) :
    s.revision < (run host s turns).store.revision := by
  have ht := run_tracked host s turns
  have h0 : (run host s turns).storeAt 0 = s := Clients.run_storeAt_zero s _
  obtain ⟨e, he, hne⟩ := h
  obtain ⟨m, hm, rfl⟩ := mem_iff_getElem.mp he
  have key := ht.stretch_rule (P := fun k t => s.revision ≤ t.revision ∧
      (m < k → s.revision < t.revision)) (i := 0) (by rw [h0]; exact ⟨Nat.le_refl _, by omega⟩)
    (Nat.le_refl _) (Nat.zero_le _) fun k e _ _ he hb => ?_
  · rw [Clients.storeAt_length] at key
    exact key.2 hm
  · have hserves := serve_serves host e.before e.request
    rw [← (ht.served k e he).1] at hserves
    have hcommit : m = k → committed e.request e.reply ≠ [] := by
      rintro rfl
      rw [getElem?_eq_getElem hm] at he
      exact Option.some.inj he ▸ hne
    generalize (serve host e.before e.request).2 = after at hserves ⊢
    obtain ⟨caller, before, request, reply⟩ := e
    dsimp only at hb hserves hcommit
    obtain ⟨hle, hlt⟩ := hb
    cases hserves with
    | nothing hc => exact ⟨hle, fun hmk => hlt (by
        rcases Nat.lt_or_eq_of_le (Nat.lt_succ_iff.mp hmk) with h | h
        · exact h
        · exact absurd hc (hcommit h))⟩
    | _ => exact ⟨by show _ ≤ before.revision + 1; omega, fun _ => by
        show _ < before.revision + 1
        omega⟩

section

variable {host : Host} {s : EtsRepository} {t : DateTime} {n : Nat} {after : Option Text}

/-- The entries behind an identifier that are active at a time. -/
def waiting (s : EtsRepository) (after : Option Text) (t : DateTime) : List Entry :=
  Keyset.waiting Entry.identifier (fun t e => e.active t) s.table.toList after t

theorem collect_eq (t : DateTime) : ∀ (n : Nat) (l : List Entry),
    EtsRepository.collect t n l = (l.filter fun e => e.active t).take n
  | n, [] => by cases n <;> simp [EtsRepository.collect]
  | 0, e :: l => by simp [EtsRepository.collect]
  | n + 1, e :: l => by
    rw [EtsRepository.collect, collect_eq t n l, collect_eq t (n + 1) l]
    split_ifs with h <;> simp [h]

section

variable (s : EtsRepository) (after : Option Text) (t : DateTime)

theorem collect_ahead (n : Nat) :
    EtsRepository.collect t n (EtsRepository.ahead s.table after) = (waiting s after t).take n := by
  rw [collect_eq]
  cases after with
  | none => rfl
  | some k =>
    refine congrArg (fun l : List Entry => (l.filter fun e => e.active t).take n) ?_
    exact filter_congr fun e _ => decide_eq_decide.mpr Iff.rfl

theorem waiting_sorted : (waiting s after t).Pairwise fun a b => a.identifier < b.identifier :=
  Keyset.waiting_sorted s.table.toList_sorted

end

variable {e : Entry}

theorem mem_waiting (h : e ∈ waiting s after t) :
    s.table.lookup e.identifier = some e ∧ (∀ k ∈ after, k < e.identifier) ∧ e.active t = true := by
  obtain ⟨⟨hl, hafter⟩, hactive⟩ := Keyset.mem_waiting.mp h
  exact ⟨Table.mem_toList.mp hl, hafter, hactive⟩

/-! ## One page -/

/-- The text of a cursor. -/
def cursorText (revision identifier : Text) : Text :=
  ['.'].intercalate [tag, Base.urlEncode64 revision, Base.urlEncode64 identifier]

/-- The page the repository builds: the first entries waiting, and where to go on. -/
def expectedPage (s : EtsRepository) (n : Nat) (after : Option Text) (t : DateTime) : Page where
  entries := (waiting s after t).take n
  nextCursor := (Keyset.next Entry.identifier (waiting s after t) n).map (cursorText s.revisionText)
  collectionRevision := s.revisionText

theorem revisionText_ne_nil (s : EtsRepository) : s.revisionText ≠ [] :=
  append_ne_nil_of_left_ne_nil (by decide) _

theorem revisionText_inj {s s' : EtsRepository} (h : s.revisionText = s'.revisionText) :
    s.revision = s'.revision := by
  have := Json.decimal_inj (append_cancel_left h)
  exact_mod_cast this

variable (hs : Sound host s)

include hs

theorem identifier_valid (h : e ∈ waiting s after t) : Identifier.valid e.identifier = true :=
  (Entry.valid_iff.mp (hs _ _ (mem_waiting h).1)).1.1

theorem encode_waiting (h : e ∈ waiting s after t) :
    encode s.revisionText e.identifier = .ok (cursorText s.revisionText e.identifier) :=
  encode_eq_ok.mpr ⟨⟨revisionText_ne_nil s, identifier_valid hs h⟩, rfl⟩

theorem keysetPage_eq (hn : 0 < n) : EtsRepository.keysetPage host s n after t =
    .ok (expectedPage s n after t) := by
  unfold EtsRepository.keysetPage
  dsimp only
  rw [collect_ahead, take_take, Nat.min_eq_left (by omega)]
  have hmore : decide (n < ((waiting s after t).take (n + 1)).length) =
      decide (n < (waiting s after t).length) := by
    rw [length_take]
    exact decide_eq_decide.mpr (by omega)
  rw [hmore]
  have hbase : Page.baseValid host.core ⟨(waiting s after t).take n, none, s.revisionText⟩ = true := by
    simp only [Page.baseValid, Bool.and_eq_true, all_eq_true, bne_iff_ne, Option.all_none, and_true]
    refine ⟨fun e he => ?_, revisionText_ne_nil s⟩
    exact hs _ _ (mem_waiting (mem_of_mem_take he)).1
  simp only [Page.new, Page.cursorAfter, hbase, expectedPage, Keyset.next, decide_eq_true_eq]
  by_cases hlt : n < (waiting s after t).length
  · rw [if_pos hlt, if_pos hlt]
    cases hlast : ((waiting s after t).take n).getLast? with
    | none =>
      rw [getLast?_eq_none_iff, ← length_eq_zero_iff, length_take] at hlast
      omega
    | some last =>
      have hmem := mem_of_mem_take (mem_of_getLast? hlast)
      simp only [encode_waiting hs hmem]
      rfl
  · rw [if_neg hlt, if_neg hlt]
    rfl

/-- The cursor of the expected page decodes to the last identifier on it. -/
theorem decode_expectedPage {cursor : Text}
    (h : (expectedPage s n after t).nextCursor = some cursor) :
    ∃ k, Keyset.next Entry.identifier (waiting s after t) n = some k ∧
      decode cursor = .ok ⟨s.revisionText, k⟩ := by
  obtain ⟨k, hk, rfl⟩ := Option.map_eq_some_iff.mp h
  obtain ⟨-, -, e, he, rfl⟩ := Keyset.next_spec s.table.toList_sorted hk
  exact ⟨_, hk, decode_encode (encode_waiting hs he)⟩

/-- **`Page.validate/3` accepts the page.** -/
theorem validate_expectedPage {q : Query} (hn : n ≤ q.limit)
    (hcursor : ∀ cursor ∈ q.cursor, ∃ k, after = some k ∧ decode cursor = .ok ⟨s.revisionText, k⟩) :
    (expectedPage s n after t).validate host.core q t = .ok () := by
  have hsorted := waiting_sorted s after t
  have hbase : Page.baseValid host.core (expectedPage s n after t) = true := by
    simp only [Page.baseValid, Bool.and_eq_true, all_eq_true, bne_iff_ne]
    refine ⟨⟨fun e he => ?_, revisionText_ne_nil s⟩, ?_⟩
    · exact hs _ _ (mem_waiting (mem_of_mem_take he)).1
    · cases hc : (expectedPage s n after t).nextCursor with
      | none => rfl
      | some cursor =>
        obtain ⟨k, -, hd⟩ := decode_expectedPage hs hc
        simp [valid, hd, Outcome.toOption]
  have hentries : Page.validateEntries (expectedPage s n after t) q t = .ok () := by
    rw [Page.validateEntries, check_eq_ok]
    have hstrict : (((waiting s after t).take n).map Entry.identifier).Pairwise (· < ·) :=
      pairwise_map.mpr hsorted.take
    refine ⟨?_, ?_, hstrict.imp ne_of_lt, ?_⟩
    · have : ((waiting s after t).take n).length ≤ n := length_take_le _ _
      show (((waiting s after t).take n).length : Int) ≤ q.limit
      omega
    · exact (List.Pairwise.insertionSort_eq (hstrict.imp le_of_lt)).symm
    · exact all_eq_true.mpr fun e he => (mem_waiting (mem_of_mem_take he)).2.2
  have hcontinue : Page.validateContinuation (expectedPage s n after t) q = .ok () := by
    unfold Page.validateContinuation
    cases hc : q.cursor with
    | none => rfl
    | some cursor =>
      obtain ⟨k, rfl, hd⟩ := hcursor cursor hc
      simp only [hd]
      rw [if_neg (show ¬ s.revisionText ≠ (expectedPage s n (some k) t).collectionRevision from
        not_not.mpr rfl), check_eq_ok]
      exact fun e he => (mem_waiting (mem_of_mem_take he)).2.1 k rfl
  have hnext : Page.validateNextCursor (expectedPage s n after t) = .ok () := by
    unfold Page.validateNextCursor
    cases hc : (expectedPage s n after t).nextCursor with
    | none => rfl
    | some cursor =>
      obtain ⟨k, hk, rfl⟩ := Option.map_eq_some_iff.mp hc
      unfold Keyset.next at hk
      split_ifs at hk
      obtain ⟨last, hlast, rfl⟩ := Option.map_eq_some_iff.mp hk
      have hlast' : (expectedPage s n after t).entries.getLast? = some last := hlast
      simp only [hlast']
      rw [check_eq_ok]
      exact encode_waiting hs (mem_of_mem_take (mem_of_getLast? hlast))
  simp [Page.validate, hbase, hentries, hcontinue, hnext]

end

/-! ## A client that follows the cursors -/

/-- One page of a client: the limit and format it asks for, and what the ports answer. -/
structure Reading where
  limit : Int
  format : Format
  time : DateTime
  ports : Ports

namespace Reading

/-- The query of a reading behind a cursor. -/
def query (r : Reading) (cursor : Option Text) : Query := ⟨.listing, r.limit, r.format, cursor⟩

/-- The reading is within the bounds of the service, allowed, and has a clock. -/
structure Admissible (service : Service) (r : Reading) : Prop where
  limit : 0 < r.limit ∧ r.limit ≤ service.maxPageLimit
  format : r.format = .array ∨ r.format = .collection
  allowed : r.ports.authorize .list .collection = .allow
  time : r.ports.now = some r.time

end Reading

variable (host : Host) (service : Service) (context : Context)

/-- One call of `query/3` over the repository. -/
def readPage (s : EtsRepository) (r : Reading) (cursor : Option Text) : Result Page × EtsRepository :=
  Task.exec (serve host) s (query host service r.ports context (r.query cursor))

/-- The pages a client reads from a cursor on, until one has no next cursor. -/
def follow (s : EtsRepository) (cursor : Option Text) : List Reading → List (Reading × Result Page)
  | [] => []
  | r :: rs => (r, (readPage host service context s r cursor).1) ::
    match (readPage host service context s r cursor).1 with
    | .ok ⟨_, some following, _⟩ => follow (readPage host service context s r cursor).2 (some following) rs
    | _ => []

variable {host service context} {s : EtsRepository} {r : Reading} {cursor : Option Text}
  {after : Option Text}

/-- The cursor of a query, decoded. -/
def Decodes : Option Text → Option Cursor → Prop
  | none, none => True
  | some text, some c => decode text = .ok c
  | _, _ => False

theorem Decodes.exists {text : Text} {c : Option Cursor} (h : Decodes (some text) c) :
    ∃ k, c = some k ∧ decode text = .ok k := by
  cases c with
  | none => exact h.elim
  | some k => exact ⟨k, rfl, h⟩

/-- What `query/3` does once its checks pass: it asks for a list. -/
theorem readPage_asks (hctx : context.principal.isSome = true) (hr : r.Admissible service)
    {c : Option Cursor} (hcursor : Decodes cursor c) :
    readPage host service context s r cursor =
      Task.exec (serve host) s (listEntries (r.query cursor) c r.time >>= fun page =>
        Task.lift (page.validate host.core (r.query cursor) r.time) >>= fun _ =>
          Task.lift (.ok (page.markRetrieved r.time))) := by
  have hvalid : (r.query cursor).validate service.maxPageLimit = .ok () := by
    have hc : cursor.all valid = true := by
      cases cursor with
      | none => rfl
      | some text =>
        obtain ⟨k, -, hd⟩ := hcursor.exists
        simp [valid, hd, Outcome.toOption]
    simp [Query.validate, Reading.query, hr.limit, hr.format, hc]
  have hlist : listingCursor (r.query cursor) = .ok c := by
    cases cursor with
    | none =>
      cases c with
      | none => rfl
      | some k => exact hcursor.elim
    | some text =>
      obtain ⟨k, rfl, hd⟩ := hcursor.exists
      simp [listingCursor, Reading.query, hd]
  have hauth : authorize r.ports .list .collection = .ok () := by
    simp [authorize, hr.allowed]
  have hnow : now r.ports .list = .ok r.time := by simp [now, hr.time]
  have hcontext : validContext context .list = .ok () := by simp [validContext, hctx]
  simp [readPage, query, hcontext, hvalid, hlist, hauth, hnow]

/-- **One page**: what waits behind the cursor, up to the limit. -/
theorem readPage_eq (hctx : context.principal.isSome = true)
    (hs : Sound host s) (hr : r.Admissible service)
    (hcursor : Decodes cursor (after.map fun k => ⟨s.revisionText, k⟩)) :
    readPage host service context s r cursor =
      (.ok ((expectedPage s r.limit.toNat after r.time).markRetrieved r.time), s) := by
  have hn : 0 < r.limit.toNat := by have := hr.limit.1; omega
  have hserve : serve host s
      (.list (r.query cursor) (after.map fun k => ⟨s.revisionText, k⟩) r.time) =
      (.page (expectedPage s r.limit.toNat after r.time), s) := by
    have hall : (after.map fun k => (⟨s.revisionText, k⟩ : Cursor)).all
        (fun c => c.collectionRevision = s.revisionText) = true := by
      cases after <;> simp
    have hkeys : (after.map fun k => (⟨s.revisionText, k⟩ : Cursor)).map lastIdentifier =
        after := by
      cases after <;> rfl
    rw [serve, EtsRepository.page, if_pos hall, hkeys]
    simp [Reading.query, keysetPage_eq hs hn]
  have hvalid : (expectedPage s r.limit.toNat after r.time).validate host.core
      (r.query cursor) r.time = .ok () := by
    refine validate_expectedPage hs (by simp [Reading.query]; omega) ?_
    intro text htext
    obtain rfl : cursor = some text := htext
    obtain ⟨k, hk, hd⟩ := hcursor.exists
    obtain ⟨j, rfl, rfl⟩ := Option.map_eq_some_iff.mp hk
    exact ⟨j, rfl, hd⟩
  rw [readPage_asks hctx hr hcursor, listEntries, Task.bind_assoc, Task.exec_ask_bind, hserve]
  simp [hvalid]

/-- **A cursor of another revision is refused.** -/
theorem readPage_changed (hctx : context.principal.isSome = true) (hr : r.Admissible service)
    {c : Cursor} (hcursor : Decodes cursor (some c)) (hne : c.collectionRevision ≠ s.revisionText) :
    (readPage host service context s r cursor).1 =
      .refuse { code := .collectionChanged, phase := .listing, operation := .list } := by
  have hserve : serve host s (.list (r.query cursor) (some c) r.time) = (.error .collectionChanged, s) := by
    rw [serve, EtsRepository.page, if_neg (by simpa using hne)]
  rw [readPage_asks hctx hr hcursor, listEntries, Task.bind_assoc, Task.exec_ask_bind, hserve]
  simp

/-! ## The whole listing -/

/-- A page that was read is a page of the walk, its entries marked with the time of reading, and its
cursor is of the present revision. -/
def Reads (s : EtsRepository) (p : Reading × Result Page) (w : DateTime × List Entry) : Prop :=
  ∃ page, p.2 = .ok page ∧ p.1.time = w.1 ∧
    page.entries = w.2.map (fun e => e.markRetrieved w.1) ∧
    ∀ text, page.nextCursor = some text → ∃ k, decode text = .ok ⟨s.revisionText, k⟩

/-- The walk over the table that readings make. -/
def walk (s : EtsRepository) (after : Option Text) (rs : List Reading) : List (DateTime × List Entry) :=
  Keyset.walk Entry.identifier (fun t e => e.active t) s.table.toList after
    (rs.map fun r => (r.limit.toNat, r.time))

/-- The last page that was read has no next cursor. -/
def Ended (pages : List (Reading × Result Page)) : Prop :=
  ∃ p page, pages.getLast? = some p ∧ p.2 = .ok page ∧ page.nextCursor = none

theorem ended_cons {p : Reading × Result Page} {page : Page} {pages : List (Reading × Result Page)}
    (hp : p.2 = .ok page) (hnext : page.nextCursor ≠ none) : Ended (p :: pages) ↔ Ended pages := by
  cases pages with
  | nil => simp [Ended, hp, hnext]
  | cons q pages => simp [Ended]

/-- **Following the cursors is a keyset walk over the table**, and ends when the walk does. -/
theorem follow_spec (hctx : context.principal.isSome = true)
    (hs : Sound host s) : ∀ (rs : List Reading) (cursor after : Option Text),
    (∀ r ∈ rs, r.Admissible service) →
    Decodes cursor (after.map fun k => ⟨s.revisionText, k⟩) →
      List.Forall₂ (Reads s) (follow host service context s cursor rs) (walk s after rs) ∧
      (Ended (follow host service context s cursor rs) ↔
        ended Entry.identifier (fun t e => Entry.active e t) s.table.toList after
          (rs.map fun r => (r.limit.toNat, r.time)) = true)
  | [], _, _, _, _ => ⟨.nil, by simp [follow, Ended, Keyset.ended]⟩
  | r :: rs, cursor, after, hrs, hcursor => by
    obtain ⟨hr, hrs⟩ := forall_mem_cons.mp hrs
    have hpage := readPage_eq hctx hs hr hcursor
    have hcursors : ∀ text, (expectedPage s r.limit.toNat after r.time).nextCursor = some text →
        ∃ k, decode text = .ok ⟨s.revisionText, k⟩ :=
      fun text ht => (decode_expectedPage hs ht).imp fun _ h => h.2
    rw [follow, hpage, walk, map_cons, Keyset.walk, Keyset.ended]
    cases hnext : (expectedPage s r.limit.toNat after r.time).nextCursor with
    | none =>
      have hk := Option.map_eq_none_iff.mp hnext
      rw [waiting] at hk
      rw [hnext] at hcursors
      simp only [Page.markRetrieved, hnext, hk, iff_true]
      exact ⟨.cons ⟨_, rfl, rfl, rfl, hcursors⟩ .nil, _, _, rfl, rfl, rfl⟩
    | some text =>
      obtain ⟨k, hk, hd⟩ := decode_expectedPage hs hnext
      obtain ⟨hrest, hended⟩ := follow_spec hctx hs rs (some text) (some k) hrs hd
      rw [waiting] at hk
      rw [hnext] at hcursors
      simp only [Page.markRetrieved, hnext, hk]
      rw [ended_cons rfl (by simp)]
      exact ⟨.cons ⟨_, rfl, rfl, rfl, hcursors⟩ hrest, hended⟩

/-- The entries of the pages that were read, in order. -/
def listed (pages : List (Reading × Result Page)) : List Entry :=
  pages.flatMap fun p => match p.2 with
    | .ok page => page.entries
    | _ => []

/-- What it means that the pages read from a repository list it completely. -/
structure Complete (host : Host) (service : Service) (context : Context) (s : EtsRepository)
    (rs : List Reading) (pages : List (Reading × Result Page)) : Prop where
  /-- No page is refused. -/
  accepted : ∀ p ∈ pages, ∃ page, p.2 = .ok page
  /-- Identifiers increase strictly over all of the pages. -/
  increasing : ((listed pages).map Entry.identifier).Pairwise (· < ·)
  /-- What is on a page was stored, and active when the page was read. -/
  active : ∀ p ∈ pages, ∀ page, p.2 = .ok page → ∀ e ∈ page.entries,
    ∃ stored, s.table.lookup stored.identifier = some stored ∧ stored.active p.1.time = true ∧
      e = stored.markRetrieved p.1.time
  /-- Once there is no next cursor, every entry that was active at all the pages is on one. -/
  all : Ended pages → ∀ k e, s.table.lookup k = some e →
    (∀ p ∈ pages, e.active p.1.time = true) →
      ∃ p ∈ pages, ∃ page, p.2 = .ok page ∧ e.markRetrieved p.1.time ∈ page.entries
  /-- With more readings than entries, there is a page without a next cursor. -/
  ends : s.table.toList.length < rs.length → Ended pages
  /-- After a mutation was committed, no page can be continued. -/
  changed : ∀ p ∈ pages, ∀ page text, p.2 = .ok page → page.nextCursor = some text →
    ∀ turns, (∃ e ∈ (run host s turns).events, committed e.request e.reply ≠ []) →
      ∀ r : Reading, r.Admissible service →
        (readPage host service context (run host s turns).store r (some text)).1 =
          .refuse { code := .collectionChanged, phase := .listing, operation := .list }

theorem identifiers_of_reads {pages : List (Reading × Result Page)} {ws : List (DateTime × List Entry)}
    (h : List.Forall₂ (Reads s) pages ws) :
    (listed pages).map Entry.identifier = (ws.flatMap Prod.snd).map Entry.identifier := by
  induction h with
  | nil => rfl
  | @cons p w pages ws hp _ ih =>
    obtain ⟨page, hpage, -, hentries, -⟩ := hp
    have hcons : listed (p :: pages) = page.entries ++ listed pages := by
      simp [listed, hpage]
    rw [hcons, map_append, ih, flatMap_cons, map_append, hentries, map_map]
    rfl

/-- **Paging is complete.** -/
theorem paging_complete (hctx : context.principal.isSome = true)
    (hs : Sound host s) (rs : List Reading) (hrs : ∀ r ∈ rs, r.Admissible service) :
    Complete host service context s rs (follow host service context s none rs) := by
  obtain ⟨hreads, hend⟩ := follow_spec hctx hs rs none none hrs trivial
  have hsorted := s.table.toList_sorted
  refine ⟨fun p hp => ?_, ?_, fun p hp page hpage e he => ?_, fun hfin k e hk hactive => ?_,
    fun hlen => ?_, fun p hp page text hpage htext turns hcommit r hr => ?_⟩
  · obtain ⟨w, -, page, hpage, -⟩ := forall₂_exists_right hreads hp
    exact ⟨page, hpage⟩
  · rw [identifiers_of_reads hreads]
    exact pairwise_map.mpr (Keyset.walk_sorted hsorted _ none).1
  · obtain ⟨w, hw, page', hpage', htime, hentries, -⟩ := forall₂_exists_right hreads hp
    obtain rfl := Outcome.ok.inj (hpage.symm.trans hpage')
    rw [hentries] at he
    obtain ⟨stored, hstored, rfl⟩ := mem_map.mp he
    obtain ⟨hmem, hlive⟩ := Keyset.walk_live _ none hw hstored
    exact ⟨stored, Table.mem_toList.mp hmem, htime ▸ hlive, by rw [htime]⟩
  · have hmem : e ∈ s.table.toList := Table.mem_toList.mpr (by rwa [Table.lookup_identifier hk])
    have hlive : ∀ w ∈ walk s none rs, e.active w.1 = true := fun w hw => by
      obtain ⟨p, hp, page, -, htime, -⟩ := forall₂_exists_left hreads hw
      exact htime ▸ hactive p hp
    have hpos : ∀ r ∈ rs.map (fun r => (r.limit.toNat, r.time)), 0 < r.1 :=
      forall_mem_map.mpr fun reading hmem => Int.pos_iff_toNat_pos.mp (hrs reading hmem).limit.1
    have hwalk := Keyset.walk_complete hsorted _ none hpos (hend.mp hfin) hmem hlive
    obtain ⟨w, hw, hew⟩ := mem_flatMap.mp hwalk
    obtain ⟨p, hp, page, hpage, htime, hentries, -⟩ := forall₂_exists_left hreads hw
    refine ⟨p, hp, page, hpage, ?_⟩
    rw [hentries, htime]
    exact mem_map_of_mem hew
  · exact hend.mpr (ended_of_length hsorted _ none (by simpa [ahead] using hlen))
  · obtain ⟨w, -, page', hpage', -, -, hcursor⟩ := forall₂_exists_right hreads hp
    obtain rfl := Outcome.ok.inj (hpage.symm.trans hpage')
    obtain ⟨k, hd⟩ := hcursor text htext
    refine readPage_changed hctx hr (c := ⟨s.revisionText, k⟩) hd fun heq => ?_
    have := run_revision host s turns hcommit
    rw [revisionText_inj heq] at this
    exact lt_irrefl _ this

/-! ## Two lamps on two pages -/

/-- Two lamps are registered. -/
def twoLamps : List Turn :=
  [.begins 0 plainService (callAt 1 (.register (lamp "first") {})), .goes 0, .goes 0,
   .begins 0 plainService (callAt 2 (.register
     ((lamp "second").put "id" (.str "urn:lamp:2")) {})), .goes 0, .goes 0]

/-- A page of one entry, read at a time in seconds. -/
def oneEntry (seconds : Int) : Reading where
  limit := 1
  format := .array
  time := ⟨seconds * 1000000, 0, .utc⟩
  ports := (callAt seconds (.list {})).ports

theorem oneEntry_admissible (seconds : Int) : (oneEntry seconds).Admissible plainService :=
  ⟨show (0 : Int) < 1 ∧ (1 : Int) ≤ 200 by decide, Or.inl rfl, rfl, rfl⟩

theorem two_lamps_complete :
    Complete plainHost plainService ⟨some "operator"⟩ (run plainHost .init twoLamps).store
      [oneEntry 3, oneEntry 4]
      (follow plainHost plainService ⟨some "operator"⟩ (run plainHost .init twoLamps).store
        none [oneEntry 3, oneEntry 4]) := by
  refine paging_complete rfl (run_sound (fun k e h => ?_) twoLamps) _ ?_
  · exact absurd h (by simp [EtsRepository.init, Table.empty, Table.lookup])
  · exact forall_mem_cons.mpr ⟨oneEntry_admissible 3, forall_mem_singleton.mpr (oneEntry_admissible 4)⟩

set_option maxRecDepth 100000 in
/-- The two pages hold one lamp each. -/
example : (listed (follow plainHost plainService ⟨some "operator"⟩
    (run plainHost .init twoLamps).store none [oneEntry 3, oneEntry 4])).map Entry.identifier =
    ["urn:lamp", "urn:lamp:2"] := by
  decide +kernel

end Wotex.Directory
