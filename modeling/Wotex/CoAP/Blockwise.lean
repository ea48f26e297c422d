import Wotex.CoAP.Block

/-!
# Whole-body transfers (`blockwise.ex`)

A transfer divides a request payload into Block1 requests and reassembles Block2 responses. It makes
its requests one after the other through a callback that carries a state of its own; the callback is
any function, so a statement about every callback is a statement about every server.

A `Transfer` is what `run/4` and `continue/5` return, with one member that the source does not have:
the calls of the callback in order, each with the checked response. The recursion of the source is on
the exchanges left, which is the structural argument here.

Results: `download_cases` says what one step of a download does and `download_induction` is the rule for whole
downloads. Out of scope: the connection behind the callback, its timers and its retransmissions.
-/

namespace Wotex.CoAP.Blockwise

open List Codec Block

/-! ## The budgets -/

/-- The keys of the transfer options; `options/2` refuses any other. -/
inductive TransferKey where
  | blockSize | maxBodySize | maxBlocks
  deriving DecidableEq

/-- The map of `config/1`. -/
structure Config where
  size : Nat
  limit : Nat
  blocks : Nat
  deriving DecidableEq

/-- `options/2`: a key occurs once. -/
def options : List (TransferKey × Int) → List (TransferKey × Int) → Result (List (TransferKey × Int))
  | [], values => .ok values
  | (key, value) :: rest, values =>
    if key ∈ values.map Prod.fst then failure .invalidTransferOptions
    else options rest ((key, value) :: values)

/-- `blockwise.ex:27-38`. -/
def config (opts : List (TransferKey × Int)) : Result Config := do
  let values ← options opts []
  let size := (values.lookup .blockSize).getD 512
  let limit := (values.lookup .maxBodySize).getD 1048576
  let blocks := (values.lookup .maxBlocks).getD 4096
  check (decide (size ∈ sizes.map Int.ofNat ∧ (1 ≤ limit ∧ limit ≤ 1048576)
    ∧ 1 ≤ blocks ∧ blocks ≤ 4096)) .invalidTransferOptions
  .ok ⟨size.toNat, limit.toNat, blocks.toNat⟩

/-! ## Options of a message -/

variable (m : Message)

def dropOptions (numbers : List Int) : Message :=
  { m with options := m.options.filter fun e => e.1 ∉ numbers }

def putOption (number : Int) (value : Bytes) : Message :=
  { m with options := (number, value) :: (dropOptions m [number]).options }

/-- `put_block/5`, which raises where the block cannot be encoded. -/
def putBlock (option : Int) (number : Nat) (more : Bool) (size : Nat) : Result Message :=
  match encode ⟨number, more, size⟩ with
  | .ok value => .ok (putOption m option value)
  | _ => .raise

def block (number : Int) : Result Block :=
  match option m number with
  | [value] => decode value
  | _ => failure .missingBlock

def withoutIfNoneMatch (offset : Nat) : Message :=
  if offset = 0 then m else dropOptions m [5]

def success : Result Unit :=
  if 64 ≤ m.code ∧ m.code ≤ 95 then .ok ()
  else if 128 ≤ m.code ∧ m.code ≤ 191 then .refuse (.new .remoteResponse (some m.code))
  else failure .invalidResponse

variable (reply : Message)

def withinSizeLimit (limit : Nat) : Bool :=
  (option reply 28).all fun value => decide (value.unsigned ≤ limit)

/-- What `identity/1` returns: the code, the ETags and the Content-Formats. -/
abbrev Identity := Int × List Bytes × List Nat

def identity : Identity :=
  (reply.code, option reply 4, (option reply 12).map Bytes.unsigned)

/-- `previous`: the response before and its block size. -/
structure Previous where
  reply : Message
  size : Nat

/-- `blockwise.ex:260-279`. -/
def representation (b : Block) (previous : Option Previous) (cfg : Config) :
    Result Unit := do
  let maximum := (previous.map Previous.size).getD cfg.size
  check (!(decide (b.size ≠ maximum) && previous.isSome)) .blockSizeChanged
  check (decide (b.size ≤ maximum)) .invalidBlockSize
  check (withinSizeLimit reply cfg.limit) .bodyLimit
  check (previous.all fun p => decide (identity reply = identity p.reply)) .representationChanged

/-! ## Requests that may start -/

def validateRequest (m : Message) (cfg : Config) : Result Unit := do
  validateOptions m
  let _ ← encode { m with payload := [] }
  check (decide (m.payload.length ≤ cfg.limit)) .bodyLimit
  check (!([23, 27, 28, 60, 292].any fun number => decide (option m number ≠ []))) .managedBlockOption
  check (decide ((1 ≤ m.code ∧ m.code ≤ 4) ∧ (m.type = .con ∨ m.type = .non))) .invalidRequest

/-- `first_body/2`; more than one Block2 option matches no clause. -/
def firstBody (first : Message) (cfg : Config) : Result Unit :=
  match option first 23 with
  | [] =>
    check (decide (first.payload.length ≤ cfg.limit) && withinSizeLimit first cfg.limit) .bodyLimit
  | [_] => do
    let b ← block first 23
    representation first b none cfg
    let _ ← append [] b first.payload cfg.limit
    .ok ()
  | _ => .raise

/-- `blockwise.ex:104-116`. -/
def validateContinuationRequest (request first : Message) (cfg : Config) : Result Unit := do
  validateRequest request cfg
  check (decide (request.code = 1 ∧ request.payload = [])) .invalidContinuation
  validateOptions first
  let _ ← encode first
  success first
  check (decide (first.code ≠ 95)) .invalidContinuation
  firstBody first cfg

/-! ## The callback -/

/-- What the callback does: it returns a response or a failure with its next state, returns
something else, or leaves by a throw. -/
inductive Reply (σ : Type) where
  | ok (reply : Message) (next : σ)
  | error (e : Error) (next : σ)
  | other
  | throws

/-- The callback. -/
abbrev Exchange (σ : Type) := Message → σ → Reply σ

variable {σ : Type}

/-- `blockwise.ex:310-327`. -/
def invoke (exchange : Exchange σ) (request : Message) (state : σ) : Result Message × σ :=
  match exchange request state with
  | .ok reply next =>
    (do
      validateOptions reply
      let _ ← encode reply
      .ok reply, next)
  | .error e next => (.refuse e, next)
  | .other => (failure .invalidExchangeResult, state)
  | .throws => (failure .exchangeFailed, state)

/-- A finished transfer, with the calls of the callback. -/
structure Transfer (σ : Type) where
  result : Result Message
  state : σ
  exchanges : List (Message × Result Message)

variable (result : Result Message)

/-- The transfer ends without another call. -/
def Transfer.done (state : σ) : Transfer σ := ⟨result, state, []⟩

/-- A call comes before the rest. -/
def Transfer.after (request : Message) (result : Result Message) (t : Transfer σ) : Transfer σ :=
  { t with exchanges := (request, result) :: t.exchanges }

/-- A `with` clause of a transfer: it ends where the clause does not return. -/
def clause {α : Type} (x : Result α) (state : σ) (f : α → Transfer σ) : Transfer σ :=
  match x with
  | .ok a => f a
  | .refuse e => .done (.refuse e) state
  | .raise => .done .raise state

/-! ## Transfers -/

variable (cfg : Config)

def finish (first : Option Message) (reply : Message) (body : Bytes) :
    Result Message := do
  success reply
  check (decide (reply.code ≠ 95)) .incompleteResponse
  check (decide (body.length ≤ cfg.limit) && withinSizeLimit reply cfg.limit) .bodyLimit
  .ok { dropOptions (first.getD reply) [23, 27] with payload := body }

/-- The checks of `append/5`: the block, the longer body and whether more blocks follow. -/
def appended (reply : Message) (previous : Option Previous) (acc : Bytes) :
    Result (Block × Bytes × Bool) := do
  success reply
  let b ← block reply 23
  representation reply b previous cfg
  let r ← append acc b reply.payload cfg.limit
  .ok (b, r)

/-- The next Block2 request of `append/5`. -/
def continuation (request : Message) (b : Block) (body : Bytes) : Result Message :=
  putBlock (dropOptions { request with payload := [] } [5, 6, 27, 60]) 23 (body.length / b.size) false
    b.size

/-- `download/5` and `append/5`. A response with two Block2 options matches no clause. -/
def download (cfg : Config) (first : Option Message) (exchange : Exchange σ) (request : Message) :
    Nat → σ → Result Message → Option Previous → Bytes → Transfer σ
  | left, state, result, previous, acc =>
    clause result state fun reply =>
      match option reply 23 with
      | [] =>
        if previous.isNone then .done (finish cfg first reply reply.payload) state
        else .done (failure .missingBlock) state
      | [_] =>
        clause (appended cfg reply previous acc) state fun (b, body, more) =>
          if more then
            clause (continuation request b body) state fun next =>
              match left with
              | 0 => .done (failure .blockLimit) state
              | left + 1 =>
                let (result, state) := invoke exchange next state
                .after next result
                  (download cfg first exchange request left state result (some ⟨reply, b.size⟩) body)
          else .done (finish cfg first reply body) state
      | _ => .done .raise state

/-- The request of `upload/4` for the slice at an offset. -/
def uploadRequest (m : Message) (offset size : Nat) : Result Message := do
  let count := min size (m.payload.length - offset)
  let more := decide (offset + count < m.payload.length)
  let request ← putBlock { m with payload := (m.payload.drop offset).take count } 27 (offset / size)
    more size
  let request := withoutIfNoneMatch (putOption request 60 (Bytes.uint m.payload.length)) offset
  if more then .ok request else putBlock request 23 0 false cfg.size

def uploadAck (b : Block) (number size : Nat) (more : Bool) : Result Unit := do
  check (!(decide (b.number ≠ number) || decide (size < b.size))) .blockAckMismatch
  check (!(more && (decide (reply.code ≠ 95) || !b.more || decide (reply.payload ≠ [])
    || decide (option reply 23 ≠ [])))) .nonAtomicBlockWrite
  check (!(!more && (b.more || decide (reply.code = 95)))) .incompleteBlockWrite

/-- The checks of `upload/4` on the answer to a slice. -/
def acknowledged (number size : Nat) (more : Bool) :
    Result (Message × Block) := do
  let reply ← result
  success reply
  let b ← block reply 27
  uploadAck reply b number size more
  .ok (reply, b)

/-- `blockwise.ex:178-207`. -/
def upload (cfg : Config) (exchange : Exchange σ) (m : Message) : Nat → σ → Nat → Nat → Transfer σ
  | left, state, offset, size =>
    let count := min size (m.payload.length - offset)
    let more := decide (offset + count < m.payload.length)
    clause (uploadRequest cfg m offset size) state fun request =>
      match left with
      | 0 => .done (failure .blockLimit) state
      | left + 1 =>
        let (result, state) := invoke exchange request state
        .after request result
          (clause (acknowledged result (offset / size) size more) state fun (reply, b) =>
            if more then upload cfg exchange m left state (offset + count) b.size
            else download cfg none exchange m left state (.ok reply) none [])

/-- `blockwise.ex:163-176`. -/
def start (exchange : Exchange σ) (m : Message) (state : σ) : Transfer σ :=
  if cfg.size < m.payload.length then
    if m.code = 2 ∨ m.code = 3 then
      upload cfg exchange (putOption m 292 m.token) cfg.blocks state 0 cfg.size
    else .done (failure .invalidBlockwiseMethod) state
  else
    clause (putBlock m 23 0 false cfg.size) state fun request =>
      match cfg.blocks with
      | 0 => .done (failure .blockLimit) state
      | left + 1 =>
        let (result, state) := invoke exchange request state
        .after request result (download cfg none exchange m left state result none [])

def effect (code : Int) : Result Message :=
  match result with
  | .refuse e => .refuse (if code = 2 ∨ code = 3 ∨ code = 4 then e.withEffect .unknown else e)
  | result => result

def run (m : Message) (opts : List (TransferKey × Int)) (state : σ) (exchange : Exchange σ) :
    Transfer σ :=
  clause (config opts) state fun cfg =>
    clause (validateRequest m cfg) state fun _ =>
      let t := start cfg exchange m state
      { t with result := effect t.result m.code }

/-- `continue/5`; the name is a keyword here. -/
def continueFrom (request first : Message) (opts : List (TransferKey × Int)) (state : σ)
    (exchange : Exchange σ) : Transfer σ :=
  clause (config opts) state fun cfg =>
    clause (validateContinuationRequest request first cfg) state fun _ =>
      if request.token = first.token then .done (failure .continuationTokenConflict) state
      else download cfg (some first) exchange request (cfg.blocks - 1) state (.ok first) none []

/-! ## What the small functions do -/

/-- Accepted budgets are within their ranges. -/
structure Config.Valid (cfg : Config) : Prop where
  size : cfg.size ∈ sizes
  limit : 1 ≤ cfg.limit ∧ cfg.limit ≤ 1048576
  blocks : 1 ≤ cfg.blocks ∧ cfg.blocks ≤ 4096

variable {cfg : Config} {m request : Message} {n : Int} {b : Block}

theorem config_ok {opts : List (TransferKey × Int)} (h : config opts = .ok cfg) : cfg.Valid := by
  simp only [config, bind_eq_ok, exists_unit, check_eq_ok, decide_eq_true_eq, mem_map] at h
  obtain ⟨values, -, ⟨⟨size, hs, hsize⟩, hl, hb⟩, ⟨⟩⟩ := h
  refine ⟨?_, ?_, ?_⟩
  · rw [← hsize]
    exact hs
  · dsimp only
    omega
  · dsimp only
    omega

@[simp] theorem option_putOption_self (m : Message) (n : Int) (v : Bytes) :
    option (putOption m n v) n = [v] := by
  simp [option, putOption, dropOptions]

theorem option_dropOptions {numbers : List Int} (h : n ∉ numbers) :
    option (dropOptions m numbers) n = option m n := by
  simp only [option, dropOptions, filter_filter]
  congr 1
  refine filter_congr fun e _ => ?_
  by_cases he : e.1 = n
  · simp [he, h]
  · simp [he]

theorem option_dropOptions_mem {numbers : List Int} (h : n ∈ numbers) :
    option (dropOptions m numbers) n = [] := by
  simp only [option, dropOptions, filter_filter, map_eq_nil_iff,
    filter_eq_nil_iff, Bool.and_eq_true, decide_eq_true_eq, not_and, not_not]
  rintro e - rfl
  exact h

theorem option_putOption {k : Int} {v : Bytes} (h : n ≠ k) : option (putOption m k v) n = option m n := by
  have hdrop : option (dropOptions m [k]) n = option m n :=
    option_dropOptions (by simpa using h)
  rw [← hdrop]
  simp [option, putOption, Ne.symm h]

theorem option_withoutIfNoneMatch (offset : Nat) (h : n ≠ 5) :
    option (withoutIfNoneMatch m offset) n = option m n := by
  unfold withoutIfNoneMatch
  split
  · rfl
  · exact option_dropOptions (by simpa using h)

@[simp] theorem withoutIfNoneMatch_payload (m : Message) (offset : Nat) :
    (withoutIfNoneMatch m offset).payload = m.payload := by
  unfold withoutIfNoneMatch
  split <;> rfl

/-- A block whose number and size are in range is put into the message. -/
theorem putBlock_eq_ok (m : Message) (n : Int) {number size : Nat} (more : Bool)
    (hn : number ≤ 1048575) (hs : size ∈ sizes) :
    ∃ v, putBlock m n number more size = .ok (putOption m n v)
      ∧ Block.decode v = .ok ⟨number, more, size⟩ := by
  have he : Block.encode ⟨number, more, size⟩ = .ok (Bytes.uint (value ⟨number, more, size⟩)) :=
    encode_eq_ok.mpr ⟨hn, hs, rfl⟩
  exact ⟨_, by rw [putBlock, he], Block.decode_of_encode he⟩

theorem block_of_option {v : Bytes}
    (ho : option m n = [v]) (hb : Block.decode v = .ok b) : block m n = .ok b := by
  rw [block, ho]
  exact hb

theorem block_ok (h : block m n = .ok b) : (∃ v, option m n = [v]) ∧ b.size ∈ sizes := by
  unfold block at h
  split at h
  · rename_i v hv
    exact ⟨⟨v, hv⟩, decode_ok h⟩
  · cases h

section

variable {next : Message} {body : Bytes} (h : continuation request b body = .ok next)
include h

theorem continuation_block : block next 27 = failure .missingBlock := by
  unfold continuation putBlock at h
  split at h
  · cases h
    rw [block, option_putOption (by decide), option_dropOptions_mem (by decide)]
  · cases h

theorem continuation_payload : next.payload = [] := by
  unfold continuation putBlock at h
  split at h
  · cases h
    rfl
  · cases h

end

theorem success_eq_ok {u : Unit} : success m = .ok u ↔ 64 ≤ m.code ∧ m.code ≤ 95 := by
  unfold success
  split
  · simp_all
  · split <;> simp_all [failure]

@[simp] theorem clause_ok {α : Type} (a : α) (state : σ) (f : α → Transfer σ) :
    clause (.ok a) state f = f a := rfl

theorem clause_cases {α : Type} (x : Result α) (state : σ) (f : α → Transfer σ) :
    (∃ a, x = .ok a ∧ clause x state f = f a)
      ∨ (clause x state f).exchanges = [] ∧ ∀ a, x ≠ .ok a := by
  cases x with
  | ok a => exact .inl ⟨a, rfl, rfl⟩
  | refuse e | raise => exact .inr ⟨rfl, fun _ => nofun⟩

/-- A request that may start has no managed block option and a bounded payload. -/
theorem validateRequest_ok (h : validateRequest m cfg = .ok ()) :
    m.payload.length ≤ cfg.limit ∧ option m 27 = [] := by
  simp only [validateRequest, bind_eq_ok, exists_unit, check_eq_ok, decide_eq_true_eq, Bool.not_eq_true',
    any_eq_false] at h
  obtain ⟨-, _, -, hp, hm, -⟩ := h
  exact ⟨hp, by simpa using hm 27 (by simp)⟩

/-- A download may return at this response: it is the whole body, or its block is the last one, and
`finish/3` accepts. -/
def Ends (cfg : Config) (first : Option Message) (result : Result Message)
    (previous : Option Previous) (acc : Bytes) (m : Message) : Prop :=
  ∃ reply, result = .ok reply
    ∧ (option reply 23 = [] ∧ previous = none ∧ finish cfg first reply reply.payload = .ok m
      ∨ ∃ b body, appended cfg reply previous acc = .ok (b, body, false)
        ∧ finish cfg first reply body = .ok m)

/-- **What one step of a download does**: it ends without a call, or it appends a block that is followed
by more and asks for the next one. -/
theorem download_cases (cfg : Config) (first : Option Message) (exchange : Exchange σ)
    (request : Message) (left : Nat) (state : σ) (result : Result Message)
    (previous : Option Previous) (acc : Bytes) :
    let t := download cfg first exchange request left state result previous acc
    (t.exchanges = [] ∧ ∀ m, t.result = .ok m → Ends cfg first result previous acc m)
    ∨ ∃ reply b body next left', result = .ok reply
      ∧ appended cfg reply previous acc = .ok (b, body, true) ∧ continuation request b body = .ok next
      ∧ left = left' + 1
      ∧ t = .after next (invoke exchange next state).1
        (download cfg first exchange request left' (invoke exchange next state).2
          (invoke exchange next state).1 (some ⟨reply, b.size⟩) body) := by
  intro t
  have ht : t = download cfg first exchange request left state result previous acc := rfl
  have ended : ∀ {x : Result Message}, t = .done x state →
      (∀ m, x = .ok m → Ends cfg first result previous acc m) →
      t.exchanges = [] ∧ ∀ m, t.result = .ok m → Ends cfg first result previous acc m := by
    intro x hx h
    rw [hx]
    exact ⟨rfl, h⟩
  unfold download at ht
  cases result with
  | refuse e | raise => exact .inl (ended ht fun _ => nofun)
  | ok reply =>
    rw [clause_ok] at ht
    split at ht
    · -- no Block2 option: the whole body is here
      rename_i hopt
      split at ht
      · rename_i hnone
        exact .inl (ended ht fun m h => ⟨reply, rfl, .inl ⟨hopt, by simpa using hnone, h⟩⟩)
      · exact .inl (ended ht fun _ => nofun)
    · cases happ : appended cfg reply previous acc with
      | refuse e | raise =>
        rw [happ] at ht
        exact .inl (ended ht fun _ => nofun)
      | ok r =>
        obtain ⟨b, body, more⟩ := r
        rw [happ, clause_ok] at ht
        cases more with
        | false => exact .inl (ended ht fun m h => ⟨reply, rfl, .inr ⟨b, body, happ, h⟩⟩)
        | true =>
          dsimp only at ht
          cases hnext : continuation request b body with
          | refuse e | raise =>
            rw [hnext] at ht
            exact .inl (ended ht fun _ => nofun)
          | ok next =>
            rw [hnext] at ht
            cases left with
            | zero => exact .inl (ended ht fun _ => nofun)
            | succ left => exact .inr ⟨reply, b, body, next, left, rfl, happ, hnext, rfl, ht⟩
    · exact .inl (ended ht fun _ => nofun)

theorem download_induction {first : Option Message} {exchange : Exchange σ}
    {P : Nat → Result Message → Option Previous → Bytes → Transfer σ → Prop}
    (ended : ∀ left result previous acc (t : Transfer σ), t.exchanges = [] →
      (∀ m, t.result = .ok m → Ends cfg first result previous acc m) → P left result previous acc t)
    (stepped : ∀ left reply previous acc b body next result (t : Transfer σ),
      appended cfg reply previous acc = .ok (b, body, true) → continuation request b body = .ok next →
      P left result (some ⟨reply, b.size⟩) body t →
      P (left + 1) (.ok reply) previous acc (t.after next result))
    (left : Nat) (state : σ) (result : Result Message) (previous : Option Previous) (acc : Bytes) :
    P left result previous acc (download cfg first exchange request left state result previous acc) := by
  induction left using Nat.strong_induction_on generalizing state result previous acc with
  | h left ih =>
    rcases download_cases cfg first exchange request left state result previous acc with h | h
    · exact ended _ _ _ _ _ h.1 h.2
    · obtain ⟨reply, b, body, next, left', rfl, happ, hnext, rfl, ht⟩ := h
      rw [ht]
      exact stepped _ _ _ _ _ _ _ _ _ happ hnext (ih left' left'.lt_succ_self _ _ _ _)

end Wotex.CoAP.Blockwise
