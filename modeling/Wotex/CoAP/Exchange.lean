import Mathlib.Tactic.Ring
import Wotex.CoAP.Codec

/-!
# One exchange (`exchange.ex`, `new/4` to `incoming/2`)

The retransmission schedule of one request and the classification of what arrives for it, both without a
clock. Every function checks the exchange again before it uses it.

* A request is a confirmable or non-confirmable message with code 1 to 4. `new` encodes it once; every
  retransmission is these bytes.
* `tick` answers the timer: wait, send again, or time out at the deadline and after four retries.
* `classify` sorts a message of the peer: not for this exchange, an empty acknowledgement, or the result.

`step` is what the connection does with the exchange on one input; `life` and `sent` are the exchange and its
retransmissions over a sequence of them.

Results:
* `validate_eq_ok`: the check as a structure, `Sound`.
* `new_scheduled`, `advance_scheduled`: a new exchange passes its own check, and so does every one that
  `tick` returns, because the interval doubles at most four times.
* `incoming_ne_ignore`: the messages that end the schedule, by their ids, tokens and codes (`Settles`).
* `retransmissions_bounded`: what an exchange sends over its life, for every sequence of inputs.

Out of scope: the clock itself, the socket, and the jitter of the first interval, which the caller gives.
-/

namespace Wotex.CoAP

structure Exchange where
  request : Message
  bytes : Bytes
  deadline : Int
  retryAt : Int
  interval : Int
  retries : Nat
  acknowledged : Bool
  deriving DecidableEq

namespace Exchange

/-- `type in [:con, :non] and code in 1..4`. -/
def isRequest (m : Message) : Bool :=
  decide ((m.type = .con ∨ m.type = .non) ∧ 1 ≤ m.code ∧ m.code ≤ 4)

def new (m : Message) (now deadline interval : Int) : Result Exchange := do
  check (isRequest m && decide (now < deadline ∧ deadline - now ≤ 60000 ∧ 1 ≤ interval ∧ interval ≤ 3000))
    .invalidExchange
  Codec.validateOptions m
  let bytes ← Codec.encode m
  .ok ⟨m, bytes, deadline, now + interval, interval, 0, false⟩

variable (x : Exchange)

/-- `exchange.ex:105-128`. -/
def validate : Result Unit :=
  if isRequest x.request && decide (x.bytes.length ≤ 1152 ∧ 1 ≤ x.interval ∧ x.interval ≤ 48000
      ∧ x.retries ≤ 4) then
    match Codec.validateOptions x.request, Codec.encode x.request with
    | .ok _, .ok bytes => if bytes = x.bytes then .ok () else failure .invalidExchange
    | _, _ => failure .invalidExchange
  else failure .invalidExchange

def nextWake : Int :=
  if x.request.type = .con ∧ x.acknowledged = false then min x.deadline x.retryAt else x.deadline

def wake : Result Int := do
  validate x
  .ok (nextWake x)

/-- What a timer leads to. -/
inductive Tick where
  | timeout | wait (x : Exchange) | send (bytes : Bytes) (x : Exchange)

/-- `exchange.ex:73-94`. -/
def advance (x : Exchange) (now : Int) : Tick :=
  if x.deadline ≤ now then .timeout
  else if now < nextWake x then .wait x
  else if x.retries = 4 then .timeout
  else
    .send x.bytes { x with
      interval := x.interval * 2, retryAt := now + x.interval * 2, retries := x.retries + 1 }

def tick (x : Exchange) (now : Int) : Result Tick := do
  validate x
  .ok (advance x now)

/-- What an arriving message is for an exchange. -/
inductive Reception where
  | ignore | ack | result (r : Result Message)

def responseFor (reply request : Message) : Bool :=
  decide (reply.token = request.token ∧ reply.type ≠ .rst ∧ 32 ≤ reply.code)

/-- `exchange.ex:131-154`. -/
def classify (request reply : Message) : Reception :=
  if reply.type = .rst ∧ reply.messageId = request.messageId then .result (failure .reset)
  else if reply.type = .ack ∧ (reply.messageId ≠ request.messageId ∨ request.type ≠ .con) then .ignore
  else if reply.type = .ack ∧ reply.code = 0 then .ack
  else if !responseFor reply request then .ignore
  else if 64 ≤ reply.code ∧ reply.code ≤ 95 then .result (.ok reply)
  else if 128 ≤ reply.code ∧ reply.code ≤ 191 then
    .result (.refuse (.new .remoteResponse (some reply.code)))
  else .result (failure .invalidResponse)

def response (request reply : Message) : Reception :=
  match Codec.validateOptions reply with
  | .ok _ => classify request reply
  | _ => .ignore

def incoming (x : Exchange) (reply : Message) : Reception :=
  match validate x with
  | .ok _ => response x.request reply
  | .refuse e => .result (.refuse e)
  | .raise => .result .raise

/-! ## The check -/

/-- What `validate` checks. -/
structure Sound (x : Exchange) : Prop where
  request : isRequest x.request = true
  interval : 1 ≤ x.interval ∧ x.interval ≤ 48000
  retries : x.retries ≤ 4
  options : Codec.validateOptions x.request = .ok ()
  encoded : Codec.encode x.request = .ok x.bytes

variable {x : Exchange}

theorem validate_eq_ok {u : Unit} : validate x = .ok u ↔ Sound x := by
  unfold validate
  constructor
  · intro h
    split at h
    · rename_i hguard
      rw [Bool.and_eq_true, decide_eq_true_eq] at hguard
      obtain ⟨hreq, -, hlow, hhigh, hretries⟩ := hguard
      split at h
      · rename_i hopt henc
        split at h
        · rename_i hbytes
          exact ⟨hreq, ⟨hlow, hhigh⟩, hretries, hopt, hbytes ▸ henc⟩
        · cases h
      · cases h
    · cases h
  · intro h
    have hlength : x.bytes.length ≤ 1152 := (Codec.encode_eq_ok.mp h.encoded).2.2
    rw [if_pos, h.options, h.encoded]
    · exact if_pos rfl
    · rw [Bool.and_eq_true, decide_eq_true_eq]
      exact ⟨h.request, hlength, h.interval.1, h.interval.2, h.retries⟩

/-- An exchange whose interval comes from doubling one of at most three seconds. -/
structure Scheduled (x : Exchange) : Prop extends Sound x where
  doubled : x.interval ≤ 3000 * 2 ^ x.retries

theorem new_scheduled {m : Message} {now deadline interval : Int}
    (h : new m now deadline interval = .ok x) : Scheduled x := by
  simp only [new, bind_eq_ok, exists_unit, check_eq_ok, Bool.and_eq_true,
    decide_eq_true_eq] at h
  obtain ⟨⟨hreq, -, -, hlow, hhigh⟩, hopt, bytes, henc, hx⟩ := h
  cases hx
  exact ⟨⟨hreq, ⟨hlow, by show interval ≤ 48000; omega⟩, Nat.zero_le 4, hopt, henc⟩, by simpa using hhigh⟩

theorem advance_scheduled {x' : Exchange} {now : Int} {bytes : Bytes} (h : Scheduled x)
    (ht : advance x now = .send bytes x') : bytes = x.bytes ∧ Scheduled x' := by
  unfold advance at ht
  split_ifs at ht with hdeadline hearly hlast
  obtain ⟨rfl, rfl⟩ := Tick.send.inj ht
  have hfew : x.retries + 1 ≤ 4 := by have := h.retries; omega
  have hdouble : x.interval * 2 ≤ 3000 * 2 ^ (x.retries + 1) := by
    have := h.doubled
    omega
  have hbound : (3000 : Int) * 2 ^ (x.retries + 1) ≤ 48000 := by
    have hpow : (2 : Int) ^ (x.retries + 1) ≤ 2 ^ 4 := pow_le_pow_right₀ (by norm_num) hfew
    omega
  refine ⟨rfl, ⟨h.request, ⟨?_, hdouble.trans hbound⟩, hfew, h.options, h.encoded⟩, hdouble⟩
  have := h.interval.1
  show 1 ≤ x.interval * 2
  omega

theorem advance_wait {x' : Exchange} {now : Int} (ht : advance x now = .wait x') : x' = x := by
  unfold advance at ht
  split_ifs at ht
  exact (Tick.wait.inj ht).symm

theorem Scheduled.acknowledge (h : Scheduled x) (b : Bool) : Scheduled { x with acknowledged := b } :=
  ⟨⟨h.request, h.interval, h.retries, h.options, h.encoded⟩, h.doubled⟩

theorem Scheduled.validate (h : Scheduled x) : validate x = .ok () :=
  validate_eq_ok.mpr h.toSound

/-- The message ends the schedule of the request: a reset or an acknowledgement with its message id, or a
response with its token. An acknowledgement is one of a confirmable request only, also with a response in it. -/
def Settles (request reply : Message) : Prop :=
  Codec.validateOptions reply = .ok () ∧
    (reply.type = .rst ∧ reply.messageId = request.messageId ∨
      (reply.type = .ack → reply.messageId = request.messageId ∧ request.type = .con) ∧
        (reply.type = .ack ∧ reply.code = 0 ∨
          reply.token = request.token ∧ reply.type ≠ .rst ∧ 32 ≤ reply.code))

theorem incoming_ne_ignore (h : Scheduled x) (reply : Message) :
    incoming x reply ≠ .ignore ↔ Settles x.request reply := by
  rw [incoming, h.validate]
  unfold response Settles
  cases Codec.validateOptions reply with
  | ok u =>
    simp only [classify, responseFor, Bool.not_eq_true']
    split_ifs <;> simp_all
    tauto
  | refuse e | raise => simp

/-! ## The life of an exchange -/

/-- What reaches an exchange: its timer, or a message of the peer. -/
inductive Input where
  | tick (now : Int) | reply (m : Message)

/-- What the connection does with the exchange, and what it sends; a timeout and a result complete the
exchange. -/
def step (x : Exchange) : Input → Option Exchange × List Bytes
  | .tick now =>
    match tick x now with
    | .ok (.wait x') => (some x', [])
    | .ok (.send bytes x') => (some x', [bytes])
    | _ => (none, [])
  | .reply m =>
    match incoming x m with
    | .ignore => (some x, [])
    | .ack => (some { x with acknowledged := true }, [])
    | .result _ => (none, [])

/-- The exchange after a sequence of inputs, unless it is complete. -/
def life (x : Option Exchange) (inputs : List Input) : Option Exchange :=
  inputs.foldl (fun x input => x.bind fun x => (step x input).1) x

/-- The retransmissions over a sequence of inputs. -/
def sent : Option Exchange → List Input → List Bytes
  | none, _ | _, [] => []
  | some x, input :: inputs => (step x input).2 ++ sent (step x input).1 inputs

section

variable {x x' : Exchange}

@[simp] theorem sent_none (inputs : List Input) : sent none inputs = [] := by
  cases inputs <;> rfl

/-- **One input**: the exchange is complete and sends nothing, or it stays on schedule and counts what it
sends. -/
theorem Scheduled.step_cases (h : Scheduled x) (input : Input) : step x input = (none, []) ∨
    ∃ x' bytes, step x input = (some x', bytes) ∧ Scheduled x' ∧ x'.bytes = x.bytes ∧
      (x'.request = x.request ∧ x'.deadline = x.deadline) ∧ x'.retries = x.retries + bytes.length ∧
      ∀ b ∈ bytes, b = x.bytes := by
  cases input with
  | tick now =>
    simp only [step, tick, h.validate]
    cases ha : advance x now with
    | timeout => exact Or.inl rfl
    | wait y =>
      obtain rfl := advance_wait ha
      exact Or.inr ⟨_, [], rfl, h, rfl, ⟨rfl, rfl⟩, rfl, by simp⟩
    | send bytes y =>
      obtain ⟨rfl, hy⟩ := advance_scheduled h ha
      unfold advance at ha
      split_ifs at ha
      cases ha
      exact Or.inr ⟨_, [x.bytes], rfl, hy, rfl, ⟨rfl, rfl⟩, rfl, by simp⟩
  | reply m =>
    simp only [step]
    cases incoming x m with
    | ignore => exact Or.inr ⟨x, [], rfl, h, rfl, ⟨rfl, rfl⟩, rfl, by simp⟩
    | ack => exact Or.inr ⟨_, [], rfl, h.acknowledge true, rfl, ⟨rfl, rfl⟩, rfl, by simp⟩
    | result r => exact Or.inl rfl

theorem Scheduled.sent (h : Scheduled x) (inputs : List Input) :
    x.retries + (sent (some x) inputs).length ≤ 4 ∧ ∀ b ∈ sent (some x) inputs, b = x.bytes := by
  induction inputs generalizing x with
  | nil => exact ⟨h.retries, by simp [Exchange.sent]⟩
  | cons input inputs ih =>
    rcases h.step_cases input with hx | ⟨x', bytes, hx, h', hbytes, -, hretries, hsame⟩
    · simpa [Exchange.sent, hx] using h.retries
    · obtain ⟨hle, hall⟩ := ih h'
      simp only [Exchange.sent, hx, List.length_append]
      refine ⟨by omega, fun b hb => (List.mem_append.mp hb).elim (hsame b) fun hb => ?_⟩
      rw [hall b hb, hbytes]

theorem Scheduled.life (h : Scheduled x) (inputs : List Input) (hx : life (some x) inputs = some x') :
    Scheduled x' ∧ x'.request = x.request ∧ x'.deadline = x.deadline := by
  induction inputs generalizing x with
  | nil =>
    cases hx
    exact ⟨h, rfl, rfl⟩
  | cons input inputs ih =>
    rw [Exchange.life, List.foldl_cons, Option.bind_some] at hx
    rcases h.step_cases input with hs | ⟨y, bytes, hs, h', -, ⟨hrequest, hdeadline⟩, -⟩
    · rw [hs, List.foldl_fixed' fun _ => rfl] at hx
      cases hx
    · rw [hs] at hx
      obtain ⟨hscheduled, hrequest', hdeadline'⟩ := ih h' hx
      exact ⟨hscheduled, hrequest'.trans hrequest, hdeadline'.trans hdeadline⟩

/-- An acknowledged exchange waits for its deadline only. -/
theorem advance_acknowledged (ha : x.acknowledged = true) (now : Int) :
    advance x now = .timeout ∨ advance x now = .wait x := by
  unfold advance nextWake
  split_ifs <;> simp_all

theorem sent_acknowledged (ha : x.acknowledged = true) (inputs : List Input) :
    sent (some x) inputs = [] := by
  induction inputs generalizing x with
  | nil => rfl
  | cons input inputs ih =>
    cases input with
    | tick now =>
      rw [sent, step, tick]
      cases validate x with
      | ok u =>
        rcases advance_acknowledged ha now with hn | hn
        · simp [hn]
        · simpa [hn] using ih ha
      | refuse e => simp
      | raise => simp
    | reply m =>
      rw [sent, step]
      cases incoming x m with
      | ignore => simpa using ih ha
      | ack => simpa using ih (x := { x with acknowledged := true }) rfl
      | result r => simp

/-- **Retransmission is bounded and stable.** Over every sequence of timers and messages an exchange sends
its bytes again at most four times, it passes its own check as long as it is not complete, and nothing is sent
by or after an input that comes when it is complete, is its deadline, or is a message that settles the
request. -/
theorem retransmissions_bounded {m : Message} {now deadline interval : Int}
    (h : new m now deadline interval = .ok x) (inputs : List Input) :
    (sent (some x) inputs).length ≤ 4 ∧ (∀ bytes ∈ sent (some x) inputs, bytes = x.bytes) ∧
    (∀ before after, inputs = before ++ after → ∀ y, life (some x) before = some y → validate y = .ok ()) ∧
    ∀ before input after, inputs = before ++ input :: after →
      (∀ y, life (some x) before = some y → (∃ now, input = .tick now ∧ deadline ≤ now) ∨
        ∃ reply, input = .reply reply ∧ Settles m reply) →
      sent (life (some x) before) (input :: after) = [] := by
  have hx := new_scheduled h
  obtain ⟨hfew, hsame⟩ := hx.sent inputs
  refine ⟨by omega, hsame, fun before _ _ y hy => (hx.life before hy).1.validate,
    fun before input after _ hlast => ?_⟩
  cases hy : life (some x) before with
  | none => exact sent_none _
  | some y =>
    obtain ⟨hsound, hrequest, hdeadline⟩ := hx.life before hy
    simp only [new, bind_eq_ok, exists_unit] at h
    obtain ⟨-, -, bytes, -, h⟩ := h
    cases h
    rcases hlast y hy with ⟨now, rfl, hnow⟩ | ⟨reply, rfl, hreply⟩
    · have hdue : y.deadline ≤ now := hdeadline.trans_le hnow
      simp [sent, step, tick, advance, hdue]
    · rw [← show y.request = m from hrequest, ← incoming_ne_ignore hsound] at hreply
      cases hi : incoming y reply with
      | ignore => exact absurd hi hreply
      | ack => simpa [sent, step, hi] using sent_acknowledged (x := { y with acknowledged := true }) rfl after
      | result r => simp [sent, step, hi]

/-- A confirmable `GET` is sent again four times, at 2, 6, 14 and 30 seconds; and twice if its acknowledgement
comes then, or a response with its token. -/
theorem get_retransmitted :
    (let m : Message := ⟨.con, 1, 9, [1], [], []⟩
     let x : Exchange := ⟨m, [65, 1, 0, 9, 1], 60000, 2000, 2000, 0, false⟩
     let inputs : List Input := [.tick 2000, .tick 6000, .tick 13000, .tick 14000, .tick 30000, .tick 59999,
      .tick 62000]
     new m 0 60000 2000 = .ok x ∧ sent (some x) inputs = List.replicate 4 x.bytes ∧
      (sent (some x) inputs).length ≤ 4 ∧
      ∀ reply ∈ [⟨.ack, 0, 9, [], [], []⟩, ⟨.rst, 0, 9, [], [], []⟩, ⟨.non, 69, 77, [1], [], []⟩],
        sent (life (some x) (inputs.take 2)) (.reply reply :: inputs.drop 2) = []) := by
  intro m x inputs
  have hnew : new m 0 60000 2000 = .ok x := by decide +kernel
  refine ⟨hnew, by decide +kernel, (retransmissions_bounded hnew inputs).1, fun reply hreply => ?_⟩
  have hsettles : Settles m reply := by
    unfold Settles
    revert reply
    decide +kernel
  exact (retransmissions_bounded hnew (inputs.take 2 ++ .reply reply :: inputs.drop 2)).2.2.2 _ _ _ rfl
    fun _ _ => .inr ⟨reply, rfl, hsettles⟩

end

end Exchange

end Wotex.CoAP
