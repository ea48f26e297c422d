import Wotex.CoAP.Upload

/-!
# Downloads return one representation

`Consecutive` follows the recursion of `download/5` over the responses; `Representation` says the same
of the list of them. `Serves` is a block of a fixed body, `Answered` an exchange with a server of that
body.

* `download_ok`: a body that is returned is the concatenation of consecutive blocks of one
  representation.
* `download_serves`: against a server of one body, a transfer returns the body or uses up its exchanges.
* `transfers`: both for `run/4` and `continue/5`.
-/

namespace Wotex.CoAP.Blockwise

open List Block
open Blockwise

variable {σ : Type}

/-! ## Every server -/

/-- Responses with the blocks of one representation from a number on, the last one without more. -/
inductive Consecutive (size : Nat) (i : Identity) : Nat → List Message → Prop where
  | last {k : Nat} {r : Message} (block : block r 23 = .ok ⟨k, false, size⟩)
      (payload : r.payload.length ≤ size) (identity : identity r = i) : Consecutive size i k [r]
  | more {k : Nat} {r : Message} {rs : List Message} (block : block r 23 = .ok ⟨k, true, size⟩)
      (payload : r.payload.length = size) (identity : identity r = i)
      (rest : Consecutive size i (k + 1) rs) : Consecutive size i k (r :: rs)

/-- The bodies of responses, in order. -/
def bodies (rs : List Message) : Bytes := (rs.map Message.payload).flatten

@[simp] theorem bodies_cons (r : Message) (rs : List Message) :
    bodies (r :: rs) = r.payload ++ bodies rs := by
  simp [bodies]

/-- The responses are one whole representation with this body: a single response without a Block2
option, or the blocks `0, 1, …` of one size, all full but the last, which alone has no more behind it. -/
structure Representation (cfg : Config) (rs : List Message) (body : Bytes) : Prop where
  concatenated : bodies rs = body
  bounded : body.length ≤ cfg.limit
  identity : ∀ r ∈ rs, ∀ r' ∈ rs, identity r = identity r'
  blocks : (∃ r, rs = [r] ∧ Codec.option r 23 = [])
    ∨ rs ≠ [] ∧ ∃ size ∈ sizes, size ≤ cfg.size ∧ ∀ k (h : k < rs.length),
      block (rs.get ⟨k, h⟩) 23 = .ok ⟨k, decide (k + 1 < rs.length), size⟩
      ∧ (rs.get ⟨k, h⟩).payload.length ≤ size
      ∧ (k + 1 < rs.length → (rs.get ⟨k, h⟩).payload.length = size)

namespace Consecutive

variable {size : Nat} {i : Identity} {n : Nat} {rs : List Message}

section

variable (h : Consecutive size i n rs)
include h

theorem ne_nil : rs ≠ [] := by
  cases h <;> exact cons_ne_nil _ _

theorem same : ∀ r ∈ rs, identity r = i := by
  induction h with
  | last _ _ hi => exact forall_mem_singleton.mpr hi
  | more _ _ hi _ ih => exact forall_mem_cons.mpr ⟨hi, ih⟩

theorem numbered (k : Nat) (hk : k < rs.length) :
    block (rs.get ⟨k, hk⟩) 23 = .ok ⟨n + k, decide (k + 1 < rs.length), size⟩
      ∧ (rs.get ⟨k, hk⟩).payload.length ≤ size
      ∧ (k + 1 < rs.length → (rs.get ⟨k, hk⟩).payload.length = size) := by
  induction h generalizing k with
  | last hb hp _ =>
    obtain rfl : k = 0 := by simpa using hk
    exact ⟨hb, hp, fun h => absurd h (by simp)⟩
  | @more n r rs hb hp _ hrest ih =>
    cases k with
    | zero =>
      have hlen := length_pos_iff.mpr hrest.ne_nil
      have hmore : decide (0 + 1 < (r :: rs).length) = true :=
        decide_eq_true (by rw [length_cons]; omega)
      refine ⟨?_, le_of_eq hp, fun _ => hp⟩
      rw [hmore]
      exact hb
    | succ k =>
      have hrest := ih k (by simpa using hk)
      simp only [length_cons, Nat.add_lt_add_iff_right] at hrest ⊢
      rw [← Nat.add_assoc, Nat.add_right_comm]
      exact hrest

end

theorem representation (h : Consecutive size i 0 rs) {cfg : Config} (hs : size ∈ sizes)
    (hle : size ≤ cfg.size) {body : Bytes} (hb : bodies rs = body) (hl : body.length ≤ cfg.limit) :
    Representation cfg rs body where
  concatenated := hb
  bounded := hl
  identity r hr r' hr' := (h.same r hr).trans (h.same r' hr').symm
  blocks := .inr ⟨h.ne_nil, size, hs, hle, fun k hk => by
    have hnum := h.numbered k hk
    rwa [Nat.zero_add] at hnum⟩

end Consecutive

variable {first : Option Message} {m request : Message} {previous : Option Previous} {acc : Bytes}
  {exchange : Exchange σ} {left : Nat} {state : σ} {opts : List (TransferKey × Int)}

variable {cfg : Config} {reply : Message} {body : Bytes} {size : Nat} {i : Identity}
  {result : Result Message}

theorem finish_ok (h : finish cfg first reply body = .ok m) :
    m.payload = body ∧ body.length ≤ cfg.limit := by
  simp only [finish, bind_eq_ok, exists_unit, check_eq_ok, Bool.and_eq_true, decide_eq_true_eq] at h
  obtain ⟨-, -, ⟨hl, -⟩, ⟨⟩⟩ := h
  exact ⟨rfl, hl⟩

variable {b : Block}

/-- What an appended block is: the next one, of the size and the representation before it. -/
theorem appended_ok {more : Bool} (h : appended cfg reply previous acc = .ok (b, body, more)) :
    block reply 23 = .ok b ∧ b.size ∈ sizes ∧ b.number * b.size = acc.length
      ∧ body = acc ++ reply.payload ∧ more = b.more ∧ reply.payload.length ≤ b.size
      ∧ (b.more = true → reply.payload.length = b.size) ∧ (previous = none → b.size ≤ cfg.size)
      ∧ ∀ p, previous = some p → b.size = p.size ∧ identity reply = identity p.reply := by
  simp only [appended, bind_eq_ok, exists_unit, Prod.exists] at h
  obtain ⟨-, b', hb, hrep, body', more', happ, rfl, ⟨⟩⟩ := h
  obtain ⟨-, hs, hn, hp, hfull, -, rfl, rfl⟩ := append_eq_ok.mp happ
  simp only [representation, bind_eq_ok, exists_unit, check_eq_ok,
    Bool.not_eq_true', Bool.and_eq_false_iff, decide_eq_false_iff_not, not_not,
    decide_eq_true_eq] at hrep
  obtain ⟨hsize, hmax, -, hid⟩ := hrep
  refine ⟨hb, hs, hn, rfl, rfl, hp, hfull, ?_, ?_⟩
  · rintro rfl
    exact hmax
  · rintro p rfl
    exact ⟨hsize.resolve_right (by simp), by simpa using hid⟩

theorem download_length :
    (download cfg first exchange request left state result previous acc).exchanges.length ≤ left := by
  refine download_induction (P := fun left _ _ _ t => t.exchanges.length ≤ left) ?_ ?_
    left state result previous acc
  · intro _ _ _ _ t hnil _
    rw [hnil]
    exact Nat.zero_le _
  · intro _ _ _ _ _ _ _ _ _ _ _ ih
    exact Nat.succ_le_succ ih

/-- Responses that complete a body from what is there already: a single response without a Block2
option, or the blocks behind the accumulated ones. -/
def Gathered (cfg : Config) (previous : Option Previous) (acc : Bytes) (rs : List Message)
    (body : Bytes) : Prop :=
  (∃ r, rs = [r] ∧ Codec.option r 23 = [] ∧ previous = none ∧ body = r.payload)
  ∨ ∃ size i k, Consecutive size i k rs ∧ size ∈ sizes ∧ k * size = acc.length
    ∧ body = acc ++ bodies rs ∧ (previous = none → size ≤ cfg.size)
    ∧ ∀ p, previous = some p → size = p.size ∧ i = identity p.reply

theorem Gathered.representation {rs : List Message} (h : Gathered cfg none [] rs body)
    (hl : body.length ≤ cfg.limit) : Representation cfg rs body := by
  rcases h with ⟨r, rfl, hopt, -, rfl⟩ | ⟨size, i, k, hcons, hs, hk, hbody, hle, -⟩
  · refine ⟨by simp [bodies], hl, ?_, .inl ⟨r, rfl, hopt⟩⟩
    intro r₁ h₁ r₂ h₂
    rw [mem_singleton.mp h₁, mem_singleton.mp h₂]
  · have hzero : k = 0 := (Nat.mul_eq_zero.mp hk).resolve_right (size_pos hs).ne'
    rw [hzero] at hcons
    exact hcons.representation hs (hle rfl) (by simpa using hbody.symm) hl

theorem Gathered.cons {rs : List Message}
    (happ : appended cfg reply previous acc = .ok (b, acc ++ reply.payload, true))
    (h : Gathered cfg (some ⟨reply, b.size⟩) (acc ++ reply.payload) rs body) :
    Gathered cfg previous acc (reply :: rs) body := by
  rcases h with ⟨_, -, -, hnone, -⟩ | ⟨size, i, k, hcons, hs, hk, hbody, -, hprev⟩
  · cases hnone
  · obtain ⟨rfl, rfl⟩ := hprev _ rfl
    obtain ⟨hb, -, hnum, -, hmore, -, hfull, hle, hid⟩ := appended_ok happ
    have hpos := size_pos hs
    have hsucc : k = b.number + 1 := by
      rw [length_append, ← hnum, hfull hmore.symm] at hk
      exact Nat.eq_of_mul_eq_mul_right hpos (by rw [hk, Nat.succ_mul])
    have hblock : block reply 23 = .ok ⟨b.number, true, b.size⟩ := by
      rw [hb, hmore]
    rw [hsucc] at hcons
    refine .inr ⟨b.size, identity reply, b.number, .more hblock (hfull hmore.symm) rfl hcons, hs,
      hnum, ?_, hle, hid⟩
    rw [hbody, bodies_cons, append_assoc]

theorem Ends.gathered (h : Ends cfg first result previous acc m) : m.payload.length ≤ cfg.limit
      ∧ ∃ r, result = .ok r ∧ Gathered cfg previous acc [r] m.payload := by
  obtain ⟨reply, rfl, ⟨hopt, rfl, hfin⟩ | ⟨b, body, happ, hfin⟩⟩ := h
  · obtain ⟨hm, hl⟩ := finish_ok hfin
    exact ⟨by rwa [hm], reply, rfl, .inl ⟨reply, rfl, hopt, rfl, hm⟩⟩
  · obtain ⟨hm, hl⟩ := finish_ok hfin
    obtain ⟨hb, hs, hnum, rfl, hmore, hp, -, hle, hid⟩ := appended_ok happ
    have hblock : block reply 23 = .ok ⟨b.number, false, b.size⟩ := by
      rw [hb, hmore]
    refine ⟨by rwa [hm], reply, rfl, .inr ⟨b.size, identity reply, b.number,
      .last hblock hp rfl, hs, hnum, ?_, hle, hid⟩⟩
    rw [hm, bodies_cons, bodies, map_nil, flatten_nil, append_nil]

/-- **A returned body is the rest of one representation.** -/
theorem download_ok
    (h : (download cfg first exchange request left state result previous acc).result = .ok m) :
    m.payload.length ≤ cfg.limit ∧ ∃ rs,
      result :: (download cfg first exchange request left state result previous acc).exchanges.map
        Prod.snd = rs.map .ok ∧ Gathered cfg previous acc rs m.payload := by
  refine download_induction (P := fun _ result previous acc t => t.result = .ok m →
    m.payload.length ≤ cfg.limit ∧ ∃ rs, result :: t.exchanges.map Prod.snd = rs.map .ok
      ∧ Gathered cfg previous acc rs m.payload) ?_ ?_ left state result previous acc h
  · intro _ result _ _ t hnil hends hres
    obtain ⟨hl, r, rfl, hg⟩ := (hends m hres).gathered
    exact ⟨hl, [r], by rw [hnil]; rfl, hg⟩
  · intro _ reply previous acc b body next result t happ _ ih hres
    obtain rfl := (appended_ok happ).2.2.2.1
    obtain ⟨hl, rs, hrs, hg⟩ := ih hres
    refine ⟨hl, reply :: rs, ?_, hg.cons happ⟩
    rw [map_cons, ← hrs]
    rfl

/-- The same behind an upload, whose last response is the first of the download. -/
theorem upload_ok {offset size : Nat}
    (h : (upload cfg exchange request left state offset size).result = .ok m) :
    m.payload.length ≤ cfg.limit ∧ ∃ up rs,
      (upload cfg exchange request left state offset size).exchanges.map Prod.snd = up ++ rs.map .ok
        ∧ Gathered cfg none [] rs m.payload := by
  refine upload_induction (P := fun _ t => t.result = .ok m → m.payload.length ≤ cfg.limit ∧ ∃ up rs,
    t.exchanges.map Prod.snd = up ++ rs.map .ok ∧ Gathered cfg none [] rs m.payload)
    ?_ ?_ ?_ ?_ left state offset size h
  · intro _ t _ hno hres
    exact absurd hres (hno m)
  · intro _ _ _ t _ hno hres
    exact absurd hres (hno m)
  · intro _ _ result t ih hres
    obtain ⟨hl, up, rs, hrs, hg⟩ := ih hres
    exact ⟨hl, result :: up, rs, by rw [Transfer.after, map_cons, hrs]; rfl, hg⟩
  · intro _ _ _ reply hres
    obtain ⟨hl, rs, hrs, hg⟩ := download_ok hres
    exact ⟨hl, [], rs, hrs, hg⟩

theorem upload_length {offset : Nat} :
    (upload cfg exchange request left state offset size).exchanges.length ≤ left := by
  refine upload_induction (P := fun left t => t.exchanges.length ≤ left) ?_ ?_ ?_ ?_
    left state offset size
  · intro _ t hnil _
    rw [hnil]
    exact Nat.zero_le _
  · intro left _ _ t hnil _
    rw [Transfer.after, hnil]
    exact Nat.succ_le_succ (Nat.zero_le left)
  · intro _ _ _ t ih
    exact Nat.succ_le_succ ih
  · intro _ _ _ reply
    exact Nat.succ_le_succ download_length

/-! ## A server of one body -/

/-- The response carries block `k` of the body, or the whole body without a Block2 option. -/
structure Serves (limit : Nat) (body : Bytes) (size : Nat) (i : Identity) (k : Nat) (reply : Message) :
    Prop where
  identity : identity reply = i
  bounded : withinSizeLimit reply limit = true
  block : block reply 23 = .ok ⟨k, decide ((k + 1) * size < body.length), size⟩
      ∧ reply.payload = (body.drop (k * size)).take size
    ∨ k = 0 ∧ Codec.option reply 23 = [] ∧ reply.payload = body

/-- The body fits the budgets, and the server chose a size not above the requested one and a code that
says success and not that more is to come. -/
structure Offered (cfg : Config) (body : Bytes) (size : Nat) (i : Identity) : Prop where
  sized : size ∈ sizes
  within : size ≤ cfg.size
  fits : body.length ≤ cfg.limit
  code : 64 ≤ i.1 ∧ i.1 ≤ 94

/-- An exchange with a server of the body: a slice is acknowledged, and a request that is not followed by
more slices gets the block it asks for. -/
def Answered (limit : Nat) (body : Bytes) (size : Nat) (i : Identity)
    (e : Message × Result Message) : Prop :=
  Accepted e ∧ ((∀ b, block e.1 27 = .ok b → b.more = false) → ∃ reply, e.2 = .ok reply
    ∧ ∀ b, block e.1 23 = .ok b → (b.number = 0 ∨ b.size = size) → Serves limit body size i b.number reply)

/-- A block of the body has a number that the option can carry. -/
theorem Offered.number_le (ho : Offered cfg body size i) (hcfg : cfg.Valid) {k : Nat}
    (hk : k * size < body.length) : k ≤ 1048575 := by
  have hle := Nat.le_mul_of_pos_right k (size_pos ho.sized)
  have hfits := ho.fits
  have hlim := hcfg.limit.2
  omega

/-- The answer to a request without a slice. -/
theorem Answered.served {limit : Nat} {request : Message}
    (h : Answered limit body size i (request, result)) (h27 : block request 27 = failure .missingBlock)
    (h23 : block request 23 = .ok b) (hb : b.number = 0 ∨ b.size = size) :
    ∃ reply, result = .ok reply ∧ Serves limit body size i b.number reply := by
  obtain ⟨reply, hres, hserves⟩ := h.2 fun b hb => by
    rw [h27] at hb
    cases hb
  exact ⟨reply, hres, hserves b h23 hb⟩

/-- The number of blocks of a body; an empty body has one. -/
def count (body : Bytes) (size : Nat) : Nat := (body.length - 1) / size + 1

theorem lt_count {size k : Nat} (hs : 0 < size) (hk : k * size < body.length) : k < count body size := by
  have hle : k * size ≤ body.length - 1 := by omega
  exact Nat.lt_succ_of_le ((Nat.le_div_iff_mul_le hs).mpr hle)

section Served

variable {k : Nat} {b : Block} {body' : Bytes}

section

variable (h : Serves cfg.limit body size i k reply)
include h

theorem Serves.success (ho : Offered cfg body size i) : success reply = .ok () ∧ reply.code ≠ 95 := by
  have hcode : reply.code = i.1 := by rw [← h.identity]; rfl
  have hrange := ho.code
  exact ⟨success_eq_ok.mpr ⟨by omega, by omega⟩, by omega⟩

theorem Serves.finish (ho : Offered cfg body size i)
    (first : Option Message) : ∃ m, finish cfg first reply body = .ok m ∧ m.payload = body := by
  obtain ⟨hsucc, hcode⟩ := h.success ho
  refine ⟨{ dropOptions (first.getD reply) [23, 27] with payload := body }, ?_, rfl⟩
  rw [Blockwise.finish, hsucc]
  simp [check, hcode, ho.fits, h.bounded]

theorem Serves.appended (hcfg : cfg.Valid)
    (ho : Offered cfg body size i)
    (hblock : Blockwise.block reply 23 = .ok ⟨k, decide ((k + 1) * size < body.length), size⟩)
    (hpay : reply.payload = (body.drop (k * size)).take size) (hk : k = 0 ∨ k * size < body.length)
    (hprev : previous = none ∨ ∃ p, previous = some ⟨p, size⟩ ∧ Blockwise.identity p = i) :
    Blockwise.appended cfg reply previous (body.take (k * size))
      = .ok (⟨k, decide ((k + 1) * size < body.length), size⟩, body.take ((k + 1) * size),
        decide ((k + 1) * size < body.length)) := by
  have hkle : k ≤ 1048575 := hk.elim (fun hk => hk ▸ Nat.zero_le _) (ho.number_le hcfg)
  have hkb : k * size ≤ body.length := by
    rcases hk with rfl | hk
    · simp
    · exact hk.le
  have hsucc : (k + 1) * size = k * size + size := Nat.succ_mul k size
  have hacc : (body.take (k * size)).length = k * size := by
    rw [length_take]
    omega
  have hlen : reply.payload.length = min size (body.length - k * size) := by
    rw [hpay, length_take, length_drop]
  have happ : append (body.take (k * size))
      ⟨k, decide ((k + 1) * size < body.length), size⟩ reply.payload cfg.limit
      = .ok (body.take ((k + 1) * size), decide ((k + 1) * size < body.length)) := by
    have hbody := ho.fits
    refine append_eq_ok.mpr ⟨hkle, ho.sized, hacc.symm, ?_, ?_, ?_, ?_, rfl⟩
    · dsimp only
      omega
    · dsimp only
      rw [decide_eq_true_eq]
      omega
    · omega
    · rw [hpay, hsucc, take_add]
  have hrep : representation reply ⟨k, decide ((k + 1) * size < body.length), size⟩
      previous cfg = .ok () := by
    rcases hprev with rfl | ⟨p, rfl, hp⟩
    · simp [representation, check, ho.within, h.bounded]
    · simp [representation, check, h.bounded, h.identity, hp]
  rw [Blockwise.appended, (h.success ho).1, ok_bind, hblock, ok_bind, hrep, ok_bind, happ, ok_bind]

end

theorem continuation_eq_ok (request : Message) (hk : k ≤ 1048575) (hs : b.size ∈ sizes)
    (hlen : body'.length = k * b.size) :
    ∃ next, continuation request b body' = .ok next ∧ block next 23 = .ok ⟨k, false, b.size⟩ := by
  have hdiv : body'.length / b.size = k := by
    rw [hlen, Nat.mul_div_cancel _ (size_pos hs)]
  obtain ⟨v, hput, hdec⟩ := putBlock_eq_ok
    (dropOptions { request with payload := [] } [5, 6, 27, 60]) 23 false hk hs
  exact ⟨_, by rw [continuation, hdiv, hput], block_of_option (option_putOption_self _ _ _) hdec⟩

/-- A transfer returned the body, or its exchanges were used up before the blocks were. -/
def Returns (body : Bytes) (t : Transfer σ) (left : Nat) (short : Prop) : Prop :=
  (∃ m, t.result = .ok m ∧ m.payload = body)
    ∨ (∃ e, t.result = .refuse e ∧ e.code = .blockLimit) ∧ t.exchanges.length = left ∧ short

theorem Returns.after {t : Transfer σ} {left : Nat} {short short' : Prop} (h : Returns body t left short)
    (hshort : short → short') (request : Message) (result : Result Message) :
    Returns body (t.after request result) (left + 1) short' := by
  rcases h with h | ⟨he, hlen, hs⟩
  · exact .inl h
  · exact .inr ⟨he, congrArg Nat.succ hlen, hshort hs⟩

theorem download_last {v : Bytes} (hopt : Codec.option reply 23 = [v])
    (happ : appended cfg reply previous acc = .ok (b, body', false)) :
    download cfg first exchange request left state (.ok reply) previous acc
      = .done (finish cfg first reply body') state := by
  unfold download
  rw [clause_ok, hopt]
  rw [happ]
  rfl

/-- A download that appends another block asks for the next one, if an exchange is left. -/
theorem download_more {next : Message} {v : Bytes} (hopt : Codec.option reply 23 = [v])
    (happ : appended cfg reply previous acc = .ok (b, body', true))
    (hnext : continuation request b body' = .ok next) :
    download cfg first exchange request left state (.ok reply) previous acc = match left with
        | 0 => .done (failure .blockLimit) state
        | left + 1 => .after next (invoke exchange next state).1
          (download cfg first exchange request left (invoke exchange next state).2
            (invoke exchange next state).1 (some ⟨reply, b.size⟩) body') := by
  cases left <;>
  · conv_lhs => unfold download
    rw [clause_ok, hopt]
    dsimp only
    rw [happ, clause_ok]
    rw [hnext]
    rfl

theorem download_single (hopt : Codec.option reply 23 = []) :
    download cfg first exchange request left state (.ok reply) none acc
      = .done (finish cfg first reply reply.payload) state := by
  unfold download
  rw [clause_ok, hopt]
  rfl

section

variable (hcfg : cfg.Valid) (ho : Offered cfg body size i) (first : Option Message) (exchange : Exchange σ)
  (request : Message) (left : Nat) (state : σ) (hserves : Serves cfg.limit body size i k reply)
  (hk : k = 0 ∨ k * size < body.length)
include hcfg ho hserves hk

/-- One response of a server: the download returns the body, or it asks for the next block. -/
theorem Serves.step (hprev : previous = none ∧ k = 0
      ∨ 0 < k ∧ ∃ p, previous = some ⟨p, size⟩ ∧ Blockwise.identity p = i) :
    (∃ m, download cfg first exchange request left state (.ok reply) previous (body.take (k * size))
        = .done (.ok m) state ∧ m.payload = body) ∨ (k + 1) * size < body.length ∧ ∃ next,
      (Blockwise.block next 27 = failure .missingBlock
        ∧ Blockwise.block next 23 = .ok ⟨k + 1, false, size⟩)
      ∧ download cfg first exchange request left state (.ok reply) previous (body.take (k * size))
        = match left with
          | 0 => .done (failure .blockLimit) state
          | left + 1 => .after next (invoke exchange next state).1
            (download cfg first exchange request left (invoke exchange next state).2
              (invoke exchange next state).1 (some ⟨reply, size⟩) (body.take ((k + 1) * size))) := by
  obtain ⟨m, hfin, hm⟩ := hserves.finish ho first
  rcases hserves.block with ⟨hblock, hpay⟩ | ⟨rfl, hopt, hpay⟩
  · have happ := hserves.appended hcfg ho hblock hpay hk (hprev.imp And.left And.right)
    obtain ⟨⟨v, hopt⟩, -⟩ := block_ok hblock
    by_cases hlt : (k + 1) * size < body.length
    · have hlen : (body.take ((k + 1) * size)).length = (k + 1) * size := by
        rw [length_take]
        omega
      rw [decide_eq_true hlt] at happ
      obtain ⟨next, hnext, h23⟩ := continuation_eq_ok request
        (b := ⟨k, true, size⟩) (ho.number_le hcfg hlt) ho.sized hlen
      exact .inr ⟨hlt, next, ⟨continuation_block hnext, h23⟩, download_more hopt happ hnext⟩
    · rw [decide_eq_false hlt, take_of_length_le (not_lt.mp hlt)] at happ
      exact .inl ⟨m, by rw [download_last hopt happ, hfin], hm⟩
  · obtain ⟨rfl, -⟩ : previous = none ∧ (0 : Nat) = 0 := hprev.resolve_right fun h => absurd h.1 (lt_irrefl 0)
    exact .inl ⟨m, by rw [download_single hopt, hpay, hfin], hm⟩

/-- **From a server of one body, a download returns the body.** It has block `k` and needs
`count body size - 1 - k` more exchanges. -/
theorem download_serves
    (hprev : previous = none ∧ k = 0 ∨ 0 < k ∧ ∃ p, previous = some ⟨p, size⟩ ∧ identity p = i)
    (hall : ∀ e ∈ (download cfg first exchange request left state (.ok reply) previous
      (body.take (k * size))).exchanges, Answered cfg.limit body size i e) :
    Returns body (download cfg first exchange request left state (.ok reply) previous
      (body.take (k * size))) left (k + 1 + left < count body size) := by
  induction left generalizing k state reply previous with
  | zero =>
    rcases hserves.step hcfg ho first exchange request 0 state hk hprev with
      ⟨m, h, hm⟩ | ⟨hlt, next, -, h⟩
    · rw [h]
      exact .inl ⟨m, rfl, hm⟩
    · rw [h]
      exact .inr ⟨⟨_, rfl, rfl⟩, rfl, lt_count (size_pos ho.sized) hlt⟩
  | succ left ih =>
    rcases hserves.step hcfg ho first exchange request (left + 1) state hk hprev with
      ⟨m, h, hm⟩ | ⟨hlt, next, ⟨h27, h23⟩, h⟩
    · rw [h]
      exact .inl ⟨m, rfl, hm⟩
    · rw [h] at hall ⊢
      obtain ⟨reply', hres, hserves'⟩ := (hall _ mem_cons_self).served h27 h23 (.inr rfl)
      rw [hres] at hall ⊢
      have hrest := ih (invoke exchange next state).2 hserves' (.inr hlt)
        (.inr ⟨Nat.succ_pos k, reply, rfl, hserves.identity⟩)
        fun e he => hall e (mem_cons_of_mem _ he)
      refine hrest.after (fun hshort => ?_) _ _
      dsimp only at hshort
      omega

end

/-- The final slice also asks for the first block of the response. -/
theorem uploadRequest_last {m : Message} {offset size' : Nat} (hcfg : cfg.Valid)
    (h : uploadRequest cfg m offset size' = .ok request)
    (hlast : ¬ offset + min size' (m.payload.length - offset) < m.payload.length) :
    block request 23 = .ok ⟨0, false, cfg.size⟩ := by
  simp only [uploadRequest, bind_eq_ok, decide_eq_false hlast] at h
  obtain ⟨r, -, h⟩ := h
  obtain ⟨v, hput, hdec⟩ := putBlock_eq_ok
    (withoutIfNoneMatch (putOption r 60 (Bytes.uint m.payload.length)) offset) 23 false
    (Nat.zero_le _) hcfg.size
  obtain rfl := Outcome.ok.inj (hput.symm.trans h)
  exact block_of_option (option_putOption_self _ _ _) hdec

/-- **The same behind an upload.** -/
theorem upload_serves (hcfg : cfg.Valid) (ho : Offered cfg body size i) (exchange : Exchange σ)
    {m : Message} (hm : m.payload.length ≤ cfg.limit) {left : Nat} {state : σ} {offset size' : Nat}
    (hs : size' ∈ sizes) (hlt : offset < m.payload.length)
    (hall : ∀ e ∈ (upload cfg exchange m left state offset size').exchanges,
      Answered cfg.limit body size i e) :
    Returns body (upload cfg exchange m left state offset size') left
      (left < (slices (upload cfg exchange m left state offset size').exchanges).length
        + count body size) := by
  induction left generalizing state offset size' with
  | zero =>
    obtain ⟨request, hreq, -, -⟩ := uploadRequest_eq_ok hcfg hs hm hlt
    unfold upload
    rw [hreq]
    exact .inr ⟨⟨_, rfl, rfl⟩, rfl, Nat.lt_add_left _ (Nat.succ_pos _)⟩
  | succ left ih =>
    obtain ⟨request, hreq, -, hblock⟩ := uploadRequest_eq_ok hcfg hs hm hlt
    unfold upload at hall ⊢
    rw [hreq, clause_ok] at hall ⊢
    dsimp only at hall ⊢
    have hans := hall _ mem_cons_self
    obtain ⟨⟨reply, b⟩, hack⟩ := hans.1 _ hblock
    obtain ⟨hres, hbs, -⟩ := acknowledged_ok hack
    rw [hack, clause_ok] at hall ⊢
    dsimp only at hall ⊢
    have hslice : ∀ t : Transfer σ,
        (slices (t.after request (invoke exchange request state).1).exchanges).length
          = (slices t.exchanges).length + 1 := by
      intro t
      rw [Transfer.after, slices_cons hblock, length_cons]
    rw [hslice]
    split
    · rename_i hmore
      rw [if_pos hmore] at hall
      rw [decide_eq_true_eq] at hmore
      have hrest := ih hbs hmore fun e he => hall e (mem_cons_of_mem _ he)
      exact hrest.after (fun h => by omega) _ _
    · rename_i hmore
      rw [if_neg hmore] at hall
      rw [decide_eq_true_eq] at hmore
      obtain ⟨reply', hres', hserves⟩ := hans.2 fun b' hb' => by
        obtain rfl := Outcome.ok.inj (hblock.symm.trans hb')
        exact decide_eq_false hmore
      obtain rfl := Outcome.ok.inj (hres.symm.trans hres')
      have hfirst := hserves _ (uploadRequest_last hcfg hreq hmore) (.inl rfl)
      have hrest := download_serves hcfg ho none exchange m left
        (invoke exchange request state).2 hfirst (.inl rfl) (.inl ⟨rfl, rfl⟩)
      simp only [Nat.zero_mul] at hrest
      exact (hrest fun e he => hall e (mem_cons_of_mem _ he)).after (fun h => by omega) _ _

end Served

/-! ## Runs -/

theorem start_get (hcfg : cfg.Valid) (exchange : Exchange σ) (state : σ)
    (h : m.payload.length ≤ cfg.size) (hm : Codec.option m 27 = []) :
    ∃ request left, cfg.blocks = left + 1 ∧ block request 23 = .ok ⟨0, false, cfg.size⟩
      ∧ block request 27 = failure .missingBlock
      ∧ start cfg exchange m state = .after request (invoke exchange request state).1
        (download cfg none exchange m left (invoke exchange request state).2
          (invoke exchange request state).1 none []) := by
  obtain ⟨v, hput, hdec⟩ := putBlock_eq_ok m 23 false (Nat.zero_le _) hcfg.size
  obtain ⟨left, hleft⟩ : ∃ left, cfg.blocks = left + 1 :=
    ⟨cfg.blocks - 1, (Nat.sub_add_cancel hcfg.blocks.1).symm⟩
  refine ⟨putOption m 23 v, left, hleft, block_of_option (option_putOption_self _ _ _) hdec, ?_, ?_⟩
  · rw [block, option_putOption (by decide), hm]
  · rw [start, if_neg (not_lt.mpr h), hput, clause_ok, hleft]

theorem start_ok (hcfg : cfg.Valid) (exchange : Exchange σ) (state : σ) (hm : Codec.option m 27 = []) :
    (start cfg exchange m state).exchanges.length ≤ cfg.blocks
    ∧ ∀ r, (start cfg exchange m state).result = .ok r → ∃ up rs,
      (start cfg exchange m state).exchanges.map Prod.snd = up ++ rs.map .ok
        ∧ Representation cfg rs r.payload ∧ (m.payload.length ≤ cfg.size → up = []) := by
  by_cases hs : cfg.size < m.payload.length
  · by_cases hcode : m.code = 2 ∨ m.code = 3
    · have hstart : start cfg exchange m state
          = upload cfg exchange (putOption m 292 m.token) cfg.blocks state 0 cfg.size := by
        rw [start, if_pos hs, if_pos hcode]
      rw [hstart]
      refine ⟨upload_length, fun r hr => ?_⟩
      obtain ⟨hl, up, rs, hrs, hg⟩ := upload_ok hr
      exact ⟨up, rs, hrs, hg.representation hl, fun h => absurd hs (not_lt.mpr h)⟩
    · have hstart : start cfg exchange m state = .done (failure .invalidBlockwiseMethod) state := by
        rw [start, if_pos hs, if_neg hcode]
      rw [hstart]
      exact ⟨Nat.zero_le _, by rintro _ ⟨⟩⟩
  · obtain ⟨request, left, hleft, -, -, hstart⟩ := start_get hcfg exchange state (not_lt.mp hs) hm
    rw [hstart, hleft]
    refine ⟨Nat.succ_le_succ download_length, fun r hr => ?_⟩
    obtain ⟨hl, rs, hrs, hg⟩ := download_ok hr
    exact ⟨[], rs, hrs, hg.representation hl, fun _ => rfl⟩

theorem start_serves (hcfg : cfg.Valid) (ho : Offered cfg body size i)
    (hlimit : m.payload.length ≤ cfg.limit) (hm : Codec.option m 27 = [])
    (hcode : m.payload.length ≤ cfg.size ∨ m.code = 2 ∨ m.code = 3)
    (hall : ∀ e ∈ (start cfg exchange m state).exchanges, Answered cfg.limit body size i e) :
    Returns body (start cfg exchange m state) cfg.blocks
      (cfg.blocks < (slices (start cfg exchange m state).exchanges).length + count body size) := by
  by_cases hs : cfg.size < m.payload.length
  · have hstart : start cfg exchange m state
        = upload cfg exchange (putOption m 292 m.token) cfg.blocks state 0 cfg.size := by
      rw [start, if_pos hs, if_pos (hcode.resolve_left (not_le.mpr hs))]
    rw [hstart] at hall ⊢
    exact upload_serves hcfg ho exchange (m := putOption m 292 m.token) hlimit hcfg.size
      (lt_of_le_of_lt (Nat.zero_le _) hs) hall
  · obtain ⟨request, left, hleft, h23, h27, hstart⟩ :=
      start_get hcfg exchange state (not_lt.mp hs) hm
    rw [hstart] at hall ⊢
    obtain ⟨reply, hres, hserves⟩ := (hall _ mem_cons_self).served h27 h23 (.inl rfl)
    rw [hres] at hall ⊢
    have hrest := download_serves hcfg ho none exchange m left
      (invoke exchange request state).2 hserves (.inl rfl) (.inl ⟨rfl, rfl⟩)
    simp only [Nat.zero_mul] at hrest
    rw [hleft]
    refine (hrest fun e he => hall e (mem_cons_of_mem _ he)).after (fun h => ?_) _ _
    omega

variable {first : Message}

theorem Serves.validateContinuationRequest (hcfg : cfg.Valid) (ho : Offered cfg body size i)
    (h : Serves cfg.limit body size i 0 first) (hreq : validateRequest request cfg = .ok ())
    (hget : request.code = 1 ∧ request.payload = []) (hopt : Codec.validateOptions first = .ok ())
    {data : Bytes} (hdata : Codec.encode first = .ok data) :
    validateContinuationRequest request first cfg = .ok () := by
  obtain ⟨hsucc, hcode⟩ := h.success ho
  have hbody : firstBody first cfg = .ok () := by
    unfold firstBody
    rcases h.block with ⟨hblock, hpay⟩ | ⟨-, hnone, hpay⟩
    · have happ := h.appended hcfg ho hblock hpay (.inl rfl) (.inl rfl)
      simp only [Blockwise.appended, bind_eq_ok, exists_unit, hblock,
        Outcome.ok.injEq, Nat.zero_mul, take_zero] at happ
      obtain ⟨-, b, rfl, hrep, r, happ, -⟩ := happ
      obtain ⟨⟨v, hv⟩, -⟩ := block_ok hblock
      simp only [hv, hblock, ok_bind, hrep, happ]
    · simp [hnone, hpay, check, ho.fits, h.bounded]
  simp only [Blockwise.validateContinuationRequest, hreq, hopt, hdata, hsucc, hbody]
  simp [check, hget, hcode]

section

variable (hc : config opts = .ok cfg)
include hc

theorem run_ok (state : σ) (exchange : Exchange σ) :
    (run m opts state exchange).exchanges.length ≤ cfg.blocks
    ∧ ∀ r, (run m opts state exchange).result = .ok r → ∃ up rs,
      (run m opts state exchange).exchanges.map Prod.snd = up ++ rs.map .ok
        ∧ Representation cfg rs r.payload ∧ (m.payload.length ≤ cfg.size → up = []) := by
  rcases hv : validateRequest m cfg with u | e | _
  · obtain ⟨-, h27⟩ := validateRequest_ok hv
    obtain ⟨hlen, hret⟩ := start_ok (config_ok hc) exchange state h27
    rw [run_eq hc hv]
    exact ⟨hlen, fun r hr => hret r (effect_eq_ok.mp hr)⟩
  all_goals
    rw [run, hc, clause_ok, hv]
    exact ⟨Nat.zero_le _, by rintro _ ⟨⟩⟩

theorem continueFrom_ok (state : σ) (exchange : Exchange σ) :
    (continueFrom request first opts state exchange).exchanges.length + 1 ≤ cfg.blocks
    ∧ ∀ r, (continueFrom request first opts state exchange).result = .ok r → ∃ rs,
      .ok first :: (continueFrom request first opts state exchange).exchanges.map Prod.snd
        = rs.map .ok ∧ Representation cfg rs r.payload := by
  have hpos := (config_ok hc).blocks.1
  rw [continueFrom, hc, clause_ok]
  rcases hv : validateContinuationRequest request first cfg with u | e | _
  · split
    · exact ⟨hpos, by rintro _ ⟨⟩⟩
    · refine ⟨Nat.add_le_of_le_sub hpos download_length, fun r hr => ?_⟩
      obtain ⟨hl, rs, hrs, hg⟩ := download_ok hr
      exact ⟨rs, hrs, hg.representation hl⟩
  all_goals exact ⟨hpos, by rintro _ ⟨⟩⟩

omit hc in
theorem Returns.effect {t : Transfer σ} {short : Prop} (h : Returns body t left short) (code : Int) :
    Returns body { t with result := effect t.result code } left short := by
  rcases h with ⟨r, hr, hb⟩ | ⟨⟨e, he, hcode⟩, hlen, hs⟩
  · exact .inl ⟨r, effect_eq_ok.mpr hr, hb⟩
  · refine .inr ⟨?_, hlen, hs⟩
    dsimp only
    rw [he, Blockwise.effect]
    split <;> exact ⟨_, rfl, hcode⟩

theorem run_serves (ho : Offered cfg body size i) (hv : validateRequest m cfg = .ok ())
    (hcode : m.payload.length ≤ cfg.size ∨ m.code = 2 ∨ m.code = 3)
    (hall : ∀ e ∈ (run m opts state exchange).exchanges, Answered cfg.limit body size i e) :
    Returns body (run m opts state exchange) cfg.blocks
      (cfg.blocks < (slices (run m opts state exchange).exchanges).length + count body size) := by
  obtain ⟨hlimit, h27⟩ := validateRequest_ok hv
  rw [run_eq hc hv] at hall ⊢
  exact (start_serves (config_ok hc) ho hlimit h27 hcode hall).effect m.code

/-- A continuation against a server of one body, whose first response it has. -/
theorem continueFrom_serves (ho : Offered cfg body size i)
    (hv : validateContinuationRequest request first cfg = .ok ()) (htok : request.token ≠ first.token)
    (hserves : Serves cfg.limit body size i 0 first)
    (hall : ∀ e ∈ (continueFrom request first opts state exchange).exchanges,
      Answered cfg.limit body size i e) :
    Returns body (continueFrom request first opts state exchange) (cfg.blocks - 1)
      (cfg.blocks < count body size) := by
  have hcfg := config_ok hc
  have hpos := hcfg.blocks.1
  rw [continueFrom, hc, clause_ok, hv, if_neg htok] at hall ⊢
  have hret := download_serves hcfg ho (some first) exchange request (cfg.blocks - 1)
    state hserves (.inl rfl) (.inl ⟨rfl, rfl⟩)
  simp only [Nat.zero_mul, Nat.add_sub_cancel' hpos] at hret
  exact hret hall

end

/-- **A transfer returns one whole representation, and a server's body in full.** Over every server, a
run or a continuation that returns has used responses of one representation from block 0 to the last
(behind the acknowledgements of an upload, if there was one), within the budgets. Against a server of
one body within the budgets, it returns that body, unless the exchanges are fewer than the slices and
the blocks. -/
theorem transfers {opts : List (TransferKey × Int)} {cfg : Config} (hc : config opts = .ok cfg)
    (state : σ) (exchange : Exchange σ) :
    (∀ m, let t := run m opts state exchange
      t.exchanges.length ≤ cfg.blocks ∧ ∀ r, t.result = .ok r →
        ∃ up rs, t.exchanges.map Prod.snd = up ++ rs.map .ok ∧ Representation cfg rs r.payload
          ∧ (m.payload.length ≤ cfg.size → up = []))
    ∧ (∀ request first, let t := continueFrom request first opts state exchange
      t.exchanges.length + 1 ≤ cfg.blocks ∧ ∀ r, t.result = .ok r →
        ∃ rs, .ok first :: t.exchanges.map Prod.snd = rs.map .ok ∧ Representation cfg rs r.payload)
    ∧ ∀ body size i, Offered cfg body size i →
      (∀ m, validateRequest m cfg = .ok () →
        (m.payload.length ≤ cfg.size ∨ m.code = 2 ∨ m.code = 3) →
        let t := run m opts state exchange
        (∀ e ∈ t.exchanges, Answered cfg.limit body size i e) →
        Returns body t cfg.blocks (cfg.blocks < (slices t.exchanges).length + count body size))
      ∧ ∀ request first, validateRequest request cfg = .ok () →
        request.code = 1 ∧ request.payload = [] → request.token ≠ first.token →
        Codec.validateOptions first = .ok () → (∃ data, Codec.encode first = .ok data) →
        Serves cfg.limit body size i 0 first →
        let t := continueFrom request first opts state exchange
        (∀ e ∈ t.exchanges, Answered cfg.limit body size i e) →
        Returns body t (cfg.blocks - 1) (cfg.blocks < count body size) := by
  refine ⟨fun m => run_ok hc state exchange, fun request first => continueFrom_ok hc state exchange,
    fun body size i ho => ⟨?_, ?_⟩⟩
  · intro m hv hcode t hall
    exact run_serves hc ho hv hcode hall
  · intro request first hreq hget htok hopt ⟨data, hdata⟩ hserves t hall
    have hv := hserves.validateContinuationRequest (config_ok hc) ho hreq hget hopt hdata
    exact continueFrom_serves hc ho hv htok hserves hall

/-- A GET. -/
def get : Message := ⟨.con, 1, 7, [1], [(11, [97])], []⟩

/-- Forty bytes. -/
def forty : Bytes := (range 40).map byte

/-- The request for block `k`: of 32 bytes at first, then of the 16 that the server chose. -/
def asked (k : Nat) : Message :=
  putOption get 23 (Bytes.uint (value ⟨k, false, if k = 0 then 32 else 16⟩))

/-- Block `k` of the forty bytes in blocks of 16. -/
def served (k : Nat) : Message :=
  ⟨.ack, 69, 7, [1], [(23, Bytes.uint (value ⟨k, decide ((k + 1) * 16 < 40), 16⟩))],
    (forty.drop (k * 16)).take 16⟩

/-- A server of the forty bytes. -/
def sixteens : Exchange Unit := fun request _ =>
  match block request 23 with
  | .ok b => .ok (served b.number) ()
  | _ => .throws

set_option maxRecDepth 100000 in
theorem sixteens_answered : ∀ e ∈ (run get [(.blockSize, 32)] () sixteens).exchanges,
    Answered 1048576 forty 16 (69, [], []) e := by
  have hex : (run get [(.blockSize, 32)] () sixteens).exchanges
      = [0, 1, 2].map fun k => (asked k, .ok (served k)) := by decide +kernel
  have hasked : ∀ k ∈ [0, 1, 2], block (asked k) 27 = failure .missingBlock
      ∧ block (asked k) 23 = .ok ⟨k, false, if k = 0 then 32 else 16⟩ := by decide +kernel
  have hserved : ∀ k ∈ [0, 1, 2], identity (served k) = (69, [], [])
      ∧ withinSizeLimit (served k) 1048576 = true
      ∧ block (served k) 23 = .ok ⟨k, decide ((k + 1) * 16 < forty.length), 16⟩ := by decide +kernel
  intro e he
  rw [hex] at he
  obtain ⟨k, hk, rfl⟩ := mem_map.mp he
  obtain ⟨h27, h23⟩ := hasked k hk
  obtain ⟨hid, hlimit, hblock⟩ := hserved k hk
  refine ⟨fun b hb => ?_, fun _ => ⟨served k, rfl, fun b hb _ => ?_⟩⟩
  · rw [h27] at hb
    cases hb
  · obtain rfl := Outcome.ok.inj (h23.symm.trans hb)
    exact ⟨hid, hlimit, .inl ⟨hblock, rfl⟩⟩

set_option maxRecDepth 100000 in
theorem get_transfers : config [(.blockSize, 32)] = .ok ⟨32, 1048576, 4096⟩
    ∧ (run get [(.blockSize, 32)] () sixteens).exchanges.length = 3
    ∧ Returns forty (run get [(.blockSize, 32)] () sixteens) 4096
      (4096 < (slices (run get [(.blockSize, 32)] () sixteens).exchanges).length + count forty 16) := by
  have hc : config [(.blockSize, 32)] = .ok ⟨32, 1048576, 4096⟩ := by decide +kernel
  refine ⟨hc, by decide +kernel, ?_⟩
  refine ((transfers hc () sixteens).2.2 forty 16 (69, [], []) ?_).1 get ?_ (.inl ?_) sixteens_answered
  · exact ⟨by decide, by decide, by decide +kernel, by decide⟩
  · decide +kernel
  · decide

end Wotex.CoAP.Blockwise
