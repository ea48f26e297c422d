import Wotex.CoAP.Blockwise

/-!
# Uploads send the payload once

The Block1 requests of a transfer are the slices of its payload. `Slices` follows the recursion of
`upload/4` over the offset; `Contiguous` and `Whole` say the same of the list that was sent. The size
of a block can only shrink, and a smaller size divides a larger one, so an offset stays a multiple of
the size and the number recomputed from it is exact.

* `upload_uploaded`: whatever the server answers, the slices sent so far are contiguous.
* `run_uploads`: they are the whole payload when the transfer returns, and also when every
  acknowledgement is accepted before the exchanges run out.
-/

namespace Wotex.CoAP.Blockwise

open List

variable {σ : Type}

variable (e : Message × Result Message)

/-- The slice a call carries: its Block1 option and its payload. -/
def slice : Option (Block × Bytes) :=
  (block e.1 27).toOption.map fun b => (b, e.1.payload)

variable (exchanges : List (Message × Result Message))

/-- The slices sent by a transfer. -/
def slices : List (Block × Bytes) :=
  exchanges.filterMap slice

/-- The bytes of slices. -/
def bytes (sent : List (Block × Bytes)) : Bytes := (sent.map Prod.snd).flatten

/-- The bytes of all requests, slices or not. -/
def carried : Bytes :=
  (exchanges.map fun e => e.1.payload).flatten

/-- The answer to a slice passes the checks of `upload/4`. -/
def Accepted : Prop :=
  ∀ b, block e.1 27 = .ok b → ∃ r, acknowledged e.2 b.number b.size b.more = .ok r

/-- Slices from an offset on. -/
inductive Slices (payload : Bytes) : Nat → List (Block × Bytes) → Prop where
  | nil {offset : Nat} : Slices payload offset []
  | cons {offset : Nat} {b : Block} {rest : List (Block × Bytes)} (start : offset < payload.length)
      (size : 0 < b.size) (number : b.number * b.size = offset)
      (more : b.more = decide (offset + min b.size (payload.length - offset) < payload.length))
      (tail : Slices payload (offset + min b.size (payload.length - offset)) rest) :
      Slices payload offset ((b, (payload.drop offset).take b.size) :: rest)

/-- Sent slices start where the one before ended, are numbered by their offset in units of their size
and say whether payload is left behind them. -/
structure Contiguous (payload : Bytes) (sent : List (Block × Bytes)) : Prop where
  taken : bytes sent <+: payload
  nonempty : ∀ e ∈ sent, e.2 ≠ []
  bounded : ∀ e ∈ sent, e.2.length ≤ e.1.size
  number : ∀ k (h : k < sent.length),
    (sent.get ⟨k, h⟩).1.number * (sent.get ⟨k, h⟩).1.size = (bytes (sent.take k)).length
  more : ∀ k (h : k < sent.length),
    (sent.get ⟨k, h⟩).1.more = true ↔ (bytes (sent.take (k + 1))).length < payload.length

/-- The slices are the payload, and all but the last are marked as followed by more. -/
structure Whole (payload : Bytes) (sent : List (Block × Bytes)) : Prop where
  bytes : bytes sent = payload
  more : ∀ k (h : k < sent.length), (sent.get ⟨k, h⟩).1.more = true ↔ k + 1 < sent.length

/-! ## Lists of slices -/

@[simp] theorem bytes_nil : bytes [] = [] := rfl

@[simp] theorem bytes_cons (e : Block × Bytes) (sent : List (Block × Bytes)) :
    bytes (e :: sent) = e.2 ++ bytes sent := by
  simp [bytes]

theorem bytes_append (l l' : List (Block × Bytes)) : bytes (l ++ l') = bytes l ++ bytes l' := by
  simp [bytes]

variable {b : Block} {cfg : Config} {m : Message} {size : Nat} {result : Result Message}

theorem slices_cons {e : Message × Result Message} (h : block e.1 27 = .ok b)
    (l : List (Message × Result Message)) : slices (e :: l) = (b, e.1.payload) :: slices l :=
  filterMap_cons_some (by rw [slice, h]; rfl)

@[simp] theorem carried_cons (l : List (Message × Result Message)) :
    carried (e :: l) = e.1.payload ++ carried l := by
  simp [carried]

namespace Slices

variable {payload : Bytes} {offset : Nat} {sent : List (Block × Bytes)}

section

variable (h : Slices payload offset sent)
include h

theorem taken : bytes sent <+: payload.drop offset := by
  induction h with
  | nil => exact nil_prefix
  | @cons offset b rest start size number more _ ih =>
    have hdrop : payload.drop (offset + min b.size (payload.length - offset))
        = (payload.drop offset).drop b.size := by
      rw [drop_drop]
      rcases le_total b.size (payload.length - offset) with hle | hle
      · rw [min_eq_left hle]
      · rw [drop_eq_nil_of_le (by omega), drop_eq_nil_of_le (by omega)]
    rw [hdrop] at ih
    calc _ <+: (payload.drop offset).take b.size ++ (payload.drop offset).drop b.size :=
          (prefix_append_right_inj _).mpr ih
      _ = payload.drop offset := take_append_drop _ _

theorem entry : ∀ e ∈ sent, e.2 ≠ [] ∧ e.2.length ≤ e.1.size := by
  induction h with
  | nil => exact fun e he => absurd he not_mem_nil
  | @cons offset b rest start size number more _ ih =>
    refine forall_mem_cons.mpr ⟨⟨?_, by simp⟩, ih⟩
    rw [ne_eq, ← length_eq_zero_iff, length_take, length_drop]
    omega

/-- The number of a block is its offset in sizes, and it says whether more follows. -/
theorem block (k : Nat) (hk : k < sent.length) : (sent.get ⟨k, hk⟩).1.number * (sent.get ⟨k, hk⟩).1.size
      = offset + (bytes (sent.take k)).length ∧
    ((sent.get ⟨k, hk⟩).1.more = true ↔ offset + (bytes (sent.take (k + 1))).length < payload.length) := by
  induction h generalizing k with
  | nil => simp at hk
  | @cons offset b rest start size number more _ ih =>
    cases k with
    | zero => exact ⟨by simpa using number, by simp [more]⟩
    | succ k =>
      obtain ⟨hnumber, hmore⟩ := ih k (by simpa using hk)
      simp only [get_eq_getElem, getElem_cons_succ, take_succ_cons, bytes_cons,
        length_append, length_take, length_drop] at hnumber hmore ⊢
      rw [hmore]
      omega

end

theorem contiguous (h : Slices payload 0 sent) : Contiguous payload sent where
  taken := h.taken
  nonempty e he := (h.entry e he).1
  bounded e he := (h.entry e he).2
  number k hk := by rw [(h.block k hk).1, Nat.zero_add]
  more k hk := by rw [(h.block k hk).2, Nat.zero_add]

end Slices

variable {payload : Bytes}

section

variable {sent : List (Block × Bytes)} (h : Contiguous payload sent)
include h

theorem Contiguous.bytes_take_lt (k : Nat) :
    (bytes (sent.take k)).length < (bytes sent).length ↔ k < sent.length := by
  constructor
  · intro hlt
    by_contra hk
    rw [take_of_length_le (not_lt.mp hk)] at hlt
    exact lt_irrefl _ hlt
  · intro hk
    have hsplit : bytes sent = bytes (sent.take k) ++ (sent[k].2 ++ bytes (sent.drop (k + 1))) := by
      rw [← bytes_cons, ← bytes_append, getElem_cons_drop, take_append_drop]
    have hpos : 0 < sent[k].2.length :=
      length_pos_iff.mpr (h.nonempty _ (getElem_mem hk))
    rw [hsplit, length_append, length_append]
    omega

theorem Contiguous.whole (hlen : (Blockwise.bytes sent).length = payload.length) : Whole payload sent where
  bytes := h.taken.eq_of_length hlen
  more k hk := by rw [h.more k hk, ← hlen, h.bytes_take_lt]

end

/-! ## The transfer -/

/-- A download asks for blocks of the response only, and its requests carry no payload. -/
theorem download_requests (cfg : Config) (first : Option Message) (exchange : Exchange σ)
    (request : Message) (left : Nat) (state : σ) (result : Result Message) (previous : Option Previous)
    (acc : Bytes) : let t := download cfg first exchange request left state result previous acc
    slices t.exchanges = [] ∧ carried t.exchanges = [] := by
  refine download_induction (P := fun _ _ _ _ t => slices t.exchanges = [] ∧ carried t.exchanges = [])
    ?_ ?_ left state result previous acc
  · intro _ _ _ _ t hnil _
    rw [hnil]
    exact ⟨rfl, rfl⟩
  · intro _ reply _ _ b body next result t _ hnext ih
    have hnone : slice (next, result) = none := by
      rw [slice, continuation_block hnext]
      rfl
    refine ⟨(filterMap_cons_none hnone).trans ih.1, ?_⟩
    rw [Transfer.after, carried_cons, continuation_payload hnext, ih.2]
    rfl

theorem uploadRequest_eq_ok {offset : Nat} (hcfg : cfg.Valid) (hs : size ∈ Block.sizes)
    (hm : m.payload.length ≤ cfg.limit) (ho : offset < m.payload.length) :
    ∃ request, uploadRequest cfg m offset size = .ok request
      ∧ request.payload = (m.payload.drop offset).take size ∧ block request 27 = .ok ⟨offset / size,
        decide (offset + min size (m.payload.length - offset) < m.payload.length), size⟩ := by
  have hnum : offset / size ≤ 1048575 := by
    have hdiv := Nat.div_le_self offset size
    have hlim := hcfg.limit.2
    omega
  have htake : (m.payload.drop offset).take (min size (m.payload.length - offset))
      = (m.payload.drop offset).take size := by
    rw [← length_drop, take_eq_take_iff]
    omega
  rw [uploadRequest]
  rw [htake]
  generalize hm' : ({ m with payload := (m.payload.drop offset).take size } : Message) = m'
  have hpay : m'.payload = (m.payload.drop offset).take size := by rw [← hm']
  generalize decide (offset + min size (m.payload.length - offset) < m.payload.length) = more
  obtain ⟨v, hput, hdec⟩ := putBlock_eq_ok m' 27 more hnum hs
  rw [hput]
  cases more with
  | true =>
    refine ⟨_, rfl, ?_, block_of_option (v := v) ?_ hdec⟩
    · rw [withoutIfNoneMatch_payload]
      exact hpay
    · rw [option_withoutIfNoneMatch _ (by decide), option_putOption (by decide), option_putOption_self]
  | false =>
    obtain ⟨w, hput', -⟩ := putBlock_eq_ok
      (withoutIfNoneMatch (putOption (putOption m' 27 v) 60 (Bytes.uint m.payload.length)) offset)
      23 false (Nat.zero_le _) hcfg.size
    refine ⟨_, hput', ?_, block_of_option (v := v) ?_ hdec⟩
    · show (withoutIfNoneMatch _ offset).payload = _
      rw [withoutIfNoneMatch_payload]
      exact hpay
    · rw [option_putOption (by decide), option_withoutIfNoneMatch _ (by decide),
        option_putOption (by decide), option_putOption_self]

theorem acknowledged_ok {number : Nat} {more : Bool} {reply : Message}
    (h : acknowledged result number size more = .ok (reply, b)) :
    result = .ok reply ∧ b.size ∈ Block.sizes ∧ b.size ≤ size := by
  simp only [acknowledged, uploadAck, bind_eq_ok, exists_unit, check_eq_ok, Bool.not_eq_true',
    Bool.or_eq_false_iff, decide_eq_false_iff_not] at h
  obtain ⟨reply', hr, -, b', hb, ⟨⟨-, hsize⟩, -⟩, ⟨⟩⟩ := h
  exact ⟨hr, (block_ok hb).2, not_lt.mp hsize⟩

/-- What an upload from an offset has sent when it ends. Its acknowledgements count where the one before
it, `granted`, was accepted. -/
structure Uploaded (payload : Bytes) (offset left : Nat) (granted : Prop) (t : Transfer σ) :
    Prop where
  slices : Slices payload offset (slices t.exchanges)
  carried : carried t.exchanges = bytes (Blockwise.slices t.exchanges)
  returned : ∀ r, t.result = .ok r → offset + (bytes (Blockwise.slices t.exchanges)).length = payload.length
  accepted : granted → (∀ e ∈ t.exchanges, Accepted e) →
    (Blockwise.slices t.exchanges).length = left
      ∨ offset + (bytes (Blockwise.slices t.exchanges)).length = payload.length

theorem Uploaded.after {offset left : Nat} {t : Transfer σ} {request : Message} {granted : Prop}
    (hblock : block request 27 = .ok b) (hpay : request.payload = (payload.drop offset).take b.size)
    (ho : offset < payload.length) (hpos : 0 < b.size) (hnum : b.number * b.size = offset)
    (hmore : b.more = decide (offset + min b.size (payload.length - offset) < payload.length))
    (h : Uploaded payload (offset + min b.size (payload.length - offset)) left
      (Accepted (request, result)) t) :
    Uploaded payload offset (left + 1) granted (t.after request result) := by
  have hcons : Blockwise.slices (t.after request result).exchanges
      = (b, (payload.drop offset).take b.size) :: Blockwise.slices t.exchanges := by
    rw [← hpay]
    exact slices_cons hblock t.exchanges
  have hlen : offset + (bytes (Blockwise.slices (t.after request result).exchanges)).length
      = offset + min b.size (payload.length - offset) + (bytes (Blockwise.slices t.exchanges)).length := by
    rw [hcons, bytes_cons, length_append, length_take, length_drop]
    omega
  refine ⟨?_, ?_, ?_, ?_⟩
  · rw [hcons]
    exact .cons ho hpos hnum hmore h.slices
  · rw [hcons, bytes_cons, Transfer.after, carried_cons, h.carried, hpay]
  · intro r hr
    rw [hlen]
    exact h.returned r hr
  · intro _ hall
    rw [hlen, hcons, length_cons]
    have hhead : Accepted (request, result) := hall _ mem_cons_self
    rcases h.accepted hhead fun e he => hall e (mem_cons_of_mem _ he) with h | h
    · exact .inl (by rw [h])
    · exact .inr h

/-- **An upload sends slices from its offset on.** The offset stays a multiple of the block size. -/
theorem upload_uploaded (hcfg : cfg.Valid) (exchange : Exchange σ) (hm : m.payload.length ≤ cfg.limit)
    {granted : Prop} (left : Nat) (state : σ) {offset : Nat} (hs : size ∈ Block.sizes)
    (hd : size ∣ offset) (ho : offset < m.payload.length) :
    Uploaded m.payload offset left granted (upload cfg exchange m left state offset size) := by
  induction left generalizing state offset size granted with
  | zero =>
    obtain ⟨request, hreq, -, -⟩ := uploadRequest_eq_ok hcfg hs hm ho
    unfold upload
    rw [hreq]
    exact ⟨.nil, rfl, fun _ => nofun, fun _ _ => .inl rfl⟩
  | succ left ih =>
    obtain ⟨request, hreq, hpay, hblock⟩ := uploadRequest_eq_ok hcfg hs hm ho
    have hpos := Block.size_pos hs
    unfold upload
    rw [hreq]
    dsimp only
    refine Uploaded.after hblock hpay ho hpos (Nat.div_mul_cancel hd) rfl ?_
    cases hack : acknowledged (invoke exchange request state).1 (offset / size) size
      (decide (offset + min size (m.payload.length - offset) < m.payload.length)) with
    | ok r =>
      obtain ⟨reply, b⟩ := r
      obtain ⟨-, hbs, hle⟩ := acknowledged_ok hack
      rw [clause_ok]
      split
      · -- more is left: the slice was full, and the new size divides the old one
        rename_i hmore
        rw [decide_eq_true_eq] at hmore
        have hfull : min size (m.payload.length - offset) = size := by omega
        rw [hfull] at hmore ⊢
        exact ih _ hbs ((Block.size_dvd hbs hs hle).trans (hd.add (dvd_refl size))) hmore
      · rename_i hmore
        rw [decide_eq_true_eq] at hmore
        have hend : offset + min size (m.payload.length - offset) = m.payload.length := by omega
        rw [hend]
        obtain ⟨hslices, hcarried⟩ := download_requests cfg none exchange m left
          (invoke exchange request state).2 (.ok reply) none []
        constructor <;> rw [hslices]
        · exact .nil
        · exact hcarried
        · exact fun _ _ => rfl
        · exact fun _ _ => .inr rfl
    | refuse e | raise =>
      refine ⟨.nil, rfl, fun _ => nofun, fun hacc _ => ?_⟩
      obtain ⟨r, hr⟩ := hacc _ hblock
      rw [hack] at hr
      cases hr

theorem upload_induction {exchange : Exchange σ} {P : Nat → Transfer σ → Prop}
    (ended : ∀ left (t : Transfer σ), t.exchanges = [] → (∀ r, t.result ≠ .ok r) → P left t)
    (refused : ∀ left request result (t : Transfer σ), t.exchanges = [] → (∀ r, t.result ≠ .ok r) →
      P (left + 1) (t.after request result))
    (more : ∀ left request result (t : Transfer σ), P left t → P (left + 1) (t.after request result))
    (last : ∀ left state request reply, P (left + 1)
      ((download cfg none exchange m left state (.ok reply) none []).after request (.ok reply)))
    (left : Nat) (state : σ) (offset size : Nat) :
    P left (upload cfg exchange m left state offset size) := by
  induction left generalizing state offset size with
  | zero =>
    unfold upload
    cases uploadRequest cfg m offset size with
    | ok request | refuse e | raise => exact ended _ _ rfl fun r => nofun
  | succ left ih =>
    unfold upload
    cases uploadRequest cfg m offset size with
    | refuse e | raise => exact ended _ _ rfl fun r => nofun
    | ok request =>
      rw [clause_ok]
      dsimp only
      cases hack : acknowledged (invoke exchange request state).1 (offset / size) size
        (decide (offset + min size (m.payload.length - offset) < m.payload.length)) with
      | refuse e | raise => exact refused _ _ _ _ rfl fun r => nofun
      | ok r =>
        split
        · exact more _ _ _ _ (ih _ _ _)
        · rw [(acknowledged_ok hack).1]
          exact last _ _ _ _

/-! ## Runs -/

theorem start_slices (exchange : Exchange σ) (state : σ) (h : m.payload.length ≤ cfg.size)
    (hm : Codec.option m 27 = []) : slices (start cfg exchange m state).exchanges = [] := by
  unfold start
  rw [if_neg (not_lt.mpr h)]
  rcases clause_cases (putBlock m 23 0 false cfg.size) state _ with ⟨request, hput, hc⟩ | ⟨hc, -⟩
  · rw [hc]
    split
    · rfl
    · have hnone : slice (request, (invoke exchange request state).1) = none := by
        unfold putBlock at hput
        split at hput
        · cases hput
          rw [slice, block, option_putOption (by decide), hm]
          rfl
        · cases hput
      exact (filterMap_cons_none hnone).trans (download_requests ..).1
  · rw [hc]
    rfl

/-- An admitted request with an oversized payload uploads it from the start. -/
theorem start_uploaded (hcfg : cfg.Valid) (exchange : Exchange σ) (state : σ)
    (hm : m.payload.length ≤ cfg.limit) (hs : cfg.size < m.payload.length)
    (hcode : m.code = 2 ∨ m.code = 3) :
    Uploaded m.payload 0 cfg.blocks True (start cfg exchange m state) := by
  unfold start
  rw [if_pos hs, if_pos hcode]
  exact upload_uploaded hcfg exchange (m := putOption m 292 m.token) hm _ _ hcfg.size
    (dvd_zero _) (lt_of_le_of_lt (Nat.zero_le _) hs)

theorem run_eq {opts : List (TransferKey × Int)} {state : σ} {exchange : Exchange σ}
    (hc : config opts = .ok cfg) (hv : validateRequest m cfg = .ok ()) :
    run m opts state exchange = { start cfg exchange m state with
      result := effect (start cfg exchange m state).result m.code } := by
  rw [run, hc, clause_ok, hv, clause_ok]

theorem effect_eq_ok {code : Int} : effect result code = .ok m ↔ result = .ok m := by
  cases result <;> simp [effect]

/-- The slices of a run: none, or those of an upload that was started. -/
theorem run_cases (m : Message) (opts : List (TransferKey × Int)) (state : σ) (exchange : Exchange σ) :
    (∃ cfg, config opts = .ok cfg ∧ validateRequest m cfg = .ok () ∧ cfg.size < m.payload.length
      ∧ (m.code = 2 ∨ m.code = 3) ∧ Uploaded m.payload 0 cfg.blocks True (run m opts state exchange))
    ∨ slices (run m opts state exchange).exchanges = []
      ∧ ∀ cfg, config opts = .ok cfg → cfg.size < m.payload.length →
        (run m opts state exchange).exchanges = [] ∧ (∀ r, (run m opts state exchange).result ≠ .ok r)
        ∧ ¬ (validateRequest m cfg = .ok () ∧ (m.code = 2 ∨ m.code = 3)) := by
  rcases hc : config opts with cfg | e | _
  · rcases hv : validateRequest m cfg with u | e | _
    · obtain ⟨hlimit, h27⟩ := validateRequest_ok hv
      rw [run_eq hc hv]
      by_cases hs : cfg.size < m.payload.length
      · by_cases hcode : m.code = 2 ∨ m.code = 3
        · have hup := start_uploaded (config_ok hc) exchange state hlimit hs hcode
          exact .inl ⟨cfg, rfl, hv, hs, hcode, hup.slices, hup.carried,
            fun r hr => hup.returned r (effect_eq_ok.mp hr), hup.accepted⟩
        · have hstart : start cfg exchange m state = .done (failure .invalidBlockwiseMethod) state := by
            rw [start, if_pos hs, if_neg hcode]
          refine .inr ⟨by rw [hstart]; rfl, fun cfg' hcfg' _ => ?_⟩
          cases hcfg'
          rw [hstart]
          refine ⟨rfl, fun r hr => ?_, fun h => hcode h.2⟩
          have hfail : effect (failure .invalidBlockwiseMethod) m.code = .ok r := hr
          cases effect_eq_ok.mp hfail
      · refine .inr ⟨start_slices exchange state (not_lt.mp hs) h27, fun cfg' hcfg' hs' => ?_⟩
        cases hcfg'
        exact absurd hs' hs
    all_goals
      have hrun : (run m opts state exchange).exchanges = []
          ∧ ∀ r, (run m opts state exchange).result ≠ .ok r := by
        rw [run, hc, clause_ok, hv]
        exact ⟨rfl, fun _ => nofun⟩
      refine .inr ⟨by rw [hrun.1]; rfl, fun cfg' hcfg' _ => ⟨hrun.1, hrun.2, fun h => ?_⟩⟩
      cases hcfg'
      rw [hv] at h
      cases h.1
  all_goals
    refine .inr ⟨?_, fun cfg' hcfg' => by cases hcfg'⟩
    rw [run, hc]
    rfl

/-- **The slices of an upload are the payload once.** Over every server: the slices sent are contiguous,
each is numbered by its offset, and nothing else of an oversized payload is sent. They are the whole
payload, all but the last marked as followed by more, when the transfer returns, and when every
acknowledgement was accepted and exchanges were left. -/
theorem run_uploads (m : Message) (opts : List (TransferKey × Int)) (state : σ) (exchange : Exchange σ)
    (cfg : Config) (hc : config opts = .ok cfg) (hs : cfg.size < m.payload.length) :
    let t := run m opts state exchange
    Contiguous m.payload (slices t.exchanges) ∧ carried t.exchanges = bytes (slices t.exchanges)
      ∧ ((∃ r, t.result = .ok r) → Whole m.payload (slices t.exchanges))
      ∧ (validateRequest m cfg = .ok () → (m.code = 2 ∨ m.code = 3) →
        (∀ e ∈ t.exchanges, Accepted e) → (slices t.exchanges).length ≠ cfg.blocks →
        Whole m.payload (slices t.exchanges)) := by
  intro t
  rcases run_cases m opts state exchange with ⟨cfg', hc', -, -, -, hup⟩ | ⟨hnil, hno⟩
  · obtain rfl := Outcome.ok.inj (hc.symm.trans hc')
    have hcont := hup.slices.contiguous
    refine ⟨hcont, hup.carried, ?_, ?_⟩
    · rintro ⟨r, hr⟩
      exact hcont.whole (by simpa using hup.returned r hr)
    · intro _ _ hall hleft
      rcases hup.accepted trivial hall with h | h
      · exact absurd h hleft
      · exact hcont.whole (by simpa using h)
  · obtain ⟨hex, hres, hadm⟩ := hno cfg hc hs
    refine ⟨?_, ?_, ?_, ?_⟩
    · rw [hnil]
      exact Slices.nil.contiguous
    · rw [hex]
      rfl
    · rintro ⟨r, hr⟩
      exact absurd hr (hres r)
    · intro hv hcode _ _
      exact absurd ⟨hv, hcode⟩ hadm

/-- A PUT of forty bytes in blocks of at most 32. -/
def put : Message := ⟨.con, 3, 7, [1], [(11, [97])], replicate 40 5⟩

/-- A server that acknowledges every slice in blocks of 16. -/
def halving : Exchange Unit := fun request _ =>
  match block request 27 with
  | .ok b =>
    .ok ⟨.ack, if b.more then 95 else 68, request.messageId, request.token,
      [(27, Bytes.uint (Block.value ⟨b.number, b.more, 16⟩))], []⟩ ()
  | _ => .throws

set_option maxRecDepth 100000 in
/-- The slices of 32 and 8 bytes; the second one is number 2 in units of 16. -/
theorem put_uploads : config [(.blockSize, 32)] = .ok ⟨32, 1048576, 4096⟩
    ∧ (slices (run put [(.blockSize, 32)] () halving).exchanges).map Prod.fst
      = [⟨0, true, 32⟩, ⟨2, false, 16⟩]
    ∧ Whole put.payload (slices (run put [(.blockSize, 32)] () halving).exchanges) :=
  ⟨by decide +kernel, by decide +kernel,
    (run_uploads put [(.blockSize, 32)] () halving ⟨32, 1048576, 4096⟩ (by decide +kernel)
      (by decide +kernel)).2.2.1 ⟨⟨.ack, 68, 7, [1], [], []⟩, by decide +kernel⟩⟩

end Wotex.CoAP.Blockwise
