import Wotex.Modbus.Codec

/-!
# A command and its answer

`Memory` and `Answers` say what a Modbus server does with a request: the four tables, and for every function
the answer to a request and the memory behind it. They are written from the protocol and not from the codec.

* `exchanged`: over every memory, a valid command is encoded, a server that answers it has an answer, and every
  such answer comes to exactly the addressed values (`Effect`), however it is split into chunks; a written
  list is what a read of its range returns afterwards; and nothing else than a frame with the transaction,
  the unit and the payload of an answer to the command is accepted.
-/

namespace Wotex.Modbus

open Codec Command
open List

/-! ## Servers -/

/-- The tables of a server. -/
structure Memory where
  coils : Nat → Bool
  discreteInputs : Nat → Bool
  holdingRegisters : Nat → UInt16
  inputRegisters : Nat → UInt16

variable {α : Type} (table : Nat → α)

/-- A table after a list was written at an offset. -/
def overwrite (offset : Nat) (l : List α) (a : Nat) : α :=
  if offset ≤ a then l.getD (a - offset) (table a) else table a

/-- A part of a table. -/
def slice (offset quantity : Nat) : List α :=
  (range quantity).map fun i => table (offset + i)

/-- The addresses of a request, at most `limit` of them. -/
structure InRange (limit offset quantity : Nat) : Prop where
  positive : 1 ≤ quantity
  limit : quantity ≤ limit
  range : offset + quantity ≤ 65536

/-- Bits in bytes, the first in the least significant bit of the first byte, the last byte padded with
zeros. -/
structure Packed (data : Bytes) (values : List Bool) : Prop where
  length : data.length = (values.length + 7) / 8
  value : ∀ i, i < values.length → bit data i = values.getD i false
  padding : ∀ i, values.length ≤ i → bit data i = false

/-- Registers, high byte first. -/
def registerData (values : List UInt16) : Bytes := values.flatMap fun v => word v.toNat

/-- The answer to a request and the memory behind it. -/
inductive Answers (m : Memory) : Bytes → Bytes → Memory → Prop where
  | readCoils {o q : Nat} {data : Bytes} (hr : InRange 2000 o q)
      (hp : Packed data (slice m.coils o q)) :
      Answers m (1 :: word o ++ word q) (1 :: byte data.length :: data) m
  | readDiscreteInputs {o q : Nat} {data : Bytes} (hr : InRange 2000 o q)
      (hp : Packed data (slice m.discreteInputs o q)) :
      Answers m (2 :: word o ++ word q) (2 :: byte data.length :: data) m
  | readHoldingRegisters {o q : Nat} (hr : InRange 125 o q) :
      Answers m (3 :: word o ++ word q) (3 :: byte (q * 2) :: registerData (slice m.holdingRegisters o q)) m
  | readInputRegisters {o q : Nat} (hr : InRange 125 o q) :
      Answers m (4 :: word o ++ word q) (4 :: byte (q * 2) :: registerData (slice m.inputRegisters o q)) m
  | writeCoil {o : Nat} {v : Bool} (ho : o < 65536) :
      Answers m (5 :: word o ++ word (if v then 0xFF00 else 0))
        (5 :: word o ++ word (if v then 0xFF00 else 0))
        { m with coils := overwrite m.coils o [v] }
  | writeRegister {o : Nat} {v : UInt16} (ho : o < 65536) :
      Answers m (6 :: word o ++ word v.toNat) (6 :: word o ++ word v.toNat)
        { m with holdingRegisters := overwrite m.holdingRegisters o [v] }
  | writeCoils {o q : Nat} {data : Bytes} {values : List Bool} (hr : InRange 1968 o q)
      (hl : values.length = q) (hp : Packed data values) :
      Answers m (15 :: word o ++ word q ++ byte data.length :: data) (15 :: word o ++ word q)
        { m with coils := overwrite m.coils o values }
  | writeRegisters {o q : Nat} {values : List UInt16} (hr : InRange 123 o q)
      (hl : values.length = q) :
      Answers m (16 :: word o ++ word q ++ byte (q * 2) :: registerData values)
        (16 :: word o ++ word q)
        { m with holdingRegisters := overwrite m.holdingRegisters o values }

/-- A server answers a frame with the transaction and the unit of the request. -/
def Serves (m : Memory) (request reply : Bytes) (after : Memory) : Prop :=
  ∃ t unit payload answer, t ≤ 65535 ∧ unit ≤ 255 ∧ request = adu t unit payload ∧
    reply = adu t unit answer ∧ Answers m payload answer after

/-! ## What a command means -/

/-- What a command returns and what it leaves in memory. -/
inductive Effect (c : Command) (m : Memory) : Reply → Memory → Prop where
  | readCoils (hf : c.function = 1) : Effect c m (.bits (slice m.coils c.address.offset c.address.quantity)) m
  | readDiscreteInputs (hf : c.function = 2) :
      Effect c m (.bits (slice m.discreteInputs c.address.offset c.address.quantity)) m
  | readHoldingRegisters (hf : c.function = 3) :
      Effect c m (.registers ((slice m.holdingRegisters c.address.offset c.address.quantity).map UInt16.toNat)) m
  | readInputRegisters (hf : c.function = 4) :
      Effect c m (.registers ((slice m.inputRegisters c.address.offset c.address.quantity).map UInt16.toNat)) m
  | writeCoils {l : List Bool} (hf : c.function = 5 ∨ c.function = 15) (hv : c.values = coils l) :
      Effect c m .written { m with coils := overwrite m.coils c.address.offset l }
  | writeRegisters {l : List UInt16} (hf : c.function = 6 ∨ c.function = 16)
      (hv : c.values = registers l) :
      Effect c m .written { m with holdingRegisters := overwrite m.holdingRegisters c.address.offset l }

/-! ## Words and registers -/

theorem word_inj {n k : Nat} (hn : n < 65536) (hk : k < 65536) (h : word n = word k) : n = k := by
  obtain ⟨hhigh, hlow⟩ : byte (n / 256) = byte (k / 256) ∧ byte (n % 256) = byte (k % 256) := by
    simpa [word] using h
  rw [← number_word hn, ← number_word hk, hhigh, hlow]

theorem word_append_inj {n k : Nat} (hn : n < 65536) (hk : k < 65536) {x y : Bytes}
    (h : word n ++ x = word k ++ y) : n = k ∧ x = y := by
  obtain ⟨hword, hrest⟩ := append_inj h rfl
  exact ⟨word_inj hn hk hword, hrest⟩

section

variable {limit limit' o q o' q' : Nat} (h : InRange limit o q) (h' : InRange limit' o' q')
  (hl : limit ≤ 2000) (hl' : limit' ≤ 2000)
include h h' hl hl'

theorem range_inj {x y : Bytes}
    (heq : word o ++ word q ++ x = word o' ++ word q' ++ y) : o = o' ∧ q = q' ∧ x = y := by
  have h1 := h.positive
  have h2 := h.range
  have h3 := h'.positive
  have h4 := h'.range
  have h5 := h.limit
  have h6 := h'.limit
  obtain ⟨ho, heq⟩ := word_append_inj (by omega) (by omega) heq
  exact ⟨ho, word_append_inj (by omega) (by omega) heq⟩

theorem pair_inj (heq : word o ++ word q = word o' ++ word q') : o = o' ∧ q = q' := by
  obtain ⟨ho, hq, -⟩ := range_inj h h' hl hl' (congrArg (· ++ []) heq)
  exact ⟨ho, hq⟩

end

theorem length_slice {α : Type} (table : Nat → α) (o q : Nat) : (slice table o q).length = q := by
  simp [slice]

theorem length_registerData (l : List UInt16) : (registerData l).length = l.length * 2 := by
  simp [registerData, word]

theorem words_registerData : ∀ l : List UInt16, words (registerData l) = l.map UInt16.toNat
  | [] => rfl
  | v :: l => by
    show words (byte (v.toNat / 256) :: byte (v.toNat % 256) :: registerData l) = _
    rw [words, number_word v.toNat_lt, words_registerData l, map_cons]

theorem registerData_inj {l l' : List UInt16} (h : registerData l = registerData l') : l = l' := by
  have hwords := congrArg words h
  rw [words_registerData, words_registerData] at hwords
  exact map_injective_iff.mpr (fun _ _ => UInt16.toNat_inj.mp) hwords

theorem registersBytes_registers : ∀ l : List UInt16, registersBytes (registers l) = .ok (registerData l)
  | [] => rfl
  | v :: l => by
    show registersBytes (.int v.toNat :: registers l) = _
    rw [registersBytes, registersBytes_registers l]
    rfl

theorem map_truthy_coils (l : List Bool) : (coils l).map truthy = l := by
  simp [coils, Function.comp_def, truthy]

variable {data : Bytes}

theorem Packed.read {values : List Bool} (h : Packed data values) :
    (range values.length).map (bit data) = values := by
  refine ext_getElem (by simp) fun i hi _ => ?_
  have hlt : i < values.length := by simpa using hi
  rw [getElem_map, getElem_range, h.value i hlt, getD_eq_getElem _ _ hlt]

theorem packed_packBits (values : List Bool) : Packed (packBits values) values where
  length := length_packBits values
  value i _ := bit_packBits values i
  padding i hi := by rw [bit_packBits, getD_eq_default _ _ hi]

theorem Packed.unique {v w : List Bool} (hv : Packed data v) (hw : Packed data w)
    (h : v.length = w.length) : v = w := by
  rw [← hv.read, ← hw.read, h]

variable {a : Address}

theorem inRange {limit : Nat} (ha : a.Admitted) (hq : a.quantity ≤ limit) :
    InRange limit a.offset a.quantity :=
  ⟨ha.quantity.1, hq, ha.range⟩

/-! ## The answer to a command -/

section

variable {c : Command} {m after : Memory} {payload answer : Bytes}

theorem exists_pdu (hc : c.Valid) :
    ∃ payload, pdu c = .ok payload ∧ 1 ≤ payload.length ∧ payload.length ≤ 253 := by
  cases hc with
  | readBits hf ha | readRegisters hf ha hq =>
    rcases hf with rfl | rfl <;> exact ⟨_, rfl, by simp, by simp [word]⟩
  | writeCoil ha hq | writeRegister ha hq => exact ⟨_, rfl, by simp, by simp [word]⟩
  | @writeCoils a l ha hl hq =>
    refine ⟨_, rfl, by simp, ?_⟩
    simp only [word, cons_append, nil_append, length_cons, length_packBits, length_map, coils]
    omega
  | @writeRegisters a l ha hl hq =>
    refine ⟨16 :: word a.offset ++ word a.quantity ++ byte (registerData l).length :: registerData l,
      ?_, by simp, ?_⟩
    · simp [pdu, registersBytes_registers]
    · simp only [word, cons_append, nil_append, length_cons, length_registerData]
      omega

theorem exists_answer (hc : c.Valid) (hp : pdu c = .ok payload) (m : Memory) :
    ∃ answer after, Answers m payload answer after := by
  cases hc with
  | readBits hf ha =>
    rcases hf with rfl | rfl <;> cases hp
    · exact ⟨_, _, .readCoils (inRange ha ha.quantity.2) (packed_packBits _)⟩
    · exact ⟨_, _, .readDiscreteInputs (inRange ha ha.quantity.2) (packed_packBits _)⟩
  | readRegisters hf ha hq =>
    rcases hf with rfl | rfl <;> cases hp
    · exact ⟨_, _, .readHoldingRegisters (inRange ha hq)⟩
    · exact ⟨_, _, .readInputRegisters (inRange ha hq)⟩
  | writeCoil ha hq =>
    cases hp
    exact ⟨_, _, .writeCoil (Nat.lt_succ_of_le ha.offset)⟩
  | writeRegister ha hq =>
    cases hp
    exact ⟨_, _, .writeRegister (Nat.lt_succ_of_le ha.offset)⟩
  | @writeCoils a l ha hl hq =>
    cases hp
    rw [map_truthy_coils]
    exact ⟨_, _, .writeCoils (inRange ha hq) hl (packed_packBits l)⟩
  | @writeRegisters a l ha hl hq =>
    simp only [pdu, registersBytes_registers] at hp
    cases hp
    rw [length_registerData, hl]
    exact ⟨_, _, .writeRegisters (inRange ha hq) hl⟩

theorem matches_bits {table : Nat → Bool} {f : Nat} (hf : f = 1 ∨ f = 2)
    (hp : Packed data (slice table a.offset a.quantity)) :
    Matches ⟨f, a, []⟩ (byte f :: byte data.length :: data) (.bits (slice table a.offset a.quantity)) := by
  have hlen := hp.length
  have hread := hp.read
  have hpad := hp.padding
  rw [length_slice] at hlen hread hpad
  have hm : Matches ⟨f, a, []⟩ _ _ := .bits hf hlen hpad
  rw [← hread, hlen]
  exact hm

theorem matches_registers {table : Nat → UInt16} {f : Nat} (hf : f = 3 ∨ f = 4) : Matches ⟨f, a, []⟩
      (byte f :: byte (a.quantity * 2) :: registerData (slice table a.offset a.quantity))
      (.registers ((slice table a.offset a.quantity).map UInt16.toNat)) := by
  rw [← words_registerData]
  exact .registers hf (by rw [length_registerData, length_slice])

/-- **What the answer to a valid command says and does.** -/
theorem answers_exact (hc : c.Valid) (hp : pdu c = .ok payload) (h : Answers m payload answer after) :
    ∃ r, Matches c answer r ∧ Effect c m r after := by
  -- every other constructor answers another function code
  cases hc with
  | @readBits f a hf ha =>
    rcases hf with rfl | rfl
    · have hp : (1 : UInt8) :: (word a.offset ++ word a.quantity) = payload := Outcome.ok.inj hp
      cases h with
      | readCoils hr hpacked =>
        obtain ⟨rfl, rfl⟩ := pair_inj (inRange ha ha.quantity.2) hr (by decide) (by decide) (cons.inj hp).2
        exact ⟨_, matches_bits (.inl rfl) hpacked, .readCoils rfl⟩
      | _ => exact absurd (cons.inj hp).1 (by decide)
    · have hp : (2 : UInt8) :: (word a.offset ++ word a.quantity) = payload := Outcome.ok.inj hp
      cases h with
      | readDiscreteInputs hr hpacked =>
        obtain ⟨rfl, rfl⟩ := pair_inj (inRange ha ha.quantity.2) hr (by decide) (by decide) (cons.inj hp).2
        exact ⟨_, matches_bits (.inr rfl) hpacked, .readDiscreteInputs rfl⟩
      | _ => exact absurd (cons.inj hp).1 (by decide)
  | @readRegisters f a hf ha hq =>
    rcases hf with rfl | rfl
    · have hp : (3 : UInt8) :: (word a.offset ++ word a.quantity) = payload := Outcome.ok.inj hp
      cases h with
      | readHoldingRegisters hr =>
        obtain ⟨rfl, rfl⟩ := pair_inj (inRange ha hq) hr (by decide) (by decide) (cons.inj hp).2
        exact ⟨_, matches_registers (.inl rfl), .readHoldingRegisters rfl⟩
      | _ => exact absurd (cons.inj hp).1 (by decide)
    · have hp : (4 : UInt8) :: (word a.offset ++ word a.quantity) = payload := Outcome.ok.inj hp
      cases h with
      | readInputRegisters hr =>
        obtain ⟨rfl, rfl⟩ := pair_inj (inRange ha hq) hr (by decide) (by decide) (cons.inj hp).2
        exact ⟨_, matches_registers (.inr rfl), .readInputRegisters rfl⟩
      | _ => exact absurd (cons.inj hp).1 (by decide)
  | @writeCoil a v ha hq =>
    have hpdu : (5 : UInt8) :: (word a.offset ++ word (if v then 0xFF00 else 0)) = payload :=
      Outcome.ok.inj hp
    cases h with
    | @writeCoil o w ho =>
      obtain ⟨rfl, hv⟩ := word_append_inj (Nat.lt_succ_of_le ha.offset) ho (cons.inj hpdu).2
      obtain rfl : v = w := by
        revert hv
        cases v <;> cases w <;> decide
      exact ⟨.written, .echo (.inl rfl) hp, .writeCoils (.inl rfl) rfl⟩
    | _ => exact absurd (cons.inj hpdu).1 (by decide)
  | @writeRegister a v ha hq =>
    have hpdu : (6 : UInt8) :: (word a.offset ++ word v.toNat) = payload := Outcome.ok.inj hp
    cases h with
    | @writeRegister o w ho =>
      obtain ⟨rfl, hv⟩ := word_append_inj (Nat.lt_succ_of_le ha.offset) ho (cons.inj hpdu).2
      obtain rfl : v = w := UInt16.toNat_inj.mp (word_inj v.toNat_lt w.toNat_lt hv)
      exact ⟨.written, .echo (.inr rfl) hp, .writeRegisters (.inl rfl) rfl⟩
    | _ => exact absurd (cons.inj hpdu).1 (by decide)
  | @writeCoils a l ha hl hq =>
    have hpdu : (15 : UInt8) :: (word a.offset ++ word a.quantity ++ byte (packBits l).length ::
        packBits l) = payload := by
      have hok := Outcome.ok.inj hp
      rwa [map_truthy_coils] at hok
    cases h with
    | @writeCoils o q data values hr hl' hpacked =>
      obtain ⟨rfl, rfl, hdata⟩ := range_inj (inRange ha hq) hr (by decide) (by decide) (cons.inj hpdu).2
      obtain rfl := (cons.inj hdata).2
      obtain rfl := (packed_packBits l).unique hpacked (hl.trans hl'.symm)
      exact ⟨.written, .range (.inl rfl), .writeCoils (.inr rfl) rfl⟩
    | _ => exact absurd (cons.inj hpdu).1 (by decide)
  | @writeRegisters a l ha hl hq =>
    have hpdu : (16 : UInt8) :: (word a.offset ++ word a.quantity ++
        byte (registerData l).length :: registerData l) = payload := by
      simp only [pdu, registersBytes_registers] at hp
      exact Outcome.ok.inj hp
    cases h with
    | @writeRegisters o q values hr hl' =>
      obtain ⟨rfl, rfl, hdata⟩ := range_inj (inRange ha hq) hr (by decide) (by decide) (cons.inj hpdu).2
      obtain rfl := registerData_inj (cons.inj hdata).2
      exact ⟨.written, .range (.inr rfl), .writeRegisters (.inr rfl) rfl⟩
    | _ => exact absurd (cons.inj hpdu).1 (by decide)

end

theorem slice_overwrite {α : Type} (table : Nat → α) (o : Nat) (l : List α) :
    slice (overwrite table o l) o l.length = l := by
  refine ext_getElem (by simp [slice]) fun i hi _ => ?_
  have hlt : i < l.length := by simpa [slice] using hi
  simp [slice, overwrite, hlt]

/-- A command that writes coils. -/
def toCoils (c : Command) : Prop := c.function = 5 ∨ c.function = 15

instance (c : Command) : Decidable (toCoils c) := inferInstanceAs (Decidable (_ ∨ _))

/-- The read of the range a command writes. -/
def readBack (c : Command) : Command := ⟨if toCoils c then 1 else 3, c.address, []⟩

/-- The number of a register value. -/
def registerValue : Item → Nat
  | .int n => n
  | _ => 0

/-- The list a command writes, as a read returns it. -/
def writtenValues (c : Command) : Reply :=
  if toCoils c then .bits (c.values.map truthy) else .registers (c.values.map registerValue)

section

variable {c : Command} {m after : Memory} {r : Reply}

section

variable (hc : c.Valid) (hw : 5 ≤ c.function)
include hc hw

theorem readBack_valid : (readBack c).Valid := by
  cases hc with
  | readBits hf => dsimp only at hw; omega
  | readRegisters hf => dsimp only at hw; omega
  | writeCoil ha _ | writeCoils ha _ _ => exact .readBits (.inl rfl) ha
  | writeRegister ha hq => exact .readRegisters (.inl rfl) ha (by rw [hq]; decide)
  | writeRegisters ha _ hq => exact .readRegisters (.inl rfl) ha (le_trans hq (by decide))

theorem length_values : c.values.length = c.address.quantity := by
  cases hc with
  | readBits hf => dsimp only at hw; omega
  | readRegisters hf => dsimp only at hw; omega
  | writeCoil _ hq => exact hq.symm
  | writeRegister _ hq => exact hq.symm
  | writeCoils _ hl _ => simpa [coils] using hl
  | writeRegisters _ hl _ => simpa [registers] using hl

/-- **A written list is what its range holds afterwards.** -/
theorem effect_readBack (h : Effect c m r after) :
    r = .written ∧ Effect (readBack c) after (writtenValues c) after := by
  have hlen := length_values hc hw
  cases h with
  | readCoils hf => omega
  | readDiscreteInputs hf => omega
  | readHoldingRegisters hf => omega
  | readInputRegisters hf => omega
  | @writeCoils l hf hv =>
    have hto : toCoils c := hf
    have hread : Effect (readBack c) { m with coils := overwrite m.coils c.address.offset l } _ _ :=
      .readCoils (by rw [readBack, if_pos hto])
    refine ⟨rfl, ?_⟩
    rw [hv, coils, length_map] at hlen
    rw [writtenValues, if_pos hto, hv, map_truthy_coils]
    rwa [show (readBack c).address = c.address from rfl, ← hlen, slice_overwrite] at hread
  | @writeRegisters l hf hv =>
    have hnot : ¬ toCoils c := by
      rintro (h | h) <;> omega
    have hread : Effect (readBack c)
        { m with holdingRegisters := overwrite m.holdingRegisters c.address.offset l } _ _ :=
      .readHoldingRegisters (by rw [readBack, if_neg hnot])
    refine ⟨rfl, ?_⟩
    rw [hv, registers, length_map] at hlen
    rw [writtenValues, if_neg hnot, hv, registers, map_map]
    rwa [show (readBack c).address = c.address from rfl, ← hlen, slice_overwrite] at hread

end

theorem unitId_le (hc : c.Valid) : c.address.unitId ≤ 255 := by
  have hunit : c.address.Admitted := by cases hc <;> assumption
  have := hunit.unitId
  omega

end

/-- **Reads and writes mean what they say.** -/
theorem exchanged (c : Command) (t : Nat) (m : Memory) (hc : c.validate = .ok ()) (ht : t ≤ 65535) :
    -- a server has an answer to the encoded command, and each one comes to the effect of the command
    (∃ request, encode c t = .ok request ∧ (∃ reply after, Serves m request reply after) ∧
      ∀ reply after, Serves m request reply after → ∀ chunks : List Bytes, chunks.flatten = reply →
        ∃ r, receive c t [] chunks = some (.ok r) ∧ Effect c m r after) ∧
    -- a read of the range that was written is a valid command and returns the list
    (5 ≤ c.function → (readBack c).validate = .ok () ∧ ∀ r after, Effect c m r after →
      r = .written ∧ Effect (readBack c) after (writtenValues c) after) ∧
    -- a frame is received as its response however it is split, and accepted only if it is an answer
    (∀ data frame, decode data = .take frame [] →
      (∀ chunks : List Bytes, chunks.flatten = data → receive c t [] chunks = some (response frame c t)) ∧
      ∀ r, response frame c t = .ok r → frame.transactionId = t ∧
        frame.unitId = c.address.unitId ∧ Matches c frame.pdu r) := by
  have hvalid := validate_iff.mp hc
  have hreceive : ∀ data frame, decode data = .take frame [] → ∀ chunks : List Bytes,
      chunks.flatten = data → receive c t [] chunks = some (response frame c t) := by
    rintro data frame hdata chunks rfl
    rw [← respond_nil]
    exact receive_frame rfl hdata (length_of_decode hdata)
  refine ⟨?_, fun hw => ?_, fun data frame hdata => ⟨hreceive data frame hdata, fun r hr => ?_⟩⟩
  · obtain ⟨payload, hpdu, h1, h253⟩ := exists_pdu hvalid
    have hunit := unitId_le hvalid
    refine ⟨adu t c.address.unitId payload, ?_, ?_, ?_⟩
    · simp [encode, if_pos ht, hc, hpdu]
    · obtain ⟨answer, after, hanswer⟩ := exists_answer hvalid hpdu m
      exact ⟨_, after, t, _, payload, answer, ht, hunit, rfl, rfl, hanswer⟩
    · rintro reply after ⟨t', unit, payload', answer, ht', hunit', hrequest, rfl, hanswer⟩ chunks hchunks
      obtain ⟨rfl, rfl, rfl⟩ := adu_inj ht ht' hunit hunit' hrequest
      obtain ⟨r, hmatches, heffect⟩ := answers_exact hvalid hpdu hanswer
      obtain ⟨h3, h253⟩ := hmatches.length hvalid
      have hdecode := decode_adu ht hunit (show 1 ≤ answer.length by omega) h253
      refine ⟨r, ?_, heffect⟩
      rw [hreceive _ _ hdecode chunks hchunks]
      exact congrArg some (response_eq_ok.mpr ⟨hvalid, rfl, ht, rfl, hmatches⟩)
  · exact ⟨validate_iff.mpr (readBack_valid hvalid hw), fun r after h => effect_readBack hvalid hw h⟩
  · obtain ⟨-, htid, -, hunit, hm⟩ := response_eq_ok.mp hr
    exact ⟨htid, hunit, hm⟩

/-- Three lamps are switched: on, off, on. -/
def switchLamps : Command := ⟨15, ⟨19, 3, 1⟩, coils [true, false, true]⟩

/-- All coils are off, all registers zero. -/
def dark : Memory := ⟨fun _ => false, fun _ => false, fun _ => 0, fun _ => 0⟩

theorem lamps_exchanged : switchLamps.validate = .ok () ∧ ∃ request, encode switchLamps 7 = .ok request ∧
    ∀ reply after, Serves dark request reply after → ∃ r,
      receive switchLamps 7 [] [reply.take 8, reply.drop 8] = some (.ok r) ∧
        Effect switchLamps dark r after := by
  obtain ⟨request, hencode, -, hexchange⟩ := (exchanged switchLamps 7 dark (by decide) (by decide)).1
  refine ⟨by decide, request, hencode, fun reply after h => ?_⟩
  exact hexchange reply after h [reply.take 8, reply.drop 8] (by simp)

end Wotex.Modbus
