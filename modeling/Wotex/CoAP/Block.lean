import Wotex.CoAP.Codec

/-!
# Block options (`block.ex`)

A block option is a block number, a flag for more blocks and a size, which is a power of two from 16
to 1024. The size is written as an exponent in three bits, of which 7 is reserved.
-/

namespace Wotex.CoAP

structure Block where
  number : Nat
  more : Bool
  size : Nat
  deriving DecidableEq

namespace Block

/-- The sizes of a block. -/
def sizes : List Nat := [16, 32, 64, 128, 256, 512, 1024]

/-- `block.ex:30-39`. -/
def decode (data : Bytes) : Result Block :=
  if data.length ≤ 3 then
    let value := data.unsigned
    let szx := value % 8
    if szx = 7 then failure .invalidBlockSize
    else .ok ⟨value / 16, decide (value / 8 % 2 = 1), 16 * 2 ^ szx⟩
  else failure .invalidBlock

/-- The number, the flag and the exponent as one integer; their bits do not overlap. -/
def value (b : Block) : Nat := b.number * 16 + (if b.more then 8 else 0) + sizes.findIdx (· = b.size)

def encode (b : Block) : Result Bytes :=
  if b.number ≤ 1048575 ∧ b.size ∈ sizes then .ok (Bytes.uint b.value) else failure .invalidBlock

/-- `append/4`: the longer body, and whether more blocks follow. -/
def append (acc : Bytes) (b : Block) (payload : Bytes) (limit : Nat) : Result (Bytes × Bool) := do
  let _ ← b.encode
  check (decide (b.number * b.size = acc.length)) .blockOutOfOrder
  check (!(decide (b.size < payload.length)
    || (b.more && decide (payload.length ≠ b.size)))) .invalidBlockPayload
  check (decide (acc.length + payload.length ≤ limit)) .bodyLimit
  .ok (acc ++ payload, b.more)

theorem size_pos {s : Nat} (h : s ∈ sizes) : 0 < s := by
  simp only [sizes, List.mem_cons, List.not_mem_nil, or_false] at h
  omega

theorem size_dvd {s t : Nat} (hs : s ∈ sizes) (ht : t ∈ sizes) (h : s ≤ t) : s ∣ t := by
  simp only [sizes, List.mem_cons, List.not_mem_nil, or_false] at hs ht
  rcases hs with rfl | rfl | rfl | rfl | rfl | rfl | rfl <;>
    rcases ht with rfl | rfl | rfl | rfl | rfl | rfl | rfl <;> first | decide | omega

variable {b : Block}

theorem decode_ok {data : Bytes} (h : decode data = .ok b) : b.size ∈ sizes := by
  unfold decode at h
  split at h
  · dsimp only at h
    split at h
    · cases h
    · cases h
      have h7' : data.unsigned % 8 < 7 := by omega
      dsimp only
      generalize data.unsigned % 8 = szx at h7'
      interval_cases szx <;> decide
  · cases h

theorem encode_eq_ok {v : Bytes} : encode b = .ok v ↔
    b.number ≤ 1048575 ∧ b.size ∈ sizes ∧ v = Bytes.uint b.value := by
  unfold encode
  split
  · rename_i h
    exact ⟨fun e => ⟨h.1, h.2, (Outcome.ok.inj e).symm⟩, fun e => by rw [e.2.2]⟩
  · rename_i h
    exact ⟨fun e => by simp [failure] at e, fun e => absurd ⟨e.1, e.2.1⟩ h⟩

theorem findIdx_size {s : Nat} (h : s ∈ sizes) :
    sizes.findIdx (· = s) < 7 ∧ 16 * 2 ^ sizes.findIdx (· = s) = s := by
  simp only [sizes, List.mem_cons, List.not_mem_nil, or_false] at h
  rcases h with rfl | rfl | rfl | rfl | rfl | rfl | rfl <;> decide

/-- **An encoded block decodes.** -/
theorem decode_of_encode {v : Bytes} (h : encode b = .ok v) : decode v = .ok b := by
  obtain ⟨hn, hs, rfl⟩ := encode_eq_ok.mp h
  obtain ⟨hlt, hpow⟩ := findIdx_size hs
  have hlen : (Bytes.uint b.value).length ≤ 3 := by
    refine Bytes.length_uint_le ?_
    unfold value
    split <;> omega
  have h8 : b.value % 8 = sizes.findIdx (· = b.size) := by
    unfold value
    split <;> omega
  have h16 : b.value / 16 = b.number := by
    unfold value
    split <;> omega
  have hmore : decide (b.value / 8 % 2 = 1) = b.more := by
    unfold value
    cases b.more
    · simp only [Bool.false_eq_true, if_false, decide_eq_false_iff_not]
      omega
    · simp only [if_true, decide_eq_true_eq]
      omega
  rw [decode, if_pos hlen]
  dsimp only
  rw [Bytes.unsigned_uint, h8, if_neg (by omega), h16, hmore, hpow]

theorem append_eq_ok {acc payload body : Bytes} {limit : Nat} {more : Bool} :
    append acc b payload limit = .ok (body, more) ↔
      b.number ≤ 1048575 ∧ b.size ∈ sizes ∧ b.number * b.size = acc.length
      ∧ payload.length ≤ b.size ∧ (b.more = true → payload.length = b.size)
      ∧ acc.length + payload.length ≤ limit ∧ body = acc ++ payload ∧ more = b.more := by
  simp only [append, bind_eq_ok, exists_unit, encode_eq_ok, check_eq_ok, decide_eq_true_eq, Bool.not_eq_true',
    Bool.or_eq_false_iff, decide_eq_false_iff_not, not_lt, Bool.and_eq_false_iff, not_not, Outcome.ok.injEq,
    Prod.mk.injEq]
  constructor
  · rintro ⟨v, ⟨hn, hs, -⟩, ho, ⟨hp, hm⟩, hl, rfl, rfl⟩
    exact ⟨hn, hs, ho, hp, fun h => hm.resolve_left (by simp [h]), hl, rfl, rfl⟩
  · rintro ⟨hn, hs, ho, hp, hm, hl, rfl, rfl⟩
    refine ⟨_, ⟨hn, hs, rfl⟩, ho, ⟨hp, ?_⟩, hl, rfl, rfl⟩
    cases hb : b.more
    · exact .inl rfl
    · exact .inr (hm hb)

end Block

end Wotex.CoAP
