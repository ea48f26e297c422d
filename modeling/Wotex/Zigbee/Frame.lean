import Wotex.Term.Bytes
import Wotex.Term.Scanner
import Wotex.Zigbee.Error

/-!
# Monitor/Test UART frames (`frame.ex`)

A frame is `0xFE`, the length of its payload, two command bytes, the payload and an exclusive-or checksum.
`feed/3` parses a chunk behind the tail that earlier chunks left: it skips bytes up to the next start byte,
drops a start byte whose length, type or checksum is wrong, and keeps an incomplete frame. Every byte it
drops is one fault.

`parse/3` recurs on ever shorter input; `parse` here has the number of rounds as its first argument, and
one more than the number of bytes is enough. `parse_frame/3` is `parseFrame` for one round.

* `parse_scan`: the parser is a scanner whose outputs are frames and dropped bytes.
* `chunks_parsed`: **feeding chunks is parsing the whole stream at once**, and the concatenation of encoded
  frames is parsed to these frames without a fault.
-/

namespace Wotex.Zigbee

open List

/-- `type`. -/
inductive FrameType where
  | sreq | srsp | areq
  deriving DecidableEq

structure Frame where
  type : FrameType
  subsystem : Nat
  id : Nat
  payload : Bytes
  deriving DecidableEq

namespace Frame

open Scanning

/-! ## The codec -/

def typeBits : FrameType → UInt8
  | .sreq => 0x20
  | .areq => 0x40
  | .srsp => 0x60

def typeFromBits (bits : UInt8) : Option FrameType :=
  if bits = 0x20 then some .sreq
  else if bits = 0x40 then some .areq
  else if bits = 0x60 then some .srsp
  else none

def checksum (bytes : Bytes) : UInt8 := bytes.foldl (fun acc b => b ^^^ acc) 0

variable (length cmd0 id : UInt8) (payload : Bytes)

/-- The bytes between the start byte and the checksum. -/
def body : Bytes := length :: cmd0 :: id :: payload

/-- The bytes of a frame between its start byte and its checksum. -/
def bytes (f : Frame) : Bytes :=
  body (byte f.payload.length) (typeBits f.type ||| byte f.subsystem) (byte f.id) f.payload

def encode (f : Frame) : Result Bytes :=
  if f.subsystem ≤ 31 ∧ f.id ≤ 255 ∧ f.payload.length ≤ 250 then
    .ok (0xFE :: (f.bytes ++ [checksum f.bytes]))
  else .refuse ⟨.invalidFrame, .encode⟩

/-- The frame of a type and a checksum that are right. -/
def checked (fcs : UInt8) : Option Frame :=
  match typeFromBits (cmd0 &&& 0xE0), decide (checksum (body length cmd0 id payload) = fcs) with
  | some type, true => some ⟨type, (cmd0 &&& 0x1F).toNat, id.toNat, payload⟩
  | _, _ => none

/-- What `parse/3` does at a start byte, for one round: wait for more bytes, take a frame off, or drop the
start byte. -/
def parseFrame (bytes : Bytes) : Decision UInt8 (Option Frame) :=
  match bytes with
  | _ :: length :: cmd0 :: id :: tail =>
    if tail.length + 4 < 5 then .wait
    else if 250 < length.toNat then .take none (length :: cmd0 :: id :: tail)
    else
      -- `byte_size(tail) < length + 1` where nothing is left behind the payload
      match tail.drop length.toNat with
      | [] => .wait
      | fcs :: rest =>
        match checked length cmd0 id (tail.take length.toNat) fcs with
        | some frame => .take (some frame) rest
        | none => .take none (length :: cmd0 :: id :: tail)
  | _ => .wait

/-- `parse/3`, with the rounds it may take. -/
def parse : Nat → Bytes → List Frame → Nat → List Frame × Bytes × Nat
  | 0, bytes, frames, faults => (frames.reverse, bytes, faults)
  | _ + 1, [], frames, faults => (frames.reverse, [], faults)
  | fuel + 1, b :: bytes, frames, faults =>
    match (b :: bytes).idxOf? 0xFE with
    | none => (frames.reverse, [], faults + (b :: bytes).length)
    | some (offset + 1) =>
      parse fuel ((b :: bytes).drop (offset + 1)) frames (faults + (offset + 1))
    | some 0 =>
      match parseFrame (b :: bytes) with
      | .take (some frame) rest => parse fuel rest (frame :: frames) faults
      | .take none rest => parse fuel rest frames (faults + 1)
      | _ => (frames.reverse, b :: bytes, faults)

/-- `feed/3`: the frames, the tail and the faults. -/
def feed (buffer chunk : Bytes) (maxBuffer : Nat) : Result (List Frame × Bytes × Nat) :=
  if 5 ≤ maxBuffer ∧ buffer.length + chunk.length ≤ maxBuffer then
    .ok (parse ((buffer ++ chunk).length + 1) (buffer ++ chunk) [] 0)
  else .refuse ⟨.overload, .feed⟩

/-- `feed/3` over one chunk after the other, each behind the tail of those before it. -/
def feedAll (maxBuffer : Nat) : Bytes → List Bytes → Result (List Frame × Bytes × Nat)
  | buffer, [] => .ok ([], buffer, 0)
  | buffer, chunk :: chunks => do
    let first ← feed buffer chunk maxBuffer
    let rest ← feedAll maxBuffer first.2.1 chunks
    .ok (first.1 ++ rest.1, rest.2.1, first.2.2 + rest.2.2)

/-! ## The parser as a scanner -/

/-- One decision of the parser, a byte that is no start byte dropped on its own. -/
def decision : Bytes → Decision UInt8 (Option Frame)
  | [] => .wait
  | b :: bytes => if b = 0xFE then parseFrame (b :: bytes) else .take none bytes

variable {l rest : Bytes} {o : Option Frame}

theorem parseFrame_shrinks (h : parseFrame l = .take o rest) : rest.length < l.length := by
  unfold parseFrame at h
  split at h
  · rename_i length cmd0 id tail
    split_ifs at h
    · cases h
      simp
    · split at h
      · cases h
      · rename_i fcs rest' hdrop
        have hlen : (tail.drop length.toNat).length = rest'.length + 1 := by rw [hdrop]; rfl
        rw [length_drop] at hlen
        split at h <;> cases h
        · simp only [length_cons]
          omega
        · simp
  · cases h

theorem parseFrame_append (m : Bytes)
    (h : parseFrame l = .take o rest) : parseFrame (l ++ m) = .take o (rest ++ m) := by
  unfold parseFrame at h
  split at h
  · rename_i length cmd0 id tail
    rw [cons_append, cons_append, cons_append, cons_append, parseFrame]
    split_ifs at h with hshort hlong
    · cases h
      rw [if_neg (by rw [length_append]; omega), if_pos hlong]
      rfl
    · rw [if_neg (by rw [length_append]; omega), if_neg hlong]
      split at h
      · cases h
      · rename_i fcs rest' hdrop
        have hle : length.toNat ≤ tail.length := by
          have hlen := congrArg List.length hdrop
          rw [length_drop, length_cons] at hlen
          omega
        rw [take_append_of_le_length hle, drop_append_of_le_length hle, hdrop, cons_append]
        dsimp only
        split at h <;> cases h <;> rfl
  · cases h

theorem parseFrame_ne_refuse (l : Bytes) : parseFrame l ≠ .refuse := by
  unfold parseFrame
  repeat' split
  all_goals simp

/-- The parser as a scanner. -/
def scanner : Scanner UInt8 (Option Frame) where
  decide := decision
  shrinks {l o rest} h := by
    cases l with
    | nil => cases h
    | cons b bytes =>
      rw [decision] at h
      split_ifs at h
      · exact parseFrame_shrinks h
      · cases h
        simp
  take_append {l o rest} m h := by
    cases l with
    | nil => cases h
    | cons b bytes =>
      rw [cons_append]
      rw [decision] at h ⊢
      split_ifs at h ⊢
      · exact parseFrame_append m h
      · cases h
        rfl
  refuse_append {l} m h := by
    cases l with
    | nil => cases h
    | cons b bytes =>
      rw [decision] at h
      split_ifs at h
      exact absurd h (parseFrame_ne_refuse _)

variable (outputs : List (Option Frame))

/-- The frames among the outputs. -/
def framesOf : List Frame := outputs.filterMap fun o => o

/-- The bytes that were dropped. -/
def faultsOf : Nat := outputs.countP Option.isNone

@[simp] theorem framesOf_nil : framesOf [] = [] := rfl

variable (f : Frame) (o : List (Option Frame))

@[simp] theorem framesOf_some : framesOf (some f :: o) = f :: framesOf o := rfl

@[simp] theorem framesOf_none (o : List (Option Frame)) : framesOf (none :: o) = framesOf o := rfl

variable (n : Nat) (o : List (Option Frame))

@[simp] theorem framesOf_dropped : framesOf (replicate n none ++ o) = framesOf o := by
  simp [framesOf]

theorem framesOf_append (o p : List (Option Frame)) :
    framesOf (o ++ p) = framesOf o ++ framesOf p := filterMap_append

@[simp] theorem faultsOf_nil : faultsOf [] = 0 := rfl

@[simp] theorem faultsOf_some : faultsOf (some f :: o) = faultsOf o := by
  simp [faultsOf]

@[simp] theorem faultsOf_none (o : List (Option Frame)) : faultsOf (none :: o) = faultsOf o + 1 := by
  simp [faultsOf]

@[simp] theorem faultsOf_dropped : faultsOf (replicate n none ++ o) = n + faultsOf o := by
  simp [faultsOf, countP_replicate]

theorem faultsOf_append (o p : List (Option Frame)) :
    faultsOf (o ++ p) = faultsOf o + faultsOf p := countP_append

theorem decide_nil : scanner.decide [] = .wait := rfl

theorem scan_nil : scanner.scan [] = ([], some []) := Scanner.scan_wait decide_nil

theorem scan_garbage : ∀ {g : Bytes} (m : Bytes), 0xFE ∉ g →
    scanner.scan (g ++ m) = (replicate g.length none ++ (scanner.scan m).1, (scanner.scan m).2)
  | [], m, _ => rfl
  | b :: g, m, h => by
    have hb : b ≠ 0xFE := fun hb => h (hb ▸ mem_cons_self)
    have hd : scanner.decide (b :: g ++ m) = .take none (g ++ m) := by
      show decision (b :: (g ++ m)) = _
      rw [decision, if_neg hb]
    rw [Scanner.scan_take hd, scan_garbage m fun hg => h (mem_cons_of_mem _ hg)]
    rfl

theorem idxOf?_split {l : Bytes} {a : UInt8} {n : Nat} (h : l.idxOf? a = some n) :
    n < l.length ∧ a ∉ l.take n ∧ ∃ rest, l.drop n = a :: rest := by
  rw [idxOf?, findIdx?_eq_some_iff_getElem] at h
  obtain ⟨hn, ha, hbefore⟩ := h
  refine ⟨hn, fun hmem => ?_, l.drop (n + 1), ?_⟩
  · obtain ⟨i, hi, hai⟩ := mem_take_iff_getElem.mp hmem
    have hne := hbefore i (by omega)
    simp [hai] at hne
  · rw [drop_eq_getElem_cons hn, beq_iff_eq.mp ha]

/-- **The parser is the scanner**, its faults the bytes that were dropped. -/
theorem parse_scan : ∀ (fuel : Nat) (bytes : Bytes) (frames : List Frame) (faults : Nat),
    bytes.length < fuel → ∃ tail, (scanner.scan bytes).2 = some tail ∧
      parse fuel bytes frames faults = (frames.reverse ++ framesOf (scanner.scan bytes).1, tail,
          faults + faultsOf (scanner.scan bytes).1)
  | 0, _, _, _, h => absurd h (Nat.not_lt_zero _)
  | fuel + 1, [], frames, faults, _ => by
    rw [scan_nil]
    exact ⟨[], rfl, by simp [parse]⟩
  | fuel + 1, b :: bytes, frames, faults, h => by
    rw [parse]
    split
    · rename_i hnone
      have hscan := scan_garbage [] (idxOf?_eq_none_iff.mp hnone)
      rw [append_nil, scan_nil] at hscan
      rw [hscan]
      rw [framesOf_dropped, faultsOf_dropped]
      exact ⟨[], rfl, by simp⟩
    · rename_i offset hsome
      obtain ⟨hlt, hfree, -⟩ := idxOf?_split hsome
      have hscan := scan_garbage ((b :: bytes).drop (offset + 1)) hfree
      rw [take_append_drop, length_take_of_le (by omega)] at hscan
      obtain ⟨tail, htail, hparse⟩ := parse_scan fuel ((b :: bytes).drop (offset + 1)) frames
        (faults + (offset + 1)) (by rw [length_drop]; omega)
      refine ⟨tail, by rw [hscan]; exact htail, ?_⟩
      rw [hparse, hscan, framesOf_dropped, faultsOf_dropped, Nat.add_assoc]
    · rename_i hsome
      obtain ⟨-, -, rest, hrest⟩ := idxOf?_split hsome
      obtain rfl : b = 0xFE := by
        exact (cons.inj hrest).1
      have hd : scanner.decide (0xFE :: bytes) = parseFrame (0xFE :: bytes) := by
        show decision (0xFE :: bytes) = _
        rw [decision, if_pos rfl]
      cases hframe : parseFrame (0xFE :: bytes) with
      | wait =>
        rw [Scanner.scan_wait (hd.trans hframe)]
        exact ⟨_, rfl, by simp⟩
      | refuse => exact absurd hframe (parseFrame_ne_refuse _)
      | take o rest =>
        have hlt := parseFrame_shrinks hframe
        rw [Scanner.scan_take (hd.trans hframe)]
        cases o with
        | none =>
          obtain ⟨tail, htail, hparse⟩ := parse_scan fuel rest frames (faults + 1) (by omega)
          refine ⟨tail, htail, ?_⟩
          dsimp only
          rw [hparse, faultsOf_none]
          congr 2
          omega
        | some f =>
          obtain ⟨tail, htail, hparse⟩ := parse_scan fuel rest (f :: frames) faults (by omega)
          refine ⟨tail, htail, ?_⟩
          dsimp only
          rw [hparse, reverse_cons, append_assoc]
          rfl

theorem feed_eq {buffer chunk : Bytes} {maxBuffer : Nat} (h5 : 5 ≤ maxBuffer)
    (hlen : buffer.length + chunk.length ≤ maxBuffer) :
    ∃ tail, (scanner.scan (buffer ++ chunk)).2 = some tail ∧ feed buffer chunk maxBuffer =
      .ok (framesOf (scanner.scan (buffer ++ chunk)).1, tail,
        faultsOf (scanner.scan (buffer ++ chunk)).1) := by
  obtain ⟨tail, htail, hparse⟩ := parse_scan _ _ [] 0 (Nat.lt_succ_self (buffer ++ chunk).length)
  refine ⟨tail, htail, ?_⟩
  rw [feed, if_pos ⟨h5, hlen⟩, hparse]
  simp

/-- Feeding chunks that stay within the limit is feeding the scanner. -/
theorem feedAll_scan {maxBuffer : Nat} : ∀ {chunks : List Bytes} {buffer : Bytes}
    {r : List Frame × Bytes × Nat}, feedAll maxBuffer buffer chunks = .ok r →
      r.1 = framesOf (scanner.feed buffer chunks).1 ∧ (scanner.feed buffer chunks).2 = some r.2.1 ∧
        r.2.2 = faultsOf (scanner.feed buffer chunks).1
  | [], buffer, r, h => by
    cases h
    exact ⟨rfl, rfl, rfl⟩
  | chunk :: chunks, buffer, r, h => by
    simp only [feedAll, bind_eq_ok] at h
    obtain ⟨first, hfirst, rest, hrest, h⟩ := h
    cases h
    have hlimit : 5 ≤ maxBuffer ∧ buffer.length + chunk.length ≤ maxBuffer := by
      by_contra hc
      rw [feed, if_neg hc] at hfirst
      cases hfirst
    obtain ⟨tail, htail, hfeed⟩ := feed_eq hlimit.1 hlimit.2
    obtain rfl := Outcome.ok.inj (hfeed.symm.trans hfirst)
    obtain ⟨hframes, hend, hfaults⟩ := feedAll_scan hrest
    have hstep : scanner.feed buffer (chunk :: chunks) =
        ((scanner.scan (buffer ++ chunk)).1 ++ (scanner.feed tail chunks).1,
          (scanner.feed tail chunks).2) := by
      rw [Scanner.feed, show scanner.scan (buffer ++ chunk) =
        ((scanner.scan (buffer ++ chunk)).1, some tail) from Prod.ext rfl htail]
    rw [hstep]
    rw [framesOf_append, faultsOf_append, hframes, hfaults]
    exact ⟨rfl, hend, rfl⟩

/-! ## Encoded frames -/

theorem typeFromBits_typeBits (t : FrameType) (n : Nat) (h : n ≤ 31) :
    typeFromBits ((typeBits t ||| byte n) &&& 0xE0) = some t ∧
      ((typeBits t ||| byte n) &&& 0x1F).toNat = n := by
  have hall : ∀ m : Fin 32, typeFromBits ((typeBits t ||| byte m) &&& 0xE0) = some t ∧
      ((typeBits t ||| byte m) &&& 0x1F).toNat = m := by
    cases t <;> decide
  exact hall ⟨n, by omega⟩

theorem decide_encoded {f : Frame} {b : Bytes} (h : encode f = .ok b) (m : Bytes) :
    scanner.decide (b ++ m) = .take (some f) m := by
  unfold encode at h
  split_ifs at h with hvalid
  obtain ⟨hsubsystem, hid, hpayload⟩ := hvalid
  cases h
  obtain ⟨htype, hsub⟩ := typeFromBits_typeBits f.type f.subsystem hsubsystem
  have hlen : (byte f.payload.length).toNat = f.payload.length := toNat_byte (by omega)
  have hframe : checked (byte f.payload.length) (typeBits f.type ||| byte f.subsystem) (byte f.id)
      f.payload (checksum f.bytes) = some f := by
    rw [checked, htype, bytes, decide_eq_true rfl]
    rw [hsub, toNat_byte (by omega)]
  show decision (0xFE :: (f.bytes ++ [checksum f.bytes] ++ m)) = _
  rw [append_assoc]
  show parseFrame (0xFE :: byte f.payload.length :: (typeBits f.type ||| byte f.subsystem) ::
    byte f.id :: (f.payload ++ checksum f.bytes :: m)) = _
  rw [parseFrame, if_neg (by rw [length_append, length_cons]; omega), hlen,
    if_neg (by omega), drop_left, take_left]
  dsimp only
  rw [hframe]

theorem scan_encoded : ∀ {fs : List Frame} {bs : List Bytes},
    List.Forall₂ (fun f b => encode f = .ok b) fs bs → scanner.scan bs.flatten = (fs.map some, some [])
  | _, _, .nil => scan_nil
  | _, _, .cons hf hrest => by
    rw [flatten_cons, Scanner.scan_take (decide_encoded hf _), scan_encoded hrest]
    rfl

/-! ## Chunk invariance -/

/-- **Serial framing is chunk-invariant.** Chunks that are fed within the buffer limit give the frames, the
tail and the faults of feeding the whole stream at once under any limit that admits it; and the concatenation
of encoded frames is parsed to these frames, with nothing left and no fault. -/
theorem chunks_parsed :
    (∀ (maxBuffer : Nat) (chunks : List Bytes) (r : List Frame × Bytes × Nat),
      feedAll maxBuffer [] chunks = .ok r → ∀ whole, 5 ≤ whole → chunks.flatten.length ≤ whole →
        feed [] chunks.flatten whole = .ok r) ∧
    (∀ (fs : List Frame) (bs : List Bytes), List.Forall₂ (fun f b => encode f = .ok b) fs bs →
      ∀ whole, 5 ≤ whole → bs.flatten.length ≤ whole → feed [] bs.flatten whole = .ok (fs, [], 0)) := by
  have hwhole : ∀ (stream : Bytes) (whole : Nat), 5 ≤ whole → stream.length ≤ whole →
      ∃ tail, (scanner.scan stream).2 = some tail ∧ feed [] stream whole =
        .ok (framesOf (scanner.scan stream).1, tail, faultsOf (scanner.scan stream).1) := by
    intro stream whole h5 hlen
    exact @feed_eq [] stream whole h5 (by rwa [length_nil, Nat.zero_add])
  refine ⟨fun maxBuffer chunks r hr whole h5 hlen => ?_, fun fs bs hfs whole h5 hlen => ?_⟩
  · obtain ⟨hframes, hend, hfaults⟩ := feedAll_scan hr
    obtain ⟨hsame, -, heq⟩ := Scanner.feed_scan chunks decide_nil
    obtain ⟨tail, htail, hfeed⟩ := hwhole chunks.flatten whole h5 hlen
    rw [nil_append] at hsame heq
    have htails : tail = r.2.1 := Option.some.inj (htail.symm.trans (hsame.symm.trans hend))
    rw [hfeed, ← heq (by rw [htail]; exact Option.some_ne_none _), ← hframes, ← hfaults, htails]
  · obtain ⟨tail, htail, hfeed⟩ := hwhole bs.flatten whole h5 hlen
    rw [scan_encoded hfs] at htail hfeed
    cases htail
    rw [hfeed]
    congr 1
    simp [framesOf, faultsOf]

/-- A reset request, `SYS_RESET_REQ`. -/
def reset : Frame := ⟨.areq, 1, 0, [0]⟩

/-- Two reset requests cut inside the second one, behind a stray byte. -/
theorem resets_parsed :
    feed [] [0x00, 0xFE, 1, 0x41, 0, 0, 0x40, 0xFE, 1, 0x41, 0, 0, 0x40] 4096 =
        .ok ([reset, reset], [], 1) ∧
      feed [] [0xFE, 1, 0x41, 0, 0, 0x40] 4096 = .ok ([reset], [], 0) :=
  ⟨chunks_parsed.1 13 [[0x00, 0xFE, 1], [0x41, 0, 0, 0x40, 0xFE, 1, 0x41], [0, 0, 0x40]]
      ([reset, reset], [], 1) (by decide +kernel) 4096 (by decide) (by decide),
    chunks_parsed.2 [reset] [[0xFE, 1, 0x41, 0, 0, 0x40]]
      (.cons (by decide +kernel) .nil) 4096 (by decide) (by decide)⟩

end Frame

end Wotex.Zigbee
