import Wotex.Runtime.Codec
import Wotex.Runtime.RoundTrip
import Wotex.Term.Scanner

/-!
# The process codec's line framing (`packages/wotex-runtime/lib/wotex/runtime/codec/wire.ex`)

A frame is one JSON object of a closed grammar, written on one line. `feed/2` splits what has arrived at
line feeds, under a limit on the length of a line and one on the bytes held. Every refusal is the one
`protocol_fault`, so the functions return an `Option`. `sha256` is the hash of `:crypto`.

* `split_scan`: the loop of `split/3` is the scanner that takes a line where there is a line feed within
  the limit. Its decision does not depend on what arrives later, which is all that chunk invariance needs
  (`Scanning.Scanner.feed_scan`).
* `feeds_scan`: a run of `feed/2` over admitted chunks is a run of that scanner; the checks of `valid?/1`
  and of the queue never fail in it.
* `decode_encode`: a written frame is one line and reads back, by the round trip of the JSON functions.
-/

namespace Wotex.Runtime

open Json (Value)
open List Scanning

section

variable (sha256 : Bytes → Bytes)

/-! ## The frame grammar -/

/-- `@frame`. -/
def maxFrame : Nat := 131072

/-- `@queue`. -/
def maxQueue : Nat := 262144

/-- `@json`. -/
def lineLimits : JSON.Limits := ⟨maxFrame - 1, 24, 4096, 256, 87384⟩

/-- `@identity`. -/
def identityKeys : List Text :=
  ["instance_id", "generation", "descriptor_sha256", "contract_id",
    "contract_sha256", "decode_ms", "configuration_sha256"]

/-- `@refusals`. -/
def refusals : List Text :=
  ["invalid_input", "unsupported_format", "unsupported_value",
    "output_limit"]

variable (value : Option Value)

def positive (max : Int) : Bool :=
  match value with
  | some (.num (.int i)) => decide (1 ≤ i ∧ i ≤ max)
  | _ => false

variable (frame : Value)

/-- `closed?/2`. -/
def closedFrame (keys : List Text) : Bool :=
  Grammar.closed frame ("v" :: "type" :: keys)

/-- `wire.ex:143-150`. -/
def identity : Bool :=
  Grammar.token (fetch frame "instance_id") &&
    positive (fetch frame "generation") JSON.safe &&
    Grammar.digest (fetch frame "descriptor_sha256") &&
    Grammar.token (fetch frame "contract_id") &&
    Grammar.digest (fetch frame "contract_sha256") &&
    positive (fetch frame "decode_ms") 1000 &&
    Grammar.digest (fetch frame "configuration_sha256")

/-- `wire.ex:137-141`. -/
def hello : Bool :=
  closedFrame frame ("configuration" :: identityKeys) && identity frame &&
    Codec.flat (fetch frame "configuration") &&
    match fetch frame "configuration" with
    | some configuration =>
      match JSON.digest sha256 configuration with
      | .ok digest => fetch frame "configuration_sha256" == some (.str digest)
      | _ => false
    | none => false

def requestId : Bool :=
  match value with
  | some (.str s) => decide (1 ≤ s.bytes ∧ s.bytes ≤ 256)
  | _ => false

def correlation (frame : Value) : Bool :=
  positive (fetch frame "seq") JSON.safe && requestId (fetch frame "request_id")

def decodedSize (value : Text) : Bool :=
  let padding :=
    if ['=', '='].isSuffixOf value then 2 else if ['='].isSuffixOf value then 1 else 0
  value.bytes % 4 == 0 && decide ((value.bytes * 3 / 4 : Int) - padding ≤ 65536)

/-- `wire.ex:165-177`. -/
def input : Bool :=
  match value with
  | none => false
  | some value =>
    match fetch value "type", fetch value "base64" with
    | some (.str type), some (.str text) =>
      type == "bytes" && decide (text.bytes ≤ 87384) &&
        Grammar.closed value ["type", "base64"] && decodedSize text &&
        match Base.decode64 .standard true text with
        | some decoded => decide (decoded.length ≤ 65536) && Base.encode64 .standard true decoded == text
        | none => false
    | _, _ => false

variable (frame : Value)

def decodeFrame : Bool :=
  closedFrame frame ["seq", "request_id", "budget_ms", "bytes", "metadata"] &&
    correlation frame && positive (fetch frame "budget_ms") 1000 &&
    input (fetch frame "bytes") && Codec.flat (fetch frame "metadata")

/-- The `result` clause. -/
def resultFrame : Bool :=
  closedFrame frame ["seq", "request_id", "value"] && correlation frame &&
    match fetch frame "value" with
    | some value => (Codec.validate value).toOption.isSome
    | none => false

/-- The `refusal` clause. -/
def refusalFrame : Bool :=
  closedFrame frame ["seq", "request_id", "code"] && correlation frame &&
    match fetch frame "code" with
    | some (.str code) => refusals.contains code
    | _ => false

/-- `frame?/1`. -/
def isFrame : Bool :=
  fetch frame "v" == some (.num (.int 1)) &&
    match fetch frame "type" with
    | some (.str type) =>
      if type = "hello" then hello sha256 frame
      else if type = "ready" then closedFrame frame identityKeys && identity frame
      else if type = "decode" then decodeFrame frame
      else if type = "result" then resultFrame frame
      else if type = "refusal" then refusalFrame frame
      else if type = "stop" then closedFrame frame []
      else false
    | _ => false

/-! ## Lines -/

/-- `wire.ex:53-66`. -/
def decode (bytes : Bytes) : Option Value :=
  if 2 ≤ bytes.length ∧ bytes.length ≤ maxFrame ∧ bytes.getLast? = some 10 ∧
      10 ∉ bytes.dropLast ∧ 13 ∉ bytes.dropLast then
    match JSON.decode lineLimits bytes.dropLast with
    | .ok frame => if isFrame sha256 frame then some frame else none
    | _ => none
  else none

/-- `wire.ex:70-74`. -/
def encode (frame : Value) : Option Bytes :=
  if isFrame sha256 frame then
    match JSON.encode lineLimits frame with
    | .ok body => some (body ++ [10])
    | _ => none
  else none

/-! ## The stream -/

/-- A partial frame and the limits of the stream. -/
structure Wire where
  buffer : Bytes
  frameBytes : Nat
  queueBytes : Nat
  deriving DecidableEq

namespace Wire

def new (frameBytes queueBytes : Nat) : Option Wire :=
  if 1 ≤ frameBytes ∧ frameBytes ≤ maxFrame ∧ 1 ≤ queueBytes ∧ queueBytes ≤ maxQueue then
    some ⟨[], frameBytes, queueBytes⟩
  else none

/-- `:binary.match(bytes, "\n")`. -/
def newline (bytes : Bytes) : Option Nat := bytes.findIdx? (· == 10)

def valid (w : Wire) : Bool :=
  decide (w.buffer.length < w.frameBytes) && decide (w.buffer.length ≤ w.queueBytes) &&
    (newline w.buffer).isNone && (new w.frameBytes w.queueBytes).isSome

/-- `split/3`; each turn takes at least one byte. -/
def split (limit : Nat) : Nat → Bytes → List Value → Option (List Value × Bytes)
  | 0, _, _ => none
  | fuel + 1, bytes, frames =>
    match newline bytes with
    | some index =>
      if index + 1 ≤ limit then
        match decode sha256 (bytes.take (index + 1)) with
        | some frame => split limit fuel (bytes.drop (index + 1)) (frame :: frames)
        | none => none
      else none
    | none => if bytes.length < limit then some (frames.reverse, bytes) else none

def feed (w : Wire) (chunk : Bytes) : Option (List Value × Wire) :=
  if w.valid && decide (w.buffer.length + chunk.length ≤ w.queueBytes) then
    let bytes := w.buffer ++ chunk
    (split sha256 w.frameBytes (bytes.length + 1) bytes []).map fun r => (r.1, { w with buffer := r.2 })
  else none

/-- Chunk after chunk: the frames delivered, and the wire at the end unless a chunk was refused. -/
def feeds : Wire → List Bytes → List Value × Option Wire
  | w, [] => ([], some w)
  | w, chunk :: chunks =>
    match feed sha256 w chunk with
    | some (frames, next) => (frames ++ (feeds next chunks).1, (feeds next chunks).2)
    | none => ([], none)

/-- Each chunk that is fed is within the queue limit. -/
def admitted : Wire → List Bytes → Bool
  | _, [] => true
  | w, chunk :: chunks =>
    decide (w.buffer.length + chunk.length ≤ w.queueBytes) &&
      match feed sha256 w chunk with
      | some (_, next) => admitted next chunks
      | none => true

/-! ## Chunk invariance -/

theorem newline_append (l m : Bytes) : newline (l ++ m) = (newline l).or ((newline m).map (· + l.length)) :=
  findIdx?_append

variable {l : Bytes}

theorem newline_lt {i : Nat} (h : newline l = some i) : i < l.length := by
  obtain ⟨hi, -⟩ := findIdx?_eq_some_iff_getElem.mp h
  exact hi

/-- One turn of `split/3`: a line within the limit, or a refusal, or nothing yet. -/
def line (limit : Nat) (bytes : Bytes) : Decision UInt8 Value :=
  match newline bytes with
  | some index =>
    if index + 1 ≤ limit then
      match decode sha256 (bytes.take (index + 1)) with
      | some frame => .take frame (bytes.drop (index + 1))
      | none => .refuse
    else .refuse
  | none => if bytes.length < limit then .wait else .refuse

variable {sha256}

variable {limit : Nat}

theorem line_take {bytes rest : Bytes} {frame : Value} (h : line sha256 limit bytes = .take frame rest) :
    ∃ index, newline bytes = some index ∧ index + 1 ≤ limit ∧
      decode sha256 (bytes.take (index + 1)) = some frame ∧ rest = bytes.drop (index + 1) := by
  unfold line at h
  split at h
  · rename_i index hindex
    split_ifs at h with hlimit
    split at h
    · rename_i f hdecode
      cases h
      exact ⟨index, hindex, hlimit, hdecode, rfl⟩
    · cases h
  · split_ifs at h

theorem line_append_of_newline {index : Nat} (h : newline l = some index) (m : Bytes) :
    line sha256 limit (l ++ m) = match line sha256 limit l with
      | .take frame rest => .take frame (rest ++ m)
      | decision => decision := by
  have hlt := newline_lt h
  have hline : (l ++ m).take (index + 1) = l.take (index + 1) := by
    rw [take_append_of_le_length (by omega)]
  have hrest : (l ++ m).drop (index + 1) = l.drop (index + 1) ++ m := by
    rw [drop_append_of_le_length (by omega)]
  unfold line
  rw [newline_append, h]
  simp only [Option.some_or, hline, hrest]
  split_ifs
  · cases decode sha256 (l.take (index + 1)) <;> rfl
  · rfl

/-- A refusal stands: a line that is too long already stays too long. -/
theorem line_refuse_append (m : Bytes)
    (h : line sha256 limit l = .refuse) : line sha256 limit (l ++ m) = .refuse := by
  cases hindex : newline l with
  | some index => rw [line_append_of_newline hindex, h]
  | none =>
    have hlong : limit ≤ l.length := by
      rw [line, hindex] at h
      split_ifs at h with hlt
      exact not_lt.mp hlt
    rw [line, newline_append, hindex]
    cases newline m with
    | some index => exact if_neg (by dsimp only; omega)
    | none => exact if_neg (by rw [length_append]; omega)

variable (sha256)

/-- The line splitter as a scanner. -/
def lines (limit : Nat) : Scanner UInt8 Value where
  decide := line sha256 limit
  shrinks := by
    intro l o rest h
    obtain ⟨index, hindex, -, -, rfl⟩ := line_take h
    have := newline_lt hindex
    rw [length_drop]
    omega
  take_append := by
    intro l o rest m h
    obtain ⟨index, hindex, -⟩ := line_take h
    rw [line_append_of_newline hindex, h]
  refuse_append := line_refuse_append

variable {sha256}

/-- **The loop of `split/3` scans.** -/
theorem split_scan : ∀ {fuel : Nat} {bytes : Bytes} (frames : List Value),
    bytes.length < fuel → split sha256 limit fuel bytes frames =
      ((lines sha256 limit).scan bytes).2.map fun rest =>
        (frames.reverse ++ ((lines sha256 limit).scan bytes).1, rest)
  | 0, _, _, h => absurd h (Nat.not_lt_zero _)
  | fuel + 1, bytes, frames, h => by
    have hturn : split sha256 limit (fuel + 1) bytes frames =
        match line sha256 limit bytes with
        | .wait => some (frames.reverse, bytes)
        | .take frame rest => split sha256 limit fuel rest (frame :: frames)
        | .refuse => none := by
      rw [split, line]
      cases newline bytes with
      | none => dsimp only; split_ifs <;> rfl
      | some index =>
        dsimp only
        split_ifs
        · cases decode sha256 (bytes.take (index + 1)) <;> rfl
        · rfl
    rw [hturn]
    cases hline : line sha256 limit bytes with
    | wait => rw [Scanner.scan_wait hline]; simp
    | refuse => rw [Scanner.scan_refuse hline]; rfl
    | take frame rest =>
      have hshrink := (lines sha256 limit).shrinks hline
      rw [Scanner.scan_take hline]
      dsimp only
      rw [split_scan (frame :: frames) (by omega)]
      simp

theorem line_eq_wait {bytes : Bytes} :
    line sha256 limit bytes = .wait ↔ newline bytes = none ∧ bytes.length < limit := by
  unfold line
  cases newline bytes with
  | none => simp
  | some index =>
    dsimp only
    split_ifs
    · cases decode sha256 (bytes.take (index + 1)) <;> simp
    · simp

theorem valid_iff (sha256 : Bytes → Bytes) {w : Wire} :
    w.valid = true ↔ line sha256 w.frameBytes w.buffer = .wait ∧
      w.buffer.length ≤ w.queueBytes ∧ (new w.frameBytes w.queueBytes).isSome = true := by
  rw [line_eq_wait]
  simp only [valid, Bool.and_eq_true, decide_eq_true_eq, Option.isNone_iff_eq_none]
  tauto

/-- **A run of `feed/2` over admitted chunks is a run of the scanner**: the queue never refuses, and the
wire stays valid. -/
theorem feeds_scan {w : Wire} {chunks : List Bytes} (hw : w.valid = true)
    (ha : admitted sha256 w chunks = true) : feeds sha256 w chunks =
      (((lines sha256 w.frameBytes).feed w.buffer chunks).1,
        ((lines sha256 w.frameBytes).feed w.buffer chunks).2.map fun b => { w with buffer := b }) := by
  induction chunks generalizing w with
  | nil => rfl
  | cons chunk chunks ih =>
    rw [admitted, Bool.and_eq_true, decide_eq_true_eq] at ha
    obtain ⟨hqueue, ha⟩ := ha
    have hfeed : feed sha256 w chunk =
        ((lines sha256 w.frameBytes).scan (w.buffer ++ chunk)).2.map fun rest =>
          (((lines sha256 w.frameBytes).scan (w.buffer ++ chunk)).1, { w with buffer := rest }) := by
      rw [feed, if_pos (by simp [hw, hqueue])]
      dsimp only
      rw [split_scan [] (Nat.lt_succ_self _), Option.map_map]
      rfl
    rw [feeds, Scanner.feed]
    rw [hfeed] at ha ⊢
    cases hleft : ((lines sha256 w.frameBytes).scan (w.buffer ++ chunk)).2 with
    | none =>
      rw [show (lines sha256 w.frameBytes).scan (w.buffer ++ chunk) = (_, none) from Prod.ext rfl hleft]
      rfl
    | some rest =>
      have hlen := Scanner.length_le_of_scan hleft
      rw [length_append] at hlen
      have hnext : ({ w with buffer := rest } : Wire).valid = true :=
        (valid_iff sha256).mpr ⟨Scanner.wait_of_scan hleft, by dsimp only; omega,
          ((valid_iff sha256).mp hw).2.2⟩
      rw [hleft] at ha
      rw [show (lines sha256 w.frameBytes).scan (w.buffer ++ chunk) = (_, some rest) from
        Prod.ext rfl hleft]
      simp only [Option.map_some] at ha ⊢
      rw [ih hnext ha]

end Wire

/-! ## The round trip of a frame -/

/-- **A written frame reads back.** -/
theorem decode_encode {sha256 : Bytes → Bytes} {frame : Value} {bytes : Bytes}
    (hordered : frame.ordered = true) (h : encode sha256 frame = some bytes) :
    decode sha256 bytes = some frame := by
  rw [encode] at h
  split_ifs at h with hframe
  cases hbody : JSON.encode lineLimits frame with
  | refuse => rw [hbody] at h; cases h
  | raise => rw [hbody] at h; cases h
  | ok body =>
    rw [hbody] at h
    cases h
    have hread := JSON.decode_encode hordered hbody
    obtain ⟨text, nodes, rfl, hw⟩ := JSON.encode_eq_ok hordered hbody
    -- a text without control characters is one line
    have hbyte : ∀ b : UInt8, b.toNat < 32 → b ∉ text.utf8 := by
      intro b hb hmem
      obtain ⟨c, hc, heq⟩ := Text.mem_of_mem_utf8 hmem (by omega)
      have := hw.printable c hc
      omega
    have hpos : 1 ≤ text.utf8.length := by
      obtain ⟨c, tail, htext, -⟩ := hw.opens
      have := c.utf8Size_pos
      rw [Text.length_utf8, htext, Text.bytes_cons]
      omega
    have hmax : text.utf8.length ≤ maxFrame - 1 := by
      rw [Text.length_utf8]
      exact hw.within
    have hline : 2 ≤ (text.utf8 ++ [10]).length ∧ (text.utf8 ++ [10]).length ≤ maxFrame := by
      rw [length_append, length_singleton]
      omega
    rw [decode, dropLast_concat, getLast?_concat,
      if_pos ⟨hline.1, hline.2, rfl, hbyte 10 (by decide), hbyte 13 (by decide)⟩, hread]
    exact if_pos hframe

/-- **Framing.** However a stream is cut into chunks that the queue admits, the wire ends the same and
delivers the same frames, or refuses in both cases, the frames delivered before under one partition being
a front part of those under the other; and a frame reads back from the line it is written on. -/
theorem framing (sha256 : Bytes → Bytes) :
    (∀ (w : Wire) (xs ys : List Bytes), w.valid = true → w.admitted sha256 xs = true →
      w.admitted sha256 ys = true → xs.flatten = ys.flatten →
      (w.feeds sha256 xs).2 = (w.feeds sha256 ys).2 ∧
        ((w.feeds sha256 xs).2 ≠ none → (w.feeds sha256 xs).1 = (w.feeds sha256 ys).1) ∧
        ((w.feeds sha256 xs).1 <+: (w.feeds sha256 ys).1 ∨
          (w.feeds sha256 ys).1 <+: (w.feeds sha256 xs).1)) ∧
      ∀ (frame : Value) (bytes : Bytes), frame.ordered = true →
        encode sha256 frame = some bytes → decode sha256 bytes = some frame := by
  refine ⟨fun w xs ys hw hxs hys hsame => ?_, fun frame bytes => decode_encode⟩
  have hwait : (Wire.lines sha256 w.frameBytes).decide w.buffer = .wait :=
    ((Wire.valid_iff sha256).mp hw).1
  obtain ⟨hxend, hxfront, hxall⟩ := Scanning.Scanner.feed_scan xs hwait
  obtain ⟨hyend, hyfront, hyall⟩ := Scanning.Scanner.feed_scan ys hwait
  rw [Wire.feeds_scan hw hxs, Wire.feeds_scan hw hys]
  rw [hsame] at hxend hxfront hxall
  refine ⟨?_, fun hend => ?_, prefix_or_prefix_of_prefix hxfront hyfront⟩
  · rw [hxend, hyend]
  · have hscan : ((Wire.lines sha256 w.frameBytes).scan (w.buffer ++ ys.flatten)).2 ≠ none := by
      intro hnone
      exact hend (by dsimp only; rw [hxend, hnone]; rfl)
    exact (hxall hscan).trans (hyall hscan).symm

/-- The frame that ends an exchange. -/
def stopFrame : Value := .obj [("type", .str "stop"), ("v", .num (.int 1))]

/-- Its line. -/
def stopLine : Bytes := (encode id stopFrame).getD []

theorem stopLine_framed :
    Wire.feeds id ⟨[], 64, 64⟩ [stopLine.take 7, stopLine.drop 7] = ([stopFrame], some ⟨[], 64, 64⟩) ∧
      (Wire.feeds id ⟨[], 64, 64⟩ [stopLine.take 7, stopLine.drop 7]).2 =
        (Wire.feeds id ⟨[], 64, 64⟩ [stopLine]).2 ∧
      decode id stopLine = some stopFrame :=
  ⟨by decide +kernel,
    ((framing id).1 _ _ _ (by decide) (by decide +kernel) (by decide +kernel) (by simp)).1,
    (framing id).2 _ _ (by decide +kernel) (by decide +kernel)⟩

end

end Wotex.Runtime
