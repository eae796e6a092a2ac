import Okou.GuestControl.Wire
import Okou.Lib.Incremental

/-!
# Frames and their streaming decoder

`frame.rs` lays a message out as `[length: 4][type: 1][sequence: 4][payload]` and takes
such frames from a byte stream that arrives in chunks of any size.  A call of the decoder
appends its chunk to the buffer, walks over the complete frames to check their lengths
before any of them is seen, walks over them again to hand them to the visitor, and then
drops them from the buffer in one step.

The buffer's contents are a byte string.  Its capacity, which decides when the memory of
an oversized buffer is given back, is kept beside it; how a vector chooses its capacity is
left open in `VecPolicy`.
-/

namespace Okou.GuestControl

open List

/-! ### Frames -/

structure RawMessage where
  msgType : UInt8
  seq : UInt32
  payload : Bytes
deriving DecidableEq, Repr

/-- Write a frame around the payload that `appendPayload` writes. -/
def encodeInto (msgType : UInt8) (seq : UInt32) (payloadLen : ℕ) (appendPayload : Bytes → Bytes) :
    Except ProtocolError Bytes :=
  match checkedAdd minBodySize payloadLen with
  | none => .error (.messageTooLarge usizeMax)
  | some bodyLen =>
    if maxMessageSize < bodyLen then .error (.messageTooLarge bodyLen)
    else .ok (appendPayload (u32Bytes (.ofNat bodyLen) ++ [msgType] ++ u32Bytes seq))

def encode (msgType : UInt8) (seq : UInt32) (payload : Bytes) : Except ProtocolError Bytes :=
  encodeInto msgType seq payload.length fun frame => frame ++ payload

variable (m : RawMessage)

/-- The frame of a message. -/
def RawMessage.frame (m : RawMessage) : Bytes :=
  u32Bytes (.ofNat (minBodySize + m.payload.length)) ++ [m.msgType] ++ u32Bytes m.seq ++ m.payload

/-- The message is not too large for a frame. -/
def RawMessage.Fits (m : RawMessage) : Prop := minBodySize + m.payload.length ≤ maxMessageSize

variable {frame : Bytes} {m}

theorem encodeInto_eq_ok {msgType} {seq} {payloadLen} {append}
    : encodeInto msgType seq payloadLen append = .ok frame ↔
        minBodySize + payloadLen ≤ maxMessageSize ∧
        frame = append (u32Bytes (.ofNat (minBodySize + payloadLen)) ++ [msgType] ++
          u32Bytes seq) := by
  unfold encodeInto checkedAdd
  by_cases hfits : minBodySize + payloadLen ≤ maxMessageSize
  · have husize : minBodySize + payloadLen ≤ usizeMax := hfits.trans (by decide)
    rw [if_pos husize]
    dsimp only
    rw [if_neg (Nat.not_lt.mpr hfits), and_iff_right hfits, Except.ok.injEq, eq_comm]
  · by_cases husize : minBodySize + payloadLen ≤ usizeMax
    · rw [if_pos husize]
      dsimp only
      rw [if_pos (Nat.not_le.mp hfits)]
      exact ⟨nofun, fun h => absurd h.1 hfits⟩
    · rw [if_neg husize]
      exact ⟨nofun, fun h => absurd h.1 hfits⟩

theorem encode_eq_ok : encode m.msgType m.seq m.payload = .ok frame ↔ m.Fits ∧ frame = m.frame := by
  rw [encode, encodeInto_eq_ok]
  rfl

/-! ### The decoder -/

/-- The capacities a vector chooses: when it is made for a number of elements, and when one
of a capacity has to hold a number of elements. -/
structure VecPolicy where
  withCapacity : ℕ → ℕ
  grow : ℕ → ℕ → ℕ

def initialBufferCapacity : ℕ := 64 * 1024

def oversizedBufferCapacity : ℕ := 4 * 1024 * 1024

structure Decoder where
  buf : Bytes
  capacity : ℕ

inductive DecodeWithError (E : Type*)
  /-- the stream holds an invalid frame -/
  | protocol (error : ProtocolError)
  /-- the visitor refused a frame -/
  | visitor (error : E)

/-- The first walk: the offset after the last complete frame, unless a length is out of
bounds. -/
def preflight (buf : Bytes) (verifiedOffset : ℕ) : Except ProtocolError ℕ :=
  if verifiedOffset + headerSize ≤ buf.length then
    match readU32At buf verifiedOffset with
    | none => .ok verifiedOffset
    | some v =>
      let length := v.toNat
      if maxMessageSize < length then .error (.messageTooLarge length)
      else if length < minBodySize then .error (.messageTooSmall length)
      else
        let total := headerSize + length
        if buf.length < verifiedOffset + total then .ok verifiedOffset
        else preflight buf (verifiedOffset + total)
  else .ok verifiedOffset
termination_by buf.length - verifiedOffset
decreasing_by simp only [headerSize] at *; omega

variable {σ E : Type*} (s : Bytes)

/-- The second walk: each frame before `verifiedOffset` is handed to the visitor.  A frame
that it refuses ends the walk, at the offset after that frame. -/
def visitFrames (visitor : σ → RawMessage → σ × Except E Unit) (buf : Bytes)
    (verifiedOffset offset : ℕ) (st : σ) : σ × Except (E × ℕ) Unit :=
  if offset < verifiedOffset then
    match readU32At buf offset with
    | none => (st, .ok ())
    | some v =>
      let nextOffset := offset + (headerSize + v.toNat)
      match readU8At buf (offset + headerSize), readU32At buf (offset + headerSize + 1) with
      | some msgType, some seq =>
        let payloadStart := offset + headerSize + minBodySize
        let payload := (getRange buf payloadStart nextOffset).getD []
        match visitor st ⟨msgType, seq, payload⟩ with
        | (st, .error error) => (st, .error (error, nextOffset))
        | (st, .ok ()) => visitFrames visitor buf verifiedOffset nextOffset st
      | _, _ => (st, .ok ())
  else (st, .ok ())
termination_by verifiedOffset - offset
decreasing_by simp only [headerSize] at *; omega

namespace Decoder

variable (vec : VecPolicy) (d : Decoder) (data : Bytes)

def new : Decoder := ⟨[], vec.withCapacity initialBufferCapacity⟩

/-- Append to the buffer. -/
def extend (d : Decoder) (data : Bytes) : Decoder where
  buf := d.buf ++ data
  capacity :=
    if d.buf.length + data.length ≤ d.capacity then d.capacity
    else vec.grow d.capacity (d.buf.length + data.length)

/-- Drop the first bytes of the buffer. -/
def drain (d : Decoder) (n : ℕ) : Decoder := { d with buf := d.buf.drop n }

/-- Move what is left of an oversized buffer into a small one. -/
def releaseOversizedBuffer (d : Decoder) : Decoder :=
  if d.capacity ≤ oversizedBufferCapacity then d
  else if d.buf = [] then new vec
  else if d.buf.length ≤ initialBufferCapacity then (new vec).extend vec d.buf
  else d

def clearAfterProtocolError (d : Decoder) : Decoder :=
  releaseOversizedBuffer vec { d with buf := [] }

def decodeWith (visitor : σ → RawMessage → σ × Except E Unit) (d : Decoder) (data : Bytes)
    (st : σ) : Decoder × σ × Except (DecodeWithError E) Unit :=
  let d := d.extend vec data
  match preflight d.buf 0 with
  | .error error => (clearAfterProtocolError vec d, st, .error (.protocol error))
  | .ok verifiedOffset =>
    match visitFrames visitor d.buf verifiedOffset 0 st with
    | (st, .error (error, nextOffset)) =>
      (releaseOversizedBuffer vec (d.drain nextOffset), st, .error (.visitor error))
    | (st, .ok ()) =>
      let d := if 0 < verifiedOffset then d.drain verifiedOffset else d
      (releaseOversizedBuffer vec d, st, .ok ())

/-- Feed a chunk and collect the messages that it completes. -/
def decode (d : Decoder) (data : Bytes) : Decoder × Except ProtocolError (List RawMessage) :=
  let push (messages : List RawMessage) (msg : RawMessage) : List RawMessage × Except Empty Unit :=
    (messages ++ [msg], .ok ())
  match decodeWith vec push d data [] with
  | (d, messages, .ok ()) => (d, .ok messages)
  | (d, _, .error (.protocol error)) => (d, .error error)

@[simp] theorem buf_extend : (d.extend vec data).buf = d.buf ++ data :=
  rfl

/-- Giving memory back never touches the contents. -/
@[simp] theorem buf_releaseOversizedBuffer : (releaseOversizedBuffer vec d).buf = d.buf := by
  unfold releaseOversizedBuffer
  split
  · rfl
  split
  case isTrue hempty => exact hempty.symm
  split
  · rfl
  · rfl

end Decoder

/-! ### The frame at the front of a stream -/

/-- The length that the first bytes of a stream announce. -/
def frameLength (s : Bytes) : ℕ := beNat (slice s 0 4)

/-- The message in a frame of that length. -/
def frameMessage (s : Bytes) : RawMessage where
  msgType := s.getD headerSize 0
  seq := .ofNat (beNat (slice s (headerSize + 1) 4))
  payload := slice s (headerSize + minBodySize) (frameLength s - minBodySize)

def readFrame (s : Bytes) : Read RawMessage ProtocolError :=
  if s.length < headerSize then .more
  else if maxMessageSize < frameLength s then .bad (.messageTooLarge (frameLength s))
  else if frameLength s < minBodySize then .bad (.messageTooSmall (frameLength s))
  else if s.length < headerSize + frameLength s then .more
  else .item (frameMessage s) (headerSize + frameLength s)

variable {buf : Bytes} {n off : ℕ} {s}

theorem frameLength_append (h : headerSize ≤ s.length) (t : Bytes) :
    frameLength (s ++ t) = frameLength s := by
  rw [frameLength, frameLength, slice_append_left]
  exact h

theorem frameMessage_append (hlen : minBodySize ≤ frameLength s)
    (h : headerSize + frameLength s ≤ s.length)
    (t : Bytes) : frameMessage (s ++ t) = frameMessage s := by
  simp only [headerSize, minBodySize] at hlen h
  simp only [frameMessage, headerSize, minBodySize]
  rw [frameLength_append (by simp only [headerSize]; omega), slice_append_left (by omega),
    slice_append_left (by omega), getD_append _ _ _ _ (by omega)]

theorem readFrame_eq_item : readFrame s = .item m n ↔
    headerSize ≤ s.length ∧ (minBodySize ≤ frameLength s ∧ frameLength s ≤ maxMessageSize) ∧
      headerSize + frameLength s ≤ s.length ∧ m = frameMessage s ∧
      n = headerSize + frameLength s := by
  unfold readFrame
  repeat' split
  all_goals simp only [reduceCtorEq, Read.item.injEq, false_iff]
  all_goals try omega
  constructor
  · rintro ⟨rfl, rfl⟩
    refine ⟨?_, ⟨?_, ?_⟩, ?_, rfl, rfl⟩ <;> omega
  · rintro ⟨-, -, -, rfl, rfl⟩
    exact ⟨rfl, rfl⟩

/-- The stream announces a length out of bounds. -/
def BadLength (s : Bytes) : Prop :=
  headerSize ≤ s.length ∧ ¬(minBodySize ≤ frameLength s ∧ frameLength s ≤ maxMessageSize)

/-- The stream ends within a length field or within the frame that it announces. -/
def Incomplete (s : Bytes) : Prop :=
  s.length < headerSize ∨ (minBodySize ≤ frameLength s ∧ frameLength s ≤ maxMessageSize) ∧
    s.length < headerSize + frameLength s

/-- How a length out of bounds is reported. -/
def lengthError (length : ℕ) : ProtocolError :=
  if maxMessageSize < length then .messageTooLarge length else .messageTooSmall length

variable {e : ProtocolError}

theorem readFrame_eq_bad : readFrame s = .bad e ↔ BadLength s ∧
    e = lengthError (frameLength s) := by
  unfold readFrame BadLength lengthError
  repeat' split
  all_goals simp only [reduceCtorEq, Read.bad.injEq, false_iff]
  all_goals try omega
  · exact ⟨fun h => ⟨⟨by omega, by omega⟩, h.symm⟩, fun h => h.2.symm⟩
  · exact ⟨fun h => ⟨⟨by omega, by omega⟩, h.symm⟩, fun h => h.2.symm⟩

theorem readFrame_eq_more : readFrame s = .more ↔ Incomplete s := by
  unfold readFrame Incomplete
  repeat' split
  all_goals simp only [reduceCtorEq, true_iff, false_iff]
  all_goals omega

/-- The frames of the wire, as a reader of byte streams. -/
def frameReader : Reader UInt8 RawMessage ProtocolError where
  read := readFrame
  item_pos := by
    intro s m n h
    obtain ⟨-, -, -, -, rfl⟩ := readFrame_eq_item.mp h
    exact Nat.add_pos_left (by decide) _
  item_le := by
    intro s m n h
    obtain ⟨-, -, hle, -, rfl⟩ := readFrame_eq_item.mp h
    exact hle
  item_append := by
    intro s m n t h
    obtain ⟨hhead, hlen, hle, rfl, rfl⟩ := readFrame_eq_item.mp h
    have hlength := frameLength_append hhead t
    rw [readFrame_eq_item, hlength, length_append]
    exact ⟨by omega, hlen, by omega, (frameMessage_append hlen.1 hle t).symm, rfl⟩
  bad_append := by
    intro s e t h
    obtain ⟨⟨hhead, hlen⟩, rfl⟩ := readFrame_eq_bad.mp h
    rw [readFrame_eq_bad, BadLength, frameLength_append hhead t, length_append]
    exact ⟨⟨by omega, hlen⟩, rfl⟩

theorem frameReader_read (s : Bytes) : frameReader.read s = readFrame s := rfl

/-! ### Frames are what `encode` writes -/

theorem RawMessage.length_frame (m : RawMessage) :
    m.frame.length = headerSize + (minBodySize + m.payload.length) := by
  simp only [RawMessage.frame, length_append, length_u32Bytes, length_singleton, headerSize,
    minBodySize]
  omega

theorem RawMessage.frameLength_frame (h : m.Fits) (t : Bytes) :
    frameLength (m.frame ++ t) = minBodySize + m.payload.length := by
  have hlt : minBodySize + m.payload.length < 2 ^ 32 := lt_of_le_of_lt h (by decide)
  have hslice : slice (m.frame ++ t) 0 4 = u32Bytes (.ofNat (minBodySize + m.payload.length)) := by
    exact take_left' (length_u32Bytes _)
  rw [frameLength, hslice, u32Bytes, UInt32.toNat_ofNat_of_lt' hlt, beNat_beBytes_of_lt hlt]

theorem RawMessage.readFrame_frame (h : m.Fits) (t : Bytes) :
    readFrame (m.frame ++ t) = .item m m.frame.length := by
  have hlen := RawMessage.frameLength_frame h t
  have hsplit : m.frame ++ t = u32Bytes (.ofNat (minBodySize + m.payload.length)) ++
        (m.msgType :: (u32Bytes m.seq ++ (m.payload ++ t))) := by
    simp [RawMessage.frame]
  have hdrop : (m.frame ++ t).drop headerSize =
    m.msgType :: (u32Bytes m.seq ++ (m.payload ++ t)) := by
    exact drop_left' (length_u32Bytes _)
  have hmsg : m = frameMessage (m.frame ++ t) := by
    have htype : (m.frame ++ t).getD headerSize 0 = m.msgType := by
      rfl
    have hseq : slice (m.frame ++ t) (headerSize + 1) 4 = u32Bytes m.seq := by
      exact take_left' (length_u32Bytes _)
    have hpayl : slice (m.frame ++ t) (headerSize + minBodySize) m.payload.length = m.payload := by
      rw [slice, ← drop_drop, hdrop, minBodySize, drop_succ_cons, drop_left' (length_u32Bytes _),
        take_left]
    rw [frameMessage, hlen, htype, hseq, ofNat_beNat_u32Bytes, Nat.add_sub_cancel_left, hpayl]
  rw [readFrame_eq_item, hlen, length_append, RawMessage.length_frame]
  refine ⟨?_, ⟨Nat.le_add_right _ _, h⟩, Nat.le_add_right _ _, hmsg, rfl⟩
  omega

/-- What stands in front of a complete frame's end is the frame of its message. -/
theorem take_of_readFrame (h : readFrame s = .item m n) : m.Fits ∧ s.take n = m.frame := by
  obtain ⟨hhead, hlen, hle, rfl, rfl⟩ := readFrame_eq_item.mp h
  have hpayl : (frameMessage s).payload.length = frameLength s - minBodySize := by
    refine length_slice ?_
    omega
  have hbody : minBodySize + (frameMessage s).payload.length = frameLength s := by omega
  refine ⟨by rw [RawMessage.Fits, hbody]; exact hlen.2, ?_⟩
  have hlength : u32Bytes (.ofNat (frameLength s)) = slice s 0 4 :=
    u32Bytes_ofNat_beNat (length_slice hhead)
  simp only [headerSize, minBodySize] at hlen hle
  have htype : [s.getD headerSize 0] = slice s headerSize 1 := by
    rw [slice, take_one, head?_drop, getD_eq_getElem?_getD,
      getElem?_eq_getElem (by simp only [headerSize]; omega)]
    rfl
  have hseq : u32Bytes (.ofNat (beNat (slice s (headerSize + 1) 4))) = slice s (headerSize + 1) 4 :=
    u32Bytes_ofNat_beNat (length_slice (by simp only [headerSize]; omega))
  calc s.take (headerSize + frameLength s) =
    slice s 0 (headerSize + 1 + 4 + (frameLength s - minBodySize)) := by
        congr 1
        simp only [minBodySize]
        omega
    _ = slice s 0 headerSize ++ slice s headerSize 1 ++ slice s (headerSize + 1) 4 ++
          slice s (headerSize + minBodySize) (frameLength s - minBodySize) := by
        rw [slice_add, slice_add, slice_add]
        simp [minBodySize]
    _ = (frameMessage s).frame := by
        rw [RawMessage.frame, hbody, hlength]
        simp only [frameMessage, htype, hseq]
        rfl

/-! ### The two walks -/

theorem readU32At_eq (h : headerSize ≤ (buf.drop off).length) :
    readU32At buf off = some (.ofNat (frameLength (buf.drop off))) := by
  simp only [headerSize, length_drop] at h
  rw [readU32At, getRange_add, if_pos (by omega), frameLength, slice_drop, Nat.add_zero,
    Option.map_some]

theorem toNat_frameLength (h : headerSize ≤ s.length) :
    (UInt32.ofNat (frameLength s)).toNat = frameLength s :=
  toNat_ofNat_beNat (length_slice h)

/-- The first walk takes one step over a complete frame. -/
theorem preflight_item (h : readFrame (buf.drop off) = .item m n) :
    preflight buf off = preflight buf (off + n) := by
  obtain ⟨hhead, hlen, hle, -, rfl⟩ := readFrame_eq_item.mp h
  rw [preflight, readU32At_eq hhead]
  dsimp only
  rw [toNat_frameLength hhead]
  rw [length_drop] at hhead hle
  have hpos : 0 < headerSize := by decide
  rw [if_pos (by omega), if_neg (by omega), if_neg (by omega), if_neg (by omega)]

theorem preflight_more (h : readFrame (buf.drop off) = .more) : preflight buf off = .ok off := by
  have hinc := readFrame_eq_more.mp h
  by_cases hhead : headerSize ≤ (buf.drop off).length
  · rw [preflight, readU32At_eq hhead]
    dsimp only
    rw [toNat_frameLength hhead]
    simp only [Incomplete, length_drop] at hinc hhead
    have hpos : 0 < headerSize := by decide
    rw [if_pos (by omega), if_neg (by omega), if_neg (by omega), if_pos (by omega)]
  · rw [length_drop] at hhead
    rw [preflight, if_neg]
    omega

theorem preflight_bad (h : readFrame (buf.drop off) = .bad e) : preflight buf off = .error e := by
  obtain ⟨⟨hhead, hlen⟩, rfl⟩ := readFrame_eq_bad.mp h
  rw [preflight, readU32At_eq hhead]
  dsimp only
  rw [toNat_frameLength hhead, lengthError]
  rw [length_drop] at hhead
  rw [if_pos (by simp only [headerSize] at *; omega)]
  by_cases hlarge : maxMessageSize < frameLength (buf.drop off)
  · rw [if_pos hlarge, if_pos hlarge]
  · rw [if_neg hlarge, if_pos (by omega), if_neg hlarge]

variable {rest : Bytes} (visitor : σ → RawMessage → σ × Except E Unit) {msgs : List RawMessage}

/-- **The first walk stops at the rest of the stream**, and fails if that is where a length
is out of bounds. -/
theorem preflight_splits (h : frameReader.Splits s msgs rest) (hs : buf.drop off = s)
    (hoff : off ≤ buf.length) : (∀ e, readFrame rest = .bad e → preflight buf off = .error e) ∧
      (readFrame rest = .more → preflight buf off = .ok (buf.length - rest.length)) := by
  induction h generalizing off with
  | @stop s hstop =>
    subst hs
    refine ⟨fun e => preflight_bad, fun hmore => ?_⟩
    rw [preflight_more hmore, length_drop, Nat.sub_sub_self hoff]
  | @item s m n msgs rest hread _ ih =>
    subst hs
    have hle := frameReader.item_le hread
    rw [length_drop] at hle
    rw [preflight_item hread]
    exact ih drop_drop.symm (by omega)

/-- The visitor over a list of messages; a message that it refuses leaves the later ones. -/
def visitAll (visitor : σ → RawMessage → σ × Except E Unit) :
    List RawMessage → σ → σ × Except (E × List RawMessage) Unit
  | [], st => (st, .ok ())
  | m :: msgs, st =>
    match visitor st m with
    | (st, .error e) => (st, .error (e, msgs))
    | (st, .ok ()) => visitAll visitor msgs st

/-- The second walk hands over the message of a complete frame. -/
theorem visitFrames_item {verified} (h : readFrame (buf.drop off) = .item m n)
    (hver : off < verified) (st : σ) :
    visitFrames visitor buf verified off st = match visitor st m with
      | (st, .error e) => (st, .error (e, off + n))
      | (st, .ok ()) => visitFrames visitor buf verified (off + n) st := by
  obtain ⟨hhead, hlen, hle, rfl, rfl⟩ := readFrame_eq_item.mp h
  have hnat := toNat_frameLength hhead
  have hfirst := readU32At_eq hhead
  simp only [minBodySize, headerSize, length_drop] at hlen hle
  have htype : readU8At buf (off + headerSize) = some ((buf.drop off).getD headerSize 0) := by
    rw [getD_eq_getElem?_getD, getElem?_drop, readU8At,
      getElem?_eq_getElem (by simp only [headerSize]; omega)]
    rfl
  have hseq : readU32At buf (off + headerSize + 1) =
      some (.ofNat (beNat (slice (buf.drop off) (headerSize + 1) 4))) := by
    rw [readU32At, getRange_add, if_pos (by simp only [headerSize]; omega), slice_drop,
      Nat.add_assoc]
    rfl
  have hpayl : getRange buf (off + headerSize + minBodySize)
      (off + (headerSize + frameLength (buf.drop off))) =
        some (frameMessage (buf.drop off)).payload := by
    have hcount : off + (headerSize + frameLength (buf.drop off)) =
        off + headerSize + minBodySize + (frameLength (buf.drop off) - minBodySize) := by
      simp only [minBodySize]
      omega
    rw [hcount, getRange_add, if_pos (by simp only [headerSize]; omega), Nat.add_assoc off,
      ← slice_drop]
    rfl
  rw [visitFrames, if_pos hver, hfirst]
  dsimp only
  rw [htype, hseq, hnat]
  rw [hpayl]
  rfl

/-- **The second walk is the visitor over the messages of the stream.** -/
theorem visitFrames_splits (h : frameReader.Splits s msgs rest) (hs : buf.drop off = s)
    (hoff : off ≤ buf.length) (st : σ) : match visitAll visitor msgs st with
    | (st', .ok ()) => visitFrames visitor buf (buf.length - rest.length) off st = (st', .ok ())
    | (st', .error (e, later)) => ∃ next,
        visitFrames visitor buf (buf.length - rest.length) off st = (st', .error (e, next)) ∧
          frameReader.Splits (buf.drop next) later rest := by
  induction h generalizing off st with
  | @stop s hstop =>
    subst hs
    rw [length_drop, Nat.sub_sub_self hoff, visitAll, visitFrames, if_neg (Nat.lt_irrefl _)]
  | @item s m n msgs rest hread hsplit ih =>
    subst hs
    have hle := frameReader.item_le hread
    have hpos := frameReader.item_pos hread
    have hrest := hsplit.suffix.length_le
    simp only [length_drop] at hle hrest
    have hstep := visitFrames_item visitor hread (show off < buf.length - rest.length by omega) st
    rw [hstep, visitAll]
    rcases hvisit : visitor st m with ⟨st', result⟩
    cases result with
    | error e => exact ⟨off + n, rfl, by rwa [← drop_drop]⟩
    | ok u => exact ih drop_drop.symm (by omega) st'

/-! ### One call -/

namespace Decoder

variable (vec : VecPolicy)

variable {d : Decoder} {data rest : Bytes}

section

variable (h : frameReader.Splits (d.buf ++ data) msgs rest)

include h

/-- A call that meets a length out of bounds shows no frame to the visitor and empties the
buffer. -/
theorem decodeWith_bad (visitor : σ → RawMessage → σ × Except E Unit) (st : σ)
    (hbad : readFrame rest = .bad e) :
    ∃ d', decodeWith vec visitor d data st = (d', st, .error (.protocol e)) ∧ d'.buf = [] := by
  have hwalk := (preflight_splits h drop_zero (Nat.zero_le _)).1 e hbad
  refine ⟨clearAfterProtocolError vec (d.extend vec data), ?_, ?_⟩
  · simp [decodeWith, hwalk]
  · rw [clearAfterProtocolError, buf_releaseOversizedBuffer]

/-- **A call shows the visitor the frames that are complete and keeps what follows them**;
a frame that the visitor refuses is dropped with the ones before it, and the later ones
stay in the buffer. -/
theorem decodeWith_spec (visitor : σ → RawMessage → σ × Except E Unit) (st : σ)
    (hmore : readFrame rest = .more) : match visitAll visitor msgs st with
    | (st', .ok ()) => ∃ d', decodeWith vec visitor d data st = (d', st', .ok ()) ∧ d'.buf = rest
    | (st', .error (e, later)) => ∃ d',
          decodeWith vec visitor d data st = (d', st', .error (.visitor e)) ∧
          frameReader.Splits d'.buf later rest := by
  have hwalk := (preflight_splits h drop_zero (Nat.zero_le _)).2 hmore
  have hvisit := visitFrames_splits visitor h drop_zero (Nat.zero_le _) st
  have hrest : (d.buf ++ data).drop ((d.buf ++ data).length - rest.length) = rest :=
    (suffix_iff_eq_drop.mp h.suffix).symm
  rcases hall : visitAll visitor msgs st with ⟨st', result⟩
  rw [hall] at hvisit
  cases result with
  | ok u =>
    simp only [decodeWith, buf_extend, hwalk, hvisit]
    refine ⟨_, rfl, ?_⟩
    rw [buf_releaseOversizedBuffer]
    split
    case isTrue => exact hrest
    case isFalse hzero =>
      -- nothing was complete: the buffer is left as it is
      rw [Nat.eq_zero_of_not_pos hzero, drop_zero] at hrest
      exact hrest
  | error refused =>
    obtain ⟨next, hnext, hlater⟩ := hvisit
    simp only [decodeWith, buf_extend, hwalk, hnext]
    refine ⟨_, rfl, ?_⟩
    rw [buf_releaseOversizedBuffer]
    exact hlater

omit h in
theorem visitAll_push (msgs acc) :
    visitAll (fun messages msg => (messages ++ [msg], (.ok () : Except Empty Unit))) msgs acc =
      (acc ++ msgs, .ok ()) := by
  induction msgs generalizing acc with
  | nil => rw [visitAll, append_nil]
  | cons m msgs ih =>
    rw [visitAll]
    dsimp only
    rw [ih, append_assoc, singleton_append]

theorem decode_bad (hbad : readFrame rest = .bad e) : ∃ d', decode vec d data = (d', .error e) ∧
    d'.buf = [] := by
  obtain ⟨d', hd', hbuf⟩ := decodeWith_bad vec h
    (fun messages msg => (messages ++ [msg], (.ok () : Except Empty Unit))) [] hbad
  exact ⟨d', by rw [decode, hd'], hbuf⟩

theorem decode_more (hmore : readFrame rest = .more) : ∃ d', decode vec d data = (d', .ok msgs) ∧
    d'.buf = rest := by
  have hcall := decodeWith_spec vec h
    (fun messages msg => (messages ++ [msg], (.ok () : Except Empty Unit))) [] hmore
  rw [visitAll_push] at hcall
  obtain ⟨d', hd', hbuf⟩ := hcall
  exact ⟨d', by rw [decode, hd']; rfl, hbuf⟩

end

/-- The decoder buffers the frames of its stream. -/
theorem decode_buffers : frameReader.Buffers Decoder.buf (decode vec) where
  ok := by
    intro d data d' msgs hcall
    obtain ⟨msgs', rest, hsplit⟩ := frameReader.exists_splits (d.buf ++ data)
    cases hread : readFrame rest with
    | more =>
      obtain ⟨d'', hd'', hbuf⟩ := decode_more vec hsplit hread
      cases hcall.symm.trans hd''
      rw [hbuf]
      exact ⟨hsplit, hread⟩
    | bad e =>
      obtain ⟨d'', hd'', -⟩ := decode_bad vec hsplit hread
      cases hcall.symm.trans hd''
    | item m n => exact absurd hread (hsplit.read_rest m n)
  error := by
    intro d data d' e hcall
    obtain ⟨msgs, rest, hsplit⟩ := frameReader.exists_splits (d.buf ++ data)
    cases hread : readFrame rest with
    | more =>
      obtain ⟨d'', hd'', -⟩ := decode_more vec hsplit hread
      cases hcall.symm.trans hd''
    | bad e' =>
      obtain ⟨d'', hd'', -⟩ := decode_bad vec hsplit hread
      cases hcall.symm.trans hd''
      exact ⟨msgs, rest, hsplit, hread⟩
    | item m n => exact absurd hread (hsplit.read_rest m n)

end Decoder

/-! ### Streams of frames -/

/-- The stream is the frames of these messages, as `encode` writes them, and the rest. -/
def Framed (stream : Bytes) (msgs : List RawMessage) (rest : Bytes) : Prop :=
  ∃ frames, msgs.mapM (fun m => encode m.msgType m.seq m.payload) = .ok frames ∧
    stream = frames.flatten ++ rest

variable {stream rest : Bytes}

theorem framed_iff : Framed stream msgs rest ↔
    (∀ m ∈ msgs, m.Fits) ∧ stream = msgs.flatMap RawMessage.frame ++ rest := by
  simp only [Framed, mapM_eq_ok_map fun _ _ => encode_eq_ok]
  constructor
  · rintro ⟨_, ⟨hfits, rfl⟩, rfl⟩
    exact ⟨hfits, rfl⟩
  · rintro ⟨hfits, rfl⟩
    exact ⟨_, ⟨hfits, rfl⟩, rfl⟩

theorem framed_of_splits (h : frameReader.Splits stream msgs rest) : Framed stream msgs rest := by
  rw [framed_iff]
  induction h with
  | stop => exact ⟨nofun, rfl⟩
  | @item s m n msgs rest hread _ ih =>
    obtain ⟨hfits, htake⟩ := take_of_readFrame hread
    obtain ⟨hall, hdrop⟩ := ih
    refine ⟨forall_mem_cons.mpr ⟨hfits, hall⟩, ?_⟩
    rw [flatMap_cons, append_assoc, ← hdrop, ← htake, take_append_drop]

theorem splits_of_framed (h : Framed stream msgs rest) (hrest : Incomplete rest ∨ BadLength rest) :
    frameReader.Splits stream msgs rest := by
  obtain ⟨hfits, rfl⟩ := framed_iff.mp h
  refine Reader.splits_flatMap rest (fun m hm t => RawMessage.readFrame_frame (hfits m hm) t) ?_
  intro m n hread
  rcases hrest with hinc | hbad
  · rw [frameReader_read, readFrame_eq_more.mpr hinc] at hread
    cases hread
  · rw [frameReader_read, readFrame_eq_bad.mpr ⟨hbad, rfl⟩] at hread
    cases hread

/-- **Decoding does not depend on how the stream is cut.**  The messages returned before the
first failure are the complete frames of what was fed by then, and the buffer holds what
follows them; the first failure comes with the chunk that completes the first length out of
bounds.  A stream splits into complete frames and a rest in one way, and a stream of encoded
messages is decoded to these messages, with nothing left. -/
theorem decode_chunks (vec : VecPolicy) (chunks : List Bytes) :
    (match feedAll (Decoder.decode vec) (Decoder.new vec) chunks with
      | (d, msgs, none) => Framed chunks.flatten msgs d.buf ∧ Incomplete d.buf
      | (d, msgs, some (_, e, unfed)) => ∃ fed chunk, chunks = fed ++ chunk :: unfed ∧
          Framed fed.flatten msgs d.buf ∧ Incomplete d.buf ∧
          ∃ msgs' rest, Framed (fed.flatten ++ chunk) msgs' rest ∧ BadLength rest ∧
            e = lengthError (frameLength rest)) ∧
    (∀ stream msgs msgs' rest rest', Framed stream msgs rest → Framed stream msgs' rest' →
      Incomplete rest ∨ BadLength rest → Incomplete rest' ∨ BadLength rest' →
      msgs = msgs' ∧ rest = rest') ∧
    ∀ msgs, Framed chunks.flatten msgs [] →
      ∃ d, feedAll (Decoder.decode vec) (Decoder.new vec) chunks = (d, msgs, none) ∧
        d.buf = [] := by
  have hbuff := Decoder.decode_buffers vec
  have hnew : frameReader.read (Decoder.new vec).buf = .more := rfl
  refine ⟨?_, ?_, ?_⟩
  · rcases hrun : feedAll (Decoder.decode vec) (Decoder.new vec) chunks with ⟨d, msgs, failed⟩
    cases failed with
    | none =>
      obtain ⟨hsplit, hmore⟩ := hbuff.feedAll_ok hnew hrun
      exact ⟨framed_of_splits hsplit, readFrame_eq_more.mp hmore⟩
    | some failed =>
      obtain ⟨fed, chunk, hchunks, hsplit, hmore, msgs', rest, hsplit', hbad⟩ :=
        hbuff.feedAll_error hnew hrun
      obtain ⟨hlength, he⟩ := readFrame_eq_bad.mp hbad
      exact ⟨fed, chunk, hchunks, framed_of_splits hsplit, readFrame_eq_more.mp hmore, msgs', rest,
        framed_of_splits hsplit', hlength, he⟩
  · intro stream msgs msgs' rest rest' h h' hrest hrest'
    exact (splits_of_framed h hrest).unique (splits_of_framed h' hrest')
  · intro msgs hframed
    have hempty : Incomplete [] := .inl (by decide)
    exact hbuff.feedAll_of_splits hnew (splits_of_framed hframed (.inl hempty))
      (readFrame_eq_more.mpr hempty)

end Okou.GuestControl
