import Okou.Lib.Bytes
import Okou.Lib.Except

/-!
# The guest-control wire

The crate `guest-control-proto` speaks length-prefixed frames between a host and the
agent inside its guest.  Here are its size limits, its errors, and the bounds-checked
reads and length checks that every payload is built from.

A `usize` is a natural number.  Offsets into a buffer in memory stay far below `2 ^ 64`,
so the reads add without a check; the encoders' running sums, which grow with the caller's
data, keep theirs.
-/

namespace Okou.GuestControl

open List

/-- The length field in front of a frame. -/
def headerSize : ℕ := 4

/-- The largest body of a frame. -/
def maxMessageSize : ℕ := 16 * 1024 * 1024

/-- The type and sequence number that start every body. -/
def minBodySize : ℕ := 5

/-- The largest payload of a frame. -/
def maxPayloadSize : ℕ := maxMessageSize - minBodySize

/-- The largest `usize`. -/
def usizeMax : ℕ := 2 ^ 64 - 1

inductive ProtocolError
  /-- a body or payload above the protocol's limit -/
  | messageTooLarge (size : ℕ)
  /-- a body too short for a type and a sequence number -/
  | messageTooSmall (size : ℕ)
  /-- a payload that is not well formed -/
  | invalidPayload (msg : String)
  /-- a field above the limit of its encoded length -/
  | payloadTooLarge (field : String) (size : ℕ)
  /-- a field above the limit of its number of elements -/
  | payloadCountTooLarge (field : String) (count : ℕ)
deriving DecidableEq, Repr

/-! ### Reads at an offset -/

variable (data : Bytes) (offset : ℕ) {bytes : Bytes} (x : UInt16)

/-- The bytes in a range of a slice; nothing if out of bounds. -/
def getRange (start stop : ℕ) : Option Bytes :=
  if start ≤ stop ∧ stop ≤ data.length then some (slice data start (stop - start)) else none

/-- Read one byte; nothing if out of bounds. -/
def readU8At : Option UInt8 := data[offset]?

/-- Read a big-endian `u16`; nothing if out of bounds. -/
def readU16At : Option UInt16 :=
  (getRange data offset (offset + 2)).map fun bytes => .ofNat (beNat bytes)

/-- Read a big-endian `u32`; nothing if out of bounds. -/
def readU32At : Option UInt32 :=
  (getRange data offset (offset + 4)).map fun bytes => .ofNat (beNat bytes)

/-- Read a big-endian `i32`; nothing if out of bounds. -/
def readI32At : Option Int32 :=
  (getRange data offset (offset + 4)).map fun bytes => (UInt32.ofNat (beNat bytes)).toInt32

theorem getRange_add {data} {offset n} : getRange data offset (offset + n) =
    if offset + n ≤ data.length then some (slice data offset n) else none := by
  simp [getRange]

/-! ### Checks of the encoders -/

/-- Add two `usize` values, if the sum is one. -/
def checkedAdd (a b : ℕ) : Option ℕ := if a + b ≤ usizeMax then some (a + b) else none

/-- The payload fits into one frame. -/
def ensurePayloadFitsMessage (payloadLen : ℕ) : Except ProtocolError Unit :=
  match checkedAdd minBodySize payloadLen with
  | none => .error (.messageTooLarge usizeMax)
  | some bodyLen =>
    if maxPayloadSize < payloadLen ∨ maxMessageSize < bodyLen then .error (.messageTooLarge bodyLen)
    else .ok ()

/-- Add to the length of a payload. -/
def checkedPayloadLenAdd (total add : ℕ) : Except ProtocolError ℕ :=
  match checkedAdd total add with
  | none => .error (.messageTooLarge usizeMax)
  | some total => .ok total

/-- A length that a `u16` can hold. -/
def ensureU16Len (field : String) (len : ℕ) : Except ProtocolError UInt16 :=
  if 2 ^ 16 - 1 < len then .error (.payloadTooLarge field len) else .ok (.ofNat len)

/-- A length that a `u32` can hold. -/
def ensureU32Len (field : String) (len : ℕ) : Except ProtocolError UInt32 :=
  if 2 ^ 32 - 1 < len then .error (.payloadTooLarge field len) else .ok (.ofNat len)

/-- A number of elements that a `u16` can hold. -/
def ensureU16Count (field : String) (count : ℕ) : Except ProtocolError UInt16 :=
  if 2 ^ 16 - 1 < count then .error (.payloadCountTooLarge field count) else .ok (.ofNat count)

/-- A number of elements that a `u32` can hold. -/
def ensureU32Count (field : String) (count : ℕ) : Except ProtocolError UInt32 :=
  if 2 ^ 32 - 1 < count then .error (.payloadCountTooLarge field count) else .ok (.ofNat count)

section

variable {field : String} {len count : ℕ}

theorem ensureU16Len_eq_ok {x} : ensureU16Len field len = .ok x ↔ len < 2 ^ 16 ∧
    x = .ofNat len := by
  rw [ensureU16Len, refuse_eq_ok, Except.ok.injEq, eq_comm]
  exact and_congr_left' (by omega)

theorem ensureU32Len_eq_ok {x} : ensureU32Len field len = .ok x ↔ len < 2 ^ 32 ∧
    x = .ofNat len := by
  rw [ensureU32Len, refuse_eq_ok, Except.ok.injEq, eq_comm]
  exact and_congr_left' (by omega)

theorem ensureU16Count_eq_ok {x} : ensureU16Count field count = .ok x ↔ count < 2 ^ 16 ∧
    x = .ofNat count := by
  rw [ensureU16Count, refuse_eq_ok, Except.ok.injEq, eq_comm]
  exact and_congr_left' (by omega)

theorem ensureU32Count_eq_ok {x} : ensureU32Count field count = .ok x ↔ count < 2 ^ 32 ∧
    x = .ofNat count := by
  rw [ensureU32Count, refuse_eq_ok, Except.ok.injEq, eq_comm]
  exact and_congr_left' (by omega)

theorem checkedPayloadLenAdd_eq_ok {total add sum} :
    checkedPayloadLenAdd total add = .ok sum ↔ total + add ≤ usizeMax ∧ sum = total + add := by
  unfold checkedPayloadLenAdd checkedAdd
  by_cases hsum : total + add ≤ usizeMax
  · rw [if_pos hsum, Except.ok.injEq, eq_comm, and_iff_right hsum]
  · rw [if_neg hsum]
    exact ⟨nofun, fun h => absurd h.1 hsum⟩

/-- The sum over a list of lengths. -/
theorem foldlM_checkedPayloadLenAdd_eq_ok {lens : List ℕ} {payloadLen sum : ℕ}
    (hstart : payloadLen ≤ usizeMax) : lens.foldlM checkedPayloadLenAdd payloadLen = .ok sum ↔
      payloadLen + lens.sum ≤ usizeMax ∧ sum = payloadLen + lens.sum := by
  induction lens generalizing payloadLen with
  | nil =>
    constructor
    · intro h
      exact ⟨hstart, (Except.ok.inj h).symm⟩
    · rintro ⟨-, rfl⟩
      rfl
  | cons len lens ih =>
    rw [foldlM_cons, sum_cons, bind_eq_ok, ← Nat.add_assoc]
    simp only [checkedPayloadLenAdd_eq_ok]
    constructor
    · rintro ⟨mid, ⟨hmid, rfl⟩, hrest⟩
      exact (ih hmid).mp hrest
    · rintro ⟨hsum, rfl⟩
      exact ⟨_, ⟨by omega, rfl⟩, (ih (by omega)).mpr ⟨hsum, rfl⟩⟩

theorem ensurePayloadFitsMessage_eq_ok {payloadLen} {u} :
    ensurePayloadFitsMessage payloadLen = .ok u ↔ payloadLen ≤ maxPayloadSize := by
  unfold ensurePayloadFitsMessage checkedAdd
  by_cases hsum : minBodySize + payloadLen ≤ usizeMax
  · rw [if_pos hsum]
    rw [refuse_eq_ok, and_iff_left rfl]
    simp only [maxPayloadSize, maxMessageSize, minBodySize]
    omega
  · rw [if_neg hsum]
    refine ⟨nofun, fun hfits => absurd ?_ hsum⟩
    simp only [usizeMax, maxPayloadSize, maxMessageSize, minBodySize] at hfits ⊢
    omega

end

/-! ### Integers on the wire -/

/-- A `u16`, most significant byte first. -/
def u16Bytes (x : UInt16) : Bytes := beBytes 2 x.toNat

/-- A `u32`, most significant byte first. -/
def u32Bytes (x : UInt32) : Bytes := beBytes 4 x.toNat

/-- An `i32` in two's complement, most significant byte first. -/
def i32Bytes (x : Int32) : Bytes := u32Bytes x.toUInt32

@[simp] theorem length_u16Bytes : (u16Bytes x).length = 2 := length_beBytes 2 _

@[simp] theorem length_u32Bytes (x : UInt32) : (u32Bytes x).length = 4 := length_beBytes 4 _

@[simp] theorem length_i32Bytes (x : Int32) : (i32Bytes x).length = 4 := length_u32Bytes _

theorem ofNat_beNat_u16Bytes : UInt16.ofNat (beNat (u16Bytes x)) = x := by
  rw [u16Bytes, beNat_beBytes_of_lt x.toNat_lt, UInt16.ofNat_toNat]

theorem ofNat_beNat_u32Bytes (x : UInt32) : UInt32.ofNat (beNat (u32Bytes x)) = x := by
  rw [u32Bytes, beNat_beBytes_of_lt x.toNat_lt, UInt32.ofNat_toNat]

theorem toNat_ofNat_beNat (h : bytes.length = 4) :
    (UInt32.ofNat (beNat bytes)).toNat = beNat bytes := by
  have hlt := beNat_lt bytes
  rw [h] at hlt
  exact UInt32.toNat_ofNat_of_lt' hlt

theorem u16Bytes_ofNat_beNat (h : bytes.length = 2) :
    u16Bytes (UInt16.ofNat (beNat bytes)) = bytes := by
  have hlt := beNat_lt bytes
  rw [h] at hlt
  rw [u16Bytes, UInt16.toNat_ofNat_of_lt' hlt, beBytes_beNat h]

theorem u32Bytes_ofNat_beNat (h : bytes.length = 4) :
    u32Bytes (UInt32.ofNat (beNat bytes)) = bytes := by
  rw [u32Bytes, toNat_ofNat_beNat h, beBytes_beNat h]

end Okou.GuestControl
