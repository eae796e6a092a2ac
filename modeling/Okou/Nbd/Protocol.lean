import Okou.Nbd.File

/-!
# The NBD transmission protocol

`protocol_impl.rs`: the 28-byte request header, the 16-byte reply header and
their big-endian fields.
-/

namespace Okou.Nbd

open List

def requestMagic : UInt32 := 0x25609513

def replyMagic : UInt32 := 0x67446698

def requestHeaderSize : ℕ := 28

def replyHeaderSize : ℕ := 16

/-- NBD command types. -/
inductive Command
  | read
  | write
  | disconnect
  | flush
  | trim
  deriving DecidableEq, Repr

def Command.fromU16 (val : UInt16) : Except ProtocolError Command :=
  if val = 0 then .ok .read
  else if val = 1 then .ok .write
  else if val = 2 then .ok .disconnect
  else if val = 3 then .ok .flush
  else if val = 4 then .ok .trim
  else .error (.unknownCommand val.toNat)

/-- The wire encoding of a command: its discriminant. -/
def Command.toU16 : Command → UInt16
  | .read => 0
  | .write => 1
  | .disconnect => 2
  | .flush => 3
  | .trim => 4

theorem Command.fromU16_toU16 (c) : fromU16 c.toU16 = .ok c := by
  cases c <;> rfl

structure NbdRequest where
  command : Command
  handle : UInt64
  offset : UInt64
  length : UInt32
  deriving DecidableEq, Repr

structure NbdReply where
  error : UInt32
  handle : UInt64
  deriving DecidableEq, Repr

variable (buf : Bytes) (offset : ℕ)

def readU16 : UInt16 := .ofNat (beNat (slice buf offset 2))

def readU32 : UInt32 := .ofNat (beNat (slice buf offset 4))

def readU64 : UInt64 := .ofNat (beNat (slice buf offset 8))

def writeU32 (value : UInt32) : Bytes :=
  splice buf offset (beBytes 4 value.toNat)

def writeU64 (value : UInt64) : Bytes :=
  splice buf offset (beBytes 8 value.toNat)

def parseRequest : Except ProtocolError NbdRequest :=
  if buf.length < requestHeaderSize then
    .error (.bufferTooShort requestHeaderSize buf.length)
  else
    let header := buf.take requestHeaderSize
    let magic := readU32 header 0
    if magic ≠ requestMagic then .error (.invalidRequestMagic magic.toNat)
    else
      match Command.fromU16 (readU16 header 6) with
      | .error e => .error e
      | .ok command =>
        .ok ⟨command, readU64 header 8, readU64 header 16, readU32 header 24⟩

def serializeReply (reply : NbdReply) : Bytes :=
  writeU64 (writeU32 (writeU32 (List.replicate replyHeaderSize 0) 0 replyMagic) 4 reply.error) 8
    reply.handle

/-- A well-formed request on the wire: a header with any flags, and a payload of
the announced length behind a write. -/
structure WireRequest where
  flags : UInt16
  request : NbdRequest
  payload : Bytes
  length_payload : payload.length = if request.command = .write then request.length.toNat else 0

namespace WireRequest

variable (r : WireRequest)

/-- The header of a request. -/
def header (r : WireRequest) : Bytes :=
  beBytes 4 requestMagic.toNat ++ (beBytes 2 r.flags.toNat ++
    (beBytes 2 r.request.command.toU16.toNat
    ++ (beBytes 8 r.request.handle.toNat ++ (beBytes 8 r.request.offset.toNat
    ++ beBytes 4 r.request.length.toNat))))

/-- The bytes of a request. -/
def bytes (r : WireRequest) : Bytes := r.header ++ r.payload

@[simp] theorem length_header : r.header.length = requestHeaderSize := by
  simp [header, requestHeaderSize]

end WireRequest

variable {a b : Bytes} {off n : ℕ}

/-- A slice behind the first part of a string. -/
theorem slice_append_right (h : a.length ≤ off) :
    slice (a ++ b) off n = slice b (off - a.length) n := by
  rw [slice, slice, drop_append, drop_eq_nil_of_le h, nil_append]

/-- A slice that is the first part of a string. -/
theorem slice_append_left (h : a.length = n) : slice (a ++ b) 0 n = a := by
  rw [slice, drop_zero, ← h, take_left]

theorem slice_full (h : a.length = n) : slice a 0 n = a := by
  rw [slice, drop_zero, ← h, take_length]

theorem readU32_beBytes (x) (h : slice b off 4 = beBytes 4 x.toNat) : readU32 b off = x := by
  rw [readU32, h, beNat_beBytes_of_lt x.toNat_lt, UInt32.ofNat_toNat]

theorem readU16_beBytes (x) (h : slice b off 2 = beBytes 2 x.toNat) : readU16 b off = x := by
  rw [readU16, h, beNat_beBytes_of_lt x.toNat_lt, UInt16.ofNat_toNat]

theorem readU64_beBytes (x) (h : slice b off 8 = beBytes 8 x.toNat) : readU64 b off = x := by
  rw [readU64, h, beNat_beBytes_of_lt x.toNat_lt, UInt64.ofNat_toNat]

/-- **Parsing the header of a well-formed request returns the request.** -/
theorem parseRequest_header (r : WireRequest) : parseRequest r.header = .ok r.request := by
  have hfields : readU32 r.header 0 = requestMagic ∧ readU16 r.header 6 = r.request.command.toU16 ∧
      readU64 r.header 8 = r.request.handle ∧ readU64 r.header 16 = r.request.offset ∧
      readU32 r.header 24 = r.request.length := by
    refine ⟨readU32_beBytes _ ?_, readU16_beBytes _ ?_, readU64_beBytes _ ?_, readU64_beBytes _ ?_,
      readU32_beBytes _ ?_⟩ <;> unfold WireRequest.header <;>
    simp (disch := simp) only [slice_append_right, slice_append_left, slice_full, length_beBytes,
      Nat.reduceSub]
  obtain ⟨hmagic, hcmd, hhandle, hoffs, hlength⟩ := hfields
  have htake : r.header.take requestHeaderSize = r.header :=
    take_of_length_le (le_of_eq r.length_header)
  unfold parseRequest
  rw [if_neg (by simp)]
  simp [htake, hmagic, hcmd, Command.fromU16_toU16, hhandle, hoffs, hlength]

/-- The layout of a reply. -/
theorem serializeReply_eq (reply) : serializeReply reply
      = beBytes 4 replyMagic.toNat ++ (beBytes 4 reply.error.toNat ++
        beBytes 8 reply.handle.toNat) := by
  simp [serializeReply, writeU64, writeU32, splice, replyHeaderSize, take_append,
    take_of_length_le]

end Okou.Nbd
