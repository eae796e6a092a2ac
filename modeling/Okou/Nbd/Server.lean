import Okou.Lib.Stream
import Okou.Nbd.Protocol

/-!
# The NBD dispatch loop

`server.rs`: read a request header from the socket, serve the request through
the COW handle, write the reply, again.  The dispatcher runs over a connection:
the arrivals of the socket, its outbox, the shutdown token, the reusable payload
buffer and the state of the COW handle.  The handle is any `CowDevice`; what its
calls do, and when they fail, is up to its state.
-/

namespace Okou.Nbd

/-! ### The COW handle -/

/-- The calls of the COW handle over a state `σ`.  A read fills the buffer it is
given, whatever that held before; a write hands its buffer back. -/
structure CowDevice (σ : Type*) where
  read : σ → ℕ → Bytes → σ × Except NbdCowError Bytes
  write : σ → ℕ → Bytes → σ × Except NbdCowError Bytes
  sync : σ → σ × Except NbdCowError Unit
  read_congr : ∀ s offset (buf buf' : Bytes), buf.length = buf'.length →
    read s offset buf = read s offset buf'
  length_read : ∀ s offset buf s' out, read s offset buf = (s', .ok out) → out.length = buf.length
  write_back : ∀ s offset data s' out, write s offset data = (s', .ok out) → out = data

/-! ### The connection -/

/-- `MAX_REQUEST_LENGTH`: 32 MiB. -/
def maxRequestLength : UInt32 := 32 * 1024 * 1024

/-- `MAX_REUSABLE_PAYLOAD_LENGTH`: 1 MiB. -/
def maxReusablePayloadLength : ℕ := 1024 * 1024

/-- `crate::BLOCK_SIZE`. -/
def defaultBlockSize : ℕ := 4096

def eio : UInt32 := 5

/-- A `Vec<u8>`: its contents, and the capacity that decides about its reuse. -/
structure VecBuf where
  data : Bytes
  capacity : ℕ

/-- The shutdown token: how many more times it is polled before it is cancelled,
or `none` if it never is. -/
abbrev ShutdownToken := Option ℕ

/-- `shutdown.cancelled()` as a biased `select!` polls it. -/
def ShutdownToken.poll : ShutdownToken → ShutdownToken × Bool
  | none => (none, false)
  | some 0 => (some 0, true)
  | some (n + 1) => (some n, false)

/-- One connection of the dispatcher. -/
structure Conn (σ : Type*) where
  reader : List (Arrival IoError)
  writer : Outbox IoError
  shutdown : ShutdownToken
  payloadBuf : VecBuf
  cow : σ

inductive IoOutcome
  | complete
  | shutdown
  deriving DecidableEq, Repr

/-- `HandlerOutcome`; `proceed` is the source's `Continue`. -/
inductive HandlerOutcome
  | proceed
  | shutdown
  deriving DecidableEq, Repr

def handlerOutcome : IoOutcome → HandlerOutcome
  | .complete => .proceed
  | .shutdown => .shutdown

section Dispatch

variable {σ : Type*}

/-! ### Socket input and output -/

/-- The loop of `read_exact_or_shutdown`.  Every round fills at least one byte, so
the length of the buffer bounds the rounds. -/
def readExactLoop : ℕ → Bytes → ℕ → Conn σ → Conn σ × Except NbdCowError (IoOutcome × Bytes)
  | 0, buf, _, c => (c, .ok (.complete, buf))
  | fuel + 1, buf, filled, c =>
    if filled < buf.length then
      match c.shutdown.poll with
      | (token, true) => ({ c with shutdown := token }, .ok (.shutdown, buf))
      | (token, false) =>
        match recv (buf.length - filled) c.reader with
        | (reader, .error e) => ({ c with shutdown := token, reader := reader }, .error (.io e))
        | (reader, .ok []) =>
          ({ c with shutdown := token, reader := reader },
            .error (.io ⟨.unexpectedEof, "failed to fill whole buffer"⟩))
        | (reader, .ok (b :: bs)) =>
          readExactLoop fuel (splice buf filled (b :: bs)) (filled + (b :: bs).length)
            { c with shutdown := token, reader := reader }
    else (c, .ok (.complete, buf))

/-- `read_exact_or_shutdown`: fill `buf`. -/
def readExactOrShutdown (buf : Bytes) (c : Conn σ) :
    Conn σ × Except NbdCowError (IoOutcome × Bytes) :=
  readExactLoop buf.length buf 0 c

/-- The error of a write that takes nothing. -/
def writeZeroError : NbdCowError := .io ⟨.writeZero, "failed to write whole buffer"⟩

/-- The loop of `write_all_vectored_or_shutdown` over the remaining slices; every
round takes at least one byte. -/
def writeSlicesLoop : ℕ → List Bytes → Conn σ → Conn σ × Except NbdCowError IoOutcome
  | _, [], c => (c, .ok .complete)
  | 0, _ :: _, c => (c, .ok .complete)
  | fuel + 1, remaining@(_ :: _), c =>
    match c.shutdown.poll with
    | (token, true) => ({ c with shutdown := token }, .ok .shutdown)
    | (token, false) =>
      match c.writer.send remaining.flatten with
      | (writer, .error e) => ({ c with shutdown := token, writer := writer }, .error (.io e))
      | (writer, .ok 0) => ({ c with shutdown := token, writer := writer }, .error writeZeroError)
      | (writer, .ok (n + 1)) =>
        writeSlicesLoop fuel (advanceSlices remaining (n + 1))
          { c with shutdown := token, writer := writer }

def writeAllVectoredOrShutdown (header payload : Bytes) (c : Conn σ) :
    Conn σ × Except NbdCowError IoOutcome :=
  writeSlicesLoop (header.length + payload.length) [header, payload] c

/-- The loop of `write_all_or_shutdown`; every round takes at least one byte. -/
def writeAllLoop : ℕ → Bytes → Conn σ → Conn σ × Except NbdCowError IoOutcome
  | _, [], c => (c, .ok .complete)
  | 0, _ :: _, c => (c, .ok .complete)
  | fuel + 1, buf@(_ :: _), c =>
    match c.shutdown.poll with
    | (token, true) => ({ c with shutdown := token }, .ok .shutdown)
    | (token, false) =>
      match c.writer.send buf with
      | (writer, .error e) => ({ c with shutdown := token, writer := writer }, .error (.io e))
      | (writer, .ok 0) => ({ c with shutdown := token, writer := writer }, .error writeZeroError)
      | (writer, .ok (n + 1)) =>
        writeAllLoop fuel (buf.drop (n + 1)) { c with shutdown := token, writer := writer }

def writeAllOrShutdown (buf : Bytes) (c : Conn σ) : Conn σ × Except NbdCowError IoOutcome :=
  writeAllLoop buf.length buf c

def sendReply (reply : NbdReply) (c : Conn σ) : Conn σ × Except NbdCowError IoOutcome :=
  writeAllOrShutdown (serializeReply reply) c

def successReply (handle : UInt64) : NbdReply := ⟨0, handle⟩

def sendSuccessReply (handle : UInt64) (c : Conn σ) : Conn σ × Except NbdCowError IoOutcome :=
  sendReply (successReply handle) c

def sendErrorReply (handle : UInt64) (error : UInt32) (c : Conn σ) :
    Conn σ × Except NbdCowError IoOutcome :=
  sendReply ⟨error, handle⟩ c

/-- `.map(handler_outcome)` behind the last write of a handler. -/
def finish (r : Conn σ × Except NbdCowError IoOutcome) :
  Conn σ × Except NbdCowError HandlerOutcome := (r.1, r.2.map handlerOutcome)

/-- The loop of `discard_bytes`, at most 4096 bytes a round.  The buffer is the
one the rounds share. -/
def discardLoop : ℕ → ℕ → Bytes → Conn σ → Conn σ × Except NbdCowError IoOutcome
  | 0, _, _, c => (c, .ok .complete)
  | fuel + 1, remaining, buf, c =>
    if 0 < remaining then
      let toRead := min remaining buf.length
      match readExactOrShutdown (buf.take toRead) c with
      | (c, .error e) => (c, .error e)
      | (c, .ok (.shutdown, _)) => (c, .ok .shutdown)
      | (c, .ok (.complete, dest)) => discardLoop fuel (remaining - toRead) (splice buf 0 dest) c
    else (c, .ok .complete)

def discardBytes (remaining : ℕ) (c : Conn σ) : Conn σ × Except NbdCowError IoOutcome :=
  discardLoop remaining remaining (List.replicate 4096 0) c

/-! ### The payload buffer -/

variable (capacityFor : ℕ → ℕ)

/-- `vec![0u8; len]`; the allocator may round the capacity up. -/
def VecBuf.zeroed (len : ℕ) : VecBuf := ⟨List.replicate len 0, capacityFor len⟩

/-- What `std::mem::take` leaves. -/
def VecBuf.empty : VecBuf := ⟨[], 0⟩

def resizeReusablePayload (payloadBuf : VecBuf) (len : ℕ) : VecBuf :=
  if payloadBuf.capacity < len then .zeroed capacityFor len
  else ⟨payloadBuf.data.take len ++ List.replicate (len - payloadBuf.data.length) 0,
    payloadBuf.capacity⟩

def resetReusablePayloadIfOversized (payloadBuf : VecBuf) : VecBuf :=
  if maxReusablePayloadLength < payloadBuf.capacity then ⟨[], capacityFor defaultBlockSize⟩
  else payloadBuf

/-! ### The handlers -/

variable (dev : CowDevice σ)

variable (request : NbdRequest) (data : VecBuf) (c : Conn σ)

/-- `read_and_reply`: read through the handle into `data`, and send the reply. -/
def readAndReply : Conn σ × VecBuf × Except NbdCowError HandlerOutcome :=
  match dev.read c.cow request.offset.toNat data.data with
  | (cow, .error _) =>
    let (c, result) := finish (sendErrorReply request.handle eio { c with cow := cow })
    (c, .empty, result)
  | (cow, .ok readBuffer) =>
    let replyBuf := serializeReply (successReply request.handle)
    let (c, result) :=
      if readBuffer = [] then finish (writeAllOrShutdown replyBuf { c with cow := cow })
      else finish (writeAllVectoredOrShutdown replyBuf readBuffer { c with cow := cow })
    (c, ⟨readBuffer, data.capacity⟩, result)

def handleRead : Conn σ × Except NbdCowError HandlerOutcome :=
  if maxRequestLength < request.length then finish (sendErrorReply request.handle eio c)
  else
    let len := request.length.toNat
    if len ≤ maxReusablePayloadLength then
      let (c, data, result) :=
        readAndReply dev request (resizeReusablePayload capacityFor c.payloadBuf len) c
      ({ c with payloadBuf := resetReusablePayloadIfOversized capacityFor data }, result)
    else
      let (c, _, result) := readAndReply dev request (.zeroed capacityFor len) c
      (c, result)

/-- `read_and_apply_write`: read the payload into `data`, apply it, and send the
reply. -/
def readAndApplyWrite : Conn σ × VecBuf × Except NbdCowError HandlerOutcome :=
  match readExactOrShutdown data.data c with
  | (c, .error e) => (c, data, .error e)
  | (c, .ok (.shutdown, buf)) => (c, ⟨buf, data.capacity⟩, .ok .shutdown)
  | (c, .ok (.complete, buf)) =>
    match dev.write c.cow request.offset.toNat buf with
    | (cow, .error _) =>
      let (c, result) := finish (sendErrorReply request.handle eio { c with cow := cow })
      (c, .empty, result)
    | (cow, .ok writeBuffer) =>
      let (c, result) := finish (sendSuccessReply request.handle { c with cow := cow })
      (c, ⟨writeBuffer, data.capacity⟩, result)

def handleWrite : Conn σ × Except NbdCowError HandlerOutcome :=
  if maxRequestLength < request.length then
    -- the payload is consumed to keep the stream in sync
    match discardBytes request.length.toNat c with
    | (c, .error e) => (c, .error e)
    | (c, .ok .shutdown) => (c, .ok .shutdown)
    | (c, .ok .complete) => finish (sendErrorReply request.handle eio c)
  else
    let len := request.length.toNat
    if len ≤ maxReusablePayloadLength then
      let (c, data, result) :=
        readAndApplyWrite dev request (resizeReusablePayload capacityFor c.payloadBuf len) c
      ({ c with payloadBuf := resetReusablePayloadIfOversized capacityFor data }, result)
    else
      let (c, _, result) := readAndApplyWrite dev request (.zeroed capacityFor len) c
      (c, result)

def handleFlush : Conn σ × Except NbdCowError HandlerOutcome :=
  match dev.sync c.cow with
  | (cow, .error _) => finish (sendErrorReply request.handle eio { c with cow := cow })
  | (cow, .ok ()) => finish (sendSuccessReply request.handle { c with cow := cow })

/-- `handle_trim`: a trim only succeeds. -/
def handleTrim : Conn σ × Except NbdCowError HandlerOutcome :=
  finish (sendSuccessReply request.handle c)

/-! ### The loop -/

/-- `sync_cow_on_shutdown`, and the return of the loop behind it. -/
def syncAndReturn : Conn σ × Option (Except NbdCowError Unit) :=
  match dev.sync c.cow with
  | (cow, result) => ({ c with cow := cow }, some result)

/-- The handler of a request; a disconnect has none. -/
def handle : Option (Conn σ × Except NbdCowError HandlerOutcome) :=
  match request.command with
  | .read => some (handleRead capacityFor dev request c)
  | .write => some (handleWrite capacityFor dev request c)
  | .flush => some (handleFlush dev request c)
  | .trim => some (handleTrim request c)
  | .disconnect => none

/-- One round of the loop of `dispatch`: `none` to go on, or what it returns. -/
def dispatchStep : Conn σ × Option (Except NbdCowError Unit) :=
  match readExactOrShutdown (List.replicate requestHeaderSize 0) c with
  | (c, .ok (.shutdown, _)) => syncAndReturn dev c
  | (c, .error (.io e)) =>
    if e.kind = .unexpectedEof then (c, some (.ok ())) else (c, some (.error (.io e)))
  | (c, .error e) => (c, some (.error e))
  | (c, .ok (.complete, headerBuf)) =>
    match parseRequest headerBuf with
    | .error e => (c, some (.error (.protocol e)))
    | .ok request =>
      match handle capacityFor dev request c with
      | none => syncAndReturn dev c
      | some (c, .error e) => (c, some (.error e))
      | some (c, .ok .shutdown) => syncAndReturn dev c
      | some (c, .ok .proceed) => (c, none)

/-- `dispatch`, for at most `rounds` rounds of its loop; `none` while it has not
returned. -/
def dispatch : ℕ → Conn σ → Conn σ × Option (Except NbdCowError Unit)
  | 0, c => (c, none)
  | rounds + 1, c =>
    match dispatchStep capacityFor dev c with
    | (c, none) => dispatch rounds c
    | (c, some result) => (c, some result)

end Dispatch

end Okou.Nbd
