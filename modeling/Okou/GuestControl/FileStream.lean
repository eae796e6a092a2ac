import Okou.GuestControl.Frame
import Okou.Lib.Machine

/-!
# Credit-bounded file streams

A compressed file travels from a host `Transfer` to a guest `Input` in data frames of at most
64 KiB.  The guest lets the host send four of them ahead: it grants four credits when its worker
has started, and one more each time the worker has read a frame to its end.  Both sides hand over
through bounded channels that are never waited on: a frame or a credit that finds its channel full
is an error.

The machine runs one `Transfer` against one `Input`.  Four parties take turns in any order: the
host's sender, the host's receive loop (which delivers credits), the guest's connection loop (which
accepts frames) and the guest's worker (which reads).  An accept is one step: its debit and its
`try_send` touch the credit counter and the far end of the queue, where the worker's own steps
commute with them.  The worker's return of a credit is two steps, the counter and the frame.
-/

namespace Okou.GuestControl.FileStream

open List

def msgWriteFileStreamData : UInt8 := 0x23

def msgWriteFileStreamEnd : UInt8 := 0x24

def msgWriteFileStreamCredit : UInt8 := 0x25

/-- The largest data frame. -/
def block : ℕ := 64 * 1024

/-- The number of frames in flight. -/
def window : ℕ := 4

/-- The largest encoded stream. -/
def maxEncoded : ℕ := 16 * 1024 * 1024

/-- Send on a bounded channel without waiting; nothing if it is full. -/
def trySend {α : Type*} (capacity : ℕ) (channel : List α) (value : α) : Option (List α) :=
  if channel.length < capacity then some (channel ++ [value]) else none

theorem trySend_of_lt {α : Type*} {capacity} {channel} (value : α)
    (h : channel.length < capacity) : trySend capacity channel value = some (channel ++ [value]) :=
  if_pos h

/-! ### The guest's connection loop -/

/-- The guest's end of a stream.  The counter `credits` is shared with the worker, which also takes
from the front of `queue`. -/
structure Ingress where
  seq : UInt32
  queue : List (Option Bytes)
  credits : ℕ
  bytes : ℕ
  ended : Bool
deriving DecidableEq, Repr

/-- The end of `begin`: a stream with its whole window. -/
def Ingress.begin (seq : UInt32) : Ingress := ⟨seq, [], window, 0, false⟩

/-- Put a frame or the end of the stream into the queue, which has one slot more than the window. -/
def Ingress.enqueue (input : Ingress) (item : Option Bytes) : Ingress × Except String Unit :=
  match trySend (window + 1) input.queue item with
  | none => (input, .error "sending on a full channel")
  | some queue => ({ input with queue := queue }, .ok ())

/-- `Streams::accept`: what it leaves in the slot, and its result. -/
def accept (slot : Option Ingress) (msg : RawMessage) : Option Ingress × Except String Unit :=
  match slot with
  | none => (none, .error "no active stream")
  | some input =>
    if input.seq ≠ msg.seq ∨ input.ended = true then
      (some input, .error "stream sequence or end mismatch")
    else if msg.msgType = msgWriteFileStreamEnd then
      if msg.payload ≠ [] then (some input, .error "nonempty stream end")
      else
        let (input, result) := { input with ended := true }.enqueue none
        (some input, result)
    else if msg.payload = [] ∨ block < msg.payload.length then
      (some input, .error "invalid data frame size")
    else if input.credits = 0 then (some input, .error "stream exceeded credit")
    else
      let input := { input with
        credits := input.credits - 1
        bytes := input.bytes + msg.payload.length }
      if maxEncoded < input.bytes then (some input, .error "encoded stream exceeds request bound")
      else
        let (input, result) := input.enqueue (some msg.payload)
        (some input, result)

/-! ### The host's receive loop -/

/-- `dispatch_credit`: the route afterwards, and whether the message was a credit.  A route is the
sequence number of the transfer and its channel of counts. -/
def dispatchCredit (route : Option (UInt32 × List UInt8)) (msg : RawMessage) :
    Except String (Option (UInt32 × List UInt8) × Bool) :=
  if msg.msgType ≠ msgWriteFileStreamCredit then .ok (route, false)
  else
    match msg.payload with
    | [count] =>
      if count = 0 ∨ window < count.toNat then .error "invalid file stream credit"
      else
        match route with
        -- a late credit, after the transfer was abandoned
        | none => .ok (none, true)
        | some (seq, channel) =>
          if seq ≠ msg.seq then .error "file stream credit sequence mismatch"
          else
            match trySend (window + 1) channel count with
            | none => .error "file stream credit overflow"
            | some channel => .ok (some (seq, channel), true)
    | _ => .error "invalid file stream credit"

/-! ### The machine -/

/-- Where `Transfer::send` is. -/
inductive SendPhase
  /-- waiting for the first grant -/
  | admission
  /-- asking the encoder for a chunk -/
  | pulling
  /-- with a chunk to send -/
  | holding (bytes : Bytes)
  /-- the end frame is written -/
  | ended
deriving DecidableEq, Repr

structure Transfer where
  phase : SendPhase
  /-- what the encoder has still to produce -/
  pending : List Bytes
  credits : ℕ
  /-- delivered counts that `send` has not taken -/
  channel : List UInt8
deriving DecidableEq, Repr

/-- Where the guest's worker is. -/
inductive ReadPhase
  /-- before `grant_initial` -/
  | starting
  /-- at the top of the loop of a `read`, or between two of them -/
  | reading
  /-- in a `read` that has returned a credit to the counter and not yet to the host -/
  | crediting
deriving DecidableEq, Repr

structure Input where
  phase : ReadPhase
  /-- what the cursor has left -/
  current : Bytes
  consumedFrame : Bool
  ended : Bool
deriving DecidableEq, Repr

inductive Fault
  /-- the host cannot frame a chunk -/
  | encode (error : ProtocolError)
  /-- the guest refuses a frame -/
  | accept (error : String)
  /-- the host refuses a credit -/
  | credit (error : String)
deriving DecidableEq, Repr

structure Flow where
  transfer : Transfer
  /-- frames on their way to the guest -/
  toGuest : List RawMessage
  ingress : Ingress
  input : Input
  /-- frames on their way to the host -/
  toHost : List RawMessage
  /-- what the worker's reads have returned -/
  output : Bytes
  /-- a read has returned zero bytes into a buffer with room -/
  sawEnd : Bool
  fault : Option Fault
deriving DecidableEq, Repr

def Flow.init (seq : UInt32) (chunks : List Bytes) : Flow where
  transfer := ⟨.admission, chunks, 0, []⟩
  toGuest := []
  ingress := .begin seq
  input := ⟨.starting, [], false, false⟩
  toHost := []
  output := []
  sawEnd := false
  fault := none

inductive FlowEvent
  /-- `next_credit` returns -/
  | nextCredit
  /-- the encoder yields its next chunk, or has none left and the end frame is written -/
  | pull
  /-- a data frame is written -/
  | send
  /-- the guest's connection loop takes a frame -/
  | accept
  /-- the host's receive loop takes a credit -/
  | deliver
  /-- `grant_initial` -/
  | grant
  /-- an iteration of a read into a buffer -/
  | read (size : ℕ)
  /-- the worker writes the frame of a returned credit -/
  | writeCredit
deriving DecidableEq, Repr

def dataMessage (seq : UInt32) (bytes : Bytes) : RawMessage := ⟨msgWriteFileStreamData, seq, bytes⟩

def endMessage (seq : UInt32) : RawMessage := ⟨msgWriteFileStreamEnd, seq, []⟩

def creditMessage (seq : UInt32) (count : UInt8) : RawMessage :=
  ⟨msgWriteFileStreamCredit, seq, [count]⟩

namespace Flow

variable (s : Flow) (seq : UInt32)

/-- `next_credit`: the count replaces the credits, which are only asked for when there are none. -/
def nextCredit (s : Flow) : Option Flow :=
  match s.transfer.channel with
  | [] => none
  | count :: channel =>
    let transfer := { s.transfer with credits := count.toNat, channel := channel }
    match s.transfer.phase with
    | .admission => some { s with transfer := { transfer with phase := .pulling } }
    | .holding _ => if s.transfer.credits = 0 then some { s with transfer := transfer } else none
    | _ => none

/-- Write a frame towards the guest. -/
def transmit (s : Flow) (msg : RawMessage) (transfer : Transfer) : Flow :=
  match encode msg.msgType msg.seq msg.payload with
  | .error error => { s with fault := some (.encode error) }
  | .ok _ => { s with transfer := transfer, toGuest := s.toGuest ++ [msg] }

def pull (seq : UInt32) (s : Flow) : Option Flow :=
  match s.transfer.phase, s.transfer.pending with
  | .pulling, bytes :: pending =>
    some { s with transfer := { s.transfer with phase := .holding bytes, pending := pending } }
  | .pulling, [] => some (s.transmit (endMessage seq) { s.transfer with phase := .ended })
  | _, _ => none

def send (seq : UInt32) (s : Flow) : Option Flow :=
  match s.transfer.phase with
  | .holding bytes =>
    if s.transfer.credits = 0 then none
    else some (s.transmit (dataMessage seq bytes)
      { s.transfer with phase := .pulling, credits := s.transfer.credits - 1 })
  | _ => none

/-- The guest's connection loop takes the next frame. -/
def acceptNext (s : Flow) : Option Flow :=
  match s.toGuest with
  | [] => none
  | msg :: toGuest =>
    match FileStream.accept (some s.ingress) msg with
    | (some ingress, .ok _) => some { s with toGuest := toGuest, ingress := ingress }
    | (_, .error error) => some { s with toGuest := toGuest, fault := some (.accept error) }
    | (none, .ok _) => none

/-- The host's receive loop takes the next credit. -/
def deliver (seq : UInt32) (s : Flow) : Option Flow :=
  match s.toHost with
  | [] => none
  | msg :: toHost =>
    match dispatchCredit (some (seq, s.transfer.channel)) msg with
    | .ok (some (_, channel), _) =>
      some { s with toHost := toHost, transfer := { s.transfer with channel := channel } }
    | .ok (none, _) => none
    | .error error => some { s with toHost := toHost, fault := some (.credit error) }

/-- `Input::credit`, towards the host. -/
def credit (seq : UInt32) (s : Flow) (count : UInt8) : Flow :=
  { s with toHost := s.toHost ++ [creditMessage seq
    count], input := { s.input with phase := .reading } }

/-- An iteration of the loop of `Input::read` into a buffer of a size. -/
def read (s : Flow) (size : ℕ) : Flow :=
  if size = 0 then s
  else if s.input.current ≠ [] then
    { s with
      input := { s.input with current := s.input.current.drop size }
      output := s.output ++ s.input.current.take size }
  else if s.input.consumedFrame then
    { s with
      input := { s.input with consumedFrame := false, phase := .crediting }
      ingress := { s.ingress with credits := s.ingress.credits + 1 } }
  else if s.input.ended then { s with sawEnd := true }
  else
    match s.ingress.queue with
    -- the receive times out, and the loop goes round
    | [] => s
    | some bytes :: queue =>
      { s with
        input := { s.input with current := bytes, consumedFrame := true }
        ingress := { s.ingress with queue := queue } }
    | none :: queue =>
      { s with
        input := { s.input with ended := true }
        ingress := { s.ingress with queue := queue } }

/-- One step of one party.  A fault ends the run. -/
def step (seq : UInt32) (s : Flow) (event : FlowEvent) : Option Flow :=
  if s.fault.isSome then none
  else
    match event with
    | .nextCredit => s.nextCredit
    | .pull => s.pull seq
    | .send => s.send seq
    | .accept => s.acceptNext
    | .deliver => s.deliver seq
    | .grant => if s.input.phase = .starting then some (s.credit seq (.ofNat window)) else none
    | .read size => if s.input.phase = .reading then some (s.read size) else none
    | .writeCredit => if s.input.phase = .crediting then some (s.credit seq 1) else none

/-! ### Counting -/

/-- Data frames in the guest's queue. -/
def queuedFrames (s : Flow) : ℕ := s.ingress.queue.countP Option.isSome

/-- The frame that the reader holds, or none. -/
def heldFrames (s : Flow) : ℕ := if s.input.consumedFrame then 1 else 0

/-- The credits that a frame carries. -/
def creditsOf (msg : RawMessage) : ℕ := (msg.payload.map UInt8.toNat).sum

/-- Credits on their way to the sender: in frames, and delivered to its channel. -/
def undelivered (s : Flow) : ℕ :=
  (s.toHost.map creditsOf).sum + (s.transfer.channel.map UInt8.toNat).sum

end Flow

/-! ### What the receive loops accept -/

/-- What an encoder produces. -/
structure Encoded (chunks : List Bytes) : Prop where
  ne_nil : ∀ chunk ∈ chunks, chunk ≠ []
  le_block : ∀ chunk ∈ chunks, chunk.length ≤ block
  le_max : chunks.flatten.length ≤ maxEncoded

theorem accept_data {input} {bytes} (hended : input.ended = false) (hne : bytes ≠ [])
    (hblock : bytes.length ≤ block) (hcredit : 0 < input.credits)
    (hbytes : input.bytes + bytes.length ≤ maxEncoded)
    (hroom : input.queue.length < window + 1) : accept (some input) (dataMessage input.seq bytes) =
      (some { input with
        credits := input.credits - 1
        bytes := input.bytes + bytes.length
        queue := input.queue ++ [some bytes] }, .ok ()) := by
  have hkind : msgWriteFileStreamData ≠ msgWriteFileStreamEnd := by decide
  have hcred : input.credits ≠ 0 := Nat.pos_iff_ne_zero.mp hcredit
  have hblock : ¬block < bytes.length := Nat.not_lt.mpr hblock
  simp [accept, dataMessage, hended, hkind, hne, hblock, hcred, hbytes, Ingress.enqueue,
    trySend_of_lt, hroom]

theorem accept_end {input} (hended : input.ended = false)
    (hroom : input.queue.length < window + 1) : accept (some input) (endMessage input.seq) =
      (some { input with ended := true, queue := input.queue ++ [none] }, .ok ()) := by
  simp [accept, endMessage, hended, Ingress.enqueue, trySend_of_lt, hroom]

/-- A count that a credit frame may carry. -/
def IsCount (count : UInt8) : Prop := 1 ≤ count.toNat ∧ count.toNat ≤ window

instance : DecidablePred IsCount := fun count =>
  inferInstanceAs (Decidable (1 ≤ count.toNat ∧ count.toNat ≤ window))

theorem dispatchCredit_credit {seq} {channel} {count} (hcount : IsCount count)
    (hroom : channel.length < window + 1) :
    dispatchCredit (some (seq, channel)) (creditMessage seq count) =
      .ok (some (seq, channel ++ [count]), true) := by
  obtain ⟨hpos, hle⟩ := hcount
  have hne : count ≠ 0 := by
    rintro rfl
    exact absurd hpos (by decide)
  simp [dispatchCredit, creditMessage, hne, hle, trySend_of_lt, hroom]

/-- Counts are at least one each. -/
theorem length_le_sum {counts : List UInt8} (hcounts : ∀ count ∈ counts, IsCount count) :
    counts.length ≤ (counts.map UInt8.toNat).sum := by
  induction counts with
  | nil => exact Nat.le_refl 0
  | cons count counts ih =>
    obtain ⟨hcount, hrest⟩ := forall_mem_cons.mp hcounts
    have hpos := hcount.1
    have := ih hrest
    rw [length_cons, map_cons, sum_cons]
    omega

/-! ### The invariant -/

/-- Where the end of the stream is. -/
inductive EndAt
  | host
  | wire
  | queue
  | reader
deriving DecidableEq, Repr

/-- The chunk that `send` holds. -/
def SendPhase.held : SendPhase → List Bytes
  | .holding bytes => [bytes]
  | _ => []

/-- The chunks that are not on the wire yet. -/
def Transfer.unsent (t : Transfer) : List Bytes := t.phase.held ++ t.pending

/-- The credits that the guest's counter has and the worker has yet to send to the host. -/
def ReadPhase.owed : ReadPhase → ℕ
  | .starting => window
  | .reading => 0
  | .crediting => 1

open SendPhase

namespace Flow

/-- The chunks of the stream are spread over the machine in their order: the worker has taken the
chunks `got`, the queue holds `queued`, the wire `flying`, and the host the rest.  The guest's
counter is what the window leaves beside the queue and the reader, and the host's credits, wherever
they are, are what the counter leaves beside the wire. -/
structure Inv (seq : UInt32) (chunks : List Bytes) (s : Flow) (got queued flying : List Bytes)
    (counts : List UInt8) (e : EndAt) : Prop where
  fault : s.fault = none
  seq_eq : s.ingress.seq = seq
  chunks_eq : got ++ queued ++ flying ++ s.transfer.unsent = chunks
  got_eq : s.output ++ s.input.current = got.flatten
  queue : s.ingress.queue = queued.map some ++ if e = .queue then [none] else []
  wire : s.toGuest = flying.map (dataMessage seq) ++ if e = .wire then [endMessage seq] else []
  bytes : s.ingress.bytes = (got ++ queued).flatten.length
  -- the end of the stream comes after every chunk
  sent : s.transfer.phase = .ended ↔ e ≠ .host
  unsent : e ≠ .host → s.transfer.pending = []
  ingress_ended : s.ingress.ended = true ↔ e = .queue ∨ e = .reader
  flying_nil : e = .queue ∨ e = .reader → flying = []
  input_ended : s.input.ended = true ↔ e = .reader
  queued_nil : e = .reader → queued = []
  -- the window
  guest_window : s.ingress.credits + queued.length + s.heldFrames = window
  host_window : s.transfer.credits + s.undelivered + flying.length + s.input.phase.owed =
    s.ingress.credits
  admission : s.transfer.phase = .admission → s.transfer.credits = 0
  channel : ∀ count ∈ s.transfer.channel, IsCount count
  toHost : s.toHost = counts.map (creditMessage seq)
  counts : ∀ count ∈ counts, IsCount count
  current_nil : s.input.consumedFrame = false → s.input.current = []
  busy : s.input.phase ≠ .reading → s.input.consumedFrame = false
  saw_end : s.sawEnd = true → s.input.ended = true ∧ s.input.consumedFrame = false

theorem inv_init (seq) (chunks) : Inv seq chunks (init seq chunks) [] [] [] [] .host := by
  constructor <;> simp [init, Ingress.begin, Transfer.unsent, held, heldFrames, undelivered,
    ReadPhase.owed]

/-! ### The sender -/

section Steps

variable {seq : UInt32} {chunks : List Bytes} {s s' : Flow} {got queued flying : List Bytes}
  {counts : List UInt8} {e : EndAt}

theorem transmit_of_le {msg} {transfer} (hlen : msg.payload.length ≤ block) :
    s.transmit msg transfer = { s with transfer := transfer, toGuest := s.toGuest ++ [msg] } := by
  have hfits : msg.Fits := by
    simp only [RawMessage.Fits, minBodySize, maxMessageSize]
    simp only [block] at hlen
    omega
  unfold transmit
  rw [encode_eq_ok.mpr ⟨hfits, rfl⟩]

variable (h : Inv seq chunks s got queued flying counts e)

include h

/-- Until the end frame is written, the end is with the host. -/
theorem Inv.end_host (hphase : s.transfer.phase ≠ .ended) : e = .host := by
  by_contra he
  exact hphase (h.sent.mpr he)

theorem Inv.nextCredit (hs : s.nextCredit = some s') :
    Inv seq chunks s' got queued flying counts e := by
  unfold Flow.nextCredit at hs
  cases hchann : s.transfer.channel with
  | nil => simp [hchann] at hs
  | cons count channel =>
    obtain ⟨-, hrest⟩ := forall_mem_cons.mp (hchann ▸ h.channel)
    have hwin := h.host_window
    simp only [undelivered, hchann, map_cons, sum_cons] at hwin
    have huns := h.chunks_eq
    cases hphase : s.transfer.phase
    case pulling => simp [hchann, hphase] at hs
    case ended => simp [hchann, hphase] at hs
    case' admission =>
      simp only [hchann, hphase, Option.some.injEq] at hs
      subst hs
      have hzero := h.admission hphase
    case' holding bytes =>
      simp only [hchann, hphase] at hs
      obtain ⟨hzero, ⟨⟩⟩ := Option.ite_none_right_eq_some.mp hs
    all_goals
      simp only [Transfer.unsent, hphase] at huns
      have hhost := h.end_host (by simp [hphase])
      exact { h with
        chunks_eq := huns
        sent := by simp [hhost]
        host_window := by simp only [undelivered]; omega
        admission := nofun
        channel := hrest }

theorem Inv.pull (hs : s.pull seq = some s') : ∃ e',
    Inv seq chunks s' got queued flying counts e' := by
  unfold Flow.pull at hs
  have huns := h.chunks_eq
  split at hs
  case h_1 bytes pending hphase hpend =>
    cases hs
    have hhost := h.end_host (by simp [hphase])
    simp only [Transfer.unsent, hphase, hpend] at huns
    exact ⟨e, { h with
      chunks_eq := huns
      sent := by simp [hhost]
      unsent := fun he => absurd hhost he
      admission := nofun }⟩
  case h_2 hphase hpend =>
    rw [transmit_of_le (Nat.zero_le _)] at hs
    cases hs
    obtain rfl := h.end_host (by simp [hphase])
    simp only [Transfer.unsent, hphase] at huns
    have hended := h.ingress_ended
    have hinput := h.input_ended
    refine ⟨.wire, { h with
      chunks_eq := huns
      queue := by simpa using h.queue
      wire := by simpa using h.wire
      sent := by simp
      unsent := fun _ => hpend
      ingress_ended := by simpa using hended
      flying_nil := by simp
      input_ended := by simpa using hinput
      queued_nil := nofun
      admission := nofun }⟩
  case h_3 => exact nomatch hs

theorem Inv.send (hchunks : Encoded chunks)
    (hs : s.send seq = some s') : ∃ flying', Inv seq chunks s' got queued flying' counts e := by
  unfold Flow.send at hs
  have huns := h.chunks_eq
  split at hs
  case h_1 bytes hphase =>
    obtain ⟨hcred, hs⟩ := Option.ite_none_left_eq_some.mp hs
    have hhost := h.end_host (by simp [hphase])
    simp only [Transfer.unsent, hphase, held] at huns
    have hmem : bytes ∈ chunks := by simp [← huns]
    rw [transmit_of_le (hchunks.le_block bytes hmem)] at hs
    cases hs
    have hwin := h.host_window
    refine ⟨flying ++ [bytes], { h with
      chunks_eq := by simpa [Transfer.unsent, held] using huns
      wire := by simp [h.wire, hhost]
      sent := by simp [hhost]
      flying_nil := by simp [hhost]
      host_window := ?_
      admission := nofun }⟩
    simp only [undelivered, length_append, length_singleton] at hwin ⊢
    omega
  case h_2 => exact nomatch hs

/-! ### The receive loops -/

theorem Inv.acceptNext (hchunks : Encoded chunks) (hs : s.acceptNext = some s') :
    ∃ queued' flying' e', Inv seq chunks s' got queued' flying' counts e' := by
  unfold Flow.acceptNext at hs
  have hwin := h.guest_window
  have hcred := h.host_window
  have hbytes := h.bytes
  cases hflying : flying with
  | cons bytes rest =>
    -- the frames on the wire have their credits in the guest's counter
    subst hflying
    have hopen : e ≠ .queue ∧ e ≠ .reader := by
      constructor
      · intro he
        exact nomatch h.flying_nil (.inl he)
      · intro he
        exact nomatch h.flying_nil (.inr he)
    have hended : s.ingress.ended = false := by
      rw [← Bool.not_eq_true, h.ingress_ended]
      simp [hopen]
    have hmem : bytes ∈ chunks := by simp [← h.chunks_eq]
    have htotal : s.ingress.bytes + bytes.length ≤ maxEncoded := by
      refine le_trans ?_ hchunks.le_max
      rw [hbytes, ← h.chunks_eq]
      simp only [flatten_append, flatten_cons, length_append]
      omega
    have hqueue := h.queue
    rw [if_neg hopen.1, append_nil] at hqueue
    simp only [length_cons] at hcred
    have hroom : s.ingress.queue.length < window + 1 := by
      rw [hqueue, length_map]
      omega
    have hacc := accept_data hended (hchunks.ne_nil bytes hmem) (hchunks.le_block bytes hmem)
      (by omega) htotal hroom
    rw [h.seq_eq] at hacc
    rw [h.wire, map_cons, cons_append] at hs
    simp only [hacc] at hs
    cases hs
    refine ⟨queued ++ [bytes], rest, e, { h with
      seq_eq := rfl
      chunks_eq := by simpa using h.chunks_eq
      queue := by simp [hqueue, hopen]
      wire := rfl
      bytes := ?_
      flying_nil := by simp [hopen]
      queued_nil := fun he => absurd he hopen.2
      guest_window := ?_
      host_window := ?_ }⟩
    · simp only [flatten_append, length_append, flatten_cons, flatten_nil, append_nil] at hbytes ⊢
      omega
    · simp only [heldFrames, length_append, length_singleton] at hwin ⊢
      omega
    · simp only [undelivered] at hcred ⊢
      omega
  | nil =>
    subst hflying
    by_cases he : e = .wire
    · subst he
      have hended : s.ingress.ended = false := by
        rw [← Bool.not_eq_true, h.ingress_ended]
        simp
      have hqueue := h.queue
      rw [if_neg (by simp), append_nil] at hqueue
      have hroom : s.ingress.queue.length < window + 1 := by
        rw [hqueue, length_map]
        omega
      have hacc := accept_end hended hroom
      rw [h.seq_eq] at hacc
      rw [h.wire] at hs
      simp only [map_nil, nil_append, if_true, hacc] at hs
      cases hs
      have hinput := h.input_ended
      exact ⟨queued, [], .queue, { h with
        seq_eq := rfl
        queue := by simp [hqueue]
        wire := by simp
        sent := by simpa using h.sent
        unsent := fun _ => h.unsent (by simp)
        ingress_ended := by simp
        flying_nil := fun _ => rfl
        input_ended := by simpa using hinput
        queued_nil := nofun }⟩
    · rw [h.wire] at hs
      simp [he] at hs

theorem Inv.deliver (hs : s.deliver seq = some s') : ∃ counts',
    Inv seq chunks s' got queued flying counts' e := by
  unfold Flow.deliver at hs
  have hwin := h.host_window
  have hguest := h.guest_window
  have hchann := length_le_sum h.channel
  cases hcounts : counts with
  | nil =>
    rw [h.toHost, hcounts] at hs
    exact nomatch hs
  | cons count rest =>
    subst hcounts
    obtain ⟨hcount, hrest⟩ := forall_mem_cons.mp h.counts
    simp only [undelivered, h.toHost, map_cons, sum_cons, creditsOf, creditMessage, map_nil,
      sum_nil] at hwin
    -- the channel holds at most a window of credits, and the one on the wire besides
    have hroom : s.transfer.channel.length < window + 1 := by omega
    rw [h.toHost, map_cons] at hs
    simp only [dispatchCredit_credit hcount hroom] at hs
    cases hs
    refine ⟨rest, { h with
      host_window := ?_
      channel := forall_mem_append.mpr ⟨h.channel, forall_mem_singleton.mpr hcount⟩
      toHost := rfl
      counts := hrest }⟩
    simp only [undelivered, map_append, sum_append, map_cons, map_nil, sum_cons, sum_nil]
    omega

/-! ### The worker -/

/-- The worker pays what it owes. -/
theorem Inv.credit {count} (hcount : IsCount count) (howed : s.input.phase.owed = count.toNat) :
    Inv seq chunks (s.credit seq count) got queued flying (counts ++ [count]) e := by
  have hwin := h.host_window
  rw [howed] at hwin
  unfold Flow.credit
  refine { h with
    host_window := ?_
    toHost := by simp [h.toHost]
    counts := forall_mem_append.mpr ⟨h.counts, forall_mem_singleton.mpr hcount⟩
    busy := fun hne => absurd rfl hne }
  simp only [undelivered, creditsOf, creditMessage, map_append, sum_append, map_cons,
    map_nil, sum_cons, sum_nil, ReadPhase.owed] at hwin ⊢
  omega

theorem Inv.read (hphase : s.input.phase = .reading)
    (size : ℕ) : ∃ got' queued' e', Inv seq chunks (s.read size) got' queued' flying counts e' := by
  have hwin := h.guest_window
  have hhost := h.host_window
  unfold Flow.read
  split
  case isTrue => exact ⟨got, queued, e, h⟩
  split
  case isTrue hcur =>
    -- bytes of the current frame are handed out
    refine ⟨got, queued, e, { h with
      got_eq := ?_
      current_nil := fun hcons => absurd (h.current_nil hcons) hcur }⟩
    simpa using h.got_eq
  rename_i hcur
  rw [ne_eq, not_not] at hcur
  split
  case isTrue hcons =>
    -- the frame is used up: its credit goes from what the guest holds to what it owes
    refine ⟨got, queued, e, { h with
      guest_window := ?_
      host_window := ?_
      current_nil := fun _ => hcur
      busy := fun _ => rfl
      saw_end := fun hend => ⟨(h.saw_end hend).1, rfl⟩ }⟩
    · simp only [heldFrames, hcons] at hwin ⊢
      simpa [Nat.add_right_comm] using hwin
    · simp only [undelivered, hphase, ReadPhase.owed] at hhost ⊢
      omega
  rename_i hcons
  rw [Bool.not_eq_true] at hcons
  split
  case isTrue hended =>
    exact ⟨got, queued, e, { h with saw_end := fun _ => ⟨hended, hcons⟩ }⟩
  rename_i hended
  split
  case h_1 => exact ⟨got, queued, e, h⟩
  case h_2 bytes queue hqueue =>
    -- a frame leaves the queue, and is the next one that was read
    rw [h.queue] at hqueue
    cases queued with
    | nil =>
      revert hqueue
      split <;> simp
    | cons chunk rest =>
      rw [map_cons, cons_append, List.cons.injEq, Option.some.injEq] at hqueue
      obtain ⟨rfl, rfl⟩ := hqueue
      have hread := h.got_eq
      rw [hcur, append_nil] at hread
      refine ⟨got ++ [chunk], rest, e, { h with
        chunks_eq := by simpa using h.chunks_eq
        got_eq := by simp [hread]
        queue := rfl
        bytes := by simpa using h.bytes
        queued_nil := fun he => nomatch h.queued_nil he
        guest_window := ?_
        current_nil := nofun
        busy := fun hne => absurd hphase hne
        saw_end := fun hend => absurd (h.saw_end hend).1 hended }⟩
      simp only [heldFrames, hcons] at hwin ⊢
      simpa [Nat.add_assoc] using hwin
  case h_3 queue hqueue =>
    rw [h.queue] at hqueue
    cases queued with
    | cons chunk rest => exact nomatch hqueue
    | nil =>
      -- the end of the stream goes on from the queue to the reader
      by_cases he : e = .queue
      · subst he
        simp only [map_nil, nil_append, if_true, List.cons.injEq, true_and] at hqueue
        subst hqueue
        exact ⟨got, [], .reader, { h with
          queue := by simp
          wire := by simpa using h.wire
          sent := by simpa using h.sent
          unsent := fun _ => h.unsent (by simp)
          ingress_ended := by simpa using h.ingress_ended
          flying_nil := fun _ => h.flying_nil (.inl rfl)
          input_ended := by simp
          queued_nil := fun _ => rfl
          saw_end := fun hend => absurd (h.saw_end hend).1 hended }⟩
      · simp [he] at hqueue

/-- **Every step keeps the invariant.** -/
theorem Inv.step (hchunks : Encoded chunks) {event} (hs : s.step seq event = some s') :
    ∃ got' queued' flying' counts' e', Inv seq chunks s' got' queued' flying' counts' e' := by
  unfold Flow.step at hs
  rw [h.fault] at hs
  cases event with
  | nextCredit => exact ⟨_, _, _, _, _, h.nextCredit hs⟩
  | pull =>
    obtain ⟨e', h'⟩ := h.pull hs
    exact ⟨_, _, _, _, _, h'⟩
  | send =>
    obtain ⟨flying', h'⟩ := h.send hchunks hs
    exact ⟨_, _, _, _, _, h'⟩
  | accept =>
    obtain ⟨queued', flying', e', h'⟩ := h.acceptNext hchunks hs
    exact ⟨_, _, _, _, _, h'⟩
  | deliver =>
    obtain ⟨counts', h'⟩ := h.deliver hs
    exact ⟨_, _, _, _, _, h'⟩
  | grant | writeCredit =>
    obtain ⟨hphase, ⟨⟩⟩ := Option.ite_none_right_eq_some.mp hs
    exact ⟨_, _, _, _, _, h.credit (by decide) (by rw [hphase]; rfl)⟩
  | read size =>
    obtain ⟨hphase, ⟨⟩⟩ := Option.ite_none_right_eq_some.mp hs
    obtain ⟨got', queued', e', h'⟩ := h.read hphase size
    exact ⟨_, _, _, _, _, h'⟩

/-! ### What the invariant says -/

theorem Inv.queuedFrames_eq : s.queuedFrames = queued.length := by
  rw [queuedFrames, h.queue, countP_append]
  have hdata : (queued.map some).countP Option.isSome = queued.length := by
    rw [countP_map, countP_eq_length.mpr (by simp)]
  have hend : (if e = .queue then [none] else ([] : List (Option Bytes))).countP Option.isSome =
    0 := by
    split <;> rfl
  rw [hdata, hend, Nat.add_zero]

/-- Once the worker has seen the end, it has read every chunk. -/
theorem Inv.output_eq (hend : s.sawEnd) : s.output = chunks.flatten := by
  obtain ⟨hended, hcons⟩ := h.saw_end hend
  have he := h.input_ended.mp hended
  have hphase := h.sent.mpr (by simp [he])
  have hread := h.got_eq
  have hchunks := h.chunks_eq
  rw [h.current_nil hcons, append_nil] at hread
  rw [h.queued_nil he, h.flying_nil (.inr he), Transfer.unsent, hphase,
    h.unsent (by simp [he])] at hchunks
  simp only [held, append_nil] at hchunks
  rw [hread, hchunks]

end Steps

end Flow

/-- **The flow control of a file stream never faults.**  Whatever the order of the host's sends, the
guest's accepts, the worker's reads and the deliveries of credits: no frame and no credit is
refused, the guest's credits, queued frames and held frame make up the window, the host's credits
are within the guest's, and a worker that has seen the end has read the chunks. -/
theorem file_stream_flow (seq : UInt32) (chunks : List Bytes) (hchunks : Encoded chunks)
    (events : List FlowEvent) (s : Flow)
    (hrun : runEvents (Flow.step seq) (.init seq chunks) events = some s) :
    s.fault = none ∧ s.ingress.credits + s.queuedFrames + s.heldFrames = 4 ∧
      s.transfer.credits + s.undelivered ≤ s.ingress.credits ∧
      (s.sawEnd = true → s.output = chunks.flatten) := by
  have hinv : ∃ got queued flying counts e, Flow.Inv seq chunks s got queued flying counts e :=
    runEvents_invariant (fun s => ∃ got queued flying counts e,
      Flow.Inv seq chunks s got queued flying counts e)
      (fun _ _ _ ⟨_, _, _, _, _, h⟩ hs => h.step hchunks hs) ⟨_, _, _, _, _,
        Flow.inv_init seq chunks⟩ hrun
  obtain ⟨got, queued, flying, counts, e, h⟩ := hinv
  have hhost := h.host_window
  refine ⟨h.fault, ?_, by omega, h.output_eq⟩
  rw [h.queuedFrames_eq]
  exact h.guest_window

/-- Five chunks, one more than the window: the last waits for the credit of the first. -/
def fiveChunks : List Bytes := [[1], [2, 2], [3], [4], [5]]

def fiveEvents : List FlowEvent :=
  [.grant, .deliver, .nextCredit, .pull, .send, .pull, .send, .pull, .send, .pull, .send, .pull,
    .accept, .accept, .read 8, .read 8, .read 8, .writeCredit, .accept, .deliver, .nextCredit,
      .send, .pull,
    .accept, .accept, .accept, .read 8, .read 1, .read 1, .read 8, .writeCredit, .read 8, .read 8,
      .read 8,
    .writeCredit, .deliver, .deliver, .read 8, .read 8, .read 8, .writeCredit, .read 8, .read 8,
      .read 8,
    .writeCredit, .read 8, .read 8]

theorem file_stream_flow_five : ∃ s, runEvents (Flow.step 7) (.init 7 fiveChunks) fiveEvents =
    some s ∧ s.sawEnd = true ∧ s.fault = none ∧ s.output = [1, 2, 2, 3, 4, 5] := by
  refine exists_run_and (by decide +kernel) fun s hs hend => ?_
  have hchunks : Encoded fiveChunks := ⟨by decide, by decide, by decide⟩
  obtain ⟨hfault, -, -, houtp⟩ := file_stream_flow 7 fiveChunks hchunks fiveEvents s hs
  exact ⟨hfault, houtp hend⟩

end Okou.GuestControl.FileStream
