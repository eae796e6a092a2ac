import Okou.GuestControl.ExecPayloads
import Okou.GuestControl.ExecStart
import Okou.Lib.Machine

/-!
# Output of an exec operation, from the guest's drains to the host's checks

In the guest two workers drain the pipes of a process.  Each keeps what its policy wants
captured and forwards chunks to the host, through one stream writer that numbers the output
frames and is shared behind a lock.  Either cancellation flag makes a worker give up
forwarding.  When both workers are done, a stream that was cut off without a marker gets one,
and the captured output goes into the result frame.

On the host every output frame is checked against the limits of its stream and against the
order of the frames, and the result against what was to be captured.

The two threads and the cancellation flags are a machine of small steps: a worker reads a
chunk, takes the lock and passes the checks of the flags, writes a frame and releases the
lock, or is refused.  The field of a struct for each stream is a function of the stream.

## Main definitions

* `Worker`, `Guest.step` — a drain, and the machine of both.
* `ExecOperation`, `validateOutput`, `validateResult` — the host and its checks.
* `Agrees` — what a worker and the stream on the host agree on.
-/

namespace Okou.GuestControl

open List Function

/-! ### Settings of the guest -/

/-- The limits of a stream. -/
structure BoundedStreamConfig where
  chunkLimitBytes : ℕ
  streamLimitBytes : ℕ
deriving DecidableEq

/-- What a worker does with its pipe. -/
structure OutputSettings where
  captureLimitBytes : Option ℕ
  stream : Option BoundedStreamConfig

/-- How much is captured. -/
def captureLimitBytes : ExecOutputPolicy → Option ℕ
  | .discard => none
  | .stream _ _ => none
  | .capture limitBytes => some limitBytes.toNat
  | .captureAndStream captureLimitBytes _ _ => some captureLimitBytes.toNat

/-- The limits of what is streamed. -/
def streamConfig : ExecOutputPolicy → Option BoundedStreamConfig
  | .stream limitBytes chunkLimitBytes => some ⟨chunkLimitBytes.toNat, limitBytes.toNat⟩
  | .captureAndStream _ streamLimitBytes chunkLimitBytes =>
    some ⟨chunkLimitBytes.toNat, streamLimitBytes.toNat⟩
  | .discard => none
  | .capture _ => none

/-- The settings of a policy. -/
def outputSettings (policy : ExecOutputPolicy) : OutputSettings :=
  ⟨captureLimitBytes policy, streamConfig policy⟩

/-- Type and sequence number. -/
def frameBodyHeaderLen : ℕ := 1 + 4
/-- An output without its chunk. -/
def execOutputPayloadOverhead : ℕ := 1 + 4 + 1 + 4
/-- The longest termination. -/
def execResultExitedLen : ℕ := 1 + 4
/-- The duration. -/
def execResultDurationLen : ℕ := 4
/-- The length of the diagnostic. -/
def execResultDiagnosticLenField : ℕ := 2
/-- The longest diagnostic. -/
def execResultMaxDiagnosticBytes : ℕ := 2 ^ 16 - 1
/-- Captured output without its bytes. -/
def execCapturedOutputOverhead : ℕ := 1 + 1 + 4
/-- Discarded output. -/
def execDiscardedOutputLen : ℕ := 1

/-- The share of a stream without its bytes. -/
def execResultOutputOverhead (policy : ExecOutputPolicy) : ℕ :=
  if (captureLimitBytes policy).isSome then execCapturedOutputOverhead else execDiscardedOutputLen

/-- What a result frame has room for besides its fixed fields and the longest diagnostic. -/
def execResultCaptureBudget (stdoutPolicy stderrPolicy : ExecOutputPolicy) : ℕ :=
  maxMessageSize - (frameBodyHeaderLen + execResultExitedLen + execResultDurationLen +
    execResultOutputOverhead stdoutPolicy + execResultOutputOverhead stderrPolicy +
    execResultDiagnosticLenField + execResultMaxDiagnosticBytes)

/-- A stream's chunks fit into output frames. -/
def validateChunkLimit (name : String) (policy : ExecOutputPolicy) : Except String Unit :=
  let maxChunk := maxMessageSize - frameBodyHeaderLen - execOutputPayloadOverhead
  match streamConfig policy with
  | none => .ok ()
  | some stream =>
    let limit := stream.chunkLimitBytes
    require (limit ≤ maxChunk)
      s!"exec {name} stream chunk limit exceeds protocol frame budget: {limit} > {maxChunk}"

/-- The result and the chunks fit into frames. -/
def validateRequest (stdout stderr : ExecOutputPolicy) : Except String Unit := do
  let stdoutCapture := captureLimitBytes stdout
  let stderrCapture := captureLimitBytes stderr
  let captureTotal ←
    match checkedAdd (stdoutCapture.getD 0) (stderrCapture.getD 0) with
    | none => .error "exec capture limits overflow"
    | some captureTotal => .ok captureTotal
  let captureBudget := execResultCaptureBudget stdout stderr
  require (captureTotal ≤ captureBudget)
    s!"exec capture limits exceed protocol result frame budget: {captureTotal} > {captureBudget}"
  validateChunkLimit "stdout" stdout
  validateChunkLimit "stderr" stderr

/-! ### A drain -/

/-- What a worker leaves. -/
structure BoundedDrainResult where
  captured : Option Bytes
  captureTruncated : Bool
  streamTruncated : Bool

/-- Where a drain is. -/
inductive Phase
  /-- waiting for the pipe -/
  | polling
  /-- forwarding the parts of a chunk; `cut` if the chunk goes beyond the stream's limit -/
  | forwarding (parts : List Bytes) (cut : Bool)
  /-- forwarding the empty chunk that marks truncation -/
  | marking
  /-- returned -/
  | done
deriving DecidableEq

/-- A drain with the variables of its closure, and the bytes it has read so far. -/
structure Worker where
  settings : OutputSettings
  captured : Option Bytes
  captureTruncated : Bool
  streamEmitted : ℕ
  streamTruncated : Bool
  streamEnabled : Bool
  phase : Phase
  bytesRead : Bytes

namespace Worker

/-- A worker before its first read. -/
def new (settings : OutputSettings) : Worker where
  settings := settings
  captured := settings.captureLimitBytes.map fun _ => []
  captureTruncated := false
  streamEmitted := 0
  streamTruncated := false
  streamEnabled := settings.stream.isSome
  phase := .polling
  bytesRead := []

variable (w : Worker) (chunk : Bytes)

/-- Keep what the capture limit leaves room for. -/
def capture (w : Worker) (chunk : Bytes) : Worker :=
  match w.settings.captureLimitBytes, w.captured with
  | some limit, some output =>
    if output.length < limit then
      let keep := min (limit - output.length) chunk.length
      { w with
        captured := some (output ++ chunk.take keep)
        captureTruncated := w.captureTruncated || decide (keep < chunk.length) }
    else { w with captureTruncated := w.captureTruncated || decide (chunk ≠ []) }
  | _, _ => w

/-- Go on with the parts of a chunk, then with the marker if the chunk was cut. -/
def forward (w : Worker) (parts : List Bytes) (cut : Bool) : Worker :=
  if parts ≠ [] then { w with phase := .forwarding parts cut }
  else if cut then { w with streamTruncated := true, phase := .marking }
  else { w with phase := .polling }

/-- Start to forward a chunk. -/
def startStream (w : Worker) (chunk : Bytes) : Worker :=
  match w.settings.stream with
  | none => w
  | some config =>
    if !w.streamEnabled || w.streamTruncated || decide (chunk = []) then w
    else if config.streamLimitBytes ≤ w.streamEmitted ∨ config.chunkLimitBytes = 0 then
      { w with streamTruncated := true, phase := .marking }
    else
      let remainingStream := config.streamLimitBytes - w.streamEmitted
      let emitTotal := min remainingStream chunk.length
      w.forward (chunksOf config.chunkLimitBytes (chunk.take emitTotal)) (emitTotal < chunk.length)

/-- The closure of the drain on a chunk that was read. -/
def onChunk (w : Worker) (chunk : Bytes) : Worker :=
  let w := { w with bytesRead := w.bytesRead ++ chunk }
  (w.capture chunk).startStream chunk

/-- The chunk that is to be forwarded next, and whether it is the marker. -/
def next (w : Worker) : Option (Bytes × Bool) :=
  match w.phase with
  | .forwarding (part :: _) _ => some (part, false)
  | .marking => some ([], true)
  | _ => none

/-- The answer to the chunk that was to be forwarded. -/
def returned (w : Worker) (sent : Bool) : Worker :=
  match w.phase with
  | .forwarding (part :: parts) cut =>
    if sent then
      { w with streamEmitted := w.streamEmitted + part.length }.forward parts cut
    else { w with streamEnabled := false, phase := .polling }
  | .marking => { w with streamEnabled := sent, phase := .polling }
  | _ => w

/-- What a worker has at its end. -/
def result (w : Worker) : BoundedDrainResult := ⟨w.captured, w.captureTruncated, w.streamTruncated⟩

end Worker

/-! ### The guest -/

/-- The result of a drain that may be late. -/
def finalizeExecDrainResult (result : Option BoundedDrainResult) (settings : OutputSettings)
    (drainsIncomplete : Bool) : BoundedDrainResult :=
  let result := result.getD ⟨settings.captureLimitBytes.map fun _ => [], false, false⟩
  if drainsIncomplete && result.captured.isSome then { result with captureTruncated := true }
    else result

/-- The field of the result. -/
def capturedOutput (result : BoundedDrainResult) : ExecCapturedOutput :=
  match result.captured with
  | some bytes => .captured bytes result.captureTruncated
  | none => .discarded

/-- The shared stream writer: the number of the next output frame, and the frames sent. -/
structure ExecStreamWriter where
  seq : UInt32
  outputSeq : UInt32
  sent : List Bytes

/-- Numbers and writes a frame. -/
def ExecStreamWriter.writeOutput (writer : ExecStreamWriter) (stream : ExecOutputStream)
    (chunk : Bytes) (truncated : Bool) : Except ProtocolError ExecStreamWriter := do
  let frame ← encodeExecOutputFrameInto writer.seq stream writer.outputSeq chunk truncated
  return { writer with outputSeq := writer.outputSeq + 1, sent := writer.sent ++ [frame] }

/-- The guest's side of an operation. -/
structure Guest where
  worker : ExecOutputStream → Worker
  /-- the stream writer, if some stream is forwarded -/
  writer : Option ExecStreamWriter
  /-- the worker that holds the writer's lock and has passed the checks of the flags -/
  lockedBy : Option ExecOutputStream
  execCancelled : Bool
  drainCancelled : Bool
  /-- the captured output of the result frame, once it is sent -/
  outputs : Option (ExecOutputStream → ExecCapturedOutput)

/-- What can happen next. -/
inductive GuestEvent
  | cancelExec
  | cancelDrain
  /-- a worker reads a chunk from its pipe -/
  | read (stream : ExecOutputStream) (chunk : Bytes)
  /-- a worker leaves its loop: end of file, an error or cancellation -/
  | leave (stream : ExecOutputStream)
  /-- a worker takes the lock and finds both flags down -/
  | enter (stream : ExecOutputStream)
  /-- a worker writes a frame and releases the lock -/
  | write (stream : ExecOutputStream)
  /-- a worker finds a flag up, before or after it took the lock -/
  | refuse (stream : ExecOutputStream)
  /-- a worker that has no stream writer -/
  | skip (stream : ExecOutputStream)
  /-- both workers are joined, in time or not, and the result is sent -/
  | finish (drainsIncomplete : Bool)
deriving DecidableEq

namespace Guest

/-- The guest before the first read. -/
def init (seq : UInt32) (policy : ExecOutputStream → ExecOutputPolicy) : Guest where
  worker stream := .new (outputSettings (policy stream))
  writer :=
    if (streamConfig (policy .stdout)).isSome || (streamConfig (policy .stderr)).isSome then
      some ⟨seq, 0, []⟩
    else none
  lockedBy := none
  execCancelled := false
  drainCancelled := false
  outputs := none

/-- Replaces a worker. -/
def setWorker (g : Guest) (stream : ExecOutputStream) (w : Worker) : Guest :=
  { g with worker := Function.update g.worker stream w }

/-- The markers of streams that were cut off without one. -/
def emitTruncationMarkers (g : Guest) : List ExecOutputStream → ExecStreamWriter → ExecStreamWriter
  | [], writer => writer
  | stream :: streams, writer =>
    if (g.worker stream).settings.stream.isNone || (g.worker stream).result.streamTruncated then
      g.emitTruncationMarkers streams writer
    else
      match writer.writeOutput stream [] true with
      | .ok writer => g.emitTruncationMarkers streams writer
      | .error _ => writer

/-- One event; `none` where it is not enabled. -/
def step (g : Guest) : GuestEvent → Option Guest
  | .cancelExec => some { g with execCancelled := true }
  | .cancelDrain => some { g with drainCancelled := true }
  | .read stream chunk =>
    if (g.worker stream).phase = .polling ∧ chunk ≠ [] then
      some (g.setWorker stream ((g.worker stream).onChunk chunk))
    else none
  | .leave stream =>
    if (g.worker stream).phase = .polling then
      some (g.setWorker stream { g.worker stream with phase := .done })
    else none
  | .enter stream =>
    if (g.worker stream).next.isSome ∧ g.writer.isSome ∧ g.lockedBy = none ∧
        g.execCancelled = false ∧ g.drainCancelled = false then
      some { g with lockedBy := some stream }
    else none
  | .write stream =>
    if g.lockedBy = some stream then
      match (g.worker stream).next, g.writer with
      | some (chunk, truncated), some writer =>
        match writer.writeOutput stream chunk truncated with
        | .ok writer =>
          some { g.setWorker stream ((g.worker stream).returned true) with
            writer := some writer, lockedBy := none }
        | .error _ =>
          some { g.setWorker stream ((g.worker stream).returned false) with
            execCancelled := true, drainCancelled := true, lockedBy := none }
      | _, _ => none
    else none
  | .refuse stream =>
    if (g.worker stream).next.isSome ∧ g.writer.isSome ∧ g.lockedBy ≠ some stream ∧
        (g.execCancelled = true ∨ g.drainCancelled = true) then
      some (g.setWorker stream ((g.worker stream).returned false))
    else none
  | .skip stream =>
    if (g.worker stream).next.isSome ∧ g.writer = none then
      some (g.setWorker stream ((g.worker stream).returned true))
    else none
  | .finish drainsIncomplete =>
    if (g.worker .stdout).phase = .done ∧ (g.worker .stderr).phase = .done ∧ g.outputs = none then
      let result stream := finalizeExecDrainResult (some (g.worker stream).result)
        (g.worker stream).settings drainsIncomplete
      some { g with
        writer :=
          if drainsIncomplete then g.writer.map (g.emitTruncationMarkers [.stdout, .stderr])
            else g.writer
        outputs := some fun stream => capturedOutput (result stream) }
    else none

/-- The frames of output that were sent. -/
def sent (g : Guest) : List Bytes := (g.writer.map ExecStreamWriter.sent).getD []

end Guest

/-! ### The host -/

/-- What is to be captured. -/
inductive ExecCaptureState
  | discard
  | capture (limitBytes : ℕ)

/-- How far a stream is. -/
structure ExecStreamState where
  limitBytes : ℕ
  chunkLimitBytes : ℕ
  emittedBytes : ℕ
  truncated : Bool

/-- What a policy captures. -/
def captureState : ExecOutputPolicy → ExecCaptureState
  | .discard => .discard
  | .stream _ _ => .discard
  | .capture limitBytes => .capture limitBytes.toNat
  | .captureAndStream captureLimitBytes _ _ => .capture captureLimitBytes.toNat

/-- The start of a stream. -/
def streamState : ExecOutputPolicy → Option ExecStreamState
  | .stream limitBytes chunkLimitBytes => some ⟨limitBytes.toNat, chunkLimitBytes.toNat, 0, false⟩
  | .captureAndStream _ streamLimitBytes chunkLimitBytes =>
    some ⟨streamLimitBytes.toNat, chunkLimitBytes.toNat, 0, false⟩
  | .discard => none
  | .capture _ => none

/-- What the host keeps of an operation to check its frames. -/
structure ExecOperation where
  capture : ExecOutputStream → ExecCaptureState
  stream : ExecOutputStream → Option ExecStreamState
  expectedOutputSeq : UInt32

/-- An operation before its first frame. -/
def ExecOperation.new (policy : ExecOutputStream → ExecOutputPolicy) : ExecOperation where
  capture stream := captureState (policy stream)
  stream stream := streamState (policy stream)
  expectedOutputSeq := 0

variable (operation : ExecOperation)

/-- The checks of an output. -/
def validateOutput (operation : ExecOperation) (output : DecodedExecOutput) :
    Except String ExecOperation := do
  let received := output.outputSeq
  let expected := operation.expectedOutputSeq
  require (received = expected) s!"exec output seq mismatch: {received} != {expected}"
  match operation.stream output.stream with
  | none => .error "exec output received for non-streaming output policy"
  | some stream =>
    require (stream.truncated = false) "exec output received after stream truncation"
    require (output.chunk ≠ [] ∨ output.truncated = true)
      "exec output empty chunk must mark stream truncation"
    require (output.chunk.length ≤ stream.chunkLimitBytes)
      "exec output chunk exceeds requested chunk limit"
    let emittedBytes ←
      match checkedAdd stream.emittedBytes output.chunk.length with
      | none => .error "exec output stream byte count overflow"
      | some emittedBytes => .ok emittedBytes
    require (emittedBytes ≤ stream.limitBytes) "exec output exceeds requested stream limit"
    let stream :=
      { stream with emittedBytes, truncated := if output.truncated then true else stream.truncated }
    return { operation with
      stream := Function.update operation.stream output.stream (some stream)
      expectedOutputSeq := operation.expectedOutputSeq + 1 }

/-- The checks of captured output. -/
def validateResultOutput (name : String) : ExecCaptureState → ExecCapturedOutput →
    Except String Unit
  | .discard, .discarded => .ok ()
  | .discard, .captured _ _ => .error
    s!"exec result {name} captured output for non-capturing policy"
  | .capture limitBytes, .captured bytes _ =>
    let size := bytes.length
    require (size ≤ limitBytes) s!"exec result {name} exceeds requested capture limit: {size} > {limitBytes}"
  | .capture _, .discarded => .error s!"exec result {name} discarded output for capturing policy"

/-- The checks of a result. -/
def validateResult (operation : ExecOperation) (result : DecodedExecResult) : Except String Unit :=
  do
  validateResultOutput "stdout" (operation.capture .stdout) result.stdout
  validateResultOutput "stderr" (operation.capture .stderr) result.stderr

/-! ### What the two sides agree on -/

/-- The message of an output frame. -/
def outputMessage (seq : UInt32) (output : DecodedExecOutput) : RawMessage :=
  ⟨msgExecOutput, seq, output.bytes⟩

/-- The bytes of a stream in a list of output frames. -/
def streamed (outputs : List DecodedExecOutput) (stream : ExecOutputStream) : Bytes :=
  (outputs.filter fun output => output.stream = stream).flatMap DecodedExecOutput.chunk

theorem streamed_append_self (outputs) (output) :
    streamed (outputs ++ [output]) output.stream = streamed outputs output.stream ++
      output.chunk := by
  simp [streamed]

variable {output : DecodedExecOutput} {stream : ExecOutputStream} {outputs : List DecodedExecOutput}
  {op : ExecOperation} {policy : ExecOutputPolicy}

theorem streamed_append_of_ne (outputs) (h : stream ≠ output.stream) :
    streamed (outputs ++ [output]) stream = streamed outputs stream := by
  simp [streamed, h.symm]

/-- A part of the stream's phase: what is still to be forwarded of the chunk that was read. -/
def Worker.PhaseAgrees (w : Worker) (config : BoundedStreamConfig) (truncated : Bool) : Prop :=
  match w.phase with
  | .polling => w.streamEnabled = false ∨ w.streamTruncated = true ∨
    w.streamEmitted = w.bytesRead.length
  | .forwarding parts cut => truncated = false ∧ w.streamTruncated = false ∧ parts ≠ [] ∧
      (∀ part ∈ parts, part ≠ [] ∧ part.length ≤ config.chunkLimitBytes) ∧
      w.streamEmitted + parts.flatten.length ≤ config.streamLimitBytes ∧
      parts.flatten <+: w.bytesRead.drop w.streamEmitted ∧
      (cut = false → parts.flatten = w.bytesRead.drop w.streamEmitted)
  | .marking => truncated = false ∧ w.streamTruncated = true
  | .done => True

/-- A worker and the host agree on a stream that is forwarded. -/
structure StreamAgrees (w : Worker) (config : BoundedStreamConfig) (host : ExecStreamState)
    (sent : Bytes) (ended : Prop) : Prop where
  limit : host.limitBytes = config.streamLimitBytes
  chunkLimit : host.chunkLimitBytes = config.chunkLimitBytes
  emitted : host.emittedBytes = w.streamEmitted
  emitted_le : w.streamEmitted ≤ config.streamLimitBytes
  emitted_le_read : w.streamEmitted ≤ w.bytesRead.length
  sent_eq : sent = w.bytesRead.take w.streamEmitted
  truncated : host.truncated = true → w.streamTruncated = true ∨ ended
  phase : w.PhaseAgrees config host.truncated

/-- A worker and the host agree on a stream. -/
inductive Agrees (ended : Prop) (w : Worker) : Option ExecStreamState → Bytes → Prop
  | silent : w.settings.stream = none → w.phase = .polling ∨ w.phase = .done →
    Agrees ended w none []
  | forwarded {config host sent} : w.settings.stream = some config →
      StreamAgrees w config host sent ended → Agrees ended w (some host) sent

theorem Agrees.sent_le {ended} {w} {host} {sent}
    (h : Agrees ended w host sent) : sent <+: w.bytesRead := by
  cases h with
  | silent => exact nil_prefix
  | forwarded _ h =>
    rw [h.sent_eq]
    exact take_prefix _ _

end Okou.GuestControl
