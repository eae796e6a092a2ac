import Okou.GuestControl.Frame
import Okou.GuestControl.Read

/-!
# The `exec_output` and `exec_result` payloads

A process that runs in the guest reports its output in `exec_output` frames, numbered over
both streams, and ends with one `exec_result` frame that carries how it ended and what was
captured of its output.
-/

namespace Okou.GuestControl

open List

/-- The type of output messages. -/
def msgExecOutput : UInt8 := 0x0D
/-- The type of result messages. -/
def msgExecResult : UInt8 := 0x0E

/-- The flag of the end of a truncated stream. -/
def execOutputFlagTruncated : UInt8 := 0x01
/-- The flag of truncated captured output. -/
def execCapturedOutputFlagTruncated : UInt8 := 0x01

/-! ### Output -/

/-- The byte of `stdout`. -/
def execOutputStreamStdout : UInt8 := 0x00
/-- The byte of `stderr`. -/
def execOutputStreamStderr : UInt8 := 0x01

/-- The streams of a process. -/
inductive ExecOutputStream
  | stdout
  | stderr
deriving DecidableEq

/-- The fields of an output message. -/
structure DecodedExecOutput where
  stream : ExecOutputStream
  outputSeq : UInt32
  chunk : Bytes
  truncated : Bool
deriving DecidableEq

/-- The length of the chunk and of the payload around it. -/
def validateExecOutputPayload (chunk : Bytes) : Except ProtocolError (UInt32 × ℕ) := do
  let chunkLen ← ensureU32Len "chunk" chunk.length
  let payloadLen ← checkedPayloadLenAdd (1 + 4 + 1 + 4) chunk.length
  ensurePayloadFitsMessage payloadLen
  return (chunkLen, payloadLen)

/-- The byte of a stream. -/
def execOutputStreamByte : ExecOutputStream → UInt8
  | .stdout => execOutputStreamStdout
  | .stderr => execOutputStreamStderr

variable (p : Bytes) (seq : UInt32) (payload : Bytes) (output : DecodedExecOutput)
  (stream : ExecOutputStream) (outputSeq : UInt32)

/-- Writes an output message. -/
def appendExecOutputPayload (chunk : Bytes) (chunkLen : UInt32) (truncated : Bool) : Bytes :=
  p ++ [execOutputStreamByte stream] ++ u32Bytes outputSeq ++
    [if truncated then execOutputFlagTruncated else 0] ++ u32Bytes chunkLen ++ chunk

/-- A full frame of output. -/
def encodeExecOutputFrameInto (chunk : Bytes) (truncated : Bool) : Except ProtocolError Bytes := do
  let (chunkLen, payloadLen) ← validateExecOutputPayload chunk
  encodeInto msgExecOutput seq payloadLen fun frame =>
    appendExecOutputPayload frame stream outputSeq chunk chunkLen truncated

/-- Reads a stream. -/
def decodeExecOutputStream : Decode ExecOutputStream := do
  let tag ← readU8 "exec output stream truncated"
  if tag = execOutputStreamStdout then return .stdout
  else if tag = execOutputStreamStderr then return .stderr
  else invalid "invalid exec output stream"

/-- Reads an output message. -/
def readExecOutput : Decode DecodedExecOutput := do
  let stream ← decodeExecOutputStream
  let outputSeq ← readU32 "exec output seq truncated"
  let flags ← readU8 "exec output flags truncated"
  Parse.refuse (flags &&& ~~~execOutputFlagTruncated ≠ 0)
    (.invalidPayload "exec output unknown flags")
  let chunkLen ← readU32 "exec output chunk_len truncated"
  let chunk ← readSlice chunkLen.toNat "exec output chunk truncated"
  expectConsumed "exec output trailing bytes"
  return { stream, outputSeq, chunk, truncated := flags &&& execOutputFlagTruncated ≠ 0 }

/-- The decoder of an output payload. -/
def decodeExecOutput : Except ProtocolError DecodedExecOutput :=
  (readExecOutput payload 0).map Prod.fst

/-- The payload of an output frame. -/
def DecodedExecOutput.bytes : Bytes :=
  appendExecOutputPayload [] output.stream output.outputSeq output.chunk
    (.ofNat output.chunk.length)
    output.truncated

theorem DecodedExecOutput.length_bytes :
    output.bytes.length = 1 + 4 + 1 + 4 + output.chunk.length := by
  simp only [DecodedExecOutput.bytes, appendExecOutputPayload, length_append, length_nil,
    length_singleton, length_u32Bytes]

theorem validateExecOutputPayload_eq_ok {chunk} {lens} :
    validateExecOutputPayload chunk = .ok lens ↔ 1 + 4 + 1 + 4 + chunk.length ≤ maxPayloadSize ∧
      lens = (.ofNat chunk.length, 1 + 4 + 1 + 4 + chunk.length) := by
  simp only [validateExecOutputPayload, bind_eq_ok, ensureU32Len_eq_ok, checkedPayloadLenAdd_eq_ok,
    ensurePayloadFitsMessage_eq_ok]
  have hmax : maxPayloadSize < 2 ^ 32 := by decide
  have husize : maxPayloadSize ≤ usizeMax := by decide
  constructor
  · rintro ⟨_, ⟨-, rfl⟩, _, ⟨-, rfl⟩, _, hfits, hlens⟩
    exact ⟨hfits, (Except.ok.inj hlens).symm⟩
  · rintro ⟨hfits, rfl⟩
    exact ⟨_, ⟨by omega, rfl⟩, _, ⟨by omega, rfl⟩, (), hfits, rfl⟩

theorem payload_fits {size} : size ≤ maxPayloadSize ↔ minBodySize + size ≤ maxMessageSize := by
  simp only [maxPayloadSize, minBodySize, maxMessageSize]
  omega

/-- **An output frame is written if its chunk fits into a message.** -/
theorem encodeExecOutputFrameInto_eq_ok {seq : UInt32} {output : DecodedExecOutput}
    {frame : Bytes} :
    encodeExecOutputFrameInto seq output.stream output.outputSeq output.chunk output.truncated =
      .ok frame ↔
      output.bytes.length ≤ maxPayloadSize ∧
        frame = (RawMessage.mk msgExecOutput seq output.bytes).frame := by
  simp only [encodeExecOutputFrameInto, bind_eq_ok, validateExecOutputPayload_eq_ok,
    ← DecodedExecOutput.length_bytes]
  constructor
  · rintro ⟨_, ⟨hfits, rfl⟩, hframe⟩
    obtain ⟨-, rfl⟩ := encodeInto_eq_ok.mp hframe
    refine ⟨hfits, ?_⟩
    simp [RawMessage.frame, DecodedExecOutput.bytes, appendExecOutputPayload]
  · rintro ⟨hfits, rfl⟩
    refine ⟨_, ⟨hfits, rfl⟩, encodeInto_eq_ok.mpr ⟨payload_fits.mp hfits, ?_⟩⟩
    simp [RawMessage.frame, DecodedExecOutput.bytes, appendExecOutputPayload]

theorem codes_decodeExecOutputStream :
    decodeExecOutputStream.Codes (fun stream => [execOutputStreamByte stream]) fun _ => True := by
  refine codes_tag (fun stream => ?_) fun tag => ?_
  · cases stream <;> exact ⟨_, rfl, rfl⟩
  · by_cases hstdout : tag = execOutputStreamStdout
    · exact .inl ⟨.stdout, hstdout ▸ rfl⟩
    by_cases hstd : tag = execOutputStreamStderr
    · exact .inl ⟨.stderr, hstd ▸ rfl⟩
    · exact .inr ⟨_, by rw [if_neg hstdout, if_neg hstd]⟩

theorem reads_readExecOutput : readExecOutput.Reads fun output text rest =>
    output.chunk.length < 2 ^ 32 ∧ text = output.bytes ∧ rest = [] := by
  refine (codes_decodeExecOutputStream.bind fun stream => (codes_readU32 _).bind fun outputSeq =>
    (codes_readU8 _).bind fun flags => .refuse ((codes_readU32 _).bind fun chunkLen =>
    (codes_readSlice _ _).bind fun chunk => (reads_expectConsumed _).bind fun _ => .pure _)).congr
      fun output text rest => ?_
  constructor
  · rintro ⟨stream, _, rfl, -, outputSeq, _, rfl, -, flags, _, rfl, -, hflags, chunkLen, _, rfl, -,
      chunk, _, rfl, hlen, _, _, _, rfl, ⟨rfl, hrest⟩, rfl, rfl⟩
    have hbyte : flags = if decide (flags &&& execOutputFlagTruncated ≠
      0) then execOutputFlagTruncated else 0 :=
      (flags_known flags).mp hflags
    refine ⟨lt_of_eq_of_lt hlen chunkLen.toNat_lt, ?_, hrest⟩
    simp only [DecodedExecOutput.bytes, appendExecOutputPayload, ← hbyte, hlen, UInt32.ofNat_toNat,
      append_assoc, nil_append, append_nil, id]
  · rintro ⟨hlen, rfl, rfl⟩
    obtain ⟨stream, outputSeq, chunk, truncated⟩ := output
    refine ⟨stream, _, ?_, trivial, outputSeq, _, rfl, trivial,
      if truncated then execOutputFlagTruncated else 0, _, rfl, trivial, ?_, .ofNat chunk.length, _,
        rfl,
      trivial, chunk, [], rfl, (UInt32.toNat_ofNat_of_lt' hlen).symm, (), [], [], rfl, ⟨rfl, rfl⟩,
        ?_, rfl⟩
    · simp [DecodedExecOutput.bytes, appendExecOutputPayload]
    · cases truncated <;> decide
    · exact congrArg (DecodedExecOutput.mk stream outputSeq chunk) (flag_read truncated).symm

theorem decodeExecOutput_eq_ok {payload} {output} : decodeExecOutput payload = .ok output ↔
      output.chunk.length < 2 ^ 32 ∧ payload = output.bytes :=
  reads_readExecOutput.map_fst_whole

/-! ### How a process ended -/

/-- The tag of an exit. -/
def terminationExited : UInt8 := 0x00
/-- The tag of a timeout. -/
def terminationTimedOut : UInt8 := 0x01
/-- The tag of a cancellation. -/
def terminationCancelled : UInt8 := 0x02
/-- The tag of a failed start. -/
def terminationStartFailed : UInt8 := 0x03
/-- The tag of a failed wait. -/
def terminationWaitFailed : UInt8 := 0x04

/-- How a process ended. -/
inductive ExecTermination
  | exited (exitCode : Int32)
  | timedOut
  | cancelled
  | startFailed
  | waitFailed
deriving DecidableEq

variable (termination : ExecTermination)

/-- The length of a termination. -/
def terminationEncodedLen : ExecTermination → ℕ
  | .exited _ => 5
  | _ => 1

/-- Writes a termination. -/
def appendTermination : ExecTermination → Bytes
  | .exited exitCode => payload ++ [terminationExited] ++ i32Bytes exitCode
  | .timedOut => payload ++ [terminationTimedOut]
  | .cancelled => payload ++ [terminationCancelled]
  | .startFailed => payload ++ [terminationStartFailed]
  | .waitFailed => payload ++ [terminationWaitFailed]

/-- The texts of the errors of `decodeTermination`. -/
structure TerminationDecodeErrors where
  terminationTruncated : String
  exitCodeTruncated : String
  invalidTag : String

variable (errors : TerminationDecodeErrors)

/-- Reads a termination. -/
def decodeTermination : Decode ExecTermination := do
  let tag ← readU8 errors.terminationTruncated
  if tag = terminationExited then
    let exitCode ← readI32 errors.exitCodeTruncated
    return .exited exitCode
  else if tag = terminationTimedOut then return .timedOut
  else if tag = terminationCancelled then return .cancelled
  else if tag = terminationStartFailed then return .startFailed
  else if tag = terminationWaitFailed then return .waitFailed
  else invalid errors.invalidTag

theorem codes_decodeTermination : (decodeTermination errors).Codes (appendTermination []) fun _ =>
    True := by
  refine ((codes_readU8 _).bind fun tag => .ite ((codes_readI32 _).bind fun exitCode => .pure _)
    (.ite (.pure _) (.ite (.pure _) (.ite (.pure _) (.ite (.pure _) (.fail _)))))).congr
      fun termination text rest => ?_
  constructor
  · rintro ⟨tag, y, rfl, -, h⟩
    split at h
    case isTrue htag =>
      obtain ⟨exitCode, _, rfl, -, rfl, rfl⟩ := h
      exact ⟨trivial, by rw [htag, append_nil]; rfl⟩
    -- the four tags without a payload
    iterate 4
      split at h
      case isTrue htag =>
        obtain ⟨rfl, rfl⟩ := h
        exact ⟨trivial, by rw [htag]; rfl⟩
    case isFalse => exact h.elim
  · rintro ⟨-, rfl⟩
    cases termination with
    | exited exitCode =>
      exact ⟨terminationExited, i32Bytes exitCode, rfl, trivial, exitCode, [], (append_nil _).symm,
        trivial, rfl, rfl⟩
    | timedOut | cancelled | startFailed | waitFailed => exact ⟨_, [], rfl, trivial, rfl, rfl⟩

theorem terminationEncodedLen_eq :
    terminationEncodedLen termination = (appendTermination [] termination).length := by
  cases termination <;> simp [terminationEncodedLen, appendTermination]

/-! ### Results -/

/-- The tag of discarded output. -/
def execCapturedOutputDiscarded : UInt8 := 0x00
/-- The tag of captured output. -/
def execCapturedOutputCaptured : UInt8 := 0x01

/-- What was captured of an output stream. -/
inductive ExecCapturedOutput
  | discarded
  | captured (bytes : Bytes) (truncated : Bool)
deriving DecidableEq

/-- The fields of a result message. -/
structure DecodedExecResult where
  termination : ExecTermination
  durationMs : UInt32
  stdout : ExecCapturedOutput
  stderr : ExecCapturedOutput
  diagnostic : String
deriving DecidableEq

variable (result : DecodedExecResult)

/-- The length of captured output, which is checked. -/
def execOperationCapturedOutputEncodedLen (output : ExecCapturedOutput) (field : String) :
    Except ProtocolError ℕ :=
  match output with
  | .discarded => .ok 1
  | .captured bytes _ => do
    let _ ← ensureU32Len field bytes.length
    checkedPayloadLenAdd (1 + 1 + 4) bytes.length

/-- Writes captured output. -/
def appendExecOperationCapturedOutput : ExecCapturedOutput → Bytes
  | .discarded => p ++ [execCapturedOutputDiscarded]
  | .captured bytes truncated =>
    p ++ [execCapturedOutputCaptured] ++
      [if truncated then execCapturedOutputFlagTruncated else 0] ++
      u32Bytes (.ofNat bytes.length) ++ bytes

/-- The length of the diagnostic and of the payload around it. -/
def validateExecResultPayload (stdout stderr : ExecCapturedOutput)
    (diagnostic : String) : Except ProtocolError (UInt16 × ℕ) := do
  let diagnosticLen ← ensureU16Len "diagnostic" (strBytes diagnostic).length
  let stdoutLen ← execOperationCapturedOutputEncodedLen stdout "stdout"
  let stderrLen ← execOperationCapturedOutputEncodedLen stderr "stderr"
  let payloadLen ← [4, stdoutLen, stderrLen, 2, (strBytes diagnostic).length].foldlM
    checkedPayloadLenAdd (terminationEncodedLen termination)
  ensurePayloadFitsMessage payloadLen
  return (diagnosticLen, payloadLen)

/-- Writes a result message. -/
def appendExecResultPayload (diagnosticLen : UInt16) : Bytes :=
  let p := appendTermination p result.termination
  let p := p ++ u32Bytes result.durationMs
  let p := appendExecOperationCapturedOutput p result.stdout
  let p := appendExecOperationCapturedOutput p result.stderr
  p ++ u16Bytes diagnosticLen ++ strBytes result.diagnostic

/-- A full frame of a result. -/
def encodeExecResultFrameInto : Except ProtocolError Bytes := do
  let (diagnosticLen, payloadLen) ←
    validateExecResultPayload result.termination result.stdout result.stderr result.diagnostic
  encodeInto msgExecResult seq payloadLen fun frame =>
    appendExecResultPayload frame result diagnosticLen

/-- Reads captured output. -/
def decodeExecOperationCapturedOutput : Decode ExecCapturedOutput := do
  let tag ← readU8 "exec captured output tag truncated"
  if tag = execCapturedOutputDiscarded then return .discarded
  else if tag = execCapturedOutputCaptured then
    let flags ← readU8 "exec captured output flags truncated"
    Parse.refuse (flags &&& ~~~execCapturedOutputFlagTruncated ≠ 0)
      (.invalidPayload "exec captured output unknown flags")
    let bytesLen ← readU32 "exec captured output bytes_len truncated"
    let bytes ← readSlice bytesLen.toNat "exec captured output bytes truncated"
    return .captured bytes (flags &&& execCapturedOutputFlagTruncated ≠ 0)
  else invalid "invalid exec captured output tag"

/-- The errors of a termination in a result. -/
def execResultTerminationErrors : TerminationDecodeErrors where
  terminationTruncated := "exec result termination truncated"
  exitCodeTruncated := "exec result exit_code truncated"
  invalidTag := "invalid exec termination tag"

/-- Reads a result message. -/
def readExecResult : Decode DecodedExecResult := do
  let termination ← decodeTermination execResultTerminationErrors
  let durationMs ← readU32 "exec result duration truncated"
  let stdout ← decodeExecOperationCapturedOutput
  let stderr ← decodeExecOperationCapturedOutput
  let diagnosticLen ← readU16 "exec result diagnostic_len truncated"
  let diagnostic ←
    readStr diagnosticLen.toNat "exec result diagnostic truncated" "invalid UTF-8 in diagnostic"
  expectConsumed "exec result trailing bytes"
  return { termination, durationMs, stdout, stderr, diagnostic }

/-- The decoder of a result payload. -/
def decodeExecResult : Except ProtocolError DecodedExecResult :=
  (readExecResult payload 0).map Prod.fst

/-- The length of captured output fits its field. -/
def ExecCapturedOutput.Valid : ExecCapturedOutput → Prop
  | .discarded => True
  | .captured bytes _ => bytes.length < 2 ^ 32

/-- The results that can be written. -/
structure DecodedExecResult.Valid (result : DecodedExecResult) : Prop where
  stdout : result.stdout.Valid
  stderr : result.stderr.Valid
  diagnostic : (strBytes result.diagnostic).length < 2 ^ 16

/-- The payload of a result. -/
def DecodedExecResult.bytes : Bytes :=
  appendTermination [] result.termination ++ (u32Bytes result.durationMs ++
    (appendExecOperationCapturedOutput [] result.stdout ++
        (appendExecOperationCapturedOutput [] result.stderr ++
        (u16Bytes (.ofNat (strBytes result.diagnostic).length) ++ strBytes result.diagnostic))))

theorem appendTermination_eq : appendTermination p termination = p ++
    appendTermination [] termination := by
  cases termination <;> simp [appendTermination]

theorem appendExecOperationCapturedOutput_eq (output) :
    appendExecOperationCapturedOutput p output = p ++ appendExecOperationCapturedOutput
      [] output := by
  cases output <;> simp [appendExecOperationCapturedOutput]

theorem appendExecResultPayload_eq :
      appendExecResultPayload p result (.ofNat (strBytes result.diagnostic).length) =
      p ++ result.bytes := by
  rw [appendExecResultPayload, appendExecOperationCapturedOutput_eq,
    appendExecOperationCapturedOutput_eq _ result.stdout, appendTermination_eq]
  simp [DecodedExecResult.bytes]

theorem execOperationCapturedOutputEncodedLen_eq_ok {output} {field}
    {n} : execOperationCapturedOutputEncodedLen output field = .ok n ↔
      output.Valid ∧ n = (appendExecOperationCapturedOutput [] output).length := by
  cases output with
  | discarded =>
    simp [execOperationCapturedOutputEncodedLen, ExecCapturedOutput.Valid,
      appendExecOperationCapturedOutput, eq_comm]
  | captured bytes truncated =>
    have hmax : 1 + 1 + 4 + 2 ^ 32 ≤ usizeMax := by decide
    have hlen : (appendExecOperationCapturedOutput [] (.captured bytes truncated)).length =
        1 + 1 + 4 + bytes.length := by
      simp only [appendExecOperationCapturedOutput, length_append, length_nil, length_singleton,
        length_u32Bytes]
    simp only [execOperationCapturedOutputEncodedLen, bind_eq_ok, ensureU32Len_eq_ok,
      checkedPayloadLenAdd_eq_ok, ExecCapturedOutput.Valid, hlen]
    constructor
    · rintro ⟨_, ⟨hbytes, -⟩, -, rfl⟩
      exact ⟨hbytes, rfl⟩
    · rintro ⟨hbytes, rfl⟩
      exact ⟨_, ⟨hbytes, rfl⟩, by omega, rfl⟩

theorem DecodedExecResult.length_bytes : result.bytes.length =
    (appendTermination [] result.termination).length + [4,
        (appendExecOperationCapturedOutput [] result.stdout).length,
        (appendExecOperationCapturedOutput [] result.stderr).length, 2,
        (strBytes result.diagnostic).length].sum := by
  simp only [DecodedExecResult.bytes, length_append, length_u32Bytes, length_u16Bytes, sum_cons,
    sum_nil]
  omega

variable {result}

theorem validateExecResultPayload_eq_ok {lens} :
    validateExecResultPayload result.termination result.stdout result.stderr result.diagnostic =
      .ok lens ↔ result.Valid ∧ result.bytes.length ≤ maxPayloadSize ∧
        lens = (.ofNat (strBytes result.diagnostic).length, result.bytes.length) := by
  have hstart : (appendTermination [] result.termination).length ≤ usizeMax := by
    cases result.termination <;> simp [appendTermination, usizeMax]
  have husize : maxPayloadSize ≤ usizeMax := by decide
  simp only [validateExecResultPayload, bind_eq_ok, ensureU16Len_eq_ok,
    execOperationCapturedOutputEncodedLen_eq_ok, ensurePayloadFitsMessage_eq_ok,
    terminationEncodedLen_eq, DecodedExecResult.length_bytes]
  constructor
  · rintro ⟨_, ⟨hdiagn, rfl⟩, _, ⟨hstdout, rfl⟩, _, ⟨hstd, rfl⟩, _, hsum, _, hfits, hlens⟩
    obtain ⟨-, rfl⟩ := (foldlM_checkedPayloadLenAdd_eq_ok hstart).mp hsum
    exact ⟨⟨hstdout, hstd, hdiagn⟩, hfits, (Except.ok.inj hlens).symm⟩
  · rintro ⟨hvalid, hfits, rfl⟩
    have hsum := (foldlM_checkedPayloadLenAdd_eq_ok hstart).mpr ⟨hfits.trans husize, rfl⟩
    exact ⟨_, ⟨hvalid.diagnostic, rfl⟩, _, ⟨hvalid.stdout, rfl⟩, _, ⟨hvalid.stderr, rfl⟩, _, hsum,
      (), hfits, rfl⟩

/-- **A result frame is written if the result fits into a message.** -/
theorem encodeExecResultFrameInto_eq_ok {seq} {frame} :
    encodeExecResultFrameInto seq result = .ok frame ↔ result.Valid ∧
        result.bytes.length ≤ maxPayloadSize ∧
        frame = (RawMessage.mk msgExecResult seq result.bytes).frame := by
  simp only [encodeExecResultFrameInto, bind_eq_ok, validateExecResultPayload_eq_ok]
  constructor
  · rintro ⟨_, ⟨hvalid, hfits, rfl⟩, hframe⟩
    obtain ⟨-, rfl⟩ := encodeInto_eq_ok.mp hframe
    refine ⟨hvalid, hfits, ?_⟩
    rw [appendExecResultPayload_eq]
    rfl
  · rintro ⟨hvalid, hfits, rfl⟩
    refine ⟨_, ⟨hvalid, hfits, rfl⟩, encodeInto_eq_ok.mpr ⟨payload_fits.mp hfits, ?_⟩⟩
    rw [appendExecResultPayload_eq]
    rfl

theorem codes_decodeExecOperationCapturedOutput :
    decodeExecOperationCapturedOutput.Codes (appendExecOperationCapturedOutput [])
      ExecCapturedOutput.Valid := by
  refine ((codes_readU8 _).bind fun tag =>
    .ite (.pure _) (.ite ((codes_readU8 _).bind fun flags =>
      .refuse ((codes_readU32 _).bind fun len =>
      (codes_readSlice _ _).bind fun bytes => .pure _)) (.fail _))).congr fun output text rest => ?_
  constructor
  · rintro ⟨tag, y, rfl, -, h⟩
    split at h
    case isTrue htag =>
      obtain ⟨rfl, rfl⟩ := h
      exact ⟨trivial, by rw [htag]; rfl⟩
    split at h
    case isTrue htag =>
      obtain ⟨flags, _, rfl, -, hflags, len, _, rfl, -, bytes, _, rfl, hlen, rfl, rfl⟩ := h
      have hbyte : flags = if decide (flags &&& execCapturedOutputFlagTruncated ≠ 0) then
          execCapturedOutputFlagTruncated else 0 := (flags_known flags).mp hflags
      refine ⟨lt_of_eq_of_lt hlen len.toNat_lt, ?_⟩
      rw [htag, appendExecOperationCapturedOutput, ← hbyte, hlen, UInt32.ofNat_toNat, append_nil]
      rfl
    case isFalse => exact h.elim
  · rintro ⟨hvalid, rfl⟩
    cases output with
    | discarded => exact ⟨_, [], rfl, trivial, rfl, rfl⟩
    | captured bytes truncated =>
      refine ⟨execCapturedOutputCaptured, _, rfl, trivial,
        if truncated then execCapturedOutputFlagTruncated else 0, _, rfl, trivial, ?_,
          .ofNat bytes.length,
        _, rfl, trivial, bytes, [], (append_nil _).symm, (UInt32.toNat_ofNat_of_lt' hvalid).symm,
          ?_, rfl⟩
      · cases truncated <;> decide
      · exact congrArg (ExecCapturedOutput.captured bytes) (flag_read truncated).symm

theorem reads_readExecResult : readExecResult.Reads fun result text rest =>
    result.Valid ∧ text = result.bytes ∧ rest = [] := by
  refine ((codes_decodeTermination _).bind fun termination =>
    (codes_readU32 _).bind fun durationMs =>
    codes_decodeExecOperationCapturedOutput.bind fun stdout =>
    codes_decodeExecOperationCapturedOutput.bind fun stderr => (codes_readU16 _).bind fun len =>
    (codes_readStr _ _ _).bind fun diagnostic => (reads_expectConsumed _).bind fun _ =>
      .pure _).congr
      fun result text rest => ?_
  constructor
  · rintro ⟨termination, _, rfl, -, durationMs, _, rfl, -, stdout, _, rfl, hstdout, stderr, _, rfl,
      hstd, len, _, rfl, -, diagnostic, _, rfl, hlen, _, _, _, rfl, ⟨rfl, hrest⟩, rfl, rfl⟩
    refine ⟨⟨hstdout, hstd, lt_of_eq_of_lt hlen len.toNat_lt⟩, ?_, hrest⟩
    simp [DecodedExecResult.bytes, hlen]
  · rintro ⟨hvalid, rfl, rfl⟩
    exact ⟨result.termination, _, rfl, trivial, result.durationMs, _, rfl, trivial,
      result.stdout, _, rfl, hvalid.stdout, result.stderr, _, rfl, hvalid.stderr,
      .ofNat (strBytes result.diagnostic).length, _, rfl, trivial, result.diagnostic, [],
      (append_nil _).symm, (UInt16.toNat_ofNat_of_lt' hvalid.diagnostic).symm, (), [], [], rfl,
      ⟨rfl, rfl⟩, rfl, rfl⟩

theorem decodeExecResult_eq_ok {payload} :
    decodeExecResult payload = .ok result ↔ result.Valid ∧ payload = result.bytes :=
  reads_readExecResult.map_fst_whole

end Okou.GuestControl
