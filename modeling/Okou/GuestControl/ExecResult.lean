import Okou.GuestControl.ExecStream

/-!
# The result of an exec operation

The result fits into one frame and passes the checks of the host; with the frames before it this is
`guest_output_accepted`.
-/

namespace Okou.GuestControl

open List Function

variable {output : DecodedExecOutput} {stream : ExecOutputStream} {outputs : List DecodedExecOutput}
  {op : ExecOperation} {policy : ExecOutputPolicy}

variable {host : ExecStreamState} {stdout stderr : ExecOutputPolicy} {seq : UInt32}

open ExecOperation

/-! ### The result -/

/-- A stream's chunks are not too long for a frame. -/
def ChunksFit (policy : ExecOutputPolicy) : Prop := ∀ config ∈ streamConfig policy,
  config.chunkLimitBytes ≤ maxMessageSize - frameBodyHeaderLen - execOutputPayloadOverhead

theorem validateChunkLimit_eq_ok {name} {u} :
    validateChunkLimit name policy = .ok u ↔ ChunksFit policy := by
  unfold validateChunkLimit ChunksFit
  cases streamConfig policy with
  | none => exact ⟨nofun, fun _ => rfl⟩
  | some config => simp

theorem validateRequest_eq_ok (h : validateRequest stdout stderr = .ok ()) :
    (captureLimitBytes stdout).getD 0 + (captureLimitBytes stderr).getD 0 ≤
      execResultCaptureBudget stdout stderr ∧ ChunksFit stdout ∧ ChunksFit stderr := by
  unfold validateRequest at h
  dsimp only at h
  split at h
  case h_1 =>
    obtain ⟨_, herror, -⟩ := bind_eq_ok.mp h
    cases herror
  case h_2 total htotal =>
    obtain ⟨_, hok, h⟩ := bind_eq_ok.mp h
    cases hok
    obtain ⟨hbudg, h⟩ := require_bind_eq_ok.mp h
    obtain ⟨_, hstdout, hstd⟩ := bind_eq_ok.mp h
    refine ⟨?_, validateChunkLimit_eq_ok.mp hstdout, validateChunkLimit_eq_ok.mp hstd⟩
    obtain ⟨-, ⟨⟩⟩ := Option.ite_none_right_eq_some.mp htotal
    exact hbudg

theorem sendable_of (hvalid : policy.Valid) (hchunk : ChunksFit policy) : Sendable policy := by
  intro config hconf
  have hmax : 2 ^ 32 ≤ usizeMax := by decide
  refine ⟨?_, hchunk config hconf, ?_⟩
  all_goals
    cases policy with
    | discard | capture => cases hconf
    | stream limit | captureAndStream _ limit =>
      obtain rfl := Option.mem_some.mp hconf
      first
      | exact Nat.pos_of_ne_zero fun h => hvalid (UInt32.toNat_inj.mp h)
      | exact limit.toNat_lt.le.trans hmax

theorem execResultOutputOverhead_le (policy) : execResultOutputOverhead policy ≤ 6 := by
  unfold execResultOutputOverhead
  split <;> decide

theorem captureLimitBytes_lt {limit} (h : captureLimitBytes policy = some limit) :
    limit < 2 ^ 32 := by
  cases policy with
  | discard => cases h
  | stream => cases h
  | capture limitBytes =>
    cases h
    exact limitBytes.toNat_lt
  | captureAndStream captureLimitBytes _ _ =>
    cases h
    exact captureLimitBytes.toNat_lt

/-- Captured output that the policy allows fits its field, its share of the budget, and the
host's limit. -/
theorem CapturedFor.spec {output} (h : CapturedFor policy output) (name) : output.Valid ∧
      (appendExecOperationCapturedOutput [] output).length ≤
        execResultOutputOverhead policy + (captureLimitBytes policy).getD 0 ∧
      validateResultOutput name (captureState policy) output = .ok () := by
  have hstate : captureState policy = (captureLimitBytes policy).elim .discard .capture := by
    cases policy <;> rfl
  unfold CapturedFor at h
  unfold execResultOutputOverhead
  rw [hstate]
  cases hlimit : captureLimitBytes policy with
  | none =>
    rw [hlimit] at h
    obtain rfl := h
    exact ⟨trivial, by decide, rfl⟩
  | some limit =>
    rw [hlimit] at h
    obtain ⟨bytes, truncated, rfl, hlen⟩ := h
    have hmax := captureLimitBytes_lt hlimit
    refine ⟨hlen.trans_lt hmax, ?_, ?_⟩
    · simp only [appendExecOperationCapturedOutput, length_append, length_nil,
        length_singleton, length_u32Bytes, Option.isSome_some, if_true, execCapturedOutputOverhead,
        Option.getD_some]
      omega
    · exact require_eq_ok.mpr hlen

/-- **The result of an operation fits into one frame and passes the checks of the host.** -/
theorem result_accepted (hrequest : validateRequest stdout stderr = .ok ())
    (hstdoutOp : op.capture .stdout = captureState stdout)
    (hstderrOp : op.capture .stderr = captureState stderr) (result)
    (hstdout : CapturedFor stdout result.stdout) (hstd : CapturedFor stderr result.stderr)
    (hdiagn : (strBytes result.diagnostic).length ≤ 65535) (seq) :
    encodeExecResultFrameInto seq result = .ok (RawMessage.mk msgExecResult seq result.bytes).frame
      ∧ decodeExecResult result.bytes = .ok result ∧ validateResult op result = .ok () := by
  obtain ⟨hbudg, -, -⟩ := validateRequest_eq_ok hrequest
  obtain ⟨houtValid, houtLen, houtCheck⟩ := hstdout.spec "stdout"
  obtain ⟨herrValid, herrLen, herrCheck⟩ := hstd.spec "stderr"
  have hvalid : result.Valid := ⟨houtValid, herrValid, by omega⟩
  have hterm : (appendTermination [] result.termination).length ≤ execResultExitedLen := by
    cases result.termination <;> simp [appendTermination, execResultExitedLen]
  have houtOverhead := execResultOutputOverhead_le stdout
  have herrOverhead := execResultOutputOverhead_le stderr
  have hfits : result.bytes.length ≤ maxPayloadSize := by
    rw [DecodedExecResult.length_bytes]
    simp only [sum_cons, sum_nil]
    simp only [execResultCaptureBudget, maxMessageSize, frameBodyHeaderLen, execResultExitedLen,
      execResultDurationLen, execResultDiagnosticLenField, execResultMaxDiagnosticBytes]
        at hbudg hterm
    simp only [maxPayloadSize, maxMessageSize, minBodySize]
    omega
  refine ⟨encodeExecResultFrameInto_eq_ok.mpr ⟨hvalid, hfits, rfl⟩,
    decodeExecResult_eq_ok.mpr ⟨hvalid, rfl⟩, ?_⟩
  unfold validateResult
  rw [hstdoutOp, hstderrOp, bind_eq_ok]
  exact ⟨(), houtCheck, herrCheck⟩

/-- The bytes of a stream in a list of messages from the guest. -/
def streamedMessages (msgs : List RawMessage) (stream : ExecOutputStream) : Bytes :=
  streamed (msgs.filterMap fun m => (decodeExecOutput m.payload).toOption) stream

/-- An output frame that has arrived: decode its payload and check it. -/
def receiveOutput (operation : ExecOperation) (m : RawMessage) :
    Except (ProtocolError ⊕ String) ExecOperation :=
  match decodeExecOutput m.payload with
  | .error e => .error (.inl e)
  | .ok output => (validateOutput operation output).mapError .inr

theorem decodeExecOutput_bytes (h : output.bytes.length ≤ maxPayloadSize) :
    decodeExecOutput output.bytes = .ok output := by
  refine decodeExecOutput_eq_ok.mpr ⟨?_, rfl⟩
  rw [DecodedExecOutput.length_bytes] at h
  exact lt_of_le_of_lt (by omega) (show maxPayloadSize < 2 ^ 32 by decide)

theorem filterMap_outputMessage (h : ∀ output ∈ outputs, output.bytes.length ≤ maxPayloadSize) :
    (outputs.map (outputMessage seq)).filterMap (fun m => (decodeExecOutput m.payload).toOption) =
      outputs := by
  induction outputs with
  | nil => rfl
  | cons output outputs ih =>
    obtain ⟨houtput, houtp⟩ := forall_mem_cons.mp h
    have hdec : (decodeExecOutput (outputMessage seq output).payload).toOption = some output := by
      rw [outputMessage, decodeExecOutput_bytes houtput]
      rfl
    rw [map_cons, filterMap_cons, hdec, ih houtp]

theorem foldlM_receiveOutput {op'} (h : ∀ output ∈ outputs, output.bytes.length ≤ maxPayloadSize)
    (hvalid : outputs.foldlM validateOutput op = .ok op') :
    (outputs.map (outputMessage seq)).foldlM receiveOutput op = .ok op' := by
  induction outputs generalizing op with
  | nil =>
    cases hvalid
    rfl
  | cons output outputs ih =>
    obtain ⟨houtput, houtp⟩ := forall_mem_cons.mp h
    obtain ⟨mid, hmid, hrest⟩ := bind_eq_ok.mp hvalid
    rw [map_cons, foldlM_cons, bind_eq_ok]
    refine ⟨mid, ?_, ih houtp hrest⟩
    rw [receiveOutput, outputMessage, decodeExecOutput_bytes houtput]
    dsimp only
    rw [hmid]
    rfl

/-- **The host accepts what a guest sends.**  At every point of every run, the frames sent so far
are output frames of the operation and each passes the host's checks in its turn; what was sent of a
stream is a prefix of what was read from its pipe.  Once the operation has ended, its captured
output fits into one result frame with any diagnostic, and the host accepts that too. -/
theorem guest_output_accepted (seq : UInt32) (policy : ExecOutputStream → ExecOutputPolicy)
    (hrequest : validateRequest (policy .stdout) (policy .stderr) = .ok ())
    (hvalid : ∀ stream, (policy stream).Valid)
    (events : List GuestEvent) (g : Guest)
    (hrun : runEvents Guest.step (Guest.init seq policy) events = some g) :
    ∃ msgs op, Framed g.sent.flatten msgs [] ∧
      (∀ m ∈ msgs, m.msgType = msgExecOutput ∧ m.seq = seq) ∧
      msgs.foldlM receiveOutput (.new policy) = .ok op ∧
      (∀ stream, streamedMessages msgs stream <+: (g.worker stream).bytesRead) ∧
      ∀ captured ∈ g.outputs, ∀ termination durationMs diagnostic,
        (strBytes diagnostic).length ≤ 65535 → ∃ frame payload, encodeExecResultFrameInto seq
            ⟨termination, durationMs, captured .stdout, captured .stderr, diagnostic⟩ = .ok frame ∧
          Framed frame [⟨msgExecResult, seq, payload⟩] [] ∧
          ∃ result, decodeExecResult payload = .ok result ∧ validateResult op result = .ok () := by
  obtain ⟨-, hstdoutChunk, hstderrChunk⟩ := validateRequest_eq_ok hrequest
  have hpol : ∀ stream, Sendable (policy stream) := by
    intro stream
    cases stream with
    | stdout => exact sendable_of (hvalid .stdout) hstdoutChunk
    | stderr => exact sendable_of (hvalid .stderr) hstderrChunk
  -- the invariant names the outputs that were sent and the operation the host has made of them
  have hinv : ∃ outputs op, Inv seq policy g outputs op :=
    runEvents_invariant (fun g => ∃ outputs op, Inv seq policy g outputs op)
      (fun _ _ _ ⟨_, _, h⟩ hstep => h.step hpol hstep) ⟨[], _, inv_init seq policy⟩ hrun
  obtain ⟨outputs, op, h⟩ := hinv
  have hmsgsFit : ∀ output ∈ outputs, (outputMessage seq output).Fits := by
    intro output houtput
    have hfits := h.accepted.fits output houtput
    simp only [maxPayloadSize, maxMessageSize, minBodySize] at hfits
    simp only [RawMessage.Fits, outputMessage, maxMessageSize, minBodySize]
    omega
  have hsent : g.sent = (outputs.map (outputMessage seq)).map RawMessage.frame := by
    rw [map_map]
    unfold Guest.sent
    cases hwrit : g.writer with
    | none =>
      rw [(h.silent hwrit).1]
      rfl
    | some writer =>
      rw [h.writer writer hwrit]
      rfl
  refine ⟨outputs.map (outputMessage seq), op, ?_, ?_, ?_, ?_, ?_⟩
  · refine framed_iff.mpr ⟨forall_mem_map.mpr hmsgsFit, ?_⟩
    rw [hsent, append_nil]
    rfl
  · intro m hm
    obtain ⟨output, -, rfl⟩ := mem_map.mp hm
    exact ⟨rfl, rfl⟩
  · exact foldlM_receiveOutput h.accepted.fits h.accepted.accepted
  · intro stream
    rw [streamedMessages, filterMap_outputMessage h.accepted.fits]
    exact (h.agrees stream).sent_le
  · intro captured hcapt termination durationMs diagnostic hdiagn
    have hstdout := h.result captured hcapt .stdout
    have hstd := h.result captured hcapt .stderr
    obtain ⟨henc, hdec, hcheck⟩ := result_accepted hrequest (congrFun h.accepted.capture .stdout)
      (congrFun h.accepted.capture .stderr)
      ⟨termination, durationMs, captured .stdout, captured .stderr, diagnostic⟩ hstdout hstd hdiagn
      seq
    refine ⟨_, _, henc, ?_, _, hdec, hcheck⟩
    obtain ⟨-, hfits, -⟩ := encodeExecResultFrameInto_eq_ok.mp henc
    refine framed_iff.mpr ⟨?_, by simp⟩
    intro m hm
    rw [mem_singleton.mp hm]
    simp only [maxPayloadSize, maxMessageSize, minBodySize] at hfits
    simp only [RawMessage.Fits, maxMessageSize, minBodySize]
    omega

/-- Four bytes of standard output against a stream limit of three, in chunks of two. -/
def cutPolicy : ExecOutputStream → ExecOutputPolicy
  | .stdout => .captureAndStream 8 3 2
  | .stderr => .stream 8 4

/-- The stream is cut, standard error is cancelled, and the drains end late. -/
def cutEvents : List GuestEvent :=
  [.read .stdout [1, 2, 3, 4], .enter .stdout, .read .stderr [9], .write .stdout, .enter .stdout,
    .write .stdout, .enter .stdout, .write .stdout, .cancelDrain, .refuse .stderr, .leave .stdout,
    .leave .stderr, .finish true]

theorem guest_output_accepted_cut : ∃ g, runEvents Guest.step (Guest.init 7 cutPolicy) cutEvents =
    some g ∧ g.sent.length = 4 ∧ g.outputs.isSome = true ∧
    ∃ msgs op, Framed g.sent.flatten msgs [] ∧
      msgs.foldlM receiveOutput (.new cutPolicy) = .ok op := by
  have hrun : (runEvents Guest.step (Guest.init 7 cutPolicy) cutEvents).any
      (fun g => g.sent.length = 4 ∧ g.outputs.isSome) := by decide +kernel
  obtain ⟨g, hg, hshape⟩ := (Option.any_eq_true _ _).mp hrun
  have hvalid : ∀ stream, (cutPolicy stream).Valid := by
    intro stream
    cases stream with
    | stdout => exact fun h => nomatch h
    | stderr => exact fun h => nomatch h
  obtain ⟨msgs, op, hfram, -, hacc, -⟩ :=
    guest_output_accepted 7 cutPolicy (by decide +kernel) hvalid cutEvents g hg
  exact ⟨g, hg, (of_decide_eq_true hshape).1, (of_decide_eq_true hshape).2, msgs, op, hfram, hacc⟩

end Okou.GuestControl
