import Okou.GuestControl.ExecWorker

/-!
# Steps of the guest

`Inv`: the frames that are sent are accepted in their order.  Every step of the guest keeps it.
-/

namespace Okou.GuestControl

open List Function

variable {output : DecodedExecOutput} {stream : ExecOutputStream} {outputs : List DecodedExecOutput}
  {op : ExecOperation} {policy : ExecOutputPolicy}

variable {truncated : Bool}

/-! ### Steps of the guest -/

/-- The chunks of a stream are neither empty nor too long for a frame. -/
def Sendable (policy : ExecOutputPolicy) : Prop :=
  ∀ config ∈ streamConfig policy, 0 < config.chunkLimitBytes ∧
    config.chunkLimitBytes ≤ maxMessageSize - frameBodyHeaderLen - execOutputPayloadOverhead ∧
    config.streamLimitBytes ≤ usizeMax

/-- Captured output that the policy allows. -/
def CapturedFor (policy : ExecOutputPolicy) (output : ExecCapturedOutput) : Prop :=
  match captureLimitBytes policy with
  | none => output = .discarded
  | some limit => ∃ bytes truncated, output = .captured bytes truncated ∧ bytes.length ≤ limit

/-- Outputs that the host has accepted, each short enough for a frame. -/
structure Accepted (policy : ExecOutputStream → ExecOutputPolicy) (outputs : List DecodedExecOutput)
    (op : ExecOperation) : Prop where
  accepted : outputs.foldlM validateOutput (.new policy) = .ok op
  fits : ∀ output ∈ outputs, output.bytes.length ≤ maxPayloadSize
  capture : op.capture = fun stream => captureState (policy stream)

/-- The writer that has sent these outputs. -/
def writerOf (seq : UInt32) (outputs : List DecodedExecOutput) (op : ExecOperation) :
    ExecStreamWriter :=
  ⟨seq, op.expectedOutputSeq, outputs.map fun output => (outputMessage seq output).frame⟩

/-- The operation after an output of a stream. -/
def ExecOperation.after (op : ExecOperation) (stream : ExecOutputStream) (host : ExecStreamState)
    (chunk : Bytes) (truncated : Bool) : ExecOperation :=
  { op with
    stream := Function.update op.stream stream
      (some { host with emittedBytes := host.emittedBytes + chunk.length, truncated })
    expectedOutputSeq := op.expectedOutputSeq + 1 }

@[simp] theorem ExecOperation.after_stream_self (op : ExecOperation) (stream : ExecOutputStream)
    (host : ExecStreamState) (chunk : Bytes) (truncated : Bool) :
    (op.after stream host chunk truncated).stream stream =
      some { host with emittedBytes := host.emittedBytes + chunk.length, truncated } :=
  update_self ..

theorem ExecOperation.after_stream_of_ne (op : ExecOperation) {stream'}
    (h : stream' ≠ stream) (host : ExecStreamState) (chunk : Bytes) (truncated : Bool) :
    (op.after stream host chunk truncated).stream stream' = op.stream stream' :=
  update_of_ne h ..

/-- The guest has sent these outputs, and the host has accepted them. -/
structure Inv (seq : UInt32) (policy : ExecOutputStream → ExecOutputPolicy) (g : Guest)
    (outputs : List DecodedExecOutput) (op : ExecOperation) : Prop where
  accepted : Accepted policy outputs op
  writer : ∀ writer ∈ g.writer, writer = writerOf seq outputs op
  silent : g.writer = none → outputs = [] ∧ ∀ stream, streamConfig (policy stream) = none
  settings : ∀ stream, (g.worker stream).settings = outputSettings (policy stream)
  agrees : ∀ stream, Agrees (g.outputs.isSome = true) (g.worker stream) (op.stream stream)
    (streamed outputs stream)
  captures : ∀ stream, (g.worker stream).Captures
  ended : g.outputs.isSome = true → ∀ stream, (g.worker stream).phase = .done
  result : ∀ result ∈ g.outputs, ∀ stream, CapturedFor (policy stream) (result stream)

variable {host : ExecStreamState} {stdout stderr : ExecOutputPolicy} {seq : UInt32}

/-- When an output passes the checks of the host. -/
theorem validateOutput_of {operation} (hseq : output.outputSeq = operation.expectedOutputSeq)
    (hstr : operation.stream output.stream = some host) (htrunc : host.truncated = false)
    (hne : output.chunk ≠ [] ∨ output.truncated)
    (hchunk : output.chunk.length ≤ host.chunkLimitBytes)
    (hlimit : host.emittedBytes + output.chunk.length ≤ host.limitBytes)
    (husize : host.limitBytes ≤ usizeMax) :
    validateOutput operation output =
      .ok (operation.after output.stream host output.chunk output.truncated) := by
  have hsum : host.emittedBytes + output.chunk.length ≤ usizeMax := hlimit.trans husize
  have hmark : (if output.truncated then true else host.truncated) = output.truncated := by
    cases output.truncated <;> simp [htrunc]
  simp only [validateOutput, hstr, require_bind_eq_ok, checkedAdd, if_pos hsum]
  refine ⟨hseq, htrunc, hne, hchunk, ?_⟩
  rw [bind_eq_ok]
  refine ⟨_, rfl, ?_⟩
  rw [require_bind_eq_ok, hmark]
  exact ⟨hlimit, rfl⟩

/-- The host accepts one more chunk of a stream. -/
structure Accepts (op : ExecOperation) (stream : ExecOutputStream) (host : ExecStreamState)
    (chunk : Bytes) (truncated : Bool) : Prop where
  stream_eq : op.stream stream = some host
  not_truncated : host.truncated = false
  marked : chunk ≠ [] ∨ truncated = true
  chunk_le : chunk.length ≤ host.chunkLimitBytes
  limit_le : host.emittedBytes + chunk.length ≤ host.limitBytes
  limit_usize : host.limitBytes ≤ usizeMax
  frame_le : execOutputPayloadOverhead + chunk.length ≤ maxPayloadSize

/-- **One more output that the host accepts.** -/
theorem Accepts.writeOutput {policy} (h : Accepts op stream host chunk truncated)
    (hacc : Accepted policy outputs op)
    (seq) : ∃ output : DecodedExecOutput, output.stream = stream ∧ output.chunk = chunk ∧
      (writerOf seq outputs op).writeOutput stream chunk truncated =
        .ok (writerOf seq (outputs ++ [output]) (op.after stream host chunk truncated)) ∧
      Accepted policy (outputs ++ [output]) (op.after stream host chunk truncated) := by
  let output : DecodedExecOutput := ⟨stream, op.expectedOutputSeq, chunk, truncated⟩
  have hfits : output.bytes.length ≤ maxPayloadSize := by
    rw [DecodedExecOutput.length_bytes]
    exact h.frame_le
  refine ⟨output, rfl, rfl, ?_, ?_, ?_, hacc.capture⟩
  · have henc := (@encodeExecOutputFrameInto_eq_ok seq output _).mpr ⟨hfits, rfl⟩
    unfold ExecStreamWriter.writeOutput
    rw [bind_eq_ok]
    refine ⟨_, henc, ?_⟩
    simp only [writerOf, map_append]
    rfl
  · have hvalid : validateOutput op output = .ok (op.after stream host chunk truncated) :=
      validateOutput_of rfl h.stream_eq h.not_truncated h.marked h.chunk_le h.limit_le h.limit_usize
    rw [foldlM_append, bind_eq_ok]
    refine ⟨op, hacc.accepted, ?_⟩
    rw [foldlM_cons, bind_eq_ok]
    exact ⟨_, hvalid, rfl⟩
  · exact forall_mem_append.mpr ⟨hacc.fits, forall_mem_singleton.mpr hfits⟩

section

variable {w : Worker} {host : Option ExecStreamState} {sent : Bytes} {ended : Prop}

section

variable (h : Agrees ended w host sent)

include h

theorem Agrees.onChunk (hpol : Sendable policy) (hsets : w.settings = outputSettings policy)
    (hpoll : w.phase = .polling) (hended : ¬ended) (chunk : Bytes) (hne : chunk ≠ []) :
    Agrees ended (w.onChunk chunk) host sent := by
  cases h with
  | silent hstr _ =>
    refine .silent (by rw [Worker.settings_onChunk, hstr]) (.inl ?_)
    have hcapture := Worker.capture_same { w with bytesRead := w.bytesRead ++ chunk } chunk
    simp only [Worker.onChunk, Worker.startStream, Worker.settings_capture, hstr]
    rw [hcapture.2.2.2.2]
    exact hpoll
  | forwarded hstr h =>
    rw [hsets] at hstr
    have hchunk := (hpol _ hstr).1
    refine .forwarded (by rw [Worker.settings_onChunk, hsets]; exact hstr) ?_
    exact h.onChunk hpoll hended (by rw [hsets]; exact hstr) hchunk chunk hne

theorem Agrees.leave : Agrees ended { w with phase := .done } host sent := by
  cases h with
  | silent hstr _ => exact .silent hstr (.inr rfl)
  | forwarded hstr h =>
    exact .forwarded hstr { h with phase := trivial }

variable {config : BoundedStreamConfig}

/-- The host expects what a worker forwards. -/
theorem Agrees.of_settings (hconf : w.settings.stream = some config) :
    ∃ host', host = some host' ∧ StreamAgrees w config host' sent ended := by
  cases h with
  | silent hstr _ =>
    rw [hstr] at hconf
    cases hconf
  | forwarded hstr h =>
    rw [hstr] at hconf
    cases hconf
    exact ⟨_, rfl, h⟩

/-- A worker with a chunk to forward has a stream. -/
theorem Agrees.of_next (hnext : w.next.isSome) :
    ∃ config host', w.settings.stream = some config ∧ host = some host' ∧
      StreamAgrees w config host' sent ended := by
  cases h with
  | silent _ hphase =>
    rcases hphase with hphase | hphase <;> simp [Worker.next, hphase] at hnext
  | forwarded hstr h => exact ⟨_, _, hstr, rfl, h⟩

theorem Agrees.returned_false (hnext : w.next.isSome) :
    Agrees ended (w.returned false) host sent := by
  obtain ⟨config, host', hstr, rfl, hagr⟩ := h.of_next hnext
  exact .forwarded (by rw [(w.returned_same false).1, hstr]) (hagr.returned_false hnext)

theorem Agrees.mono {ended'} (hended : ended → ended') : Agrees ended' w host sent := by
  cases h with
  | silent hstr hphase => exact .silent hstr hphase
  | forwarded hstr h =>
    exact .forwarded hstr { h with truncated := fun hcut => (h.truncated hcut).imp_right hended }

end

/-- A chunk that a worker is about to forward passes the checks of the host. -/
theorem StreamAgrees.accepts {host} (h : StreamAgrees w config host sent ended)
    (hpol : Sendable policy) (hconf : streamConfig policy = some config)
    (hop : op.stream stream = some host)
    (hnext : w.next = some (chunk, truncated)) : Accepts op stream host chunk truncated := by
  obtain ⟨-, hmax, husize⟩ := hpol config hconf
  have hphase := h.phase
  have hemitt := h.emitted_le
  rw [maxMessageSize, frameBodyHeaderLen, execOutputPayloadOverhead] at hmax
  rcases Worker.next_eq_some.mp hnext with ⟨parts, cut, hforw, rfl⟩ | ⟨hmarking, rfl, rfl⟩
  · simp only [Worker.PhaseAgrees, hforw] at hphase
    obtain ⟨hhost, -, -, hparts, hlimit, -, -⟩ := hphase
    obtain ⟨⟨hne, hlen⟩, -⟩ := forall_mem_cons.mp hparts
    rw [flatten_cons, length_append] at hlimit
    refine ⟨hop, hhost, .inl hne, by rw [h.chunkLimit]; exact hlen,
      ?_, by rw [h.limit]; exact husize, ?_⟩
    · rw [h.emitted, h.limit]
      omega
    · rw [execOutputPayloadOverhead, maxPayloadSize, maxMessageSize, minBodySize]
      omega
  · simp only [Worker.PhaseAgrees, hmarking] at hphase
    refine ⟨hop, hphase.1, .inr rfl, Nat.zero_le _, ?_, by rw [h.limit]; exact husize, by decide⟩
    rw [h.emitted, h.limit, length_nil]
    omega

end

open ExecOperation

section

variable {seq : UInt32} {policy : ExecOutputStream → ExecOutputPolicy} {g g' : Guest}
  {op : ExecOperation} {w : Worker}

/-- A step of one worker that sends nothing. -/
theorem Inv.setWorker (h : Inv seq policy g outputs op)
    (hact : ¬g.outputs.isSome) (hsets : w.settings = (g.worker stream).settings)
    (hcaptures : w.Captures)
    (hagr : Agrees (g.outputs.isSome) w (op.stream stream) (streamed outputs stream)) :
    Inv seq policy (g.setWorker stream w) outputs op where
  __ := h
  settings := (forall_update_iff g.worker fun stream w =>
    w.settings = outputSettings (policy stream)).mpr
    ⟨hsets.trans (h.settings stream), fun stream _ => h.settings stream⟩
  agrees := (forall_update_iff g.worker fun stream w =>
    Agrees (g.outputs.isSome) w (op.stream stream) (streamed outputs stream)).mpr
      ⟨hagr, fun stream _ => h.agrees stream⟩
  captures := (forall_update_iff g.worker fun _ w => w.Captures).mpr ⟨hcaptures, fun stream _ =>
    h.captures stream⟩
  ended := fun hended => absurd hended hact

/-- What is captured at the end is what the policy allows. -/
theorem capturedFor_finalize (h : w.Captures) {policy}
    (hsets : w.settings = outputSettings policy) (drainsIncomplete : Bool) :
    CapturedFor policy (capturedOutput (finalizeExecDrainResult (some w.result) w.settings
      drainsIncomplete)) := by
  have hcapt : (finalizeExecDrainResult (some w.result) w.settings drainsIncomplete).captured =
      (captureLimitBytes policy).map fun limit => w.bytesRead.take limit := by
    unfold Worker.Captures at h
    rw [hsets] at h
    unfold finalizeExecDrainResult
    dsimp only [Option.getD_some]
    split
    · exact h
    · exact h
  unfold CapturedFor capturedOutput
  rw [hcapt]
  cases captureLimitBytes policy with
  | none => rfl
  | some limit => exact ⟨_, _, rfl, length_take_le _ _⟩

/-- The markers at the end pass the checks of the host. -/
theorem emitTruncationMarkers_spec (seq : UInt32) (hpol : ∀ stream, Sendable (policy stream))
    (hsets : ∀ stream, (g.worker stream).settings = outputSettings (policy stream))
    (hdone : ∀ stream, (g.worker stream).phase = .done) {streams} (hnodup : streams.Nodup)
    (hacc : Accepted policy outputs op)
    (hagr : ∀ stream, Agrees True (g.worker stream) (op.stream stream) (streamed outputs stream))
    (hopen : ∀ stream ∈ streams, ∀ host ∈ op.stream stream, host.truncated →
      (g.worker stream).streamTruncated) :
    ∃ outputs' op', g.emitTruncationMarkers streams (writerOf seq outputs op) =
      writerOf seq outputs' op' ∧ Accepted policy outputs' op' ∧
      ∀ stream, Agrees True (g.worker stream) (op'.stream stream) (streamed outputs' stream) := by
  induction streams generalizing outputs op with
  | nil => exact ⟨outputs, op, rfl, hacc, hagr⟩
  | cons stream streams ih =>
    obtain ⟨hfresh, hnodup⟩ := nodup_cons.mp hnodup
    rw [Guest.emitTruncationMarkers]
    split
    case isTrue =>
      exact ih hnodup hacc hagr (forall_mem_cons.mp hopen).2
    case isFalse hcut =>
      rw [Bool.or_eq_true, not_or, Option.isNone_iff_eq_none, ← ne_eq,
        Option.ne_none_iff_exists] at hcut
      obtain ⟨⟨config, hconf⟩, huncut⟩ := hcut
      obtain ⟨host, hstr, h⟩ := (hagr stream).of_settings hconf.symm
      -- the host has seen no marker of this stream, so it accepts one
      have hhost : host.truncated = false := by
        by_contra htrunc
        exact huncut (hopen stream mem_cons_self host hstr (by simpa using htrunc))
      have hpolicyConfig : streamConfig (policy stream) = some config := by
        rw [hconf, hsets]
        rfl
      obtain ⟨-, -, husize⟩ := hpol stream config hpolicyConfig
      have hlimit := h.emitted_le
      have haccepts : Accepts op stream host [] true := by
        refine ⟨hstr, hhost, .inr rfl, Nat.zero_le _, ?_, by rw [h.limit]; exact husize, by decide⟩
        rw [h.emitted, h.limit, length_nil]
        omega
      obtain ⟨output, hout, hchunk, hwrite, hacc'⟩ := haccepts.writeOutput hacc seq
      rw [hwrite]
      refine ih hnodup hacc' ?_ ?_
      · intro stream'
        by_cases heq : stream' = stream
        · subst heq
          have hsent : streamed (outputs ++ [output]) stream' = streamed outputs stream' := by
            rw [← hout, streamed_append_self, hchunk, append_nil]
          rw [after_stream_self, hsent]
          exact .forwarded hconf.symm
            { h with
                truncated := fun _ => .inr trivial, phase := by simp only [Worker.PhaseAgrees, hdone] }
        · rw [after_stream_of_ne op heq, streamed_append_of_ne outputs (by rw [hout]; exact heq)]
          exact hagr stream'
      · intro stream' hmem host' hhost'
        have hne : stream' ≠ stream := fun heq => hfresh (heq ▸ hmem)
        rw [after_stream_of_ne op hne] at hhost'
        exact hopen stream' (mem_cons_of_mem _ hmem) host' hhost'

section

variable (hpol : ∀ stream, Sendable (policy stream)) (h : Inv seq policy g outputs op)

include hpol h

/-- A worker writes the chunk it is about to forward. -/
theorem Inv.write {writer}
    (hnext : (g.worker stream).next = some (chunk, truncated)) (hwrit : g.writer = some writer) :
    ∃ writer' outputs' op', writer.writeOutput stream chunk truncated = .ok writer' ∧
      Inv seq policy { g.setWorker stream ((g.worker stream).returned true) with
        writer := some writer', lockedBy := none } outputs' op' := by
  obtain rfl := h.writer writer hwrit
  obtain ⟨config, host, hconf, hstr, hagr⟩ := (h.agrees stream).of_next (by rw [hnext]; rfl)
  have hpolicyConfig : streamConfig (policy stream) = some config := by
    rw [← hconf, h.settings]
    rfl
  have haccepts := hagr.accepts (hpol stream) hpolicyConfig hstr hnext
  obtain ⟨output, hout, hchunk, hwrite, hacc⟩ := haccepts.writeOutput h.accepted seq
  obtain ⟨hsets, -, -⟩ := (g.worker stream).returned_same true
  refine ⟨_, outputs ++ [output], op.after stream host chunk truncated, hwrite, ?_⟩
  have hact : ¬g.outputs.isSome := by
    intro hended
    have hdone := h.ended hended stream
    simp [Worker.next, hdone] at hnext
  constructor
  case accepted => exact hacc
  case writer =>
    intro writer' hwrit'
    exact (Option.mem_some.mp hwrit').symm
  case silent => exact nofun
  case settings =>
    exact (forall_update_iff g.worker fun stream w =>
      w.settings = outputSettings (policy stream)).mpr
      ⟨hsets.trans (h.settings stream), fun stream _ => h.settings stream⟩
  case agrees =>
    intro stream'
    by_cases heq : stream' = stream
    · subst heq
      have hsent := streamed_append_self outputs output
      rw [hout, hchunk] at hsent
      simp only [Guest.setWorker, update_self, after_stream_self, hsent]
      exact .forwarded (by rw [hsets]; exact hconf) (hagr.returned_true hnext)
    · simp only [Guest.setWorker, update_of_ne heq, after_stream_of_ne op heq,
        streamed_append_of_ne outputs (show stream' ≠ output.stream by rw [hout]; exact heq)]
      exact h.agrees stream'
  case captures =>
    exact (forall_update_iff g.worker fun _ w => w.Captures).mpr
      ⟨(h.captures stream).returned true, fun stream _ => h.captures stream⟩
  case ended => exact fun hended => absurd hended hact
  case result => exact h.result

/-- The end of the operation. -/
theorem Inv.finish (hdone : ∀ stream, (g.worker stream).phase = .done) (hact : g.outputs = none)
    (drainsIncomplete : Bool) : ∃ outputs' op', Inv seq policy
      { g with
        writer :=
          if drainsIncomplete then g.writer.map (g.emitTruncationMarkers [.stdout, .stderr])
            else g.writer
        outputs := some fun stream => capturedOutput (finalizeExecDrainResult
          (some (g.worker stream).result) (g.worker stream).settings drainsIncomplete) } outputs'
            op' := by
  have hagr (stream : ExecOutputStream) :
    Agrees True (g.worker stream) (op.stream stream) (streamed outputs stream) :=
    (h.agrees stream).mono fun _ => trivial
  have hres (stream : ExecOutputStream) :=
    capturedFor_finalize (h.captures stream) (h.settings stream) drainsIncomplete
  -- the writer and what it has sent, with or without markers
  have hwrit : ∃ outputs' op',
      (∀ writer ∈ (if drainsIncomplete then g.writer.map (g.emitTruncationMarkers [.stdout,
        .stderr])
        else g.writer), writer = writerOf seq outputs' op') ∧
      (g.writer = none → outputs' = []) ∧ Accepted policy outputs' op' ∧
      ∀ stream, Agrees True (g.worker stream) (op'.stream stream) (streamed outputs' stream) := by
    cases hw : g.writer with
    | none =>
      refine ⟨outputs, op, ?_, fun _ => (h.silent hw).1, h.accepted, hagr⟩
      cases drainsIncomplete <;> simp
    | some writer =>
      obtain rfl := h.writer writer hw
      cases drainsIncomplete with
      | false =>
        refine ⟨outputs, op, ?_, nofun, h.accepted, hagr⟩
        intro writer hwrit
        exact (Option.mem_some.mp hwrit).symm
      | true =>
        have hopen : ∀ stream ∈ [ExecOutputStream.stdout, .stderr], ∀ host ∈ op.stream stream,
            host.truncated → (g.worker stream).streamTruncated := by
          intro stream _ host hhost htrunc
          have hopen := h.agrees stream
          rw [Option.mem_def.mp hhost, hact] at hopen
          cases hopen with
          | forwarded _ hopen => exact (hopen.truncated htrunc).resolve_right (by simp)
        obtain ⟨outputs', op', hmarkers, hacc, hagr'⟩ :=
          emitTruncationMarkers_spec seq hpol h.settings hdone (by decide) h.accepted hagr hopen
        refine ⟨outputs', op', ?_, nofun, hacc, hagr'⟩
        intro writer hwrit
        rw [if_pos rfl, Option.map_some, hmarkers] at hwrit
        exact (Option.mem_some.mp hwrit).symm
  obtain ⟨outputs', op', hwrit, hsil, hacc, hagr'⟩ := hwrit
  refine ⟨outputs', op', hacc, hwrit, ?_, h.settings, fun stream => (hagr' stream).mono fun _ =>
    rfl, h.captures, fun _ => hdone, ?_⟩
  · intro hnone
    have hnone : g.writer = none := by
      cases drainsIncomplete with
      | false => exact hnone
      | true => exact Option.map_eq_none_iff.mp hnone
    exact ⟨hsil hnone, (h.silent hnone).2⟩
  · intro result hmem stream
    rw [← Option.mem_some.mp hmem]
    exact hres stream

omit hpol in
/-- A worker that is not done belongs to an operation that has not ended. -/
theorem Inv.active (stream) (hphase : (g.worker stream).phase ≠ .done) : ¬g.outputs.isSome :=
  fun hended => hphase (h.ended hended stream)

omit hpol h in
theorem Worker.phase_ne_done_of_next (h : w.next.isSome) : w.phase ≠ .done := by
  intro hdone
  simp [Worker.next, hdone] at h

/-- **Every step keeps the two sides in agreement.** -/
theorem Inv.step {e : GuestEvent} (hstep : g.step e = some g') : ∃ outputs' op',
    Inv seq policy g' outputs' op' := by
  cases e with
  | cancelExec | cancelDrain =>
    cases hstep
    exact ⟨outputs, op, { h with }⟩
  | read stream chunk =>
    obtain ⟨⟨hpoll, hne⟩, ⟨⟩⟩ := Option.ite_none_right_eq_some.mp hstep
    have hact := h.active stream (by rw [hpoll]; exact nofun)
    exact ⟨outputs, op, h.setWorker hact (Worker.settings_onChunk _ _)
      ((h.captures stream).onChunk chunk)
      ((h.agrees stream).onChunk (hpol stream) (h.settings stream) hpoll hact chunk hne)⟩
  | leave stream =>
    obtain ⟨hpoll, ⟨⟩⟩ := Option.ite_none_right_eq_some.mp hstep
    have hact := h.active stream (by rw [hpoll]; exact nofun)
    exact ⟨outputs, op, h.setWorker hact rfl (h.captures stream) (h.agrees stream).leave⟩
  | enter stream =>
    obtain ⟨-, ⟨⟩⟩ := Option.ite_none_right_eq_some.mp hstep
    exact ⟨outputs, op, { h with }⟩
  | write stream =>
    obtain ⟨-, hg'⟩ := Option.ite_none_right_eq_some.mp hstep
    split at hg'
    case h_1 chunk truncated writer hnext hwrit =>
      obtain ⟨writer', outputs', op', hwrite, hinv⟩ := h.write hpol hnext hwrit
      rw [hwrite] at hg'
      cases hg'
      exact ⟨outputs', op', hinv⟩
    case h_2 => cases hg'
  | refuse stream =>
    obtain ⟨⟨hnext, -⟩, ⟨⟩⟩ := Option.ite_none_right_eq_some.mp hstep
    have hact := h.active stream (Worker.phase_ne_done_of_next hnext)
    exact ⟨outputs, op, h.setWorker hact ((g.worker stream).returned_same false).1
      ((h.captures stream).returned false) ((h.agrees stream).returned_false hnext)⟩
  | skip stream =>
    -- a worker with something to forward has a writer
    obtain ⟨⟨hnext, hnone⟩, -⟩ := Option.ite_none_right_eq_some.mp hstep
    obtain ⟨config, host, hconf, -⟩ := (h.agrees stream).of_next hnext
    rw [h.settings, outputSettings, (h.silent hnone).2 stream] at hconf
    cases hconf
  | finish drainsIncomplete =>
    obtain ⟨⟨hout, herr, hact⟩, ⟨⟩⟩ := Option.ite_none_right_eq_some.mp hstep
    have hdone : ∀ stream, (g.worker stream).phase = .done := by
      intro stream
      cases stream with
      | stdout => exact hout
      | stderr => exact herr
    exact h.finish hpol hdone hact drainsIncomplete

end

theorem agrees_new (policy) (ended : Prop) :
    Agrees ended (.new (outputSettings policy)) (streamState policy) [] := by
  have hfresh (config : BoundedStreamConfig) (hconf : streamConfig policy = some config) :
      StreamAgrees (.new (outputSettings policy)) config
        ⟨config.streamLimitBytes, config.chunkLimitBytes, 0, false⟩ [] ended := by
    exact ⟨rfl, rfl, rfl, Nat.zero_le _, Nat.zero_le _, rfl, nofun, .inr (.inr rfl)⟩
  cases policy with
  | discard => exact .silent rfl (.inl rfl)
  | capture limit => exact .silent rfl (.inl rfl)
  | stream limit chunk => exact .forwarded rfl (hfresh _ rfl)
  | captureAndStream capture limit chunk => exact .forwarded rfl (hfresh _ rfl)

theorem inv_init (seq) (policy : ExecOutputStream → ExecOutputPolicy) :
    Inv seq policy (Guest.init seq policy) [] (.new policy) where
  accepted := ⟨rfl, nofun, rfl⟩
  writer := by
    intro writer hwrit
    obtain ⟨-, hwrit⟩ := Option.ite_none_right_eq_some.mp hwrit
    exact (Option.some.inj hwrit).symm
  silent := by
    intro hnone
    have hsil : ¬((streamConfig (policy .stdout)).isSome ||
      (streamConfig (policy .stderr)).isSome) := by
      intro hsome
      simp only [Guest.init, if_pos hsome] at hnone
      cases hnone
    rw [Bool.or_eq_true, not_or] at hsil
    refine ⟨rfl, fun stream => ?_⟩
    cases stream with
    | stdout => simpa using hsil.1
    | stderr => simpa using hsil.2
  settings _ := rfl
  agrees stream := agrees_new (policy stream) _
  captures stream := by
    show (captureLimitBytes (policy stream)).map (fun _ => []) =
      (captureLimitBytes (policy stream)).map fun limit => ([] : Bytes).take limit
    simp
  ended := nofun
  result := nofun

end

end Okou.GuestControl
