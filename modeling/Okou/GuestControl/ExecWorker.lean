import Okou.GuestControl.ExecDrain

/-!
# Steps of a worker

Each step of a worker keeps its captured output and its agreement with the host.
-/

namespace Okou.GuestControl

open List Function

variable {output : DecodedExecOutput} {stream : ExecOutputStream} {outputs : List DecodedExecOutput}
  {op : ExecOperation} {policy : ExecOutputPolicy}

/-! ### Steps of a worker -/

variable {truncated : Bool}

namespace Worker

variable (w : Worker) (chunk : Bytes)

@[simp] theorem settings_capture : (w.capture chunk).settings = w.settings := by
  unfold capture
  repeat' split
  all_goals rfl

/-- The fields that forwarding leaves alone. -/
theorem forward_same (parts) (cut : Bool) :
    (w.forward parts cut).settings = w.settings ∧ (w.forward parts cut).captured = w.captured ∧
      (w.forward parts cut).bytesRead = w.bytesRead ∧
        (w.forward parts cut).streamEmitted = w.streamEmitted := by
  unfold forward
  repeat' split
  all_goals exact ⟨rfl, rfl, rfl, rfl⟩

/-- What is captured is what was read, up to the limit. -/
def Captures (w : Worker) : Prop :=
  w.captured = w.settings.captureLimitBytes.map fun limit => w.bytesRead.take limit

theorem startStream_same : (w.startStream chunk).settings = w.settings ∧
      (w.startStream chunk).captured = w.captured ∧
      (w.startStream chunk).bytesRead = w.bytesRead := by
  unfold startStream
  repeat' split
  all_goals first
    | exact ⟨rfl, rfl, rfl⟩
    | exact (forward_same _ _ _).imp_right fun h => ⟨h.1, h.2.1⟩

theorem returned_same (sent : Bool) :
    (w.returned sent).settings = w.settings ∧ (w.returned sent).captured = w.captured ∧
      (w.returned sent).bytesRead = w.bytesRead := by
  unfold returned
  repeat' split
  all_goals first
    | exact ⟨rfl, rfl, rfl⟩
    | exact (forward_same _ _ _).imp_right fun h => ⟨h.1, h.2.1⟩

/-- The fields that the capture of a chunk leaves alone. -/
theorem capture_same : (w.capture chunk).bytesRead = w.bytesRead ∧
      (w.capture chunk).streamEmitted = w.streamEmitted ∧
      (w.capture chunk).streamTruncated = w.streamTruncated ∧
      (w.capture chunk).streamEnabled = w.streamEnabled ∧ (w.capture chunk).phase = w.phase := by
  unfold capture
  repeat' split
  all_goals exact ⟨rfl, rfl, rfl, rfl, rfl⟩

theorem settings_onChunk : (w.onChunk chunk).settings = w.settings := by
  unfold onChunk
  rw [(startStream_same _ _).1, settings_capture]

/-- Capturing a chunk keeps what was read, up to the limit. -/
theorem Captures.onChunk {w : Worker} (h : w.Captures) (chunk : Bytes) :
    (w.onChunk chunk).Captures := by
  unfold Captures Worker.onChunk
  rw [(startStream_same _ _).2.1, (startStream_same _ _).1, (startStream_same _ _).2.2,
    settings_capture, (capture_same _ _).1]
  unfold Captures at h
  unfold capture
  cases hlimit : w.settings.captureLimitBytes with
  | none => simp only [hlimit] at h ⊢; exact h
  | some limit =>
    simp only [hlimit] at h
    simp only [h, Option.map_some]
    rw [take_append]
    split
    case isTrue hlt =>
      -- the limit is not reached: what is kept is cut at what is left of it
      rw [length_take] at hlt ⊢
      have hread : min limit w.bytesRead.length = w.bytesRead.length := by omega
      simp only [Option.some.injEq, append_cancel_left_eq]
      rw [take_eq_take_iff]
      omega
    case isFalse hge =>
      rw [length_take] at hge
      have hzero : limit - w.bytesRead.length = 0 := by omega
      rw [hzero, take_zero, append_nil]

theorem Captures.returned {w : Worker} (h : w.Captures) (sent : Bool) :
    (w.returned sent).Captures := by
  obtain ⟨hsets, hcapt, hread⟩ := w.returned_same sent
  rw [Captures, hsets, hcapt, hread]
  exact h

theorem next_eq_some {w : Worker} {chunk : Bytes} : w.next = some (chunk, truncated) ↔
    (∃ parts cut, w.phase = .forwarding (chunk :: parts) cut ∧ truncated = false) ∨
      w.phase = .marking ∧ chunk = [] ∧ truncated := by
  unfold next
  cases hphase : w.phase with
  | polling => simp
  | done => simp
  | marking => simp [eq_comm]
  | forwarding parts cut =>
    cases parts with
    | nil => simp
    | cons part parts => simp [and_comm]

end Worker

section

variable {w : Worker} {config : BoundedStreamConfig} {host : ExecStreamState} {sent : Bytes}
  {ended : Prop}

/-- Forwarding goes on with the rest of a chunk. -/
theorem Worker.phaseAgrees_forward {parts} {cut} (htrunc : w.streamTruncated = false)
    (hparts : ∀ part ∈ parts, part ≠ [] ∧ part.length ≤ config.chunkLimitBytes)
    (hlimit : w.streamEmitted + parts.flatten.length ≤ config.streamLimitBytes)
    (hjoin : parts.flatten <+: w.bytesRead.drop w.streamEmitted)
    (hall : cut = false → parts.flatten = w.bytesRead.drop w.streamEmitted)
    (hread : w.streamEmitted ≤ w.bytesRead.length) :
      (w.forward parts cut).PhaseAgrees config false := by
  unfold Worker.forward
  split
  case isTrue hne => exact ⟨rfl, htrunc, hne, hparts, hlimit, hjoin, hall⟩
  case isFalse hnil =>
    rw [not_not] at hnil
    subst hnil
    split
    case isTrue => exact ⟨rfl, rfl⟩
    case isFalse hcut =>
      have hdrop := hall (by simpa using hcut)
      refine .inr (.inr ?_)
      have hlen := congrArg List.length hdrop
      rw [flatten_nil, length_nil, length_drop] at hlen
      show w.streamEmitted = w.bytesRead.length
      omega

variable {chunk : Bytes}

variable (h : StreamAgrees w config host sent ended)

include h

/-- The agreement of a worker that has read more, apart from its phase. -/
theorem StreamAgrees.read {v} (hread : v.bytesRead = w.bytesRead ++ chunk)
    (hemitt : v.streamEmitted = w.streamEmitted) (htrunc : host.truncated → v.streamTruncated ∨
      ended)
    (hphase : v.PhaseAgrees config host.truncated) : StreamAgrees v config host sent ended where
  limit := h.limit
  chunkLimit := h.chunkLimit
  emitted := by rw [hemitt, h.emitted]
  emitted_le := by rw [hemitt]; exact h.emitted_le
  emitted_le_read := by
    have hle := h.emitted_le_read
    rw [hemitt, hread, length_append]
    omega
  sent_eq := by rw [h.sent_eq, hread, hemitt, take_append_of_le_length h.emitted_le_read]
  truncated := htrunc
  phase := hphase

/-- Reading a chunk keeps the agreement: what is read is still to be forwarded. -/
theorem StreamAgrees.onChunk (hpoll : w.phase = .polling)
    (hended : ¬ended) (hsets : w.settings.stream = some config)
    (hchunk : 0 < config.chunkLimitBytes)
    (chunk : Bytes) (hne : chunk ≠ []) : StreamAgrees (w.onChunk chunk) config host sent ended := by
  unfold Worker.onChunk
  dsimp only
  generalize hv : Worker.capture { w with bytesRead := w.bytesRead ++ chunk } chunk = v
  obtain ⟨hread, hemitt, htrunc, henabl, hphase⟩ :=
    Worker.capture_same { w with bytesRead := w.bytesRead ++ chunk } chunk
  have hvsett := Worker.settings_capture { w with bytesRead := w.bytesRead ++ chunk } chunk
  rw [hv] at hread hemitt htrunc henabl hphase hvsett
  have hpollingAgrees := h.phase
  simp only [Worker.PhaseAgrees, hpoll] at hpollingAgrees
  simp only [Worker.startStream, hvsett, hsets]
  split
  case isTrue hoff =>
    -- forwarding has ended: the chunk is only drained
    refine h.read hread hemitt (by rw [htrunc]; exact h.truncated) ?_
    simp only [Worker.PhaseAgrees, hphase, hpoll]
    simp only [Bool.or_eq_true, Bool.not_eq_true', decide_eq_true_eq, hne, or_false] at hoff
    rcases hoff with hdis | hcut
    · exact .inl hdis
    · exact .inr (.inl hcut)
  case isFalse hon =>
    simp only [Bool.or_eq_true, decide_eq_true_eq, hne, or_false, not_or, Bool.not_eq_true] at hon
    obtain ⟨hven, hvtr⟩ := hon
    -- all that was read before has been forwarded
    have hall : w.streamEmitted = w.bytesRead.length := by
      rcases hpollingAgrees with hdis | hcut | hall
      · rw [henabl] at hven
        simp [hdis] at hven
      · rw [htrunc, hcut] at hvtr
        cases hvtr
      · exact hall
    have hhost : host.truncated = false := by
      by_contra hcut
      rcases h.truncated (by simpa using hcut) with hcut | hcut
      · rw [htrunc, hcut] at hvtr
        cases hvtr
      · exact hended hcut
    have hdrop : v.bytesRead.drop v.streamEmitted = chunk := by
      rw [hread, hemitt, hall, drop_left]
    split
    case isTrue hfull =>
      refine h.read hread hemitt (by rw [hhost]; exact nofun) ?_
      exact ⟨hhost, rfl⟩
    case isFalse hroom =>
      have hflatt := flatten_chunksOf hchunk
        (chunk.take (min (config.streamLimitBytes - v.streamEmitted) chunk.length))
      refine h.read (by rw [(Worker.forward_same _ _ _).2.2.1, hread])
        (by rw [(Worker.forward_same _ _ _).2.2.2, hemitt])
        (by rw [hhost]; exact nofun) ?_
      rw [hhost]
      refine Worker.phaseAgrees_forward hvtr (fun part hpart => of_mem_chunksOf hchunk hpart)
        ?_ ?_ ?_ ?_
      · rw [hflatt, length_take, hemitt]
        omega
      · rw [hflatt, hdrop]
        exact take_prefix _ _
      · intro hcut
        rw [hflatt, hdrop]
        exact take_of_length_le (by simpa using hcut)
      · rw [hemitt, hread, length_append, hall]
        omega

/-- A chunk that the host accepted was forwarded. -/
theorem StreamAgrees.returned_true (hnext : w.next = some (chunk, truncated)) :
    StreamAgrees (w.returned true) config
      { host with emittedBytes := host.emittedBytes + chunk.length, truncated := truncated }
      (sent ++ chunk) ended := by
  have hphase := h.phase
  rcases Worker.next_eq_some.mp hnext with ⟨parts, cut, hforw, rfl⟩ | ⟨hmarking, rfl, rfl⟩
  · -- a part of what was read: the parts that are left begin where it ends
    simp only [Worker.PhaseAgrees, hforw] at hphase
    obtain ⟨hhost, htrunc, -, hparts, hlimit, hjoin, hall⟩ := hphase
    obtain ⟨-, hparts⟩ := forall_mem_cons.mp hparts
    rw [flatten_cons] at hjoin hlimit hall
    rw [length_append] at hlimit
    obtain ⟨rest, hrest⟩ := hjoin
    have hle := h.emitted_le_read
    have hdrop : w.bytesRead.drop (w.streamEmitted + chunk.length) = parts.flatten ++ rest := by
      rw [← drop_drop, ← hrest, append_assoc, drop_left]
    have hlen : w.streamEmitted + chunk.length ≤ w.bytesRead.length := by
      have hlen := congrArg List.length hrest
      simp only [length_append, length_drop] at hlen
      omega
    have htake : w.bytesRead.take (w.streamEmitted + chunk.length) =
      w.bytesRead.take w.streamEmitted ++ chunk := by
      rw [take_add, ← hrest, append_assoc, take_left]
    simp only [Worker.returned, hforw, if_true]
    obtain ⟨-, -, hread, hemitt⟩ :=
      Worker.forward_same
        { w with
            streamEmitted := w.streamEmitted + chunk.length, phase := .forwarding (chunk :: parts) cut } parts cut
    constructor
    case limit => exact h.limit
    case chunkLimit => exact h.chunkLimit
    case emitted => rw [hemitt, h.emitted]
    case emitted_le =>
      rw [hemitt]
      dsimp only
      omega
    case emitted_le_read => rw [hemitt, hread]; exact hlen
    case sent_eq => rw [hemitt, hread, h.sent_eq]; exact htake.symm
    case truncated => exact nofun
    case phase =>
      refine Worker.phaseAgrees_forward htrunc hparts ?_ ?_ ?_ hlen
      · dsimp only
        omega
      · rw [hdrop]
        exact prefix_append _ _
      · intro hcut
        have hsame := hall hcut
        rw [← hrest, self_eq_append_right] at hsame
        rw [hdrop, hsame, append_nil]
  · simp only [Worker.PhaseAgrees, hmarking] at hphase
    simp only [Worker.returned, hmarking]
    exact
      { h with
        sent_eq := by rw [append_nil]; exact h.sent_eq
        truncated := fun _ => .inl hphase.2
        phase := .inr (.inl hphase.2) }

/-- A chunk that was refused ends the forwarding. -/
theorem StreamAgrees.returned_false (hnext : w.next.isSome) :
    StreamAgrees (w.returned false) config host sent ended := by
  obtain ⟨⟨chunk, truncated⟩, hnext⟩ := Option.isSome_iff_exists.mp hnext
  rcases Worker.next_eq_some.mp hnext with ⟨parts, cut, hforw, rfl⟩ | ⟨hmarking, rfl, rfl⟩
  · simp only [Worker.returned, hforw]
    exact { h with phase := .inl rfl }
  · simp only [Worker.returned, hmarking]
    exact { h with phase := .inl rfl }

end

end Okou.GuestControl
