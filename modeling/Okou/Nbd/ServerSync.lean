import Okou.Nbd.ServerSpec

/-!
# The dispatcher stays in sync with its stream

A peer that sends well-formed requests, in whatever pieces, gets the answers of
the abstract server `serve`.  The point of the proof is that every handler, on
every path, consumes the payload of its own request and nothing more; the state
of the reusable payload buffer never shows.
-/

namespace Okou.Nbd

open List NbdRequest

/-! ### The socket loops -/

section Loops

variable {σ : Type*} (fuel : ℕ) {rest : Bytes}

/-- A read loop that is `filled` bytes into `data`. -/
theorem readExactLoop_spec {data} (buf : Bytes) (filled : ℕ) (c : Conn σ) (hsd : c.shutdown = none)
    (hdel : Delivers c.reader (data.drop filled ++ rest)) (hlen : buf.length = data.length)
    (htake : buf.take filled = data.take filled) (hle : filled ≤ data.length)
    (hfuel : data.length - filled ≤ fuel) :
    ∃ reader, readExactLoop fuel buf filled c = ({ c with reader := reader },
      .ok (.complete, data)) ∧
      Delivers reader rest := by
  induction fuel generalizing buf filled c with
  | zero =>
    obtain rfl : filled = data.length := by omega
    rw [drop_length, nil_append] at hdel
    rw [take_length, ← hlen, take_length] at htake
    subst htake
    exact ⟨c.reader, rfl, hdel⟩
  | succ fuel ih =>
    rw [readExactLoop]
    rcases Nat.lt_or_ge filled data.length with hlt | hge
    · rw [if_pos (by omega), hsd]
      have hne : data.drop filled ++ rest ≠ [] := by
        rw [Ne, append_eq_nil_iff, drop_eq_nil_iff]
        omega
      obtain ⟨reader, b, s', hrecv, hb, hbl, hsplit, hdel'⟩ :=
        hdel.recv hne (n := buf.length - filled) (by omega)
      -- the bytes received are the next ones of `data`
      have hbdata : b = (data.drop filled).take b.length := by
        have h := congrArg (take b.length) hsplit
        rw [take_left, take_append_of_le_length (by rw [length_drop]; omega)] at h
        exact h.symm
      have hs' : s' = data.drop (filled + b.length) ++ rest := by
        have h := congrArg (drop b.length) hsplit
        rw [drop_left, drop_append_of_le_length (by rw [length_drop]; omega), drop_drop] at h
        exact h.symm
      obtain ⟨x, xs, rfl⟩ := exists_cons_of_ne_nil hb
      simp only [hrecv]
      have hpos : 0 < (x :: xs).length := Nat.succ_pos _
      have hfront : (buf.take filled ++ (x :: xs)).length = filled + (x :: xs).length := by
        rw [length_append, length_take]
        omega
      have htake' : (splice buf filled (x :: xs)).take (filled + (x :: xs).length)
          = data.take (filled + (x :: xs).length) := by
        rw [splice, ← hfront, take_left, hfront, htake, take_add, ← hbdata]
      rw [hs'] at hdel'
      exact ih _ _ { c with shutdown := none, reader := reader } rfl hdel'
        (by rw [length_splice (by omega), hlen])
        htake' (by omega) (by omega)
    · obtain rfl : filled = data.length := by omega
      rw [drop_length, nil_append] at hdel
      rw [take_length, ← hlen, take_length] at htake
      subst htake
      rw [if_neg (by omega)]
      exact ⟨c.reader, rfl, hdel⟩

/-- **`read_exact_or_shutdown`** returns the next bytes of the stream, however
they arrive, and leaves the rest. -/
theorem readExactOrShutdown_spec {c : Conn σ} (hsd : c.shutdown = none) (buf : Bytes) {data : Bytes}
    (hlen : buf.length = data.length) (hdel : Delivers c.reader (data ++ rest)) :
    ∃ reader, readExactOrShutdown buf c = ({ c with reader := reader }, .ok (.complete, data)) ∧
      Delivers reader rest :=
  readExactLoop_spec buf.length buf 0 c hsd hdel hlen rfl (Nat.zero_le _) (by omega)

/-- What a write loop owes: the connection but for its outbox, which has sent `b`. -/
structure Sent (c c' : Conn σ) (b : Bytes) : Prop where
  conn_eq : c' = { c with writer := c'.writer }
  sent_eq : c'.writer.sent = c.writer.sent ++ b
  willing : c'.writer.Willing

/-- Sending some bytes and then others. -/
theorem Sent.trans {c₁ c₂ c₃ : Conn σ} {a b : Bytes} (h₁ : Sent c₁ c₂ a) (h₂ : Sent c₂ c₃ b) :
    Sent c₁ c₃ (a ++ b) where
  conn_eq := by
    rw [h₂.conn_eq, h₁.conn_eq]
  sent_eq := by rw [h₂.sent_eq, h₁.sent_eq, append_assoc]
  willing := h₂.willing

theorem writeSlicesLoop_spec (slices) (c : Conn σ) (hsd : c.shutdown = none)
    (hw : c.writer.Willing) (hne : slices = [] ∨ slices.flatten ≠ [])
    (hfuel : slices.flatten.length ≤ fuel) :
    ∃ c', writeSlicesLoop fuel slices c = (c', .ok .complete) ∧ Sent c c' slices.flatten := by
  induction fuel generalizing slices c with
  | zero =>
    have hnil := length_eq_zero_iff.mp (Nat.le_zero.mp hfuel)
    rcases hne with rfl | hne
    · exact ⟨c, rfl, rfl, (append_nil _).symm, hw⟩
    · exact absurd hnil hne
  | succ fuel ih =>
    cases slices with
    | nil => exact ⟨c, rfl, rfl, (append_nil _).symm, hw⟩
    | cons p ps =>
      have hne : (p :: ps).flatten ≠ [] := hne.resolve_left (cons_ne_nil p ps)
      obtain ⟨o, n, hsend, hpos, hn, hsent, hw'⟩ := hw.send hne
      obtain ⟨m, rfl⟩ := Nat.exists_eq_succ_of_ne_zero hpos.ne'
      have hstep : Sent c { c with shutdown := none, writer := o }
          ((p :: ps).flatten.take (m + 1)) := ⟨by rw [hsd], hsent, hw'⟩
      -- slices that remain hold bytes that remain
      have hrem : advanceSlices (p :: ps) (m + 1) = [] ∨
        (advanceSlices (p :: ps) (m + 1)).flatten ≠ [] := by
        rw [advanceSlices_eq_nil_iff, flatten_advanceSlices, Ne, drop_eq_nil_iff]
        exact em _
      obtain ⟨c', hloop, hrest⟩ := ih (advanceSlices (p :: ps) (m + 1))
        { c with shutdown := none, writer := o } rfl hw' hrem
        (by rw [flatten_advanceSlices, length_drop]; omega)
      rw [flatten_advanceSlices] at hrest
      refine ⟨c', ?_, ?_⟩
      · rw [writeSlicesLoop, hsd]
        simp only [hsend]
        exact hloop
      · have h := hstep.trans hrest
        rwa [take_append_drop] at h

/-- Writing a buffer is writing one slice. -/
theorem writeAllLoop_eq (buf : Bytes) (c : Conn σ) :
    writeAllLoop fuel buf c = writeSlicesLoop fuel (if buf = [] then [] else [buf]) c := by
  induction fuel generalizing buf c with
  | zero => cases buf <;> rfl
  | succ fuel ih =>
    cases buf with
    | nil => rfl
    | cons x xs =>
      have hrest (n : ℕ) : advanceSlices [x :: xs] (n + 1) =
          if (x :: xs).drop (n + 1) = [] then [] else [(x :: xs).drop (n + 1)] := by
        simp [advanceSlices]
      rw [if_neg (cons_ne_nil x xs), writeAllLoop, writeSlicesLoop, flatten_singleton]
      simp only [ih, hrest]

variable {c : Conn σ}

/-- **`write_all_or_shutdown`** sends the buffer, however the peer takes it. -/
theorem writeAllOrShutdown_spec (hsd : c.shutdown = none) (hw : c.writer.Willing) (buf : Bytes) :
    ∃ c', finish (writeAllOrShutdown buf c) = (c', .ok .proceed) ∧ Sent c c' buf := by
  have hflat : (if buf = [] then [] else [buf]).flatten = buf := by
    split_ifs with hbuf <;> simp [hbuf]
  obtain ⟨c', hloop, hsent⟩ := writeSlicesLoop_spec buf.length (if buf = [] then [] else [buf]) c
    hsd hw
    (by split_ifs with hbuf <;> simp [hbuf]) (by rw [hflat])
  exact ⟨c', by rw [finish, writeAllOrShutdown, writeAllLoop_eq, hloop]; rfl, hflat ▸ hsent⟩

theorem writeAllVectoredOrShutdown_spec (hsd : c.shutdown = none) (hw : c.writer.Willing)
    {header} (hhead : header ≠ []) (payload : Bytes) :
    ∃ c', finish (writeAllVectoredOrShutdown header payload c) = (c', .ok .proceed) ∧
      Sent c c' (header ++ payload) := by
  have hflat : [header, payload].flatten = header ++ payload := by simp
  obtain ⟨c', hloop, hsent⟩ := writeSlicesLoop_spec (header.length + payload.length)
    [header, payload] c hsd hw (.inr (by simp [hhead])) (by rw [hflat, length_append])
  rw [hflat] at hsent
  exact ⟨c', by rw [finish, writeAllVectoredOrShutdown, hloop]; rfl, hsent⟩

/-- **`discard_bytes`** consumes the announced bytes and no more. -/
theorem discardLoop_spec (junk buf : Bytes) (c : Conn σ) (hsd : c.shutdown = none)
    (hdel : Delivers c.reader (junk ++ rest)) (hbuf : 0 < buf.length) (hfuel : junk.length ≤ fuel) :
    ∃ reader, discardLoop fuel junk.length buf c = ({ c with reader := reader }, .ok .complete) ∧
      Delivers reader rest := by
  induction fuel generalizing junk buf c with
  | zero =>
    obtain rfl := length_eq_zero_iff.mp (Nat.le_zero.mp hfuel)
    exact ⟨c.reader, rfl, hdel⟩
  | succ fuel ih =>
    rw [discardLoop]
    split
    · next hpos =>
      generalize hm : min junk.length buf.length = m
      have hsplit : junk ++ rest = junk.take m ++ (junk.drop m ++ rest) := by
        rw [← append_assoc, take_append_drop]
      have htake : (junk.take m).length = m := by rw [length_take]; omega
      rw [hsplit] at hdel
      obtain ⟨reader, hread, hdel'⟩ := readExactOrShutdown_spec hsd (buf.take m)
        (by rw [htake, length_take]; omega) hdel
      simp only [hread]
      rw [← length_drop]
      exact ih _ _ { c with reader := reader } hsd hdel'
        (by rw [length_splice (by omega)]; exact hbuf)
        (by rw [length_drop]; omega)
    · next hzero =>
      obtain rfl := length_eq_zero_iff.mp (Nat.eq_zero_of_not_pos hzero)
      exact ⟨c.reader, rfl, hdel⟩

theorem discardBytes_spec (hsd : c.shutdown = none) {junk}
    (hdel : Delivers c.reader (junk ++ rest)) :
    ∃ reader, discardBytes junk.length c = ({ c with reader := reader }, .ok .complete) ∧
      Delivers reader rest :=
  discardLoop_spec junk.length junk _ c hsd hdel (by rw [length_replicate]; decide) le_rfl

end Loops

/-! ### The handlers -/

section Handlers

variable {σ : Type*} {capacityFor : ℕ → ℕ} {dev : CowDevice σ} {c c' : Conn σ} {rest : Bytes}

/-- A connection at `stream`: no shutdown, a peer that takes what is sent, and
exactly `stream` yet to come. -/
structure Ready (c : Conn σ) (stream : Bytes) : Prop where
  shutdown_eq : c.shutdown = none
  willing : c.writer.Willing
  delivers : Delivers c.reader stream

/-- The connection `c'` has answered with `b` and stands before `rest`, the COW
handle in state `s`. -/
structure Answered (c c' : Conn σ) (rest : Bytes) (s : σ) (b : Bytes) : Prop where
  ready : Ready c' rest
  sent_eq : c'.writer.sent = c.writer.sent ++ b
  cow_eq : c'.cow = s

/-- A run of a handler answers as the abstract server does, and stands before `rest`. -/
def Answers (c : Conn σ) (rest : Bytes) (served : σ × Answer)
    (run : Conn σ × Except NbdCowError HandlerOutcome) : Prop :=
  ∃ c', run = (c', .ok .proceed) ∧ Answered c c' rest served.1 served.2.bytes

theorem Ready.reader {stream} {reader} (h : Ready c stream)
    (hdel : Delivers reader rest) : Ready { c with reader := reader } rest :=
  ⟨h.shutdown_eq, h.willing, hdel⟩

theorem Ready.cow (h : Ready c rest) (s : σ) : Ready { c with cow := s } rest :=
  ⟨h.shutdown_eq, h.willing, h.delivers⟩

theorem Sent.answered {b} (h : Sent c c' b) (hr : Ready c rest) : Answered c c' rest c.cow b where
  ready := by
    rw [h.conn_eq]
    exact ⟨hr.shutdown_eq, h.willing, hr.delivers⟩
  sent_eq := h.sent_eq
  cow_eq := by rw [h.conn_eq]

/-- Only the outbox of the first connection matters. -/
theorem Answered.of_writer {c₀} {s} {b} (h : Answered c c' rest s b)
    (hw : c₀.writer = c.writer) : Answered c₀ c' rest s b :=
  ⟨h.ready, by rw [h.sent_eq, hw], h.cow_eq⟩

/-- The payload buffer of a connection does not show. -/
theorem Answered.payloadBuf {s} {b} (h : Answered c c' rest s b) (payloadBuf) :
    Answered c { c' with payloadBuf := payloadBuf } rest s b :=
  ⟨⟨h.ready.shutdown_eq, h.ready.willing, h.ready.delivers⟩, h.sent_eq, h.cow_eq⟩

theorem sendReply_answered (h : Ready c rest) (reply) :
    Answers c rest (c.cow, ⟨reply, []⟩) (finish (sendReply reply c)) := by
  obtain ⟨c', hsend, hsent⟩ := writeAllOrShutdown_spec h.shutdown_eq h.willing
    (serializeReply reply)
  refine ⟨c', hsend, ?_⟩
  exact hsent.answered h

theorem length_resizeReusablePayload (capacityFor : ℕ → ℕ) (payloadBuf) (len : ℕ) :
    (resizeReusablePayload capacityFor payloadBuf len).data.length = len := by
  unfold resizeReusablePayload
  split
  · exact length_replicate
  · rw [length_append, length_take, length_replicate]
    omega

theorem serializeReply_ne_nil (reply) : serializeReply reply ≠ [] := by
  rw [serializeReply_eq]
  intro h
  have := congrArg List.length h
  simp at this

/-- `read_and_reply` on any buffer of the right length. -/
theorem readAndReply_spec (dev) (h : Ready c rest) (r) (data)
    (hlen : data.data.length = r.request.length.toNat) :
    let run := CowCall.run dev c.cow (.read r.request.offset.toNat r.request.length.toNat)
    ∃ c' data', readAndReply dev r.request data c = (c', data', .ok .proceed) ∧
      Answered c c' rest run.1 (answer r run.2).bytes := by
  simp only [CowCall.run]
  unfold readAndReply
  rw [dev.read_congr _ _ data.data (List.replicate r.request.length.toNat 0)
    (by rw [hlen, length_replicate])]
  rcases dev.read c.cow r.request.offset.toNat (List.replicate r.request.length.toNat 0)
    with ⟨s, _ | out⟩
  · obtain ⟨c', hsend, ha⟩ := sendReply_answered (h.cow s) ⟨eio, r.request.handle⟩
    simp only [sendErrorReply, hsend]
    exact ⟨c', _, rfl, ha.of_writer rfl⟩
  · simp only
    split
    · next hnil =>
      obtain ⟨c', hsend, ha⟩ := sendReply_answered (h.cow s) (successReply r.request.handle)
      rw [sendReply] at hsend
      simp only [hsend, hnil]
      exact ⟨c', _, rfl, ha.of_writer rfl⟩
    · obtain ⟨c', hsend, hsent⟩ := writeAllVectoredOrShutdown_spec (c := { c with cow := s })
        h.shutdown_eq h.willing (serializeReply_ne_nil (successReply r.request.handle)) out
      simp only [hsend]
      exact ⟨c', _, rfl, (hsent.answered (h.cow s)).of_writer rfl⟩

/-- `read_and_apply_write` on any buffer of the right length. -/
theorem readAndApplyWrite_spec (dev) (r)
    (h : Ready c (r.payload ++ rest)) (data) (hlen : data.data.length = r.payload.length) :
    let run := CowCall.run dev c.cow (.write r.request.offset.toNat r.payload)
    ∃ c' data', readAndApplyWrite dev r.request data c = (c', data', .ok .proceed) ∧
      Answered c c' rest run.1 (answer r run.2).bytes := by
  obtain ⟨reader, hread, hdel⟩ :=
    readExactOrShutdown_spec h.shutdown_eq data.data hlen h.delivers
  have hr : Ready { c with reader := reader } rest := h.reader hdel
  rcases hrun : dev.write c.cow r.request.offset.toNat r.payload with ⟨s, _ | out⟩
  · obtain ⟨c', hsend, ha⟩ := sendReply_answered (hr.cow s) ⟨eio, r.request.handle⟩
    simp only [CowCall.run, readAndApplyWrite, hread, hrun, sendErrorReply, hsend]
    exact ⟨c', _, rfl, ha.of_writer rfl⟩
  · obtain ⟨c', hsend, ha⟩ := sendReply_answered (hr.cow s) (successReply r.request.handle)
    simp only [CowCall.run, readAndApplyWrite, hread, hrun, sendSuccessReply, hsend]
    exact ⟨c', _, rfl, ha.of_writer rfl⟩

variable (capacityFor dev)

variable (r : WireRequest)

theorem handleRead_spec (hcmd : r.request.command = .read) (h : Ready c rest) :
    Answers c rest (serve dev c.cow r) (handleRead capacityFor dev r.request c) := by
  unfold handleRead
  by_cases hsize : maxRequestLength < r.request.length
  · rw [if_pos hsize, serve_of_oversized (by simp [oversized, hcmd, hsize])]
    exact sendReply_answered h ⟨eio, r.request.handle⟩
  · have hcall : cowCall r = some (.read r.request.offset.toNat r.request.length.toNat) := by
      simp [cowCall, oversized, hcmd, hsize]
    rw [if_neg hsize, serve_of_cowCall hcall]
    dsimp only
    split
    · obtain ⟨c', data', hrr, ha⟩ := readAndReply_spec dev h r _
        (length_resizeReusablePayload capacityFor c.payloadBuf r.request.length.toNat)
      simp only [hrr]
      exact ⟨_, rfl, ha.payloadBuf _⟩
    · obtain ⟨c', data', hrr, ha⟩ := readAndReply_spec dev h r
        (.zeroed capacityFor r.request.length.toNat) length_replicate
      simp only [hrr]
      exact ⟨_, rfl, ha⟩

theorem handleWrite_spec (hcmd : r.request.command = .write) (h : Ready c (r.payload ++ rest)) :
    Answers c rest (serve dev c.cow r) (handleWrite capacityFor dev r.request c) := by
  have hpayl := r.length_payload
  rw [hcmd, if_pos rfl] at hpayl
  unfold handleWrite
  by_cases hsize : maxRequestLength < r.request.length
  · -- the payload is discarded, in pieces of its own
    obtain ⟨reader, hdiscard, hdel⟩ := discardBytes_spec h.shutdown_eq h.delivers
    obtain ⟨c', hsend, ha⟩ := sendReply_answered (h.reader hdel) ⟨eio, r.request.handle⟩
    rw [if_pos hsize, serve_of_oversized (by simp [oversized, hcmd, hsize]), ← hpayl, hdiscard]
    exact ⟨c', hsend, ha.of_writer rfl⟩
  · have hcall : cowCall r = some (.write r.request.offset.toNat r.payload) := by
      simp [cowCall, oversized, hcmd, hsize]
    rw [if_neg hsize, serve_of_cowCall hcall, ← hpayl]
    dsimp only
    split
    · obtain ⟨c', data', hrw, ha⟩ := readAndApplyWrite_spec dev r h _
        (length_resizeReusablePayload capacityFor c.payloadBuf r.payload.length)
      simp only [hrw]
      exact ⟨_, rfl, ha.payloadBuf _⟩
    · obtain ⟨c', data', hrw, ha⟩ := readAndApplyWrite_spec dev r h
        (.zeroed capacityFor r.payload.length) length_replicate
      simp only [hrw]
      exact ⟨_, rfl, ha⟩

theorem handleFlush_spec (hcmd : r.request.command = .flush) (h : Ready c rest) :
    Answers c rest (serve dev c.cow r) (handleFlush dev r.request c) := by
  have hcall : cowCall r = some .sync := by simp [cowCall, oversized, hcmd]
  rw [serve_of_cowCall hcall]
  rcases hrun : dev.sync c.cow with ⟨s, _ | u⟩
  · obtain ⟨c', hsend, ha⟩ := sendReply_answered (h.cow s) ⟨eio, r.request.handle⟩
    simp only [handleFlush, CowCall.run, hrun]
    exact ⟨c', hsend, ha.of_writer rfl⟩
  · obtain ⟨c', hsend, ha⟩ := sendReply_answered (h.cow s) (successReply r.request.handle)
    simp only [handleFlush, CowCall.run, hrun]
    exact ⟨c', hsend, ha.of_writer rfl⟩

theorem handleTrim_spec (hcmd : r.request.command = .trim) (h : Ready c rest) :
    Answers c rest (serve dev c.cow r) (handleTrim r.request c) := by
  have hserve : serve dev c.cow r = (c.cow, ⟨successReply r.request.handle, []⟩) := by
    simp [serve, cowCall, oversized, hcmd]
  rw [hserve]
  exact sendReply_answered h (successReply r.request.handle)

/-- Only a write has a payload. -/
theorem WireRequest.payload_eq_nil {r : WireRequest} (h : r.request.command ≠ .write) :
    r.payload = [] := by
  have hlen := r.length_payload
  rw [if_neg h] at hlen
  exact length_eq_zero_iff.mp hlen

/-- **A handler answers its request**, as the abstract server does, and leaves the
stream behind the payload. -/
theorem handle_spec (hdisc : r.request.command ≠ .disconnect) (h : Ready c (r.payload ++ rest)) :
    ∃ run, handle capacityFor dev r.request c = some run ∧
      Answers c rest (serve dev c.cow r) run := by
  have hrest : r.request.command ≠ .write → Ready c rest := fun hcmd => by
    rwa [r.payload_eq_nil hcmd, nil_append] at h
  cases hcmd : r.request.command with
  | disconnect => exact absurd hcmd hdisc
  | read => exact ⟨_, by rw [handle, hcmd],
    handleRead_spec capacityFor dev r hcmd (hrest (by simp [hcmd]))⟩
  | write => exact ⟨_, by rw [handle, hcmd], handleWrite_spec capacityFor dev r hcmd h⟩
  | flush => exact ⟨_, by rw [handle, hcmd], handleFlush_spec dev r hcmd (hrest (by simp [hcmd]))⟩
  | trim => exact ⟨_, by rw [handle, hcmd], handleTrim_spec dev r hcmd (hrest (by simp [hcmd]))⟩

/-- **One round of the loop serves one request.** -/
theorem dispatchStep_spec (hdisc : r.request.command ≠ .disconnect)
    (h : Ready c (r.bytes ++ rest)) : ∃ c', dispatchStep capacityFor dev c = (c', none) ∧
      Answered c c' rest (serve dev c.cow r).1 (serve dev c.cow r).2.bytes := by
  have hdel := h.delivers
  rw [WireRequest.bytes, append_assoc] at hdel
  obtain ⟨reader, hread, hdel'⟩ := readExactOrShutdown_spec h.shutdown_eq
    (List.replicate requestHeaderSize 0) (by simp) hdel
  obtain ⟨_, hh, c', rfl, ha⟩ := handle_spec capacityFor dev r hdisc (h.reader hdel')
  refine ⟨c', ?_, ha.of_writer rfl⟩
  simp only [dispatchStep, hread, parseRequest_header, hh]

/-- The loop over a session of requests other than a disconnect. -/
theorem dispatch_requests (rs) : ∀ {c : Conn σ}, (∀ r ∈ rs, r.request.command ≠ .disconnect) →
    Ready c ((rs.map WireRequest.bytes).flatten ++ rest) →
    ∃ c', (∀ n, dispatch capacityFor dev (rs.length + n) c = dispatch capacityFor dev n c') ∧
      Answered c c' rest (serveAll dev c.cow rs).1
        ((serveAll dev c.cow rs).2.map Answer.bytes).flatten := by
  induction rs with
  | nil =>
    intro c _ h
    exact ⟨c, fun n => by rw [length_nil, Nat.zero_add], h, (append_nil _).symm, rfl⟩
  | cons r rs ih =>
    intro c hdisc h
    rw [map_cons, flatten_cons, append_assoc] at h
    obtain ⟨c₁, hstep, h₁⟩ := dispatchStep_spec capacityFor dev r (hdisc r mem_cons_self) h
    obtain ⟨c', hrun, h'⟩ := ih (forall_mem_cons.mp hdisc).2 h₁.ready
    refine ⟨c', fun n => ?_, h'.ready, ?_, ?_⟩
    · rw [length_cons, Nat.add_right_comm, dispatch, hstep]
      exact hrun n
    · rw [h'.sent_eq, h₁.sent_eq, h₁.cow_eq, append_assoc]
      rfl
    · rw [h'.cow_eq, h₁.cow_eq]
      rfl

/-- At the end of the stream the loop returns. -/
theorem dispatchStep_eof (h : Ready c []) :
    dispatchStep capacityFor dev c = (c, some (.ok ())) := by
  obtain ⟨reader, writer, shutdown, payloadBuf, cow⟩ := c
  obtain rfl : shutdown = none := h.shutdown_eq
  obtain rfl : reader = [] := h.delivers.eq_nil
  rfl

/-- A disconnect is not answered: the COW handle is synced and the loop returns. -/
theorem dispatchStep_disconnect (bye : WireRequest) (hcmd : bye.request.command = .disconnect)
    (h : Ready c (bye.bytes ++ rest)) : ∃ c',
      dispatchStep capacityFor dev c = (c', some (dev.sync c.cow).2) ∧
      Answered c c' rest (dev.sync c.cow).1 [] := by
  have hdel := h.delivers
  rw [WireRequest.bytes, bye.payload_eq_nil (by simp [hcmd]), append_nil] at hdel
  obtain ⟨reader, hread, hdel'⟩ := readExactOrShutdown_spec h.shutdown_eq
    (List.replicate requestHeaderSize 0) (by simp) hdel
  refine ⟨{ c with reader := reader, cow := (dev.sync c.cow).1 }, ?_, (h.reader hdel').cow _,
    (append_nil _).symm, rfl⟩
  simp only [dispatchStep, hread, parseRequest_header, handle, hcmd, syncAndReturn]

theorem dispatch_one_of_return {r} (h : dispatchStep capacityFor dev c = (c', some r)) :
    dispatch capacityFor dev 1 c = (c', some r) := by
  rw [dispatch, h]

/-- **The dispatcher stays in sync.**  A session of well-formed requests without a
disconnect, in whatever pieces it arrives and with whatever the COW handle
returns, is consumed to its last byte; its answers fit the requests one by one;
the COW handle sees the calls of the session, in order, and no others.  What
follows the session is read from its first byte: at the end of the stream the
loop returns, and a disconnect is synced and returned from without a reply. -/
theorem dispatch_in_sync (rs : List WireRequest) (hdisc : ∀ r ∈ rs, r.request.command ≠ .disconnect)
    (h : Ready c ((rs.map WireRequest.bytes).flatten ++ rest)) :
    ∃ c', (∀ n, dispatch capacityFor dev (rs.length + n) c = dispatch capacityFor dev n c') ∧
      Ready c' rest ∧ List.Forall₂ Fits rs (serveAll dev c.cow rs).2 ∧
      c'.writer.sent = c.writer.sent ++ ((serveAll dev c.cow rs).2.map Answer.bytes).flatten ∧
      c'.cow = (rs.filterMap cowCall).foldl (fun s call => (call.run dev s).1) c.cow ∧
      (rest = [] → dispatch capacityFor dev 1 c' = (c', some (.ok ()))) ∧
      ∀ (bye : WireRequest) rest', bye.request.command = .disconnect → rest = bye.bytes ++ rest' →
        ∃ c'', dispatch capacityFor dev 1 c' = (c'', some (dev.sync c'.cow).2) ∧
          Ready c'' rest' ∧ c''.writer.sent = c'.writer.sent ∧
          c''.cow = (dev.sync c'.cow).1 := by
  obtain ⟨c', hrun, ha⟩ := dispatch_requests capacityFor dev rs hdisc h
  refine ⟨c', hrun, ha.ready, fits_serveAll _ _, ha.sent_eq, ?_, ?_, ?_⟩
  · rw [ha.cow_eq, serveAll_state]
  · rintro rfl
    exact dispatch_one_of_return _ _ (dispatchStep_eof _ _ ha.ready)
  · rintro bye rest' hcmd rfl
    obtain ⟨c'', hstep, ha'⟩ := dispatchStep_disconnect capacityFor dev bye hcmd ha.ready
    refine ⟨c'', dispatch_one_of_return _ _ hstep, ha'.ready, ?_, ha'.cow_eq⟩
    rw [ha'.sent_eq, append_nil]

end Handlers

/-! ### A session that ends with a disconnect -/

/-- A COW handle that holds zeros and never fails. -/
def zeroDevice : CowDevice Unit where
  read _ _ buf := ((), .ok (List.replicate buf.length 0))
  write _ _ data := ((), .ok data)
  sync _ := ((), .ok ())
  read_congr _ _ _ _ h := by rw [h]
  length_read _ _ buf _ out h := by
    rw [← Except.ok.inj (Prod.mk.inj h).2, length_replicate]
  write_back _ _ _ _ _ h := (Except.ok.inj (Prod.mk.inj h).2).symm

/-- A request without payload. -/
def bareRequest (command : Command) (h : command ≠ .write) (handle : UInt64) : WireRequest :=
  ⟨0, ⟨command, handle, 0, 0⟩, [], by rw [if_neg h, length_nil]⟩

/-- A connection on which the given pieces arrive. -/
def connOf (pieces : List Bytes) : Conn Unit :=
  ⟨pieces.map .bytes, ⟨[], []⟩, none, ⟨[], defaultBlockSize⟩, ()⟩

theorem ready_connOf {pieces} (h : ∀ p ∈ pieces, p ≠ []) : Ready (connOf pieces) pieces.flatten :=
  ⟨rfl, forall_mem_nil _, pieces, rfl, h, rfl⟩

/-- A request that writes some bytes at the start of the device. -/
def writeRequest (handle : UInt64) (length : UInt32) (payload : Bytes)
    (h : payload.length = length.toNat) : WireRequest :=
  ⟨0, ⟨.write, handle, 0, length⟩, payload, by rw [if_pos rfl, h]⟩

/-- A write of two bytes. -/
def shortWrite : WireRequest := writeRequest 7 2 [1, 2] rfl

/-- A read of two bytes. -/
def shortRead : WireRequest := ⟨0, ⟨.read, 8, 0, 2⟩, [], rfl⟩

/-- A write of one byte more than is allowed. -/
def longWrite : WireRequest :=
  writeRequest 9 (maxRequestLength + 1) (List.replicate (maxRequestLength + 1).toNat 0)
    length_replicate

/-- A write in pieces, a read and a write that is too long, with the header of the last one right
behind the read: all are answered, the last one with an error, and the stream is used up. -/
theorem dispatch_in_sync_mixed :
    let pieces := [shortWrite.header.take 3, shortWrite.header.drop 3 ++ [1], [2],
      shortRead.header ++ longWrite.header, longWrite.payload]
    ∃ c', (∀ n, dispatch id zeroDevice (3 + n) (connOf pieces) = dispatch id zeroDevice n c') ∧
      c'.writer.sent = serializeReply ⟨0, 7⟩ ++ (serializeReply ⟨0, 8⟩ ++ [0, 0]) ++
        serializeReply ⟨eio, 9⟩ ∧
      dispatch id zeroDevice 1 c' = (c', some (.ok ())) := by
  intro pieces
  have hpieces : ∀ p ∈ pieces, p ≠ [] := by
    have hlong : longWrite.payload ≠ [] := mt (replicate_eq_nil_iff _).mp (by decide)
    simp only [pieces, forall_mem_cons]
    exact ⟨by decide, by decide, by decide, by decide, hlong, forall_mem_nil _⟩
  have hflat : pieces.flatten =
      ([shortWrite, shortRead, longWrite].map WireRequest.bytes).flatten ++ [] := by
    have hwrite : shortWrite.payload = [1, 2] := rfl
    have hread : shortRead.payload = [] := rfl
    simp only [pieces, WireRequest.bytes, hwrite, hread, map_cons, map_nil, flatten_cons,
      flatten_nil, append_nil]
    simp only [← append_assoc, take_append_drop]
    simp
  obtain ⟨c', hrun, -, -, hsent, -, heof, -⟩ := dispatch_in_sync id zeroDevice
    [shortWrite, shortRead, longWrite] (by decide) (hflat ▸ ready_connOf hpieces)
  refine ⟨c', hrun, ?_, heof rfl⟩
  have hlong : serve zeroDevice () longWrite = ((), ⟨⟨eio, 9⟩, []⟩) := serve_of_oversized rfl
  rw [hsent]
  simp [serveAll, hlong]
  rfl

/-- **A disconnect gets no reply**, also at the end of a session: no list of
answers, one for each request, is what the dispatcher sends. -/
theorem disconnect_unanswered : ∃ bye : WireRequest, bye.request.command = .disconnect ∧
      ∀ n answers, List.Forall₂ Fits [bye] answers →
        (dispatch id zeroDevice (n + 1) (connOf [bye.bytes])).1.writer.sent
          ≠ (answers.map Answer.bytes).flatten := by
  refine ⟨bareRequest .disconnect (by decide) 7, rfl, fun n answers hfits => ?_⟩
  generalize hbye : bareRequest .disconnect (by decide) 7 = bye at hfits
  have hready : Ready (connOf [bye.bytes]) (bye.bytes ++ []) :=
    ready_connOf (by rw [← hbye]; decide)
  obtain ⟨c', hstep, ha⟩ := dispatchStep_disconnect id zeroDevice bye (by rw [← hbye]; rfl) hready
  rw [dispatch, hstep]
  obtain ⟨a, rfl⟩ : ∃ a, answers = [a] := length_eq_one_iff.mp hfits.length_eq.symm
  simp only [ha.sent_eq, map_cons, map_nil, flatten_cons, Answer.bytes]
  intro hsent
  exact serializeReply_ne_nil a.reply (append_eq_nil_iff.mp (append_eq_nil_iff.mp hsent.symm).1).1

end Okou.Nbd
