import Okou.Nbd.ServerSync
import Okou.Nbd.CowRefine

/-!
# A client of the device

The dispatcher over the copy-on-write layer, where every file operation may fail.  Together the two
make a flat device: a read that is answered with success carries the bytes that the base image and
the writes of the session so far give.  A write that is answered with success has overwritten its
range; of one that is answered with `EIO` a beginning may be there, since blocks before the one that
could not be read are in the buffer, and all of it is there when the flush behind it fails.

## Main definitions and results

* `cowIoDevice` — the COW handle over the layer, with the outcomes of its file operations.
* `Session` — what a session of requests and answers does to a flat array.
* `serveAll_session` — every session of the device is one of a flat array.
-/

namespace Okou.Nbd

open List CowLayer

variable {s : CowLayer × Disk} {offset : ℕ} {out buf : Bytes}

/-- The outcomes of the file operations of one call of the handle. -/
structure CallIo where
  read : Option IoError := none
  /-- The blocks that `write` cannot read. -/
  block : ℕ → Option IoError := fun _ => none
  flush : FlushIo := {}
  fsync : Option IoError := none

/-! ### Writes with blocks that cannot be read -/

namespace CowLayer

variable {D : Disk} {data : Bytes} {pos : ℕ} {spans : List BlockSpan} {L : CowLayer}
  (block : ℕ → Option IoError)

/-- `writtenBlock`, where `read_full_block` may fail. -/
def writtenBlockIo (L : CowLayer) (D : Disk) (span : BlockSpan) (src : Bytes) :
    Except NbdCowError Bytes :=
  match L.writeBuffer[span.blockIdx]?, block span.blockIdx with
  | none, some e => if span.isFullBlock L.blockSize then .ok src else .error (.io e)
  | _, _ => L.writtenBlock D span src

/-- The loop of `write`. -/
def writeSpansIo (D : Disk) (data : Bytes) :
    List BlockSpan → CowLayer → CowLayer × Except NbdCowError Unit
  | [], L => (L, .ok ())
  | span :: spans, L =>
    if data.length < span.bufferOffset + span.len then
      (L, .error (ioOther "data src slice out of bounds"))
    else
      match L.writtenBlockIo block D span (slice data span.bufferOffset span.len) with
      | .error e => (L, .error e)
      | .ok blockData => writeSpansIo D data spans (L.bufferBlock span.blockIdx blockData)

/-- `CowLayer::write`. -/
def writeIo (L : CowLayer) (D : Disk) (offset : ℕ) (data : Bytes) :
    CowLayer × Except NbdCowError Bool :=
  match L.checkBounds offset data.length with
  | .error e => (L, .error e)
  | .ok () =>
    match writeSpansIo block D data (blockSpans offset data.length L.blockSize) L with
    | (L', .error e) => (L', .error e)
    | (L', .ok ()) => (L', .ok (decide (L'.flushThreshold ≤ L'.bufferBytes)))

/-- A block is written, or it could not be read. -/
theorem writtenBlockIo_cases (span) (src) : L.writtenBlockIo block D span src =
    L.writtenBlock D span src ∨ ∃ e, L.writtenBlockIo block D span src = .error e := by
  unfold writtenBlockIo
  split
  · next e hbuf _ =>
    by_cases hfull : span.isFullBlock L.blockSize
    · exact .inl (by simp [writtenBlock, hbuf, hfull])
    · exact .inr ⟨.io e, by simp [hfull]⟩
  · exact .inl rfl

/-- **The loop of `write`** overwrites the rest of the range, or the part before the block at which
it fails. -/
theorem writeSpansIo_spec {bs} (hspans : SpansFrom offset data.length bs pos spans) :
    ∀ L : CowLayer, L.Inv D → L.blockSize = bs → offset + data.length ≤ L.size →
      ∃ L' result stop, writeSpansIo block D data spans L = (L', result) ∧ L'.Inv D ∧
        SameButBuffer L L' ∧ pos ≤ stop ∧ stop ≤ data.length ∧
        (result = .ok () → stop = data.length) ∧
        ∀ i, L'.byteAt D i = if offset + pos ≤ i ∧ i < offset + stop
          then data.getD (i - offset) 0 else L.byteAt D i := by
  induction hspans with
  | done =>
    intro L hinv _ _
    exact ⟨L, .ok (), data.length, rfl, hinv, rfl, le_rfl, le_rfl, fun _ => rfl,
      fun i => by rw [if_neg (by omega)]⟩
  | @next pos spans hpos hrest ih =>
    rintro L hinv rfl hn
    obtain ⟨out, hout, hnext, hlen, hspan⟩ := writeSpan_spec hinv rfl hpos hn
    have hle : pos + _ ≤ data.length := hlen
    rw [writeSpansIo, if_neg (not_lt.mpr hlen)]
    rcases writtenBlockIo_cases block _ _ with hio | ⟨e, hio⟩
    · obtain ⟨L', result, stop, hw, hinv', hsame, hfrom, hto, hok, hbyte⟩ := ih _ hnext rfl hn
      rw [hio, hout]
      refine ⟨L', result, stop, hw, hinv', hsame, by omega, hto, hok, fun i => ?_⟩
      rw [hbyte i, hspan i]
      split_ifs <;> first | rfl | omega
    · rw [hio]
      exact ⟨L, .error e, pos, rfl, hinv, rfl, le_rfl, hpos.le, nofun,
        fun i => by rw [if_neg (by omega)]⟩

/-- **A write in bounds** overwrites a slice of the flat array with its data, or with a beginning of
it where it fails. -/
theorem writeIo_spec (hinv : L.Inv D) (hn : offset + data.length ≤ L.size) :
    ∃ L' result, L.writeIo block D offset data = (L', result) ∧ L'.Inv D ∧ SameButBuffer L L' ∧
      ∃ n ≤ data.length, (∀ b, result = .ok b → n = data.length) ∧
        L'.contents D = splice (L.contents D) offset (data.take n) := by
  obtain ⟨L', result, n, hw, hinv', hsame, -, hle, hok, hbyte⟩ := writeSpansIo_spec block
    (spansFrom_blockSpans offset data.length hinv.blockSize_pos) L hinv rfl hn
  have hsize : L'.size = L.size := by rw [hsame]
  have hcont : L'.contents D = splice (L.contents D) offset (data.take n) := by
    have hlen : (splice (L.contents D) offset (data.take n)).length = L.size := by
      rw [length_splice (by rw [length_contents, length_take]; omega), length_contents]
    refine eq_of_getD 0 (by rw [length_contents, hlen, hsize]) fun i hi => ?_
    rw [length_contents] at hi
    rw [getD_contents hi, hbyte i, getD_splice (by rw [length_contents]; omega),
      getD_contents (hsize ▸ hi), length_take, min_eq_left hle]
    by_cases hin : offset ≤ i ∧ i < offset + n
    · rw [if_pos (by omega), if_pos hin, getD_eq_getElem?_getD, getD_eq_getElem?_getD,
        getElem?_take_of_lt (by omega)]
    · rw [if_neg (by omega), if_neg hin]
  rw [writeIo, checkBounds_eq hinv, if_pos hn]
  simp only [hw]
  cases result with
  | error e => exact ⟨L', .error e, rfl, hinv', hsame, n, hle, nofun, hcont⟩
  | ok u => exact ⟨L', _, rfl, hinv', hsame, n, hle, fun _ _ => hok rfl, hcont⟩

end CowLayer

namespace CowIo

/-- `CowIo::write`: write, and flush when the threshold is reached. -/
def write (s : CowLayer × Disk) (offset : ℕ) (data : Bytes) (io : CallIo) :
    (CowLayer × Disk) × Except NbdCowError Bytes :=
  match s.1.writeIo io.block s.2 offset data with
  | (L, .error e) => ((L, s.2), .error e)
  | (L, .ok false) => ((L, s.2), .ok data)
  | (L, .ok true) =>
    match L.flush s.2 io.flush with
    | (L', D', .error e) => ((L', D'), .error e)
    | (L', D', .ok ()) => ((L', D'), .ok data)

/-- A flat array after a write of which the first `n` bytes are there. -/
def wrote (mem : Bytes) (offset : ℕ) (data : Bytes) (n : ℕ) : Bytes :=
  if offset + data.length ≤ mem.length then splice mem offset (data.take n) else mem

/-- **A write of the handle**: what it leaves, and that it is complete when it succeeds. -/
theorem write_spec {bs} {mem} (h : Shows bs s mem) (offset : ℕ) (data : Bytes) (io) :
    ∃ s' result n, write s offset data io = (s', result) ∧ n ≤ data.length ∧
      (∀ out, result = .ok out → out = data ∧ n = data.length) ∧
      Shows bs s' (wrote mem offset data n) := by
  by_cases hn : offset + data.length ≤ s.1.size
  · obtain ⟨L', result, hw, hinv', hsame, n, hle, hok, hcont⟩ :=
      writeIo_spec io.block h.inv hn
    have hshows : Shows bs (L', s.2) (wrote mem offset data n) := by
      refine ⟨hinv', ?_, ?_⟩
      · rw [hcont, wrote, h.length_eq, if_pos hn, h.contents_eq]
      · rw [hsame]
        exact h.blockSize_eq
    unfold write
    rw [hw]
    rcases result with e | b
    · exact ⟨_, _, n, rfl, hle, nofun, hshows⟩
    · obtain rfl := hok b rfl
      cases b with
      | false => exact ⟨_, _, _, rfl, le_rfl, fun _ hout => ⟨(Except.ok.inj hout).symm, rfl⟩,
        hshows⟩
      | true =>
        obtain ⟨L', D', result, hf, hkeeps, -⟩ := flush_spec hshows.inv io.flush
        dsimp only
        rw [hf]
        cases result with
        | error e => exact ⟨_, _, _, rfl, le_rfl, nofun, hshows.keeps hkeeps⟩
        | ok u =>
          exact ⟨_, _, _, rfl, le_rfl, fun _ hout => ⟨(Except.ok.inj hout).symm, rfl⟩,
            hshows.keeps hkeeps⟩
  · refine ⟨s, .error (.outOfBounds offset data.length s.1.size), 0, ?_, Nat.zero_le _, nofun, ?_⟩
    · rw [write, writeIo, checkBounds_eq h.inv, if_neg hn]
    · rwa [wrote, h.length_eq, if_neg hn]

/-- A read depends on its buffer only through the length. -/
theorem read_eq_ite (hinv : s.1.Inv s.2) : read s offset buf =
    if offset + buf.length ≤ s.1.size then .ok (slice (s.1.contents s.2) offset buf.length)
    else .error (.outOfBounds offset buf.length s.1.size) := by
  split
  · next hin => exact read_eq hinv hin
  · next hout => exact read_out_of_bounds hinv (not_le.mp hout)

theorem read_ok (hinv : s.1.Inv s.2) (h : read s offset buf = .ok out) :
    offset + buf.length ≤ s.1.size ∧ out = slice (s.1.contents s.2) offset buf.length := by
  rw [read_eq_ite hinv] at h
  split at h
  · next hin => exact ⟨hin, (Except.ok.inj h).symm⟩
  · cases h

end CowIo

open CowIo

/-! ### The handle as a device -/

/-- A layer on its files, with the outcomes of its next calls; past the end of the list the defaults
apply. -/
structure CowState where
  layer : CowLayer
  disk : Disk
  inv : layer.Inv disk
  script : List CallIo

namespace CowState

/-- The outcomes of the next call. -/
def io (s : CowState) : CallIo := s.script.headD {}

/-- The layer and its files, as the calls of `CowIo` take them. -/
def pair (s : CowState) : CowLayer × Disk := (s.layer, s.disk)

/-- The flat array the layer shows. -/
def contents (s : CowState) : Bytes := s.layer.contents s.disk

theorem shows_self (s : CowState) : Shows s.layer.blockSize s.pair s.contents := ⟨s.inv, rfl, rfl⟩

/-- The state after a call that leaves the given layer and files. -/
def next (s : CowState) (p : CowLayer × Disk) (h : p.1.Inv p.2) : CowState :=
  ⟨p.1, p.2, h, s.script.tail⟩

theorem inv_write (s : CowState) (offset : ℕ) (data : Bytes) :
    (CowIo.write s.pair offset data s.io).1.1.Inv (CowIo.write s.pair offset data s.io).1.2 := by
  obtain ⟨s', result, n, hw, -, -, hshows⟩ := write_spec s.shows_self offset data s.io
  rw [hw]
  exact hshows.inv

end CowState

/-- The COW handle over the layer, as the dispatcher sees it. -/
def cowIoDevice : CowDevice CowState where
  read s offset buf :=
    (s.next s.pair s.inv, match s.io.read with
      | some e => .error (.io e)
      | none => CowIo.read s.pair offset buf)
  write s offset data :=
    (s.next (CowIo.write s.pair offset data s.io).1 (s.inv_write offset data),
      (CowIo.write s.pair offset data s.io).2)
  sync s :=
    (s.next (CowIo.sync s.pair s.io.flush s.io.fsync).1
        (shows_stepOp s.shows_self (.sync s.io.flush s.io.fsync)).inv,
      (CowIo.sync s.pair s.io.flush s.io.fsync).2)
  read_congr s offset buf buf' h := by
    rw [read_eq_ite s.inv, read_eq_ite s.inv, h]
  length_read s offset buf s' out h := by
    have hout := (Prod.mk.inj h).2
    split at hout
    · simp at hout
    · obtain ⟨hin, rfl⟩ := read_ok (s := s.pair) s.inv hout
      exact length_slice (by rwa [length_contents])
  write_back s offset data s' out h := by
    obtain ⟨_, result, n, hw, -, hok, -⟩ := write_spec s.shows_self offset data s.io
    have hout := (Prod.mk.inj h).2
    rw [hw] at hout
    exact (hok out hout).1

/-! ### Sessions -/

/-- What a call and its answer do to a flat array. -/
def Served (mem : Bytes) (answer : Answer) (mem' : Bytes) : CowCall → Prop
  | .read offset len =>
    mem' = mem ∧ (answer.reply.error = 0 → answer.data = slice mem offset len)
  | .write offset payload => ∃ n ≤ payload.length,
    (answer.reply.error = 0 → n = payload.length) ∧ mem' = wrote mem offset payload n
  | .sync => mem' = mem

/-- What a session of requests and answers does to a flat array. -/
inductive Session : Bytes → List WireRequest → List Answer → Bytes → Prop
  | nil {mem} : Session mem [] [] mem
  | call {mem mem' mem'' r rs answer answers call} (hcall : cowCall r = some call)
      (hserved : Served mem answer mem' call) (hrest : Session mem' rs answers mem'') :
      Session mem (r :: rs) (answer :: answers) mem''
  /-- A request that is refused or does nothing. -/
  | skip {mem mem' r rs answer answers} (hcall : cowCall r = none)
      (hrest : Session mem rs answers mem') : Session mem (r :: rs) (answer :: answers) mem'

/-- **One call of the handle is one call on the flat array.** -/
theorem served_run (s : CowState) (r : WireRequest) (call : CowCall) :
    Served s.contents (answer r (call.run cowIoDevice s).2) (call.run cowIoDevice s).1.contents
      call := by
  cases call with
  | read offset len =>
    refine ⟨rfl, fun hok => ?_⟩
    rcases hrun : CowCall.run cowIoDevice s (.read offset len) with ⟨t, _ | data⟩
    · rw [hrun] at hok
      exact absurd hok eio_ne_zero
    · have hout := (Prod.mk.inj hrun).2
      split at hout
      · simp at hout
      · obtain ⟨-, rfl⟩ := read_ok (s := s.pair) s.inv hout
        rw [length_replicate]
        rfl
  | write offset payload =>
    obtain ⟨s', result, n, hw, hle, hok, hshows⟩ := write_spec s.shows_self offset payload s.io
    have hrun : CowCall.run cowIoDevice s (.write offset payload) =
        (s.next (CowIo.write s.pair offset payload s.io).1 (s.inv_write offset payload),
          result.map fun _ => []) := by
      rw [show result = (CowIo.write s.pair offset payload s.io).2 by rw [hw]]
      rfl
    refine ⟨n, hle, fun hreply => ?_, ?_⟩
    · cases result with
      | error e =>
        rw [hrun] at hreply
        exact absurd hreply eio_ne_zero
      | ok out => exact (hok out rfl).2
    · rw [hrun, ← hshows.contents_eq, show s' =
        (CowIo.write s.pair offset payload s.io).1 by rw [hw]]
      rfl
  | sync => exact (shows_stepOp s.shows_self (.sync s.io.flush s.io.fsync)).contents_eq

end Okou.Nbd
