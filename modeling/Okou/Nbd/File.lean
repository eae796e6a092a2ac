import Okou.Lib.Bytes

/-!
# Errors and positioned file writes

The I/O errors of the `nbd-cow` crate and the way it writes to the sparse COW
file.  A positioned write is driven by a `PwriteOutcome`: the kernel may accept
any number of bytes, or fail after any number of them reached the file, so every
partial write of `pwrite(2)` and `pwritev(2)` is one value of that type.

A call that may retry is given the list of outcomes of the writes it performs.
`writeAllAt` consumes the outcomes of the `pwrite`s behind one `write_all_at`,
and `writeBlockSlices` those of the calls of its write function.
-/

namespace Okou.Nbd

open List

/-- The kinds of `std::io::Error` the crate distinguishes; `os` is any other
code reported by the operating system. -/
inductive ErrorKind
  | notFound
  | invalidInput
  | writeZero
  | interrupted
  | unexpectedEof
  | other
  | os (code : ℕ)
  deriving DecidableEq, Repr

/-- `std::io::Error`: a kind and its text. -/
structure IoError where
  kind : ErrorKind
  message : String
  deriving DecidableEq, Repr

/-- `protocol_impl.rs`: errors returned while decoding fixed-size headers. -/
inductive ProtocolError
  | invalidRequestMagic (magic : ℕ)
  | unknownCommand (cmd : ℕ)
  | bufferTooShort (expected actual : ℕ)
  deriving DecidableEq, Repr

/-- `error.rs`: the error type of the crate. -/
inductive NbdCowError
  | protocol (e : ProtocolError)
  | io (e : IoError)
  | outOfBounds (offset length deviceSize : ℕ)
  | netlink (message : String)
  | netlinkErrno (errno : ℤ) (message : String)
  | noFreeDevice
  deriving DecidableEq, Repr

/-- `std::io::Error::other`. -/
def IoError.ofMessage (message : String) : IoError := ⟨.other, message⟩

/-- `NbdCowError::Io(std::io::Error::other(..))`. -/
def ioOther (message : String) : NbdCowError := .io (.ofMessage message)

/-! ### One positioned write -/

/-- What the kernel does with one positioned write. -/
inductive PwriteOutcome
  /-- The first `n` bytes are written and counted; all of them when there are
  fewer.  `accept 0` is the write that returns zero. -/
  | accept (n : ℕ)
  /-- The write fails after `landed` bytes reached the file. -/
  | fail (e : IoError) (landed : ℕ)
  deriving Repr

/-- One `pwrite` of `d` at `off`: the file afterwards and the result. -/
def PwriteOutcome.run (f : Bytes) (off : ℕ) (d : Bytes) : PwriteOutcome → Bytes × Except IoError ℕ
  | .accept n => (pwrite f off (d.take n), .ok (min n d.length))
  | .fail e landed => (pwrite f off (d.take landed), .error e)

/-- `FileExt::write_all_at`, driven by the outcomes of its `pwrite`s.  When they
run out, the rest of the buffer is written in one go. -/
def writeAllAt : List PwriteOutcome → Bytes → ℕ → Bytes → Bytes × Except IoError Unit
  | [], f, off, d => (pwrite f off d, .ok ())
  | o :: os, f, off, d =>
    if d = [] then (f, .ok ())
    else
      match o.run f off d with
      | (f', .ok 0) => (f', .error ⟨.writeZero, "failed to write whole buffer"⟩)
      | (f', .ok (n + 1)) => writeAllAt os f' (off + (n + 1)) (d.drop (n + 1))
      | (f', .error e) =>
        if e.kind = .interrupted then writeAllAt os f' off d else (f', .error e)

/-- The largest `off_t`. -/
def offTMax : ℕ := 2 ^ 63 - 1

/-- `write_block_batch_at`: a single buffer goes through `write_all_at`, several
through one `pwritev`. -/
def writeBlockBatchAt (os : List PwriteOutcome) (f : Bytes) (off : ℕ) (buffers : List Bytes) :
    Bytes × Except IoError ℕ :=
  match buffers with
  | [buffer] =>
    match writeAllAt os f off buffer with
    | (f', .ok ()) => (f', .ok buffer.length)
    | (f', .error e) => (f', .error e)
  | _ =>
    if offTMax < off then
      (f, .error ⟨.invalidInput, s!"COW write offset {off} exceeds off_t"⟩)
    else
      match os with
      | [] => (pwrite f off buffers.flatten, .ok buffers.flatten.length)
      | o :: _ => o.run f off buffers.flatten

/-! ### The retry loop over a batch -/

/-- `IoSlice::advance_slices`: drop the buffers the count covers and shorten the
first one that remains. -/
def advanceSlices : List Bytes → ℕ → List Bytes
  | [], _ => []
  | b :: bs, n => if b.length ≤ n then advanceSlices bs (n - b.length) else b.drop n :: bs

section WriteBlockSlices

variable {ω φ : Type*} (writeFn : ω → φ → ℕ → List Bytes → φ × Except IoError ℕ)

/-- `write_block_slices`: submit the remaining buffers until they are consumed.
The list holds the outcome of every call of the write function; a batch that
needs more calls than the list holds fails.  On failure the second component of
the error is the first incomplete block. -/
def writeBlockSlices (blockSize : ℕ) : List ω → φ → ℕ → List Bytes → ℕ →
    List ω × φ × Except (IoError × ℕ) Unit
  | [], f, _, _, completed =>
    ([], f, .error (.ofMessage "COW write batch was not completed", completed / blockSize))
  | o :: os, f, offset, remaining, completed =>
    match writeFn o f offset remaining with
    | (f', .ok 0) =>
      (os, f', .error (⟨.writeZero, "failed to flush COW write batch"⟩, completed / blockSize))
    | (f', .ok (n + 1)) =>
      let remaining' := advanceSlices remaining (n + 1)
      if remaining' = [] then (os, f', .ok ())
      else writeBlockSlices blockSize os f' (offset + (n + 1)) remaining' (completed + (n + 1))
    | (f', .error e) =>
      if e.kind = .interrupted then writeBlockSlices blockSize os f' offset remaining completed
      else (os, f', .error (e, completed / blockSize))

end WriteBlockSlices

/-! ### What a write leaves in the file -/

/-- `g` is the file `f` after a write of `d` at `off` of which at least the first
`k` bytes landed: they are in `g`, which covers them, and nothing outside the
range of `d` has changed. -/
structure WrittenUpTo (f g : Bytes) (off : ℕ) (d : Bytes) (k : ℕ) : Prop where
  written : ∀ i, i < k → g.getD (off + i) 0 = d.getD i 0
  frame : ∀ i, i < off ∨ off + d.length ≤ i → g.getD i 0 = f.getD i 0
  length_le : f.length ≤ g.length
  covered : 0 < k → off + k ≤ g.length

namespace WrittenUpTo

variable {f g h : Bytes} {off k j : ℕ} {d : Bytes}

theorem mono (hw : WrittenUpTo f g off d k) (hj : j ≤ k) : WrittenUpTo f g off d j where
  written i hi := hw.written i (by omega)
  frame := hw.frame
  length_le := hw.length_le
  covered hpos := by
    have := hw.covered (by omega)
    omega

/-- A write of a prefix of the data. -/
theorem pwrite_take (f : Bytes) (off : ℕ) (d : Bytes) (n : ℕ) :
    WrittenUpTo f (pwrite f off (d.take n)) off d (min n d.length) where
  written i hi := by
    rw [getD_pwrite, if_pos (by rw [length_take]; omega), Nat.add_sub_cancel_left]
    simp only [getD_eq_getElem?_getD, getElem?_take]
    rw [if_pos (by omega)]
  frame i hi := by
    rw [getD_pwrite, if_neg (by rw [length_take]; omega)]
  length_le := length_le_length_pwrite _ _ _
  covered hpos := by
    have hlen : (d.take n).length = min n d.length := length_take
    rw [length_pwrite (by intro hnil; rw [hnil, length_nil] at hlen; omega), hlen]
    exact le_max_right _ _

/-- The data written in full. -/
theorem pwrite_all (f : Bytes) (off : ℕ) (d : Bytes) :
    WrittenUpTo f (pwrite f off d) off d d.length := by
  have h := pwrite_take f off d d.length
  rwa [take_length, Nat.min_self] at h

/-- Continuing behind a completed prefix completes a longer one. -/
theorem trans (hfg : WrittenUpTo f g off d k) (hk : k ≤ d.length)
    (hgh : WrittenUpTo g h (off + k) (d.drop k) j) : WrittenUpTo f h off d (k + j) where
  written i hi := by
    by_cases hik : i < k
    · rw [hgh.frame _ (Or.inl (by omega)), hfg.written i hik]
    · have hw := hgh.written (i - k) (by omega)
      rw [show off + k + (i - k) = off + i by omega] at hw
      rw [hw, getD_eq_getElem?_getD, getElem?_drop, ← getD_eq_getElem?_getD]
      congr 1
      omega
  frame i hi := by
    rw [hgh.frame i (by rw [length_drop]; omega), hfg.frame i hi]
  length_le := hfg.length_le.trans hgh.length_le
  covered hpos := by
    by_cases hj : 0 < j
    · have := hgh.covered hj
      omega
    · have := hfg.covered (by omega)
      have := hgh.length_le
      omega

/-- A retry from the same place keeps only what the retry wrote. -/
theorem retry (hfg : WrittenUpTo f g off d 0) (hgh : WrittenUpTo g h off d j) :
    WrittenUpTo f h off d j where
  written := hgh.written
  frame i hi := by rw [hgh.frame i hi, hfg.frame i hi]
  length_le := hfg.length_le.trans hgh.length_le
  covered := hgh.covered

end WrittenUpTo

/-- The bytes a result vouches for: the whole of `total` on success, none on
failure. -/
def vouched {ε : Type*} (total : ℕ) : Except ε Unit → ℕ
  | .ok _ => total
  | .error _ => 0

open WrittenUpTo

/-- **`write_all_at` under every outcome of its writes.** -/
theorem writeAllAt_spec (os) : ∀ (f : Bytes) (off : ℕ) (d : Bytes),
    WrittenUpTo f (writeAllAt os f off d).1 off d
      (vouched d.length (writeAllAt os f off d).2) := by
  induction os with
  | nil => intro f off d; exact .pwrite_all f off d
  | cons o os ih =>
    intro f off d
    unfold writeAllAt
    split
    · next hd =>
      subst hd
      exact pwrite_nil f off ▸ pwrite_all f off []
    · cases o with
      | accept n =>
        have hw := pwrite_take f off d n
        simp only [PwriteOutcome.run]
        rcases hn : min n d.length with _ | m
        · exact hw.mono (Nat.zero_le _)
        · rw [hn] at hw
          have hm : m + 1 ≤ d.length := by omega
          -- the rest of the buffer is written behind the accepted prefix
          refine (hw.trans hm (ih _ (off + (m + 1)) (d.drop (m + 1)))).mono ?_
          cases (writeAllAt os (pwrite f off (d.take n)) (off + (m + 1)) (d.drop (m + 1))).2 with
          | ok u => simp only [vouched, length_drop]; omega
          | error e => exact Nat.zero_le _
      | fail e landed =>
        have hw := (pwrite_take f off d landed).mono (Nat.zero_le _)
        simp only [PwriteOutcome.run]
        split
        · exact hw.retry (ih _ off d)
        · exact hw

/-- What an honest result of writing `d` at `off` says: the counted bytes are in
the file, and only the range of `d` was touched. -/
def HonestResult (f : Bytes) (off : ℕ) (d : Bytes) : Bytes × Except IoError ℕ → Prop
  | (g, .ok n) => n ≤ d.length ∧ WrittenUpTo f g off d n
  | (g, .error _) => WrittenUpTo f g off d 0

/-- A write function all of whose results are honest. -/
def HonestWrite {ω : Type*} (writeFn : ω → Bytes → ℕ → List Bytes → Bytes × Except IoError ℕ) :
    Prop :=
  ∀ o f off buffers, HonestResult f off buffers.flatten (writeFn o f off buffers)

theorem honestResult_run (o : PwriteOutcome) (f : Bytes) (off : ℕ) (d : Bytes) :
    HonestResult f off d (o.run f off d) := by
  cases o with
  | accept n => exact ⟨Nat.min_le_right _ _, .pwrite_take f off d n⟩
  | fail e landed => exact (pwrite_take f off d landed).mono (Nat.zero_le _)

/-- **The write function of a flush is honest under every outcome.** -/
theorem honestWrite_writeBlockBatchAt : HonestWrite writeBlockBatchAt := by
  intro os f off buffers
  unfold writeBlockBatchAt
  split
  · next buffer =>
    have hw := writeAllAt_spec os f off buffer
    simp only [flatten_cons, flatten_nil, append_nil]
    rcases hres : writeAllAt os f off buffer with ⟨g, r⟩
    rw [hres] at hw
    cases r with
    | ok u => exact ⟨le_rfl, hw⟩
    | error e => exact hw
  · split
    · simpa [HonestResult] using
        (pwrite_take f off buffers.flatten 0).mono (Nat.zero_le _)
    · cases os with
      | nil => exact ⟨le_rfl, .pwrite_all f off _⟩
      | cons o os => exact honestResult_run o f off _

theorem flatten_advanceSlices (bs) (n : ℕ) : (advanceSlices bs n).flatten = bs.flatten.drop n := by
  induction bs generalizing n with
  | nil => simp [advanceSlices]
  | cons b bs ih =>
    simp only [advanceSlices, flatten_cons, drop_append]
    split
    · next h => rw [ih, drop_eq_nil_of_le h, nil_append]
    · next h => rw [flatten_cons, Nat.sub_eq_zero_of_le (by omega), drop_zero]

theorem advanceSlices_eq_nil_iff (bs) (n : ℕ) : advanceSlices bs n = [] ↔
    bs.flatten.length ≤ n := by
  induction bs generalizing n with
  | nil => simp [advanceSlices]
  | cons b bs ih =>
    simp only [advanceSlices, flatten_cons, length_append]
    split
    · rw [ih]; omega
    · simp only [reduceCtorEq, false_iff]; omega

/-- What a batch write of `d` at `off` guarantees.  On success the whole of `d` is
in the file.  On failure the index reported is that of the block in which the
completed bytes end, and exactly those bytes are vouched for. -/
def BatchResult {ω : Type*} (blockSize : ℕ) (f : Bytes) (off : ℕ) (d : Bytes) (completed : ℕ) :
    List ω × Bytes × Except (IoError × ℕ) Unit → Prop
  | (_, g, .ok _) => WrittenUpTo f g off d d.length
  | (_, g, .error (_, first)) =>
    ∃ c, first = (completed + c) / blockSize ∧ WrittenUpTo f g off d c

/-- What a call of the retry loop needs of a relation between the states around a write of `d` at
`off` whose first `k` bytes are vouched for. -/
structure WriteEffect {φ : Type*} (W : φ → φ → ℕ → Bytes → ℕ → Prop) : Prop where
  none (f : φ) (off : ℕ) (d : Bytes) : W f f off d 0
  mono {f g : φ} {off j k : ℕ} {d : Bytes} (h : W f g off d k) (hj : j ≤ k) : W f g off d j
  retry {f g h : φ} {off j : ℕ} {d : Bytes} (hfg : W f g off d 0) (hgh : W g h off d j) :
    W f h off d j
  trans {f g h : φ} {off j k : ℕ} {d : Bytes} (hfg : W f g off d k) (hk : k ≤ d.length)
    (hgh : W g h (off + k) (d.drop k) j) : W f h off d (k + j)

theorem writeEffect_writtenUpTo : WriteEffect WrittenUpTo where
  none f off d := by simpa using (pwrite_take f off d 0).mono (Nat.zero_le _)
  mono := .mono
  retry := .retry
  trans := .trans

/-- **The retry loop keeps the effect of its calls**, whatever their outcomes. -/
theorem writeBlockSlices_effect {ω φ : Type*} {W} (hW : WriteEffect W)
    {writeFn}
    (hok : ∀ {o f off buffers g n}, writeFn o f off buffers = (g, .ok n) →
      n ≤ buffers.flatten.length ∧ W f g off buffers.flatten n)
    (herr : ∀ {o f off buffers g e}, writeFn o f off buffers = (g, .error e) →
      W f g off buffers.flatten 0)
    (blockSize : ℕ) (os : List ω) : ∀ (f : φ) (off : ℕ) (remaining : List Bytes) (completed : ℕ),
      match writeBlockSlices writeFn blockSize os f off remaining completed with
      | (_, g, .ok _) => W f g off remaining.flatten remaining.flatten.length
      | (_, g, .error (_, first)) => ∃ c, first = (completed + c) / blockSize ∧
        W f g off remaining.flatten c := by
  induction os with
  | nil =>
    intro f off remaining completed
    exact ⟨0, rfl, hW.none _ _ _⟩
  | cons o os ih =>
    intro f off remaining completed
    unfold writeBlockSlices
    rcases hres : writeFn o f off remaining with ⟨g, r⟩
    cases r with
    | error e =>
      simp only
      split_ifs
      · -- interrupted: the same buffers are submitted again
        have hrec := ih g off remaining completed
        split at hrec
        · exact hW.retry (herr hres) hrec
        · obtain ⟨c, hc, hw⟩ := hrec
          exact ⟨c, hc, hW.retry (herr hres) hw⟩
      · exact ⟨0, rfl, herr hres⟩
    | ok n =>
      obtain ⟨hn, hw⟩ := hok hres
      cases n with
      | zero => exact ⟨0, rfl, hw⟩
      | succ n =>
        simp only
        split_ifs with hdone
        · exact hW.mono hw ((advanceSlices_eq_nil_iff _ _).mp hdone)
        · have hrec := ih g (off + (n + 1)) (advanceSlices remaining (n + 1)) (completed + (n + 1))
          rw [flatten_advanceSlices] at hrec
          split at hrec
          · refine hW.mono (hW.trans hw hn hrec) ?_
            rw [length_drop]
            omega
          · obtain ⟨c, hc, hw'⟩ := hrec
            exact ⟨n + 1 + c, by rw [hc, Nat.add_assoc], hW.trans hw hn hw'⟩

/-- **A batch write under every outcome of its calls.** -/
theorem writeBlockSlices_spec {ω : Type*} {writeFn}
    (hwf : HonestWrite writeFn) (blockSize : ℕ) (os : List ω) (f : Bytes) (off : ℕ)
    (remaining : List Bytes)
    (completed : ℕ) : BatchResult blockSize f off remaining.flatten completed
      (writeBlockSlices writeFn blockSize os f off remaining completed) := by
  have heffect := writeBlockSlices_effect writeEffect_writtenUpTo
    (fun {o f off buffers g n} (h : writeFn o f off buffers = (g, .ok n)) => by
      have hcall := hwf o f off buffers
      rwa [h] at hcall)
    (fun {o f off buffers g e} h => by
      have hcall := hwf o f off buffers
      rwa [h] at hcall) blockSize os f off remaining completed
  rcases hres : writeBlockSlices writeFn blockSize os f off remaining completed with ⟨os', g, r⟩
  rw [hres] at heffect
  cases r <;> exact heffect

end Okou.Nbd
