import Okou.Nbd.Cow

/-!
# What a reader of the copy-on-write layer sees

The three tiers of the layer — write buffer, dirty blocks of the COW file, base
image — present one array of `size` bytes, `contents`.  A read returns a slice
of it and a write overwrites a slice of it.  The reads are coalesced into runs
over adjacent blocks of one file, and a write that covers a block in part reads
the block first; neither can be seen from outside.
-/

namespace Okou.Nbd

open FileReadRun Option

/-! ### The spans of a byte range -/

/-- The span that starts `pos` bytes into the range of `n` bytes from `offset`. -/
def spanAt (offset n bs pos : ℕ) : BlockSpan where
  blockIdx := (offset + pos) / bs
  absoluteOffset := offset + pos
  blockOffset := (offset + pos) % bs
  bufferOffset := pos
  len := min (bs - (offset + pos) % bs) (n - pos)

/-- The list is what is left of the iteration at position `pos`. -/
inductive SpansFrom (offset n bs : ℕ) : ℕ → List BlockSpan → Prop
  | done : SpansFrom offset n bs n []
  | next {pos : ℕ} {spans : List BlockSpan} (hpos : pos < n)
      (hrest : SpansFrom offset n bs (pos + (spanAt offset n bs pos).len) spans) :
      SpansFrom offset n bs pos (spanAt offset n bs pos :: spans)

section Spans

variable {n bs pos : ℕ} (offset : ℕ)

theorem spanAt_len_pos (hbs : 0 < bs) (hpos : pos < n) : 0 < (spanAt offset n bs pos).len := by
  have := Nat.mod_lt (offset + pos) hbs
  simp only [spanAt]
  omega

theorem spanAt_len_le (bs : ℕ) (hpos : pos < n) : pos + (spanAt offset n bs pos).len ≤ n := by
  simp only [spanAt]
  omega

theorem spanAt_block_le (n pos : ℕ) (hbs : 0 < bs) :
    (spanAt offset n bs pos).blockOffset + (spanAt offset n bs pos).len ≤ bs := by
  have := Nat.mod_lt (offset + pos) hbs
  simp only [spanAt]
  omega

/-- The bytes of a span lie in its block, at its block offset. -/
theorem spanAt_byte (hbs : 0 < bs) {i} (hi : i < (spanAt offset n bs pos).len) :
    (offset + pos + i) / bs = (spanAt offset n bs pos).blockIdx ∧
      (offset + pos + i) % bs = (spanAt offset n bs pos).blockOffset + i := by
  have hblock := spanAt_block_le offset n pos hbs
  have hlt : (offset + pos) % bs + i < bs := by
    simp only [spanAt] at hblock hi ⊢
    omega
  have heq : offset + pos + i = bs * ((offset + pos) / bs) + ((offset + pos) % bs + i) := by
    have := Nat.div_add_mod (offset + pos) bs
    omega
  simp only [spanAt]
  constructor
  · rw [heq, Nat.mul_add_div hbs, Nat.div_eq_of_lt hlt, Nat.add_zero]
  · rw [heq, Nat.mul_add_mod, Nat.mod_eq_of_lt hlt]

theorem spansFrom_toList (hbs : 0 < bs) : ∀ (fuel pos : ℕ), pos ≤ n → n - pos ≤ fuel →
    SpansFrom offset n bs pos (BlockSpans.toList fuel ⟨offset, n, bs, pos⟩) := by
  intro fuel
  induction fuel with
  | zero =>
    intro pos hle hfuel
    obtain rfl : pos = n := by omega
    exact .done
  | succ fuel ih =>
    intro pos hle hfuel
    rw [BlockSpans.toList, BlockSpans.next]
    rcases Nat.lt_or_ge pos n with hpos | hpos
    · have hlen := spanAt_len_pos offset hbs hpos
      have hlen' := spanAt_len_le offset bs hpos
      rw [if_neg (by simpa using hpos)]
      exact .next hpos (ih _ hlen' (by omega))
    · obtain rfl : pos = n := by omega
      rw [if_pos (by simp)]
      exact .done

theorem spansFrom_blockSpans (n : ℕ) (hbs : 0 < bs) :
    SpansFrom offset n bs 0 (blockSpans offset n bs) :=
  spansFrom_toList offset hbs n 0 (Nat.zero_le _) (by omega)

end Spans

/-! ### The bytes of a layer and its invariant -/

namespace CowLayer

/-- The byte a reader sees at `i`: from the write buffer, else from a dirty block
of the COW file, else from the base image. -/
def byteAt (L : CowLayer) (D : Disk) (i : ℕ) : UInt8 :=
  match L.writeBuffer[i / L.blockSize]? with
  | some data => data.getD (i % L.blockSize) 0
  | none =>
    if L.isDirty (i / L.blockSize) then (D.cow.getD []).getD i 0 else D.base.bytes.getD i 0

/-- The device as one flat array. -/
def contents (L : CowLayer) (D : Disk) : Bytes := (List.range L.size).map (L.byteAt D)

/-- The invariant between a layer and the files it lives on. -/
structure Inv (L : CowLayer) (D : Disk) : Prop where
  blockSize_pos : 0 < L.blockSize
  size_eq : L.size = L.dirty.len * L.blockSize
  size_le : L.size ≤ D.base.bytes.length
  buffered : ∀ k data, L.writeBuffer[k]? = some data → k < L.dirty.len ∧ data.length = L.blockSize
  covered : ∀ k, L.isDirty k = true → L.cowFd = true ∧
    (k + 1) * L.blockSize ≤ (D.cow.getD []).length
  used : L.cowFd = true → D.cow.isSome = true ∧
    (L.writeBuffer.isEmpty = false ∨ ∃ k, L.isDirty k = true)

variable {L : CowLayer} {D : Disk}

@[simp] theorem length_contents (L : CowLayer) (D : Disk) : (L.contents D).length = L.size := by
  simp [contents]

variable {i offset : ℕ} {data buf : Bytes}

theorem getD_contents (hi : i < L.size) : (L.contents D).getD i 0 = L.byteAt D i := by
  simp [contents, List.getElem?_range hi]

theorem byteAt_of_buffered (h : L.writeBuffer[i / L.blockSize]? = some data) :
    L.byteAt D i = data.getD (i % L.blockSize) 0 := by
  simp only [byteAt, h]

theorem byteAt_of_dirty (h : L.writeBuffer[i / L.blockSize]? = none)
    (hd : L.isDirty (i / L.blockSize)) : L.byteAt D i = (D.cow.getD []).getD i 0 := by
  simp [byteAt, h, hd]

theorem byteAt_of_clean (h : L.writeBuffer[i / L.blockSize]? = none)
    (hd : L.isDirty (i / L.blockSize) = false) : L.byteAt D i = D.base.bytes.getD i 0 := by
  simp [byteAt, h, hd]

/-- The bounds check is exact: the saturating addition cannot hide an overflow,
because no base image reaches the largest `u64`. -/
theorem checkBounds_eq (hinv : L.Inv D) (offset length : ℕ) : L.checkBounds offset length
      = if offset + length ≤ L.size then .ok ()
        else .error (.outOfBounds offset length L.size) := by
  have hsize : L.size ≤ offTMax := hinv.size_le.trans D.base.length_le
  have hmax : offTMax < u64Max := by decide
  unfold checkBounds
  by_cases h : offset + length ≤ L.size
  · rw [if_pos h, if_neg (by omega)]
  · rw [if_neg h, if_pos (by omega)]

/-! ### Reading -/

/-- The file a read run takes its bytes from. -/
def fileOf (D : Disk) : FileReadSource → Bytes
  | .base => D.base.bytes
  | .cow => D.cow.getD []

/-- The state of `read` at position `pos`: the buffer is filled up to the pending
run, and the run covers the rest from a file that holds the right bytes. -/
structure ReadState (L : CowLayer) (D : Disk) (offset n pos : ℕ) (run : Option FileReadRun)
    (buf : Bytes) : Prop where
  length_buf : buf.length = n
  pos_le : pos ≤ n
  filled : ∀ i, i < (run.elim pos FileReadRun.bufferOffset) → buf.getD i 0 = L.byteAt D (offset + i)
  aligned : ∀ r ∈ run, r.absoluteOffset = offset + r.bufferOffset ∧ r.bufferOffset + r.len = pos
  sourced : ∀ r ∈ run, ∀ i, r.bufferOffset ≤ i → i < pos →
    (fileOf D r.source).getD (offset + i) 0 = L.byteAt D (offset + i)
  covers : ∀ r ∈ run, offset + pos ≤ (fileOf D r.source).length ∧
    (r.source = .cow → L.cowFd = true)

theorem readFileSpan_ok {source} {len}
    (hlen : offset + len ≤ (fileOf D source).length) (hfd : source = .cow → L.cowFd) :
    L.readFileSpan D source offset len = .ok (slice (fileOf D source) offset len) := by
  cases source with
  | base => simp only [readFileSpan, fileOf] at hlen ⊢; rw [readExactAt_of_le hlen]; rfl
  | cow =>
    simp only [readFileSpan, fileOf, hfd rfl] at hlen ⊢
    rw [readExactAt_of_le hlen]
    rfl

variable {n pos : ℕ} {spans : List BlockSpan} {span : BlockSpan} {src : Bytes}

/-- Performing the pending file read fills the buffer up to `pos`. -/
theorem ReadState.flush {run} (hs : ReadState L D offset n pos run buf) :
    ∃ buf', L.flushFileReadRun D run buf = .ok buf' ∧ ReadState L D offset n pos none buf' := by
  cases run with
  | none => exact ⟨buf, rfl, hs⟩
  | some r =>
    obtain ⟨habs, hpos⟩ := hs.aligned r rfl
    obtain ⟨hcov, hfd⟩ := hs.covers r rfl
    have hlen := hs.length_buf
    have hle := hs.pos_le
    have hslice : (slice (fileOf D r.source) r.absoluteOffset r.len).length = r.len :=
      length_slice (by omega)
    refine ⟨splice buf r.bufferOffset (slice (fileOf D r.source) r.absoluteOffset r.len), ?_, ?_⟩
    · simp only [flushFileReadRun]
      rw [if_neg (by omega), readFileSpan_ok (by omega) hfd]
    · refine ⟨by rw [length_splice (by omega), hlen], hle, ?_, by simp, by simp, by simp⟩
      intro i hi
      simp only [elim_none] at hi
      rw [getD_splice (by omega), hslice]
      by_cases hrun : r.bufferOffset ≤ i
      · rw [if_pos (by omega), getD_slice (by omega), ← hs.sourced r rfl i hrun hi, habs]
        congr 1
        omega
      · rw [if_neg (by omega)]
        exact hs.filled i (by simp only [elim_some]; omega)

variable (hinv : L.Inv D)

include hinv

/-- A file span: its source holds the bytes a reader sees. -/
theorem span_sourced (hn : offset + n ≤ L.size) (hpos : pos < n)
    (hbuf : L.writeBuffer[(spanAt offset n L.blockSize pos).blockIdx]? = none) (source)
    (hsrc : source = if L.isDirty (spanAt offset n L.blockSize pos).blockIdx then .cow else .base) :
    (∀ i, pos ≤ i → i < pos + (spanAt offset n L.blockSize pos).len →
      (fileOf D source).getD (offset + i) 0 = L.byteAt D (offset + i)) ∧
    offset + (pos + (spanAt offset n L.blockSize pos).len) ≤ (fileOf D source).length ∧
    (source = .cow → L.cowFd) := by
  have hbs := hinv.blockSize_pos
  have hle := spanAt_len_le offset L.blockSize hpos
  have hbyte : ∀ i, pos ≤ i → i < pos + (spanAt offset n L.blockSize pos).len →
      (offset + i) / L.blockSize = (spanAt offset n L.blockSize pos).blockIdx := by
    intro i hlo hhi
    have hlt : i - pos < (spanAt offset n L.blockSize pos).len := by omega
    have h := (spanAt_byte offset hbs hlt).1
    rwa [show offset + pos + (i - pos) = offset + i by omega] at h
  cases hd : L.isDirty (spanAt offset n L.blockSize pos).blockIdx with
  | true =>
    rw [hd, if_pos rfl] at hsrc
    subst hsrc
    obtain ⟨hfd, hcov⟩ := hinv.covered _ hd
    refine ⟨fun i hlo hhi => ?_, ?_, fun _ => hfd⟩
    · have hb := hbyte i hlo hhi
      exact (byteAt_of_dirty (by rw [hb]; exact hbuf) (by rw [hb]; exact hd)).symm
    · -- the span ends with its block, and the file covers the block
      have hblock := spanAt_block_le offset n pos hbs
      have hdm := Nat.div_add_mod (offset + pos) L.blockSize
      simp only [spanAt, fileOf] at hcov hblock ⊢
      rw [Nat.add_mul, Nat.mul_comm] at hcov
      omega
  | false =>
    rw [hd, if_neg (by simp)] at hsrc
    subst hsrc
    refine ⟨fun i hlo hhi => ?_, ?_, by simp⟩
    · have hb := hbyte i hlo hhi
      exact (byteAt_of_clean (by rw [hb]; exact hbuf) (by rw [hb]; exact hd)).symm
    · have := hinv.size_le
      simp only [fileOf]
      omega

/-- **The loop of `read`** fills the buffer with the bytes of the device. -/
theorem readSpans_spec (hn : offset + n ≤ L.size)
    (hspans : SpansFrom offset n L.blockSize pos spans) :
    ∀ (run : Option FileReadRun) (buf : Bytes), ReadState L D offset n pos run buf →
      ∃ out, L.readSpans D spans run buf = .ok out ∧ ReadState L D offset n n none out := by
  induction hspans with
  | done => intro run buf hs; exact hs.flush
  | @next pos spans hpos hrest ih =>
    intro run buf hs
    have hbs := hinv.blockSize_pos
    have hlen := spanAt_len_le offset L.blockSize hpos
    have hblock := spanAt_block_le offset n pos hbs
    generalize hspan : spanAt offset n L.blockSize pos = span at *
    have hoff : span.bufferOffset = pos := by rw [← hspan]; rfl
    have habs : span.absoluteOffset = offset + pos := by rw [← hspan]; rfl
    rw [readSpans]
    cases hbuf : L.writeBuffer[span.blockIdx]? with
    | some blockData =>
      obtain ⟨buf', hflush, hs'⟩ := hs.flush
      have hdata := (hinv.buffered _ _ hbuf).2
      have hlenb := hs'.length_buf
      simp only [hflush]
      rw [if_neg (by omega), if_neg (by omega)]
      refine ih none _ ⟨?_, hlen, ?_, by simp, by simp, by simp⟩
      · rw [length_splice (by rw [length_slice (by omega)]; omega), hlenb]
      · intro i hi
        simp only [elim_none] at hi
        rw [getD_splice (by omega), length_slice (by omega)]
        by_cases hlo : pos ≤ i
        · have hlt : i - pos < (spanAt offset n L.blockSize pos).len := by rw [hspan]; omega
          obtain ⟨hdiv, hmod⟩ := spanAt_byte offset hbs hlt
          rw [show offset + pos + (i - pos) = offset + i by omega, hspan] at hdiv hmod
          rw [if_pos (by omega), getD_slice (by omega),
            byteAt_of_buffered (by rw [hdiv]; exact hbuf), hmod, hoff]
        · rw [if_neg (by omega)]
          exact hs'.filled i (by simp only [elim_none]; omega)
    | none =>
      generalize hsource : (if L.isDirty span.blockIdx then FileReadSource.cow else .base) = source
      obtain ⟨hsrc, hcov, hfd⟩ := span_sourced hinv hn hpos (by rw [hspan]; exact hbuf)
        source (by rw [hspan]; exact hsource.symm)
      rw [hspan] at hsrc hcov
      -- a run opened at this span, the buffer being filled up to it
      have hopen : ∀ buf', ReadState L D offset n pos none buf' →
          ReadState L D offset n (pos + span.len) (some (.ofSpan source span)) buf' := by
        intro buf' hs'
        refine ⟨hs'.length_buf, hlen, ?_, ?_, ?_, ?_⟩
        · intro i hi
          simp only [ofSpan, hoff] at hi
          exact hs'.filled i (by simpa using hi)
        · rintro _ ⟨⟩
          simp only [ofSpan]
          omega
        · rintro _ ⟨⟩ i hlo hhi
          simp only [ofSpan, hoff] at hlo
          exact hsrc i hlo hhi
        · rintro _ ⟨⟩
          exact ⟨hcov, hfd⟩
      cases run with
      | none => exact ih _ _ (hopen buf hs)
      | some r =>
        simp only
        split
        · next hext =>
          simp only [canExtend, Bool.and_eq_true, decide_eq_true_eq]
            at hext
          obtain ⟨⟨hsame, -⟩, -⟩ := hext
          obtain ⟨hr1, hr2⟩ := hs.aligned r rfl
          refine ih _ _ ⟨hs.length_buf, hlen, ?_, ?_, ?_, ?_⟩
          · intro i hi
            exact hs.filled i (by simpa [extend] using hi)
          · rintro _ ⟨⟩
            simp only [extend]
            omega
          · rintro _ ⟨⟩ i hlo hhi
            simp only [extend] at hlo ⊢
            by_cases hold : i < pos
            · exact hs.sourced r rfl i hlo hold
            · rw [hsame]
              exact hsrc i (by omega) hhi
          · rintro _ ⟨⟩
            simp only [extend, hsame]
            exact ⟨hcov, hfd⟩
        · obtain ⟨buf', hflush, hs'⟩ := hs.flush
          simp only [hflush]
          exact ih _ _ (hopen buf' hs')

/-- **A read in bounds returns a slice of the flat array**, whatever the buffer
held before. -/
theorem read_eq (hn : offset + buf.length ≤ L.size) :
    L.read D offset buf = .ok (slice (L.contents D) offset buf.length) := by
  have hstart : ReadState L D offset buf.length 0 none buf :=
    ⟨rfl, Nat.zero_le _, fun i hi => absurd hi (Nat.not_lt_zero i), by simp, by simp, by simp⟩
  obtain ⟨out, hout, hs⟩ := readSpans_spec hinv hn (spansFrom_blockSpans _ _ hinv.blockSize_pos)
    none buf hstart
  unfold read
  rw [checkBounds_eq hinv, if_pos hn]
  simp only [hout, Except.ok.injEq]
  have hslice : (slice (L.contents D) offset buf.length).length = buf.length :=
    length_slice (by rw [length_contents]; exact hn)
  refine eq_of_getD 0 (by rw [hs.length_buf, hslice]) fun i hi => ?_
  rw [hs.length_buf] at hi
  rw [hs.filled i (by simpa using hi), getD_slice hi, getD_contents (by omega)]

theorem read_out_of_bounds (hn : L.size < offset + buf.length) :
    L.read D offset buf = .error (.outOfBounds offset buf.length L.size) := by
  unfold read
  rw [checkBounds_eq hinv, if_neg (by omega)]

/-! ### Writing -/

/-- Two layers that differ in their write buffers only. -/
def SameButBuffer (L L' : CowLayer) : Prop := L' = { L with writeBuffer := L'.writeBuffer }

/-- Reading a whole unbuffered block gives the bytes a reader sees there. -/
theorem readFullBlock_spec {k} (hk : k < L.dirty.len) (hbuf : L.writeBuffer[k]? = none) :
    ∃ data, L.readFullBlock D k = .ok data ∧ data.length = L.blockSize ∧
      ∀ j, j < L.blockSize → data.getD j 0 = L.byteAt D (k * L.blockSize + j) := by
  have hbs := hinv.blockSize_pos
  have hidx : ∀ j, j < L.blockSize → (k * L.blockSize + j) / L.blockSize = k := fun j hj => by
    rw [Nat.mul_comm, Nat.mul_add_div hbs, Nat.div_eq_of_lt hj, Nat.add_zero]
  unfold readFullBlock
  cases hd : L.isDirty k with
  | true =>
    obtain ⟨hfd, hcov⟩ := hinv.covered k hd
    have hlen : k * L.blockSize + L.blockSize ≤ (D.cow.getD []).length := by
      rw [Nat.add_mul, Nat.one_mul] at hcov; exact hcov
    refine ⟨_, ?_, length_slice hlen, fun j hj => ?_⟩
    · simp [hfd, readExactAt_of_le hlen]
    · rw [getD_slice hj, byteAt_of_dirty (by rw [hidx j hj]; exact hbuf)
        (by rw [hidx j hj]; exact hd)]
  | false =>
    have hlen : k * L.blockSize + L.blockSize ≤ D.base.bytes.length := by
      have hle := hinv.size_le
      have hmul := Nat.mul_le_mul_right L.blockSize (Nat.succ_le_of_lt hk)
      rw [hinv.size_eq] at hle
      rw [Nat.succ_mul] at hmul
      omega
    refine ⟨_, ?_, length_slice hlen, fun j hj => ?_⟩
    · simp [readExactAt_of_le hlen]
    · rw [getD_slice hj, byteAt_of_clean (by rw [hidx j hj]; exact hbuf)
        (by rw [hidx j hj]; exact hd)]

omit hinv in
theorem copyIntoBlock_spec {blockData}
    (hspan : span.blockOffset + span.len ≤ blockData.length) (hsrc : src.length = span.len) :
    ∃ out, copyIntoBlock span blockData src = .ok out ∧ out.length = blockData.length ∧
      ∀ j, out.getD j 0 = if span.blockOffset ≤ j ∧ j < span.blockOffset + span.len
        then src.getD (j - span.blockOffset) 0 else blockData.getD j 0 := by
  refine ⟨splice blockData span.blockOffset src, ?_, length_splice (by omega), fun j => ?_⟩
  · rw [copyIntoBlock, if_neg (by omega)]
  · rw [getD_splice (by omega), hsrc]

/-- The new data of a block: the source inside the span, and what a reader saw
before around it. -/
theorem writtenBlock_spec (hk : span.blockIdx < L.dirty.len)
    (hspan : span.blockOffset + span.len ≤ L.blockSize) (hsrc : src.length = span.len) :
    ∃ out, L.writtenBlock D span src = .ok out ∧ out.length = L.blockSize ∧ ∀ j, j < L.blockSize →
        out.getD j 0 = if span.blockOffset ≤ j ∧ j < span.blockOffset + span.len
        then src.getD (j - span.blockOffset) 0
          else L.byteAt D (span.blockIdx * L.blockSize + j) := by
  have hbs := hinv.blockSize_pos
  unfold writtenBlock
  cases hbuf : L.writeBuffer[span.blockIdx]? with
  | some blockData =>
    have hlen := (hinv.buffered _ _ hbuf).2
    obtain ⟨out, hout, hol, hget⟩ := copyIntoBlock_spec (hlen.symm ▸ hspan) hsrc
    refine ⟨out, hout, hol.trans hlen, fun j hj => ?_⟩
    have hdiv : (span.blockIdx * L.blockSize + j) / L.blockSize = span.blockIdx := by
      rw [Nat.mul_comm, Nat.mul_add_div hbs, Nat.div_eq_of_lt hj, Nat.add_zero]
    rw [hget j, byteAt_of_buffered (by rw [hdiv]; exact hbuf), Nat.mul_comm, Nat.mul_add_mod,
      Nat.mod_eq_of_lt hj]
  | none =>
    simp only
    split
    · next hfull =>
      -- a full block is replaced without being read
      simp only [BlockSpan.isFullBlock, Bool.and_eq_true, beq_iff_eq] at hfull
      refine ⟨src, rfl, by omega, fun j hj => ?_⟩
      rw [if_pos (by omega), hfull.1, Nat.sub_zero]
    · obtain ⟨blockData, hread, hlen, hbyte⟩ := readFullBlock_spec hinv hk hbuf
      obtain ⟨out, hout, hol, hget⟩ := copyIntoBlock_spec (hlen.symm ▸ hspan) hsrc
      simp only [hread]
      exact ⟨out, hout, hol.trans hlen, fun j hj => by rw [hget j, hbyte j hj]⟩

omit hinv in
theorem byteAt_bufferBlock (L : CowLayer) (D : Disk) (k : ℕ) (data : Bytes) (i : ℕ) :
    (L.bufferBlock k data).byteAt D i
      = if i / L.blockSize = k then data.getD (i % L.blockSize) 0 else L.byteAt D i := by
  simp only [byteAt, bufferBlock, Std.TreeMap.getElem?_insert, Nat.compare_eq_eq]
  by_cases h : i / L.blockSize = k
  · rw [if_pos h.symm, if_pos h]
  · rw [if_neg fun h' => h h'.symm, if_neg h]
    rfl

theorem Inv.bufferBlock {k} (hk : k < L.dirty.len)
    (hdata : data.length = L.blockSize) : (L.bufferBlock k data).Inv D where
  __ := hinv
  buffered k' data' h := by
    simp only [CowLayer.bufferBlock, Std.TreeMap.getElem?_insert, Nat.compare_eq_eq] at h
    split at h
    · next hkk => exact ⟨hkk ▸ hk, Option.some.inj h ▸ hdata⟩
    · exact hinv.buffered k' data' h
  used h := ⟨(hinv.used h).1, .inl (by simp [CowLayer.bufferBlock])⟩

/-- **One span of `write`** overwrites its range. -/
theorem writeSpan_spec (hspan : span = spanAt offset data.length L.blockSize pos)
    (hpos : pos < data.length) (hn : offset + data.length ≤ L.size) :
    ∃ out, L.writtenBlock D span (slice data span.bufferOffset span.len) = .ok out ∧
      (L.bufferBlock span.blockIdx out).Inv D ∧ span.bufferOffset + span.len ≤ data.length ∧
      ∀ i, (L.bufferBlock span.blockIdx out).byteAt D i =
        if offset + pos ≤ i ∧ i < offset + (pos + span.len)
        then data.getD (i - offset) 0 else L.byteAt D i := by
  have hbs := hinv.blockSize_pos
  have hlen := spanAt_len_le offset L.blockSize hpos
  have hblock := spanAt_block_le offset data.length pos hbs
  have hin : ∀ i, i < (spanAt offset data.length L.blockSize pos).len → _ :=
    fun i hi => spanAt_byte offset hbs hi
  have hdm := Nat.div_add_mod (offset + pos) L.blockSize
  rw [← hspan] at hlen hblock hin
  have hoff : span.bufferOffset = pos := hspan ▸ rfl
  have hidx : span.blockIdx = (offset + pos) / L.blockSize := hspan ▸ rfl
  have hbo : span.blockOffset = (offset + pos) % L.blockSize := hspan ▸ rfl
  have hk : span.blockIdx < L.dirty.len := by
    rw [hidx, Nat.div_lt_iff_lt_mul hbs, ← hinv.size_eq]
    omega
  have hsrc : (slice data span.bufferOffset span.len).length = span.len :=
    length_slice (by omega)
  obtain ⟨out, hout, hol, hget⟩ := writtenBlock_spec hinv hk hblock hsrc
  refine ⟨out, hout, hinv.bufferBlock hk hol, by omega, fun i => ?_⟩
  rw [byteAt_bufferBlock]
  by_cases hblk : i / L.blockSize = span.blockIdx
  · -- a byte of this block: inside the span it is new, around it as before
    have hdmi := Nat.div_add_mod i L.blockSize
    have hmod := Nat.mod_lt i hbs
    rw [hblk, hidx] at hdmi
    rw [if_pos hblk, hget _ hmod]
    by_cases hin : offset + pos ≤ i ∧ i < offset + (pos + span.len)
    · rw [if_pos (by omega), if_pos (by omega), getD_slice (by omega)]
      congr 1
      omega
    · rw [if_neg (by omega), if_neg (by omega)]
      congr 1
      rw [hidx, Nat.mul_comm]
      omega
  · rw [if_neg hblk, if_neg]
    rintro ⟨hlo, hhi⟩
    have hdiv := (hin (i - (offset + pos)) (by omega)).1
    rw [show offset + pos + (i - (offset + pos)) = i by omega] at hdiv
    exact hblk hdiv

omit hinv in
/-- **The loop of `write`** succeeds and overwrites the rest of the range. -/
theorem writeSpans_spec {bs} (hspans : SpansFrom offset data.length bs pos spans) :
    ∀ L : CowLayer, L.Inv D → L.blockSize = bs → offset + data.length ≤ L.size →
      ∃ L', writeSpans D data spans L = (L', .ok ()) ∧ L'.Inv D ∧ SameButBuffer L L' ∧
        ∀ i, L'.byteAt D i = if offset + pos ≤ i ∧ i < offset + data.length
          then data.getD (i - offset) 0 else L.byteAt D i := by
  induction hspans with
  | done =>
    intro L hinv _ _
    exact ⟨L, rfl, hinv, rfl, fun i => by rw [if_neg (by omega)]⟩
  | @next pos spans hpos hrest ih =>
    rintro L hinv rfl hn
    obtain ⟨out, hout, hnext, hlen, hspan⟩ := writeSpan_spec hinv rfl hpos hn
    obtain ⟨L', hw, hinv', hsame, hbyte⟩ := ih _ hnext rfl hn
    refine ⟨L', ?_, hinv', hsame, fun i => ?_⟩
    · rw [writeSpans, if_neg (not_lt.mpr hlen), hout]
      exact hw
    · have hle : pos + _ ≤ data.length := hlen
      rw [hbyte i, hspan i]
      split_ifs <;> first | rfl | omega

/-- **A write in bounds succeeds and overwrites a slice of the flat array.** -/
theorem write_spec (hn : offset + data.length ≤ L.size) :
    ∃ L' needsFlush, L.write D offset data = (L', .ok needsFlush) ∧ L'.Inv D ∧
      SameButBuffer L L' ∧ L'.contents D = splice (L.contents D) offset data := by
  obtain ⟨L', hw, hinv', hsame, hbyte⟩ := writeSpans_spec
    (spansFrom_blockSpans offset data.length hinv.blockSize_pos) L hinv rfl hn
  have hsize : L'.size = L.size := by rw [hsame]
  refine ⟨L', decide (L'.flushThreshold ≤ L'.bufferBytes), ?_, hinv', hsame, ?_⟩
  · rw [write, checkBounds_eq hinv, if_pos hn]
    simp only [hw]
  · have hlen : (splice (L.contents D) offset data).length = L.size := by
      rw [length_splice (by rw [length_contents]; exact hn), length_contents]
    refine eq_of_getD 0 (by rw [length_contents, hlen, hsize]) fun i hi => ?_
    rw [length_contents] at hi
    rw [getD_contents hi, hbyte i, getD_splice (by rw [length_contents]; omega),
      getD_contents (hsize ▸ hi)]
    rfl

theorem write_out_of_bounds (hn : L.size < offset + data.length) :
    L.write D offset data = (L, .error (.outOfBounds offset data.length L.size)) := by
  rw [write, checkBounds_eq hinv, if_neg (by omega)]

end CowLayer

end Okou.Nbd
