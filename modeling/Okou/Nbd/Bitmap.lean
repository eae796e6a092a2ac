import Okou.Nbd.File

/-!
# The dirty bitmap and its sidecar file

`cow/bitmap.rs`: one bit per block, kept as 64-bit words, saved next to the COW
file as an 8-byte block count followed by the words, all little-endian.  Both
directions work in chunks of 64 KiB.
-/

namespace Okou.Nbd

open List List

/-! ### The bit vector -/

variable (n : ℕ)

/-- The number of 64-bit words that hold `n` bits. -/
def wordsFor (n : ℕ) : ℕ := (n + 63) / 64

/-- A bit vector over 64-bit words, least significant bit first.  Bits past
`len` in the last word are dead: they are stored and saved, never read. -/
structure DirtyBits where
  len : ℕ
  words : List (BitVec 64)
  length_words : words.length = wordsFor len
  deriving DecidableEq

namespace DirtyBits

/-- `bitvec![0; n]`. -/
def zeros (n : ℕ) : DirtyBits := ⟨n, List.replicate (wordsFor n) 0, length_replicate⟩

/-- `BitVec::from_vec`: every bit of the words. -/
def ofVec (words : List (BitVec 64)) : DirtyBits :=
  ⟨64 * words.length, words, by unfold wordsFor; omega⟩

variable (d : DirtyBits)

/-- `truncate`: keep the first `n` bits, and the words that hold them. -/
def truncate (d : DirtyBits) (n : ℕ) : DirtyBits :=
  ⟨min n d.len, d.words.take (wordsFor (min n d.len)), by
    rw [length_take, d.length_words]
    unfold wordsFor
    omega⟩

/-- The bit at `i`, which is clear past the end: `get(i)…unwrap_or(false)`. -/
def bit (d : DirtyBits) (i : ℕ) : Bool :=
  decide (i < d.len) && (d.words.getD (i / 64) 0).getLsbD (i % 64)

/-- Set the bit at `i`, if there is one. -/
def set (d : DirtyBits) (i : ℕ) : DirtyBits :=
  if i < d.len then
    ⟨d.len, d.words.set (i / 64) (d.words.getD (i / 64) 0 ||| BitVec.twoPow 64 (i % 64)),
      by rw [length_set, d.length_words]⟩
  else d

def countOnes (d : DirtyBits) : ℕ := (List.range d.len).countP d.bit

/-- `last_one`: the largest set position. -/
def lastOne (d : DirtyBits) : Option ℕ := ((List.range d.len).filter d.bit).getLast?

@[simp] theorem len_zeros : (zeros n).len = n := rfl

@[simp] theorem len_set (i : ℕ) : (d.set i).len = d.len := by
  unfold set
  split <;> rfl

@[simp] theorem bit_zeros (i : ℕ) : (zeros n).bit i = false := by
  have h : (replicate (wordsFor n) (0 : BitVec 64)).getD (i / 64) 0 = 0 := by
    rw [getD_eq_getElem?_getD, getElem?_replicate]
    split <;> rfl
  rw [bit, zeros, h]
  simp

theorem truncate_ofVec_words : (ofVec d.words).truncate d.len = d := by
  obtain ⟨len, words, hwords⟩ := d
  have hlen : min len (64 * words.length) = len := by
    rw [hwords, wordsFor]
    omega
  simp only [truncate, ofVec, hlen, DirtyBits.mk.injEq, true_and]
  rw [← hwords, take_length]

variable {i : ℕ} {d}

theorem lt_len_of_bit (h : d.bit i) : i < d.len := by
  simp only [bit, Bool.and_eq_true, decide_eq_true_eq] at h
  exact h.1

/-- **Setting a bit sets that bit and no other.** -/
theorem bit_set (hi : i < d.len) (j : ℕ) : (d.set i).bit j = (decide (j = i) || d.bit j) := by
  have hw : i / 64 < d.words.length := by
    rw [d.length_words, wordsFor]
    omega
  unfold set
  rw [if_pos hi]
  simp only [bit]
  by_cases hij : j = i
  · subst hij
    simp only [getD_eq_getElem?_getD, getElem?_set_self hw, hi]
    simp [Nat.mod_lt]
  · by_cases hword : i / 64 = j / 64
    · have hbit : ¬ i % 64 = j % 64 := by omega
      simp only [← hword, getD_eq_getElem?_getD, getElem?_set_self hw, Option.getD_some,
        BitVec.getLsbD_or, BitVec.getLsbD_twoPow, hij, hbit]
      simp
    · simp only [getD_eq_getElem?_getD, getElem?_set_ne hword, hij]
      simp

theorem countOnes_pos_iff (d : DirtyBits) : 0 < d.countOnes ↔ ∃ i, d.bit i := by
  unfold countOnes
  rw [countP_pos_iff]
  constructor
  · rintro ⟨i, -, hi⟩; exact ⟨i, hi⟩
  · rintro ⟨i, hi⟩; exact ⟨i, mem_range.mpr (lt_len_of_bit hi), hi⟩

theorem bit_of_lastOne (h : d.lastOne = some i) : d.bit i :=
  (mem_filter.mp (mem_of_getLast? h)).2

/-- The last set bit is the last. -/
theorem le_lastOne {j} (hj : d.bit j) : ∃ i, d.lastOne = some i ∧ j ≤ i := by
  have hmem : j ∈ (range d.len).filter d.bit :=
    mem_filter.mpr ⟨mem_range.mpr (lt_len_of_bit hj), hj⟩
  have hsort : ((range d.len).filter d.bit).Pairwise (· < ·) :=
    pairwise_lt_range.filter _
  unfold lastOne
  generalize (range d.len).filter d.bit = l at hmem hsort
  have hne : l ≠ [] := ne_nil_of_mem hmem
  refine ⟨l.getLast hne, getLast?_eq_some_getLast hne, ?_⟩
  rw [← dropLast_concat_getLast hne] at hmem hsort
  rcases mem_append.mp hmem with h | h
  · exact ((pairwise_append.mp hsort).2.2 j h _ mem_cons_self).le
  · rw [mem_singleton.mp h]

end DirtyBits

/-! ### The files behind a layer -/

/-- A base image: a file, so no longer than the largest `off_t`. -/
structure BaseImage where
  bytes : Bytes
  length_le : bytes.length ≤ offTMax

/-- The files a COW layer lives on: the read-only base image, the sparse COW
file and the bitmap sidecar with its temporary sibling, where they exist. -/
structure Disk where
  base : BaseImage
  cow : Option Bytes
  bitmap : Option Bytes
  bitmapTmp : Option Bytes

/-! ### Serialisation -/

/-- The 64-bit words a byte string holds; a shorter last group is dropped, as by
`as_chunks`. -/
def leWords : Bytes → List (BitVec 64)
  | b₀ :: b₁ :: b₂ :: b₃ :: b₄ :: b₅ :: b₆ :: b₇ :: rest =>
    BitVec.ofNat 64 (leNat [b₀, b₁, b₂, b₃, b₄, b₅, b₆, b₇]) :: leWords rest
  | _ => []

variable (ws : List (BitVec 64)) {n}

/-- The bytes of a list of words. -/
def wordBytes (ws : List (BitVec 64)) : Bytes := ws.flatMap fun w => leBytes 8 w.toNat

/-- `BITMAP_CHUNK_BYTES / 8`. -/
def bitmapWordsPerChunk : ℕ := 64 * 1024 / 8

theorem wordBytes_append (us vs) :
    wordBytes (us ++ vs) = wordBytes us ++ wordBytes vs := flatMap_append

theorem length_wordBytes : (wordBytes ws).length = 8 * ws.length := by
  simp [wordBytes, map_const', Nat.mul_comm]

variable {l file : Bytes} {d : DirtyBits} {io : ℕ → Option IoError}

/-- Every list of eight bytes is spelled out. -/
private theorem exists_eight (h : l.length = 8) : ∃ b₀ b₁ b₂ b₃ b₄ b₅ b₆ b₇,
    l = [b₀, b₁, b₂, b₃, b₄, b₅, b₆, b₇] := by
  match l, h with
  | [b₀, b₁, b₂, b₃, b₄, b₅, b₆, b₇], _ => exact ⟨b₀, b₁, b₂, b₃, b₄, b₅, b₆, b₇, rfl⟩

theorem leWords_append_eight (h : l.length = 8) (r : Bytes) :
    leWords (l ++ r) = BitVec.ofNat 64 (leNat l) :: leWords r := by
  obtain ⟨b₀, b₁, b₂, b₃, b₄, b₅, b₆, b₇, rfl⟩ := exists_eight h
  rfl

theorem leWords_append (h : l.length = 8 * n) (r : Bytes) : leWords (l ++ r) = leWords l ++
    leWords r := by
  induction n generalizing l with
  | zero => rw [length_eq_zero_iff.mp h]; rfl
  | succ n ih =>
    have htake : (l.take 8).length = 8 := by rw [length_take]; omega
    rw [← take_append_drop 8 l, append_assoc, leWords_append_eight htake,
      leWords_append_eight htake, ih (by rw [length_drop]; omega), cons_append]

theorem length_leWords (h : l.length = 8 * n) : (leWords l).length = n := by
  induction n generalizing l with
  | zero => rw [length_eq_zero_iff.mp h]; rfl
  | succ n ih =>
    have htake : (l.take 8).length = 8 := by rw [length_take]; omega
    rw [← take_append_drop 8 l, leWords_append_eight htake, length_cons,
      ih (by rw [length_drop]; omega)]

theorem leWords_wordBytes : leWords (wordBytes ws) = ws := by
  induction ws with
  | nil => rfl
  | cons w ws ih =>
    rw [wordBytes, flatMap_cons, leWords_append_eight (length_leBytes _ _)]
    rw [wordBytes] at ih
    rw [ih, leNat_leBytes_of_lt w.isLt, BitVec.ofNat_toNat, BitVec.setWidth_eq]

/-- The contents of the sidecar of `d`. -/
def bitmapBytes (d : DirtyBits) : Bytes := leBytes 8 d.len ++ wordBytes d.words

/-! ### Saving -/

/-- The outcome of each file-system operation of one save.  `writeAll k` is the
`k`-th `write_all` on the temporary file, the header being the first. -/
structure SaveIo where
  hasParent : Bool := true
  openDir : Option IoError := none
  removeTmp : Option IoError := none
  openTmp : Option IoError := none
  writeAll : ℕ → Option IoError := fun _ => none
  syncTmp : Option IoError := none
  rename : Option IoError := none
  syncDir : Option IoError := none

/-- The loop of `write_bitmap_words`: append each chunk in one `write_all`. -/
def writeChunks (io : ℕ → Option IoError) : ℕ → List (List (BitVec 64)) → Bytes →
    Bytes × Except IoError Unit
  | _, [], file => (file, .ok ())
  | k, ws :: wss, file =>
    match io k with
    | some e => (file, .error e)
    | none => writeChunks io (k + 1) wss (file ++ wordBytes ws)

/-- The words, as many at a time as `raw.chunks` has them. -/
def writeBitmapWords (io : ℕ → Option IoError) (raw : List (BitVec 64)) (file : Bytes) :
    Bytes × Except IoError Unit :=
  if raw = [] then (file, .ok ())
  else writeChunks io 1 (chunksOf (min raw.length bitmapWordsPerChunk) raw) file

/-- The temporary file: header, words and `fsync`. -/
def writeBitmapTmp (d : DirtyBits) (io : SaveIo) : Except IoError Bytes :=
  match io.openTmp with
  | some e => .error e
  | none =>
    match io.writeAll 0 with
    | some e => .error e
    | none =>
      match writeBitmapWords io.writeAll d.words (leBytes 8 d.len) with
      | (_, .error e) => .error e
      | (file, .ok ()) =>
        match io.syncTmp with
        | some e => .error e
        | none => .ok file

/-- `save_bitmap_with_io`: write the temporary file, rename it over the sidecar
and `fsync` the directory. -/
def saveBitmap (d : DirtyBits) (D : Disk) (io : SaveIo) : Disk × Except NbdCowError Unit :=
  if !io.hasParent then (D, .error (ioOther "bitmap path has no parent directory"))
  else
    match io.openDir with
    | some e => (D, .error (.io e))
    | none =>
      -- a missing temporary file is not an error, whatever the removal reports
      match D.bitmapTmp.bind fun _ => io.removeTmp with
      | some e => (D, .error (.io e))
      | none =>
        match writeBitmapTmp d io with
        | .error e => ({ D with bitmapTmp := none }, .error (.io e))
        | .ok file =>
          match io.rename with
          | some e => ({ D with bitmapTmp := none }, .error (.io e))
          | none =>
            ({ D with bitmap := some file, bitmapTmp := none }, match io.syncDir with
              | some e => .error (.io e)
              | none => .ok ())

theorem writeChunks_ok {wss} {k} {g}
    (h : writeChunks io k wss file = (g, .ok ())) : g = file ++ wordBytes wss.flatten := by
  induction wss generalizing k file with
  | nil =>
    simp only [writeChunks, Prod.mk.injEq, and_true] at h
    rw [← h, flatten_nil, wordBytes, flatMap_nil, append_nil]
  | cons ws wss ih =>
    simp only [writeChunks] at h
    split at h
    · simp at h
    · rw [ih h, flatten_cons, wordBytes_append, append_assoc]

theorem writeBitmapWords_ok {raw} {g}
    (h : writeBitmapWords io raw file = (g, .ok ())) : g = file ++ wordBytes raw := by
  unfold writeBitmapWords at h
  split at h
  · next hraw =>
    simp only [Prod.mk.injEq, and_true] at h
    rw [← h, hraw, wordBytes, flatMap_nil, append_nil]
  · next hraw =>
    have hpos : 0 < min raw.length bitmapWordsPerChunk := by
      have := length_pos_iff.mpr hraw
      have : 0 < bitmapWordsPerChunk := by decide
      omega
    rw [writeChunks_ok h, flatten_chunksOf hpos]

theorem writeBitmapTmp_ok {io} (h : writeBitmapTmp d io = .ok file) : file = bitmapBytes d := by
  unfold writeBitmapTmp at h
  split at h
  · simp at h
  · split at h
    · simp at h
    · split at h
      · simp at h
      · next hw =>
        split at h
        · simp at h
        · rw [← Except.ok.inj h]
          exact writeBitmapWords_ok hw

/-- **A successful save leaves exactly the serialised bits in the sidecar**, and
touches neither the base image nor the COW file. -/
theorem saveBitmap_ok {D D'} {io} (h : saveBitmap d D io = (D', .ok ())) :
    D' = { D with bitmap := some (bitmapBytes d), bitmapTmp := none } := by
  unfold saveBitmap at h
  split at h
  · simp at h
  · split at h
    · simp at h
    · split at h
      · simp at h
      · split at h
        · simp at h
        · next hfile =>
          split at h
          · simp at h
          · rw [writeBitmapTmp_ok hfile] at h
            exact (Prod.mk.inj h).1.symm

/-! ### Loading -/

/-- The loop of `load_bitmap` over the chunk starts, the file cursor standing
behind the words read so far. -/
def loadWords (file : Bytes) (expectedWords : ℕ) : ℕ → ℕ → List (BitVec 64) →
    Except NbdCowError (List (BitVec 64))
  | 0, _, words => .ok words
  | fuel + 1, start, words =>
    if start < expectedWords then
      let wordsInChunk := min (expectedWords - start) bitmapWordsPerChunk
      match readExactAt file (8 + 8 * start) (wordsInChunk * 8) with
      | none => .error (.io ⟨.unexpectedEof, "failed to fill whole buffer"⟩)
      | some chunk =>
        loadWords file expectedWords fuel (start + bitmapWordsPerChunk) (words ++ leWords chunk)
    else .ok words

theorem loadWords_eq {expectedWords fuel start} (hlen : 8 + 8 * expectedWords ≤ file.length)
    (h : expectedWords - start ≤ fuel) (words) : loadWords file expectedWords fuel start words
        = .ok (words ++ leWords (slice file (8 + 8 * start) (8 * (expectedWords - start)))) := by
  induction fuel generalizing start words with
  | zero =>
    rw [loadWords, Nat.le_zero.mp h, Nat.mul_zero, slice_zero, leWords]
    · rw [append_nil]
    · simp
  | succ fuel ih =>
    rw [loadWords]
    split
    · next hstart =>
      have hchunk : 0 < bitmapWordsPerChunk := by decide
      simp only
      generalize hm : min (expectedWords - start) bitmapWordsPerChunk = m
      -- the words of this chunk, and those the rest of the loop reads
      have hsplit : slice file (8 + 8 * start) (8 * (expectedWords - start)) =
        slice file (8 + 8 * start) (m * 8)
            ++ slice file (8 + 8 * (start + bitmapWordsPerChunk))
              (8 * (expectedWords - (start + bitmapWordsPerChunk))) := by
        rw [show 8 * (expectedWords - start) = m * 8 +
          8 * (expectedWords - start - m) by omega, slice_add]
        rcases Nat.le_total (expectedWords - start) bitmapWordsPerChunk with hle | hle
        · rw [show 8 * (expectedWords - start - m) = 0 by omega,
            show 8 * (expectedWords - (start + bitmapWordsPerChunk)) = 0 by omega, slice_zero,
            slice_zero]
        · rw [show 8 + 8 * start + m * 8 = 8 + 8 * (start + bitmapWordsPerChunk) by omega,
            show expectedWords - start - m = expectedWords - (start + bitmapWordsPerChunk) by omega]
      rw [readExactAt_of_le (by omega)]
      simp only
      rw [ih (by omega), append_assoc, hsplit,
        leWords_append (n := m) (by rw [length_slice (by omega)]; omega)]
    · next hstart =>
      rw [show expectedWords - start = 0 by omega, Nat.mul_zero, slice_zero, leWords]
      · rw [append_nil]
      · simp

open DirtyBits

/-- `load_bitmap` on the bytes of a sidecar. -/
def loadBitmap (file : Bytes) (expectedBlocks : ℕ) : Except NbdCowError DirtyBits :=
  if file.length < 8 then .error (ioOther "bitmap file too short for header")
  else
    let numBlocks := leNat (slice file 0 8)
    if numBlocks ≠ expectedBlocks then
      .error (ioOther s!"bitmap block count mismatch: file has {numBlocks}, expected {expectedBlocks}")
    else
      let expectedWords := wordsFor numBlocks
      let expectedDataLen := expectedWords * 8
      let bitmapDataLen := file.length - 8
      if bitmapDataLen < expectedDataLen then
        .error (ioOther s!"bitmap data truncated: got {bitmapDataLen} bytes, expected {expectedDataLen}")
      else
        match loadWords file expectedWords expectedWords 0 [] with
        | .error e => .error e
        | .ok words => .ok ((DirtyBits.ofVec words).truncate numBlocks)

theorem loadBitmap_eq_ok : loadBitmap file n = .ok d ↔
    8 ≤ file.length ∧ leNat (slice file 0 8) = n ∧ 8 + 8 * wordsFor n ≤ file.length ∧
      (ofVec (leWords (slice file 8 (8 * wordsFor n)))).truncate n = d := by
  simp only [loadBitmap]
  split
  · simp only [reduceCtorEq, false_iff]
    omega
  · split
    · next hn => simp [hn]
    · next hlen hn =>
      rw [not_not] at hn
      rw [hn]
      split
      · simp only [reduceCtorEq, false_iff]
        omega
      · rw [loadWords_eq (by omega) (by omega), nil_append, Nat.mul_zero, Nat.add_zero,
          Nat.sub_zero, Except.ok.injEq]
        refine ⟨fun hd => ⟨by omega, rfl, by omega, hd⟩, fun h => h.2.2.2⟩

/-- **Loading what was saved returns the same bits.** -/
theorem loadBitmap_bitmapBytes (d) (hlen : d.len < 2 ^ 64) :
    loadBitmap (bitmapBytes d) d.len = .ok d := by
  have hfile : (bitmapBytes d).length = 8 + 8 * wordsFor d.len := by
    rw [bitmapBytes, length_append, length_leBytes, length_wordBytes, d.length_words]
  refine loadBitmap_eq_ok.mpr ⟨by omega, ?_, hfile.ge, ?_⟩
  · rw [slice, drop_zero, bitmapBytes, take_left' (length_leBytes 8 d.len),
      leNat_leBytes_of_lt (lt_of_lt_of_eq hlen (by norm_num))]
  · have hwords : (wordBytes d.words).length ≤
      8 * wordsFor d.len := by rw [length_wordBytes, d.length_words]
    rw [slice, bitmapBytes, drop_left' (length_leBytes 8 d.len), take_of_length_le hwords,
      leWords_wordBytes, truncate_ofVec_words]

theorem len_of_loadBitmap (h : loadBitmap file n = .ok d) : d.len = n := by
  obtain ⟨_, _, hlong, rfl⟩ := loadBitmap_eq_ok.mp h
  have hlen : (slice file 8 (8 * wordsFor n)).length = 8 * wordsFor n := length_slice hlong
  simp only [truncate, ofVec, length_leWords hlen]
  unfold wordsFor
  omega

/-- The words of a byte string are its groups of eight bytes. -/
theorem getD_leWords {k} (h : 8 * (k + 1) ≤ l.length) :
    (leWords l).getD k 0 = BitVec.ofNat 64 (leNat (slice l (8 * k) 8)) := by
  induction k generalizing l
  all_goals
    have htake : (l.take 8).length = 8 := by rw [length_take]; omega
    conv_lhs => rw [← take_append_drop 8 l, leWords_append_eight htake]
  case zero => rfl
  case succ k ih =>
    rw [getD_cons_succ, ih (by rw [length_drop]; omega), slice, drop_drop, ← slice,
      show 8 + 8 * k = 8 * (k + 1) by omega]

/-- **The bits of a loaded bitmap** are those of the words behind the header. -/
theorem bit_of_loadBitmap (h : loadBitmap file n = .ok d) {i} (hi : i < n) :
    d.bit i = (leNat (slice file (8 + 8 * (i / 64)) 8)).testBit (i % 64) := by
  have hlen := len_of_loadBitmap h
  obtain ⟨_, _, hlong, rfl⟩ := loadBitmap_eq_ok.mp h
  have hword : i / 64 < wordsFor n := by
    unfold wordsFor
    omega
  have hslice : (slice file 8 (8 * wordsFor n)).length = 8 * wordsFor n := length_slice hlong
  have hinner : slice (slice file 8 (8 * wordsFor n)) (8 * (i / 64)) 8 =
    slice file (8 + 8 * (i / 64)) 8 := by
    simp only [slice, drop_take, drop_drop, take_take]
    congr 1
    omega
  simp only [DirtyBits.bit, hlen, hi, decide_true, Bool.true_and]
  have hmin : min n (64 * (leWords (slice file 8 (8 * wordsFor n))).length) = n := hlen
  simp only [truncate, ofVec, hmin]
  rw [getD_eq_getElem?_getD, getElem?_take_of_lt hword, ← getD_eq_getElem?_getD,
    getD_leWords (by omega), hinner,
    BitVec.getLsbD_ofNat, decide_eq_true (Nat.mod_lt i (by decide)), Bool.true_and]

/-! ### Coverage -/

def validateDirtyCowCoverage (d : DirtyBits) (cowFileLen blockSize : ℕ) : Except NbdCowError Unit :=
  match d.lastOne with
  | none => .ok ()
  | some lastDirtyBlock =>
    if 2 ^ 64 ≤ lastDirtyBlock + 1 then
      .error (ioOther "dirty bitmap block index overflowed file length check")
    else
      let requiredLen := (lastDirtyBlock + 1) * blockSize
      if 2 ^ 64 ≤ requiredLen then .error (ioOther "dirty bitmap required COW length overflowed")
      else if cowFileLen < requiredLen then
        .error (ioOther s!"dirty bitmap references COW data requiring at least {requiredLen} bytes, but COW file is {cowFileLen} bytes")
      else .ok ()

theorem validateDirtyCowCoverage_ok {cowFileLen blockSize} (hlen : d.len * blockSize < 2 ^ 64)
    (hblock : 0 < blockSize) (hcov : ∀ i, d.bit i → (i + 1) * blockSize ≤ cowFileLen) :
    validateDirtyCowCoverage d cowFileLen blockSize = .ok () := by
  unfold validateDirtyCowCoverage
  split
  · rfl
  · next i hi =>
    have hbit := bit_of_lastOne hi
    have hilt : (i + 1) * blockSize ≤ d.len * blockSize :=
      Nat.mul_le_mul_right _ (lt_len_of_bit hbit)
    have hle : i + 1 ≤ (i + 1) * blockSize := Nat.le_mul_of_pos_right _ hblock
    have := hcov i hbit
    rw [if_neg (by omega), if_neg (by omega), if_neg (by omega)]

/-- An accepted COW file reaches every dirty block. -/
theorem covered_of_validate {cowFileLen blockSize}
    (h : validateDirtyCowCoverage d cowFileLen blockSize = .ok ())
    {i} (hi : d.bit i) : (i + 1) * blockSize ≤ cowFileLen := by
  obtain ⟨last, hlast, hle⟩ := le_lastOne hi
  unfold validateDirtyCowCoverage at h
  rw [hlast] at h
  simp only at h
  split at h
  · simp at h
  · split at h
    · simp at h
    · split at h
      · simp at h
      · next hlen =>
        exact (Nat.mul_le_mul_right blockSize (Nat.succ_le_succ hle)).trans (not_lt.mp hlen)

/-- **The files of the dirty bitmap.** What was saved is loaded again; what is loaded is a header
with the count and the words behind it; and a COW file that passes reaches to the end of every dirty
block. -/
theorem bitmapFile_faithful :
    (∀ (d : DirtyBits) (D D' : Disk) (io : SaveIo), d.len < 2 ^ 64 →
      saveBitmap d D io = (D', .ok ()) →
      ∃ file, D'.bitmap = some file ∧ loadBitmap file d.len = .ok d) ∧
    (∀ (file : Bytes) (n : ℕ), (∃ d, loadBitmap file n = .ok d) ↔
      8 ≤ file.length ∧ leNat (slice file 0 8) = n ∧ 8 + 8 * ((n + 63) / 64) ≤ file.length) ∧
    (∀ (file : Bytes) (n : ℕ) (d : DirtyBits), loadBitmap file n = .ok d → d.len = n ∧
      ∀ i < n, d.bit i = (leNat (slice file (8 + 8 * (i / 64)) 8)).testBit (i % 64)) ∧
    ∀ (d : DirtyBits) (cowFileLen blockSize : ℕ),
      validateDirtyCowCoverage d cowFileLen blockSize = .ok () →
      ∀ i, d.bit i = true → (i + 1) * blockSize ≤ cowFileLen := by
  refine ⟨fun d D D' io hlen hsave => ?_, fun file n => ?_, fun file n d h => ?_,
    fun d _ _ h i hi => ?_⟩
  · exact ⟨bitmapBytes d, by rw [saveBitmap_ok hsave], loadBitmap_bitmapBytes d hlen⟩
  · constructor
    · rintro ⟨d, hd⟩
      obtain ⟨hshort, hcount, hlong, -⟩ := loadBitmap_eq_ok.mp hd
      exact ⟨hshort, hcount, hlong⟩
    · rintro ⟨hshort, hcount, hlong⟩
      exact ⟨_, loadBitmap_eq_ok.mpr ⟨hshort, hcount, hlong, rfl⟩⟩
  · exact ⟨len_of_loadBitmap h, fun i hi => bit_of_loadBitmap h hi⟩
  · exact covered_of_validate h hi

end Okou.Nbd
