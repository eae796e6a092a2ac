import Okou.Nbd.Bitmap

/-!
# The copy-on-write layer

`cow.rs`: reads are served from the write buffer, then from dirty blocks of the
COW file, then from the base image.  Writes collect in the buffer, which a flush
drains into the sparse COW file in batches of adjacent blocks.

A layer is a value of `CowLayer` next to the `Disk` it lives on.  An operation
that performs positioned writes takes the outcomes of those writes, so that it
is an ordinary function of the state and of what the kernel did.
-/

namespace Okou.Nbd

/-! ### Cutting a byte range into blocks -/

/-- `BlockSpan`: the part of one block that a byte range covers. -/
structure BlockSpan where
  blockIdx : ℕ
  absoluteOffset : ℕ
  blockOffset : ℕ
  bufferOffset : ℕ
  len : ℕ
  deriving DecidableEq, Repr

def BlockSpan.isFullBlock (s : BlockSpan) (blockSize : ℕ) : Bool :=
  s.blockOffset == 0 && s.len == blockSize

/-- `BlockSpans`: the iterator over the spans of a byte range. -/
structure BlockSpans where
  offset : ℕ
  len : ℕ
  blockSize : ℕ
  pos : ℕ

def BlockSpans.next (it : BlockSpans) : Option (BlockSpan × BlockSpans) :=
  if it.len ≤ it.pos then none
  else
    let absoluteOffset := it.offset + it.pos
    let blockOffset := absoluteOffset % it.blockSize
    let len := min (it.blockSize - blockOffset) (it.len - it.pos)
    some (⟨absoluteOffset / it.blockSize, absoluteOffset, blockOffset, it.pos, len⟩,
      { it with pos := it.pos + len })

/-- The spans the iterator yields within `fuel` steps. -/
def BlockSpans.toList : ℕ → BlockSpans → List BlockSpan
  | 0, _ => []
  | fuel + 1, it =>
    match it.next with
    | none => []
    | some (span, it') => span :: toList fuel it'

/-- `BlockSpans::new(offset, len, block_size)`, drained: every step consumes a
byte, so `len` steps suffice. -/
def blockSpans (offset len blockSize : ℕ) : List BlockSpan :=
  BlockSpans.toList len ⟨offset, len, blockSize, 0⟩

/-! ### The layer -/

/-- `CowLayer`.  `cowFd` says whether the COW file is open; the write buffer is
ordered by block index. -/
structure CowLayer where
  cowFd : Bool
  dirty : DirtyBits
  writeBuffer : Std.TreeMap ℕ Bytes
  flushThreshold : ℕ
  blockSize : ℕ
  size : ℕ

/-- The outcomes of the file operations of `CowLayer::new`. -/
structure CreateIo where
  openBase : Option IoError := none
  statBitmap : Option IoError := none
  openBitmap : Option IoError := none
  openCow : Option IoError := none

/-- The outcomes of the file operations of one flush: opening the COW file, when
it is not open yet, and each call of the write function. -/
structure FlushIo where
  openCow : Option IoError := none
  writes : List (List PwriteOutcome) := []

/-- The source of a file read. -/
inductive FileReadSource
  | base
  | cow
  deriving DecidableEq, Repr

/-- `FileReadRun`: adjacent spans to be read from one file in one call. -/
structure FileReadRun where
  source : FileReadSource
  absoluteOffset : ℕ
  bufferOffset : ℕ
  len : ℕ

namespace FileReadRun

variable (run : FileReadRun) (source : FileReadSource) (span : BlockSpan)

/-- `FileReadRun::new`. -/
def ofSpan : FileReadRun :=
  ⟨source, span.absoluteOffset, span.bufferOffset, span.len⟩

/-- `can_extend`; the checked additions cannot overflow below the device size. -/
def canExtend : Bool :=
  decide (run.source = source) && run.absoluteOffset + run.len == span.absoluteOffset &&
    run.bufferOffset + run.len == span.bufferOffset

def extend : FileReadRun :=
  { run with len := run.len + span.len }

end FileReadRun

variable (L : CowLayer) (s : CowLayer × Disk)

/-- The largest `u64`. -/
def u64Max : ℕ := 2 ^ 64 - 1

namespace CowLayer

variable (D : Disk) (blocks : List (ℕ × Bytes)) (blockIdx offset : ℕ)

/-- The sidecar part of `CowLayer::new`: the restored bitmap, or a clear one. -/
def restoreDirty (D : Disk) (numBlocks : ℕ) (io : CreateIo) : Except NbdCowError DirtyBits :=
  match io.statBitmap with
  | some e => .error (.io ⟨e.kind, s!"stat dirty bitmap sidecar: {e.message}"⟩)
  | none =>
    match D.bitmap with
    | none => .ok (.zeros numBlocks)
    | some file =>
      match io.openBitmap with
      | some e => .error (.io e)
      | none => loadBitmap file numBlocks

/-- The eager open of `CowLayer::new`: a restored bitmap with dirty bits needs
the COW file, and needs it to cover them. -/
def openDirtyCow (D : Disk) (dirty : DirtyBits) (blockSize : ℕ) (io : CreateIo) :
    Except NbdCowError Bool :=
  if 0 < dirty.countOnes then
    match io.openCow, D.cow with
    | some e, _ =>
      .error (ioOther s!"dirty bitmap present but COW file cannot be opened: {e.message}")
    | none, none =>
      .error (ioOther "dirty bitmap present but COW file cannot be opened: not found")
    | none, some file =>
      match validateDirtyCowCoverage dirty file.length blockSize with
      | .error e => .error e
      | .ok () => .ok true
  else .ok false

/-- `CowLayer::new`. -/
def create (D : Disk) (size blockSize flushThreshold : ℕ) (io : CreateIo) :
    Except NbdCowError CowLayer :=
  if blockSize = 0 then .error (.io ⟨.invalidInput, "block_size must be positive"⟩)
  else if size = 0 then .error (.io ⟨.invalidInput, "device size must be positive"⟩)
  else if size % blockSize ≠ 0 then
    .error (.io ⟨.invalidInput, s!"device size ({size}) must be a multiple of block_size ({blockSize})"⟩)
  else
    match io.openBase with
    | some e => .error (.io e)
    | none =>
      let numBlocks := (size + blockSize - 1) / blockSize
      match restoreDirty D numBlocks io with
      | .error e => .error e
      | .ok dirty =>
        match openDirtyCow D dirty blockSize io with
        | .error e => .error e
        | .ok cowFd => .ok ⟨cowFd, dirty, ∅, flushThreshold, blockSize, size⟩

/-- `check_bounds`, with its saturating addition. -/
def checkBounds (L : CowLayer) (offset length : ℕ) : Except NbdCowError Unit :=
  if L.size < min (offset + length) u64Max then .error (.outOfBounds offset length L.size)
  else .ok ()

def isDirty (L : CowLayer) (blockIdx : ℕ) : Bool := L.dirty.bit blockIdx

/-- `read_exact` ran into the end of the file. -/
def eofError : NbdCowError := .io ⟨.unexpectedEof, "failed to fill whole buffer"⟩

/-- `read_file_span`: the bytes of one file. -/
def readFileSpan (L : CowLayer) (D : Disk) (source : FileReadSource) (offset len : ℕ) :
    Except NbdCowError Bytes :=
  match source with
  | .base => (readExactAt D.base.bytes offset len).elim (.error eofError) .ok
  | .cow =>
    if L.cowFd then (readExactAt (D.cow.getD []) offset len).elim (.error eofError) .ok
    else .error (ioOther "dirty bit set but COW file not open")

/-- `flush_file_read_run`: perform the pending file read, if there is one. -/
def flushFileReadRun (L : CowLayer) (D : Disk) (run : Option FileReadRun) (buf : Bytes) :
    Except NbdCowError Bytes :=
  match run with
  | none => .ok buf
  | some r =>
    if buf.length < r.bufferOffset + r.len then .error (ioOther "slice out of bounds in read")
    else
      match L.readFileSpan D r.source r.absoluteOffset r.len with
      | .error e => .error e
      | .ok data => .ok (splice buf r.bufferOffset data)

/-- The loop of `read`: buffered blocks are copied, file spans are collected into
runs. -/
def readSpans (L : CowLayer) (D : Disk) : List BlockSpan → Option FileReadRun → Bytes →
    Except NbdCowError Bytes
  | [], run, buf => L.flushFileReadRun D run buf
  | span :: spans, run, buf =>
    match L.writeBuffer[span.blockIdx]? with
    | some blockData =>
      match L.flushFileReadRun D run buf with
      | .error e => .error e
      | .ok buf =>
        if buf.length < span.bufferOffset + span.len then
          .error (ioOther "slice out of bounds in read")
        else if blockData.length < span.blockOffset + span.len then
          .error (ioOther "block_data slice out of bounds")
        else
          readSpans L D spans none
            (splice buf span.bufferOffset (slice blockData span.blockOffset span.len))
    | none =>
      let source := if L.isDirty span.blockIdx then FileReadSource.cow else .base
      match run with
      | some r =>
        if r.canExtend source span then readSpans L D spans (some (r.extend span)) buf
        else
          match L.flushFileReadRun D run buf with
          | .error e => .error e
          | .ok buf => readSpans L D spans (some (.ofSpan source span)) buf
      | none => readSpans L D spans (some (.ofSpan source span)) buf

/-- `CowLayer::read`: fill `buf` from `offset`. -/
def read (L : CowLayer) (D : Disk) (offset : ℕ) (buf : Bytes) : Except NbdCowError Bytes :=
  match L.checkBounds offset buf.length with
  | .error e => .error e
  | .ok () => L.readSpans D (blockSpans offset buf.length L.blockSize) none buf

def readFullBlock (L : CowLayer) (D : Disk) (blockIdx : ℕ) : Except NbdCowError Bytes :=
  let offset := blockIdx * L.blockSize
  if L.isDirty blockIdx then
    if L.cowFd then (readExactAt (D.cow.getD []) offset L.blockSize).elim (.error eofError) .ok
    else .error (ioOther "dirty bit set but COW file not open")
  else (readExactAt D.base.bytes offset L.blockSize).elim (.error eofError) .ok

/-- `copy_from_slice` of a span into block data. -/
def copyIntoBlock (span : BlockSpan) (blockData src : Bytes) : Except NbdCowError Bytes :=
  if blockData.length < span.blockOffset + span.len then
    .error (ioOther "block_data dest slice out of bounds")
  else .ok (splice blockData span.blockOffset src)

/-- One span of `write`: the new data of its block.  A buffered block is updated
in place, a full block replaced, and any other block is read first. -/
def writtenBlock (L : CowLayer) (D : Disk) (span : BlockSpan) (src : Bytes) :
    Except NbdCowError Bytes :=
  match L.writeBuffer[span.blockIdx]? with
  | some blockData => copyIntoBlock span blockData src
  | none =>
    if span.isFullBlock L.blockSize then .ok src
    else
      match L.readFullBlock D span.blockIdx with
      | .error e => .error e
      | .ok blockData => copyIntoBlock span blockData src

def bufferBytes (L : CowLayer) : ℕ := L.writeBuffer.size * L.blockSize

/-- Put a block into the write buffer. -/
def bufferBlock (L : CowLayer) (blockIdx : ℕ) (data : Bytes) : CowLayer :=
  { L with writeBuffer := L.writeBuffer.insert blockIdx data }

/-- The loop of `write`. -/
def writeSpans (D : Disk) (data : Bytes) : List BlockSpan → CowLayer →
    CowLayer × Except NbdCowError Unit
  | [], L => (L, .ok ())
  | span :: spans, L =>
    if data.length < span.bufferOffset + span.len then
      (L, .error (ioOther "data src slice out of bounds"))
    else
      match L.writtenBlock D span (slice data span.bufferOffset span.len) with
      | .error e => (L, .error e)
      | .ok blockData => writeSpans D data spans (L.bufferBlock span.blockIdx blockData)

/-- `CowLayer::write`: buffer `data` and report whether a flush is needed. -/
def write (L : CowLayer) (D : Disk) (offset : ℕ) (data : Bytes) :
    CowLayer × Except NbdCowError Bool :=
  match L.checkBounds offset data.length with
  | .error e => (L, .error e)
  | .ok () =>
    match writeSpans D data (blockSpans offset data.length L.blockSize) L with
    | (L', .error e) => (L', .error e)
    | (L', .ok ()) => (L', .ok (decide (L'.flushThreshold ≤ L'.bufferBytes)))

/-! ### Flushing -/

def maxWriteIovecs : ℕ := 1024

/-- The inner loop of `flush_buffered`: the blocks that directly follow
`previous`, at most `capacity` of them, and the blocks left over. -/
def takeAdjacent : ℕ → ℕ → List (ℕ × Bytes) → List (ℕ × Bytes) × List (ℕ × Bytes)
  | 0, _, blocks => ([], blocks)
  | _ + 1, _, [] => ([], [])
  | capacity + 1, previous, (idx, data) :: blocks =>
    if previous + 1 = idx then
      let (batch, rest) := takeAdjacent capacity idx blocks
      ((idx, data) :: batch, rest)
    else ([], (idx, data) :: blocks)

/-- `set_dirty` for each block of a list. -/
def markDirty (L : CowLayer) (blocks : List (ℕ × Bytes)) : CowLayer :=
  { L with dirty := blocks.foldl (fun d b => d.set b.1) L.dirty }

/-- Put blocks back into the write buffer. -/
def restore (L : CowLayer) (blocks : List (ℕ × Bytes)) : CowLayer :=
  { L with writeBuffer := blocks.foldl (fun m b => m.insert b.1 b.2) L.writeBuffer }

section FlushBuffered

variable {ω φ : Type*} (writeFn : ω → φ → ℕ → List Bytes → φ × Except IoError ℕ)

/-- The outer loop of `flush_buffered` over the drained blocks.  Every round
consumes a block, so the number of blocks bounds the rounds. -/
def flushLoop : ℕ → List ω → φ → List (ℕ × Bytes) → CowLayer →
    CowLayer × φ × Except NbdCowError Unit
  | _, _, f, [], L => (L, f, .ok ())
  | 0, _, f, blocks@(_ :: _), L => (L.restore blocks, f, .ok ())
  | fuel + 1, os, f, (idx, data) :: blocks, L =>
    let (more, rest) := takeAdjacent (maxWriteIovecs - 1) idx blocks
    let batch := (idx, data) :: more
    match writeBlockSlices writeFn L.blockSize os f (idx * L.blockSize) (batch.map Prod.snd) 0 with
    | (os', f', .ok ()) => flushLoop fuel os' f' rest (L.markDirty batch)
    | (_, f', .error (e, firstIncomplete)) =>
      -- complete blocks become dirty, the others and all later ones go back
      let L' := L.markDirty (batch.take firstIncomplete)
      ((L'.restore (batch.drop firstIncomplete)).restore rest, f', .error (.io e))

/-- `flush_buffered`: drain the write buffer through the write function. -/
def flushBuffered (L : CowLayer) (os : List ω) (f : φ) : CowLayer × φ × Except NbdCowError Unit :=
  flushLoop writeFn L.writeBuffer.toList.length os f L.writeBuffer.toList
    { L with writeBuffer := ∅ }

end FlushBuffered

/-- `ensure_cow_fd`: open the COW file, creating it when it does not exist. -/
def ensureCowFd (L : CowLayer) (D : Disk) (openCow : Option IoError) :
    CowLayer × Disk × Except NbdCowError Unit :=
  if L.cowFd then (L, D, .ok ())
  else
    match openCow with
    | some e => (L, D, .error (.io e))
    | none => ({ L with cowFd := true }, { D with cow := some (D.cow.getD []) }, .ok ())

def flush (L : CowLayer) (D : Disk) (io : FlushIo) : CowLayer × Disk × Except NbdCowError Unit :=
  if L.writeBuffer.isEmpty then (L, D, .ok ())
  else
    match L.ensureCowFd D io.openCow with
    | (L, D, .error e) => (L, D, .error e)
    | (L, D, .ok ()) =>
      let (L', file, result) := L.flushBuffered writeBlockBatchAt io.writes (D.cow.getD [])
      (L', { D with cow := some file }, result)

/-- `CowLayer::sync`: flush, and `fsync` the COW file if it is open. -/
def sync (L : CowLayer) (D : Disk) (io : FlushIo) (fsync : Option IoError) :
    CowLayer × Disk × Except NbdCowError Unit :=
  match L.flush D io with
  | (L, D, .error e) => (L, D, .error e)
  | (L, D, .ok ()) =>
    match L.cowFd, fsync with
    | true, some e => (L, D, .error (.io e))
    | _, _ => (L, D, .ok ())

end CowLayer

/-! ### The handle that serialises the calls -/

namespace CowIo

def read (s : CowLayer × Disk) (offset : ℕ) (data : Bytes) : Except NbdCowError Bytes :=
  s.1.read s.2 offset data

def sync (s : CowLayer × Disk) (io : FlushIo) (fsync : Option IoError) :
    (CowLayer × Disk) × Except NbdCowError Unit :=
  match s.1.sync s.2 io fsync with
  | (L, D, result) => ((L, D), result)

/-- `CowIo::save_bitmap`: sync the layer, then save its bitmap. -/
def saveBitmap (s : CowLayer × Disk) (io : FlushIo) (fsync : Option IoError) (save : SaveIo) :
    (CowLayer × Disk) × Except NbdCowError Unit :=
  match sync s io fsync with
  | (s, .error e) => (s, .error e)
  | ((L, D), .ok ()) =>
    match Nbd.saveBitmap L.dirty D save with
    | (D', result) => ((L, D'), result)

end CowIo

end Okou.Nbd
