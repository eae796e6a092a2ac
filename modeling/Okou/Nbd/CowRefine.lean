import Okou.Nbd.CowFlush
import Okou.Nbd.CowView

/-!
# The copy-on-write layer is a flat byte array

A flush or a sync leaves the bytes of the device alone, whatever happens to the
positioned writes behind it: a block that reached the COW file is read from
there, a block that did not is back in the buffer, and a block half overwritten
in the file is shadowed by the buffer until a later flush completes it.
-/

namespace Okou.Nbd

open List

namespace CowLayer

variable {L : CowLayer} {D : Disk}

/-! ### Flushing -/

/-- Blocks put into a map are found there; other keys are not affected. -/
theorem getElem?_foldl_insert {blocks} (hasc : Ascending blocks) (m : Std.TreeMap ℕ Bytes) :
      (∀ b ∈ blocks, (blocks.foldl (fun m b => m.insert b.1 b.2) m)[b.1]? = some b.2) ∧
      ∀ k, (∀ b ∈ blocks, b.1 ≠ k) → (blocks.foldl (fun m b => m.insert b.1 b.2) m)[k]? =
        m[k]? := by
  induction blocks generalizing m with
  | nil => simp
  | cons a blocks ih =>
    rw [Ascending, pairwise_cons] at hasc
    obtain ⟨hfound, hother⟩ := ih hasc.2 (m.insert a.1 a.2)
    refine ⟨fun b hb => ?_, fun k hk => ?_⟩
    · rw [foldl_cons]
      rcases mem_cons.mp hb with rfl | hb
      · rw [hother b.1 fun c hc => (hasc.1 c hc).ne', Std.TreeMap.getElem?_insert_self]
      · exact hfound b hb
    · rw [foldl_cons, hother k (forall_mem_cons.mp hk).2, Std.TreeMap.getElem?_insert, if_neg]
      simpa using hk a mem_cons_self

theorem ascending_toList (m : Std.TreeMap ℕ Bytes) : Ascending m.toList :=
  m.ordered_keys_toList.imp fun h => Nat.compare_eq_lt.mp h

/-- The layer after a flush that completed the blocks `done` and put `left` back. -/
def flushed (L : CowLayer) (done left : List (ℕ × Bytes)) : CowLayer :=
  (({ L with cowFd := true, writeBuffer := ∅ } : CowLayer).markDirty done).restore left

section Flushed

variable {done left : List (ℕ × Bytes)}

theorem flushed_buffer (hasc : Ascending left) (k : ℕ) (data : Bytes) :
    (L.flushed done left).writeBuffer[k]? = some data ↔ (k, data) ∈ left := by
  obtain ⟨hfound, hother⟩ := getElem?_foldl_insert hasc ∅
  have hbuf : (L.flushed done left).writeBuffer = left.foldl (fun m b => m.insert b.1 b.2) ∅ := rfl
  rw [hbuf]
  refine ⟨fun h => ?_, fun h => hfound _ h⟩
  by_cases hk : ∃ b ∈ left, b.1 = k
  · obtain ⟨b, hb, rfl⟩ := hk
    rw [hfound b hb] at h
    rwa [← Option.some.inj h]
  · rw [hother k fun b hb hbk => hk ⟨b, hb, hbk⟩] at h
    simp at h

theorem flushed_dirty (hlt : ∀ b ∈ done, b.1 < L.dirty.len) (k : ℕ) :
    (L.flushed done left).isDirty k ↔ (∃ b ∈ done, b.1 = k) ∨ L.isDirty k :=
  bit_markDirty (L := { L with cowFd := true, writeBuffer := ∅ }) hlt k

theorem flushed_dirty_len : (L.flushed done left).dirty.len = L.dirty.len :=
  foldl_set_len L.dirty done

variable (hinv : L.Inv D) (hsplit : L.writeBuffer.toList = done ++ left) {g : Bytes}
  (hland : Landed L.blockSize (D.cow.getD []) g done (done ++ left))
include hinv hsplit hland

/-- A flush does not change what a reader sees, wherever it stopped. -/
theorem byteAt_flushed (i : ℕ) : (L.flushed done left).byteAt { D with cow := some g } i =
    L.byteAt D i := by
  have hasc := ascending_toList L.writeBuffer
  rw [hsplit, Ascending, pairwise_append] at hasc
  obtain ⟨-, hasc, hsep⟩ := hasc
  have hmem : ∀ k data, L.writeBuffer[k]? = some data ↔ (k, data) ∈ done ++ left := fun k data => by
    rw [← hsplit, Std.TreeMap.mem_toList_iff_getElem?_eq_some]
  have hlt : ∀ b ∈ done, b.1 < L.dirty.len := fun b hb =>
    (hinv.buffered b.1 b.2 ((hmem _ _).mpr (mem_append_left _ hb))).1
  have hnone : ∀ k, (∀ data, (k, data) ∉ left) → (L.flushed done left).writeBuffer[k]? = none := by
    intro k hk
    rw [Option.eq_none_iff_forall_ne_some]
    exact fun data hdata => hk data ((flushed_buffer hasc k data).mp hdata)
  cases hbuf : L.writeBuffer[i / L.blockSize]? with
  | some data =>
    rw [byteAt_of_buffered hbuf]
    rcases mem_append.mp ((hmem _ _).mp hbuf) with hdone | hleft
    · -- completed: the block is now read back from the file
      have hgone : (L.flushed done left).writeBuffer[i / L.blockSize]? = none :=
        hnone _ fun d hd => absurd (hsep _ hdone _ hd) (lt_irrefl _)
      rw [byteAt_of_dirty hgone ((flushed_dirty hlt _).mpr (.inl ⟨_, hdone, rfl⟩))]
      have hstor := hland.stored _ hdone _ (Nat.mod_lt i hinv.blockSize_pos)
      rw [Nat.mul_comm, Nat.div_add_mod] at hstor
      exact hstor
    · exact byteAt_of_buffered ((flushed_buffer hasc _ _).mpr hleft)
  | none =>
    have hout : ∀ b ∈ done ++ left, b.1 ≠ i / L.blockSize := by
      intro b hb hbi
      have h := (hmem b.1 b.2).mpr hb
      rw [hbi, hbuf] at h
      simp at h
    have hgone : (L.flushed done left).writeBuffer[i / L.blockSize]? = none :=
      hnone _ fun d hd => hout _ (mem_append_right _ hd) rfl
    cases hd : L.isDirty (i / L.blockSize) with
    | true =>
      rw [byteAt_of_dirty hbuf hd, byteAt_of_dirty hgone ((flushed_dirty hlt _).mpr (.inr hd))]
      exact hland.frame i hout
    | false =>
      have hclean : (L.flushed done left).isDirty (i / L.blockSize) = false := by
        rw [Bool.eq_false_iff, Ne, flushed_dirty hlt, hd]
        rintro (⟨b, hb, hbi⟩ | h)
        · exact hout b (mem_append_left _ hb) hbi
        · simp at h
      rw [byteAt_of_clean hbuf hd, byteAt_of_clean hgone hclean]

theorem Inv.flushed (hne : L.writeBuffer.toList ≠ []) : (L.flushed done left).Inv
    { D with cow := some g } := by
  have hasc := ascending_toList L.writeBuffer
  rw [hsplit, Ascending, pairwise_append] at hasc
  have hmem : ∀ b ∈ done ++ left, b.1 < L.dirty.len ∧ b.2.length = L.blockSize := fun b hb =>
    hinv.buffered b.1 b.2 (by rwa [← Std.TreeMap.mem_toList_iff_getElem?_eq_some, hsplit])
  have hlt : ∀ b ∈ done, b.1 < L.dirty.len := fun b hb => (hmem b (mem_append_left _ hb)).1
  refine ⟨hinv.blockSize_pos, ?_, hinv.size_le, ?_, ?_, ?_⟩
  · rw [flushed_dirty_len]
    exact hinv.size_eq
  · intro k data hk
    rw [flushed_dirty_len]
    exact hmem _ (mem_append_right _ ((flushed_buffer hasc.2.1 k data).mp hk))
  · intro k hk
    refine ⟨rfl, ?_⟩
    rcases (flushed_dirty hlt k).mp hk with ⟨b, hb, rfl⟩ | hk
    · exact hland.covered b hb
    · exact (hinv.covered k hk).2.trans hland.length_le
  · intro _
    refine ⟨rfl, ?_⟩
    cases left with
    | nil =>
      cases done with
      | nil => exact absurd hsplit hne
      | cons b done => exact .inr ⟨b.1, (flushed_dirty hlt b.1).mpr (.inl ⟨b, mem_cons_self, rfl⟩)⟩
    | cons b left =>
      left
      have hb : (L.flushed done (b :: left)).writeBuffer[b.1]? = some b.2 :=
        (flushed_buffer hasc.2.1 _ _).mpr mem_cons_self
      exact Std.TreeMap.isEmpty_eq_false_iff_exists_mem.mpr
        ⟨b.1, Std.TreeMap.mem_iff_isSome_getElem?.mpr (by rw [hb]; rfl)⟩

end Flushed

/-- What a flush or a sync keeps: the invariant, every byte a reader sees, the
geometry, and every file but the COW file. -/
structure Keeps (L : CowLayer) (D : Disk) (L' : CowLayer) (D' : Disk) : Prop where
  inv : L'.Inv D'
  byteAt_eq : ∀ i, L'.byteAt D' i = L.byteAt D i
  size_eq : L'.size = L.size
  blockSize_eq : L'.blockSize = L.blockSize
  threshold_eq : L'.flushThreshold = L.flushThreshold
  disk_eq : D' = { D with cow := D'.cow }

theorem Keeps.refl (hinv : L.Inv D) : Keeps L D L D := ⟨hinv, fun _ => rfl, rfl, rfl, rfl, rfl⟩

theorem Keeps.contents_eq {L'} {D'} (h : Keeps L D L' D') : L'.contents D' = L.contents D := by
  rw [contents, contents, h.size_eq]
  exact map_congr_left fun i _ => h.byteAt_eq i

/-- Draining the buffer, with the COW file open. -/
theorem flushBuffered_keeps (hinv : L.Inv D) (hfd : L.cowFd)
    (hne : L.writeBuffer.toList ≠ []) (writes : List (List PwriteOutcome)) :
    ∃ L' g result, L.flushBuffered writeBlockBatchAt writes (D.cow.getD []) = (L', g, result) ∧
      Keeps L D L' { D with cow := some g } ∧ (result = .ok () → L'.writeBuffer.isEmpty) := by
  obtain ⟨done, left, hsplit, hlayer, hok, hland⟩ := flushLoop_spec honestWrite_writeBlockBatchAt
    L.writeBuffer.toList.length writes (D.cow.getD []) L.writeBuffer.toList
    { L with writeBuffer := ∅ } hinv.blockSize_pos le_rfl (ascending_toList _) fun b hb =>
      (hinv.buffered b.1 b.2 (Std.TreeMap.mem_toList_iff_getElem?_eq_some.mp hb)).2
  have hflushed : (({ L with writeBuffer := ∅ } : CowLayer).markDirty done).restore left =
    L.flushed done left := by
    rw [CowLayer.flushed, hfd]
  refine ⟨_, _, _, rfl, ?_, ?_⟩
  · nth_rewrite 3 [hsplit] at hland
    rw [hlayer.trans hflushed]
    exact ⟨hinv.flushed hsplit hland hne, byteAt_flushed hinv hsplit hland, rfl, rfl, rfl, rfl⟩
  · intro hres
    obtain rfl := hok hres
    rw [hlayer]
    rfl

/-- **A flush keeps every byte of the device**, whatever its writes did; when it
succeeds the buffer is empty. -/
theorem flush_spec (hinv : L.Inv D) (io) : ∃ L' D' result, L.flush D io = (L', D', result) ∧
      Keeps L D L' D' ∧ (result = .ok () → L'.writeBuffer.isEmpty) := by
  unfold flush
  split
  · next hempty => exact ⟨L, D, .ok (), rfl, .refl hinv, fun _ => hempty⟩
  · next hne =>
    have hlist : L.writeBuffer.toList ≠ [] := fun h => hne (by
      rw [Std.TreeMap.isEmpty_toList.symm, h]; rfl)
    cases hfd : L.cowFd with
    | true =>
      obtain ⟨L', g, result, hfb, hkeeps, hok⟩ := flushBuffered_keeps hinv hfd hlist io.writes
      refine ⟨L', _, result, ?_, hkeeps, hok⟩
      simp [ensureCowFd, hfd, hfb]
    | false =>
      cases hopen : io.openCow with
      | some e =>
        refine ⟨L, D, .error (.io e), ?_, .refl hinv, nofun⟩
        simp [ensureCowFd, hfd]
      | none =>
        -- the file is opened first; an empty new file changes no byte
        have hinv' : ({ L with cowFd := true } : CowLayer).Inv
            { D with cow := some (D.cow.getD []) } :=
          ⟨hinv.blockSize_pos, hinv.size_eq, hinv.size_le, hinv.buffered, fun k hk =>
            ⟨rfl, (hinv.covered k hk).2⟩, fun _ => ⟨rfl, .inl (by simpa using hne)⟩⟩
        obtain ⟨L', g, result, hfb, hkeeps, hok⟩ := flushBuffered_keeps hinv' rfl hlist io.writes
        refine ⟨L', { D with cow := some g }, result, ?_, ?_, hok⟩
        · simp only [ensureCowFd, hfd, Bool.false_eq_true, if_false]
          rw [hfb]
        · exact ⟨hkeeps.inv, hkeeps.byteAt_eq, hkeeps.size_eq, hkeeps.blockSize_eq,
            hkeeps.threshold_eq, rfl⟩

theorem sync_spec (hinv : L.Inv D) (io) (fsync) :
    ∃ L' D' result, L.sync D io fsync = (L', D', result) ∧ Keeps L D L' D' ∧
      (result = .ok () → L'.writeBuffer.isEmpty) := by
  obtain ⟨L', D', result, hflush, hkeeps, hok⟩ := flush_spec hinv io
  unfold sync
  rw [hflush]
  cases result with
  | error e => exact ⟨L', D', .error e, rfl, hkeeps, nofun⟩
  | ok u =>
    cases hfd : L'.cowFd with
    | false => exact ⟨L', D', .ok (), by simp only [hfd], hkeeps, fun _ => hok rfl⟩
    | true =>
      cases fsync with
      | none => exact ⟨L', D', .ok (), by simp, hkeeps, fun _ => hok rfl⟩
      | some e =>
        exact ⟨L', D', .error (.io e), by simp only [hfd], hkeeps, nofun⟩

/-! ### A new layer -/

variable {size bs threshold : ℕ} {io : CreateIo}

/-- What `CowLayer::new` has checked and set, when it succeeds. -/
theorem create_ok (h : create D size bs threshold io = .ok L) :
    0 < bs ∧ 0 < size ∧ size % bs = 0 ∧ restoreDirty D (size / bs) io = .ok L.dirty ∧
      openDirtyCow D L.dirty bs io = .ok L.cowFd ∧
      L = ⟨L.cowFd, L.dirty, ∅, threshold, bs, size⟩ := by
  unfold create at h
  split at h
  · simp at h
  · next hbs =>
    split at h
    · simp at h
    · next hsize =>
      split at h
      · simp at h
      · next hmod =>
        have hmod : size % bs = 0 := not_not.mp hmod
        have hblocks : (size + bs - 1) / bs = size / bs := by
          obtain ⟨q, rfl⟩ := Nat.dvd_of_mod_eq_zero hmod
          have hpos : 0 < bs := Nat.pos_of_ne_zero hbs
          rw [Nat.mul_div_cancel_left q hpos, Nat.add_sub_assoc hpos, Nat.mul_add_div hpos,
            Nat.div_eq_of_lt (by omega), Nat.add_zero]
        simp only [hblocks] at h
        split at h
        · simp at h
        · split at h
          · simp at h
          · next dirty hdirty =>
            split at h
            · simp at h
            · next cowFd hcow =>
              cases h
              exact ⟨Nat.pos_of_ne_zero hbs, Nat.pos_of_ne_zero hsize, hmod, hdirty, hcow, rfl⟩

theorem len_of_restoreDirty {numBlocks} {d}
    (h : restoreDirty D numBlocks io = .ok d) : d.len = numBlocks := by
  unfold restoreDirty at h
  split at h
  · simp at h
  · split at h
    · rw [← Except.ok.inj h, DirtyBits.len_zeros]
    · split at h
      · simp at h
      · exact len_of_loadBitmap h

/-- The COW file is opened eagerly exactly when the bitmap needs it, and then it
covers the dirty blocks. -/
theorem openDirtyCow_ok {d} {cowFd} (h : openDirtyCow D d bs io = .ok cowFd) :
    (cowFd → D.cow.isSome ∧ ∃ k, d.bit k) ∧ ∀ k, d.bit k → cowFd ∧
      (k + 1) * bs ≤ (D.cow.getD []).length := by
  unfold openDirtyCow at h
  split at h
  · next hones =>
    split at h
    · simp at h
    · simp at h
    · next file _ hfile =>
      split at h
      · simp at h
      · next hvalid =>
        cases h
        rw [hfile]
        exact ⟨fun _ => ⟨rfl, d.countOnes_pos_iff.mp hones⟩, fun k hk =>
          ⟨rfl, covered_of_validate hvalid hk⟩⟩
  · next hones =>
    cases h
    exact ⟨fun hfd => by simp at hfd, fun k hk => absurd (d.countOnes_pos_iff.mpr ⟨k, hk⟩) hones⟩

/-- Every layer that `CowLayer::new` returns satisfies the invariant. -/
theorem create_inv (h : create D size bs threshold io = .ok L)
    (hbase : size ≤ D.base.bytes.length) : L.Inv D ∧ L.size = size ∧ L.blockSize = bs := by
  obtain ⟨hbs, -, hmod, hdirty, hcow, hL⟩ := create_ok h
  have hlen := len_of_restoreDirty hdirty
  obtain ⟨hused, hcov⟩ := openDirtyCow_ok hcow
  generalize L.dirty = dirty at *
  generalize L.cowFd = cowFd at *
  subst hL
  refine ⟨⟨hbs, ?_, hbase, ?_, hcov, ?_⟩, rfl, rfl⟩
  · rw [hlen, Nat.div_mul_cancel (Nat.dvd_of_mod_eq_zero hmod)]
  · intro k data hk
    simp at hk
  · exact fun hfd => ⟨(hused hfd).1, .inr (hused hfd).2⟩

/-- A layer created without a sidecar shows the base image. -/
theorem create_fresh (h : create D size bs threshold io = .ok L) (hside : D.bitmap = none)
    (hbase : size ≤ D.base.bytes.length) : L.contents D = D.base.bytes.take size := by
  obtain ⟨-, -, hmod, hdirty, -, hL⟩ := create_ok h
  have hzero : L.dirty = .zeros (size / bs) := by
    unfold restoreDirty at hdirty
    split at hdirty
    · simp at hdirty
    · rw [hside] at hdirty
      exact (Except.ok.inj hdirty).symm
  have hbuf : L.writeBuffer = ∅ := by rw [hL]
  have hsize : L.size = size := by rw [hL]
  refine eq_of_getD 0 (by rw [length_contents, length_take, hsize]; omega) fun i hi => ?_
  rw [length_contents] at hi
  rw [getD_contents hi, byteAt_of_clean (by rw [hbuf]; simp) (by rw [isDirty, hzero]; simp)]
  simp [hsize ▸ hi]

end CowLayer

/-! ### Histories -/

/-- One call on a layer, with the outcomes of the file operations behind it. -/
inductive CowOp
  | read (offset : ℕ) (buf : Bytes)
  | write (offset : ℕ) (data : Bytes)
  | flush (io : FlushIo)
  | sync (io : FlushIo) (fsync : Option IoError)
  | saveBitmap (io : FlushIo) (fsync : Option IoError) (save : SaveIo)

/-- The layer and its files after one call. -/
def stepOp (s : CowLayer × Disk) : CowOp → CowLayer × Disk
  | .read _ _ => s
  | .write offset data => ((s.1.write s.2 offset data).1, s.2)
  | .flush io => ((s.1.flush s.2 io).1, (s.1.flush s.2 io).2.1)
  | .sync io fsync => (CowIo.sync s io fsync).1
  | .saveBitmap io fsync save => (CowIo.saveBitmap s io fsync save).1

/-- The layer and its files after a history of calls. -/
def runOps (s : CowLayer × Disk) (ops : List CowOp) : CowLayer × Disk := ops.foldl stepOp s

/-- A flat array under one call: a write in bounds overwrites, all else is void. -/
def applyWrite (mem : Bytes) : CowOp → Bytes
  | .write offset data => if offset + data.length ≤ mem.length then splice mem offset data else mem
  | _ => mem

/-- The flat array after the writes of a history. -/
def applyWrites (mem : Bytes) (ops : List CowOp) : Bytes := ops.foldl applyWrite mem

/-- The layer on its files shows the flat array `mem`, in blocks of `bs`. -/
structure Shows (bs : ℕ) (s : CowLayer × Disk) (mem : Bytes) : Prop where
  inv : s.1.Inv s.2
  contents_eq : s.1.contents s.2 = mem
  blockSize_eq : s.1.blockSize = bs

variable {bs : ℕ} {s : CowLayer × Disk} {mem : Bytes}

theorem Shows.length_eq (h : Shows bs s mem) :
    mem.length = s.1.size := by rw [← h.contents_eq, CowLayer.length_contents]

theorem Shows.keeps (h : Shows bs s mem)
    {L'} {D'} (hk : CowLayer.Keeps s.1 s.2 L' D') : Shows bs (L', D') mem where
  inv := hk.inv
  contents_eq := hk.contents_eq.trans h.contents_eq
  blockSize_eq := hk.blockSize_eq.trans h.blockSize_eq

/-- A layer does not depend on the sidecar once it is running. -/
theorem Shows.sidecar {L} {D} (h : Shows bs (L, D) mem) (bitmap bitmapTmp) :
    Shows bs (L, { D with bitmap := bitmap, bitmapTmp := bitmapTmp }) mem :=
  ⟨{ h.inv with }, h.contents_eq, h.blockSize_eq⟩

theorem CowIo.sync_spec (hinv : s.1.Inv s.2) (io) (fsync) :
    ∃ L' D' result, CowIo.sync s io fsync = ((L', D'), result) ∧
      CowLayer.Keeps s.1 s.2 L' D' ∧ (result = .ok () → L'.writeBuffer.isEmpty) := by
  obtain ⟨L', D', result, hs, hkeeps, hempty⟩ := CowLayer.sync_spec hinv io fsync
  exact ⟨L', D', result, by rw [CowIo.sync, hs], hkeeps, hempty⟩

/-- Saving touches the sidecar and its temporary sibling only. -/
theorem saveBitmap_disk (d) (D : Disk) (io) : ∃ bitmap bitmapTmp, (saveBitmap d D io).1
      = { D with bitmap := bitmap, bitmapTmp := bitmapTmp } := by
  unfold saveBitmap
  split
  · exact ⟨_, _, rfl⟩
  · split
    · exact ⟨_, _, rfl⟩
    · split
      · exact ⟨_, _, rfl⟩
      · split
        · exact ⟨D.bitmap, none, rfl⟩
        · split
          · exact ⟨D.bitmap, none, rfl⟩
          · exact ⟨_, none, rfl⟩

/-- **One call on the layer is one call on the flat array.** -/
theorem shows_stepOp (h : Shows bs s mem) (op : CowOp) :
    Shows bs (stepOp s op) (applyWrite mem op) := by
  cases op with
  | read offset buf => exact h
  | write offset data =>
    simp only [stepOp, applyWrite, h.length_eq]
    by_cases hn : offset + data.length ≤ s.1.size
    · obtain ⟨L', b, hw, hinv', hsame, hcont⟩ := CowLayer.write_spec h.inv hn
      rw [if_pos hn, hw]
      refine ⟨hinv', by rw [hcont, h.contents_eq], ?_⟩
      rw [hsame]
      exact h.blockSize_eq
    · rw [if_neg hn, CowLayer.write_out_of_bounds h.inv (by omega)]
      exact h
  | flush io =>
    obtain ⟨L', D', result, hf, hkeeps, -⟩ := CowLayer.flush_spec h.inv io
    simp only [stepOp, hf]
    exact h.keeps hkeeps
  | sync io fsync =>
    obtain ⟨L', D', result, hs, hkeeps, -⟩ := CowIo.sync_spec h.inv io fsync
    simp only [stepOp, hs]
    exact h.keeps hkeeps
  | saveBitmap io fsync save =>
    obtain ⟨L', D', result, hs, hkeeps, -⟩ := CowIo.sync_spec h.inv io fsync
    simp only [stepOp, CowIo.saveBitmap, hs]
    cases result with
    | error e => exact h.keeps hkeeps
    | ok u =>
      obtain ⟨bitmap, bitmapTmp, hdisk⟩ := saveBitmap_disk L'.dirty D' save
      simp only [hdisk]
      exact (h.keeps hkeeps).sidecar bitmap bitmapTmp

theorem shows_runOps (h : Shows bs s mem) (ops) : Shows bs (runOps s ops) (applyWrites mem ops) :=
  foldl_rel h fun op _ _ _ h => shows_stepOp h op

theorem length_applyWrite (mem : Bytes) (op : CowOp) : (applyWrite mem op).length = mem.length := by
  unfold applyWrite
  split
  · split
    · next hn => exact length_splice hn
    · rfl
  · rfl

theorem length_applyWrites (mem : Bytes) (ops) : (applyWrites mem ops).length = mem.length := by
  induction ops generalizing mem with
  | nil => rfl
  | cons op ops ih => rw [applyWrites, foldl_cons, ← applyWrites, ih, length_applyWrite]

/-- What a reader and a writer get from a layer that shows `mem`. -/
structure Serves (s : CowLayer × Disk) (mem : Bytes) : Prop where
  read_eq : ∀ offset buf, offset + buf.length ≤ mem.length →
    s.1.read s.2 offset buf = .ok (slice mem offset buf.length)
  write_ok : ∀ offset data, offset + data.length ≤ mem.length →
    ∃ needsFlush, (s.1.write s.2 offset data).2 = .ok needsFlush
  read_out : ∀ offset buf, mem.length < offset + buf.length →
    s.1.read s.2 offset buf = .error (.outOfBounds offset buf.length mem.length)
  write_out : ∀ offset data, mem.length < offset + data.length →
    s.1.write s.2 offset data = (s.1, .error (.outOfBounds offset data.length mem.length))

theorem Shows.serves (h : Shows bs s mem) : Serves s mem where
  read_eq offset buf hn := by
    rw [h.length_eq] at hn
    rw [CowLayer.read_eq h.inv hn, h.contents_eq]
  write_ok offset data hn := by
    rw [h.length_eq] at hn
    obtain ⟨L', b, hw, -⟩ := CowLayer.write_spec h.inv hn
    exact ⟨b, by rw [hw]⟩
  read_out offset buf hn := by
    rw [h.length_eq] at hn ⊢
    exact CowLayer.read_out_of_bounds h.inv hn
  write_out offset data hn := by
    rw [h.length_eq] at hn ⊢
    exact CowLayer.write_out_of_bounds h.inv hn

/-- **The layer refines a flat byte array.**  After every history of calls on a
new layer, whatever became of its positioned writes, a read in bounds returns
the bytes that the writes of the history, in order, leave in the base image;
calls out of bounds fail with `OutOfBounds` and change nothing. -/
theorem cowLayer_refines_flat {D : Disk} {size blockSize flushThreshold : ℕ} {io : CreateIo}
    {L : CowLayer}
    (hnew : CowLayer.create D size blockSize flushThreshold io = .ok L) (hside : D.bitmap = none)
    (hbase : size ≤ D.base.bytes.length) (ops : List CowOp) : let s := runOps (L, D) ops
    (∀ offset buf, offset + buf.length ≤ size → s.1.read s.2 offset buf
        = .ok (slice (applyWrites (D.base.bytes.take size) ops) offset buf.length)) ∧
    (∀ offset data, offset + data.length ≤ size → ∃ needsFlush,
      (s.1.write s.2 offset data).2 = .ok needsFlush) ∧
    (∀ offset buf, size < offset + buf.length →
      s.1.read s.2 offset buf = .error (.outOfBounds offset buf.length size)) ∧
    (∀ offset data, size < offset + data.length →
      s.1.write s.2 offset data = (s.1, .error (.outOfBounds offset data.length size))) := by
  obtain ⟨hinv, hsize, hbs⟩ := CowLayer.create_inv hnew hbase
  have hcont := CowLayer.create_fresh hnew hside hbase
  have hshows : Shows blockSize (L, D) (D.base.bytes.take size) := ⟨hinv, hcont, hbs⟩
  have hlen : (applyWrites (D.base.bytes.take size) ops).length = size := by
    rw [length_applyWrites, hshows.length_eq, hsize]
  have h := (shows_runOps hshows ops).serves
  obtain ⟨hread, hwrite, hreadOut, hwriteOut⟩ := h
  rw [hlen] at hread hwrite hreadOut hwriteOut
  exact ⟨hread, hwrite, hreadOut, hwriteOut⟩

/-- A device of two blocks over a base image of four bytes. -/
def smallDisk : Disk := ⟨⟨[1, 2, 3, 4], by decide⟩, none, none, none⟩

/-- A write across the block boundary and a flush whose second block never
reaches the file: the read still sees both bytes. -/
theorem cowLayer_refines_flat_smallDisk : ∃ L, CowLayer.create smallDisk 4 2 0 {} = .ok L ∧
      let s := runOps (L, smallDisk)
        [.write 1 [9, 9], .flush ⟨none, [[.accept 3], [.fail ⟨.other, "write failed"⟩ 0]]⟩]
      s.1.read s.2 0 [0, 0, 0, 0] = .ok [1, 9, 9, 4] := by
  have hnew : CowLayer.create smallDisk 4 2 0 {} = .ok ⟨false, .zeros 2, ∅, 0, 2, 4⟩ := rfl
  exact ⟨_, hnew, (cowLayer_refines_flat hnew rfl (by decide) _).1 0 [0, 0, 0, 0] (by decide)⟩

end Okou.Nbd
