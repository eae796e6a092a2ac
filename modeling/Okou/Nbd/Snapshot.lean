import Okou.Nbd.CowRefine

/-!
# Snapshots

A snapshot is taken by `CowIo::save_bitmap`: sync the layer, then save its dirty
bitmap next to the COW file.  It is restored by `CowLayer::new` on the same
files.  After a successful sync nothing is left in memory but the bitmap, and
the COW file is open exactly when some block is dirty, so the restored layer is
the saved one, down to every field but the flush threshold it is created with.
-/

namespace Okou.Nbd

open CowLayer

namespace CowLayer

variable {L : CowLayer} {D : Disk}

theorem dirty_len_lt (hinv : L.Inv D) : L.dirty.len * L.blockSize < 2 ^ 64 := by
  have hsize := hinv.size_le.trans D.base.length_le
  have hmax : offTMax < 2 ^ 64 := by decide
  rw [← hinv.size_eq]
  omega

/-- With an empty buffer the COW file is open exactly when some block is dirty. -/
theorem cowFd_eq_of_synced (hinv : L.Inv D) (hempty : L.writeBuffer.isEmpty) :
    L.cowFd = decide (0 < L.dirty.countOnes) := by
  rw [Bool.eq_iff_iff, decide_eq_true_eq, L.dirty.countOnes_pos_iff]
  constructor
  · intro hfd
    rcases (hinv.used hfd).2 with hne | hdirty
    · rw [hempty] at hne
      simp at hne
    · exact hdirty
  · rintro ⟨k, hk⟩
    exact (hinv.covered k hk).1

/-- The eager open on the files of a synced layer reaches the state the layer is
in. -/
theorem openDirtyCow_of_synced (hinv : L.Inv D) (hempty : L.writeBuffer.isEmpty) :
    openDirtyCow D L.dirty L.blockSize {} = .ok L.cowFd := by
  have hfd := cowFd_eq_of_synced hinv hempty
  unfold openDirtyCow
  split
  · next hones =>
    rw [decide_eq_true hones] at hfd
    obtain ⟨file, hfile⟩ := Option.isSome_iff_exists.mp (hinv.used hfd).1
    have hvalid : validateDirtyCowCoverage L.dirty file.length L.blockSize = .ok () := by
      refine validateDirtyCowCoverage_ok (dirty_len_lt hinv) hinv.blockSize_pos fun k hk => ?_
      have hcov := (hinv.covered k hk).2
      rwa [hfile] at hcov
    simp only [hfile, hvalid, hfd]
  · next hones =>
    rw [hfd, decide_eq_false hones]

/-- **`CowLayer::new` on the files of a saved layer returns that layer**, with the
flush threshold it is given. -/
theorem create_of_saved (hinv : L.Inv D) (hempty : L.writeBuffer = ∅) (hsize : 0 < L.size)
    (hside : D.bitmap = some (bitmapBytes L.dirty)) (flushThreshold : ℕ) :
    create D L.size L.blockSize flushThreshold {} = .ok
      { L with flushThreshold := flushThreshold } := by
  have hbs := hinv.blockSize_pos
  have hblocks : (L.size + L.blockSize - 1) / L.blockSize = L.dirty.len := by
    rw [hinv.size_eq, Nat.mul_comm, Nat.add_sub_assoc hbs, Nat.mul_add_div hbs,
      Nat.div_eq_of_lt (by omega), Nat.add_zero]
  have hlen : L.dirty.len < 2 ^ 64 :=
    lt_of_le_of_lt (Nat.le_mul_of_pos_right _ hbs) (dirty_len_lt hinv)
  unfold create
  rw [if_neg hbs.ne', if_neg hsize.ne', if_neg (by rw [hinv.size_eq]; simp)]
  simp only [hblocks, restoreDirty, hside, loadBitmap_bitmapBytes _ hlen,
    openDirtyCow_of_synced hinv (by rw [hempty]; rfl)]
  rw [hempty]

end CowLayer

/-- An empty write buffer has one representation. -/
theorem eq_empty_of_isEmpty {m : Std.TreeMap ℕ Bytes} (h : m.isEmpty) : m = ∅ := by
  rcases m with ⟨⟨inner, wf⟩⟩
  cases inner with
  | leaf => rfl
  | inner => simp [Std.TreeMap.isEmpty, Std.DTreeMap.isEmpty,
    Std.DTreeMap.Internal.Impl.isEmpty] at h

/-- A successful save: the layer is synced, shows what it showed before, and its
bitmap is in the sidecar. -/
theorem CowIo.saveBitmap_ok {bs} {s s'} {mem} (h : Shows bs s mem) {io}
    {fsync} {save} (hsave : CowIo.saveBitmap s io fsync save = (s', .ok ())) :
    Shows bs s' mem ∧ s'.1.writeBuffer.isEmpty ∧ s'.2.bitmap = some (bitmapBytes s'.1.dirty) := by
  obtain ⟨L', D', result, hs, hkeeps, hempty⟩ := CowIo.sync_spec h.inv io fsync
  rw [CowIo.saveBitmap, hs] at hsave
  cases result with
  | error e => simp at hsave
  | ok u =>
    rcases hd : Nbd.saveBitmap L'.dirty D' save with ⟨D'', result⟩
    simp only [hd] at hsave
    obtain ⟨rfl, rfl⟩ := hsave
    rw [Nbd.saveBitmap_ok hd]
    exact ⟨(h.keeps hkeeps).sidecar _ _, hempty rfl, rfl⟩

/-- The flush threshold shows nowhere. -/
theorem Shows.threshold {bs} {L} {D} {mem} (h : Shows bs (L, D) mem)
    (flushThreshold : ℕ) : Shows bs ({ L with flushThreshold := flushThreshold }, D) mem :=
  ⟨⟨h.inv.blockSize_pos, h.inv.size_eq, h.inv.size_le, h.inv.buffered, h.inv.covered, h.inv.used⟩,
    h.contents_eq, h.blockSize_eq⟩

/-- **Snapshot restore preserves the device.**  Take any layer that `CowLayer::new`
returned, any history of calls on it, and a save that succeeds.  Then
`CowLayer::new` on the files it leaves succeeds and returns the saved layer, but
for the flush threshold it is given; what it reads is what the original layer
read before and after the save; and after any further calls both layers read and
write as the same flat array does. -/
theorem snapshot_restores {D₀ : Disk} {size blockSize threshold₀ : ℕ} {io₀ : CreateIo}
    {L₀ : CowLayer} (hnew : CowLayer.create D₀ size blockSize threshold₀ io₀ = .ok L₀)
    (hbase : size ≤ D₀.base.bytes.length) (ops : List CowOp) {io : FlushIo}
    {fsync : Option IoError} {save : SaveIo} {L : CowLayer} {D : Disk}
    (hsave : CowIo.saveBitmap (runOps (L₀, D₀) ops) io fsync save = ((L, D), .ok ()))
    (threshold : ℕ) :
    ∃ R, CowLayer.create D size blockSize threshold {} = .ok R ∧
      R = { L with flushThreshold := threshold } ∧
      (∀ offset buf, offset + buf.length ≤ size → ∃ out, R.read D offset buf = .ok out ∧
          L.read D offset buf = .ok out ∧
          (runOps (L₀, D₀) ops).1.read (runOps (L₀, D₀) ops).2 offset buf = .ok out) ∧
      ∀ further : List CowOp, Serves (runOps (R, D) further) (applyWrites (L.contents D) further) ∧
        Serves (runOps (L, D) further) (applyWrites (L.contents D) further) := by
  obtain ⟨hinv, hsize, hbs⟩ := create_inv hnew hbase
  obtain ⟨-, hpos, -⟩ := create_ok hnew
  have hbef : Shows blockSize (runOps (L₀, D₀) ops) (applyWrites (L₀.contents D₀) ops) :=
    shows_runOps ⟨hinv, rfl, hbs⟩ ops
  obtain ⟨hafter, hempty, hside⟩ := CowIo.saveBitmap_ok hbef hsave
  have hlen : (applyWrites (L₀.contents D₀) ops).length = size := by
    rw [length_applyWrites, length_contents, hsize]
  have hLsize : L.size = size := hafter.length_eq.symm.trans hlen
  have hmem : L.contents D = applyWrites (L₀.contents D₀) ops := hafter.contents_eq
  have hR := hafter.threshold threshold
  refine ⟨{ L with flushThreshold := threshold }, ?_, rfl, fun offset buf hn => ?_, fun further =>
    ?_⟩
  · have hLbs : L.blockSize = blockSize := hafter.blockSize_eq
    rw [← hLsize, ← hLbs]
    exact create_of_saved hafter.inv (eq_empty_of_isEmpty hempty)
      (hLsize.symm ▸ hpos) hside threshold
  · have hn' : offset + buf.length ≤ (applyWrites (L₀.contents D₀) ops).length := by
      rw [hlen]
      exact hn
    exact ⟨_, hR.serves.read_eq offset buf hn', hafter.serves.read_eq offset buf hn',
      hbef.serves.read_eq offset buf hn'⟩
  · rw [hmem]
    exact ⟨(shows_runOps hR further).serves, (shows_runOps hafter further).serves⟩

/-- A layer over `smallDisk` with one dirty block and one buffered block. -/
def smallHistory : List CowOp :=
  [.write 1 [9], .flush ⟨none, [[.accept 2]]⟩, .write 2 [7]]

/-- Saved in that state and created anew, the layer reads both blocks. -/
theorem snapshot_restores_smallDisk : ∃ L₀ L D R, CowLayer.create smallDisk 4 2 0 {} = .ok L₀ ∧
      CowIo.saveBitmap (runOps (L₀, smallDisk) smallHistory) ⟨none, [[.accept 2]]⟩ none {} =
        ((L, D), .ok ()) ∧
      CowLayer.create D 4 2 8 {} = .ok R ∧
      ∃ out, R.read D 0 [0, 0, 0, 0] = .ok out ∧ L.read D 0 [0, 0, 0, 0] = .ok out := by
  have hnew : create smallDisk 4 2 0 {} = .ok ⟨false, .zeros 2, ∅, 0, 2, 4⟩ := rfl
  have hsave : (CowIo.saveBitmap (runOps (⟨false, .zeros 2, ∅, 0, 2, 4⟩, smallDisk) smallHistory)
      ⟨none, [[.accept 2]]⟩ none {}).2 = .ok () := rfl
  obtain ⟨R, hR, -, hread, -⟩ := snapshot_restores hnew (by decide) smallHistory
    (Prod.ext rfl hsave) 8
  obtain ⟨out, houtR, houtL, -⟩ := hread 0 [0, 0, 0, 0] (by decide)
  exact ⟨_, _, _, R, hnew, Prod.ext rfl hsave, hR, out, houtR, houtL⟩

end Okou.Nbd
