import Okou.Nbd.CowRefine

/-!
# What a flush hands to its write function

`flush_buffered` takes its write function as a closure.  Here the closure records its calls, under
every sequence of outcomes: how much it accepts, an interruption, nothing, or an error.  The record
shows that a block is marked dirty only after all of its bytes were accepted at their place, and
that no call carries another block's bytes.
-/

namespace Okou.Nbd

open List

/-- A call of the write function: where it writes, the bytes it is handed, and how many of them it
accepts. -/
structure WriteCall where
  offset : ℕ
  handed : Bytes
  accepted : ℕ
  deriving DecidableEq, Repr

/-- The call accepts the byte at `i`. -/
def WriteCall.Accepts (call : WriteCall) (i : ℕ) : Prop := call.offset ≤ i ∧
    i < call.offset + call.accepted

/-- The call hands over nothing but bytes of the blocks, each at its place. -/
def WriteCall.Carries (call : WriteCall) (bs : ℕ) (blocks : List (ℕ × Bytes)) : Prop :=
  call.accepted ≤ call.handed.length ∧ ∀ j < call.handed.length, ∃ b ∈ blocks,
    b.1 = (call.offset + j) / bs ∧ call.handed.getD j 0 = b.2.getD ((call.offset + j) % bs) 0

/-- A write function that records its calls.  Its outcome is an error or a count, of which it
accepts as much as it was handed. -/
def recordWrite (outcome : Except IoError ℕ) (calls : List WriteCall) (offset : ℕ)
    (buffers : List Bytes) : List WriteCall × Except IoError ℕ :=
  match outcome with
  | .ok n =>
    let accepted := min n buffers.flatten.length
    (calls ++ [⟨offset, buffers.flatten, accepted⟩], .ok accepted)
  | .error e => (calls ++ [⟨offset, buffers.flatten, 0⟩], .error e)

/-- The calls that were added hand over `d` from some byte on, and accept its first `k` bytes. -/
def Recorded (calls calls' : List WriteCall) (off : ℕ) (d : Bytes) (k : ℕ) : Prop :=
  ∃ new, calls' = calls ++ new ∧
    (∀ call ∈ new, call.accepted ≤ call.handed.length ∧ ∃ s, call.offset = off + s ∧
      call.handed = d.drop s) ∧
    ∀ i < k, ∃ call ∈ new, call.Accepts (off + i)

variable {calls calls' : List WriteCall} {off : ℕ}

theorem Recorded.append {calls''} {j k} {d} (hfg : Recorded calls calls' off d k)
    (hgh : Recorded calls' calls'' (off + k) (d.drop k) j) :
      Recorded calls calls'' off d (k + j) := by
  obtain ⟨new, rfl, hcalls, haccepts⟩ := hfg
  obtain ⟨new', rfl, hcalls', haccepts'⟩ := hgh
  refine ⟨new ++ new', append_assoc .., forall_mem_append.mpr ⟨hcalls, fun call hcall => ?_⟩,
    fun i hi => ?_⟩
  · obtain ⟨hle, s, hoff, hhanded⟩ := hcalls' call hcall
    exact ⟨hle, k + s, by rw [hoff, Nat.add_assoc], by rw [hhanded, drop_drop]⟩
  · by_cases hik : i < k
    · obtain ⟨call, hcall, hacc⟩ := haccepts i hik
      exact ⟨call, mem_append_left _ hcall, hacc⟩
    · obtain ⟨call, hcall, hacc⟩ := haccepts' (i - k) (by omega)
      exact ⟨call, mem_append_right _ hcall, by rwa [show off + i = off + k + (i - k) by omega]⟩

theorem writeEffect_recorded : WriteEffect Recorded where
  none f off d := ⟨[], (append_nil f).symm, by simp, by simp⟩
  mono h hj := by
    obtain ⟨new, rfl, hcalls, haccepts⟩ := h
    exact ⟨new, rfl, hcalls, fun i hi => haccepts i (hi.trans_le hj)⟩
  retry {_ _ _ _ j _} hfg hgh := Nat.zero_add j ▸ hfg.append hgh
  trans hfg _ hgh := hfg.append hgh

variable {o : Except IoError ℕ} {buffers : List Bytes}

theorem recorded_ok {n} (h : recordWrite o calls off buffers = (calls', .ok n)) :
    n ≤ buffers.flatten.length ∧ Recorded calls calls' off buffers.flatten n := by
  cases o with
  | error e => cases h
  | ok m =>
    cases h
    refine ⟨Nat.min_le_right _ _, _, rfl, forall_mem_singleton.mpr ⟨Nat.min_le_right _ _, 0, rfl,
      rfl⟩, fun i hi => ?_⟩
    exact ⟨_, mem_singleton_self _, Nat.le_add_right _ _, Nat.add_lt_add_left hi off⟩

theorem recorded_error {e} (h : recordWrite o calls off buffers = (calls', .error e)) :
    Recorded calls calls' off buffers.flatten 0 := by
  cases o with
  | ok m => cases h
  | error e =>
    cases h
    exact ⟨_, rfl, forall_mem_singleton.mpr ⟨Nat.zero_le _, 0, rfl, rfl⟩, by simp⟩

/-! ### Blocks -/

/-- The calls that were added carry the blocks `touched`, and accept every byte of the blocks
`done`. -/
def BlocksRecorded (bs : ℕ) (calls calls' : List WriteCall) (done touched : List (ℕ × Bytes)) :
    Prop :=
  ∃ new, calls' = calls ++ new ∧ (∀ call ∈ new, call.Carries bs touched) ∧
    ∀ b ∈ done, ∀ j < bs, ∃ call ∈ new, call.Accepts (b.1 * bs + j)

theorem WriteCall.Carries.mono {call : WriteCall} {bs : ℕ} {blocks blocks'}
    (h : call.Carries bs blocks) (hsub : blocks ⊆ blocks') : call.Carries bs blocks' := by
  refine ⟨h.1, fun j hj => ?_⟩
  obtain ⟨b, hb, hbyte⟩ := h.2 j hj
  exact ⟨b, hsub hb, hbyte⟩

theorem flushEffect_blocksRecorded (bs : ℕ) : FlushEffect (BlocksRecorded bs) where
  refl f := ⟨[], (append_nil f).symm, by simp, by simp⟩
  weaken h hsub := by
    obtain ⟨new, hnew, hcarries, haccepts⟩ := h
    exact ⟨new, hnew, fun call hcall => (hcarries call hcall).mono hsub, haccepts⟩
  trans hfg hgh _ := by
    obtain ⟨new, rfl, hcarries, haccepts⟩ := hfg
    obtain ⟨new', rfl, hcarries', haccepts'⟩ := hgh
    refine ⟨new ++ new', append_assoc .., forall_mem_append.mpr ⟨?_, ?_⟩,
      forall_mem_append.mpr ⟨?_, ?_⟩⟩
    · exact fun call hcall => (hcarries call hcall).mono (subset_append_left _ _)
    · exact fun call hcall => (hcarries' call hcall).mono (subset_append_right _ _)
    · intro b hb j hj
      obtain ⟨call, hcall, hacc⟩ := haccepts b hb j hj
      exact ⟨call, mem_append_left _ hcall, hacc⟩
    · intro b hb j hj
      obtain ⟨call, hcall, hacc⟩ := haccepts' b hb j hj
      exact ⟨call, mem_append_right _ hcall, hacc⟩

/-- **The calls of a batch** carry its blocks, and what they accept covers the blocks that are
complete. -/
theorem blocksRecorded_of_recorded {bs idx c} {batch} (hbs : 0 < bs)
    (hadj : Adjacent bs idx batch) (h : Recorded calls calls' (idx * bs)
      (batch.map Prod.snd).flatten c) :
    BlocksRecorded bs calls calls' (batch.take (c / bs)) batch := by
  obtain ⟨new, rfl, hcalls, haccepts⟩ := h
  refine ⟨new, rfl, fun call hcall => ?_, fun b hb j hj => ?_⟩
  · obtain ⟨hle, s, hoff, hhanded⟩ := hcalls call hcall
    refine ⟨hle, fun j hj => ?_⟩
    rw [hhanded, length_drop, hadj.length_flatten] at hj
    have hp : (s + j) / bs < batch.length := (Nat.div_lt_iff_lt_mul hbs).mpr (by omega)
    refine ⟨batch[(s + j) / bs], getElem_mem hp, ?_, ?_⟩
    · rw [hadj.getElem_fst _ hp, hoff, Nat.add_assoc, Nat.add_comm (idx * bs),
        Nat.add_mul_div_right _ _ hbs, Nat.add_comm]
    · rw [hoff, Nat.add_assoc, Nat.mul_add_mod', ← hadj.getD_flatten _ _ hp (Nat.mod_lt _ hbs),
        Nat.div_add_mod', hhanded, getD_eq_getElem?_getD, getD_eq_getElem?_getD, getElem?_drop]
  · obtain ⟨p, hp, rfl⟩ := getElem_of_mem hb
    rw [length_take, lt_min_iff] at hp
    rw [getElem_take, hadj.getElem_fst p hp.2, Nat.add_mul, Nat.add_assoc]
    exact haccepts _ (add_lt_of_lt_div hp.1 hj)

namespace CowLayer

/-- **A flush loses nothing and claims nothing too early**, whatever its write function answers. 
The buffered blocks split, in order, into `done`, whose bits are set and whose bytes were all
accepted at their place, and `left`, which is
exactly what the buffer holds afterwards; no other bit changes, and every call carries buffered
blocks only. -/
theorem flushBuffered_exact (L : CowLayer) (outcomes : List (Except IoError ℕ))
    (hbs : 0 < L.blockSize)
    (hblocks : ∀ b ∈ L.writeBuffer.toList, b.2.length = L.blockSize ∧ b.1 < L.dirty.len) :
    ∃ L' calls result, L.flushBuffered recordWrite outcomes [] = (L', calls, result) ∧
      ∃ done left, L.writeBuffer.toList = done ++ left ∧
        (∀ idx data, L'.writeBuffer[idx]? = some data ↔ (idx, data) ∈ left) ∧
        (∀ idx, L'.isDirty idx = true ↔ (∃ b ∈ done, b.1 = idx) ∨ L.isDirty idx = true) ∧
        (∀ b ∈ done, ∀ j < L.blockSize, ∃ call ∈ calls, call.Accepts (b.1 * L.blockSize + j)) ∧
        (∀ call ∈ calls, call.Carries L.blockSize L.writeBuffer.toList) ∧
        (∀ b ∈ done, ∀ b' ∈ left, b.1 < b'.1) ∧
        (result = .ok () → L'.writeBuffer.isEmpty = true) := by
  obtain ⟨done, left, hsplit, hlayer, hok, new, hnew, hcarries, haccepts⟩ :=
    flushLoop_effect (flushEffect_blocksRecorded L.blockSize) (blocksRecorded_of_recorded hbs)
      (fun os f off remaining => writeBlockSlices_effect writeEffect_recorded recorded_ok
        recorded_error _ os f off
        remaining 0) L.writeBuffer.toList.length outcomes [] L.writeBuffer.toList
          { L with writeBuffer := ∅ } rfl hbs
      le_rfl (ascending_toList _) fun b hb => (hblocks b hb).1
  have hasc := ascending_toList L.writeBuffer
  rw [hsplit, Ascending, pairwise_append] at hasc
  have hlt : ∀ b ∈ done, b.1 < L.dirty.len := fun b hb =>
    (hblocks b (hsplit ▸ mem_append_left _ hb)).2
  refine ⟨_, _, _, rfl, done, left, hsplit, ?_, ?_, ?_, ?_, hasc.2.2, fun hres => ?_⟩
  · intro idx data
    rw [hlayer]
    exact @flushed_buffer L done left hasc.2.1 idx data
  · intro idx
    rw [hlayer]
    exact @flushed_dirty L done left hlt idx
  · rw [hnew]
    exact haccepts
  · rw [hnew]
    exact hcarries
  · obtain rfl := hok hres
    rw [hlayer]
    rfl

/-- Three buffered blocks, two of them adjacent. -/
def cutLayer : CowLayer where
  cowFd := true
  dirty := DirtyBits.zeros 5
  writeBuffer := (((∅ : Std.TreeMap ℕ Bytes).insert 1 [1, 2]).insert 2 [3, 4]).insert 4 [5, 6]
  flushThreshold := 8
  blockSize := 2
  size := 10

theorem flushBuffered_exact_cutLayer : ∃ done left, cutLayer.writeBuffer.toList = done ++ left ∧
    ∀ idx data, (cutLayer.flushBuffered recordWrite [.ok 3, .error ⟨.interrupted, ""⟩,
      .ok 0] []).1.writeBuffer[idx]? =
      some data ↔ (idx, data) ∈ left := by
  obtain ⟨L', calls, result, hrun, done, left, hsplit, hbuffer, -⟩ :=
    flushBuffered_exact cutLayer [.ok 3, .error ⟨.interrupted, ""⟩,
      .ok 0] (by decide) (by decide +kernel)
  exact ⟨done, left, hsplit, hrun ▸ hbuffer⟩

end CowLayer

end Okou.Nbd
