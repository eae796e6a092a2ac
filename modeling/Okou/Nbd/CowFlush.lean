import Okou.Nbd.Cow

/-!
# What a flush leaves behind

A flush drains the buffered blocks in order through batches of positioned
writes, any of which may stop anywhere.  Whatever the outcomes, the drained
blocks fall into a completed front, which is in the COW file and marked dirty,
and a rest, which is back in the write buffer; outside the drained blocks the
file has not changed.  The retry loop behind one batch is the concern of
`writeBlockSlices_spec`; here only its result is used.
-/

namespace Okou.Nbd

open List CowLayer

/-- Blocks in strictly increasing order of their index. -/
def Ascending (blocks : List (ℕ × Bytes)) : Prop := blocks.Pairwise fun a b => a.1 < b.1

/-- Adjacent blocks from `idx` on, each of `bs` bytes. -/
def Adjacent (bs : ℕ) : ℕ → List (ℕ × Bytes) → Prop
  | _, [] => True
  | idx, b :: blocks => b.1 = idx ∧ b.2.length = bs ∧ Adjacent bs (idx + 1) blocks

/-- The blocks `done` are in the file `g` in full, and `g` differs from `f` only
inside the blocks of `touched`. -/
structure Landed (bs : ℕ) (f g : Bytes) (done touched : List (ℕ × Bytes)) : Prop where
  stored : ∀ b ∈ done, ∀ j, j < bs → g.getD (b.1 * bs + j) 0 = b.2.getD j 0
  covered : ∀ b ∈ done, (b.1 + 1) * bs ≤ g.length
  frame : ∀ i, (∀ b ∈ touched, b.1 ≠ i / bs) → g.getD i 0 = f.getD i 0
  length_le : f.length ≤ g.length

namespace Landed

variable {bs : ℕ} {f g h : Bytes} {done done' touched touched' : List (ℕ × Bytes)}

theorem refl (bs : ℕ) (f : Bytes) : Landed bs f f [] [] where
  stored b hb := by simp at hb
  covered b hb := by simp at hb
  frame i _ := rfl
  length_le := le_rfl

theorem weaken (hl : Landed bs f g done touched) (hsub : touched ⊆ touched') :
    Landed bs f g done touched' where
  __ := hl
  frame i hi := hl.frame i fun b hb => hi b (hsub hb)

/-- A later batch leaves the blocks of an earlier one in place. -/
theorem trans (hbs : 0 < bs) (hfg : Landed bs f g done touched) (hgh : Landed bs g h done' touched')
    (hdisj : ∀ b ∈ done, ∀ b' ∈ touched', b'.1 ≠ b.1) :
      Landed bs f h (done ++ done') (touched ++ touched') where
  stored b hb j hj := by
    rcases mem_append.mp hb with hb | hb
    · have hblock : (b.1 * bs + j) / bs = b.1 := by
        rw [Nat.mul_comm, Nat.mul_add_div hbs, Nat.div_eq_of_lt hj, Nat.add_zero]
      rw [hgh.frame _ (by rw [hblock]; exact hdisj b hb), hfg.stored b hb j hj]
    · exact hgh.stored b hb j hj
  covered := forall_mem_append.mpr ⟨fun b hb => (hfg.covered b hb).trans hgh.length_le, hgh.covered⟩
  frame i hi := by
    rw [hgh.frame i fun b hb => hi b (mem_append_right _ hb), hfg.frame i fun b hb =>
      hi b (mem_append_left _ hb)]
  length_le := hfg.length_le.trans hgh.length_le

end Landed

/-! ### One batch -/

namespace Adjacent

variable {bs : ℕ}

theorem length_flatten : ∀ {idx : ℕ} {batch : List (ℕ × Bytes)}, Adjacent bs idx batch →
    (batch.map Prod.snd).flatten.length = batch.length * bs
  | _, [], _ => by simp
  | _, b :: batch, ⟨_, hlen, hadj⟩ => by
    rw [map_cons, flatten_cons, length_append, hlen, hadj.length_flatten,
      length_cons, Nat.add_mul, Nat.one_mul, Nat.add_comm]

/-- The `p`-th block of a batch is `p` blocks behind its first. -/
theorem getElem_fst : ∀ {idx : ℕ} {batch : List (ℕ × Bytes)}, Adjacent bs idx batch →
    ∀ (p : ℕ) (hp : p < batch.length), (batch[p]).1 = idx + p
  | _, [], _, p, hp => by simp at hp
  | idx, b :: batch, ⟨hidx, _, hadj⟩, p, hp => by
    cases p with
    | zero => simpa using hidx
    | succ p =>
      rw [getElem_cons_succ, hadj.getElem_fst p (by simpa using hp)]
      omega

/-- The `p`-th block of a batch starts `p` block sizes into its bytes. -/
theorem getD_flatten : ∀ {idx : ℕ} {batch : List (ℕ × Bytes)}, Adjacent bs idx batch →
    ∀ (p j : ℕ) (hp : p < batch.length), j < bs →
      (batch.map Prod.snd).flatten.getD (p * bs + j) 0 = (batch[p]).2.getD j 0
  | _, [], _, p, _, hp, _ => by simp at hp
  | idx, b :: batch, ⟨_, hlen, hadj⟩, p, j, hp, hj => by
    rw [map_cons, flatten_cons]
    cases p with
    | zero =>
      rw [Nat.zero_mul, Nat.zero_add, getD_append _ _ _ _ (by omega), getElem_cons_zero]
    | succ p =>
      have hle : b.2.length ≤ (p + 1) * bs + j := by
        rw [hlen, Nat.add_mul]
        omega
      rw [getD_append_right _ _ _ _ hle, getElem_cons_succ,
        ← hadj.getD_flatten p j (by simpa using hp) hj]
      congr 1
      rw [hlen, Nat.add_mul]
      omega

end Adjacent

/-- Byte `j` of a block before the one in which `c` ends. -/
theorem add_lt_of_lt_div {bs c p j : ℕ} (hp : p < c / bs) (hj : j < bs) : p * bs + j < c := by
  have hblock : (p + 1) * bs ≤ c / bs * bs := Nat.mul_le_mul_right _ hp
  have hle := Nat.div_mul_le_self c bs
  rw [Nat.add_mul] at hblock
  omega

/-- **A batch of which `c` bytes were completed** has its first `c / bs` blocks
in the file. -/
theorem landed_of_writtenUpTo {bs idx c : ℕ} {f g : Bytes} {batch}
    (hbs : 0 < bs) (hadj : Adjacent bs idx batch)
    (hw : WrittenUpTo f g (idx * bs) (batch.map Prod.snd).flatten c) :
    Landed bs f g (batch.take (c / bs)) batch where
  stored b hb j hj := by
    obtain ⟨p, hp, rfl⟩ := getElem_of_mem hb
    have hp' : p < c / bs ∧ p < batch.length := by
      rw [length_take] at hp
      omega
    rw [getElem_take, hadj.getElem_fst p hp'.2, Nat.add_mul, Nat.add_assoc,
      hw.written _ (add_lt_of_lt_div hp'.1 hj), hadj.getD_flatten p j hp'.2 hj]
  covered b hb := by
    obtain ⟨p, hp, rfl⟩ := getElem_of_mem hb
    have hp' : p < c / bs ∧ p < batch.length := by
      rw [length_take] at hp
      omega
    have hlast := add_lt_of_lt_div hp'.1 (Nat.sub_lt hbs Nat.one_pos)
    have hcov := hw.covered (by omega)
    rw [getElem_take, hadj.getElem_fst p hp'.2, Nat.add_assoc, Nat.add_mul, Nat.add_mul]
    omega
  frame i hi := by
    refine hw.frame i ?_
    rw [hadj.length_flatten]
    by_contra hin
    -- `i` lies in the block the batch holds at position `i / bs - idx`
    have hlo : idx ≤ i / bs := (Nat.le_div_iff_mul_le hbs).mpr (by omega)
    have hhi : i / bs < idx + batch.length := by
      refine (Nat.div_lt_iff_lt_mul hbs).mpr ?_
      rw [Nat.add_mul]
      omega
    have hp : i / bs - idx < batch.length := by omega
    refine hi _ (getElem_mem hp) ?_
    rw [hadj.getElem_fst _ hp]
    omega
  length_le := hw.length_le

/-! ### Forming a batch -/

theorem takeAdjacent_append (capacity previous : ℕ) (blocks) :
    (takeAdjacent capacity previous blocks).1
      ++ (takeAdjacent capacity previous blocks).2 = blocks := by
  induction blocks generalizing capacity previous with
  | nil => cases capacity <;> rfl
  | cons b blocks ih =>
    cases capacity with
    | zero => rfl
    | succ capacity =>
      simp only [takeAdjacent]
      split
      · simp [ih]
      · rfl

theorem adjacent_takeAdjacent {bs} (capacity previous : ℕ) (blocks)
    (hlen : ∀ b ∈ blocks, b.2.length = bs) :
    Adjacent bs (previous + 1) (takeAdjacent capacity previous blocks).1 := by
  induction blocks generalizing capacity previous with
  | nil => cases capacity <;> exact trivial
  | cons b blocks ih =>
    obtain ⟨idx, data⟩ := b
    cases capacity with
    | zero => exact trivial
    | succ capacity =>
      simp only [takeAdjacent]
      split
      · next hidx =>
        subst hidx
        exact ⟨rfl, hlen _ mem_cons_self, ih capacity _ (forall_mem_cons.mp hlen).2⟩
      · exact trivial

/-! ### The layer during a flush -/

/-- What the loop over the batches needs of a relation between the states around it, the blocks that
are complete and those that were handed out. -/
structure FlushEffect {φ : Type*} (R : φ → φ → List (ℕ × Bytes) → List (ℕ × Bytes) → Prop) :
    Prop where
  refl (f : φ) : R f f [] []
  weaken {f g : φ} {done touched touched' : List (ℕ × Bytes)} (h : R f g done touched)
    (hsub : touched ⊆ touched') : R f g done touched'
  trans {f g h : φ} {done done' touched touched' : List (ℕ × Bytes)} (hfg : R f g done touched)
    (hgh : R g h done' touched') (hdisj : ∀ b ∈ done, ∀ b' ∈ touched', b'.1 ≠ b.1) :
    R f h (done ++ done') (touched ++ touched')

namespace CowLayer

theorem foldl_set_len (d : DirtyBits) (blocks : List (ℕ × Bytes)) :
    (blocks.foldl (fun d b => d.set b.1) d).len = d.len := by
  induction blocks generalizing d with
  | nil => rfl
  | cons b blocks ih => rw [foldl_cons, ih, DirtyBits.len_set]

/-- Marking blocks dirty sets exactly their bits. -/
theorem bit_markDirty {L : CowLayer} {blocks} (hlt : ∀ b ∈ blocks, b.1 < L.dirty.len) (k : ℕ) :
    (L.markDirty blocks).dirty.bit k ↔ (∃ b ∈ blocks, b.1 = k) ∨ L.dirty.bit k := by
  simp only [markDirty]
  generalize L.dirty = d at hlt ⊢
  induction blocks generalizing d with
  | nil => simp
  | cons b blocks ih =>
    have hb : b.1 < d.len := hlt b mem_cons_self
    rw [foldl_cons, ih _ fun b' hb' => by
      rw [DirtyBits.len_set]; exact hlt b' (mem_cons_of_mem _ hb'), DirtyBits.bit_set hb]
    simp only [mem_cons, exists_eq_or_imp, Bool.or_eq_true, decide_eq_true_eq]
    constructor
    · rintro (h | h | h)
      · exact .inl (.inr h)
      · exact .inl (.inl h.symm)
      · exact .inr h
    · rintro ((h | h) | h)
      · exact .inr (.inl h.symm)
      · exact .inl h
      · exact .inr (.inr h)

/-- **A flush keeps the effect of its batches.**  The drained blocks split into a front that is
complete and marked dirty, and a rest that is back in the buffer; the rest is empty when the flush
succeeds. -/
theorem flushLoop_effect {ω φ : Type*} {W : φ → φ → ℕ → Bytes → ℕ → Prop}
    {R : φ → φ → List (ℕ × Bytes) → List (ℕ × Bytes) → Prop} {bs : ℕ} (hR : FlushEffect R)
    (hbatch : ∀ {f g idx batch c}, Adjacent bs idx batch →
      W f g (idx * bs) (batch.map Prod.snd).flatten c → R f g (batch.take (c / bs)) batch)
    {writeFn : ω → φ → ℕ → List Bytes → φ × Except IoError ℕ}
    (hwrite : ∀ (os : List ω) (f : φ) (off : ℕ) (remaining : List Bytes),
      match writeBlockSlices writeFn bs os f off remaining 0 with
      | (_, g, .ok _) => W f g off remaining.flatten remaining.flatten.length
      | (_, g, .error (_, first)) => ∃ c, first = (0 + c) / bs ∧ W f g off remaining.flatten c) :
    ∀ (fuel : ℕ) (os : List ω) (f : φ) (blocks : List (ℕ × Bytes)) (L : CowLayer),
      L.blockSize = bs → 0 < bs → blocks.length ≤ fuel → Ascending blocks →
        (∀ b ∈ blocks, b.2.length = bs) →
      ∃ done left, blocks = done ++ left ∧
        (flushLoop writeFn fuel os f blocks L).1 = (L.markDirty done).restore left ∧
        ((flushLoop writeFn fuel os f blocks L).2.2 = .ok () → left = []) ∧
        R f (flushLoop writeFn fuel os f blocks L).2.1 done blocks := by
  -- each round takes off the first block at least, so the fuel bounds the rounds
  intro fuel
  induction fuel with
  | zero =>
    intro os f blocks L _ _ hfuel _ _
    obtain rfl := length_eq_zero_iff.mp (Nat.le_zero.mp hfuel)
    exact ⟨[], [], rfl, rfl, fun _ => rfl, hR.refl _⟩
  | succ fuel ih =>
    rintro os f blocks L rfl hbs hfuel hasc hlen
    cases blocks with
    | nil => exact ⟨[], [], rfl, rfl, fun _ => rfl, hR.refl _⟩
    | cons b blocks =>
      obtain ⟨idx, data⟩ := b
      have hsplit := takeAdjacent_append (maxWriteIovecs - 1) idx blocks
      have hadj := adjacent_takeAdjacent (maxWriteIovecs - 1) idx blocks
        (forall_mem_cons.mp hlen).2
      simp only [flushLoop]
      rcases htake : takeAdjacent (maxWriteIovecs - 1) idx blocks with ⟨more, rest⟩
      rw [htake] at hsplit hadj
      have hfull : Adjacent L.blockSize idx ((idx, data) :: more) :=
        ⟨rfl, hlen _ mem_cons_self, hadj⟩
      have hblocks : (idx, data) :: blocks = ((idx, data) :: more) ++ rest := by
        rw [cons_append, hsplit]
      have hres := hwrite os f (idx * L.blockSize) (((idx, data) :: more).map Prod.snd)
      rcases hw : writeBlockSlices writeFn L.blockSize os f (idx * L.blockSize)
        (((idx, data) :: more).map Prod.snd) 0 with ⟨os', f', r⟩
      rw [hw] at hres
      generalize hbatchdef : (idx, data) :: more = batch at *
      cases r with
      | error e =>
        -- the blocks whose bytes are all written stay, the others go back with the rest
        obtain ⟨e, first⟩ := e
        obtain ⟨c, rfl, hwr⟩ := hres
        rw [Nat.zero_add] at *
        refine ⟨batch.take (c / L.blockSize), batch.drop (c / L.blockSize) ++ rest, ?_,
          ?_, by simp, ?_⟩
        · rw [hblocks, ← append_assoc, take_append_drop]
        · simp [restore]
        · rw [hblocks]
          exact hR.weaken (hbatch hfull hwr) (subset_append_left _ _)
      | ok u =>
        have hland := hbatch hfull hres
        rw [hfull.length_flatten, Nat.mul_div_cancel _ hbs, take_length] at hland
        rw [hblocks] at hasc hlen hfuel
        have hrest : rest.length ≤ fuel := by
          rw [← hbatchdef, length_append, length_cons] at hfuel
          omega
        obtain ⟨done, left, hdone, hL, hok, hlanded⟩ := ih os' f' rest (L.markDirty batch) rfl hbs
          hrest (pairwise_append.mp hasc).2.1 fun b hb => hlen b (mem_append_right _ hb)
        refine ⟨batch ++ done, left, ?_, ?_, hok, ?_⟩
        · rw [hblocks, hdone, append_assoc]
        · rw [hL]
          simp [markDirty]
        · rw [hblocks]
          refine hR.trans hland hlanded fun a ha b hb => ?_
          have := (pairwise_append.mp hasc).2.2 a ha b hb
          omega

theorem flushEffect_landed {bs} (hbs : 0 < bs) : FlushEffect (Landed bs) :=
  ⟨.refl _, .weaken, .trans hbs⟩

/-- **The outcome of a flush** on the file: the completed front is in it, and nothing else has
changed. -/
theorem flushLoop_spec {ω : Type*} {writeFn : ω → Bytes → ℕ → List Bytes → Bytes × Except IoError ℕ}
    (hwf : HonestWrite writeFn) (fuel : ℕ) (os : List ω) (f : Bytes) (blocks : List (ℕ × Bytes))
    (L : CowLayer)
    (hbs : 0 < L.blockSize) : blocks.length ≤ fuel → Ascending blocks →
      (∀ b ∈ blocks, b.2.length = L.blockSize) →
      ∃ done left, blocks = done ++ left ∧
        (flushLoop writeFn fuel os f blocks L).1 = (L.markDirty done).restore left ∧
        ((flushLoop writeFn fuel os f blocks L).2.2 = .ok () → left = []) ∧
        Landed L.blockSize f (flushLoop writeFn fuel os f blocks L).2.1 done blocks := by
  refine flushLoop_effect (flushEffect_landed hbs) (landed_of_writtenUpTo hbs)
    (fun os f off remaining => ?_)
    fuel os f blocks L rfl hbs
  have hres := writeBlockSlices_spec hwf L.blockSize os f off remaining 0
  split
  all_goals
    next h =>
    rw [h] at hres
    exact hres

end CowLayer

end Okou.Nbd
