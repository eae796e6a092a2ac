import Mathlib.Data.List.Basic

/-!
# Items cut from a stream that arrives in chunks

A stream is a sequence of items laid end to end.  A `Reader` looks at the front of
the stream and finds an item, finds that the stream cannot go on, or has to wait for
more.  What it finds is final: later input never changes it.

`Splits r s bs rest` says that the items at the front of `s` are `bs`, and that no
further item starts at `rest`.  A buffered decoder that is fed chunk by chunk and keeps
the unread rest then returns exactly the items of everything it was fed, however the
stream was cut.
-/

namespace Okou

open List

variable {α β ε σ : Type*}

/-- What stands at the front of a stream. -/
inductive Read (β ε : Type*)
  /-- the input is not long enough to tell -/
  | more
  /-- an item and the length of its text -/
  | item (b : β) (n : ℕ)
  /-- no stream goes on like this -/
  | bad (e : ε)

/-- A look at the front of a stream.  What has been found stays found when more input
arrives. -/
structure Reader (α β ε : Type*) where
  read : List α → Read β ε
  item_pos : ∀ {s b n}, read s = .item b n → 0 < n
  item_le : ∀ {s b n}, read s = .item b n → n ≤ s.length
  item_append : ∀ {s b n} (t), read s = .item b n → read (s ++ t) = .item b n
  bad_append : ∀ {s e} (t), read s = .bad e → read (s ++ t) = .bad e

namespace Reader

variable (r : Reader α β ε)

/-- The items at the front of the stream are `bs`; no item starts at `rest`. -/
inductive Splits : List α → List β → List α → Prop
  | stop {s} : (∀ b n, r.read s ≠ .item b n) → Splits s [] s
  | item {s b n bs rest} : r.read s = .item b n → Splits (s.drop n) bs rest →
    Splits s (b :: bs) rest

variable {r} {s rest : List α} {bs : List β}

variable {rest' : List α} {bs' : List β}

theorem Splits.unique (h : r.Splits s bs rest) (h' : r.Splits s bs' rest') : bs = bs' ∧
    rest = rest' := by
  induction h generalizing bs' with
  | stop hstop =>
    cases h' with
    | stop => exact ⟨rfl, rfl⟩
    | item hread => exact absurd hread (hstop _ _)
  | item hread _ ih =>
    cases h' with
    | stop hstop => exact absurd hread (hstop _ _)
    | item hread' hsplit' =>
      obtain ⟨rfl, rfl⟩ := Read.item.inj (hread.symm.trans hread')
      obtain ⟨rfl, rfl⟩ := ih hsplit'
      exact ⟨rfl, rfl⟩

variable (r) in
/-- Every stream splits: an item is never empty. -/
theorem exists_splits (s) : ∃ bs rest, r.Splits s bs rest := by
  induction hn : s.length using Nat.strongRecOn generalizing s with
  | _ n ih =>
    cases hread : r.read s with
    | more | bad => exact ⟨[], s, .stop fun b n h => by rw [hread] at h; cases h⟩
    | item b k =>
      have hpos := r.item_pos hread
      have hle := r.item_le hread
      have hlt : (s.drop k).length < n := by
        rw [length_drop]
        omega
      obtain ⟨bs, rest, hsplit⟩ := ih _ hlt (s.drop k) rfl
      exact ⟨b :: bs, rest, .item hread hsplit⟩

variable {e : ε}

section

variable (h : r.Splits s bs rest)

include h

theorem Splits.read_rest (b : β) (n : ℕ) : r.read rest ≠ .item b n := by
  induction h with
  | stop hstop => exact hstop b n
  | item _ _ ih => exact ih

theorem Splits.suffix : rest <:+ s := by
  induction h with
  | stop => exact suffix_rfl
  | item _ _ ih => exact ih.trans (drop_suffix _ _)

/-- When more input arrives, the items found so far stay, and the rest is read on. -/
theorem Splits.append {t : List α} (h' : r.Splits (rest ++ t) bs' rest') :
    r.Splits (s ++ t) (bs ++ bs') rest' := by
  induction h with
  | stop => exact h'
  | @item s b n bs rest hread _ ih =>
    refine .item (r.item_append t hread) ?_
    rw [drop_append_of_le_length (r.item_le hread)]
    exact ih h'

/-- An end that cannot go on stays one. -/
theorem Splits.append_bad (hbad : r.read rest = .bad e) (t) : r.Splits (s ++ t) bs (rest ++ t) := by
  have hstop : r.Splits (rest ++ t) [] (rest ++ t) := by
    refine .stop fun b n hread => ?_
    rw [r.bad_append t hbad] at hread
    cases hread
  simpa using h.append hstop

end

/-- Items written end to end are read back. -/
theorem splits_flatMap {write} (t)
    (hwrite : ∀ b ∈ bs, ∀ t, r.read (write b ++ t) = .item b (write b).length)
    (hstop : ∀ b n, r.read t ≠ .item b n) : r.Splits (bs.flatMap write ++ t) bs t := by
  induction bs with
  | nil => exact .stop hstop
  | cons b bs ih =>
    have hread := hwrite b mem_cons_self (bs.flatMap write ++ t)
    rw [flatMap_cons, append_assoc]
    refine .item hread ?_
    rw [drop_left]
    exact ih (forall_mem_cons.mp hwrite).2

end Reader

/-! ### Buffered decoders -/

section Feed

variable (decode : σ → List α → σ × Except ε (List β))

/-- The calls of a decoder on the chunks of a stream, up to its first failure: the state
after the last call that succeeded, the items returned by then, and the failed call's
state and error with the chunks that were not fed. -/
def feedAll : σ → List (List α) → σ × List β × Option (σ × ε × List (List α))
  | s, [] => (s, [], none)
  | s, chunk :: chunks =>
    match decode s chunk with
    | (s', .error e) => (s, [], some (s', e, chunks))
    | (s', .ok bs) =>
      let (s'', bs', failed) := feedAll s' chunks
      (s'', bs ++ bs', failed)

variable {decode}

variable {s' t s : σ}

/-- A call that fails comes after calls that all succeed. -/
theorem feedAll_failed {chunks rest} (h : feedAll decode s chunks = (s', bs, some (t, e, rest))) :
    ∃ fed chunk, chunks = fed ++ chunk :: rest ∧ feedAll decode s fed = (s', bs, none) ∧
      decode s' chunk = (t, .error e) := by
  induction chunks generalizing s bs with
  | nil => cases h
  | cons chunk chunks ih =>
    simp only [feedAll] at h
    rcases hdec : decode s chunk with ⟨s₁, result⟩
    rw [hdec] at h
    cases result with
    | error e' =>
      cases h
      exact ⟨[], chunk, rfl, rfl, hdec⟩
    | ok bs₁ =>
      rcases hfeed : feedAll decode s₁ chunks with ⟨s₂, bs₂, failed⟩
      simp only [hfeed] at h
      obtain ⟨rfl, rfl, rfl⟩ := h
      obtain ⟨fed, chunk', rfl, hfed, hfail⟩ := ih hfeed
      refine ⟨chunk :: fed, chunk', rfl, ?_, hfail⟩
      simp only [feedAll, hdec, hfed]

/-- A decoder that keeps the unread rest of its input in a buffer and returns the items
before it, unless the rest cannot go on. -/
structure Reader.Buffers (r : Reader α β ε) (buf : σ → List α)
    (decode : σ → List α → σ × Except ε (List β)) : Prop where
  ok : ∀ {s chunk s' bs}, decode s chunk = (s', .ok bs) →
    r.Splits (buf s ++ chunk) bs (buf s') ∧ r.read (buf s') = .more
  error : ∀ {s chunk s' e}, decode s chunk = (s', .error e) →
    ∃ bs rest, r.Splits (buf s ++ chunk) bs rest ∧ r.read rest = .bad e

namespace Reader.Buffers

variable {r : Reader α β ε} {buf : σ → List α} (h : r.Buffers buf decode)

include h

variable {chunks : List (List α)} {bs : List β}

/-- **The items returned by calls that all succeed are the items of what was fed.** -/
theorem feedAll_ok (hs : r.read (buf s) = .more) (hrun : feedAll decode s chunks = (s', bs, none)) :
    r.Splits (buf s ++ chunks.flatten) bs (buf s') ∧ r.read (buf s') = .more := by
  induction chunks generalizing s bs with
  | nil =>
    cases hrun
    rw [flatten_nil, append_nil]
    refine ⟨.stop fun b n hread => ?_, hs⟩
    rw [hs] at hread
    cases hread
  | cons chunk chunks ih =>
    simp only [feedAll] at hrun
    rcases hdec : decode s chunk with ⟨s₁, result⟩
    rw [hdec] at hrun
    cases result with
    | error e => cases hrun
    | ok bs₁ =>
      obtain ⟨hsplit, hmore⟩ := h.ok hdec
      rcases hfeed : feedAll decode s₁ chunks with ⟨s₂, bs₂, failed⟩
      simp only [hfeed] at hrun
      obtain ⟨rfl, rfl, rfl⟩ := hrun
      obtain ⟨hrest, hmore'⟩ := ih hmore hfeed
      rw [flatten_cons, ← append_assoc]
      exact ⟨hsplit.append hrest, hmore'⟩

/-- **The call that fails is the one whose chunk brings the stream to an end that cannot
go on.** -/
theorem feedAll_error {rest} (hs : r.read (buf s) = .more)
    (hrun : feedAll decode s chunks = (s', bs, some (t, e, rest))) :
    ∃ fed chunk, chunks = fed ++ chunk :: rest ∧ r.Splits (buf s ++ fed.flatten) bs (buf s') ∧
      r.read (buf s') = .more ∧
      ∃ bs' rest', r.Splits (buf s ++ (fed.flatten ++ chunk)) bs' rest' ∧
        r.read rest' = .bad e := by
  obtain ⟨fed, chunk, rfl, hfed, hfail⟩ := feedAll_failed hrun
  obtain ⟨hsplit, hmore⟩ := h.feedAll_ok hs hfed
  obtain ⟨bs', rest', hsplit', hbad⟩ := h.error hfail
  refine ⟨fed, chunk, rfl, hsplit, hmore, bs ++ bs', rest', ?_, hbad⟩
  rw [← append_assoc]
  exact hsplit.append hsplit'

/-- A stream that can go on is decoded without failure. -/
theorem feedAll_of_splits (hs : r.read (buf s) = .more)
    (hsplit : r.Splits (buf s ++ chunks.flatten) bs rest)
    (hmore : r.read rest = .more) : ∃ s', feedAll decode s chunks = (s', bs, none) ∧
      buf s' = rest := by
  rcases hrun : feedAll decode s chunks with ⟨s', bs', failed⟩
  cases failed with
  | none =>
    obtain ⟨hsplit', -⟩ := h.feedAll_ok hs hrun
    obtain ⟨rfl, hrest⟩ := hsplit.unique hsplit'
    exact ⟨s', rfl, hrest.symm⟩
  | some failed =>
    -- the stream would then end in what cannot go on, however it continues
    obtain ⟨t, e, unfed⟩ := failed
    obtain ⟨fed, chunk, rfl, -, -, bs'', rest'', hsplit', hbad⟩ := h.feedAll_error hs hrun
    have hlater := hsplit'.append_bad hbad unfed.flatten
    have hstr : buf s ++ (fed.flatten ++ chunk) ++ unfed.flatten = buf s ++
      (fed ++ chunk :: unfed).flatten := by
      simp
    rw [hstr] at hlater
    obtain ⟨-, rfl⟩ := hsplit.unique hlater
    rw [r.bad_append _ hbad] at hmore
    cases hmore

end Reader.Buffers
end Feed
end Okou
