import Mathlib.Data.List.Basic

/-!
# UTF-8

Texts are lists of code points and bytes are numbers.  The decoder is a machine that
reads one byte at a time and reports what it cannot decode as one error for the longest
part that could have been the beginning of a character; what becomes of the errors is up
to the caller.
-/

namespace Okou

open List

/-- A code point that is not a surrogate. -/
def IsScalar (c : ℕ) : Prop := c < 0x110000 ∧ (c < 0xD800 ∨ 0xDFFF < c)

instance (c : ℕ) : Decidable (IsScalar c) := inferInstanceAs (Decidable (_ ∧ _))

/-- The bytes of a code point. -/
def utf8Encode (c : ℕ) : List ℕ :=
  if c < 0x80 then [c]
  else if c < 0x800 then [0xC0 + c / 64, 0x80 + c % 64]
  else if c < 0x10000 then [0xE0 + c / 4096, 0x80 + c / 64 % 64, 0x80 + c % 64]
  else [0xF0 + c / 262144, 0x80 + c / 4096 % 64, 0x80 + c / 64 % 64, 0x80 + c % 64]

/-- A range of bytes that go on with a character. -/
structure TailRange where
  lo : ℕ
  hi : ℕ
  le_lo : 0x80 ≤ lo
  hi_le : hi ≤ 0xBF

/-- All bytes that go on with a character. -/
def anyTail : TailRange := ⟨0x80, 0xBF, Nat.le_refl _, Nat.le_refl _⟩

/-- Where the decoder stands between two bytes. -/
inductive Utf8State
  /-- Between characters. -/
  | start
  /-- One byte of the range is owed and then `more` others; `acc` has the bits so far. -/
  | owes (more acc : ℕ) (range : TailRange)

/-- The first byte of a character: what comes out, and the next state. -/
def utf8Lead (b : ℕ) : List (Option ℕ) × Utf8State :=
  if b < 0x80 then ([some b], .start)
  else if 0xC2 ≤ b ∧ b ≤ 0xDF then ([], .owes 0 (b - 0xC0) anyTail)
  else if b = 0xE0 then ([], .owes 1 0 ⟨0xA0, 0xBF, by decide, Nat.le_refl _⟩)
  else if b = 0xED then ([], .owes 1 0xD ⟨0x80, 0x9F, Nat.le_refl _, by decide⟩)
  else if 0xE1 ≤ b ∧ b ≤ 0xEF then ([], .owes 1 (b - 0xE0) anyTail)
  else if b = 0xF0 then ([], .owes 2 0 ⟨0x90, 0xBF, by decide, Nat.le_refl _⟩)
  else if 0xF1 ≤ b ∧ b ≤ 0xF3 then ([], .owes 2 (b - 0xF0) anyTail)
  else if b = 0xF4 then ([], .owes 2 4 ⟨0x80, 0x8F, Nat.le_refl _, by decide⟩)
  else ([none], .start)

/-- One byte. -/
def utf8Step : Utf8State → ℕ → List (Option ℕ) × Utf8State
  | .start, b => utf8Lead b
  | .owes more acc range, b =>
    if range.lo ≤ b ∧ b ≤ range.hi then
      match more with
      | 0 => ([some (acc * 64 + (b - 0x80))], .start)
      | more + 1 => ([], .owes more (acc * 64 + (b - 0x80)) anyTail)
    -- the character is broken off, and this byte begins another one
    else (none :: (utf8Lead b).1, (utf8Lead b).2)

/-- What the end of the text leaves. -/
def utf8End : Utf8State → List (Option ℕ)
  | .start => []
  | .owes .. => [none]

/-- The characters in a list of bytes, with `none` for what cannot be decoded. -/
def utf8Scan : Utf8State → List ℕ → List (Option ℕ)
  | state, [] => utf8End state
  | state, b :: bytes => (utf8Step state b).1 ++ utf8Scan (utf8Step state b).2 bytes

/-- Decode, or refuse. -/
def utf8Decode (bytes : List ℕ) : Option (List ℕ) := (utf8Scan .start bytes).mapM id

/-- Decode, with a replacement character for each error. -/
def utf8DecodeReplace (bytes : List ℕ) : List ℕ :=
  (utf8Scan .start bytes).map fun c => c.getD 0xFFFD

/-! ### Where a character begins -/

/-- A byte that does not go on with a character. -/
def IsLead (b : ℕ) : Prop := b < 0x80 ∨ 0xC0 ≤ b

variable {b c : ℕ} {text : List ℕ}

theorem TailRange.not_lead (range : TailRange) (hb : IsLead b) :
    ¬(range.lo ≤ b ∧ b ≤ range.hi) := by
  have hlo := range.le_lo
  have hhi := range.hi_le
  unfold IsLead at hb
  omega

theorem utf8Scan_lead (state : Utf8State) (hb : IsLead b) (bytes : List ℕ) :
    utf8Scan state (b :: bytes) = utf8End state ++ utf8Scan .start (b :: bytes) := by
  cases state with
  | start => rfl
  | owes more acc range =>
    have hstep : utf8Step (.owes more acc range) b = (none :: (utf8Lead b).1, (utf8Lead b).2) :=
      if_neg (range.not_lead hb)
    simp only [utf8Scan, hstep]
    rfl

/-- **Decoding starts afresh where a character begins.** -/
theorem utf8Scan_append_lead (hb : IsLead b) (bytes) : ∀ (before : List ℕ) (state : Utf8State),
      utf8Scan state (before ++ b :: bytes) = utf8Scan state before ++
        utf8Scan .start (b :: bytes) := by
  intro before
  induction before with
  | nil => exact fun state => utf8Scan_lead state hb bytes
  | cons a before ih =>
    intro state
    rw [cons_append, utf8Scan, utf8Scan, ih, append_assoc]

/-- The bytes of a character begin it. -/
theorem exists_lead (c : ℕ) : ∃ b bytes, utf8Encode c = b :: bytes ∧ IsLead b := by
  unfold utf8Encode IsLead
  split
  · exact ⟨_, _, rfl, by omega⟩
  split
  · exact ⟨_, _, rfl, by omega⟩
  split
  · exact ⟨_, _, rfl, by omega⟩
  · exact ⟨_, _, rfl, by omega⟩

/-- The scan of one more byte from a state that owes bytes. -/
theorem utf8Scan_owes {more acc} {range} (hb : range.lo ≤ b ∧ b ≤ range.hi) (bytes) :
    utf8Scan (.owes (more + 1) acc range) (b :: bytes) =
      utf8Scan (.owes more (acc * 64 + (b - 0x80)) anyTail) bytes := by
  have hstep : utf8Step (.owes (more + 1) acc range) b = ([],
    .owes more (acc * 64 + (b - 0x80)) anyTail) := if_pos hb
  rw [utf8Scan, hstep, nil_append]

/-- The scan of the last byte of a character. -/
theorem utf8Scan_last {acc} {range} (hb : range.lo ≤ b ∧ b ≤ range.hi) (bytes) :
    utf8Scan (.owes 0 acc range) (b :: bytes) = some (acc * 64 + (b - 0x80)) :: utf8Scan .start
      bytes := by
  have hstep : utf8Step (.owes 0 acc range) b = ([some (acc * 64 + (b - 0x80))], .start) :=
    if_pos hb
  rw [utf8Scan, hstep, singleton_append]

/-- The scan of a first byte that only changes the state. -/
theorem utf8Scan_first {state} (hb : utf8Lead b = ([], state)) (bytes) :
    utf8Scan .start (b :: bytes) = utf8Scan state bytes := by
  have hstep : utf8Step .start b = ([], state) := hb
  rw [utf8Scan, hstep, nil_append]

/-- A byte that goes on with a character. -/
theorem mem_anyTail (n : ℕ) : anyTail.lo ≤ 0x80 + n % 64 ∧ 0x80 + n % 64 ≤ anyTail.hi := by
  unfold anyTail
  dsimp only
  omega

theorem utf8Scan_encode_two (hlo : 0x80 ≤ c) (hhi : c < 0x800) (bytes) :
    utf8Scan .start ((0xC0 + c / 64) :: (0x80 + c % 64) :: bytes) =
      some c :: utf8Scan .start bytes := by
  have hlead : utf8Lead (0xC0 + c / 64) = ([], .owes 0 (0xC0 + c / 64 - 0xC0) anyTail) := by
    rw [utf8Lead, if_neg (by omega), if_pos (by omega)]
  have hsum : (0xC0 + c / 64 - 0xC0) * 64 + (0x80 + c % 64 - 0x80) = c := by omega
  rw [utf8Scan_first hlead, utf8Scan_last (mem_anyTail c), hsum]

/-- The lead byte of three: the range keeps shorter spellings and surrogates out. -/
theorem utf8Lead_three (hlo : 0x800 ≤ c) (hhi : c < 0x10000) (hscal : c < 0xD800 ∨ 0xDFFF < c) :
    ∃ range : TailRange, utf8Lead (0xE0 + c / 4096) = ([], .owes 1 (c / 4096) range) ∧
      range.lo ≤ 0x80 + c / 64 % 64 ∧ 0x80 + c / 64 % 64 ≤ range.hi := by
  have hE0 : ¬(0xC2 ≤ 0xE0 + c / 4096 ∧ 0xE0 + c / 4096 ≤ 0xDF) := by omega
  have hascii : ¬0xE0 + c / 4096 < 0x80 := by omega
  by_cases hfirst : c / 4096 = 0
  · refine ⟨⟨0xA0, 0xBF, by decide, Nat.le_refl _⟩, ?_, ?_⟩
    · rw [utf8Lead, if_neg hascii, if_neg hE0, if_pos (by omega), hfirst]
    · dsimp only
      omega
  by_cases hsurr : c / 4096 = 0xD
  · refine ⟨⟨0x80, 0x9F, Nat.le_refl _, by decide⟩, ?_, ?_⟩
    · rw [utf8Lead, if_neg hascii, if_neg hE0, if_neg (by omega), if_pos (by omega), hsurr]
    · dsimp only
      omega
  · refine ⟨anyTail, ?_, mem_anyTail (c / 64)⟩
    rw [utf8Lead, if_neg hascii, if_neg hE0, if_neg (by omega), if_neg (by omega),
      if_pos (by omega), Nat.add_sub_cancel_left]

theorem utf8Scan_encode_three (hlo : 0x800 ≤ c) (hhi : c < 0x10000)
    (hscal : c < 0xD800 ∨ 0xDFFF < c)
    (bytes) : utf8Scan .start ((0xE0 + c / 4096) :: (0x80 + c / 64 % 64) :: (0x80 + c % 64) ::
      bytes) =
      some c :: utf8Scan .start bytes := by
  obtain ⟨range, hlead, hrange⟩ := utf8Lead_three hlo hhi hscal
  have hsum : (c / 4096 * 64 + (0x80 + c / 64 % 64 - 0x80)) * 64 + (0x80 + c % 64 - 0x80) = c := by
    omega
  rw [utf8Scan_first hlead, utf8Scan_owes hrange, utf8Scan_last (mem_anyTail c), hsum]

/-- The lead byte of four: the range keeps shorter spellings and larger numbers out. -/
theorem utf8Lead_four (hlo : 0x10000 ≤ c) (hhi : c < 0x110000) :
    ∃ range : TailRange, utf8Lead (0xF0 + c / 262144) = ([], .owes 2 (c / 262144) range) ∧
      range.lo ≤ 0x80 + c / 4096 % 64 ∧ 0x80 + c / 4096 % 64 ≤ range.hi := by
  have hbef : utf8Lead (0xF0 + c / 262144) =
      if 0xF0 + c / 262144 = 0xF0 then ([], .owes 2 0 ⟨0x90, 0xBF, by decide, Nat.le_refl _⟩)
      else if 0xF1 ≤ 0xF0 + c / 262144 ∧ 0xF0 + c / 262144 ≤ 0xF3 then
        ([], .owes 2 (0xF0 + c / 262144 - 0xF0) anyTail)
      else if 0xF0 + c / 262144 = 0xF4 then ([], .owes 2 4 ⟨0x80, 0x8F, Nat.le_refl _, by decide⟩)
      else ([none], .start) := by
    rw [utf8Lead, if_neg (by omega), if_neg (by omega), if_neg (by omega), if_neg (by omega),
      if_neg (by omega)]
  rw [hbef]
  by_cases hfirst : c / 262144 = 0
  · refine ⟨⟨0x90, 0xBF, by decide, Nat.le_refl _⟩, ?_, ?_⟩
    · rw [if_pos (by omega), hfirst]
    · dsimp only
      omega
  by_cases hlast : c / 262144 = 4
  · refine ⟨⟨0x80, 0x8F, Nat.le_refl _, by decide⟩, ?_, ?_⟩
    · rw [if_neg (by omega), if_neg (by omega), if_pos (by omega), hlast]
    · dsimp only
      omega
  · refine ⟨anyTail, ?_, mem_anyTail (c / 4096)⟩
    rw [if_neg (by omega), if_pos (by omega), Nat.add_sub_cancel_left]

theorem utf8Scan_encode_four (hlo : 0x10000 ≤ c) (hhi : c < 0x110000) (bytes) :
    utf8Scan .start ((0xF0 + c / 262144) :: (0x80 + c / 4096 % 64) :: (0x80 + c / 64 % 64) ::
      (0x80 + c % 64) :: bytes) = some c :: utf8Scan .start bytes := by
  obtain ⟨range, hlead, hrange⟩ := utf8Lead_four hlo hhi
  have hsum : ((c / 262144 * 64 + (0x80 + c / 4096 % 64 - 0x80)) * 64 +
      (0x80 + c / 64 % 64 - 0x80)) * 64 + (0x80 + c % 64 - 0x80) = c := by omega
  rw [utf8Scan_first hlead, utf8Scan_owes hrange, utf8Scan_owes (mem_anyTail (c / 64)),
    utf8Scan_last (mem_anyTail c), hsum]

/-- **What was encoded is decoded.** -/
theorem utf8Scan_encode (hc : IsScalar c) (bytes) :
    utf8Scan .start (utf8Encode c ++ bytes) = some c :: utf8Scan .start bytes := by
  obtain ⟨hmax, hscal⟩ := hc
  unfold utf8Encode
  split
  case isTrue hone =>
    have hlead : utf8Lead c = ([some c], .start) := if_pos hone
    have hstep : utf8Step .start c = ([some c], .start) := hlead
    rw [singleton_append, utf8Scan, hstep, singleton_append]
  split
  case isTrue hone htwo => exact utf8Scan_encode_two (Nat.le_of_not_lt hone) htwo bytes
  split
  case isTrue htwo hthree =>
    exact utf8Scan_encode_three (Nat.le_of_not_lt htwo) hthree hscal bytes
  case isFalse hthree => exact utf8Scan_encode_four (Nat.le_of_not_lt hthree) hmax bytes

/-- A character between other bytes. -/
theorem utf8Scan_append_encode (hc : IsScalar c) (before bytes) (state) :
    utf8Scan state (before ++ (utf8Encode c ++ bytes)) = utf8Scan state before ++
      some c :: utf8Scan .start bytes := by
  obtain ⟨b, rest, henc, hb⟩ := exists_lead c
  have hscan := utf8Scan_encode hc bytes
  rw [henc, cons_append] at hscan ⊢
  rw [utf8Scan_append_lead hb, hscan]

theorem utf8Scan_encodeText (htext : ∀ c ∈ text, IsScalar c) :
    utf8Scan .start (text.flatMap utf8Encode) = text.map some := by
  induction text with
  | nil => rfl
  | cons c text ih =>
    rw [flatMap_cons, utf8Scan_encode (htext c mem_cons_self), map_cons,
      ih (forall_mem_cons.mp htext).2]

/-- The bytes of a text are decoded to it. -/
theorem utf8Decode_encodeText (htext : ∀ c ∈ text, IsScalar c) :
    utf8Decode (text.flatMap utf8Encode) = some text := by
  rw [utf8Decode, utf8Scan_encodeText htext, mapM_map]
  exact (mapM_pure (m := Option) (f := id)).trans (congrArg some (map_id text))

theorem utf8DecodeReplace_encodeText (htext : ∀ c ∈ text, IsScalar c) :
    utf8DecodeReplace (text.flatMap utf8Encode) = text := by
  rw [utf8DecodeReplace, utf8Scan_encodeText htext, map_map]
  exact map_id text

example : utf8DecodeReplace [0xE2, 0x82, 0xAC, 0xE2, 0x82, 0x41, 0xED, 0xA0, 0x80] =
    [0x20AC, 0xFFFD, 0x41, 0xFFFD, 0xFFFD, 0xFFFD] := by decide

end Okou
