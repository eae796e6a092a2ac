import Okou.Lib.Utf8

/-!
# Percent-encoding

Quoting and unquoting of texts as in URLs: a character that is not safe stands as the
escapes of its UTF-8 bytes.  What a text means is the list of bytes `percentBytes` reads
from it; two spellings that give the same bytes are unquoted to the same text.
-/

namespace Okou

open List

/-! ### Escapes -/

/-- The value of a hexadecimal digit. -/
def hexValue (c : ℕ) : Option ℕ :=
  if 48 ≤ c ∧ c ≤ 57 then some (c - 48)
  else if 65 ≤ c ∧ c ≤ 70 then some (c - 55)
  else if 97 ≤ c ∧ c ≤ 102 then some (c - 87)
  else none

/-- An upper-case hexadecimal digit. -/
def hexDigit (n : ℕ) : ℕ := if n < 10 then 48 + n else 55 + n

/-- The escape of a byte. -/
def percentEscape (b : ℕ) : List ℕ := [37, hexDigit (b / 16), hexDigit (b % 16)]

/-- The byte of two digits. -/
def escapedByte (high low : ℕ) : Option ℕ :=
  match hexValue high, hexValue low with
  | some h, some l => some (h * 16 + l)
  | _, _ => none

/-- The byte of the two characters after a percent sign. -/
def escapedAt : List ℕ → Option ℕ
  | high :: low :: _ => escapedByte high low
  | _ => none

/-- The bytes of a text whose escapes are resolved; a percent sign without two digits
stands for itself. -/
def percentBytes : List ℕ → List ℕ
  | [] => []
  | [c] => utf8Encode c
  | [c, d] => utf8Encode c ++ utf8Encode d
  | c :: high :: low :: text =>
    match if c = 37 then escapedByte high low else none with
    | some b => b :: percentBytes text
    | none => utf8Encode c ++ percentBytes (high :: low :: text)

variable {c : ℕ}

theorem utf8Encode_ascii (hc : c < 128) : utf8Encode c = [c] := if_pos hc

variable {n : ℕ}

theorem hexValue_hexDigit (hn : n < 16) : hexValue (hexDigit n) = some n := by
  unfold hexDigit hexValue
  split
  case isTrue hlt => rw [if_pos (by omega), Nat.add_sub_cancel_left]
  case isFalse => rw [if_neg (by omega), if_pos (by omega), Nat.add_sub_cancel_left]

variable {b : ℕ}

theorem escapedByte_hexDigit (hb : b < 256) : escapedByte (hexDigit (b / 16)) (hexDigit (b % 16)) =
    some b := by
  have hsum : b / 16 * 16 + b % 16 = b := Nat.div_add_mod' b 16
  rw [escapedByte, hexValue_hexDigit (by omega), hexValue_hexDigit (by omega)]
  exact congrArg some hsum

variable {high low : ℕ}

theorem percentBytes_escaped (h : escapedByte high low = some b) (text) :
    percentBytes (37 :: high :: low :: text) = b :: percentBytes text := by
  rw [percentBytes, if_pos rfl, h]

variable {text : List ℕ}

/-- A character that begins no escape. -/
theorem percentBytes_cons (h : c = 37 → escapedAt text = none) :
    percentBytes (c :: text) = utf8Encode c ++ percentBytes text := by
  match text with
  | [] => exact (append_nil _).symm
  | [d] => rfl
  | high :: low :: text =>
    have hnone : (if c = 37 then escapedByte high low else none) = none := by
      split
      case isTrue hc => exact h hc
      case isFalse => rfl
    rw [percentBytes, hnone]

theorem percentBytes_cons_ne (hc : c ≠ 37) (text) :
    percentBytes (c :: text) = utf8Encode c ++ percentBytes text :=
  percentBytes_cons fun h => absurd h hc

theorem percentBytes_escapes {bytes} (hbytes : ∀ b ∈ bytes, b < 256) (text) :
    percentBytes (bytes.flatMap percentEscape ++ text) = bytes ++ percentBytes text := by
  induction bytes with
  | nil => rfl
  | cons b bytes ih =>
    have hb : b < 256 := hbytes b mem_cons_self
    exact (percentBytes_escaped (escapedByte_hexDigit hb) _).trans
      (congrArg (b :: ·) (ih (forall_mem_cons.mp hbytes).2))

theorem utf8Encode_lt (hc : IsScalar c) : ∀ b ∈ utf8Encode c, b < 256 := by
  obtain ⟨hmax, _⟩ := hc
  intro b hb
  unfold utf8Encode at hb
  repeat' split at hb
  all_goals
    simp only [mem_cons, not_mem_nil, or_false] at hb
    omega

/-! ### Spellings -/

/-- The characters that are escaped in one spelling and stand as they are in another. -/
structure Spells (g : ℕ → List ℕ) (h : ℕ → ℕ) (c : ℕ) : Prop where
  scalar : IsScalar (h c)
  spelling : g c = [h c] ∨ (g c = (utf8Encode (h c)).flatMap percentEscape ∧ h c ≠ 37 ∧
    hexValue (h c) = none)

theorem escapedByte_none (h : hexValue high = none ∨ hexValue low = none) :
    escapedByte high low = none := by
  unfold escapedByte
  rcases h with h | h
  · rw [h]
  · rw [h]
    cases hexValue high <;> rfl

theorem escapedAt_sign (text) : escapedAt (37 :: text) = none := by
  cases text with
  | nil => rfl
  | cons c text =>
    show escapedByte 37 c = none
    exact escapedByte_none (.inl rfl)

/-- The escapes of a character begin with a percent sign. -/
theorem exists_escapes (c : ℕ) : ∃ rest, (utf8Encode c).flatMap percentEscape = 37 :: rest := by
  obtain ⟨b, bytes, henc, _⟩ := exists_lead c
  exact ⟨_, by rw [henc, flatMap_cons]; rfl⟩

section Spelling

variable {g : ℕ → List ℕ} {h : ℕ → ℕ}

/-- An escape cannot begin where a character is spelled as escapes. -/
theorem escapedAt_spelling (htext : ∀ c ∈ text, Spells g h c) :
    escapedAt (text.flatMap g) = escapedAt (text.map h) := by
  match text, htext with
  | [], _ => rfl
  | [c], htext =>
    rcases (htext c mem_cons_self).spelling with hc | ⟨hc, _, _⟩
    · rw [flatMap_singleton, hc]
      rfl
    · obtain ⟨rest, hrest⟩ := exists_escapes (h c)
      rw [flatMap_singleton, hc, hrest, escapedAt_sign]
      rfl
  | c :: d :: text, htext =>
    have hd := htext d (mem_cons_of_mem c mem_cons_self)
    rcases (htext c mem_cons_self).spelling with hc | ⟨hc, _, hhex⟩
    · rcases hd.spelling with hd | ⟨hd, _, hhex⟩
      · rw [flatMap_cons, flatMap_cons, hc, hd]
        rfl
      · obtain ⟨rest, hrest⟩ := exists_escapes (h d)
        rw [flatMap_cons, flatMap_cons, hc, hd, hrest]
        exact (escapedByte_none (.inr rfl)).trans (escapedByte_none (.inr hhex)).symm
    · obtain ⟨rest, hrest⟩ := exists_escapes (h c)
      have hspell : escapedAt ((c :: d :: text).flatMap g) = none := by
        rw [flatMap_cons, hc, hrest, cons_append, escapedAt_sign]
      exact hspell.trans (escapedByte_none (.inl hhex)).symm

/-- **A text may be spelled with more escapes**, but not for what makes an escape. -/
theorem percentBytes_spelling : ∀ text : List ℕ, (∀ c ∈ text, Spells g h c) →
    percentBytes (text.flatMap g) = percentBytes (text.map h)
  | [], _ => rfl
  | c :: text, htext => by
    have hrest : ∀ d ∈ text, Spells g h d := (forall_mem_cons.mp htext).2
    have hc := htext c mem_cons_self
    have ih := percentBytes_spelling text hrest
    rw [flatMap_cons, map_cons]
    rcases hc.spelling with hsame | ⟨hesc, hsign, _⟩
    · rw [hsame, singleton_append]
      by_cases hescape : h c = 37 ∧ (escapedAt (text.map h)).isSome
      · -- the two digits of an escape are not spelled as escapes themselves
        obtain ⟨hsign, hsome⟩ := hescape
        match text, hrest, hsome, ih with
        | d :: e :: text, hrest, hsome, _ =>
          obtain ⟨b, hb⟩ := Option.isSome_iff_exists.mp hsome
          have hb : escapedByte (h d) (h e) = some b := hb
          have hsame : ∀ x ∈ [d, e], g x = [h x] := by
            intro x hx
            have hx' : x ∈ d :: e :: text := mem_append_left text hx
            refine (hrest x hx').spelling.resolve_right fun hbad => ?_
            have hnone : escapedByte (h d) (h e) = none := by
              simp only [mem_cons, not_mem_nil, or_false] at hx
              rcases hx with rfl | rfl
              · exact escapedByte_none (.inl hbad.2.2)
              · exact escapedByte_none (.inr hbad.2.2)
            rw [hnone] at hb
            cases hb
          have ih := percentBytes_spelling text fun x hx =>
            hrest x (mem_cons_of_mem d (mem_cons_of_mem e hx))
          rw [hsign, flatMap_cons, flatMap_cons, hsame d mem_cons_self,
            hsame e (mem_cons_of_mem d mem_cons_self), map_cons, map_cons,
            singleton_append, singleton_append, percentBytes_escaped hb,
            percentBytes_escaped hb, ih]
      · have hnone : h c = 37 → escapedAt (text.map h) = none := by
          intro hsign
          rw [not_and, Option.not_isSome_iff_eq_none] at hescape
          exact hescape hsign
        rw [percentBytes_cons hnone, percentBytes_cons fun hsign => ?_, ih]
        rw [escapedAt_spelling hrest]
        exact hnone hsign
    · rw [hesc, percentBytes_escapes (utf8Encode_lt hc.scalar), percentBytes_cons_ne hsign, ih]

end Spelling

/-! ### Unquoting -/

/-- The loop over runs of ASCII: each run is unquoted and decoded by itself. -/
def unquoteRuns (run : List ℕ) : List ℕ → List ℕ
  | [] => utf8DecodeReplace (percentBytes run)
  | c :: text =>
    if c < 128 then unquoteRuns (run ++ [c]) text
    else utf8DecodeReplace (percentBytes run) ++ c :: unquoteRuns [] text

/-- `unquote`: a text without escapes stays as it is. -/
def unquote (text : List ℕ) : List ℕ := if 37 ∈ text then unquoteRuns [] text else text

variable {c d : ℕ} {text quoted : List ℕ} (safe : List ℕ)

theorem hexValue_none_of_le (hc : 128 ≤ c) : hexValue c = none := by
  rw [hexValue, if_neg (by omega), if_neg (by omega), if_neg (by omega)]

/-- Decoding starts afresh after a character that is in no escape. -/
theorem percentBytes_append (hsign : c ≠ 37) (hhex : hexValue c = none) (text) : ∀ run : List ℕ,
      percentBytes (run ++ c :: text) = percentBytes run ++ (utf8Encode c ++ percentBytes text)
  | [] => percentBytes_cons_ne hsign text
  | [d] => by
    have hnone : escapedAt (c :: text) = none := by
      cases text with
      | nil => rfl
      | cons e text => exact escapedByte_none (.inl hhex)
    rw [singleton_append, percentBytes_cons fun _ => hnone, percentBytes_cons_ne hsign]
    rfl
  | [d, e] => by
    have ih := percentBytes_append hsign hhex text [e]
    have hnone : escapedAt (e :: c :: text) = none := escapedByte_none (.inr hhex)
    have hcons : percentBytes (d :: ([e] ++ c :: text)) =
        utf8Encode d ++ percentBytes ([e] ++ c :: text) := percentBytes_cons fun _ => hnone
    rw [cons_append, hcons, ih, ← append_assoc]
    rfl
  | d :: high :: low :: run => by
    have ih := percentBytes_append hsign hhex text run
    have ih' := percentBytes_append hsign hhex text (high :: low :: run)
    rw [cons_append, cons_append, cons_append, percentBytes, percentBytes]
    cases (if d = 37 then escapedByte high low else none) with
    | some b => exact congrArg (b :: ·) ih
    | none =>
      rw [append_assoc]
      exact congrArg (utf8Encode d ++ ·) ih'

theorem percentBytes_of_not_mem (htext : 37 ∉ text) :
    percentBytes text = text.flatMap utf8Encode := by
  induction text with
  | nil => rfl
  | cons c text ih =>
    rw [mem_cons, not_or] at htext
    rw [percentBytes_cons_ne (Ne.symm htext.1), ih htext.2, flatMap_cons]

theorem utf8DecodeReplace_append_encode (hc : IsScalar c) (before bytes) :
    utf8DecodeReplace (before ++ (utf8Encode c ++ bytes)) =
      utf8DecodeReplace before ++ c :: utf8DecodeReplace bytes := by
  rw [utf8DecodeReplace, utf8Scan_append_encode hc, map_append]
  rfl

theorem unquoteRuns_eq (htext : ∀ c ∈ text, IsScalar c) (run) :
    unquoteRuns run text = utf8DecodeReplace (percentBytes (run ++ text)) := by
  induction text generalizing run with
  | nil =>
    rw [append_nil]
    rfl
  | cons c text ih =>
    have ih := ih (forall_mem_cons.mp htext).2
    rw [unquoteRuns]
    split
    case isTrue => rw [ih, append_assoc, singleton_append]
    case isFalse hc =>
      have hhigh : 128 ≤ c := Nat.le_of_not_lt hc
      rw [percentBytes_append (by omega) (hexValue_none_of_le hhigh),
        utf8DecodeReplace_append_encode (htext c mem_cons_self), ih, nil_append]

/-- **Unquoting decodes the bytes of the text.** -/
theorem unquote_eq (htext : ∀ c ∈ text, IsScalar c) :
    unquote text = utf8DecodeReplace (percentBytes text) := by
  unfold unquote
  split
  case isTrue => rw [unquoteRuns_eq htext, nil_append]
  case isFalse hsign => rw [percentBytes_of_not_mem hsign, utf8DecodeReplace_encodeText htext]

/-- A character that is in no escape stays. -/
theorem mem_unquote (htext : ∀ c ∈ text, IsScalar c) (hc : c ∈ text)
    (hsign : c ≠ 37) (hhex : hexValue c = none) : c ∈ unquote text := by
  obtain ⟨before, after, rfl⟩ := append_of_mem hc
  rw [unquote_eq htext, percentBytes_append hsign hhex,
    utf8DecodeReplace_append_encode (htext c hc)]
  exact mem_append_right _ mem_cons_self

/-! ### Quoting -/

/-- The characters that no quoting touches: letters, digits and `_.-~`. -/
def isUnreserved (c : ℕ) : Bool :=
  decide (48 ≤ c ∧ c ≤ 57 ∨ 65 ≤ c ∧ c ≤ 90 ∨ 97 ≤ c ∧ c ≤ 122) || [95, 46, 45, 126].contains c

/-- A byte that stands for itself. -/
def isSafe (safe : List ℕ) (b : ℕ) : Bool := isUnreserved b || (decide (b < 128) && safe.contains b)

/-- One byte. -/
def quoteByte (safe : List ℕ) (b : ℕ) : List ℕ := if isSafe safe b then [b] else percentEscape b

/-- One character. -/
def quoteChar (safe : List ℕ) (c : ℕ) : List ℕ := (utf8Encode c).flatMap (quoteByte safe)

/-- A text. -/
def quoteText (safe text : List ℕ) : List ℕ := text.flatMap (quoteChar safe)

/-- `quote`: surrogates cannot be encoded. -/
def quote (safe text : List ℕ) : Option (List ℕ) :=
  if ∀ c ∈ text, IsScalar c then some (quoteText safe text) else none

variable {safe}

theorem isUnreserved_lt (hc : isUnreserved c) : c < 128 := by
  simp only [isUnreserved, Bool.or_eq_true, decide_eq_true_eq, contains_eq_mem, mem_cons,
    not_mem_nil, or_false] at hc
  omega

theorem isSafe_lt (hc : isSafe safe c) : c < 128 := by
  simp only [isSafe, Bool.or_eq_true, Bool.and_eq_true, decide_eq_true_eq] at hc
  rcases hc with hc | hc
  · exact isUnreserved_lt hc
  · exact hc.1

/-- A character is kept, or escaped as a whole. -/
theorem quoteChar_eq (safe) (c : ℕ) :
    quoteChar safe c = if isSafe safe c then [c] else (utf8Encode c).flatMap percentEscape := by
  unfold quoteChar
  by_cases hascii : c < 128
  · rw [utf8Encode_ascii hascii, flatMap_singleton, flatMap_singleton]
    rfl
  · rw [if_neg fun hsafe => hascii (isSafe_lt hsafe)]
    refine flatMap_congr fun b hb => ?_
    have hb : 128 ≤ b := by
      unfold utf8Encode at hb
      repeat' split at hb
      all_goals
        simp only [mem_cons, not_mem_nil, or_false] at hb
        omega
    exact if_neg fun hsafe => absurd (isSafe_lt hsafe) (Nat.not_lt.mpr hb)

theorem hexDigit_ascii (hn : n < 16) : hexDigit n < 128 ∧ isUnreserved (hexDigit n) := by
  unfold hexDigit isUnreserved
  split
  · refine ⟨by omega, ?_⟩
    rw [decide_eq_true (by omega), Bool.true_or]
  · refine ⟨by omega, ?_⟩
    rw [decide_eq_true (by omega), Bool.true_or]

/-- Escapes are written with the percent sign, digits and letters. -/
theorem mem_percentEscape (hb : b < 256) (hd : d ∈ percentEscape b) : d = 37 ∨ isUnreserved d := by
  simp only [percentEscape, mem_cons, not_mem_nil, or_false] at hd
  rcases hd with rfl | rfl | rfl
  · exact .inl rfl
  · exact .inr (hexDigit_ascii (by omega)).2
  · exact .inr (hexDigit_ascii (by omega)).2

/-- A quoted text has safe characters and percent signs only. -/
theorem mem_quoteChar (hc : IsScalar c) (hd : d ∈ quoteChar safe c) :
    d = 37 ∨ isUnreserved d ∨ (d = c ∧ isSafe safe c) := by
  rw [quoteChar_eq] at hd
  split at hd
  case isTrue hsafe => exact .inr (.inr ⟨mem_singleton.mp hd, hsafe⟩)
  case isFalse =>
    obtain ⟨b, hb, hd⟩ := mem_flatMap.mp hd
    exact (mem_percentEscape (utf8Encode_lt hc b hb) hd).imp_right .inl

theorem mem_quoteText (htext : ∀ c ∈ text, IsScalar c)
    (hd : d ∈ quoteText safe text) : d = 37 ∨ isUnreserved d ∨ (d ∈ text ∧ isSafe safe d) := by
  obtain ⟨c, hc, hd⟩ := mem_flatMap.mp hd
  rcases mem_quoteChar (htext c hc) hd with hd | hd | ⟨rfl, hsafe⟩
  · exact .inl hd
  · exact .inr (.inl hd)
  · exact .inr (.inr ⟨hc, hsafe⟩)

theorem isScalar_of_lt (hc : c < 128) : IsScalar c := ⟨by omega, .inl (by omega)⟩

theorem quoteText_lt (htext : ∀ c ∈ text, IsScalar c) : ∀ d ∈ quoteText safe text, d < 128 := by
  intro d hd
  rcases mem_quoteText htext hd with rfl | hd | hd
  · decide
  · exact isUnreserved_lt hd
  · exact isSafe_lt hd.2

/-- **What was quoted is read back**, when the percent sign is not taken as safe. -/
theorem percentBytes_quoteText (hsafe : isSafe safe 37 = false)
    (htext : ∀ c ∈ text, IsScalar c) :
      percentBytes (quoteText safe text) = text.flatMap utf8Encode := by
  induction text with
  | nil => rfl
  | cons c text ih =>
    have ih := ih (forall_mem_cons.mp htext).2
    rw [quoteText, flatMap_cons, quoteChar_eq, flatMap_cons, ← ih]
    split
    case isTrue hc =>
      refine percentBytes_cons_ne ?_ _
      rintro rfl
      rw [hsafe] at hc
      cases hc
    case isFalse => exact percentBytes_escapes (utf8Encode_lt (htext c mem_cons_self)) _

/-! ### Forms -/

/-- `+` for a space. -/
def plusToSpace (c : ℕ) : ℕ := if c = 43 then 32 else c

/-- A space as `+`. -/
def spaceToPlus (c : ℕ) : ℕ := if c = 32 then 43 else c

def unquotePlus (text : List ℕ) : List ℕ := unquote (text.map plusToSpace)

def quotePlus (text : List ℕ) : Option (List ℕ) :=
  if 32 ∉ text then quote [] text else (quote [32] text).map (List.map spaceToPlus)

theorem isUnreserved_ne (hc : isUnreserved c) (d : ℕ) (hd : isUnreserved d = false) : c ≠ d := by
  rintro rfl
  rw [hd] at hc
  cases hc

theorem isScalar_plusToSpace (hc : IsScalar c) : IsScalar (plusToSpace c) := by
  unfold plusToSpace
  split
  · exact isScalar_of_lt (by decide)
  · exact hc

theorem hexValue_unsafe (hc : ¬isSafe safe c) : hexValue c = none := by
  have hresv : ¬isUnreserved c := fun h => hc (by rw [isSafe, h, Bool.true_or])
  simp only [isUnreserved, Bool.or_eq_true, decide_eq_true_eq] at hresv
  rw [hexValue, if_neg (by omega), if_neg (by omega), if_neg (by omega)]

/-- **Quoting that leaves `%` and `+` alone does not change what a text is unquoted to.** -/
theorem unquotePlus_quoteText (hsign : isSafe safe 37) (hplus : isSafe safe 43)
    (htext : ∀ c ∈ text, IsScalar c) : unquotePlus (quoteText safe text) = unquotePlus text := by
  have hspells : ∀ c ∈ text, Spells (fun c => (quoteChar safe c).map plusToSpace) plusToSpace
    c := by
    intro c hc
    have hscal := htext c hc
    refine ⟨isScalar_plusToSpace hscal, ?_⟩
    rw [quoteChar_eq]
    split
    case isTrue => exact .inl rfl
    case isFalse hcontrolChar =>
      have hne : ∀ d, isSafe safe d → c ≠ d := by
        rintro d hd rfl
        exact hcontrolChar hd
      have hsame : plusToSpace c = c := if_neg (hne 43 hplus)
      rw [hsame]
      refine .inr ⟨?_, hne 37 hsign, hexValue_unsafe hcontrolChar⟩
      refine (map_congr_left fun d hd => ?_).trans (map_id _)
      obtain ⟨b, hb, hd⟩ := mem_flatMap.mp hd
      refine if_neg ?_
      rcases mem_percentEscape (utf8Encode_lt hscal b hb) hd with rfl | hd
      · decide
      · exact isUnreserved_ne hd 43 rfl
  have hquot : ∀ c ∈ (quoteText safe text).map plusToSpace, IsScalar c :=
    forall_mem_map.mpr fun d hd => isScalar_plusToSpace (isScalar_of_lt (quoteText_lt htext d hd))
  have hplain : ∀ c ∈ text.map plusToSpace, IsScalar c :=
    forall_mem_map.mpr fun d hd => isScalar_plusToSpace (htext d hd)
  rw [unquotePlus, unquotePlus, unquote_eq hquot, unquote_eq hplain, quoteText, map_flatMap,
    percentBytes_spelling text hspells]

theorem quote_eq_some : quote safe text = some quoted ↔ (∀ c ∈ text, IsScalar c) ∧
    quoteText safe text = quoted := by
  unfold quote
  split
  case isTrue htext => exact ⟨fun h => ⟨htext, Option.some.inj h⟩, fun h => congrArg some h.2⟩
  case isFalse htext => exact ⟨nofun, fun h => absurd h.1 htext⟩

/-- Without spaces in the text it does not matter whether spaces are safe. -/
theorem quoteText_space (htext : 32 ∉ text) : quoteText [] text = quoteText [32] text := by
  refine flatMap_congr fun c hc => ?_
  have hne : c ≠ 32 := fun h => htext (h ▸ hc)
  have hsafe : isSafe [] c = isSafe [32] c := by
    simp [isSafe, hne]
  rw [quoteChar_eq, quoteChar_eq, hsafe]

/-- What `quotePlus` returns. -/
theorem quotePlus_eq_some (h : quotePlus text = some quoted) :
    (∀ c ∈ text, IsScalar c) ∧ quoted = (quoteText [32] text).map spaceToPlus := by
  unfold quotePlus at h
  split at h
  case isTrue hspace =>
    obtain ⟨htext, rfl⟩ := quote_eq_some.mp h
    refine ⟨htext, ?_⟩
    rw [← quoteText_space hspace]
    refine ((map_congr_left fun d hd => ?_).trans (map_id _)).symm
    refine if_neg ?_
    rintro rfl
    rcases mem_quoteText htext hd with hd | hd | hd
    · cases hd
    · cases hd
    · exact hspace hd.1
  case isFalse =>
    obtain ⟨quoted, hquote, rfl⟩ := Option.map_eq_some_iff.mp h
    obtain ⟨htext, rfl⟩ := quote_eq_some.mp hquote
    exact ⟨htext, rfl⟩

/-- What `quotePlus` writes with. -/
theorem mem_quotePlus (h : quotePlus text = some quoted) (hd : d ∈ quoted) : d = 37 ∨ d = 43 ∨
    isUnreserved d := by
  obtain ⟨htext, rfl⟩ := quotePlus_eq_some h
  obtain ⟨e, he, rfl⟩ := mem_map.mp hd
  unfold spaceToPlus
  split
  case isTrue => exact .inr (.inl rfl)
  case isFalse hne =>
    rcases mem_quoteText htext he with rfl | he | ⟨_, he⟩
    · exact .inl rfl
    · exact .inr (.inr he)
    · simp only [isSafe, contains_eq_mem, mem_singleton, Bool.or_eq_true, Bool.and_eq_true,
        decide_eq_true_eq] at he
      exact .inr (.inr (he.resolve_right fun h => hne h.2))

/-- **What `quotePlus` writes is read back by `unquotePlus`.** -/
theorem unquotePlus_quotePlus (h : quotePlus text = some quoted) : unquotePlus quoted = text := by
  obtain ⟨htext, rfl⟩ := quotePlus_eq_some h
  have hback : ((quoteText [32] text).map spaceToPlus).map plusToSpace = quoteText [32] text := by
    rw [map_map]
    refine (map_congr_left fun d hd => ?_).trans (map_id _)
    have hne : d ≠ 43 := by
      rintro rfl
      rcases mem_quoteText htext hd with hd | hd | hd
      · cases hd
      · cases hd
      · cases hd.2
    show plusToSpace (spaceToPlus d) = d
    unfold plusToSpace spaceToPlus
    by_cases hd : d = 32
    · rw [if_pos hd, if_pos rfl, hd]
    · rw [if_neg hd, if_neg hne]
  have hscal : ∀ c ∈ quoteText [32] text, IsScalar c := fun c hc =>
    isScalar_of_lt (quoteText_lt htext c hc)
  rw [unquotePlus, hback, unquote_eq hscal, percentBytes_quoteText rfl htext,
    utf8DecodeReplace_encodeText htext]

/-! ### Splitting -/

section Split

variable {p : ℕ → Bool} {f : ℕ → List ℕ}

/-- Cutting a text at one separator after the other. -/
theorem splitOnP_rec {motive : List ℕ → Prop} (hfree : ∀ text, (∀ c ∈ text, p c = false) →
    motive text)
    (hcut : ∀ before sep rest, p sep → motive before → motive rest → motive (before ++ sep :: rest))
    (text) : motive text := by
  by_cases hall : ∀ c ∈ text, p c = false
  · exact hfree text hall
  · obtain ⟨sep, hmem, hsep⟩ : ∃ c ∈ text, p c := by simpa using hall
    obtain ⟨before, rest, htext⟩ := append_of_mem hmem
    rw [htext]
    exact hcut before sep rest hsep (splitOnP_rec hfree hcut before) (splitOnP_rec hfree hcut rest)
termination_by text.length
decreasing_by all_goals rw [htext, length_append, length_cons]; omega

/-- A piece of a split has no separators, and only characters of the text. -/
theorem mem_splitOnP {piece : List ℕ} (hpiece : piece ∈ text.splitOnP p) : ∀ c ∈ piece, c ∈ text ∧
    p c = false := by
  induction text using splitOnP_rec (p := p) with
  | hfree text hall =>
    rw [splitOnP_eq_singleton hall, mem_singleton] at hpiece
    exact fun c hc => ⟨hpiece ▸ hc, hall c (hpiece ▸ hc)⟩
  | hcut before sep rest hsep ihBefore ihRest =>
    rw [splitOnP_append_cons before rest hsep] at hpiece
    intro c hc
    rcases mem_append.mp hpiece with h | h
    · exact (ihBefore h c hc).imp_left (mem_append_left _)
    · exact (ihRest h c hc).imp_left fun hmem => mem_append_right _ (mem_cons_of_mem _ hmem)

theorem splitOnP_append_of_forall {before} (hbef : ∀ c ∈ before, p c = false) (text : List ℕ) :
    (before ++ text).splitOnP p = (text.splitOnP p).modifyHead (before ++ ·) := by
  induction before with
  | nil =>
    cases h : text.splitOnP p with
    | nil => rw [nil_append, h, modifyHead_nil]
    | cons first rest => rw [nil_append, h, modifyHead_cons, nil_append]
  | cons c before ih =>
    have ih := ih (forall_mem_cons.mp hbef).2
    rw [cons_append, splitOnP_cons_eq_if_modifyHead, hbef c mem_cons_self,
      if_neg Bool.false_ne_true, ih, modifyHead_modifyHead]
    rfl

/-- **Rewriting each character commutes with splitting** at characters that stay and are not
brought in. -/
theorem splitOnP_flatMap (hsep : ∀ c ∈ text, p c → f c = [c])
    (hother : ∀ c ∈ text, p c = false → ∀ d ∈ f c, p d = false) :
    (text.flatMap f).splitOnP p = (text.splitOnP p).map (List.flatMap f) := by
  induction text with
  | nil => rfl
  | cons c text ih =>
    have ih := ih (forall_mem_cons.mp hsep).2
      (forall_mem_cons.mp hother).2
    rw [flatMap_cons, splitOnP_cons_eq_if_modifyHead]
    cases hc : p c with
    | true =>
      rw [hsep c mem_cons_self hc, singleton_append, splitOnP_cons_eq_if_modifyHead, hc, if_pos rfl,
        if_pos rfl, ih]
      rfl
    | false =>
      rw [splitOnP_append_of_forall (hother c mem_cons_self hc), ih, if_neg Bool.false_ne_true]
      cases text.splitOnP p with
      | nil => rfl
      | cons first rest => rfl

end Split

end Okou
