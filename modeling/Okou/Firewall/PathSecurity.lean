import Okou.Firewall.Text
import Okou.Lib.Percent

/-!
# Unsafe URLs and paths

`url_syntax.py` and `path_security.py`: which raw texts are kept away from URL
parsing, and which paths may hide a dot segment, a backslash or a control
character behind percent-encoding or a compatibility character.
-/

namespace Okou.Firewall

open List hiding partition

variable (py : PyLib)

/-! ### Raw text -/

/-- The C0 controls, DEL and the surrogates. -/
def unsafeUrlCodepoint (c : ℕ) : Bool := decide (c < 0x20 ∨ c = 0x7F ∨ 0xD800 ≤ c ∧ c ≤ 0xDFFF)

variable (value segment : PyStr)

def hasUnsafeUrlCodepoint : Bool :=
  if isAscii value then !value.all py.isPrintable
  else if value.all py.isPrintable then false
  else value.any unsafeUrlCodepoint

def rawWhitespaceChars : List ℕ := [0x20, 0x09, 0x0A, 0x0D, 0x0C, 0x0B]

def hasRawWhitespace : Bool := value.any (· ∈ rawWhitespaceChars)

def hasUnsafeRuntimeUrlSyntax (allowBackslash : Bool) : Bool :=
  (!allowBackslash && decide (cp '\\' ∈ value)) || hasUnsafeUrlCodepoint py value ||
    hasRawWhitespace value

def stripOptionalTerminalSlash : PyStr :=
  if value.getLast? = some (cp '/') then value.dropLast else value

/-! ### Paths -/

def maxPathValidationCharacters : ℕ := 64 * 1024

def maxPercentDecodePasses : ℕ := 5

def maxConsecutiveNonstarters : ℕ := 30

def dotSegments : List PyStr := [lit ".", lit ".."]

def pathPartIsDotSegment (part : PyStr) : Bool :=
  decide (part ∈ dotSegments) || decide ((partition (cp ';') part).1 ∈ dotSegments)

def segmentHasUnsafeSyntaxParts : Bool :=
  hasUnsafeUrlCodepoint py segment || decide (cp '\\' ∈ segment) || pathPartIsDotSegment segment ||
    (segment.splitOn (cp '/')).any pathPartIsDotSegment

/-- The loop of `_segment_exceeds_normalization_budget` over decomposed characters. -/
def nonstarterLoop : PyStr → ℕ → Bool
  | [], _ => false
  | c :: rest, nonstarters =>
    if py.combining c then
      if maxConsecutiveNonstarters < nonstarters + 1 then true
        else nonstarterLoop rest (nonstarters + 1)
    else nonstarterLoop rest 0

def segmentExceedsNormalizationBudget : Bool :=
  if isAscii segment then false else nonstarterLoop py (segment.flatMap py.nfkd) 0

def segmentHasUnsafeSyntax : Bool :=
  if segmentHasUnsafeSyntaxParts py segment then true
  else if segmentExceedsNormalizationBudget py segment then true
  else
    let normalized := py.nfkc segment
    decide (normalized ≠ segment) &&
      (decide (cp '%' ∈ normalized) || segmentHasUnsafeSyntaxParts py normalized)

/-- Every `%` is followed by two hexadecimal digits. -/
def percentEscapesWellFormed : PyStr → Bool
  | [] => true
  | c :: rest =>
    if c = cp '%' then
      match rest with
      | a :: b :: rest => isHexDigit a && isHexDigit b && percentEscapesWellFormed rest
      | _ => false
    else percentEscapesWellFormed rest

def percentDecodeSegment : Option PyStr :=
  if percentEscapesWellFormed segment then py.unquoteUtf8 segment else none

/-- The loop of `_segment_has_unsafe_path`, and what follows its last pass. -/
def unsafeSegmentLoop : ℕ → PyStr → Bool
  | 0, segment =>
    if segmentHasUnsafeSyntax py segment then true
    else decide (percentDecodeSegment py segment ≠ some segment)
  | passes + 1, segment =>
    if segmentHasUnsafeSyntax py segment then true
    else
      match percentDecodeSegment py segment with
      | none => true
      | some decoded => if decoded = segment then false else unsafeSegmentLoop passes decoded

def segmentHasUnsafePath (rawSegment : PyStr) : Bool :=
  unsafeSegmentLoop py maxPercentDecodePasses rawSegment

def hasUnsafePath (path : PyStr) : Bool :=
  if maxPathValidationCharacters < path.length then true
  else if cp '\\' ∈ path then true
  else
    let rawSegments := path.splitOn (cp '/')
    if isAscii path && path.all py.isPrintable && decide (cp '%' ∉ path) then
      rawSegments.any pathPartIsDotSegment
    else rawSegments.any (segmentHasUnsafePath py)

/-- The least of the positions at which one of the delimiters stands. -/
def firstOf (delimiters : List ℕ) (s : PyStr) : ℕ :=
  delimiters.foldl (fun start d => min start ((find d s).getD start)) s.length

def hasUnsafeUrlPath (url : PyStr) : Bool :=
  match findSub (lit "://") url with
  | none => false
  | some schemeEnd =>
    let afterScheme := url.drop (schemeEnd + 3)
    let start := firstOf [cp '/', cp '?', cp '#'] afterScheme
    if (afterScheme.drop start).head? ≠ some (cp '/') then false
    else
      let pathAndAfter := afterScheme.drop start
      hasUnsafePath py (pathAndAfter.take (firstOf [cp '?', cp '#'] pathAndAfter))

section Printable

variable (hascii : ∀ c < 128, py.isPrintable c = decide (32 ≤ c ∧ c < 127))
  (hsurrogate : ∀ c, 0xD800 ≤ c → c ≤ 0xDFFF → py.isPrintable c = false)

include hascii hsurrogate

/-- What is printable is safe. -/
theorem safe_of_printable {c : ℕ} (h : py.isPrintable c = true) : unsafeUrlCodepoint c = false := by
  refine decide_eq_false ?_
  rintro (hc | hc | ⟨hc₁, hc₂⟩)
  · rw [hascii c (by omega), decide_eq_true_eq] at h
    omega
  · rw [hascii c (by omega), decide_eq_true_eq] at h
    omega
  · rw [hsurrogate c hc₁ hc₂] at h
    cases h

/-- The shortcuts for printable texts change nothing. -/
theorem hasUnsafeUrlCodepoint_eq (value : PyStr) :
    hasUnsafeUrlCodepoint py value = value.any unsafeUrlCodepoint := by
  unfold hasUnsafeUrlCodepoint
  split
  case isTrue hall =>
    rw [isAscii, all_eq_true] at hall
    have hchar : ∀ c ∈ value, unsafeUrlCodepoint c = !py.isPrintable c := by
      intro c hc
      have hlt : c < 128 := of_decide_eq_true (hall c hc)
      rw [hascii c hlt, unsafeUrlCodepoint, ← decide_not, decide_eq_decide]
      omega
    rw [not_all_eq_any_not, Bool.eq_iff_iff, any_eq_true, any_eq_true]
    exact exists_congr fun c => and_congr_right fun hc => by rw [hchar c hc]
  case isFalse =>
    split
    case isTrue hprint =>
      rw [all_eq_true] at hprint
      refine (any_eq_false.mpr fun c hc => ?_).symm
      rw [safe_of_printable py hascii hsurrogate (hprint c hc)]
      exact Bool.false_ne_true
    case isFalse => rfl

end Printable

/-! ### What a path may decode to -/

/-- What is known of the library: the printable characters as far as they decide what is unsafe, the
decoding of escapes, and that normalization leaves ASCII alone. -/
structure PathLib (py : PyLib) : Prop where
  nfkc : ∀ s, isAscii s → py.nfkc s = s
  printable : ∀ c < 128, py.isPrintable c = decide (32 ≤ c ∧ c < 127)
  surrogate : ∀ c, 0xD800 ≤ c → c ≤ 0xDFFF → py.isPrintable c = false
  unquoteUtf8 : ∀ s, py.unquoteUtf8 s = if ∀ c ∈ s, IsScalar c then utf8Decode (percentBytes s)
    else none

/-- Strict decoding: the escapes are well formed, and the bytes are UTF-8. -/
def strictDecode (s : PyStr) : Option PyStr :=
  if percentEscapesWellFormed s = true ∧ ∀ c ∈ s, IsScalar c then utf8Decode (percentBytes s)
    else none

def decodeTimes : ℕ → PyStr → Option PyStr
  | 0, s => some s
  | k + 1, s => (strictDecode s).bind (decodeTimes k)

/-- A text that is nothing but names: no backslash, no control character or surrogate, no dot
segment. -/
structure PlainText (s : PyStr) : Prop where
  backslash : cp '\\' ∉ s
  codepoints : ∀ c ∈ s, unsafeUrlCodepoint c = false
  dots : ∀ part ∈ s.splitOn (cp '/'), (partition (cp ';') part).1 ∉ dotSegments

variable {py segment} {path : PyStr}

theorem PathLib.decode (hlib : PathLib py) (s : PyStr) :
    percentDecodeSegment py s = strictDecode s := by
  rw [percentDecodeSegment, strictDecode, hlib.unquoteUtf8]
  by_cases hform : percentEscapesWellFormed s <;> simp [hform]

theorem plainText_of_syntax (hlib : PathLib py) (h : segmentHasUnsafeSyntax py segment = false) :
    PlainText segment := by
  have hparts : segmentHasUnsafeSyntaxParts py segment = false := by
    by_contra hbad
    simp [segmentHasUnsafeSyntax, hbad] at h
  simp only [segmentHasUnsafeSyntaxParts, Bool.or_eq_false_iff, decide_eq_false_iff_not,
    any_eq_false, Bool.not_eq_true] at hparts
  obtain ⟨⟨⟨hcode, hslash⟩, -⟩, hdots⟩ := hparts
  refine ⟨hslash, fun c hc => ?_, fun part hpart => ?_⟩
  · rw [hasUnsafeUrlCodepoint_eq py hlib.printable hlib.surrogate] at hcode
    exact Bool.eq_false_iff.mpr (any_eq_false.mp hcode c hc)
  · have hdot := hdots part hpart
    rw [pathPartIsDotSegment, Bool.or_eq_false_iff, decide_eq_false_iff_not,
      decide_eq_false_iff_not] at hdot
    exact hdot.2

theorem decodeTimes_stable (h : strictDecode segment = some segment) (k : ℕ) :
    decodeTimes k segment = some segment := by
  induction k with
  | zero => rfl
  | succ k ih => rw [decodeTimes, h, Option.bind_some, ih]

/-- **A segment that passes is plain however often it is decoded**: each pass looks at one text, and
the last text no longer changes. -/
theorem plainText_of_loop (hlib : PathLib py) (passes : ℕ)
    (h : unsafeSegmentLoop py passes segment = false) (k : ℕ) :
    ∃ text, decodeTimes k segment = some text ∧ PlainText text := by
  induction passes generalizing segment k with
  | zero =>
    simp only [unsafeSegmentLoop, hlib.decode] at h
    split_ifs at h with hsyntax
    simp only [decide_not, Bool.not_eq_false', decide_eq_true_eq] at h
    exact ⟨segment, decodeTimes_stable h k, plainText_of_syntax hlib (by simpa using hsyntax)⟩
  | succ passes ih =>
    simp only [unsafeSegmentLoop, hlib.decode] at h
    split_ifs at h with hsyntax
    have hplain : PlainText segment := plainText_of_syntax hlib (by simpa using hsyntax)
    split at h
    · cases h
    · next decoded hdecoded =>
      split_ifs at h with hsame
      · exact ⟨segment, decodeTimes_stable (hsame ▸ hdecoded) k, hplain⟩
      · cases k with
        | zero => exact ⟨segment, rfl, hplain⟩
        | succ k =>
          rw [decodeTimes, hdecoded, Option.bind_some]
          exact ih h k

theorem percentEscapesWellFormed_of_not_mem (h : cp '%' ∉ segment) :
    percentEscapesWellFormed segment := by
  induction segment with
  | nil => rfl
  | cons c segment ih =>
    rw [mem_cons, not_or] at h
    unfold percentEscapesWellFormed
    rw [if_neg (Ne.symm h.1)]
    exact ih h.2

/-- On printable ASCII without escapes and slashes the passes look at dot segments only. -/
theorem segmentHasUnsafePath_plain (hlib : PathLib py) (hascii : isAscii segment)
    (hprint : segment.all py.isPrintable) (hback : cp '\\' ∉ segment) (hslash : cp '/' ∉ segment)
    (hsign : cp '%' ∉ segment) : segmentHasUnsafePath py segment =
      pathPartIsDotSegment segment := by
  have hscalar : ∀ c ∈ segment, IsScalar c := fun c hc =>
    isScalar_of_lt (by simpa using all_eq_true.mp hascii c hc)
  have hdecode : strictDecode segment = some segment := by
    rw [strictDecode, if_pos ⟨percentEscapesWellFormed_of_not_mem hsign, hscalar⟩,
      percentBytes_of_not_mem hsign, utf8Decode_encodeText hscalar]
  have hparts : segmentHasUnsafeSyntaxParts py segment = pathPartIsDotSegment segment := by
    simp [segmentHasUnsafeSyntaxParts, hasUnsafeUrlCodepoint, hprint, hback,
      splitOn_eq_singleton hslash]
  simp only [segmentHasUnsafePath, maxPercentDecodePasses, unsafeSegmentLoop, hlib.decode, hdecode,
    segmentHasUnsafeSyntax, hparts, segmentExceedsNormalizationBudget, hascii,
      hlib.nfkc segment hascii]
  cases pathPartIsDotSegment segment <;> simp

/-- The two ways to look at the segments of a path agree where both can be taken. -/
theorem any_segmentHasUnsafePath (hlib : PathLib py) (hascii : isAscii path)
    (hprint : path.all py.isPrintable) (hback : cp '\\' ∉ path) (hsign : cp '%' ∉ path) :
    (path.splitOn (cp '/')).any pathPartIsDotSegment =
      (path.splitOn (cp '/')).any (segmentHasUnsafePath py) := by
  rw [Bool.eq_iff_iff, any_eq_true, any_eq_true]
  refine exists_congr fun segment => and_congr_right fun hseg => ?_
  have hmem {c : ℕ} (hc : c ∈ segment) := mem_splitOnP hseg c hc
  rw [segmentHasUnsafePath_plain hlib (all_eq_true.mpr fun c hc =>
    all_eq_true.mp hascii c (hmem hc).1)
    (all_eq_true.mpr fun c hc => all_eq_true.mp hprint c (hmem hc).1) (fun hc => hback (hmem hc).1)
    (fun hc => by simpa using (hmem hc).2) fun hc => hsign (hmem hc).1]

/-- **The check of paths is sound under repeated decoding**, and its shortcut for ASCII changes no
verdict. -/
theorem hasUnsafePath_sound (hlib : PathLib py) :
    (∀ path, hasUnsafePath py path = false → ∀ segment ∈ path.splitOn (cp '/'), ∀ k,
      ∃ text, decodeTimes k segment = some text ∧ PlainText text) ∧
    ∀ path, cp '\\' ∉ path → isAscii path → path.all py.isPrintable → cp '%' ∉ path →
      (path.splitOn (cp '/')).any pathPartIsDotSegment =
        (path.splitOn (cp '/')).any (segmentHasUnsafePath py) := by
  refine ⟨fun path hsafe segment hseg k => plainText_of_loop hlib maxPercentDecodePasses ?_ k,
    fun path hback hascii hprint hsign => any_segmentHasUnsafePath hlib hascii hprint hback hsign⟩
  simp only [hasUnsafePath] at hsafe
  split_ifs at hsafe with hlong hback hfast
  · simp only [Bool.and_eq_true, decide_eq_true_eq] at hfast
    rw [any_segmentHasUnsafePath hlib hfast.1.1 hfast.1.2 hback hfast.2, any_eq_false] at hsafe
    exact Bool.eq_false_iff.mpr (hsafe segment hseg)
  · exact Bool.eq_false_iff.mpr (any_eq_false.mp hsafe segment hseg)

/-- The library on plain texts, with the decoding of escapes. -/
def strictLib : PyLib :=
  { plainLib with unquoteUtf8 := fun s => if ∀ c ∈ s, IsScalar c then utf8Decode (percentBytes
    s) else none }

theorem hasUnsafePath_sound_nested : ∃ text, decodeTimes 3 (lit "a%2541") = some text ∧
    PlainText text := by
  have hlib : PathLib strictLib := by
    refine ⟨fun _ _ => rfl, fun _ _ => rfl, fun c hlo hhi => decide_eq_false_iff_not.mpr ?_,
      fun _ => rfl⟩
    omega
  exact (hasUnsafePath_sound hlib).1 (lit "/a%2541") (by decide +kernel) _ (by decide +kernel) 3

end Okou.Firewall
