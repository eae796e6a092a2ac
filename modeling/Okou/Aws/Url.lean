import Okou.Firewall.PathSecurity
import Okou.Lib.Except
import Mathlib.Data.List.TakeWhile

/-!
# URLs of signed requests

The parts of `urllib.parse` that `aws_sigv4.py` rests on, for URLs without white space and
controls, and the library functions it calls.
-/

namespace Okou.Aws

open List hiding partition

open Firewall

/-! ### The library -/

/-- A SHA-256 digest. -/
structure Digest where
  bytes : List ℕ
  length_bytes : bytes.length = 32
  bytes_lt : ∀ b ∈ bytes, b < 256

variable (c : ℕ)

/-- A C0 control or DEL. -/
def isAsciiControl : Bool := decide (c ≤ 0x1F ∨ c = 0x7F)

/-- What is taken from the library. -/
structure AwsLib where
  /-- `str.lower`. -/
  lower : PyStr → PyStr
  /-- `str.upper`. -/
  upper : PyStr → PyStr
  /-- `str.isspace` on one character. -/
  isSpace : ℕ → Bool
  /-- `\d` in a pattern. -/
  isDigit : ℕ → Bool
  /-- `datetime.strptime` with the format of a signing date returns. -/
  isDate : PyStr → Bool
  /-- `urlsplit` does not refuse the authority, for its brackets or its normal form. -/
  netlocOk : PyStr → Bool
  /-- `hashlib.sha256`. -/
  sha256 : List ℕ → Digest
  /-- `hmac.new` with SHA-256. -/
  hmac : List ℕ → List ℕ → Digest
  lower_ascii : ∀ s : PyStr, isAscii s → lower s = plainLower s
  lower_clean : ∀ s : PyStr, (∀ c ∈ s, IsScalar c ∧ isAsciiControl c = false) →
    ∀ c ∈ lower s, IsScalar c ∧ isAsciiControl c = false
  lower_not_upper : ∀ s : PyStr, ∀ c ∈ lower s, ¬(65 ≤ c ∧ c ≤ 90)
  isSpace_ascii : ∀ c < 128, isSpace c = decide (9 ≤ c ∧ c ≤ 13 ∨ 28 ≤ c ∧ c ≤ 32)
  isDigit_ascii : ∀ c < 128, isDigit c = decide (48 ≤ c ∧ c ≤ 57)
  isDigit_clean : ∀ c, isDigit c = true → IsScalar c ∧ isAsciiControl c = false

variable (lib : AwsLib) (url : PyStr)

/-- A digest of nothing but the sum of the bytes. -/
def sumDigest (bytes : List ℕ) : Digest where
  bytes := List.replicate 32 (bytes.foldl (· + ·) 0 % 256)
  length_bytes := length_replicate
  bytes_lt b hb := by
    rw [eq_of_mem_replicate hb]
    omega

theorem plainLower_char {s} {c} (hc : c ∈ plainLower s) :
    c ∈ s ∧ ¬(65 ≤ c ∧ c ≤ 90) ∨ 97 ≤ c ∧ c ≤ 122 := by
  obtain ⟨d, hd, rfl⟩ := mem_map.mp hc
  split
  · exact .inr (by omega)
  · next h => exact .inl ⟨hd, h⟩

/-- A library that knows ASCII only. -/
def plainAws : AwsLib where
  lower := plainLower
  upper := plainUpper
  isSpace c := decide (9 ≤ c ∧ c ≤ 13 ∨ 28 ≤ c ∧ c ≤ 32)
  isDigit c := decide (48 ≤ c ∧ c ≤ 57)
  isDate _ := true
  netlocOk _ := true
  sha256 := sumDigest
  hmac key message := sumDigest (key ++ message)
  lower_ascii _ _ := rfl
  lower_clean s hs c hc := by
    rcases plainLower_char hc with hc | hc
    · exact hs c hc.1
    · exact ⟨isScalar_of_lt (by omega), decide_eq_false (by omega)⟩
  lower_not_upper s c hc := by
    rcases plainLower_char hc with hc | hc
    · exact hc.2
    · omega
  isSpace_ascii _ _ := rfl
  isDigit_ascii _ _ := rfl
  isDigit_clean c hc := by
    have hc := of_decide_eq_true hc
    exact ⟨isScalar_of_lt (by omega), decide_eq_false (by omega)⟩

/-! ### Splitting -/

/-- `urllib.parse.SplitResult`. -/
structure UrlParts where
  scheme : PyStr
  netloc : PyStr
  path : PyStr
  query : PyStr
  fragment : PyStr
  deriving DecidableEq, Repr

variable (parts : UrlParts)

/-- The ASCII letters. -/
def isLetter : Bool := decide (65 ≤ c ∧ c ≤ 90 ∨ 97 ≤ c ∧ c ≤ 122)

/-- `urllib.parse.scheme_chars`. -/
def isSchemeChar : Bool := isAlnum c || [cp '+', cp '-', cp '.'].contains c

/-- Where an authority ends. -/
def isDelimiter : Bool := [cp '/', cp '?', cp '#'].contains c

/-- The scheme, in lower case, and what follows it. -/
def splitScheme : PyStr × PyStr :=
  match partition (cp ':') url with
  | (before, some after) =>
    if (before.head?.any isLetter) && before.all isSchemeChar then (plainLower before, after)
      else ([], url)
  | (_, none) => ([], url)

/-- `_splitnetloc`, where the URL has an authority. -/
def splitNetloc : PyStr × PyStr :=
  if [cp '/', cp '/'].isPrefixOf url then
    ((url.drop 2).takeWhile (!isDelimiter ·), (url.drop 2).dropWhile (!isDelimiter ·))
  else ([], url)

/-- `urllib.parse.urlsplit`; `none` where it raises. -/
def urlsplit : Option UrlParts :=
  let url := (url.dropWhile fun c => decide (c ≤ 0x20)).filter fun c =>
    decide (c ∉ [0x09, 0x0D, 0x0A])
  let (scheme, rest) := splitScheme url
  let (netloc, rest) := splitNetloc rest
  if netloc ≠ [] ∧ !lib.netlocOk netloc then none
  else
    let (rest, fragment) := partition (cp '#') rest
    let (path, query) := partition (cp '?') rest
    some ⟨scheme, netloc, path, query.getD [], fragment.getD []⟩

/-- `SplitResult.geturl`, for an authority that is not empty. -/
def UrlParts.geturl : PyStr :=
  let path := if parts.path ≠ [] ∧ parts.path.head? ≠ some (cp '/') then cp '/' :: parts.path
    else parts.path
  let scheme := if parts.scheme = [] then [] else parts.scheme ++ [cp ':']
  let query := if parts.query = [] then [] else cp '?' :: parts.query
  let fragment := if parts.fragment = [] then [] else cp '#' :: parts.fragment
  scheme ++ lit "//" ++ parts.netloc ++ path ++ query ++ fragment

/-! ### The host -/

def UrlParts.hostinfo (parts : UrlParts) : PyStr × PyStr :=
  let hostinfo := (rpartition (cp '@') parts.netloc).2
  match partition (cp '[') hostinfo with
  | (_, some bracketed) =>
    let (hostname, rest) := partition (cp ']') bracketed
    (hostname, ((partition (cp ':') (rest.getD [])).2).getD [])
  | (_, none) =>
    let (hostname, port) := partition (cp ':') hostinfo
    (hostname, port.getD [])

def UrlParts.hostname (lib : AwsLib) (parts : UrlParts) : Option PyStr :=
  let hostname := parts.hostinfo.1
  if hostname = [] then none
  else
    match partition (cp '%') hostname with
    | (name, none) => some (lib.lower name)
    | (name, some zone) => some (lib.lower name ++ cp '%' :: zone)

/-- `SplitResult.port`; the outer `none` is `ValueError`. -/
def UrlParts.port (parts : UrlParts) : Option (Option ℕ) :=
  let port := parts.hostinfo.2
  if port = [] then some none
  else if port.all fun c => decide (48 ≤ c ∧ c ≤ 57) then
    let value := port.foldl (fun value c => value * 10 + (c - 48)) 0
    if value ≤ 65535 then some (some value) else none
  else none

def defaultPorts : List (PyStr × ℕ) := [(lit "http", 80), (lit "https", 443)]

def hostHeaderValue : Except String PyStr :=
  match parts.hostname lib with
  | none => .error "AWS request URL must include a host"
  | some hostname =>
    if parts.netloc = [] ∨ hostname = [] then .error "AWS request URL must include a host"
    else
      let host := if cp ':' ∈ hostname ∧ hostname.head? ≠ some (cp '[') then
          cp '[' :: hostname ++ [cp ']'] else hostname
      match parts.port with
      | none => .error "AWS request URL has an invalid port"
      | some none => .ok host
      | some (some port) =>
        if some port ≠ dictGet (lib.lower parts.scheme) defaultPorts then
          .ok (host ++ cp ':' :: decimal port)
        else .ok host

/-! ### Round trips -/

/-- No white space and no control. -/
def Clean (text : PyStr) : Prop := ∀ c ∈ text, 0x20 < c

theorem Clean.trim {url} (hurl : Clean url) :
    ((url.dropWhile fun c => c ≤ 0x20).filter fun c => c ∉ [0x09, 0x0D, 0x0A]) = url := by
  have hdrop : url.dropWhile (fun c => c ≤ 0x20) = url := by
    cases url with
    | nil => rfl
    | cons c rest =>
      have hc : 0x20 < c := hurl c mem_cons_self
      simpa using hc
  rw [hdrop, filter_eq_self]
  intro c hc
  have hc : 0x20 < c := hurl c hc
  refine decide_eq_true fun hmem => ?_
  simp only [mem_cons, not_mem_nil, or_false] at hmem
  omega

theorem plainLower_plainLower (s : PyStr) : plainLower (plainLower s) = plainLower s := by
  unfold plainLower
  rw [map_map]
  refine map_congr_left fun c _ => ?_
  dsimp only [Function.comp]
  split
  · rw [if_neg (by omega)]
  · rfl

theorem isSchemeChar_lower {c} (hc : isSchemeChar c) :
    isSchemeChar (if 65 ≤ c ∧ c ≤ 90 then c + 32 else c) := by
  split
  case isTrue hupper =>
    have halnum : isAlnum (c + 32) := decide_eq_true (.inr (.inr ⟨by
      show 97 ≤ c + 32
      omega, by
      show c + 32 ≤ 122
      omega⟩))
    rw [isSchemeChar, halnum, Bool.true_or]
  case isFalse => exact hc

/-- A scheme as `splitScheme` gives it. -/
structure IsScheme (scheme : PyStr) : Prop where
  head : scheme.head?.any isLetter = true
  chars : scheme.all isSchemeChar = true
  lower : plainLower scheme = scheme

theorem IsScheme.of_raw {raw} (hhead : raw.head?.any isLetter)
    (hchars : raw.all isSchemeChar) : IsScheme (plainLower raw) where
  head := by
    cases raw with
    | nil => cases hhead
    | cons c raw =>
      have hc : isLetter c := hhead
      show isLetter (if 65 ≤ c ∧ c ≤ 90 then c + 32 else c)
      rw [isLetter, decide_eq_true_eq] at hc ⊢
      split <;> omega
  chars := by
    rw [all_eq_true] at hchars ⊢
    intro c hc
    obtain ⟨d, hd, rfl⟩ := mem_map.mp hc
    exact isSchemeChar_lower (hchars d hd)
  lower := plainLower_plainLower raw

theorem colon_not_mem_scheme {scheme : PyStr} (hsch : scheme.all isSchemeChar) :
    cp ':' ∉ scheme := by
  intro hmem
  have hc := all_eq_true.mp hsch (cp ':') hmem
  revert hc
  decide

/-- The text of a scheme. -/
def schemeText (scheme : PyStr) : PyStr := if scheme = [] then [] else scheme ++ [cp ':']

/-- **What `splitScheme` does**: there is no scheme, or there is one before a colon. -/
theorem splitScheme_cases : splitScheme url = ([], url) ∨ ∃ raw rest, url = raw ++ cp ':' :: rest ∧
      raw.head?.any isLetter ∧ raw.all isSchemeChar ∧
      splitScheme url = (plainLower raw, rest) := by
  unfold splitScheme
  rcases partition_cases (cp ':') url with ⟨_, hpart⟩ | ⟨raw, rest, hurl, _, hpart⟩
  · rw [hpart]
    exact .inl rfl
  · rw [hpart]
    dsimp only
    split
    case isTrue h =>
      rw [Bool.and_eq_true] at h
      exact .inr ⟨raw, rest, hurl, h.1, h.2, rfl⟩
    case isFalse => exact .inl rfl

theorem splitScheme_schemeText {scheme : PyStr} (hsch : scheme = [] ∨ IsScheme scheme)
    (rest : PyStr) :
    splitScheme (schemeText scheme ++ (lit "//" ++ rest)) = (scheme, lit "//" ++ rest) := by
  rcases hsch with rfl | hsch
  · -- the text before a colon, if any, begins with a slash
    rcases splitScheme_cases (lit "//" ++ rest) with h | ⟨raw, after, hurl, hhead, _, _⟩
    · exact h
    · cases raw with
      | nil => cases hhead
      | cons c raw =>
        have hc : cp '/' = c := (List.cons.inj hurl).1
        subst hc
        cases hhead
  · have hne : scheme ≠ [] := by
      rintro rfl
      cases hsch.head
    have hpart : partition (cp ':') (scheme ++ cp ':' :: (lit "//" ++ rest)) = (scheme,
      some (lit "//" ++ rest)) :=
      partition_append (colon_not_mem_scheme hsch.chars) _
    rw [schemeText, if_neg hne, append_assoc, singleton_append, splitScheme, hpart]
    dsimp only
    rw [hsch.head, hsch.chars, hsch.lower]
    rfl

/-- What follows an authority. -/
def AfterNetloc (rest : PyStr) : Prop := rest = [] ∨ ∃ c ∈ rest.head?, isDelimiter c = true

/-- **What `splitNetloc` does**, where there is an authority. -/
theorem splitNetloc_cases : (splitNetloc url).1 = [] ∨
      (url = lit "//" ++ ((splitNetloc url).1 ++ (splitNetloc url).2) ∧
        (∀ c ∈ (splitNetloc url).1, isDelimiter c = false) ∧ AfterNetloc (splitNetloc url).2) := by
  unfold splitNetloc
  split
  case isFalse => exact .inl rfl
  case isTrue hpre =>
    refine .inr ⟨?_, fun c hc => ?_, ?_⟩
    · have htake := prefix_iff_eq_append.mp ( isPrefixOf_iff_prefix.mp hpre)
      rw [takeWhile_append_dropWhile]
      exact htake.symm
    · have hmem := mem_takeWhile_imp hc
      simpa using hmem
    · cases hdrop : (url.drop 2).dropWhile (!isDelimiter ·) with
      | nil => exact .inl rfl
      | cons c rest =>
        refine .inr ⟨c, rfl, ?_⟩
        have hhead := head?_dropWhile_not (fun c => !isDelimiter c) (url.drop 2)
        rw [hdrop] at hhead
        simpa using hhead

theorem splitNetloc_append {netloc rest} (hnetloc : ∀ c ∈ netloc, isDelimiter c = false)
    (hrest : AfterNetloc rest) : splitNetloc (lit "//" ++ (netloc ++ rest)) = (netloc, rest) := by
  have hdrop : (lit "//" ++ (netloc ++ rest)).drop 2 = netloc ++ rest := rfl
  have hall : ∀ c ∈ netloc, (!isDelimiter c) := fun c hc => by rw [hnetloc c hc]; rfl
  have hstop : rest.takeWhile (!isDelimiter ·) = [] ∧ rest.dropWhile (!isDelimiter ·) = rest := by
    rcases hrest with rfl | ⟨c, hc, hdel⟩
    · exact ⟨rfl, rfl⟩
    · cases rest with
      | nil => cases hc
      | cons d rest =>
        obtain rfl : d = c := Option.some.inj hc
        exact ⟨takeWhile_cons_of_neg (by simp [hdel]), dropWhile_cons_of_neg (by simp [hdel])⟩
  have hslash : [cp '/', cp '/'].isPrefixOf (lit "//" ++ (netloc ++ rest)) := rfl
  rw [splitNetloc, if_pos hslash, hdrop, takeWhile_append_of_pos hall, dropWhile_append_of_pos hall,
    hstop.1, hstop.2, append_nil]

/-- The text of a query and of a fragment. -/
def markedText (mark : ℕ) (text : PyStr) : PyStr := if text = [] then [] else mark :: text

/-- A path with what may stand after it. -/
structure IsPath (path : PyStr) : Prop where
  slash : path = [] ∨ path.head? = some (cp '/')
  question : cp '?' ∉ path
  hash : cp '#' ∉ path

theorem partition_markedText {mark} {before} (hbef : mark ∉ before) (text : PyStr) :
    ∃ after, partition mark (before ++ markedText mark text) = (before, after) ∧
      after.getD [] = text := by
  unfold markedText
  split
  case isTrue htext =>
    rw [append_nil, partition_of_not_mem hbef]
    exact ⟨none, rfl, htext.symm⟩
  case isFalse =>
    rw [partition_append hbef]
    exact ⟨some text, rfl, rfl⟩

/-- The text of the parts. -/
theorem geturl_eq {parts : UrlParts} (hpath : IsPath parts.path) :
    parts.geturl = schemeText parts.scheme ++ (lit "//" ++ (parts.netloc ++
      (parts.path ++ markedText (cp '?') parts.query ++ markedText (cp '#') parts.fragment))) := by
  have hpathText : (if parts.path ≠ [] ∧ parts.path.head? ≠ some (cp '/') then cp '/' :: parts.path
      else parts.path) = parts.path := by
    refine if_neg ?_
    rintro ⟨hne, hhead⟩
    rcases hpath.slash with h | h
    · exact hne h
    · exact hhead h
  rw [UrlParts.geturl, hpathText]
  simp [schemeText, markedText]

/-- **Parts are put together and split again.** -/
theorem urlsplit_geturl {lib : AwsLib} {parts : UrlParts} (hsch : parts.scheme = [] ∨
    IsScheme parts.scheme)
    (hnetloc : ∀ c ∈ parts.netloc, isDelimiter c = false) (hok : lib.netlocOk parts.netloc = true)
    (hpath : IsPath parts.path) (hquery : cp '#' ∉ parts.query) (hclean : Clean parts.geturl) :
    urlsplit lib parts.geturl = some parts := by
  have hafter : AfterNetloc
      (parts.path ++ markedText (cp '?') parts.query ++ markedText (cp '#') parts.fragment) := by
    unfold AfterNetloc markedText
    cases hpathEq : parts.path with
    | cons c path =>
      rcases hpath.slash with h | h
      · rw [hpathEq] at h
        cases h
      · rw [hpathEq] at h
        refine .inr ⟨c, rfl, ?_⟩
        rw [Option.some.inj h]
        rfl
    | nil =>
      by_cases hq : parts.query = []
      · by_cases hf : parts.fragment = []
        · exact .inl (by simp [hq, hf])
        · exact .inr ⟨cp '#', by simp [hq, hf], rfl⟩
      · exact .inr ⟨cp '?', by simp [hq], rfl⟩
  have hhash : cp '#' ∉ parts.path ++ markedText (cp '?') parts.query := by
    rw [mem_append, not_or]
    refine ⟨hpath.hash, ?_⟩
    unfold markedText
    split
    · exact not_mem_nil
    · rw [mem_cons, not_or]
      exact ⟨by decide, hquery⟩
  obtain ⟨fragment, hfragm, hfragmentText⟩ := partition_markedText hhash parts.fragment
  obtain ⟨query, hqueryPart, hqueryText⟩ := partition_markedText hpath.question parts.query
  rw [urlsplit, hclean.trim, geturl_eq hpath, splitScheme_schemeText hsch]
  dsimp only
  rw [splitNetloc_append hnetloc hafter]
  rw [if_neg (by rw [hok]; simp), hfragm]
  rw [hqueryPart]
  rw [hfragmentText, hqueryText]

/-- **What was split can be put together from the parts.** -/
structure SplitFrom (url : PyStr) (parts : UrlParts) : Prop where
  scheme : parts.scheme = [] ∨ IsScheme parts.scheme
  netloc : ∀ c ∈ parts.netloc, isDelimiter c = false
  path : IsPath parts.path
  query : cp '#' ∉ parts.query
  text : ∃ before queryMark fragmentMark,
    url = before ++ (lit "//" ++ (parts.netloc ++ (parts.path ++ (queryMark ++ fragmentMark)))) ∧
    (before = [] ∨ ∃ raw, before = raw ++ [cp ':'] ∧ parts.scheme = plainLower raw ∧
      raw.all isSchemeChar = true) ∧
    (queryMark = [] ∨ queryMark = cp '?' :: parts.query) ∧
    (fragmentMark = [] ∧ parts.fragment = [] ∨ fragmentMark = cp '#' :: parts.fragment)

/-- The two parts of a partition, and the mark between them with what follows. -/
theorem partition_mark (c : ℕ) (text : PyStr) : ∃ before after mark,
      partition c text = (before, after) ∧
      text = before ++ mark ∧ c ∉ before ∧
        (mark = [] ∧ after = none ∨ mark = c :: after.getD []) := by
  rcases partition_cases c text with ⟨hmem, hpart⟩ | ⟨a, b, hab, hmem, hpart⟩
  · exact ⟨text, none, [], hpart, (append_nil text).symm, hmem, .inl ⟨rfl, rfl⟩⟩
  · exact ⟨a, some b, c :: b, hpart, hab, hmem, .inr rfl⟩

/-- The path, the query and the fragment after an authority. -/
theorem split_after {rest} (hrest : AfterNetloc rest) :
    let (beforeFragment, fragment) := partition (cp '#') rest
    let (path, query) := partition (cp '?') beforeFragment
    IsPath path ∧ cp '#' ∉ query.getD [] ∧ ∃ queryMark fragmentMark, rest = path ++
      (queryMark ++ fragmentMark) ∧ (queryMark = [] ∨ queryMark = cp '?' :: query.getD []) ∧
      (fragmentMark = [] ∧ fragment.getD [] = [] ∨ fragmentMark = cp '#' :: fragment.getD []) := by
  obtain ⟨beforeFragment, fragment, fragmentMark, hpartFragment, hrestText, hhash, hfragm⟩ :=
    partition_mark (cp '#') rest
  obtain ⟨path, query, queryMark, hpartQuery, hbef, hquest, hquery⟩ :=
    partition_mark (cp '?') beforeFragment
  rw [hpartFragment]
  dsimp only
  rw [hpartQuery]
  rw [hbef, mem_append, not_or] at hhash
  refine ⟨⟨?_, hquest, hhash.1⟩, ?_, queryMark, fragmentMark, ?_, hquery.imp_left And.left, ?_⟩
  · -- the path is empty, or the delimiter after the authority is its slash
    cases path with
    | nil => exact .inl rfl
    | cons c path =>
      refine .inr ?_
      rw [hbef, append_assoc] at hrestText
      rcases hrest with rfl | ⟨d, hd, hdel⟩
      · cases hrestText
      · rw [hrestText] at hd
        obtain rfl : c = d := Option.some.inj hd
        rw [isDelimiter, contains_eq_mem, decide_eq_true_eq] at hdel
        simp only [mem_cons, not_mem_nil, or_false] at hdel
        rcases hdel with h | h | h
        · exact congrArg some h
        · exact absurd mem_cons_self (h ▸ hquest)
        · exact absurd mem_cons_self (h ▸ hhash.1)
  · rcases hquery with ⟨_, rfl⟩ | h
    · exact not_mem_nil
    · rw [h] at hhash
      exact fun hmem => hhash.2 (mem_cons_of_mem _ hmem)
  · rw [hrestText, hbef, append_assoc]
  · exact hfragm.imp_left fun ⟨hmark, hnone⟩ => ⟨hmark, hnone ▸ rfl⟩

theorem urlsplit_spec {lib} {url} {parts} (hclean : Clean url)
    (h : urlsplit lib url = some parts) (hne : parts.netloc ≠ []) :
    SplitFrom url parts ∧ lib.netlocOk parts.netloc := by
  rw [urlsplit, hclean.trim] at h
  dsimp only at h
  split at h
  case isTrue => cases h
  case isFalse hnetlocOk =>
    cases h
    rcases splitNetloc_cases (splitScheme url).2 with hnil | ⟨htext, hnetloc, hafter⟩
    · exact absurd hnil hne
    · have hok : lib.netlocOk (splitNetloc (splitScheme url).2).1 := by
        rw [not_and, Bool.not_eq_true, Bool.not_eq_false'] at hnetlocOk
        exact hnetlocOk hne
      obtain ⟨hpath, hquery, queryMark, fragmentMark, hrest, hqueryMark, hfragmentMark⟩ :=
        split_after hafter
      refine ⟨⟨?_, hnetloc, hpath, hquery, ?_⟩, hok⟩
      · rcases splitScheme_cases url with hsch | ⟨raw, rest, _, hhead, hchars, hsch⟩
        · exact .inl (by rw [hsch])
        · refine .inr ?_
          rw [hsch]
          exact .of_raw hhead hchars
      · rw [hrest] at htext
        rcases splitScheme_cases url with hsch | ⟨raw, rest, hurl, _, hchars, hsch⟩
        · refine ⟨[], queryMark, fragmentMark, ?_, .inl rfl, hqueryMark, hfragmentMark⟩
          rw [hsch] at htext ⊢
          exact htext
        · refine ⟨raw ++ [cp ':'], queryMark, fragmentMark, ?_, .inr ⟨raw, rfl, ?_, hchars⟩,
            hqueryMark, hfragmentMark⟩
          · rw [hsch] at htext ⊢
            rw [append_assoc, singleton_append]
            exact hurl.trans (congrArg (fun rest => raw ++ cp ':' :: rest) htext)
          · rw [hsch]

end Okou.Aws
