import Okou.Aws.SigV4

/-!
# What is written is read back

The texts that signing writes (the query, the credential, the names of the signed headers,
the authorization header) and what the inspection reads from them.
-/

namespace Okou.Aws

open List hiding partition

open Firewall

/-! ### Escapes -/

variable {c : ℕ}

theorem wellFormed_cons (hc : c ≠ cp '%') (text : PyStr) :
    percentEscapesWellFormed (c :: text) = percentEscapesWellFormed text := by
  rw [percentEscapesWellFormed.eq_def]
  exact if_neg hc

/-- A character that is in no escape separates two texts. -/
theorem wellFormed_append (hsign : c ≠ cp '%') (hhex : isHexDigit c = false) (text : PyStr) :
    ∀ run : PyStr, percentEscapesWellFormed (run ++ c :: text) =
      (percentEscapesWellFormed run && percentEscapesWellFormed text)
  | [] => wellFormed_cons hsign text
  | d :: run => by
    by_cases hd : d = cp '%'
    · subst hd
      match run with
      | [] => cases text <;> simp [percentEscapesWellFormed, hhex]
      | [e] => simp [percentEscapesWellFormed, hhex]
      | a :: b :: run =>
        have ih := wellFormed_append hsign hhex text run
        simp [percentEscapesWellFormed, ih, Bool.and_assoc]
    · rw [cons_append, wellFormed_cons hd, wellFormed_cons hd]
      exact wellFormed_append hsign hhex text run

theorem isHexDigit_hexDigit {n} (hn : n < 16) : isHexDigit (hexDigit n) := by
  unfold isHexDigit hexDigit
  rw [decide_eq_true_eq]
  show 48 ≤ _ ∧ _ ≤ 57 ∨ 65 ≤ _ ∧ _ ≤ 70 ∨ 97 ≤ _ ∧ _ ≤ 102
  split <;> omega

theorem wellFormed_escapes {bytes : List ℕ} (hbytes : ∀ b ∈ bytes, b < 256) (text : PyStr) :
    percentEscapesWellFormed (bytes.flatMap percentEscape ++ text) =
      percentEscapesWellFormed text := by
  induction bytes with
  | nil => rfl
  | cons b bytes ih =>
    have hb : b < 256 := hbytes b mem_cons_self
    have ih := ih (forall_mem_cons.mp hbytes).2
    show percentEscapesWellFormed (cp '%' :: hexDigit (b / 16) :: hexDigit (b % 16) :: _) = _
    rw [percentEscapesWellFormed, if_pos rfl, isHexDigit_hexDigit (by omega),
      isHexDigit_hexDigit (by omega), Bool.true_and, Bool.true_and]
    exact ih

variable {text : PyStr}

/-- What is quoted has no incomplete escape. -/
theorem wellFormed_quoteText {safe : PyStr} (hsafe : isSafe safe 37 = false)
    (htext : Utf8Encodable text)
    (rest : PyStr) : percentEscapesWellFormed (quoteText safe text ++ rest) =
      percentEscapesWellFormed rest := by
  induction text with
  | nil => rfl
  | cons c text ih =>
    have ih := ih (forall_mem_cons.mp htext).2
    rw [quoteText, flatMap_cons, append_assoc, quoteChar_eq]
    split
    case isTrue hc =>
      have hne : c ≠ cp '%' := by
        rintro rfl
        rw [show cp '%' = 37 from rfl, hsafe] at hc
        cases hc
      rw [singleton_append, wellFormed_cons hne]
      exact ih
    case isFalse =>
      rw [wellFormed_escapes (utf8Encode_lt (htext c mem_cons_self))]
      exact ih

/-! ### The query -/

/-- The characters `_aws_quote` keeps. -/
def awsSafe : PyStr := lit "-_.~"

variable {value : PyStr} {d : ℕ} {pairs : List Field} {texts : List PyStr} (pair : Field)

theorem awsQuote_eq_ok {quoted} :
    awsQuote value = .ok quoted ↔ Utf8Encodable value ∧ quoted = quoteText awsSafe value := by
  unfold awsQuote quoteUrlComponent
  cases hquote : quote (lit "-_.~") value with
  | none =>
    refine ⟨nofun, fun h => ?_⟩
    have hsome := quote_eq_some.mpr ⟨h.1, h.2.symm⟩
    rw [hquote.symm.trans hsome]
  | some text =>
    obtain ⟨hscal, rfl⟩ := quote_eq_some.mp hquote
    exact ⟨fun h => ⟨hscal, (Except.ok.inj h).symm⟩, fun h => congrArg Except.ok h.2.symm⟩

/-- What is quoted has unreserved characters and percent signs only. -/
theorem mem_awsQuoted (hvalue : Utf8Encodable value)
    (hd : d ∈ quoteText awsSafe value) : d = cp '%' ∨ isUnreserved d := by
  rcases mem_quoteText hvalue hd with hd | hd | ⟨_, hsafe⟩
  · exact .inl hd
  · exact .inr hd
  · refine .inr ?_
    simp only [isSafe, Bool.or_eq_true, Bool.and_eq_true, contains_eq_mem,
      decide_eq_true_eq] at hsafe
    rcases hsafe with hsafe | ⟨_, hmem⟩
    · exact hsafe
    · have hsafe : ∀ c ∈ awsSafe, isUnreserved c := by decide
      exact hsafe d hmem

theorem not_mem_awsQuoted (hvalue : Utf8Encodable value) (hd : d ≠ cp '%')
    (hresv : isUnreserved d = false) : d ∉ quoteText awsSafe value := by
  intro hmem
  rcases mem_awsQuoted hvalue hmem with h | h
  · exact hd h
  · rw [hresv] at h
    cases h

theorem unquoteQueryComponent_quoted (hvalue : Utf8Encodable value) :
    unquoteQueryComponent (quoteText awsSafe value) = .ok value := by
  have hwell : percentEscapesWellFormed (quoteText awsSafe value) := by
    rw [← append_nil (quoteText awsSafe value), wellFormed_quoteText rfl hvalue]
    rfl
  rw [unquoteQueryComponent, require_bind_eq_ok]
  refine ⟨hwell, ?_⟩
  rw [percentBytes_quoteText rfl hvalue, utf8Decode_encodeText hvalue]

/-- A pair can be encoded. -/
def PairEncodable (pair : Field) : Prop := Utf8Encodable pair.1 ∧ Utf8Encodable pair.2

/-- A pair as it stands in an encoded query. -/
def encodedPair (pair : Field) : Field := (quoteText awsSafe pair.1, quoteText awsSafe pair.2)

theorem quotePair_eq_ok (quoted : Field) :
    quotePair pair = .ok quoted ↔ PairEncodable pair ∧ quoted = encodedPair pair := by
  unfold quotePair
  rw [bind_eq_ok]
  constructor
  · rintro ⟨key, hkey, h⟩
    obtain ⟨value, hvalue, h⟩ := bind_eq_ok.mp h
    obtain ⟨hkeyOk, rfl⟩ := awsQuote_eq_ok.mp hkey
    obtain ⟨hvalueOk, rfl⟩ := awsQuote_eq_ok.mp hvalue
    exact ⟨⟨hkeyOk, hvalueOk⟩, (Except.ok.inj h).symm⟩
  · rintro ⟨⟨hkey, hvalue⟩, rfl⟩
    exact ⟨_, awsQuote_eq_ok.mpr ⟨hkey, rfl⟩, bind_eq_ok.mpr ⟨_, awsQuote_eq_ok.mpr ⟨hvalue, rfl⟩,
      rfl⟩⟩

/-- The text of a query. -/
def queryText (pairs : List Field) : PyStr := join (cp '&') (pairs.map (pairText ∘ encodedPair))

variable {query : PyStr} {pair}

theorem encodeQueryPairs_eq_ok :
    encodeQueryPairs pairs = .ok query ↔ (∀ pair ∈ pairs, PairEncodable pair) ∧
      query = queryText pairs := by
  unfold encodeQueryPairs queryText
  rw [bind_eq_ok]
  constructor
  · rintro ⟨quoted, hquot, h⟩
    obtain ⟨hpairs, rfl⟩ := (mapM_eq_ok_map quotePair_eq_ok).mp hquot
    refine ⟨hpairs, ?_⟩
    rw [← Except.ok.inj h, map_map]
  · rintro ⟨hpairs, rfl⟩
    refine ⟨_, (mapM_eq_ok_map quotePair_eq_ok).mpr ⟨hpairs, rfl⟩, ?_⟩
    rw [map_map]

theorem mem_pairText (hpair : PairEncodable pair)
    (hd : d ∈ pairText (encodedPair pair)) : d = cp '=' ∨ d = cp '%' ∨ isUnreserved d := by
  rw [pairText, mem_append, mem_cons] at hd
  rcases hd with hd | hd | hd
  · exact .inr (mem_awsQuoted hpair.1 hd)
  · exact .inl hd
  · exact .inr (mem_awsQuoted hpair.2 hd)

theorem parseQueryPair_encoded (hpair : PairEncodable pair) :
    parseQueryPair (pairText (encodedPair pair)) = .ok pair := by
  have hkey : cp '=' ∉ quoteText awsSafe pair.1 := not_mem_awsQuoted hpair.1 (by decide) rfl
  rw [parseQueryPair, pairText, encodedPair, partition_append hkey]
  exact bind_eq_ok.mpr ⟨_, unquoteQueryComponent_quoted hpair.1,
    bind_eq_ok.mpr ⟨_, unquoteQueryComponent_quoted hpair.2, rfl⟩⟩

theorem rawPairs_join (hne : ∀ text ∈ texts, text ≠ [])
    (hamp : ∀ text ∈ texts, cp '&' ∉ text) : rawPairs (join (cp '&') texts) = texts := by
  unfold rawPairs join
  cases texts with
  | nil => rfl
  | cons text texts =>
    rw [splitOn_intercalate _ hamp (cons_ne_nil _ _), filter_eq_self]
    exact fun text htext => decide_eq_true (hne text htext)

theorem rawPairs_queryText (hpairs : ∀ pair ∈ pairs, PairEncodable pair) :
    rawPairs (queryText pairs) = pairs.map (pairText ∘ encodedPair) := by
  refine rawPairs_join ?_ ?_ <;> intro text htext <;> obtain ⟨pair, hpair, rfl⟩ := mem_map.mp htext
  · exact append_ne_nil_of_right_ne_nil _ (cons_ne_nil _ _)
  · intro hmem
    rcases mem_pairText (hpairs pair hpair) hmem with h | h | h <;> cases h

/-- **An encoded query has the pairs it was made from**, if there are not too many. -/
theorem parseQueryPairs_encode (h : encodeQueryPairs pairs = .ok query) (parsed) :
    parseQueryPairs query = .ok parsed ↔ pairs.length ≤ maxQueryPairs ∧ parsed = pairs := by
  obtain ⟨hpairs, rfl⟩ := encodeQueryPairs_eq_ok.mp h
  have hparse : (pairs.map (pairText ∘ encodedPair)).mapM parseQueryPair = .ok pairs := by
    rw [mapM_eq_ok, List.forall₂_map_left_iff, List.forall₂_same]
    exact fun pair hpair => parseQueryPair_encoded (hpairs pair hpair)
  rw [parseQueryPairs, require_bind_eq_ok, rawPairs_queryText hpairs, length_map, hparse]
  refine and_congr_right fun _ => ?_
  exact ⟨fun h => (Except.ok.inj h).symm, fun h => congrArg Except.ok h.symm⟩

variable {sep : ℕ}

theorem mem_join (hd : d ∈ join sep texts) : d = sep ∨ ∃ text ∈ texts, d ∈ text := by
  induction texts with
  | nil => exact absurd hd not_mem_nil
  | cons text texts ih =>
    cases texts with
    | nil =>
      rw [join, intercalate_singleton] at hd
      exact .inr ⟨text, mem_cons_self, hd⟩
    | cons text' texts =>
      rw [join, intercalate_cons_cons, mem_append, mem_append, mem_singleton] at hd
      rcases hd with (hd | hd) | hd
      · exact .inr ⟨text, mem_cons_self, hd⟩
      · exact .inl hd
      · rcases ih hd with h | ⟨t, ht, hd⟩
        · exact .inl h
        · exact .inr ⟨t, mem_cons_of_mem _ ht, hd⟩

/-- The characters of a query that was written. -/
theorem mem_queryText (hpairs : ∀ pair ∈ pairs, PairEncodable pair)
    (hd : d ∈ queryText pairs) : d = cp '&' ∨ d = cp '=' ∨ d = cp '%' ∨ isUnreserved d := by
  rcases mem_join hd with h | ⟨text, htext, hd⟩
  · exact .inl h
  · obtain ⟨pair, hpair, rfl⟩ := mem_map.mp htext
    exact .inr (mem_pairText (hpairs pair hpair) hd)

theorem wellFormed_pairText (hpair : PairEncodable pair) :
    percentEscapesWellFormed (pairText (encodedPair pair)) := by
  rw [pairText, encodedPair, wellFormed_quoteText rfl hpair.1, wellFormed_cons (by decide),
    ← append_nil (quoteText awsSafe pair.2), wellFormed_quoteText rfl hpair.2]
  rfl

theorem wellFormed_join (hsign : sep ≠ cp '%') (hhex : isHexDigit sep = false)
    (htexts : ∀ text ∈ texts, percentEscapesWellFormed text) :
      percentEscapesWellFormed (join sep texts) := by
  induction texts with
  | nil => rfl
  | cons text texts ih =>
    rw [forall_mem_cons] at htexts
    cases texts with
    | nil =>
      rw [join, intercalate_singleton]
      exact htexts.1
    | cons text' texts =>
      rw [join, intercalate_cons_cons, append_assoc, singleton_append,
        wellFormed_append hsign hhex, htexts.1, Bool.true_and]
      exact ih htexts.2

theorem wellFormed_queryText (hpairs : ∀ pair ∈ pairs, PairEncodable pair) :
    percentEscapesWellFormed (queryText pairs) := by
  exact wellFormed_join (by decide) rfl (forall_mem_map.mpr fun pair hpair =>
    wellFormed_pairText (hpairs pair hpair))

/-! ### The credential -/

section Library

variable {lib : AwsLib}

variable {c : ℕ} {scope : CredentialScope} {value name : PyStr} {credentials : Credentials}
  {names : List PyStr}

theorem isSpace_visible (hlo : 32 < c) (hhi : c < 127) : lib.isSpace c = false := by
  rw [lib.isSpace_ascii c (by omega)]
  exact decide_eq_false (by omega)

/-- A scope that `parseCredential` accepts. -/
structure ScopeOk (lib : AwsLib) (scope : CredentialScope) : Prop where
  date : allDigits lib 8 scope.date = true
  region : isScopeRegion scope.region = true
  service : isScopeService scope.service = true

theorem parseCredential_spec {credential accessKeyId}
    (h : parseCredential lib credential = .ok (accessKeyId, scope)) : ScopeOk lib scope := by
  unfold parseCredential at h
  split at h
  case h_2 => cases h
  case h_1 =>
    obtain ⟨_, h⟩ := require_bind_eq_ok.mp h
    obtain ⟨_, h⟩ := require_bind_eq_ok.mp h
    obtain ⟨⟨_, _, hdate, hreg, hserv⟩, h⟩ := require_bind_eq_ok.mp h
    obtain ⟨_, rfl⟩ := Prod.mk.inj (Except.ok.inj h)
    exact ⟨hdate, hreg, hserv⟩

theorem isAlnum_iff : isAlnum c ↔ 48 ≤ c ∧ c ≤ 57 ∨ 65 ≤ c ∧ c ≤ 90 ∨ 97 ≤ c ∧ c ≤ 122 :=
  decide_eq_true_iff

theorem isScopeService_iff : isScopeService value ↔
    value ≠ [] ∧ ∀ c ∈ value, isAlnum c ∨ c = 46 ∨ c = 95 ∨ c = 45 := by
  simp [isScopeService, cp]

theorem isAccessKeyId_iff : isAccessKeyId value ↔ value ≠ [] ∧ ∀ c ∈ value, isAlnum c := by
  simp [isAccessKeyId]

theorem allDigits_iff {count} : allDigits lib count value ↔ value.length = count ∧ ∀ c ∈ value,
    lib.isDigit c := by
  simp [allDigits]

theorem isDigit_ne (hc : lib.isDigit c) (hd : d < 128) (hdigit : ¬(48 ≤ d ∧ d ≤ 57)) : c ≠ d := by
  rintro rfl
  rw [lib.isDigit_ascii c hd, decide_eq_true_eq] at hc
  exact hdigit hc

/-- The characters of a scope. -/
theorem ScopeOk.char (hscope : ScopeOk lib scope)
    (htext : text ∈ [scope.date, scope.region, scope.service, aws4Request]) (hc : c ∈ text) :
    lib.isDigit c ∨ isAlnum c ∨ c = 46 ∨ c = 95 ∨ c = 45 ∨ c = 42 := by
  simp only [mem_cons, not_mem_nil, or_false] at htext
  rcases htext with rfl | rfl | rfl | rfl
  · exact .inl ((allDigits_iff.mp hscope.date).2 c hc)
  · have hreg := hscope.region
    rw [isScopeRegion, Bool.or_eq_true, decide_eq_true_eq, isScopeService_iff] at hreg
    rcases hreg with ⟨_, hreg⟩ | hreg
    · have hc := hreg c hc
      tauto
    · rw [hreg] at hc
      exact .inr (.inr (.inr (.inr (.inr (mem_singleton.mp hc)))))
  · have hc := (isScopeService_iff.mp hscope.service).2 c hc
    tauto
  · have hlast : ∀ c ∈ aws4Request, isAlnum c ∨ c = 95 := by decide
    have hc := hlast c hc
    tauto

/-- A character that no credential has. -/
theorem not_mem_scope (hscope : ScopeOk lib scope) (hd : d < 128)
    (hother : ¬(isAlnum d ∨ d = 46 ∨ d = 95 ∨ d = 45 ∨ d = 42))
    (htext : text ∈ [scope.date, scope.region, scope.service, aws4Request]) : d ∉ text := by
  intro hmem
  rcases hscope.char htext hmem with hdigit | h
  · refine isDigit_ne hdigit hd (fun hd => hother (.inl (isAlnum_iff.mpr (.inl hd)))) rfl
  · exact hother h

theorem credentialText_eq (credentials) (scope) : credentialText credentials scope =
      join (cp '/') (credentials.accessKeyId :: [scope.date, scope.region, scope.service,
        aws4Request]) := by
  rfl

/-- **The credential is read back.** -/
theorem parseCredential_text (hid : isAccessKeyId credentials.accessKeyId)
    (hscope : ScopeOk lib scope) :
    parseCredential lib (credentialText credentials scope) = .ok (credentials.accessKeyId,
      scope) := by
  obtain ⟨hidNe, hidChars⟩ := isAccessKeyId_iff.mp hid
  have hslash : ∀ text ∈ credentials.accessKeyId :: [scope.date, scope.region, scope.service,
      aws4Request],
      cp '/' ∉ text := by
    rw [forall_mem_cons]
    refine ⟨fun hmem => ?_, fun text htext => not_mem_scope hscope (by decide) (by decide) htext⟩
    cases hidChars _ hmem
  have hctrl : hasAsciiControl credentials.accessKeyId = false := by
    rw [hasAsciiControl, any_eq_false]
    intro c hc
    have hc := isAlnum_iff.mp (hidChars c hc)
    rw [isAsciiControl, decide_eq_true_eq]
    omega
  have hdateNe : scope.date ≠ [] := by
    intro hnil
    have hlength := (allDigits_iff.mp hscope.date).1
    rw [hnil] at hlength
    cases hlength
  have hregionNe : scope.region ≠ [] := by
    intro hnil
    have hreg := hscope.region
    rw [hnil] at hreg
    cases hreg
  have hserviceNe : scope.service ≠ [] := (isScopeService_iff.mp hscope.service).1
  rw [parseCredential, credentialText_eq, join, splitOn_intercalate _ hslash (cons_ne_nil _ _)]
  refine require_bind_eq_ok.mpr ⟨rfl,
    require_bind_eq_ok.mpr ⟨⟨hidNe, hdateNe, hregionNe, hserviceNe⟩, ?_⟩⟩
  exact require_bind_eq_ok.mpr ⟨⟨hid, hctrl, hscope.date, hscope.region, hscope.service⟩, rfl⟩

/-! ### The signed headers -/

theorem isTokenChar_visible (hc : isTokenChar c) : 32 < c ∧ c < 127 ∧ c ≠ 44 ∧ c ≠ 59 ∧ c ≠ 58 := by
  rw [isTokenChar, Bool.or_eq_true, contains_eq_mem, decide_eq_true_eq] at hc
  rcases hc with hc | hc
  · have hc := isAlnum_iff.mp hc
    omega
  · have hall : ∀ c ∈ lit "!#$%&'*+-.^_|~" ++ [0x60], 32 < c ∧ c < 127 ∧ c ≠ 44 ∧ c ≠ 59 ∧
      c ≠ 58 := by
      decide
    exact hall c hc

theorem isHttpHeaderName_iff : isHttpHeaderName name ↔ name ≠ [] ∧ ∀ c ∈ name, isTokenChar c := by
  simp [isHttpHeaderName]

theorem isAscii_name (hname : isHttpHeaderName name) : isAscii name := by
  rw [isAscii, all_eq_true]
  intro c hc
  have hc := isTokenChar_visible ((isHttpHeaderName_iff.mp hname).2 c hc)
  exact decide_eq_true (by omega)

theorem isTokenChar_lower (hc : isTokenChar c) :
    isTokenChar (if 65 ≤ c ∧ c ≤ 90 then c + 32 else c) := by
  split
  case isTrue hupper =>
    have halnum : isAlnum (c + 32) := isAlnum_iff.mpr (by omega)
    rw [isTokenChar, halnum, Bool.true_or]
  case isFalse => exact hc

/-- The name of a header in lower case is a name. -/
theorem isHttpHeaderName_lower (hname : isHttpHeaderName name) :
    isHttpHeaderName (lib.lower name) := by
  rw [lib.lower_ascii name (isAscii_name hname)]
  obtain ⟨hne, hchars⟩ := isHttpHeaderName_iff.mp hname
  refine isHttpHeaderName_iff.mpr ⟨by simpa [plainLower] using hne,
    forall_mem_map.mpr fun d hd => ?_⟩
  exact isTokenChar_lower (hchars d hd)

/-- A name that was put in lower case stays as it is. -/
theorem lower_lower (hname : isHttpHeaderName (lib.lower name)) :
    lib.lower (lib.lower name) = lib.lower name := by
  rw [lib.lower_ascii (lib.lower name) (isAscii_name hname), plainLower]
  conv_rhs => rw [← map_id (lib.lower name)]
  refine map_congr_left fun c hc => ?_
  exact if_neg (lib.lower_not_upper name c hc)

/-- A set of names that can be signed. -/
structure SignedSet (lib : AwsLib) (names : List PyStr) : Prop where
  token : ∀ name ∈ names, isHttpHeaderName name = true
  lower : ∀ name ∈ names, lib.lower name = name
  nodup : names.Nodup
  host : lit "host" ∈ names

theorem parseSignedHeaders_spec (h : parseSignedHeaders lib value = .ok names) :
    SignedSet lib names := by
  obtain ⟨⟨htoken, hnodup⟩, h⟩ := require_bind_eq_ok.mp h
  obtain ⟨hhost, ⟨⟩⟩ := require_bind_eq_ok.mp h
  refine ⟨htoken, fun name hname => ?_, hnodup, hhost⟩
  have hvalid := htoken name hname
  obtain ⟨part, _, rfl⟩ := mem_map.mp hname
  exact lower_lower hvalid

theorem sortedNames_perm (names) : (sortedNames names).Perm names :=
  perm_insertionSort _ names

theorem SignedSet.sorted (hnames : SignedSet lib names) : SignedSet lib (sortedNames names) where
  token name hname := hnames.token name ((sortedNames_perm names).mem_iff.mp hname)
  lower name hname := hnames.lower name ((sortedNames_perm names).mem_iff.mp hname)
  nodup := (sortedNames_perm names).nodup_iff.mpr hnames.nodup
  host := (sortedNames_perm names).mem_iff.mpr hnames.host

theorem sortedNames_sortedNames (names) : sortedNames (sortedNames names) = sortedNames names :=
  (pairwise_insertionSort _ names).insertionSort_eq

section

variable (hnames : SignedSet lib names)

include hnames

theorem SignedSet.ne_nil : names ≠ [] :=
  ne_nil_of_mem hnames.host

theorem SignedSet.splitOn_join : (join (cp ';') names).splitOn (cp ';') = names := by
  refine splitOn_intercalate _ (fun name hname hmem => ?_) hnames.ne_nil
  have hc := isTokenChar_visible ((isHttpHeaderName_iff.mp (hnames.token name hname)).2 _ hmem)
  exact hc.2.2.2.1 rfl

/-- **The names of the signed headers are read back.** -/
theorem parseSignedHeaders_join : parseSignedHeaders lib (join (cp ';') names) = .ok names := by
  have hparts : (names.map fun part => lib.lower (strip lib.isSpace part)) = names := by
    conv_rhs => rw [← map_id names]
    refine map_congr_left fun name hname => ?_
    have hspace : ∀ c ∈ name, lib.isSpace c = false := by
      intro c hc
      have hc := isTokenChar_visible ((isHttpHeaderName_iff.mp (hnames.token name hname)).2 c hc)
      exact isSpace_visible hc.1 hc.2.1
    rw [strip_of_ends (fun c hc => hspace c (mem_of_head? hc)) (fun c hc =>
      hspace c (mem_of_getLast? hc))]
    exact hnames.lower name hname
  rw [parseSignedHeaders, hnames.splitOn_join, hparts]
  exact require_bind_eq_ok.mpr ⟨⟨hnames.token, hnames.nodup⟩,
    require_bind_eq_ok.mpr ⟨hnames.host, rfl⟩⟩

end

/-! ### The authorization header -/

/-- The value of a parameter of an authorization header. -/
structure ParamValue (lib : AwsLib) (value : PyStr) : Prop where
  ne_nil : value ≠ []
  head : ∀ c ∈ value.head?, lib.isSpace c = false
  last : ∀ c ∈ value.getLast?, lib.isSpace c = false
  comma : cp ',' ∉ value

theorem ParamValue.strip (hvalue : ParamValue lib value) : strip lib.isSpace value = value :=
  strip_of_ends hvalue.head hvalue.last

theorem ParamValue.of_visible (hne : value ≠ [])
    (hchars : ∀ c ∈ value, 32 < c ∧ c < 127 ∧ c ≠ 44) : ParamValue lib value where
  ne_nil := hne
  head c hc := isSpace_visible (hchars c (mem_of_head? hc)).1 (hchars c (mem_of_head? hc)).2.1
  last c hc := isSpace_visible (hchars c (mem_of_getLast? hc)).1 (hchars c (mem_of_getLast? hc)).2.1
  comma hmem := (hchars _ hmem).2.2 rfl

theorem paramValue_credential (hid : isAccessKeyId credentials.accessKeyId)
    (hscope : ScopeOk lib scope) : ParamValue lib (credentialText credentials scope) := by
  obtain ⟨hne, hchars⟩ := isAccessKeyId_iff.mp hid
  refine ⟨?_, ?_, ?_, ?_⟩
  · exact append_ne_nil_of_left_ne_nil hne _
  · -- the text begins with the access key
    intro c hc
    rw [credentialText, head?_append_of_ne_nil _ hne] at hc
    have hc := isAlnum_iff.mp (hchars c (mem_of_head? hc))
    exact isSpace_visible (by omega) (by omega)
  · -- and ends with the last part of the scope
    intro c hc
    have hlast : (credentialText credentials scope).getLast? = some (cp 't') := by
      have htext : credentialText credentials scope =
          (credentials.accessKeyId ++ cp '/' :: (scope.date ++ cp '/' :: (scope.region ++ cp '/' ::
            (scope.service ++ lit "/aws4_reques")))) ++ [cp 't'] := by
        simp [credentialText, scopeString, join, aws4Request, lit, cp]
      rw [htext, getLast?_concat]
    rw [hlast] at hc
    cases hc
    exact isSpace_visible (by decide) (by decide)
  · rw [credentialText_eq]
    intro hmem
    rcases mem_join hmem with h | ⟨text, htext, hmem⟩
    · cases h
    · rcases mem_cons.mp htext with rfl | htext
      · cases hchars _ hmem
      · exact not_mem_scope hscope (by decide) (by decide) htext hmem

theorem paramValue_names (hnames : SignedSet lib names) : ParamValue lib (join (cp ';') names) := by
  refine .of_visible ?_ ?_
  · intro hnil
    have hsplit := hnames.splitOn_join
    rw [hnil, splitOn_nil] at hsplit
    have htoken := hnames.token [] (hsplit ▸ mem_cons_self)
    cases htoken
  · intro c hc
    rcases mem_join hc with rfl | ⟨name, hname, hc⟩
    · decide
    · have hc := isTokenChar_visible ((isHttpHeaderName_iff.mp (hnames.token name hname)).2 c hc)
      exact ⟨hc.1, hc.2.1, hc.2.2.1⟩

theorem Digest.mem_hex (digest : Digest) (hc : c ∈ digest.hex) : 48 ≤ c ∧ c ≤ 57 ∨ 97 ≤ c ∧
    c ≤ 102 := by
  obtain ⟨b, hb, hc⟩ := mem_flatMap.mp hc
  have hb := digest.bytes_lt b hb
  simp only [mem_cons, not_mem_nil, or_false, lowerHexDigit] at hc
  rcases hc with rfl | rfl <;> split <;> omega

theorem Digest.hex_ne_nil (digest : Digest) : digest.hex ≠ [] := by
  obtain ⟨bytes, hlength, _⟩ := digest
  cases bytes with
  | nil => cases hlength
  | cons b bytes => exact cons_ne_nil _ _

theorem paramValue_hex (lib : AwsLib) (digest : Digest) : ParamValue lib digest.hex := by
  refine .of_visible digest.hex_ne_nil fun c hc => ?_
  have hc := digest.mem_hex hc
  omega

/-- One parameter is read. -/
theorem authParamsLoop_cons {key space} {rest} {params}
    (hkey : key ∈ authHeaderParamNames) (hvalue : ParamValue lib value)
    (hnew : dictGet key params = none)
    (hspace : space = [] ∨ space = [cp ' ']) :
    authParamsLoop lib ((space ++ (key ++ cp '=' :: value)) :: rest) params =
      authParamsLoop lib rest (params ++ [(key, value)]) := by
  have hnames : ∀ key ∈ authHeaderParamNames, cp '=' ∉ key ∧ ∃ c rest, key = c :: rest ∧ 32 < c ∧
    c < 127 := by
    intro key hkey
    simp only [authHeaderParamNames, mem_cons, not_mem_nil, or_false] at hkey
    rcases hkey with rfl | rfl | rfl <;> exact ⟨by decide, _, _, rfl, by decide, by decide⟩
  obtain ⟨hequals, c, keyRest, hkeyEq, hlo, hhi⟩ := hnames key hkey
  have hplain : strip lib.isSpace (key ++ cp '=' :: value) = key ++ cp '=' :: value := by
    refine strip_of_ends ?_ ?_
    · intro d hd
      rw [hkeyEq] at hd
      cases hd
      exact isSpace_visible hlo hhi
    · intro d hd
      rw [getLast?_append_of_ne_nil _ (cons_ne_nil _ _),
        getLast?_cons_of_ne_nil hvalue.ne_nil] at hd
      exact hvalue.last d hd
  have hstrip : strip lib.isSpace (space ++ (key ++ cp '=' :: value)) = key ++ cp '=' :: value := by
    rcases hspace with rfl | rfl
    · exact hplain
    · have hblank : lib.isSpace (cp ' ') := lib.isSpace_ascii 32 (by decide)
      rw [singleton_append, strip_cons hblank, hplain]
  rw [authParamsLoop, hstrip, partition_append hequals]
  dsimp only
  rw [hvalue.strip]
  have hok : require (key ∈ authHeaderParamNames ∧ value ≠ [] ∧ dictGet key params = none)
      "Malformed AWS authorization header" = .ok () := require_eq_ok.mpr ⟨hkey, hvalue.ne_nil, hnew⟩
  rw [hok]
  rfl

theorem strip_cons_ne_nil (hc : lib.isSpace c = false) (text : PyStr) :
    strip lib.isSpace (c :: text) ≠ [] := by
  intro hnil
  rw [strip, dropWhile_cons_of_neg (Bool.eq_false_iff.mp hc), reverse_eq_nil_iff,
    dropWhile_eq_nil_iff] at hnil
  have hspace := hnil c (mem_reverse.mpr mem_cons_self)
  rw [hc] at hspace
  cases hspace

/-- The parameters of an authorization header that was written. -/
def authorizationParams (credential names signature : PyStr) : List Field :=
  [(lit "Credential", credential), (lit "SignedHeaders", names), (lit "Signature", signature)]

/-- **The authorization header is read back.** -/
theorem parseAuthorizationHeader_text {names signature}
    (hcrd : ParamValue lib (credentialText credentials scope))
    (hnames : ParamValue lib names) (hsignature : ParamValue lib signature) :
    parseAuthorizationHeader lib (authorizationText credentials scope names signature) =
      .ok (hmacAlgorithm, authorizationParams (credentialText credentials scope) names
        signature) := by
  -- the three parameters, each as the loop sees it
  let first := [] ++ (lit "Credential" ++ cp '=' :: credentialText credentials scope)
  let second := [cp ' '] ++ (lit "SignedHeaders" ++ cp '=' :: names)
  let third := [cp ' '] ++ (lit "Signature" ++ cp '=' :: signature)
  have htext : authorizationText credentials scope names signature =
      hmacAlgorithm ++ cp ' ' :: (first ++ cp ',' :: (second ++ cp ',' :: third)) := by
    simp [authorizationText, first, second, third, lit, cp]
  have hcomma : ∀ key ∈ authHeaderParamNames, ∀ space ∈ [[], [cp ' ']], ∀ value : PyStr,
      ParamValue lib value → cp ',' ∉ space ++ (key ++ cp '=' :: value) := by
    intro key hkey space hspace value hvalue hmem
    rw [mem_append, mem_append, mem_cons] at hmem
    rcases hmem with hmem | hmem | hmem | hmem
    · have hnone : ∀ space ∈ [[], [cp ' ']], cp ',' ∉ space := by decide
      exact hnone space hspace hmem
    · have hnone : ∀ key ∈ authHeaderParamNames, cp ',' ∉ key := by decide
      exact hnone key hkey hmem
    · cases hmem
    · exact hvalue.comma hmem
  have hfirst : cp ',' ∉ first := hcomma _ (by decide) [] (by decide) _ hcrd
  have hsec : cp ',' ∉ second := hcomma _ (by decide) [cp ' '] (by decide) _ hnames
  have hthird : cp ',' ∉ third := hcomma _ (by decide) [cp ' '] (by decide) _ hsignature
  have hsplit : (first ++ cp ',' :: (second ++ cp ',' :: third)).splitOn (cp ',') = [first, second,
    third] := by
    rw [splitOn_append_cons_self_of_not_mem hfirst, splitOn_append_cons_self_of_not_mem hsec,
      splitOn_eq_singleton hthird]
  have hloop : authParamsLoop lib [first, second, third] [] =
      .ok (authorizationParams (credentialText credentials scope) names signature) := by
    rw [authParamsLoop_cons (by decide) hcrd rfl (.inl rfl),
      authParamsLoop_cons (by decide) hnames rfl (.inr rfl),
      authParamsLoop_cons (by decide) hsignature rfl (.inr rfl)]
    rfl
  -- the first parameter begins with a letter, so that something is left to strip
  have hne : strip lib.isSpace (first ++ cp ',' :: (second ++ cp ',' :: third)) ≠ [] :=
    strip_cons_ne_nil (c := cp 'C') (isSpace_visible (by decide) (by decide)) _
  rw [parseAuthorizationHeader, htext, partition_append (by decide)]
  refine require_bind_eq_ok.mpr ⟨⟨by decide, hne⟩, bind_eq_ok.mpr ⟨_, ?_, rfl⟩⟩
  rw [hsplit, hloop]

end Library

end Okou.Aws
