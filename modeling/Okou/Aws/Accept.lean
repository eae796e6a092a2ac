import Okou.Aws.Reparse

/-!
# What the inspection accepts

When a request is accepted, said of the parts that signing changes: the list of headers, the
authorization header, the metadata in the query, and the URL.
-/

namespace Okou.Aws

open List hiding partition

open Firewall

section Library

variable {lib : AwsLib}

/-! ### Lists of headers -/

/-- The headers of a name. -/
def named (lib : AwsLib) (headers : List Field) (name : PyStr) : List Field :=
  headers.filter fun header => decide (lib.lower header.1 = name)

variable {name value text s url : PyStr} {names : List PyStr} {headers headers' pairs : List Field}
  {message : String} {c d : ℕ} {parts : UrlParts} {signingUrl : SigningUrl}
  {context : SigningContext}

/-- The names that are written are in lower case. -/
theorem lower_written : ∀ name ∈ [lit "authorization", lit "host", lit "x-amz-date",
    lit "x-amz-security-token"],
    lib.lower name = name := by
  intro name hname
  simp only [mem_cons, not_mem_nil, or_false] at hname
  rcases hname with rfl | rfl | rfl | rfl <;> exact (lib.lower_ascii _ (by decide)).trans
    (by decide)

theorem named_upsert_self (hlower : lib.lower name = name) (headers) (value : PyStr) :
    named lib (upsertHeader lib headers name value) name = [(name, value)] := by
  have hnone : (headers.filter fun header => lib.lower header.1 ≠ name).filter
      (fun header => lib.lower header.1 = name) = [] := by
    rw [filter_eq_nil_iff]
    simp
  rw [named, upsertHeader, filter_append, hnone]
  simp [hlower]

theorem named_upsert_of_ne {other} (hlower : lib.lower other = other) (hne : other ≠ name)
    (headers) (value : PyStr) :
    named lib (upsertHeader lib headers other value) name = named lib headers name := by
  rw [named, upsertHeader, filter_append, filter_filter]
  have hlast : [(other, value)].filter (fun header => lib.lower header.1 = name) = [] := by
    simp [hlower, hne]
  rw [hlast, append_nil]
  refine filter_congr fun header _ => ?_
  by_cases hname : lib.lower header.1 = name
  · simp [hname, Ne.symm hne]
  · simp [hname]

theorem named_without_of_mem (hname : name ∈ names) (headers) :
    named lib (withoutHeaders lib headers names) name = [] := by
  rw [named, filter_eq_nil_iff]
  intro header hheader
  have hkept := of_decide_eq_true (mem_filter.mp hheader).2
  rw [decide_eq_true_eq]
  rintro rfl
  exact hkept hname

theorem named_without_of_not_mem (hname : name ∉ names)
    (headers) : named lib (withoutHeaders lib headers names) name = named lib headers name := by
  rw [named, withoutHeaders, filter_filter]
  refine filter_congr fun header _ => ?_
  by_cases hheader : lib.lower header.1 = name
  · simp [hheader, hname]
  · simp [hheader]

theorem uniqueHeaderValue_congr (h : named lib headers' name = named lib headers name) :
    uniqueHeaderValue lib headers' name message = uniqueHeaderValue lib headers name message := by
  unfold named at h
  rw [uniqueHeaderValue, uniqueHeaderValue, h]

theorem uniqueHeaderValue_nil (h : named lib headers name = []) :
    uniqueHeaderValue lib headers name message = .ok none := by
  unfold named at h
  rw [uniqueHeaderValue, h]

theorem uniqueHeaderValue_singleton {header} (h : named lib headers name = [(header, value)]) :
    uniqueHeaderValue lib headers name message = .ok (some value) := by
  unfold named at h
  rw [uniqueHeaderValue, h]

theorem contentHashHeaderValue_congr
    (h : named lib headers' (lit "x-amz-content-sha256") =
      named lib headers (lit "x-amz-content-sha256")) :
    contentHashHeaderValue lib headers' = contentHashHeaderValue lib headers := by
  rw [contentHashHeaderValue, contentHashHeaderValue, uniqueHeaderValue_congr h]

theorem signedValues_congr (h : named lib headers' name = named lib headers name) :
    signedValues lib headers' name = signedValues lib headers name := by
  unfold named at h
  rw [signedValues, signedValues, h]

/-- A replaced header does not show among the others. -/
theorem without_upsert (hlower : lib.lower name = name) (hname : name ∈ names) (headers)
    (value : PyStr) :
    withoutHeaders lib (upsertHeader lib headers name value) names = withoutHeaders lib headers
      names := by
  rw [withoutHeaders, upsertHeader, filter_append, filter_filter]
  have hlast : [(name, value)].filter (fun header => lib.lower header.1 ∉ names) = [] := by
    simp [hlower, hname]
  rw [hlast, append_nil]
  refine filter_congr fun header _ => ?_
  by_cases hheader : lib.lower header.1 ∈ names
  · simp [hheader]
  · have hne : lib.lower header.1 ≠ name := fun h => hheader (h ▸ hname)
    simp [hne]

theorem without_without {names'} (hsub : ∀ name ∈ names', name ∈ names) (headers) :
    withoutHeaders lib (withoutHeaders lib headers names') names = withoutHeaders lib headers
      names := by
  rw [withoutHeaders, withoutHeaders, filter_filter]
  refine filter_congr fun header _ => ?_
  by_cases hheader : lib.lower header.1 ∈ names
  · simp [hheader]
  · have hnot : lib.lower header.1 ∉ names' := fun h => hheader (hsub _ h)
    simp [hnot]

/-- What `validateHeaders` asks of a header. -/
def HeaderOk (lib : AwsLib) (header : Field) : Prop :=
  Utf8Encodable header.1 ∧ Utf8Encodable header.2 ∧ isHttpHeaderName header.1 = true ∧
    (lib.lower header.1 ≠ lit "x-amz-content-sha256" →
      hasForbiddenHeaderValueControl header.2 = false)

theorem validateHeaders_eq_ok :
    validateHeaders lib headers = .ok () ↔ ∀ header ∈ headers, HeaderOk lib header := require_eq_ok

/-- No controls and no surrogates. -/
def Visible (text : PyStr) : Prop := ∀ c ∈ text, IsScalar c ∧ isAsciiControl c = false

theorem Visible.append {a b} (ha : Visible a) (hb : Visible b) : Visible (a ++ b) :=
  forall_mem_append.mpr ⟨ha, hb⟩

theorem Visible.of_range (htext : ∀ c ∈ text, 32 ≤ c ∧ c < 127) : Visible text := by
  intro c hc
  have hc := htext c hc
  exact ⟨isScalar_of_lt (by omega), decide_eq_false (by omega)⟩

theorem Visible.no_control (htext : Visible text) :
    hasForbiddenHeaderValueControl text = false := by
  rw [hasForbiddenHeaderValueControl, any_eq_false]
  intro c hc
  simp [(htext c hc).2]

theorem Visible.encodable (htext : Visible text) : Utf8Encodable text :=
  fun c hc => (htext c hc).1

/-- A header that is written is valid. -/
theorem headerOk_written
    (hname : name ∈ [lit "authorization", lit "host", lit "x-amz-date", lit "x-amz-security-token"])
    (henc : Utf8Encodable value) (hctrl : hasForbiddenHeaderValueControl value = false) :
    HeaderOk lib (name, value) := by
  have hok : ∀ name ∈ [lit "authorization", lit "host", lit "x-amz-date",
      lit "x-amz-security-token"],
      Utf8Encodable name ∧ isHttpHeaderName name := by decide
  exact ⟨(hok name hname).1, henc, (hok name hname).2, fun _ => hctrl⟩

theorem headersOk_without (names) (hheaders : ∀ header ∈ headers, HeaderOk lib header) :
    ∀ header ∈ withoutHeaders lib headers names, HeaderOk lib header :=
  fun header hheader => hheaders header (mem_filter.mp hheader).1

theorem headersOk_upsert (hheaders : ∀ header ∈ headers, HeaderOk lib header)
    (hnew : HeaderOk lib (name, value)) :
    ∀ header ∈ upsertHeader lib headers name value, HeaderOk lib header :=
  forall_mem_append.mpr ⟨fun _ hheader => hheaders _ (mem_filter.mp hheader).1,
    forall_mem_singleton.mpr hnew⟩

/-! ### The host -/

theorem mem_partition_fst (hc : c ∈ (partition d s).1) : c ∈ s := by
  rcases partition_cases d s with ⟨_, h⟩ | ⟨a, b, rfl, _, h⟩
  · rwa [h] at hc
  · rw [h] at hc
    exact mem_append_left _ hc

theorem mem_partition_snd {after} (hafter : (partition d s).2 = some after) (hc : c ∈ after) :
    c ∈ s := by
  rcases partition_cases d s with ⟨_, h⟩ | ⟨a, b, rfl, _, h⟩
  · rw [h] at hafter
    cases hafter
  · rw [h] at hafter
    cases hafter
    exact mem_append_right _ (mem_cons_of_mem _ hc)

theorem mem_rpartition_snd (hc : c ∈ (rpartition d s).2) : c ∈ s := by
  unfold rpartition at hc
  split at hc
  · exact hc
  · exact mem_of_mem_drop hc

theorem mem_hostinfo (hc : c ∈ parts.hostinfo.1) : c ∈ parts.netloc := by
  unfold UrlParts.hostinfo at hc
  dsimp only at hc
  refine mem_rpartition_snd (d := cp '@') ?_
  split at hc
  case h_1 before bracketed hpart =>
    exact mem_partition_snd (congrArg Prod.snd hpart) (mem_partition_fst hc)
  case h_2 => exact mem_partition_fst hc

theorem visible_hostname {hostname} (hnetloc : Visible parts.netloc)
    (h : parts.hostname lib = some hostname) : Visible hostname := by
  have hinfo : Visible parts.hostinfo.1 := fun c hc => hnetloc c (mem_hostinfo hc)
  unfold UrlParts.hostname at h
  dsimp only at h
  split at h
  case isTrue => cases h
  case isFalse =>
    have hname : Visible (partition (cp '%') parts.hostinfo.1).1 := fun c hc =>
      hinfo c (mem_partition_fst hc)
    split at h
    case h_1 name hpart =>
      cases h
      rw [hpart] at hname
      exact lib.lower_clean name hname
    case h_2 name zone hpart =>
      cases h
      rw [hpart] at hname
      refine Visible.append (lib.lower_clean name hname)
        (forall_mem_cons.mpr ⟨⟨isScalar_of_lt (by decide), rfl⟩, ?_⟩)
      exact fun c hc => hinfo c (mem_partition_snd (congrArg Prod.snd hpart) hc)

theorem visible_decimal (n : ℕ) : Visible (decimal n) := by
  refine .of_range fun c hc => ?_
  obtain ⟨digit, hdigit, rfl⟩ := mem_map.mp hc
  have hdigit := Nat.isDigit_of_mem_toDigits (by decide) (by decide) hdigit
  simp only [Char.isDigit, Bool.and_eq_true, decide_eq_true_eq, UInt32.le_iff_toNat_le] at hdigit
  have hlo : 48 ≤ digit.toNat := hdigit.1
  have hhi : digit.toNat ≤ 57 := hdigit.2
  omega

/-- The host header is valid, and there is an authority. -/
theorem hostHeaderValue_spec {host} (h : hostHeaderValue lib parts = .ok host) :
    parts.netloc ≠ [] ∧ (Visible parts.netloc → Visible host) := by
  unfold hostHeaderValue at h
  split at h
  case h_1 => cases h
  case h_2 hostname hhostname =>
    split at h
    case isTrue => cases h
    case isFalse hne =>
      rw [not_or] at hne
      refine ⟨hne.1, fun hnetloc => ?_⟩
      have hname := visible_hostname hnetloc hhostname
      have hbrack : Visible (if cp ':' ∈ hostname ∧ hostname.head? ≠ some (cp '[') then
          cp '[' :: hostname ++ [cp ']'] else hostname) := by
        split
        · have hends : Visible [cp '['] ∧ Visible [cp ']'] :=
            ⟨.of_range (by decide), .of_range (by decide)⟩
          exact (hends.1.append hname).append hends.2
        · exact hname
      dsimp only at h
      split at h
      case h_1 => cases h
      case h_2 => exact Except.ok.inj h ▸ hbrack
      case h_3 port _ =>
        split at h
        · cases h
          have hcolon : Visible [cp ':'] := .of_range (by decide)
          exact hbrack.append (hcolon.append (visible_decimal port))
        · exact Except.ok.inj h ▸ hbrack

/-! ### What the inspection found -/

/-- What is asked of the text of a URL. -/
structure UrlOk (url : PyStr) : Prop where
  encodable : Utf8Encodable url
  plain : hasRawWhitespace url = false ∧ hasAsciiControl url = false
  escapes : percentEscapesWellFormed url = true

theorem parseUrlForSigning_eq_ok : parseUrlForSigning lib url = .ok signingUrl ↔
      UrlOk url ∧ signingUrl.text = url ∧ urlsplit lib url = some signingUrl.parts ∧
        parseQueryPairs signingUrl.parts.query = .ok signingUrl.queryPairs := by
  rw [parseUrlForSigning, require_bind_eq_ok, require_bind_eq_ok, require_bind_eq_ok]
  constructor
  · rintro ⟨henc, hplain, hesc, h⟩
    refine ⟨⟨henc, hplain, hesc⟩, ?_⟩
    split at h
    case h_1 => cases h
    case h_2 parts hsplit =>
      obtain ⟨pairs, hpairs, ⟨⟩⟩ := bind_eq_ok.mp h
      exact ⟨rfl, hsplit, hpairs⟩
  · rintro ⟨hok, htext, hsplit, hpairs⟩
    refine ⟨hok.encodable, hok.plain, hok.escapes, ?_⟩
    rw [hsplit]
    refine bind_eq_ok.mpr ⟨_, hpairs, ?_⟩
    rw [← htext]

theorem UrlOk.visible (hurl : UrlOk url) : Visible url := by
  intro c hc
  refine ⟨hurl.encodable c hc, ?_⟩
  have hctrl := any_eq_false.mp hurl.plain.2 c hc
  simpa using hctrl

theorem UrlOk.clean (hurl : UrlOk url) : Clean url := by
  intro c hc
  have hctrl := (hurl.visible c hc).2
  have hwhite := any_eq_false.mp hurl.plain.1 c hc
  rw [isAsciiControl, decide_eq_false_iff_not] at hctrl
  simp only [rawWhitespaceChars, mem_cons, decide_eq_true_eq] at hwhite
  omega

/-- A text of visible ASCII, but for the escapes. -/
theorem UrlOk.of_clean (henc : Utf8Encodable url) (hclean : Clean url)
    (hdel : 0x7F ∉ url) (hesc : percentEscapesWellFormed url) : UrlOk url := by
  refine ⟨henc, ⟨?_, ?_⟩, hesc⟩
  · rw [hasRawWhitespace, any_eq_false]
    intro c hc hwhite
    have hc := hclean c hc
    simp only [rawWhitespaceChars, mem_cons, not_mem_nil, or_false, decide_eq_true_eq] at hwhite
    omega
  · rw [hasAsciiControl, any_eq_false]
    intro c hc hctrl
    have hlow := hclean c hc
    rw [isAsciiControl, decide_eq_true_eq] at hctrl
    rcases hctrl with h | rfl
    · omega
    · exact hdel hc

/-- What is known of the context of a request. -/
structure ContextOk (lib : AwsLib) (context : SigningContext) : Prop where
  scope : ScopeOk lib context.scope
  signed : SignedSet lib context.signedHeaders
  amzDate : validateAmzDate lib context.amzDate context.scope = .ok ()
  amzDate_ne : context.amzDate ≠ []

theorem truthy_some (hne : value ≠ []) : truthy (some value) = some value := by
  simp [truthy, hne]

theorem truthy_eq_some {value} (h : truthy value = some text) : value = some text ∧ text ≠ [] := by
  cases value with
  | none => cases h
  | some v =>
    rw [truthy, Option.filter_some] at h
    split at h
    case isTrue hne =>
      cases h
      exact ⟨rfl, of_decide_eq_true hne⟩
    case isFalse => cases h

theorem classifyHeaderRequest_spec {auth}
    (h : classifyHeaderRequest lib auth headers = .ok context) :
    ContextOk lib context ∧ context.location = .header ∧ context.expires = none ∧
      uniqueHeaderValue lib headers (lit "x-amz-date")
        "AWS SigV4 header auth requires a single x-amz-date" = .ok (some context.amzDate) := by
  obtain ⟨⟨algorithm, params⟩, _, h⟩ := bind_eq_ok.mp h
  dsimp only at h
  split at h
  case h_2 => cases h
  case h_1 credential signedHeaders _ _ _ _ =>
    obtain ⟨⟨accessKeyId, scope⟩, hcrd, h⟩ := bind_eq_ok.mp h
    obtain ⟨amzDate, huniq, h⟩ := bind_eq_ok.mp h
    split at h
    case h_1 => cases h
    case h_2 date htruthy =>
      obtain ⟨_, hvalid, h⟩ := bind_eq_ok.mp h
      obtain ⟨names, hnames, ⟨⟩⟩ := bind_eq_ok.mp h
      obtain ⟨rfl, hne⟩ := truthy_eq_some htruthy
      exact ⟨⟨parseCredential_spec hcrd, parseSignedHeaders_spec hnames, hvalid, hne⟩, rfl, rfl,
        huniq⟩

theorem classifyQueryRequest_spec {algorithm}
    (h : classifyQueryRequest lib pairs algorithm = .ok context) :
    ContextOk lib context ∧ context.location = .query ∧
      ∃ expires, context.expires = some expires ∧ expires ≠ [] ∧ isExpires expires := by
  obtain ⟨credential, _, h⟩ := bind_eq_ok.mp h
  obtain ⟨signedHeaders, _, h⟩ := bind_eq_ok.mp h
  obtain ⟨amzDate, _, h⟩ := bind_eq_ok.mp h
  obtain ⟨expires, _, h⟩ := bind_eq_ok.mp h
  obtain ⟨signature, _, h⟩ := bind_eq_ok.mp h
  split at h
  case h_2 => cases h
  case h_1 credential signedHeaders amzDate expires _ _ _ hdate hexp _ =>
    obtain ⟨⟨accessKeyId, scope⟩, hcrd, h⟩ := bind_eq_ok.mp h
    obtain ⟨_, hvalid, h⟩ := bind_eq_ok.mp h
    obtain ⟨hexpiresOk, h⟩ := require_bind_eq_ok.mp h
    obtain ⟨names, hnames, ⟨⟩⟩ := bind_eq_ok.mp h
    refine ⟨⟨parseCredential_spec hcrd, parseSignedHeaders_spec hnames, hvalid, ?_⟩, rfl, expires,
      rfl, ?_, hexpiresOk⟩
    · exact (truthy_eq_some hdate).2
    · exact (truthy_eq_some hexp).2

/-- Where a request is signed. -/
theorem classifyRequest_cases (h : classifyRequest lib url headers = .ok (context, signingUrl)) :
    parseUrlForSigning lib url = .ok signingUrl ∧
      ((∃ auth algorithm, uniqueQueryValue signingUrl.queryPairs (lit "X-Amz-Algorithm") =
          .ok algorithm ∧
          truthy algorithm = none ∧ classifyHeaderRequest lib auth headers = .ok context) ∨
        ∃ algorithm, classifyQueryRequest lib signingUrl.queryPairs algorithm = .ok context) := by
  obtain ⟨authHeader, _, h⟩ := bind_eq_ok.mp h
  obtain ⟨signingUrl', hurl, h⟩ := bind_eq_ok.mp h
  obtain ⟨queryAlgorithm, halg, h⟩ := bind_eq_ok.mp h
  split at h
  case h_1 => cases h
  case h_2 algorithm _ _ =>
    obtain ⟨context', hctx, ⟨⟩⟩ := bind_eq_ok.mp h
    exact ⟨hurl, .inr ⟨algorithm, hctx⟩⟩
  case h_3 auth _ hnone =>
    obtain ⟨context', hctx, ⟨⟩⟩ := bind_eq_ok.mp h
    exact ⟨hurl, .inl ⟨auth, queryAlgorithm, halg, hnone, hctx⟩⟩
  case h_4 => cases h

theorem inspectRequest_eq_ok {inspection} : inspectRequest lib url headers = .ok inspection ↔
      (∀ header ∈ headers, HeaderOk lib header) ∧
      classifyRequest lib url headers = .ok (inspection.context, inspection.signingUrl) ∧
      validateSigningContext inspection.context = .ok () ∧
      ∃ contentHash, contentHashHeaderValue lib headers = .ok contentHash ∧
        inspection.requiresBody = (contentHash.isNone &&
          !(decide (inspection.context.location = .query) &&
          decide (inspection.context.scope.service ∈ s3SigningNames))) := by
  rw [inspectRequest, bind_eq_ok]
  constructor
  · rintro ⟨_, hheaders, h⟩
    obtain ⟨⟨context, signingUrl⟩, hclass, h⟩ := bind_eq_ok.mp h
    obtain ⟨_, hvalid, h⟩ := bind_eq_ok.mp h
    obtain ⟨contentHash, hhash, ⟨⟩⟩ := bind_eq_ok.mp h
    exact ⟨validateHeaders_eq_ok.mp hheaders, hclass, hvalid, contentHash, hhash, rfl⟩
  · rintro ⟨hheaders, hclass, hvalid, contentHash, hhash, hbody⟩
    refine ⟨(), validateHeaders_eq_ok.mpr hheaders, bind_eq_ok.mpr ⟨_, hclass, ?_⟩⟩
    refine bind_eq_ok.mpr ⟨(), hvalid, bind_eq_ok.mpr ⟨contentHash, hhash, ?_⟩⟩
    rw [← hbody]

/-! ### What is written is classified -/

variable {credentials : Credentials} {scope : CredentialScope} {amzDate : PyStr}
  {others : List Field} {mark : ℕ}

theorem classifyHeaderRequest_written (digest : Digest)
    (hid : isAccessKeyId credentials.accessKeyId) (hscope : ScopeOk lib scope)
    (hnames : SignedSet lib names) (hdate : validateAmzDate lib amzDate scope = .ok ())
    (hne : amzDate ≠ [])
    (huniq : uniqueHeaderValue lib headers (lit "x-amz-date")
      "AWS SigV4 header auth requires a single x-amz-date" = .ok (some amzDate)) :
    classifyHeaderRequest lib (authorizationText credentials scope (join (cp ';') names) digest.hex)
      headers =
      .ok ⟨.header, hmacAlgorithm, credentials.accessKeyId, scope, names, amzDate, none⟩ := by
  have hparse := parseAuthorizationHeader_text (paramValue_credential hid hscope)
    (paramValue_names hnames)
    (paramValue_hex lib digest)
  refine bind_eq_ok.mpr ⟨_, hparse, ?_⟩
  refine bind_eq_ok.mpr ⟨_, parseCredential_text hid hscope, bind_eq_ok.mpr ⟨_, huniq, ?_⟩⟩
  rw [truthy_some hne]
  exact bind_eq_ok.mpr ⟨_, hdate, bind_eq_ok.mpr ⟨_, parseSignedHeaders_join hnames, rfl⟩⟩

/-- The metadata of a query that was written. -/
theorem uniqueQueryValue_written (hoth : ∀ pair ∈ others, pair.1 ∉ querySigningParamNames)
    (hname : name ∈ querySigningParamNames) (pairs) :
    uniqueQueryValue (others ++ pairs) name = uniqueQueryValue pairs name := by
  have hnone : others.filter (fun pair => pair.1 = name) = [] := by
    rw [filter_eq_nil_iff]
    intro pair hpair
    rw [decide_eq_true_eq]
    rintro rfl
    exact hoth pair hpair hname
  rw [uniqueQueryValue, uniqueQueryValue, filter_append, hnone, nil_append]

/-- The pairs of a complete set of metadata. -/
def metadataPairs (credential amzDate expires names : PyStr) (token : Option PyStr)
    (signature : PyStr) : List Field :=
  [(lit "X-Amz-Algorithm", hmacAlgorithm), (lit "X-Amz-Credential", credential),
    (lit "X-Amz-Date", amzDate),
    (lit "X-Amz-Expires", expires), (lit "X-Amz-SignedHeaders", names)] ++
  (token.toList.map fun token => (lit "X-Amz-Security-Token", token)) ++
    [(lit "X-Amz-Signature", signature)]

theorem classifyQueryRequest_written {expires signature} (token)
    (hoth : ∀ pair ∈ others, pair.1 ∉ querySigningParamNames)
    (hid : isAccessKeyId credentials.accessKeyId)
    (hscope : ScopeOk lib scope) (hnames : SignedSet lib names)
    (hdate : validateAmzDate lib amzDate scope = .ok ())
    (hne : amzDate ≠ []) (hexp : isExpires expires) (hexpiresNe : expires ≠ [])
    (hsignature : signature ≠ []) :
    classifyQueryRequest lib (others ++ metadataPairs (credentialText credentials scope) amzDate
        expires (join (cp ';') names) token signature) hmacAlgorithm =
      .ok ⟨.query, hmacAlgorithm, credentials.accessKeyId, scope, names, amzDate,
        some expires⟩ := by
  have hcrd := (paramValue_credential hid hscope).ne_nil
  have hnamesNe := (paramValue_names hnames).ne_nil
  have hread : ∀ pair ∈ [(lit "X-Amz-Credential", credentialText credentials scope),
      (lit "X-Amz-SignedHeaders", join (cp ';') names), (lit "X-Amz-Date", amzDate),
      (lit "X-Amz-Expires", expires), (lit "X-Amz-Signature", signature)],
      uniqueQueryValue (others ++ metadataPairs (credentialText credentials scope) amzDate expires
        (join (cp ';') names) token signature) pair.1 = .ok (some pair.2) := by
    intro pair hpair
    simp only [mem_cons, not_mem_nil, or_false] at hpair
    rcases hpair with rfl | rfl | rfl | rfl | rfl <;>
      rw [uniqueQueryValue_written hoth (by dsimp only; decide)] <;> cases token <;> rfl
  simp only [forall_mem_cons] at hread
  obtain ⟨hreadCredential, hreadNames, hreadDate, hreadExpires, hreadSignature, _⟩ := hread
  refine bind_eq_ok.mpr ⟨_, hreadCredential, bind_eq_ok.mpr ⟨_, hreadNames, ?_⟩⟩
  refine bind_eq_ok.mpr ⟨_, hreadDate, bind_eq_ok.mpr ⟨_, hreadExpires, ?_⟩⟩
  refine bind_eq_ok.mpr ⟨_, hreadSignature, ?_⟩
  rw [truthy_some hcrd, truthy_some hnamesNe, truthy_some hne, truthy_some hexpiresNe,
    truthy_some hsignature]
  refine bind_eq_ok.mpr ⟨_, parseCredential_text hid hscope, bind_eq_ok.mpr ⟨_, hdate, ?_⟩⟩
  exact require_bind_eq_ok.mpr ⟨hexp, bind_eq_ok.mpr ⟨_, parseSignedHeaders_join hnames, rfl⟩⟩

/-! ### The URL that is written -/

theorem wellFormed_markedText (hsign : mark ≠ cp '%') (hhex : isHexDigit mark = false)
    (before text : PyStr) : percentEscapesWellFormed (before ++ markedText mark text) =
      (percentEscapesWellFormed before && percentEscapesWellFormed text) := by
  unfold markedText
  split
  case isTrue htext =>
    subst htext
    simp [percentEscapesWellFormed]
  case isFalse => exact wellFormed_append hsign hhex text before

/-- The escapes of the parts that stay are complete. -/
theorem SplitFrom.wellFormed (h : SplitFrom url parts) (hurl : percentEscapesWellFormed url) :
    percentEscapesWellFormed (parts.netloc ++ parts.path) ∧
      percentEscapesWellFormed parts.fragment := by
  obtain ⟨before, queryMark, fragmentMark, htext, _, hquery, hfragm⟩ := h.text
  have hslash : ∀ rest : PyStr, before ++ (lit "//" ++ rest) = before ++ cp '/' :: cp '/' :: rest :=
    fun _ => rfl
  rw [htext, hslash, wellFormed_append (by decide) rfl, Bool.and_eq_true,
    wellFormed_cons (by decide), ← append_assoc, ← append_assoc] at hurl
  -- the marks that begin the query and the fragment are in no escape
  have hsplit : percentEscapesWellFormed (parts.netloc ++ parts.path ++ queryMark) ∧
      percentEscapesWellFormed parts.fragment := by
    rcases hfragm with ⟨rfl, hnil⟩ | rfl
    · rw [hnil]
      rw [append_nil] at hurl
      exact ⟨hurl.2, rfl⟩
    · rw [wellFormed_append (by decide) rfl, Bool.and_eq_true] at hurl
      exact hurl.2
  refine ⟨?_, hsplit.2⟩
  rcases hquery with rfl | rfl
  · rw [append_nil] at hsplit
    exact hsplit.1
  · rw [wellFormed_append (by decide) rfl, Bool.and_eq_true] at hsplit
    exact hsplit.1.1

theorem wellFormed_geturl (hsch : parts.scheme = [] ∨ IsScheme parts.scheme)
    (hpath : IsPath parts.path)
    (hplace : percentEscapesWellFormed (parts.netloc ++ parts.path))
    (hquery : percentEscapesWellFormed parts.query)
    (hfragm : percentEscapesWellFormed parts.fragment) : percentEscapesWellFormed parts.geturl := by
  have hrest : percentEscapesWellFormed (lit "//" ++ (parts.netloc ++
      (parts.path ++ markedText (cp '?') parts.query ++ markedText (cp '#') parts.fragment))) := by
    have hslash : ∀ rest, percentEscapesWellFormed (lit "//" ++ rest) =
      percentEscapesWellFormed rest := fun rest =>
      (wellFormed_cons (c := cp '/') (by decide) _).trans (wellFormed_cons
        (c := cp '/') (by decide) rest)
    rw [hslash, ← append_assoc, ← append_assoc, wellFormed_markedText (by decide) rfl,
      wellFormed_markedText (by decide) rfl, hplace, hquery, hfragm]
    rfl
  rw [geturl_eq hpath]
  rcases hsch with hnil | hsch
  · rw [hnil]
    exact hrest
  · have hne : parts.scheme ≠ [] := by
      intro hnil
      have hhead := hsch.head
      rw [hnil] at hhead
      cases hhead
    have hperc : cp '%' ∉ parts.scheme := by
      intro hmem
      have hc := all_eq_true.mp hsch.chars _ hmem
      revert hc
      decide
    rw [schemeText, if_neg hne, append_assoc, singleton_append, wellFormed_append (by decide) rfl,
      percentEscapesWellFormed_of_not_mem hperc, hrest]
    rfl

/-- A character of a URL. -/
def UrlChar (c : ℕ) : Prop := IsScalar c ∧ 0x20 < c ∧ c ≠ 0x7F

theorem UrlChar.of_range (hlo : 32 < c) (hhi : c < 127) : UrlChar c :=
  ⟨isScalar_of_lt (by omega), hlo, by omega⟩

theorem UrlOk.char (hurl : UrlOk url) (hc : c ∈ url) : UrlChar c := by
  obtain ⟨hscal, hctrl⟩ := hurl.visible c hc
  rw [isAsciiControl, decide_eq_false_iff_not] at hctrl
  exact ⟨hscal, hurl.clean c hc, by omega⟩

theorem isUnreserved_visible (hc : isUnreserved c) : 32 < c ∧ c < 127 := by
  simp only [isUnreserved, Bool.or_eq_true, decide_eq_true_eq, contains_eq_mem, mem_cons,
    not_mem_nil, or_false] at hc
  omega

theorem isSchemeChar_visible (hc : isSchemeChar c) : 32 < c ∧ c < 127 := by
  simp only [isSchemeChar, Bool.or_eq_true, contains_eq_mem, mem_cons, not_mem_nil, or_false,
    decide_eq_true_eq, isAlnum_iff] at hc
  rcases hc with hc | rfl | rfl | rfl
  · omega
  all_goals decide

theorem urlChar_markedText (hmark : 32 < mark ∧ mark < 127) (htext : ∀ c ∈ text, UrlChar c) :
    ∀ c ∈ markedText mark text, UrlChar c := by
  unfold markedText
  split
  · exact forall_mem_nil _
  · exact forall_mem_cons.mpr ⟨.of_range hmark.1 hmark.2, htext⟩

/-- The characters of a URL whose query was replaced. -/
theorem urlChar_geturl {query} (hurl : UrlOk url) (h : SplitFrom url parts)
    (hquery : ∀ c ∈ query, UrlChar c) : ∀ c ∈ { parts with query := query }.geturl, UrlChar c := by
  obtain ⟨before, queryMark, fragmentMark, htext, _, _, hfragm⟩ := h.text
  have hplace : ∀ c ∈ parts.netloc ++ parts.path, UrlChar c := by
    intro c hc
    refine hurl.char ?_
    rw [htext]
    simp only [mem_append] at hc ⊢
    tauto
  have hfragmentChars : ∀ c ∈ parts.fragment, UrlChar c := by
    intro c hc
    refine hurl.char ?_
    rw [htext]
    rcases hfragm with ⟨_, hnil⟩ | rfl
    · rw [hnil] at hc
      exact absurd hc not_mem_nil
    · simp only [mem_append]
      tauto
  have hsch : ∀ c ∈ schemeText parts.scheme, UrlChar c := by
    unfold schemeText
    split
    · exact forall_mem_nil _
    case isFalse hne =>
      refine forall_mem_append.mpr ⟨fun c hc => ?_,
        forall_mem_singleton.mpr (.of_range (by decide) (by decide))⟩
      have hc := isSchemeChar_visible (all_eq_true.mp (h.scheme.resolve_left hne).chars c hc)
      exact .of_range hc.1 hc.2
  have hslash : ∀ c ∈ lit "//", UrlChar c := by
    have hrange : ∀ c ∈ lit "//", 32 < c ∧ c < 127 := by decide
    exact fun c hc => .of_range (hrange c hc).1 (hrange c hc).2
  have hpath : IsPath { parts with query := query }.path := h.path
  rw [geturl_eq hpath]
  simp only [forall_mem_append] at hplace ⊢
  exact ⟨hsch, hslash, hplace.1, ⟨hplace.2, urlChar_markedText (by decide) hquery⟩,
    urlChar_markedText (by decide) hfragmentChars⟩

theorem urlChar_queryText (hpairs : ∀ pair ∈ pairs, PairEncodable pair) : ∀ c ∈ queryText pairs,
    UrlChar c := by
  intro c hc
  rcases mem_queryText hpairs hc with rfl | rfl | rfl | hc
  · exact .of_range (by decide) (by decide)
  · exact .of_range (by decide) (by decide)
  · exact .of_range (by decide) (by decide)
  · exact .of_range (isUnreserved_visible hc).1 (isUnreserved_visible hc).2

/-- **A URL with new pairs is read back**, if there are not too many pairs. -/
theorem parseUrlForSigning_replaced {replaced}
    (hparse : parseUrlForSigning lib url = .ok signingUrl)
    (hne : signingUrl.parts.netloc ≠ [])
    (h : replaceQueryPairs signingUrl pairs = .ok replaced) (sent) :
    parseUrlForSigning lib replaced.text = .ok sent ↔ pairs.length ≤ maxQueryPairs ∧
      sent = replaced := by
  obtain ⟨hurl, _, hsplit, _⟩ := parseUrlForSigning_eq_ok.mp hparse
  obtain ⟨hfrom, hnetlocOk⟩ := urlsplit_spec hurl.clean hsplit hne
  obtain ⟨query, hquery, ⟨⟩⟩ := bind_eq_ok.mp h
  obtain ⟨hpairs, hqueryText⟩ := encodeQueryPairs_eq_ok.mp hquery
  have hchars := urlChar_geturl hurl hfrom (hqueryText ▸ urlChar_queryText hpairs)
  have hhash : cp '#' ∉ query := by
    intro hmem
    rw [hqueryText] at hmem
    rcases mem_queryText hpairs hmem with h | h | h | h <;> cases h
  have hclean : Clean { signingUrl.parts with query := query }.geturl := fun c hc =>
    (hchars c hc).2.1
  have hrespl : urlsplit lib { signingUrl.parts with query := query }.geturl =
      some { signingUrl.parts with query := query } :=
    urlsplit_geturl hfrom.scheme hfrom.netloc hnetlocOk hfrom.path hhash hclean
  have hok : UrlOk { signingUrl.parts with query := query }.geturl := by
    refine .of_clean (fun c hc => (hchars c hc).1) hclean (fun hmem => (hchars _ hmem).2.2 rfl) ?_
    obtain ⟨hplace, hfragm⟩ := hfrom.wellFormed hurl.escapes
    exact wellFormed_geturl hfrom.scheme hfrom.path hplace (hqueryText ▸
      wellFormed_queryText hpairs) hfragm
  rw [parseUrlForSigning_eq_ok]
  constructor
  · rintro ⟨_, htext, hsent, hsentPairs⟩
    rw [hrespl] at hsent
    rw [← Option.some.inj hsent] at hsentPairs
    obtain ⟨hlength, hsentPairs⟩ := (parseQueryPairs_encode hquery _).mp hsentPairs
    refine ⟨hlength, ?_⟩
    obtain ⟨text, parts, sentPairs⟩ := sent
    cases hsent
    dsimp only at htext hsentPairs
    rw [htext, hsentPairs]
  · rintro ⟨hlength, rfl⟩
    exact ⟨hok, rfl, hrespl, (parseQueryPairs_encode hquery _).mpr ⟨hlength, rfl⟩⟩

end Library

end Okou.Aws
