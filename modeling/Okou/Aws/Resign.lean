import Okou.Aws.Accept

/-!
# A request that is signed again verifies

Whoever receives the request reads the signing metadata from it, computes the canonical
request from what was sent and compares signatures.  `Resigned` says that this succeeds,
and that nothing else of the request was changed.

It fails in two ways.  A request that is signed in its headers may carry signing metadata in
its query as well; it is sent on, a placeholder token included.  And a request with as many
query pairs as are allowed has one more when a session token is added.
-/

namespace Okou.Aws

open List hiding partition

open Firewall

/-! ### What the receiver does -/

/-- A URL without the signature in its query. -/
def SigningUrl.unsigned (url : SigningUrl) : SigningUrl :=
  { url with queryPairs := url.queryPairs.filter fun pair => decide (pair.1 ≠
    lit "X-Amz-Signature") }

/-- The canonical request of what was sent: in the query, without the signature. -/
def recomputedRequest (lib : AwsLib) (method : PyStr) (sent : Inspection) (headers : List Field)
    (body : Option (List ℕ)) : Except String (PyStr × PyStr) := do
  let isS3 := decide (sent.context.scope.service ∈ s3SigningNames)
  match sent.context.location with
  | .header =>
    let payloadHash ← payloadHash lib headers body none
    canonicalRequest lib method sent.signingUrl headers sent.context.signedHeaders payloadHash isS3
  | .query =>
    let payloadHash ← queryPayloadHash lib headers body isS3 none
    canonicalRequest lib method sent.signingUrl.unsigned headers sent.context.signedHeaders
      payloadHash isS3

/-- The signature of what was sent. -/
def sentSignature (lib : AwsLib) (sent : Inspection) (headers : List Field) :
    Except String (Option PyStr) := do
  match sent.context.location with
  | .header =>
    match ← uniqueHeaderValue lib headers (lit "authorization")
      "Malformed AWS authorization header" with
    | none => .ok none
    | some authorization =>
      let (_, params) ← parseAuthorizationHeader lib authorization
      .ok (dictGet (lit "Signature") params)
  | .query => uniqueQueryValue sent.signingUrl.queryPairs (lit "X-Amz-Signature")

/-! ### What is asked of a request that is signed again -/

/-- The headers that signing replaces. -/
def replacedHeaders : AuthLocation → List PyStr
  | .header => [lit "authorization", lit "host", lit "x-amz-date", lit "x-amz-security-token"]
  | .query => [lit "authorization", lit "host", lit "x-amz-security-token"]

/-- A header of AWS. -/
def isAmzHeader (lib : AwsLib) (header : Field) : Prop :=
  (lit "x-amz-").isPrefixOf (lib.lower header.1) = true

/-- The names that are signed: those that were, with the host and what AWS asks for. -/
def SignedName (lib : AwsLib) (context : SigningContext) (headers : List Field) (name : PyStr) :
    Prop :=
  match context.location with
  | .header => (name ∈ context.signedHeaders ∧ name ≠ lit "x-amz-security-token") ∨
      name = lit "host" ∨ ∃ header ∈ headers, isAmzHeader lib header ∧ lib.lower header.1 = name
  | .query => name ∈ context.signedHeaders

/-- There is one set of signing metadata, and no token but the real one. -/
def OneSet (lib : AwsLib) (credentials : Credentials) (pairs headers : List Field) : AuthLocation →
    Prop
  | .header => (named lib headers (lit "authorization")).length = 1 ∧
      (named lib headers (lit "x-amz-date")).length = 1 ∧
      (named lib headers (lit "x-amz-security-token")).map Prod.snd =
        credentials.sessionToken.toList ∧
      ∀ pair ∈ pairs, pair.1 ∉ querySigningParamNames
  | .query => named lib headers (lit "authorization") = [] ∧
      named lib headers (lit "x-amz-security-token") = [] ∧
      (pairs.filter fun pair => decide (pair.1 ∈ querySigningParamNames)).map Prod.fst =
        [lit "X-Amz-Algorithm", lit "X-Amz-Credential", lit "X-Amz-Date", lit "X-Amz-Expires",
          lit "X-Amz-SignedHeaders"] ++ (credentials.sessionToken.toList.map fun _ =>
            lit "X-Amz-Security-Token") ++
          [lit "X-Amz-Signature"] ∧
      (pairs.filter fun pair => decide (pair.1 = lit "X-Amz-Security-Token")).map Prod.snd =
        credentials.sessionToken.toList

/-- **A request that was signed again**, as its receiver sees it. -/
structure Verifies (lib : AwsLib) (method : PyStr) (body : Option (List ℕ))
    (credentials : Credentials)
    (before : Inspection) (headers : List Field) (sent : Inspection) (url' : PyStr)
    (headers' : List Field) :
    Prop where
  inspected : inspectRequest lib url' headers' = .ok sent
  location : sent.context.location = before.context.location
  scope : sent.context.scope = before.context.scope
  amzDate : sent.context.amzDate = before.context.amzDate
  expires : sent.context.expires = before.context.expires
  accessKeyId : sent.context.sourceAccessKeyId = credentials.accessKeyId
  signedHeaders : ∀ name, name ∈ sent.context.signedHeaders ↔
    SignedName lib before.context headers' name
  /-- What is computed from the request has the signature that was sent. -/
  signed : ∃ request names text, recomputedRequest lib method sent headers' body = .ok (request,
    names) ∧
    signature lib request credentials sent.context.scope sent.context.amzDate = .ok text ∧
    sentSignature lib sent headers' = .ok (some text)
  oneSet : OneSet lib credentials sent.signingUrl.queryPairs headers' before.context.location
  amzSigned : before.context.location = .header → ∀ header ∈ headers', isAmzHeader lib header →
    lib.lower header.1 ∈ sent.context.signedHeaders
  otherPairs : otherPairs sent.signingUrl.queryPairs = otherPairs before.signingUrl.queryPairs
  otherHeaders : withoutHeaders lib headers' (replacedHeaders before.context.location) =
    withoutHeaders lib headers (replacedHeaders before.context.location)

/-- The request verifies. -/
def Resigned (lib : AwsLib) (method : PyStr) (body : Option (List ℕ)) (credentials : Credentials)
    (before : Inspection) (headers : List Field) (url' : PyStr) (headers' : List Field) : Prop :=
  ∃ sent, Verifies lib method body credentials before headers sent url' headers'

/-- Header auth: the query has no signing metadata.  Query auth: there is room for the pairs
that are written. -/
def Resignable (credentials : Credentials) (before : Inspection) : Prop :=
  match before.context.location with
  | .header => ∀ pair ∈ before.signingUrl.queryPairs, pair.1 ∉ querySigningParamNames
  | .query => (otherPairs before.signingUrl.queryPairs).length +
      credentials.sessionToken.toList.length + 6 ≤ maxQueryPairs

section Library

variable {lib : AwsLib}

/-! ### The names that are signed -/

variable {name : PyStr} {names signedHeaders : List PyStr} {clean headers headers' : List Field}
  {isS3 : Bool}
  {amzDate authorization host expires : PyStr} {credentials : Credentials} {scope : CredentialScope}
  {context : SigningContext} {token precomputed : Option PyStr} {body : Option (List ℕ)}
  {digest : Digest}

@[simp] theorem mem_addName {other} : name ∈ addName names other ↔ name ∈ names ∨ name = other := by
  unfold addName
  split
  case isTrue hmem => exact ⟨.inl, fun h => h.elim id fun h => h ▸ hmem⟩
  case isFalse => simp

theorem nodup_addName (hnames : names.Nodup) (name : PyStr) : (addName names name).Nodup := by
  unfold addName
  split
  case isTrue => exact hnames
  case isFalse hname =>
    rw [nodup_append]
    refine ⟨hnames, nodup_singleton name, ?_⟩
    rintro a ha _ hb rfl
    exact hname (mem_singleton.mp hb ▸ ha)

/-- The headers of AWS are added one after the other. -/
def addAmzNames (lib : AwsLib) (names : List PyStr) (headers : List Field) : List PyStr :=
  headers.foldl (fun names header =>
    if (lit "x-amz-").isPrefixOf (lib.lower header.1) then addName names (lib.lower header.1)
      else names) names

theorem mem_addAmzNames (names) (headers) : name ∈ addAmzNames lib names headers ↔
      name ∈ names ∨ ∃ header ∈ headers, isAmzHeader lib header ∧ lib.lower header.1 = name := by
  induction headers generalizing names with
  | nil => simp [addAmzNames]
  | cons header headers ih =>
    refine (ih _).trans ?_
    rw [exists_mem_cons_iff]
    dsimp only
    by_cases hamz : (lit "x-amz-").isPrefixOf (lib.lower header.1)
    · have hheader : isAmzHeader lib header := hamz
      rw [if_pos hamz, mem_addName, or_assoc]
      simp [hheader, eq_comm]
    · have hheader : ¬isAmzHeader lib header := hamz
      rw [if_neg hamz]
      simp [hheader]

theorem nodup_addAmzNames (hnames : names.Nodup) (headers) :
    (addAmzNames lib names headers).Nodup := by
  induction headers generalizing names with
  | nil => exact hnames
  | cons header headers ih =>
    refine ih ?_
    dsimp only
    split
    · exact nodup_addName hnames _
    · exact hnames

theorem nodup_headerSignedNames (hnodup : signedHeaders.Nodup) (sessionToken) (clean) :
    (headerSignedNames lib signedHeaders sessionToken clean).Nodup := by
  refine nodup_addAmzNames ?_ clean
  have hbase := nodup_addName (nodup_addName (hnodup.filter fun name =>
    name ≠ lit "x-amz-security-token")
    (lit "host")) (lit "x-amz-date")
  split
  · exact nodup_addName hbase _
  · exact hbase

theorem mem_headerSignedNames {sessionToken} :
      name ∈ headerSignedNames lib signedHeaders sessionToken clean ↔
      ((name ∈ signedHeaders ∧ name ≠ lit "x-amz-security-token") ∨ name = lit "host" ∨
        name = lit "x-amz-date" ∨
        ((truthy sessionToken).isSome ∧ name = lit "x-amz-security-token")) ∨
      ∃ header ∈ clean, isAmzHeader lib header ∧ lib.lower header.1 = name := by
  refine (mem_addAmzNames _ clean).trans ?_
  split
  case isTrue htoken => simp [htoken, or_assoc]
  case isFalse htoken => simp [htoken, or_assoc]

/-! ### The headers that are signed -/

section Clean

variable {headers : List Field} {host amzDate : PyStr} {token : Option PyStr}

/-- What the headers that are written do not change is as in the headers that are kept. -/
theorem cleanHeaders_eq {α : Type} (f : List Field → α)
    (hwrite : ∀ name ∈ [lit "host", lit "x-amz-date", lit "x-amz-security-token"],
      lib.lower name = name →
      ∀ headers value, f (upsertHeader lib headers name value) = f headers) :
    f (cleanHeaders lib headers host amzDate token) =
      f (withoutHeaders lib headers [lit "authorization", lit "x-amz-security-token"]) := by
  have hwrite := fun name hname => hwrite name hname (lower_written name (mem_cons_of_mem _ hname))
  unfold cleanHeaders
  split
  · rw [hwrite _ (by decide), hwrite _ (by decide)]
  · rw [hwrite _ (by decide), hwrite _ (by decide), hwrite _ (by decide)]

theorem named_clean_authorization :
    named lib (cleanHeaders lib headers host amzDate token) (lit "authorization") = [] := by
  rw [cleanHeaders_eq (named lib · (lit "authorization"))]
  · exact named_without_of_mem (by decide) headers
  · intro name hname hlower _ _
    refine named_upsert_of_ne hlower ?_ _ _
    rintro rfl
    exact absurd hname (by decide)

theorem named_clean_date :
    named lib (cleanHeaders lib headers host amzDate token) (lit "x-amz-date") =
      [(lit "x-amz-date", amzDate)] := by
  unfold cleanHeaders
  split
  · exact named_upsert_self (lower_written _ (by decide)) _ _
  · rw [named_upsert_of_ne (lower_written _ (by decide)) (by decide)]
    exact named_upsert_self (lower_written _ (by decide)) _ _

theorem named_clean_token : named lib (cleanHeaders lib headers host amzDate token)
      (lit "x-amz-security-token") =
      (truthy token).toList.map fun token => (lit "x-amz-security-token", token) := by
  unfold cleanHeaders
  split
  case h_1 hnone =>
    rw [named_upsert_of_ne (lower_written _ (by decide)) (by decide),
      named_upsert_of_ne (lower_written _ (by decide)) (by decide),
        named_without_of_mem (by decide), hnone]
    rfl
  case h_2 hsome =>
    rw [named_upsert_self (lower_written _ (by decide)), hsome]
    rfl

theorem named_clean_of_not_mem (hname : name ∉ replacedHeaders .header) :
    named lib (cleanHeaders lib headers host amzDate token) name = named lib headers name := by
  simp only [replacedHeaders, mem_cons, not_or] at hname
  obtain ⟨hauthz, hhost, hdate, htoken⟩ := hname
  rw [cleanHeaders_eq (named lib · name)]
  · exact named_without_of_not_mem (by simp [hauthz, htoken]) headers
  · intro other hother hlower _ _
    refine named_upsert_of_ne hlower ?_ _ _
    rintro rfl
    simp_all

theorem without_clean : withoutHeaders lib (cleanHeaders lib headers host amzDate token)
      (replacedHeaders .header) = withoutHeaders lib headers (replacedHeaders .header) := by
  rw [cleanHeaders_eq (withoutHeaders lib · (replacedHeaders .header))]
  · exact without_without (by decide) headers
  · exact fun name hname hlower => without_upsert hlower (mem_cons_of_mem _ hname)

theorem headersOk_clean (hhead : ∀ header ∈ headers, HeaderOk lib header) (hhost : Visible host)
    (hdate : HeaderOk lib (lit "x-amz-date", amzDate))
    (htoken : ∀ value ∈ token, HeaderOk lib (lit "x-amz-security-token", value)) :
    ∀ header ∈ cleanHeaders lib headers host amzDate token, HeaderOk lib header := by
  have hhostOk : HeaderOk lib (lit "host", host) :=
    headerOk_written (by decide) hhost.encodable hhost.no_control
  have hbase := headersOk_upsert (headersOk_upsert
    (headersOk_without [lit "authorization", lit "x-amz-security-token"] hhead) hhostOk) hdate
  unfold cleanHeaders
  split
  · exact hbase
  case h_2 value hsome => exact headersOk_upsert hbase (htoken value (truthy_eq_some hsome).1)

end Clean

/-! ### What is signed is computed again -/

/-- The canonical request of what was sent: the names are in order, and only headers that
are not signed may have changed. -/
theorem canonicalRequest_again {method} {url url'} {payload request nameText}
    (hpath : url'.parts.path = url.parts.path) (hpairs : url'.queryPairs = url.queryPairs)
    (hval : ∀ name ∈ names, signedValues lib headers name ≠ [] →
      signedValues lib headers' name = signedValues lib headers name)
    (h : canonicalRequest lib method url headers names payload isS3 = .ok (request, nameText)) :
    nameText = join (cp ';') (sortedNames names) ∧
      canonicalRequest lib method url' headers' (sortedNames names) payload isS3 = .ok (request,
        nameText) := by
  obtain ⟨uri, huri, h⟩ := bind_eq_ok.mp h
  obtain ⟨query, hquery, h⟩ := bind_eq_ok.mp h
  obtain ⟨⟨canonical, text⟩, hhead, h⟩ := bind_eq_ok.mp h
  obtain ⟨hpres, ⟨⟩⟩ := require_bind_eq_ok.mp hhead
  cases h
  refine ⟨rfl, ?_⟩
  have hsame : ∀ name ∈ sortedNames names,
    signedValues lib headers' name = signedValues lib headers name := by
    intro name hname
    have hname := (sortedNames_perm names).mem_iff.mp hname
    exact hval name hname (hpres name hname)
  have hagain : canonicalHeaders lib headers' (sortedNames names) =
    .ok ((sortedNames names).flatMap fun name =>
        name ++ cp ':' :: join (cp ',') (signedValues lib headers name) ++ [0x0A],
          join (cp ';') (sortedNames names)) := by
    refine require_bind_eq_ok.mpr ⟨fun name hname => ?_, ?_⟩
    · rw [hsame name hname]
      exact hpres name ((sortedNames_perm names).mem_iff.mp hname)
    · rw [sortedNames_sortedNames]
      refine congrArg (fun text => Except.ok (text, join (cp ';') (sortedNames names))) ?_
      exact flatMap_congr fun name hname => by rw [hsame name hname]
  refine bind_eq_ok.mpr ⟨uri, ?_, bind_eq_ok.mpr ⟨query, ?_, bind_eq_ok.mpr ⟨_, hagain, rfl⟩⟩⟩
  · rw [hpath]
    exact huri
  · rw [hpairs]
    exact hquery

theorem signature_spec {request text}
    (h : signature lib request credentials scope amzDate = .ok text) : ∃ digest : Digest,
      text = digest.hex := by
  obtain ⟨_, h⟩ := require_bind_eq_ok.mp h
  obtain ⟨_, h⟩ := require_bind_eq_ok.mp h
  exact ⟨_, (Except.ok.inj h).symm⟩

section Payload

variable {headers headers' : List Field} {precomputed : Option PyStr}

variable (hhash : ∀ hash ∈ precomputed, hash = hashRequestBody lib body)
  (hnamed : named lib headers' (lit "x-amz-content-sha256") =
    named lib headers (lit "x-amz-content-sha256"))

include hhash hnamed

omit hnamed in
theorem precomputed_getD : precomputed.getD (hashRequestBody lib body) =
    hashRequestBody lib body := by
  cases precomputed with
  | none => rfl
  | some hash => exact hhash hash rfl

theorem payloadHash_again : payloadHash lib headers' body none =
    payloadHash lib headers body precomputed := by
  rw [payloadHash, payloadHash, contentHashHeaderValue_congr hnamed, precomputed_getD hhash]
  rfl

theorem queryPayloadHash_again {isS3} :
    queryPayloadHash lib headers' body isS3 none = queryPayloadHash lib headers body isS3
      precomputed := by
  rw [queryPayloadHash, queryPayloadHash, contentHashHeaderValue_congr hnamed,
    precomputed_getD hhash]
  rfl

end Payload

/-! ### The credentials -/

/-- What is known of credentials that are valid. -/
structure CredentialsOk (lib : AwsLib) (credentials : Credentials) : Prop where
  accessKeyId : isAccessKeyId credentials.accessKeyId = true
  token : truthy credentials.sessionToken = credentials.sessionToken
  header : ∀ value ∈ credentials.sessionToken, HeaderOk lib (lit "x-amz-security-token", value)

theorem validateCredentials_spec (h : validateCredentials credentials = .ok ()) :
    CredentialsOk lib credentials := by
  obtain ⟨hid, h⟩ := require_bind_eq_ok.mp h
  obtain ⟨_, h⟩ := require_bind_eq_ok.mp h
  have htoken := require_eq_ok.mp h
  refine ⟨hid, ?_, fun value hvalue => ?_⟩
  · cases hsess : credentials.sessionToken with
    | none => rfl
    | some value => exact truthy_some (htoken value hsess).1
  · obtain ⟨_, hctrl, henc⟩ := htoken value hvalue
    refine headerOk_written (by decide) henc ?_
    rw [hasForbiddenHeaderValueControl, any_eq_false]
    intro c hc
    have hc := any_eq_false.mp hctrl c hc
    simp [hc]

theorem visible_credentialText (hid : isAccessKeyId credentials.accessKeyId)
    (hscope : ScopeOk lib scope) : Visible (credentialText credentials scope) := by
  intro c hc
  have halnum : ∀ c, isAlnum c = true → IsScalar c ∧ isAsciiControl c = false := by
    intro c hc
    have hc := isAlnum_iff.mp hc
    exact ⟨isScalar_of_lt (by omega), decide_eq_false (by omega)⟩
  rw [credentialText_eq] at hc
  rcases mem_join hc with rfl | ⟨text, htext, hc⟩
  · exact ⟨isScalar_of_lt (by decide), rfl⟩
  · rcases mem_cons.mp htext with rfl | htext
    · exact halnum c ((isAccessKeyId_iff.mp hid).2 c hc)
    · rcases hscope.char htext hc with hdigit | hc | rfl | rfl | rfl | rfl
      · exact lib.isDigit_clean c hdigit
      · exact halnum c hc
      all_goals exact ⟨isScalar_of_lt (by decide), rfl⟩

theorem visible_authorizationText (digest : Digest) (hid : isAccessKeyId credentials.accessKeyId)
    (hscope : ScopeOk lib scope) (hnames : SignedSet lib names) :
    Visible (authorizationText credentials scope (join (cp ';') names) digest.hex) := by
  have hwords : ∀ text ∈ [hmacAlgorithm, lit " Credential=", lit ", SignedHeaders=",
      lit ", Signature="],
      ∀ c ∈ text, 32 ≤ c ∧ c < 127 := by decide
  have hnamesVisible : Visible (join (cp ';') names) := by
    refine .of_range fun c hc => ?_
    rcases mem_join hc with rfl | ⟨name, hname, hc⟩
    · decide
    · have hc := isTokenChar_visible ((isHttpHeaderName_iff.mp (hnames.token name hname)).2 c hc)
      omega
  have hhex : Visible digest.hex := by
    refine .of_range fun c hc => ?_
    have hc := digest.mem_hex hc
    omega
  simp only [forall_mem_cons] at hwords
  obtain ⟨halg, hcrd, hsigned, hsignature, _⟩ := hwords
  exact ((((((Visible.of_range halg).append (.of_range hcrd)).append
    (visible_credentialText hid hscope)).append
    (.of_range hsigned)).append hnamesVisible).append (.of_range hsignature)).append hhex

/-! ### Header auth -/

theorem uniqueHeaderValue_spec {value} {message}
    (h : uniqueHeaderValue lib headers name message = .ok (some value)) :
    ∃ header ∈ headers, lib.lower header.1 = name ∧ header.2 = value := by
  unfold uniqueHeaderValue at h
  split at h
  case h_1 => cases h
  case h_2 header hfilter =>
    have hmem : header ∈ headers.filter fun header => lib.lower header.1 = name :=
      hfilter ▸ mem_cons_self
    obtain ⟨hmem, hname⟩ := mem_filter.mp hmem
    exact ⟨header, hmem, of_decide_eq_true hname, Option.some.inj (Except.ok.inj h)⟩
  case h_3 => cases h

/-- The date of a request that is accepted may be written again. -/
theorem headerOk_date {message} (hhead : ∀ header ∈ headers, HeaderOk lib header)
    (h : uniqueHeaderValue lib headers (lit "x-amz-date") message = .ok (some amzDate)) :
    HeaderOk lib (lit "x-amz-date", amzDate) := by
  obtain ⟨header, hmem, hname, rfl⟩ := uniqueHeaderValue_spec h
  obtain ⟨_, henc, _, hctrl⟩ := hhead header hmem
  refine headerOk_written (by decide) henc (hctrl ?_)
  rw [hname]
  decide

theorem signedSet_headerSignedNames (hsigned : SignedSet lib context.signedHeaders)
    (hclean : ∀ header ∈ clean, HeaderOk lib header) :
    SignedSet lib (headerSignedNames lib context.signedHeaders token clean) := by
  have hvalid : ∀ name ∈ headerSignedNames lib context.signedHeaders token clean,
      isHttpHeaderName name ∧ lib.lower name = name := by
    intro name hname
    have hwritt : ∀ name ∈ [lit "host", lit "x-amz-date", lit "x-amz-security-token"],
        isHttpHeaderName name ∧ lib.lower name = name := by
      intro name hname
      refine ⟨?_, lower_written name (mem_cons_of_mem _ hname)⟩
      revert name
      decide
    rcases mem_headerSignedNames.mp hname with (⟨hname, _⟩ | rfl | rfl | ⟨_, rfl⟩) | ⟨header,
      hheader, _, rfl⟩
    · exact ⟨hsigned.token name hname, hsigned.lower name hname⟩
    · exact hwritt _ (by decide)
    · exact hwritt _ (by decide)
    · exact hwritt _ (by decide)
    · have hlower : isHttpHeaderName (lib.lower header.1) :=
        isHttpHeaderName_lower (hclean header hheader).2.2.1
      exact ⟨hlower, lower_lower hlower⟩
  refine ⟨fun name hname => (hvalid name hname).1, fun name hname => (hvalid name hname).2,
    nodup_headerSignedNames hsigned.nodup _ _, ?_⟩
  exact mem_headerSignedNames.mpr (.inl (.inr (.inl rfl)))

theorem isAmzHeader_authorization (value : PyStr) :
    ¬isAmzHeader lib (lit "authorization", value) := by
  have hlower : lib.lower (lit "authorization") = lit "authorization" := lower_written _ (by decide)
  unfold isAmzHeader
  rw [hlower]
  decide

/-- The authorization header is none of AWS. -/
theorem mem_amz_sent {header} (hamz : isAmzHeader lib header) :
    header ∈ upsertHeader lib clean (lit "authorization") authorization ↔ header ∈ clean := by
  rw [upsertHeader, mem_append, mem_filter, mem_singleton]
  constructor
  · rintro (hmem | rfl)
    · exact hmem.1
    · exact absurd hamz (isAmzHeader_authorization authorization)
  · intro hmem
    refine .inl ⟨hmem, decide_eq_true fun h => ?_⟩
    rw [isAmzHeader, h] at hamz
    revert hamz
    decide

/-- The date and the token are headers of AWS that are sent. -/
theorem exists_amz_clean (value : PyStr)
    (hname : name ∈ [lit "x-amz-date", lit "x-amz-security-token"])
    (hmem : (name, value) ∈ named lib clean name) :
    ∃ header ∈ clean, isAmzHeader lib header ∧ lib.lower header.1 = name := by
  obtain ⟨hmem, hlower⟩ := mem_filter.mp hmem
  have hlower : lib.lower name = name := of_decide_eq_true hlower
  refine ⟨(name, value), hmem, ?_, hlower⟩
  have hamz : ∀ name ∈ [lit "x-amz-date", lit "x-amz-security-token"],
      (lit "x-amz-").isPrefixOf name := by decide
  rw [isAmzHeader, hlower]
  exact hamz name hname

/-- The names that are signed, in terms of what was sent. -/
theorem mem_signedNames_sent (hloc : context.location = .header)
    (hclean : clean = cleanHeaders lib headers host context.amzDate token) (name : PyStr) :
    name ∈ headerSignedNames lib context.signedHeaders token clean ↔
      SignedName lib context (upsertHeader lib clean (lit "authorization") authorization) name := by
  have hdate : ∃ header ∈ clean, isAmzHeader lib header ∧
    lib.lower header.1 = lit "x-amz-date" := by
    refine exists_amz_clean context.amzDate (by decide) ?_
    rw [hclean, named_clean_date]
    exact mem_cons_self
  have htoken : (truthy token).isSome →
      ∃ header ∈ clean, isAmzHeader lib header ∧
        lib.lower header.1 = lit "x-amz-security-token" := by
    intro hsome
    obtain ⟨value, hvalue⟩ := Option.isSome_iff_exists.mp hsome
    refine exists_amz_clean value (by decide) ?_
    rw [hclean, named_clean_token, hvalue]
    exact mem_cons_self
  have hsent : (∃ header ∈ upsertHeader lib clean (lit "authorization") authorization,
      isAmzHeader lib header ∧ lib.lower header.1 = name) ↔
        ∃ header ∈ clean, isAmzHeader lib header ∧ lib.lower header.1 = name :=
    exists_congr fun header => and_congr_left fun hamz => mem_amz_sent hamz.1
  rw [mem_headerSignedNames, SignedName, hloc]
  rw [hsent]
  constructor
  · rintro ((hname | hname | rfl | ⟨hsome, rfl⟩) | hname)
    · exact .inl hname
    · exact .inr (.inl hname)
    · exact .inr (.inr hdate)
    · exact .inr (.inr (htoken hsome))
    · exact .inr (.inr hname)
  · rintro (hname | hname | hname)
    · exact .inl (.inl hname)
    · exact .inl (.inr (.inl hname))
    · exact .inr hname

variable {url method url' : PyStr} {before : Inspection} {credential : PyStr}

theorem inspected_url (hinspect : inspectRequest lib url headers = .ok before) :
    parseUrlForSigning lib url = .ok before.signingUrl :=
  (classifyRequest_cases (inspectRequest_eq_ok.mp hinspect).2.1).1

/-- What a request is that was signed in its headers. -/
theorem inspected_header (hinspect : inspectRequest lib url headers = .ok before)
    (hloc : before.context.location = .header) : ContextOk lib before.context ∧
      before.context.expires = none ∧ HeaderOk lib (lit "x-amz-date", before.context.amzDate) ∧
      ∃ algorithm, uniqueQueryValue before.signingUrl.queryPairs (lit "X-Amz-Algorithm") =
        .ok algorithm ∧ truthy algorithm = none := by
  obtain ⟨hhead, hclass, _, _⟩ := inspectRequest_eq_ok.mp hinspect
  obtain ⟨_, hcases⟩ := classifyRequest_cases hclass
  rcases hcases with ⟨auth, algorithm, halg, hnone, hctx⟩ | ⟨algorithm, hctx⟩
  · obtain ⟨hok, _, hexp, hdate⟩ := classifyHeaderRequest_spec hctx
    exact ⟨hok, hexp, headerOk_date hhead hdate, algorithm, halg, hnone⟩
  · obtain ⟨_, hquery, _⟩ := classifyQueryRequest_spec hctx
    rw [hloc] at hquery
    cases hquery

theorem validateSigningContext_again {context'}
    (hvalid : validateSigningContext context = .ok ()) (halg : context'.algorithm = hmacAlgorithm)
    (hscope : context'.scope = context.scope) : validateSigningContext context' = .ok () := by
  obtain ⟨_, hvalid⟩ := require_bind_eq_ok.mp hvalid
  obtain ⟨_, hvalid⟩ := require_bind_eq_ok.mp hvalid
  refine require_bind_eq_ok.mpr ⟨?_, require_bind_eq_ok.mpr ⟨halg, ?_⟩⟩
  · rw [halg]
    decide
  · rw [hscope]
    exact hvalid

/-- The URL of a request that is signed in its headers stays. -/
theorem signHeaderRequest_url {url}
    (hsign : signHeaderRequest lib method url headers body credentials context isS3 precomputed =
      .ok (url', headers')) : url' = url.text := by
  obtain ⟨_, _, hsign⟩ := bind_eq_ok.mp hsign
  obtain ⟨_, _, hsign⟩ := bind_eq_ok.mp hsign
  obtain ⟨_, _, hsign⟩ := bind_eq_ok.mp hsign
  obtain ⟨_, _, hsign⟩ := bind_eq_ok.mp hsign
  exact (Prod.mk.inj (Except.ok.inj hsign)).1.symm

/-- The host of a URL that is accepted can be written in a header. -/
theorem visible_host {signingUrl} (hurl : parseUrlForSigning lib url = .ok signingUrl)
    (hhost : hostHeaderValue lib signingUrl.parts = .ok host) : Visible host := by
  obtain ⟨hurlOk, _, hsplit, _⟩ := parseUrlForSigning_eq_ok.mp hurl
  obtain ⟨hnetloc, hvis⟩ := hostHeaderValue_spec hhost
  obtain ⟨hfrom, _⟩ := urlsplit_spec hurlOk.clean hsplit hnetloc
  obtain ⟨start, queryMark, fragmentMark, hparts, _⟩ := hfrom.text
  refine hvis fun c hc => hurlOk.visible c ?_
  rw [hparts]
  simp only [mem_append]
  exact .inr (.inr (.inl hc))

/-- What the inspection finds in a request that was signed again. -/
def resignedInspection (credentials : Credentials) (before : Inspection) (names : List PyStr)
    (url : SigningUrl) : Inspection where
  requiresBody := before.requiresBody
  context := { before.context with
    algorithm := hmacAlgorithm, sourceAccessKeyId := credentials.accessKeyId, signedHeaders :=
      names }
  signingUrl := url

/-- The headers that are sent. -/
structure HeaderSigned (lib : AwsLib) (credentials : Credentials) (context : SigningContext)
    (headers headers' : List Field) (names : List PyStr) (digest : Digest) : Prop where
  valid : ∀ header ∈ headers', HeaderOk lib header
  signedSet : SignedSet lib names
  signedName : ∀ name, name ∈ names ↔ SignedName lib context headers' name
  authorization : named lib headers' (lit "authorization") =
    [(lit "authorization", authorizationText credentials context.scope (join (cp ';') names)
      digest.hex)]
  date : named lib headers' (lit "x-amz-date") = [(lit "x-amz-date", context.amzDate)]
  token : (named lib headers' (lit "x-amz-security-token")).map Prod.snd =
    credentials.sessionToken.toList
  content : named lib headers' (lit "x-amz-content-sha256") =
    named lib headers (lit "x-amz-content-sha256")
  others : withoutHeaders lib headers' (replacedHeaders .header) = withoutHeaders lib headers
    (replacedHeaders .header)

/-- Signing writes the authorization header over the names it signed. -/
theorem headerSigned_of_clean (digest : Digest) (hcred : CredentialsOk lib credentials)
    (hctx : ContextOk lib context)
    (hloc : context.location = .header) (hclean : ∀ header ∈ clean, HeaderOk lib header)
    (hcleanEq : clean = cleanHeaders lib headers host context.amzDate credentials.sessionToken) :
    let names := sortedNames (headerSignedNames lib context.signedHeaders credentials.sessionToken
      clean)
    HeaderSigned lib credentials context headers (upsertHeader lib clean (lit "authorization")
      (authorizationText credentials context.scope (join (cp ';') names) digest.hex)) names
        digest := by
  intro names
  have hsigned : SignedSet lib names :=
    (signedSet_headerSignedNames hctx.signed hclean).sorted
  have hvis := visible_authorizationText digest hcred.accessKeyId hctx.scope hsigned
  have hlower : lib.lower (lit "authorization") = lit "authorization" := lower_written _ (by decide)
  refine ⟨?_, hsigned, fun name => ?_, named_upsert_self hlower _ _, ?_, ?_, ?_, ?_⟩
  · exact headersOk_upsert hclean (headerOk_written (by decide) hvis.encodable hvis.no_control)
  · rw [(sortedNames_perm _).mem_iff]
    exact mem_signedNames_sent hloc hcleanEq name
  · rw [named_upsert_of_ne hlower (by decide), hcleanEq]
    exact named_clean_date
  · rw [named_upsert_of_ne hlower (by decide), hcleanEq, named_clean_token, hcred.token, map_map]
    exact map_id _
  · rw [named_upsert_of_ne hlower (by decide), hcleanEq]
    exact named_clean_of_not_mem (by decide)
  · rw [without_upsert hlower (by decide), hcleanEq]
    exact without_clean

section

variable (hcred : CredentialsOk lib credentials)
  (hinspect : inspectRequest lib url headers = .ok before)
  (hloc : before.context.location = .header)

include hcred hinspect hloc

/-- **What signing the headers does**: the canonical request can be computed from what is sent. -/
theorem signHeaderRequest_spec
    (hsign : signHeaderRequest lib method before.signingUrl headers body credentials before.context
      isS3
      precomputed = .ok (url', headers')) :
    ∃ names digest payload request nameText,
      HeaderSigned lib credentials before.context headers headers' names digest ∧
      payloadHash lib headers body precomputed = .ok payload ∧
      canonicalRequest lib method before.signingUrl headers' names payload isS3 = .ok (request,
        nameText) ∧
      signature lib request credentials before.context.scope before.context.amzDate =
        .ok digest.hex := by
  obtain ⟨hctx, _, hdate, _⟩ := inspected_header hinspect hloc
  obtain ⟨hhead, _⟩ := inspectRequest_eq_ok.mp hinspect
  have hurl := inspected_url hinspect
  obtain ⟨payload, hpayl, hsign⟩ := bind_eq_ok.mp hsign
  obtain ⟨host, hhost, hsign⟩ := bind_eq_ok.mp hsign
  obtain ⟨⟨request, nameText⟩, hreq, hsign⟩ := bind_eq_ok.mp hsign
  obtain ⟨text, htext, hsign⟩ := bind_eq_ok.mp hsign
  obtain ⟨_, rfl⟩ := Prod.mk.inj (Except.ok.inj hsign)
  obtain ⟨digest, rfl⟩ := signature_spec htext
  generalize hcleanEq : cleanHeaders lib headers host before.context.amzDate
    credentials.sessionToken = clean
    at hreq
  have hclean : ∀ header ∈ clean, HeaderOk lib header :=
    hcleanEq ▸ headersOk_clean hhead (visible_host hurl hhost) hdate hcred.header
  -- the authorization header is not among the names that are signed: its value is missing
  have hval : ∀ value, ∀ name ∈ headerSignedNames lib before.context.signedHeaders
    credentials.sessionToken clean,
      signedValues lib clean name ≠ [] →
      signedValues lib (upsertHeader lib clean (lit "authorization") value) name =
        signedValues lib clean name := by
    intro value name _ hpres
    refine signedValues_congr (named_upsert_of_ne (lower_written _ (by decide)) ?_ _ _)
    rintro rfl
    have hnil : named lib clean (lit "authorization") = [] := hcleanEq ▸ named_clean_authorization
    unfold named at hnil
    exact hpres (by rw [signedValues, hnil]; rfl)
  obtain ⟨rfl, hagain⟩ := canonicalRequest_again rfl rfl (hval _) hreq
  exact ⟨_, digest, payload, request, _,
    headerSigned_of_clean digest hcred hctx hloc hclean hcleanEq.symm, hpayl, hagain, htext⟩

/-- What is sent is accepted. -/
theorem HeaderSigned.inspected (hsigned : HeaderSigned lib credentials before.context headers
    headers' names digest) :
    inspectRequest lib url headers' =
      .ok (resignedInspection credentials before names before.signingUrl) := by
  obtain ⟨hctx, hexp, _, algorithm, halg, hnone⟩ := inspected_header hinspect hloc
  obtain ⟨_, _, hvalid, contentHash, hcont, hbody⟩ := inspectRequest_eq_ok.mp hinspect
  have hurl := inspected_url hinspect
  have hdate : uniqueHeaderValue lib headers' (lit "x-amz-date")
      "AWS SigV4 header auth requires a single x-amz-date" = .ok (some before.context.amzDate) :=
    uniqueHeaderValue_singleton hsigned.date
  have hclassified := classifyHeaderRequest_written digest hcred.accessKeyId hctx.scope
    hsigned.signedSet hctx.amzDate hctx.amzDate_ne hdate
  rw [← hloc, ← hexp] at hclassified
  have hne : authorizationText credentials before.context.scope (join (cp ';') names) digest.hex ≠
    [] :=
    append_ne_nil_of_right_ne_nil _ digest.hex_ne_nil
  refine inspectRequest_eq_ok.mpr ⟨hsigned.valid, ?_, validateSigningContext_again hvalid rfl rfl,
    contentHash, ?_, ?_⟩
  · refine bind_eq_ok.mpr ⟨_, uniqueHeaderValue_singleton hsigned.authorization, ?_⟩
    refine bind_eq_ok.mpr ⟨before.signingUrl, hurl, bind_eq_ok.mpr ⟨algorithm, halg, ?_⟩⟩
    rw [truthy_some hne, hnone]
    exact bind_eq_ok.mpr ⟨_, hclassified, rfl⟩
  · rw [contentHashHeaderValue_congr hsigned.content]
    exact hcont
  · exact hbody

/-- **A request that is signed in its headers verifies**, if its query has no metadata. -/
theorem signHeaderRequest_resigned (hhash : ∀ hash ∈ precomputed, hash = hashRequestBody lib body)
    (hsign : signHeaderRequest lib method before.signingUrl headers body credentials before.context
      (decide (before.context.scope.service ∈ s3SigningNames)) precomputed = .ok (url', headers'))
    (hpairs : ∀ pair ∈ before.signingUrl.queryPairs, pair.1 ∉ querySigningParamNames) :
    Resigned lib method body credentials before headers url' headers' := by
  obtain ⟨hctx, hexp, _⟩ := inspected_header hinspect hloc
  have hurl := inspected_url hinspect
  have hsent : url' = url := (signHeaderRequest_url hsign).trans
    (parseUrlForSigning_eq_ok.mp hurl).2.1
  obtain ⟨names, digest, payload, request, nameText, hsigned, hpayl, hreq, htext⟩ :=
    signHeaderRequest_spec hcred hinspect hloc hsign
  refine ⟨resignedInspection credentials before names before.signingUrl, {
    inspected := hsent ▸ hsigned.inspected hcred hinspect hloc
    location := rfl
    scope := rfl
    amzDate := rfl
    expires := rfl
    accessKeyId := rfl
    signedHeaders := hsigned.signedName
    signed := ⟨request, nameText, digest.hex, ?_, htext, ?_⟩
    oneSet := ?_
    amzSigned := ?_
    otherPairs := rfl
    otherHeaders := hloc ▸ hsigned.others }⟩
  · have hpayl' := (payloadHash_again hhash hsigned.content).trans hpayl
    simp only [resignedInspection, hloc]
    exact bind_eq_ok.mpr ⟨payload, hpayl', hreq⟩
  · have hparse := parseAuthorizationHeader_text
      (paramValue_credential hcred.accessKeyId hctx.scope) (paramValue_names hsigned.signedSet)
      (paramValue_hex lib digest)
    simp only [resignedInspection, hloc]
    exact bind_eq_ok.mpr ⟨_, uniqueHeaderValue_singleton hsigned.authorization,
      bind_eq_ok.mpr ⟨_, hparse, rfl⟩⟩
  · rw [hloc]
    exact ⟨by rw [hsigned.authorization]; rfl, by rw [hsigned.date]; rfl, hsigned.token, hpairs⟩
  · intro _ header hheader hamz
    refine (hsigned.signedName _).mpr ?_
    rw [SignedName, hloc]
    exact .inr (.inr ⟨header, hheader, hamz, rfl⟩)

end

/-! ### Query auth -/

theorem otherPairs_not_signing (pairs) : ∀ pair ∈ otherPairs pairs,
    pair.1 ∉ querySigningParamNames :=
  fun _ hpair => of_decide_eq_true (mem_filter.mp hpair).2

theorem metadata_signing {names signature} :
    ∀ pair ∈ metadataPairs credential amzDate expires names token signature,
      pair.1 ∈ querySigningParamNames := by
  intro pair hpair
  simp only [metadataPairs, mem_append, mem_cons, not_mem_nil, or_false, mem_map] at hpair
  rcases hpair with (((rfl | rfl | rfl | rfl | rfl) | ⟨_, _, rfl⟩) | rfl) <;>
    (dsimp only; decide)

theorem otherPairs_metadata {names signature} :
    otherPairs (metadataPairs credential amzDate expires names token signature) = [] := by
  rw [otherPairs, filter_eq_nil_iff]
  intro pair hpair
  simpa using metadata_signing pair hpair

theorem length_metadataPairs {names signature} :
    (metadataPairs credential amzDate expires names token signature).length = token.toList.length +
      6 := by
  simp only [metadataPairs, length_append, length_map, length_cons, length_nil]
  omega

section Pairs

variable {context : SigningContext} {names : List PyStr} {expires : PyStr}

/-- The pairs that are written with the signature. -/
theorem signingPairs_signed (digest : Digest) (hcred : CredentialsOk lib credentials)
    (hexp : context.expires = some expires) (hne : expires ≠ []) (hnames : SignedSet lib names) :
    signingPairs credentials context ((join (cp ';') (sortedNames names)).splitOn (cp ';'))
      (some digest.hex) =
      metadataPairs (credentialText credentials context.scope) context.amzDate expires
        (join (cp ';') (sortedNames names)) credentials.sessionToken digest.hex := by
  rw [signingPairs, hnames.sorted.splitOn_join, sortedNames_sortedNames, hexp, truthy_some hne,
    truthy_some digest.hex_ne_nil, hcred.token]
  rfl

/-- Without the signature they are the pairs that were signed. -/
theorem signingPairs_unsigned {others} {signature}
    (hoth : ∀ pair ∈ others, pair.1 ∉ querySigningParamNames)
    (hcred : CredentialsOk lib credentials)
    (hexp : context.expires = some expires) (hne : expires ≠ []) :
    ((others ++ metadataPairs (credentialText credentials context.scope) context.amzDate expires
        (join (cp ';') (sortedNames names)) credentials.sessionToken signature).filter
          fun pair => pair.1 ≠ lit "X-Amz-Signature") =
      others ++ signingPairs credentials context names none := by
  have hkeep : others.filter (fun pair => pair.1 ≠ lit "X-Amz-Signature") = others := by
    rw [filter_eq_self]
    intro pair hpair
    refine decide_eq_true fun h => hoth pair hpair ?_
    rw [h]
    decide
  rw [filter_append, hkeep, signingPairs, hexp, truthy_some hne, hcred.token]
  cases credentials.sessionToken <;> rfl

end Pairs

theorem replaceQueryPairs_spec {url replaced} {pairs}
    (h : replaceQueryPairs url pairs = .ok replaced) :
    replaced.parts.path = url.parts.path ∧ replaced.queryPairs = pairs := by
  obtain ⟨query, _, ⟨⟩⟩ := bind_eq_ok.mp h
  exact ⟨rfl, rfl⟩

variable {url : PyStr} {before : Inspection} {signedUrl : SigningUrl}

/-- What a request is that was signed in its query. -/
theorem inspected_query (hinspect : inspectRequest lib url headers = .ok before)
    (hloc : before.context.location = .query) : ContextOk lib before.context ∧
      ∃ expires, before.context.expires = some expires ∧ expires ≠ [] ∧ isExpires expires := by
  obtain ⟨_, hclass, _, _⟩ := inspectRequest_eq_ok.mp hinspect
  rcases (classifyRequest_cases hclass).2 with ⟨auth, _, _, _, hctx⟩ | ⟨algorithm, hctx⟩
  · obtain ⟨_, hheader, _⟩ := classifyHeaderRequest_spec hctx
    rw [hloc] at hheader
    cases hheader
  · obtain ⟨hok, _, hexp⟩ := classifyQueryRequest_spec hctx
    exact ⟨hok, hexp⟩

/-- The request that is sent. -/
structure QuerySigned (lib : AwsLib) (credentials : Credentials) (before : Inspection)
    (headers headers' : List Field) (url' expires : PyStr) (signedUrl : SigningUrl)
    (digest : Digest) : Prop where
  valid : ∀ header ∈ headers', HeaderOk lib header
  authorization : named lib headers' (lit "authorization") = []
  token : named lib headers' (lit "x-amz-security-token") = []
  content : named lib headers' (lit "x-amz-content-sha256") =
    named lib headers (lit "x-amz-content-sha256")
  others : withoutHeaders lib headers' (replacedHeaders .query) = withoutHeaders lib headers
    (replacedHeaders .query)
  netloc : before.signingUrl.parts.netloc ≠ []
  text : url' = signedUrl.text
  replaced : replaceQueryPairs before.signingUrl (otherPairs before.signingUrl.queryPairs ++
    metadataPairs (credentialText credentials before.context.scope) before.context.amzDate expires
      (join (cp ';') (sortedNames before.context.signedHeaders)) credentials.sessionToken
        digest.hex) = .ok signedUrl

section

variable (hcred : CredentialsOk lib credentials)
  (hinspect : inspectRequest lib url headers = .ok before) (hloc : before.context.location = .query)

include hcred hinspect hloc

/-- **What signing the query does**: the canonical request can be computed from what is sent. -/
theorem signQueryRequest_spec (hexp : before.context.expires = some expires) (hne : expires ≠ [])
    (hsign : signQueryRequest lib method before.signingUrl headers body credentials before.context
      isS3
      precomputed = .ok (url', headers')) : ∃ signedUrl digest payload request nameText,
      QuerySigned lib credentials before headers headers' url' expires signedUrl digest ∧
      queryPayloadHash lib headers body isS3 precomputed = .ok payload ∧
      canonicalRequest lib method signedUrl.unsigned headers'
        (sortedNames before.context.signedHeaders) payload
        isS3 = .ok (request, nameText) ∧
      signature lib request credentials before.context.scope before.context.amzDate =
        .ok digest.hex := by
  obtain ⟨hctx, _⟩ := inspected_query hinspect hloc
  obtain ⟨hhead, _⟩ := inspectRequest_eq_ok.mp hinspect
  have hurl := inspected_url hinspect
  have hnames : addName before.context.signedHeaders (lit "host") = before.context.signedHeaders :=
    if_pos hctx.signed.host
  obtain ⟨host, hhost, hsign⟩ := bind_eq_ok.mp hsign
  obtain ⟨payload, hpayl, hsign⟩ := bind_eq_ok.mp hsign
  obtain ⟨unsignedUrl, huns, hsign⟩ := bind_eq_ok.mp hsign
  obtain ⟨⟨request, nameText⟩, hreq, hsign⟩ := bind_eq_ok.mp hsign
  obtain ⟨text, htext, hsign⟩ := bind_eq_ok.mp hsign
  obtain ⟨signedUrl, hsigned, ⟨⟩⟩ := bind_eq_ok.mp hsign
  obtain ⟨digest, rfl⟩ := signature_spec htext
  rw [hnames] at huns hreq
  obtain ⟨hunsignedPath, hunsignedPairs⟩ := replaceQueryPairs_spec huns
  obtain ⟨hsignedPath, hsignedPairs⟩ := replaceQueryPairs_spec hsigned
  -- the names are in order, and the pairs differ by the signature only
  have hnameText : nameText = join (cp ';') (sortedNames before.context.signedHeaders) :=
    (canonicalRequest_again rfl rfl (fun _ _ _ => rfl) hreq).1
  subst hnameText
  have hpairs := signingPairs_signed digest hcred hexp hne hctx.signed
  have hoth := otherPairs_not_signing before.signingUrl.queryPairs
  have hsame : signedUrl.unsigned.queryPairs = unsignedUrl.queryPairs := by
    rw [SigningUrl.unsigned, hsignedPairs, hunsignedPairs, hpairs,
      signingPairs_unsigned hoth hcred hexp hne]
  have hpath : signedUrl.unsigned.parts.path = unsignedUrl.parts.path :=
    hsignedPath.trans hunsignedPath.symm
  have hagain := (canonicalRequest_again hpath hsame (fun _ _ _ => rfl) hreq).2
  have hlower : lib.lower (lit "host") = lit "host" := lower_written _ (by decide)
  have hvis := visible_host hurl hhost
  refine ⟨signedUrl, digest, payload, request, _, ?_, hpayl, hagain, htext⟩
  refine ⟨?_, ?_, ?_, ?_, ?_, (hostHeaderValue_spec hhost).1, rfl, ?_⟩
  · exact headersOk_upsert (headersOk_without _ hhead)
      (headerOk_written (by decide) hvis.encodable hvis.no_control)
  · rw [named_upsert_of_ne hlower (by decide)]
    exact named_without_of_mem (by decide) headers
  · rw [named_upsert_of_ne hlower (by decide)]
    exact named_without_of_mem (by decide) headers
  · rw [named_upsert_of_ne hlower (by decide)]
    exact named_without_of_not_mem (by decide) headers
  · rw [without_upsert hlower (by decide)]
    exact without_without (by decide) headers
  · rw [← hpairs]
    exact hsigned

omit hcred hloc in
/-- The URL of what is sent is accepted if there is room for its pairs. -/
theorem QuerySigned.parsed
    (hsigned : QuerySigned lib credentials before headers headers' url' expires signedUrl digest)
      (sent) :
    parseUrlForSigning lib url' = .ok sent ↔
      (otherPairs before.signingUrl.queryPairs).length + credentials.sessionToken.toList.length +
        6 ≤ maxQueryPairs ∧ sent = signedUrl := by
  rw [hsigned.text, parseUrlForSigning_replaced (inspected_url hinspect) hsigned.netloc
    hsigned.replaced, length_append, length_metadataPairs, ← Nat.add_assoc]

/-- What is sent is accepted. -/
theorem QuerySigned.inspected
    (hsigned : QuerySigned lib credentials before headers headers' url' expires signedUrl digest)
    (hexp : before.context.expires = some expires) (hexpiresOk : isExpires expires)
    (hne : expires ≠ [])
    (hroom : (otherPairs before.signingUrl.queryPairs).length +
      credentials.sessionToken.toList.length + 6 ≤ maxQueryPairs) :
    inspectRequest lib url' headers' =
      .ok (resignedInspection credentials before (sortedNames before.context.signedHeaders)
        signedUrl) := by
  obtain ⟨hctx, _⟩ := inspected_query hinspect hloc
  obtain ⟨_, _, hvalid, contentHash, hcont, hbody⟩ := inspectRequest_eq_ok.mp hinspect
  have hoth := otherPairs_not_signing before.signingUrl.queryPairs
  have hclassified := classifyQueryRequest_written credentials.sessionToken hoth
    hcred.accessKeyId hctx.scope hctx.signed.sorted hctx.amzDate hctx.amzDate_ne hexpiresOk hne
    digest.hex_ne_nil
  rw [← hloc, ← hexp, ← (replaceQueryPairs_spec hsigned.replaced).2] at hclassified
  have halg : uniqueQueryValue signedUrl.queryPairs (lit "X-Amz-Algorithm") =
    .ok (some hmacAlgorithm) := by
    rw [(replaceQueryPairs_spec hsigned.replaced).2, uniqueQueryValue_written hoth (by decide)]
    cases credentials.sessionToken <;> rfl
  refine inspectRequest_eq_ok.mpr ⟨hsigned.valid, ?_, validateSigningContext_again hvalid rfl rfl,
    contentHash, ?_, hbody⟩
  · refine bind_eq_ok.mpr ⟨_, uniqueHeaderValue_nil hsigned.authorization, ?_⟩
    refine bind_eq_ok.mpr ⟨signedUrl, (hsigned.parsed hinspect _).mpr ⟨hroom, rfl⟩, ?_⟩
    refine bind_eq_ok.mpr ⟨_, halg, ?_⟩
    exact bind_eq_ok.mpr ⟨_, hclassified, rfl⟩
  · rw [contentHashHeaderValue_congr hsigned.content]
    exact hcont

/-- **A request that is signed in its query verifies**, if there is room for its pairs. -/
theorem signQueryRequest_resigned (hhash : ∀ hash ∈ precomputed, hash = hashRequestBody lib body)
    (hsign : signQueryRequest lib method before.signingUrl headers body credentials before.context
      (decide (before.context.scope.service ∈ s3SigningNames)) precomputed = .ok (url', headers'))
    (hroom : (otherPairs before.signingUrl.queryPairs).length +
      credentials.sessionToken.toList.length + 6 ≤
      maxQueryPairs) : Resigned lib method body credentials before headers url' headers' := by
  obtain ⟨_, expires, hexp, hne, hexpiresOk⟩ := inspected_query hinspect hloc
  obtain ⟨signedUrl, digest, payload, request, nameText, hsigned, hpayl, hreq, htext⟩ :=
    signQueryRequest_spec hcred hinspect hloc hexp hne hsign
  have hoth := otherPairs_not_signing before.signingUrl.queryPairs
  have hpairs := (replaceQueryPairs_spec hsigned.replaced).2
  refine ⟨resignedInspection credentials before (sortedNames before.context.signedHeaders)
    signedUrl, {
    inspected := hsigned.inspected hcred hinspect hloc hexp hexpiresOk hne hroom
    location := rfl
    scope := rfl
    amzDate := rfl
    expires := rfl
    accessKeyId := rfl
    signedHeaders := ?_
    signed := ⟨request, nameText, digest.hex, ?_, htext, ?_⟩
    oneSet := ?_
    amzSigned := ?_
    otherPairs := ?_
    otherHeaders := hloc ▸ hsigned.others }⟩
  · intro name
    rw [SignedName, hloc]
    exact (sortedNames_perm _).mem_iff
  · have hpayl' := (queryPayloadHash_again hhash hsigned.content).trans hpayl
    simp only [resignedInspection, hloc]
    exact bind_eq_ok.mpr ⟨payload, hpayl', hreq⟩
  · simp only [sentSignature, resignedInspection, hloc]
    rw [hpairs, uniqueQueryValue_written hoth (by decide)]
    cases credentials.sessionToken <;> rfl
  · have hnone : (otherPairs before.signingUrl.queryPairs).filter
        (fun pair => pair.1 ∈ querySigningParamNames) = [] := by
      rw [filter_eq_nil_iff]
      exact fun pair hpair => by simpa using hoth pair hpair
    have hnoToken : (otherPairs before.signingUrl.queryPairs).filter
        (fun pair => pair.1 = lit "X-Amz-Security-Token") = [] := by
      rw [filter_eq_nil_iff]
      intro pair hpair h
      refine hoth pair hpair ?_
      rw [of_decide_eq_true h]
      decide
    rw [hloc]
    refine ⟨hsigned.authorization, hsigned.token, ?_, ?_⟩ <;>
      simp only [resignedInspection, hpairs, filter_append, hnone, hnoToken, nil_append] <;>
      cases credentials.sessionToken <;> rfl
  · intro h
    rw [hloc] at h
    cases h
  · have hsame : otherPairs (otherPairs before.signingUrl.queryPairs) =
      otherPairs before.signingUrl.queryPairs := by
      rw [otherPairs, filter_eq_self]
      exact fun pair hpair => decide_eq_true (hoth pair hpair)
    show otherPairs signedUrl.queryPairs = _
    rw [hpairs, otherPairs, filter_append]
    exact (congrArg₂ (· ++ ·) hsame otherPairs_metadata).trans (append_nil _)

end

/-! ### Both -/

/-- What verifies is no exception. -/
theorem Resigned.resignable (hinspect : inspectRequest lib url headers = .ok before)
    (hsign : signRequest lib method url headers body credentials precomputed = .ok (url', headers'))
    (h : Resigned lib method body credentials before headers url' headers') :
      Resignable credentials before := by
  obtain ⟨_, hvalid, hsign⟩ := bind_eq_ok.mp hsign
  have hcred : CredentialsOk lib credentials := validateCredentials_spec hvalid
  obtain ⟨inspection, hinsp, hsign⟩ := bind_eq_ok.mp hsign
  obtain rfl : before = inspection := Except.ok.inj (hinspect.symm.trans hinsp)
  obtain ⟨_, hsign⟩ := require_bind_eq_ok.mp hsign
  obtain ⟨sent, hver⟩ := h
  have hsent := inspected_url hver.inspected
  have hurl := inspected_url hinspect
  unfold Resignable
  cases hloc : before.context.location with
  | header =>
    simp only [hloc] at hsign
    have hsame : url' = url := (signHeaderRequest_url hsign).trans
      (parseUrlForSigning_eq_ok.mp hurl).2.1
    have hequal : sent.signingUrl = before.signingUrl := by
      rw [hsame, hurl] at hsent
      exact (Except.ok.inj hsent).symm
    have hone := hver.oneSet
    rw [hloc, hequal] at hone
    exact hone.2.2.2
  | query =>
    simp only [hloc] at hsign
    obtain ⟨_, expires, hexp, hne, _⟩ := inspected_query hinspect hloc
    obtain ⟨signedUrl, digest, _, _, _, hsigned, _⟩ :=
      signQueryRequest_spec hcred hinspect hloc hexp hne hsign
    exact ((hsigned.parsed hinspect _).mp hsent).1

/-- **A request that is signed again verifies exactly when its query has no metadata beside
that of the headers, and has room for the metadata that is written in it.** -/
theorem resigned_iff (lib : AwsLib) (method url : PyStr) (headers : List Field)
    (body : Option (List ℕ))
    (credentials : Credentials) (precomputed : Option PyStr) (before : Inspection) (url' : PyStr)
    (headers' : List Field) (hinspect : inspectRequest lib url headers = .ok before)
    (hhash : ∀ hash ∈ precomputed, hash = hashRequestBody lib body)
    (hsign : signRequest lib method url headers body credentials precomputed = .ok (url', headers'))
      :
    Resigned lib method body credentials before headers url' headers' ↔
      Resignable credentials before := by
  refine ⟨Resigned.resignable hinspect hsign, fun hres => ?_⟩
  obtain ⟨_, hvalid, hsign⟩ := bind_eq_ok.mp hsign
  have hcred : CredentialsOk lib credentials := validateCredentials_spec hvalid
  obtain ⟨inspection, hinsp, hsign⟩ := bind_eq_ok.mp hsign
  obtain rfl : before = inspection := Except.ok.inj (hinspect.symm.trans hinsp)
  obtain ⟨_, hsign⟩ := require_bind_eq_ok.mp hsign
  unfold Resignable at hres
  cases hloc : before.context.location with
  | header =>
    simp only [hloc] at hsign hres
    exact signHeaderRequest_resigned hcred hinspect hloc hhash hsign hres
  | query =>
    simp only [hloc] at hsign hres
    exact signQueryRequest_resigned hcred hinspect hloc hhash hsign hres

end Library

/-- A request to EC2 that a sandbox signed. -/
def sandboxHeaders : List Field :=
  [(lit "Host", lit "ec2.aws.com"), (lit "X-Amz-Date", lit "20240101T000000Z"),
    (lit "Authorization", lit "AWS4-HMAC-SHA256 Credential=OLD/20240101/us-east-1/ec2/aws4_request, SignedHeaders=host, Signature=00")]

/-- The credentials it is signed with again. -/
def realCredentials : Credentials := ⟨lit "NEW", lit "secret", some (lit "token")⟩

theorem resigned_iff_plain_query : ∃ before url' headers',
      inspectRequest plainAws (lit "https://ec2.aws.com/?Action=A") sandboxHeaders = .ok before ∧
      signRequest plainAws (lit "GET") (lit "https://ec2.aws.com/?Action=A") sandboxHeaders none
        realCredentials
        none = .ok (url', headers') ∧
      Resigned plainAws (lit "GET") none realCredentials before sandboxHeaders url' headers' := by
  obtain ⟨before, hinspect, hbef⟩ := exists_eq_ok (x := inspectRequest plainAws
    (lit "https://ec2.aws.com/?Action=A") sandboxHeaders)
    (p := fun before => before.context.location = .header ∧
      ∀ pair ∈ before.signingUrl.queryPairs, pair.1 ∉ querySigningParamNames) (by decide +kernel)
  obtain ⟨⟨url', headers'⟩, hsign, _⟩ := exists_eq_ok (x := signRequest plainAws (lit "GET")
    (lit "https://ec2.aws.com/?Action=A") sandboxHeaders none realCredentials none)
      (p := fun _ => true)
    (by decide +kernel)
  obtain ⟨hloc, hpairs⟩ := of_decide_eq_true hbef
  refine ⟨before, url', headers', hinspect, hsign, ?_⟩
  refine (resigned_iff _ _ _ _ _ _ _ _ _ _ hinspect (fun _ h =>
    absurd h (Option.some_ne_none _).symm) hsign).mpr ?_
  rw [Resignable, hloc]
  exact hpairs

/-- **A placeholder token in the query of a request that is signed in its headers is sent on.** -/
theorem leftover_token_sent : ∃ before url' headers' sent,
      inspectRequest plainAws (lit "https://ec2.aws.com/?X-Amz-Security-Token=placeholder")
        sandboxHeaders = .ok before ∧
      signRequest plainAws (lit "GET") (lit "https://ec2.aws.com/?X-Amz-Security-Token=placeholder")
        sandboxHeaders
        none realCredentials none = .ok (url', headers') ∧
      parseUrlForSigning plainAws url' = .ok sent ∧
      (lit "X-Amz-Security-Token", lit "placeholder") ∈ sent.queryPairs ∧
      ¬Resigned plainAws (lit "GET") none realCredentials before sandboxHeaders url' headers' := by
  obtain ⟨before, hinspect, hbef⟩ := exists_eq_ok (x := inspectRequest plainAws
    (lit "https://ec2.aws.com/?X-Amz-Security-Token=placeholder") sandboxHeaders)
    (p := fun before => before.context.location = .header ∧
      (lit "X-Amz-Security-Token", lit "placeholder") ∈ before.signingUrl.queryPairs)
        (by decide +kernel)
  obtain ⟨⟨url', headers'⟩, hsign, hsent⟩ := exists_eq_ok (x := signRequest plainAws (lit "GET")
    (lit "https://ec2.aws.com/?X-Amz-Security-Token=placeholder") sandboxHeaders none
      realCredentials none)
    (p := fun output => output.1 = lit "https://ec2.aws.com/?X-Amz-Security-Token=placeholder")
    (by decide +kernel)
  obtain ⟨hloc, hleft⟩ := of_decide_eq_true hbef
  have hsent : url' = lit "https://ec2.aws.com/?X-Amz-Security-Token=placeholder" :=
    of_decide_eq_true hsent
  refine ⟨before, url', headers', before.signingUrl, hinspect, hsign, ?_, hleft, fun h => ?_⟩
  · rw [hsent]
    exact inspected_url hinspect
  · have hclean := h.resignable hinspect hsign
    rw [Resignable, hloc] at hclean
    exact hclean _ hleft (by decide)

end Okou.Aws
