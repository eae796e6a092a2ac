import Mathlib.Data.List.Lex
import Mathlib.Data.List.Sort
import Mathlib.Data.Prod.Lex
import Okou.Aws.Url

/-!
# Signing AWS requests again

`aws_sigv4.py`: a request that the sandbox signed with placeholder credentials is checked,
and signed again with the real ones.

Sets of header names are lists without repetitions.  An inspection that is handed to
`sign_request` is used only if it describes the same URL and headers, so that signing is
modelled as inspecting first.
-/

namespace Okou.Aws

open Firewall

/-- A header, or a pair of the query. -/
abbrev Field := PyStr × PyStr

/-! ### Texts -/

/-- `is_http_header_name`: one of `_HTTP_TOKEN_CHARS`. -/
def isTokenChar (c : ℕ) : Bool := isAlnum c || (lit "!#$%&'*+-.^_|~" ++ [0x60]).contains c

variable (value : PyStr) (names : List PyStr) (query : PyStr) (pair : Field) (pairs : List Field)
  (name : PyStr)

def isHttpHeaderName : Bool := decide (value ≠ []) && value.all isTokenChar

def hasForbiddenHeaderValueControl : Bool :=
  value.any fun c => isAsciiControl c && decide (c ≠ 0x09)

def hasAsciiControl : Bool := value.any isAsciiControl

/-- A text can be encoded. -/
def Utf8Encodable : Prop := ∀ c ∈ value, IsScalar c

instance (value : PyStr) : Decidable (Utf8Encodable value) :=
  inferInstanceAs (Decidable (∀ c ∈ value, _))

/-- `str.encode`. -/
def utf8 : List ℕ := value.flatMap utf8Encode

/-- A digit of `hexdigest`. -/
def lowerHexDigit (n : ℕ) : ℕ := if n < 10 then 48 + n else 87 + n

/-- `hexdigest`. -/
def Digest.hex (digest : Digest) : PyStr :=
  digest.bytes.flatMap fun b => [lowerHexDigit (b / 16), lowerHexDigit (b % 16)]

/-- `sorted` of texts. -/
def sortedNames : List PyStr := names.insertionSort (· ≤ ·)

/-- `set.add`. -/
def addName : List PyStr :=
  if name ∈ names then names else names ++ [name]

/-- Truth of an optional text. -/
def truthy (value : Option PyStr) : Option PyStr := value.filter fun text => decide (text ≠ [])

/-! ### Requests -/

inductive AuthLocation
  | header
  | query
  deriving DecidableEq, Repr

/-- `AwsSigV4Credentials`. -/
structure Credentials where
  accessKeyId : PyStr
  secretAccessKey : PyStr
  sessionToken : Option PyStr
  deriving DecidableEq, Repr

structure CredentialScope where
  date : PyStr
  region : PyStr
  service : PyStr
  deriving DecidableEq, Repr

structure SigningContext where
  location : AuthLocation
  algorithm : PyStr
  sourceAccessKeyId : PyStr
  scope : CredentialScope
  signedHeaders : List PyStr
  amzDate : PyStr
  expires : Option PyStr
  deriving DecidableEq, Repr

structure SigningUrl where
  text : PyStr
  parts : UrlParts
  queryPairs : List Field
  deriving DecidableEq, Repr

/-- `AwsSigV4RequestInspection`. -/
structure Inspection where
  requiresBody : Bool
  context : SigningContext
  signingUrl : SigningUrl
  deriving DecidableEq, Repr

def hmacAlgorithm : PyStr := lit "AWS4-HMAC-SHA256"

def asymmetricAlgorithm : PyStr := lit "AWS4-ECDSA-P256-SHA256"

def aws4Request : PyStr := lit "aws4_request"

def s3SigningNames : List PyStr := [lit "s3", lit "s3-outposts", lit "s3-object-lambda"]

def authHeaderParamNames : List PyStr := [lit "Credential", lit "SignedHeaders", lit "Signature"]

def querySigningParamNames : List PyStr :=
  [lit "X-Amz-Algorithm", lit "X-Amz-Credential", lit "X-Amz-Date", lit "X-Amz-Expires",
    lit "X-Amz-SignedHeaders", lit "X-Amz-Security-Token", lit "X-Amz-Signature"]

/-- `MAX_AWS_SIGV4_QUERY_PAIRS`. -/
def maxQueryPairs : ℕ := 8 * 1024

/-! ### The query -/

def unquoteQueryComponent : Except String PyStr := do
  require (percentEscapesWellFormed value = true) "AWS request URL is malformed"
  match utf8Decode (percentBytes value) with
  | none => .error "AWS request URL is malformed"
  | some text => .ok text

/-- The pairs of a query as they are written. -/
def rawPairs : List PyStr :=
  (query.splitOn (cp '&')).filter fun rawPair => decide (rawPair ≠ [])

/-- One pair of `_parse_query_pairs`. -/
def parseQueryPair (rawPair : PyStr) : Except String Field := do
  let (rawKey, rawValue) := partition (cp '=') rawPair
  let key ← unquoteQueryComponent rawKey
  let value ← unquoteQueryComponent (rawValue.getD [])
  .ok (key, value)

/-- `_parse_query_pairs`, with `_validate_query_pair_count`. -/
def parseQueryPairs : Except String (List Field) := do
  require ((rawPairs query).length ≤ maxQueryPairs) "AWS request has too many query parameters"
  (rawPairs query).mapM parseQueryPair

def quoteUrlComponent (safe : PyStr) : Except String PyStr :=
  match quote safe value with
  | none => .error "AWS request URL is malformed"
  | some quoted => .ok quoted

def awsQuote : Except String PyStr := quoteUrlComponent value (lit "-_.~")

/-- A pair of names and values, quoted. -/
def quotePair : Except String Field := do
  let key ← awsQuote pair.1
  let value ← awsQuote pair.2
  .ok (key, value)

/-- `key=value`. -/
def pairText : PyStr := pair.1 ++ cp '=' :: pair.2

def encodeQueryPairs : Except String PyStr := do
  let quoted ← pairs.mapM quotePair
  .ok (join (cp '&') (quoted.map pairText))

def uniqueQueryValue : Except String (Option PyStr) :=
  match pairs.filter fun pair => decide (pair.1 = name) with
  | [] => .ok none
  | [pair] => .ok (some pair.2)
  | _ => .error "Malformed AWS presigned query"

section Library

variable (lib : AwsLib) (headers : List Field)

def parseUrlForSigning (url : PyStr) : Except String SigningUrl := do
  require (Utf8Encodable url) "AWS request URL is malformed"
  require (hasRawWhitespace url = false ∧
    hasAsciiControl url = false) "AWS request URL is malformed"
  require (percentEscapesWellFormed url = true) "AWS request URL is malformed"
  match urlsplit lib url with
  | none => .error "AWS request URL is malformed"
  | some parts =>
    let pairs ← parseQueryPairs parts.query
    .ok ⟨url, parts, pairs⟩

/-! ### The headers -/

def validateHeaders (headers : List Field) : Except String Unit :=
  require (∀ header ∈ headers, Utf8Encodable header.1 ∧ Utf8Encodable header.2 ∧
      isHttpHeaderName header.1 = true ∧
      (lib.lower header.1 ≠ lit "x-amz-content-sha256" →
        hasForbiddenHeaderValueControl header.2 = false))
    "AWS request header contains invalid text"

def uniqueHeaderValue (headers : List Field) (name : PyStr) (duplicateMessage : String) :
    Except String (Option PyStr) :=
  match headers.filter fun header => decide (lib.lower header.1 = name) with
  | [] => .ok none
  | [header] => .ok (some header.2)
  | _ => .error duplicateMessage

def withoutHeaders (headers : List Field) (names : List PyStr) : List Field :=
  headers.filter fun header => decide (lib.lower header.1 ∉ names)

/-- `_upsert_header`; the names it is called with are in lower case. -/
def upsertHeader (headers : List Field) (name value : PyStr) : List Field :=
  (headers.filter fun header => decide (lib.lower header.1 ≠ name)) ++ [(name, value)]

variable (path method value : PyStr) (pairs : List Field) (credentials : Credentials)
  (url : SigningUrl) (scope : CredentialScope) (context : SigningContext)

variable (body : Option (List ℕ)) (signedHeaders : List PyStr)

def normalizeHeaderValue : PyStr :=
  join (cp ' ') (((strip lib.isSpace value).splitOnP lib.isSpace).filter fun word =>
    decide (word ≠ []))

def contentHashHeaderValue (headers : List Field) : Except String (Option PyStr) := do
  match ← uniqueHeaderValue lib headers (lit "x-amz-content-sha256")
      "AWS content hash header is ambiguous" with
  | none => .ok none
  | some value =>
    require (value.all fun c => decide (c < 0x7F ∧ (0x1F < c ∨ c = 0x09)))
      "AWS content hash header contains invalid text"
    let normalized := normalizeHeaderValue lib value
    require (normalized ≠ []) "AWS content hash header is empty"
    require ((lit "STREAMING-").isPrefixOf normalized = false)
      "AWS streaming payload signing is not supported"
    require (normalized = lit "UNSIGNED-PAYLOAD" ∨
        normalized.length = 64 ∧ normalized.all fun c => (lit "0123456789abcdef").contains c)
      "Unsupported AWS content hash header"
    .ok (some normalized)

/-! ### Classification -/

/-- `_AMZ_DATE_RE` and `_SCOPE_DATE_RE`: so many digits. -/
def allDigits (count : ℕ) (value : PyStr) : Bool := decide (value.length = count) &&
    value.all lib.isDigit

/-- `_AMZ_DATE_RE`. -/
def isAmzDate : Bool :=
  decide (value.length = 16) && allDigits lib 8 (value.take 8) &&
    decide (value[8]? = some (cp 'T')) &&
    allDigits lib 6 ((value.drop 9).take 6) && decide (value[15]? = some (cp 'Z'))

/-- `_ACCESS_KEY_ID_RE`. -/
def isAccessKeyId : Bool := decide (value ≠ []) && value.all isAlnum

/-- `_SCOPE_SERVICE_RE`. -/
def isScopeService : Bool :=
  decide (value ≠ []) && value.all fun c => isAlnum c || [cp '.', cp '_', cp '-'].contains c

/-- `_SCOPE_REGION_RE`. -/
def isScopeRegion : Bool := isScopeService value || decide (value = lit "*")

def parseCredential (credential : PyStr) : Except String (PyStr × CredentialScope) :=
  match credential.splitOn (cp '/') with
  | [accessKeyId, date, region, service, last] => do
    require (last = aws4Request) "Malformed AWS credential scope"
    require (accessKeyId ≠ [] ∧ date ≠ [] ∧ region ≠ [] ∧ service ≠ [])
      "Incomplete AWS credential scope"
    require (isAccessKeyId accessKeyId ∧ hasAsciiControl accessKeyId = false ∧
        allDigits lib 8 date ∧ isScopeRegion region ∧ isScopeService service)
      "Malformed AWS credential scope"
    .ok (accessKeyId, ⟨date, region, service⟩)
  | _ => .error "Malformed AWS credential scope"

def parseSignedHeaders : Except String (List PyStr) := do
  let parts := (value.splitOn (cp ';')).map fun part => lib.lower (strip lib.isSpace part)
  require ((∀ part ∈ parts, isHttpHeaderName part = true) ∧
    parts.Nodup) "Malformed AWS signed headers"
  require (lit "host" ∈ parts) "AWS signed headers must include host"
  .ok parts

def validateAmzDate (amzDate : PyStr) (scope : CredentialScope) : Except String Unit := do
  require (isAmzDate lib amzDate) "Malformed AWS signing date"
  require (scope.date.isPrefixOf amzDate = true) "AWS signing date does not match credential scope"
  require (lib.isDate amzDate = true) "Malformed AWS signing date"

/-- The loop of `_parse_authorization_header`. -/
def authParamsLoop : List PyStr → List Field → Except String (List Field)
  | [], params => .ok params
  | rawParam :: rest, params => do
    match partition (cp '=') (strip lib.isSpace rawParam) with
    | (_, none) => .error "Malformed AWS authorization header"
    | (key, some rawValue) =>
      let value := strip lib.isSpace rawValue
      require (key ∈ authHeaderParamNames ∧ value ≠ [] ∧ dictGet key params = none)
        "Malformed AWS authorization header"
      authParamsLoop rest (params ++ [(key, value)])

def parseAuthorizationHeader : Except String (PyStr × List Field) :=
  match partition (cp ' ') value with
  | (_, none) => .error "Malformed AWS authorization header"
  | (algorithm, some remainder) => do
    require (algorithm ≠ [] ∧ strip lib.isSpace remainder ≠ []) "Malformed AWS authorization header"
    let params ← authParamsLoop lib (remainder.splitOn (cp ',')) []
    .ok (algorithm, params)

def classifyHeaderRequest (authHeader : PyStr) (headers : List Field) :
    Except String SigningContext := do
  let (algorithm, params) ← parseAuthorizationHeader lib authHeader
  match dictGet (lit "Credential") params, dictGet (lit "SignedHeaders") params,
    dictGet (lit "Signature") params with
  | some credential, some signedHeaders, some _ =>
    let (sourceAccessKeyId, scope) ← parseCredential lib credential
    let amzDate ← uniqueHeaderValue lib headers (lit "x-amz-date")
      "AWS SigV4 header auth requires a single x-amz-date"
    match truthy amzDate with
    | none => .error "AWS SigV4 header auth requires x-amz-date"
    | some amzDate =>
      validateAmzDate lib amzDate scope
      let signedHeaders ← parseSignedHeaders lib signedHeaders
      .ok ⟨.header, algorithm, sourceAccessKeyId, scope, signedHeaders, amzDate, none⟩
  | _, _, _ => .error "Malformed AWS authorization header"

/-- The expiry of a presigned query: one week at most. -/
def isExpires : Bool :=
  decide (value.length ≤ 6) && (value.head?.any fun c => decide (49 ≤ c ∧ c ≤ 57)) &&
    value.all (fun c => decide (48 ≤ c ∧ c ≤ 57)) &&
    !(decide (value.length = 6) && decide (lit "604800" < value))

def classifyQueryRequest (algorithm : PyStr) : Except String SigningContext := do
  let credential ← uniqueQueryValue pairs (lit "X-Amz-Credential")
  let signedHeaders ← uniqueQueryValue pairs (lit "X-Amz-SignedHeaders")
  let amzDate ← uniqueQueryValue pairs (lit "X-Amz-Date")
  let expires ← uniqueQueryValue pairs (lit "X-Amz-Expires")
  let signature ← uniqueQueryValue pairs (lit "X-Amz-Signature")
  match truthy credential, truthy signedHeaders, truthy amzDate, truthy expires,
    truthy signature with
  | some credential, some signedHeaders, some amzDate, some expires, some _ =>
    let (sourceAccessKeyId, scope) ← parseCredential lib credential
    validateAmzDate lib amzDate scope
    require (isExpires expires) "Malformed AWS presigned query expiry"
    let signedHeaders ← parseSignedHeaders lib signedHeaders
    .ok ⟨.query, algorithm, sourceAccessKeyId, scope, signedHeaders, amzDate, some expires⟩
  | _, _, _, _, _ => .error "Malformed AWS presigned query"

def classifyRequest (url : PyStr) (headers : List Field) :
    Except String (SigningContext × SigningUrl) := do
  let authHeader ← uniqueHeaderValue lib headers (lit "authorization")
    "Malformed AWS authorization header"
  let signingUrl ← parseUrlForSigning lib url
  let queryAlgorithm ← uniqueQueryValue signingUrl.queryPairs (lit "X-Amz-Algorithm")
  match truthy authHeader, truthy queryAlgorithm with
  | some _, some _ => .error "Ambiguous AWS auth location"
  | none, some algorithm =>
    let context ← classifyQueryRequest lib signingUrl.queryPairs algorithm
    .ok (context, signingUrl)
  | some authHeader, none =>
    let context ← classifyHeaderRequest lib authHeader headers
    .ok (context, signingUrl)
  | none, none => .error "Missing AWS SigV4 auth metadata"

def validateSigningContext : Except String Unit := do
  require (context.algorithm ≠ asymmetricAlgorithm) "SigV4A is not supported by this runner"
  require (context.algorithm = hmacAlgorithm) "Unsupported AWS signing algorithm"
  require (context.scope.region ≠ lit "*") "Wildcard AWS signing region requires SigV4A"
  require (context.scope.service ≠ lit "s3express")
    "S3 Express signing is not supported by this runner"

def inspectRequest (url : PyStr) (headers : List Field) : Except String Inspection := do
  validateHeaders lib headers
  let (context, signingUrl) ← classifyRequest lib url headers
  validateSigningContext context
  let contentHash ← contentHashHeaderValue lib headers
  let requiresBody := contentHash.isNone &&
    !(decide (context.location = .query) && decide (context.scope.service ∈ s3SigningNames))
  .ok ⟨requiresBody, context, signingUrl⟩

/-! ### What is signed -/

/-- The loop of `_remove_dot_segments`. -/
def dotSegmentsLoop (segments : List PyStr) : List PyStr :=
  segments.foldl (fun output segment =>
    if segment = [] ∨ segment = lit "." then output
    else if segment = lit ".." then output.dropLast
    else output ++ [segment]) []

def removeDotSegments : PyStr :=
  if path = [] then lit "/"
  else
    let output := dotSegmentsLoop (path.splitOn (cp '/'))
    let leadingSlash := if path.head? = some (cp '/') then lit "/" else []
    let trailingSlash := if path.getLast? = some (cp '/') ∧ output ≠ [] then lit "/" else []
    leadingSlash ++ join (cp '/') output ++ trailingSlash

def canonicalUri (isS3 : Bool) : Except String PyStr :=
  let rawPath := if path = [] then lit "/" else path
  if isS3 then .ok rawPath else quoteUrlComponent (removeDotSegments rawPath) (lit "/~")

def canonicalQueryString : Except String PyStr := do
  let encoded ← pairs.mapM quotePair
  .ok (join (cp '&') ((encoded.insertionSort fun a b : Field => toLex a ≤ toLex b).map pairText))

/-- The values of a signed header. -/
def signedValues (headers : List Field) (name : PyStr) : List PyStr :=
  (headers.filter fun header => decide (lib.lower header.1 = name)).map fun header =>
    normalizeHeaderValue lib header.2

def canonicalHeaders (headers : List Field) (signedHeaders : List PyStr) :
    Except String (PyStr × PyStr) := do
  require (∀ name ∈ signedHeaders, signedValues lib headers name ≠ [])
    "AWS signed header is missing"
  let names := sortedNames signedHeaders
  let canonical := names.flatMap fun name =>
    name ++ cp ':' :: join (cp ',') (signedValues lib headers name) ++ [0x0A]
  .ok (canonical, join (cp ';') names)

def canonicalRequest (headers : List Field) (signedHeaders : List PyStr)
    (payloadHash : PyStr) (isS3 : Bool) : Except String (PyStr × PyStr) := do
  let canonicalUri ← canonicalUri url.parts.path isS3
  let canonicalQuery ← canonicalQueryString url.queryPairs
  let (canonicalHeaders, signedHeaderNames) ← canonicalHeaders lib headers signedHeaders
  .ok (join 0x0A [lib.upper method, canonicalUri, canonicalQuery, canonicalHeaders,
    signedHeaderNames, payloadHash], signedHeaderNames)

def hashRequestBody (body : Option (List ℕ)) : PyStr := (lib.sha256 (body.getD [])).hex

def payloadHash (headers : List Field) (body : Option (List ℕ))
    (precomputedBodyHash : Option PyStr) : Except String PyStr := do
  match ← contentHashHeaderValue lib headers with
  | some value => .ok value
  | none => .ok (precomputedBodyHash.getD (hashRequestBody lib body))

def queryPayloadHash (headers : List Field) (body : Option (List ℕ)) (isS3 : Bool)
    (precomputedBodyHash : Option PyStr) : Except String PyStr := do
  match ← contentHashHeaderValue lib headers with
  | some value => .ok value
  | none =>
    if isS3 then .ok (lit "UNSIGNED-PAYLOAD")
    else .ok (precomputedBodyHash.getD (hashRequestBody lib body))

def scopeString : PyStr :=
  join (cp '/') [scope.date, scope.region, scope.service, aws4Request]

def signingKey (secretAccessKey : PyStr) (scope : CredentialScope) : List ℕ :=
  let dateKey := (lib.hmac (utf8 (lit "AWS4" ++ secretAccessKey)) (utf8 scope.date)).bytes
  let regionKey := (lib.hmac dateKey (utf8 scope.region)).bytes
  let serviceKey := (lib.hmac regionKey (utf8 scope.service)).bytes
  (lib.hmac serviceKey (utf8 aws4Request)).bytes

def signature (canonicalRequest : PyStr) (credentials : Credentials) (scope : CredentialScope)
    (amzDate : PyStr) : Except String PyStr := do
  require (Utf8Encodable canonicalRequest) "AWS request contains invalid text"
  require (Utf8Encodable credentials.secretAccessKey) "Invalid AWS secret access key"
  let stringToSign := join 0x0A [hmacAlgorithm, amzDate, scopeString scope,
    (lib.sha256 (utf8 canonicalRequest)).hex]
  .ok (lib.hmac (signingKey lib credentials.secretAccessKey scope) (utf8 stringToSign)).hex

/-! ### Signing -/

def validateCredentials : Except String Unit := do
  require (isAccessKeyId credentials.accessKeyId) "Invalid AWS access key ID"
  require (credentials.secretAccessKey ≠ [] ∧ hasAsciiControl credentials.secretAccessKey = false ∧
    Utf8Encodable credentials.secretAccessKey) "Invalid AWS secret access key"
  require (∀ token ∈ credentials.sessionToken, token ≠ [] ∧ hasAsciiControl token = false ∧
    Utf8Encodable token) "Invalid AWS session token"

/-- The value of `Credential`. -/
def credentialText : PyStr :=
  credentials.accessKeyId ++ cp '/' :: scopeString scope

/-- The authorization header of `_sign_header_request`. -/
def authorizationText (signedHeaderNames signature : PyStr) : PyStr :=
  hmacAlgorithm ++ lit " Credential=" ++ credentialText credentials scope ++
    lit ", SignedHeaders=" ++ signedHeaderNames ++ lit ", Signature=" ++ signature

/-- The headers that `_sign_header_request` signs. -/
def cleanHeaders (headers : List Field) (host amzDate : PyStr) (sessionToken : Option PyStr) :
    List Field :=
  let clean := withoutHeaders lib headers [lit "authorization", lit "x-amz-security-token"]
  let clean := upsertHeader lib clean (lit "host") host
  let clean := upsertHeader lib clean (lit "x-amz-date") amzDate
  match truthy sessionToken with
  | none => clean
  | some token => upsertHeader lib clean (lit "x-amz-security-token") token

/-- The names that `_sign_header_request` signs. -/
def headerSignedNames (sessionToken : Option PyStr) (clean : List Field) : List PyStr :=
  let names := signedHeaders.filter fun name => decide (name ≠ lit "x-amz-security-token")
  let names := addName (addName names (lit "host")) (lit "x-amz-date")
  let names := if (truthy sessionToken).isSome then addName names (lit "x-amz-security-token")
    else names
  clean.foldl (fun names header =>
    if (lit "x-amz-").isPrefixOf (lib.lower header.1) then addName names (lib.lower header.1)
      else names) names

def signHeaderRequest (headers : List Field) (body : Option (List ℕ))
    (credentials : Credentials) (context : SigningContext) (isS3 : Bool)
    (precomputedBodyHash : Option PyStr) : Except String (PyStr × List Field) := do
  let payloadHash ← payloadHash lib headers body precomputedBodyHash
  let host ← hostHeaderValue lib url.parts
  let clean := cleanHeaders lib headers host context.amzDate credentials.sessionToken
  let signedHeaders := headerSignedNames lib context.signedHeaders credentials.sessionToken clean
  let (canonicalRequest, signedHeaderNames) ←
    canonicalRequest lib method url clean signedHeaders payloadHash isS3
  let signature ← signature lib canonicalRequest credentials context.scope context.amzDate
  let authorization := authorizationText credentials context.scope signedHeaderNames signature
  .ok (url.text, upsertHeader lib clean (lit "authorization") authorization)

/-- The signing pairs of `_replace_query_signing_params`. -/
def signingPairs (signature : Option PyStr) : List Field :=
  [(lit "X-Amz-Algorithm", hmacAlgorithm),
    (lit "X-Amz-Credential", credentialText credentials context.scope),
    (lit "X-Amz-Date", context.amzDate),
    (lit "X-Amz-Expires", (truthy context.expires).getD (lit "3600")),
    (lit "X-Amz-SignedHeaders", join (cp ';') (sortedNames signedHeaders))] ++
  ((truthy credentials.sessionToken).toList.map fun token => (lit "X-Amz-Security-Token", token)) ++
  ((truthy signature).toList.map fun signature => (lit "X-Amz-Signature", signature))

def replaceQueryPairs (pairs : List Field) : Except String SigningUrl := do
  let query ← encodeQueryPairs pairs
  let parts := { url.parts with query := query }
  .ok ⟨parts.geturl, parts, pairs⟩

/-- The pairs that are not signing metadata. -/
def otherPairs : List Field :=
  pairs.filter fun pair => decide (pair.1 ∉ querySigningParamNames)

def replaceQuerySigningParams (credentials : Credentials) (context : SigningContext)
    (signedHeaders : List PyStr) (signature : Option PyStr) : Except String SigningUrl :=
  replaceQueryPairs url (otherPairs url.queryPairs ++ signingPairs credentials context signedHeaders
    signature)

def signQueryRequest (headers : List Field) (body : Option (List ℕ))
    (credentials : Credentials) (context : SigningContext) (isS3 : Bool)
    (precomputedBodyHash : Option PyStr) : Except String (PyStr × List Field) := do
  let host ← hostHeaderValue lib url.parts
  let clean := upsertHeader lib
    (withoutHeaders lib headers [lit "authorization", lit "x-amz-security-token"]) (lit "host") host
  let signedHeaders := addName context.signedHeaders (lit "host")
  let payloadHash ← queryPayloadHash lib headers body isS3 precomputedBodyHash
  let unsignedUrl ← replaceQuerySigningParams url credentials context signedHeaders none
  let (canonicalRequest, signedHeaderNames) ←
    canonicalRequest lib method unsignedUrl clean signedHeaders payloadHash isS3
  let signature ← signature lib canonicalRequest credentials context.scope context.amzDate
  let signedUrl ← replaceQuerySigningParams url credentials context
    (signedHeaderNames.splitOn (cp ';')) (some signature)
  .ok (signedUrl.text, clean)

def signRequest (url : PyStr) (headers : List Field) (body : Option (List ℕ))
    (credentials : Credentials)
    (precomputedBodyHash : Option PyStr) : Except String (PyStr × List Field) := do
  validateCredentials credentials
  let inspection ← inspectRequest lib url headers
  require (inspection.context.sourceAccessKeyId ≠ credentials.accessKeyId)
    "AWS request must use a placeholder access key ID"
  let isS3 := decide (inspection.context.scope.service ∈ s3SigningNames)
  match inspection.context.location with
  | .query =>
    signQueryRequest lib method inspection.signingUrl headers body credentials inspection.context
      isS3
      precomputedBodyHash
  | .header =>
    signHeaderRequest lib method inspection.signingUrl headers body credentials inspection.context
      isS3
      precomputedBodyHash

end Library

end Okou.Aws
