import Mathlib.Data.List.DropRight
import Okou.Firewall.BaseUrl

/-!
# Rewriting a request to its trusted base

`auth_base_rewrite.py`: a request that a firewall sends to another base is rewritten to a
URL that is built from the resolved base, the path below the firewall's base, and three
queries: that of the base, that of the request, and the pairs that the authentication
adds.
-/

namespace Okou.Rewrite

open Firewall

/-! ### Queries -/

/-- `_QueryPair`: the separator before a pair, and the pair as it is written. -/
abbrev QueryPair := PyStr × PyStr

/-- Where `_split_query_pairs` splits. -/
def isSeparator (c : ℕ) : Bool := c == cp '&' || c == cp ';'

/-- The loop of `_split_query_pairs`. -/
def splitPairsLoop (separator current : PyStr) : PyStr → List QueryPair
  | [] => [(separator, current)]
  | c :: query =>
    if isSeparator c then (separator, current) :: splitPairsLoop [c] [] query
    else splitPairsLoop separator (current ++ [c]) query

variable (query : PyStr) (pairs : List QueryPair) (baseQuery : PyStr) (blockedKeys : List PyStr)
  (pair : QueryPair) (origQuery : PyStr)

def splitQueryPairs : List QueryPair :=
  if query = [] then [] else splitPairsLoop [] [] query

def queryPairKey : PyStr := unquotePlus (partition (cp '=') pair.2).1

def queryPairKeys : List PyStr :=
  (pairs.filter fun pair => decide (pair.2 ≠ [])).map queryPairKey

/-- `while filtered and not filtered[-1][1]: filtered.pop()`. -/
def dropTrailingEmpty : List QueryPair :=
  pairs.rdropWhile fun pair => decide (pair.2 = [])

/-- One pass of the loop of `_filter_query_pairs`; the state has the pairs that were kept,
and whether one was removed since the last that was kept. -/
def filterStep (state : List QueryPair × Bool) (pair : QueryPair) : List QueryPair × Bool :=
  let (filtered, removedSinceLastKept) := state
  if pair.2 = [] then
    if removedSinceLastKept then (filtered, removedSinceLastKept)
    else (filtered ++ [pair], removedSinceLastKept)
  else if queryPairKey pair ∈ blockedKeys then (dropTrailingEmpty filtered, true)
  else
    let separator := if removedSinceLastKept && decide (filtered ≠ []) then [cp '&'] else pair.1
    (filtered ++ [(separator, pair.2)], false)

def filterQueryPairs : List QueryPair :=
  if blockedKeys = [] then pairs else (pairs.foldl (filterStep blockedKeys) ([], false)).1

/-- A pair after the first one, with its separator. -/
def joinedPair : PyStr := (if pair.1 = [] then [cp '&'] else pair.1) ++ pair.2

def joinQueryPairs : List QueryPair → PyStr
  | [] => []
  | pair :: pairs => pair.2 ++ pairs.flatMap joinedPair

def dropLeadingSeparator : List QueryPair → List QueryPair
  | [] => []
  | pair :: pairs => ([], pair.2) :: pairs

def joinQuerySources (sources : List (List QueryPair)) : PyStr :=
  let sourceQueries := (sources.filter fun source => decide (source ≠ [])).map fun source =>
    joinQueryPairs (dropLeadingSeparator source)
  join (cp '&') (sourceQueries.filter fun query => decide (query ≠ []))

/-- The pairs of the authentication: a `dict`, whose keys are distinct.  `None` and an
empty one are treated alike. -/
structure QueryDict where
  entries : List (PyStr × PyStr)
  nodup_keys : (entries.map Prod.fst).Nodup

variable (resolvedQuery : QueryDict)

/-- The keys of a `dict`. -/
def QueryDict.keys (query : QueryDict) : List PyStr := query.entries.map Prod.fst

/-- One entry of `urllib.parse.urlencode`. -/
def urlencodeEntry (entry : PyStr × PyStr) : Option PyStr :=
  match quotePlus entry.1, quotePlus entry.2 with
  | some key, some value => some (key ++ cp '=' :: value)
  | _, _ => none

/-- `_encode_query_pairs`; `none` where a surrogate cannot be encoded. -/
def encodeQueryPairs (query : QueryDict) : Option (List QueryPair) :=
  if query.entries = [] then some []
  else (query.entries.mapM urlencodeEntry).map fun encoded =>
    splitQueryPairs (join (cp '&') encoded)

/-! ### Errors -/

/-- What is raised. -/
inductive RewriteError
  /-- `AuthBaseQueryTooManyPairsError`. -/
  | tooManyPairs (message : String)
  /-- `ValueError`, with a message of this module. -/
  | value (message : String)
  /-- `ValueError` of `urlsplit` or of the port, with a message of the library. -/
  | library
  /-- `UnicodeEncodeError` of `urlencode`. -/
  | unicode
  deriving DecidableEq, Repr

/-- The error of the pair budget. -/
def tooManyPairs : RewriteError := .tooManyPairs "auth.base rewritten query has too many pairs"

def maxAuthBaseQueryPairs : ℤ := 8 * 1024

/-- The loop of `_consume_query_pair_budget`. -/
def consumeLoop : PyStr → ℤ → Except RewriteError ℤ
  | [], remainingPairs => .ok remainingPairs
  | c :: query, remainingPairs =>
    if isSeparator c then
      if remainingPairs - 1 < 0 then .error tooManyPairs else consumeLoop query (remainingPairs - 1)
    else consumeLoop query remainingPairs

def consumeQueryPairBudget (remainingPairs : ℤ) : Except RewriteError ℤ :=
  if query = [] then .ok remainingPairs
  else if remainingPairs - 1 < 0 then .error tooManyPairs
  else consumeLoop query (remainingPairs - 1)

def validateRewriteQueryPairCount : Except RewriteError Unit :=
  let remainingPairs := maxAuthBaseQueryPairs - resolvedQuery.entries.length
  if remainingPairs < 0 then .error tooManyPairs
  else
    match consumeQueryPairBudget origQuery remainingPairs with
    | .error e => .error e
    | .ok remainingPairs => (consumeQueryPairBudget baseQuery remainingPairs).map fun _ => ()

def mergeRewriteQuery : Except RewriteError PyStr :=
  if baseQuery = [] ∧ resolvedQuery.entries = [] then .ok origQuery
  else
    match validateRewriteQueryPairCount baseQuery origQuery resolvedQuery with
    | .error e => .error e
    | .ok () =>
      let authKeys := resolvedQuery.keys
      let filteredBasePairs := filterQueryPairs (splitQueryPairs baseQuery) authKeys
      let blockedOrigKeys := authKeys ++ queryPairKeys filteredBasePairs
      let filteredOrigPairs := filterQueryPairs (splitQueryPairs origQuery) blockedOrigKeys
      match encodeQueryPairs resolvedQuery with
      | none => .error .unicode
      | some authPairs => .ok (joinQuerySources [filteredBasePairs, filteredOrigPairs, authPairs])

/-! ### The base -/

def maxResolvedAuthBaseCharacters : ℕ := 8 * 1024

def percentDecodedHostSyntaxChars : PyStr :=
  [cp '{', cp '}', cp '.', 0x3002, 0xFF0E, 0xFF61, cp ',']

def forbiddenHostChars : PyStr := lit "#%*,/<>?@[\\]^|" ++ [cp '{', cp '}']

def rawAuthorityHost (netloc : PyStr) : Option RawAuthorityHost :=
  let authority := hostPart netloc
  if authority.head? = some (cp '[') then
    match find (cp ']') authority with
    | none => none
    | some close =>
      let rest := authority.drop (close + 1)
      let hostname := (authority.take close).drop 1
      if rest ≠ [] ∧ rest.head? ≠ some (cp ':') then none
      else if hostname = [] then none
      else some ⟨hostname, true⟩
  else if 1 < authority.count (cp ':') then none
  else if cp ':' ∈ authority then
    match (rpartition (cp ':') authority).1 with
    | none => none
    | some hostname => if hostname = [] then none else some ⟨hostname, false⟩
  else if authority = [] then none
  else some ⟨authority, false⟩

section Library

variable (py : PyLib) (resolvedBase host : PyStr)

def bracketedAuthorityHostIsIpv6 (netloc : PyStr) : Bool :=
  match rawAuthorityHost netloc with
  | none => false
  | some rawHost =>
    if !rawHost.bracketed then true
    else
      match py.ipAddress rawHost.hostname with
      | none => false
      | some parsed => decide (parsed.version = 6)

/-- `normalize_hostname`; `none` where it raises. -/
def normalizeHostname (host : PyStr) : Option PyStr :=
  if cp ':' ∈ host then
    if cp '%' ∈ host then none
    else
      match py.ipAddress host with
      | none => none
      | some parsed => if parsed.version = 6 then some (py.lower parsed.compressed) else none
  else if hasAsciiSpaceOrControl py host || host.any (· ∈ forbiddenHostChars) then none
  else py.normalizeIdnaHostname host

def formatUrlHost (host : PyStr) : PyStr :=
  let candidate := if host.head? = some (cp '[') ∧ host.getLast? = some (cp ']') then
      (host.drop 1).dropLast else host
  if cp ':' ∉ candidate then host
  else
    match py.ipAddress candidate with
    | none => host
    | some parsed => if parsed.version = 6 then cp '[' :: candidate ++ [cp ']'] else candidate

/-- `_percent_decode_host` of this module. -/
def decodeRewriteHost (host : PyStr) : Except RewriteError PyStr :=
  match percentDecodeHost py host percentDecodedHostSyntaxChars with
  | none => .error (.value "Invalid auth.base URL: host has invalid percent encoding")
  | some (value, decodedSyntax) =>
    if decodedSyntax then .error (.value "Invalid auth.base URL: host has unsafe percent encoding")
    else .ok value

/-- The checks of `_validated_rewrite_base` on the text, before it is split. -/
def checkBaseText (resolvedBase : PyStr) : Except RewriteError Unit :=
  if maxResolvedAuthBaseCharacters < resolvedBase.length then
    .error (.value "Invalid auth.base URL: must not exceed 8192 characters")
  else if cp '\\' ∈ resolvedBase then
    .error (.value "Invalid auth.base URL: must not contain backslash")
  else if hasRawWhitespace resolvedBase then
    .error (.value "Invalid auth.base URL: must not contain whitespace")
  else if hasUnsafeUrlCodepoint py resolvedBase then
    .error (.value "Invalid auth.base URL: must not contain control characters or invalid Unicode")
  else .ok ()

/-- The checks of `_validated_rewrite_base` on the parts. -/
def checkBaseParts (parsed : SplitResult) : Except RewriteError Unit :=
  if py.lower parsed.scheme ≠ lit "https" then
    .error (.value "Invalid auth.base URL: scheme must be https")
  else if parsed.netloc = [] then .error (.value "Invalid auth.base URL: missing host")
  else if parsed.username.isSome || parsed.password.isSome then
    .error (.value "Invalid auth.base URL: userinfo is not allowed")
  else if !bracketedAuthorityHostIsIpv6 py parsed.netloc then
    .error (.value "Invalid auth.base URL: invalid host")
  else if authorityHasEmptyPort parsed.netloc then
    .error (.value "Invalid auth.base URL: invalid port")
  else if parsed.fragment ≠ [] then .error
    (.value "Invalid auth.base URL: must not contain fragment")
  else if hasUnsafePath py parsed.path then
    .error (.value "Invalid auth.base URL: unsafe path syntax is not allowed")
  else .ok ()

/-- The authority that `_validated_rewrite_base` returns. -/
def rewriteAuthority (parsed : SplitResult) : Except RewriteError PyStr :=
  match rawAuthorityHost parsed.netloc with
  | none => .error (.value "Invalid auth.base URL: missing host")
  | some host =>
    match decodeRewriteHost py host.hostname with
    | .error e => .error e
    | .ok decodedHost =>
      match normalizeHostname py decodedHost with
      | none => .error (.value "Invalid auth.base URL: invalid host")
      | some normalizedHost =>
        match parsed.port with
        | none => .error .library
        | some none => .ok (formatUrlHost py normalizedHost)
        | some (some port) => .ok (formatUrlHost py normalizedHost ++ cp ':' :: decimal port)

def validatedRewriteBase (resolvedBase : PyStr) : Except RewriteError (SplitResult × PyStr) :=
  match checkBaseText py resolvedBase with
  | .error e => .error e
  | .ok () =>
    match py.urlsplit resolvedBase with
    | none => .error .library
    | some parsed =>
      match checkBaseParts py parsed with
      | .error e => .error e
      | .ok () => (rewriteAuthority py parsed).map fun authority => (parsed, authority)

/-! ### The URL -/

def urlPathSafeChars : PyStr := lit "/%:@!$&'()*+,;="

def urlQuerySafeChars : PyStr := lit "/?%:@!$&'()*+,;="

def quoteUrlPart (value safe : PyStr) : Except RewriteError PyStr :=
  match quote safe value with
  | none => .error (.value "Invalid auth.base URL: contains invalid unicode")
  | some quoted => .ok quoted

/-- The components that `build_rewrite_url` puts together. -/
structure RewriteUrl where
  scheme : PyStr
  authority : PyStr
  path : PyStr
  query : PyStr
  deriving DecidableEq, Repr

/-- `urllib.parse.urlunsplit`, for a scheme and an authority that are not empty and without a
fragment. -/
def RewriteUrl.text (url : RewriteUrl) : PyStr :=
  let path := if url.path ≠ [] ∧ url.path.head? ≠ some (cp '/') then cp '/' :: url.path
    else url.path
  let query := if url.query = [] then [] else cp '?' :: url.query
  url.scheme ++ lit "://" ++ url.authority ++ path ++ query

def buildRewriteUrl (resolvedBase relPath origQuery : PyStr) (resolvedQuery : QueryDict) :
    Except RewriteError RewriteUrl :=
  if hasUnsafePath py relPath then
    .error (.value "Unsafe rewrite path: unsafe path syntax is not allowed")
  else
    match validatedRewriteBase py resolvedBase with
    | .error e => .error e
    | .ok (baseParsed, baseAuthority) =>
      let basePath := if relPath ≠ lit "/" then stripOptionalTerminalSlash baseParsed.path ++
        relPath
        else baseParsed.path
      match mergeRewriteQuery baseParsed.query origQuery resolvedQuery with
      | .error e => .error e
      | .ok mergedQs =>
        match quoteUrlPart basePath urlPathSafeChars, quoteUrlPart mergedQs urlQuerySafeChars with
        | .error e, _ => .error e
        | _, .error e => .error e
        | .ok encodedBasePath, .ok encodedQuery =>
          .ok ⟨baseParsed.scheme, baseAuthority, encodedBasePath, encodedQuery⟩

end Library

end Okou.Rewrite
