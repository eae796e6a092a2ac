import Mathlib.Algebra.GroupWithZero.Nat
import Mathlib.Data.Prod.Lex
import Okou.Firewall.PathSecurity
import Okou.Firewall.Patterns

/-!
# Base URLs

`firewall_matching/base_url.py`: splitting and normalising a URL for matching,
compiling a base from the configuration, how specific a base is, and whether a
request lies under it.
-/

namespace Okou.Firewall

/-! ### Parts of a URL -/

structure BaseUrlParts where
  scheme : PyStr
  hostname : PyStr
  port : Option ℕ
  path : PyStr
  hostMalformed : Bool
  hasUserinfo : Bool
  portMalformed : Bool
  deriving DecidableEq, Repr

def BaseUrlParts.authority (parts : BaseUrlParts) : PyStr :=
  match parts.port with
  | none => parts.hostname
  | some port => parts.hostname ++ cp ':' :: decimal port

structure RawAuthorityHost where
  hostname : PyStr
  bracketed : Bool
  deriving DecidableEq, Repr

def hasBaseUrlParams (base : PyStr) : Bool := decide (cp '{' ∈ base ∧ cp '}' ∈ base)

def forbiddenAuthorityHostChars : PyStr := lit "#%/<>?@[\\]^|"

def percentDecodedAuthoritySyntaxChars : PyStr :=
  [cp '{', cp '}', cp '*', cp '.', 0x3002, 0xFF0E, 0xFF61]

section Normalisation

variable (py : PyLib) (host netloc : PyStr)

def hasAsciiSpaceOrControl (value : PyStr) : Bool :=
  value.any fun c => py.isSpace c || decide (c < 0x20) || decide (c = 0x7F)

def hasInvalidAuthorityHostChars (host : PyStr) (allowHostParams : Bool) : Bool :=
  let forbidden := if allowHostParams then forbiddenAuthorityHostChars
    else forbiddenAuthorityHostChars ++ [cp '{', cp '}']
  hasAsciiSpaceOrControl py host || host.any (· ∈ forbidden)

def translateIdnaDotSeparators (host : PyStr) : PyStr :=
  host.map fun c => if c = 0x3002 ∨ c = 0xFF0E ∨ c = 0xFF61 then cp '.' else c

/-- `normalize_hostname_separators`; `none` where it raises. -/
def normalizeHostnameSeparators (host : PyStr) : Option PyStr :=
  let normalized := translateIdnaDotSeparators host
  if normalized.getLast? = some (cp '.') then
    let normalized := normalized.dropLast
    if normalized = [] ∨ normalized.getLast? = some (cp '.') then none else some normalized
  else some normalized

/-- A run of percent escapes, and what follows it; `none` where an escape is broken. -/
def takePercentRun : PyStr → Option (PyStr × PyStr)
  | [] => some ([], [])
  | c :: rest =>
    if c ≠ cp '%' then some ([], c :: rest)
    else
      match rest with
      | a :: b :: rest =>
        if isHexDigit a && isHexDigit b then
          (takePercentRun rest).map fun (run, rest) => (c :: a :: b :: run, rest)
        else none
      | _ => none

/-- The loop of `percent_decode_host`: whether decoding a run brings in a syntax
character; `none` where a run does not decode. -/
def decodedSyntaxLoop (syntaxChars : PyStr) : ℕ → PyStr → Bool → Option Bool
  | 0, _, found => some found
  | fuel + 1, s, found =>
    match find (cp '%') s with
    | none => some found
    | some i =>
      match takePercentRun (s.drop i) with
      | none => none
      | some (run, rest) =>
        match py.unquoteUtf8 run with
        | none => none
        | some decoded =>
          decodedSyntaxLoop syntaxChars fuel rest (found || decoded.any (· ∈ syntaxChars))

/-- `percent_decode_host`: the value, and whether syntax was decoded; `none` for
`invalid_encoding`. -/
def percentDecodeHost (host syntaxChars : PyStr) : Option (PyStr × Bool) :=
  if cp '%' ∉ host then some (host, false)
  else
    match decodedSyntaxLoop py syntaxChars host.length host false with
    | none => none
    | some decodedSyntax => (py.unquoteUtf8 host).map fun value => (value, decodedSyntax)

def percentDecodeAuthorityHost (host : PyStr) : PyStr × Bool :=
  if cp '%' ∉ host then (host, false)
  else
    match percentDecodeHost py host percentDecodedAuthoritySyntaxChars with
    | none => (host, true)
    | some (value, decodedSyntax) =>
      if decodedSyntax then (translateIdnaDotSeparators value, true)
      else if cp ':' ∈ value then (value, true)
      else (value, false)

/-- The authority without its userinfo. -/
def hostPart (netloc : PyStr) : PyStr := (rpartition (cp '@') netloc).2

def extractRawHostname (netloc : PyStr) : Option RawAuthorityHost :=
  let authority := hostPart netloc
  if authority = [] then none
  else if authority.head? = some (cp '[') then
    match find (cp ']') authority with
    | none => none
    | some close =>
      let rest := authority.drop (close + 1)
      if rest ≠ [] ∧ rest.head? ≠ some (cp ':') then none
      else some ⟨(authority.take close).drop 1, true⟩
  else if authority.count (cp ':') = 1 then
    let host := authority.take (authority.idxOf (cp ':'))
    if host = [] then none else some ⟨host, false⟩
  else some ⟨authority, false⟩

def authorityHasEmptyPort (netloc : PyStr) : Bool :=
  let authority := hostPart netloc
  if authority.head? = some (cp '[') then
    match find (cp ']') authority with
    | none => false
    | some close => decide (authority.drop (close + 1) = lit ":")
  else if authority.count (cp ':') ≠ 1 then false
  else decide (authority.getLast? = some (cp ':'))

def isDefaultSchemePort (scheme : PyStr) (port : ℕ) : Bool :=
  let scheme := py.lower scheme
  decide (scheme = lit "http" ∧ port = 80 ∨ scheme = lit "https" ∧ port = 443)

/-- The marker of a greedy parameter as text. -/
def Greedy.text : Greedy → PyStr
  | .no => []
  | .plus => lit "+"
  | .star => lit "*"

/-- One label of `_normalize_parameterized_authority_host`, and whether it is
malformed. -/
def normalizeParameterizedLabel (label : PyStr) : PyStr × Bool :=
  match parseSegment label with
  | .literal value =>
    if cp '*' ∈ value then (py.lower value, true)
    else
      match py.normalizeIdnaHostname value with
      | none => (py.lower value, true)
      | some normalized => (normalized, false)
  | .error .. => (py.lower label, true)
  | .param pre name suf greedy =>
    (py.lower pre ++ cp '{' :: name ++ greedy.text ++ cp '}' :: py.lower suf,
      !isAscii pre || !isAscii suf || decide (cp '*' ∈ pre ∨ cp '*' ∈ suf))

/-- `_normalize_parameterized_authority_host`; `none` where it raises. -/
def normalizeParameterizedAuthorityHost (host : PyStr) : Option (PyStr × Bool) :=
  (normalizeHostnameSeparators host).map fun normalized =>
    let labels := (normalized.splitOn (cp '.')).map (normalizeParameterizedLabel py)
    (join (cp '.') (labels.map Prod.fst), labels.any Prod.snd)

/-- The IP address literals of `_normalize_authority_host`. -/
def normalizeIpHost (normalized : PyStr) : PyStr × Bool :=
  match py.ipAddress normalized with
  | none => (py.lower normalized, true)
  | some ip =>
    if ip.version ≠ 6 then (py.lower normalized, true)
    else (cp '[' :: py.lower ip.compressed ++ lit "]", false)

def normalizeAuthorityHost (rawHost : RawAuthorityHost) (allowHostParams : Bool) : PyStr × Bool :=
  let (normalized, percentMalformed) := percentDecodeAuthorityHost py rawHost.hostname
  if normalized = [] then (normalized, true)
  else if percentMalformed then (py.lower normalized, true)
  else if hasInvalidAuthorityHostChars py normalized allowHostParams ||
      (decide (cp '*' ∈ normalized) && !(allowHostParams && hasBaseUrlParams normalized)) then
    (py.lower normalized, true)
  else if rawHost.bracketed then normalizeIpHost py normalized
  else if cp ':' ∈ normalized then normalizeIpHost py normalized
  else if allowHostParams && hasBaseUrlParams normalized then
    (normalizeParameterizedAuthorityHost py normalized).getD (py.lower normalized, true)
  else
    match py.normalizeIdnaHostname normalized with
    | none => (py.lower normalized, true)
    | some host => (host, false)

def normalizeAuthority (scheme : PyStr) (host : Option RawAuthorityHost) (port : Option ℕ)
    (allowHostParams : Bool) : Option (PyStr × Option ℕ × Bool) :=
  host.map fun host =>
    let (normalizedHost, hostMalformed) := normalizeAuthorityHost py host allowHostParams
    let normalizedPort := port.filter fun port => !isDefaultSchemePort py scheme port
    (normalizedHost, normalizedPort, hostMalformed)

/-- The flags of `_split_base_match_url`. -/
structure SplitOptions where
  allowQueryFragment : Bool
  allowMalformedAuthority : Bool
  allowHostParams : Bool
  allowUnsafeRuntimeUrlSyntax : Bool
  allowRuntimeBackslashSyntax : Bool

def splitBaseMatchUrl (options : SplitOptions) (value : PyStr) : Option BaseUrlParts :=
  if !options.allowUnsafeRuntimeUrlSyntax &&
      hasUnsafeRuntimeUrlSyntax py value options.allowRuntimeBackslashSyntax then none
  else
    match py.urlsplit value with
    | none => none
    | some parts =>
      if parts.scheme = [] ∨ parts.netloc = [] then none
      else if !options.allowQueryFragment &&
        decide (parts.query ≠ [] ∨ parts.fragment ≠ []) then none
      else
        let hasUserinfo := parts.username.isSome || parts.password.isSome
        -- an empty port and one that does not parse are malformed alike
        let port := if authorityHasEmptyPort parts.netloc then none else parts.port
        if port.isNone && !options.allowMalformedAuthority then none
        else if hasUserinfo && !options.allowMalformedAuthority then none
        else
          match normalizeAuthority py parts.scheme (extractRawHostname parts.netloc)
              (port.getD none) options.allowHostParams with
          | none => none
          | some (hostname, normalizedPort, hostMalformed) =>
            if hostMalformed && !options.allowMalformedAuthority then none
            else
              some ⟨parts.scheme, hostname, normalizedPort, parts.path, hostMalformed, hasUserinfo,
                port.isNone⟩

end Normalisation

/-! ### Specificity -/

structure BaseSpecificity where
  path : ℕ
  authority : ℕ
  staticBonus : ℕ
  deriving DecidableEq, Repr

/-- The tuple a base specificity is in the source. -/
def BaseSpecificity.tuple (s : BaseSpecificity) : ℕ ×ₗ ℕ ×ₗ ℕ :=
  toLex (s.path, toLex (s.authority, s.staticBonus))

open BaseSpecificity

theorem BaseSpecificity.tuple_injective : Function.Injective tuple := by
  rintro ⟨p, a, s⟩ ⟨p', a', s'⟩ h
  simpa [tuple] using h

instance : LinearOrder BaseSpecificity :=
  LinearOrder.lift' BaseSpecificity.tuple BaseSpecificity.tuple_injective

def scoreBaseLiteralSegment (segment : PyStr) : ℕ := 1000 + segment.length

def scoreBasePatternSegment : ParsedSegment → ℕ
  | .literal value => scoreBaseLiteralSegment value
  | .error .. => 0
  | .param pre _ suf greedy =>
    if pre ≠ [] ∨ suf ≠ [] then 100 + (pre.length + suf.length)
    else
      match greedy with
      | .plus => 1
      | .star => 0
      | .no => 10

def scoreBaseSegments (segments : List ParsedSegment) : ℕ :=
  (segments.map scoreBasePatternSegment).sum

def splitBaseAuthoritySegments (authority : PyStr) : List PyStr :=
  if authority.head? = some (cp '[') then [authority]
  else if authority = [] then [] else authority.splitOn (cp '.')

def scoreStaticBaseSegments (segments : List PyStr) : ℕ :=
  (segments.map scoreBaseLiteralSegment).sum

def scoreStaticBasePath (path : PyStr) : ℕ :=
  if path = [] then 0
  else if path = lit "/" then 1
  else scoreStaticBaseSegments (splitPathSegments path)

def scoreBasePath (path : PyStr) (pathSegments : List ParsedSegment) : ℕ :=
  if path = [] then 0 else if path = lit "/" then 1 else scoreBaseSegments pathSegments

def baseSpecificity (parts : BaseUrlParts) (hasParams : Bool)
    (hostSegments pathSegments : List ParsedSegment) : BaseSpecificity :=
  if hasParams then ⟨scoreBasePath parts.path pathSegments, scoreBaseSegments hostSegments, 0⟩
  else
    ⟨scoreStaticBasePath parts.path,
      scoreStaticBaseSegments (splitBaseAuthoritySegments parts.authority), 1⟩

/-! ### Compiling a base -/

structure CompiledBase where
  raw : PyStr
  parts : BaseUrlParts
  hasParams : Bool
  specificity : BaseSpecificity
  hasQueryOrFragment : Bool
  rawSyntaxMalformed : Bool
  paramParseMalformed : Bool
  hostSegments : List ParsedSegment
  pathSegments : List ParsedSegment
  deriving DecidableEq

/-- One segment of `_compile_base_segments_for_match`, and whether it is malformed.
A malformed segment still matches whatever lies between its literals. -/
def compileBaseSegment (index : ℕ) (greedyAllowed : Bool) (segment : PyStr) :
    ParsedSegment × Bool :=
  match parseSegment segment with
  | .error _ pre suf => (.param pre (lit "__malformed_base_segment_" ++ decimal index) suf .no,
    true)
  | .param pre name suf greedy =>
    if greedy ≠ .no ∧ (greedyAllowed = false ∨ pre ≠ [] ∨ suf ≠ []) then (.param pre name suf .no,
      true)
    else (.param pre name suf greedy, false)
  | .literal value => (.literal value, false)

/-- `_compile_base_segments_for_match`, with greed allowed at the last index, as
both callers ask. -/
def compileBaseSegmentsForMatch (segments : List PyStr) : List ParsedSegment × Bool :=
  let compiled := segments.zipIdx.map fun (segment, index) =>
    compileBaseSegment index (decide (index = segments.length - 1)) segment
  (compiled.map Prod.fst, compiled.any Prod.snd)

/-- The loop of `_compiled_base_params_are_valid` over the host, from the left: the
parameter names so far, or `none` where it is invalid. -/
def baseHostParamsLoop (first : Bool) (names : List PyStr) : List ParsedSegment →
    Option (List PyStr)
  | [] => some names
  | .literal _ :: rest => baseHostParamsLoop false names rest
  | .error .. :: _ => none
  | .param pre name suf greedy :: rest =>
    if name ∈ names then none
    else if greedy ≠ .no ∧ first = false then none
    else if greedy ≠ .no ∧ (pre ≠ [] ∨ suf ≠ []) then none
    else baseHostParamsLoop false (name :: names) rest

/-- The loop of `_compiled_base_params_are_valid` over the path. -/
def basePathParamsLoop (names : List PyStr) : List ParsedSegment → Bool
  | [] => true
  | .literal _ :: rest => basePathParamsLoop names rest
  | .error .. :: _ => false
  | .param _ name _ greedy :: rest =>
    if greedy ≠ .no then false
    else if name ∈ names then false
    else basePathParamsLoop (name :: names) rest

/-- Whether a segment is a literal. -/
def ParsedSegment.isLiteral : ParsedSegment → Bool
  | .literal _ => true
  | _ => false

def compiledBaseParamsAreValid (base : CompiledBase) : Bool :=
  if !base.hasParams then true
  else
    let hostSegments := base.hostSegments.reverse
    if hostSegments.length < 2 then false
    else
      match baseHostParamsLoop true [] hostSegments with
      | none => false
      | some names => hostSegments.any ParsedSegment.isLiteral &&
        basePathParamsLoop names base.pathSegments

section Compile

variable (py : PyLib)

def compileBase (rawBase : PyStr) : Option CompiledBase :=
  let base := stripOptionalTerminalSlash rawBase
  if base = [] then none
  else
    let hasParams := hasBaseUrlParams base
    match py.urlsplit base with
    | none => none
    | some parsed =>
      let rawSyntaxMalformed := decide (cp '\\' ∈ base) || hasRawWhitespace base ||
        hasUnsafeUrlCodepoint py base || decide (py.lower parsed.scheme ∉ [lit "http", lit "https"])
      let hasQueryOrFragment := decide (parsed.query ≠ [] ∨ parsed.fragment ≠ [])
      match splitBaseMatchUrl py ⟨true, true, hasParams, true, false⟩ base with
      | none => none
      | some parts =>
        let (hostSegments, hostMalformed) := if hasParams then
            compileBaseSegmentsForMatch (parts.hostname.splitOn (cp '.')).reverse
          else ([], false)
        let (pathSegments, pathMalformed) := if hasParams then
            compileBaseSegmentsForMatch (splitPathSegments parts.path)
          else ([], false)
        some ⟨base, parts, hasParams, baseSpecificity parts hasParams hostSegments pathSegments,
          hasQueryOrFragment, rawSyntaxMalformed, hostMalformed || pathMalformed, hostSegments,
          pathSegments⟩

/-- `_compile_firewall_config_base`: the base, and whether it is malformed. -/
def compileFirewallConfigBase (rawBase : PyStr) : Option (CompiledBase × Bool) :=
  (compileBase py rawBase).map fun base =>
    (base, base.hasQueryOrFragment || base.rawSyntaxMalformed || base.paramParseMalformed ||
      base.parts.hostMalformed || base.parts.hasUserinfo || base.parts.portMalformed ||
      hasUnsafeUrlPath py rawBase || !compiledBaseParamsAreValid base)

/-! ### Matching a base -/

/-- `_match_compiled_base_url_parts`: the path below the base, and the parameters. -/
def matchCompiledBaseUrlParts (urlParts : BaseUrlParts) (base : CompiledBase) :
    Option (PyStr × Params) :=
  if !base.hasParams then
    if py.lower urlParts.scheme ≠ py.lower base.parts.scheme then none
    else if py.lower urlParts.authority ≠ py.lower base.parts.authority then none
    else
      let basePath := base.parts.path
      if basePath ≠ [] ∧ basePath.isPrefixOf urlParts.path = false then none
      else
        let rest := urlParts.path.drop basePath.length
        if rest ≠ [] ∧ rest.head? ≠ some (cp '/') then none
        else some (if rest = [] then lit "/" else rest, [])
  else if py.lower urlParts.scheme ≠ py.lower base.parts.scheme then none
  else if urlParts.port ≠ base.parts.port then none
  else
    match matchCompiledHost py urlParts.hostname base.hostSegments with
    | none => none
    | some hostParams =>
      if base.parts.path ≠ [] ∧ base.parts.path ≠ lit "/" then
        (matchCompiledPathPrefixText urlParts.path base.pathSegments).map
          fun (pathParams, relPath) =>
          (relPath, dictMerge hostParams pathParams)
      else some (if urlParts.path = [] then lit "/" else urlParts.path, hostParams)

/-- Under a static base: same scheme, same authority, and the segments of the
base's path start those of the request. -/
theorem static_match_segments {urlParts base} (hstat : base.hasParams = false)
    {result} (hmatch : matchCompiledBaseUrlParts py urlParts base = some result) :
    py.lower urlParts.scheme = py.lower base.parts.scheme ∧
    py.lower urlParts.authority = py.lower base.parts.authority ∧
    splitPathSegments base.parts.path <+: splitPathSegments urlParts.path := by
  unfold matchCompiledBaseUrlParts at hmatch
  simp only [hstat, Bool.not_false, if_true, Option.ite_none_left_eq_some] at hmatch
  obtain ⟨hsch, hauth, hbase, hrest, _⟩ := hmatch
  refine ⟨not_not.mp hsch, not_not.mp hauth, ?_⟩
  have hpre : base.parts.path <+: urlParts.path := by
    by_cases hempty : base.parts.path = []
    · rw [hempty]
      exact List.nil_prefix
    · have hnot := not_and.mp hbase hempty
      exact List.isPrefixOf_iff_prefix.mp (Bool.eq_true_of_not_eq_false hnot)
  -- the request is the base's path and a rest that is empty or starts at a slash
  obtain ⟨rest, hpath⟩ := hpre
  rw [← hpath] at hrest ⊢
  rw [List.drop_left] at hrest
  refine splitPathSegments_append ?_
  by_cases hempty : rest = []
  · exact .inl hempty
  · exact .inr (not_not.mp (not_and.mp hrest hempty))

end Compile

end Okou.Firewall
