import Okou.Firewall.RuleIndex

/-!
# Rules against a request

`matching.py`, the request side of a rule: its method, its path, and its AWS
predicates against the signing service, the query, the headers and the body.
-/

namespace Okou.Firewall

/-! ### Requests -/

/-- `FirewallRequestContext`; the body is a list of bytes. -/
structure FirewallRequestContext where
  headers : List (PyStr × PyStr)
  body : Option (List ℕ)
  awsInspectionAvailable : Bool

structure AwsFormActionResult where
  values : List PyStr
  inspectable : Bool

/-- What the matcher reads of a request besides its path.  The source computes the
query, the service and the form on demand, once. -/
structure RequestView where
  upperMethod : PyStr
  queryPairs : List (PyStr × PyStr)
  sigv4Service : Option PyStr
  formActionResult : AwsFormActionResult
  headers : Option (List (PyStr × PyStr))

section Headers

variable (py : PyLib) (headers : Option (List (PyStr × PyStr)))

def uniqueHeaderValue (headers : Option (List (PyStr × PyStr))) (name : PyStr) : Option PyStr :=
  match headers with
  | none => none
  | some headers =>
    match headers.filter fun header => py.lower header.1 = name with
    | [header] => some header.2
    | _ => none

def hasHeader (headers : Option (List (PyStr × PyStr))) (name : PyStr) : Bool :=
  (headers.getD []).any fun header => py.lower header.1 = name

def awsS3PermissionHeaderQueryKeys : List (PyStr × List PyStr) :=
  [(lit "x-amz-acl", [lit "acl"]), (lit "x-amz-grant-full-control", [lit "acl"]),
    (lit "x-amz-grant-read", [lit "acl"]), (lit "x-amz-grant-read-acp", [lit "acl"]),
    (lit "x-amz-grant-write", [lit "acl"]), (lit "x-amz-grant-write-acp", [lit "acl"]),
    (lit "x-amz-object-lock-legal-hold", [lit "legal-hold"]),
    (lit "x-amz-object-lock-mode", [lit "retention"]),
    (lit "x-amz-object-lock-retain-until-date", [lit "retention"]),
    (lit "x-amz-tagging", [lit "tagging"])]

def hasAmbiguousS3PermissionHeader (headers : Option (List (PyStr × PyStr)))
    (queryRequirements : List QueryRequirement) : Bool :=
  let requiredQueryKeys := queryRequirements.map Prod.fst
  (headers.getD []).any fun header =>
    let normalizedName := py.lower header.1
    decide (normalizedName = lit "x-amz-bypass-governance-retention") ||
      match dictGet normalizedName awsS3PermissionHeaderQueryKeys with
      | none => false
      | some allowedQueryKeys => allowedQueryKeys.all (· ∉ requiredQueryKeys)

def queryValues (queryPairs : List (PyStr × PyStr)) (name : PyStr) : List PyStr :=
  (queryPairs.filter fun pair => pair.1 = name).map Prod.snd

/-- One part of a `content-length` value: not a number, or not zero. -/
def lengthPartMayHaveBody (part : PyStr) : Bool :=
  let stripped := strip (fun c => decide (c = cp ' ' ∨ c = 0x09)) part
  decide (stripped = []) || !stripped.all (fun c => decide (cp '0' ≤ c ∧ c ≤ cp '9')) ||
    stripped.any (· ≠ cp '0')

def contentLengthMayHaveBody (headers : Option (List (PyStr × PyStr))) : Bool :=
  (headers.getD []).any fun header =>
    decide (py.lower header.1 = lit "content-length") &&
      (header.2.splitOn (cp ',')).any lengthPartMayHaveBody

def awsFormBodyMaxBytes : ℕ := 64 * 1024

def formActionValues (headers : Option (List (PyStr × PyStr))) (body : Option (List ℕ)) :
    AwsFormActionResult :=
  match body with
  | none =>
    if hasHeader py headers (lit "transfer-encoding") || contentLengthMayHaveBody py headers then
      ⟨[], false⟩
    else ⟨[], true⟩
  | some [] => if contentLengthMayHaveBody py headers then ⟨[], false⟩ else ⟨[], true⟩
  | some body =>
    match (headers.getD []).filter fun header => py.lower header.1 = lit "content-type" with
    | [contentType] =>
      let mediaType := py.lower (strip py.isSpace (partition (cp ';') contentType.2).1)
      if mediaType ≠ lit "application/x-www-form-urlencoded" then ⟨[], false⟩
      else if awsFormBodyMaxBytes < body.length then ⟨[], false⟩
      else
        match py.parseForm body with
        | none => ⟨[], false⟩
        | some pairs => ⟨queryValues pairs (lit "Action"), true⟩
    | _ => ⟨[], false⟩

end Headers

/-! ### AWS predicates -/

def awsQueryActionMatches (action : PyStr) (queryPairs : List (PyStr × PyStr))
    (form : AwsFormActionResult) : Bool :=
  let queryActions := queryValues queryPairs (lit "Action")
  if !form.inspectable then false
  else
    match queryActions with
    | [queryAction] =>
      if form.values ≠ [] ∧ form.values ≠ queryActions then false else decide (queryAction = action)
    | [] =>
      match form.values with
      | [formAction] => decide (formAction = action)
      | _ => false
    | _ => false

/-- `_AWS_IGNORED_QUERY_KEYS`, in lower case as the source keeps them. -/
def awsIgnoredQueryKeys : List PyStr :=
  [lit "partnumber", lit "bucket-region", lit "continuation-token", lit "delimiter",
    lit "encoding-type", lit "fetch-owner", lit "key-marker", lit "marker", lit "max-buckets",
    lit "max-directory-buckets", lit "max-keys", lit "max-parts", lit "max-uploads",
    lit "part-number-marker", lit "prefix", lit "response-cache-control",
    lit "response-content-disposition", lit "response-content-encoding",
    lit "response-content-language", lit "response-content-type", lit "response-expires",
    lit "start-after", lit "upload-id-marker", lit "version-id-marker", lit "x-amz-algorithm",
    lit "x-amz-credential", lit "x-amz-date", lit "x-amz-expires", lit "x-amz-signedheaders",
    lit "x-amz-security-token", lit "x-amz-signature", lit "x-id"]

section Query

variable (py : PyLib)

variable (rule : CompiledRule) (queryPairs : List (PyStr × PyStr))
  (requiredKeys relPathSegs : List PyStr) (request : RequestView)

/-- `_query_has_only_required_or_ignored_aws_keys`, and with no required keys
`_query_has_only_ignored_aws_keys`. -/
def queryHasOnlyRequiredOrIgnoredAwsKeys : Bool :=
  queryPairs.all fun pair =>
    decide (pair.1 ∈ requiredKeys) || decide (py.lower pair.1 ∈ awsIgnoredQueryKeys)

def queryHasNoExtraAwsSelectorKeys (selectorKeys : List PyStr) : Bool :=
  selectorKeys.isEmpty ||
    queryPairs.all fun pair => decide (pair.1 ∈ requiredKeys) || decide (pair.1 ∉ selectorKeys)

/-- One requirement of `_aws_query_requirements_match`. -/
def awsQueryRequirementMatches (strictExtraKeys : Bool) (requirement : QueryRequirement) : Bool :=
  let values := queryValues queryPairs requirement.1
  match requirement.2 with
  | none => decide (values = [[]])
  | some expected =>
    if expected = lit "*" then
      decide (values ≠ []) && values.all (· ≠ []) &&
        (!strictExtraKeys || decide (values.length = 1))
    else decide (values = [expected])

def awsQueryRequirementsMatch (queryRequirements : List QueryRequirement)
    (queryPairs : List (PyStr × PyStr)) (selectorKeys : List PyStr) (strictExtraKeys : Bool) :
      Bool :=
  let requiredKeys := queryRequirements.map Prod.fst
  (queryRequirements.all (awsQueryRequirementMatches queryPairs strictExtraKeys)) &&
    if strictExtraKeys then queryHasOnlyRequiredOrIgnoredAwsKeys py queryPairs requiredKeys
    else queryHasNoExtraAwsSelectorKeys queryPairs requiredKeys selectorKeys

def awsPredicatesMatch : Bool :=
  match rule.awsPredicates with
  | none => true
  | some predicates =>
    if request.sigv4Service ≠ some predicates.sigv4 then false
    else if predicates.action.any fun action =>
        !awsQueryActionMatches action request.queryPairs request.formActionResult then false
    else if predicates.target.any fun target =>
        decide (uniqueHeaderValue py request.headers (lit "x-amz-target") ≠ some target) then false
    else
      let isS3 := decide (predicates.sigv4 = lit "s3")
      if isS3 && hasHeader py request.headers (lit "x-amz-copy-source") then false
      else if isS3 && hasAmbiguousS3PermissionHeader py request.headers
        rule.queryRequirements then false
      else
        awsQueryRequirementsMatch py rule.queryRequirements request.queryPairs
          rule.awsQuerySelectorKeys isS3

def ruleRequestParams : Option Params :=
  if !rule.method.covers request.upperMethod then none
  else
    match matchCompiledPathSegments relPathSegs rule.path with
    | none => none
    | some params =>
      match rule.awsPredicates with
      | none => some params
      | some predicates =>
        if request.sigv4Service ≠ some predicates.sigv4 then none
        else if !awsPredicatesMatch py rule request then none
        else some params

/-! ### Does a rule match? -/

/-- The test of `_collect_rule_routes` on a rule whose method covers the request. -/
def ruleRoutes : Bool :=
  match rule.awsPredicates with
  | none => compiledPathSegmentsMatch relPathSegs rule.path
  | some _ => (ruleRequestParams py rule relPathSegs request).isSome

/-- A rule matches a request: method, path and AWS predicates. -/
def ruleMatches : Bool :=
  rule.method.covers request.upperMethod &&
    (matchCompiledPathSegments relPathSegs rule.path).isSome && awsPredicatesMatch py rule request

/-- With or without AWS predicates, `_rule_request_params` finds parameters exactly
when the rule matches. -/
theorem ruleRequestParams_isSome :
    (ruleRequestParams py rule relPathSegs request).isSome = ruleMatches py rule relPathSegs
      request := by
  unfold ruleRequestParams ruleMatches
  cases hmeth : rule.method.covers request.upperMethod with
  | false => rfl
  | true =>
    cases hpath : matchCompiledPathSegments relPathSegs rule.path with
    | none => rfl
    | some params =>
      cases haws : rule.awsPredicates with
      | none => simp [awsPredicatesMatch, haws]
      | some predicates =>
        -- the service is asked for twice, with the same answer
        by_cases hserv : request.sigv4Service = some predicates.sigv4
        · cases hmatch : awsPredicatesMatch py rule request <;> simp [hserv]
        · simp [awsPredicatesMatch, haws, hserv]

variable {relPathSegs : List PyStr} {request : RequestView}

/-- The parameters of a matching rule are those of its path. -/
theorem ruleRequestParams_eq {rule}
    {params} (h : ruleRequestParams py rule relPathSegs request = some params) :
    matchCompiledPathSegments relPathSegs rule.path = some params := by
  unfold ruleRequestParams at h
  split at h
  · simp at h
  · split at h
    · simp at h
    · next hpath =>
      rw [hpath]
      split at h
      · exact h
      · split_ifs at h
        exact h

theorem ruleRoutes_eq (hmeth : rule.method.covers request.upperMethod) :
    ruleRoutes py rule relPathSegs request = ruleMatches py rule relPathSegs request := by
  unfold ruleRoutes
  split
  · next haws =>
    rw [compiledPathSegmentsMatch_eq, ruleMatches, hmeth]
    simp [awsPredicatesMatch, haws]
  · exact ruleRequestParams_isSome py rule relPathSegs request

/-- A rule that matches has literals that start the path. -/
theorem reachable_of_ruleMatches {entry : CompiledRuleEntry}
    (h : ruleMatches py entry.rule relPathSegs request) : entry.reachable relPathSegs := by
  simp only [ruleMatches, Bool.and_eq_true] at h
  obtain ⟨params, hpar⟩ := Option.isSome_iff_exists.mp h.1.2
  exact decide_eq_true (literalPrefix_of_match hpar)

end Query

end Okou.Firewall
