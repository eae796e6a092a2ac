import Mathlib.Data.List.Lex
import Okou.Firewall.ApiIndex
import Okou.Firewall.AwsMatch

/-!
# Deciding a request

`matching.py`, the match phase.  A first pass collects the APIs whose base the
request lies under, keeps those with the most specific base, and among their
rules finds the most specific that match.  Then an owner is selected, and a second
pass evaluates the winning rules of that owner's APIs against the policies.

The same code serves two callers: one hands in the candidates of the API index
and looks rules up in the rule index, the other hands in everything.
-/

namespace Okou.Firewall

open FirewallRequestContext

/-! ### Decisions -/

structure FirewallAllow where
  apiEntry : PyDict
  name : PyStr
  permission : Option PyStr
  params : Params
  rule : Option PyStr
  relPath : PyStr

inductive FirewallBlockReason
  | permissionDenied
  | unknownEndpoint
  | malformedFirewallConfig
  | malformedNetworkPolicy
  | unsafePath
  deriving DecidableEq, Repr

structure FirewallBlock where
  base : PyStr
  name : PyStr
  method : PyStr
  path : PyStr
  permissions : List PyStr
  reason : FirewallBlockReason
  deriving DecidableEq, Repr

inductive ConnectorRouteAmbiguityReason
  | connectorIntentRequired
  | malformedConnectorIntent
  | connectorIntentNotCandidate
  deriving DecidableEq, Repr

structure FirewallAmbiguous where
  method : PyStr
  path : PyStr
  candidates : List PyStr
  reason : ConnectorRouteAmbiguityReason
  deriving DecidableEq, Repr

/-- What a match returns, besides `None`. -/
inductive FirewallDecision
  | allow (allow : FirewallAllow)
  | policyAllow (allow : FirewallAllow)
  | block (block : FirewallBlock)
  | ambiguous (ambiguous : FirewallAmbiguous)

inductive ConnectorIntentStatus
  | absent
  | malformed
  | present
  deriving DecidableEq, Repr

structure ConnectorIntent where
  status : ConnectorIntentStatus
  value : Option PyStr
  deriving DecidableEq, Repr

/-! ### Matches -/

structure BlockMatch where
  base : PyStr
  name : PyStr
  method : PyStr
  relPath : PyStr

structure MatchedApi where
  order : ℕ
  firewall : CompiledFirewall
  api : CompiledApi
  relPath : PyStr
  baseParams : Params
  blockMatch : BlockMatch

structure BaseMatch where
  base : PyStr
  name : PyStr
  relPath : PyStr
  apiEntry : PyDict
  params : Params

/-- `_AllowedRuleMatch`, with the parts of its `_CompiledRuleCandidate` that are
read. -/
structure AllowedRuleMatch where
  apiEntry : PyDict
  name : PyStr
  relPath : PyStr
  permission : PyStr
  rule : PyStr
  params : Params

/-! ### The first pass -/

structure FirewallMatchCollection where
  apiMatches : List MatchedApi
  bestBaseSpecificity : Option BaseSpecificity
  bestRuleSpecificity : Option PathSpecificity
  winningRuleApiOrders : List ℕ

namespace FirewallMatchCollection

/-- A new collection. -/
def new : FirewallMatchCollection := ⟨[], none, none, []⟩

variable (c : FirewallMatchCollection)

def acceptApi (c : FirewallMatchCollection) (m : MatchedApi) : FirewallMatchCollection × Bool :=
  let specificity := m.api.core.base.specificity
  let restart : FirewallMatchCollection := ⟨[m], some specificity, none, []⟩
  match c.bestBaseSpecificity with
  | none => (restart, true)
  | some best =>
    if best < specificity then (restart, true)
    else if specificity < best then (c, false)
    else ({ c with apiMatches := c.apiMatches ++ [m] }, true)

def canRuleAffectCollection (c : FirewallMatchCollection) (specificity : PathSpecificity) : Bool :=
  match c.bestRuleSpecificity with
  | none => true
  | some best => decide (best ≤ specificity)

def recordRuleRoute (c : FirewallMatchCollection) (apiOrder : ℕ) (specificity : PathSpecificity) :
    FirewallMatchCollection :=
  match c.bestRuleSpecificity with
  | none => { c with bestRuleSpecificity := some specificity, winningRuleApiOrders := [apiOrder] }
  | some best =>
    if best < specificity then
      { c with bestRuleSpecificity := some specificity, winningRuleApiOrders := [apiOrder] }
    else if specificity < best then c
    else { c with winningRuleApiOrders := c.winningRuleApiOrders ++ [apiOrder] }

section Collect

variable (py : PyLib)

/-- One turn of the loop of `_collect_rule_routes`. -/
def collectRule (m : MatchedApi) (relPathSegs : List PyStr) (request : RequestView)
    (c : FirewallMatchCollection) (entry : CompiledRuleEntry) : FirewallMatchCollection :=
  if !entry.rule.method.covers request.upperMethod then c
  else if !c.canRuleAffectCollection entry.rule.specificity then c
  else if !ruleRoutes py entry.rule relPathSegs request then c
  else c.recordRuleRoute m.order entry.rule.specificity

def collectRuleRoutes (c : FirewallMatchCollection) (m : MatchedApi) (relPathSegs : List PyStr)
    (request : RequestView) (entries : List CompiledRuleEntry) : FirewallMatchCollection :=
  entries.foldl (collectRule py m relPathSegs request) c

end Collect

/-! ### Selecting an owner -/

variable (intent : ConnectorIntent) (selectedName : PyStr)

def winningApiMatches : List MatchedApi :=
  match c.bestRuleSpecificity with
  | none => c.apiMatches
  | some _ => c.apiMatches.filter fun m => m.order ∈ c.winningRuleApiOrders

def winningOwnerNames : List PyStr :=
  (((c.winningApiMatches.filter fun m => !m.firewall.core.nameMalformed).map fun m =>
    m.firewall.core.name).dedup).insertionSort (· ≤ ·)

def ownerNameForIntent (intentValue : PyStr) : Option PyStr :=
  match ((c.winningApiMatches.filter fun m =>
      !m.firewall.core.nameMalformed && decide (m.firewall.core.intentIdentity = intentValue)).map
        fun m => m.firewall.core.name).dedup with
  | [name] => some name
  | _ => none

def ambiguityReason : ConnectorRouteAmbiguityReason :=
  match intent.status with
  | .absent => .connectorIntentRequired
  | .malformed => .malformedConnectorIntent
  | .present => .connectorIntentNotCandidate

/-- `_selected_owner_name`: no owner, an owner, or an ambiguity. -/
def selectedOwnerName (upperMethod path : PyStr) : Except FirewallAmbiguous (Option PyStr) :=
  let ambiguous : Except FirewallAmbiguous (Option PyStr) :=
    .error ⟨upperMethod, path, c.winningOwnerNames, ambiguityReason intent⟩
  match c.winningOwnerNames with
  | [] => .ok none
  | [owner] => .ok (some owner)
  | _ =>
    match intent.status, intent.value with
    | .present, some value =>
      match c.ownerNameForIntent value with
      | some name => .ok (some name)
      | none => ambiguous
    | _, _ => ambiguous

def selectedSourceApiMatches : List MatchedApi :=
  let found := c.winningApiMatches.filter fun m => m.firewall.core.name = selectedName
  match c.bestRuleSpecificity with
  | some _ => found
  | none =>
    let permissionless := found.filter fun m => m.api.core.permissionless
    if permissionless = [] then found else permissionless

def relevantOwnerApiMatches : Option PyStr → List MatchedApi
  | none => c.apiMatches
  | some selectedName =>
    c.apiMatches.filter fun m =>
      decide (m.firewall.core.name = selectedName) || m.firewall.core.nameMalformed

def selectedBaseApiMatches (selectedName : Option PyStr) : List MatchedApi :=
  let relevant := c.relevantOwnerApiMatches selectedName
  match selectedName, c.bestRuleSpecificity with
  | some name, none =>
    let selectedOrders := (c.selectedSourceApiMatches name).map MatchedApi.order
    relevant.filter fun m => m.order ∈ selectedOrders
  | _, _ => relevant

def conflictingSelectedApiBlock : Option FirewallBlock :=
  let found := (c.selectedSourceApiMatches selectedName).filter fun m =>
    !(m.firewall.core.nameMalformed || m.api.core.baseMalformed || m.api.core.authMalformed)
  match found with
  | first :: second :: rest =>
    let conflict : FirewallBlock := ⟨first.api.core.base.raw, selectedName, first.blockMatch.method,
      first.relPath, [], .malformedFirewallConfig⟩
    match first.api.core.routingIdentity with
    | none => some conflict
    | some identity =>
      if (second :: rest).all fun m => m.api.core.routingIdentity = some identity then none
      else some conflict
  | _ => none

end FirewallMatchCollection

/-! ### The second pass -/

/-- `_FirewallDecisionState`; the denied names are in the order they were first
seen. -/
structure FirewallDecisionState where
  baseMatch : Option BaseMatch
  allowedMatch : Option AllowedRuleMatch
  deniedMatch : Option BlockMatch
  deniedPermissionNames : List PyStr
  malformedConfigMatch : Option BlockMatch
  malformedPolicyMatch : Option BlockMatch

namespace FirewallDecisionState

/-- A new state. -/
def new (baseMatch : Option BaseMatch) : FirewallDecisionState :=
  ⟨baseMatch, none, none, [], none, none⟩

variable (s : FirewallDecisionState) (policies : CompiledNetworkPolicies) (m : BlockMatch)
  (upperMethod : PyStr)

def recordMalformedConfig : FirewallDecisionState :=
  { s with malformedConfigMatch := s.malformedConfigMatch.orElse fun _ => some m }

def recordMalformedPolicy : FirewallDecisionState :=
  { s with malformedPolicyMatch := s.malformedPolicyMatch.orElse fun _ => some m }

def recordAllowedRule (m : AllowedRuleMatch) : FirewallDecisionState :=
  { s with allowedMatch := s.allowedMatch.orElse fun _ => some m }

def recordDeniedRule (permission : PyStr) : FirewallDecisionState :=
  { s with
    deniedPermissionNames :=
      if permission ∈ s.deniedPermissionNames then s.deniedPermissionNames
      else s.deniedPermissionNames ++ [permission]
    deniedMatch := s.deniedMatch.orElse fun _ => some m }

/-- A block at a recorded match. -/
def blockAt (permissions : List PyStr) (reason : FirewallBlockReason) : FirewallDecision :=
  .block ⟨m.base, m.name, m.method, m.relPath, permissions, reason⟩

/-- `_unknown_allow` and the blocks of an unknown endpoint. -/
def resolveUnknown (base : BaseMatch) : FirewallDecision :=
  let unknownAllow : FirewallDecision :=
    .allow ⟨base.apiEntry, base.name, none, base.params, none, base.relPath⟩
  match dictGet base.name policies.policies with
  | none => unknownAllow
  | some policy =>
    if policy.unknownPolicyMalformed then
      .block ⟨base.base, base.name, upperMethod, base.relPath, [], .malformedNetworkPolicy⟩
    else if policy.unknownPolicy = .allow then unknownAllow
    else .block ⟨base.base, base.name, upperMethod, base.relPath, [], .unknownEndpoint⟩

/-- `_resolve_firewall_decision`. -/
def resolve : Option FirewallDecision :=
  match s.baseMatch with
  | none => none
  | some base =>
    match s.allowedMatch with
    | some m => some (.allow ⟨m.apiEntry, m.name, some m.permission, m.params, some m.rule,
      m.relPath⟩)
    | none =>
      match s.deniedMatch with
      | some m => some (blockAt m s.deniedPermissionNames .permissionDenied)
      | none =>
        match s.malformedPolicyMatch with
        | some m => some (blockAt m [] .malformedNetworkPolicy)
        | none =>
          match s.malformedConfigMatch with
          | some m => some (blockAt m [] .malformedFirewallConfig)
          | none => some (resolveUnknown policies upperMethod base)

end FirewallDecisionState

section Evaluate

variable (py : PyLib)

variable (matchedAws : List (ℕ × Params)) (url : PyStr) (policies : CompiledNetworkPolicies)
  (c : FirewallMatchCollection) (selectedName : Option PyStr) (method : PyStr)
  (relPathSegs : List PyStr)
  (m : MatchedApi) (intent : ConnectorIntent) (baseMatches : List MatchedApi)
  (compiledFirewalls : Option (CompiledFirewallSet py)) (indexedRules : Bool)
  (entry : CompiledRuleEntry)
  (networkPolicies : NetworkPolicies) (request : RequestView) (isAsteriskForm : Bool)

variable (policy : Option CompiledNetworkPolicy) (winning : PathSpecificity)

/-- One turn of the first loop of `_evaluate_selected_rule_entries`. -/
def addAwsEntry (winning : PathSpecificity)
    (found : List (ℕ × Params)) (entry : CompiledRuleEntry) : List (ℕ × Params) :=
  if entry.rule.awsPredicates.isNone || decide (entry.rule.specificity ≠ winning) then found
  else
    match ruleRequestParams py entry.rule relPathSegs request with
    | none => found
    | some params => dictSet entry.order params found

/-- `matched_aws_entries`: the AWS rules of the winning specificity that match, by
order. -/
def matchedAwsEntries (winning : PathSpecificity) (entries : List CompiledRuleEntry) :
    List (ℕ × Params) :=
  entries.foldl (addAwsEntry py relPathSegs request winning) []

/-- `policy is not None and permission in policy.blocked_permissions`. -/
def permissionBlocked (policy : Option CompiledNetworkPolicy) (permission : PyStr) : Bool :=
  policy.any fun policy => decide (permission ∈ policy.blockedPermissions)

/-- The parameters under which the second loop lets a rule of the winning
specificity take part. -/
def winningRuleParams : Option Params :=
  match entry.rule.awsPredicates with
  | none => matchCompiledPathSegments relPathSegs entry.rule.path
  | some _ => dictGet entry.order matchedAws

/-- Whether a blocked rule of the winning specificity takes part. -/
def blockedRuleTakesPart : Bool :=
  match entry.rule.awsPredicates with
  | none => compiledPathSegmentsMatch relPathSegs entry.rule.path
  | some _ => (dictGet entry.order matchedAws).isSome

/-- The second loop of `_evaluate_selected_rule_entries`: it stops at the first rule
that is allowed. -/
def evaluateLoop (m : MatchedApi) (policy : Option CompiledNetworkPolicy) (relPathSegs : List PyStr)
    (request : RequestView) (winning : PathSpecificity) (matchedAws : List (ℕ × Params)) :
    List CompiledRuleEntry → FirewallDecisionState → FirewallDecisionState
  | [], s => s
  | entry :: entries, s =>
    if !entry.rule.method.covers request.upperMethod then
      evaluateLoop m policy relPathSegs request winning matchedAws entries s
    else if entry.rule.specificity ≠ winning then
      evaluateLoop m policy relPathSegs request winning matchedAws entries s
    else if permissionBlocked policy entry.permission then
      evaluateLoop m policy relPathSegs request winning matchedAws entries
        (if blockedRuleTakesPart matchedAws relPathSegs entry then
          s.recordDeniedRule m.blockMatch entry.permission else s)
    else
      match winningRuleParams matchedAws relPathSegs entry with
      | none => evaluateLoop m policy relPathSegs request winning matchedAws entries s
      | some params =>
        s.recordAllowedRule ⟨m.api.rawApiEntry, m.firewall.core.name, m.relPath, entry.permission,
          entry.rule.raw, dictMerge m.baseParams params⟩

def evaluateSelectedRuleEntries (policy : Option CompiledNetworkPolicy)
    (relPathSegs : List PyStr) (request : RequestView) (winning : PathSpecificity)
    (entries : List CompiledRuleEntry) (s : FirewallDecisionState) : FirewallDecisionState :=
  evaluateLoop m policy relPathSegs request winning
    (matchedAwsEntries py relPathSegs request winning entries) entries s

/-- Whether an API may not be evaluated because of its configuration. -/
def configUnusable : Bool :=
  m.firewall.core.nameMalformed || m.api.core.baseMalformed || m.api.core.authMalformed ||
    m.api.core.routingIdentity.isNone

/-- Whether an API may not be evaluated because of the policies. -/
def policyUnusable : Bool :=
  policies.topLevelMalformed ||
    (dictGet m.firewall.core.name policies.policies).any CompiledNetworkPolicy.permissionMalformed

/-- One turn of the loop of `_reduce_selected_owner` over the relevant APIs: what is
malformed is recorded. -/
def recordMalformed (s : FirewallDecisionState) (m : MatchedApi) : FirewallDecisionState :=
  let s := if m.api.core.baseMalformed || m.api.core.authMalformed ||
      m.api.core.hasMalformedRules ||
      m.api.core.routingIdentity.isNone then s.recordMalformedConfig m.blockMatch else s
  if configUnusable m then s
  else if policyUnusable policies m then s.recordMalformedPolicy m.blockMatch
  else s

/-- The orders of the relevant APIs that may be evaluated. -/
def evaluableApiOrders (relevant : List MatchedApi) : List ℕ :=
  (relevant.filter fun m => !configUnusable m && !policyUnusable policies m).map MatchedApi.order

/-- Where the rules of an API come from: its index, or all of them. -/
def ruleEntriesOf (api : CompiledApi) (upperMethod : PyStr) (relPathSegs : List PyStr) :
    List CompiledRuleEntry :=
  if indexedRules then indexedRuleCandidates api.core.ruleIndex upperMethod relPathSegs
  else api.core.ruleIndex.allRules

/-- The loop of `_reduce_selected_owner` over the winning APIs; it stops once a rule
is allowed. -/
def evaluateApis (indexedRules : Bool) (policies : CompiledNetworkPolicies) (request : RequestView)
    (winning : PathSpecificity) (winningOrders evaluable : List ℕ) :
    List MatchedApi → FirewallDecisionState → FirewallDecisionState
  | [], s => s
  | m :: rest, s =>
    if s.allowedMatch.isSome then s
    else if m.order ∉ winningOrders then
      evaluateApis indexedRules policies request winning winningOrders evaluable rest s
    else if m.order ∉ evaluable then
      evaluateApis indexedRules policies request winning winningOrders evaluable rest s
    else
      let relPathSegs := splitPathSegments m.relPath
      evaluateApis indexedRules policies request winning winningOrders evaluable rest
        (evaluateSelectedRuleEntries py m (dictGet m.firewall.core.name policies.policies)
          relPathSegs
          request winning (ruleEntriesOf indexedRules m.api request.upperMethod relPathSegs) s)

/-- The fallback the decision starts from. -/
def baseMatchOf : BaseMatch :=
  ⟨m.api.core.base.raw, m.firewall.core.name, m.relPath, m.api.rawApiEntry, m.baseParams⟩

/-- `_reduce_selected_owner` past the conflict check. -/
def reduceWithoutConflict (policies : CompiledNetworkPolicies) (indexedRules : Bool)
    (request : RequestView) : Option FirewallDecision :=
  let baseMatch := (c.selectedBaseApiMatches selectedName).head?.map baseMatchOf
  let relevant := c.relevantOwnerApiMatches selectedName
  let s := relevant.foldl (recordMalformed policies) (.new baseMatch)
  match c.bestRuleSpecificity with
  | none => s.resolve policies request.upperMethod
  | some winning =>
    (evaluateApis py indexedRules policies request winning c.winningRuleApiOrders
      (evaluableApiOrders policies relevant) c.apiMatches s).resolve policies request.upperMethod

def reduceSelectedOwner (policies : CompiledNetworkPolicies) (indexedRules : Bool)
    (request : RequestView) : Option FirewallDecision :=
  match selectedName.bind c.conflictingSelectedApiBlock with
  | some block => some (.block block)
  | none => reduceWithoutConflict py c selectedName policies indexedRules request

/-! ### The whole match -/

/-- The loop over the candidates: the APIs whose base matches, or the block of an
unsafe path at the first of them.  The source asks whether the path is unsafe
when the first base matches. -/
def collectBaseMatches (urlParts : BaseUrlParts) (upperMethod : PyStr)
    (isAsteriskForm unsafePath : Bool) :
    List CompiledApiCandidate → Except FirewallBlock (List MatchedApi)
  | [] => .ok []
  | candidate :: candidates =>
    match matchCompiledBaseUrlParts py urlParts candidate.api.core.base with
    | none => collectBaseMatches urlParts upperMethod isAsteriskForm unsafePath candidates
    | some (matchedRelPath, baseParams) =>
      let relPath := if isAsteriskForm then lit "*" else matchedRelPath
      let base := candidate.api.core.base.raw
      let name := candidate.firewall.core.name
      if unsafePath then .error ⟨base, name, upperMethod, relPath, [], .unsafePath⟩
      else
        (collectBaseMatches urlParts upperMethod isAsteriskForm unsafePath candidates).map
          (⟨candidate.order, candidate.firewall, candidate.api, relPath, baseParams,
            ⟨base, name, upperMethod, relPath⟩⟩ :: ·)

/-- Whether the request names a builtin owner among the matches. -/
def explicitBuiltinOwnerMatches : Bool :=
  decide (intent.status = .present) && baseMatches.any fun m =>
    decide (m.firewall.connectorRuntimeKind = some .builtin) && !m.firewall.core.nameMalformed &&
      decide (some m.firewall.core.intentIdentity = intent.value)

/-- A builtin connector gives way to a custom one unless the request names it. -/
def suppressed (m : MatchedApi) : Bool :=
  !explicitBuiltinOwnerMatches intent baseMatches &&
    baseMatches.any (fun m => decide (m.firewall.connectorRuntimeKind = some .custom)) &&
    decide (m.firewall.connectorRuntimeKind = some .builtin)

/-- One turn of the loop over the base matches. -/
def collectApi (request : RequestView) (c : FirewallMatchCollection) (m : MatchedApi) :
    FirewallMatchCollection :=
  let (c, accepted) := c.acceptApi m
  if !accepted then c
  else if isAsteriskForm || m.api.core.permissions.isEmpty then c
  else
    let relPathSegs := splitPathSegments m.relPath
    c.collectRuleRoutes py m relPathSegs request
      (ruleEntriesOf indexedRules m.api request.upperMethod relPathSegs)

/-- The first pass over the base matches. -/
def collectMatches (intent : ConnectorIntent)
    (request : RequestView) (baseMatches : List MatchedApi) : FirewallMatchCollection :=
  (baseMatches.filter fun m => !suppressed intent baseMatches m).foldl
    (collectApi py indexedRules isAsteriskForm request) .new

/-- An allow of an asterisk-form request carries no credentials. -/
def asteriskResult : FirewallDecision → FirewallDecision
  | .allow allow => if isAsteriskForm then .policyAllow allow else .allow allow
  | decision => decision

/-- `_match_compiled_firewall_request_with_api_candidates`. -/
def decideRequest (urlParts : BaseUrlParts) (urlHasBackslash : Bool)
    (policies : CompiledNetworkPolicies)
    (candidates : List CompiledApiCandidate) (indexedRules : Bool) (intent : ConnectorIntent)
    (isAsteriskForm : Bool) (request : RequestView) : Option FirewallDecision :=
  let unsafePath := if isAsteriskForm then false
    else urlHasBackslash || hasUnsafePath py urlParts.path
  let decisionPath := if isAsteriskForm then lit "*"
    else if urlParts.path = [] then lit "/" else urlParts.path
  match collectBaseMatches py urlParts request.upperMethod isAsteriskForm unsafePath candidates with
  | .error block => some (.block block)
  | .ok baseMatches =>
    let c := collectMatches py indexedRules isAsteriskForm intent request baseMatches
    match c.selectedOwnerName intent request.upperMethod decisionPath with
    | .error ambiguous => some (.ambiguous ambiguous)
    | .ok selectedName =>
      (reduceSelectedOwner py c selectedName policies indexedRules request).map
        (asteriskResult isAsteriskForm)

/-- What the matcher reads of a request. -/
def requestView (context : Option FirewallRequestContext) : RequestView where
  upperMethod := py.upper method
  queryPairs := ((py.urlsplit url).map fun parts => py.parseQsl parts.query).getD []
  sigv4Service :=
    if context.any fun context => !context.awsInspectionAvailable then none
    else py.inspectSigv4Service url ((context.map FirewallRequestContext.headers).getD [])
  formActionResult := formActionValues py (context.map FirewallRequestContext.headers)
    (context.bind FirewallRequestContext.body)
  headers := context.map FirewallRequestContext.headers

/-- The URL as `_prepare_compiled_request_match` splits it. -/
def requestUrlParts : Option BaseUrlParts :=
  splitBaseMatchUrl py ⟨true, false, false, false, decide (cp '\\' ∈ url)⟩ url

/-- Both matchers, given how they choose candidates and rules. -/
def matchRequest (intent : Option ConnectorIntent) (context : Option FirewallRequestContext)
    (isAsteriskForm indexedRules : Bool)
    (candidatesOf : CompiledFirewallSet py → BaseUrlParts → List CompiledApiCandidate) :
      Option FirewallDecision :=
  match compiledFirewalls with
  | none => none
  | some set =>
    if set.firewalls.isEmpty then none
    else
      match requestUrlParts py url with
      | none => none
      | some urlParts =>
        decideRequest py urlParts (decide (cp '\\' ∈ url))
          (ensureCompiledNetworkPolicies networkPolicies) (candidatesOf set urlParts) indexedRules
          (intent.getD ⟨.absent, none⟩) isAsteriskForm (requestView py url method context)

def matchCompiledFirewallRequest (intent : Option ConnectorIntent)
    (context : Option FirewallRequestContext) (isAsteriskForm : Bool) : Option FirewallDecision :=
  matchRequest py url method compiledFirewalls networkPolicies intent context isAsteriskForm true
    fun set urlParts => indexedApiCandidates py set.apiIndex urlParts

def matchCompiledFirewallRequestLinear (intent : Option ConnectorIntent)
    (context : Option FirewallRequestContext) (isAsteriskForm : Bool) : Option FirewallDecision :=
  matchRequest py url method compiledFirewalls networkPolicies intent context isAsteriskForm false
    fun set _ => set.apiIndex.allCandidates

end Evaluate

end Okou.Firewall
