import Okou.Firewall.Evaluation

/-!
# Allows are justified, and matched rules are not passed over

The two safety properties of the matcher, for every firewall set, every policies
payload and every request.  An allow that names a permission is backed by a rule
of that permission, of an API in the most specific tier, and by policies that do
not block it.  And once a rule of the tier matches, the policy for unknown
endpoints has no say.
-/

namespace Okou.Firewall

open List FirewallDecisionState MatchedApi

section

variable (py : PyLib)

/-! ### The request in the terms of the first pass -/

/-- The eligible APIs of a request: those whose base it lies under, without the
builtin connectors that a custom one replaces. -/
def requestApis (set : CompiledFirewallSet py) (intent : ConnectorIntent) (urlParts : BaseUrlParts)
    (upperMethod : PyStr) : List MatchedApi :=
  eligibleApis intent (matchedApis py urlParts upperMethod (apiCandidates set.firewalls))

/-- Whether the path of a request is unsafe. -/
def pathUnsafe (url : PyStr) (urlParts : BaseUrlParts) : Bool :=
  decide (cp '\\' ∈ url) || hasUnsafePath py urlParts.path

/-- The path a decision names. -/
def decisionPath (urlParts : BaseUrlParts) : PyStr :=
  if urlParts.path = [] then lit "/" else urlParts.path

/-- The owner that is selected among the eligible APIs, or an ambiguity. -/
def requestSelection (apis : List MatchedApi) (intent : ConnectorIntent) (urlParts : BaseUrlParts)
    (request : RequestView) : Except FirewallAmbiguous (Option PyStr) :=
  (collectionOf py request apis).selectedOwnerName intent request.upperMethod
    (decisionPath urlParts)

theorem requestApis_ordered (set) (intent) (urlParts)
    (upperMethod : PyStr) : (requestApis py set intent urlParts upperMethod).Pairwise fun a b =>
      a.order < b.order :=
  (matchedApis_ordered py urlParts upperMethod set.firewalls).filter _

variable {set : CompiledFirewallSet py} {intent : ConnectorIntent} {urlParts : BaseUrlParts}
  {upperMethod : PyStr} {rule : CompiledRule} {allow : FirewallAllow}

theorem mem_requestApis {m} (hm : m ∈ requestApis py set intent urlParts upperMethod) :
    m.firewall ∈ set.firewalls ∧ m.api ∈ m.firewall.apis ∧
      matchCompiledBaseUrlParts py urlParts m.api.core.base = some (m.relPath, m.baseParams) :=
  mem_matchedApis py (mem_of_mem_filter hm)

section

variable (url method : PyStr) (set : CompiledFirewallSet py) (networkPolicies : NetworkPolicies)
variable (intent : Option ConnectorIntent) (context : Option FirewallRequestContext)

theorem asteriskResult_false (decision) : asteriskResult false decision = decision := by
  cases decision <;> rfl

variable {urlParts : BaseUrlParts}

variable (hparts : requestUrlParts py url = some urlParts)

include hparts

/-- The matcher, once the request is split: from the candidates to the decision. -/
theorem match_eq_decide : matchCompiledFirewallRequest py url method (some set) networkPolicies
      intent context false =
      decideRequest py urlParts (decide (cp '\\' ∈ url))
        (ensureCompiledNetworkPolicies networkPolicies)
        (apiCandidates set.firewalls) true (intent.getD ⟨.absent, none⟩) false
        (requestView py url method context) := by
  have hindex : ∀ slash policies intent request,
      decideRequest py urlParts slash policies (indexedApiCandidates py set.apiIndex urlParts) true
        intent false request =
        decideRequest py urlParts slash policies (apiCandidates set.firewalls) true intent false
          request := by
    intro slash policies intent request
    rw [set.apiIndex_eq, indexedApiCandidates_eq]
    unfold decideRequest
    simp only [collectBaseMatches_filter]
  simp only [matchCompiledFirewallRequest, matchRequest, hparts, hindex]
  split
  · next hempty =>
    -- without a firewall there are no candidates, and no decision
    rw [List.isEmpty_iff.mp hempty]
    rfl
  · rfl

/-- The matcher on a safe path: select an owner among the eligible APIs, and reduce. -/
theorem match_of_safe (hsafe : pathUnsafe py url urlParts = false) :
    matchCompiledFirewallRequest py url method (some set) networkPolicies intent context false =
      match requestSelection py (requestApis py set (intent.getD ⟨.absent, none⟩) urlParts
        (py.upper method))
          (intent.getD ⟨.absent, none⟩) urlParts (requestView py url method context) with
      | .error ambiguous => some (.ambiguous ambiguous) | .ok selectedName =>
        reduceSelectedOwner py (collectionOf py (requestView py url method context)
            (requestApis py set (intent.getD ⟨.absent, none⟩) urlParts (py.upper method)))
          selectedName (ensureCompiledNetworkPolicies networkPolicies) true
          (requestView py url method context) := by
  have hid : asteriskResult false = id := funext asteriskResult_false
  have hpath : (decide (cp '\\' ∈ url) || hasUnsafePath py urlParts.path) = false := hsafe
  rw [match_eq_decide py url method set networkPolicies intent context hparts]
  unfold decideRequest
  simp only [Bool.false_eq_true, if_false, hpath, collectBaseMatches_eq, collectMatches_spec, hid,
    Option.map_id_fun]
  rfl

/-- The matcher on an unsafe path: a block at the first API whose base matches. -/
theorem match_of_unsafePath (hpath : pathUnsafe py url urlParts) :
    matchCompiledFirewallRequest py url method (some set) networkPolicies intent context false =
      ((matchedApis py urlParts (py.upper method) (apiCandidates set.firewalls)).head?.map fun m =>
        .block ⟨m.api.core.base.raw, m.firewall.core.name, py.upper method, m.relPath, [],
          .unsafePath⟩) := by
  have hflag : (decide (cp '\\' ∈ url) || hasUnsafePath py urlParts.path) := hpath
  have hmeth : (requestView py url method context).upperMethod = py.upper method := rfl
  rw [match_eq_decide py url method set networkPolicies intent context hparts]
  unfold decideRequest
  simp only [Bool.false_eq_true, if_false, hflag, collectBaseMatches_unsafePath, hmeth]
  cases matchedApis py urlParts (py.upper method) (apiCandidates set.firewalls) with
  | nil => rfl
  | cons m rest => rfl

end

/-! ### Winning rules -/

/-- A rule of the tier that matches, such that no rule of the tier that matches is more
specific. -/
structure WinningRule (request : RequestView) (tier : List MatchedApi) (m : MatchedApi)
    (permission : CompiledPermission) (rule : CompiledRule) : Prop where
  mem_tier : m ∈ tier
  mem_permissions : permission ∈ m.api.core.permissions
  mem_rules : rule ∈ permission.rules
  matched : ruleMatches py rule (splitPathSegments m.relPath) request = true
  highest : ∀ m' ∈ tier, ∀ permission' ∈ m'.api.core.permissions, ∀ rule' ∈ permission'.rules,
    ruleMatches py rule' (splitPathSegments m'.relPath) request = true →
      rule'.specificity ≤ rule.specificity

variable {m : MatchedApi} {request : RequestView} {policies : CompiledNetworkPolicies}
  {name : PyStr} {winning : PathSpecificity} {selectedName : Option PyStr} {apis : List MatchedApi}

/-- The entries of an API that match are its rules that match, with their permission. -/
theorem exists_matching : (∃ entry ∈ m.matching py request, entry.permission = name ∧
      entry.rule = rule) ↔
      ∃ permission ∈ m.api.core.permissions, permission.name = name ∧ rule ∈ permission.rules ∧
        ruleMatches py rule (splitPathSegments m.relPath) request := by
  have hall : m.api.core.ruleIndex.allRules = ruleEntries m.api.core.permissions := by
    rw [m.api.core.ruleIndex_eq]
    rfl
  rw [matching, matchingEntries, hall, ruleEntries]
  constructor
  · rintro ⟨entry, hentry, rfl, rfl⟩
    obtain ⟨hentry, hmatch⟩ := mem_filter.mp hentry
    obtain ⟨⟨⟨name, rule⟩, order⟩, hpair, rfl⟩ := mem_map.mp hentry
    obtain ⟨permission, hpermission, hrule⟩ :=
      mem_flatMap.mp (fst_mem_of_mem_zipIdx hpair)
    obtain ⟨rule', hrule', heq⟩ := mem_map.mp hrule
    obtain ⟨rfl, rfl⟩ := Prod.mk.inj heq
    exact ⟨permission, hpermission, rfl, hrule', hmatch⟩
  · rintro ⟨permission, hpermission, rfl, hrule, hmatch⟩
    obtain ⟨order, horder, hget⟩ := mem_iff_getElem.mp (mem_flatMap.mpr
      ⟨permission, hpermission, mem_map.mpr ⟨rule, hrule, rfl⟩⟩ :
        (permission.name, rule) ∈ m.api.core.permissions.flatMap fun permission =>
          permission.rules.map fun rule => (permission.name, rule))
    refine ⟨⟨order, permission.name, rule⟩, mem_filter.mpr ⟨?_, hmatch⟩, rfl, rfl⟩
    exact mem_map.mpr ⟨((permission.name, rule), order),
      mem_zipIdx_iff_getElem?.mpr (List.getElem?_eq_some_iff.mpr ⟨horder, hget⟩), rfl⟩

/-- The winning rules are the rules that match at the winning specificity. -/
theorem exists_hit_iff {tier} (hwinning : winningSpecificity py request tier = some winning)
    (hm : m ∈ tier) : (∃ entry ∈ m.hits py request winning, entry.permission = name ∧
      entry.rule = rule) ↔
      ∃ permission, permission.name = name ∧ WinningRule py request tier m permission rule := by
  constructor
  · rintro ⟨entry, hentry, hname, rfl⟩
    obtain ⟨hmatching, hspec⟩ := (mem_hits py).mp hentry
    obtain ⟨permission, hpermission, rfl, hrule, hmatch⟩ :=
      (exists_matching py).mp ⟨entry, hmatching, hname, rfl⟩
    refine ⟨permission, rfl, hm, hpermission, hrule, hmatch, ?_⟩
    intro m' hm' permission' hpermission' rule' hrule' hmatch'
    obtain ⟨entry', hentry', _, rfl⟩ :=
      (exists_matching py).mpr ⟨permission', hpermission', rfl, hrule', hmatch'⟩
    rw [hspec]
    exact le_winningSpecificity py hwinning hm' hentry'
  · rintro ⟨permission, rfl, hwin⟩
    obtain ⟨entry, hentry, hname, rfl⟩ :=
      (exists_matching py).mpr ⟨permission, hwin.mem_permissions, rfl, hwin.mem_rules, hwin.matched⟩
    refine ⟨entry, (mem_hits py).mpr ⟨hentry, ?_⟩, hname, rfl⟩
    -- some rule attains the winning specificity, and this one is not below it
    apply le_antisymm (le_winningSpecificity py hwinning hm hentry)
    obtain ⟨⟨⟨order, specificity⟩, hroute, rfl⟩, _⟩ := bestScore_eq_some.mp hwinning
    obtain ⟨m', hm', _, entry', hentry', rfl⟩ := (mem_tierRoutes py).mp hroute
    obtain ⟨permission', hpermission', _, hrule', hmatch'⟩ :=
      (exists_matching py).mp ⟨entry', hentry', rfl, rfl⟩
    exact hwin.highest m' hm' permission' hpermission' entry'.rule hrule' hmatch'

/-! ### Allows are justified -/

/-- What backs an allow: an API the request lies under, as specific as any eligible
one and without a flaw; a winning rule of it; and policies that are well formed and
do not block the rule's permission. -/
structure AllowJustified (set : CompiledFirewallSet py) (policies : CompiledNetworkPolicies)
    (intent : ConnectorIntent) (urlParts : BaseUrlParts) (request : RequestView) (m : MatchedApi)
    (permission : CompiledPermission) (rule : CompiledRule) : Prop where
  firewall : m.firewall ∈ set.firewalls
  api : m.api ∈ m.firewall.apis
  base_matches :
    matchCompiledBaseUrlParts py urlParts m.api.core.base = some (m.relPath, m.baseParams)
  base_best : ∀ m' ∈ requestApis py set intent urlParts request.upperMethod,
    m'.api.core.base.specificity ≤ m.api.core.base.specificity
  name_wellFormed : m.firewall.core.nameMalformed = false
  base_wellFormed : m.api.core.baseMalformed = false
  auth_wellFormed : m.api.core.authMalformed = false
  routing_wellFormed : m.api.core.routingIdentity.isSome = true
  policies_wellFormed : policies.topLevelMalformed = false
  policy_wellFormed : ∀ policy, dictGet m.firewall.core.name policies.policies = some policy →
    policy.permissionMalformed = false
  winning : WinningRule py request
    (baseTier (requestApis py set intent urlParts request.upperMethod)) m
    permission rule
  not_blocked : ∀ policy, dictGet m.firewall.core.name policies.policies = some policy →
    permission.name ∉ policy.blockedPermissions

/-- What an evaluable API guarantees. -/
theorem evaluable_iff : evaluable policies m ↔
      (m.firewall.core.nameMalformed = false ∧ m.api.core.baseMalformed = false ∧
        m.api.core.authMalformed = false ∧ m.api.core.routingIdentity.isSome = true) ∧
      policies.topLevelMalformed = false ∧ ∀ policy,
          dictGet m.firewall.core.name policies.policies = some policy →
          policy.permissionMalformed = false := by
  simp [evaluable, configUnusable, policyUnusable, Option.any_eq_false, and_assoc]

theorem blocks_eq_false_iff {permission} : m.blocks policies permission = false ↔
      ∀ policy, dictGet m.firewall.core.name policies.policies = some policy →
        permission ∉ policy.blockedPermissions := by
  simp [blocks, permissionBlocked, Option.any_eq_false]

/-- A selected route that is not blocked justifies an allow. -/
theorem allowJustified_of_route (hwinning : winningSpecificity py request
      (baseTier (requestApis py set intent urlParts request.upperMethod)) = some winning) {entry}
    (hroute : SelectedRoute py policies request winning
      (baseTier (requestApis py set intent urlParts request.upperMethod)) selectedName m entry)
    (hfree : m.blocks policies entry.permission = false) :
    ∃ permission, permission.name = entry.permission ∧
      AllowJustified py set policies intent urlParts request m permission entry.rule := by
  obtain ⟨helig, hbest⟩ := mem_bestEntries.mp hroute.api
  obtain ⟨hfire, hapi, hbase⟩ := mem_requestApis py helig
  obtain ⟨⟨hname, hbaseWell, hauth, hrout⟩, htop, hpol⟩ := evaluable_iff.mp hroute.evaluable
  obtain ⟨permission, hpermission, hwin⟩ :=
    (exists_hit_iff py hwinning hroute.api).mp ⟨entry, hroute.hit, rfl, rfl⟩
  rw [← hpermission] at hfree
  exact ⟨permission, hpermission, hfire, hapi, hbase, hbest, hname, hbaseWell, hauth, hrout,
    htop, hpol, hwin, blocks_eq_false_iff.mp hfree⟩

/-- A decision taken without a winning rule names no permission. -/
theorem resolve_permission_none {s : FirewallDecisionState} (hs : s.allowedMatch = none)
    (h : s.resolve policies upperMethod = some (.allow allow)) : allow.permission = none := by
  unfold resolve resolveUnknown at h
  grind [blockAt]

/-- Without a winning rule no permission is allowed. -/
theorem reduce_permission_none (hwinning : winningSpecificity py request (baseTier apis) = none)
    {indexedRules : Bool}
    (h : reduceSelectedOwner py (collectionOf py request apis) selectedName policies indexedRules
      request = some (.allow allow)) : allow.permission = none := by
  have hbest : (collectionOf py request apis).bestRuleSpecificity = none := hwinning
  unfold reduceSelectedOwner at h
  split at h
  · simp at h
  · unfold reduceWithoutConflict at h
    rw [hbest] at h
    exact resolve_permission_none (foldl_recordMalformed policies _ _).allowed h

section

variable (url method : PyStr) (set : CompiledFirewallSet py) (networkPolicies : NetworkPolicies)
variable (intent : Option ConnectorIntent) (context : Option FirewallRequestContext)

/-- **An allow of a permission is justified**: for every firewall set, policies, intent,
context and request that is not in asterisk form. -/
theorem permission_allow_justified {allow : FirewallAllow} {p : PyStr}
    (hallow : matchCompiledFirewallRequest py url method (some set) networkPolicies intent context
      false = some (.allow allow))
    (hpermission : allow.permission = some p) :
    ∃ urlParts m permission rule, requestUrlParts py url = some urlParts ∧
      pathUnsafe py url urlParts = false ∧
      allow.apiEntry = m.api.rawApiEntry ∧ allow.name = m.firewall.core.name ∧
      p = permission.name ∧ allow.rule = some rule.raw ∧
      AllowJustified py set (ensureCompiledNetworkPolicies networkPolicies)
        (intent.getD ⟨.absent, none⟩) urlParts (requestView py url method context) m permission
          rule := by
  cases hparts : requestUrlParts py url with
  | none =>
    -- a URL that cannot be split is never matched
    simp [matchCompiledFirewallRequest, matchRequest, hparts] at hallow
  | some urlParts =>
    cases hpath : pathUnsafe py url urlParts with
    | true =>
      rw [match_of_unsafePath py url method set networkPolicies intent context hparts
        hpath] at hallow
      obtain ⟨_, _, hblock⟩ := Option.map_eq_some_iff.mp hallow
      simp at hblock
    | false =>
      rw [match_of_safe py url method set networkPolicies intent context hparts hpath] at hallow
      split at hallow
      · simp at hallow
      · next selectedName hsel =>
        cases hwinning : winningSpecificity py (requestView py url method context)
            (baseTier (requestApis py set (intent.getD ⟨.absent, none⟩) urlParts
              (py.upper method))) with
        | none => simp [reduce_permission_none py hwinning hallow] at hpermission
        | some winning =>
          obtain ⟨decision, hdec, houtc⟩ := reduceSelectedOwner_outcome py
            (ensureCompiledNetworkPolicies networkPolicies) (requestApis_ordered py _ _ _ _)
            hwinning hsel (fun m hm => (mem_requestApis py hm).2.1) true
          rw [hallow] at hdec
          rw [← Option.some.inj hdec] at houtc
          cases houtc with
          | allowed hroute hfree =>
            obtain ⟨permission, hname, hjust⟩ := allowJustified_of_route py hwinning hroute hfree
            exact ⟨urlParts, _, permission, _, rfl, hpath, rfl, rfl,
              (Option.some.inj hpermission).symm.trans hname.symm, rfl, hjust⟩

/-- A firewall with one API and one permission. -/
def issuesFirewalls : PyValue :=
  let str := fun s => PyValue.str (lit s)
  .list [.dict [(str "name", str "github"),
    (str "apis", .list [.dict [(str "base", str "https://api.github.com"), (str "auth", .dict []),
      (str "permissions", .list [.dict [(str "name", str "issues"),
        (str "rules", .list [str "GET /repos/\x7bowner\x7d/issues"])]])]])]]

/-- A request for the issues of an owner. -/
def issuesUrl (owner : String) : PyStr :=
  lit "https://api.github.com/repos/" ++ lit owner ++ lit "/issues"

/-- The permission an allow names. -/
def FirewallDecision.allowedPermission : FirewallDecision → Option PyStr
  | .allow granted => granted.permission
  | _ => none

/-- The reason a block gives. -/
def FirewallDecision.blockReason : FirewallDecision → Option FirewallBlockReason
  | .block refused => some refused.reason
  | _ => none

/-- The reason a block gives, and the permissions it lists. -/
def FirewallDecision.blocked : FirewallDecision → Option (FirewallBlockReason × List PyStr)
  | .block refused => some (refused.reason, refused.permissions)
  | _ => none

/-- A firewall with two bases over one another and, under the longer one, two permissions whose
rules overlap. -/
def reposFirewalls : PyValue :=
  let str := fun s => PyValue.str (lit s)
  let permission := fun name rule => PyValue.dict [(str "name", str name),
    (str "rules", .list [str rule])]
  let api := fun base permissions => PyValue.dict [(str "base", str base), (str "auth", .dict []),
    (str "permissions", .list permissions)]
  .list [.dict [(str "name", str "github"), (str "apis", .list [
    api "https://api.github.com" [permission "all-of-it" "GET /\x7bpath+\x7d"],
    api "https://api.github.com/repos"
      [permission "contents" "GET /\x7bowner\x7d/\x7bpath+\x7d",
        permission "issues" "GET /\x7bowner\x7d/issues"]])]]

/-- The longer base and the more specific rule decide. -/
theorem permission_allow_justified_issues :
    ∃ set urlParts m permission rule, compileFirewalls plainLib reposFirewalls = some set ∧
      requestUrlParts plainLib (issuesUrl "me") = some urlParts ∧
      permission.name = lit "issues" ∧
      AllowJustified plainLib set (compileNetworkPolicies .none) ⟨.absent, none⟩ urlParts
        (requestView plainLib (issuesUrl "me") (lit "get") none) m
        permission rule := by
  have hrun : ((compileFirewalls plainLib reposFirewalls).bind fun set =>
      (matchCompiledFirewallRequest plainLib (issuesUrl "me") (lit "get")
        (some set) (.raw .none) none none false).bind FirewallDecision.allowedPermission) =
      some (lit "issues") := by decide +kernel
  obtain ⟨set, hset, hmatch⟩ := Option.bind_eq_some_iff.mp hrun
  obtain ⟨decision, hdec, hpermission⟩ := Option.bind_eq_some_iff.mp hmatch
  cases decision with
  | allow allow =>
    obtain ⟨urlParts, m, permission, rule, hparts, _, _, _, hname, _, hjust⟩ :=
      permission_allow_justified plainLib _ _ set _ none none hdec hpermission
    exact ⟨set, urlParts, m, permission, rule, hset, hparts, hname.symm, hjust⟩
  | policyAllow | block | ambiguous => simp [FirewallDecision.allowedPermission] at hpermission

/-! ### Matched rules are not passed over -/

/-- A winning rule of an evaluable API of the owner that is selected. -/
structure OwnerRule (policies : CompiledNetworkPolicies) (request : RequestView)
    (apis : List MatchedApi) (selection : Except FirewallAmbiguous (Option PyStr)) (m : MatchedApi)
    (permission : CompiledPermission) (rule : CompiledRule) : Prop where
  owner : selection = .ok (some m.firewall.core.name)
  evaluable : evaluable policies m = true
  winning : WinningRule py request (baseTier apis) m permission rule

/-- The rules the second pass visits are those of the selected owner. -/
theorem exists_route_iff (hwinning : winningSpecificity py request (baseTier apis) = some winning) :
    (∃ entry, SelectedRoute py policies request winning (baseTier apis) selectedName m entry ∧
        entry.permission = name) ↔
      ∃ permission rule, OwnerRule py policies request apis (.ok selectedName) m permission rule ∧
        permission.name = name := by
  constructor
  · rintro ⟨entry, hroute, rfl⟩
    obtain ⟨permission, hname, hwin⟩ :=
      (exists_hit_iff py hwinning hroute.api).mp ⟨entry, hroute.hit, rfl, rfl⟩
    exact ⟨permission, entry.rule, ⟨congrArg _ hroute.owner, hroute.evaluable, hwin⟩, hname⟩
  · rintro ⟨permission, rule, howner, rfl⟩
    obtain ⟨entry, hentry, hname, _⟩ :=
      (exists_hit_iff py hwinning howner.winning.mem_tier).mpr ⟨permission, rfl, howner.winning⟩
    exact ⟨entry, ⟨howner.winning.mem_tier, Except.ok.inj howner.owner, howner.evaluable, hentry⟩,
      hname⟩

/-- The answers to a request whose matching rules are all blocked. -/
inductive DeniedAnswer (policies : CompiledNetworkPolicies) (request : RequestView)
    (apis : List MatchedApi) (selection : Except FirewallAmbiguous (Option PyStr))
    (pathUnsafe : Bool) :
    FirewallDecision → Prop
  | ambiguous (ambiguous : FirewallAmbiguous) (selection_eq : selection = .error ambiguous) :
      DeniedAnswer policies request apis selection pathUnsafe (.ambiguous ambiguous)
  | unsafePath (block : FirewallBlock) (reason : block.reason = .unsafePath)
      (path : pathUnsafe = true) : DeniedAnswer policies request apis selection pathUnsafe
        (.block block)
  | malformed (block : FirewallBlock)
      (reason : block.reason = .malformedFirewallConfig ∨ block.reason = .malformedNetworkPolicy) :
      DeniedAnswer policies request apis selection pathUnsafe (.block block)
  | denied (block : FirewallBlock) (reason : block.reason = .permissionDenied)
      (nodup : block.permissions.Nodup)
      (permissions : ∀ name, name ∈ block.permissions ↔ ∃ m permission rule,
        OwnerRule py policies request apis selection m permission rule ∧ permission.name = name) :
      DeniedAnswer policies request apis selection pathUnsafe (.block block)

/-- What the outcomes of the second pass are in these terms. -/
theorem answer_of_outcome (hwinning : winningSpecificity py request (baseTier apis) = some winning)
    (pathUnsafe : Bool) {decision}
    (h : RuleOutcome policies (SelectedRoute py policies request winning (baseTier apis)
      selectedName) decision) :
    ((∀ allow, decision = .allow allow → allow.permission ≠ none) ∧
      ∀ block, decision = .block block → block.reason ≠ .unknownEndpoint) ∧
    ((∀ m permission rule, OwnerRule py policies request apis (.ok selectedName) m permission rule →
        m.blocks policies permission.name) →
      DeniedAnswer py policies request apis (.ok selectedName) pathUnsafe decision) := by
  cases h with
  | allowed hroute hfree =>
    refine ⟨⟨by rintro _ ⟨⟩ ⟨⟩, by rintro _ ⟨⟩⟩, fun hblocked => ?_⟩
    obtain ⟨permission, rule, howner, hname⟩ := (exists_route_iff py hwinning).mp ⟨_, hroute, rfl⟩
    rw [← hname, hblocked _ permission rule howner] at hfree
    exact absurd hfree Bool.true_eq_false_eq_False
  | denied hreas _ hnodup hpermissions =>
    refine ⟨⟨by rintro _ ⟨⟩, ?_⟩, fun _ => .denied _ hreas hnodup fun name => ?_⟩
    · simp [hreas]
    · rw [hpermissions]
      exact exists_congr fun m => exists_route_iff py hwinning
  | malformed hreas =>
    refine ⟨⟨by rintro _ ⟨⟩, ?_⟩, fun _ => .malformed _ hreas⟩
    rcases hreas with hreas | hreas <;> simp [hreas]

/-- **A rule that matches keeps the decision from the unknown policy.**  If some rule of
the most specific tier matches, the request is decided, and neither by an allow
without a permission nor by the block of an unknown endpoint.  If moreover the
policies block every winning rule of the selected owner's evaluable APIs, then the
answer is an ambiguity, the block of an unsafe path or of a malformed configuration
or policy, or the block that lists exactly the permissions of these rules. -/
theorem matched_rule_decides {urlParts : BaseUrlParts}
    (hparts : requestUrlParts py url = some urlParts)
    {m : MatchedApi} (hm : m ∈ baseTier (requestApis py set (intent.getD ⟨.absent, none⟩) urlParts
      (py.upper method)))
    {permission : CompiledPermission} (hpermission : permission ∈ m.api.core.permissions)
    {rule : CompiledRule}
    (hrule : rule ∈ permission.rules)
    (hmatch : ruleMatches py rule (splitPathSegments m.relPath) (requestView py url method context)
      = true) :
    ∃ decision, matchCompiledFirewallRequest py url method (some set) networkPolicies intent context
        false = some decision ∧
      ((∀ allow, decision = .allow allow → allow.permission ≠ none) ∧
        ∀ block, decision = .block block → block.reason ≠ .unknownEndpoint) ∧
      let policies := ensureCompiledNetworkPolicies networkPolicies
      let request := requestView py url method context
      let apis := requestApis py set (intent.getD ⟨.absent, none⟩) urlParts (py.upper method)
      let selection := requestSelection py apis (intent.getD ⟨.absent, none⟩) urlParts request
      (∀ m permission rule, OwnerRule py policies request apis selection m permission rule →
          m.blocks policies permission.name = true) →
        DeniedAnswer py policies request apis selection (pathUnsafe py url urlParts) decision := by
  obtain ⟨entry, hentry, _⟩ := (exists_matching py).mpr ⟨permission, hpermission, rfl, hrule,
    hmatch⟩
  obtain ⟨winning, hwinning⟩ := exists_winningSpecificity py hm hentry
  cases hpath : pathUnsafe py url urlParts with
  | true =>
    rw [match_of_unsafePath py url method set networkPolicies intent context hparts hpath]
    have hmem := mem_of_mem_filter (mem_of_mem_filter hm)
    obtain ⟨first, rest, hcons⟩ := exists_cons_of_ne_nil (ne_nil_of_mem hmem)
    rw [hcons]
    refine ⟨_, rfl, ⟨by rintro _ ⟨⟩, ?_⟩, fun _ => .unsafePath _ rfl rfl⟩
    simp
  | false =>
    rw [match_of_safe py url method set networkPolicies intent context hparts hpath]
    dsimp only
    cases hsel : requestSelection py
        (requestApis py set (intent.getD ⟨.absent, none⟩) urlParts (py.upper method))
        (intent.getD ⟨.absent, none⟩) urlParts (requestView py url method context) with
    | error ambiguous =>
      exact ⟨_, rfl, ⟨by rintro _ ⟨⟩, by rintro _ ⟨⟩⟩, fun _ => .ambiguous _ rfl⟩
    | ok selectedName =>
      obtain ⟨decision, hdec, houtc⟩ := reduceSelectedOwner_outcome py
        (ensureCompiledNetworkPolicies networkPolicies) (requestApis_ordered py _ _ _ _)
        hwinning hsel (fun m hm => (mem_requestApis py hm).2.1) true
      exact ⟨decision, hdec, answer_of_outcome py hwinning false houtc⟩

end

/-- The policies that deny the permission. -/
def issuesDenied : PyValue :=
  let str := fun s => PyValue.str (lit s)
  .dict [(str "github", .dict [(str "deny", .list [str "issues"])])]

/-- Whether some rule of the tier matches the request for the issues of an owner. -/
def issuesTierMatches (set : CompiledFirewallSet plainLib) (urlParts : BaseUrlParts)
    (owner : String) : Bool :=
  (baseTier (requestApis plainLib set ⟨.absent, none⟩ urlParts (lit "GET"))).any fun m =>
    m.api.core.permissions.any fun permission => permission.rules.any fun rule =>
      ruleMatches plainLib rule (splitPathSegments m.relPath)
        (requestView plainLib (issuesUrl owner) (lit "get") none)

/-- Some rule of the tier matches, and every permission there is denied. -/
def issuesTierDenied (set : CompiledFirewallSet plainLib) (urlParts : BaseUrlParts)
    (owner : String) : Bool :=
  issuesTierMatches set urlParts owner &&
    (baseTier (requestApis plainLib set ⟨.absent, none⟩ urlParts (lit "GET"))).all fun m =>
      m.api.core.permissions.all fun permission =>
        m.blocks (compileNetworkPolicies issuesDenied) permission.name

/-- Where the policies block every permission of the tier, they block every rule of an owner. -/
theorem blocks_of_all {policies : CompiledNetworkPolicies} {request : RequestView}
    {apis : List MatchedApi} {selection : Except FirewallAmbiguous (Option PyStr)}
    (hall : (baseTier apis).all fun m => m.api.core.permissions.all fun permission =>
      m.blocks policies permission.name) (m : MatchedApi) (permission : CompiledPermission)
    (rule : CompiledRule) (howner : OwnerRule plainLib policies request apis selection m permission
      rule) :
    m.blocks policies permission.name = true := by
  rw [all_eq_true] at hall
  exact all_eq_true.mp (hall m howner.winning.mem_tier) permission howner.winning.mem_permissions

/-- The request for the issues is answered with the block that lists the denied permission. -/
theorem matched_rule_decides_issues : ∃ set urlParts,
      compileFirewalls plainLib issuesFirewalls = some set ∧
      requestUrlParts plainLib (issuesUrl "me") = some urlParts ∧
      ∃ block, matchCompiledFirewallRequest plainLib (issuesUrl "me")
          (lit "get") (some set) (.raw issuesDenied) none none false = some (.block block) ∧
        block.reason = .permissionDenied ∧ block.permissions = [lit "issues"] ∧
        let request := requestView plainLib (issuesUrl "me") (lit "get") none
        let apis := requestApis plainLib set ⟨.absent, none⟩ urlParts (lit "GET")
        DeniedAnswer plainLib (compileNetworkPolicies issuesDenied) request apis
          (requestSelection plainLib apis ⟨.absent, none⟩ urlParts request)
          (pathUnsafe plainLib (issuesUrl "me") urlParts) (.block block) := by
  have hrun : ((compileFirewalls plainLib issuesFirewalls).bind fun set =>
      (requestUrlParts plainLib (issuesUrl "me")).map fun urlParts =>
        (issuesTierDenied set urlParts "me",
          (matchCompiledFirewallRequest plainLib (issuesUrl "me") (lit "get") (some set)
            (.raw issuesDenied) none none false).bind FirewallDecision.blocked)) =
      some (true, some (.permissionDenied, [lit "issues"])) := by
    decide +kernel
  obtain ⟨set, hset, hmatch⟩ := Option.bind_eq_some_iff.mp hrun
  obtain ⟨urlParts, hparts, hval⟩ := Option.map_eq_some_iff.mp hmatch
  simp only [Prod.mk.injEq, issuesTierDenied, Bool.and_eq_true] at hval
  obtain ⟨⟨hany, hall⟩, hblock⟩ := hval
  simp only [issuesTierMatches, any_eq_true] at hany
  obtain ⟨m, hm, permission, hpermission, rule, hrule, hmatch⟩ := hany
  obtain ⟨decision, hdec, -, hdenied⟩ := matched_rule_decides plainLib _ (lit "get") set
    (.raw issuesDenied) none none hparts hm hpermission hrule hmatch
  rw [hdec] at hblock
  cases decision with
  | block block =>
    obtain ⟨hreason, hpermissions⟩ := Prod.mk.inj (Option.some.inj hblock)
    exact ⟨set, urlParts, hset, hparts, block, hdec, hreason, hpermissions,
      hdenied (blocks_of_all hall)⟩
  | allow | policyAllow | ambiguous => simp [FirewallDecision.blocked] at hblock

/-- A request under an unsafe path is blocked as such, although a rule matches and
every rule of the selected owner is denied. -/
theorem unsafe_path_before_denial : ∃ set urlParts,
      compileFirewalls plainLib issuesFirewalls = some set ∧
      requestUrlParts plainLib (issuesUrl "..") = some urlParts ∧
      let request := requestView plainLib (issuesUrl "..") (lit "get") none
      let apis := requestApis plainLib set ⟨.absent, none⟩ urlParts (lit "GET")
      let selection := requestSelection plainLib apis ⟨.absent, none⟩ urlParts request
      (∃ m ∈ baseTier apis, ∃ permission ∈ m.api.core.permissions, ∃ rule ∈ permission.rules,
        ruleMatches plainLib rule (splitPathSegments m.relPath) request = true) ∧
      selection.toOption = some (some (lit "github")) ∧
      (∀ m permission rule, OwnerRule plainLib (compileNetworkPolicies issuesDenied) request apis
        selection m permission rule → m.blocks (compileNetworkPolicies issuesDenied) permission.name
          = true) ∧
      ∃ block, matchCompiledFirewallRequest plainLib (issuesUrl "..") (lit "get") (some set)
          (.raw issuesDenied) none none false = some (.block block) ∧
            block.reason = .unsafePath := by
  have hrun : ((compileFirewalls plainLib issuesFirewalls).bind fun set =>
      (requestUrlParts plainLib (issuesUrl "..")).map fun urlParts =>
        (issuesTierDenied set urlParts "..",
          (requestSelection plainLib (requestApis plainLib set ⟨.absent, none⟩ urlParts (lit "GET"))
            ⟨.absent, none⟩ urlParts (requestView plainLib (issuesUrl "..") (lit "get")
              none)).toOption,
          (matchCompiledFirewallRequest plainLib (issuesUrl "..") (lit "get") (some set)
            (.raw issuesDenied) none none false).bind FirewallDecision.blockReason)) =
      some (true, some (some (lit "github")), some .unsafePath) := by
    decide +kernel
  obtain ⟨set, hset, hmatch⟩ := Option.bind_eq_some_iff.mp hrun
  obtain ⟨urlParts, hparts, hval⟩ := Option.map_eq_some_iff.mp hmatch
  simp only [Prod.mk.injEq, issuesTierDenied, Bool.and_eq_true] at hval
  obtain ⟨⟨hany, hall⟩, hselection, hblock⟩ := hval
  refine ⟨set, urlParts, hset, hparts, by simpa [issuesTierMatches] using hany, hselection, ?_, ?_⟩
  · exact blocks_of_all hall
  · obtain ⟨decision, hdec, hreas⟩ := Option.bind_eq_some_iff.mp hblock
    cases decision with
    | block block => exact ⟨block, hdec, Option.some.inj hreas⟩
    | allow | policyAllow | ambiguous => simp [FirewallDecision.blockReason] at hreas

end

end Okou.Firewall
