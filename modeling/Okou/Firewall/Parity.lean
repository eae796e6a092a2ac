import Okou.Firewall.Decision

/-!
# The indexes change nothing

Both passes of the matcher look at an API's rules only through those that match
the request, and at the candidates only through those whose base matches.  An
index that returns all of these in order is as good as the full lists.
-/

namespace Okou.Firewall

open List FirewallMatchCollection

section

variable (py : PyLib)

/-! ### The rules that match -/

variable (api : CompiledApi) (indexedRules : Bool) (m : MatchedApi) (upperMethod : PyStr)
  (isAsteriskForm : Bool) (relPathSegs : List PyStr) (policy : Option CompiledNetworkPolicy)
  (policies : CompiledNetworkPolicies) (request : RequestView)

variable (c : FirewallMatchCollection) (winning : PathSpecificity)
  (entries : List CompiledRuleEntry)

/-- The rules of an API that match a request, in order. -/
def matchingEntries : List CompiledRuleEntry :=
  api.core.ruleIndex.allRules.filter fun entry => ruleMatches py entry.rule relPathSegs request

/-- The rules of an API that match a request at a given specificity. -/
def hitEntries : List CompiledRuleEntry :=
  (matchingEntries py api relPathSegs request).filter fun entry =>
    decide (entry.rule.specificity = winning)

theorem allRules_ordered : api.core.ruleIndex.allRules.Pairwise fun a b => a.order < b.order := by
  rw [api.core.ruleIndex_eq]
  exact ruleEntries_ordered _

/-- From the index or from the full list come the same matching rules. -/
theorem ruleEntriesOf_matching (api) (relPathSegs) (request) :
    ((ruleEntriesOf indexedRules api request.upperMethod relPathSegs).filter fun entry =>
      ruleMatches py entry.rule relPathSegs request) = matchingEntries py api relPathSegs
        request := by
  cases indexedRules with
  | false => rfl
  | true =>
    rw [ruleEntriesOf, if_pos rfl, matchingEntries, api.core.ruleIndex_eq, indexedRuleCandidates_eq,
      filter_filter]
    refine filter_congr fun entry _ => ?_
    cases hmatch : ruleMatches py entry.rule relPathSegs request with
    | false => rfl
    | true =>
      -- a rule that matches is one the index returns
      have hreach := reachable_of_ruleMatches py hmatch
      simp only [ruleMatches, Bool.and_eq_true] at hmatch
      rw [hreach, hmatch.1.1]
      rfl

theorem ruleEntriesOf_ordered (api) (upperMethod : PyStr) (relPathSegs) :
    (ruleEntriesOf indexedRules api upperMethod relPathSegs).Pairwise fun a b =>
      a.order < b.order := by
  cases indexedRules with
  | false => exact allRules_ordered api
  | true =>
    rw [ruleEntriesOf, if_pos rfl, api.core.ruleIndex_eq, indexedRuleCandidates_eq]
    exact (ruleEntries_ordered _).filter _

/-! ### The first pass -/

/-- A rule that cannot affect the collection would not change it either. -/
theorem recordRuleRoute_of_not_affect {c : FirewallMatchCollection} {specificity : PathSpecificity}
    (h : c.canRuleAffectCollection specificity = false) (apiOrder : ℕ) :
    c.recordRuleRoute apiOrder specificity = c := by
  unfold canRuleAffectCollection at h
  unfold recordRuleRoute
  split
  · next hnone => simp [hnone] at h
  · next best hbest =>
    simp only [hbest, decide_eq_false_iff_not, not_le] at h
    rw [if_neg (not_lt_of_gt h), if_pos h]

theorem collectRule_eq (entry) : c.collectRule py m relPathSegs request entry =
      if ruleMatches py entry.rule relPathSegs request then
        c.recordRuleRoute m.order entry.rule.specificity
      else c := by
  unfold collectRule
  cases hmeth : entry.rule.method.covers request.upperMethod with
  | false => simp [ruleMatches, hmeth]
  | true =>
    rw [ruleRoutes_eq py _ hmeth]
    cases haff : c.canRuleAffectCollection entry.rule.specificity with
    | true => cases ruleMatches py entry.rule relPathSegs request <;> rfl
    | false =>
      rw [recordRuleRoute_of_not_affect haff]
      cases ruleMatches py entry.rule relPathSegs request <;> rfl

/-- The first pass over an API's rules records those that match. -/
theorem collectRuleRoutes_eq : c.collectRuleRoutes py m relPathSegs request
        (ruleEntriesOf indexedRules m.api request.upperMethod relPathSegs) =
      (matchingEntries py m.api relPathSegs request).foldl
        (fun c entry => c.recordRuleRoute m.order entry.rule.specificity) c := by
  rw [← ruleEntriesOf_matching py indexedRules, foldl_filter, collectRuleRoutes]
  congr 1
  funext c entry
  exact collectRule_eq py m relPathSegs request c entry

/-! ### The second pass -/

/-- The second pass over the rules of one API that match at the winning specificity:
it stops at the first that is allowed. -/
def evaluateHits (m : MatchedApi) (policy : Option CompiledNetworkPolicy)
    (relPathSegs : List PyStr) :
    List CompiledRuleEntry → FirewallDecisionState → FirewallDecisionState
  | [], s => s
  | entry :: entries, s =>
    if permissionBlocked policy entry.permission then
      evaluateHits m policy relPathSegs entries (s.recordDeniedRule m.blockMatch entry.permission)
    else
      s.recordAllowedRule ⟨m.api.rawApiEntry, m.firewall.core.name, m.relPath, entry.permission,
        entry.rule.raw,
        dictMerge m.baseParams ((matchCompiledPathSegments relPathSegs entry.rule.path).getD [])⟩

/-- Rules of other orders do not touch the table at an order. -/
theorem dictGet_addAwsEntries {relPathSegs} {request} {winning}
    {order} (hother : ∀ entry ∈ entries, entry.order ≠ order) : ∀ found : List (ℕ × Params),
    dictGet order (entries.foldl (addAwsEntry py relPathSegs request winning) found) =
      dictGet order found := by
  induction entries with
  | nil => exact fun _ => rfl
  | cons entry entries ih =>
    intro found
    rw [foldl_cons, ih (forall_mem_cons.mp hother).2]
    unfold addAwsEntry
    split
    · rfl
    · split
      · rfl
      · rw [dictGet_dictSet, if_neg (hother entry mem_cons_self)]

variable {entry : CompiledRuleEntry} {winning entries}

/-- The table of the first loop, at the order of one of its rules. -/
theorem matchedAwsEntries_get (hord : entries.Pairwise fun a b => a.order < b.order)
    (hentry : entry ∈ entries)
    (haws : entry.rule.awsPredicates.isSome) (hwin : entry.rule.specificity = winning) :
    dictGet entry.order (matchedAwsEntries py relPathSegs request winning entries) =
      ruleRequestParams py entry.rule relPathSegs request := by
  obtain ⟨before, after, rfl⟩ := append_of_mem hentry
  obtain ⟨_, hafter, hbef⟩ := pairwise_append.mp hord
  have hlater : ∀ e ∈ after, e.order ≠ entry.order := fun e he =>
    Nat.ne_of_gt ((pairwise_cons.mp hafter).1 e he)
  have hearl : ∀ e ∈ before, e.order ≠ entry.order := fun e he =>
    Nat.ne_of_lt (hbef e he entry mem_cons_self)
  rw [matchedAwsEntries, foldl_append, foldl_cons, dictGet_addAwsEntries py after hlater,
    addAwsEntry, if_neg (by simp [Option.isSome_iff_ne_none.mp haws, hwin])]
  split
  · next hnone => rw [dictGet_addAwsEntries py before hearl, hnone]; rfl
  · next hsome => rw [dictGet_dictSet, if_pos rfl, hsome]

/-- At a rule of the winning specificity whose method covers the request's, both
tests of the second loop ask whether the rule matches. -/
theorem winningRuleParams_eq {request} (hord : entries.Pairwise fun a b => a.order < b.order)
    (hentry : entry ∈ entries) (hmeth : entry.rule.method.covers request.upperMethod)
    (hwin : entry.rule.specificity = winning) :
    winningRuleParams (matchedAwsEntries py relPathSegs request winning entries) relPathSegs entry =
        ruleRequestParams py entry.rule relPathSegs request ∧
      blockedRuleTakesPart (matchedAwsEntries py relPathSegs request winning entries) relPathSegs
        entry = ruleMatches py entry.rule relPathSegs request := by
  unfold winningRuleParams blockedRuleTakesPart
  cases haws : entry.rule.awsPredicates with
  | none =>
    have hplain : ruleRequestParams py entry.rule relPathSegs request =
        matchCompiledPathSegments relPathSegs entry.rule.path := by
      simp only [ruleRequestParams, hmeth, haws]
      cases matchCompiledPathSegments relPathSegs entry.rule.path <;> rfl
    refine ⟨hplain.symm, ?_⟩
    rw [compiledPathSegmentsMatch_eq, ← hplain, ruleRequestParams_isSome]
  | some predicates =>
    have hget := matchedAwsEntries_get py relPathSegs request hord hentry
      (by rw [haws]; rfl) hwin
    exact ⟨hget, by rw [hget, ruleRequestParams_isSome]⟩

/-- The second pass over an API's rules looks at those that match at the winning
specificity. -/
theorem evaluateLoop_eq {relPathSegs} {request} {all}
    (hord : all.Pairwise fun a b => a.order < b.order) (entries) :
    entries ⊆ all → ∀ s : FirewallDecisionState,
    evaluateLoop m policy relPathSegs request winning
        (matchedAwsEntries py relPathSegs request winning all) entries s =
      evaluateHits m policy relPathSegs
        (entries.filter fun entry => decide (entry.rule.specificity = winning) &&
          ruleMatches py entry.rule relPathSegs request) s := by
  induction entries with
  | nil => exact fun _ _ => rfl
  | cons entry entries ih =>
    intro hsub s
    have ih := ih fun e he => hsub (mem_cons_of_mem _ he)
    rw [evaluateLoop, filter_cons]
    cases hmeth : entry.rule.method.covers request.upperMethod with
    | false => simpa [ruleMatches, hmeth] using ih s
    | true =>
      simp only [Bool.not_true, Bool.false_eq_true, if_false]
      by_cases hwin : entry.rule.specificity = winning
      · obtain ⟨hpar, hblock⟩ := winningRuleParams_eq py relPathSegs hord
          (hsub mem_cons_self) hmeth hwin
        rw [if_neg (not_not.mpr hwin), hpar, hblock]
        cases hmatch : ruleMatches py entry.rule relPathSegs request with
        | false =>
          -- a rule that does not match is passed over, blocked or not
          have hnone : ruleRequestParams py entry.rule relPathSegs request = none := by
            rw [← Option.not_isSome_iff_eq_none, ruleRequestParams_isSome, hmatch]
            exact Bool.false_ne_true
          simp only [hnone, Bool.and_false, Bool.false_eq_true, if_false, ite_self]
          exact ih s
        | true =>
          obtain ⟨params, hsome⟩ := Option.isSome_iff_exists.mp
            ((ruleRequestParams_isSome py entry.rule relPathSegs request).trans hmatch)
          have hpath := ruleRequestParams_eq py hsome
          simp only [hwin, decide_true, Bool.and_self, if_true, evaluateHits, hsome, hpath]
          split
          · exact ih _
          · rfl
      · simpa [hwin] using ih s

/-- `_evaluate_selected_rule_entries`, from the index or from the full list. -/
theorem evaluateSelectedRuleEntries_eq (relPathSegs) (request) (winning)
    (s) : evaluateSelectedRuleEntries py m policy relPathSegs request winning
        (ruleEntriesOf indexedRules m.api request.upperMethod relPathSegs) s =
      evaluateHits m policy relPathSegs (hitEntries py m.api relPathSegs request winning) s := by
  rw [evaluateSelectedRuleEntries, evaluateLoop_eq py m policy
    (ruleEntriesOf_ordered indexedRules m.api request.upperMethod relPathSegs) _
    (List.Subset.refl _), ← filter_filter, ruleEntriesOf_matching py]
  rfl

/-! ### The whole match -/

/-- The first loop sees only candidates whose base can match. -/
theorem collectBaseMatches_filter {urlParts} (unsafePath : Bool)
    (candidates) : collectBaseMatches py urlParts upperMethod isAsteriskForm unsafePath
        (candidates.filter fun candidate => possible py urlParts candidate.api.core.base) =
      collectBaseMatches py urlParts upperMethod isAsteriskForm unsafePath candidates := by
  induction candidates with
  | nil => rfl
  | cons candidate candidates ih =>
    cases hmatch : matchCompiledBaseUrlParts py urlParts candidate.api.core.base with
    | none =>
      rw [collectBaseMatches, hmatch, filter_cons]
      split
      · rw [collectBaseMatches, hmatch]
        exact ih
      · exact ih
    | some result =>
      have hposs := possible_of_match py hmatch
      rw [filter_cons, if_pos hposs, collectBaseMatches, collectBaseMatches, ih]

/-- The first pass is the same from the index and from the full list. -/
theorem collectMatches_eq (intent) (request) (baseMatches) :
    collectMatches py indexedRules isAsteriskForm intent request baseMatches =
      collectMatches py false isAsteriskForm intent request baseMatches := by
  unfold collectMatches
  congr 1
  unfold collectApi
  simp only [collectRuleRoutes_eq]

/-- So is the second. -/
theorem evaluateApis_eq (winning) (winningOrders evaluable : List ℕ)
    (apis) : ∀ s : FirewallDecisionState,
    evaluateApis py indexedRules policies request winning winningOrders evaluable apis s =
      evaluateApis py false policies request winning winningOrders evaluable apis s := by
  induction apis with
  | nil => exact fun _ => rfl
  | cons m apis ih =>
    intro s
    simp only [evaluateApis, evaluateSelectedRuleEntries_eq, ih]

theorem reduceSelectedOwner_eq (selectedName) (policies) (indexedRules : Bool)
    (request) : reduceSelectedOwner py c selectedName policies indexedRules request =
      reduceSelectedOwner py c selectedName policies false request := by
  unfold reduceSelectedOwner reduceWithoutConflict
  simp only [evaluateApis_eq py indexedRules]

/-- **The indexed matcher decides as the linear one**: for every firewall set, every
policies payload and every request, the same decision with all of its data. -/
theorem match_eq_linear (url method : PyStr) (compiledFirewalls : Option (CompiledFirewallSet py))
    (networkPolicies : NetworkPolicies) (intent : Option ConnectorIntent)
    (context : Option FirewallRequestContext) (isAsteriskForm : Bool) :
    matchCompiledFirewallRequest py url method compiledFirewalls networkPolicies intent context
        isAsteriskForm =
      matchCompiledFirewallRequestLinear py url method compiledFirewalls networkPolicies intent
        context
        isAsteriskForm := by
  unfold matchCompiledFirewallRequest matchCompiledFirewallRequestLinear matchRequest
  cases compiledFirewalls with
  | none => rfl
  | some set =>
    dsimp only
    split
    · rfl
    · cases hparts : requestUrlParts py url with
      | none => rfl
      | some urlParts =>
        dsimp only
        unfold decideRequest
        rw [set.apiIndex_eq, indexedApiCandidates_eq]
        simp only [collectBaseMatches_filter, collectMatches_eq py true,
          reduceSelectedOwner_eq py _ _ _ true]
        rfl

end

end Okou.Firewall
