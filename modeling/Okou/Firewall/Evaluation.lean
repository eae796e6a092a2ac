import Mathlib.Data.List.Dedup
import Okou.Firewall.Selection

/-!
# What the second pass decides

The second pass visits the winning rules of the selected owner's evaluable APIs in
order, collects the permissions that are blocked, and stops at the first that is
not.  What the loop over the malformed APIs recorded decides only if no rule was
visited at all.
-/

namespace Okou.Firewall

open List FirewallDecisionState

section

variable (py : PyLib) (policies : CompiledNetworkPolicies)

/-! ### The routes the second pass visits -/

variable (s : FirewallDecisionState) (m : MatchedApi)

/-- An API that configuration and policies allow to be evaluated. -/
def evaluable : Bool := !configUnusable m && !policyUnusable policies m

/-- Whether the policy of an API's firewall blocks a permission. -/
def MatchedApi.blocks (permission : PyStr) : Bool :=
  permissionBlocked (dictGet m.firewall.core.name policies.policies) permission

/-- What an allowed rule records. -/
def allowedRule (entry : CompiledRuleEntry) : AllowedRuleMatch :=
  ⟨m.api.rawApiEntry, m.firewall.core.name, m.relPath, entry.permission, entry.rule.raw,
    dictMerge m.baseParams
      ((matchCompiledPathSegments (splitPathSegments m.relPath) entry.rule.path).getD [])⟩

/-- The second pass over rules of several APIs: it stops at the first that is not
blocked. -/
def evaluateRoutes : List (MatchedApi × CompiledRuleEntry) → FirewallDecisionState →
    FirewallDecisionState
  | [], s => s
  | (m, entry) :: routes, s =>
    if m.blocks policies entry.permission then
      evaluateRoutes routes (s.recordDeniedRule m.blockMatch entry.permission)
    else s.recordAllowedRule (allowedRule m entry)

/-- The rules the second pass visits. -/
def visitedRoutes (request : RequestView) (winning : PathSpecificity)
    (winningOrders evaluableOrders : List ℕ) (apis : List MatchedApi) :
    List (MatchedApi × CompiledRuleEntry) :=
  (apis.filter fun m => decide (m.order ∈ winningOrders) &&
    decide (m.order ∈ evaluableOrders)).flatMap
    fun m => (m.hits py request winning).map (m, ·)

theorem evaluateHits_eq_routes (entries) : ∀ s : FirewallDecisionState,
      evaluateHits m (dictGet m.firewall.core.name policies.policies) (splitPathSegments m.relPath)
          entries s =
        evaluateRoutes policies (entries.map (m, ·)) s := by
  induction entries with
  | nil => exact fun _ => rfl
  | cons entry entries ih =>
    intro s
    rw [evaluateHits, map_cons, evaluateRoutes, ih]
    rfl

/-- A second part is visited only if the first allowed nothing. -/
theorem evaluateRoutes_append (first second) :
    ∀ s : FirewallDecisionState, s.allowedMatch = none →
        evaluateRoutes policies (first ++ second) s =
        if (evaluateRoutes policies first s).allowedMatch.isSome then evaluateRoutes policies first
          s
        else evaluateRoutes policies second (evaluateRoutes policies first s) := by
  induction first with
  | nil =>
    intro s hs
    simp [evaluateRoutes, hs]
  | cons route first ih =>
    intro s hs
    rw [cons_append, evaluateRoutes, evaluateRoutes]
    split
    · exact ih _ hs
    · simp [recordAllowedRule]

variable {request : RequestView} {winning : PathSpecificity} {entry : CompiledRuleEntry}
  {routes : List (MatchedApi × CompiledRuleEntry)} {eligible : List MatchedApi}
  {intent : ConnectorIntent}
  {upperMethod path : PyStr} {selectedName : Option PyStr}

/-- Once a rule is allowed no further API is visited. -/
theorem evaluateApis_of_allowed {indexedRules} {winningOrders evaluableOrders} (apis)
    {s} (hs : s.allowedMatch.isSome) :
    evaluateApis py indexedRules policies request winning winningOrders evaluableOrders apis s =
      s := by
  cases apis with
  | nil => rfl
  | cons m apis => rw [evaluateApis, if_pos hs]

/-- The loop over the APIs visits their winning rules one after the other. -/
theorem evaluateApis_eq_routes (indexedRules : Bool) (request)
    (winning) (winningOrders evaluableOrders : List ℕ) (apis) :
    ∀ s : FirewallDecisionState, s.allowedMatch = none →
      evaluateApis py indexedRules policies request winning winningOrders evaluableOrders apis s =
        evaluateRoutes policies
          (visitedRoutes py request winning winningOrders evaluableOrders apis) s := by
  induction apis with
  | nil => exact fun _ _ => rfl
  | cons m apis ih =>
    intro s hs
    have hskip : m.order ∉ winningOrders ∨ m.order ∉ evaluableOrders →
        visitedRoutes py request winning winningOrders evaluableOrders (m :: apis) =
          visitedRoutes py request winning winningOrders evaluableOrders apis := by
      intro h
      rw [visitedRoutes, filter_cons, if_neg]
      · rfl
      · simpa [Decidable.imp_iff_not_or] using h
    rw [evaluateApis, if_neg (by simp [hs])]
    by_cases hwinning : m.order ∈ winningOrders
    · by_cases hevaluable : m.order ∈ evaluableOrders
      · rw [if_neg (not_not.mpr hwinning), if_neg (not_not.mpr hevaluable)]
        have hvisit : visitedRoutes py request winning winningOrders evaluableOrders (m :: apis) =
            (m.hits py request winning).map (m, ·) ++
              visitedRoutes py request winning winningOrders evaluableOrders apis := by
          rw [visitedRoutes, filter_cons, if_pos (by simp [hwinning, hevaluable]), flatMap_cons]
          rfl
        rw [hvisit, evaluateRoutes_append policies _ _ s hs]
        dsimp only
        rw [evaluateSelectedRuleEntries_eq, evaluateHits_eq_routes]
        split
        · next hallowed => exact evaluateApis_of_allowed py policies apis hallowed
        · next hallowed =>
          exact ih _ (Option.not_isSome_iff_eq_none.mp hallowed)
      · rw [if_neg (not_not.mpr hwinning), if_pos hevaluable, hskip (.inr hevaluable)]
        exact ih s hs
    · rw [if_pos hwinning, hskip (.inl hwinning)]
      exact ih s hs

/-! ### What the routes come to -/

theorem mem_recordDeniedRule {s : FirewallDecisionState} {m : BlockMatch}
    {permission other : PyStr} : other ∈ (s.recordDeniedRule m permission).deniedPermissionNames ↔
      other ∈ s.deniedPermissionNames ∨ permission = other := by
  simp only [recordDeniedRule]
  split
  · next hmem => exact ⟨.inl, fun h => h.elim id fun heq => heq ▸ hmem⟩
  · rw [mem_append, mem_singleton, @eq_comm _ other]

theorem nodup_recordDeniedRule {s : FirewallDecisionState} (hs : s.deniedPermissionNames.Nodup) (m)
    (permission : PyStr) : (s.recordDeniedRule m permission).deniedPermissionNames.Nodup := by
  simp only [recordDeniedRule]
  split
  · exact hs
  · next hnew => exact hs.append (nodup_singleton _) (disjoint_singleton.mpr hnew)

/-- The state after a list of rules that are all blocked. -/
structure AllDenied (routes : List (MatchedApi × CompiledRuleEntry))
    (s s' : FirewallDecisionState) : Prop where
  allowed : s'.allowedMatch = s.allowedMatch
  denied : s'.deniedMatch.isSome = true ↔ s.deniedMatch.isSome = true ∨ routes ≠ []
  names : ∀ permission, permission ∈ s'.deniedPermissionNames ↔
    permission ∈ s.deniedPermissionNames ∨ ∃ route ∈ routes, route.2.permission = permission
  nodup : s.deniedPermissionNames.Nodup → s'.deniedPermissionNames.Nodup
  base : s'.baseMatch = s.baseMatch
  config : s'.malformedConfigMatch = s.malformedConfigMatch
  policy : s'.malformedPolicyMatch = s.malformedPolicyMatch

theorem AllDenied.nil : AllDenied [] s s where
  allowed := rfl
  denied := by simp
  names := by simp
  nodup h := h
  base := rfl
  config := rfl
  policy := rfl

variable {s' : FirewallDecisionState}

theorem AllDenied.cons {m : MatchedApi} {s : FirewallDecisionState}
    (h : AllDenied routes (s.recordDeniedRule m.blockMatch entry.permission) s') :
    AllDenied ((m, entry) :: routes) s s' where
  __ := h
  denied := by
    rw [h.denied]
    simp [recordDeniedRule]
  names permission := by
    rw [h.names, mem_recordDeniedRule, or_assoc]
    simp
  nodup hs := h.nodup (nodup_recordDeniedRule hs _ _)

/-- **The second pass allows a rule that is not blocked, or finds all of them
blocked.** -/
theorem evaluateRoutes_cases (routes) :
    ∀ s : FirewallDecisionState, s.allowedMatch = none →
      (∃ route ∈ routes, route.1.blocks policies route.2.permission = false ∧
        (evaluateRoutes policies routes s).allowedMatch = some (allowedRule route.1 route.2) ∧
        (evaluateRoutes policies routes s).baseMatch = s.baseMatch) ∨
      (∀ route ∈ routes, route.1.blocks policies route.2.permission) ∧
        AllDenied routes s (evaluateRoutes policies routes s) := by
  induction routes with
  | nil => exact fun s _ => .inr ⟨by simp, AllDenied.nil s⟩
  | cons route routes ih =>
    intro s hs
    obtain ⟨m, entry⟩ := route
    rw [evaluateRoutes]
    split
    · next hblocked =>
      rcases ih (s.recordDeniedRule m.blockMatch entry.permission) hs with
        ⟨route, hroute, hallowed⟩ | ⟨hall, hden⟩
      · exact .inl ⟨route, mem_cons_of_mem _ hroute, hallowed⟩
      · exact .inr ⟨forall_mem_cons.mpr ⟨hblocked, hall⟩, hden.cons⟩
    · next hblocked =>
      refine .inl ⟨(m, entry), mem_cons_self, Bool.eq_false_iff.mpr hblocked, ?_, rfl⟩
      simp [recordAllowedRule, hs]

/-! ### What was recorded as malformed -/

/-- An API whose configuration the loop over the relevant APIs reports. -/
def configReported : Bool :=
  m.api.core.baseMalformed || m.api.core.authMalformed || m.api.core.hasMalformedRules ||
    m.api.core.routingIdentity.isNone

/-- What the loop over the relevant APIs leaves. -/
structure Recorded (relevant : List MatchedApi) (s s' : FirewallDecisionState) : Prop where
  allowed : s'.allowedMatch = s.allowedMatch
  denied : s'.deniedMatch = s.deniedMatch
  names : s'.deniedPermissionNames = s.deniedPermissionNames
  base : s'.baseMatch = s.baseMatch
  config : (s.malformedConfigMatch.isSome = true ∨ ∃ m ∈ relevant, configReported m = true) →
    s'.malformedConfigMatch.isSome = true
  policy : (s.malformedPolicyMatch.isSome = true ∨
      ∃ m ∈ relevant, configUnusable m = false ∧ policyUnusable policies m = true) →
    s'.malformedPolicyMatch.isSome = true

/-- One turn of that loop. -/
theorem recordMalformed_recorded : Recorded policies [m] s (recordMalformed policies s m) := by
  unfold recordMalformed
  constructor <;> dsimp only
  · split_ifs <;> rfl
  · split_ifs <;> rfl
  · split_ifs <;> rfl
  · split_ifs <;> rfl
  · rw [show (m.api.core.baseMalformed || m.api.core.authMalformed ||
      m.api.core.hasMalformedRules ||
      m.api.core.routingIdentity.isNone) = configReported m from rfl]
    split_ifs <;>
      simp_all [recordMalformedConfig, recordMalformedPolicy]
  · split_ifs <;>
      simp_all [recordMalformedConfig, recordMalformedPolicy]

theorem foldl_recordMalformed (relevant) : ∀ s : FirewallDecisionState,
    Recorded policies relevant s (relevant.foldl (recordMalformed policies) s) := by
  induction relevant with
  | nil =>
    intro s
    exact ⟨rfl, rfl, rfl, rfl, by simp, by simp⟩
  | cons m relevant ih =>
    intro s
    have hfirst := recordMalformed_recorded policies s m
    have hrest := ih (recordMalformed policies s m)
    refine ⟨hrest.allowed.trans hfirst.allowed, hrest.denied.trans hfirst.denied,
      hrest.names.trans hfirst.names, hrest.base.trans hfirst.base, ?_, ?_⟩
    · intro h
      apply hrest.config
      rw [exists_mem_cons_iff, ← or_assoc] at h
      exact h.imp_left fun h => hfirst.config (by simpa using h)
    · intro h
      apply hrest.policy
      rw [exists_mem_cons_iff, ← or_assoc] at h
      exact h.imp_left fun h => hfirst.policy (by simpa using h)

/-! ### The selected owner -/

namespace FirewallMatchCollection

variable {c : FirewallMatchCollection} {name : PyStr}

theorem mem_winningOwnerNames : name ∈ c.winningOwnerNames ↔ ∃ m ∈ c.winningApiMatches,
      m.firewall.core.nameMalformed = false ∧ m.firewall.core.name = name := by
  unfold winningOwnerNames
  rw [mem_insertionSort, mem_dedup, mem_map]
  simp only [mem_filter, Bool.not_eq_true']
  exact exists_congr fun m => and_assoc

theorem mem_of_ownerNameForIntent {value}
    (h : c.ownerNameForIntent value = some name) : name ∈ c.winningOwnerNames := by
  unfold ownerNameForIntent at h
  split at h
  · next only honly =>
    have hmem : name ∈ [only] := by rw [Option.some.inj h]; exact mem_singleton_self _
    rw [← honly, mem_dedup, mem_map] at hmem
    obtain ⟨m, hm, rfl⟩ := hmem
    simp only [mem_filter, Bool.and_eq_true, Bool.not_eq_true'] at hm
    exact mem_winningOwnerNames.mpr ⟨m, hm.1, hm.2.1, rfl⟩
  · simp at h

/-- An owner that is selected has a winning API; if none is, there is no name to
select. -/
theorem selectedOwnerName_ok (h : c.selectedOwnerName intent upperMethod path = .ok selectedName) :
    (selectedName = none ∧ c.winningOwnerNames = []) ∨ ∃ name ∈ c.winningOwnerNames,
      selectedName = some name := by
  unfold selectedOwnerName at h
  split at h
  · next hnames => exact .inl ⟨(Except.ok.inj h).symm, hnames⟩
  · next owner hnames =>
    exact .inr ⟨owner, hnames ▸ mem_singleton_self _, (Except.ok.inj h).symm⟩
  · split at h
    · split at h
      · next name hname =>
        exact .inr ⟨name, mem_of_ownerNameForIntent hname, (Except.ok.inj h).symm⟩
      · simp at h
    · simp at h

end FirewallMatchCollection

/-- A winning rule of the selected owner's evaluable APIs. -/
structure SelectedRoute (request : RequestView) (winning : PathSpecificity) (tier : List MatchedApi)
    (selectedName : Option PyStr) (m : MatchedApi) (entry : CompiledRuleEntry) : Prop where
  api : m ∈ tier
  owner : selectedName = some m.firewall.core.name
  evaluable : evaluable policies m = true
  hit : entry ∈ m.hits py request winning

theorem nameMalformed_of_evaluable {m} (h : evaluable policies m) :
    m.firewall.core.nameMalformed = false := by
  simp only [evaluable, configUnusable, Bool.and_eq_true, Bool.not_eq_true',
    Bool.or_eq_false_iff] at h
  exact h.1.1.1.1

variable (hord : eligible.Pairwise fun a b => a.order < b.order)
  (hwinning : winningSpecificity py request (baseTier eligible) = some winning)
  (hsel : (collectionOf py request eligible).selectedOwnerName intent upperMethod path =
    .ok selectedName)

include hord hwinning hsel

/-- The second pass visits the selected routes. -/
theorem mem_visitedRoutes {m} : (m, entry) ∈ visitedRoutes py request winning
        (collectionOf py request eligible).winningRuleApiOrders
        (evaluableApiOrders policies ((collectionOf py request eligible).relevantOwnerApiMatches
          selectedName))
        (collectionOf py request eligible).apiMatches ↔
      SelectedRoute py policies request winning (baseTier eligible) selectedName m entry := by
  set c := collectionOf py request eligible with hc
  have htier : c.apiMatches = baseTier eligible := rfl
  have hrelevant : ∀ m ∈ c.relevantOwnerApiMatches selectedName, m ∈ baseTier eligible := by
    intro m hm
    cases selectedName with
    | none => exact hm
    | some name => exact mem_of_mem_filter hm
  -- the orders tell the APIs of the tier apart
  have hevaluable : ∀ m ∈ baseTier eligible,
      (m.order ∈ evaluableApiOrders policies (c.relevantOwnerApiMatches selectedName) ↔
        m ∈ c.relevantOwnerApiMatches selectedName ∧ evaluable policies m) := by
    intro m hm
    rw [evaluableApiOrders, mem_map]
    constructor
    · rintro ⟨m', hm', horder⟩
      obtain ⟨hmem, hm'⟩ := mem_filter.mp hm'
      obtain rfl := eq_of_order_eq (hord.filter _) (hrelevant m' hmem) hm horder
      exact ⟨hmem, hm'⟩
    · rintro ⟨hmem, hm'⟩
      exact ⟨m, mem_filter.mpr ⟨hmem, hm'⟩, rfl⟩
  simp only [visitedRoutes, mem_flatMap, mem_filter, mem_map, Bool.and_eq_true, decide_eq_true_eq]
  constructor
  · rintro ⟨m', ⟨hm', _, horder⟩, entry', hentry, heq⟩
    obtain ⟨rfl, rfl⟩ := Prod.mk.inj heq
    obtain ⟨hmem, heval⟩ := (hevaluable m' hm').mp horder
    have hname := nameMalformed_of_evaluable policies heval
    refine ⟨hm', ?_, heval, hentry⟩
    cases selectedName with
    | none =>
      -- no owner is selected only when the names of all winning APIs are malformed
      rcases FirewallMatchCollection.selectedOwnerName_ok hsel with ⟨_, hnone⟩ | ⟨_, _, hsome⟩
      · have hmemb := FirewallMatchCollection.mem_winningOwnerNames.mpr
          ⟨m', (mem_winningApiMatches py hord hwinning).mpr ⟨hm', ne_nil_of_mem hentry⟩, hname, rfl⟩
        rw [hnone] at hmemb
        exact absurd hmemb not_mem_nil
      · simp at hsome
    | some name =>
      have hfilt := (mem_filter.mp hmem).2
      simp only [hname, Bool.or_false, decide_eq_true_eq] at hfilt
      rw [hfilt]
  · intro hroute
    have hrel : m ∈ c.relevantOwnerApiMatches selectedName := by
      rw [hroute.owner]
      exact mem_filter.mpr ⟨hroute.api, by simp⟩
    refine ⟨m, ⟨hroute.api, ?_, (hevaluable m hroute.api).mpr ⟨hrel, hroute.evaluable⟩⟩, entry,
      hroute.hit, rfl⟩
    exact (mem_winningRuleApiOrders py hwinning).mpr
      ⟨m, hroute.api, rfl, ne_nil_of_mem hroute.hit⟩

/-! ### The decision -/

/-- The allow of a rule. -/
def ruleAllow (entry : CompiledRuleEntry) : FirewallAllow :=
  let rule := allowedRule m entry
  ⟨rule.apiEntry, rule.name, some rule.permission, rule.params, some rule.rule, rule.relPath⟩

/-- What a request some rule matches can come to, given the winning rules of the
selected owner's evaluable APIs. -/
inductive RuleOutcome (selected : MatchedApi → CompiledRuleEntry → Prop) : FirewallDecision → Prop
  | allowed {m : MatchedApi} {entry : CompiledRuleEntry} (route : selected m entry)
      (free : m.blocks policies entry.permission = false) :
      RuleOutcome selected (.allow (ruleAllow m entry))
  | denied {block : FirewallBlock} (reason : block.reason = .permissionDenied)
      (blocked : ∀ m entry, selected m entry → m.blocks policies entry.permission = true)
      (nodup : block.permissions.Nodup)
      (permissions : ∀ permission, permission ∈ block.permissions ↔
        ∃ m entry, selected m entry ∧ entry.permission = permission) :
      RuleOutcome selected (.block block)
  | malformed {block : FirewallBlock}
      (reason : block.reason = .malformedFirewallConfig ∨ block.reason = .malformedNetworkPolicy)
      (permissions : block.permissions = []) : RuleOutcome selected (.block block)

variable {c : FirewallMatchCollection}

omit hord hwinning hsel in
/-- A conflict is a malformed configuration. -/
theorem conflictingSelectedApiBlock_eq_some {selectedName}
    {block} (h : c.conflictingSelectedApiBlock selectedName = some block) :
    block.reason = .malformedFirewallConfig ∧ block.permissions = [] := by
  unfold FirewallMatchCollection.conflictingSelectedApiBlock at h
  dsimp only at h
  split at h
  · split at h
    · rw [← Option.some.inj h]
      exact ⟨rfl, rfl⟩
    · rw [Option.ite_none_left_eq_some] at h
      rw [← Option.some.inj h.2]
      exact ⟨rfl, rfl⟩
  · simp at h

/-- Where nothing is to be visited, something malformed was reported: a winning API of
the selected owner is not evaluable, or the names of all winning APIs are
malformed. -/
theorem route_or_reported (hapis : ∀ m ∈ eligible, m.api ∈ m.firewall.apis) :
    ∃ m ∈ (collectionOf py request eligible).relevantOwnerApiMatches selectedName,
      (∃ entry, SelectedRoute py policies request winning (baseTier eligible) selectedName m entry)
        ∨
        configReported m = true ∨ configUnusable m = false ∧ policyUnusable policies m = true := by
  set c := collectionOf py request eligible with hc
  rcases FirewallMatchCollection.selectedOwnerName_ok hsel with ⟨rfl, hnone⟩ | ⟨name, hname, rfl⟩
  · -- every winning API has a malformed name, and that is reported with the API
    obtain ⟨⟨⟨order, specificity⟩, hroute, rfl⟩, _⟩ := bestScore_eq_some.mp hwinning
    obtain ⟨m, hm, _, entry, hentry, hspec⟩ := (mem_tierRoutes py).mp hroute
    have hwin : m ∈ c.winningApiMatches := (mem_winningApiMatches py hord hwinning).mpr
      ⟨hm, ne_nil_of_mem ((MatchedApi.mem_hits py).mpr ⟨hentry, hspec⟩)⟩
    have hmalf : m.firewall.core.nameMalformed := by
      by_contra hwell
      have hmem := FirewallMatchCollection.mem_winningOwnerNames.mpr
        ⟨m, hwin, Bool.eq_false_iff.mpr hwell, rfl⟩
      exact not_mem_nil (hnone ▸ hmem)
    have hrules := m.firewall.malformed_name hmalf (hapis m (mem_of_mem_filter hm))
    exact ⟨m, hm, .inr (.inl (by simp [configReported, hrules]))⟩
  · obtain ⟨m, hwin, hwell, rfl⟩ := FirewallMatchCollection.mem_winningOwnerNames.mp hname
    obtain ⟨hm, hhits⟩ := (mem_winningApiMatches py hord hwinning).mp hwin
    obtain ⟨entry, hentry⟩ := exists_mem_of_ne_nil _ hhits
    refine ⟨m, mem_filter.mpr ⟨hm, by simp⟩, ?_⟩
    cases hconf : configUnusable m with
    | true =>
      simp only [configUnusable, hwell, Bool.or_eq_true] at hconf
      simp only [configReported, Bool.or_eq_true]
      tauto
    | false =>
      cases hpol : policyUnusable policies m with
      | true => exact .inr (.inr ⟨rfl, rfl⟩)
      | false => exact .inl ⟨entry, hm, rfl, by simp [evaluable, hconf, hpol], hentry⟩

omit hord hwinning hsel in
/-- With a winning rule there is a fallback as soon as an API is relevant. -/
theorem selectedBase_of_relevant (hbest : c.bestRuleSpecificity = some winning) {m}
    (hm : m ∈ c.relevantOwnerApiMatches selectedName) :
    ∃ base, (c.selectedBaseApiMatches selectedName).head?.map baseMatchOf = some base := by
  have hsame : c.selectedBaseApiMatches selectedName = c.relevantOwnerApiMatches selectedName := by
    unfold FirewallMatchCollection.selectedBaseApiMatches
    rw [hbest]
    cases selectedName <;> rfl
  obtain ⟨first, rest, hcons⟩ := exists_cons_of_ne_nil (ne_nil_of_mem hm)
  rw [hsame, hcons]
  exact ⟨_, rfl⟩

omit hord hwinning hsel in
/-- How a state is resolved that has visited the selected routes and allowed none. -/
theorem resolve_of_allDenied {selected}
    (hrout : ∀ {m entry}, (m, entry) ∈ routes ↔ selected m entry)
    (hall : ∀ route ∈ routes, route.1.blocks policies route.2.permission)
    {relevant} {base} {s}
    (hrec : Recorded policies relevant (.new (some base)) s) (hden : AllDenied routes s s')
    (hrep : ∃ m ∈ relevant, (∃ entry, selected m entry) ∨ configReported m ∨
      configUnusable m = false ∧ policyUnusable policies m = true) (upperMethod : PyStr) :
    ∃ decision, s'.resolve policies upperMethod = some decision ∧
      RuleOutcome policies selected decision := by
  rw [resolve, hden.base, hden.allowed, hrec.base, hrec.allowed]
  cases hmatch : s'.deniedMatch with
  | some first =>
    refine ⟨_, rfl, .denied rfl (fun m entry hroute => hall (m, entry) (hrout.mpr hroute))
      (hden.nodup (hrec.names ▸ nodup_nil)) fun permission => ?_⟩
    rw [hden.names, hrec.names]
    simp only [new, not_mem_nil, false_or, Prod.exists]
    exact exists_congr fun m => exists_congr fun entry => and_congr_left' hrout
  | none =>
    -- no rule was visited, so what is malformed decides
    have hnil : routes = [] := by
      by_contra hne
      have hsome := hden.denied.mpr (.inr hne)
      rw [hmatch] at hsome
      exact Bool.false_ne_true hsome
    rw [hden.policy, hden.config]
    cases hpol : s.malformedPolicyMatch with
    | some first => exact ⟨_, rfl, .malformed (.inr rfl) rfl⟩
    | none =>
      cases hconf : s.malformedConfigMatch with
      | some first => exact ⟨_, rfl, .malformed (.inl rfl) rfl⟩
      | none =>
        obtain ⟨m, hm, ⟨entry, hroute⟩ | hrep | hrep⟩ := hrep
        · exact absurd (hrout.mpr hroute) (hnil ▸ not_mem_nil)
        · simpa [hconf] using hrec.config (.inr ⟨m, hm, hrep⟩)
        · simpa [hpol] using hrec.policy (.inr ⟨m, hm, hrep⟩)

/-- **A request some rule matches comes to an allowed rule, to the list of the blocked
permissions, or to a malformed block.** -/
theorem reduceSelectedOwner_outcome (hapis : ∀ m ∈ eligible, m.api ∈ m.firewall.apis)
    (indexedRules : Bool) :
    ∃ decision, reduceSelectedOwner py (collectionOf py request eligible) selectedName policies
        indexedRules request = some decision ∧ RuleOutcome policies
        (SelectedRoute py policies request winning (baseTier eligible) selectedName) decision := by
  have hrep := route_or_reported py policies hord hwinning hsel hapis
  have hbest : (collectionOf py request eligible).bestRuleSpecificity = some winning := hwinning
  unfold reduceSelectedOwner
  split
  · next block hconflict =>
    obtain ⟨name, _, hblock⟩ := Option.bind_eq_some_iff.mp hconflict
    obtain ⟨hreas, hperms⟩ := conflictingSelectedApiBlock_eq_some hblock
    exact ⟨_, rfl, .malformed (.inl hreas) hperms⟩
  · have ⟨m, hm, _⟩ := hrep
    obtain ⟨base, hbase⟩ := selectedBase_of_relevant hbest hm
    have hrec := foldl_recordMalformed policies
      ((collectionOf py request eligible).relevantOwnerApiMatches selectedName) (.new (some base))
    unfold reduceWithoutConflict
    rw [hbest, hbase]
    dsimp only
    rw [evaluateApis_eq_routes py policies _ _ _ _ _ _ _ hrec.allowed]
    rcases evaluateRoutes_cases policies _ _ hrec.allowed with
      ⟨⟨m', entry⟩, hroute, hfree, hallowed, hbase'⟩ | ⟨hall, hden⟩
    · refine ⟨.allow (ruleAllow m' entry), ?_,
        .allowed ((mem_visitedRoutes py policies hord hwinning hsel).mp hroute) hfree⟩
      rw [resolve, hbase', hrec.base, hallowed]
      rfl
    · exact resolve_of_allDenied policies (mem_visitedRoutes py policies hord hwinning hsel) hall
        hrec hden
        hrep request.upperMethod

end

end Okou.Firewall
