import Okou.Firewall.Parity
import Okou.Lib.Best

/-!
# What the first pass finds

The first pass runs through the APIs whose base the request lies under and keeps
two running maxima: the most specific bases, and among the rules of those APIs
the most specific that match, starting over with the rules whenever a better base
turns up.  Here its result is stated without the loop.
-/

namespace Okou.Firewall

open List Prod

section

variable (py : PyLib)

/-! ### The APIs whose base matches -/

variable (urlParts : BaseUrlParts) (upperMethod : PyStr) (candidates : List CompiledApiCandidate)

/-- The API of a candidate as it enters the first pass. -/
def matchedApi (candidate : CompiledApiCandidate) (relPath : PyStr) (baseParams : Params) :
    MatchedApi :=
  ⟨candidate.order, candidate.firewall, candidate.api, relPath, baseParams,
    ⟨candidate.api.core.base.raw, candidate.firewall.core.name, upperMethod, relPath⟩⟩

/-- The APIs whose base the request lies under, in order. -/
def matchedApis : List MatchedApi :=
  candidates.filterMap fun candidate =>
    (matchCompiledBaseUrlParts py urlParts candidate.api.core.base).map fun found =>
      matchedApi upperMethod candidate found.1 found.2

/-- On a safe path the loop over the candidates finds the APIs whose base matches. -/
theorem collectBaseMatches_eq : collectBaseMatches py urlParts upperMethod false false candidates =
      .ok (matchedApis py urlParts upperMethod candidates) := by
  induction candidates with
  | nil => rfl
  | cons candidate candidates ih =>
    unfold collectBaseMatches matchedApis
    rw [filterMap_cons]
    cases matchCompiledBaseUrlParts py urlParts candidate.api.core.base with
    | none => exact ih
    | some found =>
      simp only [ih]
      rfl

/-- On an unsafe path it blocks at the first API whose base matches. -/
theorem collectBaseMatches_unsafePath :
      collectBaseMatches py urlParts upperMethod false true candidates =
      match matchedApis py urlParts upperMethod candidates with
      | [] => .ok []
      | m :: _ => .error ⟨m.api.core.base.raw, m.firewall.core.name, upperMethod, m.relPath, [],
        .unsafePath⟩ := by
  induction candidates with
  | nil => rfl
  | cons candidate candidates ih =>
    unfold collectBaseMatches matchedApis
    rw [filterMap_cons]
    cases matchCompiledBaseUrlParts py urlParts candidate.api.core.base with
    | none => exact ih
    | some found => rfl

theorem matchedApis_ordered (firewalls) :
    (matchedApis py urlParts upperMethod (apiCandidates firewalls)).Pairwise fun a b =>
      a.order < b.order := by
  refine List.Pairwise.filterMap _ ?_ (apiCandidates_ordered firewalls)
  intro a a' hlt b hb b' hb'
  obtain ⟨_, _, rfl⟩ := Option.map_eq_some_iff.mp hb
  obtain ⟨_, _, rfl⟩ := Option.map_eq_some_iff.mp hb'
  exact hlt

variable {entry : CompiledRuleEntry} {tier : List MatchedApi}

variable (m : MatchedApi) (request : RequestView) (eligible : List MatchedApi)

/-- A matched API is an API of a firewall of the set. -/
theorem mem_matchedApis {m} {urlParts} {upperMethod}
    {firewalls} (hm : m ∈ matchedApis py urlParts upperMethod (apiCandidates firewalls)) :
    m.firewall ∈ firewalls ∧ m.api ∈ m.firewall.apis ∧
      matchCompiledBaseUrlParts py urlParts m.api.core.base = some (m.relPath, m.baseParams) := by
  obtain ⟨candidate, hcand, hfound⟩ := mem_filterMap.mp hm
  obtain ⟨found, hmatch, rfl⟩ := Option.map_eq_some_iff.mp hfound
  obtain ⟨hfire, hapi⟩ := mem_apiCandidates hcand
  exact ⟨hfire, hapi, hmatch⟩

/-! ### The tier -/

/-- The matched APIs that no custom connector replaces. -/
def eligibleApis (intent : ConnectorIntent) (baseMatches : List MatchedApi) : List MatchedApi :=
  baseMatches.filter fun m => !suppressed intent baseMatches m

/-- How specific the base of an API is. -/
def MatchedApi.baseSpecificity (m : MatchedApi) : BaseSpecificity := m.api.core.base.specificity

/-- The APIs of the most specific base. -/
def baseTier (eligible : List MatchedApi) : List MatchedApi :=
  bestEntries MatchedApi.baseSpecificity eligible

/-- The rules of an API that match. -/
def MatchedApi.matching (m : MatchedApi) (request : RequestView) : List CompiledRuleEntry :=
  matchingEntries py m.api (splitPathSegments m.relPath) request

/-- The rules of an API that match at a given specificity. -/
def MatchedApi.hits (m : MatchedApi) (request : RequestView) (winning : PathSpecificity) :
    List CompiledRuleEntry :=
  hitEntries py m.api (splitPathSegments m.relPath) request winning

variable {winning : PathSpecificity} {m}

theorem MatchedApi.mem_hits {request} : entry ∈ m.hits py request winning ↔
      entry ∈ m.matching py request ∧ entry.rule.specificity = winning := by
  rw [MatchedApi.hits, hitEntries, mem_filter, decide_eq_true_eq]
  rfl

/-- The rules of an API that match, as routes to it. -/
def apiRoutes (request : RequestView) (m : MatchedApi) : List (ℕ × PathSpecificity) :=
  (m.matching py request).map fun entry => (m.order, entry.rule.specificity)

/-- The routes to the APIs of a tier. -/
def tierRoutes (request : RequestView) (tier : List MatchedApi) : List (ℕ × PathSpecificity) :=
  tier.flatMap (apiRoutes py request)

theorem mem_tierRoutes {request} {order} {specificity} :
    (order, specificity) ∈ tierRoutes py request tier ↔ ∃ m ∈ tier, m.order = order ∧
        ∃ entry ∈ m.matching py request, entry.rule.specificity = specificity := by
  rw [tierRoutes, mem_flatMap]
  constructor
  · rintro ⟨m, hm, hroute⟩
    obtain ⟨entry, hentry, heq⟩ := mem_map.mp hroute
    obtain ⟨rfl, rfl⟩ := Prod.mk.inj heq
    exact ⟨m, hm, rfl, entry, hentry, rfl⟩
  · rintro ⟨m, hm, rfl, entry, hentry, rfl⟩
    exact ⟨m, hm, mem_map.mpr ⟨entry, hentry, rfl⟩⟩

/-- The specificity that wins in a tier, if one of its rules matches. -/
def winningSpecificity (request : RequestView) (tier : List MatchedApi) : Option PathSpecificity :=
  bestScore Prod.snd (tierRoutes py request tier)

/-- No rule of the tier that matches is more specific than the winning ones. -/
theorem le_winningSpecificity {request} (hwin : winningSpecificity py request tier = some winning)
    (hm : m ∈ tier) (hentry : entry ∈ m.matching py request) : entry.rule.specificity ≤ winning :=
  (bestScore_eq_some.mp hwin).2 (m.order, entry.rule.specificity)
    ((mem_tierRoutes py).mpr ⟨m, hm, rfl, entry, hentry, rfl⟩)

/-- A specificity wins as soon as a rule of the tier matches. -/
theorem exists_winningSpecificity {request} (hm : m ∈ tier)
    (hentry : entry ∈ m.matching py request) :
    ∃ winning, winningSpecificity py request tier = some winning := by
  have hroute := (mem_tierRoutes py).mpr ⟨m, hm, rfl, entry, hentry, rfl⟩
  refine Option.ne_none_iff_exists'.mp fun hnone => ?_
  rw [winningSpecificity, bestScore_eq_none] at hnone
  exact not_mem_nil (hnone ▸ hroute)

/-! ### The running maxima -/

namespace FirewallMatchCollection

variable (c : FirewallMatchCollection) (routes : List (ℕ × PathSpecificity)) (apiOrder : ℕ)

/-- A collection with the best of some routes. -/
def withRoutes :
    FirewallMatchCollection :=
  { c with
    bestRuleSpecificity := bestScore Prod.snd routes
    winningRuleApiOrders := (bestEntries Prod.snd routes).map Prod.fst }

/-- Recording a route is a turn of the running maximum. -/
theorem recordRuleRoute_withRoutes (specificity) :
    (c.withRoutes routes).recordRuleRoute apiOrder specificity =
      c.withRoutes (routes ++ [(apiOrder, specificity)]) := by
  have hturn := keepBest_best snd routes (apiOrder, specificity)
  unfold keepBest at hturn
  unfold recordRuleRoute withRoutes
  cases hbest : bestScore snd routes with
  | none =>
    simp only [hbest, Prod.mk.injEq] at hturn
    rw [← hturn.1, ← hturn.2]
    rfl
  | some best =>
    simp only [hbest] at hturn ⊢
    split_ifs at hturn ⊢ <;> (rw [Prod.mk.injEq] at hturn; rw [← hturn.1, ← hturn.2])
    · rfl
    · rw [map_append]
      rfl

/-- Recording the rules of an API that match. -/
theorem foldl_recordRuleRoute (entries : List CompiledRuleEntry) :
    ∀ (c : FirewallMatchCollection) (routes : List (ℕ × PathSpecificity)),
      entries.foldl (fun c entry => c.recordRuleRoute apiOrder entry.rule.specificity)
          (c.withRoutes routes) =
        c.withRoutes (routes ++ entries.map fun entry => (apiOrder, entry.rule.specificity)) := by
  induction entries with
  | nil =>
    intro c routes
    rw [foldl_nil, map_nil, append_nil]
  | cons entry entries ih =>
    intro c routes
    rw [foldl_cons, recordRuleRoute_withRoutes, ih, map_cons, append_assoc]
    rfl

end FirewallMatchCollection

/-- The first pass over a list of APIs, without the loop. -/
def collectionOf (request : RequestView) (eligible : List MatchedApi) : FirewallMatchCollection :=
  FirewallMatchCollection.withRoutes
    ⟨baseTier eligible, bestScore MatchedApi.baseSpecificity eligible, none, []⟩
    (tierRoutes py request (baseTier eligible))

open FirewallMatchCollection

/-- An API that is accepted joins the new tier, whose routes are those kept so far and
its own; an API that is not leaves the collection as it is. -/
theorem acceptApi_collectionOf (m) :
    (∃ routes, (collectionOf py request eligible).acceptApi m =
          (withRoutes ⟨baseTier (eligible ++ [m]),
          bestScore MatchedApi.baseSpecificity (eligible ++ [m]), none, []⟩ routes, true) ∧
        tierRoutes py request (baseTier (eligible ++ [m])) = routes ++ apiRoutes py request m) ∨
      (collectionOf py request eligible).acceptApi m = (collectionOf py request eligible, false) ∧
        collectionOf py request eligible = collectionOf py request (eligible ++ [m]) := by
  have hturn := keepBest_best MatchedApi.baseSpecificity eligible m
  have halone : tierRoutes py request [m] = [] ++ apiRoutes py request m := by simp [tierRoutes]
  unfold keepBest at hturn
  cases hbest : (bestScore MatchedApi.baseSpecificity eligible : Option BaseSpecificity) with
  | none =>
    rw [hbest, Prod.mk.injEq] at hturn
    refine .inl ⟨[], ?_, by rw [baseTier, ← hturn.2, halone]⟩
    simp only [acceptApi, collectionOf, withRoutes, hbest]
    rw [← hturn.1, baseTier, ← hturn.2]
    rfl
  | some best =>
    have hacc : (collectionOf py request eligible).acceptApi m =
        if best < m.baseSpecificity then (⟨[m], some m.baseSpecificity, none, []⟩, true)
        else if m.baseSpecificity < best then (collectionOf py request eligible, false)
        else ({ collectionOf py request eligible with apiMatches := baseTier eligible ++ [m] },
          true) := by
      simp only [collectionOf, hbest]
      rfl
    rw [hacc]
    simp only [hbest] at hturn
    by_cases hlt : best < m.baseSpecificity
    · rw [if_pos hlt, Prod.mk.injEq] at hturn
      refine .inl ⟨[], ?_, by rw [baseTier, ← hturn.2, halone]⟩
      rw [if_pos hlt, ← hturn.1, baseTier, ← hturn.2]
      rfl
    · rw [if_neg hlt] at hturn ⊢
      by_cases hgt : m.baseSpecificity < best
      · rw [if_pos hgt, Prod.mk.injEq] at hturn
        refine .inr ⟨if_pos hgt, ?_⟩
        rw [collectionOf, collectionOf, baseTier, baseTier, ← hturn.1, ← hturn.2, hbest]
      · rw [if_neg hgt, Prod.mk.injEq] at hturn
        refine .inl ⟨tierRoutes py request (baseTier eligible), ?_, ?_⟩
        · rw [if_neg hgt, ← hturn.1]
          simp only [baseTier, ← hturn.2, collectionOf, withRoutes, hbest]
        · rw [baseTier, ← hturn.2, tierRoutes, flatMap_append, flatMap_singleton]
          rfl

/-- An API without permissions has no rule that matches. -/
theorem matching_of_permissions_empty (hempty : m.api.core.permissions.isEmpty) :
    m.matching py request = [] := by
  have hrules : m.api.core.ruleIndex.allRules = [] := by
    rw [m.api.core.ruleIndex_eq, List.isEmpty_iff.mp hempty]
    rfl
  rw [MatchedApi.matching, matchingEntries, hrules]
  rfl

variable {request eligible}

/-- One turn of the first pass: from the collection of a list of APIs to that of the
list with one more. -/
theorem collectApi_collectionOf (indexedRules : Bool) (request : RequestView)
    (eligible : List MatchedApi)
    (m : MatchedApi) : collectApi py indexedRules false request (collectionOf py request eligible) m
      = collectionOf py request (eligible ++ [m]) := by
  unfold collectApi
  rcases acceptApi_collectionOf py request eligible m with ⟨routes, hacc, hrout⟩ | ⟨hacc, hsame⟩
  · rw [hacc, collectionOf, hrout]
    simp only [Bool.not_true, Bool.false_eq_true, if_false]
    split
    · next hempty =>
      rw [apiRoutes, matching_of_permissions_empty py request hempty, map_nil, append_nil]
    · rw [collectRuleRoutes_eq, foldl_recordRuleRoute]
      rfl
  · rw [hacc]
    exact hsame

/-- **The first pass returns the tier and its best routes.** -/
theorem collectMatches_spec (indexedRules : Bool) (intent) (request)
    (baseMatches) : collectMatches py indexedRules false intent request baseMatches =
      collectionOf py request (eligibleApis intent baseMatches) := by
  change (eligibleApis intent baseMatches).foldl _ _ = _
  induction eligibleApis intent baseMatches using List.reverseRecOn with
  | nil => rfl
  | append_singleton eligible m ih =>
    rw [foldl_append, ih, foldl_cons, foldl_nil, collectApi_collectionOf]

/-! ### The winning APIs -/

/-- A route wins if its API has a rule that matches at the best specificity. -/
theorem mem_winningRuleApiOrders
    (hwin : winningSpecificity py request (baseTier eligible) = some winning)
    {order} : order ∈ (collectionOf py request eligible).winningRuleApiOrders ↔
      ∃ m ∈ baseTier eligible, m.order = order ∧ m.hits py request winning ≠ [] := by
  have hbest : bestScore snd (tierRoutes py request (baseTier eligible)) = some winning := hwin
  simp only [collectionOf, withRoutes, bestEntries, mem_map, mem_filter, hbest, decide_eq_true_eq,
    Option.some.injEq]
  constructor
  · rintro ⟨⟨order, specificity⟩, ⟨hroute, rfl⟩, rfl⟩
    obtain ⟨m, hm, horder, entry, hentry, hspec⟩ := (mem_tierRoutes py).mp hroute
    exact ⟨m, hm, horder, ne_nil_of_mem ((MatchedApi.mem_hits py).mpr ⟨hentry, hspec⟩)⟩
  · rintro ⟨m, hm, rfl, hhits⟩
    obtain ⟨entry, hentry⟩ := exists_mem_of_ne_nil _ hhits
    obtain ⟨hmatching, hspec⟩ := (MatchedApi.mem_hits py).mp hentry
    exact ⟨(m.order, winning), ⟨(mem_tierRoutes py).mpr ⟨m, hm, rfl, entry, hmatching, hspec⟩, rfl⟩,
      rfl⟩

/-- **The winning APIs** are those of the tier with a rule that matches at the best
specificity. -/
theorem mem_winningApiMatches (hord : eligible.Pairwise fun a b => a.order < b.order)
    (hwin : winningSpecificity py request (baseTier eligible) = some winning) :
    m ∈ (collectionOf py request eligible).winningApiMatches ↔
      m ∈ baseTier eligible ∧ m.hits py request winning ≠ [] := by
  have hbest : (collectionOf py request eligible).bestRuleSpecificity = some winning := hwin
  rw [winningApiMatches, hbest]
  simp only [mem_filter, decide_eq_true_eq, mem_winningRuleApiOrders py hwin]
  refine and_congr_right fun hm => ⟨?_, fun hhits => ⟨m, hm, rfl, hhits⟩⟩
  rintro ⟨m', hm', horder, hhits⟩
  -- the orders tell the APIs of the tier apart
  rwa [eq_of_order_eq (hord.filter _) hm' hm horder] at hhits

end

end Okou.Firewall
