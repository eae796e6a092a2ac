import Okou.Firewall.Config

/-!
# The API index of a firewall set

The APIs of all firewalls in one list, and an index over those with a static,
well-formed base: by scheme and authority, and then by the segments of the
base's path.  Everything else is always looked at.
-/

namespace Okou.Firewall

open List

/-! ### Definitions -/

structure CompiledApiCandidate where
  order : ℕ
  firewall : CompiledFirewall
  api : CompiledApi

/-- Where a static API stands in the index: scheme, authority, and path. -/
structure StaticApiKey where
  root : PyStr × PyStr
  path : List PyStr

structure CompiledApiIndex where
  allCandidates : List CompiledApiCandidate
  fallback : List CompiledApiCandidate
  staticRoots : List ((PyStr × PyStr) × Trie PyStr CompiledApiCandidate)

/-- The APIs of a list of firewalls, in order. -/
def apiCandidates (firewalls : List CompiledFirewall) : List CompiledApiCandidate :=
  (firewalls.flatMap fun firewall => firewall.apis.map fun api => (firewall, api)).zipIdx.map
    fun ((firewall, api), order) => ⟨order, firewall, api⟩

open CompiledApiCandidate

section Index

variable (py : PyLib)

def staticApiIndexKey (base : CompiledBase) : Option StaticApiKey :=
  if base.hasParams || base.rawSyntaxMalformed || base.paramParseMalformed ||
      base.parts.hostMalformed || base.parts.hasUserinfo || base.parts.portMalformed then none
  else
    some ⟨(py.lower base.parts.scheme, py.lower base.parts.authority),
      splitPathSegments base.parts.path⟩

variable (candidates : List CompiledApiCandidate) (firewalls : List CompiledFirewall)
  (urlParts : BaseUrlParts)

/-- The candidates that have a place in the index, with it. -/
def staticCandidates : List (StaticApiKey × CompiledApiCandidate) :=
  candidates.filterMap fun candidate =>
    (staticApiIndexKey py candidate.api.core.base).map fun key => (key, candidate)

def compileApiCandidateIndex : CompiledApiIndex where
  allCandidates := apiCandidates firewalls
  fallback := (apiCandidates firewalls).filter fun candidate =>
    (staticApiIndexKey py candidate.api.core.base).isNone
  staticRoots := dictCollect (fun entry => entry.1.root) Trie.empty
    (fun root entry => root.insert entry.1.path entry.2)
      (staticCandidates py (apiCandidates firewalls))

def indexedApiCandidates (index : CompiledApiIndex) (urlParts : BaseUrlParts) :
    List CompiledApiCandidate :=
  let root := dictGet (py.lower urlParts.scheme, py.lower urlParts.authority) index.staticRoots
  let found := match root with
    | none => []
    | some root => root.visit (iterPathSegments urlParts.path)
  sortByOrder CompiledApiCandidate.order (index.fallback ++ found)

/-- `CompiledFirewallSet`.  The index is that of its firewalls. -/
structure CompiledFirewallSet where
  firewalls : List CompiledFirewall
  apiIndex : CompiledApiIndex
  apiIndex_eq : apiIndex = compileApiCandidateIndex py firewalls

def compileFirewalls : PyValue → Option (CompiledFirewallSet py)
  | .list sandboxFirewalls =>
    let firewalls := compileFirewallList py sandboxFirewalls
    if firewalls = [] then none else some ⟨firewalls, compileApiCandidateIndex py firewalls, rfl⟩
  | _ => none

/-! ### The index is a filter -/

theorem apiCandidates_ordered : (apiCandidates firewalls).Pairwise fun a b =>
    a.order < b.order := by
  rw [apiCandidates, pairwise_map]
  exact pairwise_zipIdx_lt _ 0

/-- A candidate is an API of a firewall of the set. -/
theorem mem_apiCandidates {firewalls candidate} (h : candidate ∈ apiCandidates firewalls) :
    candidate.firewall ∈ firewalls ∧ candidate.api ∈ candidate.firewall.apis := by
  obtain ⟨⟨⟨firewall, api⟩, order⟩, hmem, rfl⟩ := mem_map.mp h
  have hpair := fst_mem_of_mem_zipIdx hmem
  obtain ⟨firewall', hfire, hapi⟩ := mem_flatMap.mp hpair
  obtain ⟨api', hapi', heq⟩ := mem_map.mp hapi
  obtain ⟨rfl, rfl⟩ := Prod.mk.inj heq
  exact ⟨hfire, hapi'⟩

/-- Whether the request can lie under a base, as far as the index can tell. -/
def possible (base : CompiledBase) : Bool :=
  match staticApiIndexKey py base with
  | none => true
  | some key =>
    decide (key.root = (py.lower urlParts.scheme, py.lower urlParts.authority)) &&
      decide (key.path <+: splitPathSegments urlParts.path)

/-- No API is lost: a base that matches is possible. -/
theorem possible_of_match {urlParts base result}
    (hmatch : matchCompiledBaseUrlParts py urlParts base = some result) :
      possible py urlParts base := by
  unfold possible
  split
  · rfl
  · next key hkey =>
    unfold staticApiIndexKey at hkey
    rw [Option.ite_none_left_eq_some] at hkey
    obtain ⟨hwell, hkey⟩ := hkey
    have hstat : base.hasParams = false := by
      simp only [Bool.or_eq_true, not_or, Bool.not_eq_true] at hwell
      exact hwell.1.1.1.1.1
    obtain ⟨hsch, hauth, hpath⟩ := static_match_segments py hstat hmatch
    rw [← Option.some.inj hkey]
    simp only [hsch, hauth]
    exact decide_eq_true hpath

/-- What is found below a root, as a filter of the candidates. -/
theorem staticRoots_visit (root) (path) : List.Perm
      (match dictGet root (dictCollect (fun entry => entry.1.root) Trie.empty
          (fun root entry => root.insert entry.1.path entry.2)
            (staticCandidates py candidates)) with
        | none => []
        | some trie => trie.visit path)
      (((staticCandidates py candidates).filter fun entry =>
        decide (entry.1.path <+: path) && decide (entry.1.root = root)).map Prod.snd) := by
  rw [dictGet_dictCollect, ← filter_filter]
  generalize ((staticCandidates py candidates).filter fun entry => entry.1.root = root) = entries
  by_cases hempty : entries = []
  · rw [if_pos hempty, hempty]
    exact List.Perm.refl _
  · rw [if_neg hempty]
    -- the trie was built from the entries of this root
    have hvisit := Trie.visit_build (entries.map fun entry => (entry.1.path, entry.2)) path
    rw [Trie.build, foldl_map, filter_map, map_map] at hvisit
    exact hvisit

/-- **The API index returns, in order, the candidates whose base the request can
lie under.** -/
theorem indexedApiCandidates_eq :
      indexedApiCandidates py (compileApiCandidateIndex py firewalls) urlParts =
      (apiCandidates firewalls).filter fun candidate =>
        possible py urlParts candidate.api.core.base := by
  refine sortByOrder_eq_of_perm order ((apiCandidates_ordered _).filter _) ?_
  have hstat := staticRoots_visit py (apiCandidates firewalls)
    (py.lower urlParts.scheme, py.lower urlParts.authority) (iterPathSegments urlParts.path)
  refine (List.Perm.append_left _ hstat).trans ?_
  dsimp only [compileApiCandidateIndex]
  generalize apiCandidates firewalls = candidates
  -- the indexed part, as a filter of the candidates
  have hpart : ((staticCandidates py candidates).filter fun entry =>
        decide (entry.1.path <+: iterPathSegments urlParts.path) &&
        decide (entry.1.root = (py.lower urlParts.scheme, py.lower urlParts.authority))).map
          Prod.snd =
      candidates.filter fun candidate =>
        (staticApiIndexKey py candidate.api.core.base).isSome &&
          possible py urlParts candidate.api.core.base := by
    induction candidates with
    | nil => rfl
    | cons candidate candidates ih =>
      rw [staticCandidates, filterMap_cons, filter_cons]
      cases hkey : staticApiIndexKey py candidate.api.core.base with
      | none =>
        exact ih
      | some key =>
        simp only [Option.map_some, Option.isSome_some, Bool.true_and, possible, hkey,
          filter_cons, iterPathSegments_eq] at ih ⊢
        rw [Bool.and_comm]
        split
        · exact congrArg _ ih
        · exact ih
  rw [hpart]
  refine (filter_append_filter_perm candidates ?_).trans ?_
  · intro candidate _ hnone
    rw [Option.isNone_iff_eq_none] at hnone
    rw [hnone]
    rfl
  · refine List.Perm.of_eq (filter_congr fun candidate _ => ?_)
    cases hkey : staticApiIndexKey py candidate.api.core.base with
    | none => simp [possible, hkey]
    | some key => simp

end Index

end Okou.Firewall
