import Okou.Firewall.Rule
import Okou.Lib.Trie

/-!
# The rule index of an API

Rules are looked up by method and by the literal segments their path starts
with.  The index returns, in the order of the configuration, the rules whose
method covers the request's and whose literals start the request's path: no
rule that could match is left out.
-/

namespace Okou.Firewall

open List

/-! ### Definitions -/

structure CompiledRuleEntry where
  order : ℕ
  permission : PyStr
  rule : CompiledRule

open CompiledRuleEntry (order)

structure CompiledRuleMethodIndex where
  fallback : List CompiledRuleEntry
  prefixRoot : Trie PyStr CompiledRuleEntry

structure CompiledRuleIndex where
  allRules : List CompiledRuleEntry
  byMethod : List (PyStr × CompiledRuleMethodIndex)

def rulePathIndexKey (rule : CompiledRule) : Option (List PyStr) :=
  let key := literalPrefix rule.path
  if key = [] then none else some key

variable (permissions : List CompiledPermission) (index : CompiledRuleIndex)
  (entries : List CompiledRuleEntry) (upperMethod : PyStr) (relPathSegs : List PyStr)
  (method : PyStr)

variable (candidates : List CompiledRuleEntry)

def compileRuleMethodIndex : CompiledRuleMethodIndex where
  fallback := entries.filter fun entry => (rulePathIndexKey entry.rule).isNone
  prefixRoot := Trie.build (entries.filterMap fun entry =>
    (rulePathIndexKey entry.rule).map fun key => (key, entry))

/-- The rules of an API in order, each with its permission. -/
def ruleEntries : List CompiledRuleEntry :=
  (permissions.flatMap fun permission => permission.rules.map fun rule =>
    (permission.name, rule)).zipIdx.map fun ((permission, rule), order) => ⟨order, permission, rule⟩

def compileRuleIndex : CompiledRuleIndex where
  allRules := ruleEntries permissions
  byMethod := (dictGroup (fun entry : CompiledRuleEntry => entry.rule.method.text)
    (ruleEntries permissions)).map fun group => (group.1, compileRuleMethodIndex group.2)

/-- `_add_rule_entries`; `seen_orders` holds the orders of the candidates. -/
def addRuleEntries (candidates entries : List CompiledRuleEntry) : List CompiledRuleEntry :=
  entries.foldl (fun candidates entry =>
    if entry.order ∈ candidates.map order then candidates
    else candidates ++ [entry]) candidates

def addMethodCandidates (candidates : List CompiledRuleEntry) : List CompiledRuleEntry :=
  match dictGet method index.byMethod with
  | none => candidates
  | some methodIndex =>
    addRuleEntries (addRuleEntries candidates methodIndex.fallback)
      (methodIndex.prefixRoot.visit relPathSegs)

def indexedRuleCandidates : List CompiledRuleEntry :=
  let candidates := addMethodCandidates index relPathSegs (lit "ANY") []
  let candidates := if upperMethod ≠ lit "ANY" then
      addMethodCandidates index relPathSegs upperMethod candidates
    else candidates
  sortByOrder order candidates

/-! ### The index is a filter -/

/-- Whether the literals a rule's path starts with start the request's path. -/
def CompiledRuleEntry.reachable (entry : CompiledRuleEntry) : Bool :=
  decide (literalPrefix entry.rule.path <+: relPathSegs)

open CompiledRuleEntry (reachable)

theorem ruleEntries_ordered : (ruleEntries permissions).Pairwise fun a b => a.order < b.order := by
  rw [ruleEntries, pairwise_map]
  exact pairwise_zipIdx_lt _ 0

/-- The orders tell the entries of an index apart. -/
theorem ruleEntries_nodup_order : ((ruleEntries permissions).map order).Nodup := by
  rw [List.Nodup, pairwise_map]
  exact (ruleEntries_ordered permissions).imp Nat.ne_of_lt

/-- Entries with new orders are all added. -/
theorem addRuleEntries_eq : ∀ candidates : List CompiledRuleEntry,
    ((candidates ++ entries).map order).Nodup →
    addRuleEntries candidates entries = candidates ++ entries := by
  induction entries with
  | nil =>
    intro candidates _
    rw [append_nil]
    rfl
  | cons entry entries ih =>
    intro candidates hnodup
    have hassoc : candidates ++ entry :: entries = candidates ++ [entry] ++ entries := by simp
    have hnew : entry.order ∉ candidates.map order := by
      rw [map_append, map_cons] at hnodup
      intro hmem
      exact (disjoint_of_nodup_append hnodup) hmem mem_cons_self
    have hstep : addRuleEntries candidates
      (entry :: entries) = addRuleEntries (candidates ++ [entry]) entries := by
      simp only [addRuleEntries, foldl_cons, if_neg hnew]
    rw [hstep, hassoc]
    exact ih _ (hassoc ▸ hnodup)

/-- A method index finds the entries whose literals start the path, up to order. -/
theorem methodIndex_visit : List.Perm ((compileRuleMethodIndex entries).fallback ++
        (compileRuleMethodIndex entries).prefixRoot.visit relPathSegs)
      (entries.filter (reachable relPathSegs)) := by
  have hvisit := Trie.visit_build
    (entries.filterMap fun entry => (rulePathIndexKey entry.rule).map fun key =>
      (key, entry)) relPathSegs
  -- the trie's part, as a filter of the entries
  have htrie : ((entries.filterMap fun entry => (rulePathIndexKey entry.rule).map fun key =>
        (key, entry)).filter fun entry => entry.1 <+: relPathSegs).map Prod.snd =
      entries.filter fun entry =>
        (rulePathIndexKey entry.rule).isSome && entry.reachable relPathSegs := by
    induction entries with
    | nil => rfl
    | cons entry entries ih =>
      have ih := ih (Trie.visit_build _ relPathSegs)
      by_cases hkey : literalPrefix entry.rule.path = []
      · simpa [rulePathIndexKey, hkey] using ih
      · by_cases hpre : literalPrefix entry.rule.path <+: relPathSegs
        · simpa [rulePathIndexKey, hkey, hpre, reachable] using ih
        · simpa [rulePathIndexKey, hkey, hpre, reachable] using ih
  rw [htrie] at hvisit
  refine (hvisit.append_left _).trans ?_
  refine (filter_append_filter_perm entries ?_).trans ?_
  · intro entry _ hnone
    rw [Option.isNone_iff_eq_none] at hnone
    rw [hnone]
    rfl
  · refine List.Perm.of_eq (filter_congr fun entry _ => ?_)
    by_cases hkey : literalPrefix entry.rule.path = []
    · simp [rulePathIndexKey, hkey, reachable]
    · simp [rulePathIndexKey, hkey]

/-- What the index of one method adds to candidates of other methods. -/
theorem addMethodCandidates_perm
    (hnodup : ((candidates ++ (ruleEntries permissions).filter fun entry =>
      decide (entry.rule.method.text = method) && entry.reachable relPathSegs).map order).Nodup) :
    List.Perm (addMethodCandidates (compileRuleIndex permissions) relPathSegs method candidates)
      (candidates ++ (ruleEntries permissions).filter fun entry =>
        decide (entry.rule.method.text = method) && entry.reachable relPathSegs) := by
  have hfilt : ((ruleEntries permissions).filter fun entry =>
      decide (entry.rule.method.text = method) && entry.reachable relPathSegs) =
      ((ruleEntries permissions).filter fun entry => entry.rule.method.text = method).filter
        (reachable relPathSegs) := by
    rw [filter_filter]
    exact filter_congr fun entry _ => Bool.and_comm _ _
  rw [hfilt] at hnodup ⊢
  generalize hentr : ((ruleEntries permissions).filter fun entry =>
    entry.rule.method.text = method) = entries at hnodup ⊢
  have hlook : dictGet method (compileRuleIndex permissions).byMethod =
      if entries = [] then none else some (compileRuleMethodIndex entries) := by
    have hmap := dictGet_map_value (fun _ => compileRuleMethodIndex) method (dictGroup
      (fun entry : CompiledRuleEntry => entry.rule.method.text) (ruleEntries permissions))
    rw [dictGet_dictGroup, hentr] at hmap
    refine hmap.trans ?_
    split <;> rfl
  unfold addMethodCandidates
  rw [hlook]
  by_cases hempty : entries = []
  · rw [if_pos hempty, hempty]
    simp
  · rw [if_neg hempty]
    have hperm := (methodIndex_visit entries relPathSegs).append_left candidates
    have hnodup' := (hperm.map order).nodup_iff.mpr hnodup
    rw [← append_assoc] at hnodup'
    have hfallb : ((candidates ++ (compileRuleMethodIndex entries).fallback).map order).Nodup := by
      rw [map_append] at hnodup'
      exact hnodup'.of_append_left
    dsimp only
    rw [addRuleEntries_eq _ candidates hfallb, addRuleEntries_eq _ _ hnodup', append_assoc]
    exact hperm

/-- **The rule index returns, in order, the rules whose method covers the
request's and whose literals start its path.** -/
theorem indexedRuleCandidates_eq :
      indexedRuleCandidates (compileRuleIndex permissions) upperMethod relPathSegs =
      (compileRuleIndex permissions).allRules.filter fun entry =>
        entry.rule.method.covers upperMethod && entry.reachable relPathSegs := by
  have hord := ruleEntries_ordered permissions
  refine sortByOrder_eq_of_perm order (hord.filter _) ?_
  have hsub : ∀ p : CompiledRuleEntry → Bool,
    (((ruleEntries permissions).filter p).map order).Nodup := fun p =>
    (ruleEntries_nodup_order permissions).sublist (List.Sublist.map _ filter_sublist)
  have hany := addMethodCandidates_perm permissions relPathSegs (lit "ANY") [] (hsub _)
  split
  · next hne =>
    -- the two methods differ, so their entries do
    have hboth := filter_append_filter_perm
      (p := fun entry : CompiledRuleEntry =>
        decide (entry.rule.method.text = lit "ANY") && entry.reachable relPathSegs)
      (q := fun entry : CompiledRuleEntry =>
        decide (entry.rule.method.text = upperMethod) && entry.reachable relPathSegs)
      (ruleEntries permissions) (by
        intro entry _ hp
        simp only [Bool.and_eq_true, decide_eq_true_eq] at hp
        simp [hp.1, Ne.symm hne])
    have hnodup := ((hany.append_right _).trans hboth).map order
    refine (addMethodCandidates_perm permissions relPathSegs upperMethod _
      (hnodup.nodup_iff.mpr (hsub _))).trans ?_
    refine ((hany.append_right _).trans hboth).trans (List.Perm.of_eq ?_)
    refine filter_congr fun entry _ => ?_
    rw [← Bool.and_or_distrib_right, RuleMethod.covers, Bool.decide_or]
  · next heq =>
    refine hany.trans (List.Perm.of_eq (filter_congr fun entry _ => ?_))
    simp [RuleMethod.covers, not_not.mp heq]

end Okou.Firewall
