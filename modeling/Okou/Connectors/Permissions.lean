import Okou.Connectors.RuleParity
import Okou.Firewall.Config

/-!
# The permissions of an API entry, on both sides

`compileDecisionApi` of `firewall-rule-matcher.ts` prepares an API entry for the diagnosis of
requests; the proxy addon compiles the same entry to enforce it.  Both keep the rules that
compile, under the names of their permissions, and record whether something was malformed.

They agree on every entry but those that declare a permission by the name that policies
reserve for unknown endpoints, which the addon refuses while the package keeps its rules, and those
whose base has no scheme or authority, which the addon leaves out while the package keeps them.

## Main definitions and results

* `compileDecisionApi` — the package's side; the addon's is `Firewall.compileApiCore`.
* `SameApi` — both retain the same permissions and rules and find the same flags.
* `sameApi_iff` — when they do; `reservedName_diverges` — an entry on which they do not.
-/

namespace Okou.Connectors

open List

open Firewall (PyStr lit cp PyLib PyValue PyDict pyGet Greedy CompiledRule CompiledPermission
    CompiledApiCore
  PermissionsState apiPermissionless compileApiCore compilePermission compilePermissions compileRule
    compileRules
  permissionNameInvalid compileFirewallConfigBase stripOptionalTerminalSlash extractRawHostname)

/-! ### Values -/

/-- A JSON value as the package sees it.  A number is an integer or any other one. -/
inductive Json
  | null
  | bool (value : Bool)
  | int (value : ℤ)
  | float (id : ℕ)
  | str (value : JsStr)
  | arr (items : List Json)
  | obj (entries : List (JsStr × Json))

/-- The entries of an object. -/
abbrev JsonObject := List (JsStr × Json)

open Json

mutual

/-- The value as the addon sees it. -/
def Json.toPy : Json → PyValue
  | .null => .none
  | .bool value => .bool value
  | .int value => .int value
  | .float id => .other id
  | .str value => .str (codePoints value)
  | .arr items => .list (Json.listToPy items)
  | .obj entries => .dict (Json.entriesToPy entries)

/-- The items of an array. -/
def Json.listToPy : List Json → List PyValue
  | [] => []
  | item :: items => item.toPy :: Json.listToPy items

/-- The entries of an object. -/
def Json.entriesToPy : List (JsStr × Json) → PyDict
  | [] => []
  | (key, value) :: entries => (.str (codePoints key), value.toPy) :: Json.entriesToPy entries

end

/-- `typeof value === "string"`. -/
def Json.asStr : Json → Option JsStr
  | .str value => some value
  | _ => none

theorem listToPy_eq (items) : listToPy items = items.map toPy := by
  induction items with
  | nil => rw [listToPy, map_nil]
  | cons item items ih => rw [listToPy, ih, map_cons]

/-- Both sides find the same under a key. -/
theorem pyGet_toPy (key : JsStr) (entries) :
    pyGet (entriesToPy entries) (codePoints key) = (dictGet key entries).map toPy := by
  unfold pyGet
  induction entries with
  | nil => rfl
  | cons entry entries ih =>
    obtain ⟨k, value⟩ := entry
    rw [entriesToPy, dictGet_cons, find?_cons]
    dsimp only
    by_cases hk : k = key
    · rw [if_pos hk, hk, beq_self_eq_true]
      rfl
    · have hne : (codePoints k == codePoints key) = false :=
        beq_eq_false_iff_ne.mpr (mt (@codePoints_injective k key) hk)
      rw [if_neg hk, hne]
      exact ih

theorem pyGet_lit (key) (hkey : codePoints (js key) = lit key) (entries) :
    pyGet (entriesToPy entries) (lit key) = (dictGet (js key) entries).map toPy :=
  hkey ▸ pyGet_toPy (js key) entries

/-! ### The package's checks of an API -/

/-- What `compileDecisionApi` uses of the rest of the package: the checks of a base and of an
auth base, by firewall name, and the canonical text of an object. -/
structure ConnectorLib where
  validateBaseUrl : JsStr → JsStr → Bool
  validateAuthBaseUrl : JsStr → JsStr → Bool
  canonicalJson : JsonObject → Option JsStr

def isStringRecord : Json → Bool
  | .obj entries => entries.all fun entry => entry.2.asStr.isSome
  | _ => false

def hasEntries : Option Json → Bool
  | some (.obj entries) => !entries.isEmpty
  | _ => false

/-- A string that is not empty. -/
def isNonEmptyStr : Option Json → Bool
  | some (.str value) => decide (value ≠ [])
  | _ => false

def isValidAwsSigv4AuthConfig : Json → Bool
  | .obj value =>
    (value.all fun entry => decide (entry.1 ∈ [js "accessKeyId", js "secretAccessKey",
      js "sessionToken"])) &&
    isNonEmptyStr (dictGet (js "accessKeyId") value) &&
      isNonEmptyStr (dictGet (js "secretAccessKey") value) &&
    ((dictGet (js "sessionToken") value).isNone ||
      isNonEmptyStr (dictGet (js "sessionToken") value))
  | _ => false

variable (lib : ConnectorLib)

/-- `isValidAuthConfigForDecision`: a check that throws is a check that fails. -/
def isValidAuthConfig (lib : ConnectorLib) (serviceName : JsStr) : Option Json → Bool
  | some (.obj auth) =>
    (dictGet (js "headers") auth).all isStringRecord &&
      (dictGet (js "query") auth).all isStringRecord &&
    (dictGet (js "awsSigv4") auth).all isValidAwsSigv4AuthConfig &&
    ((dictGet (js "awsSigv4") auth).isNone ||
      !hasEntries (dictGet (js "headers") auth) && !hasEntries (dictGet (js "query") auth)) &&
    (dictGet (js "base") auth).all fun base => match base with
      | .str base => lib.validateAuthBaseUrl base serviceName &&
        (dictGet (js "awsSigv4") auth).isNone
      | _ => false
  | _ => false

def supportsAwsSigv4 (api : JsonObject) : Bool :=
  (match dictGet (js "awsSigv4Capability") api with
    | some (.bool true) => true
    | _ => false) ||
  (match dictGet (js "auth") api with
    | some (.obj auth) => (dictGet (js "awsSigv4") auth).isSome
    | _ => false)

/-- `decisionApiRoutingIdentity`: keys whose values are missing are left out. -/
def decisionApiRoutingIdentity (lib : ConnectorLib) (api : JsonObject) : Option JsStr :=
  lib.canonicalJson ([js "base", js "hostPolicy", js "auth"].filterMap fun key =>
    (dictGet key api).map (key, ·))

/-! ### Selector keys -/

/-- What a path segment is for the signature of a rule; `none` for an error. -/
def segmentIdentity : SegmentParseResult → Option (List JsStr)
  | .literal value => some [js "literal", value]
  | .param pre _ suf greedy => some [js "param", pre, suf, greedyText greedy]
  | .error _ => none

/-- What `awsQuerySelectorSignature` writes as JSON: method, path and service. -/
abbrev SelectorSignature := JsStr × List (Option (List JsStr)) × JsStr

def awsQuerySelectorSignature (rule : DecisionRule) : Option SelectorSignature :=
  match rule.awsPredicates with
  | none => none
  | some predicates =>
    match dictGet (js "sigv4") predicates with
    | none => none
    | some service =>
      if (dictGet (js "action") predicates).isSome ∨
        (dictGet (js "target") predicates).isSome then none
      else
        let pathIdentity := (splitPathSegments rule.path).map fun segment =>
          segmentIdentity (parseSegment segment)
        if none ∈ pathIdentity then none else some (rule.method, pathIdentity, service)

variable (rules : List DecisionRule)

/-- The keys the rules of one signature select by. -/
def keysBySignature (rules : List DecisionRule) : List (SelectorSignature × List JsStr) :=
  rules.foldl (fun table rule =>
    match awsQuerySelectorSignature rule with
    | none => table
    | some signature =>
      dictModify signature [] (· ++ (rule.awsQueryRequirements.getD []).map Prod.fst) table) []

def attachAwsQuerySelectorKeys (rules : List DecisionRule) : List DecisionRule :=
  rules.map fun rule =>
    match awsQuerySelectorSignature rule with
    | none => rule
    | some signature =>
      { rule with awsQuerySelectorKeys := some ((dictGet signature (keysBySignature rules)).getD
        []) }

/-! ### `compileDecisionApi` -/

def isValidPermissionName (permissionName : JsStr) : Bool :=
  decide (permissionName ≠ [] ∧ permissionName ≠ js "all")

/-- What the loop over the permissions carries. -/
structure DecisionState where
  rules : List DecisionRule
  seenPermissionNames : List JsStr
  hasMalformedRules : Bool

section Compile

variable (serviceName : JsStr) (awsSigv4 awsDiagnosticEnabled : Bool)

/-- One turn of the loop over the rules of a permission. -/
def compileRawRule (permissionName : JsStr) (state : List DecisionRule × Bool) (rawRule : Json) :
    List DecisionRule × Bool :=
  match rawRule with
  | .str rule =>
    match compileDecisionRule permissionName rule serviceName awsSigv4 awsDiagnosticEnabled with
    | none => (state.1, true)
    | some compiledRule => (state.1 ++ [compiledRule], state.2)
  | _ => (state.1, true)

/-- One turn of the loop over the permissions. -/
def compileRawPermission (state : DecisionState) (rawPermission : Json) : DecisionState :=
  match rawPermission with
  | .obj permission =>
    match dictGet (js "name") permission with
    | some (.str permissionName) =>
      if isValidPermissionName permissionName = false then { state with hasMalformedRules := true }
      else if permissionName ∈ state.seenPermissionNames then { state with
          hasMalformedRules := true }
      else
        match dictGet (js "rules") permission with
        | some (.arr rawRules) =>
          let compiled := rawRules.foldl (compileRawRule serviceName awsSigv4 awsDiagnosticEnabled
            permissionName)
            (state.rules, state.hasMalformedRules || rawRules.isEmpty)
          ⟨compiled.1, permissionName :: state.seenPermissionNames, compiled.2⟩
        | _ => ⟨state.rules, permissionName :: state.seenPermissionNames, true⟩
    | _ => { state with hasMalformedRules := true }
  | _ => { state with hasMalformedRules := true }

end Compile

structure DecisionApi where
  rawBase : JsStr
  baseMalformed : Bool
  authMalformed : Bool
  hasMalformedRules : Bool
  permissionless : Bool
  routingIdentity : Option JsStr
  supportsAwsSigv4 : Bool
  rules : List DecisionRule

/-- The rules of an API, and whether its permissions or rules are malformed. -/
def compileRawPermissions (api : JsonObject) (serviceName : JsStr)
    (nameMalformed awsDiagnosticEnabled : Bool) : List DecisionRule × Bool :=
  match dictGet (js "permissions") api with
  | none => ([], nameMalformed)
  | some (.arr permissions) =>
    let state := permissions.foldl
      (compileRawPermission serviceName (supportsAwsSigv4 api) awsDiagnosticEnabled) ⟨[], [],
        nameMalformed⟩
    (state.rules, state.hasMalformedRules)
  | some _ => ([], true)

def permissionless (api : JsonObject) : Bool :=
  match dictGet (js "permissions") api with
  | none => true
  | some (.arr permissions) => permissions.isEmpty
  | some _ => false

def compileDecisionApi (lib : ConnectorLib) (api : JsonObject) (serviceName : JsStr)
    (nameMalformed awsDiagnosticEnabled : Bool) : Option DecisionApi :=
  match dictGet (js "base") api with
  | some (.str base) =>
    let compiled := compileRawPermissions api serviceName nameMalformed awsDiagnosticEnabled
    some
      { rawBase := base
        baseMalformed := !lib.validateBaseUrl base serviceName
        authMalformed := !isValidAuthConfig lib serviceName (dictGet (js "auth") api)
        hasMalformedRules := compiled.2
        permissionless := permissionless api
        routingIdentity := decisionApiRoutingIdentity lib api
        supportsAwsSigv4 := supportsAwsSigv4 api
        rules := attachAwsQuerySelectorKeys compiled.1 }
  | _ => none

/-! ### What both sides retain -/

/-- The pairs of a permission name and a rule that the addon retains, in their order. -/
def retainedPairs (permissions : List CompiledPermission) : List (PyStr × CompiledRule) :=
  permissions.flatMap fun permission => permission.rules.map (permission.name, ·)

/-- A rule of the package, under its permission, is a pair of the addon. -/
def SamePair (decision : DecisionRule) (pair : PyStr × CompiledRule) : Prop :=
  pair.1 = codePoints decision.permission ∧ SameRule decision pair.2

/-- Both sides retain the same list of permission names and rules, and find the same flags. -/
structure SameApi (decision : DecisionApi) (core : CompiledApiCore) : Prop where
  pairs : List.Forall₂ SamePair decision.rules (retainedPairs core.permissions)
  permissionless : decision.permissionless = core.permissionless
  malformed : decision.hasMalformedRules = core.hasMalformedRules

/-- The name that policies use for unknown endpoints. -/
def reservedName : JsStr := js "__unknown__"

/-- The rules of a permission, where it has a list of them. -/
def rawRulesOf (permission : JsonObject) : List Json :=
  match dictGet (js "rules") permission with
  | some (.arr rawRules) => rawRules
  | _ => []

/-- The name of a permission. -/
def rawNameOf : Json → Option JsStr
  | .obj permission => (dictGet (js "name") permission).bind Json.asStr
  | _ => none

/-- The rules under the first permission that has the reserved name. -/
def reservedRules : List Json → List Json
  | [] => []
  | rawPermission :: permissions =>
    match rawPermission with
    | .obj permission =>
      if rawNameOf rawPermission = some reservedName then rawRulesOf permission
        else reservedRules permissions
    | _ => reservedRules permissions

/-- The permissions of an API, where it has a list of them. -/
def rawPermissionsOf (api : JsonObject) : List Json :=
  match dictGet (js "permissions") api with
  | some (.arr permissions) => permissions
  | _ => []

/-- The rule texts of an API. -/
def ruleTexts (permissions : List Json) : List JsStr :=
  permissions.flatMap fun rawPermission =>
    match rawPermission with
    | .obj permission => (rawRulesOf permission).filterMap Json.asStr
    | _ => []

/-- No rule of the API compiles with AWS predicates. -/
def WithoutAws (py : PyLib) (permissions : List Json) : Prop :=
  ∀ rule ∈ ruleTexts permissions, ∀ compiled,
    Firewall.compileRule py (codePoints rule) = some compiled → compiled.awsPredicates = none

/-- No rule under the reserved name compiles. -/
def ReservedUnused (py : PyLib) (permissions : List Json) : Prop :=
  ∀ rule ∈ (reservedRules permissions).filterMap Json.asStr,
    Firewall.compileRule py (codePoints rule) = none

/-- The base has a scheme and an authority with a host, for which the addon compiles the entry. -/
def HasAuthority (py : PyLib) (base : PyStr) : Prop :=
  stripOptionalTerminalSlash base ≠ [] ∧
    ∃ parts, py.urlsplit (stripOptionalTerminalSlash base) = some parts ∧ parts.scheme ≠ [] ∧
      parts.netloc ≠ [] ∧ (extractRawHostname parts.netloc).isSome = true

/-! ### The loop over the rules -/

section Collect

variable {α β γ : Type} (f : α → Option β)

/-- A loop that keeps what a partial function returns, and records that it refused something. -/
def collect (f : α → Option β) (state : List β × Bool) (a : α) : List β × Bool :=
  match f a with
  | none => (state.1, true)
  | some b => (state.1 ++ [b], state.2)

theorem foldl_collect (l : List α) (bs : List β) (flag : Bool) :
    l.foldl (collect f) (bs, flag) = (bs ++ l.filterMap f, flag || l.any fun a =>
      (f a).isNone) := by
  induction l generalizing bs flag with
  | nil => simp
  | cons a l ih => cases hf : f a <;> simp [collect, hf, ih]

variable {R : β → γ → Prop} {f}

/-- Two partial functions that agree keep related lists, and refuse the same. -/
theorem filterMap_same {g} {l : List α} (h : ∀ a ∈ l, Option.Rel R (f a) (g a)) :
    List.Forall₂ R (l.filterMap f) (l.filterMap g) ∧ (l.any fun a => (f a).isNone) = l.any fun a =>
      (g a).isNone := by
  induction l with
  | nil => exact ⟨.nil, rfl⟩
  | cons a l ih =>
    obtain ⟨ha, hl⟩ := forall_mem_cons.mp h
    obtain ⟨hrest, hany⟩ := ih hl
    rw [filterMap_cons, filterMap_cons, any_cons, any_cons, hany]
    generalize f a = x at ha ⊢
    generalize g a = y at ha ⊢
    cases ha with
    | none => exact ⟨hrest, rfl⟩
    | some hab => exact ⟨.cons hab hrest, rfl⟩

theorem exists_of_forall₂ {bs} {cs} (h : List.Forall₂ R bs cs) {b}
    (hb : b ∈ bs) : ∃ c ∈ cs, R b c := by
  induction h with
  | nil => cases hb
  | @cons b' c bs cs hbc _ ih =>
    rcases mem_cons.mp hb with rfl | hb
    · exact ⟨c, mem_cons_self, hbc⟩
    · obtain ⟨c', hc', h'⟩ := ih hb
      exact ⟨c', mem_cons_of_mem _ hc', h'⟩

end Collect

/-- What the addon compiles of a raw rule. -/
def compiledOf (py : PyLib) (rawRule : Json) : Option CompiledRule :=
  rawRule.asStr.bind fun rule => Firewall.compileRule py (codePoints rule)

variable {rule : JsStr} {py : PyLib} {usesAwsSigv4 : Bool}

section Rules

variable (serviceName : JsStr) (awsSigv4 awsDiagnosticEnabled : Bool) (permissionName : JsStr)

/-- What the package compiles of a raw rule. -/
def decisionOfRaw (rawRule : Json) : Option DecisionRule :=
  rawRule.asStr.bind fun rule =>
    compileDecisionRule permissionName rule serviceName awsSigv4 awsDiagnosticEnabled

theorem compileRawRule_eq : compileRawRule serviceName awsSigv4 awsDiagnosticEnabled permissionName
      = collect (decisionOfRaw serviceName awsSigv4 awsDiagnosticEnabled permissionName) := by
  funext state rawRule
  unfold compileRawRule collect decisionOfRaw
  cases rawRule with
  | str rule =>
    simp only [asStr, Option.bind_some]
    cases compileDecisionRule permissionName rule serviceName awsSigv4 awsDiagnosticEnabled <;> rfl
  | null | bool | int | float | arr | obj => rfl

/-- A rule that compiles without AWS predicates: the flags of the package play no part. -/
theorem rule_same (py : CodepointLib)
    (hfree : ∀ compiled, compileRule py.toPyLib (codePoints rule) = some compiled →
      compiled.awsPredicates = none) :
    Option.Rel (fun decision compiled => decision.permission = permissionName ∧
      SameRule decision compiled)
      (compileDecisionRule permissionName rule serviceName awsSigv4 awsDiagnosticEnabled)
      (compileRule py.toPyLib (codePoints rule)) := by
  have hsame := compileRule_same py permissionName rule serviceName
  rw [compileDecisionRule_eq]
  generalize readRule ⟨rule, permissionName, serviceName⟩ rule = read at hsame ⊢
  generalize compileRule py.toPyLib (codePoints rule) = compiled at hsame hfree ⊢
  cases hsame with
  | none => exact .none
  | @some read compiled hrule =>
    have haws : read.2.awsPredicates = none := by
      have hrel : Option.Rel SameAws read.2.awsPredicates compiled.awsPredicates := hrule.aws
      rw [hfree compiled rfl] at hrel
      generalize read.2.awsPredicates = predicates at hrel ⊢
      cases hrel
      rfl
    rw [Option.bind_some, haws]
    exact .some ⟨rfl, hrule⟩

variable {rawRules : List Json}

theorem compileRules_eq
    (hfree : ∀ rawRule ∈ rawRules, ∀ compiled, compiledOf py rawRule = some compiled →
      compiled.awsPredicates = none) :
    compileRules py usesAwsSigv4 (rawRules.map toPy) =
      (rawRules.filterMap (compiledOf py), rawRules.any fun rawRule =>
        (compiledOf py rawRule).isNone) := by
  have hcoll := foldl_collect (compiledOf py) rawRules [] false
  rw [nil_append, Bool.false_or] at hcoll
  rw [compileRules, foldl_map, ← hcoll]
  refine foldl_ext _ _ _ fun state rawRule hmem => ?_
  have hrule := hfree rawRule hmem
  cases rawRule with
  | str rule =>
    simp only [toPy, collect, compiledOf, asStr, Option.bind_some] at hrule ⊢
    cases hcomp : compileRule py (codePoints rule) with
    | none => rfl
    | some compiled => simp [hrule compiled hcomp]
  | null | bool | int | float | arr | obj => simp [toPy, collect, compiledOf, asStr]

/-- Both sides compile the rules of a permission alike. -/
theorem rules_same (py : CodepointLib)
    (hfree : ∀ rawRule ∈ rawRules, ∀ compiled, compiledOf py.toPyLib rawRule = some compiled →
      compiled.awsPredicates = none) :
    List.Forall₂ (fun decision compiled => decision.permission = permissionName ∧
      SameRule decision compiled)
        (rawRules.filterMap (decisionOfRaw serviceName awsSigv4 awsDiagnosticEnabled
          permissionName))
        (rawRules.filterMap (compiledOf py.toPyLib)) ∧
      (rawRules.any fun rawRule =>
          (decisionOfRaw serviceName awsSigv4 awsDiagnosticEnabled permissionName rawRule).isNone) =
        rawRules.any fun rawRule => (compiledOf py.toPyLib rawRule).isNone := by
  refine filterMap_same fun rawRule hmem => ?_
  have hrule := hfree rawRule hmem
  unfold decisionOfRaw compiledOf at *
  cases hstr : rawRule.asStr with
  | none => exact .none
  | some rule =>
    rw [hstr] at hrule
    exact rule_same _ _ _ _ py hrule

end Rules

/-! ### The loop over the permissions -/

theorem retainedPairs_concat (permissions) (name : PyStr) (rules) :
    retainedPairs (permissions ++ [⟨name, rules⟩]) = retainedPairs permissions ++
      rules.map (name, ·) := by
  simp [retainedPairs]

/-- The loops of both sides are at the same point.  The reserved name is only ever seen by the
package. -/
structure SameState (state : DecisionState) (addon : PermissionsState) : Prop where
  pairs : List.Forall₂ SamePair state.rules (retainedPairs addon.permissions)
  seen : ∀ name, name ≠ reservedName →
    (name ∈ state.seenPermissionNames ↔ codePoints name ∈ addon.seenNames)
  malformed : state.hasMalformedRules = addon.malformed
  free : ∀ pair ∈ retainedPairs addon.permissions, pair.2.awsPredicates = none

variable {state : DecisionState} {addon : PermissionsState} {rules}

theorem SameState.refused (h : SameState state addon) :
    SameState { state with hasMalformedRules := true } { addon with malformed := true } :=
  ⟨h.pairs, h.seen, rfl, h.free⟩

theorem permissionNameInvalid_codePoints (name : JsStr) :
    permissionNameInvalid (codePoints name) = true ↔ isValidPermissionName name = false ∨
      name = reservedName := by
  have hall : codePoints name = lit "all" ↔ name = js "all" := by
    rw [show lit "all" = codePoints (js "all") by decide]
    exact codePoints_injective.eq_iff
  have hresv : codePoints name = lit "__unknown__" ↔ name = reservedName := by
    rw [show lit "__unknown__" = codePoints reservedName by decide]
    exact codePoints_injective.eq_iff
  simp only [permissionNameInvalid, isValidPermissionName, mem_cons, codePoints_eq_nil,
    decide_eq_true_eq, decide_eq_false_iff_not]
  tauto

section Loop

variable {serviceName : JsStr} {awsSigv4 awsDiagnosticEnabled : Bool} {py : CodepointLib}

/-- A permission with a new name that is not the reserved one. -/
theorem SameState.permission
    (h : SameState state addon) (permissionName : JsStr) {rawRules : List Json} (malformed : Bool)
    (hfree : ∀ rawRule ∈ rawRules, ∀ compiled, compiledOf py.toPyLib rawRule = some compiled →
      compiled.awsPredicates = none) :
    SameState
      ⟨state.rules ++ rawRules.filterMap (decisionOfRaw serviceName awsSigv4 awsDiagnosticEnabled
        permissionName),
        permissionName :: state.seenPermissionNames,
        state.hasMalformedRules || malformed || rawRules.any fun rawRule =>
          (decisionOfRaw serviceName awsSigv4 awsDiagnosticEnabled permissionName rawRule).isNone⟩
      ⟨addon.permissions ++ [⟨codePoints permissionName,
        rawRules.filterMap (compiledOf py.toPyLib)⟩],
        codePoints permissionName :: addon.seenNames,
        addon.malformed || malformed || rawRules.any fun rawRule =>
          (compiledOf py.toPyLib rawRule).isNone⟩ := by
  obtain ⟨hrules, href⟩ := rules_same serviceName awsSigv4 awsDiagnosticEnabled permissionName py
    hfree
  refine ⟨?_, ?_, ?_, ?_⟩
  · rw [retainedPairs_concat]
    refine rel_append h.pairs ?_
    rw [List.forall₂_map_right_iff]
    exact hrules.imp fun decision compiled hsame => ⟨by rw [hsame.1], hsame.2⟩
  · intro name hne
    rw [mem_cons, mem_cons, codePoints_injective.eq_iff, h.seen name hne]
  · simp only [h.malformed, href]
  · intro pair hpair
    rw [retainedPairs_concat, mem_append, mem_map] at hpair
    rcases hpair with hpair | ⟨compiled, hcompiled, rfl⟩
    · exact h.free pair hpair
    · obtain ⟨rawRule, hmem, hraw⟩ := mem_filterMap.mp hcompiled
      exact hfree rawRule hmem compiled hraw

variable {permission : JsonObject} {state : DecisionState} {permissionName : JsStr}
  {addon : PermissionsState} {usesAwsSigv4 : Bool} {rawPermission : Json} {permissions : List Json}

/-- The rules of a permission, as texts that compile without AWS predicates. -/
theorem free_rules (hfree : WithoutAws py.toPyLib [.obj permission]) :
      ∀ rawRule ∈ rawRulesOf permission, ∀ compiled,
      compiledOf py.toPyLib rawRule = some compiled → compiled.awsPredicates = none := by
  intro rawRule hmem compiled hcompiled
  obtain ⟨rule, hrule, hcomp⟩ := Option.bind_eq_some_iff.mp hcompiled
  refine hfree rule ?_ compiled hcomp
  simp only [ruleTexts, flatMap_cons, flatMap_nil, append_nil]
  exact mem_filterMap.mpr ⟨rawRule, hmem, hrule⟩

/-- What the package does with a permission whose name is new. -/
theorem compileRawPermission_new
    (hname : dictGet (js "name") permission = some (.str permissionName))
    (hvalid : isValidPermissionName permissionName)
    (hnew : permissionName ∉ state.seenPermissionNames) :
    compileRawPermission serviceName awsSigv4 awsDiagnosticEnabled state (.obj permission) =
      ⟨state.rules ++ (rawRulesOf permission).filterMap
          (decisionOfRaw serviceName awsSigv4 awsDiagnosticEnabled permissionName),
        permissionName :: state.seenPermissionNames,
        state.hasMalformedRules || (rawRulesOf permission).isEmpty ||
          (rawRulesOf permission).any fun rawRule =>
          (decisionOfRaw serviceName awsSigv4 awsDiagnosticEnabled permissionName
            rawRule).isNone⟩ := by
  have hflag : ¬isValidPermissionName permissionName =
    false := by rw [hvalid]; exact Bool.noConfusion
  unfold compileRawPermission rawRulesOf
  simp only [hname, if_neg hflag, if_neg hnew, compileRawRule_eq, foldl_collect]
  cases hrules : dictGet (js "rules") permission with
  | none => simp
  | some value => cases value <;> simp

/-- What the addon does with a permission whose name is new. -/
theorem compilePermission_new (hname : dictGet (js "name") permission = some (.str permissionName))
    (hvalid : permissionNameInvalid (codePoints permissionName) = false)
    (hnew : codePoints permissionName ∉ addon.seenNames)
    (hfree : WithoutAws py.toPyLib [.obj permission]) :
    compilePermission py.toPyLib usesAwsSigv4 addon (toPy (.obj permission)) =
      ⟨addon.permissions ++ [⟨codePoints permissionName,
        (rawRulesOf permission).filterMap (compiledOf py.toPyLib)⟩],
        codePoints permissionName :: addon.seenNames,
        addon.malformed || (rawRulesOf permission).isEmpty ||
          (rawRulesOf permission).any fun rawRule => (compiledOf py.toPyLib rawRule).isNone⟩ := by
  have hrules := free_rules hfree
  have hcomp : compileRules py.toPyLib usesAwsSigv4 [] = ([], false) := rfl
  rw [toPy, compilePermission, pyGet_lit "name" (by decide), pyGet_lit "rules" (by decide), hname]
  simp only [Option.map_some, toPy, hvalid, if_neg hnew]
  unfold rawRulesOf at hrules ⊢
  cases hraw : dictGet (js "rules") permission with
  | none => simp [hcomp]
  | some value =>
    cases value with
    | arr rawRules =>
      rw [hraw] at hrules
      simp only [Option.map_some, toPy, listToPy_eq, compileRules_eq hrules]
      cases rawRules <;> simp
    | null | bool | int | float | str | obj => simp [toPy, hcomp]

/-- A permission that has no name is refused on both sides. -/
theorem SameState.nameless (h : SameState state addon) (hname : rawNameOf rawPermission = none) :
    SameState (compileRawPermission serviceName awsSigv4 awsDiagnosticEnabled state rawPermission)
      (compilePermission py.toPyLib usesAwsSigv4 addon rawPermission.toPy) := by
  cases rawPermission with
  | obj permission =>
    rw [toPy, compilePermission, pyGet_lit "name" (by decide), compileRawPermission]
    rw [rawNameOf] at hname
    generalize dictGet (js "name") permission = value at hname ⊢
    obtain _ | value := value
    · exact h.refused
    · cases value with
      | str name => cases hname
      | null | bool | int | float => exact h.refused
      | arr | obj => simpa [toPy] using h.refused
  | null | bool | int | float | str => exact h.refused
  | arr items => simpa only [toPy, compileRawPermission, compilePermission] using h.refused

variable {name rule : JsStr} {decision : DecisionRule}

/-- A permission that has a name. -/
theorem rawNameOf_eq_some (h : rawNameOf rawPermission = some name) :
    ∃ permission, rawPermission = .obj permission ∧
      dictGet (js "name") permission = some (.str name) := by
  cases rawPermission with
  | obj permission =>
    refine ⟨permission, rfl, ?_⟩
    obtain ⟨value, hvalue, hstr⟩ := Option.bind_eq_some_iff.mp h
    cases value <;> cases hstr
    exact hvalue
  | _ => cases h

/-- **One permission.**  Both sides stay at the same point, unless the package keeps a rule under
the reserved name. -/
theorem SameState.step (h : SameState state addon)
    (usesAwsSigv4 : Bool) (hfree : WithoutAws py.toPyLib [rawPermission])
    (hresv : reservedName ∉ state.seenPermissionNames → ReservedUnused py.toPyLib [rawPermission]) :
    SameState (compileRawPermission serviceName awsSigv4 awsDiagnosticEnabled state rawPermission)
      (compilePermission py.toPyLib usesAwsSigv4 addon rawPermission.toPy) := by
  cases hraw : rawNameOf rawPermission with
  | none => exact h.nameless hraw
  | some name =>
    obtain ⟨permission, rfl, hname⟩ := rawNameOf_eq_some hraw
    have hinv := permissionNameInvalid_codePoints name
    -- the addon refuses the permission
    have hrefuse : (permissionNameInvalid (codePoints name) ∨ codePoints name ∈ addon.seenNames) →
        compilePermission py.toPyLib usesAwsSigv4 addon (toPy (.obj permission)) =
          { addon with malformed := true } := by
      intro hbad
      rw [toPy, compilePermission, pyGet_lit "name" (by decide), hname]
      simp only [Option.map_some, toPy]
      rcases hbad with hbad | hbad <;> simp [hbad]
    have hpack : (isValidPermissionName name = false ∨ name ∈ state.seenPermissionNames) →
        compileRawPermission serviceName awsSigv4 awsDiagnosticEnabled state (.obj permission) =
          { state with hasMalformedRules := true } := by
      intro hbad
      rw [compileRawPermission, hname]
      rcases hbad with hbad | hbad <;> simp [hbad]
    by_cases hvalid : isValidPermissionName name = false
    · rw [hpack (.inl hvalid), hrefuse (.inl (hinv.mpr (.inl hvalid)))]
      exact h.refused
    · by_cases hreservedName : name = reservedName
      · subst hreservedName
        rw [hrefuse (.inl (hinv.mpr (.inr rfl)))]
        by_cases hseen : reservedName ∈ state.seenPermissionNames
        · rw [hpack (.inr hseen)]
          exact h.refused
        · -- nothing is retained, so that something was refused or there was nothing
          have hunus := hresv hseen
          rw [ReservedUnused, reservedRules, if_pos hraw] at hunus
          have hnone : ∀ rawRule ∈ rawRulesOf permission, compiledOf py.toPyLib rawRule = none := by
            intro rawRule hmem
            rw [compiledOf]
            cases hstr : rawRule.asStr with
            | none => rfl
            | some rule => exact hunus rule (mem_filterMap.mpr ⟨rawRule, hmem, hstr⟩)
          obtain ⟨hrules, href⟩ := rules_same serviceName awsSigv4 awsDiagnosticEnabled reservedName
            py
            (free_rules hfree)
          rw [filterMap_eq_nil_iff.mpr hnone, List.forall₂_nil_right_iff] at hrules
          have hflag : ((rawRulesOf permission).isEmpty ||
            (rawRulesOf permission).any fun rawRule =>
              (compiledOf py.toPyLib rawRule).isNone) := by
            cases hlist : rawRulesOf permission with
            | nil => rfl
            | cons rawRule rest =>
              have hfirst := hnone rawRule (hlist ▸ mem_cons_self)
              simp [hfirst]
          rw [compileRawPermission_new hname
            (Bool.not_eq_false _ ▸ hvalid) hseen, hrules, href, append_nil, Bool.or_assoc, hflag,
              Bool.or_true]
          refine ⟨h.pairs, fun other hne => ?_, rfl, h.free⟩
          rw [mem_cons, or_iff_right hne, h.seen other hne]
      · by_cases hseen : name ∈ state.seenPermissionNames
        · rw [hpack (.inr hseen), hrefuse (.inr ((h.seen name hreservedName).mp hseen))]
          exact h.refused
        · have hok : permissionNameInvalid (codePoints name) = false := by
            rw [Bool.eq_false_iff, Ne, hinv]
            exact not_or.mpr ⟨hvalid, hreservedName⟩
          have hnew : codePoints name ∉ addon.seenNames := mt (h.seen name hreservedName).mpr hseen
          rw [compileRawPermission_new hname
            (Bool.not_eq_false _ ▸ hvalid) hseen, compilePermission_new hname hok hnew hfree]
          exact h.permission name _ (free_rules hfree)

variable (serviceName awsSigv4 awsDiagnosticEnabled) in
/-- What a permission adds: its name or nothing to the names seen, and rules to the rules. -/
theorem compileRawPermission_adds (state) (rawPermission : Json) :
    let after := compileRawPermission serviceName awsSigv4 awsDiagnosticEnabled state rawPermission
    (after.seenPermissionNames = state.seenPermissionNames ∨ ∃ name,
        rawNameOf rawPermission = some name ∧
        after.seenPermissionNames = name :: state.seenPermissionNames) ∧
      ∃ more, after.rules = state.rules ++ more := by
  have hnoth : ∃ more, state.rules = state.rules ++ more := ⟨[], (append_nil _).symm⟩
  unfold compileRawPermission
  split
  case h_1 permission =>
    split
    case h_1 name hname =>
      have hraw : rawNameOf (.obj permission) = some name := by
        rw [rawNameOf, hname]
        rfl
      split
      · exact ⟨.inl rfl, hnoth⟩
      · split
        · exact ⟨.inl rfl, hnoth⟩
        · split
          · refine ⟨.inr ⟨name, hraw, rfl⟩, ?_⟩
            rw [compileRawRule_eq, foldl_collect]
            exact ⟨_, rfl⟩
          · exact ⟨.inr ⟨name, hraw, rfl⟩, hnoth⟩
    case h_2 => exact ⟨.inl rfl, hnoth⟩
  case h_2 => exact ⟨.inl rfl, hnoth⟩

/-- A name is seen by now, or it is the name of the permission. -/
theorem mem_seen (hname : rawNameOf rawPermission ≠ some name) : name ∈
      (compileRawPermission serviceName awsSigv4 awsDiagnosticEnabled state
        rawPermission).seenPermissionNames ↔
        name ∈ state.seenPermissionNames := by
  rcases (compileRawPermission_adds serviceName awsSigv4 awsDiagnosticEnabled state
    rawPermission).1 with h | ⟨other, hother, h⟩
  · rw [h]
  · have hne : name ≠ other := fun heq => hname (heq ▸ hother)
    rw [h, mem_cons, or_iff_right hne]

/-- What is kept stays kept. -/
theorem rules_kept (permissions : List Json) (h : decision ∈ state.rules) :
    decision ∈ (permissions.foldl (compileRawPermission serviceName awsSigv4 awsDiagnosticEnabled)
      state).rules := by
  induction permissions generalizing state with
  | nil => exact h
  | cons rawPermission permissions ih =>
    obtain ⟨more, hmore⟩ := (compileRawPermission_adds serviceName awsSigv4 awsDiagnosticEnabled
      state rawPermission).2
    exact ih (hmore ▸ mem_append_left _ h)

/-- What is known of the rules of a list of permissions is known of each of them. -/
theorem WithoutAws.cons {py}
    (h : WithoutAws py (rawPermission :: permissions)) : WithoutAws py [rawPermission] ∧
      WithoutAws py permissions := by
  have hsplit : ruleTexts (rawPermission :: permissions) = ruleTexts [rawPermission] ++
    ruleTexts permissions := by
    simp [ruleTexts]
  rw [WithoutAws, hsplit] at h
  exact ⟨fun rule hrule => h rule (mem_append_left _ hrule), fun rule hrule =>
    h rule (mem_append_right _ hrule)⟩

theorem reservedRules_named (hname : rawNameOf rawPermission = some reservedName)
    (permissions) : reservedRules (rawPermission :: permissions) = reservedRules
    [rawPermission] := by
  obtain ⟨permission, rfl, _⟩ := rawNameOf_eq_some hname
  rw [reservedRules, reservedRules, if_pos hname, if_pos hname]

theorem reservedRules_other (hname : rawNameOf rawPermission ≠ some reservedName)
    (permissions) : reservedRules (rawPermission :: permissions) = reservedRules permissions := by
  cases rawPermission with
  | obj permission => rw [reservedRules, if_neg hname]
  | _ => rfl

/-- A permission by the reserved name is seen. -/
theorem reserved_seen (state) (hname : rawNameOf rawPermission = some reservedName) : reservedName ∈
      (compileRawPermission serviceName awsSigv4 awsDiagnosticEnabled state
        rawPermission).seenPermissionNames := by
  by_cases hseen : reservedName ∈ state.seenPermissionNames
  · rcases (compileRawPermission_adds serviceName awsSigv4 awsDiagnosticEnabled state
      rawPermission).1 with h | ⟨_, _, h⟩
    · rwa [h]
    · rw [h]
      exact mem_cons_of_mem _ hseen
  · obtain ⟨permission, rfl, hget⟩ := rawNameOf_eq_some hname
    rw [compileRawPermission_new hget (by decide) hseen]
    exact mem_cons_self

theorem mem_ruleTexts_of_reserved (h : rule ∈ (reservedRules permissions).filterMap asStr) :
    rule ∈ ruleTexts permissions := by
  induction permissions with
  | nil => cases h
  | cons rawPermission permissions ih =>
    by_cases hname : rawNameOf rawPermission = some reservedName
    · obtain ⟨permission, rfl, _⟩ := rawNameOf_eq_some hname
      rw [reservedRules, if_pos hname] at h
      exact mem_append_left _ h
    · rw [reservedRules_other hname] at h
      exact mem_append_right _ (ih h)

variable (serviceName awsSigv4 awsDiagnosticEnabled) in
/-- **All permissions.** -/
theorem SameState.run (h : SameState state addon) (usesAwsSigv4 : Bool)
    (hfree : WithoutAws py.toPyLib permissions)
    (hresv : reservedName ∉ state.seenPermissionNames → ReservedUnused py.toPyLib permissions) :
    SameState (permissions.foldl (compileRawPermission serviceName awsSigv4 awsDiagnosticEnabled)
      state)
      ((permissions.map toPy).foldl (compilePermission py.toPyLib usesAwsSigv4) addon) := by
  induction permissions generalizing state addon with
  | nil => exact h
  | cons rawPermission permissions ih =>
    obtain ⟨hfirst, hrest⟩ := hfree.cons
    by_cases hname : rawNameOf rawPermission = some reservedName
    · refine ih (h.step usesAwsSigv4 hfirst ?_) hrest fun huns => ?_
      · intro hnew
        rw [ReservedUnused, ← reservedRules_named hname permissions]
        exact hresv hnew
      · -- from here on the package refuses the reserved name
        exact absurd (reserved_seen state hname) huns
    · refine ih (h.step usesAwsSigv4 hfirst ?_) hrest fun huns => ?_
      · intro _
        rw [ReservedUnused, reservedRules_other hname]
        exact forall_mem_nil _
      · have hunus := hresv (mt (mem_seen hname).mpr huns)
        rwa [ReservedUnused, reservedRules_other hname] at hunus

/-- A rule under the reserved name that compiles is kept by the package. -/
theorem reserved_kept (hnew : reservedName ∉ state.seenPermissionNames)
    (hrule : rule ∈ (reservedRules permissions).filterMap asStr)
    (hdecision : compileDecisionRule reservedName rule serviceName awsSigv4 awsDiagnosticEnabled =
      some decision) :
    decision ∈ (permissions.foldl (compileRawPermission serviceName awsSigv4 awsDiagnosticEnabled)
      state).rules := by
  induction permissions generalizing state with
  | nil => cases hrule
  | cons rawPermission permissions ih =>
    by_cases hname : rawNameOf rawPermission = some reservedName
    · obtain ⟨permission, rfl, hget⟩ := rawNameOf_eq_some hname
      rw [reservedRules, if_pos hname] at hrule
      obtain ⟨rawRule, hmem, hstr⟩ := mem_filterMap.mp hrule
      refine rules_kept permissions ?_
      rw [compileRawPermission_new hget (by decide) hnew]
      refine mem_append_right _ (mem_filterMap.mpr ⟨rawRule, hmem, ?_⟩)
      rw [decisionOfRaw, hstr]
      exact hdecision
    · rw [reservedRules_other hname] at hrule
      exact ih (mt (mem_seen hname).mp hnew) hrule

end Loop

/-- The addon retains no permission by the reserved name. -/
theorem addon_names {permissions : List PyValue} {state : PermissionsState}
    (h : ∀ permission ∈ state.permissions, permission.name ≠ codePoints reservedName) :
    ∀ permission ∈ (permissions.foldl (compilePermission py usesAwsSigv4) state).permissions,
      permission.name ≠ codePoints reservedName := by
  induction permissions generalizing state with
  | nil => exact h
  | cons perm permissions ih =>
    refine ih ?_
    unfold compilePermission
    split
    · split
      case h_1 name _ =>
        split
        case isTrue => exact h
        case isFalse hvalid =>
          split
          · exact h
          · refine forall_mem_append.mpr ⟨h, forall_mem_singleton.mpr ?_⟩
            rintro rfl
            exact hvalid (by decide)
      case h_2 => exact h
    · exact h

/-! ### Without AWS predicates, the selector keys play no part -/

theorem attach_package (h : ∀ rule ∈ rules, rule.awsPredicates = none) : attachAwsQuerySelectorKeys
    rules = rules := by
  refine (map_congr_left fun rule hrule => ?_).trans (map_id rules)
  rw [awsQuerySelectorSignature, h rule hrule]
  rfl

theorem attach_addon {permissions} (h : ∀ pair ∈ retainedPairs permissions,
    pair.2.awsPredicates = none) :
    Firewall.attachAwsQuerySelectorKeys permissions = permissions := by
  have htable : Firewall.selectorKeysBySignature (permissions.flatMap CompiledPermission.rules) =
    [] := by
    have hrules : ∀ rule ∈ permissions.flatMap CompiledPermission.rules,
      rule.awsPredicates = none := by
      intro rule hrule
      obtain ⟨permission, hperm, hmem⟩ := mem_flatMap.mp hrule
      exact h (permission.name, rule)
        (mem_flatMap.mpr ⟨permission, hperm, mem_map_of_mem hmem⟩)
    unfold Firewall.selectorKeysBySignature
    generalize permissions.flatMap CompiledPermission.rules = rules at hrules ⊢
    induction rules with
    | nil => rfl
    | cons rule rules ih =>
      obtain ⟨hrule, hrest⟩ := forall_mem_cons.mp hrules
      rw [foldl_cons, Firewall.awsQuerySelectorSignature, hrule]
      exact ih hrest
  rw [Firewall.attachAwsQuerySelectorKeys, htable]
  rfl

/-! ### Both sides of an API -/

theorem permissionless_same (api) : permissionless api = apiPermissionless (entriesToPy api) := by
  rw [permissionless, apiPermissionless, pyGet_lit "permissions" (by decide)]
  cases dictGet (js "permissions") api with
  | none => rfl
  | some value =>
    cases value with
    | arr permissions => cases permissions <;> simp [toPy, listToPy]
    | obj entries => simp [toPy]
    | _ => rfl

section Api

variable (py : CodepointLib) (api : JsonObject) (serviceName : JsStr)
  (nameMalformed awsDiagnosticEnabled : Bool)

/-- The permissions of an entry that uses the reserved name for no rule. -/
theorem compilePermissions_same (hfree : WithoutAws py.toPyLib (rawPermissionsOf api))
    (hunus : ReservedUnused py.toPyLib (rawPermissionsOf api)) :
    let mine := compileRawPermissions api serviceName nameMalformed awsDiagnosticEnabled
    let theirs := compilePermissions py.toPyLib nameMalformed (entriesToPy api)
    List.Forall₂ SamePair mine.1 (retainedPairs theirs.1) ∧ mine.2 = theirs.2 ∧
      ∀ pair ∈ retainedPairs theirs.1, pair.2.awsPredicates = none := by
  have hempty : ∀ pair ∈ retainedPairs [], pair.2.awsPredicates = none := forall_mem_nil _
  unfold rawPermissionsOf at hfree hunus
  unfold compileRawPermissions compilePermissions
  rw [pyGet_lit "permissions" (by decide)]
  cases hvalue : dictGet (js "permissions") api with
  | none => exact ⟨.nil, rfl, hempty⟩
  | some value =>
    rw [hvalue] at hfree hunus
    cases value with
    | arr permissions =>
      have hstart : SameState ⟨[], [], nameMalformed⟩ ⟨[], [], nameMalformed⟩ :=
        ⟨.nil, fun _ _ => by simp, rfl, hempty⟩
      have hrun := hstart.run serviceName (supportsAwsSigv4 api) awsDiagnosticEnabled
        (Firewall.apiAuthUsesAwsSigv4 (entriesToPy api)) hfree fun _ => hunus
      simp only [Option.map_some, toPy, listToPy_eq]
      exact ⟨hrun.pairs, hrun.malformed, hrun.free⟩
    | obj entries =>
      simp only [Option.map_some, toPy]
      exact ⟨.nil, trivial, hempty⟩
    | null | bool | int | float | str => exact ⟨.nil, rfl, hempty⟩

/-- A rule under the reserved name that compiles is retained by the package. -/
theorem reserved_retained (hfree : WithoutAws py.toPyLib (rawPermissionsOf api))
    (hrule : rule ∈ (reservedRules (rawPermissionsOf api)).filterMap asStr) {compiled}
    (hcompiled : compileRule py.toPyLib (codePoints rule) = some compiled) :
    ∃ decision ∈ (compileRawPermissions api serviceName nameMalformed awsDiagnosticEnabled).1,
      decision.permission = reservedName := by
  have hsame := rule_same serviceName (supportsAwsSigv4 api) awsDiagnosticEnabled reservedName py
    (hfree rule (mem_ruleTexts_of_reserved hrule))
  rw [hcompiled] at hsame
  cases hdecision : compileDecisionRule reservedName rule serviceName (supportsAwsSigv4 api)
    awsDiagnosticEnabled with
  | none =>
    rw [hdecision] at hsame
    cases hsame
  | some decision =>
    rw [hdecision] at hsame
    obtain ⟨hname, _⟩ : decision.permission = reservedName ∧ SameRule decision compiled := by
      cases hsame
      assumption
    refine ⟨decision, ?_, hname⟩
    unfold rawPermissionsOf at hrule
    unfold compileRawPermissions
    split at hrule
    case h_2 => cases hrule
    case h_1 permissions hperms =>
    rw [hperms]
    exact reserved_kept not_mem_nil hrule hdecision

/-- The addon retains nothing under the reserved name. -/
theorem addon_pair_names {pair : PyStr × CompiledRule}
    (hpair : pair ∈ retainedPairs (Firewall.attachAwsQuerySelectorKeys
      (compilePermissions py.toPyLib nameMalformed (entriesToPy api)).1)) :
    pair.1 ≠ codePoints reservedName := by
  have hnames : ∀ permission ∈ (compilePermissions py.toPyLib nameMalformed (entriesToPy api)).1,
      permission.name ≠ codePoints reservedName := by
    unfold compilePermissions
    split
    · exact forall_mem_nil _
    · exact addon_names (forall_mem_nil _)
    · exact forall_mem_nil _
  obtain ⟨permission, hperm, hmem⟩ := mem_flatMap.mp hpair
  obtain ⟨rule, _, rfl⟩ := mem_map.mp hmem
  rw [Firewall.attachAwsQuerySelectorKeys] at hperm
  split at hperm
  · exact hnames permission hperm
  · obtain ⟨original, horig, rfl⟩ := mem_map.mp hperm
    exact hnames original horig

variable {py api serviceName nameMalformed awsDiagnosticEnabled} in
/-- Where both sides compile an entry, they agree iff no rule under the reserved name compiles. -/
theorem sameApi_kept {lib : ConnectorLib} {apiIndex : ℕ} {decision : DecisionApi}
    {core : CompiledApiCore}
    (hdecision : compileDecisionApi lib api serviceName nameMalformed awsDiagnosticEnabled =
      some decision)
    (hcore : Firewall.compileApiCore py.toPyLib nameMalformed apiIndex (Json.obj api).toPy =
      some core)
    (hfree : WithoutAws py.toPyLib (rawPermissionsOf api)) :
    SameApi decision core ↔ ReservedUnused py.toPyLib (rawPermissionsOf api) := by
  have hmine : decision.rules = attachAwsQuerySelectorKeys
        (compileRawPermissions api serviceName nameMalformed awsDiagnosticEnabled).1 ∧
      decision.permissionless = permissionless api ∧
      decision.hasMalformedRules = (compileRawPermissions api serviceName nameMalformed
        awsDiagnosticEnabled).2 := by
    unfold compileDecisionApi at hdecision
    split at hdecision
    · cases hdecision
      exact ⟨rfl, rfl, rfl⟩
    · cases hdecision
  have htheirs : core.permissions = Firewall.attachAwsQuerySelectorKeys
        (compilePermissions py.toPyLib nameMalformed (entriesToPy api)).1 ∧
      core.permissionless = apiPermissionless (entriesToPy api) ∧
      core.hasMalformedRules = (compilePermissions py.toPyLib nameMalformed
        (entriesToPy api)).2 := by
    rw [toPy] at hcore
    unfold compileApiCore at hcore
    dsimp only at hcore
    split at hcore
    · split at hcore
      · cases hcore
      · cases hcore
        exact ⟨rfl, rfl, rfl⟩
    · cases hcore
  obtain ⟨hrules, hless, hflag⟩ := hmine
  obtain ⟨hperms, hless', hflag'⟩ := htheirs
  constructor
  · intro hsame rule hrule
    by_contra hne
    obtain ⟨compiled, hcompiled⟩ := Option.ne_none_iff_exists'.mp hne
    obtain ⟨kept, hkept, hname⟩ :=
      reserved_retained py api serviceName nameMalformed awsDiagnosticEnabled hfree hrule hcompiled
    -- the keys that are attached leave the permission as it is
    obtain ⟨attached, hatt, hperm⟩ : ∃ rule ∈ decision.rules, rule.permission = reservedName := by
      rw [hrules, attachAwsQuerySelectorKeys]
      refine ⟨_, mem_map_of_mem hkept, ?_⟩
      split
      · exact hname
      · exact hname
    obtain ⟨pair, hpair, hpairName, _⟩ := exists_of_forall₂ hsame.pairs hatt
    rw [hperms] at hpair
    exact addon_pair_names py api nameMalformed hpair (hpairName.trans (congrArg codePoints hperm))
  · intro hunus
    obtain ⟨hpairs, hmalf, hnone⟩ :=
      compilePermissions_same py api serviceName nameMalformed awsDiagnosticEnabled hfree hunus
    have hnone' : ∀ rule ∈ (compileRawPermissions api serviceName nameMalformed
        awsDiagnosticEnabled).1,
        rule.awsPredicates = none := by
      intro rule hrule
      obtain ⟨pair, hpair, _, hsame⟩ := exists_of_forall₂ hpairs hrule
      have haws := hsame.aws
      rw [hnone pair hpair] at haws
      generalize rule.awsPredicates = predicates at haws ⊢
      cases haws
      rfl
    refine ⟨?_, ?_, ?_⟩
    · rw [hrules, hperms, attach_package hnone', attach_addon hnone]
      exact hpairs
    · rw [hless, hless', permissionless_same]
    · rw [hflag, hflag', hmalf]

theorem compileFirewallConfigBase_isSome {py : PyLib} {base : PyStr} :
    (compileFirewallConfigBase py base).isSome ↔ HasAuthority py base := by
  unfold compileFirewallConfigBase Firewall.compileBase HasAuthority
  rw [Option.isSome_map]
  by_cases hnil : stripOptionalTerminalSlash base = []
  · simp [hnil]
  · cases hsplit : py.urlsplit (stripOptionalTerminalSlash base) with
    | none => simp [hnil, hsplit]
    | some parts =>
      simp only [hnil, if_false, Firewall.splitBaseMatchUrl, hsplit, Firewall.normalizeAuthority]
      by_cases hempty : parts.scheme = [] ∨ parts.netloc = []
      · rcases hempty with hempty | hempty <;> simp [hempty]
      · cases hhost : extractRawHostname parts.netloc with
        | none => simp [hhost, hempty]
        | some host =>
          rw [not_or] at hempty
          simp [hhost, hempty, hnil]

/-- The addon leaves an entry out iff its base is no string or has no authority. -/
theorem compileApiCore_eq_none (apiIndex : ℕ) :
    compileApiCore py.toPyLib nameMalformed apiIndex (Json.obj api).toPy = none ↔
      ∀ base, dictGet (js "base") api = some (.str base) →
        ¬HasAuthority py.toPyLib (codePoints base) := by
  have hempty : compileFirewallConfigBase py.toPyLib [] = none := by
    rw [← Option.not_isSome_iff_eq_none, compileFirewallConfigBase_isSome]
    exact fun h => h.1 rfl
  have hget := pyGet_lit "base" (by decide) api
  rw [toPy, compileApiCore, hget]
  cases dictGet (js "base") api with
  | none => simp [hempty]
  | some value =>
    cases value with
    | str base =>
      simp only [Option.map_some, Option.getD_some, toPy, ← compileFirewallConfigBase_isSome]
      cases hcompiled : compileFirewallConfigBase py.toPyLib (codePoints base) <;> simp [hcompiled]
    | _ => simp [toPy]

/-- **Permission-list parity.**  On an API entry of which no rule compiles with AWS predicates, both
sides leave it out, or retain the same list of permission names and rules and find the same flags,
iff its base, if that is a string, has a scheme and an authority and no rule under the reserved name
compiles. -/
theorem sameApi_iff (lib : ConnectorLib) (apiIndex : ℕ)
    (hfree : WithoutAws py.toPyLib (rawPermissionsOf api)) :
    Option.Rel SameApi
        (compileDecisionApi lib api serviceName nameMalformed awsDiagnosticEnabled)
        (Firewall.compileApiCore py.toPyLib nameMalformed apiIndex (Json.obj api).toPy) ↔
      ∀ base, dictGet (js "base") api = some (.str base) →
        HasAuthority py.toPyLib (codePoints base) ∧
          ReservedUnused py.toPyLib (rawPermissionsOf api) := by
  cases hdecision : compileDecisionApi lib api serviceName nameMalformed awsDiagnosticEnabled with
  | none =>
    have hbase : ∀ base, dictGet (js "base") api ≠ some (.str base) := by
      intro base hbase
      simp [compileDecisionApi, hbase] at hdecision
    rw [(compileApiCore_eq_none py api nameMalformed apiIndex).mpr fun base h =>
      absurd h (hbase base)]
    exact iff_of_true .none fun base h => absurd h (hbase base)
  | some decision =>
    obtain ⟨base, hbase⟩ : ∃ base, dictGet (js "base") api = some (.str base) := by
      unfold compileDecisionApi at hdecision
      split at hdecision
      · exact ⟨_, ‹_›⟩
      · cases hdecision
    have hone {P : Prop} : (∀ base, dictGet (js "base") api = some (.str base) →
        HasAuthority py.toPyLib (codePoints base) ∧ P) ↔
          HasAuthority py.toPyLib (codePoints base) ∧ P := by
      simp [hbase]
    rw [hone]
    cases hcore : compileApiCore py.toPyLib nameMalformed apiIndex (Json.obj api).toPy with
    | none =>
      have hnot := (compileApiCore_eq_none py api nameMalformed apiIndex).mp hcore base hbase
      exact iff_of_false (fun h => by cases h) fun h => hnot h.1
    | some core =>
      have hauth : HasAuthority py.toPyLib (codePoints base) := by
        by_contra hnot
        have hnone := (compileApiCore_eq_none py api nameMalformed apiIndex).mpr fun base' h => by
          rw [hbase] at h
          cases h
          exact hnot
        rw [hcore] at hnone
        cases hnone
      rw [and_iff_right hauth, ← sameApi_kept hdecision hcore hfree]
      exact Option.rel_some_some

end Api

/-! ### An entry with the reserved name -/

/-- The package's checks, on entries whose bases are not looked at. -/
def plainConnectorLib : ConnectorLib where
  validateBaseUrl _ _ := true
  validateAuthBaseUrl _ _ := true
  canonicalJson _ := none

/-- An API entry with one permission of one rule. -/
def oneRuleApi (name rule : String) : JsonObject :=
  [(js "base", .str (js "https://api.example.com")), (js "auth", .obj []),
    (js "permissions", .arr [.obj [(js "name", .str (js name)),
      (js "rules", .arr [.str (js rule)])]])]

theorem oneRuleApi_free (name) :
    WithoutAws asciiLib.toPyLib (rawPermissionsOf (oneRuleApi name "GET /issues")) := by
  intro rule hrule compiled hcompiled
  obtain rfl : rule = js "GET /issues" := mem_singleton.mp hrule
  have hnone : (compileRule asciiLib.toPyLib (codePoints (js "GET /issues"))).all
      (fun compiled => compiled.awsPredicates.isNone) := by decide +kernel
  rw [hcompiled, Option.all_some] at hnone
  exact Option.isNone_iff_eq_none.mp hnone

/-- **The reserved name is enforced on one side only**: the package keeps its rule, the addon
refuses it. -/
theorem reservedName_diverges : ∃ decision core,
    compileDecisionApi plainConnectorLib (oneRuleApi "__unknown__" "GET /issues") (js "svc") false
      true = some decision ∧
      Firewall.compileApiCore asciiLib.toPyLib false 0
        (Json.obj (oneRuleApi "__unknown__" "GET /issues")).toPy = some core ∧
      WithoutAws asciiLib.toPyLib (rawPermissionsOf (oneRuleApi "__unknown__" "GET /issues")) ∧
      decision.rules.length = 1 ∧ decision.hasMalformedRules = false ∧
      retainedPairs core.permissions = [] ∧ core.hasMalformedRules = true ∧
        ¬SameApi decision core := by
  have hmine : (compileDecisionApi plainConnectorLib (oneRuleApi "__unknown__" "GET /issues")
    (js "svc") false true).any
      (fun decision => decision.rules.length = 1 ∧ decision.hasMalformedRules = false) = true := by
    decide +kernel
  have htheirs : (compileApiCore asciiLib.toPyLib false 0
      (obj (oneRuleApi "__unknown__" "GET /issues")).toPy).any
      (fun core => (retainedPairs core.permissions).isEmpty && core.hasMalformedRules) := by
    decide +kernel
  obtain ⟨decision, hdecision, hkept⟩ := (Option.any_eq_true _ _).mp hmine
  obtain ⟨core, hcore, href⟩ := (Option.any_eq_true _ _).mp htheirs
  obtain ⟨hlength, hflag⟩ := of_decide_eq_true hkept
  obtain ⟨hempty, hflag'⟩ := Bool.and_eq_true_iff.mp href
  refine ⟨decision, core, hdecision, hcore, oneRuleApi_free _, hlength, hflag,
    List.isEmpty_iff.mp hempty, hflag', ?_⟩
  intro hsame
  have hmalf := hsame.malformed
  rw [hflag, hflag'] at hmalf
  cases hmalf

/-- Under another name both sides keep the rule. -/
theorem sameApi_oneRule :
    (compileDecisionApi plainConnectorLib (oneRuleApi "issues" "GET /issues") (js "svc") false
      true).any (fun decision => decision.rules.length = 1) = true ∧
    Option.Rel SameApi
      (compileDecisionApi plainConnectorLib (oneRuleApi "issues" "GET /issues") (js "svc") false
        true)
      (Firewall.compileApiCore asciiLib.toPyLib false 0
        (Json.obj (oneRuleApi "issues" "GET /issues")).toPy) := by
  refine ⟨by decide +kernel, (sameApi_iff asciiLib _ (js "svc") false true plainConnectorLib 0
    (oneRuleApi_free "issues")).mpr fun base hbase => ?_⟩
  obtain rfl : js "https://api.example.com" = base := Json.str.inj (Option.some.inj hbase)
  refine ⟨compileFirewallConfigBase_isSome.mp (by decide +kernel), ?_⟩
  intro rule hrule
  cases hrule

end Okou.Connectors
