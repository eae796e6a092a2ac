import Okou.Firewall.RuleIndex

/-!
# Compiling firewalls and policies

`matching.py`, the compile phase.  An entry that cannot take part in base
matching is skipped; an entry that can is kept together with what is wrong with
it, so that a request under its base is refused and not let through.
-/

namespace Okou.Firewall

/-! ### Values -/

/-- `bool(value)`, on the values it is asked of. -/
def PyValue.truthy : PyValue → Bool
  | .none => false
  | .bool value => value
  | .int value => decide (value ≠ 0)
  | .str value => decide (value ≠ [])
  | .list items => !items.isEmpty
  | .dict items => !items.isEmpty
  | .other _ => true

def isStringRecord : PyValue → Bool
  | .dict items => items.all fun entry => entry.1.asStr.isSome && entry.2.asStr.isSome
  | _ => false

/-- A non-empty string under a key. -/
def hasNonEmptyStr (d : PyDict) (key : PyStr) : Bool :=
  match pyGet d key with
  | some (.str value) => decide (value ≠ [])
  | _ => false

section Auth

variable (py : PyLib)

/-! ### Auth -/

def authTemplateStart : PyStr := lit "$\x7b\x7b"

def authBaseWithReferencePlaceholders (authBase : PyStr) : List TemplateReference → ℕ → PyStr
  | [], start => authBase.drop start
  | reference :: references, start =>
    (authBase.take reference.start).drop start ++ lit "placeholder" ++
      authBaseWithReferencePlaceholders authBase references reference.stop

variable (authBase : PyStr) (apiEntry : PyDict)

/-- `_auth_base_for_static_url_validation`: the URL to validate, and the suffix after
a dynamic start. -/
def authBaseForStaticUrlValidation : Option PyStr × PyStr :=
  if !contains authTemplateStart authBase then (some authBase, [])
  else
    let references := py.iterSimpleReferences authBase
    let replaced := authBaseWithReferencePlaceholders authBase references 0
    if contains authTemplateStart replaced then (some authBase, [])
    else
      match references with
      | ⟨0, stop⟩ :: references =>
        (none, authBaseWithReferencePlaceholders authBase references stop)
      | _ => (some replaced, [])

def dynamicAuthBaseSuffixIsValid (suffix : PyStr) : Bool :=
  if contains authTemplateStart suffix || hasUnsafeUrlCodepoint py suffix ||
      hasRawWhitespace suffix || decide (cp '#' ∈ suffix) ||
      decide (suffix ≠ [] ∧ suffix.head? ≠ some (cp '/') ∧ suffix.head? ≠ some (cp '?')) then false
  else if suffix.head? ≠ some (cp '/') then true
  else !hasUnsafePath py (partition (cp '?') suffix).1

def staticAuthBaseIsValid : Bool :=
  if cp '\\' ∈ authBase then false
  else
    let (url, suffix) := authBaseForStaticUrlValidation py authBase
    if !dynamicAuthBaseSuffixIsValid py suffix then false
    else
      match url with
      | none => true
      | some url =>
        if contains authTemplateStart url then false
        else if hasRawWhitespace url then false
        else if !contains (lit "://") url then false
        else
          match py.urlsplit url with
          | none => false
          | some parts =>
            if py.lower parts.scheme ≠ lit "https" then false
            else if parts.fragment ≠ [] then false
            else if hasUnsafePath py parts.path then false
            else (splitBaseMatchUrl py ⟨true, false, false, false, false⟩ url).isSome

/-- The `awsSigv4` part of `_auth_config_is_valid`. -/
def awsSigv4IsValid (rawAuth : PyDict) : PyValue → Bool
  | .dict sigv4 =>
    (sigv4.all fun entry => match entry.1 with
      | .str key => decide (key ∈ [lit "accessKeyId", lit "secretAccessKey", lit "sessionToken"])
      | _ => false) &&
    hasNonEmptyStr sigv4 (lit "accessKeyId") && hasNonEmptyStr sigv4 (lit "secretAccessKey") &&
    ((pyGet sigv4 (lit "sessionToken")).isNone || hasNonEmptyStr sigv4 (lit "sessionToken")) &&
    !((pyGet rawAuth (lit "headers")).any PyValue.truthy) &&
    !((pyGet rawAuth (lit "query")).any PyValue.truthy) &&
    (pyGet rawAuth (lit "base")).isNone
  | _ => false

def authConfigIsValid : Bool :=
  match pyGet apiEntry (lit "auth") with
  | some (.dict rawAuth) =>
    (pyGet rawAuth (lit "headers")).all isStringRecord &&
    (pyGet rawAuth (lit "query")).all isStringRecord &&
    (pyGet rawAuth (lit "awsSigv4")).all (awsSigv4IsValid rawAuth) &&
    (pyGet rawAuth (lit "base")).all fun base => match base with
      | .str base => staticAuthBaseIsValid py base
      | _ => false
  | _ => false

def apiAuthUsesAwsSigv4 : Bool :=
  match pyGet apiEntry (lit "auth") with
  | some (.dict rawAuth) => (pyGet rawAuth (lit "awsSigv4")).isSome
  | _ => false

/-- `auth_config_injects_ordinary_upstream_credentials`. -/
def injectsOrdinaryUpstreamCredentials : Bool :=
  let nonEmptyMapping : Option PyValue → Bool
    | some (.dict items) => !items.isEmpty
    | _ => false
  match pyGet apiEntry (lit "auth") with
  | some (.dict rawAuth) =>
    nonEmptyMapping (pyGet rawAuth (lit "headers")) ||
      nonEmptyMapping (pyGet rawAuth (lit "query")) ||
      nonEmptyMapping (pyGet rawAuth (lit "awsSigv4"))
  | _ => false

def apiRoutingIdentity : Option PyStr :=
  let entry := fun (key : PyStr) => (PyValue.str key, (pyGet apiEntry key).getD .none)
  let identity := [entry (lit "base"), entry (lit "auth")]
  py.jsonDumps (.dict (if (pyGet apiEntry (lit "hostPolicy")).isSome then
    identity ++ [entry (lit "hostPolicy")] else identity))

end Auth

/-! ### Compiled firewalls -/

/-- `_CompiledApiCore`.  Its rule index is that of its permissions. -/
structure CompiledApiCore where
  rawApiIndex : ℕ
  base : CompiledBase
  permissions : List CompiledPermission
  ruleIndex : CompiledRuleIndex
  baseMalformed : Bool
  authMalformed : Bool
  injectsOrdinaryUpstreamCredentials : Bool
  permissionless : Bool
  routingIdentity : Option PyStr
  hasMalformedRules : Bool
  ruleIndex_eq : ruleIndex = compileRuleIndex permissions

structure CompiledApi where
  rawApiEntry : PyDict
  core : CompiledApiCore

/-- `CompiledFirewallCore`.  A malformed name is recorded in every API. -/
structure CompiledFirewallCore where
  name : PyStr
  intentIdentity : PyStr
  apiCores : List CompiledApiCore
  nameMalformed : Bool
  malformed_name : nameMalformed = true → ∀ core ∈ apiCores, core.hasMalformedRules = true

inductive ConnectorRuntimeKind
  | builtin
  | custom
  deriving DecidableEq, Repr

/-- `_CompiledFirewall`.  Its APIs are those of its core, in their order. -/
structure CompiledFirewall where
  core : CompiledFirewallCore
  apis : List CompiledApi
  connectorRuntimeKind : Option ConnectorRuntimeKind
  apis_eq : apis.map CompiledApi.core = core.apiCores

/-- A malformed name is recorded in every API of the firewall. -/
theorem CompiledFirewall.malformed_name (firewall : CompiledFirewall)
    (hname : firewall.core.nameMalformed)
    {api} (hapi : api ∈ firewall.apis) : api.core.hasMalformedRules :=
  firewall.core.malformed_name hname api.core
    (firewall.apis_eq ▸ List.mem_map_of_mem hapi)

/-! ### Compiling one API -/

/-- What the loop over the permissions of an API carries. -/
structure PermissionsState where
  permissions : List CompiledPermission
  seenNames : List PyStr
  malformed : Bool

/-- The loop over the rules of a permission: the rules that compile, and whether one
did not. -/
def compileRules (py : PyLib) (usesAwsSigv4 : Bool) (rawRules : List PyValue) :
    List CompiledRule × Bool :=
  rawRules.foldl (fun (rules, malformed) rawRule =>
    match rawRule with
    | .str ruleStr =>
      match compileRule py ruleStr with
      | none => (rules, true)
      | some rule =>
        if rule.awsPredicates.isSome && !usesAwsSigv4 then (rules, true)
        else (rules ++ [rule], malformed)
    | _ => (rules, true)) ([], false)

/-- `declared_firewall_permission_name_invalid_reason(name) is not None`. -/
def permissionNameInvalid (name : PyStr) : Bool :=
  decide (name ∈ [[], lit "all", lit "__unknown__"])

/-- One turn of the loop over the permissions of an API. -/
def compilePermission (py : PyLib) (usesAwsSigv4 : Bool) (state : PermissionsState)
    (perm : PyValue) : PermissionsState :=
  match perm with
  | .dict perm =>
    match pyGet perm (lit "name") with
    | some (.str name) =>
      if permissionNameInvalid name then { state with malformed := true }
      else if name ∈ state.seenNames then { state with malformed := true }
      else
        let (rawRules, rulesMalformed) := match pyGet perm (lit "rules") with
          | none => ([], true)
          | some (.list rawRules) => (rawRules, rawRules.isEmpty)
          | some _ => ([], true)
        let (rules, ruleMalformed) := compileRules py usesAwsSigv4 rawRules
        { permissions := state.permissions ++ [⟨name, rules⟩]
          seenNames := name :: state.seenNames
          malformed := state.malformed || rulesMalformed || ruleMalformed }
    | _ => { state with malformed := true }
  | _ => { state with malformed := true }

/-- The permissions of an API, and whether its permissions or rules are malformed;
the flag starts from the malformed state of the firewall's name. -/
def compilePermissions (py : PyLib) (nameMalformed : Bool) (apiEntry : PyDict) :
    List CompiledPermission × Bool :=
  match pyGet apiEntry (lit "permissions") with
  | none => ([], nameMalformed)
  | some (.list permissions) =>
    let state := permissions.foldl (compilePermission py (apiAuthUsesAwsSigv4 apiEntry))
      ⟨[], [], nameMalformed⟩
    (state.permissions, state.malformed)
  | some _ => ([], true)

/-- `permissionless`. -/
def apiPermissionless (apiEntry : PyDict) : Bool :=
  match pyGet apiEntry (lit "permissions") with
  | none => true
  | some (.list permissions) => permissions.isEmpty
  | some _ => false

/-- The body of the loop of `compile_firewall_core` over the raw APIs. -/
def compileApiCore (py : PyLib) (nameMalformed : Bool) (apiIndex : ℕ) (rawApi : PyValue) :
    Option CompiledApiCore :=
  match rawApi with
  | .dict apiEntry =>
    match (pyGet apiEntry (lit "base")).getD (.str []) with
    | .str rawBase =>
      match compileFirewallConfigBase py rawBase with
      | none => none
      | some (base, baseMalformed) =>
        let authMalformed := !authConfigIsValid py apiEntry
        let (permissions, hasMalformedRules) := compilePermissions py nameMalformed apiEntry
        let permissions := attachAwsQuerySelectorKeys permissions
        some
          { rawApiIndex := apiIndex
            base := base
            permissions := permissions
            ruleIndex := compileRuleIndex permissions
            baseMalformed := baseMalformed
            authMalformed := authMalformed
            injectsOrdinaryUpstreamCredentials :=
              !authMalformed && Firewall.injectsOrdinaryUpstreamCredentials apiEntry
            permissionless := apiPermissionless apiEntry
            routingIdentity := apiRoutingIdentity py apiEntry
            hasMalformedRules := hasMalformedRules
            ruleIndex_eq := rfl }
    | _ => none
  | _ => none

/-- Compiling a permission never clears the malformed flag. -/
theorem compilePermission_malformed (py : PyLib) (usesAwsSigv4 : Bool) {state}
    (h : state.malformed) (perm) : (compilePermission py usesAwsSigv4 state perm).malformed := by
  unfold compilePermission
  split
  · split
    · split_ifs
      · rfl
      · rfl
      · simp [h]
    · rfl
  · rfl

theorem compilePermissions_malformed (py : PyLib) (apiEntry) :
    (compilePermissions py true apiEntry).2 := by
  have hloop : ∀ (permissions : List PyValue) (state : PermissionsState), state.malformed →
      (permissions.foldl (compilePermission py (apiAuthUsesAwsSigv4 apiEntry)) state).malformed =
        true := by
    intro permissions
    induction permissions with
    | nil => exact fun _ h => h
    | cons perm permissions ih =>
      intro state h
      exact ih _ (compilePermission_malformed py _ h perm)
  unfold compilePermissions
  split
  · rfl
  · exact hloop _ _ rfl
  · rfl

/-- A malformed firewall name is recorded in the API. -/
theorem compileApiCore_malformed {py} {apiIndex} {rawApi} {core}
    (hcore : compileApiCore py true apiIndex rawApi = some core) : core.hasMalformedRules := by
  unfold compileApiCore at hcore
  split at hcore
  · next apiEntry =>
    split at hcore
    · split at hcore
      · simp at hcore
      · rw [← Option.some.inj hcore]
        exact compilePermissions_malformed py apiEntry
    · simp at hcore
  · simp at hcore

/-! ### Compiling a firewall -/

def compileFirewallCore (py : PyLib) (fwEntry : PyValue) : Option CompiledFirewallCore :=
  match fwEntry with
  | .dict fwEntry =>
    let rawName := (pyGet fwEntry (lit "name")).bind PyValue.asStr
    let name := rawName.getD []
    let nameMalformed := decide (name = [])
    let intentIdentity := match (pyGet fwEntry (lit "customConnectorId")).bind PyValue.asStr with
      | some id => if id = [] then name else id
      | none => name
    match (pyGet fwEntry (lit "apis")).getD (.list []) with
    | .list rawApis =>
      let apiCores := rawApis.zipIdx.filterMap fun rawApi =>
        compileApiCore py nameMalformed rawApi.2 rawApi.1
      if apiCores = [] then none
      else
        some
          { name := name
            intentIdentity := intentIdentity
            apiCores := apiCores
            nameMalformed := nameMalformed
            malformed_name := by
              intro hname core hcore
              obtain ⟨rawApi, _, hcomp⟩ := List.mem_filterMap.mp hcore
              rw [hname] at hcomp
              exact compileApiCore_malformed hcomp }
    | _ => none
  | _ => none

def connectorRuntimeKind (fwEntry : PyDict) : Option ConnectorRuntimeKind :=
  match pyGet fwEntry (lit "_connectorRuntimeKind") with
  | some (.str value) =>
    if value = lit "builtin" then some .builtin
    else if value = lit "custom" then some .custom
    else none
  | _ => none

/-- The loop of `bind_compiled_firewall_core`. -/
def bindApis (rawApis : List PyValue) : List CompiledApiCore → Option (List CompiledApi)
  | [] => some []
  | core :: cores =>
    match rawApis[core.rawApiIndex]? with
    | some (.dict apiEntry) => (bindApis rawApis cores).map (⟨apiEntry, core⟩ :: ·)
    | _ => none

theorem bindApis_core {rawApis} (cores) :
    ∀ {apis : List CompiledApi}, bindApis rawApis cores = some apis →
      apis.map CompiledApi.core = cores := by
  induction cores with
  | nil =>
    intro apis h
    rw [← Option.some.inj h]
    rfl
  | cons core cores ih =>
    intro apis h
    simp only [bindApis] at h
    split at h
    · obtain ⟨rest, hrest, rfl⟩ := Option.map_eq_some_iff.mp h
      rw [List.map_cons, ih hrest]
    · simp at h

def bindCompiledFirewallCore (fwEntry : PyDict) (core : CompiledFirewallCore) :
    Option CompiledFirewall :=
  match (pyGet fwEntry (lit "apis")).getD (.list []) with
  | .list rawApis =>
    match h : bindApis rawApis core.apiCores with
    | none => none
    | some [] => none
    | some (api :: apis) =>
      some ⟨core, api :: apis, connectorRuntimeKind fwEntry, bindApis_core _ h⟩
  | _ => none

/-- The loop of `compile_firewalls`. -/
def compileFirewallList (py : PyLib) (sandboxFirewalls : List PyValue) : List CompiledFirewall :=
  sandboxFirewalls.filterMap fun fwEntry =>
    match fwEntry with
    | .dict entry => (compileFirewallCore py fwEntry).bind (bindCompiledFirewallCore entry)
    | _ => none

/-! ### Network policies -/

inductive UnknownPolicy
  | allow
  | deny
  | ask
  deriving DecidableEq, Repr

structure CompiledNetworkPolicy where
  blockedPermissions : List PyStr
  unknownPolicy : UnknownPolicy
  permissionMalformed : Bool
  unknownPolicyMalformed : Bool

structure CompiledNetworkPolicies where
  policies : List (PyStr × CompiledNetworkPolicy)
  topLevelMalformed : Bool

def compilePermissionSet (rawValue : Option PyValue) : List PyStr × Bool :=
  match rawValue.getD .none with
  | .none => ([], false)
  | .list items =>
    if items.all fun item => item.asStr.isSome then (items.filterMap PyValue.asStr, false)
    else ([], true)
  | _ => ([], true)

/-- The unknown policy of a grant, and whether it is malformed. -/
def compileUnknownPolicy (rawValue : Option PyValue) : UnknownPolicy × Bool :=
  match rawValue.getD .none with
  | .none => (.allow, false)
  | .str value =>
    if value = lit "allow" then (.allow, false)
    else if value = lit "deny" then (.deny, false)
    else if value = lit "ask" then (.ask, false)
    else (.allow, true)
  | _ => (.allow, true)

/-- The policy of one grant. -/
def compileGrant : PyValue → CompiledNetworkPolicy
  | .dict grant =>
    let (_, allowMalformed) := compilePermissionSet (pyGet grant (lit "allow"))
    let (deny, denyMalformed) := compilePermissionSet (pyGet grant (lit "deny"))
    let (ask, askMalformed) := compilePermissionSet (pyGet grant (lit "ask"))
    let (unknownPolicy, unknownPolicyMalformed) :=
      compileUnknownPolicy (pyGet grant (lit "unknownPolicy"))
    ⟨deny ++ ask, unknownPolicy, allowMalformed || denyMalformed || askMalformed,
      unknownPolicyMalformed⟩
  | _ => ⟨[], .allow, true, false⟩

def compileNetworkPolicies : PyValue → CompiledNetworkPolicies
  | .none => ⟨[], false⟩
  | .dict items =>
    ⟨items.foldl (fun policies (key, grant) =>
      match key with
      | .str name => dictSet name (compileGrant grant) policies
      | _ => policies) [], false⟩
  | _ => ⟨[], true⟩

/-- A policies argument: compiled already, or raw. -/
inductive NetworkPolicies
  | compiled (policies : CompiledNetworkPolicies)
  | raw (value : PyValue)

def ensureCompiledNetworkPolicies : NetworkPolicies → CompiledNetworkPolicies
  | .compiled policies => policies
  | .raw value => compileNetworkPolicies value

end Okou.Firewall
