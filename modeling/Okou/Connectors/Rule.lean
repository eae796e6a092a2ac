import Okou.Connectors.Segment
import Okou.Firewall.Rule

/-!
# The rule grammar of the connectors package

`firewall-expander.ts` up to `validateRule`, which the editor runs on every rule, and from
`firewall-rule-matcher.ts` the specificity of a rule's path and `compileDecisionRule`, which
prepares a rule for the diagnosis of requests.  A check that throws returns its message.
-/

namespace Okou.Connectors

open Firewall (Greedy PathSpecificity)

/-! ### Messages -/

/-- The rule that is checked, and the names of its permission and firewall. -/
structure RuleContext where
  rule : JsStr
  permName : JsStr
  serviceName : JsStr

variable (ctx : RuleContext) (value : JsStr)

/-- `invalidRule`: the message of the error. -/
def invalidRule (reason : JsStr) : JsStr :=
  js "Invalid rule \"" ++ ctx.rule ++ js "\" in permission \"" ++ ctx.permName ++
    js "\" of firewall \"" ++ ctx.serviceName ++ js "\": " ++ reason

/-- A greedy marker as text. -/
def greedyText : Greedy → JsStr
  | .no => []
  | .plus => js "+"
  | .star => js "*"

/-! ### AWS predicates -/

/-- `AWS_PREDICATE_VALUE_RE`. -/
def isAwsPredicateValue : Bool :=
  decide (value ≠ []) && value.all fun u => Firewall.isAlnum u.toNat || decide (u ∈ js "._:-")

/-- `AWS_QUERY_KEY_RE`. -/
def isAwsQueryKey (key : JsStr) : Bool :=
  decide (key ≠ []) && key.all fun u => Firewall.isAlnum u.toNat || decide (u ∈ js "._~-")

/-- `AWS_QUERY_VALUE_RE`. -/
def isAwsQueryValue : Bool :=
  decide (value ≠ []) && value.all fun u => Firewall.isAlnum u.toNat ||
    decide (u ∈ js "._~:\x7b\x7d-")

def validAwsPredicateKeys : List JsStr := [js "sigv4", js "action", js "target"]

/-- The predicates of a rule, a `Map`. -/
abbrev Predicates := List (JsStr × JsStr)

/-- The loop of `parseAwsPredicates` over the tokens.  A token that is not cut in two has no
value, or a part too many. -/
def awsPredicatesLoop (ctx : RuleContext) : List JsStr → Predicates → Except JsStr Predicates
  | [], predicates => .ok predicates
  | token :: tokens, predicates =>
    if token = [] then .error (invalidRule ctx
      (js "AWS predicates must be separated by a single space"))
    else
      match token.splitOn (ch '=') with
      | [key, value] =>
        if key = [] ∨ value = [] then
          .error (invalidRule ctx (js "AWS predicate \"" ++ token ++ js "\" must be key=value"))
        else if key ∉ validAwsPredicateKeys then
          .error (invalidRule ctx (js "unsupported AWS predicate \"" ++ key ++ js "\""))
        else if (dictGet key predicates).isSome then
          .error (invalidRule ctx (js "duplicate AWS predicate \"" ++ key ++ js "\""))
        else if !isAwsPredicateValue value then
          .error (invalidRule ctx (js "AWS predicate \"" ++ key ++ js "\" has an invalid value"))
        else awsPredicatesLoop ctx tokens (dictSet key value predicates)
      | _ => .error (invalidRule ctx (js "AWS predicate \"" ++ token ++ js "\" must be key=value"))

def parseAwsPredicates (predicateText : JsStr) : Except JsStr Predicates :=
  if predicateText = [] then .error
    (invalidRule ctx (js "AWS predicates are required after \"AWS\""))
  else
    match awsPredicatesLoop ctx (predicateText.splitOn (ch ' ')) [] with
    | .error message => .error message
    | .ok predicates =>
      if (dictGet (js "sigv4") predicates).isNone then
        .error (invalidRule ctx (js "AWS predicate \"sigv4\" is required"))
      else if (dictGet (js "action") predicates).isSome ∧
        (dictGet (js "target") predicates).isSome then
        .error (invalidRule ctx (js "AWS predicates \"action\" and \"target\" cannot be combined"))
      else .ok predicates

/-! ### Query requirements -/

/-- The value of a requirement is the wildcard, or it is written in the right characters. -/
def requiredValueOk : Bool := decide (value = js "*") || isAwsQueryValue value

/-- The loop of `parseAwsQueryRequirements` over the tokens. -/
def queryRequirementsLoop (ctx : RuleContext) : List JsStr → List JsStr → List JsStr →
    Except JsStr (List JsStr)
  | [], _, requirements => .ok requirements
  | token :: tokens, keys, requirements =>
    if token = [] then .error (invalidRule ctx
      (js "AWS query requirements must not contain empty entries"))
    else
      let parts := token.splitOn (ch '=')
      let key := parts.headD []
      if 3 ≤ parts.length ∨ isAwsQueryKey key = false then
        .error (invalidRule ctx (js "AWS query requirement \"" ++ token ++
          js "\" has an invalid key"))
      else if key ∈ keys then
        .error (invalidRule ctx (js "duplicate AWS query requirement \"" ++ key ++ js "\""))
      else if parts[1]?.any (fun value => !requiredValueOk value) then
        .error (invalidRule ctx (js "AWS query requirement \"" ++ token ++
          js "\" has an invalid value"))
      else queryRequirementsLoop ctx tokens (key :: keys) (requirements ++ [token])

def parseAwsQueryRequirements (rawQuery : JsStr) : Except JsStr (List JsStr) :=
  if rawQuery = [] then .error (invalidRule ctx (js "AWS query requirements must not be empty"))
  else queryRequirementsLoop ctx (rawQuery.splitOn (ch '&')) [] []

/-! ### What follows the method -/

structure ParsedRuleRemainder where
  path : JsStr
  queryRequirements : Option (List JsStr)
  awsPredicates : Option Predicates

def awsRuleSeparator : JsStr := js " AWS "

def parseRuleRemainder (rest : JsStr) : Except JsStr ParsedRuleRemainder :=
  match indexOf awsRuleSeparator rest with
  | none => .ok ⟨rest, none, none⟩
  | some separatorIndex =>
    if (indexOf awsRuleSeparator (rest.drop (separatorIndex + 1))).isSome then
      .error (invalidRule ctx (js "AWS predicates may appear only once"))
    else
      let rawPath := rest.take separatorIndex
      let predicateText := rest.drop (separatorIndex + awsRuleSeparator.length)
      if rawPath = [] then .error (invalidRule ctx (js "path must start with \"/\""))
      else
        match parseAwsPredicates ctx predicateText with
        | .error message => .error message
        | .ok awsPredicates =>
          match rawPath.idxOf? (ch '?') with
          | none => .ok ⟨rawPath, none, some awsPredicates⟩
          | some queryIndex =>
            match parseAwsQueryRequirements ctx (rawPath.drop (queryIndex + 1)) with
            | .error message => .error message
            | .ok requirements => .ok ⟨rawPath.take queryIndex, some requirements,
              some awsPredicates⟩

/-! ### Paths -/

/-- The loop of `validatePathSegments` over the segments. -/
def pathSegmentsLoop (ctx : RuleContext) : List JsStr → List JsStr → Except JsStr Unit
  | [], _ => .ok ()
  | seg :: rest, paramNames =>
    match parseSegment seg with
    | .error reason => .error (invalidRule ctx reason)
    | .literal _ => pathSegmentsLoop ctx rest paramNames
    | .param pre name suf greedy =>
      let shown := js "\x7b" ++ name ++ greedyText greedy ++ js "\x7d"
      if name ∈ paramNames then
        .error (invalidRule ctx (js "duplicate parameter name \"\x7b" ++ name ++ js "\x7d\""))
      else if greedy ≠ .no ∧ rest ≠ [] then .error
        (invalidRule ctx (shown ++ js " must be the last segment"))
      else if greedy ≠ .no ∧ (pre ≠ [] ∨ suf ≠ []) then
        .error (invalidRule ctx (js "greedy parameter " ++ shown ++
          js " cannot be combined with a literal prefix or suffix in segment \"" ++ seg ++ js "\""))
      else pathSegmentsLoop ctx rest (name :: paramNames)

def validatePathSegments (path : JsStr) : Except JsStr Unit :=
  if path.head? ≠ some (ch '/') then .error (invalidRule ctx (js "path must start with \"/\""))
  else if hasRawWhitespace path then .error
    (invalidRule ctx (js "path must not contain whitespace"))
  else if hasUnsafeUrlCodepoint path then
    .error (invalidRule ctx (js "path must not contain control characters or invalid Unicode"))
  else if ch '\\' ∈ path then .error (invalidRule ctx (js "path must not contain backslash"))
  else if ch '?' ∈ path ∨ ch '#' ∈ path then
    .error (invalidRule ctx (js "path must not contain query string or fragment"))
  else pathSegmentsLoop ctx (splitPathSegments path) []

/-! ### Rules -/

def validRuleMethods : List JsStr :=
  [js "GET", js "POST", js "PUT", js "PATCH", js "DELETE", js "HEAD", js "OPTIONS", js "ANY"]

def validateRule (rule permName serviceName : JsStr) (allowAwsPredicates : Bool) :
    Except JsStr Unit :=
  let ctx : RuleContext := ⟨rule, permName, serviceName⟩
  match rule.idxOf? (ch ' ') with
  | none => .error (invalidRule ctx (js "must be \"METHOD /path\""))
  | some spaceIdx =>
    let method := rule.take spaceIdx
    let rest := rule.drop (spaceIdx + 1)
    if method = [] ∨ rest = [] then .error (invalidRule ctx (js "must be \"METHOD /path\""))
    else if method ∉ validRuleMethods then
      .error (invalidRule ctx (js "unknown method \"" ++ method ++ js "\" (must be uppercase)"))
    else
      match parseRuleRemainder ctx rest with
      | .error message => .error message
      | .ok parsed =>
        if parsed.awsPredicates.isSome ∧ allowAwsPredicates = false then
          .error (invalidRule ctx (js "AWS predicates require api.auth.awsSigv4"))
        else validatePathSegments ctx parsed.path

/-! ### `firewall-rule-matcher.ts` -/

/-- What a parameter adds to the counters of `pathSpecificity`. -/
def addParam (s : PathSpecificity) (pre suf : JsStr) (greedy : Greedy) : PathSpecificity :=
  let s := { s with literalChars := s.literalChars + (codePointLength pre + codePointLength suf) }
  if pre ≠ [] ∨ suf ≠ [] then { s with mixedParamSegments := s.mixedParamSegments + 1 }
  else
    match greedy with
    | .plus => { s with plusGreedySegments := s.plusGreedySegments + 1 }
    -- the count that is negated in the end
    | .star => { s with negativeStarGreedySegments := s.negativeStarGreedySegments - 1 }
    | .no => { s with plainParamSegments := s.plainParamSegments + 1 }

/-- The loop of `pathSpecificity` over the segments. -/
def specificityLoop : List JsStr → List JsStr → PathSpecificity → Option PathSpecificity
  | [], _, s => some s
  | seg :: rest, paramNames, s =>
    match parseSegment seg with
    | .error _ => none
    | .literal value =>
      specificityLoop rest paramNames
        { s with
            literalSegments := s.literalSegments + 1, literalChars := s.literalChars + codePointLength value }
    | .param pre name suf greedy =>
      if name ∈ paramNames then none
      else if greedy ≠ .no ∧ (rest ≠ [] ∨ pre ≠ [] ∨ suf ≠ []) then none
      else specificityLoop rest (name :: paramNames) (addParam s pre suf greedy)

def pathSpecificity (pattern : JsStr) : Option PathSpecificity :=
  if pattern.head? ≠ some (ch '/') ∨ ch '?' ∈ pattern ∨ ch '#' ∈ pattern ∨ ch '\\' ∈ pattern ∨
      hasRawWhitespace pattern = true ∨ hasUnsafeUrlCodepoint pattern = true then none
  else
    let segments := splitPathSegments pattern
    specificityLoop segments [] ⟨0, 0, 0, 0, 0, 0, segments.length⟩

structure DecisionRule where
  permission : JsStr
  raw : JsStr
  method : JsStr
  path : JsStr
  specificity : PathSpecificity
  awsPredicates : Option Predicates
  awsQueryRequirements : Option (List (JsStr × Option JsStr))
  awsQuerySelectorKeys : Option (List JsStr)

/-- A requirement as a key and a value. -/
def splitRequirement (requirement : JsStr) : JsStr × Option JsStr :=
  match requirement.idxOf? (ch '=') with
  | none => (requirement, none)
  | some separator => (requirement.take separator, some (requirement.drop (separator + 1)))

def compileDecisionRule (permission rule serviceName : JsStr)
    (supportsAwsSigv4 awsDiagnosticEnabled : Bool) : Option DecisionRule :=
  match rule.idxOf? (ch ' ') with
  | none => none
  | some spaceIdx =>
    let method := rule.take spaceIdx
    if method ∉ validRuleMethods then none
    else
      match parseRuleRemainder ⟨rule, permission, serviceName⟩ (rule.drop (spaceIdx + 1)) with
      | .error _ => none
      | .ok parsed =>
        if parsed.awsPredicates.isSome ∧
          (supportsAwsSigv4 = false ∨ awsDiagnosticEnabled = false) then none
        else
          match pathSpecificity parsed.path with
          | none => none
          | some specificity =>
            some ⟨permission, rule, method, parsed.path, specificity, parsed.awsPredicates,
              parsed.queryRequirements.map (·.map splitRequirement), none⟩

end Okou.Connectors
