import Okou.Firewall.BaseUrl

/-!
# Rules

The rule grammar of `matching.py`: `"METHOD path"`, optionally followed by AWS
predicates, and how specific a rule's path is.
-/

namespace Okou.Firewall

/-! ### Data -/

/-- `_VALID_RULE_METHODS`. -/
inductive RuleMethod
  | get
  | post
  | put
  | patch
  | delete
  | head
  | options
  | any
  deriving DecidableEq, Repr

/-- A rule's method as it is written. -/
def RuleMethod.text : RuleMethod → PyStr
  | .get => lit "GET"
  | .post => lit "POST"
  | .put => lit "PUT"
  | .patch => lit "PATCH"
  | .delete => lit "DELETE"
  | .head => lit "HEAD"
  | .options => lit "OPTIONS"
  | .any => lit "ANY"

/-- The valid methods, for parsing. -/
def validRuleMethods : List RuleMethod := [.get, .post, .put, .patch, .delete, .head, .options,
    .any]

/-- `method in _VALID_RULE_METHODS`. -/
def parseRuleMethod (method : PyStr) : Option RuleMethod :=
  validRuleMethods.find? fun valid => valid.text = method

/-- `rule.method in ("ANY", upper_method)`. -/
def RuleMethod.covers (method : RuleMethod) (upperMethod : PyStr) : Bool :=
  decide (method.text = lit "ANY" ∨ method.text = upperMethod)

structure PathSpecificity where
  literalSegments : ℕ
  mixedParamSegments : ℕ
  plainParamSegments : ℕ
  plusGreedySegments : ℕ
  negativeStarGreedySegments : ℤ
  literalChars : ℕ
  segmentCount : ℕ
  deriving DecidableEq, Repr

/-- The tuple a path specificity is in the source. -/
def PathSpecificity.tuple (s : PathSpecificity) : ℕ ×ₗ ℕ ×ₗ ℕ ×ₗ ℕ ×ₗ ℤ ×ₗ ℕ ×ₗ ℕ :=
  toLex (s.literalSegments, toLex (s.mixedParamSegments, toLex (s.plainParamSegments,
    toLex (s.plusGreedySegments, toLex (s.negativeStarGreedySegments,
      toLex (s.literalChars, s.segmentCount))))))

open PathSpecificity

theorem PathSpecificity.tuple_injective : Function.Injective tuple := by
  rintro ⟨a, b, c, d, e, f, g⟩ ⟨a', b', c', d', e', f', g'⟩ h
  simpa [tuple] using h

instance : LinearOrder PathSpecificity :=
  LinearOrder.lift' PathSpecificity.tuple PathSpecificity.tuple_injective

/-- The AWS predicates of a rule.  A rule is about an action or about a target,
never both. -/
structure AwsPredicates where
  sigv4 : PyStr
  action : Option PyStr
  target : Option PyStr
  exclusive : action = none ∨ target = none

/-- A query requirement: a key, and its value where one is required. -/
abbrev QueryRequirement := PyStr × Option PyStr

structure CompiledRule where
  method : RuleMethod
  raw : PyStr
  path : List ParsedSegment
  queryRequirements : List QueryRequirement
  awsQuerySelectorKeys : List PyStr
  awsPredicates : Option AwsPredicates
  specificity : PathSpecificity

structure CompiledPermission where
  name : PyStr
  rules : List CompiledRule

/-! ### Specificity -/

/-- What one segment adds to the counters of `_path_specificity`. -/
def PathSpecificity.addSegment (s : PathSpecificity) : ParsedSegment → PathSpecificity
  | .literal value =>
    { s with
        literalSegments := s.literalSegments + 1, literalChars := s.literalChars + value.length }
  | .error .. => s
  | .param pre _ suf greedy =>
    let s := { s with literalChars := s.literalChars + (pre.length + suf.length) }
    if pre ≠ [] ∨ suf ≠ [] then { s with mixedParamSegments := s.mixedParamSegments + 1 }
    else
      match greedy with
      | .plus => { s with plusGreedySegments := s.plusGreedySegments + 1 }
      | .star => { s with negativeStarGreedySegments := s.negativeStarGreedySegments - 1 }
      | .no => { s with plainParamSegments := s.plainParamSegments + 1 }

def pathSpecificity (segments : List ParsedSegment) : PathSpecificity :=
  segments.foldl PathSpecificity.addSegment ⟨0, 0, 0, 0, 0, 0, segments.length⟩

/-! ### AWS predicates -/

/-- `_AWS_PREDICATE_VALUE_RE`. -/
def isAwsPredicateValue (value : PyStr) : Bool :=
  decide (value ≠ []) && value.all fun c => isAlnum c || decide (c ∈ lit "._:-")

/-- `_AWS_QUERY_KEY_RE`. -/
def isAwsQueryKey (key : PyStr) : Bool :=
  decide (key ≠ []) && key.all fun c => isAlnum c || decide (c ∈ lit "._~-")

/-- `_AWS_QUERY_VALUE_RE`. -/
def isAwsQueryValue (value : PyStr) : Bool :=
  decide (value ≠ []) && value.all fun c => isAlnum c || decide (c ∈ lit "._~:\x7b\x7d-")

def validAwsPredicateKeys : List PyStr := [lit "sigv4", lit "action", lit "target"]

/-- The loop of `_compile_aws_predicates` over the tokens. -/
def awsPredicatesLoop : List PyStr → List (PyStr × PyStr) → Option (List (PyStr × PyStr))
  | [], predicates => some predicates
  | token :: tokens, predicates =>
    match partition (cp '=') token with
    | (_, none) => none
    | (key, some value) =>
      if key = [] ∨ value = [] then none
      else if key ∉ validAwsPredicateKeys ∨ (dictGet key predicates).isSome then none
      else if !isAwsPredicateValue value then none
      else awsPredicatesLoop tokens (dictSet key value predicates)

def compileAwsPredicates (rawPredicates : PyStr) : Option AwsPredicates :=
  if rawPredicates = [] then none
  else
    match awsPredicatesLoop (rawPredicates.splitOn (cp ' ')) [] with
    | none => none
    | some predicates =>
      match dictGet (lit "sigv4") predicates with
      | none => none
      | some sigv4 =>
        match dictGet (lit "action") predicates, dictGet (lit "target") predicates with
        | some _, some _ => none
        | none, target => some ⟨sigv4, none, target, .inl rfl⟩
        | some action, none => some ⟨sigv4, some action, none, .inr rfl⟩

/-- The loop of `_compile_aws_query_requirements` over the tokens. -/
def queryRequirementsLoop : List PyStr → List PyStr → List QueryRequirement →
    Option (List QueryRequirement)
  | [], _, requirements => some requirements
  | token :: tokens, keys, requirements =>
    if token = [] then none
    else
      let (key, value) := partition (cp '=') token
      if !isAwsQueryKey key || decide (key ∈ keys) then none
      else
        match value with
        | none => queryRequirementsLoop tokens (key :: keys) (requirements ++ [(key, none)])
        | some value =>
          if value ≠ lit "*" ∧ isAwsQueryValue value = false then none
          else queryRequirementsLoop tokens (key :: keys) (requirements ++ [(key, some value)])

def compileAwsQueryRequirements (rawQuery : PyStr) : Option (List QueryRequirement) :=
  if rawQuery = [] then none else queryRequirementsLoop (rawQuery.splitOn (cp '&')) [] []

def awsRuleSeparator : PyStr := lit " AWS "

def splitRulePathAndAwsPredicates (rawPath : PyStr) :
    Option (PyStr × List QueryRequirement × Option AwsPredicates) :=
  match findSub awsRuleSeparator rawPath with
  | none => some (rawPath, [], none)
  | some separatorIndex =>
    if contains awsRuleSeparator (rawPath.drop (separatorIndex + 1)) then none
    else
      let rawRulePath := rawPath.take separatorIndex
      match compileAwsPredicates (rawPath.drop (separatorIndex + awsRuleSeparator.length)) with
      | none => none
      | some predicates =>
        match partition (cp '?') rawRulePath with
        | (_, none) => some (rawRulePath, [], some predicates)
        | (path, some rawQuery) =>
          match compileAwsQueryRequirements rawQuery with
          | none => none
          | some [] => none
          | some requirements => some (path, requirements, some predicates)

/-! ### Rules -/

def compileRule (py : PyLib) (ruleStr : PyStr) : Option CompiledRule :=
  match partition (cp ' ') ruleStr with
  | (_, none) => none
  | (rawMethod, some rawPath) =>
    match parseRuleMethod rawMethod with
    | none => none
    | some method =>
      match splitRulePathAndAwsPredicates rawPath with
      | none => none
      | some (path, queryRequirements, awsPredicates) =>
        if path.head? ≠ some (cp '/') ∨ (queryRequirements = [] ∧ cp '?' ∈ path) ∨ cp '#' ∈ path ∨
            cp '\\' ∈ path ∨ hasUnsafeUrlCodepoint py path = true ∨
              hasRawWhitespace path = true then
          none
        else
          match compilePathPattern path with
          | none => none
          | some pattern =>
            if !compiledRulePathIsValid pattern then none
            else
              some ⟨method, ruleStr, pattern, queryRequirements, [], awsPredicates,
                pathSpecificity pattern⟩

def awsPathSegmentIdentity : ParsedSegment → List PyStr
  | .literal value => [lit "literal", value]
  | .param pre _ suf greedy => [lit "param", pre, suf, greedy.text]
  | .error reason _ _ => [lit "error", reason]

/-- What `_aws_query_selector_signature` returns. -/
abbrev AwsSelectorSignature := RuleMethod × List (List PyStr) × PyStr

def awsQuerySelectorSignature (rule : CompiledRule) : Option AwsSelectorSignature :=
  match rule.awsPredicates with
  | none => none
  | some predicates =>
    if predicates.action.isSome || predicates.target.isSome then none
    else some (rule.method, rule.path.map awsPathSegmentIdentity, predicates.sigv4)

/-- The keys the rules of one signature select by. -/
def selectorKeysBySignature (rules : List CompiledRule) :
    List (AwsSelectorSignature × List PyStr) :=
  rules.foldl (fun table rule =>
    match awsQuerySelectorSignature rule with
    | none => table
    | some signature =>
      if rule.queryRequirements = [] then table
      else dictModify signature [] (· ++ rule.queryRequirements.map Prod.fst) table) []

def attachAwsQuerySelectorKeys (permissions : List CompiledPermission) : List CompiledPermission :=
  let table := selectorKeysBySignature (permissions.flatMap CompiledPermission.rules)
  if table = [] then permissions
  else
    permissions.map fun permission =>
      { permission with
        rules := permission.rules.map fun rule =>
          { rule with
            awsQuerySelectorKeys :=
              ((awsQuerySelectorSignature rule).bind fun signature =>
                dictGet signature table).getD [] } }

end Okou.Firewall
