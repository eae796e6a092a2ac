import Okou.Firewall.Text

/-!
# Segment, host and path patterns

`firewall_matching/patterns.py`.  A pattern is a list of segments, each a
literal, a parameter with optional literal text around it, or an error that is
kept so that a malformed base can still claim its traffic.  A greedy parameter
takes the rest of a path, or of a host from the right.
-/

namespace Okou.Firewall

open List

/-! ### Segments -/

/-- The marker after a parameter's name. -/
inductive Greedy
  | no
  | plus
  | star
  deriving DecidableEq, Repr

inductive ParsedSegment
  | literal (value : PyStr)
  | param (pre name suf : PyStr) (greedy : Greedy)
  | error (reason pre suf : PyStr)
  deriving DecidableEq, Repr

/-- Captured parameters, in the order of their first capture. -/
abbrev Params := List (PyStr × PyStr)

def segmentErrorHint : PyStr :=
  lit "use \"\x7bname\x7d\", \"prefix\x7bname\x7d\", \"\x7bname\x7dsuffix\", or \"prefix\x7bname\x7dsuffix\""

variable (seg path runtime : PyStr) (pathSegs : List PyStr) (pattern : List ParsedSegment)
  (pre : PyStr) (patternSegs : List ParsedSegment) (suf : PyStr)

/-- `unbalanced brace in segment`. -/
def unbalancedBrace : PyStr :=
  lit "unbalanced brace in segment \"" ++ seg ++ lit "\" — " ++ segmentErrorHint

/-- `adjacent parameters in segment`. -/
def adjacentParameters : PyStr :=
  lit "adjacent parameters in segment \"" ++ seg ++
    lit "\" — only one parameter per segment is allowed; " ++ segmentErrorHint

/-- `literal-separated parameters in segment`. -/
def literalSeparatedParameters : PyStr :=
  lit "literal-separated parameters in segment \"" ++ seg ++
    lit "\" — only one parameter per segment is allowed; " ++ segmentErrorHint

/-- `empty parameter name in segment`. -/
def emptyParameterName : PyStr :=
  lit "empty parameter name in segment \"" ++ seg ++ lit "\" — " ++ segmentErrorHint

def segmentOuterLiteralScope : PyStr × PyStr :=
  let pre := match partition (cp '{') seg with
    | (pre, some _) => if cp '}' ∈ pre then [] else pre
    | (_, none) => []
  let suf := match rpartition (cp '}') seg with
    | (some _, suf) => if cp '{' ∈ suf then [] else suf
    | (none, _) => []
  (pre, suf)

/-- The greedy marker at the end of a parameter's content, and its name. -/
def splitGreedy (content : PyStr) : PyStr × Greedy :=
  if content.getLast? = some (cp '+') then (content.dropLast, .plus)
  else if content.getLast? = some (cp '*') then (content.dropLast, .star)
  else (content, .no)

def parseSegment : ParsedSegment :=
  let openCount := seg.count (cp '{')
  let closeCount := seg.count (cp '}')
  if openCount = 0 ∧ closeCount = 0 then .literal seg
  else if openCount ≠ closeCount then
    let (pre, suf) := segmentOuterLiteralScope seg
    .error (unbalancedBrace seg) pre suf
  else
    let open1 := seg.idxOf (cp '{')
    let close1 := seg.idxOf (cp '}')
    if close1 < open1 then .error (unbalancedBrace seg) [] []
    else if 2 ≤ openCount then
      let (pre, suf) := segmentOuterLiteralScope seg
      if findFrom (cp '{') seg (close1 + 1) = some (close1 + 1) then
        .error (adjacentParameters seg) pre suf
      else .error (literalSeparatedParameters seg) pre suf
    else
      let pre := seg.take open1
      let content := (seg.take close1).drop (open1 + 1)
      let suf := seg.drop (close1 + 1)
      if cp '{' ∈ pre ∨ cp '}' ∈ pre ∨ cp '{' ∈ suf ∨ cp '}' ∈ suf then
        .error (unbalancedBrace seg) [] []
      else
        let (name, greedy) := splitGreedy content
        if name = [] then .error (emptyParameterName seg) [] [] else .param pre name suf greedy

/-- Whether a segment is an error. -/
def ParsedSegment.isError : ParsedSegment → Bool
  | .error .. => true
  | _ => false

def compileSegments (segments : List PyStr) : Option (List ParsedSegment) :=
  let parsed := segments.map parseSegment
  if parsed.any ParsedSegment.isError then none else some parsed

/-! ### Paths as segments -/

def splitPathSegments : List PyStr :=
  if path = [] ∨ path = lit "/" then []
  else
    let path := if path.head? = some (cp '/') then path.tail else path
    if path = [] then [] else path.splitOn (cp '/')

/-- The loop of `_iter_path_segments` over what is left of the path; the fuel is
the length of the path, which every turn shortens. -/
def iterPathLoop : ℕ → PyStr → List PyStr
  | 0, rest => [rest]
  | fuel + 1, rest =>
    match find (cp '/') rest with
    | none => [rest]
    | some i => rest.take i :: iterPathLoop fuel (rest.drop (i + 1))

def iterPathSegments : List PyStr :=
  if path = [] ∨ path = lit "/" then []
  else
    let rest := if path.head? = some (cp '/') then path.tail else path
    iterPathLoop rest.length rest

/-- The loop of `_split_path_prefix` over what is left of the path.  When the count
is used up, the slash before the rest belongs to the remaining path. -/
def splitPrefixLoop : ℕ → PyStr → List PyStr × PyStr
  | 0, rest => ([], cp '/' :: rest)
  | count + 1, rest =>
    match find (cp '/') rest with
    | none => ([rest], lit "/")
    | some i =>
      let (segs, remaining) := splitPrefixLoop count (rest.drop (i + 1))
      (rest.take i :: segs, remaining)

def splitPathPrefix (segmentCount : ℕ) : List PyStr × PyStr :=
  if segmentCount = 0 then ([], if path = [] then lit "/" else path)
  else if path = [] ∨ path = lit "/" then ([], lit "/")
  else splitPrefixLoop segmentCount (if path.head? = some (cp '/') then path.tail else path)

/-! ### Matching segments -/

def matchSegmentLiteral : Option PyStr :=
  if !pre.isPrefixOf runtime then none
  else if !endsWith suf runtime then none
  else if runtime.length ≤ pre.length + suf.length then none
  else some ((runtime.take (runtime.length - suf.length)).drop pre.length)

def segmentLiteralMatches : Bool :=
  if !pre.isPrefixOf runtime then false
  else if !endsWith suf runtime then false
  else decide (pre.length + suf.length < runtime.length)

/-- `_match_compiled_path_traversal` on the rest of the pattern and of the path;
`consumed` counts the path segments before the rest.  Without `params` nothing is
captured. -/
def traversePath : List ParsedSegment → List PyStr → ℕ → Option Params → Option (Option Params × ℕ)
  | [], _, consumed, params => some (params, consumed)
  | .literal value :: pattern, rest, consumed, params =>
    match rest with
    | [] => none
    | seg :: rest => if seg = value then traversePath pattern rest (consumed + 1) params else none
  | .error .. :: _, _, _, _ => none
  | .param pre name suf .plus :: pattern, rest, consumed, params =>
    if pattern ≠ [] ∨ pre ≠ [] ∨ suf ≠ [] then none
    else if rest.all (· = []) then none
    else some (params.map (dictSet name (join (cp '/') rest)), consumed + rest.length)
  | .param pre name suf .star :: pattern, rest, consumed, params =>
    if pattern ≠ [] ∨ pre ≠ [] ∨ suf ≠ [] then none
    else some (params.map (dictSet name (join (cp '/') rest)), consumed + rest.length)
  | .param pre name suf .no :: pattern, rest, consumed, params =>
    match rest with
    | [] => none
    | runtime :: rest =>
      if pre = [] ∧ suf = [] then
        if runtime = [] then none
        else traversePath pattern rest (consumed + 1) (params.map (dictSet name runtime))
      else
        match params with
        | some params =>
          match matchSegmentLiteral runtime pre suf with
          | none => none
          | some captured =>
            traversePath pattern rest (consumed + 1) (some (dictSet name captured params))
        | none =>
          if segmentLiteralMatches runtime pre suf then traversePath pattern rest (consumed + 1)
            none
          else none

def matchCompiledPathTraversal (captureParams : Bool) : Option (Option Params × ℕ) :=
  traversePath patternSegs pathSegs 0 (if captureParams then some [] else none)

def matchCompiledPathSegments : Option Params :=
  match matchCompiledPathTraversal pathSegs patternSegs true with
  | none => none
  | some (params, consumed) => if consumed ≠ pathSegs.length then none else some (params.getD [])

def compiledPathSegmentsMatch : Bool :=
  match matchCompiledPathTraversal pathSegs patternSegs false with
  | none => false
  | some (_, consumed) => decide (consumed = pathSegs.length)

def matchCompiledPathPrefix : Option (Params × ℕ) :=
  (matchCompiledPathTraversal pathSegs patternSegs true).map fun (params, consumed) =>
    (params.getD [], consumed)

def matchCompiledPathPrefixText : Option (Params × PyStr) :=
  match patternSegs.getLast? with
  | some (.param _ name _ .plus) =>
    let leading := patternSegs.dropLast
    let (pathSegs, remaining) := splitPathPrefix path leading.length
    match matchCompiledPathPrefix pathSegs leading with
    | none => none
    | some (params, _) =>
      let greedyValue := if remaining.head? = some (cp '/') then remaining.tail else remaining
      if greedyValue.all (· = cp '/') then none else some (dictSet name greedyValue params, lit "/")
  | some (.param _ name _ .star) =>
    let leading := patternSegs.dropLast
    let (pathSegs, remaining) := splitPathPrefix path leading.length
    match matchCompiledPathPrefix pathSegs leading with
    | none => none
    | some (params, _) =>
      let greedyValue := if remaining.head? = some (cp '/') then remaining.tail else remaining
      some (dictSet name greedyValue params, lit "/")
  | _ =>
    let (pathSegs, remaining) := splitPathPrefix path patternSegs.length
    (matchCompiledPathPrefix pathSegs patternSegs).map fun (params, _) => (params, remaining)

/-! ### Rule paths -/

def compilePathPattern (pattern : PyStr) : Option (List ParsedSegment) :=
  compileSegments (splitPathSegments pattern)

/-- The loop of `_compiled_rule_path_is_valid`. -/
def rulePathLoop (names : List PyStr) : List ParsedSegment → Bool
  | [] => true
  | .literal _ :: rest => rulePathLoop names rest
  | .error .. :: _ => false
  | .param pre name suf greedy :: rest =>
    if name ∈ names then false
    else if greedy ≠ .no ∧ rest ≠ [] then false
    else if greedy ≠ .no ∧ (pre ≠ [] ∨ suf ≠ []) then false
    else rulePathLoop (name :: names) rest

theorem rulePathLoop_param {names} {pre name suf} {greedy} {rest} :
    rulePathLoop names (.param pre name suf greedy :: rest) ↔ name ∉ names ∧
      (greedy ≠ .no → rest = [] ∧ pre = [] ∧ suf = []) ∧ rulePathLoop (name :: names) rest := by
  rw [rulePathLoop]
  grind

def compiledRulePathIsValid : Bool := rulePathLoop [] pattern

/-! ### Hosts -/

/-- The loop of `_match_compiled_host`, over host labels from the right. -/
def matchHostLoop (py : PyLib) : List ParsedSegment → List PyStr → Params → Option Params
  | [], labels, params => if labels = [] then some params else none
  | .literal value :: pattern, labels, params =>
    match labels with
    | [] => none
    | label :: labels =>
      if py.lower label = py.lower value then matchHostLoop py pattern labels params else none
  | .error .. :: _, _, _ => none
  | .param pre name suf .plus :: pattern, labels, params =>
    if pattern ≠ [] ∨ pre ≠ [] ∨ suf ≠ [] then none
    else if labels = [] then none
    else some (dictSet name (join (cp '.') labels.reverse) params)
  | .param pre name suf .star :: pattern, labels, params =>
    if pattern ≠ [] ∨ pre ≠ [] ∨ suf ≠ [] then none
    else some (dictSet name (join (cp '.') labels.reverse) params)
  | .param pre name suf .no :: pattern, labels, params =>
    match labels with
    | [] => none
    | label :: labels =>
      if pre = [] ∧ suf = [] then
        matchHostLoop py pattern labels (dictSet name (py.lower label) params)
      else
        match matchSegmentLiteral (py.lower label) (py.lower pre) (py.lower suf) with
        | none => none
        | some captured => matchHostLoop py pattern labels (dictSet name captured params)

def matchCompiledHost (py : PyLib) (host : PyStr) (patternSegsReversed : List ParsedSegment) :
    Option Params :=
  matchHostLoop py patternSegsReversed (host.splitOn (cp '.')).reverse []

/-! ### Facts about segments of paths -/

/-- The first slash of a text ends its first segment. -/
theorem splitOn_find (rest : PyStr) : rest.splitOn (cp '/') = match find (cp '/') rest with
    | none => [rest]
    | some i => rest.take i :: (rest.drop (i + 1)).splitOn (cp '/') := by
  have hpart := partition_cases (cp '/') rest
  unfold partition at hpart
  cases hfind : find (cp '/') rest with
  | none => exact splitOn_eq_singleton (idxOf?_eq_none_iff.mp hfind)
  | some i =>
    simp only [hfind, Prod.mk.injEq, reduceCtorEq, and_false, false_or, Option.some.injEq] at hpart
    obtain ⟨a, b, hrest, ha, rfl, rfl⟩ := hpart
    conv_lhs => rw [hrest, splitOn_append_cons_self_of_not_mem ha]

theorem iterPathLoop_eq (fuel : ℕ) : ∀ rest : PyStr, rest.length ≤ fuel →
    iterPathLoop fuel rest = rest.splitOn (cp '/') := by
  induction fuel with
  | zero =>
    intro rest hlen
    obtain rfl := eq_nil_of_length_eq_zero (Nat.le_zero.mp hlen)
    rw [splitOn_nil, iterPathLoop]
  | succ fuel ih =>
    intro rest hlen
    rw [iterPathLoop, splitOn_find]
    split
    · rfl
    · next i hi =>
      rw [ih _ (by rw [length_drop]; omega)]

/-- A path without the slash it may start with. -/
def pathBody : PyStr := if path.head? = some (cp '/') then path.tail else path

theorem splitPathSegments_of_ne (hroot : ¬(path = [] ∨ path = lit "/")) :
    splitPathSegments path = (pathBody path).splitOn (cp '/') := by
  have hbody : pathBody path ≠ [] := by
    unfold pathBody
    split
    · next hslash =>
      intro htail
      cases path with
      | nil => exact hroot (.inl rfl)
      | cons c path =>
        simp only [head?_cons, Option.some.injEq] at hslash
        rw [tail_cons] at htail
        exact hroot (.inr (by rw [hslash, htail]; rfl))
    · exact fun h => hroot (.inl h)
  rw [splitPathSegments, if_neg hroot]
  exact if_neg hbody

theorem iterPathSegments_eq : iterPathSegments path = splitPathSegments path := by
  by_cases hroot : path = [] ∨ path = lit "/"
  · rw [iterPathSegments, splitPathSegments, if_pos hroot, if_pos hroot]
  · rw [iterPathSegments, if_neg hroot, splitPathSegments_of_ne path hroot]
    exact iterPathLoop_eq _ _ (Nat.le_refl _)

/-- Cutting a path at a slash cuts its list of segments. -/
theorem splitPathSegments_append {path rest} (hrest : rest = [] ∨ rest.head? = some (cp '/')) :
    splitPathSegments path <+: splitPathSegments (path ++ rest) := by
  by_cases hpath : path = [] ∨ path = lit "/"
  · rw [splitPathSegments, if_pos hpath]
    exact nil_prefix
  · obtain ⟨hne, -⟩ := not_or.mp hpath
    cases rest with
    | nil => simp
    | cons c rest =>
      obtain rfl : c = cp '/' := by simpa using hrest
      have hfull : ¬(path ++ cp '/' :: rest = [] ∨ path ++ cp '/' :: rest = lit "/") := by
        rintro (h | h)
        · simp at h
        · have hlen := congrArg List.length h
          have hpos := length_pos_iff.mpr hne
          simp [lit] at hlen
          omega
      -- a leading slash is dropped on both sides or on neither
      have hbody : pathBody (path ++ cp '/' :: rest) = pathBody path ++ cp '/' :: rest := by
        cases path with
        | nil => exact absurd rfl hne
        | cons d path =>
          by_cases hd : d = cp '/' <;> simp [pathBody, hd]
      rw [splitPathSegments_of_ne _ hpath, splitPathSegments_of_ne _ hfull, hbody,
        splitOn_append_cons_self]
      exact prefix_append _ _

/-! ### Facts about matching -/

theorem matchSegmentLiteral_isSome :
    (matchSegmentLiteral runtime pre suf).isSome = segmentLiteralMatches runtime pre suf := by
  unfold matchSegmentLiteral segmentLiteralMatches
  by_cases hpre : pre.isPrefixOf runtime <;> by_cases hsuf : endsWith suf runtime <;>
    simp [hpre, hsuf]
  by_cases hlen : runtime.length ≤ pre.length + suf.length
  · simp [hlen]
  · simp [Nat.lt_of_not_le hlen]

/-- Capturing changes neither whether a pattern matches nor how far. -/
theorem traversePath_none : ∀ (rest : List PyStr) (consumed : ℕ)
    (params : Params), traversePath pattern rest consumed none =
      (traversePath pattern rest consumed (some params)).map fun result => (none, result.2) := by
  induction pattern with
  | nil => intro rest consumed params; rfl
  | cons segment pattern ih =>
    intro rest consumed params
    cases segment with
    | literal value =>
      cases rest with
      | nil => rfl
      | cons seg rest =>
        simp only [traversePath]
        split
        · exact ih rest (consumed + 1) params
        · rfl
    | error => rfl
    | param pre name suf greedy =>
      cases greedy with
      | plus => simp only [traversePath]; split_ifs <;> rfl
      | star => simp only [traversePath]; split_ifs <;> rfl
      | no =>
        cases rest with
        | nil => rfl
        | cons runtime rest =>
          simp only [traversePath]
          split_ifs with hplain hempty hmatch
          · rfl
          · exact ih rest (consumed + 1) _
          · rw [← matchSegmentLiteral_isSome] at hmatch
            obtain ⟨captured, hcapt⟩ := Option.isSome_iff_exists.mp hmatch
            rw [hcapt]
            exact ih rest (consumed + 1) _
          · rw [← matchSegmentLiteral_isSome, Bool.not_eq_true, Option.isSome_eq_false_iff,
              Option.isNone_iff_eq_none] at hmatch
            rw [hmatch]
            rfl

/-- Matching without captures answers like matching with them. -/
theorem compiledPathSegmentsMatch_eq : compiledPathSegmentsMatch pathSegs patternSegs =
      (matchCompiledPathSegments pathSegs patternSegs).isSome := by
  unfold compiledPathSegmentsMatch matchCompiledPathSegments matchCompiledPathTraversal
  rw [if_neg Bool.false_ne_true, if_pos rfl, traversePath_none patternSegs pathSegs 0 []]
  cases traversePath patternSegs pathSegs 0 (some []) with
  | none => rfl
  | some result =>
    by_cases hall : result.2 = pathSegs.length
    · simp [hall]
    · simp [hall]

/-- The literals a pattern starts with. -/
def literalPrefix : List ParsedSegment → List PyStr
  | .literal value :: pattern => value :: literalPrefix pattern
  | _ => []

/-- What matches a pattern starts with the literals the pattern starts with. -/
theorem literalPrefix_of_traversePath : ∀ (rest : List PyStr)
    (consumed : ℕ) (params : Option Params) {result : Option Params × ℕ},
    traversePath pattern rest consumed params = some result → literalPrefix pattern <+: rest := by
  induction pattern with
  | nil =>
    intro rest consumed params result _
    exact nil_prefix
  | cons segment pattern ih =>
    intro rest consumed params result hmatch
    cases segment with
    | literal value =>
      cases rest with
      | nil => simp [traversePath] at hmatch
      | cons seg rest =>
        simp only [traversePath, Option.ite_none_right_eq_some] at hmatch
        obtain ⟨rfl, hmatch⟩ := hmatch
        exact cons_prefix_cons.mpr ⟨rfl, ih rest _ _ hmatch⟩
    | error => exact nil_prefix
    | param => exact nil_prefix

theorem literalPrefix_of_match {pathSegs} {patternSegs}
    {params} (hmatch : matchCompiledPathSegments pathSegs patternSegs = some params) :
    literalPrefix patternSegs <+: pathSegs := by
  unfold matchCompiledPathSegments at hmatch
  split at hmatch
  · simp at hmatch
  · next hsome => exact literalPrefix_of_traversePath _ _ _ _ hsome

end Okou.Firewall
