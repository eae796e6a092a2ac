import Okou.Connectors.Rule
import Okou.Lib.Except

/-!
# Both sides read a rule alike

A rule string is checked by the connectors package when it is written, and compiled by the
proxy addon when it is enforced.  The two grammars are written separately: the package cuts
tokens with `split`, the addon with `partition`; the package refuses an empty path before it
looks at the predicates, the addon when it looks at the path; the package counts stars, the
addon counts them down.  The proof goes through the grammar from the characters up, on the
code points of the texts.
-/

namespace Okou.Connectors

open List

open Firewall (PyStr lit cp PyLib Greedy ParsedSegment PathSpecificity AwsPredicates
    QueryRequirement CompiledRule
  compileAwsPredicates compileAwsQueryRequirements compilePathPattern compileRule isAlnum
    parseRuleMethod
  rulePathLoop rulePathLoop_param splitRulePathAndAwsPredicates)

/-! ### Classes of characters -/

theorem isAlnum_lt {p} (h : isAlnum p) : p < 0xD800 := by
  have h' := of_decide_eq_true h
  have h9 : cp '9' = 57 := rfl
  have hZ : cp 'Z' = 90 := rfl
  have hz : cp 'z' = 122 := rfl
  omega

/-- The letters, the digits and the characters of a literal. -/
theorem class_codePoints {extra} (hlit : lit extra = (js extra).map UInt16.toNat)
    (hlow : ∀ p ∈ lit extra, p < 0xD800) (s : JsStr) :
    (decide (codePoints s ≠ []) && (codePoints s).all fun p => isAlnum p ||
      decide (p ∈ lit extra)) =
      (decide (s ≠ []) && s.all fun u => isAlnum u.toNat || decide (u ∈ js extra)) := by
  have hclass : ∀ p, (isAlnum p || decide (p ∈ lit extra)) → p < 0xD800 := by
    intro p hp
    rcases Bool.or_eq_true_iff.mp hp with h | h
    · exact isAlnum_lt h
    · exact hlow p (of_decide_eq_true h)
  have hmem : ∀ u : UInt16, u.toNat ∈ lit extra ↔ u ∈ js extra := fun u => by
    rw [hlit]
    exact mem_map_of_injective fun _ _ => UInt16.toNat_inj.mp
  rw [all_codePoints hclass]
  simp [hmem]

variable (value key : JsStr) (ctx : RuleContext) (path : JsStr) (tokens : List JsStr)

variable {predicates : Predicates}

theorem isAwsPredicateValue_codePoints :
    Firewall.isAwsPredicateValue (codePoints value) = isAwsPredicateValue value :=
  class_codePoints (by decide) (by decide) value

theorem isAwsQueryKey_codePoints : Firewall.isAwsQueryKey (codePoints key) = isAwsQueryKey key :=
  class_codePoints (by decide) (by decide) key

theorem isAwsQueryValue_codePoints :
    Firewall.isAwsQueryValue (codePoints value) = isAwsQueryValue value :=
  class_codePoints (by decide) (by decide) value

/-- A text with an equals sign is in no class. -/
theorem class_eq_false_of_mem {f} {c : UInt16} (hf : f c = false) {s : JsStr} (hc : c ∈ s) :
    (decide (s ≠ []) && s.all f) = false := by
  have hall : s.all f = false := by
    rw [all_eq_false]
    exact ⟨c, hc, by rw [hf]; exact Bool.false_ne_true⟩
  rw [hall, Bool.and_false]

/-! ### Tokens -/

theorem partition_codePoints {c} (hc : Plain c) {a} (ha : c ∉ a) (b : JsStr) :
    Firewall.partition c.toNat (codePoints (a ++ c :: b)) = (codePoints a,
      some (codePoints b)) := by
  rw [codePoints_append_cons hc]
  exact Firewall.partition_append (mt (mem_codePoints hc).mp ha) _

/-- How both sides cut a token at its equals signs: not at all, in two, or, on the side of the
package, in more parts. -/
theorem token_cases (token : JsStr) : (ch '=' ∉ token ∧ token.splitOn (ch '=') = [token] ∧
        Firewall.partition (cp '=') (codePoints token) = (codePoints token, none)) ∨
      ∃ key value, Firewall.partition (cp '=') (codePoints token) = (codePoints key,
        some (codePoints value)) ∧
        token = key ++ ch '=' :: value ∧ ch '=' ∉ key ∧
        (token.splitOn (ch '=') = [key, value] ∨
          ch '=' ∈ value ∧ ∃ v w more, token.splitOn (ch '=') = key :: v :: w :: more) := by
  have hplain : Plain (ch '=') := by decide
  by_cases hmem : ch '=' ∈ token
  · obtain ⟨key, value, rfl, hkey⟩ := eq_append_cons_of_mem hmem
    refine .inr ⟨key, value, partition_codePoints hplain hkey value, rfl, hkey, ?_⟩
    rw [splitOn_append_cons_self_of_not_mem hkey]
    by_cases hvalue : ch '=' ∈ value
    · obtain ⟨v, rest, rfl, hv⟩ := eq_append_cons_of_mem hvalue
      obtain ⟨w, more, hmore⟩ := exists_cons_of_ne_nil (splitOn_ne_nil (ch '=') rest)
      exact .inr ⟨hvalue, v, w, more, by rw [splitOn_append_cons_self_of_not_mem hv, hmore]⟩
    · exact .inl (by rw [splitOn_eq_singleton hvalue])
  · exact .inl ⟨hmem, splitOn_eq_singleton hmem,
      Firewall.partition_of_not_mem (mt (mem_codePoints hplain).mp hmem)⟩

/-! ### AWS predicates -/

/-- An entry of the predicates, in code points. -/
def entryPoints : JsStr × JsStr → PyStr × PyStr := Prod.map codePoints codePoints

theorem mem_validAwsPredicateKeys : codePoints key ∈ Firewall.validAwsPredicateKeys ↔
    key ∈ validAwsPredicateKeys := by
  rw [show Firewall.validAwsPredicateKeys = validAwsPredicateKeys.map codePoints by decide]
  exact mem_map_of_injective codePoints_injective

theorem awsPredicatesLoop_same (predicates) :
    Firewall.awsPredicatesLoop (tokens.map codePoints) (predicates.map entryPoints) =
      (awsPredicatesLoop ctx tokens predicates).toOption.map (·.map entryPoints) := by
  induction tokens generalizing predicates with
  | nil => rfl
  | cons token tokens ih =>
    rw [map_cons, Firewall.awsPredicatesLoop, awsPredicatesLoop]
    rcases token_cases token with ⟨_, hsplit, hpartition⟩ | ⟨key, value, hpartition, htoken, hkey,
      hsplit⟩
    · rw [hpartition, hsplit]
      by_cases hempty : token = [] <;> simp [hempty, Except.toOption]
    · have hne : token ≠ [] := by simp [htoken]
      have hget : dictGet (codePoints key) (predicates.map entryPoints) =
        (dictGet key predicates).map codePoints :=
        dictGet_map_entries codePoints_injective codePoints key predicates
      have hset : dictSet (codePoints key) (codePoints value) (predicates.map entryPoints) =
          (dictSet key value predicates).map entryPoints :=
        dictSet_map_entries codePoints_injective codePoints key value predicates
      rw [hpartition, if_neg hne]
      simp only [mem_validAwsPredicateKeys, hget, hset, ih,
        isAwsPredicateValue_codePoints]
      rcases hsplit with hsplit | ⟨hmem, v, w, more, hsplit⟩
      · rw [hsplit]
        by_cases hpart : key = [] ∨ value = []
        · simp [hpart, Except.toOption]
        · by_cases hvalid : key ∈ validAwsPredicateKeys
          · by_cases hdup : (dictGet key predicates).isSome
            · simp [hpart, hvalid, hdup, Except.toOption]
            · cases hclass : isAwsPredicateValue value <;> simp [hpart, hvalid, hdup, hclass,
                Except.toOption]
          · simp [hpart, hvalid, Except.toOption]
      · -- the second equals sign is in the value that the addon reads
        have hclass : isAwsPredicateValue value = false := class_eq_false_of_mem (by decide) hmem
        rw [hsplit]
        simp [hclass, Except.toOption]

/-- The predicates of both sides are the same: a map with no other keys, and a structure. -/
structure SameAws (predicates : Predicates) (aws : AwsPredicates) : Prop where
  sigv4 : (dictGet (js "sigv4") predicates).map codePoints = some aws.sigv4
  action : (dictGet (js "action") predicates).map codePoints = aws.action
  target : (dictGet (js "target") predicates).map codePoints = aws.target
  keys : ∀ key, key ∉ validAwsPredicateKeys → dictGet key predicates = none

/-- The loop keeps to the valid keys. -/
theorem awsPredicatesLoop_keys {ctx} {tokens} {result}
    (hkeys : ∀ key, key ∉ validAwsPredicateKeys → dictGet key predicates = none)
    (hloop : awsPredicatesLoop ctx tokens predicates = .ok result) :
    ∀ key, key ∉ validAwsPredicateKeys → dictGet key result = none := by
  induction tokens generalizing predicates with
  | nil =>
    cases hloop
    exact hkeys
  | cons token tokens ih =>
    rw [awsPredicatesLoop] at hloop
    split at hloop
    · cases hloop
    · split at hloop
      case h_1 _ k value _ =>
        split at hloop
        · cases hloop
        · split at hloop
          case isTrue => cases hloop
          case isFalse hvalid =>
            split at hloop
            · cases hloop
            · split at hloop
              · cases hloop
              · refine ih ?_ hloop
                intro key hkey
                have hne : ¬k = key := fun h => hvalid (h ▸ hkey)
                rw [dictGet_dictSet, if_neg hne, hkeys key hkey]
      case h_2 => cases hloop

theorem awsPredicates_same (text : JsStr) :
    Option.Rel SameAws (parseAwsPredicates ctx text).toOption
      (compileAwsPredicates (codePoints text)) := by
  unfold parseAwsPredicates compileAwsPredicates
  by_cases hempty : text = []
  · rw [if_pos hempty, if_pos (codePoints_eq_nil.mpr hempty)]
    exact .none
  · have hspace : Plain (ch ' ') := by decide
    have hsplit : (codePoints text).splitOn (cp ' ') = (text.splitOn (ch ' ')).map codePoints :=
      splitOn_codePoints hspace text
    have hloop := awsPredicatesLoop_same ctx (text.splitOn (ch ' ')) []
    rw [map_nil] at hloop
    rw [if_neg hempty, if_neg (mt codePoints_eq_nil.mp hempty), hsplit, hloop]
    cases hres : awsPredicatesLoop ctx (text.splitOn (ch ' ')) [] with
    | error message => exact .none
    | ok predicates =>
      have hkeys := awsPredicatesLoop_keys (fun _ _ => rfl) hres
      have hget : ∀ name : String, codePoints (js name) = lit name →
          dictGet (lit name) (predicates.map entryPoints) = (dictGet (js name) predicates).map
            codePoints :=
        fun name hname => hname ▸ dictGet_map_entries codePoints_injective codePoints (js name)
          predicates
      simp only [Except.toOption, Option.map_some, hget "sigv4" (by decide),
        hget "action" (by decide), hget "target" (by decide)]
      cases hsig : dictGet (js "sigv4") predicates with
      | none => exact .none
      | some sigv4 =>
        cases hact : dictGet (js "action") predicates with
        | none =>
          refine .some ⟨?_, ?_, rfl, hkeys⟩
          · rw [hsig]; rfl
          · rw [hact]; rfl
        | some action =>
          cases htarg : dictGet (js "target") predicates with
          | none =>
            refine .some ⟨?_, ?_, ?_, hkeys⟩
            · rw [hsig]; rfl
            · rw [hact]; rfl
            · rw [htarg]; rfl
          | some target => exact .none

/-! ### Query requirements -/

/-- A requirement in code points. -/
def requirementPoints (requirement : JsStr) : QueryRequirement :=
  Prod.map codePoints (Option.map codePoints) (splitRequirement requirement)

theorem splitRequirement_of_cut {key value} (hkey : ch '=' ∉ key) :
    splitRequirement (key ++ ch '=' :: value) = (key, some value) := by
  unfold splitRequirement
  rw [Firewall.idxOf?_cut hkey]
  simp

theorem splitRequirement_of_whole {token} (hsplit : ch '=' ∉ token) :
    splitRequirement token = (token, none) := by
  unfold splitRequirement
  rw [idxOf?_eq_none_iff.mpr hsplit]

theorem queryRequirementsLoop_same (keys requirements) :
    Firewall.queryRequirementsLoop (tokens.map codePoints) (keys.map codePoints)
        (requirements.map requirementPoints) =
      (queryRequirementsLoop ctx tokens keys requirements).toOption.map
        (·.map requirementPoints) := by
  induction tokens generalizing keys requirements with
  | nil => rfl
  | cons token tokens ih =>
    rw [map_cons, Firewall.queryRequirementsLoop, queryRequirementsLoop]
    have hseen : ∀ key : JsStr, codePoints key ∈ keys.map codePoints ↔ key ∈ keys :=
      fun key => mem_map_of_injective codePoints_injective
    have hnext : ∀ key : JsStr, Firewall.queryRequirementsLoop (tokens.map codePoints)
        (codePoints key :: keys.map codePoints) (requirements.map requirementPoints ++
          [requirementPoints token]) =
          (queryRequirementsLoop ctx tokens (key :: keys) (requirements ++ [token])).toOption.map
            (·.map requirementPoints) := by
      intro key
      rw [← ih, map_cons, map_append, map_singleton]
    rcases token_cases token with ⟨hwhole, hsplit, hpartition⟩ | ⟨key, value, hpartition, htoken,
      hkey, hsplit⟩
    · have hpoints : requirementPoints token = (codePoints token, none) := by
        rw [requirementPoints, splitRequirement_of_whole hwhole]
        rfl
      rw [hpoints] at hnext
      rw [hpartition, hsplit]
      by_cases hempty : token = []
      · simp [hempty, Except.toOption]
      · by_cases hdup : token ∈ keys
        · cases hclass : isAwsQueryKey token <;>
            simp [hempty, hclass, hseen, hdup, Except.toOption]
        · cases hclass : isAwsQueryKey token <;>
            simp [hempty, isAwsQueryKey_codePoints, hclass, hseen, hdup, hnext, Except.toOption]
    · have hne : token ≠ [] := by simp [htoken]
      have hpoints : requirementPoints token = (codePoints key, some (codePoints value)) := by
        rw [requirementPoints, htoken, splitRequirement_of_cut hkey]
        rfl
      have hstar : codePoints value = lit "*" ↔ value = js "*" := by
        rw [show lit "*" = codePoints (js "*") by decide]
        exact codePoints_injective.eq_iff
      have href : (value ≠ js "*" ∧ isAwsQueryValue value = false) ↔
        requiredValueOk value = false := by
        rw [requiredValueOk, Bool.or_eq_false_iff, decide_eq_false_iff_not]
      rw [hpoints] at hnext
      rw [hpartition, if_neg hne, if_neg (mt codePoints_eq_nil.mp hne)]
      simp only [isAwsQueryKey_codePoints, hseen, ne_eq, hstar, isAwsQueryValue_codePoints, href,
        hnext]
      rcases hsplit with hsplit | ⟨hmem, v, w, more, hsplit⟩
      · rw [hsplit]
        cases hclass : isAwsQueryKey key with
        | false => simp [hclass, Except.toOption]
        | true =>
          by_cases hdup : key ∈ keys
          · simp [hclass, hdup, Except.toOption]
          · cases hok : requiredValueOk value <;> simp [hclass, hdup, hok, Except.toOption]
      · -- a second equals sign: the package sees more than two pieces,
        -- the addon a value with the sign in it
        have hok : requiredValueOk value = false := by
          refine href.mp ⟨?_, class_eq_false_of_mem (by decide) hmem⟩
          rintro rfl
          revert hmem
          decide
        rw [hsplit]
        simp [hok, Except.toOption]

/-- Each token is a requirement. -/
theorem queryRequirementsLoop_length {ctx} {tokens keys requirements result}
    (hloop : queryRequirementsLoop ctx tokens keys requirements = .ok result) :
    result.length = requirements.length + tokens.length := by
  induction tokens generalizing keys requirements with
  | nil =>
    cases hloop
    rfl
  | cons token tokens ih =>
    rw [queryRequirementsLoop] at hloop
    split at hloop
    · cases hloop
    · dsimp only at hloop
      split at hloop
      · cases hloop
      · split at hloop
        · cases hloop
        · split at hloop
          · cases hloop
          · rw [ih hloop, length_append, length_singleton, length_cons]
            omega

/-- The requirements of both sides; there is one. -/
def SameRequirements (requirements : List QueryRequirement) : Prop :=
  requirements = tokens.map requirementPoints ∧ requirements ≠ []

theorem queryRequirements_same (rawQuery : JsStr) :
    Option.Rel SameRequirements (parseAwsQueryRequirements ctx rawQuery).toOption
      (compileAwsQueryRequirements (codePoints rawQuery)) := by
  unfold parseAwsQueryRequirements compileAwsQueryRequirements
  by_cases hempty : rawQuery = []
  · rw [if_pos hempty, if_pos (codePoints_eq_nil.mpr hempty)]
    exact .none
  · have hamp : Plain (ch '&') := by decide
    have hsplit : (codePoints rawQuery).splitOn (cp '&') = (rawQuery.splitOn (ch '&')).map
      codePoints :=
      splitOn_codePoints hamp rawQuery
    have hloop := queryRequirementsLoop_same ctx (rawQuery.splitOn (ch '&')) [] []
    rw [map_nil, map_nil] at hloop
    rw [if_neg hempty, if_neg (mt codePoints_eq_nil.mp hempty), hsplit, hloop]
    cases hres : queryRequirementsLoop ctx (rawQuery.splitOn (ch '&')) [] [] with
    | error message => exact .none
    | ok tokens =>
      refine .some ⟨rfl, ?_⟩
      have hlength := queryRequirementsLoop_length hres
      have hsome := length_pos_of_ne_nil (splitOn_ne_nil (ch '&') rawQuery)
      rw [Ne, map_eq_nil_iff, ← length_eq_zero_iff]
      omega

/-! ### What follows the method -/

/-- Where a text is found, it stands. -/
theorem indexOf_eq_some {sub s} {i} (h : indexOf sub s = some i) :
    ∃ a b, s = a ++ (sub ++ b) ∧ a.length = i := by
  induction s generalizing i with
  | nil =>
    rw [indexOf] at h
    split at h
    case isTrue hsub =>
      cases h
      exact ⟨[], [], by rw [hsub]; rfl, rfl⟩
    case isFalse => cases h
  | cons c s ih =>
    rw [indexOf] at h
    split at h
    case isTrue hpre =>
      cases h
      obtain ⟨b, hb⟩ := isPrefixOf_iff_prefix.mp hpre
      exact ⟨[], b, hb.symm, rfl⟩
    case isFalse =>
      obtain ⟨j, hj, rfl⟩ := Option.map_eq_some_iff.mp h
      obtain ⟨a, b, rfl, rfl⟩ := ih hj
      exact ⟨c :: a, b, rfl, rfl⟩

/-- What both sides read after the method.  A path in front of query requirements was cut at
its first question mark. -/
structure SameRemainder (parsed : ParsedRuleRemainder)
    (split : PyStr × List QueryRequirement × Option AwsPredicates) : Prop where
  path : split.1 = codePoints parsed.path
  requirements : split.2.1 = (parsed.queryRequirements.getD []).map requirementPoints
  aws : Option.Rel SameAws parsed.awsPredicates split.2.2
  clean : split.2.1 ≠ [] → ch '?' ∉ parsed.path

/-- The query requirements at the end of a path in front of predicates. -/
theorem querySuffix_same {rawPath} {aws}
    (haws : Option.Rel SameAws (some predicates) (some aws)) : Option.Rel SameRemainder
      (match rawPath.idxOf? (ch '?') with
        | none => .ok ⟨rawPath, none, some predicates⟩
        | some queryIndex =>
          match parseAwsQueryRequirements ctx (rawPath.drop (queryIndex + 1)) with
          | .error message => .error message
          | .ok requirements => .ok ⟨rawPath.take queryIndex, some requirements, some predicates⟩ :
        Except JsStr ParsedRuleRemainder).toOption
      (match Firewall.partition (cp '?') (codePoints rawPath) with
        | (_, none) => some (codePoints rawPath, [], some aws)
        | (path, some rawQuery) =>
          match compileAwsQueryRequirements rawQuery with
          | none => none
          | some [] => none
          | some requirements => some (path, requirements, some aws)) := by
  have hmark : Plain (ch '?') := by decide
  by_cases hmem : ch '?' ∈ rawPath
  · obtain ⟨path, query, rfl, hpath⟩ := eq_append_cons_of_mem hmem
    have hpartition : Firewall.partition (cp '?') _ = _ := partition_codePoints hmark hpath query
    have hdrop : (path ++ ch '?' :: query).drop (path.length + 1) = query := by
      rw [drop_length_add_append, drop_succ_cons, drop_zero]
    have hquery := queryRequirements_same ctx query
    rw [Firewall.idxOf?_cut hpath, hpartition]
    simp only [hdrop, take_left]
    generalize parseAwsQueryRequirements ctx query = parsed at hquery ⊢
    generalize compileAwsQueryRequirements (codePoints query) = compiled at hquery ⊢
    cases parsed with
    | error message =>
      cases hquery
      exact .none
    | ok tokens =>
      obtain _ | requirements := compiled
      · cases hquery
      · obtain ⟨hsame⟩ := hquery
        obtain ⟨rfl, hne⟩ := hsame
        cases tokens with
        | nil => exact absurd rfl hne
        | cons token tokens => exact .some ⟨rfl, rfl, haws, fun _ => hpath⟩
  · have hmem' : cp '?' ∉ codePoints rawPath := mt (mem_codePoints hmark).mp hmem
    rw [idxOf?_eq_none_iff.mpr hmem, Firewall.partition_of_not_mem hmem']
    exact .some ⟨rfl, rfl, haws, fun h => absurd rfl h⟩

theorem remainder_same (rest : JsStr) :
    Option.Rel SameRemainder (parseRuleRemainder ctx rest).toOption
        (splitRulePathAndAwsPredicates (codePoints rest)) ∨
      (parseRuleRemainder ctx rest).toOption = none ∧
        ∀ split, splitRulePathAndAwsPredicates (codePoints rest) = some split → split.1 = [] := by
  have hspace : Plain (ch ' ') := by decide
  have hplain : ∀ u ∈ awsRuleSeparator, Plain u := plain_of_all (by decide)
  have hsep : Firewall.awsRuleSeparator = awsRuleSeparator.map UInt16.toNat := by decide
  have hfind : ∀ s : JsStr, Firewall.findSub Firewall.awsRuleSeparator (codePoints s) =
      (indexOf awsRuleSeparator s).map fun i => (codePoints (s.take i)).length :=
    fun s => hsep ▸ indexOf_codePoints hplain (by decide) s
  unfold parseRuleRemainder splitRulePathAndAwsPredicates
  rw [hfind]
  cases hidx : indexOf awsRuleSeparator rest with
  | none => exact .inl (.some ⟨rfl, rfl, .none, fun h => absurd rfl h⟩)
  | some i =>
    obtain ⟨rawPath, text, hrest, rfl⟩ := indexOf_eq_some hidx
    -- both sides cut at the separator, which starts with a space
    have hpoints : codePoints rest = codePoints rawPath ++
      (Firewall.awsRuleSeparator ++ codePoints text) := by
      rw [hrest, codePoints_append_plain hplain (by decide), hsep]
    have hafter : (codePoints rest).drop ((codePoints rawPath).length + 1) =
        codePoints (rest.drop (rawPath.length + 1)) := by
      have htail : awsRuleSeparator = ch ' ' :: js "AWS " := by decide
      rw [hrest, htail, cons_append, codePoints_append_cons hspace, drop_length_add_append,
        drop_length_add_append, drop_succ_cons, drop_succ_cons, drop_zero, drop_zero]
    have htake : rest.take rawPath.length = rawPath := by rw [hrest, take_left]
    rw [Option.map_some]
    simp only [htake, hafter, Firewall.contains, hfind, Option.isSome_map]
    split
    · exact .inl .none
    · have hpath : (codePoints rest).take (codePoints rawPath).length = codePoints rawPath := by
        rw [hpoints, take_left]
      have htext : (codePoints rest).drop ((codePoints rawPath).length +
          Firewall.awsRuleSeparator.length) =
          codePoints text := by rw [hpoints, drop_length_add_append, drop_left]
      have htext' : rest.drop (rawPath.length + awsRuleSeparator.length) = text := by
        rw [hrest, drop_length_add_append, drop_left]
      rw [hpath, htext, htext']
      have haws := awsPredicates_same ctx text
      by_cases hempty : rawPath = []
      · -- the package stops here; the addon goes on with an empty path
        subst hempty
        refine .inr ⟨rfl, fun split hsplit => ?_⟩
        generalize compileAwsPredicates (codePoints text) = compiled at hsplit
        cases compiled with
        | none => cases hsplit
        | some aws =>
          cases hsplit
          rfl
      · refine .inl ?_
        rw [if_neg hempty]
        generalize parseAwsPredicates ctx text = parsed at haws ⊢
        generalize compileAwsPredicates (codePoints text) = compiled at haws ⊢
        cases parsed with
        | error message =>
          cases haws
          exact .none
        | ok predicates =>
          obtain _ | aws := compiled
          · cases haws
          · exact querySuffix_same ctx haws

/-! ### Paths -/

/-- The segments of a path as the addon parses them. -/
def addonSegments : List ParsedSegment :=
  (Firewall.splitPathSegments (codePoints path)).map Firewall.parseSegment

theorem addonSegments_eq :
    addonSegments path = (splitPathSegments path).map fun seg =>
      Firewall.parseSegment (codePoints seg) := by
  rw [addonSegments, splitPathSegments_codePoints, map_map]
  rfl

/-- The characters of a path are accepted. -/
def PathChars : Prop :=
  path.head? = some (ch '/') ∧ hasRawWhitespace path = false ∧ hasUnsafeUrlCodepoint path = false ∧
    ch '\\' ∉ path ∧ ch '?' ∉ path ∧ ch '#' ∉ path

instance (path : JsStr) : Decidable (PathChars path) :=
  inferInstanceAs (Decidable (_ ∧ _ ∧ _ ∧ _ ∧ _ ∧ _))

/-- A path that both sides accept. -/
def PathOk : Prop :=
  PathChars path ∧ Firewall.rulePathLoop [] (addonSegments path) = true

instance (path : JsStr) : Decidable (PathOk path) := inferInstanceAs (Decidable (_ ∧ _))

section Segments

variable {seg : JsStr} {names : List JsStr} (segs : List JsStr)

theorem mem_names (name : JsStr) : codePoints name ∈ names.map codePoints ↔ name ∈ names :=
  mem_map_of_injective codePoints_injective

theorem pathSegmentsLoop_ok (names) :
    pathSegmentsLoop ctx segs names = .ok () ↔ rulePathLoop (names.map codePoints)
      (segs.map fun seg => Firewall.parseSegment (codePoints seg)) := by
  induction segs generalizing names with
  | nil => exact ⟨fun _ => rfl, fun _ => rfl⟩
  | cons seg segs ih =>
    have hsame := parseSegment_same seg
    rw [map_cons, pathSegmentsLoop]
    generalize parseSegment seg = mine at hsame ⊢
    generalize Firewall.parseSegment (codePoints seg) = theirs at hsame ⊢
    cases hsame with
    | literal value => exact ih names
    | error reason => exact ⟨nofun, nofun⟩
    | param pre name suf greedy =>
      have hnext := ih (name :: names)
      simp only [rulePathLoop_param, mem_names, map_eq_nil_iff, codePoints_eq_nil]
      grind

/-- What a segment adds, on both sides. -/
theorem addParam_eq (s) (pre name suf : JsStr) (greedy : Greedy) :
    addParam s pre suf greedy = s.addSegment
      (.param (codePoints pre) (codePoints name) (codePoints suf) greedy) := by
  cases greedy <;> simp [addParam, PathSpecificity.addSegment, codePointLength]

theorem specificityLoop_eq (names) (s) : specificityLoop segs names s =
      if rulePathLoop (names.map codePoints) (segs.map fun seg =>
        Firewall.parseSegment (codePoints seg))
      then some ((segs.map fun seg => Firewall.parseSegment (codePoints seg)).foldl
        PathSpecificity.addSegment s)
      else none := by
  induction segs generalizing names s with
  | nil => rfl
  | cons seg segs ih =>
    have hsame := parseSegment_same seg
    rw [map_cons, specificityLoop, foldl_cons]
    generalize parseSegment seg = mine at hsame ⊢
    generalize Firewall.parseSegment (codePoints seg) = theirs at hsame ⊢
    cases hsame with
    | literal value => exact ih names _
    | error reason => rfl
    | param pre name suf greedy =>
      have hnext := ih (name :: names) (addParam s pre suf greedy)
      simp only [rulePathLoop_param, mem_names, map_eq_nil_iff, codePoints_eq_nil,
        addParam_eq s pre name]
      by_cases hname : name ∈ names
      · simp [hname]
      · by_cases hshape : ¬greedy = .no ∧ (¬segs = [] ∨ ¬pre = [] ∨ ¬suf = [])
        · grind
        · grind

end Segments

variable (ctx : RuleContext) (py : CodepointLib) (path permission rule method : JsStr)
  (parsed : ParsedRuleRemainder) (serviceName : JsStr)

theorem validatePathSegments_ok : validatePathSegments ctx path = .ok () ↔ PathOk path := by
  have hloop := pathSegmentsLoop_ok ctx (splitPathSegments path) []
  rw [← addonSegments_eq] at hloop
  unfold validatePathSegments PathOk PathChars
  simp only [refuse_eq_ok, hloop, map_nil, not_not, not_or, Bool.not_eq_true, and_assoc]

/-- **How specific a path is**: the package counts as the addon does. -/
theorem pathSpecificity_eq :
    pathSpecificity path = if PathOk path then some (Firewall.pathSpecificity (addonSegments path))
      else none := by
  have hloop := specificityLoop_eq (splitPathSegments path) [] ⟨0, 0, 0, 0, 0, 0,
    (splitPathSegments path).length⟩
  rw [← addonSegments_eq, map_nil] at hloop
  have hlength : (addonSegments path).length = (splitPathSegments path).length := by
    rw [addonSegments_eq, length_map]
  unfold pathSpecificity
  rw [hloop, Firewall.pathSpecificity, hlength]
  have hchars : (path.head? ≠ some (ch '/') ∨ ch '?' ∈ path ∨ ch '#' ∈ path ∨ ch '\\' ∈ path ∨
      hasRawWhitespace path ∨ hasUnsafeUrlCodepoint path) ↔ ¬PathChars path := by
    unfold PathChars
    grind
  simp only [hchars, PathOk]
  by_cases hclean : PathChars path
  · simp [hclean]
  · simp [hclean]

/-- A valid path has no segment that is an error. -/
theorem not_isError_of_rulePathLoop {names} {segments}
    (h : rulePathLoop names segments = true) : segments.any ParsedSegment.isError = false := by
  induction segments generalizing names with
  | nil => rfl
  | cons segment segments ih =>
    cases segment with
    | literal value => exact ih h
    | error reason pre suf => cases h
    | param pre name suf greedy => exact ih (rulePathLoop_param.mp h).2.2

/-- What the addon makes of the path of a rule. -/
theorem compilePathPattern_codePoints :
    ((compilePathPattern (codePoints path)).filter Firewall.compiledRulePathIsValid) =
      if rulePathLoop [] (addonSegments path) then some (addonSegments path) else none := by
  show (if (addonSegments path).any _ then none else some (addonSegments path)).filter _ = _
  split
  case isTrue herror =>
    refine (if_neg fun hvalid => ?_).symm
    rw [not_isError_of_rulePathLoop hvalid] at herror
    cases herror
  case isFalse => rw [Option.filter_some, Firewall.compiledRulePathIsValid]

/-! ### Rules -/

/-- What the package reads in a rule that it accepts: the method, and what follows it. -/
def readRule : Option (JsStr × ParsedRuleRemainder) :=
  match rule.idxOf? (ch ' ') with
  | none => none
  | some spaceIdx =>
    if rule.take spaceIdx ∉ validRuleMethods then none
    else
      match parseRuleRemainder ctx (rule.drop (spaceIdx + 1)) with
      | .error _ => none
      | .ok parsed => if PathOk parsed.path then some (rule.take spaceIdx, parsed) else none

theorem validateRule_ok (permName serviceName : JsStr) :
      validateRule rule permName serviceName true = .ok () ↔
      (readRule ⟨rule, permName, serviceName⟩ rule).isSome := by
  unfold validateRule readRule
  cases rule.idxOf? (ch ' ') with
  | none => exact ⟨nofun, nofun⟩
  | some spaceIdx =>
    by_cases hmeth : rule.take spaceIdx ∈ validRuleMethods
    · have hsome : rule.take spaceIdx ≠ [] := by
        intro hempty
        rw [hempty] at hmeth
        revert hmeth
        decide
      simp only [refuse_eq_ok, hsome]
      by_cases hrest : rule.drop (spaceIdx + 1) = []
      · -- a rule without a path has no path that starts with a slash
        have hparse : parseRuleRemainder ⟨rule, permName, serviceName⟩ [] = .ok ⟨[], none, none⟩ :=
          rfl
        have hbad : ¬PathOk [] := fun hok => by cases hok.1.1
        rw [hrest, hparse]
        simp [hbad]
      · cases parseRuleRemainder ⟨rule, permName, serviceName⟩ (rule.drop (spaceIdx + 1)) with
        | error message => simp
        | ok parsed =>
          have hpath := validatePathSegments_ok ⟨rule, permName, serviceName⟩ parsed.path
          by_cases hok : PathOk parsed.path <;> simp [hrest, hpath, hok]
    · simp [refuse_eq_ok, hmeth]

/-- What `compileDecisionRule` makes of a rule that was read. -/
def decisionOf : DecisionRule :=
  ⟨permission, rule, method, parsed.path, Firewall.pathSpecificity (addonSegments parsed.path),
    parsed.awsPredicates, parsed.queryRequirements.map (·.map splitRequirement), none⟩

theorem compileDecisionRule_eq (supportsAwsSigv4 awsDiagnosticEnabled : Bool) :
    compileDecisionRule permission rule serviceName supportsAwsSigv4 awsDiagnosticEnabled =
      (readRule ⟨rule, permission, serviceName⟩ rule).bind fun read =>
        if read.2.awsPredicates.isSome ∧
          (supportsAwsSigv4 = false ∨ awsDiagnosticEnabled = false) then none
        else some (decisionOf permission rule read.1 read.2) := by
  unfold compileDecisionRule readRule
  cases rule.idxOf? (ch ' ') with
  | none => rfl
  | some spaceIdx =>
    by_cases hmeth : rule.take spaceIdx ∈ validRuleMethods
    · simp only [hmeth]
      cases parseRuleRemainder ⟨rule, permission, serviceName⟩ (rule.drop (spaceIdx + 1)) with
      | error message => rfl
      | ok parsed =>
        simp only [pathSpecificity_eq]
        by_cases hok : PathOk parsed.path
        · simp only [hok]
          rfl
        · simp [hok]
    · simp [hmeth]

/-- The methods of both sides. -/
theorem parseRuleMethod_codePoints :
    (method ∈ validRuleMethods ∧ ∃ ruleMethod,
        parseRuleMethod (codePoints method) = some ruleMethod ∧
        ruleMethod.text = codePoints method) ∨
      method ∉ validRuleMethods ∧ parseRuleMethod (codePoints method) = none := by
  have htexts : Firewall.validRuleMethods.map Firewall.RuleMethod.text =
    validRuleMethods.map codePoints := by decide
  have hmem : method ∈ validRuleMethods ↔ ∃ valid ∈ Firewall.validRuleMethods,
    valid.text = codePoints method := by
    rw [← mem_map_of_injective codePoints_injective, ← htexts, mem_map]
  unfold parseRuleMethod
  cases hfind : Firewall.validRuleMethods.find? fun valid => valid.text = codePoints method with
  | none =>
    refine .inr ⟨fun h => ?_, rfl⟩
    obtain ⟨valid, hvalid, htext⟩ := hmem.mp h
    exact find?_eq_none.mp hfind valid hvalid (decide_eq_true htext)
  | some ruleMethod =>
    have hfound := find?_some hfind
    have htext : ruleMethod.text = codePoints method := of_decide_eq_true hfound
    exact .inl ⟨hmem.mpr ⟨ruleMethod, mem_of_find?_eq_some hfind, htext⟩, ruleMethod, rfl, htext⟩

/-- What both sides make of a rule: the method, the segments of the path, the query
requirements, the AWS predicates, and how specific the path is. -/
structure SameRule (decision : DecisionRule) (compiled : CompiledRule) : Prop where
  raw : compiled.raw = codePoints decision.raw
  method : compiled.method.text = codePoints decision.method
  path : List.Forall₂ SameSegment ((splitPathSegments decision.path).map parseSegment) compiled.path
  requirements : compiled.queryRequirements =
    (decision.awsQueryRequirements.getD []).map (Prod.map codePoints (Option.map codePoints))
  aws : Option.Rel SameAws decision.awsPredicates compiled.awsPredicates
  specificity : compiled.specificity = decision.specificity

theorem sameSegments : List.Forall₂ SameSegment ((splitPathSegments path).map parseSegment)
    (addonSegments path) := by
  rw [addonSegments_eq, List.forall₂_map_left_iff, List.forall₂_map_right_iff]
  exact List.forall₂_same.mpr fun seg _ => parseSegment_same seg

theorem requirements_decision : (parsed.queryRequirements.getD []).map requirementPoints =
      ((parsed.queryRequirements.map (·.map splitRequirement)).getD []).map
        (Prod.map codePoints (Option.map codePoints)) := by
  cases parsed.queryRequirements with
  | none => rfl
  | some tokens => simp [requirementPoints]

/-- The addon refuses the characters that the package refuses. -/
theorem addon_chars {parsed requirements}
    {aws} (hsame : SameRemainder parsed (codePoints parsed.path, requirements, aws)) :
    ((codePoints parsed.path).head? ≠ some (cp '/') ∨
        (requirements = [] ∧ cp '?' ∈ codePoints parsed.path) ∨
        cp '#' ∈ codePoints parsed.path ∨ cp '\\' ∈ codePoints parsed.path ∨
          Firewall.hasUnsafeUrlCodepoint py.toPyLib (codePoints parsed.path) ∨
            Firewall.hasRawWhitespace (codePoints parsed.path)) ↔ ¬PathChars parsed.path := by
  have hmem : ∀ c : Char, Plain (ch c) → (ch c).toNat = cp c →
    (cp c ∈ codePoints parsed.path ↔ ch c ∈ parsed.path) :=
    fun c hc hcp => hcp ▸ mem_codePoints hc
  have hhead : (codePoints parsed.path).head? = some (cp '/') ↔ parsed.path.head? = some (ch '/') :=
    head?_codePoints (c := ch '/') (by decide)
  rw [hasUnsafeUrlCodepoint_codePoints, hasRawWhitespace_codePoints, Ne, hhead,
    hmem '?' (by decide) rfl, hmem '#' (by decide) rfl, hmem '\\' (by decide) rfl, PathChars]
  have hclean := hsame.clean
  by_cases hreq : requirements = [] <;> grind

/-- The addon compiles what the package reads. -/
theorem compileRule_same :
    Option.Rel (fun read compiled => SameRule (decisionOf permission rule read.1 read.2) compiled)
      (readRule ⟨rule, permission, serviceName⟩ rule)
        (compileRule py.toPyLib (codePoints rule)) := by
  have hspace : Plain (ch ' ') := by decide
  unfold readRule compileRule
  by_cases hmem : ch ' ' ∈ rule
  · obtain ⟨method, rest, hrule, hmeth⟩ := eq_append_cons_of_mem hmem
    have hpartition : Firewall.partition (cp ' ') (codePoints rule) = (codePoints method,
      some (codePoints rest)) :=
      hrule ▸ partition_codePoints hspace hmeth rest
    have hidx : rule.idxOf? (ch ' ') =
      some method.length := by rw [hrule, Firewall.idxOf?_cut hmeth]
    have htake : rule.take method.length = method := by rw [hrule, take_left]
    have hdrop : rule.drop (method.length + 1) = rest := by
      rw [hrule, drop_length_add_append, drop_succ_cons, drop_zero]
    rw [hpartition, hidx]
    simp only [htake, hdrop]
    rcases parseRuleMethod_codePoints method with ⟨hvalid, ruleMethod, hparse, htext⟩ | ⟨hvalid,
      hparse⟩
    · rw [if_neg (not_not.mpr hvalid), hparse]
      rcases remainder_same ⟨rule, permission, serviceName⟩ rest with hrem | ⟨hnone, hempty⟩
      · generalize parseRuleRemainder ⟨rule, permission, serviceName⟩ rest = parsed at hrem ⊢
        generalize splitRulePathAndAwsPredicates (codePoints rest) = split at hrem ⊢
        obtain message | parsed := parsed
        · cases hrem
          exact .none
        · obtain _ | ⟨path, requirements, aws⟩ := split
          · cases hrem
          · obtain ⟨hsame⟩ := hrem
            obtain rfl := hsame.path
            simp only [addon_chars py hsame]
            have hpat := compilePathPattern_codePoints parsed.path
            by_cases hclean : PathChars parsed.path
            · by_cases hloop : rulePathLoop [] (addonSegments parsed.path)
              · obtain ⟨hcomp, hvalidPath⟩ := Option.filter_eq_some_iff.mp
                  (hpat.trans (if_pos hloop))
                have hok : PathOk parsed.path := ⟨hclean, hloop⟩
                rw [if_pos hok, if_neg (not_not.mpr hclean), hcomp]
                dsimp only
                rw [hvalidPath, Bool.not_true, if_neg Bool.false_ne_true]
                refine .some ⟨rfl, htext, sameSegments parsed.path, ?_, hsame.aws, rfl⟩
                exact hsame.requirements.trans (requirements_decision parsed)
              · have hok : ¬PathOk parsed.path := fun h => hloop h.2
                rw [if_neg hok, if_neg (not_not.mpr hclean)]
                have href := Option.filter_eq_none_iff.mp (hpat.trans (if_neg hloop))
                cases hcomp : compilePathPattern (codePoints parsed.path) with
                | none => exact .none
                | some pattern =>
                  have hinv := Bool.not_eq_true _ ▸ href pattern hcomp
                  dsimp only
                  rw [hinv, Bool.not_false, if_pos rfl]
                  exact .none
            · have hok : ¬PathOk parsed.path := fun h => hclean h.1
              rw [if_neg hok, if_pos hclean]
              exact .none
      · -- the addon is left with an empty path
        cases hpars : parseRuleRemainder ⟨rule, permission, serviceName⟩ rest with
        | ok parsed =>
          rw [hpars] at hnone
          cases hnone
        | error message =>
          cases hsplit : splitRulePathAndAwsPredicates (codePoints rest) with
          | none => exact .none
          | some split =>
            have hpath : split.1.head? ≠ some (cp '/') := by simp [hempty split hsplit]
            dsimp only
            rw [if_pos (.inl hpath)]
            exact .none
    · rw [if_pos hvalid, hparse]
      exact .none
  · have hmem' : cp ' ' ∉ codePoints rule := mt (mem_codePoints hspace).mp hmem
    rw [idxOf?_eq_none_iff.mpr hmem, Firewall.partition_of_not_mem hmem']
    exact .none

/-- **Rule grammar parity.**  For every rule, the check of the package, with AWS predicates
allowed, accepts it iff the addon compiles it; and then both read the same method, path
segments, query requirements and AWS predicates in it, and find it equally specific. -/
theorem rule_parity (py : CodepointLib) (rule permName serviceName : JsStr) :
    (validateRule rule permName serviceName true = .ok () ↔
        (Firewall.compileRule py.toPyLib (codePoints rule)).isSome = true) ∧
      ∀ compiled, Firewall.compileRule py.toPyLib (codePoints rule) = some compiled →
        ∃ decision, compileDecisionRule permName rule serviceName true true = some decision ∧
          SameRule decision compiled := by
  have hsame := compileRule_same py permName rule serviceName
  rw [validateRule_ok, compileDecisionRule_eq]
  generalize readRule ⟨rule, permName, serviceName⟩ rule = read at hsame ⊢
  generalize compileRule py.toPyLib (codePoints rule) = compiled at hsame ⊢
  cases hsame with
  | none => exact ⟨⟨nofun, nofun⟩, nofun⟩
  | some hrule =>
    refine ⟨⟨fun _ => rfl, fun _ => rfl⟩, fun compiled hcompiled => ?_⟩
    cases hcompiled
    refine ⟨_, ?_, hrule⟩
    simp

end Okou.Connectors
