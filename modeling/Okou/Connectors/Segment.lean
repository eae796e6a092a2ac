import Okou.Firewall.PathSecurity
import Okou.Firewall.Patterns
import Okou.Lib.Utf16

/-!
# The segment grammar of the connectors package

`segment-parser.ts` and `firewall-url-utils.ts`.  The package is TypeScript: its strings are
lists of UTF-16 units.  The proxy addon has the same grammar over code points, and is handed
the same texts; both sides read every segment alike.
-/

namespace Okou.Connectors

open List

open Firewall (PyStr lit cp PyLib Greedy ParsedSegment findSub unsafeUrlCodepoint)

/-! ### Strings -/

/-- A JavaScript string: a list of UTF-16 units. -/
abbrev JsStr := List UInt16

instance JsStr.lawfulBEq : LawfulBEq JsStr := List.instLawfulBEq

/-- The unit of a character of the basic plane. -/
def ch (c : Char) : UInt16 := UInt16.ofNat c.toNat

/-- A literal. -/
def js (s : String) : JsStr := s.toList.map ch

/-- `s.indexOf(sub)`. -/
def indexOf (sub : JsStr) : JsStr → Option ℕ
  | [] => if sub = [] then some 0 else none
  | c :: s => if sub.isPrefixOf (c :: s) then some 0 else (indexOf sub s).map (· + 1)

/-- `s.indexOf(c, start)` with one character. -/
def charIndexFrom (c : UInt16) (s : JsStr) (start : ℕ) : Option ℕ :=
  ((s.drop start).idxOf? c).map (start + ·)

variable (value content path seg s : JsStr)

def codePointLength : ℕ := (codePoints value).length

/-! ### `firewall-url-utils.ts` -/

def hasRawWhitespace : Bool :=
  value.any (· ∈ [ch ' ', ch '\t', ch '\n', ch '\r', 0x0C, 0x0B])

/-- `hasUnsafeUrlCodepoint`.  A high surrogate at the end has no next unit to be paired with. -/
def hasUnsafeUrlCodepoint : JsStr → Bool
  | [] => false
  | [u] => decide (u.toNat < 0x20 ∨ u.toNat = 0x7F) || isHighSurrogate u || isLowSurrogate u
  | u :: v :: rest =>
    if u.toNat < 0x20 ∨ u.toNat = 0x7F then true
    else if isHighSurrogate u then
      if isLowSurrogate v then hasUnsafeUrlCodepoint rest else true
    else if isLowSurrogate u then true
    else hasUnsafeUrlCodepoint (v :: rest)

/-! ### `segment-parser.ts` -/

inductive SegmentParseResult
  | literal (value : JsStr)
  | param (pre name suf : JsStr) (greedy : Greedy)
  | error (reason : JsStr)
  deriving DecidableEq, Repr

def errorHint : JsStr :=
  js "use \"\x7bname\x7d\", \"prefix\x7bname\x7d\", \"\x7bname\x7dsuffix\", or \"prefix\x7bname\x7dsuffix\""

/-- A reason: the kind of error, the segment, and what to do about it. -/
def segmentReason (kind : String) (seg : JsStr) (advice : String) : JsStr :=
  js kind ++ seg ++ js advice ++ errorHint

/-- `unbalanced brace in segment`. -/
def unbalancedBrace : JsStr := segmentReason "unbalanced brace in segment \"" seg "\" — "

/-- `adjacent parameters in segment`. -/
def adjacentParameters : JsStr :=
  segmentReason "adjacent parameters in segment \"" seg
    "\" — only one parameter per segment is allowed; "

/-- `literal-separated parameters in segment`. -/
def literalSeparatedParameters : JsStr :=
  segmentReason "literal-separated parameters in segment \"" seg
    "\" — only one parameter per segment is allowed; "

/-- `empty parameter name in segment`. -/
def emptyParameterName : JsStr := segmentReason "empty parameter name in segment \"" seg "\" — "

/-- The greedy marker at the end of a parameter's content, and its name. -/
def splitGreedy : JsStr × Greedy :=
  if content.getLast? = some (ch '+') then (content.dropLast, .plus)
  else if content.getLast? = some (ch '*') then (content.dropLast, .star)
  else (content, .no)

def parseSegment : SegmentParseResult :=
  let openCount := seg.count (ch '{')
  let closeCount := seg.count (ch '}')
  if openCount = 0 ∧ closeCount = 0 then .literal seg
  else if openCount ≠ closeCount then .error (unbalancedBrace seg)
  else
    let open1 := seg.idxOf (ch '{')
    let close1 := seg.idxOf (ch '}')
    if close1 < open1 then .error (unbalancedBrace seg)
    else if 2 ≤ openCount then
      if charIndexFrom (ch '{') seg (close1 + 1) =
        some (close1 + 1) then .error (adjacentParameters seg)
      else .error (literalSeparatedParameters seg)
    else
      let pre := seg.take open1
      let content := (seg.take close1).drop (open1 + 1)
      let suf := seg.drop (close1 + 1)
      if ch '{' ∈ pre ∨ ch '}' ∈ pre ∨ ch '{' ∈ suf ∨ ch '}' ∈ suf then .error (unbalancedBrace seg)
      else
        let (name, greedy) := splitGreedy content
        if name = [] then .error (emptyParameterName seg) else .param pre name suf greedy

def splitPathSegments : List JsStr :=
  if path = [] ∨ path = js "/" then []
  else
    let path := if path.head? = some (ch '/') then path.tail else path
    if path = [] then [] else path.splitOn (ch '/')

/-! ### Literals -/

/-- A literal whose characters lie below the surrogates. -/
def BasicText (s : String) : Prop := (s.toList.all fun c => decide (c.toNat < 0xD800)) = true

instance (s : String) : Decidable (BasicText s) := inferInstanceAs (Decidable (_ = true))

theorem ch_toNat {c} (hc : c.toNat < 0x10000) : (ch c).toNat = cp c := by
  rw [ch, UInt16.toNat_ofNat', Nat.mod_eq_of_lt hc, cp]

theorem BasicText.lt {s} (hs : BasicText s) {c} (hc : c ∈ s.toList) : c.toNat < 0xD800 :=
  of_decide_eq_true (all_eq_true.mp hs c hc)

theorem BasicText.plain {s} (hs : BasicText s) : ∀ u ∈ js s, Plain u := by
  intro u hu
  obtain ⟨c, hc, rfl⟩ := mem_map.mp hu
  have hlt := hs.lt hc
  have hnat : (ch c).toNat = c.toNat := ch_toNat (by omega)
  refine ⟨decide_eq_false ?_, decide_eq_false ?_⟩ <;> omega

theorem BasicText.map_toNat {s} (hs : BasicText s) : (js s).map UInt16.toNat = lit s := by
  rw [js, map_map, lit]
  refine map_congr_left fun c hc => ?_
  have hlt := hs.lt hc
  exact ch_toNat (by omega)

theorem codePoints_segmentReason {kind advice} (hkind : BasicText kind) (hadv : BasicText advice)
    (hne : js advice ≠ []) : codePoints (segmentReason kind seg advice) =
      lit kind ++ codePoints seg ++ lit advice ++ Firewall.segmentErrorHint := by
  have hhint : codePoints errorHint = Firewall.segmentErrorHint := by decide +kernel
  rw [segmentReason, append_assoc, append_assoc, codePoints_plain_append hkind.plain,
    hkind.map_toNat, codePoints_append_plain hadv.plain hne, hadv.map_toNat, hhint]
  simp

theorem codePoints_unbalancedBrace :
    codePoints (unbalancedBrace seg) = Firewall.unbalancedBrace (codePoints seg) :=
  codePoints_segmentReason seg (by decide) (by decide) (by decide)

theorem codePoints_adjacentParameters :
    codePoints (adjacentParameters seg) = Firewall.adjacentParameters (codePoints seg) :=
  codePoints_segmentReason seg (by decide) (by decide) (by decide)

theorem codePoints_literalSeparatedParameters :
    codePoints (literalSeparatedParameters seg) = Firewall.literalSeparatedParameters
      (codePoints seg) :=
  codePoints_segmentReason seg (by decide) (by decide) (by decide)

theorem codePoints_emptyParameterName :
    codePoints (emptyParameterName seg) = Firewall.emptyParameterName (codePoints seg) :=
  codePoints_segmentReason seg (by decide) (by decide) (by decide)

/-! ### Searching -/

/-- A text without surrogates starts a text as it starts its code points. -/
theorem isPrefixOf_codePoints {sub : JsStr} (hsub : ∀ u ∈ sub, Plain u) (s : JsStr) :
    (sub.map UInt16.toNat).isPrefixOf (codePoints s) = sub.isPrefixOf s := by
  induction sub generalizing s with
  | nil => simp
  | cons c sub ih =>
    obtain ⟨hc, hrest⟩ := forall_mem_cons.mp hsub
    cases s with
    | nil => rfl
    | cons u s =>
      by_cases hu : c = u
      · subst hu
        rw [codePoints_cons hc.1, map_cons, isPrefixOf_cons_cons_self, isPrefixOf_cons_cons_self,
          ih hrest]
      · -- the first code point is another one
        have hne : (codePoints (u :: s)).head? ≠ some c.toNat := by
          rw [Ne, head?_codePoints hc]
          simpa using Ne.symm hu
        cases hpoints : codePoints (u :: s) with
        | nil => rw [codePoints_eq_nil] at hpoints; cases hpoints
        | cons p rest =>
          rw [hpoints, head?_cons, Ne, Option.some.injEq] at hne
          rw [map_cons, List.isPrefixOf, List.isPrefixOf, beq_eq_false_iff_ne.mpr (Ne.symm hne),
            beq_eq_false_iff_ne.mpr hu]
          rfl

/-- **A plain text is found at the same place.** -/
theorem indexOf_codePoints {sub : JsStr} (hsub : ∀ u ∈ sub, Plain u) (hne : sub ≠ []) (s : JsStr) :
    findSub (sub.map UInt16.toNat) (codePoints s) = (indexOf sub s).map fun i =>
      (codePoints (s.take i)).length := by
  have hne' : sub.map UInt16.toNat ≠ [] := by simpa using hne
  fun_induction codePoints s with
  | case1 => rw [findSub, indexOf, if_neg hne', if_neg hne]; rfl
  | case2 u =>
    have hpre := isPrefixOf_codePoints hsub [u]
    rw [codePoints] at hpre
    rw [findSub, indexOf, hpre]
    split
    · rfl
    · rw [findSub, indexOf, if_neg hne', if_neg hne]
      rfl
  | case3 u v rest hpair ih =>
    have hpre := isPrefixOf_codePoints hsub (u :: v :: rest)
    obtain ⟨c, sub', rfl⟩ := exists_cons_of_ne_nil hne
    obtain ⟨hcu, hcv⟩ := ne_of_pair (hsub c mem_cons_self) hpair
    have hu : (c :: sub').isPrefixOf (u :: v :: rest) = false := by simp [List.isPrefixOf, hcu.symm]
    have hv : (c :: sub').isPrefixOf (v :: rest) = false := by simp [List.isPrefixOf, hcv.symm]
    rw [codePoints, if_pos hpair] at hpre
    rw [findSub, hpre, hu, if_neg Bool.false_ne_true, ih, indexOf, hu, if_neg Bool.false_ne_true,
      indexOf, hv, if_neg Bool.false_ne_true, Option.map_map, Option.map_map, Option.map_map]
    refine congrFun (congrArg Option.map (funext fun i => ?_)) _
    show (codePoints (rest.take i)).length + 1 = (codePoints (u :: v :: rest.take i)).length
    rw [codePoints, if_pos hpair, length_cons]
  | case4 u v rest hpair ih =>
    have hpre := isPrefixOf_codePoints hsub (u :: v :: rest)
    rw [codePoints, if_neg hpair] at hpre
    rw [findSub, hpre, indexOf]
    split
    · rfl
    · rw [ih, Option.map_map, Option.map_map]
      refine congrFun (congrArg Option.map (funext fun i => ?_)) _
      show (codePoints ((v :: rest).take i)).length + 1 =
        (codePoints (u :: (v :: rest).take i)).length
      cases i with
      | zero => rfl
      | succ i =>
        rw [take_succ_cons]
        rw [codePoints.eq_3 u v, if_neg hpair, length_cons]

/-! ### What both sides see of a text -/

theorem hasRawWhitespace_codePoints :
    Firewall.hasRawWhitespace (codePoints s) = hasRawWhitespace s := by
  have hplain : ∀ c ∈ [ch ' ', ch '\t', ch '\n', ch '\r', 0x0C, 0x0B], Plain c :=
    plain_of_all (by decide)
  have hchars : [ch ' ', ch '\t', ch '\n', ch '\r', 0x0C, 0x0B].map UInt16.toNat =
    Firewall.rawWhitespaceChars := by
    decide
  rw [Bool.eq_iff_iff, Firewall.hasRawWhitespace, hasRawWhitespace, any_eq_true, any_eq_true,
    ← hchars]
  simp only [decide_eq_true_eq]
  constructor
  · rintro ⟨p, hp, hmem⟩
    obtain ⟨c, hc, rfl⟩ := mem_map.mp hmem
    exact ⟨c, (mem_codePoints (hplain c hc)).mp hp, hc⟩
  · rintro ⟨c, hc, hmem⟩
    exact ⟨c.toNat, (mem_codePoints (hplain c hmem)).mpr hc, mem_map_of_mem hmem⟩

/-- The loop over the units finds the unsafe code points. -/
theorem hasUnsafeUrlCodepoint_eq :
    hasUnsafeUrlCodepoint s = (codePoints s).any unsafeUrlCodepoint := by
  fun_induction codePoints s with
  | case1 => rfl
  | case2 u =>
    rw [hasUnsafeUrlCodepoint, any_cons, any_nil, Bool.or_false]
    simp only [unsafeUrlCodepoint, isHighSurrogate, isLowSurrogate, ← Bool.decide_or,
      decide_eq_decide]
    omega
  | case3 u v rest hpair ih =>
    obtain ⟨hu, hv⟩ := Bool.and_eq_true_iff.mp hpair
    obtain ⟨hu₁, hu₂⟩ := of_decide_eq_true hu
    have hsafe : unsafeUrlCodepoint (pairCodePoint u v) = false := by
      refine decide_eq_false ?_
      unfold pairCodePoint
      omega
    rw [hasUnsafeUrlCodepoint, if_neg (by omega), if_pos hu, if_pos hv, ih, any_cons, hsafe,
      Bool.false_or]
  | case4 u v rest hpair ih =>
    rw [any_cons, ← ih, hasUnsafeUrlCodepoint]
    -- a surrogate that is not paired is unsafe by itself
    by_cases hctrl : u.toNat < 0x20 ∨ u.toNat = 0x7F
    · have hcontrolChar : unsafeUrlCodepoint u.toNat := decide_eq_true (by omega)
      rw [if_pos hctrl, hcontrolChar, Bool.true_or]
    · rw [if_neg hctrl]
      by_cases hsurr : 0xD800 ≤ u.toNat ∧ u.toNat ≤ 0xDFFF
      · have hcontrolChar : unsafeUrlCodepoint u.toNat := decide_eq_true (by omega)
        rw [hcontrolChar, Bool.true_or]
        split
        case isTrue hhigh =>
          have hlow : isLowSurrogate v = false := by
            rw [hhigh, Bool.true_and, Bool.not_eq_true] at hpair
            exact hpair
          rw [hlow, if_neg Bool.false_ne_true]
        case isFalse hhigh =>
          have hlow : isLowSurrogate u := by
            refine decide_eq_true ?_
            have hhigh' := of_decide_eq_false (Bool.not_eq_true _ ▸ hhigh)
            omega
          rw [if_pos hlow]
      · have hsafe : unsafeUrlCodepoint u.toNat = false := decide_eq_false (by omega)
        have hhigh : isHighSurrogate u = false := decide_eq_false (by omega)
        have hlow : isLowSurrogate u = false := decide_eq_false (by omega)
        rw [hsafe, hhigh, hlow, Bool.false_or, if_neg Bool.false_ne_true, if_neg Bool.false_ne_true]

/-- The addon's library, with what is known of `str.isprintable`: the printable ASCII characters
are those from the space to the tilde, and surrogates are not printable. -/
structure CodepointLib extends PyLib where
  isPrintable_ascii : ∀ c < 128, isPrintable c = decide (0x20 ≤ c ∧ c < 0x7F)
  isPrintable_surrogate : ∀ c, 0xD800 ≤ c → c ≤ 0xDFFF → isPrintable c = false

/-- The library on ASCII texts. -/
def asciiLib : CodepointLib where
  toPyLib := Firewall.plainLib
  isPrintable_ascii _ _ := rfl
  isPrintable_surrogate _ h _ := decide_eq_false (by omega)

theorem hasUnsafeUrlCodepoint_codePoints (py : CodepointLib) (s : JsStr) :
    Firewall.hasUnsafeUrlCodepoint py.toPyLib (codePoints s) = hasUnsafeUrlCodepoint s := by
  rw [Firewall.hasUnsafeUrlCodepoint_eq _ py.isPrintable_ascii py.isPrintable_surrogate,
    hasUnsafeUrlCodepoint_eq]

theorem splitPathSegments_codePoints :
    Firewall.splitPathSegments (codePoints path) = (splitPathSegments path).map codePoints := by
  have hslash : Plain (ch '/') := by decide
  have hroot : codePoints path = lit "/" ↔ path = js "/" := by
    rw [show lit "/" = codePoints (js "/") by decide]
    exact codePoints_injective.eq_iff
  have hhead : (codePoints path).head? = some (cp '/') ↔ path.head? = some (ch '/') :=
    head?_codePoints hslash
  have hsplit : ∀ rest : JsStr, (if codePoints rest = [] then []
      else (codePoints rest).splitOn (cp '/')) =
      (if rest = [] then [] else rest.splitOn (ch '/')).map codePoints := by
    intro rest
    by_cases hempty : rest = []
    · rw [if_pos hempty, if_pos (codePoints_eq_nil.mpr hempty), map_nil]
    · rw [if_neg hempty, if_neg (mt codePoints_eq_nil.mp hempty)]
      exact splitOn_codePoints hslash rest
  unfold Firewall.splitPathSegments splitPathSegments
  simp only [codePoints_eq_nil, hroot, hhead]
  split
  · rfl
  · split
    case isTrue hstart =>
      -- the path without its leading slash
      obtain ⟨rest, rfl⟩ := head?_eq_some_iff.mp hstart
      rw [codePoints_cons hslash.1]
      exact hsplit rest
    case isFalse => exact hsplit path

/-! ### Both sides parse a segment alike -/

/-- A segment of the package and a segment of the addon are the same. -/
inductive SameSegment : SegmentParseResult → ParsedSegment → Prop
  | literal (value : JsStr) : SameSegment (.literal value) (.literal (codePoints value))
  | param (pre name suf : JsStr) (greedy : Greedy) :
      SameSegment (.param pre name suf greedy)
        (.param (codePoints pre) (codePoints name) (codePoints suf) greedy)
  | error (reason : JsStr) (pre suf : PyStr) :
    SameSegment (.error reason) (.error (codePoints reason) pre suf)

theorem SameSegment.ite {p} [Decidable p] {a b a' b'}
    (ha : p → SameSegment a a') (hb : ¬p → SameSegment b b') :
    SameSegment (if p then a else b) (if p then a' else b') := by
  split
  · next h => exact ha h
  · next h => exact hb h

theorem splitGreedy_codePoints : Firewall.splitGreedy (codePoints content) =
    (codePoints (splitGreedy content).1, (splitGreedy content).2) := by
  have hplainPlus : Plain (ch '+') := by decide
  have hplainStar : Plain (ch '*') := by decide
  have hplus : (codePoints content).getLast? = some (cp '+') ↔ content.getLast? = some (ch '+') :=
    getLast?_codePoints hplainPlus
  have hstar : (codePoints content).getLast? = some (cp '*') ↔ content.getLast? = some (ch '*') :=
    getLast?_codePoints hplainStar
  have hdrop : ∀ {c : UInt16}, Plain c → content.getLast? = some c →
      (codePoints content).dropLast = codePoints content.dropLast := by
    intro c hc hlast
    obtain ⟨a, rfl⟩ := getLast?_eq_some_iff.mp hlast
    rw [codePoints_concat hc, dropLast_concat, dropLast_concat]
  unfold Firewall.splitGreedy splitGreedy
  simp only [hplus, hstar]
  split
  case isTrue hlast => rw [hdrop hplainPlus hlast]
  case isFalse =>
    split
    case isTrue hlast => rw [hdrop hplainStar hlast]
    case isFalse => rfl

section Braces

variable {α : Type} {x y : α} {a c d : List α}

/-- Where the two braces stand, in a text that is cut at the first of each. -/
theorem idxOf_braces [DecidableEq α] (hxy : x ≠ y) (hxa : x ∉ a) (hya : y ∉ a) (hyc : y ∉ c) :
    (a ++ x :: (c ++ y :: d)).idxOf x = a.length ∧
    (a ++ x :: (c ++ y :: d)).idxOf y = a.length + (1 + c.length) := by
  refine ⟨?_, ?_⟩
  · rw [idxOf_append_of_notMem hxa, idxOf_cons_self, Nat.add_zero]
  · rw [idxOf_append_of_notMem hya, idxOf_cons_ne _ hxy, idxOf_append_of_notMem hyc,
      idxOf_cons_self, Nat.succ_eq_one_add]

/-- What stands before, between and after the two braces. -/
theorem slices_braces : (a ++ x :: (c ++ y :: d)).take a.length = a ∧
    ((a ++ x :: (c ++ y :: d)).take (a.length + (1 + c.length))).drop (a.length + 1) = c ∧
      (a ++ x :: (c ++ y :: d)).drop (a.length + (1 + c.length) + 1) = d := by
  refine ⟨take_left, ?_, ?_⟩
  · rw [take_length_add_append, drop_length_add_append, Nat.add_comm 1, take_succ_cons,
      drop_succ_cons, drop_zero, take_left]
  · rw [Nat.add_assoc, drop_length_add_append, Nat.add_comm 1, drop_succ_cons,
      drop_length_add_append, drop_succ_cons, drop_zero]

/-- A closing brace that stands before the first opening one. -/
theorem idxOf_late [DecidableEq α] (hxa : x ∉ a) (hya : y ∈ a) :
    (a ++ x :: c).idxOf y < (a ++ x :: c).idxOf x := by
  rw [idxOf_append_of_mem hya, idxOf_append_of_notMem hxa, idxOf_cons_self, Nat.add_zero]
  exact idxOf_lt_length_of_mem hya

/-- A closing brace stands before the first opening one, or the text is cut at the first of each. -/
theorem braces_cases {s} (hx : x ∈ s) (hy : y ∈ s) (hxy : x ≠ y) :
    (∃ a b, s = a ++ x :: b ∧ x ∉ a ∧ y ∈ a) ∨ ∃ a c d, s = a ++ x :: (c ++ y :: d) ∧ x ∉ a ∧
      y ∉ a ∧ y ∉ c := by
  obtain ⟨a, b, rfl, ha⟩ := eq_append_cons_of_mem hx
  by_cases hya : y ∈ a
  · exact .inl ⟨a, b, rfl, ha, hya⟩
  · have hyb : y ∈ b := by
      rcases mem_append.mp hy with h | h
      · exact absurd h hya
      · exact (mem_cons.mp h).resolve_left (Ne.symm hxy)
    obtain ⟨c, d, rfl, hc⟩ := eq_append_cons_of_mem hyb
    exact .inr ⟨a, c, d, rfl, ha, hya, hc⟩

/-- A search finds the character at the place where it starts, or it does not. -/
theorem idxOf?_eq_start [DecidableEq α] (rest : List α) (start : ℕ) :
    (rest.idxOf? x).map (start + ·) = some start ↔ rest.head? = some x := by
  cases rest with
  | nil => simp
  | cons z rest => by_cases hz : z = x <;> simp [idxOf?_cons]

end Braces

/-- **Both sides parse a segment alike.** -/
theorem parseSegment_same : SameSegment (parseSegment seg)
    (Firewall.parseSegment (codePoints seg)) := by
  have hopen : Plain (ch '{') := by decide
  have hclose : Plain (ch '}') := by decide
  have hopenCount : (codePoints seg).count (cp '{') = seg.count (ch '{') := count_codePoints hopen
  have hcloseCount : (codePoints seg).count (cp '}') = seg.count (ch '}') := count_codePoints hclose
  unfold parseSegment Firewall.parseSegment
  simp only [hopenCount, hcloseCount]
  split
  case isTrue => exact .literal seg
  case isFalse hbrac =>
    split
    case isTrue => exact codePoints_unbalancedBrace seg ▸ .error _ _ _
    case isFalse hbal =>
      have hmemOpen : ch '{' ∈ seg := count_pos_iff.mp (by omega)
      have hmemClose : ch '}' ∈ seg := count_pos_iff.mp (by omega)
      rcases braces_cases hmemOpen hmemClose (by decide) with ⟨a, b, rfl, ha, ha'⟩ | ⟨a, c, d, rfl,
        ha, ha', hc⟩
      · -- the texts are cut at the same brace
        have hlate : (codePoints (a ++ ch '{' :: b)).idxOf (cp '}') <
          (codePoints (a ++ ch '{' :: b)).idxOf (cp '{') := by
          rw [codePoints_append_cons hopen]
          exact idxOf_late (mt (mem_codePoints hopen).mp ha) ((mem_codePoints hclose).mpr ha')
        rw [if_pos (idxOf_late ha ha'), if_pos hlate, ← codePoints_unbalancedBrace]
        exact .error _ _ _
      · have hpoints : codePoints (a ++ ch '{' :: (c ++ ch '}' :: d)) =
            codePoints a ++ cp '{' :: (codePoints c ++ cp '}' :: codePoints d) := by
          rw [codePoints_append_cons hopen, codePoints_append_cons hclose]
          rfl
        have hmem : ∀ s : JsStr, (cp '{' ∈ codePoints s ↔ ch '{' ∈ s) ∧
          (cp '}' ∈ codePoints s ↔ ch '}' ∈ s) :=
          fun s => ⟨mem_codePoints hopen, mem_codePoints hclose⟩
        obtain ⟨hopenAt, hcloseAt⟩ := idxOf_braces (d := d) (by decide) ha ha' hc
        obtain ⟨hpre, hcont, hsuf⟩ := slices_braces (x := ch '{') (y := ch '}') (a := a) (c := c)
          (d := d)
        obtain ⟨hopenAt', hcloseAt'⟩ := idxOf_braces (x := cp '{') (y := cp '}')
          (d := codePoints d) (by decide)
          (mt (hmem a).1.mp ha) (mt (hmem a).2.mp ha') (mt (hmem c).2.mp hc)
        obtain ⟨hpre', hcont', hsuf'⟩ := slices_braces (x := cp '{') (y := cp '}')
          (a := codePoints a)
          (c := codePoints c) (d := codePoints d)
        rw [← hpoints] at hopenAt' hcloseAt' hpre' hcont' hsuf'
        have hhead : (codePoints d).head? = some (cp '{') ↔ d.head? = some (ch '{') :=
          head?_codePoints hopen
        simp only [charIndexFrom, Firewall.findFrom, idxOf?_eq_start, hopenAt, hcloseAt, hopenAt',
          hcloseAt', hpre,
          hcont, hsuf, hpre', hcont', hsuf', hmem, hhead, splitGreedy_codePoints, codePoints_eq_nil]
        have hlate : ¬a.length + (1 + c.length) < a.length := by omega
        have hlate' : ¬(codePoints a).length + (1 + (codePoints c).length) <
          (codePoints a).length := by omega
        rw [if_neg hlate, if_neg hlate']
        refine .ite (fun _ => .ite (fun _ => ?_) fun _ => ?_) fun _ => .ite (fun _ => ?_) fun _ =>
          .ite (fun _ => ?_) fun _ => .param _ _ _ _
        · exact codePoints_adjacentParameters _ ▸ .error _ _ _
        · exact codePoints_literalSeparatedParameters _ ▸ .error _ _ _
        · exact codePoints_unbalancedBrace _ ▸ .error _ _ _
        · exact codePoints_emptyParameterName _ ▸ .error _ _ _

end Okou.Connectors
