import Okou.Lib.Bytes
import Okou.Lib.Except

/-!
# The nesting guard of JSON bodies

`json_nesting_within_limit` counts brackets before a body is given to a recursive parser.  It is
no validator, so it is followed over texts wider than JSON: closed strings, brackets that match,
and any other bytes between them.
-/

namespace Okou.Usage

open List

/-- Where the scan stands: outside strings, in one, or behind a backslash in one. -/
inductive ScanMode
  | outside
  | string
  | escape

/-- The loops of the guard over the unread bytes.  A backslash consumes the next byte, even a
quote; a string that does not end is refused. -/
def scanNesting (maxDepth : ℤ) : ScanMode → ℤ → Bytes → Bool
  | .outside, _, [] => true
  | .string, _, [] => false
  | .escape, _, [] => false
  | .outside, depth, token :: rest =>
    if token = 0x22 then scanNesting maxDepth .string depth rest
    else if token = 0x7b ∨ token = 0x5b then
      if maxDepth < depth + 1 then false else scanNesting maxDepth .outside (depth + 1) rest
    else if token = 0x7d ∨ token = 0x5d then scanNesting maxDepth .outside (depth - 1) rest
    else scanNesting maxDepth .outside depth rest
  | .string, depth, byte :: rest =>
    if byte = 0x22 then scanNesting maxDepth .outside depth rest
    else if byte = 0x5c then scanNesting maxDepth .escape depth rest
    else scanNesting maxDepth .string depth rest
  | .escape, depth, _ :: rest => scanNesting maxDepth .string depth rest

def jsonNestingWithinLimit (body : Bytes) (maxDepth : ℤ) : Except String Bool := do
  require (0 < maxDepth) "max_depth must be a positive integer"
  if body.count 0x7b + body.count 0x5b ≤ maxDepth then return true
  return scanNesting maxDepth .outside 0 body

/-! ### Texts and their nesting -/

/-- What a string has between its quotes. -/
inductive StringBody : Bytes → Prop
  | nil : StringBody []
  | plain {b s} : b ≠ 0x22 → b ≠ 0x5c → StringBody s → StringBody (b :: s)
  | escape {b s} : StringBody s → StringBody (0x5c :: b :: s)

def opener (object : Bool) : UInt8 := if object then 0x7b else 0x5b

def closer (object : Bool) : UInt8 := if object then 0x7d else 0x5d

/-- A text whose strings and containers are closed, and how deep its containers are nested. -/
inductive Nested : ℕ → Bytes → Prop
  | nil : Nested 0 []
  | quiet {b} : b ∉ [0x22, 0x7b, 0x5b, 0x7d, 0x5d] → Nested 0 [b]
  | string {s} : StringBody s → Nested 0 (0x22 :: (s ++ [0x22]))
  | container {n s} (object : Bool) : Nested n s →
    Nested (n + 1) (opener object :: (s ++ [closer object]))
  | append {n k s t} : Nested n s → Nested k t → Nested (max n k) (s ++ t)

/-- The bytes of numbers and literal names. -/
def scalarBytes : Bytes := "+-.0123456789Eaeflnrstu".toList.map fun c => .ofNat c.toNat

def blanks : Bytes := [0x20, 0x09, 0x0a, 0x0d]

inductive JsonPart
  | key
  | value
  | items (object : Bool)

/-- The grammar of JSON, with any run of their bytes as a scalar, and the nesting of a text. -/
inductive Json : JsonPart → ℕ → Bytes → Prop
  | scalar {s} : s ≠ [] → s ⊆ scalarBytes → Json .value 0 s
  | key {s} : StringBody s → Json .key 0 (0x22 :: (s ++ [0x22]))
  | string {s} : Json .key 0 s → Json .value 0 s
  | empty {w} object : w ⊆ blanks → Json .value 1 (opener object :: (w ++ [closer object]))
  | container {n s} object : Json (.items object) n s →
    Json .value (n + 1) (opener object :: (s ++ [closer object]))
  | pad {part n w s v} : w ⊆ blanks → Json part n s → v ⊆ blanks → Json part n (w ++ s ++ v)
  | element {n s} : Json .value n s → Json (.items false) n s
  | member {n key s} : Json .key 0 key → Json .value n s → Json (.items true) n (key ++ [0x3a] ++ s)
  | more {object n k s t} : Json (.items object) n s → Json (.items object) k t →
    Json (.items object) (max n k) (s ++ [0x2c] ++ t)

/-- A text that stands inside `n` containers. -/
inductive Inside : ℕ → Bytes → Prop
  | start {k s} : Nested k s → Inside 0 s
  | enter {n p k s} (object : Bool) : Inside n p → Nested k s →
    Inside (n + 1) (p ++ opener object :: s)

theorem nested_quiet {l s : Bytes} (hl : ∀ b ∈ l, b ∉ [0x22, 0x7b, 0x5b, 0x7d, 0x5d]) (hs : s ⊆ l) :
    Nested 0 s := by
  induction s with
  | nil => exact .nil
  | cons b s ih => exact (Nested.quiet (hl b (hs mem_cons_self))).append (ih fun c hc =>
    hs (mem_cons_of_mem _ hc))

theorem Json.nested {part n s} (h : Json part n s) : Nested n s := by
  have hblank {w} (hw : w ⊆ blanks) : Nested 0 w := nested_quiet (by decide +kernel) hw
  induction h with
  | scalar _ hs => exact nested_quiet (by decide +kernel) hs
  | key hs => exact .string hs
  | string _ ih | element _ ih => exact ih
  | empty _ hw => exact .container _ (hblank hw)
  | container _ _ ih => exact .container _ ih
  | pad hw _ hv ih => simpa using ((hblank hw).append ih).append (hblank hv)
  | member _ _ ihk ih => simpa using (ihk.append (.quiet (by decide))).append ih
  | more _ _ ihs iht => simpa using (ihs.append (.quiet (by decide))).append iht

/-! ### The scan of a text -/

variable {m : ℤ} {n : ℕ} {s p : Bytes} {object : Bool}

theorem StringBody.scan (h : StringBody s) (d : ℤ) (r : Bytes) :
    scanNesting m .string d (s ++ 0x22 :: r) = scanNesting m .outside d r := by
  induction h with
  | nil => rfl
  | plain hquote hslash _ ih => rw [cons_append, scanNesting, if_neg hquote, if_neg hslash, ih]
  | escape _ ih => exact ih

theorem scan_opener (d : ℤ) (r : Bytes) : scanNesting m .outside d (opener object :: r) =
    (decide (d + 1 ≤ m) && scanNesting m .outside (d + 1) r) := by
  have hstep : scanNesting m .outside d (opener object :: r) =
      if m < d + 1 then false else scanNesting m .outside (d + 1) r := by
    cases object <;> rfl
  rw [hstep]
  by_cases hin : d + 1 ≤ m
  · rw [if_neg (Int.not_lt.mpr hin), decide_eq_true hin, Bool.true_and]
  · rw [if_pos (Int.not_le.mp hin), decide_eq_false hin, Bool.false_and]

/-- **The scan passes over a text if its nesting fits**, at whatever depth it stands. -/
theorem Nested.scan (h : Nested n s) {d : ℤ} (hd : d ≤ m) (r : Bytes) :
    scanNesting m .outside d (s ++ r) = (decide (d + n ≤ m) && scanNesting m .outside d r) := by
  induction h generalizing d r with
  | nil => simp [hd]
  | quiet hb =>
    simp only [mem_cons, not_mem_nil, or_false, not_or] at hb
    rw [singleton_append, scanNesting, if_neg hb.1, if_neg (by tauto), if_neg (by tauto)]
    simp [hd]
  | string hs =>
    rw [cons_append, append_assoc, scanNesting, if_pos rfl, singleton_append, hs.scan]
    simp [hd]
  | @container n s object _ ih =>
    have hclose : scanNesting m .outside (d + 1)
      (closer object :: r) = scanNesting m .outside (d + 1 - 1) r := by
      cases object <;> rfl
    rw [cons_append, scan_opener, append_assoc]
    by_cases hin : d + 1 ≤ m
    · rw [ih hin, singleton_append, hclose, add_sub_cancel_right, decide_eq_true hin, Bool.true_and,
        Nat.cast_succ, add_right_comm, add_assoc]
    · rw [decide_eq_false hin, decide_eq_false (by omega), Bool.false_and, Bool.false_and]
  | append _ _ ihs iht =>
    rw [append_assoc, ihs hd, iht hd, ← Bool.and_assoc, ← Bool.decide_and]
    congr 2
    rw [eq_iff_iff]
    omega

/-- A text inside more containers than fit is not passed. -/
theorem Inside.scan (h : Inside n p) (hm : 0 ≤ m) (r : Bytes)
    (hscan : scanNesting m .outside 0 (p ++ r)) : n ≤ m ∧ scanNesting m .outside n r := by
  induction h generalizing r with
  | start hs =>
    rw [hs.scan hm, Bool.and_eq_true] at hscan
    exact ⟨hm, hscan.2⟩
  | enter object _ hs ih =>
    rw [append_assoc, cons_append] at hscan
    obtain ⟨-, hrest⟩ := ih _ hscan
    rw [scan_opener, Bool.and_eq_true, decide_eq_true_eq] at hrest
    have hin := hs.scan hrest.1 r ▸ hrest.2
    rw [Bool.and_eq_true] at hin
    exact ⟨hrest.1, hin.2⟩

/-! ### The openers of a text -/

/-- Where the scan stands behind a byte. -/
def ScanMode.next : ScanMode → UInt8 → ScanMode
  | .outside, byte => if byte = 0x22 then .string else .outside
  | .string, byte => if byte = 0x22 then .outside else if byte = 0x5c then .escape else .string
  | .escape, _ => .string

/-- A text that does not end within a string. -/
def OutsideStrings (p : Bytes) : Prop := p.foldl ScanMode.next .outside = .outside

/-- The beginnings of a string's body do not end the string. -/
theorem StringBody.next_ne (h : StringBody s) {q : Bytes} (hq : q <+: s) :
    q.foldl ScanMode.next .string ≠ .outside := by
  induction h generalizing q with
  | nil =>
    rw [prefix_nil.mp hq]
    simp
  | plain hquote hslash _ ih =>
    rcases prefix_cons_iff.mp hq with rfl | ⟨q, rfl, hrest⟩
    · simp
    · simpa [ScanMode.next, hquote, hslash] using ih hrest
  | escape _ ih =>
    rcases prefix_cons_iff.mp hq with rfl | ⟨q, rfl, hrest⟩
    · simp
    · rcases prefix_cons_iff.mp hrest with rfl | ⟨q, rfl, hbody⟩
      · simp [ScanMode.next]
      · simpa [ScanMode.next] using ih hbody

theorem StringBody.next_eq (h : StringBody s) : s.foldl ScanMode.next .string = .string := by
  induction h with
  | nil => rfl
  | plain hquote hslash _ ih => simpa [ScanMode.next, hquote, hslash] using ih
  | escape _ ih => exact ih

theorem Nested.outsideStrings (h : Nested n s) : OutsideStrings s := by
  unfold OutsideStrings
  induction h with
  | nil => rfl
  | quiet hb =>
    simp only [mem_cons, not_or] at hb
    simp [ScanMode.next, hb.1]
  | string hs => simp [ScanMode.next, hs.next_eq]
  | container object _ ih => cases object <;> simp [ScanMode.next, opener, closer, ih]
  | append _ _ ihs iht => rw [foldl_append, ihs, iht]

theorem Inside.cons_opener (object : Bool) (h : Inside n p) :
    Inside (n + 1) (opener object :: p) := by
  induction h with
  | start hs => exact .enter object (.start .nil) hs
  | enter object' _ hs ih => exact .enter object' ih hs

theorem Inside.append_left {k : ℕ} (hs : Nested k s) (h : Inside n p) : Inside n (s ++ p) := by
  induction h with
  | start ht => exact .start (hs.append ht)
  | enter object _ ht ih =>
    rw [← append_assoc]
    exact .enter object ih ht

/-- **What stands before a bracket of a text is inside some containers**, if the bracket is not in a
string. -/
theorem Nested.inside (h : Nested n s) (hp : p <+: s) (hout : OutsideStrings p) :
    ∃ k, Inside k p := by
  induction h generalizing p with
  | nil =>
    rw [prefix_nil.mp hp]
    exact ⟨0, .start .nil⟩
  | quiet hb =>
    rcases prefix_cons_iff.mp hp with rfl | ⟨q, rfl, hq⟩
    · exact ⟨0, .start .nil⟩
    · rw [prefix_nil.mp hq]
      exact ⟨0, .start (.quiet hb)⟩
  | string hs =>
    rcases prefix_cons_iff.mp hp with rfl | ⟨q, rfl, hq⟩
    · exact ⟨0, .start .nil⟩
    · rcases prefix_concat_iff.mp hq with rfl | hq
      · exact ⟨0, .start (.string hs)⟩
      · exact absurd hout (hs.next_ne hq)
  | @container k s object hs ih =>
    rcases prefix_cons_iff.mp hp with rfl | ⟨q, rfl, hq⟩
    · exact ⟨0, .start .nil⟩
    · rcases prefix_concat_iff.mp hq with rfl | hq
      · exact ⟨0, .start (.container object hs)⟩
      · obtain ⟨k, hk⟩ := ih hq (by cases object <;> exact hout)
        exact ⟨k + 1, hk.cons_opener object⟩
  | @append n k s t hs _ ihs iht =>
    rcases prefix_or_prefix_of_prefix hp (prefix_append s t) with hp | ⟨q, rfl⟩
    · exact ihs hp hout
    · rw [OutsideStrings, foldl_append, hs.outsideStrings] at hout
      obtain ⟨k, hk⟩ := iht ((prefix_append_right_inj s).mp hp) hout
      exact ⟨k, hk.append_left hs⟩

/-! ### The count of the fast path -/

theorem Nested.le_count (h : Nested n s) : n ≤ s.count 0x7b + s.count 0x5b := by
  induction h with
  | nil | quiet | string => exact Nat.zero_le _
  | container object _ ih =>
    cases object <;> simp [opener, closer] <;> omega
  | append _ _ ihs iht =>
    rw [count_append, count_append]
    omega

theorem Inside.le_count (h : Inside n p) : n ≤ p.count 0x7b + p.count 0x5b := by
  induction h with
  | start => exact Nat.zero_le _
  | enter object _ _ ih =>
    cases object <;> simp [opener] <;> omega

theorem jsonNestingWithinLimit_iff {body : Bytes} (hm : 1 ≤ m) :
    jsonNestingWithinLimit body m = .ok true ↔
    body.count 0x7b + body.count 0x5b ≤ m ∨ scanNesting m .outside 0 body := by
  have hpos : 0 < m := hm
  simp only [jsonNestingWithinLimit, require, if_pos hpos]
  by_cases hcount : (body.count 0x7b + body.count 0x5b : ℤ) ≤ m <;> simp [hcount, bind, Except.bind,
    pure, Except.pure]

/-- **The guard is exact on JSON, and where it passes, no container is opened beyond the limit**,
whatever stands behind the bracket that opens one. -/
theorem jsonNesting_guards (body : Bytes) (maxDepth : ℤ) (hmax : 1 ≤ maxDepth) :
    (∀ n, Json .value n body → (jsonNestingWithinLimit body maxDepth = .ok true ↔ n ≤ maxDepth)) ∧
    (jsonNestingWithinLimit body maxDepth = .ok true →
      ∀ n p object, Inside n p → p ++ [opener object] <+: body → n + 1 ≤ maxDepth) := by
  rw [jsonNestingWithinLimit_iff hmax]
  refine ⟨fun n hn => ?_, ?_⟩
  · have hcount := hn.nested.le_count
    have hscan := hn.nested.scan (m := maxDepth) (d := 0) (by omega) []
    rw [append_nil, zero_add, show scanNesting maxDepth .outside 0 [] = true from rfl,
      Bool.and_true] at hscan
    rw [hscan, decide_eq_true_eq]
    omega
  · rintro (hcount | hscan) n p object hp ⟨r, rfl⟩
    · have hle := hp.le_count
      cases object <;> simp [opener] at hcount <;> omega
    · rw [append_assoc, singleton_append] at hscan
      obtain ⟨-, hopen⟩ := hp.scan (by omega) _ hscan
      rw [scan_opener, Bool.and_eq_true, decide_eq_true_eq] at hopen
      exact hopen.1

/-- Brackets in a string do not count. -/
theorem jsonNesting_guards_string : jsonNestingWithinLimit [0x5b, 0x22, 0x5b, 0x5b, 0x22, 0x5d] 1 =
  .ok true := ((jsonNesting_guards _ 1 (by decide)).1 1 (.container false (.element
    (.string (.key (.plain (by decide) (by decide) (.plain (by decide) (by decide) .nil))))))).mpr
      (by decide)

end Okou.Usage
