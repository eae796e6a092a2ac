import Mathlib.Data.UInt

/-!
# Texts in UTF-16

A text as a list of 16-bit units, as the strings of JavaScript are, and its code points.
Surrogates that are not paired stand for themselves, so that every list of units is a text.

Cutting a text at a unit that is no surrogate, such as an ASCII character, cuts its code
points: searching and splitting can be done on either side.
-/

namespace Okou

open List

variable (u : UInt16)

/-- A unit that opens a surrogate pair. -/
def isHighSurrogate (u : UInt16) : Bool := decide (0xD800 ≤ u.toNat ∧ u.toNat ≤ 0xDBFF)

/-- A unit that closes a surrogate pair. -/
def isLowSurrogate (u : UInt16) : Bool := decide (0xDC00 ≤ u.toNat ∧ u.toNat ≤ 0xDFFF)

/-- The code point of a surrogate pair. -/
def pairCodePoint (high low : UInt16) : ℕ :=
  0x10000 + (high.toNat - 0xD800) * 0x400 + (low.toNat - 0xDC00)

/-- The code points of a text. -/
def codePoints : List UInt16 → List ℕ
  | [] => []
  | [u] => [u.toNat]
  | u :: v :: rest =>
    if isHighSurrogate u && isLowSurrogate v then pairCodePoint u v :: codePoints rest
    else u.toNat :: codePoints (v :: rest)

/-- The units of a code point. -/
def utf16 (c : ℕ) : List UInt16 :=
  if c < 0x10000 then [UInt16.ofNat c]
  else [UInt16.ofNat (0xD800 + (c - 0x10000) / 0x400),
    UInt16.ofNat (0xDC00 + (c - 0x10000) % 0x400)]

/-- A unit that is no surrogate. -/
def Plain (u : UInt16) : Prop := isHighSurrogate u = false ∧ isLowSurrogate u = false

instance (u : UInt16) : Decidable (Plain u) :=
  inferInstanceAs (Decidable (isHighSurrogate u = false ∧ isLowSurrogate u = false))

theorem plain_of_all {l : List UInt16} (h : l.all fun u => Plain u) : ∀ u ∈ l, Plain u :=
  fun u hu => of_decide_eq_true (all_eq_true.mp h u hu)

/-! ### Units and code points -/

theorem utf16_toNat : utf16 u.toNat = [u] := by
  rw [utf16, if_pos u.toNat_lt, UInt16.ofNat_toNat]

variable {v : UInt16} {u}

theorem utf16_pairCodePoint (hu : isHighSurrogate u) (hv : isLowSurrogate v) :
    utf16 (pairCodePoint u v) = [u, v] := by
  obtain ⟨hu₁, hu₂⟩ := of_decide_eq_true hu
  obtain ⟨hv₁, hv₂⟩ := of_decide_eq_true hv
  have hoffs : pairCodePoint u v - 0x10000 = (v.toNat - 0xDC00) + 0x400 * (u.toNat - 0xD800) := by
    unfold pairCodePoint
    omega
  have hlarge : ¬pairCodePoint u v < 0x10000 := by
    unfold pairCodePoint
    omega
  rw [utf16, if_neg hlarge, hoffs, Nat.add_mul_div_left _ _ (by decide), Nat.add_mul_mod_self_left,
    Nat.div_eq_of_lt (by omega), Nat.mod_eq_of_lt (by omega), Nat.zero_add, Nat.add_sub_cancel' hu₁,
    Nat.add_sub_cancel' hv₁, UInt16.ofNat_toNat, UInt16.ofNat_toNat]

/-- A text is the units of its code points. -/
theorem flatMap_utf16_codePoints (s) : (codePoints s).flatMap utf16 = s := by
  fun_induction codePoints s with
  | case1 => rfl
  | case2 u => rw [flatMap_singleton, utf16_toNat]
  | case3 u v rest hpair ih =>
    obtain ⟨hu, hv⟩ := Bool.and_eq_true_iff.mp hpair
    rw [flatMap_cons, ih, utf16_pairCodePoint hu hv]
    rfl
  | case4 u v rest _ ih =>
    rw [flatMap_cons, ih, utf16_toNat]
    rfl

theorem codePoints_injective : Function.Injective codePoints := by
  intro s t h
  rw [← flatMap_utf16_codePoints s, h, flatMap_utf16_codePoints]

@[simp] theorem codePoints_eq_nil {s} : codePoints s = [] ↔ s = [] :=
  ⟨fun h => codePoints_injective h, fun h => h ▸ rfl⟩

/-! ### Cutting a text -/

variable {c : UInt16}

theorem codePoints_cons (hc : isHighSurrogate c = false) (s) :
    codePoints (c :: s) = c.toNat :: codePoints s := by
  cases s with
  | nil => rfl
  | cons v rest =>
    rw [codePoints, hc]
    rfl

/-- **Code points are cut where the text is cut**, at a unit that is no surrogate. -/
theorem codePoints_append_cons (hc : Plain c) (a b) :
    codePoints (a ++ c :: b) = codePoints a ++ c.toNat :: codePoints b := by
  fun_induction codePoints a with
  | case1 => exact codePoints_cons hc.1 b
  | case2 u =>
    show codePoints (u :: c :: b) = u.toNat :: c.toNat :: codePoints b
    rw [codePoints, hc.2, Bool.and_false, if_neg Bool.false_ne_true, codePoints_cons hc.1]
  | case3 u v rest hpair ih =>
    show codePoints (u :: v :: (rest ++ c :: b)) = _
    rw [codePoints, if_pos hpair, ih]
    rfl
  | case4 u v rest hpair ih =>
    show codePoints (u :: v :: (rest ++ c :: b)) = _
    rw [codePoints, if_neg hpair]
    exact congrArg (u.toNat :: ·) ih

theorem codePoints_concat (hc : Plain c) (a) :
    codePoints (a ++ [c]) = codePoints a ++ [c.toNat] := codePoints_append_cons hc a []

theorem codePoints_plain_append {a} (ha : ∀ u ∈ a, Plain u) (b) :
    codePoints (a ++ b) = a.map UInt16.toNat ++ codePoints b := by
  induction a with
  | nil => rfl
  | cons u a ih =>
    obtain ⟨hu, ha⟩ := forall_mem_cons.mp ha
    rw [cons_append, codePoints_cons hu.1, ih ha, map_cons, cons_append]

/-- A text without surrogates in the middle of a text. -/
theorem codePoints_append_plain {m} (hm : ∀ u ∈ m, Plain u) (hne : m ≠ []) (a b) :
    codePoints (a ++ (m ++ b)) = codePoints a ++ (m.map UInt16.toNat ++ codePoints b) := by
  obtain ⟨u, m, rfl⟩ := exists_cons_of_ne_nil hne
  have hu : Plain u := hm u mem_cons_self
  rw [cons_append, codePoints_append_cons hu, ← codePoints_cons hu.1, ← cons_append,
    codePoints_plain_append hm]

/-! ### Searching -/

section Search

variable {c : UInt16} {s : List UInt16}

theorem toNat_ne_pair (u v : UInt16) : c.toNat ≠ pairCodePoint u v := by
  have hlt := c.toNat_lt
  unfold pairCodePoint
  omega

theorem toNat_ne_of_ne (h : u ≠ c) : u.toNat ≠ c.toNat := fun heq => h (UInt16.toNat_inj.mp heq)

variable (hc : Plain c)

include hc

/-- A unit of a pair is no other unit. -/
theorem ne_of_pair (hpair : isHighSurrogate u && isLowSurrogate v) : u ≠ c ∧ v ≠ c := by
  obtain ⟨hu, hv⟩ := Bool.and_eq_true_iff.mp hpair
  refine ⟨?_, ?_⟩
  · rintro rfl
    rw [hc.1] at hu
    cases hu
  · rintro rfl
    rw [hc.2] at hv
    cases hv

theorem count_codePoints : (codePoints s).count c.toNat = s.count c := by
  fun_induction codePoints s with
  | case1 => rfl
  | case2 u => by_cases hu : u = c <;> simp [hu, toNat_ne_of_ne]
  | case3 u v rest hpair ih =>
    obtain ⟨hu, hv⟩ := ne_of_pair hc hpair
    rw [count_cons_of_ne (Ne.symm (toNat_ne_pair u v)), ih, count_cons_of_ne hu,
      count_cons_of_ne hv]
  | case4 u v rest _ ih =>
    rw [count_cons, ih, count_cons (l := v :: rest)]
    by_cases hu : u = c <;> simp [hu, toNat_ne_of_ne]

theorem mem_codePoints : c.toNat ∈ codePoints s ↔ c ∈ s := by
  rw [← count_pos_iff, count_codePoints hc, count_pos_iff]

omit hc in
/-- A class of characters below the surrogates: the units are in it if the code points are. -/
theorem all_codePoints {f} (hf : ∀ p, f p → p < 0xD800) (s) :
    (codePoints s).all f = s.all fun u => f u.toNat := by
  have hout : ∀ p, 0xD800 ≤ p → f p = false := fun p hp =>
    Bool.eq_false_iff.mpr fun h => absurd (hf p h) (by omega)
  fun_induction codePoints s with
  | case1 => rfl
  | case2 u => rfl
  | case3 u v rest hpair ih =>
    have hu := of_decide_eq_true (Bool.and_eq_true_iff.mp hpair).1
    have hpoint : 0xD800 ≤ pairCodePoint u v := by
      unfold pairCodePoint
      omega
    rw [all_cons, all_cons, hout _ hpoint, hout _ hu.1, Bool.false_and, Bool.false_and]
  | case4 u v rest _ ih => rw [all_cons, ih, all_cons (l := v :: rest)]

/-- What a text starts with. -/
theorem head?_codePoints : (codePoints s).head? = some c.toNat ↔ s.head? = some c := by
  fun_cases codePoints s with
  | case1 => simp
  | case2 u => simp [UInt16.toNat_inj]
  | case3 u v rest hpair =>
    have hne := (ne_of_pair hc hpair).1
    have hpoint := toNat_ne_pair (c := c) u v
    simp [hne, hpoint.symm]
  | case4 u v rest => simp [UInt16.toNat_inj]

/-- What a text ends with. -/
theorem getLast?_codePoints : (codePoints s).getLast? = some c.toNat ↔ s.getLast? = some c := by
  constructor
  · intro hlast
    obtain ⟨a, ha⟩ := getLast?_eq_some_iff.mp hlast
    have hmem : c ∈ s := (mem_codePoints hc).mp (ha ▸ mem_append_right _ mem_cons_self)
    -- the text after the last place where the unit stands has no code points
    obtain ⟨front, back, hs, hback⟩ := eq_append_cons_of_mem (mem_reverse.mpr hmem)
    have hsplit : s = back.reverse ++ c :: front.reverse := by
      rw [← reverse_reverse s, hs]
      simp
    rw [hsplit, codePoints_append_cons hc] at ha
    have hempty : codePoints front.reverse = [] := by
      by_contra hne
      have hlast' : c.toNat ∈ codePoints front.reverse := by
        have := congrArg List.getLast? ha
        rw [getLast?_append, getLast?_cons, getLast?_concat] at this
        obtain ⟨x, hx⟩ := Option.ne_none_iff_exists'.mp (mt getLast?_eq_none_iff.mp hne)
        rw [hx] at this
        simp only [Option.some_or, Option.some.injEq] at this
        exact this ▸ mem_of_getLast? hx
      exact hback (mem_reverse.mp ((mem_codePoints hc).mp hlast'))
    rw [hsplit, codePoints_eq_nil.mp hempty, getLast?_concat]
  · intro hlast
    obtain ⟨a, rfl⟩ := getLast?_eq_some_iff.mp hlast
    rw [codePoints_concat hc, getLast?_concat]

/-- **Splitting a text splits its code points.** -/
theorem splitOn_codePoints (s) : (codePoints s).splitOn c.toNat = (s.splitOn c).map codePoints := by
  by_cases hmem : c ∈ s
  · -- at the first place where the unit stands
    obtain ⟨a, b, hs, ha⟩ := eq_append_cons_of_mem hmem
    have ha' : c.toNat ∉ codePoints a := mt (mem_codePoints hc).mp ha
    rw [hs, codePoints_append_cons hc, splitOn_append_cons_self_of_not_mem ha,
      splitOn_append_cons_self_of_not_mem ha', splitOn_codePoints b, map_cons]
  · have hmem' : c.toNat ∉ codePoints s := mt (mem_codePoints hc).mp hmem
    rw [splitOn_eq_singleton hmem, splitOn_eq_singleton hmem', map_singleton]
termination_by s.length

end Search

end Okou
