import Mathlib.Data.List.Basic

/-!
# Parsers that walk an offset over a payload

A parser takes a payload and an offset, and gives a value and the offset after it.  What
a parser accepts is stated as a grammar: `p.Reads R` says that `p` succeeds with a value
exactly where some text stands for it, `R a text rest` being the rule for a value, its
text and what follows.  Rules compose as parsers do, so the grammar of a decoder is read
off its steps.
-/

namespace Okou

open List

/-- A parser: from a payload and an offset to a value and the offset after it. -/
def Parse (τ ε α : Type) : Type := List τ → ℕ → Except ε (α × ℕ)

namespace Parse

variable {τ ε α β : Type}

instance : Monad (Parse τ ε) where
  pure a := fun _ off => .ok (a, off)
  bind p f := fun payload off =>
    match p payload off with
    | .error e => .error e
    | .ok (a, off') => f a payload off'

/-- Stop with an error. -/
def fail (e : ε) : Parse τ ε α := fun _ _ => .error e

/-- Stop with an error if a condition holds. -/
def refuse (c : Prop) [Decidable c] (e : ε) : Parse τ ε Unit := if c then fail e else pure ()

/-- How much of the payload is left. -/
def remaining : Parse τ ε ℕ := fun payload off => .ok (payload.length - off, off)

/-- The same parser a number of times. -/
def times (p : Parse τ ε α) : ℕ → Parse τ ε (List α)
  | 0 => pure []
  | n + 1 => do
    let a ← p
    let rest ← times p n
    return a :: rest

variable {payload : List τ} {p : Parse τ ε α} {f : α → Parse τ ε β} {R : α → List τ → List τ → Prop}

variable {a : α} {off off' : ℕ}

theorem pure_eq_ok {b} : (pure a : Parse τ ε α) payload off = .ok (b, off') ↔ b = a ∧
    off' = off := by
  show Except.ok (a, off) = .ok (b, off') ↔ _
  rw [Except.ok.injEq, Prod.mk.injEq, eq_comm, @eq_comm _ off]

theorem bind_eq_ok {b} : (p >>= f) payload off = .ok (b, off') ↔
      ∃ a mid, p payload off = .ok (a, mid) ∧ f a payload mid = .ok (b, off') := by
  simp only [bind]
  cases hp : p payload off with
  | error e => exact ⟨nofun, fun ⟨_, _, h, _⟩ => nomatch h⟩
  | ok out =>
    obtain ⟨a, mid⟩ := out
    constructor
    · intro h
      exact ⟨a, mid, rfl, h⟩
    · rintro ⟨a', mid', h, h'⟩
      cases h
      exact h'

/-! ### Grammars -/

/-- The parser succeeds with a value exactly where its text stands: `R a text rest` relates
the value, its text and what follows. -/
def Reads (p : Parse τ ε α) (R : α → List τ → List τ → Prop) : Prop :=
  ∀ payload off, off ≤ payload.length → ∀ a off', p payload off = .ok (a, off') ↔
    ∃ text rest, payload.drop off = text ++ rest ∧ off' = off + text.length ∧ R a text rest

/-- The grammar of an encoding: every value of a kind, whatever follows it. -/
def Codes (p : Parse τ ε α) (enc : α → List τ) (P : α → Prop) : Prop :=
  p.Reads fun a text _ => P a ∧ text = enc a

variable {R' : α → List τ → List τ → Prop}

theorem Reads.congr (h : p.Reads R) (hR : ∀ a text rest, R a text rest ↔ R' a text rest) :
    p.Reads R' := by
  intro payload off hoff a off'
  simp only [h payload off hoff, hR]

theorem Reads.pure (a : α) : (pure a : Parse τ ε α).Reads fun b text _ => b = a ∧ text = [] := by
  intro payload off hoff b off'
  rw [pure_eq_ok]
  constructor
  · rintro ⟨rfl, rfl⟩
    exact ⟨[], _, rfl, rfl, rfl, rfl⟩
  · rintro ⟨text, rest, -, rfl, rfl, rfl⟩
    exact ⟨rfl, rfl⟩

theorem Reads.fail (e : ε) : (fail e : Parse τ ε α).Reads fun _ _ _ => False := by
  intro payload off hoff a off'
  exact ⟨nofun, fun ⟨_, _, _, _, h⟩ => h.elim⟩

/-- Two parsers in a row read two texts in a row. -/
theorem Reads.bind {R' : α → β → List τ → List τ → Prop} (hp : p.Reads R)
    (hf : ∀ a, (f a).Reads (R' a)) : (p >>= f).Reads fun b text rest =>
      ∃ a x y, text = x ++ y ∧ R a x (y ++ rest) ∧ R' a b y rest := by
  intro payload off hoff b off'
  have hle {x later : List τ} (hx : payload.drop off = x ++ later) :
    off + x.length ≤ payload.length := by
    have hlen := congrArg List.length hx
    rw [length_drop, length_append] at hlen
    omega
  rw [bind_eq_ok]
  constructor
  · rintro ⟨a, mid, ha, hb⟩
    obtain ⟨x, later, hx, rfl, hR⟩ := (hp payload off hoff a mid).mp ha
    obtain ⟨y, rest, hy, rfl, hR'⟩ := (hf a payload _ (hle hx) b off').mp hb
    have hlater : later = y ++ rest := by
      rw [← hy, ← drop_drop, hx, drop_left]
    refine ⟨x ++ y, rest, ?_, ?_, a, x, y, rfl, hlater ▸ hR, hR'⟩
    · rw [hx, hlater, append_assoc]
    · rw [length_append, Nat.add_assoc]
  · rintro ⟨text, rest, htext, rfl, a, x, y, rfl, hR, hR'⟩
    rw [append_assoc] at htext
    have hy : payload.drop (off + x.length) = y ++ rest := by
      rw [← drop_drop, htext, drop_left]
    refine ⟨a, off + x.length, ?_, ?_⟩
    · exact (hp payload off hoff a _).mpr ⟨x, y ++ rest, htext, rfl, hR⟩
    · refine (hf a payload _ (hle htext) b _).mpr ⟨y, rest, hy, ?_, hR'⟩
      rw [length_append, Nat.add_assoc]

variable {enc : α → List τ} {P : α → Prop}

theorem Codes.bind {R : α → β → List τ → List τ → Prop} (hp : p.Codes enc P)
    (hf : ∀ a, (f a).Reads (R a)) :
    (p >>= f).Reads fun b text rest => ∃ a y, text = enc a ++ y ∧ P a ∧ R a b y rest := by
  refine (Reads.bind hp hf).congr fun b text rest => ?_
  constructor
  · rintro ⟨a, x, y, rfl, ⟨hP, rfl⟩, hR⟩
    exact ⟨a, y, rfl, hP, hR⟩
  · rintro ⟨a, y, rfl, hP, hR⟩
    exact ⟨a, enc a, y, rfl, ⟨hP, rfl⟩, hR⟩

theorem Reads.refuse {c} [Decidable c] {e} (h : p.Reads R) :
    (do refuse c e; p : Parse τ ε α).Reads fun a text rest => ¬c ∧ R a text rest := by
  intro payload off hoff a off'
  rw [bind_eq_ok]
  by_cases hc : c
  · rw [Parse.refuse, if_pos hc]
    constructor
    · rintro ⟨_, _, hfail, -⟩
      cases hfail
    · rintro ⟨_, _, _, _, hc', -⟩
      exact absurd hc hc'
  · simp only [hc, not_false_eq_true, true_and, ← h payload off hoff]
    constructor
    · rintro ⟨_, _, hpure, ha⟩
      cases hpure
      exact ha
    · intro ha
      exact ⟨(), off, rfl, ha⟩

theorem Reads.ite {c} [Decidable c] {q} (hp : p.Reads R) (hq : q.Reads R') :
    (if c then p else q).Reads fun a text rest => if c then R a text rest else R' a text rest := by
  by_cases hc : c
  · simpa only [if_pos hc] using hp
  · simpa only [if_neg hc] using hq

/-- A parser that first looks at how much is left. -/
theorem Reads.remaining {f : ℕ → Parse τ ε α} {R : ℕ → α → List τ → List τ → Prop}
    (h : ∀ n, (f n).Reads (R n)) :
    (Parse.remaining >>= f).Reads fun a text rest => R (text.length + rest.length) a text rest := by
  intro payload off hoff a off'
  rw [bind_eq_ok]
  constructor
  · rintro ⟨_, _, hleft, hf⟩
    cases hleft
    obtain ⟨text, rest, htext, rfl, hR⟩ := (h _ payload off hoff a off').mp hf
    refine ⟨text, rest, htext, rfl, ?_⟩
    dsimp only
    rwa [← length_append, ← htext, length_drop]
  · rintro ⟨text, rest, htext, rfl, hR⟩
    refine ⟨payload.length - off, off, rfl, ?_⟩
    refine (h _ payload off hoff a _).mpr ⟨text, rest, htext, rfl, ?_⟩
    rwa [← length_append, ← htext, length_drop] at hR

/-- A counted list of values, one after the other. -/
theorem Codes.times (h : p.Codes enc P) (n : ℕ) :
    (p.times n).Codes (fun l => l.flatMap enc) fun l => l.length = n ∧ ∀ a ∈ l, P a := by
  induction n with
  | zero =>
    refine (Reads.pure []).congr fun l text rest => ?_
    constructor
    · rintro ⟨rfl, rfl⟩
      exact ⟨⟨rfl, nofun⟩, rfl⟩
    · rintro ⟨⟨hlen, -⟩, rfl⟩
      obtain rfl := eq_nil_of_length_eq_zero hlen
      exact ⟨rfl, rfl⟩
  | succ n ih =>
    refine (h.bind fun a => ih.bind fun rest => Reads.pure (a :: rest)).congr fun l text rest => ?_
    constructor
    · rintro ⟨a, y, rfl, hP, as, z, rfl, ⟨hlen, hall⟩, rfl, rfl⟩
      exact ⟨⟨congrArg (· + 1) hlen, forall_mem_cons.mpr ⟨hP, hall⟩⟩, by simp⟩
    · rintro ⟨⟨hlen, hall⟩, rfl⟩
      cases l with
      | nil => cases hlen
      | cons a as =>
        obtain ⟨hP, hall⟩ := forall_mem_cons.mp hall
        refine ⟨a, as.flatMap enc, flatMap_cons, hP, as, [], ?_, ⟨Nat.succ.inj hlen, hall⟩, rfl,
          rfl⟩
        rw [append_nil]

/-- A parser on a whole payload. -/
theorem Reads.map_fst (h : p.Reads R) : (p payload 0).map Prod.fst = .ok a ↔
      ∃ text rest, payload = text ++ rest ∧ R a text rest := by
  have hrun : (p payload 0).map Prod.fst = .ok a ↔ ∃ off, p payload 0 = .ok (a, off) := by
    cases p payload 0 with
    | error e => exact ⟨nofun, nofun⟩
    | ok out =>
      obtain ⟨a', off⟩ := out
      constructor
      · intro hfst
        cases hfst
        exact ⟨off, rfl⟩
      · rintro ⟨_, hok⟩
        cases hok
        rfl
  simp only [hrun, h payload 0 (Nat.zero_le _)]
  constructor
  · rintro ⟨_, text, rest, htext, -, hR⟩
    exact ⟨text, rest, htext, hR⟩
  · rintro ⟨text, rest, htext, hR⟩
    exact ⟨_, text, rest, htext, rfl, hR⟩

/-- A parser that takes the whole payload. -/
theorem Reads.map_fst_whole (h : p.Reads fun a text rest => P a ∧ text = enc a ∧ rest = [])
    : (p payload 0).map Prod.fst = .ok a ↔ P a ∧ payload = enc a := by
  rw [h.map_fst]
  constructor
  · rintro ⟨_, _, rfl, hP, rfl, rfl⟩
    exact ⟨hP, append_nil _⟩
  · rintro ⟨hP, rfl⟩
    exact ⟨enc a, [], (append_nil _).symm, hP, rfl, rfl⟩

end Parse
end Okou
