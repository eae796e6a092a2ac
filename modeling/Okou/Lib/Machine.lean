import Mathlib.Init

/-!
# Runs of a guarded machine

A machine takes events; an event that is not enabled in a state leads nowhere.
An invariant that holds at the start and survives every enabled event holds
after every run.
-/

namespace Okou

variable {σ ε : Type*} {step : σ → ε → Option σ}

/-- The state after a list of events, if each was enabled in its turn. -/
def runEvents (step : σ → ε → Option σ) : σ → List ε → Option σ
  | s, [] => some s
  | s, e :: es => (step s e).bind fun s' => runEvents step s' es

theorem runEvents_append (s : σ) (es fs) :
    runEvents step s (es ++ fs) = (runEvents step s es).bind fun s' => runEvents step s' fs := by
  induction es generalizing s with
  | nil => rfl
  | cons e es ih =>
    simp only [List.cons_append, runEvents]
    cases step s e with
    | none => rfl
    | some s' => exact ih s'

variable {s s' : σ} {es : List ε}

/-- **What every enabled event preserves, every run preserves.** -/
theorem runEvents_invariant (Inv : σ → Prop) (hstep : ∀ s e s', Inv s → step s e = some s' → Inv s')
    (hs : Inv s) (hrun : runEvents step s es = some s') : Inv s' := by
  induction es generalizing s with
  | nil =>
    cases hrun
    exact hs
  | cons e es ih =>
    obtain ⟨t, ht, hrest⟩ := Option.bind_eq_some_iff.mp hrun
    exact ih (hstep s e t hs ht) hrest

variable {x : Option σ} {Q : σ → Prop}

/-- A run that can be evaluated: `P` is checked of the state it ends in, and `Q` follows. -/
theorem exists_run (P : σ → Prop) [DecidablePred P]
    (hx : x.any (fun s => P s)) (h : ∀ s, x = some s → P s → Q s) : ∃ s, x = some s ∧ Q s := by
  obtain ⟨s, hs, hP⟩ := (Option.any_eq_true _ _).mp hx
  exact ⟨s, hs, h s hs (of_decide_eq_true hP)⟩

theorem exists_run_and {P : σ → Prop} [DecidablePred P]
    (hx : x.any (fun s => P s)) (h : ∀ s, x = some s → P s → Q s) : ∃ s, x = some s ∧ P s ∧ Q s :=
  exists_run P hx fun s hs hP => ⟨hP, h s hs hP⟩

/-- A condition on events that each event of a run meets where it happens. -/
def holdsAlong (step : σ → ε → Option σ) (P : σ → ε → Prop) : σ → List ε → Prop
  | _, [] => True
  | s, e :: es => P s e ∧ ∀ s' ∈ step s e, holdsAlong step P s' es

variable {P : σ → ε → Prop}

theorem holdsAlong_append (s : σ) (es fs) : holdsAlong step P s (es ++ fs) ↔
    holdsAlong step P s es ∧ ∀ s', runEvents step s es = some s' → holdsAlong step P s' fs := by
  induction es generalizing s with
  | nil => simp [holdsAlong, runEvents]
  | cons e es ih =>
    simp only [List.cons_append, holdsAlong, runEvents, Option.bind_eq_some_iff, ih]
    constructor
    · rintro ⟨he, hrest⟩
      exact ⟨⟨he, fun s' hs' => (hrest s' hs').1⟩, fun t ⟨s', hs', ht⟩ => (hrest s' hs').2 t ht⟩
    · rintro ⟨⟨he, hes⟩, hfs⟩
      exact ⟨he, fun s' hs' => ⟨hes s' hs', fun t ht => hfs t ⟨s', hs', ht⟩⟩⟩

instance decidableHoldsAlong (step : σ → ε → Option σ)
    (P : σ → ε → Prop) [∀ s e, Decidable (P s e)] :
    ∀ (s : σ) (es : List ε), Decidable (holdsAlong step P s es)
  | _, [] => .isTrue trivial
  | s, e :: es =>
    have (s' : σ) : Decidable (holdsAlong step P s' es) := decidableHoldsAlong step P s' es
    inferInstanceAs (Decidable (P s e ∧ ∀ s' ∈ step s e, holdsAlong step P s' es))

/-- **What every event that meets a condition preserves, a run of such events preserves.** -/
theorem runEvents_invariant_along (Inv : σ → Prop) (hstep : ∀ s e s', Inv s → P s e →
    step s e = some s' → Inv s')
    (hs : Inv s) (halong : holdsAlong step P s es) (hrun : runEvents step s es = some s') :
      Inv s' := by
  induction es generalizing s with
  | nil =>
    cases hrun
    exact hs
  | cons e es ih =>
    obtain ⟨t, ht, hrest⟩ := Option.bind_eq_some_iff.mp hrun
    exact ih (hstep s e t hs halong.1 ht) (halong.2 t ht) hrest

end Okou
