import Mathlib.Data.List.Forall2

/-!
# Computations that refuse

What a computation in `Except` needs to succeed, step by step.
-/

namespace Okou

open List

variable {ε α β : Type}

/-- Go on if a condition holds. -/
def require (c : Prop) [Decidable c] (message : ε) : Except ε Unit :=
  if c then .ok () else .error message

variable {message : ε} {x : Except ε α} {f : α → Except ε β}

variable {c : Prop}

@[simp] theorem require_eq_ok [Decidable c] {u} : require c message = .ok u ↔ c := by
  unfold require
  split
  case isTrue h => exact ⟨fun _ => h, fun _ => rfl⟩
  case isFalse h => exact ⟨nofun, fun hc => absurd hc h⟩

/-- A computation behind a check that refuses. -/
theorem refuse_eq_ok [Decidable c] {a} : (if c then .error message else x) = .ok a ↔ ¬c ∧
    x = .ok a := by
  split
  case isTrue h => exact ⟨nofun, fun hc => absurd h hc.1⟩
  case isFalse h => exact ⟨fun hx => ⟨h, hx⟩, And.right⟩

theorem exists_eq_ok {p} (h : x.toOption.any p) : ∃ a, x = .ok a ∧ p a := by
  cases x with
  | error e => cases h
  | ok a => exact ⟨a, rfl, h⟩

/-- Two steps succeed if both do. -/
theorem bind_eq_ok {b} : (x >>= f) = .ok b ↔ ∃ a, x = .ok a ∧ f a = .ok b := by
  cases x with
  | error e => exact ⟨nofun, fun ⟨_, h, _⟩ => nomatch h⟩
  | ok a => exact ⟨fun h => ⟨a, rfl, h⟩, fun ⟨_, h, h'⟩ => Except.ok.inj h ▸ h'⟩

/-- A condition and a step. -/
theorem require_bind_eq_ok [Decidable c] {f} {b : β} : (require c message >>= f) = .ok b ↔ c ∧
    f () = .ok b := by
  rw [bind_eq_ok]
  exact ⟨fun ⟨_, hc, h⟩ => ⟨require_eq_ok.mp hc, h⟩, fun ⟨hc, h⟩ => ⟨(), require_eq_ok.mpr hc, h⟩⟩

variable {l : List α} {bs : List β}

/-- The steps over a list succeed if each of them does. -/
theorem mapM_eq_ok : l.mapM f = .ok bs ↔ List.Forall₂ (fun a b => f a = .ok b) l bs := by
  induction l generalizing bs with
  | nil =>
    rw [mapM_nil, List.forall₂_nil_left_iff]
    exact ⟨fun h => (Except.ok.inj h).symm, fun h => congrArg Except.ok h.symm⟩
  | cons a l ih =>
    rw [mapM_cons, bind_eq_ok]
    constructor
    · rintro ⟨b, hb, h⟩
      obtain ⟨rest, hrest, ⟨⟩⟩ := bind_eq_ok.mp h
      exact .cons hb (ih.mp hrest)
    · rintro (_ | ⟨hb, hrest⟩)
      exact ⟨_, hb, bind_eq_ok.mpr ⟨_, ih.mpr hrest, rfl⟩⟩

/-- The steps over a list, where each of them is a function behind a guard. -/
theorem mapM_eq_ok_map {P : α → Prop} {g : α → β} (hf : ∀ a b, f a = .ok b ↔ P a ∧ b = g a) :
    l.mapM f = .ok bs ↔ (∀ a ∈ l, P a) ∧ bs = l.map g := by
  rw [mapM_eq_ok]
  induction l generalizing bs with
  | nil =>
    rw [List.forall₂_nil_left_iff]
    exact ⟨fun h => ⟨forall_mem_nil _, h⟩, fun h => h.2⟩
  | cons a l ih =>
    rw [forall_mem_cons, map_cons]
    constructor
    · rintro (_ | ⟨hb, hrest⟩)
      obtain ⟨ha, rfl⟩ := (hf a _).mp hb
      obtain ⟨hl, rfl⟩ := ih.mp hrest
      exact ⟨⟨ha, hl⟩, rfl⟩
    · rintro ⟨⟨ha, hl⟩, rfl⟩
      exact .cons ((hf a _).mpr ⟨ha, rfl⟩) (ih.mpr ⟨hl, rfl⟩)

end Okou
