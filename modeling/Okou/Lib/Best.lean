import Mathlib.Data.List.MinMax

/-!
# Keeping the best, with ties

Running through a list and keeping the entries of the highest score seen so far:
a better score starts over, an equal one is added, a worse one is passed over.
-/

namespace Okou

open List

variable {α β : Type*} [LinearOrder β] (score : α → β) (l : List α)

/-- One turn of the loop: the best score so far, and its entries. -/
def keepBest (state : Option β × List α) (a : α) : Option β × List α :=
  match state.1 with
  | none => (some (score a), [a])
  | some best =>
    if best < score a then (some (score a), [a])
    else if score a < best then state
    else (some best, state.2 ++ [a])

/-- The highest score of a list. -/
def bestScore (l : List α) : Option β := (l.map score).max?

/-- The entries of the highest score. -/
def bestEntries (l : List α) : List α := l.filter fun a =>
    decide (some (score a) = bestScore score l)

variable {score l}

theorem bestScore_eq_none : bestScore score l = none ↔ l = [] := by
  rw [bestScore, max?_eq_none_iff, map_eq_nil_iff]

theorem bestScore_eq_some {best : β} :
    bestScore score l = some best ↔ (∃ a ∈ l, score a = best) ∧ ∀ a ∈ l, score a ≤ best := by
  rw [bestScore, max?_eq_some_iff]
  simp

/-- The best entries are those that no entry beats. -/
theorem mem_bestEntries {a : α} : a ∈ bestEntries score l ↔ a ∈ l ∧ ∀ b ∈ l, score b ≤ score a := by
  rw [bestEntries, mem_filter, decide_eq_true_eq, eq_comm, bestScore_eq_some]
  exact and_congr_right fun ha => ⟨fun h => h.2, fun h => ⟨⟨a, ha, rfl⟩, h⟩⟩

variable (score) in
/-- What one more entry does to the best score. -/
theorem bestScore_append_singleton (l) (a : α) : bestScore score (l ++ [a]) =
      some (match bestScore score l with
        | none => score a
        | some best => max best (score a)) := by
  cases hbest : bestScore score l with
  | none =>
    rw [bestScore_eq_none] at hbest
    rw [hbest]
    rfl
  | some best =>
    obtain ⟨⟨b, hb, hscore⟩, hmax⟩ := bestScore_eq_some.mp hbest
    rw [bestScore_eq_some]
    constructor
    · rcases le_total best (score a) with hle | hle
      · exact ⟨a, by simp, (max_eq_right hle).symm⟩
      · exact ⟨b, by simp [hb], hscore.trans (max_eq_left hle).symm⟩
    · exact forall_mem_append.mpr ⟨fun c hc => (hmax c hc).trans (le_max_left _ _),
        forall_mem_singleton.mpr (le_max_right _ _)⟩

variable (score) in
/-- One turn, from the best of a list to the best of the list with one more entry. -/
theorem keepBest_best (l) (a : α) : keepBest score (bestScore score l, bestEntries score l) a =
      (bestScore score (l ++ [a]), bestEntries score (l ++ [a])) := by
  have hnext := bestScore_append_singleton score l a
  cases hbest : bestScore score l with
  | none =>
    have hnil := bestScore_eq_none.mp hbest
    subst hnil
    simp [keepBest, bestEntries, bestScore]
  | some best =>
    have hmax := (bestScore_eq_some.mp hbest).2
    simp only [hbest] at hnext
    unfold keepBest bestEntries
    simp only [hnext, filter_append]
    by_cases hlt : best < score a
    · -- a new best: the old entries all score less
      have hold : (l.filter fun b => some (score b) = some (max best (score a))) = [] := by
        rw [filter_eq_nil_iff]
        intro b hb
        rw [max_eq_right hlt.le, decide_eq_true_eq, Option.some.injEq]
        exact (lt_of_le_of_lt (hmax b hb) hlt).ne
      rw [if_pos hlt, hold]
      simp [max_eq_right hlt.le]
    · have hle := not_lt.mp hlt
      rw [if_neg hlt, max_eq_left hle, hbest]
      by_cases hgt : score a < best
      · rw [if_pos hgt]
        simp [hgt.ne]
      · have heq : score a = best := le_antisymm hle (not_lt.mp hgt)
        simp [heq]

end Okou
