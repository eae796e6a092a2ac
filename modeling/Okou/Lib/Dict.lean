import Mathlib.Algebra.BigOperators.Group.List.Basic
import Mathlib.Data.List.Induction
import Mathlib.Data.List.Nodup

/-!
# Ordered dictionaries

Association lists that keep the order in which their keys were first inserted,
as the dictionaries of scripting languages do.
-/

namespace Okou

open List

variable {κ ν : Type*} [DecidableEq κ]

/-- The value of a key. -/
def dictGet (k : κ) : List (κ × ν) → Option ν
  | [] => none
  | (k', v) :: d => if k' = k then some v else dictGet k d

/-- Insert a key, or replace its value where it stands. -/
def dictSet (k : κ) (v : ν) : List (κ × ν) → List (κ × ν)
  | [] => [(k, v)]
  | (k', v') :: d => if k' = k then (k, v) :: d else (k', v') :: dictSet k v d

/-- Take a key out. -/
def dictErase (k : κ) (d : List (κ × ν)) : List (κ × ν) := d.filter fun entry =>
    decide (entry.1 ≠ k)

/-- Change the value of a key where it stands; a missing key starts from `d₀`. -/
def dictModify (k : κ) (d₀ : ν) (f : ν → ν) : List (κ × ν) → List (κ × ν)
  | [] => [(k, f d₀)]
  | (k', v) :: d => if k' = k then (k, f v) :: d else (k', v) :: dictModify k d₀ f d

/-- The entries of `e` put over those of `d`, in order. -/
def dictMerge (d e : List (κ × ν)) : List (κ × ν) :=
  e.foldl (fun d entry => dictSet entry.1 entry.2 d) d

/-- Run through a list, changing the value of each entry's key. -/
def dictCollect {α : Type*} (key : α → κ) (d₀ : ν) (f : ν → α → ν) (entries : List α) :
    List (κ × ν) :=
  entries.foldl (fun d entry => dictModify (key entry) d₀ (fun v => f v entry) d) []

/-- The entries of a list grouped by a key, each group in the order of the list. -/
def dictGroup {α : Type*} (key : α → κ) (entries : List α) : List (κ × List α) :=
  dictCollect key [] (fun group entry => group ++ [entry]) entries

variable (k : κ) {α : Type*} (d : List (κ × ν)) (j : κ) (key : α → κ)

theorem dictGet_cons (v : ν) (d) :
    dictGet j ((k, v) :: d) = if k = j then some v else dictGet j d := rfl

section Rename

variable {κ' ν' : Type*} [DecidableEq κ'] {f : κ → κ'}

/-- Renamed keys and translated values: what a lookup finds. -/
theorem dictGet_map_entries (hf : Function.Injective f) (g : ν → ν') (k : κ) (d) :
    dictGet (f k) (d.map (Prod.map f g)) = (dictGet k d).map g := by
  induction d with
  | nil => rfl
  | cons entry d ih =>
    obtain ⟨k', v⟩ := entry
    rw [map_cons, Prod.map_apply, dictGet_cons, dictGet_cons, ih]
    by_cases hk : k' = k
    · rw [if_pos hk, if_pos (congrArg f hk), Option.map_some]
    · rw [if_neg hk, if_neg (mt (@hf k' k) hk)]

theorem dictSet_map_entries (hf : Function.Injective f) (g : ν → ν') (k : κ) (v : ν) (d) :
    dictSet (f k) (g v) (d.map (Prod.map f g)) = (dictSet k v d).map (Prod.map f g) := by
  induction d with
  | nil => rfl
  | cons entry d ih =>
    obtain ⟨k', v'⟩ := entry
    rw [map_cons, Prod.map_apply, dictSet, dictSet, ih]
    by_cases hk : k' = k
    · rw [if_pos hk, if_pos (congrArg f hk), map_cons, Prod.map_apply]
    · rw [if_neg hk, if_neg (mt (@hf k' k) hk), map_cons, Prod.map_apply]

end Rename

theorem dictGet_dictErase (d : List (κ × ν)) : dictGet j (dictErase k d) = if k = j then none
    else dictGet j d := by
  unfold dictErase
  induction d with
  | nil => simp [dictGet]
  | cons entry d ih =>
    obtain ⟨k', v⟩ := entry
    rw [dictGet_cons, filter_cons]
    by_cases hk : k' = k
    · subst hk
      rw [if_neg (by simp), ih]
      by_cases hj : k' = j <;> simp [hj]
    · rw [if_pos (by simpa using hk), dictGet_cons, ih]
      by_cases hj : k' = j
      · have hne : ¬k = j := fun h => hk (hj.trans h.symm)
        simp [hne]
      · simp [hj]

theorem dictGet_dictModify (d₀ : ν) (f : ν → ν) (d) : dictGet j (dictModify k d₀ f d) =
      if k = j then some (f ((dictGet k d).getD d₀)) else dictGet j d := by
  induction d with
  | nil => rfl
  | cons entry d ih =>
    obtain ⟨k', v'⟩ := entry
    rw [dictModify]
    split
    · next hk => rw [dictGet_cons, dictGet_cons, dictGet_cons, hk]; split <;> simp
    · next hk =>
      rw [dictGet_cons, dictGet_cons, dictGet_cons, ih]
      by_cases hj : k' = j
      · have hne : ¬k = j := fun h => hk (hj.trans h.symm)
        simp [hne]
      · simp [hj, hk]

/-- To set a value is to change it, whatever it was. -/
theorem dictSet_eq_dictModify (v : ν) (d) : dictSet k v d = dictModify k v (fun _ => v) d := by
  induction d with
  | nil => rfl
  | cons entry d ih => rw [dictSet, dictModify, ih]

theorem dictGet_dictSet (v : ν) (d) :
    dictGet j (dictSet k v d) = if k = j then some v else dictGet j d := by
  rw [dictSet_eq_dictModify, dictGet_dictModify]

variable {k d j}

theorem dictGet_eq_none (hk : k ∉ d.map Prod.fst) : dictGet k d = none := by
  induction d with
  | nil => rfl
  | cons entry d ih =>
    rw [map_cons, mem_cons, not_or] at hk
    rw [dictGet_cons, if_neg (Ne.symm hk.1), ih hk.2]

/-- A lookup in a dictionary made of rows finds the first row with the key. -/
theorem dictGet_map_rows (value : α → ν) (j : κ) (rows : List α) :
    dictGet j (rows.map fun row => (key row, value row)) = (rows.find? fun row =>
      key row = j).map value := by
  induction rows with
  | nil => rfl
  | cons row rows ih =>
    rw [map_cons, dictGet_cons, find?_cons, ih]
    by_cases hkey : key row = j <;> simp [hkey]

/-- Changing the values of a dictionary changes what a lookup finds. -/
theorem dictGet_map_value {μ : Type*} (f : κ → ν → μ) (j : κ) (d) :
    dictGet j (d.map fun entry => (entry.1, f entry.1 entry.2)) = (dictGet j d).map (f j) := by
  induction d with
  | nil => rfl
  | cons entry d ih =>
    rw [map_cons, dictGet_cons, dictGet_cons, ih]
    split
    · next hk => rw [hk]; rfl
    · rfl

/-- Of entries with distinct keys put over a dictionary, a lookup finds the entry of its
key, or what was there. -/
theorem dictGet_dictMerge {e} (hkeys : (e.map Prod.fst).Nodup) (d : List (κ × ν)) (j : κ) :
    dictGet j (dictMerge d e) = (dictGet j e).orElse fun _ => dictGet j d := by
  induction e generalizing d with
  | nil => rfl
  | cons entry e ih =>
    obtain ⟨k, v⟩ := entry
    obtain ⟨hk, hkeys⟩ := nodup_cons.mp hkeys
    have hstep : dictMerge d ((k, v) :: e) = dictMerge (dictSet k v d) e := rfl
    rw [hstep, ih hkeys, dictGet_dictSet, dictGet_cons]
    by_cases hj : k = j
    · have hnone : dictGet j e = none := dictGet_eq_none (hj ▸ hk)
      simp [hj, hnone]
    · simp [hj]

/-- A lookup after a merge of the rows of a table with distinct keys. -/
theorem dictGet_dictMerge_rows {key} {rows : List α} (hkeys : (rows.map key).Nodup) (value : α → ν)
    (d : List (κ × ν)) (j : κ) : dictGet j (dictMerge d (rows.map fun row => (key row, value row)))
      = ((rows.find? fun row => key row = j).map value).orElse fun _ => dictGet j d := by
  have hmerged : ((rows.map fun row => (key row, value row)).map Prod.fst).Nodup := by
    rw [map_map]
    exact hkeys
  rw [dictGet_dictMerge hmerged, dictGet_map_rows]

/-- The value of a key is what its own entries make of the start. -/
theorem dictGet_dictCollect (d₀ : ν) (f : ν → α → ν) (entries) (j : κ) :
    dictGet j (dictCollect key d₀ f entries) = if (entries.filter fun entry => key entry = j) =
      [] then none
      else some ((entries.filter fun entry => key entry = j).foldl f d₀) := by
  -- from a dictionary that may have the key already
  have hfold : ∀ (entries : List α) (d : List (κ × ν)),
      dictGet j (entries.foldl (fun d entry => dictModify (key entry) d₀ (fun v => f v entry) d) d)
        = if (entries.filter fun entry => key entry = j) = [] then dictGet j d
        else some ((entries.filter fun entry =>
          key entry = j).foldl f ((dictGet j d).getD d₀)) := by
    intro entries
    induction entries with
    | nil => intro d; rfl
    | cons entry entries ih =>
      intro d
      rw [foldl_cons, ih, dictGet_dictModify]
      by_cases hkey : key entry = j
      · subst hkey
        split <;> simp [*]
      · rw [filter_cons_of_neg (by simpa using hkey), if_neg hkey]
  rw [dictCollect, hfold]
  rfl

theorem mem_keys_dictModify {d₀} {f} :
    j ∈ (dictModify k d₀ f d).map Prod.fst ↔ j = k ∨ j ∈ d.map Prod.fst := by
  induction d with
  | nil => simp [dictModify]
  | cons entry d ih =>
    rw [dictModify]
    split
    · next hk => simp [hk]
    · rw [map_cons, mem_cons, ih, map_cons, mem_cons, or_left_comm]

theorem nodup_keys_dictModify {d₀} {f}
    (h : (d.map Prod.fst).Nodup) : ((dictModify k d₀ f d).map Prod.fst).Nodup := by
  induction d with
  | nil => simp [dictModify]
  | cons entry d ih =>
    obtain ⟨hk', hd⟩ := nodup_cons.mp h
    rw [dictModify]
    split
    · next hk => exact hk ▸ h
    · next hk =>
      refine nodup_cons.mpr ⟨fun hmem => ?_, ih hd⟩
      rcases mem_keys_dictModify.mp hmem with heq | hmem
      · exact hk heq
      · exact hk' hmem

theorem dictCollect_concat (d₀ : ν) (f : ν → α → ν) (entries) (entry : α) :
    dictCollect key d₀ f (entries ++ [entry]) = dictModify (key entry) d₀ (fun v =>
      f v entry) (dictCollect key d₀ f entries) := by
  simp [dictCollect]

/-- The keys of a collected dictionary are those of the entries, each once. -/
theorem keys_dictCollect (d₀ : ν) (f : ν → α → ν) (entries) :
    ((dictCollect key d₀ f entries).map Prod.fst).Nodup ∧
      ∀ j, j ∈ (dictCollect key d₀ f entries).map Prod.fst ↔ j ∈ entries.map key := by
  induction entries using List.reverseRecOn with
  | nil => simp [dictCollect]
  | append_singleton entries entry ih =>
    rw [dictCollect_concat]
    refine ⟨nodup_keys_dictModify ih.1, fun j => ?_⟩
    rw [mem_keys_dictModify, ih.2, map_append, mem_append, map_singleton, mem_singleton, or_comm]

theorem sum_dictModify [AddCommMonoid ν] (k : κ) (x : ν) (d) :
    ((dictModify k 0 (fun v => v + x) d).map Prod.snd).sum = (d.map Prod.snd).sum + x := by
  induction d with
  | nil => simp [dictModify]
  | cons entry d ih =>
    rw [dictModify]
    split
    · rw [map_cons, sum_cons, map_cons, sum_cons, add_right_comm]
    · rw [map_cons, sum_cons, ih, map_cons, sum_cons, add_assoc]

/-- Sums by key add up to the sum of all. -/
theorem sum_dictCollect [AddCommMonoid ν] {α : Type*} (key : α → κ) (g : α → ν) (entries) :
    ((dictCollect key 0 (fun v entry => v + g entry) entries).map Prod.snd).sum =
      (entries.map g).sum := by
  induction entries using List.reverseRecOn with
  | nil => rfl
  | append_singleton entries entry ih =>
    rw [dictCollect_concat, sum_dictModify, ih, map_append, sum_append, map_singleton,
      sum_singleton]

/-- An entry is what a lookup of its key finds. -/
theorem dictGet_of_mem {v} (hkeys : (d.map Prod.fst).Nodup) (h : (k, v) ∈ d) :
    dictGet k d = some v := by
  induction d with
  | nil => exact absurd h not_mem_nil
  | cons entry d ih =>
    obtain ⟨k', v'⟩ := entry
    obtain ⟨hk', hd⟩ := nodup_cons.mp hkeys
    rw [dictGet_cons]
    rcases mem_cons.mp h with heq | hmem
    · obtain ⟨rfl, rfl⟩ := Prod.mk.inj heq
      rw [if_pos rfl]
    · have hkey : k ∈ d.map Prod.fst := mem_map_of_mem hmem
      have hne : k' ≠ k := fun heq => hk' (heq ▸ hkey)
      rw [if_neg hne, ih hd hmem]

/-- A group holds the entries with its key; a key without entries has no group. -/
theorem dictGet_dictGroup (entries) (j : κ) : dictGet j (dictGroup key entries) =
      if (entries.filter fun entry => key entry = j) = [] then none
      else some (entries.filter fun entry => key entry = j) := by
  rw [dictGroup, dictGet_dictCollect, foldl_append_eq_append, ← flatMap_def, flatMap_singleton',
    nil_append]

end Okou
