import Mathlib.Data.List.Sort
import Okou.Lib.Dict

/-!
# Tries that answer prefix queries

A trie stores values under sequences of keys.  Walking down a path collects the
values of every node on the way: those stored under some prefix of the path.

An index built over an ordered list of entries may return the entries it finds
in any order, as long as it sorts them in the end; what it returns is then the
list it was built from, without the entries that cannot match.
-/

namespace Okou

open List

/-- A trie with values at its nodes. -/
inductive Trie (κ α : Type*) where
  | node (values : List α) (children : List (κ × Trie κ α))

namespace Trie

variable {κ α : Type*} [DecidableEq κ] (entries : List (List κ × α))

/-- The trie without values. -/
def empty : Trie κ α := node [] []

/-- Store a value under a key; the nodes on the way are made as needed. -/
def insert : Trie κ α → List κ → α → Trie κ α
  | node values children, [], a => node (values ++ [a]) children
  | node values children, k :: ks, a =>
    node values (dictModify k empty (fun child => child.insert ks a) children)

/-- The values of the nodes along a path, as far as there are nodes. -/
def visit : Trie κ α → List κ → List α
  | node values _, [] => values
  | node values children, k :: ks =>
    values ++ match dictGet k children with
      | none => []
      | some child => child.visit ks

/-- The trie of a list of keyed values. -/
def build (entries : List (List κ × α)) : Trie κ α :=
  entries.foldl (fun t entry => t.insert entry.1 entry.2) empty

theorem visit_empty (path) : (empty : Trie κ α).visit path = [] := by
  cases path <;> rfl

/-- One more value is found along exactly the paths its key is a prefix of. -/
theorem visit_insert (key) (a : α) : ∀ (t : Trie κ α) (path : List κ),
    List.Perm ((t.insert key a).visit path)
      (if key <+: path then a :: t.visit path else t.visit path) := by
  induction key with
  | nil =>
    intro t path
    obtain ⟨values, children⟩ := t
    cases path with
    | nil => exact perm_append_singleton a values
    | cons k ks =>
      simp only [insert, visit, append_assoc]
      exact perm_middle
  | cons k ks ih =>
    intro t path
    obtain ⟨values, children⟩ := t
    cases path with
    | nil => simp [insert, visit]
    | cons j js =>
      simp only [insert, visit, dictGet_dictModify]
      by_cases hkj : k = j
      · subst hkj
        -- the walk goes on in the child that was changed
        have hchild := ih ((dictGet k children).getD empty) js
        have hvisit : ((dictGet k children).getD empty).visit js = match dictGet k children with
            | none => []
            | some child => child.visit js := by
          cases dictGet k children with
          | none => exact visit_empty js
          | some child => rfl
        rw [hvisit] at hchild
        simp only [if_true, cons_prefix_cons, true_and]
        split
        · next hpre =>
          rw [if_pos hpre] at hchild
          exact (hchild.append_left values).trans perm_middle
        · next hpre =>
          rw [if_neg hpre] at hchild
          exact hchild.append_left values
      · simp [hkj]

/-- **Along a path one finds the values whose keys are prefixes of it.** -/
theorem visit_build (path) : List.Perm ((build entries).visit path)
      ((entries.filter fun entry => entry.1 <+: path).map Prod.snd) := by
  have hfold : ∀ (entries : List (List κ × α)) (t : Trie κ α),
      List.Perm ((entries.foldl (fun t entry => t.insert entry.1 entry.2) t).visit path)
        (t.visit path ++ (entries.filter fun entry => entry.1 <+: path).map Prod.snd) := by
    intro entries
    induction entries with
    | nil => simp
    | cons entry entries ih =>
      intro t
      refine (ih (t.insert entry.1 entry.2)).trans ?_
      have hins := visit_insert entry.1 entry.2 t path
      by_cases hpre : entry.1 <+: path
      · rw [if_pos hpre] at hins
        rw [filter_cons_of_pos (by simpa using hpre), map_cons]
        exact (hins.append_right _).trans perm_middle.symm
      · rw [if_neg hpre] at hins
        rw [filter_cons_of_neg (by simpa using hpre)]
        exact hins.append_right _
  have hempty := hfold entries empty
  rwa [visit_empty, nil_append] at hempty

end Trie

/-! ### Sorting by position -/

/-- Sort by position; there is nothing to do for a list of at most one. -/
def sortByOrder {α : Type*} (order : α → ℕ) (found : List α) : List α :=
  if found.length ≤ 1 then found else found.insertionSort fun a b => order a ≤ order b

/-- In a list in strictly increasing order of position, the position tells the
entry. -/
theorem eq_of_order_eq {α : Type*} {order : α → ℕ} {sorted : List α}
    (hsort : sorted.Pairwise fun a b => order a < order b) {a b : α} (ha : a ∈ sorted)
    (hb : b ∈ sorted) (hab : order a = order b) : a = b :=
  inj_on_of_nodup_map ((pairwise_map.mpr hsort).imp Nat.ne_of_lt) ha hb hab

/-- A list in strictly increasing order of position is what sorting any
reordering of it by position gives. -/
theorem sortByOrder_eq_of_perm {α : Type*} (order : α → ℕ) {found sorted : List α}
    (hsort : sorted.Pairwise fun a b => order a < order b) (hperm : found.Perm sorted) :
    sortByOrder order found = sorted := by
  have hshort : sortByOrder order found = found.insertionSort fun a b => order a ≤ order b := by
    unfold sortByOrder
    split
    · next hlen =>
      match found, hlen with
      | [], _ => rfl
      | [_], _ => rfl
      | _ :: _ :: _, hlen => exact absurd hlen (by simp)
    · rfl
  rw [hshort]
  have hfound : (found.insertionSort fun a b => order a ≤ order b).Pairwise
      fun a b => order a ≤ order b := by
    exact pairwise_insertionSort _ found
  have hperm' := (perm_insertionSort (fun a b => order a ≤ order b) found).trans hperm
  refine hperm'.eq_of_pairwise ?_ hfound (hsort.imp fun h => le_of_lt h)
  intro a b ha hb hab hba
  exact eq_of_order_eq hsort (hperm'.mem_iff.mp ha) hb (le_antisymm hab hba)

/-- Filtering by two tests that exclude each other, one after the other. -/
theorem filter_append_filter_perm {α : Type*} {p q} (l : List α)
    (hexcl : ∀ a ∈ l, p a = true → q a = false) :
    (l.filter p ++ l.filter q).Perm (l.filter fun a => p a || q a) := by
  induction l with
  | nil => exact List.Perm.refl _
  | cons a l ih =>
    have ih := ih (forall_mem_cons.mp hexcl).2
    cases hp : p a with
    | true =>
      have hq := hexcl a mem_cons_self hp
      simpa [hp, hq] using ih
    | false =>
      cases hq : q a with
      | true => simpa [hp, hq] using perm_middle.trans (ih.cons a)
      | false => simpa [hp, hq] using ih

/-- The positions of an enumerated list increase. -/
theorem pairwise_zipIdx_lt {α : Type*} (l : List α) (n : ℕ) : (l.zipIdx n).Pairwise fun a b =>
    a.2 < b.2 := by
  have hmap : ((l.zipIdx n).map Prod.snd).Pairwise (· < ·) := by
    rw [zipIdx_map_snd]
    exact pairwise_lt_range'
  exact pairwise_map.mp hmap

end Okou
