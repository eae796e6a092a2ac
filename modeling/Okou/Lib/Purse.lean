import Mathlib.Algebra.Order.BigOperators.Group.List
import Mathlib.Algebra.Order.Ring.Int
import Mathlib.Data.List.Nodup

/-!
# Paying out of several purses

A table of rows, each with an id and a balance.  An amount is paid out of some of
the rows in a given order: each row gives what it can until nothing is owed.
-/

namespace Okou

open List Function

/-- How the rows of a table hold their balance. -/
structure Purse (α : Type*) where
  id : α → ℕ
  balance : α → ℤ
  withBalance : ℤ → α → α
  id_withBalance : ∀ b a, id (withBalance b a) = id a
  balance_withBalance : ∀ b a, balance (withBalance b a) = b
  withBalance_balance : ∀ a, withBalance (balance a) a = a
  withBalance_withBalance : ∀ b c a, withBalance b (withBalance c a) = withBalance b a

namespace Purse

variable {α : Type*} (p : Purse α)

/-! ### Definitions -/

/-- Write the balance of the row of an id. -/
def setById (i : ℕ) (b : ℤ) (table : List α) : List α :=
  table.map fun a => if p.id a = i then p.withBalance b a else a

/-- Pay an amount out of the rows of a list, in order; what is still owed, and the
table. -/
def drain : ℤ → List α → List α → ℤ × List α
  | left, [], table => (left, table)
  | left, row :: rows, table =>
    if left ≤ 0 then (left, table)
    else
      let deduction := min left (p.balance row)
      drain (left - deduction) rows (p.setById (p.id row) (p.balance row - deduction) table)

/-- What the loop takes from the row of an id. -/
def taken : ℤ → List α → ℕ → ℤ
  | _, [], _ => 0
  | left, row :: rows, i =>
    if left ≤ 0 then 0
    else if p.id row = i then min left (p.balance row)
    else taken (left - min left (p.balance row)) rows i

/-- The table after something has been taken from each row. -/
def pay (t : ℕ → ℤ) (table : List α) : List α :=
  table.map fun a => p.withBalance (p.balance a - t (p.id a)) a

/-- The balance of several rows. -/
def total (rows : List α) : ℤ := (rows.map p.balance).sum

/-! ### What is taken -/

variable {p}

theorem taken_of_not_mem {i : ℕ} (rows) : ∀ left : ℤ, i ∉ rows.map p.id →
    p.taken left rows i = 0 := by
  induction rows with
  | nil => exact fun _ _ => rfl
  | cons row rows ih =>
    intro left hi
    rw [map_cons, mem_cons, not_or] at hi
    rw [taken, if_neg (Ne.symm hi.1), ih _ hi.2, ite_self]

theorem taken_of_nonpos {left : ℤ} (hleft : left ≤ 0) (rows) (i : ℕ) : p.taken left rows i = 0 := by
  cases rows with
  | nil => rfl
  | cons row rows => rw [taken, if_pos hleft]

/-- A row loses at most its balance, and gains nothing. -/
theorem taken_bounds (rows) : ∀ (left : ℤ), (∀ row ∈ rows, 0 ≤ p.balance row) →
    (rows.map p.id).Nodup →
    ∀ row ∈ rows, 0 ≤ p.taken left rows (p.id row) ∧
      p.taken left rows (p.id row) ≤ p.balance row := by
  induction rows with
  | nil => intro _ _ _ row hrow; exact absurd hrow not_mem_nil
  | cons first rows ih =>
    intro left hbal hnodup row hrow
    obtain ⟨hfirst, hrest⟩ := nodup_cons.mp hnodup
    have hpos := hbal first mem_cons_self
    rw [taken]
    split
    · exact ⟨le_rfl, hbal row hrow⟩
    · next hleft =>
      rcases mem_cons.mp hrow with rfl | hmem
      · rw [if_pos rfl]
        exact ⟨le_min (not_le.mp hleft).le hpos, min_le_right _ _⟩
      · have hne : p.id first ≠ p.id row := fun h => hfirst (h ▸ mem_map_of_mem hmem)
        rw [if_neg hne]
        exact ih _ (forall_mem_cons.mp hbal).2 hrest row hmem

/-- In total the loop takes the amount, or all there is. -/
theorem sum_taken (rows) (left : ℤ) (hleft : 0 ≤ left) (hbal : ∀ row ∈ rows, 0 ≤ p.balance row)
    (hnodup : (rows.map p.id).Nodup) : (rows.map fun row => p.taken left rows (p.id row)).sum =
      min left (p.total rows) := by
  induction rows generalizing left with
  | nil => simp [total, hleft]
  | cons first rows ih =>
    obtain ⟨hfirst, hrest⟩ := nodup_cons.mp hnodup
    have hpos := hbal first mem_cons_self
    have hrows := (forall_mem_cons.mp hbal).2
    have htotal : p.total (first :: rows) = p.balance first + p.total rows := by simp [total]
    have hnonn : 0 ≤ p.total rows := sum_nonneg (by simpa using hrows)
    by_cases hzero : left ≤ 0
    · have hall : ((first :: rows).map fun row => p.taken left (first :: rows) (p.id row)) =
          (first :: rows).map fun _ => (0 : ℤ) :=
        map_congr_left fun row _ => taken_of_nonpos hzero _ _
      rw [hall, htotal, min_eq_left (by omega), le_antisymm hzero hleft]
      simp
    · -- what the first row gives, and what is left for the others
      have hoth : (rows.map fun row => p.taken left (first :: rows) (p.id row)) =
          rows.map fun row => p.taken (left - min left (p.balance first)) rows (p.id row) := by
        refine map_congr_left fun row hrow => ?_
        have hne : p.id first ≠ p.id row := fun h => hfirst (h ▸ mem_map_of_mem hrow)
        rw [taken, if_neg hzero, if_neg hne]
      rw [map_cons, sum_cons, hoth, ih _ (by omega) hrows hrest, taken, if_neg hzero, if_pos rfl,
        htotal]
      omega

/-- A row gives only if the rows before it have given all they had. -/
theorem taken_before {row : α} {after : List α} (before) : ∀ (left : ℤ),
    ((before ++ row :: after).map p.id).Nodup →
    0 < p.taken left (before ++ row :: after) (p.id row) →
    ∀ earlier ∈ before, p.taken left (before ++ row :: after) (p.id earlier) =
      p.balance earlier := by
  induction before with
  | nil => intro _ _ _ earlier hearl; exact absurd hearl not_mem_nil
  | cons first before ih =>
    intro left hnodup htaken earlier hearl
    rw [cons_append] at hnodup htaken ⊢
    obtain ⟨hfirst, hrest⟩ := nodup_cons.mp hnodup
    have hne : ∀ other ∈ before ++ row :: after, p.id first ≠ p.id other := fun other hother h =>
      hfirst (h ▸ mem_map_of_mem hother)
    have hpos : ¬left ≤ 0 := fun h => by rw [taken_of_nonpos h] at htaken; exact lt_irrefl _ htaken
    rw [taken, if_neg hpos, if_neg (hne row (by simp))] at htaken
    rw [taken, if_neg hpos]
    rcases mem_cons.mp hearl with rfl | hmem
    · -- had the first row not been emptied, nothing would be owed after it
      rw [if_pos rfl]
      refine min_eq_right (not_lt.mp fun hlt => ?_)
      rw [min_eq_left hlt.le, sub_self, taken_of_nonpos le_rfl] at htaken
      exact lt_irrefl _ htaken
    · rw [if_neg (hne earlier (mem_append_left _ hmem))]
      exact ih _ hrest htaken earlier hmem

/-! ### The table -/

theorem map_id_setById (i : ℕ) (b : ℤ) (table) :
    (p.setById i b table).map p.id = table.map p.id := by
  rw [setById, map_map]
  refine map_congr_left fun a _ => ?_
  simp only [comp_apply]
  split
  · rw [p.id_withBalance]
  · rfl

/-- Emptying the rows of a list one after the other. -/
theorem foldl_setById_zero (rows : List α) : ∀ table : List α,
    rows.foldl (fun table row => p.setById (p.id row) 0 table) table =
      table.map fun a => if p.id a ∈ rows.map p.id then p.withBalance 0 a else a := by
  induction rows with
  | nil =>
    simp
  | cons row rows ih =>
    intro table
    rw [foldl_cons, ih, setById, map_map]
    refine map_congr_left fun a _ => ?_
    simp only [comp_apply, map_cons, mem_cons]
    by_cases hrow : p.id a = p.id row
    · simp [hrow, p.withBalance_withBalance]
    · rw [if_neg hrow]
      simp [hrow]

variable {t : ℕ → ℤ} {table : List α}

/-- Taking nothing changes nothing. -/
theorem pay_zero (ht : ∀ a ∈ table, t (p.id a) = 0) : p.pay t table = table := by
  conv_rhs => rw [← map_id table]
  refine map_congr_left fun a ha => ?_
  rw [ht a ha, sub_zero, p.withBalance_balance]
  rfl

theorem map_id_pay (t : ℕ → ℤ) (table) : (p.pay t table).map p.id = table.map p.id := by
  rw [pay, map_map]
  exact map_congr_left fun a _ => p.id_withBalance _ _

/-- Taking twice takes the sum. -/
theorem pay_pay (t u : ℕ → ℤ) (table) :
    p.pay u (p.pay t table) = p.pay (fun i => t i + u i) table := by
  rw [pay, pay, map_map, pay]
  refine map_congr_left fun a _ => ?_
  simp only [comp_apply, p.withBalance_withBalance, p.balance_withBalance, p.id_withBalance]
  rw [sub_sub]

variable {q : α → Bool}

/-- A selection that only sees rows from which nothing was taken selects the same
rows. -/
theorem filter_pay (hq : ∀ a ∈ table, t (p.id a) = 0 ∨ q a = false ∧ ∀ b,
    q (p.withBalance b a) = false) :
    (p.pay t table).filter q = table.filter q := by
  rw [pay, filter_map]
  have hsame : table.filter (q ∘ fun a => p.withBalance (p.balance a - t (p.id a)) a) =
    table.filter q := by
    refine filter_congr fun a ha => ?_
    rcases hq a ha with hzero | ⟨hout, hout'⟩
    · rw [comp_apply, hzero, sub_zero, p.withBalance_balance]
    · rw [comp_apply, hout, hout']
  rw [hsame]
  conv_rhs => rw [← map_id (table.filter q)]
  refine map_congr_left fun a ha => ?_
  obtain ⟨hmem, hin⟩ := mem_filter.mp ha
  rcases hq a hmem with hzero | ⟨hout, _⟩
  · rw [hzero, sub_zero, p.withBalance_balance]
    rfl
  · rw [hin] at hout
    exact absurd hout Bool.true_eq_false_eq_False

/-- **The loop takes `taken` from each row**; what is left is what the rows could not
give. -/
theorem drain_eq (rows) (left : ℤ) (table) (hleft : 0 ≤ left)
    (hbal : ∀ row ∈ rows, 0 ≤ p.balance row) (hsub : rows ⊆ table) (hrows : (rows.map p.id).Nodup)
    (htable : (table.map p.id).Nodup) :
    p.drain left rows table = (left - min left (p.total rows),
      p.pay (p.taken left rows) table) := by
  induction rows generalizing left table with
  | nil =>
    have hnone : ∀ a ∈ table, p.taken left [] (p.id a) = 0 := fun _ _ => rfl
    simp [drain, total, hleft, pay_zero hnone]
  | cons first rows ih =>
    obtain ⟨hfirst, hrest⟩ := nodup_cons.mp hrows
    have hpos := hbal first mem_cons_self
    have hoth := (forall_mem_cons.mp hbal).2
    have htotal : p.total (first :: rows) = p.balance first + p.total rows := by simp [total]
    have hnonn : 0 ≤ p.total rows := sum_nonneg (by simpa using hoth)
    rw [drain]
    split
    · next hzero =>
      rw [pay_zero fun a _ => taken_of_nonpos hzero _ _]
      congr 1
      omega
    · next hzero =>
      -- the other rows are not touched by the first write
      have hkeep : rows ⊆ p.setById (p.id first) (p.balance first - min left (p.balance first))
        table := by
        intro row hrow
        have hne : p.id row ≠ p.id first := fun h => hfirst (h ▸ mem_map_of_mem hrow)
        exact mem_map.mpr ⟨row, hsub (mem_cons_of_mem _ hrow), if_neg hne⟩
      rw [ih _ _ (by omega) hoth hkeep hrest (by rwa [map_id_setById])]
      congr 1
      · omega
      · rw [pay, setById, map_map, pay]
        refine map_congr_left fun a ha => ?_
        rw [comp_apply, taken, if_neg hzero]
        by_cases hid : p.id a = p.id first
        · obtain rfl := inj_on_of_nodup_map htable ha (hsub mem_cons_self) hid
          rw [if_pos rfl, if_pos rfl, p.withBalance_withBalance, p.balance_withBalance,
            p.id_withBalance, taken_of_not_mem rows _ hfirst, sub_zero]
        · rw [if_neg hid, if_neg (Ne.symm hid)]

/-! ### Paying from a selection

The usual case: the rows are those of a table that meet some condition and are not
empty, in some order. -/

/-- A sum sees only the entries that are not zero. -/
theorem sum_map_filter {f : α → ℤ} (l : List α)
    (hzero : ∀ a ∈ l, q a = false → f a = 0) : ((l.filter q).map f).sum = (l.map f).sum := by
  induction l with
  | nil => rfl
  | cons a l ih =>
    have ih := ih (forall_mem_cons.mp hzero).2
    rw [filter_cons]
    split
    · rw [map_cons, sum_cons, map_cons, sum_cons, ih]
    · next hq =>
      rw [map_cons, sum_cons, hzero a mem_cons_self (Bool.eq_false_iff.mpr hq), zero_add, ih]

section Selection

variable {table rows : List α} {q : α → Bool}
variable (hids : (table.map p.id).Nodup)
variable (hrows : List.Perm rows ((table.filter q).filter fun a => decide (0 < p.balance a)))

include hrows

variable {a : α}

theorem mem_selection : a ∈ rows ↔ a ∈ table ∧ q a ∧ 0 < p.balance a := by
  rw [hrows.mem_iff, mem_filter, mem_filter, decide_eq_true_eq, and_assoc]

theorem balance_selection : ∀ a ∈ rows, 0 ≤ p.balance a :=
  fun _ ha => ((mem_selection hrows).mp ha).2.2.le

include hids

theorem nodup_selection : (rows.map p.id).Nodup :=
  (hrows.map p.id).nodup_iff.mpr
    (hids.sublist ((filter_sublist.trans filter_sublist).map p.id))

/-- A row that is not selected gives nothing. -/
theorem taken_of_not_selected (amount : ℤ) (ha : a ∈ table) (hout : a ∉ rows) :
    p.taken amount rows (p.id a) = 0 := by
  refine taken_of_not_mem _ _ fun hmem => hout ?_
  obtain ⟨b, hb, hid⟩ := mem_map.mp hmem
  obtain rfl := inj_on_of_nodup_map hids ((mem_selection hrows).mp hb).1 ha hid
  exact hb

/-- A row gives at most what it has. -/
theorem taken_selection_bounds (amount : ℤ) (ha : a ∈ table) (hnonn : 0 ≤ p.balance a) :
    0 ≤ p.taken amount rows (p.id a) ∧ p.taken amount rows (p.id a) ≤ p.balance a := by
  by_cases hin : a ∈ rows
  · exact taken_bounds _ amount (balance_selection hrows) (nodup_selection hids hrows) a hin
  · rw [taken_of_not_selected hids hrows amount ha hin]
    exact ⟨le_rfl, hnonn⟩

variable {amount : ℤ}

/-- What is taken from the whole table. -/
theorem sum_taken_table (hamount : 0 ≤ amount) :
    (table.map fun a => p.taken amount rows (p.id a)).sum = min amount (p.total rows) := by
  rw [← sum_taken rows amount hamount (balance_selection hrows) (nodup_selection hids hrows),
    (hrows.map _).sum_eq, filter_filter]
  refine (sum_map_filter _ fun a ha hout => ?_).symm
  refine taken_of_not_selected hids hrows amount ha fun hin => ?_
  obtain ⟨_, hq, hpos⟩ := (mem_selection hrows).mp hin
  simp [hq, hpos] at hout

variable (hq : ∀ a ∈ table, q a = true → 0 ≤ p.balance a)

include hq

omit hids in
/-- Empty rows do not count. -/
theorem total_selection : p.total rows = p.total (table.filter q) := by
  unfold total
  rw [(hrows.map _).sum_eq]
  refine sum_map_filter _ fun a ha hout => ?_
  obtain ⟨hmem, hin⟩ := mem_filter.mp ha
  exact le_antisymm (not_lt.mp (of_decide_eq_false hout)) (hq a hmem hin)

/-- The rows that meet the condition pay the amount, or all they have. -/
theorem sum_taken_selection (hamount : 0 ≤ amount) :
    ((table.filter q).map fun a => p.taken amount rows (p.id a)).sum =
      min amount (p.total (table.filter q)) := by
  rw [← total_selection hrows hq, ← sum_taken_table hids hrows hamount]
  refine sum_map_filter _ fun a ha hout => taken_of_not_selected hids hrows amount ha fun hin => ?_
  rw [((mem_selection hrows).mp hin).2.1] at hout
  exact absurd hout Bool.true_eq_false_eq_False

/-- A row pays only if the rows that come before it are used up. -/
theorem taken_selection_order {r} (hsort : rows.Pairwise r) (amount : ℤ) {earlier : α}
    (ha : a ∈ table.filter q) (hearl : earlier ∈ table.filter q) (hbef : ¬r a earlier)
    (hne : earlier ≠ a)
    (htaken : 0 < p.taken amount rows (p.id a)) :
      p.taken amount rows (p.id earlier) = p.balance earlier := by
  obtain ⟨hmem, _⟩ := mem_filter.mp ha
  obtain ⟨hmem', hin'⟩ := mem_filter.mp hearl
  have hrow : a ∈ rows := by
    by_contra hout
    rw [taken_of_not_selected hids hrows amount hmem hout] at htaken
    exact lt_irrefl _ htaken
  rcases (hq earlier hmem' hin').eq_or_lt with hzero | hpos
  · -- an empty row has nothing to give
    have hbounds := taken_selection_bounds hids hrows amount hmem' hzero.le
    rw [← hzero] at hbounds ⊢
    exact le_antisymm hbounds.2 hbounds.1
  · have hrow' : earlier ∈ rows := (mem_selection hrows).mpr ⟨hmem', hin', hpos⟩
    have hnodup := nodup_selection hids hrows
    obtain ⟨before, after, rfl⟩ := append_of_mem hrow
    refine taken_before before amount hnodup htaken earlier ?_
    rcases mem_append.mp hrow' with hin | hin
    · exact hin
    · rcases mem_cons.mp hin with heq | hafter
      · exact absurd heq hne
      · exact absurd ((pairwise_cons.mp (pairwise_append.mp hsort).2.1).1 earlier hafter) hbef

end Selection

end Purse

end Okou
