import Okou.Lib.Machine
import Mathlib.Algebra.Order.Ring.Rat
import Mathlib.Data.Nat.Cast.Order.Basic
import Mathlib.Algebra.BigOperators.Group.List.Basic

/-!
# The resource budget of a host

A runner reserves vCPUs, memory and a place for each of its sandboxes.  A reservation is a lease,
released when it is dropped.  Leases can be exchanged for another one, at once or as soon as there
is room; whoever waits for room is woken by the next release.

A step of the machine is one hold of the state's lock, or one notification: between the two, other
tasks may come in.  A task that waits has registered for notifications before it looked at the
state.

The limit on vCPUs is a float in the source, and its exact value here.
-/

namespace Okou.Runner

open List Option

/-- A reservation; the fields are 32-bit numbers. -/
structure BudgetLease where
  vcpu : ℕ
  memoryMb : ℕ
  vcpu_lt : vcpu < 2 ^ 32
  memoryMb_lt : memoryMb < 2 ^ 32
deriving DecidableEq

structure BudgetState where
  runningVcpu : ℕ
  runningMemoryMb : ℕ
  runningCount : ℕ
deriving DecidableEq

/-- The limits of a budget; no cap on the count where `maxConcurrent` is zero. -/
structure ResourceBudget where
  admissionLimit : ℚ
  effectiveMemoryMb : ℕ
  maxConcurrent : ℕ

inductive BudgetReleaseError
  | vcpu (running release : ℕ)
  | memory (running release : ℕ)
  | count
deriving DecidableEq

def checkedAdd32 (a b : ℕ) : Option ℕ := if a + b < 2 ^ 32 then some (a + b) else none

def canAdmitLocked (budget : ResourceBudget) (state : BudgetState) (lease : BudgetLease) : Bool :=
  if state.runningCount = 0 then true
  else
    match checkedAdd32 state.runningVcpu lease.vcpu,
      checkedAdd32 state.runningMemoryMb lease.memoryMb with
    | some nextVcpu, some nextMemoryMb =>
      (nextVcpu : ℚ) ≤ budget.admissionLimit ∧ nextMemoryMb ≤ budget.effectiveMemoryMb ∧
        (budget.maxConcurrent = 0 ∨ state.runningCount < budget.maxConcurrent)
    | _, _ => false

/-- The additions wrap, as 32-bit ones do in a release build. -/
def reserveLocked (state : BudgetState) (lease : BudgetLease) : BudgetState :=
  ⟨(state.runningVcpu + lease.vcpu) % 2 ^ 32, (state.runningMemoryMb + lease.memoryMb) % 2 ^ 32,
    state.runningCount + 1⟩

def releaseReserved (state : BudgetState) (lease : BudgetLease) :
    Except BudgetReleaseError BudgetState :=
  if state.runningVcpu < lease.vcpu then .error (.vcpu state.runningVcpu lease.vcpu)
  else if state.runningMemoryMb < lease.memoryMb then .error
    (.memory state.runningMemoryMb lease.memoryMb)
  else if state.runningCount = 0 then .error .count
  else .ok ⟨state.runningVcpu - lease.vcpu, state.runningMemoryMb - lease.memoryMb,
    state.runningCount - 1⟩

/-- The virtual state without some leases; `none` where an assertion fails. -/
def withoutLeases (state : BudgetState) : List BudgetLease → Option BudgetState
  | [] => some state
  | lease :: leases =>
    if lease.vcpu ≤ state.runningVcpu ∧ lease.memoryMb ≤ state.runningMemoryMb ∧
      0 < state.runningCount then
      withoutLeases ⟨state.runningVcpu - lease.vcpu, state.runningMemoryMb - lease.memoryMb,
        state.runningCount - 1⟩ leases
    else none

/-- What an attempt to substitute leases comes to. -/
inductive Substitution
  | panicked
  | refused
  /-- the state, and whether some capacity became free -/
  | done (state : BudgetState) (releasedCapacity : Bool)
deriving DecidableEq

def trySubstituteLeases (budget : ResourceBudget) (state : BudgetState) (leases : List BudgetLease)
    (lease : BudgetLease) : Substitution :=
  match withoutLeases state leases with
  | none => .panicked
  | some virtualState =>
    if canAdmitLocked budget virtualState lease = false then .refused
    else
      let after := reserveLocked virtualState lease
      .done after (after.runningVcpu < state.runningVcpu ∨
        after.runningMemoryMb < state.runningMemoryMb ∨ after.runningCount < state.runningCount)

/-! ### The machine -/

/-- A task in `substitute_leases_when_available`: it has enabled its notification and is about to
try, or it has been refused and waits. -/
structure Waiter where
  leases : List BudgetLease
  wanted : BudgetLease
  waiting : Bool
  notified : Bool
deriving DecidableEq

inductive BudgetFault
  | release (error : BudgetReleaseError)
  | assertion
deriving DecidableEq

structure World where
  state : BudgetState
  /-- leases in the hands of tasks that do not wait -/
  held : List BudgetLease
  waiters : List Waiter
  /-- operations between their change of the state and their notification -/
  notifying : ℕ
  faults : List BudgetFault
deriving DecidableEq

inductive BudgetEvent
  | tryReserve (lease : BudgetLease)
  /-- exchange some of the leases held, the others being `rest` -/
  | trySubstitute (leases rest : List BudgetLease) (lease : BudgetLease)
  | drop (lease : BudgetLease) (rest : List BudgetLease)
  | notifyWaiters
  /-- a task starts to wait -/
  | enable (leases rest : List BudgetLease) (lease : BudgetLease)
  /-- one of the waiting tasks, the others being `rest`, tries -/
  | attempt (waiter : Waiter) (rest : List Waiter)
  | wake (waiter : Waiter) (rest : List Waiter)
  | cancel (waiter : Waiter) (rest : List Waiter)
deriving DecidableEq

namespace World

def new : World := ⟨⟨0, 0, 0⟩, [], [], 0, []⟩

/-- The leases that are alive. -/
def live (w : World) : List BudgetLease := w.held ++ w.waiters.flatMap Waiter.leases

/-- Enter the result of a substitution of `leases` in the books: `kept` are held if it is refused.
-/
def substitute (budget : ResourceBudget) (w : World) (leases : List BudgetLease)
    (lease : BudgetLease)
    (refused : World) (rest : List BudgetLease) (waiters : List Waiter) : World :=
  match trySubstituteLeases budget w.state leases lease with
  | .panicked => { w with faults := w.faults ++ [.assertion] }
  | .refused => refused
  | .done state releasedCapacity =>
    { w with
      state := state, held := lease :: rest, waiters := waiters
      notifying := if releasedCapacity then w.notifying + 1 else w.notifying }

def step (budget : ResourceBudget) (w : World) : BudgetEvent → Option World
  | .tryReserve lease =>
    if canAdmitLocked budget w.state lease then
      some { w with state := reserveLocked w.state lease, held := lease :: w.held }
    else some w
  | .trySubstitute leases rest lease =>
    if w.held.Perm (leases ++ rest) then some (w.substitute budget leases lease w rest w.waiters)
      else none
  | .drop lease rest =>
    if w.held.Perm (lease :: rest) then
      match releaseReserved w.state lease with
      | .ok state => some { w with state := state, held := rest, notifying := w.notifying + 1 }
      | .error error => some { w with held := rest, faults := w.faults ++ [.release error] }
    else none
  | .notifyWaiters =>
    if 0 < w.notifying then
      some { w with
        notifying := w.notifying - 1
        waiters := w.waiters.map fun waiter => { waiter with notified := true } }
    else none
  | .enable leases rest lease =>
    if w.held.Perm (leases ++ rest) then
      some { w with held := rest, waiters := ⟨leases, lease, false, false⟩ :: w.waiters }
    else none
  | .attempt waiter rest =>
    if w.waiters.Perm (waiter :: rest) ∧ waiter.waiting = false then
      some (w.substitute budget waiter.leases waiter.wanted
        { w with waiters := { waiter with waiting := true } :: rest } w.held rest)
    else none
  | .wake waiter rest =>
    if w.waiters.Perm (waiter :: rest) ∧ waiter.waiting = true ∧ waiter.notified = true then
      some { w with waiters := { waiter with waiting := false, notified := false } :: rest }
    else none
  -- the only suspension point is the wait; the leases are the caller's again
  | .cancel waiter rest =>
    if w.waiters.Perm (waiter :: rest) ∧ waiter.waiting = true then
      some { w with held := waiter.leases ++ w.held, waiters := rest }
    else none

end World

/-! ### Sums of leases -/

variable (lease : BudgetLease) (a leases b : List BudgetLease)

def vcpus : ℕ := (leases.map (·.vcpu)).sum

def memoryMbs : ℕ := (leases.map (·.memoryMb)).sum

/-- The state that accounts for some leases. -/
def total : BudgetState := ⟨vcpus leases, memoryMbs leases, leases.length⟩

@[simp] theorem vcpus_nil : vcpus [] = 0 := rfl

@[simp] theorem memoryMbs_nil : memoryMbs [] = 0 := rfl

@[simp] theorem vcpus_cons : vcpus (lease :: leases) = lease.vcpu + vcpus leases := by
  simp [vcpus]

@[simp] theorem memoryMbs_cons :
    memoryMbs (lease :: leases) = lease.memoryMb + memoryMbs leases := by
  simp [memoryMbs]

@[simp] theorem vcpus_append : vcpus (a ++ b) = vcpus a + vcpus b := by
  simp [vcpus]

@[simp] theorem memoryMbs_append : memoryMbs (a ++ b) = memoryMbs a + memoryMbs b := by
  simp [memoryMbs]

variable {leases a b : List BudgetLease} {lease : BudgetLease}

theorem total_perm (h : a.Perm b) : total a = total b := by
  simp only [total, vcpus, memoryMbs, (h.map _).sum_eq, h.length_eq]

/-- The virtual state is what is left. -/
theorem withoutLeases_eq_some : ∀ {state after : BudgetState},
    withoutLeases state leases = some after ↔ state.runningVcpu = vcpus leases + after.runningVcpu ∧
      state.runningMemoryMb = memoryMbs leases + after.runningMemoryMb ∧
      state.runningCount = leases.length + after.runningCount := by
  induction leases with
  | nil =>
    intro state after
    obtain ⟨v, m, c⟩ := state
    obtain ⟨v', m', c'⟩ := after
    simp [withoutLeases]
  | cons lease leases ih =>
    intro state after
    rw [withoutLeases, vcpus_cons, memoryMbs_cons, length_cons]
    split
    case isTrue h =>
      rw [ih]
      dsimp only
      omega
    case isFalse h =>
      constructor
      · exact nofun
      · omega

/-- The leases fit into the budget; a single one always does. -/
structure Fits (budget : ResourceBudget) (leases : List BudgetLease) : Prop where
  vcpu_lt : vcpus leases < 2 ^ 32
  memoryMb_lt : memoryMbs leases < 2 ^ 32
  limits : 2 ≤ leases.length → (vcpus leases : ℚ) ≤ budget.admissionLimit ∧
    memoryMbs leases ≤ budget.effectiveMemoryMb ∧
    (budget.maxConcurrent ≠ 0 → leases.length ≤ budget.maxConcurrent)

variable {budget : ResourceBudget}

/-- Fewer leases fit as well. -/
theorem Fits.of_append (h : Fits budget (a ++ b)) : Fits budget b := by
  have hvcpu := h.vcpu_lt
  have hmemory := h.memoryMb_lt
  rw [vcpus_append] at hvcpu
  rw [memoryMbs_append] at hmemory
  refine ⟨by omega, by omega, fun hlength => ?_⟩
  obtain ⟨hv, hm, hc⟩ := h.limits (by rw [length_append]; omega)
  rw [memoryMbs_append] at hm
  rw [length_append] at hc
  have hle : (vcpus b : ℚ) ≤ vcpus (a ++ b) := Nat.cast_le.mpr (by rw [vcpus_append]; omega)
  exact ⟨hle.trans hv, by omega, fun hmax => by omega⟩

theorem Fits.perm (h : Fits budget a) (hperm : a.Perm b) : Fits budget b := by
  have htotal := total_perm hperm
  simp only [total, BudgetState.mk.injEq] at htotal
  obtain ⟨hv, hm, hc⟩ := htotal
  exact ⟨hv ▸ h.vcpu_lt, hm ▸ h.memoryMb_lt, hv ▸ hm ▸ hc ▸ h.limits⟩

/-- **What is admitted fits**, and nothing wraps. -/
theorem admit_fits (hcan : canAdmitLocked budget (total leases) lease) :
    reserveLocked (total leases) lease = total (lease :: leases) ∧
      Fits budget (lease :: leases) := by
  have hbounds := lease.vcpu_lt
  have hbounds' := lease.memoryMb_lt
  have hresv (hv : vcpus (lease :: leases) < 2 ^ 32) (hm : memoryMbs (lease :: leases) < 2 ^ 32) :
      reserveLocked (total leases) lease = total (lease :: leases) := by
    rw [vcpus_cons] at hv
    rw [memoryMbs_cons] at hm
    simp only [reserveLocked, total, vcpus_cons, memoryMbs_cons, length_cons, BudgetState.mk.injEq,
      and_true]
    omega
  cases leases with
  -- an idle runner admits any lease
  | nil => exact ⟨hresv (by simpa) (by simpa), by simpa, by simpa, by simp⟩
  | cons first rest =>
    simp only [canAdmitLocked, total, length_cons, Nat.add_eq_zero_iff, one_ne_zero, and_false,
      if_false] at hcan
    split at hcan
    case h_2 => exact nomatch hcan
    case h_1 nextVcpu nextMemoryMb hvcpu hmemory =>
      obtain ⟨hv, rfl⟩ := ite_some_none_eq_some.mp hvcpu
      obtain ⟨hm, rfl⟩ := ite_some_none_eq_some.mp hmemory
      have hcan := of_decide_eq_true hcan
      have hsum : vcpus (lease :: first :: rest) = vcpus (first :: rest) + lease.vcpu := by
        rw [vcpus_cons, Nat.add_comm]
      have hsum' : memoryMbs (lease :: first :: rest) = memoryMbs
        (first :: rest) + lease.memoryMb := by
        rw [memoryMbs_cons, Nat.add_comm]
      refine ⟨hresv (hsum ▸ hv) (hsum' ▸ hm), hsum ▸ hv, hsum' ▸ hm, fun _ => ?_⟩
      rw [hsum, hsum']
      refine ⟨hcan.1, hcan.2.1, fun hmax => ?_⟩
      simp only [length_cons]
      omega

/-! ### Refusals -/

/-- One state has no less in use than another. -/
def BudgetState.Le (s t : BudgetState) : Prop :=
  s.runningVcpu ≤ t.runningVcpu ∧ s.runningMemoryMb ≤ t.runningMemoryMb ∧
    s.runningCount ≤ t.runningCount

variable {s t : BudgetState}

theorem canAdmitLocked_anti (h : s.Le t) (hcan : canAdmitLocked budget t lease) :
    canAdmitLocked budget s lease := by
  obtain ⟨hv, hm, hc⟩ := h
  unfold canAdmitLocked at hcan ⊢
  split
  case isTrue => rfl
  case isFalse hne =>
    rw [if_neg (by omega)] at hcan
    unfold checkedAdd32 at hcan ⊢
    split at hcan
    case h_2 => exact nomatch hcan
    case h_1 nextVcpu nextMemoryMb hvcpu hmemory =>
      obtain ⟨hv', rfl⟩ := ite_some_none_eq_some.mp hvcpu
      obtain ⟨hm', rfl⟩ := ite_some_none_eq_some.mp hmemory
      rw [decide_eq_true_eq] at hcan
      rw [if_pos (by omega), if_pos (by omega)]
      have hle : ((s.runningVcpu + lease.vcpu : ℕ) : ℚ) ≤ (t.runningVcpu + lease.vcpu : ℕ) :=
        Nat.cast_le.mpr (by omega)
      exact decide_eq_true ⟨hle.trans hcan.1, by omega, by omega⟩

/-- **A refusal stands while nothing is released.** -/
theorem refused_mono (h : s.Le t) (href : trySubstituteLeases budget s leases lease = .refused) :
    trySubstituteLeases budget t leases lease = .refused := by
  unfold trySubstituteLeases at href
  split at href
  case h_1 => exact nomatch href
  case h_2 virtualState hvirtual =>
    obtain ⟨hv, hm, hc⟩ := withoutLeases_eq_some.mp hvirtual
    split at href
    case isFalse => exact nomatch href
    case isTrue hden =>
      obtain ⟨hv', hm', hc'⟩ := h
      have hwo : withoutLeases t leases = some ⟨t.runningVcpu - vcpus leases,
          t.runningMemoryMb - memoryMbs leases, t.runningCount - leases.length⟩ :=
        withoutLeases_eq_some.mpr ⟨by dsimp only; omega, by dsimp only; omega, by dsimp only; omega⟩
      rw [trySubstituteLeases, hwo]
      by_contra hcan
      have hless : virtualState.Le ⟨t.runningVcpu - vcpus leases,
          t.runningMemoryMb - memoryMbs leases,
          t.runningCount - leases.length⟩ :=
            ⟨by dsimp only; omega, by dsimp only; omega, by dsimp only; omega⟩
      rw [canAdmitLocked_anti hless (by simpa using hcan)] at hden
      exact nomatch hden

/-- An attempt to substitute leases that are alive. -/
theorem trySubstituteLeases_total (leases rest) (lease) :
    trySubstituteLeases budget (total (leases ++ rest)) leases lease = .refused ∨
      ∃ releasedCapacity, trySubstituteLeases budget (total (leases ++ rest)) leases lease =
          .done (total (lease :: rest)) releasedCapacity ∧ Fits budget (lease :: rest) ∧
        (releasedCapacity = false → (total (leases ++ rest)).Le (total (lease :: rest))) := by
  have hwo : withoutLeases (total (leases ++ rest)) leases = some (total rest) :=
    withoutLeases_eq_some.mpr ⟨vcpus_append _ _, memoryMbs_append _ _, length_append⟩
  rw [trySubstituteLeases, hwo]
  dsimp only
  split
  case isTrue => exact .inl rfl
  case isFalse hcan =>
    obtain ⟨hresv, hfits⟩ := admit_fits (Bool.not_eq_false _ ▸ hcan)
    refine .inr ⟨_, by rw [hresv], hfits, fun hrel => ?_⟩
    rw [decide_eq_false_iff_not, not_or, not_or] at hrel
    exact ⟨by omega, by omega, by omega⟩

/-! ### Runs -/

namespace World

/-- The books are right, and those who wait in vain are to be notified. -/
structure Inv (budget : ResourceBudget) (w : World) : Prop where
  state : w.state = total w.live
  fits : Fits budget w.live
  faults : w.faults = []
  refused : w.notifying = 0 → ∀ waiter ∈ w.waiters, waiter.waiting = true →
    waiter.notified = false →
    trySubstituteLeases budget w.state waiter.leases waiter.wanted = .refused

variable {w w' : World}

variable {waiters : List Waiter}

/-- The leases change hands only. -/
theorem Inv.regroup (h : w.Inv budget) {held}
    (hlive : (held ++ waiters.flatMap Waiter.leases).Perm w.live)
    (hwait : ∀ waiter ∈ waiters, waiter ∈ w.waiters ∨ waiter.waiting = false) :
    ({ w with held := held, waiters := waiters } : World).Inv budget where
  state := h.state.trans (total_perm hlive).symm
  fits := h.fits.perm hlive.symm
  faults := h.faults
  refused hquiet waiter hmem hwaiting hnotified := by
    rcases hwait waiter hmem with hold | hfresh
    · exact h.refused hquiet waiter hold hwaiting hnotified
    · rw [hfresh] at hwaiting
      exact nomatch hwaiting

variable {rest : List BudgetLease}

/-- A substitution of leases that are alive. -/
theorem Inv.substitute (h : w.Inv budget) {refused : World}
    (hlive : w.live.Perm (leases ++ (rest ++ waiters.flatMap Waiter.leases)))
    (hwait : ∀ waiter ∈ waiters, waiter ∈ w.waiters)
    (href : trySubstituteLeases budget w.state leases lease = .refused → refused.Inv budget) :
    (w.substitute budget leases lease refused rest waiters).Inv budget := by
  have hstate : w.state = total (leases ++ (rest ++ waiters.flatMap Waiter.leases)) :=
    h.state.trans (total_perm hlive)
  rw [World.substitute]
  rcases trySubstituteLeases_total leases (rest ++ waiters.flatMap Waiter.leases) lease with
    hden | ⟨releasedCapacity, hdone, hfits, hle⟩
  · rw [← hstate] at hden
    rw [hden]
    exact href hden
  · rw [← hstate] at hdone hle
    rw [hdone]
    refine ⟨rfl, hfits, h.faults, fun hquiet waiter hmem hwaiting hnotified => ?_⟩
    cases releasedCapacity with
    | true => exact absurd hquiet (Nat.succ_ne_zero _)
    | false => exact refused_mono (hle rfl) (h.refused hquiet waiter (hwait waiter hmem) hwaiting
      hnotified)

theorem live_perm_of_held (hheld : w.held.Perm (leases ++ rest)) :
    w.live.Perm (leases ++ (rest ++ w.waiters.flatMap Waiter.leases)) := by
  rw [← append_assoc]
  exact hheld.append_right _

theorem live_perm_of_waiter {waiter : Waiter} {rest} (hwait : w.waiters.Perm (waiter :: rest)) :
    w.live.Perm (waiter.leases ++ (w.held ++ rest.flatMap Waiter.leases)) := by
  have hleas := hwait.flatMap_right Waiter.leases
  rw [flatMap_cons] at hleas
  refine (hleas.append_left w.held).trans ?_
  rw [← append_assoc, ← append_assoc]
  exact perm_append_comm.append_right _

/-- **Every step keeps the books.** -/
theorem Inv.step (h : w.Inv budget) {event} (hs : w.step budget event = some w') :
    w'.Inv budget := by
  cases event with
  | tryReserve lease =>
    rw [World.step, h.state] at hs
    split at hs
    case isFalse =>
      cases hs
      exact h
    case isTrue hcan =>
      cases hs
      obtain ⟨hresv, hfits⟩ := admit_fits hcan
      -- more is allocated now, so who was refused still is
      refine ⟨hresv, hfits, h.faults, fun hquiet waiter hmem hwaiting hnotified => ?_⟩
      refine refused_mono ?_ (h.refused hquiet waiter hmem hwaiting hnotified)
      rw [h.state, hresv]
      exact ⟨by simp [total], by simp [total], by simp [total]⟩
  | trySubstitute leases rest lease =>
    obtain ⟨hheld, ⟨⟩⟩ := ite_none_right_eq_some.mp hs
    exact h.substitute (live_perm_of_held hheld) (fun _ hmem => hmem) fun _ => h
  | drop lease rest =>
    obtain ⟨hheld, hs⟩ := ite_none_right_eq_some.mp hs
    have hlive : w.live.Perm ([lease] ++ (rest ++ w.waiters.flatMap Waiter.leases)) :=
      live_perm_of_held hheld
    have hrelease : releaseReserved w.state lease =
      .ok (total (rest ++ w.waiters.flatMap Waiter.leases)) := by
      rw [h.state, total_perm hlive]
      simp [releaseReserved, total, Nat.not_lt.mpr (Nat.le_add_right _ _)]
    rw [hrelease] at hs
    cases hs
    -- the notification of this drop is outstanding, and nothing is asked of the waiters until it is
    -- given
    exact ⟨rfl, (h.fits.perm hlive).of_append, h.faults, fun hquiet =>
      absurd hquiet (Nat.succ_ne_zero _)⟩
  | notifyWaiters =>
    obtain ⟨-, ⟨⟩⟩ := ite_none_right_eq_some.mp hs
    have hlive : ({ w with
        notifying := w.notifying - 1
        waiters := w.waiters.map fun waiter => { waiter with notified := true } } : World).live =
          w.live := by
      simp [live, flatMap_map]
    refine ⟨by rw [hlive]; exact h.state, by rw [hlive]; exact h.fits, h.faults, ?_⟩
    -- all who have registered are notified now
    intro _ waiter hmem _ hnotified
    obtain ⟨_, -, rfl⟩ := mem_map.mp hmem
    exact nomatch hnotified
  | enable leases rest lease =>
    obtain ⟨hheld, ⟨⟩⟩ := ite_none_right_eq_some.mp hs
    refine h.regroup ?_ fun waiter hmem => ?_
    · rw [flatMap_cons]
      refine ((live_perm_of_held hheld).trans ?_).symm
      rw [← append_assoc, ← append_assoc]
      exact perm_append_comm.append_right _
    · rcases mem_cons.mp hmem with rfl | hmem
      · exact .inr rfl
      · exact .inl hmem
  | attempt waiter rest =>
    obtain ⟨⟨hwait, -⟩, ⟨⟩⟩ := ite_none_right_eq_some.mp hs
    refine h.substitute (live_perm_of_waiter hwait)
      (fun _ hmem => hwait.mem_iff.mpr (mem_cons_of_mem _ hmem)) fun hden => ?_
    have hlive : ({ w with waiters := { waiter with waiting := true } :: rest } : World).live.Perm
      w.live :=
      ((hwait.flatMap_right Waiter.leases).append_left w.held).symm
    refine ⟨h.state.trans (total_perm hlive).symm, h.fits.perm hlive.symm, h.faults, ?_⟩
    intro hquiet other hmem hwaiting hnotified
    rcases mem_cons.mp hmem with rfl | hmem
    · exact hden
    · exact h.refused hquiet other (hwait.mem_iff.mpr (mem_cons_of_mem _ hmem)) hwaiting hnotified
  | wake waiter rest =>
    obtain ⟨⟨hwait, -⟩, ⟨⟩⟩ := ite_none_right_eq_some.mp hs
    refine h.regroup ((hwait.flatMap_right Waiter.leases).append_left w.held).symm fun other hmem =>
      ?_
    rcases mem_cons.mp hmem with rfl | hmem
    · exact .inr rfl
    · exact .inl (hwait.mem_iff.mpr (mem_cons_of_mem _ hmem))
  | cancel waiter rest =>
    obtain ⟨⟨hwait, -⟩, ⟨⟩⟩ := ite_none_right_eq_some.mp hs
    refine h.regroup ?_ fun other hmem => .inl (hwait.mem_iff.mpr (mem_cons_of_mem _ hmem))
    rw [append_assoc]
    exact (live_perm_of_waiter hwait).symm

/-- **The budget is not overcommitted, and nobody is stranded.**  After every run, what is allocated
is what the leases that are alive amount to, without overflow or release error; two or more leases
are within the limits; and when no notification is under way, whoever waits and was not notified is
still refused. -/
theorem budget_sound (budget : ResourceBudget) (events : List BudgetEvent) (w : World)
    (hrun : runEvents (World.step budget) new events = some w) :
    w.state = ⟨vcpus w.live, memoryMbs w.live, w.live.length⟩ ∧
    vcpus w.live < 2 ^ 32 ∧ memoryMbs w.live < 2 ^ 32 ∧ w.faults = [] ∧
    (2 ≤ w.live.length → (vcpus w.live : ℚ) ≤ budget.admissionLimit ∧
      memoryMbs w.live ≤ budget.effectiveMemoryMb ∧
      (budget.maxConcurrent ≠ 0 → w.live.length ≤ budget.maxConcurrent)) ∧
    (w.notifying = 0 → ∀ waiter ∈ w.waiters, waiter.waiting = true → waiter.notified = false →
      trySubstituteLeases budget w.state waiter.leases waiter.wanted = .refused) := by
  have hnew : new.Inv budget := ⟨rfl, ⟨by decide, by decide, nofun⟩, rfl, nofun⟩
  have h : w.Inv budget := runEvents_invariant (Inv budget) (fun _ _ _ hw hs =>
    hw.step hs) hnew hrun
  exact ⟨h.state, h.fits.vcpu_lt, h.fits.memoryMb_lt, h.faults, h.fits.limits, h.refused⟩

/-- Two leases of one vCPU, of which a task wants to exchange one for a larger one: it waits, and
would be refused again. -/
theorem budget_sound_waiting : ∃ w : World, runEvents (World.step ⟨2, 16, 0⟩) new
        [.tryReserve ⟨1, 8, by decide, by decide⟩, .tryReserve ⟨1, 8, by decide, by decide⟩,
          .enable [⟨1, 8, by decide, by decide⟩] [⟨1, 8, by decide, by decide⟩] ⟨2,
            8, by decide, by decide⟩,
          .attempt ⟨[⟨1, 8, by decide, by decide⟩], ⟨2, 8, by decide, by decide⟩, false, false⟩ []]
            = some w ∧
      (w.notifying = 0 ∧ w.waiters.length = 1 ∧
        ∀ waiter ∈ w.waiters, waiter.waiting = true ∧ waiter.notified = false) ∧
      w.state = ⟨vcpus w.live, memoryMbs w.live, w.live.length⟩ ∧
      ∀ waiter ∈ w.waiters,
        trySubstituteLeases ⟨2, 16, 0⟩ w.state waiter.leases waiter.wanted = .refused := by
  refine exists_run_and (by decide +kernel) fun w hw ⟨hidle, _, hwaiting⟩ => ?_
  obtain ⟨hstate, -, -, -, -, hrefused⟩ := budget_sound _ _ w hw
  exact ⟨hstate, fun waiter hmem =>
    hrefused hidle waiter hmem (hwaiting _ hmem).1 (hwaiting _ hmem).2⟩

end World

end Okou.Runner
