import Okou.Billing.AllowanceCall

/-!
# Allowance admission

Before a run starts, the units that its allowance has left are read; when its usage is
settled, units are applied.  Both look for the windows that are open, but admission
reads windows of an entitlement that has not run out, while settlement uses any window
that was issued and issues others only within the term of the entitlement.  After a
failed payment an entitlement is active for another day, and there the two differ.

## Main results

* `admission_promise_iff` — when settlement applies what admission has promised.
* `admission_promise_grace` — a promise that is not kept.
-/

namespace Okou.Billing

open List

/-! ### What admission reads -/

/-- What admission reports. -/
structure UsageAllowanceAvailability where
  shortRemainingUnits : ℤ
  weeklyRemainingUnits : ℤ
  remainingUnits : ℤ
  deriving DecidableEq, Repr

section Env

variable (env : BillingEnv) (tables : AllowanceTables) (orgId : String)
  (kind : UsageAllowanceWindowKind)

/-- The condition of `lockActiveWindowAt` on a window and the entitlement it is joined to. -/
def activeWindowRow (orgId : String) (kind : UsageAllowanceWindowKind) (time : Time)
    (window : UsageAllowanceWindow) (entitlement : UsageAllowanceEntitlement) : Bool :=
  let currentTime := env.allowanceNow
  decide (entitlement.id = window.entitlementId) && decide (window.orgId = orgId) &&
    decide (entitlement.orgId = orgId) && decide (entitlement.status ∈ activeAllowanceStatuses) &&
    decide (entitlement.effectiveAt ≤ currentTime) &&
    entitlement.expiresAt.all (fun expiresAt => decide (currentTime < expiresAt)) &&
    decide (entitlement.effectiveAt ≤ window.startsAt) && decide (window.kind = kind) &&
    decide (window.startsAt ≤ time) && decide (time < window.expiresAt)

/-- The newest window that is open under an active entitlement. -/
def lockActiveWindowAt (tables : AllowanceTables) (orgId : String) (kind : UsageAllowanceWindowKind)
    (time : Time) : Option UsageAllowanceWindow :=
  let rows := tables.windows.flatMap fun window =>
    (tables.entitlements.filter (activeWindowRow env orgId kind time window)).map fun _ => window
  (rows.insertionSort fun a b => b.startsAt ≤ a.startsAt).head?

/-- What a kind of window leaves, with the limit where none is open. -/
def readWindowAvailability (tables : AllowanceTables) (entitlement : UsageAllowanceEntitlement)
    (kind : UsageAllowanceWindowKind) (time : Time) : ℤ :=
  match lockActiveWindowAt env tables entitlement.orgId kind time with
  | none => windowUnitLimit entitlement kind
  | some window => remainingUnits window

/-- `resolveUsageAllowanceAvailabilityForLockedOrg`, with the tables after it. -/
def resolveUsageAllowanceAvailabilityForLockedOrg (tables : AllowanceTables) (orgId : String) :
    Option UsageAllowanceAvailability × AllowanceTables :=
  match loadActiveUsageAllowanceEntitlement env tables orgId with
  | (none, tables) => (none, tables)
  | (some entitlement, tables) =>
    let time := env.allowanceNow
    let shortRemainingUnits := readWindowAvailability env tables entitlement .short time
    let weeklyRemainingUnits := readWindowAvailability env tables entitlement .weekly time
    (some ⟨shortRemainingUnits, weeklyRemainingUnits, min shortRemainingUnits weeklyRemainingUnits⟩,
      tables)

end Env

/-! ### What is compared -/

/-- The units that settlement applies to one event. -/
def appliedUnits (env : BillingEnv) (tables : AllowanceTables) (orgId : String)
    (event : UsageAllowanceCandidate) : ℤ :=
  (dictGet event.usageEventId (applyUsageAllowanceToUsageEventsInLockedTransaction env tables orgId
    [event]).1).getD 0

instance (window : UsageAllowanceWindow) (orgId : String) (kind : UsageAllowanceWindowKind)
    (time : Time) : Decidable (window.OpenFor orgId kind time) :=
  inferInstanceAs (Decidable (_ ∧ _ ∧ _))

/-- The window of a kind that is open at a time. -/
def issuedWindowAt (tables : AllowanceTables) (orgId : String) (kind : UsageAllowanceWindowKind)
    (time : Time) : Option UsageAllowanceWindow :=
  tables.windows.find? fun window => decide (window.OpenFor orgId kind time)

/-- What is left of the windows that are open at a time; nothing, if one is missing. -/
def issuedRemainingUnits (tables : AllowanceTables) (orgId : String) (time : Time) : ℤ :=
  match issuedWindowAt tables orgId .short time, issuedWindowAt tables orgId .weekly time with
  | some shortWindow, some weeklyWindow =>
    min (remainingUnits shortWindow) (remainingUnits weeklyWindow)
  | _, _ => 0

/-- The states in which admission and settlement are compared, with an event that is
settled at the time of admission. -/
structure AdmissionState (env : BillingEnv) (tables : AllowanceTables) (orgId : String)
    (event : UsageAllowanceCandidate) : Prop extends AllowanceKeys tables [event] where
  /-- The organization has one entitlement at most. -/
  entitlement : ∀ row ∈ tables.entitlements, ∀ row' ∈ tables.entitlements, row.orgId = orgId →
    row'.orgId = orgId → row = row'
  /-- Its windows last for some time, as the schema has it. -/
  seconds : ∀ row ∈ tables.entitlements, ∀ kind, 0 < windowDurationSeconds row kind
  /-- Every window that has not expired belongs to it, and starts in its term. -/
  windows : ∀ row ∈ tables.entitlements, row.orgId = orgId → ∀ window ∈ tables.windows,
    window.orgId = orgId → env.allowanceNow < window.expiresAt →
      window.entitlementId = row.id ∧ row.effectiveAt ≤ window.startsAt
  /-- One window of each kind is open at a time, at most. -/
  single : ∀ kind time, ∀ window ∈ tables.windows, ∀ window' ∈ tables.windows,
    window.OpenFor orgId kind time → window'.OpenFor orgId kind time → window = window'
  /-- The entitlement is not refreshed from Stripe. -/
  unrefreshed : ∀ row ∈ tables.entitlements, row.orgId = orgId →
    (row.expiresAt.all fun expiresAt =>
      decide (activeAllowanceCutoff row.status env.allowanceNow < expiresAt)) = true
  /-- The event is new, costs something and happens now. -/
  new : allocatedUnits tables.allocations event.usageEventId = none
  gross : 0 < event.grossUnits
  anchored : event.billingAnchorAt = some env.allowanceNow

/-- The entitlement of an organization is within its term. -/
def WithinTerm (env : BillingEnv) (tables : AllowanceTables) (orgId : String) : Prop :=
  ∀ row ∈ tables.entitlements, row.orgId = orgId → entitlementCoversAt row env.allowanceNow = true

/-- The windows that are open leave, up to the units of an event, as much as the limits of the
entitlement do. -/
def LimitsLeft (env : BillingEnv) (tables : AllowanceTables) (orgId : String) (units : ℤ) : Prop :=
  ∀ row ∈ tables.entitlements, row.orgId = orgId →
    min units (issuedRemainingUnits tables orgId env.allowanceNow) =
      min units (min (windowUnitLimit row .short) (windowUnitLimit row .weekly))

/-! ### Admission -/

section Admission

variable {env : BillingEnv} {tables : AllowanceTables} {orgId : String}
  {event : UsageAllowanceCandidate}

variable {kind : UsageAllowanceWindowKind} {time : Time} {entitlement : UsageAllowanceEntitlement}
  {states : List UsageAllowanceWindowState}

variable {window : UsageAllowanceWindow}

theorem issuedWindowAt_some (h : issuedWindowAt tables orgId kind time = some window) :
    window ∈ tables.windows ∧ window.OpenFor orgId kind time := by
  refine ⟨mem_of_find?_eq_some h, ?_⟩
  have hopen := find?_some h
  exact of_decide_eq_true hopen

theorem issuedWindowAt_none : issuedWindowAt tables orgId kind time = none ↔
      ∀ window ∈ tables.windows, ¬window.OpenFor orgId kind time := by
  unfold issuedWindowAt
  simp

section

variable (h : AdmissionState env tables orgId event)

include h

/-- What the entitlement is that admission loads. -/
theorem AdmissionState.load (hload : (loadActiveUsageAllowanceEntitlement env tables orgId).1 =
    some entitlement) :
    loadActiveUsageAllowanceEntitlement env tables orgId = (some entitlement, tables) ∧
      entitlement ∈ tables.entitlements ∧ entitlement.orgId = orgId ∧
      entitlement.status ∈ activeAllowanceStatuses ∧
        entitlement.effectiveAt ≤ env.allowanceNow := by
  unfold loadActiveUsageAllowanceEntitlement at hload ⊢
  dsimp only at hload ⊢
  cases hfind : tables.entitlements.find? fun row => decide (row.orgId = orgId) &&
      decide (row.status ∈ activeAllowanceStatuses) &&
        decide (row.effectiveAt ≤ env.allowanceNow) &&
      (row.expiresAt.all (fun expiresAt => env.allowanceNow < expiresAt) ||
        row.stripeSubscriptionId.isSome) with
  | none =>
    rw [hfind] at hload
    cases hload
  | some row =>
    have hmem := mem_of_find?_eq_some hfind
    have hcond := find?_some hfind
    simp only [Bool.and_eq_true, decide_eq_true_eq] at hcond
    obtain ⟨⟨⟨horg, hstat⟩, heff⟩, _⟩ := hcond
    have hcut := h.unrefreshed row hmem horg
    simp only [hfind, hcut, if_true, Option.some.injEq] at hload ⊢
    subst hload
    exact ⟨rfl, hmem, horg, hstat, heff⟩

omit h in
theorem mem_activeRows : window ∈ (tables.windows.flatMap fun window =>
        (tables.entitlements.filter (activeWindowRow env orgId kind time window)).map fun _ =>
          window) ↔
      window ∈ tables.windows ∧
        ∃ entitlement ∈ tables.entitlements,
          activeWindowRow env orgId kind time window entitlement := by
  simp only [mem_flatMap, mem_map, mem_filter]
  constructor
  · rintro ⟨other, hother, entitlement, hent, rfl⟩
    exact ⟨hother, entitlement, hent⟩
  · rintro ⟨hwin, entitlement, hent⟩
    exact ⟨window, hwin, entitlement, hent, rfl⟩

/-- Within the term, admission reads the windows that were issued. -/
theorem AdmissionState.lockActive_within (hmem : entitlement ∈ tables.entitlements)
    (horg : entitlement.orgId = orgId) (hstat : entitlement.status ∈ activeAllowanceStatuses)
    (hcov : entitlementCoversAt entitlement env.allowanceNow) (kind) :
    lockActiveWindowAt env tables orgId kind env.allowanceNow = issuedWindowAt tables orgId kind
      env.allowanceNow := by
  have hrow : ∀ window, window ∈ (tables.windows.flatMap fun window => (tables.entitlements.filter
      (activeWindowRow env orgId kind env.allowanceNow window)).map fun _ => window) ↔
        window ∈ tables.windows ∧ window.OpenFor orgId kind env.allowanceNow := by
    intro window
    rw [mem_activeRows]
    constructor
    · rintro ⟨hwin, other, _, hcond⟩
      simp only [activeWindowRow, Bool.and_eq_true, decide_eq_true_eq] at hcond
      obtain ⟨⟨⟨⟨⟨⟨⟨⟨⟨_, hwindowOrg⟩, _⟩, _⟩, _⟩, _⟩, _⟩, hkind⟩, hstarts⟩, hexp⟩ := hcond
      exact ⟨hwin, hwindowOrg, hkind, hstarts, hexp⟩
    · rintro ⟨hwin, hopen⟩
      obtain ⟨hid, hstarts⟩ := h.windows entitlement hmem horg window hwin hopen.1 hopen.2.2.2
      obtain ⟨heff, hexp⟩ := Bool.and_eq_true_iff.mp hcov
      refine ⟨hwin, entitlement, hmem, ?_⟩
      simp only [activeWindowRow, Bool.and_eq_true, decide_eq_true_eq]
      exact ⟨⟨⟨⟨⟨⟨⟨⟨⟨hid.symm, hopen.1⟩, horg⟩, hstat⟩, of_decide_eq_true heff⟩, hexp⟩, hstarts⟩,
        hopen.2.1⟩, hopen.2.2.1⟩, hopen.2.2.2⟩
  unfold lockActiveWindowAt
  cases hiss : issuedWindowAt tables orgId kind env.allowanceNow with
  | none =>
    rw [head?_eq_none_iff, eq_nil_iff_forall_not_mem]
    intro window hwin
    obtain ⟨hin, hopen⟩ := (hrow window).mp ((mem_insertionSort _).mp hwin)
    exact issuedWindowAt_none.mp hiss window hin hopen
  | some window =>
    obtain ⟨hin, hopen⟩ := issuedWindowAt_some hiss
    cases hhead : (List.insertionSort (fun a b : UsageAllowanceWindow => b.startsAt ≤ a.startsAt)
        (tables.windows.flatMap fun window => (tables.entitlements.filter
          (activeWindowRow env orgId kind env.allowanceNow window)).map fun _ => window)).head? with
    | none =>
      rw [head?_eq_none_iff, eq_nil_iff_forall_not_mem] at hhead
      exact absurd ((mem_insertionSort _).mpr ((hrow window).mpr ⟨hin, hopen⟩)) (hhead window)
    | some other =>
      obtain ⟨hother, hotherOpen⟩ := (hrow other).mp
        ((mem_insertionSort _).mp (mem_of_mem_head? hhead))
      rw [h.single kind env.allowanceNow other hother window hin hotherOpen hopen]

/-- After the term, admission reads no window. -/
theorem AdmissionState.lockActive_after (hmem : entitlement ∈ tables.entitlements)
    (horg : entitlement.orgId = orgId)
    (hcov : entitlementCoversAt entitlement env.allowanceNow ≠ true) (kind) :
    lockActiveWindowAt env tables orgId kind env.allowanceNow = none := by
  unfold lockActiveWindowAt
  rw [head?_eq_none_iff, eq_nil_iff_forall_not_mem]
  intro window hwin
  obtain ⟨-, other, hother, hcond⟩ := mem_activeRows.mp ((mem_insertionSort _).mp hwin)
  simp only [activeWindowRow, Bool.and_eq_true, decide_eq_true_eq] at hcond
  obtain ⟨⟨⟨⟨⟨⟨⟨⟨_, hotherOrg⟩, _⟩, heff⟩, hexp⟩, _⟩, _⟩, _⟩, _⟩ := hcond
  obtain rfl := h.entitlement other hother entitlement hmem hotherOrg horg
  exact hcov (Bool.and_eq_true_iff.mpr ⟨decide_eq_true heff, hexp⟩)

/-! ### Settlement -/

/-- Settlement finds the window that was issued. -/
theorem AdmissionState.latest_lock (kind) :
    latestIssuedWindowAt (lockIssuedWindowsForTimes tables orgId kind [env.allowanceNow])
      env.allowanceNow = issuedWindowAt tables orgId kind env.allowanceNow := by
  have hloaded := LoadedKind.lock h.windowIds orgId kind [env.allowanceNow]
  have hnow := mem_singleton_self env.allowanceNow
  cases hiss : issuedWindowAt tables orgId kind env.allowanceNow with
  | none => exact (hloaded.latest_none hnow).mpr (issuedWindowAt_none.mp hiss)
  | some window =>
    obtain ⟨hin, hopen⟩ := issuedWindowAt_some hiss
    cases hlat : latestIssuedWindowAt (lockIssuedWindowsForTimes tables orgId kind
        [env.allowanceNow]) env.allowanceNow with
    | none => exact absurd hopen ((hloaded.latest_none hnow).mp hlat window hin)
    | some other =>
      obtain ⟨hother, hotherOpen⟩ := hloaded.latest_some hlat
      rw [h.single kind env.allowanceNow other hother window hin hotherOpen hopen]

omit h in
/-- What a kind of window leaves for one event: what is left of the window that is open,
or else, within the term of the entitlement, its limit. -/
theorem Issued.latest_single {anchored table issued}
    (h : Issued entitlement kind (byAllowanceTime [anchored]) states table issued)
    (hsec : 0 < windowDurationSeconds entitlement kind)
    (hunits : 0 ≤ windowUnitLimit entitlement kind) :
    latestIssuedWindowAt (states ++ issued.map unchanged) anchored.allowanceAt =
        latestIssuedWindowAt states anchored.allowanceAt ∧
      (latestIssuedWindowAt states anchored.allowanceAt = none →
        entitlementCoversAt entitlement anchored.allowanceAt ≠ true) ∨
    latestIssuedWindowAt states anchored.allowanceAt = none ∧
      entitlementCoversAt entitlement anchored.allowanceAt ∧
      ∃ window, latestIssuedWindowAt (states ++ issued.map unchanged) anchored.allowanceAt =
        some window ∧ remainingUnits window = windowUnitLimit entitlement kind := by
  have hself : anchored ∈ byAllowanceTime [anchored] :=
    mem_byAllowanceTime.mpr (mem_singleton_self _)
  have htime : ∀ window ∈ issued, window.startsAt = anchored.allowanceAt := by
    intro window hwin
    obtain ⟨other, hother, hstarts, _⟩ := h.event window hwin
    rw [← hstarts, mem_singleton.mp (mem_byAllowanceTime.mp hother)]
  by_cases hmiss : latestIssuedWindowAt states anchored.allowanceAt = none ∧
      entitlementCoversAt entitlement anchored.allowanceAt
  · refine .inr ⟨hmiss.1, hmiss.2, ?_⟩
    obtain ⟨state, hstate, hopen⟩ := h.opened hsec anchored hself hmiss.2
    cases hlat : latestIssuedWindowAt (states ++ issued.map unchanged) anchored.allowanceAt with
    | none => exact absurd hopen (latestIssuedWindowAt_none.mp hlat state hstate)
    | some window =>
      refine ⟨window, rfl, ?_⟩
      obtain ⟨hcov, found, hfound, rfl⟩ := latestIssuedWindowAt_some hlat
      rcases mem_append.mp hfound with hold | hnew
      · exact absurd hcov (latestIssuedWindowAt_none.mp hmiss.1 found hold)
      · obtain ⟨window, hwin, rfl⟩ := mem_map.mp hnew
        obtain ⟨_, _, hlimit, hcons⟩ := h.fresh window hwin
        show max (window.unitLimit - window.consumedUnits) 0 = windowUnitLimit entitlement kind
        rw [hlimit, hcons, sub_zero, max_eq_left hunits]
  · left
    -- nothing is issued
    have hnil : issued = [] := by
      cases issued with
      | nil => rfl
      | cons window rest =>
        refine absurd ⟨?_, ?_⟩ hmiss
        · obtain ⟨hstates, _⟩ := h.missing [] window rest rfl
          rw [htime window mem_cons_self] at hstates
          exact latestIssuedWindowAt_none.mpr hstates
        · rw [← htime window mem_cons_self]
          exact (h.entitled window mem_cons_self).2.2
    rw [hnil, map_nil, append_nil]
    exact ⟨rfl, fun hnone hcov => hmiss ⟨hnone, hcov⟩⟩

/-- The units that one event gets from two windows. -/
theorem AdmissionState.appliedUnits_eq : appliedUnits env tables orgId event =
      match latestIssuedWindowAt (ensured env tables orgId [⟨event, env.allowanceNow⟩]).1
        env.allowanceNow,
        latestIssuedWindowAt (ensured env tables orgId [⟨event, env.allowanceNow⟩]).2.1
          env.allowanceNow with
      | some shortWindow, some weeklyWindow =>
        min event.grossUnits (min (remainingUnits shortWindow) (remainingUnits weeklyWindow)) | _,
          _ => 0 := by
  have hevents : callEvents tables orgId [event] = [⟨event, env.allowanceNow⟩] := by
    have hres : unresolvedEvents tables [event] = [event] :=
      filter_cons_of_pos (by simp [h.gross, h.new])
    rw [callEvents, hres, map_singleton, anchor, eventTime, h.anchored]
    rfl
  unfold appliedUnits
  rw [returned_newRows h.toAllowanceKeys env orgId (mem_singleton_self event) h.gross,
    allocatedUnits_append, h.new, newRows, hevents]
  generalize ensured env tables orgId [⟨event, env.allowanceNow⟩] = memory
  have hrows : allocationRows orgId memory.1 memory.2.1 [⟨event, env.allowanceNow⟩] =
    allocationRow .. := rfl
  rw [hrows]
  rcases allocationRow_cases orgId memory.1 memory.2.1 [] ⟨event, env.allowanceNow⟩ with
    ⟨hnone, hnil⟩ | ⟨shortWindow, weeklyWindow, hshort, hweekly, hrow⟩
  · rw [hnil]
    rcases hnone with hnone | hnone
    · rw [hnone]
      rfl
    · rw [hnone]
      cases latestIssuedWindowAt memory.1 env.allowanceNow <;> rfl
  · rw [hrow, hshort, hweekly]
    have hunits : availableUnits [] event.grossUnits shortWindow weeklyWindow =
        min event.grossUnits (min (remainingUnits shortWindow) (remainingUnits weeklyWindow)) := by
      rw [availableUnits, charge_nil, charge_nil]
    have hnonn : 0 ≤ availableUnits [] event.grossUnits shortWindow weeklyWindow := by
      exact le_min h.gross.le (le_min (le_max_right _ _) (le_max_right _ _))
    dsimp only
    rw [← hunits]
    split
    · simp [allocatedUnits, rowFor]
    · next hzero => exact le_antisymm hnonn (not_lt.mp hzero)

/-- What settlement has of a kind: the window that was issued, or, where there is none and
the entitlement is within its term, a new one. -/
def Leaves (env : BillingEnv) (tables : AllowanceTables) (orgId : String)
    (entitlement : UsageAllowanceEntitlement) (kind : UsageAllowanceWindowKind)
    (states : List UsageAllowanceWindowState) : Prop :=
  latestIssuedWindowAt states env.allowanceNow = issuedWindowAt tables orgId kind env.allowanceNow ∧
      (issuedWindowAt tables orgId kind env.allowanceNow = none →
        entitlementCoversAt entitlement env.allowanceNow ≠ true) ∨
    issuedWindowAt tables orgId kind env.allowanceNow = none ∧
      entitlementCoversAt entitlement env.allowanceNow = true ∧
      ∃ window, latestIssuedWindowAt states env.allowanceNow = some window ∧
        remainingUnits window = windowUnitLimit entitlement kind

theorem AdmissionState.leaves (hmem : entitlement ∈ tables.entitlements)
    (hload : loadActiveUsageAllowanceEntitlement env tables orgId = (some entitlement, tables)) :
    Leaves env tables orgId entitlement .short
      (ensured env tables orgId [⟨event, env.allowanceNow⟩]).1 ∧
      Leaves env tables orgId entitlement .weekly
        (ensured env tables orgId [⟨event, env.allowanceNow⟩]).2.1 := by
  have hshort := h.latest_lock .short
  have hweekly := h.latest_lock .weekly
  unfold ensured Leaves
  dsimp only [map_singleton]
  rw [← hshort, ← hweekly]
  rcases ensureIssuedWindowsForCandidates_spec env tables orgId [⟨event, env.allowanceNow⟩]
      (lockIssuedWindowsForTimes tables orgId .short [env.allowanceNow])
      (lockIssuedWindowsForTimes tables orgId .weekly [env.allowanceNow]) with
    ⟨hboth, heq⟩ | ⟨hnone, _⟩ | ⟨found, issuedShort, issuedWeekly, hfound, heq, hissuedShort,
      hissuedWeekly⟩
  · obtain ⟨hshortOpen, hweeklyOpen⟩ := hboth _ (mem_singleton_self _)
    rw [heq]
    exact ⟨.inl ⟨rfl, fun hnone => absurd hnone hshortOpen⟩,
      .inl ⟨rfl, fun hnone => absurd hnone hweeklyOpen⟩⟩
  · rw [hload] at hnone
    cases hnone
  · rw [hload] at hfound
    cases hfound
    rw [heq]
    exact ⟨hissuedShort.latest_single (h.seconds _ hmem _) (h.units _ hmem _),
      hissuedWeekly.latest_single (h.seconds _ hmem _) (h.units _ hmem _)⟩

end

/-- Within the term, settlement has what admission read. -/
theorem Leaves.within (hleav : Leaves env tables orgId entitlement kind states)
    (hcov : entitlementCoversAt entitlement env.allowanceNow)
    (hlock : lockActiveWindowAt env tables entitlement.orgId kind env.allowanceNow =
      issuedWindowAt tables orgId kind env.allowanceNow) :
    ∃ window, latestIssuedWindowAt states env.allowanceNow = some window ∧
      remainingUnits window = readWindowAvailability env tables entitlement kind
        env.allowanceNow := by
  unfold readWindowAvailability
  rw [hlock]
  rcases hleav with ⟨hlat, hterm⟩ | ⟨hnone, _, window, hlat, hrem⟩
  · cases hiss : issuedWindowAt tables orgId kind env.allowanceNow with
    | none => exact absurd hcov (hterm hiss)
    | some window => exact ⟨window, hlat.trans hiss, rfl⟩
  · rw [hnone]
    exact ⟨window, hlat, hrem⟩

/-- After the term, settlement has the windows that were issued. -/
theorem Leaves.after (hleav : Leaves env tables orgId entitlement kind states)
    (hcov : entitlementCoversAt entitlement env.allowanceNow ≠ true) :
    latestIssuedWindowAt states env.allowanceNow = issuedWindowAt tables orgId kind
      env.allowanceNow := by
  rcases hleav with ⟨hlat, _⟩ | ⟨_, hterm, _⟩
  · exact hlat
  · exact absurd hterm hcov

end Admission

/-- **Settlement applies what admission promised exactly if** the entitlement is within its
term, or the windows that were issued leave as much as its limits. -/
theorem admission_promise_iff (env : BillingEnv) (tables : AllowanceTables) (orgId : String)
    (event : UsageAllowanceCandidate) (h : AdmissionState env tables orgId event)
    (availability : UsageAllowanceAvailability)
    (havailable : (resolveUsageAllowanceAvailabilityForLockedOrg env tables orgId).1 =
      some availability) :
    appliedUnits env tables orgId event = min event.grossUnits availability.remainingUnits ↔
      WithinTerm env tables orgId ∨ LimitsLeft env tables orgId event.grossUnits := by
  unfold resolveUsageAllowanceAvailabilityForLockedOrg at havailable
  cases hfound : (loadActiveUsageAllowanceEntitlement env tables orgId).1 with
  | none =>
    rw [← Prod.eta (loadActiveUsageAllowanceEntitlement env tables orgId), hfound] at havailable
    cases havailable
  | some entitlement =>
    obtain ⟨hload, hmem, horg, hstat, heff⟩ := h.load hfound
    rw [hload] at havailable
    cases havailable
    obtain ⟨hshort, hweekly⟩ := h.leaves hmem hload
    rw [h.appliedUnits_eq]
    by_cases hcov : entitlementCoversAt entitlement env.allowanceNow
    · have hterm : WithinTerm env tables orgId := by
        intro row hrow hrowOrg
        rw [h.entitlement row hrow entitlement hmem hrowOrg horg]
        exact hcov
      have hlock := h.lockActive_within hmem horg hstat hcov
      obtain ⟨shortWindow, hshortLatest, hshortUnits⟩ :=
        hshort.within hcov (horg.symm ▸ hlock .short)
      obtain ⟨weeklyWindow, hweeklyLatest, hweeklyUnits⟩ :=
        hweekly.within hcov (horg.symm ▸ hlock .weekly)
      rw [hshortLatest, hweeklyLatest]
      refine iff_of_true ?_ (.inl hterm)
      dsimp only
      rw [hshortUnits, hweeklyUnits]
    · have hterm : ¬WithinTerm env tables orgId := fun hterm => hcov (hterm entitlement hmem horg)
      have hread (kind) : readWindowAvailability env tables entitlement kind env.allowanceNow =
          windowUnitLimit entitlement kind := by
        rw [readWindowAvailability, horg, h.lockActive_after hmem horg hcov]
      have hlimits : LimitsLeft env tables orgId event.grossUnits ↔
          min event.grossUnits (issuedRemainingUnits tables orgId env.allowanceNow) =
            min event.grossUnits (min (windowUnitLimit entitlement .short)
              (windowUnitLimit entitlement .weekly)) := by
        refine ⟨fun hleft => hleft entitlement hmem horg, fun hleft row hrow hrowOrg => ?_⟩
        rwa [h.entitlement row hrow entitlement hmem hrowOrg horg]
      rw [hshort.after hcov, hweekly.after hcov, or_iff_right hterm, hlimits]
      dsimp only
      rw [hread, hread]
      unfold issuedRemainingUnits
      split
      · rfl
      · rw [min_eq_right h.gross.le]

/-- An entitlement to 100 units in five hours and 150 in a week. -/
def admissionTables (status : AllowanceStatus) (expiresAt : Option Time) : AllowanceTables where
  entitlements := [⟨1, "org", status, 18000, 100, 604800, 150, 0, expiresAt, some "sub"⟩]
  windows := []
  allocations := []
  agentRuns := []

/-- An event of 50 units. -/
def admissionEvent (time : Time) : UsageAllowanceCandidate := ⟨1, none, some time, 50, time⟩

theorem admissionTables_ready {status} {expiresAt} {time}
    (hcut : (expiresAt.all fun expiresAt => activeAllowanceCutoff status time < expiresAt) =
      true) : AdmissionState (quietEnv time) (admissionTables status expiresAt) "org"
        (admissionEvent time) := by
  have hrow : ∀ row ∈ (admissionTables status expiresAt).entitlements,
      row = ⟨1, "org", status, 18000, 100, 604800, 150, 0, expiresAt, some "sub"⟩ :=
    fun row hrow => mem_singleton.mp hrow
  constructor
  case toAllowanceKeys =>
    refine ⟨nodup_nil, nodup_nil, nodup_nil, nodup_singleton _, fun row hmem kind => ?_⟩
    rw [hrow row hmem]
    cases kind <;> simp [windowUnitLimit]
  case entitlement =>
    intro row hmem row' hmem' _ _
    rw [hrow row hmem, hrow row' hmem']
  case seconds =>
    intro row hmem kind
    rw [hrow row hmem]
    cases kind <;> simp [windowDurationSeconds]
  case windows => exact fun _ _ _ window hwin => absurd hwin not_mem_nil
  case single => exact fun _ _ window hwin => absurd hwin not_mem_nil
  case unrefreshed =>
    intro row hmem _
    rw [hrow row hmem]
    exact hcut
  case new => rfl
  case gross => simp [admissionEvent]
  case anchored => rfl

theorem admission_promise_iff_active :
    AdmissionState (quietEnv 1000) (admissionTables .active (some 5000)) "org" (admissionEvent 1000)
      ∧
    (resolveUsageAllowanceAvailabilityForLockedOrg (quietEnv 1000)
      (admissionTables .active (some 5000))
      "org").1 = some ⟨100, 150, 100⟩ ∧
    (appliedUnits (quietEnv 1000) (admissionTables .active (some 5000)) "org" (admissionEvent 1000)
        = min 50 100 ↔ WithinTerm (quietEnv 1000) (admissionTables .active (some 5000)) "org" ∨
          LimitsLeft (quietEnv 1000) (admissionTables .active (some 5000)) "org" 50) := by
  have hstate : AdmissionState (quietEnv 1000) (admissionTables .active (some 5000)) "org"
    (admissionEvent 1000) :=
    admissionTables_ready (by decide)
  refine ⟨hstate, ?havailable, admission_promise_iff _ _ _ _ hstate ⟨100, 150, 100⟩ ?havailable⟩
  decide +kernel

/-- **A promise that is not kept**: the payment has failed and the term has ended a second
ago; admission promises 100 units, and settlement applies none. -/
theorem admission_promise_grace :
    AdmissionState (quietEnv 6000) (admissionTables .pastDue (some 5000)) "org"
      (admissionEvent 6000) ∧
    (resolveUsageAllowanceAvailabilityForLockedOrg (quietEnv 6000)
      (admissionTables .pastDue (some 5000))
      "org").1 = some ⟨100, 150, 100⟩ ∧
    appliedUnits (quietEnv 6000) (admissionTables .pastDue (some 5000)) "org" (admissionEvent 6000)
      = 0 ∧
    min (admissionEvent 6000).grossUnits 100 = 50 :=
  ⟨admissionTables_ready (by decide), by decide +kernel, by decide +kernel, by decide⟩

end Okou.Billing
