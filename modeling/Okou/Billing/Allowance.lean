import Mathlib.Data.List.Sort
import Okou.Billing.Tables

/-!
# Usage allowances

`usage-allowance.service.ts`, the part that settlement runs: an event that has no
allocation yet is covered by what is left of the short and the weekly window that
are open at its time; where none is open and the entitlement covers the time, one
is issued.
-/

namespace Okou.Billing

open List UsageAllowanceAllocation

/-! ### Entitlements -/

def activeAllowanceStatuses : List AllowanceStatus :=
  [.active, .manualActive, .trialing, .pastDue, .unpaid]

def terminalAllowanceStatuses : List AllowanceStatus := [.canceled, .incompleteExpired]

def paymentFailedAllowanceStatuses : List AllowanceStatus := [.pastDue, .unpaid]

def paymentFailureAllowanceGraceMs : ℤ := 24 * 60 * 60 * 1000

variable (entitlement : UsageAllowanceEntitlement) (allocations : List UsageAllowanceAllocation)

def windowDurationSeconds : UsageAllowanceWindowKind → ℤ
  | .short => entitlement.shortWindowSeconds
  | .weekly => entitlement.weeklyWindowSeconds

def windowUnitLimit : UsageAllowanceWindowKind → ℤ
  | .short => entitlement.shortWindowUnits
  | .weekly => entitlement.weeklyWindowUnits

def addSeconds (date : Time) (seconds : ℤ) : Time := date + seconds * 1000

def entitlementCoversAt (time : Time) : Bool :=
  decide (entitlement.effectiveAt ≤ time) &&
    entitlement.expiresAt.all fun expiresAt => decide (time < expiresAt)

def remainingUnits (window : UsageAllowanceWindow) : ℤ :=
  max (window.unitLimit - window.consumedUnits) 0

def subscriptionScheduledEnd (subscription : UsageAllowanceSubscription) : Option Time :=
  subscription.currentPeriodEnd.map fun periodEnd =>
    match subscription.cancelAt with
    | none => periodEnd * 1000
    | some cancelAt => if cancelAt * 1000 < periodEnd * 1000 then cancelAt * 1000
      else periodEnd * 1000

def activeAllowanceCutoff (status : AllowanceStatus) (now : Time) : Time :=
  if status ∈ paymentFailedAllowanceStatuses then now - paymentFailureAllowanceGraceMs else now

/-- Write the status and the end of an entitlement. -/
def setEntitlement (tables : AllowanceTables) (id : Uuid) (status : AllowanceStatus)
    (expiresAt : Time) : AllowanceTables :=
  { tables with
    entitlements := tables.entitlements.map fun entitlement =>
      if entitlement.id = id then { entitlement with status := status, expiresAt := some expiresAt }
      else entitlement }

section Env

variable (env : BillingEnv)

variable (tables : AllowanceTables) (entitlement : UsageAllowanceEntitlement) (orgId : String)
  (kind : UsageAllowanceWindowKind)

def refreshUsageAllowanceEntitlementFromStripe (now : Time) :
    Option UsageAllowanceEntitlement × AllowanceTables :=
  match entitlement.stripeSubscriptionId with
  | none => (none, tables)
  | some subscriptionId =>
    if subscriptionId = "" then (none, tables)
    else
      let subscription := env.retrieveSubscription subscriptionId
      if subscription.status ∈ terminalAllowanceStatuses then
        (none, setEntitlement tables entitlement.id .canceled now)
      else if subscription.status ∉ activeAllowanceStatuses then (none, tables)
      else
        match subscriptionScheduledEnd subscription with
        | none => (none, tables)
        | some periodEnd =>
          if periodEnd ≤ activeAllowanceCutoff subscription.status now then (none, tables)
          else
            (some { entitlement with status := subscription.status, expiresAt := some periodEnd },
              setEntitlement tables entitlement.id subscription.status periodEnd)

def loadActiveUsageAllowanceEntitlement : Option UsageAllowanceEntitlement × AllowanceTables :=
  let currentTime := env.allowanceNow
  match tables.entitlements.find? fun row =>
      decide (row.orgId = orgId) && decide (row.status ∈ activeAllowanceStatuses) &&
        decide (row.effectiveAt ≤ currentTime) &&
        (row.expiresAt.all (fun expiresAt => decide (currentTime < expiresAt)) ||
          row.stripeSubscriptionId.isSome) with
  | none => (none, tables)
  | some row =>
    if row.expiresAt.all fun expiresAt =>
        decide (activeAllowanceCutoff row.status currentTime < expiresAt) then
      (some row, tables)
    else refreshUsageAllowanceEntitlementFromStripe env tables row currentTime

/-! ### Events and windows -/

/-- `UsageAllowanceEventInput`, and `UsageAllowanceCandidate`. -/
structure UsageAllowanceCandidate where
  usageEventId : Uuid
  runId : Option Uuid
  billingAnchorAt : Option Time
  grossUnits : ℤ
  occurredAt : Time

structure AnchoredUsageAllowanceCandidate where
  candidate : UsageAllowanceCandidate
  allowanceAt : Time

/-- `UsageAllowanceWindowState`: a window whose consumption may have changed since it was
read. -/
structure UsageAllowanceWindowState where
  window : UsageAllowanceWindow
  initialConsumedUnits : ℤ

variable (candidates : List AnchoredUsageAllowanceCandidate)
  (shortWindows weeklyWindows : List UsageAllowanceWindowState)

variable (windows : List UsageAllowanceWindowState)

def loadExistingUsageAllowanceAllocations (usageEventIds : List Uuid) : List (Uuid × ℤ) :=
  dictMerge [] ((tables.allocations.filter fun row => row.usageEventId ∈ usageEventIds).map
    fun row =>
    (row.usageEventId, row.unitsApplied))

def loadRunCreatedAts (runIds : List Uuid) : List (Uuid × Time) :=
  dictMerge [] ((tables.agentRuns.filter fun row =>
    decide (row.orgId = orgId) && decide (row.id ∈ runIds)).map fun row => (row.id, row.createdAt))

def anchorUsageAllowanceCandidates
    (candidates : List UsageAllowanceCandidate) : List AnchoredUsageAllowanceCandidate :=
  let runIds := (candidates.filterMap fun candidate =>
    if candidate.billingAnchorAt.isNone then candidate.runId else none).eraseDups
  let runCreatedAtById := loadRunCreatedAts tables orgId runIds
  candidates.map fun candidate =>
    let runCreatedAt := candidate.runId.bind fun runId => dictGet runId runCreatedAtById
    ⟨candidate, (candidate.billingAnchorAt.orElse fun _ => runCreatedAt).getD candidate.occurredAt⟩

def lockIssuedWindowsForTimes : List Time → List UsageAllowanceWindowState
  | [] => []
  | time :: times =>
    let earliestAt := times.foldl min time
    let latestAt := times.foldl max time
    let windows := tables.windows.filter fun window =>
      decide (window.orgId = orgId) && decide (window.kind = kind) &&
        decide (window.startsAt ≤ latestAt) && decide (earliestAt < window.expiresAt)
    (windows.insertionSort fun a b => a.id ≤ b.id).map fun window => ⟨window, window.consumedUnits⟩

def latestIssuedWindowAt (time : Time) : Option UsageAllowanceWindow :=
  windows.foldl (fun latest state =>
    if state.window.startsAt ≤ time ∧ time < state.window.expiresAt ∧
        (latest.all fun latest => decide (latest.startsAt < state.window.startsAt)) = true then
      some state.window
    else latest) none

def insertWindow (startsAt : Time) (createdByRunId : Option Uuid) :
    UsageAllowanceWindowState × AllowanceTables :=
  let window : UsageAllowanceWindow :=
    { id := env.newId (tables.windows.map UsageAllowanceWindow.id)
      orgId := entitlement.orgId
      entitlementId := entitlement.id
      kind := kind
      startsAt := startsAt
      expiresAt := addSeconds startsAt (windowDurationSeconds entitlement kind)
      unitLimit := windowUnitLimit entitlement kind
      consumedUnits := 0
      createdByRunId := createdByRunId }
  (⟨window, 0⟩, { tables with windows := tables.windows ++ [window] })

/-- One turn of the loop of `ensureIssuedWindowsForKind`. -/
def ensureIssuedWindow (state : List UsageAllowanceWindowState × AllowanceTables)
    (anchored : AnchoredUsageAllowanceCandidate) :
      List UsageAllowanceWindowState × AllowanceTables :=
  if (latestIssuedWindowAt state.1 anchored.allowanceAt).isNone &&
      entitlementCoversAt entitlement anchored.allowanceAt then
    let (window, tables) := insertWindow env state.2 entitlement kind anchored.allowanceAt
      anchored.candidate.runId
    (state.1 ++ [window], tables)
  else state

def ensureIssuedWindowsForKind (windows : List UsageAllowanceWindowState)
    (tables : AllowanceTables) : List UsageAllowanceWindowState × AllowanceTables :=
  candidates.foldl (ensureIssuedWindow env entitlement kind) (windows, tables)

/-- `ensureIssuedWindowsForCandidates`: the short windows, the weekly windows, and the
tables. -/
def ensureIssuedWindowsForCandidates :
    List UsageAllowanceWindowState × List UsageAllowanceWindowState × AllowanceTables :=
  let missingWindows := candidates.any fun anchored =>
    (latestIssuedWindowAt shortWindows anchored.allowanceAt).isNone ||
      (latestIssuedWindowAt weeklyWindows anchored.allowanceAt).isNone
  if !missingWindows then (shortWindows, weeklyWindows, tables)
  else
    match loadActiveUsageAllowanceEntitlement env tables orgId with
    | (none, tables) => (shortWindows, weeklyWindows, tables)
    | (some entitlement, tables) =>
      let candidatesByAllowanceTime := candidates.insertionSort fun a b =>
        a.allowanceAt ≤ b.allowanceAt
      let (shortWindows, tables) := ensureIssuedWindowsForKind env entitlement .short
        candidatesByAllowanceTime shortWindows tables
      let (weeklyWindows, tables) := ensureIssuedWindowsForKind env entitlement .weekly
        candidatesByAllowanceTime weeklyWindows tables
      (shortWindows, weeklyWindows, tables)

/-! ### Allocations -/

/-- What the loop of `allocateUsageAllowanceToCandidates` carries. -/
structure AllocationState where
  shortWindows : List UsageAllowanceWindowState
  weeklyWindows : List UsageAllowanceWindowState
  allowanceByUsageEvent : List (Uuid × ℤ)
  allocations : List UsageAllowanceAllocation

/-- Consume units of the window of an id. -/
def consumeUnits (id : Uuid) (units : ℤ) (windows : List UsageAllowanceWindowState) :
    List UsageAllowanceWindowState :=
  windows.map fun state =>
    if state.window.id = id then
      { state with
          window := { state.window with consumedUnits := state.window.consumedUnits + units } }
    else state

/-- One turn of the loop of `allocateUsageAllowanceToCandidates`. -/
def allocateToCandidate (state : AllocationState) (anchored : AnchoredUsageAllowanceCandidate) :
    AllocationState :=
  match latestIssuedWindowAt state.shortWindows anchored.allowanceAt,
      latestIssuedWindowAt state.weeklyWindows anchored.allowanceAt with
  | some shortWindow, some weeklyWindow =>
    let unitsApplied := min anchored.candidate.grossUnits
      (min (remainingUnits shortWindow) (remainingUnits weeklyWindow))
    if unitsApplied ≤ 0 then state
    else
      { shortWindows := consumeUnits shortWindow.id unitsApplied state.shortWindows
        weeklyWindows := consumeUnits weeklyWindow.id unitsApplied state.weeklyWindows
        allowanceByUsageEvent := dictSet anchored.candidate.usageEventId unitsApplied
          state.allowanceByUsageEvent
        allocations := state.allocations ++ [⟨anchored.candidate.usageEventId, orgId,
          anchored.candidate.runId, shortWindow.id, weeklyWindow.id, unitsApplied⟩] }
  | _, _ => state

/-- `allocateUsageAllowanceToCandidates`, with the organization id that
`insertUsageAllowanceAllocations` adds to the rows. -/
def allocateUsageAllowanceToCandidates (allowanceByUsageEvent : List (Uuid × ℤ)) :
    AllocationState :=
  candidates.foldl (allocateToCandidate orgId)
    ⟨shortWindows, weeklyWindows, allowanceByUsageEvent, []⟩

def persistUsageAllowanceWindowConsumption : AllowanceTables :=
  let changedWindows := windows.filter fun state =>
    decide (state.initialConsumedUnits < state.window.consumedUnits)
  { tables with
    windows := tables.windows.map fun window =>
      match changedWindows.find? fun state => decide (state.window.id = window.id) with
      | none => window
      | some state => { window with
          consumedUnits := window.consumedUnits +
            (state.window.consumedUnits - state.initialConsumedUnits) } }

def insertUsageAllowanceAllocations (allocations : List UsageAllowanceAllocation) :
  AllowanceTables := { tables with allocations := tables.allocations ++ allocations }

def applyUsageAllowanceToUsageEventsInLockedTransaction
    (events : List UsageAllowanceCandidate) : List (Uuid × ℤ) × AllowanceTables :=
  let candidates := events.filter fun event => decide (0 < event.grossUnits)
  let allowanceByUsageEvent := loadExistingUsageAllowanceAllocations tables
    (candidates.map UsageAllowanceCandidate.usageEventId)
  let unresolvedCandidates := candidates.filter fun candidate =>
    (dictGet candidate.usageEventId allowanceByUsageEvent).isNone
  let anchoredCandidates := anchorUsageAllowanceCandidates tables orgId unresolvedCandidates
  let allowanceTimes := anchoredCandidates.map AnchoredUsageAllowanceCandidate.allowanceAt
  let shortWindows := lockIssuedWindowsForTimes tables orgId .short allowanceTimes
  let weeklyWindows := lockIssuedWindowsForTimes tables orgId .weekly allowanceTimes
  let (shortWindows, weeklyWindows, tables) := ensureIssuedWindowsForCandidates env tables orgId
    anchoredCandidates shortWindows weeklyWindows
  let state := allocateUsageAllowanceToCandidates orgId anchoredCandidates shortWindows
    weeklyWindows
    allowanceByUsageEvent
  let tables := persistUsageAllowanceWindowConsumption tables
    (state.shortWindows ++ state.weeklyWindows)
  (state.allowanceByUsageEvent, insertUsageAllowanceAllocations tables state.allocations)

end Env

/-! ### What an event is given -/

/-- The units of the allocation of an event, if it has one. -/
def allocatedUnits (allocations : List UsageAllowanceAllocation) (usageEventId : Uuid) : Option ℤ :=
  (allocations.find? fun row => decide (row.usageEventId = usageEventId)).map
    UsageAllowanceAllocation.unitsApplied

theorem allocatedUnits_append (first second) (id : Uuid) :
    allocatedUnits (first ++ second) id = (allocatedUnits first id).orElse fun _ =>
      allocatedUnits second id := by
  unfold allocatedUnits
  rw [find?_append]
  cases first.find? fun row => decide (row.usageEventId = id) <;> rfl

variable {before : List (Uuid × ℤ)} {allocations}

theorem exists_of_allocatedUnits {id} {units} (h : allocatedUnits allocations id = some units) :
    ∃ row ∈ allocations, row.usageEventId = id ∧ row.unitsApplied = units := by
  obtain ⟨row, hfind, hunits⟩ := Option.map_eq_some_iff.mp h
  exact ⟨row, mem_of_find?_eq_some hfind, by simpa using find?_some hfind, hunits⟩

theorem allocatedUnits_eq_none {id}
    (h : ∀ row ∈ allocations, row.usageEventId ≠ id) : allocatedUnits allocations id = none := by
  rw [allocatedUnits, find?_eq_none.mpr]
  · rfl
  · intro row hrow
    simpa using h row hrow

/-- The loop over the events, after some of them: the map has what was there before,
and the units of the new allocations, each within the price of its event. -/
structure AllocationInv (before : List (Uuid × ℤ)) (done : List AnchoredUsageAllowanceCandidate)
    (state : AllocationState) : Prop where
  units : ∀ id, dictGet id state.allowanceByUsageEvent =
    (allocatedUnits state.allocations id).orElse fun _ => dictGet id before
  bounded : ∀ row ∈ state.allocations, ∃ anchored ∈ done,
    anchored.candidate.usageEventId = row.usageEventId ∧ 0 < row.unitsApplied ∧
      row.unitsApplied ≤ anchored.candidate.grossUnits

theorem AllocationInv.step {done state} (h : AllocationInv before done state) {anchored} (orgId)
    (hnew : ∀ other ∈ done, other.candidate.usageEventId ≠ anchored.candidate.usageEventId) :
    AllocationInv before (done ++ [anchored]) (allocateToCandidate orgId state anchored) := by
  -- an event that is passed over leaves the state as it is
  have hskip : AllocationInv before (done ++ [anchored]) state :=
    ⟨h.units, fun row hrow => (h.bounded row hrow).imp fun _ hother =>
      ⟨mem_append_left _ hother.1, hother.2⟩⟩
  have hfresh : ∀ row ∈ state.allocations, row.usageEventId ≠ anchored.candidate.usageEventId := by
    intro row hrow heq
    obtain ⟨other, hother, hid, _⟩ := h.bounded row hrow
    exact hnew other hother (hid.trans heq)
  unfold allocateToCandidate
  split
  · next shortWindow weeklyWindow _ _ =>
    dsimp only
    split
    · exact hskip
    · next hpositive =>
      constructor
      · intro id
        rw [dictGet_dictSet, allocatedUnits_append, h.units]
        by_cases hid : anchored.candidate.usageEventId = id
        · rw [if_pos hid, ← hid, allocatedUnits_eq_none hfresh]
          simp [allocatedUnits]
        · rw [if_neg hid]
          rw [allocatedUnits_eq_none (forall_mem_singleton.mpr hid)]
          cases allocatedUnits state.allocations id <;> rfl
      · refine forall_mem_append.mpr ⟨hskip.bounded, forall_mem_singleton.mpr ?_⟩
        exact ⟨anchored, by simp, rfl, not_le.mp hpositive, min_le_left _ _⟩
  · exact hskip

theorem AllocationInv.foldl (orgId) (rest) :
    ∀ (done : List AnchoredUsageAllowanceCandidate) (state : AllocationState),
      ((done ++ rest).map fun anchored => anchored.candidate.usageEventId).Nodup →
      AllocationInv before done state →
      AllocationInv before (done ++ rest) (rest.foldl (allocateToCandidate orgId) state) := by
  induction rest with
  | nil =>
    intro done state _ h
    rwa [append_nil]
  | cons anchored rest ih =>
    intro done state hnodup h
    have hnew : ∀ other ∈ done, other.candidate.usageEventId ≠ anchored.candidate.usageEventId := by
      intro other hother heq
      rw [map_append, map_cons] at hnodup
      exact disjoint_of_nodup_append hnodup (mem_map_of_mem hother)
        (heq ▸ mem_cons_self)
    rw [append_cons] at hnodup ⊢
    exact ih _ _ hnodup (h.step orgId hnew)

section Env

variable (env : BillingEnv) (tables : AllowanceTables)

theorem loadActive_allocations (orgId) :
    (loadActiveUsageAllowanceEntitlement env tables orgId).2.allocations = tables.allocations := by
  unfold loadActiveUsageAllowanceEntitlement refreshUsageAllowanceEntitlementFromStripe
  dsimp only
  repeat' split
  all_goals rfl

theorem ensureForKind_allocations (entitlement)
    (kind) (candidates) :
    ∀ (windows : List UsageAllowanceWindowState) (tables : AllowanceTables),
      (ensureIssuedWindowsForKind env entitlement kind candidates windows tables).2.allocations =
        tables.allocations := by
  induction candidates with
  | nil => exact fun _ _ => rfl
  | cons anchored candidates ih =>
    intro windows tables
    have hstep : (ensureIssuedWindow env entitlement kind (windows, tables) anchored).2.allocations
        = tables.allocations := by
      unfold ensureIssuedWindow
      split <;> rfl
    exact (ih _ _).trans hstep

/-- Issuing windows allocates nothing. -/
theorem ensureForCandidates_allocations (orgId) (candidates)
    (shortWindows weeklyWindows) :
    (ensureIssuedWindowsForCandidates env tables orgId candidates shortWindows
      weeklyWindows).2.2.allocations = tables.allocations := by
  have hload := loadActive_allocations env tables orgId
  unfold ensureIssuedWindowsForCandidates
  dsimp only
  split
  · rfl
  · split
    · next heq => rwa [heq] at hload
    · next heq =>
      rw [heq] at hload
      rw [ensureForKind_allocations, ensureForKind_allocations]
      exact hload

variable {tables}

/-- What was allocated before, at the id of an event that asks for it. -/
theorem dictGet_loadExisting (huniq : (tables.allocations.map usageEventId).Nodup)
    (usageEventIds) (id : Uuid) : dictGet id
      (loadExistingUsageAllowanceAllocations tables usageEventIds) =
      if id ∈ usageEventIds then allocatedUnits tables.allocations id else none := by
  unfold loadExistingUsageAllowanceAllocations allocatedUnits
  have hsame : (tables.allocations.find? fun row =>
      decide (row.usageEventId ∈ usageEventIds) ∧ decide (row.usageEventId = id)) =
      if id ∈ usageEventIds then tables.allocations.find? fun row => row.usageEventId = id
      else none := by
    split
    · next hid =>
      congr 1
      funext row
      by_cases hrow : row.usageEventId = id <;> simp [hrow, hid]
    · next hid =>
      rw [find?_eq_none]
      rintro row _ hrow
      simp only [decide_eq_true_eq] at hrow
      exact hid (hrow.2 ▸ hrow.1)
  rw [dictGet_dictMerge_rows (huniq.sublist (filter_sublist.map _)), find?_filter, hsame]
  split
  · cases tables.allocations.find? fun row => decide (row.usageEventId = id) <;> rfl
  · rfl

/-- **What an event is given is what its allocation says, and at most its gross
price.** -/
theorem applyUsageAllowance_units (orgId) {events}
    (hevents : (events.map UsageAllowanceCandidate.usageEventId).Nodup)
    (huniq : (tables.allocations.map usageEventId).Nodup)
    (hexist : ∀ row ∈ tables.allocations, ∀ event ∈ events,
      event.usageEventId = row.usageEventId → 0 < row.unitsApplied ∧
        row.unitsApplied ≤ event.grossUnits)
    {event} (hevent : event ∈ events) (hgross : 0 ≤ event.grossUnits) :
    let applied := applyUsageAllowanceToUsageEventsInLockedTransaction env tables orgId events
    dictGet event.usageEventId applied.1 = allocatedUnits applied.2.allocations event.usageEventId ∧
      0 ≤ (dictGet event.usageEventId applied.1).getD 0 ∧
      (dictGet event.usageEventId applied.1).getD 0 ≤ event.grossUnits := by
  intro applied
  set candidates := events.filter fun event => decide (0 < event.grossUnits)
  set before := loadExistingUsageAllowanceAllocations tables
    (candidates.map UsageAllowanceCandidate.usageEventId) with hbef
  set unresolved := candidates.filter fun candidate =>
    (dictGet candidate.usageEventId before).isNone
  set anchored := anchorUsageAllowanceCandidates tables orgId unresolved with hanch
  obtain ⟨shortWindows, weeklyWindows, hmap, hallocs⟩ : ∃ shortWindows weeklyWindows,
      applied.1 = (allocateUsageAllowanceToCandidates orgId anchored shortWindows weeklyWindows
        before).allowanceByUsageEvent ∧
      applied.2.allocations = tables.allocations ++
        (allocateUsageAllowanceToCandidates orgId anchored
        shortWindows weeklyWindows before).allocations :=
    ⟨_, _, rfl, congrArg (· ++ _) (ensureForCandidates_allocations env tables orgId anchored _ _)⟩
  have hids : (anchored.map fun anchored => anchored.candidate.usageEventId) =
      unresolved.map UsageAllowanceCandidate.usageEventId := by
    rw [hanch, anchorUsageAllowanceCandidates, map_map]
    rfl
  have hmem : ∀ c ∈ anchored, c.candidate ∈ unresolved := by
    exact forall_mem_map.mpr fun _ hcand => hcand
  have hinv : AllocationInv before anchored (allocateUsageAllowanceToCandidates orgId anchored
      shortWindows weeklyWindows before) := by
    refine AllocationInv.foldl orgId anchored [] _ ?_ ⟨fun id => rfl, by simp⟩
    rw [nil_append, hids]
    exact hevents.sublist ((filter_sublist.trans filter_sublist).map _)
  set state := allocateUsageAllowanceToCandidates orgId anchored shortWindows weeklyWindows before
  -- a new allocation with the event's id is the event's
  have hnew : ∀ units, allocatedUnits state.allocations event.usageEventId = some units →
      event ∈ unresolved ∧ 0 < units ∧ units ≤ event.grossUnits := by
    intro units hunits
    obtain ⟨row, hrow, hid, rfl⟩ := exists_of_allocatedUnits hunits
    obtain ⟨c, hc, hcid, hbounds⟩ := hinv.bounded row hrow
    have hcmem := hmem c hc
    have hsame : c.candidate = event := inj_on_of_nodup_map hevents
      (mem_of_mem_filter (mem_of_mem_filter hcmem)) hevent (hcid.trans hid)
    rw [hsame] at hcmem hbounds
    exact ⟨hcmem, hbounds⟩
  have hold : ∀ units, allocatedUnits tables.allocations event.usageEventId = some units →
      0 < units ∧ units ≤ event.grossUnits := by
    intro units hunits
    obtain ⟨row, hrow, hid, rfl⟩ := exists_of_allocatedUnits hunits
    exact hexist row hrow event hevent hid.symm
  -- what was loaded is what was allocated before: an event that costs nothing has neither
  have hload : dictGet event.usageEventId before = allocatedUnits tables.allocations
    event.usageEventId := by
    rw [hbef, dictGet_loadExisting huniq]
    split
    · rfl
    · next hnot =>
      cases hunits : allocatedUnits tables.allocations event.usageEventId with
      | none => rfl
      | some units =>
        refine absurd (mem_map_of_mem ?_) hnot
        exact mem_filter.mpr ⟨hevent, decide_eq_true
          ((hold units hunits).1.trans_le (hold units hunits).2)⟩
  rw [hmap, hallocs, allocatedUnits_append, hinv.units, hload]
  cases holdUnits : allocatedUnits tables.allocations event.usageEventId with
  | none =>
    cases hnewUnits : allocatedUnits state.allocations event.usageEventId with
    | none => exact ⟨rfl, le_rfl, hgross⟩
    | some units =>
      obtain ⟨_, hpos, hle⟩ := hnew units hnewUnits
      exact ⟨rfl, hpos.le, hle⟩
  | some units =>
    obtain ⟨hpos, hle⟩ := hold units holdUnits
    have hnone : allocatedUnits state.allocations event.usageEventId = none := by
      refine Option.eq_none_iff_forall_ne_some.mpr fun other hother => ?_
      -- an event with an allocation is not among the unresolved ones
      have hisNone := (mem_filter.mp (hnew other hother).1).2
      rw [hload, holdUnits] at hisNone
      exact Bool.false_ne_true hisNone
    rw [hnone]
    exact ⟨rfl, hpos.le, hle⟩

end Env

end Okou.Billing
