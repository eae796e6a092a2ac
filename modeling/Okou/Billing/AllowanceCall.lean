import Okou.Billing.Issuing

/-!
# One allowance call

`applyUsageAllowanceToUsageEventsInLockedTransaction` as a whole: what is allocated
to which event, which windows are issued, and what is written to the windows.
-/

namespace Okou.Billing

open List UsageAllowanceCandidate AnchoredUsageAllowanceCandidate UsageAllowanceWindow

/-! ### The time of an event -/

/-- The anchor of an event: its own, else the start of its run, else its time. -/
def eventTime (tables : AllowanceTables) (orgId : String) (event : UsageAllowanceCandidate) :
  Time := (event.billingAnchorAt.orElse fun _ => event.runId.bind fun runId =>
    (tables.agentRuns.find? fun row => decide (row.orgId = orgId) && decide (row.id = runId)).map
      AgentRun.createdAt).getD event.occurredAt

variable {tables : AllowanceTables} {candidates : List AnchoredUsageAllowanceCandidate}

/-- What the lookup of the runs finds. -/
theorem dictGet_loadRunCreatedAts (hruns : (tables.agentRuns.map AgentRun.id).Nodup) (orgId)
    {runIds} {runId} (hrunId : runId ∈ runIds) :
    dictGet runId (loadRunCreatedAts tables orgId runIds) =
      (tables.agentRuns.find? fun row => decide (row.orgId = orgId) && decide (row.id = runId)).map
        AgentRun.createdAt := by
  unfold loadRunCreatedAts
  have hsame : (fun row : AgentRun =>
      decide ((decide (row.orgId = orgId) && decide (row.id ∈ runIds)) =
      true ∧ decide (row.id = runId))) =
      fun row => decide (row.orgId = orgId) && decide (row.id = runId) := by
    funext row
    by_cases hid : row.id = runId <;> simp [hid, hrunId]
  rw [dictGet_dictMerge_rows (hruns.sublist (filter_sublist.map _)), find?_filter, hsame]
  cases tables.agentRuns.find? fun row => decide (row.orgId = orgId) &&
    decide (row.id = runId) <;> rfl

/-- An event with its time. -/
def anchor (tables : AllowanceTables) (orgId : String) (event : UsageAllowanceCandidate) :
    AnchoredUsageAllowanceCandidate :=
  ⟨event, eventTime tables orgId event⟩

theorem anchorUsageAllowanceCandidates_eq (hruns : (tables.agentRuns.map AgentRun.id).Nodup) (orgId)
    (candidates) :
    anchorUsageAllowanceCandidates tables orgId candidates =
      candidates.map (anchor tables orgId) := by
  unfold anchorUsageAllowanceCandidates
  dsimp only
  refine map_congr_left fun candidate hcand => ?_
  congr 2
  cases hanchor : candidate.billingAnchorAt with
  | some time => rfl
  | none =>
    cases hrun : candidate.runId with
    | none => rfl
    | some runId =>
      refine dictGet_loadRunCreatedAts hruns orgId ?_
      rw [mem_eraseDups, mem_filterMap]
      exact ⟨candidate, hcand, by simp [hanchor, hrun]⟩

/-! ### What a call does -/

/-- The tables and events of a call: primary and unique keys are distinct, and the limits of
an entitlement are not negative, as the schema has it. -/
structure AllowanceKeys (tables : AllowanceTables) (events : List UsageAllowanceCandidate) :
    Prop where
  windowIds : (tables.windows.map UsageAllowanceWindow.id).Nodup
  allocationIds : (tables.allocations.map UsageAllowanceAllocation.usageEventId).Nodup
  runIds : (tables.agentRuns.map AgentRun.id).Nodup
  eventIds : (events.map UsageAllowanceCandidate.usageEventId).Nodup
  units : ∀ entitlement ∈ tables.entitlements, ∀ kind, 0 ≤ windowUnitLimit entitlement kind

/-- The tables a call starts from, where no window is overdrawn. -/
structure AllowanceReady (tables : AllowanceTables) (events : List UsageAllowanceCandidate) :
    Prop extends
    AllowanceKeys tables events where
  limits : ∀ window ∈ tables.windows, window.consumedUnits ≤ window.unitLimit

/-- A window of a kind that the events of an organization can use at a time. -/
def UsageAllowanceWindow.OpenFor (window : UsageAllowanceWindow) (orgId : String)
    (kind : UsageAllowanceWindowKind) (time : Time) : Prop :=
  window.orgId = orgId ∧ window.kind = kind ∧ window.Covers time

/-- What an event is given: where a short and a weekly window are open, one row with what
the event costs, as far as both windows have it left after the earlier rows. -/
def Given (windows : List UsageAllowanceWindow) (orgId : String)
    (anchored : AnchoredUsageAllowanceCandidate) (earlier own : List UsageAllowanceAllocation) :
      Prop :=
  (∃ shortWindow ∈ windows, ∃ weeklyWindow ∈ windows,
      shortWindow.OpenFor orgId .short anchored.allowanceAt ∧
      weeklyWindow.OpenFor orgId .weekly anchored.allowanceAt ∧
      own = if 0 < availableUnits earlier anchored.candidate.grossUnits shortWindow weeklyWindow
        then
          [rowFor orgId earlier anchored shortWindow weeklyWindow]
        else []) ∨
    (∃ kind, ∀ window ∈ windows, ¬window.OpenFor orgId kind anchored.allowanceAt) ∧ own = []

/-- What a call does, with the windows it issues and the rows it writes. -/
structure AllowanceApplied (env : BillingEnv) (tables : AllowanceTables) (orgId : String)
    (events : List UsageAllowanceCandidate) (issued : List UsageAllowanceWindow)
    (rows : List UsageAllowanceAllocation) (result : List (Uuid × ℤ) × AllowanceTables) : Prop where
  /-- The consumption of each window rises by the units of the rows that name it. -/
  windows : result.2.windows = (tables.windows ++ issued).map (UsageAllowanceWindow.charge rows)
  allocations : result.2.allocations = tables.allocations ++ rows
  /-- No window is overdrawn. -/
  limits : ∀ window ∈ result.2.windows, window.consumedUnits ≤ window.unitLimit
  /-- Each event without an allocation is given what is left when its turn comes. -/
  given : ∀ done event rest, events = done ++ event :: rest →
    allocatedUnits tables.allocations event.usageEventId = none →
      Given (tables.windows ++ issued) orgId (anchor tables orgId event)
        (rows.filter fun row => decide (row.usageEventId ∈
          done.map UsageAllowanceCandidate.usageEventId))
        (rows.filter fun row => decide (row.usageEventId = event.usageEventId))
  /-- An event that has an allocation gets no other, and no row is for anything else. -/
  others : ∀ row ∈ rows, allocatedUnits tables.allocations row.usageEventId = none ∧
    ∃ event ∈ events, event.usageEventId = row.usageEventId
  /-- The call returns what is allocated. -/
  returned : ∀ event ∈ events, 0 < event.grossUnits →
    dictGet event.usageEventId result.1 = allocatedUnits result.2.allocations event.usageEventId
  /-- A window is issued where no window of its kind is open and the entitlement covers the
  time of an event. -/
  issued : ∀ before window after, issued = before ++ window :: after →
    (∀ other ∈ tables.windows ++ before, ¬other.OpenFor orgId window.kind window.startsAt) ∧
      window.orgId = orgId ∧ (∃ event ∈ events, eventTime tables orgId event = window.startsAt) ∧
      ∃ entitlement, (loadActiveUsageAllowanceEntitlement env tables orgId).1 = some entitlement ∧
        entitlementCoversAt entitlement window.startsAt = true ∧
          window.entitlementId = entitlement.id ∧
        window.unitLimit = windowUnitLimit entitlement window.kind ∧
        window.expiresAt = addSeconds window.startsAt
          (windowDurationSeconds entitlement window.kind)

/-- A window without its id, its consumption and the run that is noted with it, which depends on
the order of two events at one instant. -/
def UsageAllowanceWindow.issue (window : UsageAllowanceWindow) : UsageAllowanceWindow :=
  { window with id := 0, consumedUnits := 0, createdByRunId := none }

open UsageAllowanceWindow (issue forgetRun)

/-- The windows that a call issues. -/
def newWindows (env : BillingEnv) (tables : AllowanceTables) (orgId : String)
    (events : List UsageAllowanceCandidate) : List UsageAllowanceWindow :=
  (applyUsageAllowanceToUsageEventsInLockedTransaction env tables orgId events).2.windows.drop
    tables.windows.length

/-! ### The windows in memory -/

/-- The windows of a kind that are in memory, against a table of windows. -/
structure LoadedKind (windows : List UsageAllowanceWindow) (orgId : String)
    (kind : UsageAllowanceWindowKind) (times : List Time)
    (states : List UsageAllowanceWindowState) :
    Prop where
  mem : ∀ state ∈ states, state.window ∈ windows ∧ state.window.orgId = orgId ∧
    state.window.kind = kind ∧ state.initialConsumedUnits = state.window.consumedUnits
  ids : (states.map fun state => state.window.id).Nodup
  complete : ∀ time ∈ times, ∀ window ∈ windows, window.OpenFor orgId kind time →
    ∃ state ∈ states, state.window = window

variable {window : UsageAllowanceWindow}

section Loaded

variable {windows : List UsageAllowanceWindow} {orgId : String} {kind : UsageAllowanceWindowKind}
variable {times : List Time} {states : List UsageAllowanceWindowState}

theorem LoadedKind.lock (hids : (tables.windows.map UsageAllowanceWindow.id).Nodup) (orgId)
    (kind) (times) :
    LoadedKind tables.windows orgId kind times (lockIssuedWindowsForTimes tables orgId kind times)
      where
  mem _ hstate := of_mem_lockIssuedWindowsForTimes hstate
  ids := nodup_lockIssuedWindowsForTimes hids
  complete _ htime _ hwin hopen :=
    ⟨_, mem_lockIssuedWindowsForTimes hwin hopen.1 hopen.2.1 htime hopen.2.2, rfl⟩

variable (h : LoadedKind windows orgId kind times states)

include h

variable {issued : List UsageAllowanceWindow}

/-- Windows that are issued are in memory and in the table. -/
theorem LoadedKind.issue (hids : (windows.map UsageAllowanceWindow.id).Nodup) {entitlement}
    (horg : entitlement.orgId = orgId)
    (hiss : Issued entitlement kind candidates states windows issued) :
    LoadedKind (windows ++ issued) orgId kind times (states ++ issued.map unchanged) where
  mem := by
    intro state hstate
    rcases mem_append.mp hstate with hold | hnew
    · obtain ⟨hmem, hrest⟩ := h.mem state hold
      exact ⟨mem_append_left _ hmem, hrest⟩
    · obtain ⟨window, hwin, rfl⟩ := mem_map.mp hnew
      exact ⟨mem_append_right _ hwin, (hiss.entitled window hwin).1.trans horg,
        (hiss.fresh window hwin).1, rfl⟩
  ids := by
    have hall := hiss.ids hids
    rw [map_append, nodup_append] at hall ⊢
    obtain ⟨_, hnew, hdisj⟩ := hall
    rw [map_map]
    refine ⟨h.ids, hnew, fun id hid other hother => ?_⟩
    obtain ⟨state, hstate, rfl⟩ := mem_map.mp hid
    exact hdisj _ (mem_map_of_mem (h.mem state hstate).1) other hother
  complete := by
    intro time htime window hwin hopen
    rcases mem_append.mp hwin with hold | hnew
    · obtain ⟨state, hstate, heq⟩ := h.complete time htime window hold hopen
      exact ⟨state, mem_append_left _ hstate, heq⟩
    · exact ⟨unchanged window, mem_append_right _ (mem_map_of_mem hnew), rfl⟩

/-- Windows of another kind do not matter. -/
theorem LoadedKind.append {more} (hmore : ∀ window ∈ more, window.kind ≠ kind) :
    LoadedKind (windows ++ more) orgId kind times states where
  mem state hstate := by
    obtain ⟨hmem, hrest⟩ := h.mem state hstate
    exact ⟨mem_append_left _ hmem, hrest⟩
  ids := h.ids
  complete time htime window hwin hopen := by
    rcases mem_append.mp hwin with hold | hnew
    · exact h.complete time htime window hold hopen
    · exact absurd hopen.2.1 (hmore window hnew)

variable {time : Time}

/-- The search in memory finds nothing exactly if nothing is open. -/
theorem LoadedKind.latest_none (htime : time ∈ times) :
    latestIssuedWindowAt states time = none ↔ ∀ window ∈ windows,
      ¬window.OpenFor orgId kind time := by
  rw [latestIssuedWindowAt_none]
  constructor
  · intro hnone window hwin hopen
    obtain ⟨state, hstate, rfl⟩ := h.complete time htime window hwin hopen
    exact hnone state hstate hopen.2.2
  · intro hnone state hstate hcov
    obtain ⟨hmem, horg, hkind, _⟩ := h.mem state hstate
    exact hnone state.window hmem ⟨horg, hkind, hcov⟩

theorem LoadedKind.latest_some (hlat : latestIssuedWindowAt states time = some window) :
    window ∈ windows ∧ window.OpenFor orgId kind time := by
  obtain ⟨hcov, state, hstate, rfl⟩ := latestIssuedWindowAt_some hlat
  obtain ⟨hmem, horg, hkind, _⟩ := h.mem state hstate
  exact ⟨hmem, horg, hkind, hcov⟩

end Loaded

/-- The windows of both kinds that are in memory. -/
structure Loaded (windows : List UsageAllowanceWindow) (orgId : String) (times : List Time)
    (shortWindows weeklyWindows : List UsageAllowanceWindowState) : Prop where
  short : LoadedKind windows orgId .short times shortWindows
  weekly : LoadedKind windows orgId .weekly times weeklyWindows
  ids : (windows.map UsageAllowanceWindow.id).Nodup

variable {anchored : AnchoredUsageAllowanceCandidate}

section Loaded

variable {windows : List UsageAllowanceWindow} {orgId : String} {times : List Time}
variable {shortWindows weeklyWindows : List UsageAllowanceWindowState}

variable (h : Loaded windows orgId times shortWindows weeklyWindows)

include h

theorem Loaded.apart : Apart shortWindows weeklyWindows := by
  intro shortState hshort weeklyState hweekly hid
  obtain ⟨hshortMem, _, hshortKind, _⟩ := h.short.mem shortState hshort
  obtain ⟨hweeklyMem, _, hweeklyKind, _⟩ := h.weekly.mem weeklyState hweekly
  have hsame := inj_on_of_nodup_map h.ids hshortMem hweeklyMem hid
  rw [hsame, hweeklyKind] at hshortKind
  cases hshortKind

theorem Loaded.nodup : ((shortWindows ++ weeklyWindows).map fun state =>
    state.window.id).Nodup := by
  rw [map_append, nodup_append]
  refine ⟨h.short.ids, h.weekly.ids, fun id hid other hother heq => ?_⟩
  obtain ⟨shortState, hshort, rfl⟩ := mem_map.mp hid
  obtain ⟨weeklyState, hweekly, rfl⟩ := mem_map.mp hother
  exact h.apart shortState hshort weeklyState hweekly heq

theorem Loaded.mem : ∀ state ∈ shortWindows ++ weeklyWindows, state.window ∈ windows ∧
      state.initialConsumedUnits = state.window.consumedUnits := by
  refine forall_mem_append.mpr ⟨fun state hstate => ?_, fun state hstate => ?_⟩
  · exact ⟨(h.short.mem state hstate).1, (h.short.mem state hstate).2.2.2⟩
  · exact ⟨(h.weekly.mem state hstate).1, (h.weekly.mem state hstate).2.2.2⟩

/-- What an event is given, after the rows of others. -/
theorem Loaded.given (rows) (htime : anchored.allowanceAt ∈ times) :
    Given windows orgId anchored rows (allocationRow orgId shortWindows weeklyWindows rows
      anchored) := by
  rcases allocationRow_cases orgId shortWindows weeklyWindows rows anchored with
    ⟨hnone, hnil⟩ | ⟨shortWindow, weeklyWindow, hshort, hweekly, hrow⟩
  · refine .inr ⟨?_, hnil⟩
    rcases hnone with hnone | hnone
    · exact ⟨.short, (h.short.latest_none htime).mp hnone⟩
    · exact ⟨.weekly, (h.weekly.latest_none htime).mp hnone⟩
  · obtain ⟨hshortMem, hshortOpen⟩ := h.short.latest_some hshort
    obtain ⟨hweeklyMem, hweeklyOpen⟩ := h.weekly.latest_some hweekly
    exact .inl ⟨shortWindow, hshortMem, weeklyWindow, hweeklyMem, hshortOpen, hweeklyOpen, hrow⟩

end Loaded

/-! ### The windows that are issued -/

/-- Which windows are issued for some events. -/
def IssuedFor (env : BillingEnv) (tables : AllowanceTables) (orgId : String)
    (candidates : List AnchoredUsageAllowanceCandidate) (issued : List UsageAllowanceWindow) :
      Prop :=
  ∀ before window after, issued = before ++ window :: after →
    (∀ other ∈ tables.windows ++ before, ¬other.OpenFor orgId window.kind window.startsAt) ∧
      window.orgId = orgId ∧ (∃ anchored ∈ candidates, anchored.allowanceAt = window.startsAt) ∧
      ∃ entitlement, (loadActiveUsageAllowanceEntitlement env tables orgId).1 = some entitlement ∧
        entitlementCoversAt entitlement window.startsAt = true ∧
          window.entitlementId = entitlement.id ∧
        window.unitLimit = windowUnitLimit entitlement window.kind ∧
        window.expiresAt = addSeconds window.startsAt
          (windowDurationSeconds entitlement window.kind)

variable {entitlement : UsageAllowanceEntitlement} {orgId : String} {times : List Time}

variable {kind : UsageAllowanceWindowKind} {states : List UsageAllowanceWindowState}
  {table : List UsageAllowanceWindow}

theorem Issued.kind_ne {kind'} (h : Issued entitlement kind candidates states table issued)
    (hne : kind ≠ kind') : ∀ window ∈ issued, window.kind ≠ kind' :=
  fun window hwin heq => hne ((h.fresh window hwin).1.symm.trans heq)

/-- Where a window of a kind is issued, no window of that kind is open. -/
theorem Issued.not_open {windows}
    (h : Issued entitlement kind candidates states table issued)
    (hloaded : LoadedKind windows orgId kind times states)
    (htimes : ∀ anchored ∈ candidates, anchored.allowanceAt ∈ times) {before}
    {after} (hsplit : issued = before ++ window :: after) :
    ∀ other ∈ windows ++ before, ¬other.OpenFor orgId kind window.startsAt := by
  obtain ⟨hmiss, hbef⟩ := h.missing before window after hsplit
  have hwin : window ∈ issued := by
    rw [hsplit]
    exact mem_append_right _ mem_cons_self
  obtain ⟨anchored, hanch, htime, _⟩ := h.event window hwin
  intro other hother hopen
  rcases mem_append.mp hother with hold | hnew
  · obtain ⟨state, hstate, rfl⟩ := hloaded.complete window.startsAt (htime ▸
      htimes anchored hanch) other
      hold hopen
    exact hmiss state hstate hopen.2.2
  · exact hbef other hnew hopen.2.2

theorem mem_byAllowanceTime : anchored ∈ byAllowanceTime candidates ↔ anchored ∈ candidates :=
  mem_insertionSort _

/-- The windows of a call, before anything is allocated. -/
def ensured (env : BillingEnv) (tables : AllowanceTables) (orgId : String)
    (candidates : List AnchoredUsageAllowanceCandidate) :
    List UsageAllowanceWindowState × List UsageAllowanceWindowState × AllowanceTables :=
  let times := candidates.map AnchoredUsageAllowanceCandidate.allowanceAt
  ensureIssuedWindowsForCandidates env tables orgId candidates
    (lockIssuedWindowsForTimes tables orgId .short times)
      (lockIssuedWindowsForTimes tables orgId .weekly times)

/-- Windows of both kinds that are issued one after the other. -/
theorem issuedFor_append {env}
    (hload : (loadActiveUsageAllowanceEntitlement env tables orgId).1 = some entitlement)
    (horg : entitlement.orgId = orgId) (htimes : ∀ anchored ∈ candidates,
      anchored.allowanceAt ∈ times)
    {shortWindows weeklyWindows}
    (hshort : LoadedKind tables.windows orgId .short times shortWindows)
    (hweekly : LoadedKind tables.windows orgId .weekly times weeklyWindows)
    {issuedShort issuedWeekly}
    (hissuedShort : Issued entitlement .short (byAllowanceTime candidates) shortWindows
      tables.windows issuedShort)
    (hissuedWeekly : Issued entitlement .weekly (byAllowanceTime candidates) weeklyWindows
      (tables.windows ++ issuedShort) issuedWeekly) :
    IssuedFor env tables orgId candidates (issuedShort ++ issuedWeekly) := by
  have hsort : ∀ anchored ∈ byAllowanceTime candidates, anchored.allowanceAt ∈ times :=
    fun anchored hanch => htimes anchored (mem_byAllowanceTime.mp hanch)
  intro before window after hsplit
  -- the window is of one of the kinds, where none of its kind is open
  obtain ⟨kind, states, table, issued, windows, rest, after, hiss, hloaded, hissued, hbefore⟩ :
      ∃ kind states table issued windows rest after,
        Issued entitlement kind (byAllowanceTime candidates) states table
        issued ∧ LoadedKind windows orgId kind times states ∧ issued = rest ++ window :: after ∧
        tables.windows ++ before = windows ++ rest := by
    have hweekly := hweekly.append (hissuedShort.kind_ne (by decide))
    rcases append_eq_append_iff.mp hsplit with ⟨rest, rfl, hrest⟩ | ⟨rest, hshortSplit, hrest⟩
    · exact ⟨_, _, _, _, _, _, _, hissuedWeekly, hweekly, hrest, (append_assoc ..).symm⟩
    · cases rest with
      | nil => exact ⟨_, _, _, _, _, [], _, hissuedWeekly, hweekly,
        hrest.symm, by simp [hshortSplit]⟩
      | cons first rest =>
        obtain ⟨rfl, -⟩ := List.cons.inj hrest
        exact ⟨_, _, _, _, _, _, _, hissuedShort, hshort, hshortSplit, rfl⟩
  have hwin : window ∈ issued := by
    rw [hissued]
    exact mem_append_right _ mem_cons_self
  obtain ⟨hwindowOrg, hid, hcov⟩ := hiss.entitled window hwin
  obtain ⟨hwindowKind, hexp, hlimit, _⟩ := hiss.fresh window hwin
  obtain ⟨anchored, hanch, htime, _⟩ := hiss.event window hwin
  rw [hbefore, hwindowKind]
  exact ⟨hiss.not_open hloaded hsort hissued, hwindowOrg.trans horg,
    ⟨anchored, mem_byAllowanceTime.mp hanch, htime⟩, entitlement, hload, hcov, hid, hlimit, hexp⟩

/-- **The windows of a call** are those of the table and those that are issued. -/
theorem ensured_spec (hids : (tables.windows.map UsageAllowanceWindow.id).Nodup)
    (hunits : ∀ entitlement ∈ tables.entitlements, ∀ kind, 0 ≤ windowUnitLimit entitlement kind)
    (env : BillingEnv) (orgId : String) (candidates : List AnchoredUsageAllowanceCandidate) :
    ∃ issued, (ensured env tables orgId candidates).2.2.windows = tables.windows ++ issued ∧
      Loaded (tables.windows ++ issued) orgId (candidates.map allowanceAt)
        (ensured env tables orgId candidates).1 (ensured env tables orgId candidates).2.1 ∧
      IssuedFor env tables orgId candidates issued ∧
      ∀ window ∈ issued, window.consumedUnits ≤ window.unitLimit := by
  set times := candidates.map allowanceAt
  have htimes : ∀ anchored ∈ candidates, anchored.allowanceAt ∈ times :=
    fun anchored hanch => mem_map_of_mem hanch
  have hshort := LoadedKind.lock hids orgId .short times
  have hweekly := LoadedKind.lock hids orgId .weekly times
  have hnoth : IssuedFor env tables orgId candidates [] := by
    intro before window after hsplit
    exact absurd hsplit (by simp)
  unfold ensured
  rcases ensureIssuedWindowsForCandidates_spec env tables orgId candidates
      (lockIssuedWindowsForTimes tables orgId .short times)
      (lockIssuedWindowsForTimes tables orgId .weekly times) with
    ⟨_, heq⟩ | ⟨_, heq⟩ | ⟨entitlement, issuedShort, issuedWeekly, hload, heq, hissuedShort,
      hissuedWeekly⟩
  · -- no window is needed
    rw [heq]
    refine ⟨[], (append_nil _).symm, ?_, hnoth, forall_mem_nil _⟩
    rw [append_nil]
    exact ⟨hshort, hweekly, hids⟩
  · -- no entitlement is active
    obtain ⟨entitlements, hframe⟩ := loadActive_frame env tables orgId
    rw [heq, hframe]
    refine ⟨[], (append_nil _).symm, ?_, hnoth, forall_mem_nil _⟩
    rw [append_nil]
    exact ⟨hshort, hweekly, hids⟩
  · obtain ⟨row, hrow, hrowOrg, hsame⟩ := loadActive_some hload
    have horg : entitlement.orgId = orgId := by
      rw [← hrowOrg, ← hsame]
    have hlimit : ∀ kind, 0 ≤ windowUnitLimit entitlement kind := by
      intro kind
      have hnonn := hunits row hrow kind
      rw [← hsame] at hnonn
      cases kind <;> exact hnonn
    rw [heq]
    refine ⟨issuedShort ++ issuedWeekly, append_assoc _ _ _, ?_,
      issuedFor_append hload horg htimes hshort hweekly hissuedShort hissuedWeekly, ?_⟩
    · have hids' := hissuedShort.ids hids
      rw [← append_assoc]
      exact ⟨(hshort.issue hids horg hissuedShort).append (hissuedWeekly.kind_ne (by decide)),
        (hweekly.append (hissuedShort.kind_ne (by decide))).issue hids' horg hissuedWeekly,
          hissuedWeekly.ids hids'⟩
    · refine forall_mem_append.mpr ⟨fun window hwin => ?_, fun window hwin => ?_⟩
      · obtain ⟨_, _, hwindowLimit, hcons⟩ := hissuedShort.fresh window hwin
        rw [hwindowLimit, hcons]
        exact hlimit _
      · obtain ⟨_, _, hwindowLimit, hcons⟩ := hissuedWeekly.fresh window hwin
        rw [hwindowLimit, hcons]
        exact hlimit _

/-! ### The whole call -/

/-- The events a call allocates to: they cost something and have no allocation. -/
def unresolvedEvents (tables : AllowanceTables) (events : List UsageAllowanceCandidate) :
    List UsageAllowanceCandidate :=
  events.filter fun event => decide (0 < event.grossUnits) &&
    (allocatedUnits tables.allocations event.usageEventId).isNone

/-- These events with their times. -/
def callEvents (tables : AllowanceTables) (orgId : String) (events : List UsageAllowanceCandidate) :
    List AnchoredUsageAllowanceCandidate :=
  (unresolvedEvents tables events).map (anchor tables orgId)

/-- The rows a call writes. -/
def newRows (env : BillingEnv) (tables : AllowanceTables) (orgId : String)
    (events : List UsageAllowanceCandidate) : List UsageAllowanceAllocation :=
  let candidates := callEvents tables orgId events
  allocationRows orgId (ensured env tables orgId candidates).1
    (ensured env tables orgId candidates).2.1
    candidates

section Call

variable {events : List UsageAllowanceCandidate}
variable (h : AllowanceKeys tables events) (env : BillingEnv) (orgId : String)

include h

theorem unresolvedEvents_eq : (events.filter fun event => 0 < event.grossUnits).filter
      (fun candidate => (dictGet candidate.usageEventId
        (loadExistingUsageAllowanceAllocations tables
        ((events.filter fun event => 0 < event.grossUnits).map
          usageEventId))).isNone) = unresolvedEvents tables events := by
  rw [filter_filter]
  refine filter_congr fun candidate hcand => ?_
  by_cases hgross : 0 < candidate.grossUnits
  · have hmem : candidate ∈ events.filter fun event => 0 < event.grossUnits :=
      mem_filter.mpr ⟨hcand, decide_eq_true hgross⟩
    rw [dictGet_loadExisting h.allocationIds, if_pos (mem_map_of_mem hmem), Bool.and_comm]
  · simp [hgross]

/-- A call, without its loops. -/
theorem applyUsageAllowance_eq :
      applyUsageAllowanceToUsageEventsInLockedTransaction env tables orgId events =
      (dictMerge (loadExistingUsageAllowanceAllocations tables
          ((events.filter fun event => 0 < event.grossUnits).map usageEventId))
          ((newRows env tables orgId events).map fun row => (row.usageEventId, row.unitsApplied)),
        { (ensured env tables orgId (callEvents tables orgId events)).2.2 with
          windows := (ensured env tables orgId (callEvents tables orgId events)).2.2.windows.map
              (charge (newRows env tables orgId events))
          allocations := tables.allocations ++ newRows env tables orgId events }) := by
  obtain ⟨issued, _, hloaded, _⟩ := ensured_spec h.windowIds h.units env orgId
    (callEvents tables orgId events)
  set candidates := callEvents tables orgId events
  set existing := loadExistingUsageAllowanceAllocations tables
    ((events.filter fun event => 0 < event.grossUnits).map usageEventId)
  have hcall : applyUsageAllowanceToUsageEventsInLockedTransaction env tables orgId events =
      let windows := ensured env tables orgId candidates
      let state := allocateUsageAllowanceToCandidates orgId candidates windows.1 windows.2.1
        existing
      (state.allowanceByUsageEvent, insertUsageAllowanceAllocations
        (persistUsageAllowanceWindowConsumption
        windows.2.2 (state.shortWindows ++ state.weeklyWindows)) state.allocations) := by
    unfold applyUsageAllowanceToUsageEventsInLockedTransaction
    dsimp only
    rw [unresolvedEvents_eq h, anchorUsageAllowanceCandidates_eq h.runIds]
    rfl
  have hwrite := persistUsageAllowanceWindowConsumption_eq (ensured env tables orgId candidates).2.2
    (fun state hstate => (hloaded.mem state hstate).2)
    (chargedUnits_nonneg fun row (hrow : row ∈ newRows env tables orgId events) =>
      allocationRows_pos hrow)
    fun id hid => chargedUnits_allocationRows hid
  rw [hcall]
  dsimp only
  rw [allocateUsageAllowanceToCandidates_eq hloaded.apart]
  rw [← map_append]
  refine Prod.ext rfl ?_
  refine (congrArg (fun tables => insertUsageAllowanceAllocations tables _) hwrite).trans ?_
  have hallocs : (ensured env tables orgId candidates).2.2.allocations = tables.allocations :=
    ensureForCandidates_allocations env tables orgId candidates _ _
  rw [hallocs]
  rfl

variable {event : UsageAllowanceCandidate}

omit h in
theorem mem_unresolvedEvents : event ∈ unresolvedEvents tables events ↔ event ∈ events ∧
      0 < event.grossUnits ∧ allocatedUnits tables.allocations event.usageEventId = none := by
  simp [unresolvedEvents]

omit h in
/-- A row belongs to an event that has no other allocation. -/
theorem of_mem_newRows {row} (hrow : row ∈ newRows env tables orgId events) :
    ∃ event ∈ unresolvedEvents tables events, event.usageEventId = row.usageEventId := by
  obtain ⟨anchored, hanch, hid⟩ := mem_map.mp (allocationRows_id hrow)
  obtain ⟨event, hevent, rfl⟩ := mem_map.mp hanch
  exact ⟨event, hevent, hid⟩

section

variable (hloaded : Loaded (tables.windows ++ issued) orgId
    ((callEvents tables orgId events).map allowanceAt)
    (ensured env tables orgId (callEvents tables orgId events)).1
    (ensured env tables orgId (callEvents tables orgId events)).2.1)

include hloaded

omit h in
/-- No window is overdrawn. -/
theorem limits_newRows (hlim : ∀ window ∈ tables.windows ++ issued,
    window.consumedUnits ≤ window.unitLimit) :
    ∀ window ∈ tables.windows ++ issued,
      (window.charge (newRows env tables orgId events)).consumedUnits ≤ window.unitLimit := by
  intro window hwin
  by_cases hin : ∃ state ∈ (ensured env tables orgId (callEvents tables orgId events)).1 ++
    (ensured env tables orgId
        (callEvents tables orgId events)).2.1, state.window.id = window.id
  · obtain ⟨state, hstate, hid⟩ := hin
    obtain rfl := inj_on_of_nodup_map hloaded.ids (hloaded.mem state hstate).1 hwin hid
    exact allocationRows_le_limit hloaded.nodup
      (fun state hstate => hlim state.window (hloaded.mem state hstate).1) _ state hstate
  · -- a window that is not in memory is not charged
    have hzero : chargedUnits (newRows env tables orgId events) window.id = 0 :=
      chargedUnits_allocationRows fun state hstate hid => hin ⟨state, hstate, hid⟩
    show window.consumedUnits + chargedUnits (newRows env tables orgId events) window.id ≤
      window.unitLimit
    rw [hzero, add_zero]
    exact hlim window hwin

/-- What an event is given when its turn comes. -/
theorem given_newRows {done rest} (hsplit : events = done ++ event :: rest)
    (hnone : allocatedUnits tables.allocations event.usageEventId = none) :
    Given (tables.windows ++ issued) orgId (anchor tables orgId event)
      ((newRows env tables orgId events).filter fun row =>
        row.usageEventId ∈ done.map usageEventId)
      ((newRows env tables orgId events).filter fun row =>
        row.usageEventId = event.usageEventId) := by
  have hmem : event ∈ events := by
    rw [hsplit]
    exact mem_append_right _ mem_cons_self
  by_cases hgross : 0 < event.grossUnits
  · have hres : callEvents tables orgId events = callEvents tables orgId done ++
        anchor tables orgId event :: callEvents tables orgId rest := by
      have hthis : unresolvedEvents tables
        (event :: rest) = event :: unresolvedEvents tables rest :=
        filter_cons_of_pos (by simp [hgross, hnone])
      have hparts : unresolvedEvents tables events =
          unresolvedEvents tables done ++ unresolvedEvents tables (event :: rest) := by
        rw [hsplit]
        exact filter_append _ _
      unfold callEvents
      rw [hparts, hthis, map_append, map_cons]
    have hids : ((callEvents tables orgId done ++ anchor tables orgId event ::
        callEvents tables orgId rest).map fun c => c.candidate.usageEventId).Nodup := by
      rw [← hres, callEvents, map_map]
      exact h.eventIds.sublist (filter_sublist.map _)
    -- rows with the id of an earlier event are rows of the earlier events
    have hearl : (newRows env tables orgId events).filter (fun row =>
        row.usageEventId ∈ done.map usageEventId) =
        (newRows env tables orgId events).filter (fun row =>
          row.usageEventId ∈ (callEvents tables orgId done).map fun c =>
            c.candidate.usageEventId) := by
      refine filter_congr fun row hrow => decide_eq_decide.mpr ?_
      obtain ⟨other, hother, hotherId⟩ := of_mem_newRows env orgId hrow
      obtain ⟨hotherMem, hotherRest⟩ := mem_unresolvedEvents.mp hother
      rw [callEvents, map_map]
      constructor
      · intro hdone
        obtain ⟨early, hearly, hearlyId⟩ := mem_map.mp hdone
        have hsame := inj_on_of_nodup_map h.eventIds
          (hsplit ▸ mem_append_left _ hearly) hotherMem (hearlyId.trans hotherId.symm)
        rw [hsame] at hearly hearlyId
        exact mem_map.mpr ⟨other, mem_unresolvedEvents.mpr ⟨hearly, hotherRest⟩, hearlyId⟩
      · intro hdone
        obtain ⟨early, hearly, hearlyId⟩ := mem_map.mp hdone
        exact mem_map.mpr ⟨early, (mem_unresolvedEvents.mp hearly).1, hearlyId⟩
    obtain ⟨hbef, hown⟩ := filter_allocationRows orgId
      (ensured env tables orgId (callEvents tables orgId events)).1
      (ensured env tables orgId (callEvents tables orgId events)).2.1 hids
    simp only [show (anchor tables orgId event).candidate = event from rfl] at hown
    rw [← hres] at hbef hown
    rw [hearl, newRows, hbef, hown]
    refine hloaded.given _ (mem_map_of_mem ?_)
    rw [hres]
    exact mem_append_right _ mem_cons_self
  · -- an event that costs nothing is given nothing
    have hown : (newRows env tables orgId events).filter (fun row =>
        row.usageEventId = event.usageEventId) = [] := by
      refine filter_eq_nil_iff.mpr fun row hrow hid => hgross ?_
      obtain ⟨other, hother, hotherId⟩ := of_mem_newRows env orgId hrow
      obtain ⟨hotherMem, hotherGross, _⟩ := mem_unresolvedEvents.mp hother
      have hsame := inj_on_of_nodup_map h.eventIds hotherMem hmem
        (hotherId.trans (of_decide_eq_true hid))
      exact hsame ▸ hotherGross
    rw [hown]
    by_cases hopen : ∀ kind, ∃ window ∈ tables.windows ++ issued,
        window.OpenFor orgId kind (eventTime tables orgId event)
    · obtain ⟨shortWindow, hshort, hshortOpen⟩ := hopen .short
      obtain ⟨weeklyWindow, hweekly, hweeklyOpen⟩ := hopen .weekly
      refine .inl ⟨shortWindow, hshort, weeklyWindow, hweekly, hshortOpen, hweeklyOpen, ?_⟩
      rw [if_neg]
      exact fun hpos => hgross (hpos.trans_le (min_le_left _ _))
    · obtain ⟨kind, hkind⟩ := not_forall.mp hopen
      exact .inr ⟨⟨kind, fun window hwin hwindowOpen => hkind ⟨window, hwin, hwindowOpen⟩⟩, rfl⟩

end

theorem nodup_newRows : ((newRows env tables orgId events).map
    UsageAllowanceAllocation.usageEventId).Nodup := by
  have hsubl := sublist_allocationRows orgId
    (ensured env tables orgId (callEvents tables orgId events)).1
    (ensured env tables orgId (callEvents tables orgId events)).2.1 (callEvents tables orgId events)
  refine List.Nodup.sublist hsubl ?_
  rw [callEvents, map_map]
  exact h.eventIds.sublist (filter_sublist.map _)

/-- The call returns what is allocated. -/
theorem returned_newRows (hevent : event ∈ events) (hgross : 0 < event.grossUnits) :
    dictGet event.usageEventId (applyUsageAllowanceToUsageEventsInLockedTransaction env tables orgId
      events).1 = allocatedUnits (tables.allocations ++ newRows env tables orgId events)
        event.usageEventId := by
  have hmem : event ∈ events.filter fun event => 0 < event.grossUnits :=
    mem_filter.mpr ⟨hevent, decide_eq_true hgross⟩
  rw [applyUsageAllowance_eq h, dictGet_dictMerge_rows (nodup_newRows h env orgId),
    dictGet_loadExisting h.allocationIds, if_pos (mem_map_of_mem hmem), allocatedUnits_append]
  show (allocatedUnits (newRows env tables orgId events) event.usageEventId).orElse _ = _
  cases hold : allocatedUnits tables.allocations event.usageEventId with
  | none => cases allocatedUnits (newRows env tables orgId events) event.usageEventId <;> rfl
  | some units =>
    have hnone : allocatedUnits (newRows env tables orgId events) event.usageEventId = none := by
      refine allocatedUnits_eq_none fun row hrow hid => ?_
      obtain ⟨other, hother, hotherId⟩ := of_mem_newRows env orgId hrow
      have hotherNone := (mem_unresolvedEvents.mp hother).2.2
      rw [hotherId, hid, hold] at hotherNone
      cases hotherNone
    rw [hnone]
    rfl

/-- **What a call does.** -/
theorem allowanceApplied (hlim : ∀ window ∈ tables.windows, window.consumedUnits ≤ window.unitLimit)
    : ∃ issued rows, AllowanceApplied env tables orgId events issued rows
    (applyUsageAllowanceToUsageEventsInLockedTransaction env tables orgId events) := by
  obtain ⟨issued, hwind, hloaded, hissuedFor, hissuedLimits⟩ :=
    ensured_spec h.windowIds h.units env orgId (callEvents tables orgId events)
  have hcall := applyUsageAllowance_eq h env orgId
  have hresult : (applyUsageAllowanceToUsageEventsInLockedTransaction env tables orgId
      events).2.windows =
      (tables.windows ++ issued).map (charge (newRows env tables orgId events)) := by
    rw [hcall, ← hwind]
  refine ⟨issued, newRows env tables orgId events, hresult, by rw [hcall], ?_, ?_, ?_, ?_, ?_⟩
  · rw [hresult]
    intro window hwin
    obtain ⟨before, hbef, rfl⟩ := mem_map.mp hwin
    exact limits_newRows env orgId hloaded
      (forall_mem_append.mpr ⟨hlim, hissuedLimits⟩) before hbef
  · intro done event rest hsplit hnone
    exact given_newRows h env orgId hloaded hsplit hnone
  · intro row hrow
    obtain ⟨event, hevent, hid⟩ := of_mem_newRows env orgId hrow
    obtain ⟨hmem, _, hnone⟩ := mem_unresolvedEvents.mp hevent
    exact ⟨hid ▸ hnone, event, hmem, hid⟩
  · intro event hevent hgross
    rw [returned_newRows h env orgId hevent hgross, hcall]
  · intro before window after hsplit
    obtain ⟨hmiss, horg, ⟨anchored, hanch, htime⟩, hent⟩ := hissuedFor before window after hsplit
    obtain ⟨event, hevent, rfl⟩ := mem_map.mp hanch
    exact ⟨hmiss, horg, ⟨event, (mem_unresolvedEvents.mp hevent).1, htime⟩, hent⟩

/-- The windows that are issued, without what the order of the events can change. -/
theorem newWindows_issue : (newWindows env tables orgId events).map issue =
    (((ensured env tables orgId (callEvents tables orgId events)).2.2.windows.map
      forgetRun).drop tables.windows.length).map issue := by
  unfold newWindows
  rw [applyUsageAllowance_eq h]
  rw [← map_drop, ← map_drop, map_map, map_map]
  rfl

end Call

/-- The order of the events does not matter for the windows that are read and issued. -/
theorem ensured_perm (env) (tables) (orgId) {candidates'}
    (hperm : List.Perm candidates candidates') :
      (ensured env tables orgId candidates).2.2.windows.map forgetRun =
      (ensured env tables orgId candidates').2.2.windows.map forgetRun := by
  have htimes := hperm.map allowanceAt
  unfold ensured
  dsimp only
  rw [lockIssuedWindowsForTimes_perm htimes, lockIssuedWindowsForTimes_perm htimes]
  exact ensureIssuedWindowsForCandidates_perm env tables orgId hperm _ _

/-- **Windows are never overdrawn or charged twice**, and the windows that are issued do
not depend on the order of the events. -/
theorem allowance_call_sound (env : BillingEnv) (tables : AllowanceTables) (orgId : String)
    (events : List UsageAllowanceCandidate) (h : AllowanceReady tables events) :
    (∃ issued rows, AllowanceApplied env tables orgId events issued rows
      (applyUsageAllowanceToUsageEventsInLockedTransaction env tables orgId events)) ∧
    ∀ events', List.Perm events events' → (newWindows env tables orgId events').map issue =
        (newWindows env tables orgId events).map issue := by
  refine ⟨allowanceApplied h.toAllowanceKeys env orgId h.limits, fun events' hperm => ?_⟩
  have h' : AllowanceKeys tables events' :=
    { h.toAllowanceKeys with eventIds := (hperm.map _).nodup_iff.mp h.eventIds }
  have hcandidates : List.Perm (callEvents tables orgId events) (callEvents tables orgId events') :=
    (hperm.filter _).map _
  rw [newWindows_issue h.toAllowanceKeys, newWindows_issue h',
    ensured_perm env tables orgId hcandidates]

/-- An entitlement to 100 units in five hours and 150 in a week, with a short window of
which 60 units are used. -/
def oneWindowTables : AllowanceTables where
  entitlements := [⟨1, "org", .active, 18000, 100, 604800, 150, 0, none, none⟩]
  windows := [⟨7, "org", 1, .short, 1000, 18001000, 100, 60, none⟩]
  allocations := []
  agentRuns := []

/-- Two events of 50 units. -/
def twoEvents : List UsageAllowanceCandidate :=
  [⟨1, none, some 2000, 50, 2000⟩, ⟨2, none, some 1500, 50, 1500⟩]

theorem allowance_call_sound_twoEvents : AllowanceReady oneWindowTables twoEvents ∧
    ((∃ issued rows, AllowanceApplied (quietEnv 3000) oneWindowTables "org" twoEvents issued rows
      (applyUsageAllowanceToUsageEventsInLockedTransaction (quietEnv 3000) oneWindowTables "org"
        twoEvents)) ∧
    ∀ events', List.Perm twoEvents events' →
      (newWindows (quietEnv 3000) oneWindowTables "org" events').map issue =
        (newWindows (quietEnv 3000) oneWindowTables "org" twoEvents).map issue) := by
  have hready : AllowanceReady oneWindowTables twoEvents := by
    refine ⟨⟨by decide, by decide, by decide, by decide, fun entitlement hmem kind => ?_⟩,
      by decide⟩
    rw [mem_singleton.mp hmem]
    cases kind <;> decide
  exact ⟨hready, allowance_call_sound (quietEnv 3000) oneWindowTables "org" twoEvents hready⟩

end Okou.Billing
