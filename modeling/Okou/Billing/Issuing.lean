import Okou.Billing.Windows

/-!
# Issuing allowance windows

A window is issued where the time of an event is covered by no window of its kind and
the entitlement covers it.  The events are taken in the order of their times, so that
the windows that are issued do not depend on the order in which the events come.
-/

namespace Okou.Billing

open List AnchoredUsageAllowanceCandidate

/-! ### Windows that are read -/

variable {time : Time} {times : List Time} (window : UsageAllowanceWindow)
  {state : UsageAllowanceWindowState}

theorem foldl_min_spec : times.foldl min time ∈ time :: times ∧ ∀ other ∈ time :: times,
    times.foldl min time ≤ other :=
  min?_eq_some_iff.mp rfl

theorem foldl_max_spec : times.foldl max time ∈ time :: times ∧ ∀ other ∈ time :: times,
    other ≤ times.foldl max time :=
  max?_eq_some_iff.mp rfl

section Read

variable {tables : AllowanceTables} {orgId : String} {kind : UsageAllowanceWindowKind}
  {times : List Time}

/-- A window that is read is a row of the table. -/
theorem of_mem_lockIssuedWindowsForTimes
    (hstate : state ∈ lockIssuedWindowsForTimes tables orgId kind times) :
    state.window ∈ tables.windows ∧ state.window.orgId = orgId ∧ state.window.kind = kind ∧
      state.initialConsumedUnits = state.window.consumedUnits := by
  cases times with
  | nil => exact absurd hstate not_mem_nil
  | cons time times =>
    obtain ⟨window, hwin, rfl⟩ := mem_map.mp hstate
    rw [mem_insertionSort, mem_filter] at hwin
    simp only [Bool.and_eq_true, decide_eq_true_eq] at hwin
    exact ⟨hwin.1, hwin.2.1.1.1, hwin.2.1.1.2, rfl⟩

/-- Every window of the table that is open at one of the times is read. -/
theorem mem_lockIssuedWindowsForTimes {window} (hwin : window ∈ tables.windows)
    (horg : window.orgId = orgId) (hkind : window.kind = kind) (htime : time ∈ times)
    (hcov : window.Covers time) :
    (⟨window, window.consumedUnits⟩ : UsageAllowanceWindowState) ∈
      lockIssuedWindowsForTimes tables orgId kind times := by
  cases times with
  | nil => exact absurd htime not_mem_nil
  | cons first times =>
    have hearl := foldl_min_spec.2 time htime
    have hlat := foldl_max_spec.2 time htime
    refine mem_map.mpr ⟨window, ?_, rfl⟩
    rw [mem_insertionSort, mem_filter]
    simp only [Bool.and_eq_true, decide_eq_true_eq]
    exact ⟨hwin, ⟨⟨horg, hkind⟩, hcov.1.trans hlat⟩, hearl.trans_lt hcov.2⟩

theorem nodup_lockIssuedWindowsForTimes (hids : (tables.windows.map UsageAllowanceWindow.id).Nodup)
    :
    ((lockIssuedWindowsForTimes tables orgId kind times).map fun state =>
      state.window.id).Nodup := by
  cases times with
  | nil => exact nodup_nil
  | cons time times =>
    unfold lockIssuedWindowsForTimes
    rw [map_map]
    refine ((perm_insertionSort _ _).map _).nodup_iff.mpr ?_
    exact hids.sublist (filter_sublist.map _)

/-- The windows that are read do not depend on the order of the times. -/
theorem lockIssuedWindowsForTimes_perm {times' : List Time} (hperm : List.Perm times times') :
    lockIssuedWindowsForTimes tables orgId kind times = lockIssuedWindowsForTimes tables orgId kind
      times' := by
  cases times with
  | nil => rw [nil_perm.mp hperm]
  | cons time rest =>
    cases times' with
    | nil => exact absurd hperm.symm (not_perm_nil_cons _ _)
    | cons time' rest' =>
      have hmin : rest.foldl min time = rest'.foldl min time' :=
        le_antisymm (foldl_min_spec.2 _ (hperm.mem_iff.mpr foldl_min_spec.1))
          (foldl_min_spec.2 _ (hperm.mem_iff.mp foldl_min_spec.1))
      have hmax : rest.foldl max time = rest'.foldl max time' :=
        le_antisymm (foldl_max_spec.2 _ (hperm.mem_iff.mp foldl_max_spec.1))
          (foldl_max_spec.2 _ (hperm.mem_iff.mpr foldl_max_spec.1))
      unfold lockIssuedWindowsForTimes
      dsimp only
      rw [hmin, hmax]

end Read

/-! ### Windows that are issued -/

/-- A window in memory that nothing has been taken from since it was read. -/
def unchanged (window : UsageAllowanceWindow) : UsageAllowanceWindowState :=
  ⟨window, window.consumedUnits⟩

/-- The windows of a kind that are issued for some events. -/
structure Issued (entitlement : UsageAllowanceEntitlement) (kind : UsageAllowanceWindowKind)
    (candidates : List AnchoredUsageAllowanceCandidate) (windows : List UsageAllowanceWindowState)
    (table issued : List UsageAllowanceWindow) : Prop where
  /-- They are windows of the entitlement, and it covers their start. -/
  entitled : ∀ window ∈ issued, window.orgId = entitlement.orgId ∧
    window.entitlementId = entitlement.id ∧ entitlementCoversAt entitlement window.startsAt = true
  /-- They have its duration and limit, and are unused. -/
  fresh : ∀ window ∈ issued, window.kind = kind ∧
    window.expiresAt = addSeconds window.startsAt (windowDurationSeconds entitlement kind) ∧
    window.unitLimit = windowUnitLimit entitlement kind ∧ window.consumedUnits = 0
  /-- Each is issued for an event. -/
  event : ∀ window ∈ issued, ∃ anchored ∈ candidates, anchored.allowanceAt = window.startsAt ∧
    anchored.candidate.runId = window.createdByRunId
  /-- No window that was there, or was issued before, is open at its start. -/
  missing : ∀ before window after, issued = before ++ window :: after →
    (∀ state ∈ windows, ¬state.window.Covers window.startsAt) ∧ ∀ other ∈ before,
      ¬other.Covers window.startsAt
  /-- Their ids are new. -/
  ids : (table.map UsageAllowanceWindow.id).Nodup →
    ((table ++ issued).map UsageAllowanceWindow.id).Nodup
  /-- Where the entitlement covers an event, a window is open. -/
  opened : 0 < windowDurationSeconds entitlement kind → ∀ anchored ∈ candidates,
    entitlementCoversAt entitlement anchored.allowanceAt = true →
      ∃ state ∈ windows ++ issued.map unchanged, state.window.Covers anchored.allowanceAt

section Issue

variable (env : BillingEnv) (entitlement : UsageAllowanceEntitlement)
  (kind : UsageAllowanceWindowKind)
  {candidates : List AnchoredUsageAllowanceCandidate} {windows : List UsageAllowanceWindowState}
  {table issued : List UsageAllowanceWindow} {anchored : AnchoredUsageAllowanceCandidate}

/-- An event for which nothing is issued. -/
theorem Issued.skip (h : Issued entitlement kind candidates windows table issued)
    (hskip : entitlementCoversAt entitlement anchored.allowanceAt →
      ∃ state ∈ windows ++ issued.map unchanged, state.window.Covers anchored.allowanceAt) :
    Issued entitlement kind (candidates ++ [anchored]) windows table issued := by
  refine ⟨h.entitled, h.fresh, ?_, h.missing, h.ids, ?_⟩
  · intro window hwin
    obtain ⟨other, hother, heq⟩ := h.event window hwin
    exact ⟨other, mem_append_left _ hother, heq⟩
  · exact fun hdur => forall_mem_append.mpr ⟨h.opened hdur, forall_mem_singleton.mpr hskip⟩

/-- An event for which a window is issued. -/
theorem Issued.issue (h : Issued entitlement kind candidates windows table issued)
    (hcov : entitlementCoversAt entitlement anchored.allowanceAt)
    (hmiss : ∀ state ∈ windows ++ issued.map unchanged, ¬state.window.Covers anchored.allowanceAt)
    {id : Uuid} (hid : id ∉ (table ++ issued).map UsageAllowanceWindow.id) :
    Issued entitlement kind (candidates ++ [anchored]) windows table (issued ++
      [⟨id, entitlement.orgId, entitlement.id, kind, anchored.allowanceAt,
        addSeconds anchored.allowanceAt (windowDurationSeconds entitlement kind),
        windowUnitLimit entitlement kind, 0, anchored.candidate.runId⟩]) := by
  constructor
  case entitled =>
    exact forall_mem_append.mpr ⟨h.entitled, forall_mem_singleton.mpr ⟨rfl, rfl, hcov⟩⟩
  case fresh =>
    exact forall_mem_append.mpr ⟨h.fresh, forall_mem_singleton.mpr ⟨rfl, rfl, rfl, rfl⟩⟩
  case event =>
    refine forall_mem_append.mpr ⟨fun window hwin => ?_, forall_mem_singleton.mpr ?_⟩
    · obtain ⟨other, hother, heq⟩ := h.event window hwin
      exact ⟨other, mem_append_left _ hother, heq⟩
    · exact ⟨anchored, mem_append_right _ (mem_singleton_self _), rfl, rfl⟩
  case missing =>
    intro before window after hsplit
    rcases eq_nil_or_concat after with rfl | ⟨after, last, rfl⟩
    · -- the window that is issued now
      obtain ⟨rfl, hwin⟩ := append_inj' hsplit rfl
      cases hwin
      refine ⟨fun state hstate => hmiss state (mem_append_left _ hstate), fun other hother => ?_⟩
      exact hmiss (unchanged other) (mem_append_right _ (mem_map_of_mem hother))
    · rw [concat_eq_append, ← cons_append, ← append_assoc] at hsplit
      exact h.missing before window after (append_inj' hsplit rfl).1
  case ids =>
    intro htable
    rw [← append_assoc, map_append, map_singleton, nodup_append_comm, singleton_append, nodup_cons]
    exact ⟨hid, h.ids htable⟩
  case opened =>
    intro hdur other hother hentitled
    rw [map_append, ← append_assoc]
    rcases mem_append.mp hother with hold | hnew
    · obtain ⟨state, hstate, hopen⟩ := h.opened hdur other hold hentitled
      exact ⟨state, mem_append_left _ hstate, hopen⟩
    · refine ⟨_, mem_append_right _ (mem_singleton_self _), ?_⟩
      rw [mem_singleton.mp hnew]
      refine ⟨le_rfl, ?_⟩
      exact lt_add_of_pos_right anchored.allowanceAt (mul_pos hdur (by decide))

/-- **Which windows of a kind are issued.** -/
theorem ensureIssuedWindowsForKind_spec (candidates)
    (windows) (tables) :
    ∃ issued, ensureIssuedWindowsForKind env entitlement kind candidates windows tables =
        (windows ++ issued.map unchanged, { tables with windows := tables.windows ++ issued }) ∧
      Issued entitlement kind candidates windows tables.windows issued := by
  induction candidates using reverseRecOn with
  | nil =>
    refine ⟨[], by simp [ensureIssuedWindowsForKind], ?_⟩
    constructor <;> simp
  | append_singleton candidates anchored ih =>
    obtain ⟨issued, heq, hiss⟩ := ih
    rw [ensureIssuedWindowsForKind] at heq ⊢
    rw [foldl_append, heq, foldl_cons, foldl_nil, ensureIssuedWindow]
    split
    · next hcond =>
      obtain ⟨hnone, hcov⟩ := Bool.and_eq_true_iff.mp hcond
      have hmiss := latestIssuedWindowAt_none.mp (Option.isNone_iff_eq_none.mp hnone)
      refine ⟨_, ?_, hiss.issue entitlement kind hcov hmiss
        (env.newId_fresh ((tables.windows ++ issued).map UsageAllowanceWindow.id))⟩
      simp [insertWindow, unchanged]
    · next hcond =>
      refine ⟨issued, rfl, hiss.skip entitlement kind fun hcov => ?_⟩
      by_contra hopen
      refine hcond (Bool.and_eq_true_iff.mpr ⟨?_, hcov⟩)
      rw [latestIssuedWindowAt_none.mpr fun state hstate hstateOpen =>
        hopen ⟨state, hstate, hstateOpen⟩]
      rfl

end Issue

/-! ### The entitlement -/

/-- Loading the entitlement changes entitlements only. -/
theorem loadActive_frame (env) (tables) (orgId : String) :
    ∃ entitlements, (loadActiveUsageAllowanceEntitlement env tables orgId).2 =
      { tables with entitlements := entitlements } := by
  unfold loadActiveUsageAllowanceEntitlement refreshUsageAllowanceEntitlementFromStripe
  dsimp only
  repeat' split
  all_goals exact ⟨_, rfl⟩

variable {env : BillingEnv} {tables : AllowanceTables} {orgId : String} (state)

/-- The entitlement that is loaded is a row of the organization, but for its status and
its end. -/
theorem loadActive_some {entitlement}
    (h : (loadActiveUsageAllowanceEntitlement env tables orgId).1 = some entitlement) :
    ∃ row ∈ tables.entitlements, row.orgId = orgId ∧
      { entitlement with status := row.status, expiresAt := row.expiresAt } = row := by
  unfold loadActiveUsageAllowanceEntitlement at h
  dsimp only at h
  split at h
  · cases h
  · next row hfind =>
    have hcond := find?_some hfind
    simp only [Bool.and_eq_true, decide_eq_true_eq] at hcond
    refine ⟨row, mem_of_find?_eq_some hfind, hcond.1.1.1, ?_⟩
    split at h
    · cases h
      rfl
    · unfold refreshUsageAllowanceEntitlementFromStripe at h
      split at h
      · cases h
      · dsimp only at h
        repeat' split at h
        all_goals cases h
        rfl

/-! ### All windows -/

section Candidates

variable {candidates : List AnchoredUsageAllowanceCandidate}
variable {shortWindows weeklyWindows : List UsageAllowanceWindowState}

/-- Events in the order of their times. -/
def byAllowanceTime (candidates : List AnchoredUsageAllowanceCandidate) :
    List AnchoredUsageAllowanceCandidate :=
  candidates.insertionSort fun a b => a.allowanceAt ≤ b.allowanceAt

variable (env tables orgId candidates shortWindows weeklyWindows) in
/-- **Which windows are issued**: none where all are open or there is no entitlement. -/
theorem ensureIssuedWindowsForCandidates_spec : let loaded := loadActiveUsageAllowanceEntitlement env tables orgId
    let ensured := ensureIssuedWindowsForCandidates env tables orgId candidates shortWindows weeklyWindows
    ((∀ anchored ∈ candidates, latestIssuedWindowAt shortWindows anchored.allowanceAt ≠ none ∧
          latestIssuedWindowAt weeklyWindows anchored.allowanceAt ≠ none) ∧
        ensured = (shortWindows, weeklyWindows, tables)) ∨
      (loaded.1 = none ∧ ensured = (shortWindows, weeklyWindows, loaded.2)) ∨
      ∃ entitlement issuedShort issuedWeekly, loaded.1 = some entitlement ∧
        ensured = (shortWindows ++ issuedShort.map unchanged,
            weeklyWindows ++ issuedWeekly.map unchanged,
            { loaded.2 with windows := tables.windows ++ issuedShort ++ issuedWeekly }) ∧
        Issued entitlement .short (byAllowanceTime candidates) shortWindows tables.windows
          issuedShort ∧
        Issued entitlement .weekly (byAllowanceTime candidates) weeklyWindows
          (tables.windows ++ issuedShort) issuedWeekly := by
  obtain ⟨entitlements, hframe⟩ := loadActive_frame env tables orgId
  unfold ensureIssuedWindowsForCandidates
  dsimp only
  split
  · next hmiss =>
    refine .inl ⟨fun anchored hanchored => ?_, rfl⟩
    rw [Bool.not_eq_true', any_eq_false] at hmiss
    have hboth := hmiss anchored hanchored
    simp only [Bool.or_eq_true, Option.isNone_iff_eq_none, not_or] at hboth
    exact hboth
  · right
    rcases hload : loadActiveUsageAllowanceEntitlement env tables orgId with ⟨found, loaded⟩
    rw [hload] at hframe
    cases found with
    | none => exact .inl ⟨rfl, rfl⟩
    | some entitlement =>
      obtain ⟨issuedShort, hshort, hissuedShort⟩ :=
        ensureIssuedWindowsForKind_spec env entitlement .short
        (byAllowanceTime candidates) shortWindows loaded
      obtain ⟨issuedWeekly, hweekly, hissuedWeekly⟩ :=
        ensureIssuedWindowsForKind_spec env entitlement
        .weekly (byAllowanceTime candidates) weeklyWindows
          { loaded with windows := loaded.windows ++ issuedShort }
      have hwind : loaded.windows = tables.windows := by
        rw [show loaded = _ from hframe]
      rw [hwind] at hissuedShort hissuedWeekly
      refine .inr ⟨entitlement, issuedShort, issuedWeekly, rfl, ?_, hissuedShort, hissuedWeekly⟩
      dsimp only
      unfold byAllowanceTime at hshort hweekly
      rw [hshort]
      rw [hweekly, hwind]

end Candidates

/-! ### The order of the events -/

/-- A window without the run that is noted with it: where two events have the same time,
it is the run of the one that comes first. -/
def UsageAllowanceWindow.forgetRun (window : UsageAllowanceWindow) : UsageAllowanceWindow :=
  { window with createdByRunId := none }

/-- A window in memory without the run. -/
def UsageAllowanceWindowState.forgetRun (state : UsageAllowanceWindowState) :
  UsageAllowanceWindowState := { state with window := state.window.forgetRun }

open UsageAllowanceWindow (forgetRun)

/-- What matters of the state of the loop that issues windows. -/
def forgetRuns (state : List UsageAllowanceWindowState × AllowanceTables) :
    List UsageAllowanceWindowState × List UsageAllowanceWindow :=
  (state.1.map UsageAllowanceWindowState.forgetRun, state.2.windows.map forgetRun)

section Order

variable (env : BillingEnv) (entitlement : UsageAllowanceEntitlement)
  (kind : UsageAllowanceWindowKind)

/-- One turn of the loop, for a time. -/
def issueAt (state : List UsageAllowanceWindowState × List UsageAllowanceWindow) (time : Time) :
    List UsageAllowanceWindowState × List UsageAllowanceWindow :=
  if (latestIssuedWindowAt state.1 time).isNone && entitlementCoversAt entitlement time then
    let window : UsageAllowanceWindow :=
      ⟨env.newId (state.2.map UsageAllowanceWindow.id), entitlement.orgId, entitlement.id, kind,
        time,
        addSeconds time (windowDurationSeconds entitlement kind), windowUnitLimit entitlement kind,
          0, none⟩
    (state.1 ++ [unchanged window], state.2 ++ [window])
  else state

theorem latestIssuedWindowAt_forgetRun (windows) (time : Time) :
    (latestIssuedWindowAt (windows.map UsageAllowanceWindowState.forgetRun) time).isNone =
      (latestIssuedWindowAt windows time).isNone := by
  rw [latestIssuedWindowAt_map UsageAllowanceWindowState.forgetRun forgetRun
    (fun _ => rfl) (fun _ => rfl) (fun _ => rfl)]
  cases latestIssuedWindowAt windows time <;> rfl

theorem forgetRuns_ensureIssuedWindow (state)
    (anchored) :
    forgetRuns (ensureIssuedWindow env entitlement kind state anchored) =
      issueAt env entitlement kind (forgetRuns state) anchored.allowanceAt := by
  have hids : (state.2.windows.map forgetRun).map UsageAllowanceWindow.id =
      state.2.windows.map UsageAllowanceWindow.id := by
    rw [map_map]
    rfl
  unfold ensureIssuedWindow issueAt forgetRuns
  rw [latestIssuedWindowAt_forgetRun]
  split
  · rw [hids]
    simp [insertWindow, unchanged, UsageAllowanceWindowState.forgetRun, forgetRun]
  · rfl

/-- Up to the runs, the loop sees only the times. -/
theorem forgetRuns_ensureIssuedWindowsForKind (candidates)
    (windows) (tables) :
    forgetRuns (ensureIssuedWindowsForKind env entitlement kind candidates windows tables) =
      (candidates.map allowanceAt).foldl (issueAt env entitlement kind)
        (forgetRuns (windows, tables)) := by
  rw [foldl_map]
  exact (foldl_hom forgetRuns fun state anchored =>
    (forgetRuns_ensureIssuedWindow env entitlement kind _ _).symm).symm

end Order

variable {candidates candidates' : List AnchoredUsageAllowanceCandidate}

/-- Events in another order have the same times, in order. -/
theorem map_byAllowanceTime (hperm : List.Perm candidates candidates') :
    (byAllowanceTime candidates).map allowanceAt = (byAllowanceTime candidates').map
      allowanceAt := by
  have hsort : ∀ candidates : List AnchoredUsageAllowanceCandidate,
      ((byAllowanceTime candidates).map allowanceAt).Pairwise (· ≤ ·) := by
    intro candidates
    rw [pairwise_map]
    exact pairwise_insertionSort _ _
  refine List.Perm.eq_of_pairwise (fun a b _ _ hab hba => le_antisymm hab hba) (hsort _) (hsort _)
    ?_
  refine List.Perm.map _ ?_
  exact ((perm_insertionSort _ _).trans hperm).trans (perm_insertionSort _ _).symm

/-- **The order of the events does not matter** for the windows that are issued. -/
theorem ensureIssuedWindowsForCandidates_perm (env) (tables) (orgId : String)
    (hperm : List.Perm candidates candidates') (shortWindows weeklyWindows) :
    (ensureIssuedWindowsForCandidates env tables orgId candidates shortWindows
        weeklyWindows).2.2.windows.map forgetRun =
      (ensureIssuedWindowsForCandidates env tables orgId candidates' shortWindows
        weeklyWindows).2.2.windows.map forgetRun := by
  unfold ensureIssuedWindowsForCandidates
  dsimp only
  rw [hperm.any_eq]
  split
  · rfl
  · rcases loadActiveUsageAllowanceEntitlement env tables orgId with ⟨found, loaded⟩
    cases found with
    | none => rfl
    | some entitlement =>
      -- windows that differ in their runs are issued from tables that do
      have hsame {kind : UsageAllowanceWindowKind} {windows : List UsageAllowanceWindowState}
          {tables tables' : AllowanceTables}
          (h : tables.windows.map forgetRun = tables'.windows.map forgetRun) :
          forgetRuns (ensureIssuedWindowsForKind env entitlement kind (byAllowanceTime candidates)
            windows tables) =
            forgetRuns (ensureIssuedWindowsForKind env entitlement kind
              (byAllowanceTime candidates') windows
              tables') := by
        rw [forgetRuns_ensureIssuedWindowsForKind, forgetRuns_ensureIssuedWindowsForKind,
          map_byAllowanceTime hperm, forgetRuns, forgetRuns, h]
      have hshort := congrArg Prod.snd (@hsame .short shortWindows loaded loaded rfl)
      exact congrArg Prod.snd (@hsame .weekly weeklyWindows _ _ hshort)

end Okou.Billing
