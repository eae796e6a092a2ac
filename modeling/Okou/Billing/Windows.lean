import Okou.Billing.Allowance

/-!
# What an allowance call does to its windows

The call reads the windows that are open at the times of its events, issues those
that are missing, lets each event consume units of one short and one weekly window,
and writes the consumption back.  The windows in memory are always the windows that
were read, charged with the allocations made so far; what the loop needs to carry
is the list of these allocations.
-/

namespace Okou.Billing

open List UsageAllowanceAllocation

/-! ### Open windows -/

variable (rows : List UsageAllowanceAllocation) (window : UsageAllowanceWindow)
  (windows : List UsageAllowanceWindowState) (time : Time)

/-- A window is open at a time. -/
def UsageAllowanceWindow.Covers : Prop :=
  window.startsAt ≤ time ∧ time < window.expiresAt

instance (window : UsageAllowanceWindow) (time : Time) : Decidable (window.Covers time) :=
  inferInstanceAs (Decidable (_ ∧ _))

theorem latestIssuedWindowAt_append (state) (time : Time) :
    latestIssuedWindowAt (windows ++ [state]) time =
      if state.window.Covers time ∧ ((latestIssuedWindowAt windows time).all fun latest =>
          latest.startsAt < state.window.startsAt) then
        some state.window
      else latestIssuedWindowAt windows time := by
  unfold latestIssuedWindowAt UsageAllowanceWindow.Covers
  rw [foldl_append, foldl_cons, foldl_nil]
  simp only [and_assoc]

variable {windows time} in
/-- The search finds nothing exactly if no window is open. -/
theorem latestIssuedWindowAt_none :
    latestIssuedWindowAt windows time = none ↔ ∀ state ∈ windows, ¬state.window.Covers time := by
  induction windows using reverseRecOn with
  | nil => simp [latestIssuedWindowAt]
  | append_singleton windows state ih =>
    rw [latestIssuedWindowAt_append, forall_mem_append, ← ih]
    by_cases hcov : state.window.Covers time
    · cases hlat : latestIssuedWindowAt windows time with
      | none => simp [hcov]
      | some latest => by_cases hlater : latest.startsAt < state.window.startsAt <;> simp [hcov,
        hlater]
    · simp [hcov]

variable {windows time window} in
/-- The search finds a window that is open. -/
theorem latestIssuedWindowAt_some (h : latestIssuedWindowAt windows time = some window) :
    window.Covers time ∧ ∃ state ∈ windows, state.window = window := by
  induction windows using reverseRecOn with
  | nil => cases h
  | append_singleton windows state ih =>
    rw [latestIssuedWindowAt_append] at h
    split at h
    · next hcond =>
      cases h
      exact ⟨hcond.1, state, mem_append_right _ (mem_singleton_self _), rfl⟩
    · obtain ⟨hcov, other, hmem, heq⟩ := ih h
      exact ⟨hcov, other, mem_append_left _ hmem, heq⟩

/-- The search does not look at anything but the times of the windows. -/
theorem latestIssuedWindowAt_map (f : UsageAllowanceWindowState → UsageAllowanceWindowState)
    (g : UsageAllowanceWindow → UsageAllowanceWindow)
    (hf : ∀ state, (f state).window = g state.window)
    (hstarts : ∀ window, (g window).startsAt = window.startsAt)
    (hexp : ∀ window, (g window).expiresAt = window.expiresAt) (windows)
    (time : Time) : latestIssuedWindowAt (windows.map f) time =
      (latestIssuedWindowAt windows time).map g := by
  unfold latestIssuedWindowAt
  rw [foldl_map, ← Option.map_none (f := g)]
  refine foldl_hom _ fun latest state => ?_
  simp only [hf, hstarts, hexp, Option.all_map]
  split <;> rfl

/-! ### Charges -/

/-- What a row takes from the window of an id. -/
def UsageAllowanceAllocation.unitsFrom (row : UsageAllowanceAllocation) (id : Uuid) : ℤ :=
  if row.shortWindowId = id ∨ row.weeklyWindowId = id then row.unitsApplied else 0

/-- What allocations take from the window of an id. -/
def chargedUnits (id : Uuid) : ℤ :=
  (rows.map fun row => row.unitsFrom id).sum

/-- A window that is charged with allocations. -/
def UsageAllowanceWindow.charge : UsageAllowanceWindow :=
  { window with consumedUnits := window.consumedUnits + chargedUnits rows window.id }

/-- A window in memory that is charged with allocations. -/
def UsageAllowanceWindowState.charge (rows : List UsageAllowanceAllocation)
    (state : UsageAllowanceWindowState) : UsageAllowanceWindowState :=
  { state with window := state.window.charge rows }

open UsageAllowanceWindowState (charge)

theorem chargedUnits_append (first second) (id : Uuid) :
    chargedUnits (first ++ second) id = chargedUnits first id + chargedUnits second id := by
  unfold chargedUnits
  rw [map_append, sum_append]

variable {rows : List UsageAllowanceAllocation}

theorem chargedUnits_nonneg (hrows : ∀ row ∈ rows, 0 < row.unitsApplied) (id : Uuid) :
    0 ≤ chargedUnits rows id := by
  refine sum_nonneg (forall_mem_map.mpr fun row hrow => ?_)
  unfold unitsFrom
  split
  · exact (hrows row hrow).le
  · exact le_rfl

theorem chargedUnits_eq_zero {id} (hrows : ∀ row ∈ rows, row.shortWindowId ≠ id ∧
    row.weeklyWindowId ≠ id) :
    chargedUnits rows id = 0 := by
  refine sum_eq_zero (forall_mem_map.mpr fun row hrow => ?_)
  exact if_neg (not_or.mpr (hrows row hrow))

theorem charge_nil : window.charge [] = window := by
  show { window with consumedUnits := window.consumedUnits + 0 } = window
  rw [add_zero]

theorem latestIssuedWindowAt_charge : latestIssuedWindowAt (windows.map (charge rows)) time =
      (latestIssuedWindowAt windows time).map (UsageAllowanceWindow.charge rows) :=
  latestIssuedWindowAt_map (charge rows) (UsageAllowanceWindow.charge rows)
    (fun _ => rfl) (fun _ => rfl) (fun _ => rfl) windows time

/-! ### The loop over the events -/

variable {windows : List UsageAllowanceWindowState}

section Loop

variable (orgId : String) (shortWindows weeklyWindows : List UsageAllowanceWindowState)

variable (candidates : List AnchoredUsageAllowanceCandidate) (rows)

/-- What an event can still be given. -/
def availableUnits (rows : List UsageAllowanceAllocation) (grossUnits : ℤ)
    (shortWindow weeklyWindow : UsageAllowanceWindow) : ℤ :=
  min grossUnits (min (remainingUnits (shortWindow.charge rows))
    (remainingUnits (weeklyWindow.charge rows)))

/-- The allocation of an event after others, if it gets one. -/
def allocationRow (rows : List UsageAllowanceAllocation)
    (anchored : AnchoredUsageAllowanceCandidate) : List UsageAllowanceAllocation :=
  match latestIssuedWindowAt shortWindows anchored.allowanceAt,
      latestIssuedWindowAt weeklyWindows anchored.allowanceAt with
  | some shortWindow, some weeklyWindow =>
    let units := availableUnits rows anchored.candidate.grossUnits shortWindow weeklyWindow
    if units ≤ 0 then []
    else [⟨anchored.candidate.usageEventId, orgId, anchored.candidate.runId, shortWindow.id,
      weeklyWindow.id, units⟩]
  | _, _ => []

/-- The allocations of events that come one after the other. -/
def allocationRows (candidates : List AnchoredUsageAllowanceCandidate) :
    List UsageAllowanceAllocation :=
  candidates.foldl (fun rows anchored =>
    rows ++ allocationRow orgId shortWindows weeklyWindows rows anchored) []

variable {orgId shortWindows weeklyWindows candidates rows}

/-- The row that an event gets from two windows. -/
def rowFor (orgId : String) (rows : List UsageAllowanceAllocation)
    (anchored : AnchoredUsageAllowanceCandidate)
    (shortWindow weeklyWindow : UsageAllowanceWindow) : UsageAllowanceAllocation :=
  ⟨anchored.candidate.usageEventId, orgId, anchored.candidate.runId, shortWindow.id,
    weeklyWindow.id, availableUnits rows anchored.candidate.grossUnits shortWindow weeklyWindow⟩

/-- An event gets a row exactly if two windows are open and something is left. -/
theorem allocationRow_cases (orgId : String) (shortWindows weeklyWindows)
    (rows) (anchored) :
    ((latestIssuedWindowAt shortWindows anchored.allowanceAt = none ∨
        latestIssuedWindowAt weeklyWindows anchored.allowanceAt = none) ∧
      allocationRow orgId shortWindows weeklyWindows rows anchored = []) ∨
    ∃ shortWindow weeklyWindow, latestIssuedWindowAt shortWindows anchored.allowanceAt =
      some shortWindow ∧
      latestIssuedWindowAt weeklyWindows anchored.allowanceAt = some weeklyWindow ∧
      allocationRow orgId shortWindows weeklyWindows rows anchored =
        if 0 < availableUnits rows anchored.candidate.grossUnits shortWindow weeklyWindow then
          [rowFor orgId rows anchored shortWindow weeklyWindow]
        else [] := by
  unfold allocationRow
  cases hshort : latestIssuedWindowAt shortWindows anchored.allowanceAt with
  | none => exact .inl ⟨.inl rfl, rfl⟩
  | some shortWindow =>
    cases hweekly : latestIssuedWindowAt weeklyWindows anchored.allowanceAt with
    | none => exact .inl ⟨.inr rfl, rfl⟩
    | some weeklyWindow =>
      refine .inr ⟨shortWindow, weeklyWindow, rfl, rfl, ?_⟩
      dsimp only
      split
      · next hzero => rw [if_neg (not_lt.mpr hzero)]
      · next hpos => rw [if_pos (not_le.mp hpos)]; rfl

variable {row : UsageAllowanceAllocation}

variable {anchored : AnchoredUsageAllowanceCandidate} (done : List AnchoredUsageAllowanceCandidate)

variable (rest : List AnchoredUsageAllowanceCandidate)

/-- The row of an event, read back: it names two open windows and has what is left. -/
theorem mem_allocationRow (hrow : row ∈ allocationRow orgId shortWindows weeklyWindows rows
    anchored) :
    ∃ shortWindow weeklyWindow, latestIssuedWindowAt shortWindows anchored.allowanceAt =
      some shortWindow ∧
      latestIssuedWindowAt weeklyWindows anchored.allowanceAt = some weeklyWindow ∧
      0 < availableUnits rows anchored.candidate.grossUnits shortWindow weeklyWindow ∧
      row = rowFor orgId rows anchored shortWindow weeklyWindow := by
  rcases allocationRow_cases orgId shortWindows weeklyWindows rows anchored with
    ⟨_, hnil⟩ | ⟨shortWindow, weeklyWindow, hshort, hweekly, heq⟩
  · rw [hnil] at hrow
    exact absurd hrow not_mem_nil
  · rw [heq] at hrow
    split at hrow
    · next hpos => exact ⟨shortWindow, weeklyWindow, hshort, hweekly, hpos, mem_singleton.mp hrow⟩
    · exact absurd hrow not_mem_nil

/-- Windows of the two kinds have different ids. -/
def Apart (shortWindows weeklyWindows : List UsageAllowanceWindowState) : Prop :=
  ∀ shortState ∈ shortWindows, ∀ weeklyState ∈ weeklyWindows,
    shortState.window.id ≠ weeklyState.window.id

/-- Consuming units of one window charges all of them with the row. -/
theorem consumeUnits_charge (row) (id : Uuid)
    (hunits : ∀ state ∈ windows, row.unitsFrom state.window.id = if state.window.id =
      id then row.unitsApplied else 0) :
    consumeUnits id row.unitsApplied (windows.map (charge rows)) =
      windows.map (charge (rows ++ [row])) := by
  unfold consumeUnits
  rw [map_map]
  refine map_congr_left fun state hstate => ?_
  have hsum : chargedUnits (rows ++ [row]) state.window.id = chargedUnits rows state.window.id +
      if state.window.id = id then row.unitsApplied else 0 := by
    rw [chargedUnits_append, ← hunits state hstate]
    simp [chargedUnits]
  simp only [Function.comp_apply, charge, UsageAllowanceWindow.charge, hsum]
  by_cases hid : state.window.id = id
  · simp [hid, add_assoc]
  · simp [hid]

/-- **One event**: the windows are charged with its row. -/
theorem allocateToCandidate_eq (hapart : Apart shortWindows weeklyWindows) (rows)
    (allowance) (anchored) :
    let row := allocationRow orgId shortWindows weeklyWindows rows anchored
    allocateToCandidate orgId ⟨shortWindows.map (charge rows),
        weeklyWindows.map (charge rows), allowance, rows⟩ anchored =
      ⟨shortWindows.map (charge (rows ++ row)), weeklyWindows.map (charge (rows ++ row)),
        dictMerge allowance (row.map fun row => (row.usageEventId, row.unitsApplied)), rows ++
          row⟩ := by
  intro row
  unfold allocateToCandidate
  rw [latestIssuedWindowAt_charge, latestIssuedWindowAt_charge]
  have hrow : row = allocationRow orgId shortWindows weeklyWindows rows anchored := rfl
  unfold allocationRow at hrow
  cases hshort : latestIssuedWindowAt shortWindows anchored.allowanceAt with
  | none =>
    rw [hshort] at hrow
    simp [hrow, dictMerge]
  | some shortWindow =>
    cases hweekly : latestIssuedWindowAt weeklyWindows anchored.allowanceAt with
    | none =>
      rw [hshort, hweekly] at hrow
      simp [hrow, dictMerge]
    | some weeklyWindow =>
      rw [hshort, hweekly] at hrow
      dsimp only [Option.map_some] at hrow ⊢
      rw [← availableUnits]
      by_cases hzero : availableUnits rows anchored.candidate.grossUnits shortWindow weeklyWindow ≤
        0
      · rw [if_pos hzero] at hrow ⊢
        simp [hrow, dictMerge]
      · rw [if_neg hzero] at hrow ⊢
        obtain ⟨_, shortState, hshortMem, rfl⟩ := latestIssuedWindowAt_some hshort
        obtain ⟨_, weeklyState, hweeklyMem, rfl⟩ := latestIssuedWindowAt_some hweekly
        generalize hnew : (⟨anchored.candidate.usageEventId, orgId, anchored.candidate.runId,
          shortState.window.id, weeklyState.window.id,
            availableUnits rows anchored.candidate.grossUnits
            shortState.window weeklyState.window⟩ : UsageAllowanceAllocation) = new at hrow
        have hshortUnits : ∀ state ∈ shortWindows, new.unitsFrom state.window.id =
            if state.window.id = shortState.window.id then new.unitsApplied else 0 := by
          intro state hstate
          have hne := hapart state hstate weeklyState hweeklyMem
          simp [← hnew, unitsFrom, hne.symm, eq_comm]
        have hweeklyUnits : ∀ state ∈ weeklyWindows, new.unitsFrom state.window.id =
            if state.window.id = weeklyState.window.id then new.unitsApplied else 0 := by
          intro state hstate
          have hne := hapart shortState hshortMem state hstate
          simp [← hnew, unitsFrom, hne, eq_comm]
        rw [hrow, ← consumeUnits_charge new _ hshortUnits, ← consumeUnits_charge new _ hweeklyUnits,
          ← hnew]
        rfl

/-- **The loop charges each window with the allocations that name it.** -/
theorem allocateUsageAllowanceToCandidates_eq (hapart : Apart shortWindows weeklyWindows)
    (candidates) (allowance) :
    let rows := allocationRows orgId shortWindows weeklyWindows candidates
    allocateUsageAllowanceToCandidates orgId candidates shortWindows weeklyWindows allowance =
      ⟨shortWindows.map (charge rows), weeklyWindows.map (charge rows),
        dictMerge allowance (rows.map fun row => (row.usageEventId, row.unitsApplied)), rows⟩ := by
  have hnil : ∀ windows : List UsageAllowanceWindowState, windows.map (charge []) = windows := by
    intro windows
    refine (map_congr_left fun state _ => ?_).trans (map_id' windows)
    rw [charge, charge_nil]
  unfold allocateUsageAllowanceToCandidates allocationRows
  induction candidates using reverseRecOn with
  | nil => simp [hnil, dictMerge]
  | append_singleton candidates anchored ih =>
    simp only [foldl_append, foldl_cons, foldl_nil] at ih ⊢
    rw [ih, allocateToCandidate_eq hapart]
    simp [dictMerge]

/-! ### The rows -/

theorem allocationRows_append (anchored) :
    allocationRows orgId shortWindows weeklyWindows (done ++ [anchored]) =
      allocationRows orgId shortWindows weeklyWindows done ++
        allocationRow orgId shortWindows weeklyWindows
        (allocationRows orgId shortWindows weeklyWindows done) anchored := by
  simp [allocationRows]

/-- A row belongs to an event, and was made after the events before it. -/
theorem mem_allocationRows (hrow : row ∈ allocationRows orgId shortWindows weeklyWindows candidates)
    :
    ∃ done anchored rest, candidates = done ++ anchored :: rest ∧
      row ∈ allocationRow orgId shortWindows weeklyWindows
        (allocationRows orgId shortWindows weeklyWindows done) anchored := by
  induction candidates using reverseRecOn with
  | nil => exact absurd hrow not_mem_nil
  | append_singleton candidates anchored ih =>
    rw [allocationRows_append] at hrow
    rcases mem_append.mp hrow with hold | hnew
    · obtain ⟨done, other, rest, rfl, hother⟩ := ih hold
      exact ⟨done, other, rest ++ [anchored], by simp, hother⟩
    · exact ⟨candidates, anchored, [], rfl, hnew⟩

variable (orgId shortWindows weeklyWindows) in
/-- The rows of events come in the order of the events. -/
theorem allocationRows_split : ∃ later,
        allocationRows orgId shortWindows weeklyWindows (done ++ rest) =
        allocationRows orgId shortWindows weeklyWindows done ++ later ∧
      ∀ row ∈ later, row.usageEventId ∈ rest.map fun c => c.candidate.usageEventId := by
  induction rest using reverseRecOn with
  | nil => exact ⟨[], by simp, forall_mem_nil _⟩
  | append_singleton rest anchored ih =>
    obtain ⟨later, heq, hlater⟩ := ih
    refine ⟨later ++ allocationRow orgId shortWindows weeklyWindows
      (allocationRows orgId shortWindows weeklyWindows (done ++ rest)) anchored, ?_, fun row hrow =>
        ?_⟩
    · rw [← append_assoc, allocationRows_append, heq, append_assoc]
    · rw [map_append]
      rcases mem_append.mp hrow with hold | hnew
      · exact mem_append_left _ (hlater row hold)
      · obtain ⟨_, _, _, _, _, rfl⟩ := mem_allocationRow hnew
        exact mem_append_right _ (mem_singleton_self _)

variable {done rest}

theorem allocationRows_id (hrow : row ∈ allocationRows orgId shortWindows weeklyWindows candidates)
    : row.usageEventId ∈ candidates.map fun c => c.candidate.usageEventId := by
  obtain ⟨later, heq, hlater⟩ := allocationRows_split orgId shortWindows weeklyWindows [] candidates
  exact hlater row (heq.symm ▸ hrow : row ∈ [] ++ later)

variable (orgId shortWindows weeklyWindows) in
/-- The rows of the earlier events, and the row of one event, among all rows. -/
theorem filter_allocationRows (hids : ((done ++ anchored :: rest).map fun c =>
    c.candidate.usageEventId).Nodup) :
    (allocationRows orgId shortWindows weeklyWindows (done ++ anchored :: rest)).filter
        (fun row => row.usageEventId ∈ done.map fun c => c.candidate.usageEventId) =
      allocationRows orgId shortWindows weeklyWindows done ∧
    (allocationRows orgId shortWindows weeklyWindows (done ++ anchored :: rest)).filter
        (fun row => row.usageEventId = anchored.candidate.usageEventId) =
      allocationRow orgId shortWindows weeklyWindows
        (allocationRows orgId shortWindows weeklyWindows done) anchored := by
  obtain ⟨later, heq, hlater⟩ := allocationRows_split orgId shortWindows weeklyWindows
    (done ++ [anchored]) rest
  rw [map_append, map_cons] at hids
  obtain ⟨_, hrest, hdisj⟩ := nodup_append.mp hids
  have hafter := (nodup_cons.mp hrest).1
  -- which part of the rows has which ids
  have hown : ∀ row ∈ allocationRow orgId shortWindows weeklyWindows
      (allocationRows orgId shortWindows weeklyWindows done) anchored,
        row.usageEventId = anchored.candidate.usageEventId := by
    intro row hrow
    obtain ⟨_, _, _, _, _, rfl⟩ := mem_allocationRow hrow
    rfl
  rw [append_cons, heq, allocationRows_append]
  constructor
  · rw [filter_append, filter_append, filter_eq_self.mpr, filter_eq_nil_iff.mpr,
      filter_eq_nil_iff.mpr, append_nil, append_nil]
    · intro row hrow hmem
      exact hdisj _ (of_decide_eq_true hmem) _ (mem_cons_of_mem _ (hlater row hrow)) rfl
    · intro row hrow hmem
      exact hdisj _ (of_decide_eq_true hmem) _ (hown row hrow ▸ mem_cons_self) rfl
    · intro row hrow
      exact decide_eq_true (allocationRows_id hrow)
  · rw [filter_append, filter_append, filter_eq_nil_iff.mpr, filter_eq_self.mpr,
      filter_eq_nil_iff.mpr, append_nil, nil_append]
    · intro row hrow hmem
      exact hafter (of_decide_eq_true hmem ▸ hlater row hrow)
    · intro row hrow
      exact decide_eq_true (hown row hrow)
    · intro row hrow hmem
      exact hdisj _ (allocationRows_id hrow) _ (of_decide_eq_true hmem ▸ mem_cons_self) rfl

variable (orgId shortWindows weeklyWindows) in
/-- An event has one row at most. -/
theorem sublist_allocationRows (candidates) :
    ((allocationRows orgId shortWindows weeklyWindows candidates).map usageEventId).Sublist
        (candidates.map fun anchored => anchored.candidate.usageEventId) := by
  induction candidates using reverseRecOn with
  | nil => exact Sublist.refl _
  | append_singleton candidates anchored ih =>
    rw [allocationRows_append, map_append, map_append]
    refine ih.append ?_
    rcases allocationRow_cases orgId shortWindows weeklyWindows
      (allocationRows orgId shortWindows weeklyWindows candidates) anchored with
      ⟨_, hnil⟩ | ⟨shortWindow, weeklyWindow, _, _, heq⟩
    · rw [hnil]
      exact nil_sublist _
    · rw [heq]
      split
      · exact Sublist.refl _
      · exact nil_sublist _

theorem allocationRows_pos (hrow : row ∈ allocationRows orgId shortWindows weeklyWindows candidates)
    : 0 < row.unitsApplied := by
  obtain ⟨done, anchored, rest, rfl, hmem⟩ := mem_allocationRows hrow
  obtain ⟨_, _, _, _, hunits, rfl⟩ := mem_allocationRow hmem
  exact hunits

/-- A window that no list has is not charged. -/
theorem chargedUnits_allocationRows {id} (hid : ∀ state ∈ shortWindows ++ weeklyWindows,
    state.window.id ≠ id) :
    chargedUnits (allocationRows orgId shortWindows weeklyWindows candidates) id = 0 := by
  refine chargedUnits_eq_zero fun row hrow => ?_
  obtain ⟨done, anchored, rest, rfl, hmem⟩ := mem_allocationRows hrow
  obtain ⟨_, _, hshort, hweekly, _, rfl⟩ := mem_allocationRow hmem
  obtain ⟨_, shortState, hshortMem, rfl⟩ := latestIssuedWindowAt_some hshort
  obtain ⟨_, weeklyState, hweeklyMem, rfl⟩ := latestIssuedWindowAt_some hweekly
  exact ⟨hid _ (mem_append_left _ hshortMem), hid _ (mem_append_right _ hweeklyMem)⟩

/-- Units that are positive and within what is left do not exceed the limit. -/
theorem le_remaining {units} {window} (hpos : 0 < units)
    (hle : units ≤ remainingUnits window) : units ≤ window.unitLimit - window.consumedUnits := by
  rcases le_max_iff.mp hle with h | h
  · exact h
  · exact absurd hpos (not_lt.mpr h)

/-- **No window is overdrawn.** -/
theorem allocationRows_le_limit (hids : ((shortWindows ++ weeklyWindows).map fun state =>
    state.window.id).Nodup)
    (hlimit : ∀ state ∈ shortWindows ++ weeklyWindows,
      state.window.consumedUnits ≤ state.window.unitLimit)
    (candidates) :
    ∀ state ∈ shortWindows ++ weeklyWindows, (state.window.charge (allocationRows orgId shortWindows
      weeklyWindows candidates)).consumedUnits ≤ state.window.unitLimit := by
  intro state hstate
  induction candidates using reverseRecOn with
  | nil =>
    rw [show allocationRows orgId shortWindows weeklyWindows [] = [] from rfl, charge_nil]
    exact hlimit state hstate
  | append_singleton candidates anchored ih =>
    rw [allocationRows_append]
    generalize allocationRows orgId shortWindows weeklyWindows candidates = rows at ih ⊢
    rcases allocationRow_cases orgId shortWindows weeklyWindows rows anchored with
      ⟨_, hnil⟩ | ⟨shortWindow, weeklyWindow, hshort, hweekly, heq⟩
    · rwa [hnil, append_nil]
    rw [heq]
    split
    · next hpos =>
      -- the windows of the row have what is taken from them
      have htaken : (rowFor orgId rows anchored shortWindow weeklyWindow).unitsFrom state.window.id
          ≤ state.window.unitLimit - (state.window.charge rows).consumedUnits := by
        obtain ⟨_, shortState, hshortMem, rfl⟩ := latestIssuedWindowAt_some hshort
        obtain ⟨_, weeklyState, hweeklyMem, rfl⟩ := latestIssuedWindowAt_some hweekly
        have hsame : ∀ other ∈ shortWindows ++ weeklyWindows, other.window.id = state.window.id →
            other = state := fun other hother hid => inj_on_of_nodup_map hids hother hstate hid
        unfold unitsFrom
        split
        · next hid =>
          rcases hid with hid | hid
          · obtain rfl := hsame _ (mem_append_left _ hshortMem) hid
            exact le_remaining hpos ((min_le_right _ _).trans (min_le_left _ _))
          · obtain rfl := hsame _ (mem_append_right _ hweeklyMem) hid
            exact le_remaining hpos ((min_le_right _ _).trans (min_le_right _ _))
        · exact sub_nonneg.mpr ih
      have hsum : (state.window.charge (rows ++ [rowFor orgId rows anchored shortWindow
          weeklyWindow])).consumedUnits = (state.window.charge rows).consumedUnits +
            (rowFor orgId rows anchored shortWindow weeklyWindow).unitsFrom state.window.id := by
        simp [UsageAllowanceWindow.charge, chargedUnits, add_assoc]
      rw [hsum]
      omega
    · rwa [append_nil]

end Loop

/-! ### The write -/

/-- **What is written to a window is what the allocations take from it.** -/
theorem persistUsageAllowanceWindowConsumption_eq (tables)
    (hinit : ∀ state ∈ windows, state.initialConsumedUnits = state.window.consumedUnits)
    (hnonn : ∀ id, 0 ≤ chargedUnits rows id)
    (hother : ∀ id, (∀ state ∈ windows, state.window.id ≠ id) → chargedUnits rows id = 0) :
    persistUsageAllowanceWindowConsumption tables (windows.map (charge rows)) =
      { tables with windows := tables.windows.map (UsageAllowanceWindow.charge rows) } := by
  unfold persistUsageAllowanceWindowConsumption
  dsimp only
  congr 1
  refine map_congr_left fun window _ => ?_
  cases hfind : ((windows.map (charge rows)).filter fun state =>
      state.initialConsumedUnits < state.window.consumedUnits).find? fun state =>
        decide (state.window.id = window.id) with
  | none =>
    -- a window that is not written is not charged
    have hzero : chargedUnits rows window.id = 0 := by
      by_contra hne
      have hpos := lt_of_le_of_ne (hnonn window.id) (Ne.symm hne)
      obtain ⟨state, hstate, hid⟩ : ∃ state ∈ windows, state.window.id = window.id := by
        by_contra hnone
        exact hne (hother window.id fun state hstate hid => hnone ⟨state, hstate, hid⟩)
      have hcharg : state.charge rows ∈ (windows.map (charge rows)).filter
          fun state => state.initialConsumedUnits < state.window.consumedUnits := by
        refine mem_filter.mpr ⟨mem_map_of_mem hstate, decide_eq_true ?_⟩
        show state.initialConsumedUnits < state.window.consumedUnits +
          chargedUnits rows state.window.id
        rw [hinit state hstate, hid]
        omega
      have hnot := find?_eq_none.mp hfind _ hcharg
      exact hnot (decide_eq_true hid)
    rw [UsageAllowanceWindow.charge, hzero, add_zero]
  | some found =>
    obtain ⟨hmem, _⟩ := mem_filter.mp (mem_of_find?_eq_some hfind)
    obtain ⟨state, hstate, rfl⟩ := mem_map.mp hmem
    have hid : state.window.id = window.id := by
      have hfound := find?_some hfind
      exact of_decide_eq_true hfound
    have hdelta : (state.charge rows).window.consumedUnits -
        (state.charge rows).initialConsumedUnits = chargedUnits rows window.id := by
      show state.window.consumedUnits + chargedUnits rows state.window.id -
        state.initialConsumedUnits = _
      rw [hinit state hstate, hid, add_sub_cancel_left]
    dsimp only
    rw [hdelta, UsageAllowanceWindow.charge]

end Okou.Billing
