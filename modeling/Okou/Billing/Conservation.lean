import Okou.Billing.Settlement

/-!
# Settlement conserves credits

What the loops of a settlement take, summed up: each member's grants pay the
member's charge or all they have, the balance pays the rest, and the expiring
records follow the balance.
-/

namespace Okou.Billing

open List UsagePackCreditGrant Purse PricedUsageEvent

/-! ### The order of grants -/

theorem UsagePackCreditGrant.before_total (a b : UsagePackCreditGrant) : a.before b ∨
    b.before a := by
  unfold before
  grind

variable {a b : UsagePackCreditGrant}

theorem UsagePackCreditGrant.before_trans {c} (hab : a.before b) (hbc : b.before c) :
    a.before c := by
  unfold before at *
  grind

theorem UsagePackCreditGrant.before_antisymm (hab : a.before b) (hba : b.before a) :
    a.id = b.id := by
  unfold before at *
  grind

instance : Std.Total UsagePackCreditGrant.before := ⟨UsagePackCreditGrant.before_total⟩

instance : IsTrans UsagePackCreditGrant UsagePackCreditGrant.before :=
  ⟨fun _ _ _ => UsagePackCreditGrant.before_trans⟩

/-! ### All members -/

variable {charge : String × ℤ}

section Members

variable {orgId : String} {time : Time} {grants : List UsagePackCreditGrant}
  {charges : List (String × ℤ)}
variable (hids : (grants.map UsagePackCreditGrant.id).Nodup) (hkeys : (charges.map Prod.fst).Nodup)
variable (hcharg : ∀ charge ∈ charges, 0 ≤ charge.2)

include hids

/-- A grant pays for its member only. -/
theorem membersTaken_eq (hkeys : (charges.map Prod.fst).Nodup) (hcharge : charge ∈ charges)
    {grant} (hgrant : grant ∈ grants) (huser : grant.userId = charge.1) :
    membersTaken orgId time grants charges grant.id = memberTaken orgId time grants charge
      grant.id := by
  obtain ⟨before, after, rfl⟩ := append_of_mem hcharge
  have hother : ∀ other ∈ before ++ after, other.1 ≠ charge.1 := by
    intro other hother heq
    rw [map_append, map_cons, nodup_middle, nodup_cons, ← map_append] at hkeys
    exact hkeys.1 (heq ▸ mem_map_of_mem hother)
  have hzero : ∀ part, part ⊆ before ++ after →
    membersTaken orgId time grants part grant.id = 0 := by
    intro part hpart
    refine membersTaken_eq_zero hids hgrant fun other hmem hspend => ?_
    exact hother other (hpart hmem)
      ((mem_unexpiredGrants.mp (mem_spendableGrants.mp hspend).1).2.2.1.symm.trans huser)
  simp only [membersTaken, map_append, map_cons, sum_append, sum_cons] at hzero ⊢
  rw [hzero before (subset_append_left _ _), hzero after (subset_append_right _ _), zero_add,
    add_zero]

include hcharg in
/-- What all charges take from all grants. -/
theorem sum_membersTaken : (grants.map fun grant =>
      membersTaken orgId time grants charges grant.id).sum =
      (charges.map fun charge =>
        min charge.2 (grantPurse.total (spendableGrants orgId charge.1 time grants))).sum := by
  induction charges with
  | nil => simp [membersTaken]
  | cons charge charges ih =>
    simp only [membersTaken, map_cons, sum_cons] at ih ⊢
    have hfirst := sum_taken_table hids (spendableGrants_perm orgId charge.1 time grants)
      (hcharg charge mem_cons_self)
    rw [sum_map_add, ih (forall_mem_cons.mp hcharg).2]
    exact congrArg (· + _) hfirst

include hkeys hcharg in
/-- **Each member's grants pay the member's charge.** -/
theorem membersTaken_grantsPay (hgrants : ∀ grant ∈ grants, grant.orgId = orgId →
    0 ≤ grant.remainingAmount)
    {users : List String} (husers : ∀ user, user ∈ users ↔ user ∈ charges.map Prod.fst) {amount}
    (hamount : ∀ charge ∈ charges, charge.2 = amount charge.1) :
    GrantsPay orgId users amount time grants (membersTaken orgId time grants charges) := by
  have hcharge : ∀ user ∈ users, (user, amount user) ∈ charges := by
    intro user huser
    obtain ⟨charge, hmem, rfl⟩ := mem_map.mp ((husers user).mp huser)
    rwa [← hamount charge hmem]
  have hrows := fun user => spendableGrants_perm orgId user time grants
  have hq : ∀ user, ∀ grant ∈ grants,
      (decide (grant.orgId = orgId) && decide (grant.userId = user) &&
      decide (time < grant.expiresAt)) → 0 ≤ grantPurse.balance grant := by
    intro user grant hgrant hin
    simp only [Bool.and_eq_true, decide_eq_true_eq] at hin
    exact hgrants grant hgrant hin.1.1
  constructor
  · intro grant hgrant hout
    refine membersTaken_eq_zero hids hgrant fun charge hmem hspend => hout ?_
    obtain ⟨_, horg, huser, htime⟩ := mem_unexpiredGrants.mp (mem_spendableGrants.mp hspend).1
    exact ⟨horg, (husers _).mpr (huser ▸ mem_map_of_mem hmem), htime⟩
  · intro grant hgrant horg
    by_cases huser : grant.userId ∈ users
    · rw [membersTaken_eq hids hkeys (hcharge _ huser) hgrant rfl]
      exact taken_selection_bounds hids (hrows _) _ hgrant (hgrants grant hgrant horg)
    · rw [membersTaken_eq_zero hids hgrant]
      · exact ⟨le_rfl, hgrants grant hgrant horg⟩
      · intro charge hmem hspend
        have hown := (mem_unexpiredGrants.mp (mem_spendableGrants.mp hspend).1).2.2.1
        exact huser ((husers _).mpr (hown ▸ mem_map_of_mem hmem))
  · intro user huser
    have hmem := hcharge user huser
    refine Eq.trans ?_ (sum_taken_selection hids (hrows user) (hq user) (hcharg _ hmem))
    refine congrArg List.sum (map_congr_left fun grant hgrant => ?_)
    obtain ⟨hin, _, hown, _⟩ := mem_unexpiredGrants.mp hgrant
    exact membersTaken_eq hids hkeys hmem hin hown
  · intro user huser grant hgrant earlier hearlier hbefore hne htaken
    have hmem := hcharge user huser
    obtain ⟨hin, _, hown, _⟩ := mem_unexpiredGrants.mp hgrant
    obtain ⟨hin', _, hown', _⟩ := mem_unexpiredGrants.mp hearlier
    rw [membersTaken_eq hids hkeys hmem hin hown] at htaken
    rw [membersTaken_eq hids hkeys hmem hin' hown']
    -- two grants that come before each other are the same
    have hnot : ¬grant.before earlier := fun hback => hne
      (inj_on_of_nodup_map hids hin' hin (before_antisymm hbefore hback))
    exact taken_selection_order hids (hrows user) (hq user) (pairwise_insertionSort _ _) _
      hgrant hearlier hnot hne htaken

end Members

/-! ### The records -/

variable {orgId : String} {amount : ℤ} {events : List UsageEvent}

/-- **The records that have not expired follow the balance.** -/
theorem recordsTaken_recordsPay (hamount : 0 ≤ amount) (time : Time)
    {records} (hids : (records.map CreditExpiresRecord.id).Nodup)
    (hrec : ∀ record ∈ records, record.orgId = orgId → 0 ≤ record.remaining) :
    RecordsPay orgId amount time records (recordsTaken orgId amount time records) := by
  have hrows := spendableRecords_perm orgId time records
  have hq : ∀ record ∈ records, (decide (record.orgId = orgId) && decide (time < record.expiresAt))
      = true → 0 ≤ recordPurse.balance record := by
    intro record hrecord hin
    simp only [Bool.and_eq_true, decide_eq_true_eq] at hin
    exact hrec record hrecord hin.1
  constructor
  · intro record hrecord hout
    refine taken_of_not_selected hids hrows amount hrecord fun hin => hout ?_
    simpa using ((mem_selection hrows).mp hin).2.1
  · intro record hrecord horg
    exact taken_selection_bounds hids hrows amount hrecord (hrec record hrecord horg)
  · exact sum_taken_selection hids hrows hq hamount
  · intro record hrecord earlier hearlier hbefore htaken
    refine taken_selection_order hids hrows hq (pairwise_insertionSort _ _) amount hrecord
      hearlier (not_le.mpr hbefore) ?_ htaken
    rintro rfl
    exact lt_irrefl _ hbefore

/-- Expiry does not change which records can be used up. -/
theorem spendableRecords_expireRecord (orgId) (time : Time) (records) :
    spendableRecords orgId time (records.map (expireRecord orgId time)) =
      spendableRecords orgId time records := by
  unfold spendableRecords
  congr 1
  induction records with
  | nil => rfl
  | cons record records ih =>
    have hsame : expireRecord orgId time record = record ∨
        ¬time < record.expiresAt ∧ (expireRecord orgId time record).expiresAt =
          record.expiresAt := by
      unfold expireRecord
      split
      · next hcond => exact .inr ⟨not_lt.mpr hcond.2.1, rfl⟩
      · exact .inl rfl
    rw [map_cons, filter_cons, filter_cons, ih]
    rcases hsame with hsame | ⟨htime, hexp⟩
    · rw [hsame]
    · simp [htime, hexp]

/-! ### Charging the organization -/

/-- The tables that a shared charge does not write. -/
theorem chargeShared_frame (orgId) (amount : ℤ) (time : Time) (db) :
    (chargeShared orgId amount time db).1.usageEvents = db.usageEvents ∧
      (chargeShared orgId amount time db).1.grants = db.grants ∧
      (chargeShared orgId amount time db).1.allowance = db.allowance := by
  have hexpire : (expireCredits orgId time db).1.usageEvents = db.usageEvents ∧
      (expireCredits orgId time db).1.grants = db.grants ∧
      (expireCredits orgId time db).1.allowance = db.allowance := by
    unfold expireCredits
    dsimp only
    split
    · exact ⟨rfl, rfl, rfl⟩
    · split <;> exact ⟨rfl, rfl, rfl⟩
  unfold chargeShared
  split
  · unfold deductFromExpiresRecords
    dsimp only
    split <;> exact hexpire
  · exact ⟨rfl, rfl, rfl⟩

theorem getOrgCredits_deductOrgCredits (orgId other) (amount : ℤ) (db) :
    getOrgCredits other (deductOrgCredits orgId amount db) =
      if orgId = other then getOrgCredits orgId db - amount else getOrgCredits other db := by
  unfold getOrgCredits deductOrgCredits
  rw [dictGet_dictModify]
  split <;> rfl

theorem map_id_expireRecord (orgId : String) (time : Time) (records : List CreditExpiresRecord) :
    (records.map (expireRecord orgId time)).map CreditExpiresRecord.id =
      records.map CreditExpiresRecord.id := by
  rw [map_map]
  refine map_congr_left fun record _ => ?_
  show (expireRecord orgId time record).id = record.id
  unfold expireRecord
  split <;> rfl

variable {time : Time} {db : BillingDb}

/-- A shared charge, without its loops: expiry, the balance, the records. -/
theorem chargeShared_eq (hamount : 0 < amount)
    (hids : (db.expiresRecords.map CreditExpiresRecord.id).Nodup) :
    (chargeShared orgId amount time db).1 =
      { deductOrgCredits orgId amount (expired orgId time db) with
      expiresRecords := recordPurse.pay (recordsTaken orgId amount time db.expiresRecords)
        (expired orgId time db).expiresRecords } := by
  have hsame : (deductOrgCredits orgId amount (expired orgId time db)).expiresRecords =
      db.expiresRecords.map (expireRecord orgId time) := expired_expiresRecords orgId time db
  have hexpired : ((deductOrgCredits orgId amount (expired orgId time db)).expiresRecords.map
      CreditExpiresRecord.id).Nodup := by
    rwa [hsame, map_id_expireRecord]
  unfold chargeShared
  rw [if_pos hamount, expireCredits_eq hids]
  dsimp only
  rw [deductFromExpiresRecords_eq hamount.le hexpired, hsame, recordsTaken,
    spendableRecords_expireRecord, expired_expiresRecords]
  rfl

/-- The balances after a shared charge. -/
theorem getOrgCredits_chargeShared (hamount : 0 < amount)
    (hids : (db.expiresRecords.map CreditExpiresRecord.id).Nodup)
    (other) : getOrgCredits other (chargeShared orgId amount time db).1 =
      if orgId = other then getOrgCredits orgId (expired orgId time db) - amount
      else getOrgCredits other db := by
  rw [chargeShared_eq hamount hids]
  refine (getOrgCredits_deductOrgCredits orgId other amount (expired orgId time db)).trans ?_
  split
  · rfl
  · next hother => rw [getOrgCredits_expired, if_neg fun h => hother h.1.symm]

/-! ### The events -/

theorem priceUsageEvent_record (pricing)
    (resolution) (record) :
    (priceUsageEvent pricing resolution record).record = record := by
  unfold priceUsageEvent
  split
  · rfl
  · dsimp only
    split <;> rfl

variable {event : UsageEvent}

theorem mem_pendingRecords :
    event ∈ pendingRecords orgId events ↔ event ∈ events ∧ event.orgId = orgId ∧
      event.status = .pending := by
  simp [pendingRecords]

/-- An id finds the pending event it belongs to. -/
theorem find_pendingRecords (hids : (events.map UsageEvent.id).Nodup) (hevent : event ∈ events) :
    (pendingRecords orgId events).find? (fun other => other.id = event.id) =
      if event.orgId = orgId ∧ event.status = .pending then some event else none := by
  have huniq : ∀ other ∈ pendingRecords orgId events, other.id = event.id → other = event :=
    fun other hother hid => inj_on_of_nodup_map hids (mem_pendingRecords.mp hother).1 hevent hid
  split
  · next hpend =>
    have hmem : event ∈ pendingRecords orgId events := mem_pendingRecords.mpr ⟨hevent, hpend⟩
    cases hfind : (pendingRecords orgId events).find? fun other => decide (other.id = event.id) with
    | none => exact absurd (find?_eq_none.mp hfind event hmem) (by simp)
    | some other =>
      rw [huniq other (mem_of_find?_eq_some hfind) (by simpa using find?_some hfind)]
  · next hout =>
    refine find?_eq_none.mpr fun other hother hid => hout ?_
    obtain rfl := huniq other hother (by simpa using hid)
    exact (mem_pendingRecords.mp hother).2

/-- The pending events, and no others, are marked. -/
theorem markUsageEventsProcessed_eq (processedAt : Time) (orgId)
    (hids : (events.map UsageEvent.id).Nodup) (pricing) (resolution) (allowance) :
    markUsageEventsProcessed processedAt (settlementOutcomes allowance
        (priceUsageEvents (pendingRecords orgId events) pricing resolution)) events =
      events.map fun event =>
        if event.orgId = orgId ∧ event.status = .pending then
          { event with
            creditsCharged :=
              some (creditsCharged allowance (priceUsageEvent (pricingByKey pricing) resolution
                event))
            status := .processed
            processedAt := some processedAt
            billingError := (priceUsageEvent (pricingByKey pricing) resolution event).billingError }
        else event := by
  unfold markUsageEventsProcessed settlementOutcomes priceUsageEvents
  refine map_congr_left fun event hevent => ?_
  rw [map_map, find?_map]
  simp only [Function.comp_def, priceUsageEvent_record]
  rw [find_pendingRecords hids hevent]
  by_cases hpend : event.orgId = orgId ∧ event.status = .pending
  · simp only [if_pos hpend]
    rfl
  · simp only [if_neg hpend]
    rfl

/-! ### The charges by member -/

/-- What a member is charged is the sum over the member's events. -/
theorem billableCreditsByUser_eq (allowance) (pricedEvents)
    (hcharge : charge ∈ billableCreditsByUser allowance pricedEvents) :
    charge.2 = ((pricedEvents.filter fun event => event.record.userId = charge.1).map
      (creditsCharged allowance)).sum := by
  have hget := dictGet_of_mem (keys_dictCollect _ _ _ _).1 hcharge
  rw [dictGet_dictCollect] at hget
  split at hget
  · exact absurd hget (by simp)
  · have hsum : ∀ (events : List PricedUsageEvent) (sum : ℤ),
        events.foldl (fun credits event => credits + creditsCharged allowance event) sum =
          sum + (events.map (creditsCharged allowance)).sum := by
      intro events
      induction events with
      | nil => simp
      | cons event events ih => intro sum; rw [foldl_cons, ih, map_cons, sum_cons, add_assoc]
    rw [← Option.some.inj hget, hsum, zero_add]

section Settlement

variable (env : BillingEnv) (orgId : String) (db : BillingDb)

/-- The events of a settlement with their prices. -/
def pricedPending : List PricedUsageEvent :=
  priceUsageEvents (pendingRecords orgId db.usageEvents) db.usagePricing env.pricingResolution

/-- The allowance a settlement applies, and the tables after it. -/
def appliedAllowance : List (Uuid × ℤ) × AllowanceTables :=
  applyUsageAllowanceToUsageEventsInLockedTransaction env db.allowance orgId
    ((pricedPending env orgId db).map PricedUsageEvent.candidate)

/-- What a settlement charges for an event. -/
def eventCharge (event : UsageEvent) : ℤ :=
  creditsCharged (appliedAllowance env orgId db).1
    (priceUsageEvent (pricingByKey db.usagePricing) env.pricingResolution event)

/-- The members of a settlement with their charges. -/
def memberCharges : List (String × ℤ) :=
  billableCreditsByUser (appliedAllowance env orgId db).1 (pricedPending env orgId db)

variable {env orgId db}

/-- The charge of an event is its price without its allocation, and not negative. -/
theorem eventCharge_eq (h : SettlementReady env orgId db)
    (hevent : event ∈ pendingRecords orgId db.usageEvents) :
    eventCharge env orgId db event = grossCredits env db event -
        (allocatedUnits (appliedAllowance env orgId db).2.allocations event.id).getD 0 ∧
      0 ≤ eventCharge env orgId db event ∧
        eventCharge env orgId db event ≤ grossCredits env db event := by
  have hid : ∀ other : UsageEvent,
    (priceUsageEvent (pricingByKey db.usagePricing) env.pricingResolution
      other).candidate.usageEventId = other.id := by
    intro other
    rw [candidate, priceUsageEvent_record]
  have hids : (((pricedPending env orgId db).map candidate).map
      UsageAllowanceCandidate.usageEventId).Nodup := by
    rw [pricedPending, priceUsageEvents, map_map, map_map]
    exact (map_congr_left fun other _ => hid other) ▸ h.eventIds.sublist (filter_sublist.map _)
  have hexist : ∀ row ∈ db.allowance.allocations, ∀ other ∈ (pricedPending env orgId db).map
      candidate, other.usageEventId = row.usageEventId →
        0 < row.unitsApplied ∧ row.unitsApplied ≤ other.grossUnits := by
    intro row hrow other hother heq
    obtain ⟨priced, hpric, rfl⟩ := mem_map.mp hother
    obtain ⟨event, hevent, rfl⟩ := mem_map.mp hpric
    exact h.allocations row hrow event hevent ((hid event).symm.trans heq)
  have hunits := applyUsageAllowance_units env orgId hids h.allocationIds hexist
    (mem_map_of_mem (mem_map_of_mem hevent)) (h.gross event hevent)
  rw [hid event] at hunits
  obtain ⟨hget, hnonn, hle⟩ := hunits
  unfold eventCharge creditsCharged grossCredits
  rw [priceUsageEvent_record]
  refine ⟨?_, ?_, ?_⟩
  · exact congrArg (fun units : Option ℤ => _ - units.getD 0) hget
  · exact sub_nonneg.mpr hle
  · exact sub_le_self _ hnonn

/-- A member's charge is the sum of the charges of the member's events. -/
theorem memberCharges_eq (hcharge : charge ∈ memberCharges env orgId db) :
    charge.2 = (((pendingRecords orgId db.usageEvents).filter fun event =>
      event.userId = charge.1).map (eventCharge env orgId db)).sum := by
  rw [billableCreditsByUser_eq _ _ hcharge, pricedPending, priceUsageEvents, filter_map, map_map]
  simp only [Function.comp_def, priceUsageEvent_record]
  rfl

theorem mem_keys_memberCharges (user) :
      user ∈ (pendingRecords orgId db.usageEvents).map UsageEvent.userId ↔
      user ∈ (memberCharges env orgId db).map Prod.fst := by
  have husers : (pricedPending env orgId db).map (fun event => event.record.userId) =
      (pendingRecords orgId db.usageEvents).map UsageEvent.userId := by
    rw [pricedPending, priceUsageEvents, map_map]
    refine map_congr_left fun event _ => ?_
    rw [Function.comp_apply, priceUsageEvent_record]
  rw [memberCharges, billableCreditsByUser, (keys_dictCollect _ _ _ _).2, husers]

theorem sum_memberCharges : ((memberCharges env orgId db).map Prod.snd).sum =
    ((pendingRecords orgId db.usageEvents).map (eventCharge env orgId db)).sum := by
  rw [memberCharges, billableCreditsByUser, sum_dictCollect, pricedPending, priceUsageEvents,
    map_map]
  rfl

theorem memberCharges_nonneg (h : SettlementReady env orgId db)
    (hcharge : charge ∈ memberCharges env orgId db) : 0 ≤ charge.2 := by
  rw [memberCharges_eq hcharge]
  refine sum_nonneg (forall_mem_map.mpr fun event hevent => ?_)
  exact (eventCharge_eq h (mem_filter.mp hevent).1).2.1

variable (env orgId db)

/-- What the grants cannot pay. -/
def sharedCharge : ℤ :=
  ((memberCharges env orgId db).map fun charge => charge.2 - min charge.2
    (grantPurse.total (spendableGrants orgId charge.1 env.settlementTime db.grants))).sum

/-- What the grants pay. -/
def grantsSpent : Uuid → ℤ :=
  membersTaken orgId env.settlementTime db.grants (memberCharges env orgId db)

/-- The tables before the organization is charged. -/
def membersSettled : BillingDb := { db with
  allowance := (appliedAllowance env orgId db).2
  usageEvents := db.usageEvents.map fun event =>
    if event.orgId = orgId ∧ event.status = .pending then
      { event with
        creditsCharged := some (eventCharge env orgId db event)
        status := .processed
        processedAt := some env.processedAt
        billingError :=
          (priceUsageEvent (pricingByKey db.usagePricing) env.pricingResolution
            event).billingError }
    else event
  grants := grantPurse.pay (grantsSpent env orgId db) db.grants }

variable {env orgId db}

/-- A settlement with pending events, without its loops. -/
theorem processOrgUsageEvents_eq (h : SettlementReady env orgId db)
    (hpend : pendingRecords orgId db.usageEvents ≠ []) :
        (processOrgUsageEventsInTransaction env orgId db).1 =
        (chargeShared orgId (sharedCharge env orgId db) env.settlementTime
          (membersSettled env orgId db)).1 ∧
      (processOrgUsageEventsInTransaction env orgId db).2.sharedCreditsCharged =
        sharedCharge env orgId db := by
  have hgrants : settleMemberGrants env.localeCompare orgId (memberCharges env orgId db)
      env.settlementTime db.grants =
        (sharedCharge env orgId db, grantPurse.pay (grantsSpent env orgId db) db.grants) :=
    settleMemberGrants_eq h.grantIds env.localeCompare (keys_dictCollect _ _ _ _).1
      fun _ => memberCharges_nonneg h
  have hevents := markUsageEventsProcessed_eq env.processedAt orgId h.eventIds db.usagePricing
    env.pricingResolution (appliedAllowance env orgId db).1
  have hlength : ¬(pendingRecords orgId db.usageEvents).length = 0 := by simpa using hpend
  have hrun : processOrgUsageEventsInTransaction env orgId db =
      let settled := settleMemberGrants env.localeCompare orgId (memberCharges env orgId db)
        env.settlementTime db.grants
      let charged := chargeShared orgId settled.1 env.settlementTime { db with
        allowance := (appliedAllowance env orgId db).2
        usageEvents := markUsageEventsProcessed env.processedAt (settlementOutcomes
          (appliedAllowance env orgId db).1 (pricedPending env orgId db)) db.usageEvents
        grants := settled.2 }
      (charged.1, ⟨settled.1, ((pendingRecords orgId db.usageEvents).filterMap
        UsageEvent.runId).eraseDups,
        charged.2⟩) := by
    unfold processOrgUsageEventsInTransaction
    rw [if_neg hlength]
    rfl
  rw [hrun, hgrants, pricedPending, hevents]
  exact ⟨rfl, rfl⟩

/-- What the grants do not pay of all charges. -/
theorem sharedCharge_eq (h : SettlementReady env orgId db) : sharedCharge env orgId db =
    ((pendingRecords orgId db.usageEvents).map (eventCharge env orgId db)).sum -
      (db.grants.map fun grant => grantsSpent env orgId db grant.id).sum := by
  rw [grantsSpent, sum_membersTaken h.grantIds fun _ => memberCharges_nonneg h, ← sum_memberCharges,
    sharedCharge]
  refine eq_sub_of_add_eq ?_
  rw [← sum_map_add]
  simp

theorem sharedCharge_nonneg : 0 ≤ sharedCharge env orgId db := by
  refine sum_nonneg (forall_mem_map.mpr fun charge _ => ?_)
  exact sub_nonneg.mpr (min_le_left _ _)

/-- Without pending events nothing happens. -/
theorem settles_nothing (h : SettlementReady env orgId db)
    (hpend : pendingRecords orgId db.usageEvents = [])
    {result} (hres : result.sharedCreditsCharged = 0) : Settles env orgId db db result where
  events := by
    have hsame : ∀ event ∈ db.usageEvents, ¬(event.orgId = orgId ∧ event.status = .pending) := by
      intro event hevent hcond
      have hmem := mem_pendingRecords.mpr ⟨hevent, hcond⟩
      rw [hpend] at hmem
      exact not_mem_nil hmem
    conv_lhs => rw [← map_id' db.usageEvents]
    exact map_congr_left fun event hevent => (if_neg (hsame event hevent)).symm
  charges := by
    rw [hpend]
    exact forall_mem_nil _
  grants := by
    refine ⟨fun _ => 0, (pay_zero fun _ _ => rfl).symm, ?_, ?_⟩
    · rw [hpend]
      have hnone : (([] : List (String × ℤ)).map Prod.fst).Nodup := nodup_nil
      exact membersTaken_grantsPay h.grantIds hnone (forall_mem_nil _) h.grants
        (fun _ => Iff.rfl) (forall_mem_nil _)
    · rw [hpend, hres]
      simp
  shared_nonneg := hres.ge
  unshared _ := ⟨rfl, rfl⟩
  shared hpos := absurd hpos (by rw [hres]; exact lt_irrefl 0)
  others _ _ := rfl

/-- **Every credit that is charged is paid exactly once**: by the allowance, by a grant
of the member, or by the balance of the organization. -/
theorem settlement_conserves (env : BillingEnv) (orgId : String) (db : BillingDb)
    (h : SettlementReady env orgId db) :
      Settles env orgId db (processOrgUsageEventsInTransaction env orgId db).1
      (processOrgUsageEventsInTransaction env orgId db).2 := by
  by_cases hpend : pendingRecords orgId db.usageEvents = []
  · have hrun : processOrgUsageEventsInTransaction env orgId db = (db, ⟨0, [], none⟩) := by
      unfold processOrgUsageEventsInTransaction
      rw [hpend]
      rfl
    rw [hrun]
    exact settles_nothing h hpend rfl
  obtain ⟨hdb, hres⟩ := processOrgUsageEvents_eq h hpend
  obtain ⟨hevents, hgrants, hallow⟩ := chargeShared_frame orgId (sharedCharge env orgId db)
    env.settlementTime (membersSettled env orgId db)
  generalize hrun : processOrgUsageEventsInTransaction env orgId db = run at hdb hres ⊢
  obtain ⟨db', result⟩ := run
  rw [← hdb] at hevents hgrants hallow
  have hrecordIds : ((membersSettled env orgId db).expiresRecords.map
    CreditExpiresRecord.id).Nodup :=
    h.recordIds
  -- what is charged for an event can be read off the tables
  have hcharge : ∀ event ∈ pendingRecords orgId db.usageEvents,
      settledCharge env db db' event = eventCharge env orgId db event := by
    intro event hevent
    rw [(eventCharge_eq h hevent).1, settledCharge, hallow]
    rfl
  have hmemb : ∀ charge ∈ memberCharges env orgId db,
    charge.2 = memberCharge env orgId db db' charge.1 := by
    intro charge hmem
    rw [memberCharges_eq hmem, memberCharge]
    refine congrArg List.sum (map_congr_left fun event hevent => ?_)
    exact (hcharge event (mem_filter.mp hevent).1).symm
  constructor
  case events =>
    rw [hevents]
    refine map_congr_left fun event hevent => ?_
    split
    · next hcond => rw [hcharge event (mem_pendingRecords.mpr ⟨hevent, hcond⟩)]
    · rfl
  case charges =>
    intro event hevent
    rw [hcharge event hevent]
    exact (eventCharge_eq h hevent).2
  case grants =>
    refine ⟨grantsSpent env orgId db, hgrants, ?_, ?_⟩
    · exact membersTaken_grantsPay h.grantIds (keys_dictCollect _ _ _ _).1
        (fun _ => memberCharges_nonneg h) h.grants mem_keys_memberCharges hmemb
    · rw [hres, sharedCharge_eq h, map_congr_left hcharge]
  case shared_nonneg => rw [hres]; exact sharedCharge_nonneg
  case unshared =>
    intro hzero
    rw [hres] at hzero
    rw [hdb, chargeShared, if_neg hzero.not_gt]
    exact ⟨rfl, rfl⟩
  case shared =>
    intro hpos
    rw [hres] at hpos ⊢
    rw [expireCredits_eq h.recordIds, getOrgCredits_expired, expired_expiresRecords]
    constructor
    · rw [hdb, getOrgCredits_chargeShared hpos hrecordIds, if_pos rfl, getOrgCredits_expired]
      rfl
    · refine ⟨recordsTaken orgId (sharedCharge env orgId db) env.settlementTime db.expiresRecords,
        ?_, recordsTaken_recordsPay hpos.le env.settlementTime h.recordIds h.records⟩
      rw [hdb, chargeShared_eq hpos hrecordIds, expired_expiresRecords]
      rfl
  case others =>
    intro other hother
    rw [hdb]
    rcases sharedCharge_nonneg.eq_or_lt with hzero | hpos
    · rw [chargeShared, if_neg hzero.ge.not_gt]
      rfl
    · rw [getOrgCredits_chargeShared hpos hrecordIds, if_neg (Ne.symm hother)]
      rfl

/-- Events of 70, 20 and 50 credits, of two members with grants of 20 and 15, and an allowance of 30
units; the organization has 40 credits, of which 10 have expired and 25 expire later. -/
def membersDb : BillingDb where
  usageEvents :=
    [⟨1, none, none, "org", "ann", "model", "p", "tokens", 7, some 10, some 1, some 100, none,
      .pending, none, 10, none⟩,
    ⟨2, none, none, "org", "bob", "model", "p", "tokens", 2, some 10, some 1, some 100, none,
      .pending, none, 20, none⟩,
    ⟨3, none, none, "org", "bob", "model", "p", "tokens", 5, some 10, some 1, some 100, none,
      .pending, none, 30, none⟩]
  usagePricing := []
  grants := [⟨1, "org", "ann", .purchased, 20, 200⟩, ⟨2, "org", "bob", .purchased, 15, 200⟩]
  expiresRecords := [⟨1, "org", 10, 50⟩, ⟨2, "org", 25, 200⟩]
  orgMetadata := [("org", 40)]
  allowance := ⟨[⟨1, "org", .active, 18000, 30, 604800, 150, 0, none, some "sub"⟩], [], [], []⟩

/-- The allowance and the grants pay 65 of the 140 credits. -/
theorem settlement_conserves_members : SettlementReady (quietEnv 100) "org" membersDb ∧
    (processOrgUsageEventsInTransaction (quietEnv 100) "org" membersDb).2.sharedCreditsCharged =
      75 ∧
    Settles (quietEnv 100) "org" membersDb
      (processOrgUsageEventsInTransaction (quietEnv 100) "org" membersDb).1
      (processOrgUsageEventsInTransaction (quietEnv 100) "org" membersDb).2 := by
  have hready : SettlementReady (quietEnv 100) "org" membersDb := by
    constructor <;> decide +kernel
  exact ⟨hready, by decide +kernel, settlement_conserves (quietEnv 100) "org" membersDb hready⟩

/-- What is pending after a settlement was pending before and is of another organization. -/
theorem pending_of_settled {settled}
    (h : event ∈ pendingRecords orgId
      (processOrgUsageEventsInTransaction env settled db).1.usageEvents) :
    event ∈ pendingRecords orgId db.usageEvents ∧ orgId ≠ settled := by
  unfold processOrgUsageEventsInTransaction at h
  dsimp only at h
  split at h
  · next hnone =>
    refine ⟨h, ?_⟩
    rintro rfl
    simp [length_eq_zero_iff.mp hnone] at h
  · rw [(chargeShared_frame ..).1] at h
    obtain ⟨hmem, hpend⟩ := mem_pendingRecords.mp h
    obtain ⟨before, hbefore, rfl⟩ := mem_map.mp hmem
    split at hpend
    · next hfind =>
      have hold := mem_pendingRecords.mpr ⟨hbefore, hpend⟩
      refine ⟨hold, ?_⟩
      rintro rfl
      simp [settlementOutcomes, priceUsageEvents, priceUsageEvent_record] at hfind
      exact hfind _ hold rfl
    · cases hpend.2

/-- **Nothing is charged twice**: after a settlement and whatever others, settling again changes
nothing. -/
theorem settled_again (env env' : BillingEnv) (orgId : String) (db : BillingDb)
    (later : List (BillingEnv × String)) :
    let after := later.foldl (fun db run => (processOrgUsageEventsInTransaction run.1 run.2 db).1)
      (processOrgUsageEventsInTransaction env orgId db).1
    processOrgUsageEventsInTransaction env' orgId after = (after, ⟨0, [], none⟩) := by
  intro after
  have hnone : pendingRecords orgId after.usageEvents = [] := by
    refine foldlRecOn (motive := fun db : BillingDb => pendingRecords orgId db.usageEvents = [])
      later _ ?_ ?_
    · exact eq_nil_iff_forall_not_mem.mpr fun _ h => (pending_of_settled h).2 rfl
    · intro db hdb run _
      exact eq_nil_of_subset_nil fun _ h => hdb ▸ (pending_of_settled h).1
  simp [processOrgUsageEventsInTransaction, hnone]

end Settlement

end Okou.Billing
