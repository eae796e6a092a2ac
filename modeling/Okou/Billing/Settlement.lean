import Okou.Billing.Allowance
import Okou.Billing.Credits

/-!
# Settling the usage of an organization

`processOrgUsageEventsInTransaction`: the pending events of an organization are
priced, covered by allowances as far as these go, and marked as processed; the
rest is charged to the grants of the members, and what they cannot pay to the
balance of the organization.  The transaction runs to its end here: where a call
throws, the database undoes all of it.
-/

namespace Okou.Billing

/-! ### Prices -/

/-- `Math.ceil(x / y)`. -/
def ceilQuotient (x y : ℤ) : ℤ := -(Int.fdiv (-x) y)

structure PricedUsageEvent where
  record : UsageEvent
  grossCredits : ℤ
  billingError : Option UsageEventBillingError

/-- The key under which a price is found. -/
def pricingKey (kind provider category : String) : String := kind ++ "|" ++ provider ++ "|" ++
    category

def pricingByKey (pricingRecords : List UsagePricing) : List (String × UsagePricing) :=
  dictMerge [] (pricingRecords.map fun pricing =>
    (pricingKey pricing.kind pricing.provider pricing.category, pricing))

def resolveUsagePricingProvider (resolution : List UsagePricingProviderResolution)
    (kind provider : String) : String :=
  ((resolution.find? fun entry => decide (entry.kind = kind) &&
    decide (entry.provider = provider)).map
    UsagePricingProviderResolution.lookupProvider).getD provider

/-- One turn of the loop of `priceUsageEvents`. -/
def priceUsageEvent (pricing : List (String × UsagePricing))
    (resolution : List UsagePricingProviderResolution) (record : UsageEvent) : PricedUsageEvent :=
  match record.pricingUnitPrice, record.pricingUnitSize, record.pricingCreditsLimit with
  | some unitPrice, some unitSize, some limit =>
    -- the price that was noted when the event happened
    let credits := (record.quantity * unitPrice + unitSize - 1).tdiv unitSize
    ⟨record, if credits < limit then credits else limit, none⟩
  | _, _, _ =>
    let lookupProvider := resolveUsagePricingProvider resolution record.kind record.provider
    let exactPricing := dictGet (pricingKey record.kind lookupProvider record.category) pricing
    let fallback := dictGet (pricingKey record.kind lookupProvider "__fallback__") pricing
    match exactPricing.orElse fun _ => fallback with
    | none => ⟨record, 0, some .missingPricing⟩
    | some price => ⟨record, ceilQuotient (record.quantity * price.unitPrice) price.unitSize,
        if exactPricing.isSome then none else some .fallbackPricing⟩

def priceUsageEvents (records : List UsageEvent) (pricingRecords : List UsagePricing)
    (resolution : List UsagePricingProviderResolution) : List PricedUsageEvent :=
  records.map (priceUsageEvent (pricingByKey pricingRecords) resolution)

/-! ### The settlement -/

structure UsageEventSettlementOutcome where
  usageEventId : Uuid
  creditsCharged : ℤ
  billingError : Option UsageEventBillingError

structure CreditLowBalanceAlertArgs where
  orgId : String
  remainingCredits : ℤ
  thresholdCredits : ℤ
  deriving DecidableEq, Repr

/-- `ProcessOrgUsageEventsResult`, without the observed timings and row counts. -/
structure ProcessOrgUsageEventsResult where
  sharedCreditsCharged : ℤ
  runIds : List Uuid
  lowBalanceAlert : Option CreditLowBalanceAlertArgs
  deriving DecidableEq, Repr

def lowCreditEmailAlertThresholdCredits : ℤ := 5000

def markUsageEventsProcessed (processedAt : Time) (outcomes : List UsageEventSettlementOutcome)
    (events : List UsageEvent) : List UsageEvent :=
  events.map fun event =>
    match outcomes.find? fun outcome => decide (outcome.usageEventId = event.id) with
    | none => event
    | some outcome => { event with
        creditsCharged := some outcome.creditsCharged
        status := .processed
        processedAt := some processedAt
        billingError := outcome.billingError }

variable (allowanceByUsageEvent : List (Uuid × ℤ)) (env : BillingEnv) (orgId : String)
  (event : PricedUsageEvent) (pricedEvents : List PricedUsageEvent) (db db' : BillingDb)

/-- The pending events of an organization. -/
def pendingRecords (events : List UsageEvent) : List UsageEvent :=
  events.filter fun event => decide (event.orgId = orgId) && decide (event.status = .pending)

/-- What an event asks of the allowance. -/
def PricedUsageEvent.candidate : UsageAllowanceCandidate :=
  ⟨event.record.id, event.record.runId, event.record.billingAnchorAt, event.grossCredits,
    event.record.createdAt⟩

/-- What is charged for an event. -/
def creditsCharged : ℤ :=
  event.grossCredits - (dictGet event.record.id allowanceByUsageEvent).getD 0

def settlementOutcomes : List UsageEventSettlementOutcome :=
  pricedEvents.map fun event =>
    ⟨event.record.id, creditsCharged allowanceByUsageEvent event, event.billingError⟩

def billableCreditsByUser : List (String × ℤ) :=
  dictCollect (fun event => event.record.userId) 0
    (fun credits event => credits + creditsCharged allowanceByUsageEvent event) pricedEvents

/-- The last step of the settlement: what the members could not pay is charged to the
organization.  What has expired is settled before the new deduction. -/
def chargeShared (sharedCreditsCharged : ℤ) (settlementTime : Time) (db : BillingDb) :
    BillingDb × Option CreditLowBalanceAlertArgs :=
  if 0 < sharedCreditsCharged then
    let beforeCredits := getOrgCredits orgId db
    let (db, expiredCredits, _) := expireCredits orgId settlementTime db
    let effectiveBeforeCredits := max (beforeCredits - expiredCredits) 0
    let db := deductOrgCredits orgId sharedCreditsCharged db
    let afterCredits := getOrgCredits orgId db
    let db := deductFromExpiresRecords orgId sharedCreditsCharged settlementTime db
    let lowBalanceAlert :=
      if lowCreditEmailAlertThresholdCredits < effectiveBeforeCredits ∧
          afterCredits ≤ lowCreditEmailAlertThresholdCredits then
        some ⟨orgId, afterCredits, lowCreditEmailAlertThresholdCredits⟩
      else none
    (db, lowBalanceAlert)
  else (db, none)

def processOrgUsageEventsInTransaction : BillingDb × ProcessOrgUsageEventsResult :=
  let pending := pendingRecords orgId db.usageEvents
  if pending.length = 0 then (db, ⟨0, [], none⟩)
  else
    let runIds := (pending.filterMap UsageEvent.runId).eraseDups
    let pricedEvents := priceUsageEvents pending db.usagePricing env.pricingResolution
    let (allowanceByUsageEvent, allowance) :=
      applyUsageAllowanceToUsageEventsInLockedTransaction env
      db.allowance orgId (pricedEvents.map PricedUsageEvent.candidate)
    let db := { db with
      allowance := allowance
      usageEvents := markUsageEventsProcessed env.processedAt
        (settlementOutcomes allowanceByUsageEvent pricedEvents) db.usageEvents }
    let (sharedCreditsCharged, grants) := settleMemberGrants env.localeCompare orgId
      (billableCreditsByUser allowanceByUsageEvent pricedEvents) env.settlementTime db.grants
    let db := { db with grants := grants }
    let (db, lowBalanceAlert) := chargeShared orgId sharedCreditsCharged env.settlementTime db
    (db, ⟨sharedCreditsCharged, runIds, lowBalanceAlert⟩)

/-! ### What a settlement does -/

/-- The gross price of an event. -/
def grossCredits (env : BillingEnv) (db : BillingDb) (event : UsageEvent) : ℤ :=
  (priceUsageEvent (pricingByKey db.usagePricing) env.pricingResolution event).grossCredits

/-- The states a settlement starts from: primary keys are distinct, an event has one
allocation at most and its units are positive, as the schema has it; prices and
remainders are not negative, and an allocation that exists is within the price of its
event. -/
structure SettlementReady (env : BillingEnv) (orgId : String) (db : BillingDb) : Prop where
  eventIds : (db.usageEvents.map UsageEvent.id).Nodup
  grantIds : (db.grants.map UsagePackCreditGrant.id).Nodup
  recordIds : (db.expiresRecords.map CreditExpiresRecord.id).Nodup
  allocationIds : (db.allowance.allocations.map UsageAllowanceAllocation.usageEventId).Nodup
  gross : ∀ event ∈ pendingRecords orgId db.usageEvents, 0 ≤ grossCredits env db event
  allocations : ∀ row ∈ db.allowance.allocations, ∀ event ∈ pendingRecords orgId db.usageEvents,
    event.id = row.usageEventId → 0 < row.unitsApplied ∧
      row.unitsApplied ≤ grossCredits env db event
  grants : ∀ grant ∈ db.grants, grant.orgId = orgId → 0 ≤ grant.remainingAmount
  records : ∀ record ∈ db.expiresRecords, record.orgId = orgId → 0 ≤ record.remaining

/-- What a settlement charges for an event: its gross price without the units that are
allocated to it. -/
def settledCharge (event : UsageEvent) : ℤ :=
  grossCredits env db event - (allocatedUnits db'.allowance.allocations event.id).getD 0

/-- What a settlement charges a member. -/
def memberCharge (userId : String) : ℤ :=
  (((pendingRecords orgId db.usageEvents).filter fun event => decide (event.userId = userId)).map
    (settledCharge env db db')).sum

/-- What the grants pay, by their ids. -/
structure GrantsPay (orgId : String) (users : List String) (charge : String → ℤ) (time : Time)
    (grants : List UsagePackCreditGrant) (spent : Uuid → ℤ) : Prop where
  /-- Only unexpired grants of members with usage pay. -/
  other : ∀ grant ∈ grants, ¬(grant.orgId = orgId ∧ grant.userId ∈ users ∧ time < grant.expiresAt) →
    spent grant.id = 0
  /-- A grant pays what it has at most. -/
  bounds : ∀ grant ∈ grants, grant.orgId = orgId → 0 ≤ spent grant.id ∧
    spent grant.id ≤ grant.remainingAmount
  /-- The grants of a member pay the charge, or all they have. -/
  member : ∀ userId ∈ users, ((unexpiredGrants orgId userId time grants).map fun grant =>
      spent grant.id).sum =
      min (charge userId) (grantPurse.total (unexpiredGrants orgId userId time grants))
  /-- A grant pays only if every grant before it is used up. -/
  order : ∀ userId ∈ users, ∀ grant ∈ unexpiredGrants orgId userId time grants,
    ∀ earlier ∈ unexpiredGrants orgId userId time grants, earlier.before grant → earlier ≠ grant →
      0 < spent grant.id → spent earlier.id = earlier.remainingAmount

/-- What the expiring records pay, by their ids. -/
structure RecordsPay (orgId : String) (amount : ℤ) (time : Time)
    (records : List CreditExpiresRecord) (used : Uuid → ℤ) : Prop where
  /-- Only unexpired records of the organization pay. -/
  other : ∀ record ∈ records, ¬(record.orgId = orgId ∧ time < record.expiresAt) → used record.id = 0
  /-- A record pays what it has at most. -/
  bounds : ∀ record ∈ records, record.orgId = orgId → 0 ≤ used record.id ∧
    used record.id ≤ record.remaining
  /-- The records pay the amount, or all they have. -/
  amount : ((unexpiredRecords orgId time records).map fun record => used record.id).sum =
    min amount (recordPurse.total (unexpiredRecords orgId time records))
  /-- A record pays only if every record that expires earlier is used up. -/
  order : ∀ record ∈ unexpiredRecords orgId time records,
    ∀ earlier ∈ unexpiredRecords orgId time records, earlier.expiresAt < record.expiresAt →
      0 < used record.id → used earlier.id = earlier.remaining

/-- What a settlement does to the tables of an organization. -/
structure Settles (env : BillingEnv) (orgId : String) (db db' : BillingDb)
    (result : ProcessOrgUsageEventsResult) : Prop where
  /-- The events that were pending, and no others, are processed and charged. -/
  events : db'.usageEvents = db.usageEvents.map fun event =>
    if event.orgId = orgId ∧ event.status = .pending then
      { event with
        creditsCharged := some (settledCharge env db db' event)
        status := .processed
        processedAt := some env.processedAt
        billingError :=
          (priceUsageEvent (pricingByKey db.usagePricing) env.pricingResolution
            event).billingError }
    else event
  /-- A charge is between nothing and the gross price. -/
  charges : ∀ event ∈ pendingRecords orgId db.usageEvents,
    0 ≤ settledCharge env db db' event ∧ settledCharge env db db' event ≤ grossCredits env db event
  /-- The members pay with their grants; the rest of the charges is shared. -/
  grants : ∃ spent : Uuid → ℤ, db'.grants = grantPurse.pay spent db.grants ∧
    GrantsPay orgId ((pendingRecords orgId db.usageEvents).map UsageEvent.userId)
      (memberCharge env orgId db db') env.settlementTime db.grants spent ∧
    result.sharedCreditsCharged = ((pendingRecords orgId db.usageEvents).map
      (settledCharge env db db')).sum -
        (db.grants.map fun grant => spent grant.id).sum
  shared_nonneg : 0 ≤ result.sharedCreditsCharged
  /-- Without a shared charge the balance and the records stay as they are. -/
  unshared : result.sharedCreditsCharged = 0 → db'.orgMetadata = db.orgMetadata ∧
    db'.expiresRecords = db.expiresRecords
  /-- A shared charge is taken from the balance that expiry leaves, and from the records
  that have not expired. -/
  shared : 0 < result.sharedCreditsCharged → getOrgCredits orgId db' =
        getOrgCredits orgId (expireCredits orgId env.settlementTime db).1 -
          result.sharedCreditsCharged ∧
      ∃ used : Uuid → ℤ, db'.expiresRecords = recordPurse.pay used
          (expireCredits orgId env.settlementTime db).1.expiresRecords ∧
        RecordsPay orgId result.sharedCreditsCharged env.settlementTime db.expiresRecords used
  /-- The balances of other organizations stay as they are. -/
  others : ∀ other, other ≠ orgId → getOrgCredits other db' = getOrgCredits other db

end Okou.Billing
