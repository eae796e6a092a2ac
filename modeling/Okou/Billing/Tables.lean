import Mathlib.Algebra.Order.Group.Nat
import Okou.Lib.Dict
import Okou.Lib.Purse

/-!
# The billing tables

The rows that settlement reads and writes, with the columns it uses.  A table is
a list of rows in the order in which the database returns them; a query that
sorts keeps that order among equals.  Quantities are exact integers, and a time
is a number of milliseconds.
-/

namespace Okou.Billing

/-- A time, in milliseconds. -/
abbrev Time := ℤ

/-- A row id; the order of UUIDs is that of the numbers they are. -/
abbrev Uuid := ℕ

/-! ### Usage -/

/-- The status of a usage event. -/
inductive UsageEventStatus
  | pending
  | processed
  deriving DecidableEq, Repr

/-- `UsageEventBillingError`, besides null. -/
inductive UsageEventBillingError
  | missingPricing
  | fallbackPricing
  deriving DecidableEq, Repr

/-- A row of `usage_event`. -/
structure UsageEvent where
  id : Uuid
  runId : Option Uuid
  billingAnchorAt : Option Time
  orgId : String
  userId : String
  kind : String
  provider : String
  category : String
  quantity : ℤ
  pricingUnitPrice : Option ℤ
  pricingUnitSize : Option ℤ
  pricingCreditsLimit : Option ℤ
  creditsCharged : Option ℤ
  status : UsageEventStatus
  billingError : Option UsageEventBillingError
  createdAt : Time
  processedAt : Option Time
  deriving DecidableEq, Repr

/-- A row of `usage_pricing`. -/
structure UsagePricing where
  kind : String
  provider : String
  category : String
  unitPrice : ℤ
  unitSize : ℤ
  deriving DecidableEq, Repr

/-! ### Credits -/

inductive UsagePackCreditGrantType
  | purchased
  | bonus
  deriving DecidableEq, Repr

/-- A row of `usage_pack_credit_grants`. -/
structure UsagePackCreditGrant where
  id : Uuid
  orgId : String
  userId : String
  grantType : UsagePackCreditGrantType
  remainingAmount : ℤ
  expiresAt : Time
  deriving DecidableEq, Repr

/-- A row of `credit_expires_record`. -/
structure CreditExpiresRecord where
  id : Uuid
  orgId : String
  remaining : ℤ
  expiresAt : Time
  deriving DecidableEq, Repr

/-- How grants hold what is left of them. -/
def grantPurse : Purse UsagePackCreditGrant where
  id := UsagePackCreditGrant.id
  balance := UsagePackCreditGrant.remainingAmount
  withBalance b grant := { grant with remainingAmount := b }
  id_withBalance _ _ := rfl
  balance_withBalance _ _ := rfl
  withBalance_balance _ := rfl
  withBalance_withBalance _ _ _ := rfl

/-- How expiring records hold what is left of them. -/
def recordPurse : Purse CreditExpiresRecord where
  id := CreditExpiresRecord.id
  balance := CreditExpiresRecord.remaining
  withBalance b record := { record with remaining := b }
  id_withBalance _ _ := rfl
  balance_withBalance _ _ := rfl
  withBalance_balance _ := rfl
  withBalance_withBalance _ _ _ := rfl

/-! ### Allowances -/

/-- The statuses an allowance entitlement and its subscription can have. -/
inductive AllowanceStatus
  | active
  | manualActive
  | trialing
  | pastDue
  | unpaid
  | canceled
  | incompleteExpired
  | other (name : String)
  deriving DecidableEq, Repr

inductive UsageAllowanceWindowKind
  | short
  | weekly
  deriving DecidableEq, Repr

/-- A row of `org_usage_allowance_entitlements`. -/
structure UsageAllowanceEntitlement where
  id : Uuid
  orgId : String
  status : AllowanceStatus
  shortWindowSeconds : ℤ
  shortWindowUnits : ℤ
  weeklyWindowSeconds : ℤ
  weeklyWindowUnits : ℤ
  effectiveAt : Time
  expiresAt : Option Time
  stripeSubscriptionId : Option String
  deriving DecidableEq, Repr

/-- A row of `org_usage_allowance_windows`. -/
structure UsageAllowanceWindow where
  id : Uuid
  orgId : String
  entitlementId : Uuid
  kind : UsageAllowanceWindowKind
  startsAt : Time
  expiresAt : Time
  unitLimit : ℤ
  consumedUnits : ℤ
  createdByRunId : Option Uuid
  deriving DecidableEq, Repr

/-- A row of `usage_allowance_allocations`. -/
structure UsageAllowanceAllocation where
  usageEventId : Uuid
  orgId : String
  runId : Option Uuid
  shortWindowId : Uuid
  weeklyWindowId : Uuid
  unitsApplied : ℤ
  deriving DecidableEq, Repr

/-- A row of `agent_runs`. -/
structure AgentRun where
  id : Uuid
  orgId : String
  createdAt : Time
  deriving DecidableEq, Repr

/-- The tables an allowance is worked out from. -/
structure AllowanceTables where
  entitlements : List UsageAllowanceEntitlement
  windows : List UsageAllowanceWindow
  allocations : List UsageAllowanceAllocation
  agentRuns : List AgentRun

/-! ### The database -/

/-- The billing tables; `orgMetadata` has the credits of each organization that has a
row. -/
structure BillingDb where
  usageEvents : List UsageEvent
  usagePricing : List UsagePricing
  grants : List UsagePackCreditGrant
  expiresRecords : List CreditExpiresRecord
  orgMetadata : List (String × ℤ)
  allowance : AllowanceTables

/-- A Stripe subscription, as far as it is read. -/
structure UsageAllowanceSubscription where
  status : AllowanceStatus
  cancelAt : Option ℤ
  currentPeriodEnd : Option ℤ
  deriving DecidableEq, Repr

structure UsagePricingProviderResolution where
  kind : String
  provider : String
  lookupProvider : String
  deriving DecidableEq, Repr

/-- What a settlement takes from its surroundings: the clock at the points where it is
read, the collation of user ids, the pricing resolution, Stripe, and the ids of new
rows. -/
structure BillingEnv where
  allowanceNow : Time
  processedAt : Time
  settlementTime : Time
  localeCompare : String → String → ℤ
  pricingResolution : List UsagePricingProviderResolution
  retrieveSubscription : String → UsageAllowanceSubscription
  newId : List Uuid → Uuid
  newId_fresh : ∀ used, newId used ∉ used

/-- Surroundings in which nothing is read from outside. -/
def quietEnv (time : Time) : BillingEnv where
  allowanceNow := time
  processedAt := time
  settlementTime := time
  localeCompare a b := if a < b then -1 else if a = b then 0 else 1
  pricingResolution := []
  retrieveSubscription _ := ⟨.active, none, none⟩
  newId used := used.sum + 1
  newId_fresh used hmem := by
    have hle : used.sum + 1 ≤ used.sum := List.le_sum_of_mem hmem
    exact Nat.not_succ_le_self _ hle

end Okou.Billing
