import Mathlib.Algebra.Order.Ring.Int
import Okou.Lib.Dict
import Okou.Lib.Machine

/-!
# Refunding the credits of a removed member

`usage-pack-credit-refund.service.ts`, for credits that were paid with a payment
intent.  When a member is removed, the refund row of a grant notes what is left of the
grant; then `processCreditRefund` is run for the row, by the caller that removed the
member and by a cron job, until the row says how the refund ended.  An execution reads
the row once and then makes one database or Stripe call after the other.  Executions
overlap, and each can end between any two calls.

Stripe remembers its response to an idempotency key.  The key has the grant and the
attempt, so that there is one refund for an attempt.  Refunds of other grants that a
list call returns are passed over, and are left out here.
-/

namespace Okou.Billing

/-! ### The row -/

/-- `UsagePackCreditRefundStatus`. -/
inductive RefundRowStatus
  | available
  | pending
  | processing
  | succeeded
  | failed
  deriving DecidableEq, Repr

/-- What does not change about a refund: the payment and the grant, as the schema has them. -/
structure RefundSource where
  sourceAmountCents : ℤ
  originalAmount : ℤ
  sourceAmountCents_nonneg : 0 ≤ sourceAmountCents
  originalAmount_pos : 0 < originalAmount

/-- A row of `usage_pack_credit_refunds`. -/
structure RefundRow where
  status : RefundRowStatus
  refundCredits : Option ℤ
  requestedAmountCents : Option ℤ
  refundedAmountCents : Option ℤ
  stripeRefundId : Option ℕ
  attempt : ℕ
  failureReason : Option String
  deriving DecidableEq, Repr

/-- The row as it is inserted. -/
def RefundRow.new : RefundRow := ⟨.available, none, none, none, none, 1, none⟩

def maxRefundAttempts : ℕ := 3

variable (source : RefundSource) (remainingAmount : ℤ) (row : RefundRow)

/-- What `prepareUsagePackMemberCreditRefunds` requests for a grant. -/
def RefundSource.requestedAmountCents : ℤ :=
  source.sourceAmountCents * remainingAmount / source.originalAmount

/-- The write of `prepareUsagePackMemberCreditRefunds` to the row of one grant. -/
def prepareRefund : RefundRow :=
  if row.status = .available ∧ 0 < source.requestedAmountCents remainingAmount then
    { row with
      status := .pending
      refundCredits := some remainingAmount
      requestedAmountCents := some (source.requestedAmountCents remainingAmount) }
  else row

/-! ### Stripe -/

/-- The status of a Stripe refund. -/
inductive StripeRefundStatus
  | pending
  | requiresAction
  | succeeded
  | failed
  | canceled
  deriving DecidableEq, Repr

variable (status : StripeRefundStatus)

/-- The text of a status. -/
def StripeRefundStatus.text : StripeRefundStatus → String
  | .pending => "pending"
  | .requiresAction => "requires_action"
  | .succeeded => "succeeded"
  | .failed => "failed"
  | .canceled => "canceled"

/-- A status that does not change any more. -/
def StripeRefundStatus.Final : Prop :=
  status = .succeeded ∨ status = .failed ∨ status = .canceled

/-- Money has been refunded, or still can be. -/
def StripeRefundStatus.Live : Prop := status ≠ .failed ∧ status ≠ .canceled

instance (status : StripeRefundStatus) : Decidable status.Final :=
  inferInstanceAs (Decidable (_ ∨ _ ∨ _))

instance (status : StripeRefundStatus) : Decidable status.Live :=
  inferInstanceAs (Decidable (_ ∧ _))

/-- A refund of the grant; `attempt` is that of the idempotency key it was created with. -/
structure StripeRefund where
  id : ℕ
  attempt : ℕ
  amount : ℤ
  status : StripeRefundStatus
  failureReason : Option String
  deriving DecidableEq, Repr

/-- What Stripe answers to the creation of a refund. -/
inductive CreateResponse
  | created (refund : StripeRefund)
  | chargeAlreadyRefunded
  | error
  deriving DecidableEq, Repr

def stripeRefundFailureReason (refund : StripeRefund) : String :=
  match refund.failureReason with
  | none => "stripe_refund_" ++ refund.status.text
  | some reason => "stripe_refund_" ++ refund.status.text ++ ":" ++ reason

/-! ### The writes -/

/-- The first write of `processCreditRefund`. -/
def claimRefund : RefundRow :=
  if row.status = .pending ∨ row.status = .processing then { row with status := .processing }
    else row

/-- `applyStripeRefundState`: the write, from an execution's copy of the row. -/
def applyStripeRefundState (copy : RefundRow) (refund : StripeRefund) (row : RefundRow) :
    RefundRow :=
  if refund.status = .failed ∨ refund.status = .canceled then
    if maxRefundAttempts ≤ copy.attempt then
      { row with
        status := .failed
        stripeRefundId := some refund.id
        attempt := copy.attempt
        failureReason := some (stripeRefundFailureReason refund) }
    else
      { row with
        status := .pending
        stripeRefundId := none
        attempt := copy.attempt + 1
        failureReason := some (stripeRefundFailureReason refund) }
  else { row with status := .processing, stripeRefundId := some refund.id, failureReason := none }

def markRefundSucceeded (stripeRefundId : ℕ) (refundedAmountCents : Option ℤ) (row : RefundRow) :
  RefundRow := { row with
    status := .succeeded
    stripeRefundId := some stripeRefundId
    refundedAmountCents := refundedAmountCents
    failureReason := none }

def markRefundFailed (failureReason : String) (row : RefundRow) : RefundRow :=
  { row with status := .failed, failureReason := some failureReason }

/-! ### Executions -/

/-- What an execution does next. -/
inductive RefundCall
  /-- The first write. -/
  | claim
  /-- `refunds.retrieve`, or `refunds.create`. -/
  | fetch
  /-- `refunds.list` in `reconcileAlreadyRefundedCharge`, with the match so far. -/
  | list (matching : Option StripeRefund)
  /-- The write of `markRefundFailed`. -/
  | fail (failureReason : String)
  /-- The write of `applyStripeRefundState`. -/
  | apply (refund : StripeRefund)
  /-- The write of `markRefundSucceeded`. -/
  | mark (refund : StripeRefund)
  | done
  deriving DecidableEq, Repr

/-- An execution of `processCreditRefund`: the row as it was read, and the next call. -/
structure RefundExecution where
  copy : RefundRow
  next : RefundCall
  deriving DecidableEq, Repr

/-- The row, the refunds and the responses that Stripe has, and all executions. -/
structure RefundSystem where
  row : RefundRow
  refunds : List StripeRefund
  responses : List (ℕ × CreateResponse)
  executions : List RefundExecution
  deriving DecidableEq, Repr

variable (s : RefundSystem) (i : ℕ) (execution : RefundExecution)

/-- Nothing has been requested yet. -/
def RefundSystem.start : RefundSystem := ⟨.new, [], [], []⟩

/-- The next call of an execution. -/
def RefundSystem.setNext (next : RefundCall) : RefundSystem :=
  { s with executions := s.executions.set i { execution with next := next } }

/-- What `createOrReconcileRefund` does with a response. -/
def afterCreate : CreateResponse → RefundCall
  | .created refund => .apply refund
  | .chargeAlreadyRefunded => .list none
  | .error => .done

/-- One page of `reconcileAlreadyRefundedCharge`; nothing, if a second refund matches. -/
def scanPage (amountCents : Option ℤ) (matching : Option StripeRefund) :
    List StripeRefund → Option (Option StripeRefund)
  | [] => some matching
  | refund :: page =>
    if refund.status ≠ .succeeded ∨ some refund.amount ≠ amountCents then scanPage amountCents
      matching page
    else
      match matching with
      | some _ => none
      | none => scanPage amountCents (some refund) page

/-- What comes after a page. -/
def afterPage (hasMore : Bool) : Option (Option StripeRefund) → RefundCall
  | none => .fail "stripe_charge_already_refunded_ambiguous"
  | some matching =>
    if hasMore then .list matching
    else
      match matching with
      | none => .fail "stripe_charge_already_refunded_unmatched"
      | some refund => .apply refund

/-- What Stripe does when it is called, where the call leaves it open. -/
inductive StripeReply
  /-- A new refund, with the status it has when Stripe answers. -/
  | create (status : StripeRefundStatus) (failureReason : Option String)
  /-- A response without a refund, and whether it is remembered for the key. -/
  | refuse (chargeAlreadyRefunded remembered : Bool)
  /-- A page of refunds, and whether there are more. -/
  | page (ids : List ℕ) (hasMore : Bool)
  | none
  deriving DecidableEq, Repr

/-- `refunds.create` with the key of an attempt. -/
def createRefund (attempt : ℕ) (amount : ℤ) (reply : StripeReply) (s : RefundSystem) :
    Option (CreateResponse × RefundSystem) :=
  match dictGet attempt s.responses, reply with
  | some response, _ => some (response, s)
  | Option.none, .create status failureReason =>
    let refund : StripeRefund := ⟨s.refunds.length, attempt, amount, status, failureReason⟩
    some (.created refund, { s with
      refunds := s.refunds ++ [refund]
      responses := dictSet attempt (.created refund) s.responses })
  | Option.none, .refuse chargeAlreadyRefunded remembered =>
    let response : CreateResponse := if chargeAlreadyRefunded then .chargeAlreadyRefunded
      else .error
    let responses := if remembered then dictSet attempt response s.responses else s.responses
    some (response, { s with responses := responses })
  | _, _ => Option.none

/-- The next call of an execution. -/
def callStep (reply : StripeReply) : Option RefundSystem :=
  match execution.next with
  | .claim =>
    -- without an amount `processPaymentIntentRefund` throws
    let next := if execution.copy.requestedAmountCents.getD 0 = 0 then RefundCall.done else .fetch
    some ({ s with row := claimRefund s.row }.setNext i execution next)
  | .fetch =>
    match execution.copy.stripeRefundId, execution.copy.requestedAmountCents with
    | some id, _ => (s.refunds.find? fun refund => decide (refund.id = id)).map fun refund =>
        s.setNext i execution (.apply refund)
    | Option.none, some amount => (createRefund execution.copy.attempt amount reply s).map
        fun (response, s) => s.setNext i execution (afterCreate response)
    | Option.none, Option.none => Option.none
  | .list matching =>
    match reply with
    | .page ids hasMore =>
      let page := ids.filterMap fun id => s.refunds.find? fun refund => decide (refund.id = id)
      some (s.setNext i execution (afterPage hasMore
        (scanPage execution.copy.requestedAmountCents matching page)))
    | _ => Option.none
  | .fail failureReason =>
    some ({ s with row := markRefundFailed failureReason s.row }.setNext i execution .done)
  | .apply refund =>
    let next := if refund.status = .succeeded then RefundCall.mark refund else .done
    some ({ s with row := applyStripeRefundState execution.copy refund s.row }.setNext i execution
      next)
  | .mark refund =>
    let row := markRefundSucceeded refund.id execution.copy.requestedAmountCents s.row
    some ({ s with row := row }.setNext i execution .done)
  | .done => Option.none

/-- What can happen. -/
inductive RefundStep
  /-- The member is removed while the grant has this much left. -/
  | prepare (remainingAmount : ℤ)
  /-- An execution starts: the row is selected and read. -/
  | read
  /-- An execution makes its next call. -/
  | call (i : ℕ) (reply : StripeReply)
  /-- An execution ends early. -/
  | crash (i : ℕ)
  /-- A refund moves on. -/
  | settle (id : ℕ) (status : StripeRefundStatus) (failureReason : Option String)
  deriving DecidableEq, Repr

/-- A refund that is not final gets a new status. -/
def settleRefund (id : ℕ) (status : StripeRefundStatus) (failureReason : Option String)
    (refund : StripeRefund) : StripeRefund :=
  if refund.id = id ∧ ¬refund.status.Final then
    { refund with status := status, failureReason := failureReason }
  else refund

/-- One step. -/
def refundStep : RefundStep → Option RefundSystem
  | .prepare remainingAmount =>
    if 0 < remainingAmount ∧ remainingAmount ≤ source.originalAmount then
      some { s with row := prepareRefund source remainingAmount s.row }
    else none
  | .read =>
    if s.row.status = .pending ∨ s.row.status = .processing then
      some { s with executions := s.executions ++ [⟨s.row, .claim⟩] }
    else none
  | .call i reply => s.executions[i]?.bind fun execution => callStep s i execution reply
  | .crash i => s.executions[i]?.map fun execution => s.setNext i execution .done
  | .settle id status failureReason =>
    some { s with refunds := s.refunds.map (settleRefund id status failureReason) }

end Okou.Billing
