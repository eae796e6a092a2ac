import Mathlib.Data.List.Sort
import Okou.Billing.Tables

/-!
# Spending and expiring credits

`credit-usage.service.ts`: a charge is paid from the grants of the member, then
from the balance of the organization, and from its expiring records, those that
expire first before the others.
-/

namespace Okou.Billing

open List Purse UsagePackCreditGrant

/-! ### The balance -/

variable (orgId : String) (time : Time) (userId : String) (amount : ℤ)

def getOrgCredits (orgId : String) (db : BillingDb) : ℤ := (dictGet orgId db.orgMetadata).getD 0

/-- `deductOrgCredits`: the row is created where it is missing. -/
def deductOrgCredits (orgId : String) (amount : ℤ) (db : BillingDb) : BillingDb :=
  { db with orgMetadata := dictModify orgId 0 (fun credits => credits - amount) db.orgMetadata }

/-- `GREATEST(credits - totalExpired, 0)` on the row of an organization, if it has one. -/
def clampOrgCredits (orgId : String) (totalExpired : ℤ) (db : BillingDb) : BillingDb :=
  { db with orgMetadata := db.orgMetadata.map fun row =>
      (row.1, if row.1 = orgId then max (row.2 - totalExpired) 0 else row.2) }

/-! ### Expiring records -/

/-- The records that have expired and are not empty. -/
def expiredRecords (orgId : String) (time : Time) (db : BillingDb) : List CreditExpiresRecord :=
  db.expiresRecords.filter fun record =>
    decide (record.orgId = orgId) && decide (record.expiresAt ≤ time) &&
      decide (0 < record.remaining)

/-- `expireCredits` of the settlement; it returns the credits and the number of rows. -/
def expireCredits (orgId : String) (time : Time) (db : BillingDb) : BillingDb × ℤ × ℕ :=
  let expired := expiredRecords orgId time db
  if expired.length = 0 then (db, 0, 0)
  else
    let (totalExpired, records) := expired.foldl (fun (totalExpired, records) record =>
      (totalExpired + record.remaining, recordPurse.setById record.id 0 records)) (0,
        db.expiresRecords)
    let db := { db with expiresRecords := records }
    let db := if 0 < totalExpired then clampOrgCredits orgId totalExpired db else db
    (db, totalExpired, expired.length)

/-- The records that can still be used up, those that expire first in front. -/
def spendableRecords (orgId : String) (time : Time) (records : List CreditExpiresRecord) :
  List CreditExpiresRecord := (records.filter fun record =>
    decide (record.orgId = orgId) && decide (0 < record.remaining) &&
      decide (time < record.expiresAt)).insertionSort fun a b => a.expiresAt ≤ b.expiresAt

def deductFromExpiresRecords (orgId : String) (amount : ℤ) (time : Time) (db : BillingDb) :
    BillingDb :=
  if amount ≤ 0 then db
  else
    let records := spendableRecords orgId time db.expiresRecords
    { db with expiresRecords := (recordPurse.drain amount records db.expiresRecords).2 }

/-! ### Grants of members -/

/-- `CASE grantType WHEN 'purchased' THEN 0 ELSE 1 END`. -/
def UsagePackCreditGrantType.rank : UsagePackCreditGrantType → ℕ
  | .purchased => 0
  | .bonus => 1

/-- Purchased grants before others, then those that expire first, then by id. -/
def UsagePackCreditGrant.before (a b : UsagePackCreditGrant) : Prop :=
  a.grantType.rank < b.grantType.rank ∨ a.grantType.rank = b.grantType.rank ∧
    (a.expiresAt < b.expiresAt ∨ a.expiresAt = b.expiresAt ∧ a.id ≤ b.id)

instance : DecidableRel UsagePackCreditGrant.before :=
  fun a b => by unfold UsagePackCreditGrant.before; infer_instance

/-- The grants of a member that can be used up, in the order in which they are. -/
def spendableGrants (orgId userId : String) (time : Time) (grants : List UsagePackCreditGrant) :
    List UsagePackCreditGrant :=
  (grants.filter fun grant =>
    decide (grant.orgId = orgId) && decide (grant.userId = userId) &&
      decide (0 < grant.remainingAmount) && decide (time < grant.expiresAt)).insertionSort
    UsagePackCreditGrant.before

/-- `deductFromUsagePackCredits`: what the grants could not pay, and the grants. -/
def deductFromUsagePackCredits (orgId userId : String) (amount : ℤ) (time : Time)
    (grants : List UsagePackCreditGrant) : ℤ × List UsagePackCreditGrant :=
  if amount ≤ 0 then (0, grants)
  else grantPurse.drain amount (spendableGrants orgId userId time grants) grants

/-- One turn of the loop of `settleMemberGrants`. -/
def settleMember (orgId : String) (time : Time) (state : ℤ × List UsagePackCreditGrant)
    (charge : String × ℤ) : ℤ × List UsagePackCreditGrant :=
  let (shared, grants) := deductFromUsagePackCredits orgId charge.1 charge.2 time state.2
  (state.1 + shared, grants)

/-- `settleMemberGrants`: what the grants of all members could not pay, and the grants. -/
def settleMemberGrants (localeCompare : String → String → ℤ) (orgId : String)
    (charges : List (String × ℤ))
    (time : Time) (grants : List UsagePackCreditGrant) : ℤ × List UsagePackCreditGrant :=
  let sortedCharges := charges.insertionSort fun left right => localeCompare left.1 right.1 ≤ 0
  sortedCharges.foldl (settleMember orgId time) (0, grants)

/-! ### What expiry does -/

/-- What an organization's balance is after the clamp; others keep theirs. -/
theorem dictGet_clampOrgCredits (other) (totalExpired : ℤ) (db) :
    dictGet other (clampOrgCredits orgId totalExpired db).orgMetadata =
      (dictGet other db.orgMetadata).map fun credits =>
        if other = orgId then max (credits - totalExpired) 0 else credits :=
  dictGet_map_value (fun org credits => if org = orgId then max (credits - totalExpired) 0
    else credits)
    other db.orgMetadata

/-- A record after expiry. -/
def expireRecord (orgId : String) (time : Time) (record : CreditExpiresRecord) :
    CreditExpiresRecord :=
  if record.orgId = orgId ∧ record.expiresAt ≤ time ∧ 0 < record.remaining then
    { record with remaining := 0 }
  else record

/-- The tables after expiry: the expired records are empty, and their sum is taken from
the balance. -/
def expired (orgId : String) (time : Time) (db : BillingDb) : BillingDb :=
  let db' := { db with expiresRecords := db.expiresRecords.map (expireRecord orgId time) }
  if expiredRecords orgId time db = [] then db
  else clampOrgCredits orgId (recordPurse.total (expiredRecords orgId time db)) db'

variable {db : BillingDb} {grants : List UsagePackCreditGrant} {grant : UsagePackCreditGrant} {time}

theorem total_expiredRecords_pos {orgId} (hne : expiredRecords orgId time db ≠ []) :
    0 < recordPurse.total (expiredRecords orgId time db) := by
  refine sum_pos _ (fun b hb => ?_) (by simpa using hne)
  obtain ⟨record, hrec, rfl⟩ := mem_map.mp hb
  have hcond := (mem_filter.mp hrec).2
  simp only [Bool.and_eq_true, decide_eq_true_eq] at hcond
  exact hcond.2

/-- Emptying the expired records one by one. -/
theorem empty_expiredRecords {orgId} (hids : (db.expiresRecords.map CreditExpiresRecord.id).Nodup) :
    (expiredRecords orgId time db).foldl (fun records record =>
        recordPurse.setById record.id 0 records) db.expiresRecords =
      db.expiresRecords.map (expireRecord orgId time) := by
  refine (foldl_setById_zero _ _).trans ?_
  refine map_congr_left fun record hrec => ?_
  have hmem : recordPurse.id record ∈ (expiredRecords orgId time db).map recordPurse.id ↔
      record.orgId = orgId ∧ record.expiresAt ≤ time ∧ 0 < record.remaining := by
    constructor
    · intro h
      obtain ⟨other, hother, hid⟩ := mem_map.mp h
      obtain ⟨hin, hcond⟩ := mem_filter.mp hother
      obtain rfl := inj_on_of_nodup_map hids hin hrec hid
      simpa [and_assoc] using hcond
    · intro h
      exact mem_map_of_mem (mem_filter.mpr ⟨hrec, by simpa [and_assoc] using h⟩)
  unfold expireRecord
  by_cases h : record.orgId = orgId ∧ record.expiresAt ≤ time ∧ 0 < record.remaining
  · rw [if_pos (hmem.mpr h), if_pos h]
    rfl
  · rw [if_neg (hmem.not.mpr h), if_neg h]

theorem foldl_remaining (records) (sum : ℤ) :
    records.foldl (fun sum record => sum + record.remaining) sum = sum +
      recordPurse.total records := by
  induction records generalizing sum with
  | nil => simp [total]
  | cons record records ih =>
    rw [foldl_cons, ih, add_assoc]
    rfl

/-- `expireCredits`, without its loop. -/
theorem expireCredits_eq {orgId} (hids : (db.expiresRecords.map CreditExpiresRecord.id).Nodup) :
    expireCredits orgId time db = (expired orgId time db,
      recordPurse.total (expiredRecords orgId time db), (expiredRecords orgId time db).length) := by
  unfold expireCredits expired
  by_cases hempty : expiredRecords orgId time db = []
  · simp [hempty, total]
  · -- the sum and the records do not look at each other
    have hfold := foldl_hom₂ (expiredRecords orgId time db) Prod.mk (fun sum record =>
      sum + record.remaining)
      (fun records record => recordPurse.setById record.id 0 records)
      (fun (totalExpired, records) record =>
        (totalExpired + record.remaining, recordPurse.setById record.id 0 records))
      (0 : ℤ) db.expiresRecords fun _ _ _ => rfl
    have hlength : ¬(expiredRecords orgId time db).length = 0 := by simpa using hempty
    simp [hempty, hfold, foldl_remaining, empty_expiredRecords hids,
      total_expiredRecords_pos hempty]

/-- Expiry empties the expired records and leaves the others. -/
theorem expired_expiresRecords (time : Time) (db) :
    (expired orgId time db).expiresRecords = db.expiresRecords.map (expireRecord orgId time) := by
  unfold expired
  split
  · next hempty =>
    have hsame : ∀ record ∈ db.expiresRecords, expireRecord orgId time record = record := by
      intro record hrec
      refine if_neg fun hcond => ?_
      have hmem : record ∈ expiredRecords orgId time db :=
        mem_filter.mpr ⟨hrec, by simpa [and_assoc] using hcond⟩
      rw [hempty] at hmem
      exact not_mem_nil hmem
    rw [map_congr_left hsame, map_id']
  · rfl

/-- What expiry leaves of the balance of an organization. -/
theorem getOrgCredits_expired (other) (time : Time) (db) :
    getOrgCredits other (expired orgId time db) =
      if other = orgId ∧ expiredRecords orgId time db ≠ [] ∧
        (dictGet orgId db.orgMetadata).isSome then
        max (getOrgCredits orgId db - recordPurse.total (expiredRecords orgId time db)) 0
      else getOrgCredits other db := by
  unfold expired getOrgCredits
  split
  · next hempty => rw [if_neg fun h => h.2.1 hempty]
  · next hne =>
    rw [dictGet_clampOrgCredits]
    by_cases horg : other = orgId
    · subst horg
      cases hrow : dictGet other db.orgMetadata <;> simp [hne]
    · simp [horg]

/-! ### What deductions do -/

/-- The records of an organization that have not expired. -/
def unexpiredRecords (orgId : String) (time : Time) (records : List CreditExpiresRecord) :
    List CreditExpiresRecord :=
  records.filter fun record => decide (record.orgId = orgId) && decide (time < record.expiresAt)

theorem spendableRecords_perm (time : Time) (records) :
    List.Perm (spendableRecords orgId time records) ((unexpiredRecords orgId time records).filter
      fun record => 0 < recordPurse.balance record) := by
  refine (perm_insertionSort _ _).trans (List.Perm.of_eq ?_)
  rw [unexpiredRecords, filter_filter]
  refine filter_congr fun record _ => ?_
  rw [Bool.and_right_comm, Bool.and_comm]
  rfl

/-- What is taken from the expiring records for an amount. -/
def recordsTaken (orgId : String) (amount : ℤ) (time : Time) (records : List CreditExpiresRecord) :
    Uuid → ℤ :=
  recordPurse.taken amount (spendableRecords orgId time records)

/-- `deductFromExpiresRecords`, without its loop. -/
theorem deductFromExpiresRecords_eq {orgId} {amount} (hamount : 0 ≤ amount)
    (hids : (db.expiresRecords.map CreditExpiresRecord.id).Nodup) :
    deductFromExpiresRecords orgId amount time db = { db with
      expiresRecords := recordPurse.pay (recordsTaken orgId amount time db.expiresRecords)
        db.expiresRecords } := by
  unfold deductFromExpiresRecords
  split
  · next hzero =>
    rw [recordsTaken, pay_zero fun _ _ => taken_of_nonpos hzero _ _]
  · dsimp only
    have hrows := spendableRecords_perm orgId time db.expiresRecords
    rw [drain_eq _ _ _ hamount (balance_selection hrows)
      (fun record hrec => ((mem_selection hrows).mp hrec).1)
      (nodup_selection hids hrows) hids]
    rfl

/-- The grants of a member that have not expired. -/
def unexpiredGrants (orgId userId : String) (time : Time) (grants : List UsagePackCreditGrant) :
    List UsagePackCreditGrant :=
  grants.filter fun grant =>
    decide (grant.orgId = orgId) && decide (grant.userId = userId) &&
      decide (time < grant.expiresAt)

theorem spendableGrants_perm (time : Time) (grants) :
    List.Perm (spendableGrants orgId userId time grants)
      ((unexpiredGrants orgId userId time grants).filter
      fun grant => 0 < grantPurse.balance grant) := by
  refine (perm_insertionSort _ _).trans (List.Perm.of_eq ?_)
  rw [unexpiredGrants, filter_filter]
  refine filter_congr fun grant _ => ?_
  rw [Bool.and_right_comm, Bool.and_comm]
  rfl

variable {orgId} {charges : List (String × ℤ)} {userId}

theorem mem_unexpiredGrants : grant ∈ unexpiredGrants orgId userId time grants ↔
      grant ∈ grants ∧ grant.orgId = orgId ∧ grant.userId = userId ∧ time < grant.expiresAt := by
  simp [unexpiredGrants, and_assoc]

theorem mem_spendableGrants : grant ∈ spendableGrants orgId userId time grants ↔
      grant ∈ unexpiredGrants orgId userId time grants ∧ 0 < grant.remainingAmount := by
  rw [(spendableGrants_perm orgId userId time grants).mem_iff, mem_filter, decide_eq_true_eq]
  rfl

/-- What a charge takes from the grants of a member. -/
def memberTaken (orgId : String) (time : Time) (grants : List UsagePackCreditGrant)
    (charge : String × ℤ) : Uuid → ℤ :=
  grantPurse.taken charge.2 (spendableGrants orgId charge.1 time grants)

variable (hids : (grants.map UsagePackCreditGrant.id).Nodup)

include hids

/-- `deductFromUsagePackCredits`, without its loop. -/
theorem deductFromUsagePackCredits_eq {charge} (hcharge : 0 ≤ charge.2) :
    deductFromUsagePackCredits orgId charge.1 charge.2 time grants =
      (charge.2 - min charge.2 (grantPurse.total (spendableGrants orgId charge.1 time grants)),
        grantPurse.pay (memberTaken orgId time grants charge) grants) := by
  unfold deductFromUsagePackCredits
  have hrows := spendableGrants_perm orgId charge.1 time grants
  have hbal := balance_selection hrows
  split
  · next hzero =>
    have hnone : ∀ grant ∈ grants, memberTaken orgId time grants charge (grantPurse.id grant) = 0 :=
      fun _ _ => taken_of_nonpos hzero _ _
    have htotal : 0 ≤ grantPurse.total (spendableGrants orgId charge.1 time grants) :=
      sum_nonneg (by simpa using hbal)
    rw [pay_zero hnone, le_antisymm hzero hcharge, min_eq_left htotal, sub_zero]
  · exact drain_eq _ _ _ hcharge hbal
      (fun grant hgrant => ((mem_selection hrows).mp hgrant).1)
      (nodup_selection hids hrows) hids

omit hids in
/-- What a member can spend does not change when others pay. -/
theorem spendableGrants_pay {t} (ht : ∀ grant ∈ grants, grant.userId = userId → t grant.id = 0) :
    spendableGrants orgId userId time (grantPurse.pay t grants) = spendableGrants orgId userId time
      grants := by
  unfold spendableGrants
  rw [filter_pay]
  intro grant hgrant
  by_cases huser : grant.userId = userId
  · exact .inl (ht grant hgrant huser)
  · simp [huser, grantPurse]

/-- What all the charges together take from the grants. -/
def membersTaken (orgId : String) (time : Time) (grants : List UsagePackCreditGrant)
    (charges : List (String × ℤ)) (i : Uuid) : ℤ :=
  (charges.map fun charge => memberTaken orgId time grants charge i).sum

/-- A grant of a member who is not charged keeps its amount. -/
theorem membersTaken_eq_zero (hgrant : grant ∈ grants)
    (hout : ∀ charge ∈ charges, grant ∉ spendableGrants orgId charge.1 time grants) :
    membersTaken orgId time grants charges grant.id = 0 := by
  refine sum_eq_zero (forall_mem_map.mpr fun charge hcharge => ?_)
  exact taken_of_not_selected hids (spendableGrants_perm orgId charge.1 time grants) charge.2 hgrant
    (hout charge hcharge)

/-- The loop of `settleMemberGrants` over distinct members. -/
theorem settleLoop_eq (orgId) (time : Time) (rest) :
    ∀ (done : List (String × ℤ)) (sharedCredits : ℤ),
      ((done ++ rest).map Prod.fst).Nodup → (∀ charge ∈ rest, 0 ≤ charge.2) →
      rest.foldl (settleMember orgId time)
        (sharedCredits, grantPurse.pay (membersTaken orgId time grants done) grants) =
      (sharedCredits + (rest.map fun charge => charge.2 -
          min charge.2 (grantPurse.total (spendableGrants orgId charge.1 time grants))).sum,
        grantPurse.pay (membersTaken orgId time grants (done ++ rest)) grants) := by
  induction rest with
  | nil =>
    simp
  | cons charge rest ih =>
    intro done sharedCredits hnodup hcharg
    -- the grants of this member are untouched so far
    have hsame : spendableGrants orgId charge.1 time
        (grantPurse.pay (membersTaken orgId time grants done) grants) =
          spendableGrants orgId charge.1 time grants := by
      refine spendableGrants_pay fun grant hgrant huser => membersTaken_eq_zero hids hgrant ?_
      intro other hother hspend
      have hname : other.1 = charge.1 :=
        (mem_unexpiredGrants.mp (mem_spendableGrants.mp hspend).1).2.2.1.symm.trans huser
      rw [map_append, map_cons] at hnodup
      exact disjoint_of_nodup_append hnodup (mem_map_of_mem hother)
        (hname ▸ mem_cons_self)
    have hpaid : ((grantPurse.pay (membersTaken orgId time grants done) grants).map
      UsagePackCreditGrant.id).Nodup := by
      rw [show UsagePackCreditGrant.id = grantPurse.id from rfl, map_id_pay]
      exact hids
    have hmerge : grantPurse.pay (memberTaken orgId time
        (grantPurse.pay (membersTaken orgId time grants done) grants) charge)
          (grantPurse.pay (membersTaken orgId time grants done) grants) =
        grantPurse.pay (membersTaken orgId time grants (done ++ [charge])) grants := by
      rw [pay_pay]
      congr 1
      funext i
      simp [membersTaken, memberTaken, hsame]
    rw [foldl_cons, settleMember]
    rw [deductFromUsagePackCredits_eq hpaid (hcharg charge mem_cons_self), hsame, hmerge,
      ih _ _ (by rwa [← append_cons]) (forall_mem_cons.mp hcharg).2,
      ← append_cons, map_cons, sum_cons, add_assoc]

/-- **Each member pays with their own grants**, in whatever order the members come. -/
theorem settleMemberGrants_eq (localeCompare : String → String → ℤ)
    (hnodup : (charges.map Prod.fst).Nodup)
    (hcharg : ∀ charge ∈ charges, 0 ≤ charge.2) :
      settleMemberGrants localeCompare orgId charges time grants =
      ((charges.map fun charge => charge.2 -
          min charge.2 (grantPurse.total (spendableGrants orgId charge.1 time grants))).sum,
        grantPurse.pay (membersTaken orgId time grants charges) grants) := by
  have hperm := perm_insertionSort (fun left right : String × ℤ =>
    localeCompare left.1 right.1 ≤ 0) charges
  have hstart : grantPurse.pay (membersTaken orgId time grants []) grants = grants :=
    pay_zero fun _ _ => rfl
  have hloop := settleLoop_eq hids orgId time
    (charges.insertionSort fun left right => localeCompare left.1 right.1 ≤ 0) [] 0
    ((hperm.map Prod.fst).nodup_iff.mpr hnodup) fun c hc => hcharg c (hperm.mem_iff.mp hc)
  rw [hstart, zero_add, nil_append] at hloop
  unfold settleMemberGrants
  rw [hloop, (hperm.map _).sum_eq]
  congr 1
  exact congrArg (grantPurse.pay · grants) (funext fun i => (hperm.map _).sum_eq)

end Okou.Billing
