import Okou.Billing.Conservation

/-!
# Histories of expiring credits

Expiring credits are granted, spent by settlements and taken back when they expire.
Expiry is written three times in the source: in the settlement, in the Stripe
webhook and in the cron job.  All three take what has expired from the balance and
do not let the balance fall below zero; a balance that is below zero already is
raised to zero by this.
-/

namespace Okou.Billing

open List

/-! ### The three copies -/

/-- Where an expiry run is made. -/
inductive ExpiryVariant
  | settlement
  | webhook
  | cron
  deriving DecidableEq, Repr

variable (variant : ExpiryVariant) (env : BillingEnv) (orgId : String) (time : Time) (amount : ℤ)
  (expiresAt : Time)

variable (db : BillingDb)

/-- `expireCredits` of the Stripe webhook; it returns the credits. -/
def webhookExpireCredits : BillingDb × ℤ :=
  let expired := expiredRecords orgId time db
  if expired.length = 0 then (db, 0)
  else
    let totalExpired := expired.foldl (fun sum record => sum + record.remaining) 0
    let db := { db with
      expiresRecords := expired.foldl (fun records record =>
        recordPurse.setById record.id 0 records)
        db.expiresRecords }
    let db := if 0 < totalExpired then clampOrgCredits orgId totalExpired db else db
    (db, totalExpired)

/-- `expireOrgCredits` of the cron job. -/
def expireOrgCredits : BillingDb × ℤ :=
  let expired := expiredRecords orgId time db
  let totalExpired := expired.foldl (fun sum record => sum + record.remaining) 0
  if totalExpired ≤ 0 then (db, 0)
  else
    let db := { db with
      expiresRecords := expired.foldl (fun records record =>
        recordPurse.setById record.id 0 records)
        db.expiresRecords }
    (clampOrgCredits orgId totalExpired db, totalExpired)

/-- An expiry run; the tables after it, and the credits that expired. -/
def expiryRun : ExpiryVariant → String → Time → BillingDb → BillingDb × ℤ
  | .settlement, orgId, time, db =>
    let (db, credits, _) := expireCredits orgId time db
    (db, credits)
  | .webhook, orgId, time, db => webhookExpireCredits orgId time db
  | .cron, orgId, time, db => expireOrgCredits orgId time db

/-- **The three copies do the same.** -/
theorem expiryRun_eq {orgId} {time} {db}
    (hids : (db.expiresRecords.map CreditExpiresRecord.id).Nodup) :
      expiryRun variant orgId time db =
      (expired orgId time db, recordPurse.total (expiredRecords orgId time db)) := by
  cases variant with
  | settlement =>
    rw [expiryRun, expireCredits_eq hids]
  | webhook =>
    unfold expiryRun webhookExpireCredits expired
    by_cases hempty : expiredRecords orgId time db = []
    · simp [hempty, Purse.total]
    · have hlength : ¬(expiredRecords orgId time db).length = 0 := by simpa using hempty
      simp [hempty, foldl_remaining, empty_expiredRecords hids, total_expiredRecords_pos hempty]
  | cron =>
    unfold expiryRun expireOrgCredits expired
    by_cases hempty : expiredRecords orgId time db = []
    · simp [hempty, Purse.total]
    · have hpos := total_expiredRecords_pos hempty
      simp [hempty, foldl_remaining, empty_expiredRecords hids, not_le.mpr hpos]

/-! ### Grants -/

/-- `grantOrgCredits`: the row is created where it is missing. -/
def grantOrgCredits : BillingDb :=
  { db with orgMetadata := dictModify orgId 0 (fun credits => credits + amount) db.orgMetadata }

/-- `createExpiresRecord`, for an invoice that has no record yet; for another its caller
grants nothing. -/
def createExpiresRecord (db : BillingDb) : BillingDb :=
  { db with expiresRecords := db.expiresRecords ++
      [⟨env.newId (db.expiresRecords.map CreditExpiresRecord.id), orgId, amount, expiresAt⟩] }

/-- A grant of expiring credits, as the webhook handlers make it. -/
def grantExpiringCredits (db : BillingDb) : BillingDb :=
  grantOrgCredits orgId amount (createExpiresRecord env orgId amount expiresAt db)

/-! ### Histories -/

/-- What can happen to the credits of an organization. -/
inductive CreditStep
  | grant (orgId : String) (amount : ℤ) (expiresAt : Time)
  | settle (orgId : String) (amount : ℤ) (time : Time)
  | expire (variant : ExpiryVariant) (orgId : String) (time : Time)
  deriving DecidableEq, Repr

/-- One step; a settlement charges what the grants of the members could not pay. -/
def CreditStep.apply : CreditStep → BillingDb → BillingDb
  | .grant orgId amount expiresAt, db => grantExpiringCredits env orgId amount expiresAt db
  | .settle orgId amount time, db => (chargeShared orgId amount time db).1
  | .expire variant orgId time, db => (expiryRun variant orgId time db).1

/-- An expiry run, with the tables before and after it. -/
structure ExpiryRun where
  variant : ExpiryVariant
  orgId : String
  time : Time
  before : BillingDb

variable (run : ExpiryRun)

/-- The tables after an expiry run. -/
def ExpiryRun.after : BillingDb :=
  (expiryRun run.variant run.orgId run.time run.before).1

/-- The expiry run a step makes; a settlement makes one before it deducts. -/
def CreditStep.expiry : CreditStep → BillingDb → Option ExpiryRun
  | .grant _ _ _, _ => none
  | .settle orgId amount time, db => if 0 < amount then some ⟨.settlement, orgId, time, db⟩
    else none
  | .expire variant orgId time, db => some ⟨variant, orgId, time, db⟩

/-- The expiry runs of a history. -/
def expiryRuns (env : BillingEnv) : List CreditStep → BillingDb → List ExpiryRun
  | [], _ => []
  | step :: steps, db => (step.expiry db).toList ++ expiryRuns env steps (step.apply env db)

/-- Where a history starts: balances are zero, and nothing expires. -/
structure Unused (db : BillingDb) : Prop where
  credits : ∀ orgId, getOrgCredits orgId db = 0
  records : db.expiresRecords = []

/-- The run does not raise the balance, and lowers it by the expired remainders at most. -/
def ExpiryRun.Lowers : Prop :=
  getOrgCredits run.orgId run.after ≤ getOrgCredits run.orgId run.before ∧
    getOrgCredits run.orgId run.before ≤ getOrgCredits run.orgId run.after +
      recordPurse.total (expiredRecords run.orgId run.time run.before)

instance (run : ExpiryRun) : Decidable run.Lowers := inferInstanceAs (Decidable (_ ∧ _))

/-- The organization owes nothing when the run is made, or nothing has expired. -/
def ExpiryRun.Solvent : Prop :=
  0 ≤ getOrgCredits run.orgId run.before ∨ expiredRecords run.orgId run.time run.before = []

/-! ### One run -/

/-- The primary keys of the expiring records are distinct. -/
def RecordIds : Prop := (db.expiresRecords.map CreditExpiresRecord.id).Nodup

/-- The balance after a run. -/
theorem ExpiryRun.getOrgCredits_after {run : ExpiryRun} (hids : RecordIds run.before) :
    getOrgCredits run.orgId run.after = if expiredRecords run.orgId run.time run.before ≠ [] ∧
          (dictGet run.orgId run.before.orgMetadata).isSome then
        max (getOrgCredits run.orgId run.before - recordPurse.total
          (expiredRecords run.orgId run.time run.before)) 0
      else getOrgCredits run.orgId run.before := by
  rw [ExpiryRun.after, expiryRun_eq _ hids, getOrgCredits_expired]
  simp

/-- A run lowers the balance unless it meets a debt. -/
theorem ExpiryRun.lowers_iff {run : ExpiryRun} (hids : RecordIds run.before) : run.Lowers ↔
    run.Solvent := by
  have htotal : 0 ≤ recordPurse.total (expiredRecords run.orgId run.time run.before) := by
    by_cases hempty : expiredRecords run.orgId run.time run.before = []
    · rw [hempty]
      exact le_rfl
    · exact (total_expiredRecords_pos hempty).le
  unfold Lowers Solvent
  rw [getOrgCredits_after hids]
  split
  · next hcond =>
    rw [max_le_iff]
    constructor
    · rintro ⟨⟨_, hnonn⟩, _⟩
      exact .inl hnonn
    · rintro (hnonn | hempty)
      · have hle := le_max_left (getOrgCredits run.orgId run.before -
          recordPurse.total (expiredRecords run.orgId run.time run.before)) 0
        omega
      · exact absurd hempty hcond.1
  · next hcond =>
    refine iff_of_true ⟨le_rfl, by omega⟩ ?_
    by_cases hempty : expiredRecords run.orgId run.time run.before = []
    · exact .inr hempty
    · -- an organization without a row owes nothing
      have hnone : (dictGet run.orgId run.before.orgMetadata).isSome = false :=
        Bool.eq_false_iff.mpr fun hsome => hcond ⟨hempty, hsome⟩
      rw [Option.isSome_eq_false_iff, Option.isNone_iff_eq_none] at hnone
      left
      rw [getOrgCredits, hnone]
      exact le_rfl

/-! ### Whole histories -/

theorem RecordIds.expired {db} (h : RecordIds db) (orgId) (time : Time) :
    RecordIds (expired orgId time db) := by
  unfold RecordIds
  rw [expired_expiresRecords, map_id_expireRecord]
  exact h

open CreditStep

/-- The keys stay distinct. -/
theorem CreditStep.recordIds_apply (step : CreditStep) {db}
    (h : RecordIds db) : RecordIds (step.apply env db) := by
  cases step with
  | grant orgId amount expiresAt =>
    show (List.map CreditExpiresRecord.id (db.expiresRecords ++ [_])).Nodup
    rw [map_append, map_singleton, nodup_append_comm, singleton_append, nodup_cons]
    exact ⟨env.newId_fresh _, h⟩
  | settle orgId amount time =>
    by_cases hamount : 0 < amount
    · rw [apply, chargeShared_eq hamount h]
      show (List.map recordPurse.id (recordPurse.pay _ _)).Nodup
      rw [Purse.map_id_pay]
      exact h.expired orgId time
    · rw [apply, chargeShared, if_neg hamount]
      exact h
  | expire variant orgId time =>
    rw [apply, expiryRun_eq variant h]
    exact h.expired orgId time

theorem CreditStep.before_of_expiry {step : CreditStep} {db : BillingDb} {run : ExpiryRun}
    (h : step.expiry db = some run) : run.before = db := by
  cases step with
  | grant => cases h
  | settle orgId amount time =>
    rw [expiry] at h
    split at h
    · cases h
      rfl
    · cases h
  | expire => cases h; rfl

/-- A fact that every step keeps holds whenever an expiry run is made. -/
theorem expiryRuns_before {P : BillingDb → Prop} (steps) :
    ∀ db : BillingDb, P db → (∀ step ∈ steps, ∀ db, P db → P (step.apply env db)) →
      ∀ run ∈ expiryRuns env steps db, P run.before := by
  induction steps with
  | nil => exact fun _ _ _ run hrun => absurd hrun not_mem_nil
  | cons step steps ih =>
    intro db hdb hstep run hrun
    rcases mem_append.mp hrun with hnow | hlater
    · rw [before_of_expiry (Option.mem_toList.mp hnow)]
      exact hdb
    · exact ih _ (hstep step mem_cons_self db hdb)
        (forall_mem_cons.mp hstep).2 run hlater

/-- **Expiry never raises a balance in a history exactly if each of its expiry runs finds
the organization without a debt, or nothing to expire.** -/
theorem expiry_lowers_iff (env : BillingEnv) (steps : List CreditStep) (db : BillingDb)
    (h : Unused db) :
    (∀ run ∈ expiryRuns env steps db, run.Lowers) ↔ ∀ run ∈ expiryRuns env steps db,
      run.Solvent := by
  have hstart : RecordIds db := by
    unfold RecordIds
    rw [h.records]
    exact nodup_nil
  have hids := expiryRuns_before env steps db hstart fun step _ db hdb =>
    step.recordIds_apply env hdb
  exact forall₂_congr fun run hrun => ExpiryRun.lowers_iff (hids run hrun)

/-- The tables before anything has happened. -/
def unusedDb : BillingDb := ⟨[], [], [], [], [], ⟨[], [], [], []⟩⟩

/-- A history with a debt that is paid off before credits expire. -/
def paidOffHistory : List CreditStep :=
  [.grant "org" 100 50, .settle "org" 150 10, .grant "org" 80 60, .expire .cron "org" 70]

theorem expiry_lowers_iff_paidOff : Unused unusedDb ∧
    ((∀ run ∈ expiryRuns (quietEnv 0) paidOffHistory unusedDb, run.Lowers) ↔
      ∀ run ∈ expiryRuns (quietEnv 0) paidOffHistory unusedDb, run.Solvent) :=
  have hstart : Unused unusedDb := ⟨fun _ => rfl, rfl⟩
  ⟨hstart, expiry_lowers_iff (quietEnv 0) paidOffHistory unusedDb hstart⟩

/-- 150 credits are used where 100 were granted, and 30 more are granted: 20 are owed when
the 30 expire. -/
def debtHistory : List CreditStep :=
  [.grant "org" 100 50, .settle "org" 150 10, .grant "org" 30 60, .expire variant "org" 70]

/-- **Expiry forgives the debt**, in each of the three copies. -/
theorem expiry_forgives_debt : Unused unusedDb ∧ ∀ variant : ExpiryVariant,
    (expiryRuns (quietEnv 0) (debtHistory variant) unusedDb).map (fun run =>
        (getOrgCredits run.orgId run.before, getOrgCredits run.orgId run.after)) = [(100, 100),
          (-20, 0)] ∧
      ¬∀ run ∈ expiryRuns (quietEnv 0) (debtHistory variant) unusedDb, run.Lowers := by
  refine ⟨⟨fun _ => rfl, rfl⟩, fun variant => ?_⟩
  cases variant <;> decide +kernel

end Okou.Billing
