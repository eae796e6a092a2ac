import Okou.Nbd.Pool

/-!
# What the functions of the pool may change

`DevicePool` knows nothing of the actor's bookkeeping of its scan workers.  Its
functions answer acquires, hand out claims and forget deferred news; they leave
workers, cohorts and cursors alone, and refuse an acquire with `NoFreeDevice`
only while a scan's exhaustion is deferred or the pool is shut down.
-/

namespace Okou.Nbd

open List PoolObs

/-! ### Records of a run -/

/-- The cohort a record is about. -/
def PoolObs.cohort : PoolObs → Option ℕ
  | .spawned c => some c
  | .joined c _ => some c
  | _ => none

/-- An acquire answered `NoFreeDevice` by an active pool. -/
def PoolObs.isRefusal (o : PoolObs) : Prop := ∃ acquire, o = .answered acquire .noFreeDevice true

/-- The joins of a cohort. -/
def PoolObs.isJoinOf (c : ℕ) : PoolObs → Bool
  | .joined c' _ => decide (c' = c)
  | _ => false

/-- A cohort whose workers have all joined, one of them having exhausted the
cursor and none having faulted. -/
structure CleanlyExhausted (log : List PoolObs) (c : ℕ) : Prop where
  exhausted : .joined c (.failed .noFreeDevice) ∈ log
  clean : ∀ r, .joined c r ∈ log → r.isFault = false
  complete : log.count (.spawned c) = log.countP (PoolObs.isJoinOf c)

/-- Every refusal comes after a cleanly exhausted cohort; the log has the latest
record first. -/
def JustifiedLog : List PoolObs → Prop
  | [] => True
  | o :: log => JustifiedLog log ∧ (o.isRefusal → ∃ c, CleanlyExhausted log c)

/-- The cursor of a cohort has been used up. -/
def CursorExhausted (scans : List SharedScan) (c : ℕ) : Prop :=
  ∃ scan, scans[c]? = some scan ∧ scan.maxDevices ≤ scan.nextOffset

variable {o : PoolObs} {c : ℕ}

theorem count_spawned_of_cohort (h : o.cohort ≠ some c) (log) :
    (o :: log).count (.spawned c) = log.count (.spawned c) := by
  refine count_cons_of_ne ?_
  rintro rfl
  exact h rfl

theorem countP_joined_of_cohort (h : o.cohort ≠ some c) (log) :
    (o :: log).countP (isJoinOf c) = log.countP (isJoinOf c) := by
  cases o <;> simp_all [isJoinOf, cohort]

/-- A record about something else does not touch a cohort. -/
theorem CleanlyExhausted.cons {log} (h : CleanlyExhausted log c)
    (ho : o.cohort ≠ some c) : CleanlyExhausted (o :: log) c where
  exhausted := mem_cons_of_mem _ h.exhausted
  clean r hr := by
    rcases mem_cons.mp hr with rfl | hr
    · exact absurd rfl ho
    · exact h.clean r hr
  complete := by
    rw [count_spawned_of_cohort ho, countP_joined_of_cohort ho]
    exact h.complete

namespace World

/-! ### What the pool may change -/

/-- What a function of `DevicePool` may change, as far as the actor's bookkeeping
goes: it may forget deferred news, and it records things about acquires and
claims, refusals only while exhaustion is deferred. -/
structure PoolMove (w w' : World) : Prop where
  pending_eq : w'.pending = w.pending
  activeScan_eq : w'.activeScan = w.activeScan
  scanExhausted_eq : w'.scanExhausted = w.scanExhausted
  scanFaulted_eq : w'.scanFaulted = w.scanFaulted
  scans_eq : w'.scans = w.scans
  errors_sub : w'.deferredAcquireErrors ⊆ w.deferredAcquireErrors
  exhaustion_imp : w'.deferredScanExhaustion = true → w.deferredScanExhaustion = true
  log_ext : ∃ new, w'.log = new ++ w.log ∧ ∀ o ∈ new, o.cohort = none ∧
    (o.isRefusal → w.deferredScanExhaustion = true)

/-- The actor's bookkeeping, which the pool does not know. -/
def bookkeeping (w : World) := (w.pending, w.activeScan, w.scanExhausted, w.scanFaulted, w.scans)

variable {w w' : World}

section

variable (hbook : w'.bookkeeping = w.bookkeeping)
  (herr : w'.deferredAcquireErrors ⊆ w.deferredAcquireErrors)
  (hdef : w'.deferredScanExhaustion → w.deferredScanExhaustion)

include hbook herr hdef

theorem PoolMove.of_bookkeeping {new} (hlog : w'.log = new ++ w.log)
    (hnew : ∀ o ∈ new, o.cohort = none ∧ (o.isRefusal → w.deferredScanExhaustion)) :
      PoolMove w w' := by
  simp only [bookkeeping, Prod.mk.injEq] at hbook
  obtain ⟨hpend, hactive, hexhausted, hfault, hscans⟩ := hbook
  exact ⟨hpend, hactive, hexhausted, hfault, hscans, herr, hdef, new, hlog, hnew⟩

/-- A move that records nothing. -/
theorem PoolMove.silent (hlog : w'.log = w.log) : PoolMove w w' :=
  @PoolMove.of_bookkeeping _ _ hbook herr hdef [] hlog (forall_mem_nil _)

end

/-- A move that touches nothing of this. -/
theorem PoolMove.idle (hbook : w'.bookkeeping = w.bookkeeping)
    (hrest : (w'.deferredAcquireErrors, w'.deferredScanExhaustion, w'.log) =
      (w.deferredAcquireErrors, w.deferredScanExhaustion, w.log)) : PoolMove w w' := by
  simp only [Prod.mk.injEq] at hrest
  exact .silent hbook (hrest.1 ▸ List.Subset.refl _) (fun h => hrest.2.1 ▸ h) hrest.2.2

variable (index : ℕ) (source : DeviceAcquireSource) (error : NbdCowError) (w : World)
  (acquires : List ℕ)

theorem PoolMove.refl : PoolMove w w :=
  .idle rfl rfl

variable {w₁ w₂ w₃ : World}

theorem PoolMove.trans (h₁ : PoolMove w₁ w₂) (h₂ : PoolMove w₂ w₃) : PoolMove w₁ w₃ where
  pending_eq := h₂.pending_eq.trans h₁.pending_eq
  activeScan_eq := h₂.activeScan_eq.trans h₁.activeScan_eq
  scanExhausted_eq := h₂.scanExhausted_eq.trans h₁.scanExhausted_eq
  scanFaulted_eq := h₂.scanFaulted_eq.trans h₁.scanFaulted_eq
  scans_eq := h₂.scans_eq.trans h₁.scans_eq
  errors_sub := List.Subset.trans h₂.errors_sub h₁.errors_sub
  exhaustion_imp h := h₁.exhaustion_imp (h₂.exhaustion_imp h)
  log_ext := by
    obtain ⟨new₁, hlog₁, hnew₁⟩ := h₁.log_ext
    obtain ⟨new₂, hlog₂, hnew₂⟩ := h₂.log_ext
    refine ⟨new₂ ++ new₁, by rw [hlog₂, hlog₁, append_assoc], fun o ho => ?_⟩
    rcases mem_append.mp ho with ho | ho
    · exact ⟨(hnew₂ o ho).1, fun hr => h₁.exhaustion_imp ((hnew₂ o ho).2 hr)⟩
    · exact hnew₁ o ho

/-- A move that adds one record. -/
theorem PoolMove.record {w} (hbook : w'.bookkeeping = w.bookkeeping)
    (herr : w'.deferredAcquireErrors = w.deferredAcquireErrors)
    (hdef : w'.deferredScanExhaustion = w.deferredScanExhaustion) (hlog : w'.log = o :: w.log)
    (hcoh : o.cohort = none) (href : o.isRefusal → w.deferredScanExhaustion) : PoolMove w w' :=
  @PoolMove.of_bookkeeping _ _ hbook (herr ▸ List.Subset.refl _) (fun h => hdef ▸ h) [o] hlog
    (forall_mem_singleton.mpr ⟨hcoh, href⟩)

theorem assignLoop_move (w : World) : PoolMove w (assignLoop index source acquires w) := by
  induction acquires with
  | nil => exact .idle rfl rfl
  | cons respondTo rest ih =>
    rw [assignLoop]
    split
    · refine PoolMove.record rfl rfl rfl rfl rfl ?_
      rintro ⟨_, h⟩
      simp at h
    · exact ih

theorem answerError_move {w} {respondTo} {error}
    (h : error = .noFreeDevice → w.active → w.deferredScanExhaustion) :
    PoolMove w (w.answerError respondTo error) := by
  refine PoolMove.record rfl rfl rfl rfl rfl ?_
  rintro ⟨a, ha⟩
  simp only [answered.injEq] at ha
  exact h ha.2.1 ha.2.2

theorem failOneLoop_move {error} (he : error ≠ .noFreeDevice) (acquires : List ℕ) (w : World) :
    PoolMove w (failOneLoop error acquires w) := by
  induction acquires generalizing w with
  | nil => exact .idle rfl rfl
  | cons respondTo rest ih =>
    have hansw : PoolMove w (w.answerError respondTo error) :=
      answerError_move fun h => absurd h he
    rw [failOneLoop]
    split
    · exact hansw.trans (.idle rfl rfl)
    · exact hansw.trans (ih _)

/-- Refusing everybody is a move when exhaustion is deferred or the pool is down. -/
theorem failAllWaiters_move {w} (h : w.active → w.deferredScanExhaustion) :
    PoolMove w w.failAllWaiters := by
  have hloop := foldlRecOn (motive := fun v => PoolMove w v ∧ v.active = w.active ∧
      v.deferredScanExhaustion = w.deferredScanExhaustion) w.waitingAcquires
    (fun w respondTo => w.answerError respondTo .noFreeDevice) ⟨.refl w, rfl,
      rfl⟩ fun v hv respondTo _ => by
      obtain ⟨hmove, hactive, hdef⟩ := hv
      refine ⟨hmove.trans (answerError_move fun _ hv => ?_), hactive, hdef⟩
      rw [hdef]
      exact h (hactive.symm.trans hv)
  exact hloop.1.trans (.idle rfl rfl)

/-- What the functions that answer acquires leave alone. -/
structure SameSlots (w w' : World) : Prop where
  cooldown_eq : w'.cooldown = w.cooldown
  active_eq : w'.active = w.active
  errors_eq : w'.deferredAcquireErrors = w.deferredAcquireErrors
  exhaustion_eq : w'.deferredScanExhaustion = w.deferredScanExhaustion

theorem SameSlots.trans (h₁ : SameSlots w₁ w₂) (h₂ : SameSlots w₂ w₃) : SameSlots w₁ w₃ :=
  ⟨h₂.cooldown_eq.trans h₁.cooldown_eq, h₂.active_eq.trans h₁.active_eq,
    h₂.errors_eq.trans h₁.errors_eq, h₂.exhaustion_eq.trans h₁.exhaustion_eq⟩

theorem answerError_slots (respondTo : ℕ) (error) :
    SameSlots w (w.answerError respondTo error) := ⟨rfl, rfl, rfl, rfl⟩

theorem assignLoop_slots (w : World) : SameSlots w (assignLoop index source acquires w) := by
  induction acquires with
  | nil => exact ⟨rfl, rfl, rfl, rfl⟩
  | cons respondTo rest ih =>
    rw [assignLoop]
    split
    · exact ⟨rfl, rfl, rfl, rfl⟩
    · exact ih

theorem failOneLoop_slots : SameSlots w (failOneLoop error acquires w) := by
  induction acquires generalizing w with
  | nil => exact ⟨rfl, rfl, rfl, rfl⟩
  | cons respondTo rest ih =>
    rw [failOneLoop]
    split
    · exact ⟨rfl, rfl, rfl, rfl⟩
    · exact (answerError_slots w respondTo error).trans (ih _)

theorem failAllWaiters_slots : SameSlots w w.failAllWaiters := by
  have hloop := foldlRecOn (motive := SameSlots w) w.waitingAcquires
    (fun w respondTo => w.answerError respondTo .noFreeDevice) ⟨rfl, rfl, rfl, rfl⟩
    fun v hv respondTo _ => hv.trans (answerError_slots v respondTo _)
  exact hloop.trans ⟨rfl, rfl, rfl, rfl⟩

/-- Failing the deferred errors one by one: the errors or the acquires run out. -/
theorem failDeferredLoop_spec (errors) (w : World)
    (hne : ∀ e ∈ errors, e ≠ .noFreeDevice) (hsub : errors ⊆ w.deferredAcquireErrors) :
    PoolMove w (failDeferredLoop errors w) ∧ (failDeferredLoop errors w).active = w.active ∧
      ((failDeferredLoop errors w).deferredAcquireErrors = [] ∨
        (failDeferredLoop errors w).waitingAcquires = []) := by
  induction errors generalizing w with
  | nil => exact ⟨.silent rfl (nil_subset _) id rfl, rfl, .inl rfl⟩
  | cons error errors ih =>
    rw [failDeferredLoop]
    split
    · next hempty => exact ⟨.silent rfl hsub id rfl, rfl, .inr hempty⟩
    · have hslots := failOneLoop_slots error w w.waitingAcquires
      have hmove := failOneLoop_move (hne error mem_cons_self) w.waitingAcquires w
      obtain ⟨hmove', hactive, hout⟩ := ih (w.failOneWaiter error)
        (forall_mem_cons.mp hne).2
        (by
          rw [failOneWaiter, hslots.errors_eq]
          exact fun e he => hsub (mem_cons_of_mem _ he))
      exact ⟨hmove.trans hmove', hactive.trans hslots.active_eq, hout⟩

theorem failDeferredAcquireErrors_spec {w} (hne : ∀ e ∈ w.deferredAcquireErrors,
    e ≠ .noFreeDevice) :
    PoolMove w w.failDeferredAcquireErrors ∧ w.failDeferredAcquireErrors.active = w.active ∧
      w.failDeferredAcquireErrors.deferredAcquireErrors = [] := by
  obtain ⟨hmove, hactive, hout⟩ :=
    failDeferredLoop_spec w.deferredAcquireErrors w hne (List.Subset.refl _)
  unfold failDeferredAcquireErrors
  dsimp only
  split
  · exact ⟨hmove.trans (.silent rfl (nil_subset _) id rfl), hactive, rfl⟩
  · next hwait => exact ⟨hmove, hactive, hout.resolve_right hwait⟩

/-! ### Cooldown -/

section Cooldown

variable (oracle : PoolOracle)

theorem readings_move (w : World) : PoolMove w { w with readings := w.readings + 1 } :=
  .idle rfl rfl

theorem handleExpiredCooldown_move (w : World) (slot) :
    PoolMove w (handleExpiredCooldown oracle w slot) ∧
      SameSlots w (handleExpiredCooldown oracle w slot) := by
  unfold handleExpiredCooldown
  split
  · exact ⟨.refl w, rfl, rfl, rfl, rfl⟩
  · dsimp only
    have hslots : SameSlots w { w with readings := w.readings + 1 } := ⟨rfl, rfl, rfl, rfl⟩
    split
    · exact ⟨(readings_move w).trans (assignLoop_move _ _ _ _),
        hslots.trans (assignLoop_slots _ _ _ _)⟩
    · exact ⟨readings_move w, hslots⟩

theorem expireLoop_move (now : ℕ) (slots) (w : World) :
    PoolMove w (expireLoop oracle now slots w) ∧ (expireLoop oracle now slots w).active = w.active ∧
      (expireLoop oracle now slots w).deferredAcquireErrors = w.deferredAcquireErrors ∧
      (expireLoop oracle now slots w).deferredScanExhaustion = w.deferredScanExhaustion := by
  induction slots generalizing w with
  | nil => exact ⟨.idle rfl rfl, rfl, rfl, rfl⟩
  | cons slot slots ih =>
    have hstay : PoolMove w { w with cooldown := slot :: slots } := .idle rfl rfl
    rw [expireLoop]
    split
    · exact ⟨hstay, rfl, rfl, rfl⟩
    · split
      · exact ⟨hstay, rfl, rfl, rfl⟩
      · -- the slot expires; the loop goes on with the others
        have hpop : PoolMove w { w with cooldown := slots } := .idle rfl rfl
        obtain ⟨hmove, hslots⟩ := handleExpiredCooldown_move oracle
          { w with cooldown := slots } slot
        obtain ⟨hmove', hactive, herr, hexh⟩ := ih
          (handleExpiredCooldown oracle { w with cooldown := slots } slot)
        exact ⟨hpop.trans (hmove.trans hmove'), hactive.trans hslots.active_eq,
          herr.trans hslots.errors_eq, hexh.trans hslots.exhaustion_eq⟩

theorem processExpiredCooldown_move (w : World) : PoolMove w (processExpiredCooldown oracle w) ∧
      (processExpiredCooldown oracle w).active = w.active ∧
      (processExpiredCooldown oracle w).deferredAcquireErrors = w.deferredAcquireErrors ∧
      (processExpiredCooldown oracle w).deferredScanExhaustion = w.deferredScanExhaustion := by
  obtain ⟨hmove, hrest⟩ := expireLoop_move oracle (oracle.now w.readings) w.cooldown
    { w with readings := w.readings + 1 }
  exact ⟨(readings_move w).trans hmove, hrest⟩

end Cooldown

/-! ### The pool's half of progress -/

theorem clearDeferred_move (w : World) : PoolMove w w.clearDeferred :=
  .silent rfl (nil_subset _) (fun h => by simp [clearDeferred] at h) rfl

/-- **What `DevicePool::ensure_waiting_progress` achieves.**  With no scan pending,
whoever still waits does so for a cooldown slot, or nothing is deferred and a
scan may be started. -/
theorem poolEnsureWaitingProgress_spec (oracle) {w} (pendingScans : ℕ)
    (hne : ∀ e ∈ w.deferredAcquireErrors, e ≠ .noFreeDevice)
    (hexcl : w.deferredAcquireErrors ≠ [] → w.deferredScanExhaustion = false) :
    let w' := poolEnsureWaitingProgress oracle w pendingScans
    PoolMove w w' ∧ w'.active = w.active ∧ (w.active = false → w'.waitingAcquires = []) ∧
      (pendingScans = 0 → w'.waitingAcquires ≠ [] → w'.cooldownTimerPending ∨
        w'.deferredAcquireErrors = [] ∧ w'.deferredScanExhaustion = false) := by
  intro w'
  obtain ⟨hmove, hactive, herr, hexh⟩ := processExpiredCooldown_move oracle w
  cases hact : w.active with
  | false =>
    have hw' : w' = w.failAllWaiters := by
      simp [w', poolEnsureWaitingProgress, hact]
    rw [hw']
    refine ⟨failAllWaiters_move fun h => ?_, ?_, fun _ => rfl, fun _ h => absurd rfl h⟩
    · rw [hact] at h
      simp at h
    · rw [(failAllWaiters_slots w).active_eq, hact]
  | true =>
    have hw' : w' = poolEnsureWaitingProgress oracle w pendingScans := rfl
    simp only [poolEnsureWaitingProgress, hact, Bool.not_true, Bool.false_eq_true, if_false] at hw'
    generalize hv : processExpiredCooldown oracle w = v at *
    rw [hact] at hactive
    -- the world in which it is seen whether anybody waits
    obtain ⟨u, humove, huact, hu, hw⟩ : ∃ u : World, PoolMove w u ∧ u.active ∧
        (u.waitingAcquires ≠ [] → pendingScans = 0 → u.cooldownTimerPending ∨
          u.deferredAcquireErrors = [] ∧ u.deferredScanExhaustion = false) ∧
        w' = if u.waitingAcquires = [] then u.clearDeferred else u := by
      split at hw'
      · next hempty =>
        exact ⟨v, hmove, hactive, fun h => absurd hempty h, hw'.trans (if_pos hempty).symm⟩
      · next hwait =>
        split at hw'
        · next hidle =>
          split at hw'
          · obtain ⟨hfmove, hfact, hferr⟩ := failDeferredAcquireErrors_spec
              (w := v) (by rw [herr]; exact hne)
            refine ⟨_, hmove.trans hfmove, hfact.trans hactive, fun _ _ => .inr ⟨hferr, ?_⟩, hw'⟩
            -- errors and exhaustion are not deferred together
            have hfalse := hexcl (by rw [← herr]; assumption)
            rw [← hexh] at hfalse
            by_contra htrue
            rw [hfmove.exhaustion_imp (by simpa using htrue)] at hfalse
            simp at hfalse
          · next hnone =>
            have hnil : v.deferredAcquireErrors = [] := not_not.mp hnone
            split at hw'
            · next hexhausted =>
              exact ⟨_, hmove.trans (failAllWaiters_move fun _ => hexhausted),
                (failAllWaiters_slots v).active_eq.trans hactive, fun h => absurd rfl h, hw'⟩
            · next hexhausted =>
              exact ⟨v, hmove, hactive, fun _ _ => .inr ⟨hnil, by simpa using hexhausted⟩,
                hw'.trans (if_neg hwait).symm⟩
        · next hbusy =>
          refine ⟨v, hmove, hactive, fun _ hp => .inl ?_, hw'.trans (if_neg hwait).symm⟩
          by_contra hcool
          exact hbusy ⟨hp, by simpa using hcool⟩
    split at hw
    · rw [hw]
      exact ⟨humove.trans (clearDeferred_move u), huact, by simp, fun _ _ => .inr ⟨rfl, rfl⟩⟩
    · rw [hw]
      exact ⟨humove, huact, by simp, fun hp hwait => hu hwait hp⟩

end World
end Okou.Nbd
