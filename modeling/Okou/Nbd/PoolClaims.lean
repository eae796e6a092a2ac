import Okou.Nbd.PoolMoves

/-!
# No index is handed out twice

A live claim of an index is in exactly one place: a cooldown slot, an outstanding
lease, a return that is still queued, or a worker that has found it.  `in_flight`
is the pool's own record of the leases and the queued returns, and while the pool
is active it is exact.

A lease that is dropped without being returned puts a `RetireUncertain` in the
queue; until the actor has handled it, nothing else can happen to the index, so
the next thing that is recorded of the index is its cooldown.
-/

namespace Okou.Nbd

open List PoolObs

/-! ### Records about an index -/

/-- The records that say what became of the claim of an index. -/
def PoolObs.isClaimOf (i : ℕ) : PoolObs → Bool
  | .assigned index _ => index == i
  | .cooled index => index == i
  | .discarded index => index == i
  | .leaseDropped index => index == i
  | _ => false

/-- The latest thing recorded of an index. -/
def lastOf (log : List PoolObs) (i : ℕ) : Option PoolObs := log.find? (PoolObs.isClaimOf i)

/-- The only thing recorded of an index after its lease was dropped is that it
cooled; the log has the latest record first. -/
def DropsCool : List PoolObs → Prop
  | [] => True
  | o :: log => DropsCool log ∧
      ∀ i, o.isClaimOf i = true → lastOf log i = some (.leaseDropped i) → o = .cooled i

variable {new log : List PoolObs}

variable {i : ℕ}

theorem lastOf_append_of_other (hnew : ∀ o ∈ new, o.isClaimOf i = false) (log) :
    lastOf (new ++ log) i = lastOf log i := by
  have hnone : new.find? (isClaimOf i) = none := by
    rw [find?_eq_none]
    intro o ho
    simp [hnew o ho]
  rw [lastOf, find?_append, hnone, Option.none_or, lastOf]

variable {j : ℕ} {o : PoolObs}

/-- A record that is not of a dropped lease hides those of its own index only. -/
theorem lastOf_dropped_cons (hlast : lastOf (o :: log) j = some (.leaseDropped j))
    (ho : o ≠ .leaseDropped j) : o.isClaimOf j = false ∧ lastOf log j = some (.leaseDropped j) := by
  rw [lastOf, find?_cons] at hlast
  split at hlast
  · exact absurd (Option.some.inj hlast) ho
  · next hother => exact ⟨hother, hlast⟩

theorem DropsCool.append_of_other (h : DropsCool log)
    (hnew : ∀ o ∈ new, ∀ i, o.isClaimOf i = false) : DropsCool (new ++ log) := by
  induction new with
  | nil => exact h
  | cons o new ih =>
    refine ⟨ih (forall_mem_cons.mp hnew).2, ?_⟩
    intro i hi
    rw [hnew o mem_cons_self i] at hi
    exact absurd hi Bool.false_ne_true

/-- The log read in order of time: after a dropped lease, the first record of its
index is `cooled`. -/
theorem DropsCool.split (h : DropsCool log) {before between after}
    (hlog : log.reverse = before ++ .leaseDropped i :: (between ++ o :: after))
    (ho : o.isClaimOf i = true)
    (hbetw : ∀ p ∈ between, p.isClaimOf i = false) : o = .cooled i := by
  have hlog' : log = after.reverse ++
    o :: (between.reverse ++ .leaseDropped i :: before.reverse) := by
    have := congrArg List.reverse hlog
    simpa using this
  have htail : ∀ front rest : List PoolObs, DropsCool (front ++ rest) → DropsCool rest := by
    intro front rest
    induction front with
    | nil => exact id
    | cons p front ih => exact fun hd => ih hd.1
  have hdrop : DropsCool (o :: (between.reverse ++ .leaseDropped i :: before.reverse)) :=
    htail after.reverse _ (hlog' ▸ h)
  refine hdrop.2 i ho ?_
  rw [lastOf_append_of_other fun p hp => hbetw p (mem_reverse.mp hp)]
  simp [lastOf, isClaimOf]

namespace World

/-! ### Where the claims are -/

variable (w : World)

/-- The indices in cooldown. -/
def cooling (w : World) : List ℕ := w.cooldown.map CooldownSlot.index

/-- The indices of the outstanding leases. -/
def leased (w : World) : List ℕ := w.leases.map DeviceLease.index

/-- The indices of the queued returns. -/
def returning (w : World) : List ℕ := w.queue.filterMap returnedIndex

/-- The indices that workers have claimed. -/
def scanned (w : World) : List ℕ := w.pending.filterMap claimedIndex

/-- How many live claims of an index there are. -/
def claims (w : World) (i : ℕ) : ℕ :=
  w.cooling.count i + w.leased.count i + w.returning.count i + w.scanned.count i

theorem claims_eq_count (i : ℕ) : w.claims i = w.liveClaims.count i := by
  simp only [claims, liveClaims, count_append, cooling, leased, returning, scanned]
  omega

variable {w} {w' : World} {i : ℕ}

theorem claims_eq_zero : w.claims i = 0 ↔ i ∉ w.liveClaims := by
  rw [claims_eq_count, count_eq_zero]

/-- Every claim is in one place, the pool's record is exact, and a dropped lease is
on its way back. -/
structure ClaimInv (w : World) : Prop where
  single : ∀ i, w.claims i ≤ 1
  inFlight : ∀ i, i ∈ w.inFlight ↔ 0 < w.leased.count i + w.returning.count i
  returnTo : ∀ lease ∈ w.leases, lease.returnTo = true
  listening : w.listening.Nonempty → 0 < w.handles
  dropped : ∀ i, lastOf w.log i = some (.leaseDropped i) → .returnLease .retireUncertain i ∈ w.queue
  cools : DropsCool w.log

/-- A queued return is counted. -/
theorem returning_pos {action} (h : .returnLease action i ∈ w.queue) : 0 < w.returning.count i :=
  count_pos_iff.mpr (mem_filterMap.mpr ⟨_, h, rfl⟩)

/-- An index without a claim has no dropped lease to wait for. -/
theorem ClaimInv.lastOf_ne (h : ClaimInv w) (hi : w.returning.count i = 0) :
    lastOf w.log i ≠ some (.leaseDropped i) := by
  intro hlast
  have := returning_pos (h.dropped i hlast)
  omega

/-- A step that keeps the invariant, and does not shut the pool down. -/
structure KeepsClaims (w w' : World) : Prop where
  active_eq : w'.active = w.active
  inv : ClaimInv w → ClaimInv w'

variable {w₁ w₂ w₃ : World} {lease : DeviceLease} {leases : List DeviceLease} {task : ScanTask}

theorem KeepsClaims.trans (h₁ : KeepsClaims w₁ w₂) (h₂ : KeepsClaims w₂ w₃) : KeepsClaims w₁ w₃ :=
  ⟨h₂.active_eq.trans h₁.active_eq, fun h => h₂.inv (h₁.inv h)⟩

/-- A step in which no claim changes hands. -/
structure SameClaims (w w' : World) : Prop where
  active_eq : w'.active = w.active
  cooldown_eq : w'.cooldown = w.cooldown
  leases_eq : w'.leases = w.leases
  scanned_eq : w'.scanned = w.scanned
  inFlight_eq : w'.inFlight = w.inFlight
  queue_eq : w'.queue = w.queue
  listening_sub : w'.listening ⊆ w.listening
  handles_eq : w'.handles = w.handles
  log_ext : ∃ new, w'.log = new ++ w.log ∧ ∀ o ∈ new, ∀ i, o.isClaimOf i = false

theorem SameClaims.refl (w : World) : SameClaims w w :=
  ⟨rfl, rfl, rfl, rfl, rfl, rfl, Finset.Subset.refl _, rfl, [], rfl, forall_mem_nil _⟩

theorem SameClaims.trans (h₁ : SameClaims w₁ w₂) (h₂ : SameClaims w₂ w₃) : SameClaims w₁ w₃ where
  active_eq := h₂.active_eq.trans h₁.active_eq
  cooldown_eq := h₂.cooldown_eq.trans h₁.cooldown_eq
  leases_eq := h₂.leases_eq.trans h₁.leases_eq
  scanned_eq := h₂.scanned_eq.trans h₁.scanned_eq
  inFlight_eq := h₂.inFlight_eq.trans h₁.inFlight_eq
  queue_eq := h₂.queue_eq.trans h₁.queue_eq
  listening_sub := h₂.listening_sub.trans h₁.listening_sub
  handles_eq := h₂.handles_eq.trans h₁.handles_eq
  log_ext := by
    obtain ⟨new₁, hlog₁, hnew₁⟩ := h₁.log_ext
    obtain ⟨new₂, hlog₂, hnew₂⟩ := h₂.log_ext
    exact ⟨new₂ ++ new₁, by rw [hlog₂, hlog₁, append_assoc], forall_mem_append.mpr ⟨hnew₂, hnew₁⟩⟩

/-- What the claims depend on. -/
def claimView (w : World) :=
  (w.active, w.cooldown, w.leases, w.pending, w.inFlight, w.queue, w.listening, w.handles, w.log)

/-- A step that only touches what the claims do not depend on. -/
theorem SameClaims.silent (h : w'.claimView = w.claimView) : SameClaims w w' := by
  simp only [claimView, Prod.mk.injEq] at h
  obtain ⟨hactive, hcoold, hleas, hpend, hinFlight, hqueue, hlist, hhandl, hlog⟩ := h
  exact ⟨hactive, hcoold, hleas, by rw [scanned, scanned, hpend], hinFlight, hqueue,
    hlist ▸ Finset.Subset.refl _, hhandl, [], hlog, forall_mem_nil _⟩

theorem SameClaims.claims_eq (hs : SameClaims w w') : w'.claims = w.claims := by
  funext i
  simp only [claims, cooling, leased, returning, hs.cooldown_eq, hs.leases_eq, hs.queue_eq,
    hs.scanned_eq]

theorem ClaimInv.same (h : ClaimInv w) (hs : SameClaims w w') : ClaimInv w' := by
  obtain ⟨new, hlog, hnew⟩ := hs.log_ext
  refine ⟨?_, ?_, ?_, ?_, ?_, ?_⟩
  · intro i
    rw [hs.claims_eq]
    exact h.single i
  · intro i
    rw [hs.inFlight_eq, leased, returning, hs.leases_eq, hs.queue_eq]
    exact h.inFlight i
  · rw [hs.leases_eq]
    exact h.returnTo
  · intro hne
    rw [hs.handles_eq]
    exact h.listening (hne.mono hs.listening_sub)
  · intro i hi
    rw [hlog, lastOf_append_of_other fun o ho => hnew o ho i] at hi
    rw [hs.queue_eq]
    exact h.dropped i hi
  · rw [hlog]
    exact h.cools.append_of_other hnew

theorem SameClaims.keeps (hs : SameClaims w w') : KeepsClaims w w' :=
  ⟨hs.active_eq, fun h => h.same hs⟩

/-! ### Answering acquires -/

theorem answerError_claims (w : World) (respondTo : ℕ) (error) :
    SameClaims w (w.answerError respondTo error) := by
  exact ⟨rfl, rfl, rfl, rfl, rfl, rfl, Finset.erase_subset _ _, rfl, [_], rfl,
    forall_mem_singleton.mpr fun _ => rfl⟩

theorem failOneLoop_claims (error) (acquires) (w : World) :
    SameClaims w (failOneLoop error acquires w) := by
  induction acquires generalizing w with
  | nil => exact .silent rfl
  | cons respondTo rest ih =>
    have hansw := answerError_claims w respondTo error
    rw [failOneLoop]
    split
    · exact hansw.trans (.silent rfl)
    · exact hansw.trans (ih _)

theorem failDeferredLoop_claims (errors) (w : World) :
    SameClaims w (failDeferredLoop errors w) := by
  induction errors generalizing w with
  | nil => exact .silent rfl
  | cons error errors ih =>
    rw [failDeferredLoop]
    split
    · exact .silent rfl
    · exact (failOneLoop_claims error _ w).trans (ih _)

theorem failDeferredAcquireErrors_claims (w : World) :
    SameClaims w w.failDeferredAcquireErrors := by
  have hloop := failDeferredLoop_claims w.deferredAcquireErrors w
  unfold failDeferredAcquireErrors
  dsimp only
  split
  · exact hloop.trans (.silent rfl)
  · exact hloop

theorem failAllWaiters_claims (w : World) : SameClaims w w.failAllWaiters := by
  have hloop := foldlRecOn (motive := SameClaims w) w.waitingAcquires
    (fun w respondTo => w.answerError respondTo .noFreeDevice) (.refl w)
    fun v hv respondTo _ => hv.trans (answerError_claims v respondTo _)
  exact hloop.trans (.silent rfl)

theorem clearDeferred_claims (w : World) : SameClaims w w.clearDeferred :=
  .silent rfl

/-! ### Handing out a claim -/

/-- A claim nobody else has becomes a lease. -/
theorem ClaimInv.assign (h : ClaimInv w) {respondTo} (hi : w.claims i = 0)
    (hlistens : respondTo ∈ w.listening) (rest) (source) : ClaimInv { w with
      waitingAcquires := rest
      listening := w.listening.erase respondTo
      leases := ⟨i, w.canUpgrade, some respondTo⟩ :: w.leases
      inFlight := insert i w.inFlight
      log := .assigned i source :: w.log } := by
  have hhandl : 0 < w.handles := h.listening ⟨respondTo, hlistens⟩
  have hzero : w.cooling.count i = 0 ∧ w.leased.count i = 0 ∧ w.returning.count i = 0 ∧
    w.scanned.count i = 0 := by
    simp only [claims] at hi
    omega
  refine ⟨?_, ?_, ?_, ?_, ?_, ?_⟩
  · intro j
    have hj := h.single j
    simp only [claims, cooling, leased, returning, scanned, map_cons, count_cons] at hj hzero ⊢
    by_cases hij : i = j
    · subst hij
      simp only [beq_self_eq_true, if_true]
      omega
    · simp only [beq_iff_eq, hij]
      exact hj
  · intro j
    have hj := h.inFlight j
    simp only [leased, map_cons, count_cons, Finset.mem_insert] at hj ⊢
    by_cases hij : i = j
    · simp [hij]
    · simp only [beq_iff_eq, hij, Ne.symm hij, false_or]
      exact hj
  · -- the weak sender can be upgraded: the acquire still borrows its handle
    exact forall_mem_cons.mpr ⟨by simp [canUpgrade, hhandl], h.returnTo⟩
  · exact fun _ => hhandl
  · exact fun j hj => h.dropped j (lastOf_dropped_cons hj nofun).2
  · refine ⟨h.cools, ?_⟩
    intro j hj hlast
    have hij : i = j := by simpa [isClaimOf] using hj
    exact absurd (hij ▸ hlast) (h.lastOf_ne hzero.2.2.1)

theorem assignLoop_claims (source) (h : ClaimInv w)
    (hi : w.claims i = 0) (acquires) : ClaimInv (assignLoop i source acquires w) := by
  induction acquires with
  | nil =>
    -- nobody is left to take it: the claim is dropped, and its lock with it
    exact h.same (.silent rfl)
  | cons respondTo rest ih =>
    rw [assignLoop]
    split
    · next hlistens => exact h.assign hi hlistens rest source
    · exact ih

/-! ### Cooldown -/

section Cooldown

variable (oracle : PoolOracle) {slot : CooldownSlot}

theorem handleExpiredCooldown_claims (h : ClaimInv w)
    (hslot : w.claims slot.index = 0) : ClaimInv (handleExpiredCooldown oracle w slot) := by
  have hread : SameClaims w { w with readings := w.readings + 1 } :=
    .silent rfl
  unfold handleExpiredCooldown
  split
  · exact h
  · dsimp only
    split
    · exact assignLoop_claims _ (h.same hread) hslot _
    · exact h.same hread

/-- A slot that is taken off the cooldown leaves its index without a claim. -/
theorem ClaimInv.popSlot {slots} (h : ClaimInv { w with cooldown := slot :: slots }) :
    ClaimInv { w with cooldown := slots } ∧ World.claims { w with cooldown := slots } slot.index =
      0 := by
  refine ⟨{ h with single := ?_ }, ?_⟩
  · intro i
    have hi := h.single i
    simp only [claims, cooling, leased, returning, scanned, map_cons, count_cons] at hi ⊢
    omega
  · have hi := h.single slot.index
    simp only [claims, cooling, leased, returning, scanned, map_cons, count_cons_self] at hi ⊢
    omega

/-- Expiring slot by slot: what is left of the cooldown and the leases handed out
on the way share nothing. -/
theorem expireLoop_claims (now : ℕ) (slots) (w : World)
    (h : ClaimInv { w with cooldown := slots }) : ClaimInv (expireLoop oracle now slots w) := by
  induction slots generalizing w with
  | nil => exact h
  | cons slot slots ih =>
    rw [expireLoop]
    split
    · exact h
    · split
      · exact h
      · obtain ⟨hpop, hfree⟩ := h.popSlot
        have hslots := (handleExpiredCooldown_move oracle { w with cooldown := slots } slot).2
        have hnext := handleExpiredCooldown_claims oracle hpop hfree
        refine ih _ ?_
        -- the slot's handler has left the cooldown as it was
        exact hnext.same (.silent (by simp only [claimView, hslots.cooldown_eq]))

theorem processExpiredCooldown_claims (w : World) :
    KeepsClaims w (processExpiredCooldown oracle w) where
  active_eq := (expireLoop_move oracle _ _ _).2.1
  inv h := by
    refine expireLoop_claims oracle _ _ _ ?_
    exact h.same (.silent rfl)

end Cooldown

/-! ### Progress -/

section Progress

variable (cfg : PoolConfig) (oracle : PoolOracle) (w : World)

theorem poolEnsureWaitingProgress_claims (pendingScans : ℕ) :
    KeepsClaims w (poolEnsureWaitingProgress oracle w pendingScans) := by
  unfold poolEnsureWaitingProgress
  split
  · exact (failAllWaiters_claims w).keeps
  · dsimp only
    have hexp := processExpiredCooldown_claims oracle w
    generalize processExpiredCooldown oracle w = v at hexp ⊢
    refine hexp.trans ?_
    split
    · exact (clearDeferred_claims v).keeps
    · have hfail : SameClaims v
          (if pendingScans = 0 ∧ v.cooldownTimerPending = false then
            if v.deferredAcquireErrors ≠ [] then v.failDeferredAcquireErrors
            else if v.deferredScanExhaustion then v.failAllWaiters else v
          else v) := by
        split
        · split
          · exact failDeferredAcquireErrors_claims v
          · split
            · exact failAllWaiters_claims v
            · exact SameClaims.refl v
        · exact SameClaims.refl v
      generalize (if pendingScans = 0 ∧ v.cooldownTimerPending = false then _ else v) = u at hfail ⊢
      refine (hfail.trans ?_).keeps
      split
      · exact clearDeferred_claims u
      · exact SameClaims.refl u

theorem getOrInsertScan_claims : SameClaims w (w.getOrInsertScan cfg oracle).1 := by
  unfold getOrInsertScan
  split
  · exact SameClaims.refl w
  · exact .silent rfl

/-- A new worker has claimed nothing yet. -/
theorem spawnScan_claims : SameClaims w (w.spawnScan cfg oracle) := by
  have hscan := getOrInsertScan_claims cfg oracle w
  unfold spawnScan
  refine hscan.trans ⟨rfl, rfl, rfl, ?_, rfl, rfl, Finset.Subset.refl _, rfl, [_], rfl,
    forall_mem_singleton.mpr fun _ => rfl⟩
  simp [scanned, claimedIndex]

theorem spawnScans_claims (n : ℕ) (w : World) : SameClaims w (spawnScans cfg oracle n w) := by
  induction n generalizing w with
  | zero => exact .refl w
  | succ n ih => exact (spawnScan_claims cfg oracle w).trans (ih _)

theorem spawnWaitingScans_claims : SameClaims w (w.spawnWaitingScans cfg oracle) := by
  unfold spawnWaitingScans
  split
  · exact SameClaims.refl w
  · exact spawnScans_claims cfg oracle _ w

theorem settleCohort_claims : SameClaims w w.settleCohort := by
  unfold settleCohort deferScanExhaustion resetScanCohort
  split_ifs <;> exact .silent rfl

theorem ensureWaitingProgress_claims : KeepsClaims w (w.ensureWaitingProgress cfg oracle) := by
  have hsettle := settleCohort_claims w
  have hpool := poolEnsureWaitingProgress_claims oracle w.settleCohort w.pending.length
  exact (hsettle.keeps.trans hpool).trans (spawnWaitingScans_claims cfg oracle _).keeps

/-! ### Commands -/

theorem handleAcquire_claims (respondTo pendingScans : ℕ) :
    KeepsClaims w (handleAcquire oracle w respondTo pendingScans) := by
  unfold handleAcquire
  split
  · exact (answerError_claims w respondTo _).keeps
  · have hqueue : SameClaims w { w with waitingAcquires := w.waitingAcquires ++ [respondTo] } :=
      .silent rfl
    exact hqueue.keeps.trans (poolEnsureWaitingProgress_claims oracle _ pendingScans)

variable {w} {queue : List PoolCommand} {action : LeaseReturnAction} {i : ℕ} {command : PoolCommand}

/-- A command that returns nothing can be taken off the queue. -/
theorem ClaimInv.popCommand (h : ClaimInv w) (hqueue : w.queue = command :: queue)
    (hnone : returnedIndex command = none) : ClaimInv { w with queue := queue } := by
  have hret : World.returning { w with queue := queue } = w.returning := by
    simp [returning, hqueue, hnone]
  refine ⟨?_, ?_, h.returnTo, h.listening, ?_, h.cools⟩
  · intro i
    have hi := h.single i
    rw [claims, ← hret] at hi
    exact hi
  · intro i
    have hi := h.inFlight i
    rw [← hret] at hi
    exact hi
  · intro i hi
    have hmem := h.dropped i hi
    rw [hqueue] at hmem
    rcases mem_cons.mp hmem with hhead | hmem
    · rw [← hhead] at hnone
      exact absurd hnone (Option.some_ne_none i)
    · exact hmem

section

variable (h : ClaimInv w) (hqueue : w.queue = .returnLease action i :: queue)

include h hqueue

/-- The return at the head of the queue is the only claim of its index. -/
theorem ClaimInv.head_return : i ∈ w.inFlight ∧ w.cooling.count i = 0 ∧ w.leased.count i = 0 ∧
      (queue.filterMap returnedIndex).count i = 0 ∧ w.scanned.count i = 0 := by
  have hret : w.returning = i :: queue.filterMap returnedIndex := by
    simp [returning, hqueue, returnedIndex]
  have hi := h.single i
  have hflight := h.inFlight i
  rw [claims, hret, count_cons_self] at hi
  rw [hret, count_cons_self] at hflight
  refine ⟨hflight.mpr (by omega), ?_⟩
  omega

omit h in
theorem head_return_other (hij : i ≠ j) :
    w.returning.count j = (queue.filterMap returnedIndex).count j := by
  simp [returning, hqueue, returnedIndex, hij]

/-- Once the return at the head of the queue is taken off, forgetting its index
makes the pool's record exact again. -/
theorem ClaimInv.inFlight_tail (j : ℕ) :
    j ∈ w.inFlight.erase i ↔ 0 < w.leased.count j + (queue.filterMap returnedIndex).count j := by
  obtain ⟨_, _, hlease, hreturn, _⟩ := h.head_return hqueue
  by_cases hij : i = j
  · subst hij
    simp only [Finset.mem_erase]
    omega
  · rw [Finset.mem_erase, h.inFlight j, head_return_other hqueue hij]
    exact and_iff_right (Ne.symm hij)

theorem ClaimInv.dropped_tail (hij : i ≠ j) (hlast : lastOf w.log j = some (.leaseDropped j)) :
    .returnLease .retireUncertain j ∈ queue := by
  have hmem := h.dropped j hlast
  rw [hqueue] at hmem
  simpa [Ne.symm hij] using hmem

/-- A released claim moves from the head of the queue to the cooldown. -/
theorem ClaimInv.release (hactive : w.active) :
    ClaimInv (releaseClaim cfg oracle { w with queue := queue } i) := by
  obtain ⟨hflight, hcool, hlease, hreturn, hscan⟩ := h.head_return hqueue
  unfold releaseClaim
  simp only [hactive, hflight, Bool.not_true, Bool.false_eq_true, if_false, not_true]
  refine ⟨?_, h.inFlight_tail hqueue, h.returnTo, h.listening, ?_, ?_⟩
  · intro j
    simp only [claims, cooling, leased, returning, scanned, map_append, map_cons,
      map_nil, count_append, count_singleton] at hcool hlease hreturn hscan ⊢
    by_cases hij : i = j
    · subst hij
      simp only [beq_self_eq_true, if_true]
      omega
    · have hj := h.single j
      rw [claims, head_return_other hqueue hij] at hj
      simp only [cooling, leased, scanned] at hj
      simpa [hij] using hj
  · intro j hj
    obtain ⟨hij, hlast⟩ := lastOf_dropped_cons hj nofun
    exact h.dropped_tail hqueue (beq_eq_false_iff_ne.mp hij) hlast
  · refine ⟨h.cools, ?_⟩
    intro j hj _
    have hij : i = j := by simpa [isClaimOf] using hj
    rw [hij]

end

/-- A discarded claim is gone.  It was returned explicitly, so its lease had not
been dropped. -/
theorem ClaimInv.discard (h : ClaimInv w) (hqueue : w.queue = .returnLease .discard i :: queue) :
    ClaimInv (discardClaim { w with queue := queue } i) := by
  obtain ⟨_, hcool, hlease, hreturn, hscan⟩ := h.head_return hqueue
  unfold discardClaim
  refine ⟨?_, h.inFlight_tail hqueue, h.returnTo, h.listening, ?_, ?_⟩
  · intro j
    by_cases hij : i = j
    · subst hij
      simp only [claims, cooling, leased, returning, scanned] at hcool hlease hreturn hscan ⊢
      omega
    · have hj := h.single j
      rw [claims, head_return_other hqueue hij] at hj
      exact hj
  · intro j hj
    obtain ⟨hij, hlast⟩ := lastOf_dropped_cons hj nofun
    exact h.dropped_tail hqueue (beq_eq_false_iff_ne.mp hij) hlast
  · refine ⟨h.cools, ?_⟩
    intro j hj hlast
    have hij : i = j := by simpa [isClaimOf] using hj
    subst hij
    -- had it been dropped, a second return of the index would be queued
    have hmem := h.dropped i hlast
    rw [hqueue] at hmem
    have hrest : PoolCommand.returnLease .retireUncertain i ∈ queue := by simpa using hmem
    have hpos : 0 < (queue.filterMap returnedIndex).count i :=
      count_pos_iff.mpr (mem_filterMap.mpr ⟨_, hrest, rfl⟩)
    omega

theorem applyReturn_active (w : World) (action) (i : ℕ) :
    (applyReturn cfg oracle w action i).active = w.active := by
  cases action with
  | discard => rfl
  | releaseClean | retireUncertain =>
    simp only [applyReturn, retireUncertainClaim, releaseClaim]
    split_ifs <;> rfl

theorem returned_claims (h : ClaimInv w) (hqueue : w.queue = .returnLease action i :: queue)
    (hactive : w.active) :
    ClaimInv (applyReturn cfg oracle { w with queue := queue } action i) := by
  cases action with
  | releaseClean | retireUncertain => exact h.release cfg oracle hqueue hactive
  | discard => exact h.discard hqueue

/-- The next command, handled by an active pool that is not shut down by it. -/
theorem handleCommand_claims (h : w.active → ClaimInv w) (hqueue : w.queue = command :: queue)
    (hactive : (handleCommand cfg oracle { w with queue := queue } command).active) :
    ClaimInv (handleCommand cfg oracle { w with queue := queue } command) := by
  cases command with
  | acquire respondTo =>
    have hkeeps := (handleAcquire_claims oracle
      { w with queue := queue } respondTo w.pending.length).trans
      (spawnWaitingScans_claims cfg oracle _).keeps
    have hw : w.active := hkeeps.active_eq.symm.trans hactive
    exact hkeeps.inv ((h hw).popCommand hqueue rfl)
  | returnLease action i =>
    have hkeeps := ensureWaitingProgress_claims cfg oracle
      (applyReturn cfg oracle { w with queue := queue } action i)
    have hw : w.active :=
      (applyReturn_active cfg oracle { w with queue := queue } action i).symm.trans
        (hkeeps.active_eq.symm.trans hactive)
    exact hkeeps.inv (returned_claims cfg oracle (h hw) hqueue hw)
  | cleanup =>
    have hdown := (failAllWaiters_claims { w with queue := queue, active := false }).active_eq
    exact absurd (hactive.symm.trans hdown) Bool.noConfusion

end Progress

/-! ### Clients -/

variable {w : World} {listening : Finset ℕ} {n cohort : ℕ}

section

variable (h : ClaimInv w)

include h

/-- A lease that is handed back is a queued return from then on. -/
theorem ClaimInv.handBack (hleas : w.leases.Perm (lease :: leases)) (action)
    (hlist : listening ⊆ w.listening) : ClaimInv { w with
      leases := leases
      listening := listening
      queue := w.queue ++ [.returnLease action lease.index] } := by
  have hleased : ∀ i, w.leased.count i = (leases.map DeviceLease.index).count i +
      if lease.index == i then 1 else 0 := by
    intro i
    rw [leased, (hleas.map DeviceLease.index).count_eq, map_cons, count_cons]
  have hret : ∀ i, ((w.queue ++ [PoolCommand.returnLease action lease.index]).filterMap
      returnedIndex).count i = w.returning.count i + if lease.index == i then 1 else 0 := by
    simp [returning, returnedIndex, count_singleton]
  refine ⟨?_, ?_, ?_, ?_, ?_, h.cools⟩
  · intro i
    have hi := h.single i
    rw [claims, hleased] at hi
    rw [claims, returning, hret]
    simp only [cooling, leased, scanned] at hi ⊢
    omega
  · intro i
    have hi := h.inFlight i
    rw [hleased] at hi
    simp only [leased, returning] at hi hret ⊢
    rw [hi, hret]
    omega
  · exact fun l hl => h.returnTo l (hleas.mem_iff.mpr (mem_cons_of_mem _ hl))
  · exact fun hne => h.listening (hne.mono hlist)
  · exact fun i hi => mem_append_left _ (h.dropped i hi)

/-- The record of a dropped lease. -/
theorem ClaimInv.noteDropped (hqueued : .returnLease .retireUncertain i ∈ w.queue)
    (hlast : lastOf w.log i ≠ some (.leaseDropped i)) :
      ClaimInv { w with log := .leaseDropped i :: w.log } := by
  refine ⟨h.single, h.inFlight, h.returnTo, h.listening, ?_, h.cools, ?_⟩
  · intro j hj
    by_cases hij : i = j
    · exact hij ▸ hqueued
    · refine h.dropped j ?_
      simpa [lastOf, isClaimOf, hij] using hj
  · intro j hj hprev
    have hij : i = j := by simpa [isClaimOf] using hj
    exact absurd (hij ▸ hprev) hlast

/-- `DeviceLease::drop`: the lease has its return path, so the claim goes back as
uncertain. -/
theorem ClaimInv.dropLease (hleas : w.leases.Perm (lease :: leases))
    (hlist : listening ⊆ w.listening) :
    ClaimInv ({ w with leases := leases, listening := listening }.dropLease lease) := by
  have hmem : lease ∈ w.leases := hleas.mem_iff.mpr mem_cons_self
  have hback := h.handBack hleas .retireUncertain hlist
  have hlast : lastOf w.log lease.index ≠ some (.leaseDropped lease.index) := by
    refine h.lastOf_ne ?_
    have hpos : 0 < w.leased.count lease.index := count_pos_iff.mpr (mem_map_of_mem hmem)
    have hi := h.single lease.index
    rw [claims] at hi
    omega
  simp only [World.dropLease, h.returnTo lease hmem]
  exact hback.noteDropped (mem_append_right _ mem_cons_self) hlast

/-- A command that returns nothing can be queued. -/
theorem ClaimInv.pushCommand (hnone : returnedIndex command = none) (hlist : listening.Nonempty →
    0 < w.handles)
    {next} : ClaimInv { w with
      queue := w.queue ++ [command]
      listening := listening
      nextAcquire := next } := by
  have hret : (w.queue ++ [command]).filterMap returnedIndex = w.returning := by
    simp [returning, hnone]
  refine ⟨?_, ?_, h.returnTo, hlist, ?_, h.cools⟩
  · intro i
    rw [claims, returning, hret]
    exact h.single i
  · intro i
    rw [returning, hret]
    exact h.inFlight i
  · exact fun i hi => mem_append_left _ (h.dropped i hi)

/-- Taking the lease out of its channel changes neither its index nor its return
path. -/
theorem ClaimInv.receive (acquire : ℕ) :
    ClaimInv { w with leases := w.leases.map fun lease =>
      if lease.inChannel = some acquire then { lease with inChannel := none } else lease } := by
  have hleased : (w.leases.map fun lease =>
      if lease.inChannel = some acquire then { lease with inChannel := none } else lease).map
        DeviceLease.index = w.leased := by
    rw [map_map, leased]
    refine map_congr_left fun lease _ => ?_
    simp only [Function.comp_apply]
    split <;> rfl
  refine ⟨?_, ?_, ?_, h.listening, h.dropped, h.cools⟩
  · intro i
    rw [claims, leased, hleased]
    exact h.single i
  · intro i
    rw [leased, hleased]
    exact h.inFlight i
  · intro l hl
    obtain ⟨lease, hlease, rfl⟩ := mem_map.mp hl
    have hto := h.returnTo lease hlease
    split <;> exact hto

/-! ### Workers -/

/-- What the workers have claimed may change as long as every index keeps to one
claim. -/
theorem ClaimInv.setPending {pending}
    (hsingle : ∀ i, w.cooling.count i + w.leased.count i + w.returning.count i +
      (pending.filterMap claimedIndex).count i ≤ 1) {scans} :
    ClaimInv { w with pending := pending, scans := scans } :=
  { h with single := hsingle }

end

/-- The claims of the workers, one of them singled out. -/
theorem scanned_count_eraseIdx (hn : w.pending[n]? = some task)
    (i : ℕ) : w.scanned.count i = ((w.pending.eraseIdx n).filterMap claimedIndex).count i +
      if claimedIndex task = some i then 1 else 0 := by
  obtain ⟨hlt, rfl⟩ := List.getElem?_eq_some_iff.mp hn
  rw [scanned, ← ((getElem_cons_eraseIdx_perm hlt).filterMap claimedIndex).count_eq, filterMap_cons]
  cases claimedIndex w.pending[n] with
  | none => simp
  | some j => simp [count_cons]

/-- A worker that has no claim yet gets its result. -/
theorem scanned_count_set (hn : w.pending[n]? = some ⟨cohort, none⟩)
    (task) (i : ℕ) : ((w.pending.set n task).filterMap claimedIndex).count i =
      w.scanned.count i + if claimedIndex task = some i then 1 else 0 := by
  obtain ⟨hlt, _⟩ := List.getElem?_eq_some_iff.mp hn
  have hnone : w.scanned.count i = ((w.pending.eraseIdx n).filterMap claimedIndex).count i := by
    rw [scanned_count_eraseIdx hn]
    simp [claimedIndex]
  rw [((set_perm_cons_eraseIdx hlt task).filterMap claimedIndex).count_eq, hnone, filterMap_cons]
  cases claimedIndex task with
  | none => simp
  | some j => simp [count_cons]

theorem ClaimInv.setFault (h : ClaimInv w) (hn : w.pending[n]? = some ⟨cohort, none⟩)
    (htask : claimedIndex task = none) : ClaimInv { w with pending := w.pending.set n task } := by
  refine h.setPending fun i => ?_
  rw [scanned_count_set hn, htask]
  exact h.single i

/-- The file lock: a worker takes a claim only while no other is alive. -/
theorem probeStep_claims {probe} (hstep : probeStep w n probe = some w') : KeepsClaims w w' := by
  unfold probeStep at hstep
  split at hstep
  · next cohort hn =>
    split at hstep
    · simp at hstep
    · next scan hscan =>
      split at hstep
      · split at hstep
        · cases hstep
          exact ⟨rfl, fun h => h.same (.silent rfl)⟩
        · obtain ⟨⟨_, hfree⟩, ⟨⟩⟩ := Option.ite_none_right_eq_some.mp hstep
          refine ⟨rfl, fun h => h.setPending fun i => ?_⟩
          rw [scanned_count_set hn]
          simp only [claimedIndex, Option.some.injEq]
          split
          · next hi =>
            have hzero := claims_eq_zero.mpr (hi ▸ hfree)
            rw [claims] at hzero
            omega
          · exact h.single i
      · cases hstep
        exact ⟨rfl, fun h => h.setFault hn rfl⟩
  · simp at hstep

theorem handleScanFault_claims (w : World) (error) : SameClaims w (w.handleScanFault error) := by
  unfold handleScanFault deferAcquireError
  split_ifs <;> exact .silent rfl

/-- A joined worker hands its claim to a waiter, or drops it. -/
theorem handleScanJoin_claims {result} (hn : w.pending[n]? = some ⟨cohort, some result⟩) :
    KeepsClaims w (handleScanJoin
      { w with pending := w.pending.eraseIdx n, log := .joined cohort result :: w.log }
        result) := by
  -- the worker leaves the `JoinSet` first, and its claim with it
  have hleave : ClaimInv w →
      ClaimInv { w with
          pending := w.pending.eraseIdx n, log := .joined cohort result :: w.log } := by
    intro h
    have herase : ClaimInv { w with pending := w.pending.eraseIdx n } := by
      refine h.setPending fun i => ?_
      have hi := h.single i
      rw [claims, scanned_count_eraseIdx hn] at hi
      omega
    exact herase.same ⟨rfl, rfl, rfl, rfl, rfl, rfl, Finset.Subset.refl _, rfl, [_], rfl,
      forall_mem_singleton.mpr fun _ => rfl⟩
  have hfault (error : NbdCowError) : KeepsClaims w (handleScanFault
      { w with pending := w.pending.eraseIdx n, log := .joined cohort result :: w.log } error) :=
    ⟨(handleScanFault_claims _ error).active_eq, fun h =>
      (hleave h).same (handleScanFault_claims _ error)⟩
  cases result with
  | claim index =>
    simp only [handleScanJoin, handleScanClaim]
    split
    · exact ⟨rfl, hleave⟩
    · refine ⟨(assignLoop_slots _ _ _ _).active_eq, fun h => ?_⟩
      refine assignLoop_claims _ (hleave h) ?_ _
      have hi := h.single index
      rw [claims, scanned_count_eraseIdx hn] at hi
      simp only [claimedIndex, if_true] at hi
      simp only [claims, cooling, leased, returning, scanned] at hi ⊢
      omega
  | failed error =>
    cases error with
    | noFreeDevice =>
      simp only [handleScanJoin]
      split
      · exact ⟨rfl, hleave⟩
      · exact ⟨rfl, fun h => (hleave h).same (.silent rfl)⟩
    | _ => exact hfault _
  | joinError message => exact hfault _

/-! ### Runs -/

theorem ClaimInv.init : ClaimInv World.init where
  single _ := Nat.zero_le 1
  inFlight i := by simp [World.init, leased, returning]
  returnTo _ hl := absurd hl not_mem_nil
  listening _ := Nat.one_pos
  dropped i hi := by simp [World.init, lastOf] at hi
  cools := trivial

/-- One event, while the pool is active. -/
theorem poolStep_claims (cfg) (oracle) {event} (h : w.active → ClaimInv w)
    (hstep : poolStep cfg oracle w event = some w') (hactive : w'.active) : ClaimInv w' := by
  cases event with
  | acquire =>
    obtain ⟨hhandl, ⟨⟩⟩ := Option.ite_none_right_eq_some.mp hstep
    exact (h hactive).pushCommand rfl fun _ => hhandl
  | dropAcquire acquire =>
    simp only [poolStep] at hstep
    split at hstep
    · next lease hfind =>
      cases hstep
      have hmem := mem_of_find?_eq_some hfind
      exact (h hactive).dropLease (perm_cons_erase hmem) (Finset.erase_subset _ _)
    · cases hstep
      exact (h hactive).same ⟨rfl, rfl, rfl, rfl, rfl, rfl, Finset.erase_subset _ _, rfl, [], rfl,
        forall_mem_nil _⟩
  | receive acquire =>
    cases hstep
    exact (h hactive).receive acquire
  | returnLease n action =>
    simp only [poolStep] at hstep
    split at hstep
    · next lease hn =>
      obtain ⟨_, ⟨⟩⟩ := Option.ite_none_right_eq_some.mp hstep
      obtain ⟨hlt, rfl⟩ := List.getElem?_eq_some_iff.mp hn
      exact (h hactive).handBack (getElem_cons_eraseIdx_perm hlt).symm action
        (Finset.Subset.refl _)
    · simp at hstep
  | dropLease n =>
    simp only [poolStep] at hstep
    split at hstep
    · next lease hn =>
      obtain ⟨_, ⟨⟩⟩ := Option.ite_none_right_eq_some.mp hstep
      obtain ⟨hlt, rfl⟩ := List.getElem?_eq_some_iff.mp hn
      exact (h hactive).dropLease (getElem_cons_eraseIdx_perm hlt).symm (Finset.Subset.refl _)
    · simp at hstep
  | cleanup =>
    obtain ⟨_, ⟨⟩⟩ := Option.ite_none_right_eq_some.mp hstep
    exact (h hactive).pushCommand rfl (h hactive).listening
  | cloneHandle =>
    obtain ⟨_, ⟨⟩⟩ := Option.ite_none_right_eq_some.mp hstep
    exact { h hactive with listening := fun _ => Nat.succ_pos _ }
  | dropHandle =>
    obtain ⟨hguard, ⟨⟩⟩ := Option.ite_none_right_eq_some.mp hstep
    refine { h hactive with listening := fun hne => ?_ }
    rcases hguard with hmany | ⟨_, hempty, _⟩
    · exact Nat.sub_pos_of_lt hmany
    · -- the last handle goes only when no acquire borrows it
      exact absurd hempty hne.ne_empty
  | scanProbe n probe =>
    have hkeeps := probeStep_claims hstep
    exact hkeeps.inv (h (hkeeps.active_eq.symm.trans hactive))
  | scanFault n result =>
    simp only [poolStep] at hstep
    split at hstep
    · next cohort hn =>
      obtain ⟨hfault, ⟨⟩⟩ := Option.ite_none_right_eq_some.mp hstep
      refine (h hactive).setFault hn ?_
      cases result with
      | claim index => exact absurd hfault Bool.noConfusion
      | failed error => rfl
      | joinError message => rfl
    · simp at hstep
  | command =>
    simp only [poolStep] at hstep
    split at hstep
    · simp at hstep
    · next command queue hqueue =>
      cases hstep
      have hkeeps := ensureWaitingProgress_claims cfg oracle
        (handleCommand cfg oracle { w with queue := queue } command)
      exact hkeeps.inv (handleCommand_claims cfg oracle h hqueue
        (hkeeps.active_eq.symm.trans hactive))
  | join n =>
    simp only [poolStep] at hstep
    split at hstep
    · next cohort result hn =>
      cases hstep
      have hkeeps := ((handleScanJoin_claims hn).trans
        (ensureWaitingProgress_claims cfg oracle _)).trans
        (ensureWaitingProgress_claims cfg oracle _)
      exact hkeeps.inv (h (hkeeps.active_eq.symm.trans hactive))
    · simp at hstep
  | deadline =>
    obtain ⟨_, ⟨⟩⟩ := Option.ite_none_right_eq_some.mp hstep
    have hkeeps := ((processExpiredCooldown_claims oracle w).trans
      (ensureWaitingProgress_claims cfg oracle _)).trans (ensureWaitingProgress_claims cfg oracle _)
    exact hkeeps.inv (h (hkeeps.active_eq.symm.trans hactive))

end World

/-- **No index is handed out twice.**  In every run, as long as the pool has not
been cleaned up: the cooldown indices are distinct and none is in flight; an
index in flight is held by exactly one lease or queued return, and everything
held is in flight; and after a lease was dropped, the first thing that happens to
its index is that it goes into cooldown. -/
theorem pool_claims_exclusive (cfg : PoolConfig) (oracle : PoolOracle) (events : List PoolEvent)
    {w : World} (hrun : runEvents (poolStep cfg oracle) World.init events = some w)
    (hactive : w.active = true) :
    (w.cooldown.map CooldownSlot.index).Nodup ∧
    (∀ slot ∈ w.cooldown, slot.index ∉ w.inFlight) ∧
    (∀ i ∈ w.inFlight, (w.leases.map DeviceLease.index).count i +
      (w.queue.filterMap World.returnedIndex).count i = 1) ∧
    (∀ lease ∈ w.leases, lease.index ∈ w.inFlight) ∧
    (∀ action i, .returnLease action i ∈ w.queue → i ∈ w.inFlight) ∧
    (∀ before i between o after, w.log.reverse = before ++ .leaseDropped i ::
      (between ++ o :: after) →
      o.isClaimOf i = true → (∀ p ∈ between, p.isClaimOf i = false) → o = .cooled i) := by
  have h : World.ClaimInv w := runEvents_invariant (fun w => w.active → World.ClaimInv w)
    (fun _ _ _ hs hstep => World.poolStep_claims cfg oracle hs hstep) (fun _ => World.ClaimInv.init)
    hrun hactive
  have hheld : ∀ i, i ∈ w.inFlight ↔ 0 < w.leased.count i + w.returning.count i := h.inFlight
  refine ⟨?_, ?_, ?_, ?_, ?_, ?_⟩
  · rw [nodup_iff_count_le_one]
    intro i
    have hi := h.single i
    simp only [World.claims, World.cooling] at hi
    omega
  · intro slot hslot hflight
    have hpos : 0 < w.cooling.count slot.index := count_pos_iff.mpr (mem_map_of_mem hslot)
    have hi := h.single slot.index
    have hflight' := (hheld _).mp hflight
    simp only [World.claims] at hi
    omega
  · intro i hi
    have hpos := (hheld i).mp hi
    have hsingle := h.single i
    simp only [World.claims, World.leased, World.returning] at hpos hsingle
    omega
  · intro lease hlease
    have hpos : 0 < w.leased.count lease.index := count_pos_iff.mpr (mem_map_of_mem hlease)
    exact (hheld _).mpr (by omega)
  · intro action i hmem
    have hpos := World.returning_pos hmem
    exact (hheld i).mpr (by omega)
  · intro before i between o after hlog ho hbetw
    exact h.cools.split hlog ho hbetw

/-- A pool of one device: claimed, leased, dropped, and back in the cooldown. -/
theorem pool_claims_exclusive_oneDevice :
    ∃ w, runEvents (poolStep ⟨5, 1, 100⟩ ⟨fun n => n, fun _ _ => true, fun _ => 0⟩) World.init
        [.acquire, .command, .scanProbe 0 .take, .join 0, .receive 0, .dropLease 0, .command] =
          some w ∧
      w.active = true ∧ w.cooldown.map CooldownSlot.index = [0] ∧
      w.log.reverse = [.spawned 0, .joined 0 (.claim 0), .assigned 0 .demandScan, .leaseDropped 0,
        .cooled 0] ∧
      ∀ slot ∈ w.cooldown, slot.index ∉ w.inFlight := by
  refine exists_run (fun w => w.active ∧ w.cooldown.map CooldownSlot.index = [0] ∧ w.log.reverse =
    [.spawned 0, .joined 0 (.claim 0), .assigned 0 .demandScan, .leaseDropped 0, .cooled 0])
      (by decide) ?_
  intro w hrun ⟨hactive, hcool, hlog⟩
  exact ⟨hactive, hcool, hlog, (pool_claims_exclusive _ _ _ hrun hactive).2.1⟩

end Okou.Nbd
