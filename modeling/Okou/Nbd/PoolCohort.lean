import Okou.Nbd.PoolMoves

/-!
# The cohort of a demand scan

The two kinds of bad news a scan can leave behind, deferred errors and deferred
exhaustion, never meet: while one is kept no new worker is started, and a cohort
that has brought an error is not asked for exhaustion any more.
-/

namespace Okou.Nbd

open List PoolObs
namespace World

/-! ### The invariant of the cohort -/

/-- The actor's bookkeeping about scans.  The first group says how the deferred
news, the flags and the pending workers go together; the second ties the flags
to the record of the active cohort; the third keeps the promise of a deferred
exhaustion and of the refusals so far. -/
structure CohortInv (w : World) : Prop where
  errors_ne : ∀ e ∈ w.deferredAcquireErrors, e ≠ .noFreeDevice
  exclusive : w.deferredAcquireErrors ≠ [] → w.deferredScanExhaustion = false
  exhaustion_idle : w.deferredScanExhaustion = true → w.pending = []
  errors_faulted : w.deferredAcquireErrors ≠ [] → w.pending = [] ∨ w.scanFaulted = true
  exhausted : w.scanExhausted = true → w.scanFaulted = false ∧ w.deferredAcquireErrors = []
  tasks : ∀ t ∈ w.pending, w.activeScan = some t.cohort
  active_lt : ∀ c, w.activeScan = some c → c < w.scans.length
  fresh : ∀ o ∈ w.log, ∀ c, o.cohort = some c → c < w.scans.length
  balance : ∀ c, w.activeScan = some c →
    w.log.count (.spawned c) = w.log.countP (PoolObs.isJoinOf c) + w.pending.length
  unfaulted : ∀ c, w.activeScan = some c → w.scanFaulted = false → ∀ r, .joined c r ∈ w.log →
    r.isFault = false
  exhausted_joined : w.scanExhausted = true → ∃ c, w.activeScan = some c ∧
    .joined c (.failed .noFreeDevice) ∈ w.log
  cursor_task : ∀ t ∈ w.pending, t.result = some (.failed .noFreeDevice) →
    CursorExhausted w.scans t.cohort
  cursor_log : ∀ c, .joined c (.failed .noFreeDevice) ∈ w.log → CursorExhausted w.scans c
  deferred : w.deferredScanExhaustion = true → ∃ c, CleanlyExhausted w.log c
  justified : JustifiedLog w.log

variable {new log : List PoolObs} {w : World}

/-- Records that are not about cohorts keep the cohort facts of a log. -/
theorem mem_log_of_cohort (hnew : ∀ o ∈ new, o.cohort = none) {o}
    {c} (ho : o.cohort = some c) : o ∈ new ++ log ↔ o ∈ log := by
  rw [mem_append]
  refine ⟨fun h => h.resolve_left fun hmem => ?_, .inr⟩
  rw [hnew o hmem] at ho
  simp at ho

theorem counts_of_cohort (hnew : ∀ o ∈ new, o.cohort = none) (log) (c : ℕ) :
    (new ++ log).count (.spawned c) = log.count (.spawned c) ∧
      (new ++ log).countP (isJoinOf c) = log.countP (isJoinOf c) := by
  induction new with
  | nil => exact ⟨rfl, rfl⟩
  | cons o new ih =>
    have ho : o.cohort ≠ some c := by rw [hnew o mem_cons_self]; simp
    rw [cons_append, count_spawned_of_cohort ho, countP_joined_of_cohort ho]
    exact ih (forall_mem_cons.mp hnew).2

theorem cleanlyExhausted_append (hnew : ∀ o ∈ new, o.cohort = none) {c}
    (h : CleanlyExhausted log c) : CleanlyExhausted (new ++ log) c := by
  induction new with
  | nil => exact h
  | cons o new ih =>
    exact (ih (forall_mem_cons.mp hnew).2).cons
      (by rw [hnew o mem_cons_self]; simp)

theorem justifiedLog_append (hlog : JustifiedLog log) (hnew : ∀ o ∈ new, o.cohort = none)
    (href : (∃ o ∈ new, o.isRefusal) → ∃ c, CleanlyExhausted log c) :
      JustifiedLog (new ++ log) := by
  induction new with
  | nil => exact hlog
  | cons o new ih =>
    have hrest : ∀ p ∈ new, p.cohort = none := (forall_mem_cons.mp hnew).2
    refine ⟨ih hrest fun ⟨p, hp, hr⟩ => href ⟨p, mem_cons_of_mem _ hp, hr⟩, fun hr => ?_⟩
    obtain ⟨c, hc⟩ := href ⟨o, mem_cons_self, hr⟩
    exact ⟨c, cleanlyExhausted_append hrest hc⟩

section

variable (h : CohortInv w)

include h

/-- **No function of the pool breaks the bookkeeping of the actor.** -/
theorem CohortInv.poolMove {w'} (hm : PoolMove w w') : CohortInv w' := by
  obtain ⟨new, hlog, hnew⟩ := hm.log_ext
  have hcoh : ∀ o ∈ new, o.cohort = none := fun o ho => (hnew o ho).1
  have herr : w'.deferredAcquireErrors ≠ [] → w.deferredAcquireErrors ≠ [] := by
    intro h' hnil
    exact h' (subset_nil.mp (hnil ▸ hm.errors_sub))
  have hmem : ∀ {c r}, .joined c r ∈ w'.log ↔ .joined c r ∈ w.log := fun {c r} => by
    rw [hlog]
    exact mem_log_of_cohort hcoh (c := c) rfl
  constructor
  all_goals try simp only [hm.pending_eq, hm.activeScan_eq, hm.scanExhausted_eq, hm.scanFaulted_eq,
    hm.scans_eq]
  case errors_ne => exact fun e he => h.errors_ne e (hm.errors_sub he)
  case exclusive =>
    intro he
    by_contra hx
    have := h.exclusive (herr he)
    rw [hm.exhaustion_imp (by simpa using hx)] at this
    simp at this
  case exhaustion_idle => exact fun hx => h.exhaustion_idle (hm.exhaustion_imp hx)
  case errors_faulted => exact fun he => h.errors_faulted (herr he)
  case exhausted => exact fun hx =>
    ⟨(h.exhausted hx).1, subset_nil.mp ((h.exhausted hx).2 ▸ hm.errors_sub)⟩
  case fresh =>
    intro o ho c hc
    rw [hlog, mem_log_of_cohort hcoh hc] at ho
    exact h.fresh o ho c hc
  case balance =>
    intro c hc
    obtain ⟨hspawn, hjoined⟩ := counts_of_cohort hcoh w.log c
    rw [hlog, hspawn, hjoined]
    exact h.balance c hc
  case unfaulted => exact fun c hc hf r hr => h.unfaulted c hc hf r (hmem.mp hr)
  case exhausted_joined => exact fun hx =>
    (h.exhausted_joined hx).imp fun c hc => hc.imp_right hmem.mpr
  case cursor_log => exact fun c hc => h.cursor_log c (hmem.mp hc)
  case deferred =>
    intro hx
    obtain ⟨c, hc⟩ := h.deferred (hm.exhaustion_imp hx)
    exact ⟨c, hlog ▸ cleanlyExhausted_append hcoh hc⟩
  case justified =>
    rw [hlog]
    refine justifiedLog_append h.justified hcoh ?_
    rintro ⟨o, ho, hr⟩
    exact h.deferred ((hnew o ho).2 hr)
  -- what does not mention the deferred news or the log is as it was
  exacts [h.tasks, h.active_lt, h.cursor_task]

/-! ### The actor's half of progress -/

/-- Between cohorts the flags are clear and there is nothing to say about workers. -/
theorem CohortInv.abortPending : CohortInv w.abortPending where
  __ := h
  exhaustion_idle _ := rfl
  errors_faulted _ := .inl rfl
  exhausted hx := absurd hx Bool.false_ne_true
  tasks _ ht := absurd ht not_mem_nil
  active_lt _ hc := by cases hc
  balance _ hc := by cases hc
  unfaulted _ hc := by cases hc
  exhausted_joined hx := absurd hx Bool.false_ne_true
  cursor_task _ ht := absurd ht not_mem_nil

theorem CohortInv.reset (hpend : w.pending = []) : CohortInv w.resetScanCohort := by
  have hsame : w.resetScanCohort = w.abortPending := by
    rw [World.abortPending, ← hpend]
  rw [hsame]
  exact h.abortPending

/-- A cohort that has joined with the exhausted flag set is cleanly exhausted. -/
theorem CohortInv.cleanlyExhausted (hpend : w.pending = [])
    (hx : w.scanExhausted) : ∃ c, CleanlyExhausted w.log c := by
  obtain ⟨c, hc, hjoined⟩ := h.exhausted_joined hx
  refine ⟨c, hjoined, h.unfaulted c hc (h.exhausted hx).1, ?_⟩
  rw [h.balance c hc, hpend, length_nil, Nat.add_zero]

theorem CohortInv.deferScanExhaustion (hpend : w.pending = [])
    (hx : w.scanExhausted) : CohortInv w.deferScanExhaustion := by
  unfold World.deferScanExhaustion
  split
  · exact h
  · obtain ⟨hf, hnil⟩ := h.exhausted hx
    exact { h with
      exclusive := fun he => absurd hnil he
      exhaustion_idle := fun _ => hpend
      deferred := fun _ => h.cleanlyExhausted hpend hx }

/-- Settling a cohort keeps the invariant; with no worker pending it clears both
flags. -/
theorem settleCohort_spec : CohortInv w.settleCohort ∧ w.settleCohort.pending = w.pending ∧
      (w.pending = [] → w.settleCohort.scanExhausted = false ∧
        w.settleCohort.scanFaulted = false) := by
  unfold settleCohort
  split
  · next hlen =>
    have hpend : w.pending = [] := length_eq_zero_iff.mp hlen
    split
    · exact ⟨h.reset hpend, rfl, fun _ => ⟨rfl, rfl⟩⟩
    · next hf =>
      split
      · next hx =>
        have hsame : w.deferScanExhaustion.pending = w.pending := by
          unfold deferScanExhaustion
          split <;> rfl
        exact ⟨(h.deferScanExhaustion hpend hx).reset (hsame.trans hpend), hsame, fun _ =>
          ⟨rfl, rfl⟩⟩
      · next hx =>
        have hflags : w.scanExhausted = false ∧ w.scanFaulted = false :=
          ⟨by simpa using hx, by simpa using hf⟩
        split
        · -- nobody waits: the idle cohort is forgotten, which is a reset of clear flags
          have hreset : { w with activeScan := none } = w.resetScanCohort := by
            rw [resetScanCohort, hflags.2, ← hflags.1]
          rw [hreset]
          exact ⟨h.reset hpend, rfl, fun _ => ⟨rfl, rfl⟩⟩
        · exact ⟨h, rfl, fun _ => hflags⟩
  · next hlen => exact ⟨h, rfl, fun hp => absurd (by rw [hp]; rfl) hlen⟩

end

section Spawn

variable (cfg : PoolConfig) (oracle : PoolOracle)

/-- A cursor that is used up stays used up when cohorts are added. -/
theorem cursorExhausted_append {scans more} {c} (h : CursorExhausted scans c) :
    CursorExhausted (scans ++ more) c := by
  obtain ⟨scan, hscan, hmax⟩ := h
  exact ⟨scan, getElem?_append_left (List.getElem?_eq_some_iff.mp hscan).1 ▸ hscan, hmax⟩

/-- What starting workers leaves alone. -/
structure SameQueue (w w' : World) : Prop where
  waiting_eq : w'.waitingAcquires = w.waitingAcquires
  cooldown_eq : w'.cooldown = w.cooldown
  errors_eq : w'.deferredAcquireErrors = w.deferredAcquireErrors
  exhaustion_eq : w'.deferredScanExhaustion = w.deferredScanExhaustion

theorem SameQueue.trans {w₁ w₂ w₃} (h₁ : SameQueue w₁ w₂) (h₂ : SameQueue w₂ w₃) :
    SameQueue w₁ w₃ :=
  ⟨h₂.waiting_eq.trans h₁.waiting_eq, h₂.cooldown_eq.trans h₁.cooldown_eq,
    h₂.errors_eq.trans h₁.errors_eq, h₂.exhaustion_eq.trans h₁.exhaustion_eq⟩

theorem getOrInsertScan_queue (w : World) : SameQueue w (w.getOrInsertScan cfg oracle).1 := by
  unfold getOrInsertScan
  split <;> exact ⟨rfl, rfl, rfl, rfl⟩

variable {w : World}

variable (h : CohortInv w)

include h

/-- A cohort that does not exist yet has left no record. -/
theorem CohortInv.no_record : w.log.count (.spawned w.scans.length) = 0 ∧
      w.log.countP (isJoinOf w.scans.length) = 0 ∧ ∀ r, .joined w.scans.length r ∉ w.log := by
  have hno : ∀ o ∈ w.log, o.cohort ≠ some w.scans.length := fun o ho hc =>
    absurd (h.fresh o ho _ hc) (lt_irrefl _)
  refine ⟨count_eq_zero.mpr fun hmem => hno _ hmem rfl, countP_eq_zero.mpr ?_, fun r hmem =>
    hno _ hmem rfl⟩
  intro o ho hjoin
  cases o with
  | joined c r =>
    simp only [isJoinOf, decide_eq_true_eq] at hjoin
    exact hno _ ho (by rw [cohort, hjoin])
  | _ => simp [isJoinOf] at hjoin

/-- Starting a cohort: the actor has an active one afterwards. -/
theorem CohortInv.getOrInsertScan : CohortInv (w.getOrInsertScan cfg oracle).1 ∧
      (w.getOrInsertScan cfg oracle).1.activeScan = some (w.getOrInsertScan cfg oracle).2 := by
  unfold World.getOrInsertScan
  cases hactive : w.activeScan with
  | some c => exact ⟨h, hactive⟩
  | none =>
    have hpend : w.pending = [] := by
      rw [eq_nil_iff_forall_not_mem]
      intro t ht
      have := h.tasks t ht
      rw [hactive] at this
      simp at this
    obtain ⟨hspawn, hjoined, hno⟩ := h.no_record
    refine ⟨?_, rfl⟩
    exact { h with
      tasks := fun t ht => absurd (hpend ▸ ht) not_mem_nil
      active_lt := fun c hc => by
        rw [← Option.some.inj hc, length_append]
        exact Nat.lt_add_one _
      fresh := fun o ho c hc => by
        rw [length_append]
        exact Nat.lt_add_right _ (h.fresh o ho c hc)
      balance := fun c hc => by
        cases hc
        rw [hspawn, hjoined, hpend]
        rfl
      unfaulted := fun c hc _ r hr => by
        cases hc
        exact absurd hr (hno r)
      exhausted_joined := fun hx => by
        obtain ⟨c, hc, -⟩ := h.exhausted_joined hx
        rw [hactive] at hc
        simp at hc
      cursor_task := fun t ht hr => cursorExhausted_append (h.cursor_task t ht hr)
      cursor_log := fun c hc => cursorExhausted_append (h.cursor_log c hc) }

/-- One more worker of the active cohort, started while nothing is deferred. -/
theorem CohortInv.spawnScan (herr : w.deferredAcquireErrors = [])
    (hexh : w.deferredScanExhaustion = false) :
    CohortInv (w.spawnScan cfg oracle) ∧ SameQueue w (w.spawnScan cfg oracle) ∧
      (w.spawnScan cfg oracle).pending ≠ [] := by
  obtain ⟨hv, hactive⟩ := h.getOrInsertScan cfg oracle
  have hqueue := getOrInsertScan_queue cfg oracle w
  unfold World.spawnScan
  generalize w.getOrInsertScan cfg oracle = p at hv hactive hqueue
  obtain ⟨v, cohort⟩ := p
  dsimp only at hv hactive hqueue ⊢
  rw [← hqueue.errors_eq] at herr
  rw [← hqueue.exhaustion_eq] at hexh
  refine ⟨?_, ⟨hqueue.waiting_eq, hqueue.cooldown_eq, hqueue.errors_eq,
    hqueue.exhaustion_eq⟩, by simp⟩
  exact { hv with
    exhaustion_idle := fun hx => absurd (hexh.symm.trans hx) Bool.false_ne_true
    errors_faulted := fun he => absurd herr he
    tasks := forall_mem_append.mpr ⟨hv.tasks, forall_mem_singleton.mpr hactive⟩
    fresh := forall_mem_cons.mpr ⟨fun c hc => hv.active_lt c (hactive.trans hc), hv.fresh⟩
    balance := fun c hc => by
      obtain rfl : cohort = c := Option.some.inj (hactive.symm.trans hc)
      have hb := hv.balance cohort hactive
      rw [count_cons_self, countP_cons_of_neg (by simp [isJoinOf]), length_append, length_singleton]
      omega
    unfaulted := fun c hc hf r hr => hv.unfaulted c hc hf r ((mem_cons.mp hr).resolve_left nofun)
    exhausted_joined := fun hx => by
      obtain ⟨c, hc, hj⟩ := hv.exhausted_joined hx
      exact ⟨c, hc, mem_cons_of_mem _ hj⟩
    cursor_task := forall_mem_append.mpr ⟨hv.cursor_task, forall_mem_singleton.mpr nofun⟩
    cursor_log := fun c hc => hv.cursor_log c ((mem_cons.mp hc).resolve_left nofun)
    deferred := fun hx => absurd (hexh.symm.trans hx) Bool.false_ne_true
    justified := ⟨hv.justified, fun ⟨_, hr⟩ => by simp at hr⟩ }

theorem CohortInv.spawnScans (n : ℕ) (herr : w.deferredAcquireErrors = [])
    (hexh : w.deferredScanExhaustion = false) :
    CohortInv (spawnScans cfg oracle n w) ∧ SameQueue w (World.spawnScans cfg oracle n w) ∧
      (0 < n ∨ w.pending ≠ [] → (World.spawnScans cfg oracle n w).pending ≠ []) := by
  induction n generalizing w with
  | zero => exact ⟨h, ⟨rfl, rfl, rfl, rfl⟩, fun hp => hp.resolve_left (lt_irrefl 0)⟩
  | succ n ih =>
    obtain ⟨h', hqueue, hne⟩ := h.spawnScan cfg oracle herr hexh
    obtain ⟨h'', hqueue', hne'⟩ := ih h' (hqueue.errors_eq.trans herr)
      (hqueue.exhaustion_eq.trans hexh)
    exact ⟨h'', hqueue.trans hqueue', fun _ => hne' (.inr hne)⟩

/-- `spawn_waiting_scans`: whoever waits with nothing deferred, no flag set and no
worker pending gets one. -/
theorem spawnWaitingScans_spec :
    CohortInv (w.spawnWaitingScans cfg oracle) ∧ SameQueue w (w.spawnWaitingScans cfg oracle) ∧
      (w.pending ≠ [] → (w.spawnWaitingScans cfg oracle).pending ≠ []) ∧
      (w.active → w.waitingAcquires ≠ [] → w.deferredAcquireErrors = [] →
        w.deferredScanExhaustion = false → w.scanExhausted = false → w.scanFaulted = false →
        (w.spawnWaitingScans cfg oracle).pending ≠ []) := by
  unfold spawnWaitingScans
  split
  · next hflags =>
    refine ⟨h, ⟨rfl, rfl, rfl, rfl⟩, id, fun _ _ _ _ hx hf => ?_⟩
    rw [hx, hf] at hflags
    simp at hflags
  · by_cases hidle : w.scansToSpawn w.pending.length = 0
    · rw [hidle]
      refine ⟨h, ⟨rfl, rfl, rfl, rfl⟩, id, fun hact hwait herr hexh _ _ hnil => ?_⟩
      -- four workers may run, and somebody waits
      have hpos : 0 < w.waitingAcquires.length := length_pos_iff.mpr hwait
      have hnil : w.pending = [] := hnil
      simp only [scansToSpawn, hact, herr, hexh, hnil, isEmpty_nil, Bool.not_true,
        Bool.or_false, Bool.false_eq_true, if_false, length_nil, maxPending] at hidle
      omega
    · have hclear : w.deferredAcquireErrors = [] ∧ w.deferredScanExhaustion = false := by
        unfold scansToSpawn at hidle
        split at hidle
        · exact absurd rfl hidle
        · next hguard =>
          simp only [Bool.or_eq_true, Bool.not_eq_true', not_or, Bool.not_eq_false,
            List.isEmpty_iff, Bool.not_eq_true] at hguard
          exact ⟨hguard.1.2, hguard.2⟩
      obtain ⟨h', hqueue, hne⟩ := h.spawnScans cfg oracle (w.scansToSpawn w.pending.length)
        hclear.1 hclear.2
      exact ⟨h', hqueue, fun hp => hne (.inr hp), fun _ _ _ _ _ _ =>
        hne (.inl (Nat.pos_of_ne_zero hidle))⟩

/-- Somebody will wake the actor. -/
def Progressing (w : World) : Prop :=
  w.waitingAcquires ≠ [] → w.pending ≠ [] ∨ w.nextCooldownDeadline.isSome = true

/-- **`ensure_waiting_progress` keeps the bookkeeping and establishes progress.** -/
theorem ensureWaitingProgress_spec : CohortInv (w.ensureWaitingProgress cfg oracle) ∧
      Progressing (w.ensureWaitingProgress cfg oracle) := by
  obtain ⟨hs, hpend, hflags⟩ := settleCohort_spec h
  obtain ⟨hmove, hactive, hdown, hidle⟩ :=
    poolEnsureWaitingProgress_spec oracle w.pending.length hs.errors_ne hs.exclusive
  have hv := hs.poolMove hmove
  obtain ⟨hw', hqueue, hkeep, hstart⟩ := spawnWaitingScans_spec cfg oracle hv
  refine ⟨hw', fun hwait => ?_⟩
  unfold ensureWaitingProgress at hwait ⊢
  dsimp only at hwait ⊢
  generalize poolEnsureWaitingProgress oracle w.settleCohort w.pending.length = v at *
  rw [hqueue.waiting_eq] at hwait
  by_cases hp : w.pending = []
  · obtain ⟨hx, hf⟩ := hflags hp
    rcases hidle (by rw [hp]; rfl) hwait with htimer | ⟨herr, hexh⟩
    · right
      rw [nextCooldownDeadline, hqueue.cooldown_eq]
      exact htimer
    · left
      have hup : v.active := by
        by_contra hdown'
        rw [hactive] at hdown'
        exact hwait (hdown (by simpa using hdown'))
      exact hstart hup hwait herr hexh (hmove.scanExhausted_eq.trans hx)
        (hmove.scanFaulted_eq.trans hf)
  · left
    exact hkeep (by rw [hmove.pending_eq, hpend]; exact hp)

end Spawn

/-! ### The handlers -/

section Handlers

variable (cfg : PoolConfig) (oracle : PoolOracle)

theorem applyReturn_move (w : World) (action) (index : ℕ) :
    PoolMove w (w.applyReturn cfg oracle action index) := by
  have hrel : PoolMove w (w.releaseClaim cfg oracle index) := by
    unfold releaseClaim
    split
    · exact .refl w
    · split
      · exact .refl w
      · exact .record rfl rfl rfl rfl rfl fun ⟨_, h⟩ => by simp at h
  cases action with
  | releaseClean => exact hrel
  | retireUncertain => exact hrel
  | discard => exact .record rfl rfl rfl rfl rfl fun ⟨_, h⟩ => by simp at h

variable {w : World}

variable (h : CohortInv w)

include h

theorem handleAcquire_move (respondTo pendingScans : ℕ) :
    PoolMove w (w.handleAcquire oracle respondTo pendingScans) := by
  unfold handleAcquire
  split
  · next hdown =>
    refine answerError_move fun _ hup => ?_
    rw [hup] at hdown
    simp at hdown
  · have hpush : PoolMove w { w with waitingAcquires := w.waitingAcquires ++ [respondTo] } :=
      .idle rfl rfl
    have h' := h.poolMove hpush
    exact hpush.trans (poolEnsureWaitingProgress_spec oracle pendingScans h'.errors_ne
      h'.exclusive).1

/-- A cleanup leaves no workers, no flags and nothing deferred. -/
theorem CohortInv.cleanup : CohortInv w.beginCleanup.abortPending.finishCleanup := by
  have hdown : PoolMove w { w with active := false } :=
    .idle rfl rfl
  have hbegin : CohortInv w.beginCleanup := h.poolMove (hdown.trans
    ((failAllWaiters_move fun hup => absurd hup Bool.false_ne_true).trans (clearDeferred_move _)))
  exact hbegin.abortPending.poolMove (.idle rfl rfl)

theorem handleCommand_inv (command) : CohortInv (w.handleCommand cfg oracle command) := by
  cases command with
  | acquire respondTo =>
    exact (spawnWaitingScans_spec cfg oracle (h.poolMove (handleAcquire_move oracle h _ _))).1
  | returnLease action index =>
    exact (ensureWaitingProgress_spec cfg oracle
      (h.poolMove (applyReturn_move cfg oracle w action index))).1
  | cleanup => exact h.cleanup

/-! ### Joining a worker -/

/-- The state in which the result of a joined worker is handled. -/
def afterJoin (w : World) (n cohort : ℕ) (result : ScanResult) : World :=
  { w with pending := w.pending.eraseIdx n, log := .joined cohort result :: w.log }

section Join

variable {n cohort : ℕ} {result : ScanResult}

variable (hn : w.pending[n]? = some ⟨cohort, some result⟩)

include hn

/-- Before a join there was a pending worker, so no exhaustion is deferred, and
errors only if the cohort has faulted. -/
theorem CohortInv.of_join : w.activeScan = some cohort ∧ w.deferredScanExhaustion = false ∧
      (w.scanFaulted = false → w.deferredAcquireErrors = []) := by
  have hmem : (⟨cohort, some result⟩ : ScanTask) ∈ w.pending := mem_of_getElem? hn
  have hne : w.pending ≠ [] := ne_nil_of_mem hmem
  refine ⟨h.tasks _ hmem, ?_, fun hf => ?_⟩
  · by_contra hx
    exact hne (h.exhaustion_idle (by simpa using hx))
  · by_contra he
    rcases h.errors_faulted he with hnil | htrue
    · exact hne hnil
    · rw [htrue] at hf
      simp at hf

/-- The invariant after a join, for flags that have taken the result in. -/
theorem CohortInv.afterJoin {exhausted faulted} {errors} (herr : ∀ e ∈ errors, e ≠ .noFreeDevice)
    (hfaulted : faulted = false → w.scanFaulted = false ∧ result.isFault = false ∧ errors = [])
    (hexhausted : exhausted = true → faulted = false ∧
      (w.scanExhausted = true ∨ result = .failed .noFreeDevice)) :
    CohortInv { w.afterJoin n cohort result with
      scanExhausted := exhausted, scanFaulted := faulted, deferredAcquireErrors := errors } := by
  obtain ⟨hactive, hexh, -⟩ := h.of_join hn
  obtain ⟨hlt, -⟩ := List.getElem?_eq_some_iff.mp hn
  have hsub : ∀ t ∈ w.pending.eraseIdx n, t ∈ w.pending := fun t ht => mem_of_mem_eraseIdx ht
  exact {
    errors_ne := herr
    exclusive := fun _ => hexh
    exhaustion_idle := fun hx => absurd (hexh.symm.trans hx) Bool.false_ne_true
    errors_faulted := fun he => by
      right
      by_contra hf
      exact he (hfaulted (by simpa using hf)).2.2
    exhausted := fun hx => ⟨(hexhausted hx).1, (hfaulted (hexhausted hx).1).2.2⟩
    tasks := fun t ht => h.tasks t (hsub t ht)
    active_lt := h.active_lt
    fresh := forall_mem_cons.mpr ⟨fun c hc => h.active_lt c (hactive.trans hc), h.fresh⟩
    balance := fun c hc => by
      obtain rfl : cohort = c := Option.some.inj (hactive.symm.trans hc)
      have hb := h.balance cohort hactive
      show (joined cohort result :: w.log).count _
        = (joined cohort result :: w.log).countP _ + (w.pending.eraseIdx n).length
      rw [count_cons_of_ne (by simp), countP_cons_of_pos (by simp [isJoinOf]),
        length_eraseIdx_of_lt hlt]
      omega
    unfaulted := fun c hc hf r hr => by
      obtain ⟨hf, hres, -⟩ := hfaulted hf
      rcases mem_cons.mp hr with hr | hr
      · simp only [joined.injEq] at hr
        rw [hr.2]
        exact hres
      · exact h.unfaulted c hc hf r hr
    exhausted_joined := fun hx => by
      rcases (hexhausted hx).2 with hx | rfl
      · obtain ⟨c, hc, hj⟩ := h.exhausted_joined hx
        exact ⟨c, hc, mem_cons_of_mem _ hj⟩
      · exact ⟨cohort, hactive, mem_cons_self⟩
    cursor_task := fun t ht hr => h.cursor_task t (hsub t ht) hr
    cursor_log := fun c hc => by
      rcases mem_cons.mp hc with hc | hc
      · simp only [joined.injEq] at hc
        rw [hc.1]
        exact h.cursor_task _ (mem_of_getElem? hn) (by rw [hc.2])
      · exact h.cursor_log c hc
    deferred := fun hx => absurd (hexh.symm.trans hx) Bool.false_ne_true
    justified := ⟨h.justified, fun ⟨_, hr⟩ => by simp at hr⟩ }

/-- A fault: the cohort can no longer prove exhaustion, and the error is kept for
somebody who waits. -/
theorem CohortInv.handleScanFault {error} (herror : error ≠ .noFreeDevice) :
    CohortInv ((w.afterJoin n cohort result).handleScanFault error) := by
  have hkeep : ∀ errors : List NbdCowError, (∀ e ∈ errors, e ≠ .noFreeDevice) →
      CohortInv { w.afterJoin n cohort result with
        scanExhausted := false, scanFaulted := true, deferredAcquireErrors := errors } :=
    fun errors herr => h.afterJoin hn herr (fun hf => by simp at hf) fun hx => by simp at hx
  unfold World.handleScanFault deferAcquireError
  split
  · exact hkeep w.deferredAcquireErrors h.errors_ne
  · exact hkeep _ (forall_mem_append.mpr ⟨h.errors_ne, forall_mem_singleton.mpr herror⟩)

/-- **Joining a worker keeps the bookkeeping**, whatever it brings. -/
theorem CohortInv.handleScanJoin :
    CohortInv ((w.afterJoin n cohort result).handleScanJoin result) := by
  obtain ⟨-, -, hclear⟩ := h.of_join hn
  -- flags and errors as they were: right for every result that is no news
  have hsame : (w.scanFaulted = false → result.isFault = false) →
      CohortInv (w.afterJoin n cohort result) := fun hres =>
    h.afterJoin hn h.errors_ne (fun hf => ⟨hf, hres hf, hclear hf⟩) fun hx =>
      ⟨(h.exhausted hx).1, .inl hx⟩
  cases result with
  | claim index =>
    have hclaim := hsame fun _ => rfl
    simp only [World.handleScanJoin, handleScanClaim]
    split
    · exact hclaim
    · exact hclaim.poolMove (assignLoop_move _ _ _ _)
  | joinError message =>
    exact h.handleScanFault hn (by simp [ioOther])
  | failed error =>
    by_cases hfree : error = .noFreeDevice
    · subst hfree
      simp only [World.handleScanJoin]
      split
      · next hf =>
        have hf : w.scanFaulted := hf
        exact hsame fun hfalse => by rw [hf] at hfalse; simp at hfalse
      · next hf =>
        have hf : w.scanFaulted = false := Bool.eq_false_iff.mpr hf
        exact h.afterJoin hn h.errors_ne (fun hf => ⟨hf, by simp [ScanResult.isFault], hclear hf⟩)
          fun _ => ⟨hf, .inr rfl⟩
    · have hfault : (w.afterJoin n cohort (.failed error)).handleScanJoin (.failed error)
          = (w.afterJoin n cohort (.failed error)).handleScanFault error := by
        cases error <;> first | rfl | exact absurd rfl hfree
      rw [hfault]
      exact h.handleScanFault hn hfree

end Join

/-! ### The scan workers -/

/-- A worker that gets a result keeps its place and its cohort. -/
theorem CohortInv.setResult {n cohort} (hn : w.pending[n]? = some ⟨cohort, none⟩) (result)
    (hcur : result = .failed .noFreeDevice → CursorExhausted w.scans cohort) :
    CohortInv { w with pending := w.pending.set n ⟨cohort, some result⟩ } := by
  have hmem : (⟨cohort, none⟩ : ScanTask) ∈ w.pending := mem_of_getElem? hn
  have hne : w.pending ≠ [] := ne_nil_of_mem hmem
  have hof : ∀ t ∈ w.pending.set n ⟨cohort, some result⟩, t ∈ w.pending ∨
    t = ⟨cohort, some result⟩ :=
    fun t ht => mem_or_eq_of_mem_set ht
  exact { h with
    exhaustion_idle := fun hx => absurd (h.exhaustion_idle hx) hne
    errors_faulted := fun he => .inr ((h.errors_faulted he).resolve_left hne)
    tasks := fun t ht => by
      rcases hof t ht with ht | rfl
      · exact h.tasks t ht
      · show w.activeScan = some cohort
        exact h.tasks _ hmem
    balance := fun c hc => by
      rw [length_set]
      exact h.balance c hc
    cursor_task := fun t ht hr => by
      rcases hof t ht with ht | rfl
      · exact h.cursor_task t ht hr
      · exact hcur (Option.some.inj hr) }

/-- Moving a cursor on does not un-exhaust any. -/
theorem CohortInv.advance {cohort} {scan} (hscan : w.scans[cohort]? = some scan) :
    CohortInv { w with
        scans := w.scans.set cohort { scan with nextOffset := scan.nextOffset + 1 } } := by
  have hcur : ∀ c, CursorExhausted w.scans c →
      CursorExhausted (w.scans.set cohort { scan with nextOffset := scan.nextOffset + 1 }) c := by
    rintro c ⟨other, hother, hmax⟩
    obtain ⟨hlt, -⟩ := List.getElem?_eq_some_iff.mp hscan
    by_cases hc : cohort = c
    · subst hc
      obtain rfl := Option.some.inj (hscan.symm.trans hother)
      exact ⟨_, getElem?_set_self hlt, Nat.le_succ_of_le hmax⟩
    · exact ⟨other, by rw [getElem?_set_ne hc]; exact hother, hmax⟩
  exact { h with
    active_lt := fun c hc => by rw [length_set]; exact h.active_lt c hc
    fresh := fun o ho c hc => by rw [length_set]; exact h.fresh o ho c hc
    cursor_task := fun t ht hr => hcur _ (h.cursor_task t ht hr)
    cursor_log := fun c hc => hcur c (h.cursor_log c hc) }

/-- What a turn of a worker leaves alone. -/
theorem probeStep_spec {w'} {n} {probe} (hstep : probeStep w n probe = some w') :
    CohortInv w' ∧ w'.waitingAcquires = w.waitingAcquires ∧ w'.cooldown = w.cooldown ∧
      w'.pending.length = w.pending.length := by
  unfold probeStep at hstep
  split at hstep
  · next cohort hn =>
    split at hstep
    · simp at hstep
    · next scan hscan =>
      split at hstep
      · dsimp only at hstep
        split at hstep
        · cases hstep
          exact ⟨h.advance hscan, rfl, rfl, rfl⟩
        · split at hstep
          · cases hstep
            exact ⟨(h.advance hscan).setResult hn _ (by simp), rfl, rfl, length_set⟩
          · simp at hstep
      · next hmax =>
        cases hstep
        exact ⟨h.setResult hn _ fun _ => ⟨scan, hscan, not_lt.mp hmax⟩, rfl, rfl, length_set⟩
  · simp at hstep

end Handlers

end World
end Okou.Nbd
