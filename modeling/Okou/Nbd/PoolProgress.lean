import Okou.Nbd.PoolCohort

/-!
# No acquire is stranded

Whenever the actor waits in its `select!` with an acquire still queued, something
is due that will wake it: a scan worker to join, or a cooldown slot to expire.
And an acquire is refused with `NoFreeDevice` only on the word of a whole cohort
of workers, all joined, none faulted, one of them at the end of the cursor.
-/

namespace Okou.Nbd

open List
namespace World

/-! ### Runs -/

theorem CohortInv.init : CohortInv World.init where
  errors_ne _ he := absurd he not_mem_nil
  exclusive _ := rfl
  exhaustion_idle _ := rfl
  errors_faulted _ := .inl rfl
  exhausted hx := absurd hx Bool.false_ne_true
  tasks _ ht := absurd ht not_mem_nil
  active_lt _ hc := by cases hc
  fresh _ ho := absurd ho not_mem_nil
  balance _ hc := by cases hc
  unfaulted _ hc := by cases hc
  exhausted_joined hx := absurd hx Bool.false_ne_true
  cursor_task _ ht := absurd ht not_mem_nil
  cursor_log _ hc := absurd hc not_mem_nil
  deferred hx := absurd hx Bool.false_ne_true
  justified := trivial

/-- Progress survives what does not concern it. -/
theorem Progressing.of_eq {w w'} (h : Progressing w)
    (hwait : w'.waitingAcquires = w.waitingAcquires)
    (hcool : w'.cooldown = w.cooldown) (hpend : w'.pending.length = w.pending.length) :
      Progressing w' := by
  intro hne
  rw [hwait] at hne
  rcases h hne with hp | htimer
  · left
    rw [← length_pos_iff] at hp ⊢
    rw [hpend]
    exact hp
  · right
    rw [nextCooldownDeadline, hcool]
    exact htimer

/-- **Every event keeps the bookkeeping and the progress.** -/
theorem poolStep_spec (cfg) (oracle) {w w'} (h : CohortInv w) (hp : Progressing w)
    {event} (hstep : poolStep cfg oracle w event = some w') : CohortInv w' ∧ Progressing w' := by
  -- the surroundings only make moves that leave acquires and slots alone
  have hquiet : ∀ v : World, PoolMove w v → v.waitingAcquires = w.waitingAcquires →
      v.cooldown = w.cooldown → CohortInv v ∧ Progressing v := fun v hm hwait hcool =>
    ⟨h.poolMove hm, hp.of_eq hwait hcool (by rw [hm.pending_eq])⟩
  cases event with
  | acquire | cleanup | cloneHandle | dropHandle =>
    obtain ⟨_, ⟨⟩⟩ := Option.ite_none_right_eq_some.mp hstep
    exact hquiet _ (.idle rfl rfl) rfl rfl
  | dropAcquire acquire =>
    simp only [poolStep] at hstep
    split at hstep
    · cases hstep
      exact hquiet _ (.record rfl rfl rfl rfl rfl fun ⟨_, hr⟩ => by simp at hr) rfl rfl
    · cases hstep
      exact hquiet _ (.idle rfl rfl) rfl rfl
  | receive acquire =>
    cases hstep
    exact hquiet _ (.idle rfl rfl) rfl rfl
  | returnLease n action =>
    simp only [poolStep] at hstep
    split at hstep
    · obtain ⟨_, ⟨⟩⟩ := Option.ite_none_right_eq_some.mp hstep
      exact hquiet _ (.idle rfl rfl) rfl rfl
    · simp at hstep
  | dropLease n =>
    simp only [poolStep] at hstep
    split at hstep
    · obtain ⟨_, ⟨⟩⟩ := Option.ite_none_right_eq_some.mp hstep
      exact hquiet _ (.record rfl rfl rfl rfl rfl fun ⟨_, hr⟩ => by simp at hr) rfl rfl
    · simp at hstep
  | scanProbe n probe =>
    obtain ⟨h', hwait, hcool, hlen⟩ := probeStep_spec h hstep
    exact ⟨h', hp.of_eq hwait hcool hlen⟩
  | scanFault n result =>
    simp only [poolStep] at hstep
    split at hstep
    · next cohort hn =>
      obtain ⟨hfault, ⟨⟩⟩ := Option.ite_none_right_eq_some.mp hstep
      refine ⟨h.setResult hn result fun hr => ?_, hp.of_eq rfl rfl length_set⟩
      rw [hr] at hfault
      cases hfault
    · simp at hstep
  | command =>
    simp only [poolStep] at hstep
    split at hstep
    · simp at hstep
    · next command queue _ =>
      cases hstep
      have hpop : PoolMove w { w with queue := queue } :=
        .idle rfl rfl
      exact ensureWaitingProgress_spec cfg oracle
        (handleCommand_inv cfg oracle (h.poolMove hpop) command)
  | join n =>
    simp only [poolStep] at hstep
    split at hstep
    · next cohort result hn =>
      cases hstep
      have hjoin := h.handleScanJoin hn
      exact ensureWaitingProgress_spec cfg oracle (ensureWaitingProgress_spec cfg oracle hjoin).1
    · simp at hstep
  | deadline =>
    obtain ⟨_, ⟨⟩⟩ := Option.ite_none_right_eq_some.mp hstep
    have hexp := h.poolMove (processExpiredCooldown_move oracle w).1
    exact ensureWaitingProgress_spec cfg oracle (ensureWaitingProgress_spec cfg oracle hexp).1

/-- A justified log, read in order of time. -/
theorem justifiedLog_split {log} (h : JustifiedLog log) {before after} {o}
    (hlog : log.reverse = before ++ o :: after) (ho : o.isRefusal) : ∃ c,
      CleanlyExhausted before c := by
  have hlog' : log = after.reverse ++ o :: before.reverse := by
    have := congrArg List.reverse hlog
    simpa using this
  have htail : ∀ front : List PoolObs, JustifiedLog (front ++ o :: before.reverse) →
      ∃ c, CleanlyExhausted before.reverse c := by
    intro front
    induction front with
    | nil => exact fun hj => hj.2 ho
    | cons p front ih => exact fun hj => ih hj.1
  obtain ⟨c, hc⟩ := htail after.reverse (hlog' ▸ h)
  refine ⟨c, mem_reverse.mp hc.exhausted, fun r hr => hc.clean r (mem_reverse.mpr hr), ?_⟩
  have := hc.complete
  rwa [count_reverse, countP_reverse] at this

end World

/-- **The pool never strands an acquire.**  In every run, at every `select!` of the
actor: if an acquire is queued, a scan worker is pending or the front cooldown
slot has a deadline.  And whenever an active pool answers an acquire with
`NoFreeDevice`, a cohort has joined completely before that, without a fault, and
with a worker that found the shared cursor used up. -/
theorem pool_never_strands (cfg : PoolConfig) (oracle : PoolOracle) (events : List PoolEvent)
    {w : World} (hrun : runEvents (poolStep cfg oracle) World.init events = some w) :
    (w.waitingAcquires ≠ [] → w.pending ≠ [] ∨ ∃ deadline, w.nextCooldownDeadline = some deadline) ∧
    ∀ before acquire after, w.log.reverse = before ++
      .answered acquire .noFreeDevice true :: after →
      ∃ c, CleanlyExhausted before c ∧ CursorExhausted w.scans c := by
  obtain ⟨h, hp⟩ := runEvents_invariant (fun w => World.CohortInv w ∧ World.Progressing w)
    (fun s e s' hs hstep => World.poolStep_spec cfg oracle hs.1 hs.2 hstep)
    ⟨World.CohortInv.init, fun hne => absurd rfl hne⟩ hrun
  refine ⟨fun hne => ?_, fun before acquire after hlog => ?_⟩
  · exact (hp hne).imp id Option.isSome_iff_exists.mp
  · obtain ⟨c, hc⟩ := World.justifiedLog_split h.justified hlog ⟨acquire, rfl⟩
    refine ⟨c, hc, h.cursor_log c ?_⟩
    rw [← mem_reverse, hlog]
    exact mem_append_left _ hc.exhausted

/-- Two devices, of which the second is never free, under a clock that ticks at each reading. -/
def twoDevices : World → PoolEvent → Option World :=
  poolStep ⟨10, 2, 100⟩ ⟨fun n => n, fun _ _ => true, fun _ => 0⟩

/-- The first device is leased and returned, and the next acquire finds it cooling down. -/
def coolingRun : List PoolEvent :=
  [.acquire, .command, .scanProbe 0 .take, .join 0, .receive 0, .returnLease 0 .releaseClean,
    .command,
    .acquire, .command, .scanProbe 0 .skip, .scanProbe 0 .skip, .scanProbe 0 .skip, .join 0]

/-- The acquire waits for the cooldown.  It then gets the device, and the next one is refused. -/
theorem pool_never_strands_cooling :
    (∃ w, runEvents twoDevices World.init coolingRun = some w ∧
      (w.waitingAcquires = [1] ∧ w.pending = []) ∧
      ∃ deadline, w.nextCooldownDeadline = some deadline) ∧
    ∃ w, runEvents twoDevices World.init (coolingRun ++
        [.deadline, .receive 1, .acquire, .command, .scanProbe 0 .skip, .scanProbe 0 .skip,
          .scanProbe 0 .skip, .join 0]) = some w ∧
      w.log.head? = some (.answered 2 .noFreeDevice true) ∧
      ∃ c, CleanlyExhausted w.log.tail.reverse c ∧ CursorExhausted w.scans c := by
  constructor
  · refine exists_run_and (by decide +kernel) fun w hrun ⟨hwait, hpend⟩ => ?_
    exact ((pool_never_strands _ _ _ hrun).1 (by simp [hwait])).resolve_left (absurd hpend)
  · refine exists_run_and (by decide +kernel) fun w hrun hhead => ?_
    refine (pool_never_strands _ _ _ hrun).2 _ 2 [] ?_
    rw [← reverse_cons, ← eq_cons_of_mem_head? hhead]

end Okou.Nbd
