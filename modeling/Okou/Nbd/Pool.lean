import Mathlib.Data.Finset.Basic
import Okou.Lib.Machine
import Okou.Nbd.File

/-!
# The NBD device pool

`pool/state.rs`, `pool/actor.rs`, `pool/lease.rs` and `pool/scan.rs`: an actor
that hands out `/dev/nbdN` claims.  It serves queued acquires from demand scans,
which run on other threads and share a cursor, and from released claims whose
cooldown has expired.

The model is the actor together with its surroundings: the command queue, the
clients with their receivers and leases, the handles, and the scan workers.  The
actor runs one handler at a time; what the others do meanwhile only appends to
the queue, drops receivers or finishes scans, none of which a handler can tell
from its having happened before or after.  Readings of the clock and of sysfs
come from an oracle.

A claim is known by its index.  The per-index file lock is the guard of
`scanProbe`: a worker can take the claim of an index only while no other claim
of that index is alive.
-/

namespace Okou.Nbd

/-! ### Data -/

inductive LeaseReturnAction
  | releaseClean
  | discard
  | retireUncertain
  deriving DecidableEq, Repr

inductive DeviceAcquireSource
  | demandScan
  | cooledClaim
  deriving DecidableEq, Repr

/-- `CooldownExpiration`: at an instant, or never. -/
inductive CooldownExpiration
  | expires (deadline : ℕ)
  | never
  deriving DecidableEq, Repr

structure CooldownSlot where
  index : ℕ
  expiration : CooldownExpiration
  deriving DecidableEq, Repr

def CooldownSlot.deadline (slot : CooldownSlot) : Option ℕ :=
  match slot.expiration with
  | .expires deadline => some deadline
  | .never => none

/-- `DevicePoolCommand`; an acquire is known by the receiver it responds to. -/
inductive PoolCommand
  | acquire (respondTo : ℕ)
  | returnLease (action : LeaseReturnAction) (index : ℕ)
  | cleanup
  deriving DecidableEq, Repr

/-- What a scan worker returns: a claim, an error, or the failure of its task. -/
inductive ScanResult
  | claim (index : ℕ)
  | failed (error : NbdCowError)
  | joinError (message : String)
  deriving DecidableEq, Repr

/-- `SharedScan`: the cursor the workers of one demand scan share. -/
structure SharedScan where
  maxDevices : ℕ
  start : ℕ
  nextOffset : ℕ
  exclude : Finset ℕ

/-- A worker in the `JoinSet`, with its result once it has one. -/
structure ScanTask where
  cohort : ℕ
  result : Option ScanResult
  deriving DecidableEq, Repr

/-- An outstanding `DeviceLease`.  Until the acquire that `inChannel` names has
received it, it sits in that acquire's channel. -/
structure DeviceLease where
  index : ℕ
  returnTo : Bool
  inChannel : Option ℕ
  deriving DecidableEq, Repr

/-- What is recorded of a run, for the statements about it. -/
inductive PoolObs
  | spawned (cohort : ℕ)
  | joined (cohort : ℕ) (result : ScanResult)
  | answered (acquire : ℕ) (error : NbdCowError) (active : Bool)
  | assigned (index : ℕ) (source : DeviceAcquireSource)
  | cooled (index : ℕ)
  | discarded (index : ℕ)
  | leaseDropped (index : ℕ)
  deriving DecidableEq, Repr

/-- The pool, its actor and their surroundings.  `log` has the latest record
first. -/
structure World where
  -- `DevicePool`
  active : Bool
  cooldown : List CooldownSlot
  deferredAcquireErrors : List NbdCowError
  deferredScanExhaustion : Bool
  waitingAcquires : List ℕ
  inFlight : Finset ℕ
  -- `DevicePoolActor`
  pending : List ScanTask
  activeScan : Option ℕ
  scanExhausted : Bool
  scanFaulted : Bool
  -- the surroundings
  scans : List SharedScan
  queue : List PoolCommand
  listening : Finset ℕ
  nextAcquire : ℕ
  leases : List DeviceLease
  handles : ℕ
  readings : ℕ
  log : List PoolObs

/-- The configuration of a pool, and the last instant the clock can represent. -/
structure PoolConfig where
  cooldown : ℕ
  maxDevices : ℕ
  lastInstant : ℕ

/-- What the outside world shows at each reading: the time, which devices appear
free, and the random start of a scan. -/
structure PoolOracle where
  now : ℕ → ℕ
  appearsFree : ℕ → ℕ → Bool
  randomOffset : ℕ → ℕ

def maxPending : ℕ := 4

namespace World

section Handlers

variable (cfg : PoolConfig) (oracle : PoolOracle)

variable (w : World) (respondTo index : ℕ) (error : NbdCowError) (pendingScans : ℕ)

def nextCooldownDeadline : Option ℕ := w.cooldown.head?.bind CooldownSlot.deadline

def cooldownTimerPending : Bool := w.nextCooldownDeadline.isSome

def trackedIndices : Finset ℕ := (w.cooldown.map CooldownSlot.index).toFinset ∪ w.inFlight

def isTracked : Bool :=
  decide (index ∈ w.inFlight) || w.cooldown.any fun slot => slot.index == index

/-! ### Answering acquires -/

/-- Whether the weak sender of the pool can be upgraded: a strong sender is held
by every handle and by every lease with a return path. -/
def canUpgrade : Bool := decide (0 < w.handles) || w.leases.any DeviceLease.returnTo

/-- The loop of `assign_claim_to_waiter` over the queued acquires.  A receiver that
is gone hands the claim back; when none is left the claim is dropped. -/
def assignLoop (index : ℕ) (source : DeviceAcquireSource) : List ℕ → World → World
  | [], w => { w with waitingAcquires := [] }
  | respondTo :: rest, w =>
    if respondTo ∈ w.listening then
      { w with
        waitingAcquires := rest
        listening := w.listening.erase respondTo
        leases := ⟨index, w.canUpgrade, some respondTo⟩ :: w.leases
        inFlight := insert index w.inFlight
        log := .assigned index source :: w.log }
    else assignLoop index source rest w

def assignClaimToWaiter (source : DeviceAcquireSource) : World :=
  assignLoop index source w.waitingAcquires w

/-- Send an error to a receiver. -/
def answerError : World :=
  { w with
    listening := w.listening.erase respondTo
    log := .answered respondTo error w.active :: w.log }

/-- `fail_one_waiter`: the error goes to the first receiver that is still there. -/
def failOneLoop (error : NbdCowError) : List ℕ → World → World
  | [], w => { w with waitingAcquires := [] }
  | respondTo :: rest, w =>
    if respondTo ∈ w.listening then
      { w.answerError respondTo error with waitingAcquires := rest }
    else failOneLoop error rest (w.answerError respondTo error)

def failOneWaiter : World :=
  failOneLoop error w.waitingAcquires w

/-- The loop of `fail_deferred_acquire_errors`. -/
def failDeferredLoop : List NbdCowError → World → World
  | [], w => { w with deferredAcquireErrors := [] }
  | error :: errors, w =>
    if w.waitingAcquires = [] then { w with deferredAcquireErrors := error :: errors }
    else failDeferredLoop errors (w.failOneWaiter error)

def failDeferredAcquireErrors : World :=
  let w := failDeferredLoop w.deferredAcquireErrors w
  if w.waitingAcquires = [] then { w with deferredAcquireErrors := [] } else w

def failAllWaiters : World :=
  { w.waitingAcquires.foldl (fun w respondTo => w.answerError respondTo .noFreeDevice) w with
    waitingAcquires := [] }

def deferAcquireError : World :=
  if w.waitingAcquires = [] then w
  else { w with deferredAcquireErrors := w.deferredAcquireErrors ++ [error] }

def deferScanExhaustion : World :=
  if w.waitingAcquires = [] then w else { w with deferredScanExhaustion := true }

/-! ### Cooldown -/

def handleExpiredCooldown (slot : CooldownSlot) : World :=
  if w.waitingAcquires = [] then w
  else
    let free := oracle.appearsFree w.readings slot.index
    let w := { w with readings := w.readings + 1 }
    if free then w.assignClaimToWaiter slot.index .cooledClaim else w

/-- The loop of `process_expired_cooldown` over the slots. -/
def expireLoop (now : ℕ) : List CooldownSlot → World → World
  | [], w => { w with cooldown := [] }
  | slot :: slots, w =>
    match slot.deadline with
    | none => { w with cooldown := slot :: slots }
    | some deadline =>
      if now < deadline then { w with cooldown := slot :: slots }
      else expireLoop now slots (handleExpiredCooldown oracle { w with cooldown := slots } slot)

def processExpiredCooldown : World :=
  expireLoop oracle (oracle.now w.readings) w.cooldown { w with readings := w.readings + 1 }

/-! ### Progress -/

/-- Forget what was deferred once nobody waits. -/
def clearDeferred : World :=
  { w with deferredAcquireErrors := [], deferredScanExhaustion := false }

/-- `DevicePool::ensure_waiting_progress`. -/
def poolEnsureWaitingProgress : World :=
  if !w.active then w.failAllWaiters
  else
    let w := processExpiredCooldown oracle w
    if w.waitingAcquires = [] then w.clearDeferred
    else
      let w :=
        if pendingScans = 0 ∧ w.cooldownTimerPending = false then
          if w.deferredAcquireErrors ≠ [] then w.failDeferredAcquireErrors
          else if w.deferredScanExhaustion then w.failAllWaiters
          else w
        else w
      if w.waitingAcquires = [] then w.clearDeferred else w

def scansToSpawn : ℕ :=
  if !w.active || !w.deferredAcquireErrors.isEmpty || w.deferredScanExhaustion then 0
  else min (maxPending - pendingScans) (w.waitingAcquires.length - pendingScans)

/-- `active_scan.get_or_insert_with(|| scan_request())`. -/
def getOrInsertScan : World × ℕ :=
  match w.activeScan with
  | some cohort => (w, cohort)
  | none =>
    ({ w with
        activeScan := some w.scans.length
        scans := w.scans ++ [⟨cfg.maxDevices, oracle.randomOffset w.readings, 0, w.trackedIndices⟩]
        readings := w.readings + 1 },
      w.scans.length)

def spawnScan : World :=
  let (w, cohort) := getOrInsertScan cfg oracle w
  { w with pending := w.pending ++ [⟨cohort, none⟩], log := .spawned cohort :: w.log }

/-- `n` times `spawn_scan`. -/
def spawnScans : ℕ → World → World
  | 0, w => w
  | n + 1, w => spawnScans n (spawnScan cfg oracle w)

def spawnWaitingScans : World :=
  if w.scanExhausted || w.scanFaulted then w
  else spawnScans cfg oracle (w.scansToSpawn w.pending.length) w

def resetScanCohort : World :=
  { w with activeScan := none, scanExhausted := false, scanFaulted := false }

/-- The first half of `DevicePoolActor::ensure_waiting_progress`: once every worker
has joined, the cohort is settled. -/
def settleCohort : World :=
  if w.pending.length = 0 then
    if w.scanFaulted then w.resetScanCohort
    else if w.scanExhausted then w.deferScanExhaustion.resetScanCohort
    else if w.waitingAcquires = [] then { w with activeScan := none }
    else w
  else w

def ensureWaitingProgress : World :=
  let pendingScans := w.pending.length
  spawnWaitingScans cfg oracle (poolEnsureWaitingProgress oracle w.settleCohort pendingScans)

/-! ### Handlers -/

def handleAcquire : World :=
  if !w.active then w.answerError respondTo .noFreeDevice
  else
    poolEnsureWaitingProgress oracle
      { w with waitingAcquires := w.waitingAcquires ++ [respondTo] } pendingScans

/-- `CooldownExpiration::from_release`. -/
def expirationFromRelease (releasedAt : ℕ) : CooldownExpiration :=
  if releasedAt + cfg.cooldown ≤ cfg.lastInstant then .expires (releasedAt + cfg.cooldown)
  else .never

def releaseClaim : World :=
  if !w.active then w
  else if index ∉ w.inFlight then w
  else
    { w with
      inFlight := w.inFlight.erase index
      cooldown := w.cooldown ++ [⟨index, expirationFromRelease cfg (oracle.now w.readings)⟩]
      readings := w.readings + 1
      log := .cooled index :: w.log }

def discardClaim : World :=
  { w with inFlight := w.inFlight.erase index, log := .discarded index :: w.log }

def retireUncertainClaim : World := releaseClaim cfg oracle w index

def beginCleanup : World := ({ w with active := false }).failAllWaiters.clearDeferred

/-- `abort_pending`: claims of workers that had one are dropped. -/
def abortPending : World := { w with pending := [] }.resetScanCohort

def finishCleanup : World := { w with cooldown := [], inFlight := ∅ }

/-- The match of a `ReturnLease` command. -/
def applyReturn (action : LeaseReturnAction) (index : ℕ) : World :=
  match action with
  | .releaseClean => releaseClaim cfg oracle w index
  | .discard => w.discardClaim index
  | .retireUncertain => retireUncertainClaim cfg oracle w index

def handleCommand : PoolCommand → World
  | .acquire respondTo =>
    spawnWaitingScans cfg oracle (handleAcquire oracle w respondTo w.pending.length)
  | .returnLease action index => ensureWaitingProgress cfg oracle
    (applyReturn cfg oracle w action index)
  | .cleanup => w.beginCleanup.abortPending.finishCleanup

def handleCooldownDeadline : World :=
  ensureWaitingProgress cfg oracle (processExpiredCooldown oracle w)

def handleScanClaim : World :=
  if w.isTracked index then w else w.assignClaimToWaiter index .demandScan

def handleScanFault : World :=
  { w with scanFaulted := true, scanExhausted := false }.deferAcquireError error

/-- `handle_scan_join` on a worker that has been taken out of the `JoinSet`. -/
def handleScanJoin : ScanResult → World
  | .claim index => w.handleScanClaim index
  | .failed .noFreeDevice => if w.scanFaulted then w else { w with scanExhausted := true }
  | .failed error => w.handleScanFault error
  | .joinError message => w.handleScanFault (ioOther s!"device scan task failed: {message}")

end Handlers

/-! ### Claims -/

/-- The index a queued return carries. -/
def returnedIndex : PoolCommand → Option ℕ
  | .returnLease _ index => some index
  | _ => none

/-- The index a finished worker has claimed. -/
def claimedIndex (task : ScanTask) : Option ℕ :=
  match task.result with
  | some (.claim index) => some index
  | _ => none

/-- The indices of all claims that are alive. -/
def liveClaims (w : World) : List ℕ :=
  w.cooldown.map CooldownSlot.index ++ (w.leases.map DeviceLease.index ++
    (w.queue.filterMap returnedIndex ++ w.pending.filterMap claimedIndex))

/-- `DeviceLease::drop` on a lease that has been taken out of `leases`. -/
def dropLease (w : World) (lease : DeviceLease) : World :=
  { w with
    queue := if lease.returnTo then w.queue ++ [.returnLease .retireUncertain lease.index]
      else w.queue
    log := .leaseDropped lease.index :: w.log }

end World

/-! ### Events -/

/-- What a worker finds at the index its cursor gave it. -/
inductive Probe
  | skip
  | take
  deriving DecidableEq, Repr

/-- What can happen next. -/
inductive PoolEvent
  /-- A client calls `acquire` on a handle. -/
  | acquire
  /-- A client drops the future of an acquire. -/
  | dropAcquire (acquire : ℕ)
  /-- The future of an acquire takes the lease out of its channel. -/
  | receive (acquire : ℕ)
  /-- The `n`-th outstanding lease is returned through a handle. -/
  | returnLease (n : ℕ) (action : LeaseReturnAction)
  /-- The `n`-th outstanding lease is dropped. -/
  | dropLease (n : ℕ)
  | cleanup
  | cloneHandle
  | dropHandle
  /-- The `n`-th worker takes an offset from its cursor, or finds none left. -/
  | scanProbe (n : ℕ) (probe : Probe)
  /-- The `n`-th worker fails. -/
  | scanFault (n : ℕ) (result : ScanResult)
  /-- The actor handles the next command. -/
  | command
  /-- The actor joins the `n`-th worker. -/
  | join (n : ℕ)
  /-- The actor wakes up for the front cooldown slot. -/
  | deadline
  deriving DecidableEq, Repr

/-- Whether a worker's result is a fault: neither a claim nor exhaustion. -/
def ScanResult.isFault : ScanResult → Bool
  | .claim _ => false
  | .failed error => decide (error ≠ .noFreeDevice)
  | .joinError _ => true

section Step

variable (cfg : PoolConfig) (oracle : PoolOracle)

/-- One turn of a worker: `next_index`, and what `scan_and_claim` makes of it.  A
claim needs the index not to be excluded and, by the file lock, no other claim
of it to be alive. -/
def probeStep (w : World) (n : ℕ) (probe : Probe) : Option World :=
  match w.pending[n]? with
  | some ⟨cohort, none⟩ =>
    match w.scans[cohort]? with
    | none => none
    | some scan =>
      if scan.nextOffset < scan.maxDevices then
        let index := (scan.start + scan.nextOffset) % scan.maxDevices
        let w' := { w with
            scans := w.scans.set cohort { scan with nextOffset := scan.nextOffset + 1 } }
        match probe with
        | .skip => some w'
        | .take =>
          if index ∉ scan.exclude ∧ index ∉ w.liveClaims then
            some { w' with pending := w.pending.set n ⟨cohort, some (.claim index)⟩ }
          else none
      else some { w with pending := w.pending.set n ⟨cohort, some (.failed .noFreeDevice)⟩ }
  | _ => none

/-- One event; `none` where it is not enabled.  An acquire borrows its handle, so
the last handle is dropped only when no acquire is under way.  The actor's own
events end where its loop comes back to its `select!`. -/
def poolStep (w : World) : PoolEvent → Option World
  | .acquire =>
    if 0 < w.handles then
      some { w with
        queue := w.queue ++ [.acquire w.nextAcquire]
        listening := insert w.nextAcquire w.listening
        nextAcquire := w.nextAcquire + 1 }
    else none
  | .dropAcquire acquire =>
    match w.leases.find? fun lease => lease.inChannel = some acquire with
    | some lease =>
      some ({ w with
        listening := w.listening.erase acquire
        leases := w.leases.erase lease }.dropLease lease)
    | none => some { w with listening := w.listening.erase acquire }
  | .receive acquire =>
    some { w with leases := w.leases.map fun lease =>
      if lease.inChannel = some acquire then { lease with inChannel := none } else lease }
  | .returnLease n action =>
    match w.leases[n]? with
    | some lease =>
      if lease.inChannel = none ∧ 0 < w.handles then
        some { w with
          leases := w.leases.eraseIdx n
          queue := w.queue ++ [.returnLease action lease.index] }
      else none
    | none => none
  | .dropLease n =>
    match w.leases[n]? with
    | some lease =>
      if lease.inChannel = none then some ({ w with leases := w.leases.eraseIdx n }.dropLease lease)
      else none
    | none => none
  | .cleanup => if 0 < w.handles then some { w with queue := w.queue ++ [.cleanup] } else none
  | .cloneHandle => if 0 < w.handles then some { w with handles := w.handles + 1 } else none
  | .dropHandle =>
    if 1 < w.handles ∨ w.handles = 1 ∧ w.listening = ∅ ∧ ∀ l ∈ w.leases, l.inChannel = none then
      some { w with handles := w.handles - 1 }
    else none
  | .scanProbe n probe => probeStep w n probe
  | .scanFault n result =>
    match w.pending[n]? with
    | some ⟨cohort, none⟩ =>
      if result.isFault then some { w with pending := w.pending.set n ⟨cohort, some result⟩ }
      else none
    | _ => none
  | .command =>
    match w.queue with
    | [] => none
    | command :: queue =>
      some ((World.handleCommand cfg oracle { w with queue := queue } command).ensureWaitingProgress
        cfg oracle)
  | .join n =>
    match w.pending[n]? with
    | some ⟨cohort, some result⟩ =>
      let w := { w with pending := w.pending.eraseIdx n, log := .joined cohort result :: w.log }
      some (((w.handleScanJoin result).ensureWaitingProgress cfg oracle).ensureWaitingProgress cfg
        oracle)
    | _ => none
  | .deadline =>
    if w.nextCooldownDeadline.isSome then
      some ((w.handleCooldownDeadline cfg oracle).ensureWaitingProgress cfg oracle)
    else none

end Step

/-- A new pool with its one handle; `ensure_waiting_progress` has nothing to do. -/
def World.init : World where
  active := true
  cooldown := []
  deferredAcquireErrors := []
  deferredScanExhaustion := false
  waitingAcquires := []
  inFlight := ∅
  pending := []
  activeScan := none
  scanExhausted := false
  scanFaulted := false
  scans := []
  queue := []
  listening := ∅
  nextAcquire := 0
  leases := []
  handles := 1
  readings := 0
  log := []

end Okou.Nbd
