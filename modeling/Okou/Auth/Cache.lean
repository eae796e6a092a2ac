import Okou.Lib.Dict
import Okou.Lib.Machine

/-!
# The cache of firewall credentials

`firewall_auth_cache.py`.  Requests ask for the credentials of a run and an API; a state per
auth identity keeps the last result, the fetch in flight, and whether the next fetch has to
refresh the tokens.  States are shared through a dictionary that the registry prunes, and
live on in the calls and fetches that hold them.

All of it runs on one event loop.  A transition is what happens between two awaits: a call up
to its first wait, a waiter that goes on, a fetch that ends.  The monotonic clock counts
nanoseconds and moves between transitions; a reading of the wall clock comes with the
transitions that look at it.
-/

namespace Okou.Auth

/-! ### Keys -/

/-- What the equality of `FirewallAuthCacheKey` compares. -/
structure AuthIdentity where
  runId : String
  apiId : String
  authIdentity : String
  deriving DecidableEq, Repr

/-- `FirewallAuthCacheKey`: the generation takes no part in the equality. -/
structure FirewallAuthCacheKey extends AuthIdentity where
  registryGeneration : Option ℕ
  deriving DecidableEq, Repr

/-- `_FirewallAuthScope`. -/
abbrev Scope := String × String

/-- The scope of a key. -/
def AuthIdentity.scope (id : AuthIdentity) : Scope := (id.runId, id.apiId)

/-! ### Results -/

/-- An expiry: none, a value that `is_supported_expiry` refuses, or a time. -/
inductive Expiry
  | missing
  | unsupported
  | at (time : ℤ)
  deriving DecidableEq, Repr

def hasValidExpiry : Expiry → ℤ → Bool
  | .at time, now => decide (now < time)
  | _, _ => false

/-- `FirewallAuthSuccess`, over the payload that is applied to requests. -/
structure FirewallAuthSuccess (P : Type) where
  payload : P
  expiresAt : Expiry
  refreshedConnectors : List String
  refreshedSecrets : List String
  deriving DecidableEq, Repr

/-- `_FirewallHeaderCacheEntry`.  Each fetch makes one entry: its number is the identity. -/
structure CacheEntry (P : Type) where
  payload : P
  identity : ℕ
  expiresAt : Expiry
  deriving DecidableEq, Repr

/-- What `_build_token_meta` returns. -/
structure TokenMeta (P : Type) where
  payload : P
  cacheHit : Bool
  cacheEntryIdentity : ℕ
  refreshedConnectors : Option (List String)
  refreshedSecrets : Option (List String)
  deriving DecidableEq, Repr

/-- What a call or a fetch raises. -/
inductive AuthError
  /-- The exception of `fetch_firewall_headers`. -/
  | fetchFailed
  /-- `InvalidBillableAuthExpiryError`. -/
  | invalidBillableExpiry
  /-- `FirewallAuthFetchSaturatedError`. -/
  | saturated
  /-- The exception of `asyncio.create_task`. -/
  | notScheduled
  deriving DecidableEq, Repr

variable {P : Type}

def buildTokenMeta (entry : CacheEntry P) (cacheHit : Bool)
    (refreshedConnectors refreshedSecrets : Option (List String)) : TokenMeta P :=
  ⟨entry.payload, cacheHit, entry.identity, refreshedConnectors, refreshedSecrets⟩

def buildCacheHit (cached : CacheEntry P) (firewallBillable : Bool) (now : ℤ) :
    Option (TokenMeta P) :=
  let hit := some (buildTokenMeta cached true none none)
  match cached.expiresAt with
  | .missing => if firewallBillable then none else hit
  | expiresAt => if hasValidExpiry expiresAt now then hit else none

/-! ### The states, the tasks and the callers -/

/-- `_FirewallAuthState`. -/
structure AuthState (P : Type) where
  cache : Option (CacheEntry P) := none
  inFlight : Option ℕ := none
  forceRefreshPending : Bool := false
  lastForceRefresh : Option ℕ := none
  deriving DecidableEq, Repr

/-- How far a fetch is. -/
inductive FetchStatus (P : Type)
  /-- It waits for the semaphore. -/
  | queued
  /-- It waits for `fetch_firewall_headers`. -/
  | sending
  /-- It returned, with the entry it made and the reading of the clock. -/
  | done (entry : CacheEntry P) (tokenMeta : TokenMeta P) (finishedAt : ℤ)
  | failed (error : AuthError)
  deriving DecidableEq, Repr

/-- A task of `_fetch_and_cache_firewall_headers`. -/
structure Fetch (P : Type) where
  state : ℕ
  firewallBillable : Bool
  forceRefresh : Bool
  startedAt : ℕ
  status : FetchStatus P
  deriving DecidableEq, Repr

/-- The task has not ended. -/
def Fetch.unfinished (fetch : Fetch P) : Bool :=
  match fetch.status with
  | .queued => true
  | .sending => true
  | _ => false

/-- How far a call of `get_firewall_headers` is. -/
inductive CallStatus (P : Type)
  /-- It awaits a fetch, which it made itself or found. -/
  | waiting (fetch : ℕ) (created : Bool)
  /-- It returned, an entry that was taken from the cache or fetched at a time. -/
  | returned (tokenMeta : TokenMeta P) (served : CacheEntry P) (takenAt : ℤ)
  | raised (error : AuthError)
  | cancelled
  deriving DecidableEq, Repr

/-- A call of `get_firewall_headers`. -/
structure Call (P : Type) where
  key : FirewallAuthCacheKey
  state : ℕ
  firewallBillable : Bool
  status : CallStatus P
  deriving DecidableEq, Repr

/-- The states, the fetches and the clock. -/
structure Core (P : Type) where
  /-- `time.monotonic`. -/
  now : ℕ
  /-- The states by number. -/
  states : ℕ → AuthState P
  /-- `_admitted_firewall_auth_fetches`. -/
  admitted : ℤ
  /-- What `_firewall_auth_fetch_semaphore` has left. -/
  permits : ℕ
  fetches : List (Fetch P)

/-- The module and its callers. -/
structure System (P : Type) extends Core P where
  /-- How many states there are. -/
  allocated : ℕ
  /-- `_auth_state`. -/
  authState : List (AuthIdentity × ℕ)
  /-- `_owned_auth_keys`. -/
  ownedAuthKeys : List (Scope × AuthIdentity)
  /-- `_active_registry_generations`. -/
  activeRegistryGenerations : List (String × ℕ)
  calls : List (Call P)

/-- `MAX_ADMITTED_FIREWALL_AUTH_FETCHES`. -/
def maxAdmitted : ℤ := 16

/-- `MAX_CONCURRENT_FIREWALL_AUTH_FETCHES`. -/
def maxConcurrent : ℕ := 4

/-- `_FORCE_REFRESH_COOLDOWN_SECS`. -/
def forceRefreshCooldown : ℕ := 120 * 10 ^ 9

/-- The module as it is imported. -/
def init : System P where
  now := 0
  states _ := {}
  admitted := 0
  permits := maxConcurrent
  fetches := []
  allocated := 0
  authState := []
  ownedAuthKeys := []
  activeRegistryGenerations := []
  calls := []

namespace Core

variable (s : Core P) (σ : ℕ) (firewallBillable : Bool)

/-- Change a state in place. -/
def setState (σ : ℕ) (state : AuthState P) : Core P :=
  { s with states := Function.update s.states σ state }

/-- The cooldown of a state is over. -/
def cooledDown (σ : ℕ) : Bool :=
  match (s.states σ).lastForceRefresh with
  | none => true
  | some last => decide (last + forceRefreshCooldown ≤ s.now)

/-- `request_force_refresh` for a state. -/
def mark (σ : ℕ) : Core P :=
  if s.cooledDown σ then s.setState σ { s.states σ with forceRefreshPending := true } else s

/-- `invalidate_cached_firewall_headers` for a state. -/
def revoke (σ : ℕ) : Core P := (s.setState σ { s.states σ with cache := none }).mark σ

/-- The fetch that a call creates: the marker is consumed. -/
def startFetch (σ : ℕ) (firewallBillable : Bool) : Core P :=
  let state := s.states σ
  let forceRefresh := state.forceRefreshPending
  let last := if forceRefresh then some s.now else state.lastForceRefresh
  { s.setState σ { state with
      inFlight := some s.fetches.length, forceRefreshPending := false, lastForceRefresh :=
        last } with
    admitted := s.admitted + 1
    fetches := s.fetches ++ [⟨σ, firewallBillable, forceRefresh, s.now, .queued⟩] }

/-- One pass of the loop of `get_firewall_headers`, up to the await. -/
def attempt (σ : ℕ) (firewallBillable : Bool) (wall : ℤ) (scheduled : Bool) :
    Core P × CallStatus P :=
  let hit := (s.states σ).cache.bind fun entry =>
    (buildCacheHit entry firewallBillable wall).map fun tokenMeta => (entry, tokenMeta)
  match hit with
  | some (entry, tokenMeta) => (s, .returned tokenMeta entry wall)
  | none =>
    match (s.states σ).inFlight with
    | some fetch => (s, .waiting fetch false)
    | none =>
      if maxAdmitted ≤ s.admitted then (s, .raised .saturated)
      else if scheduled then (s.startFetch σ firewallBillable, .waiting s.fetches.length true)
      -- the place that was reserved is released
      else (s, .raised .notScheduled)

/-- The outcome of a fetch, and what its state keeps: the result, unless a marker appeared
while the fetch was not forced. -/
def fetchOutcome (state : AuthState P) (f : ℕ) (fetch : Fetch P)
    (outcome : Option (FirewallAuthSuccess P)) (wall : ℤ) : FetchStatus P × Option (CacheEntry P) :=
  match outcome with
  | none => (.failed .fetchFailed, state.cache)
  | some result =>
    if fetch.firewallBillable && !hasValidExpiry result.expiresAt wall then
      (.failed .invalidBillableExpiry, state.cache)
    else
      let entry : CacheEntry P := ⟨result.payload, f, result.expiresAt⟩
      let markerAppeared := !fetch.forceRefresh && state.forceRefreshPending
      (.done entry (buildTokenMeta entry false result.refreshedConnectors result.refreshedSecrets)
        wall, if markerAppeared then state.cache else some entry)

/-- How a fetch ends. -/
def finishFetch (f : ℕ) (fetch : Fetch P) (outcome : Option (FirewallAuthSuccess P)) (wall : ℤ) :
    Core P :=
  let state := s.states fetch.state
  let (status, cache) := fetchOutcome state f fetch outcome wall
  { s.setState fetch.state { state with cache := cache, inFlight := none } with
    admitted := s.admitted - 1
    permits := s.permits + 1
    fetches := s.fetches.set f { fetch with status := status } }

end Core

namespace System

variable (s : System P) (key : FirewallAuthCacheKey) (id : AuthIdentity)

/-- `_FirewallAuthState()`. -/
def allocate : System P :=
  { s with toCore := s.setState s.allocated {}, allocated := s.allocated + 1 }

/-- The generation of a key is the current one, or it has none. -/
def isCurrent : Bool :=
  match key.registryGeneration with
  | none => true
  | some generation => decide (dictGet key.runId s.activeRegistryGenerations = some generation)

/-- `_get_auth_state`, with the state it returns. -/
def getAuthState : System P × ℕ :=
  let id := key.toAuthIdentity
  let state := dictGet id s.authState
  if s.isCurrent key then
    let owned := dictGet id.scope s.ownedAuthKeys
    let replaced := owned.filter fun ownedKey => decide (ownedKey ≠ id)
    let authState := match replaced with
      | some ownedKey => dictErase ownedKey s.authState
      | none => s.authState
    let state := if replaced.isSome then none else state
    let s := { s with authState := authState, ownedAuthKeys := dictSet id.scope id s.ownedAuthKeys }
    match state with
    | some σ => (s, σ)
    | none => ({ s.allocate with authState := dictSet id s.allocated s.authState }, s.allocated)
  else
    match state with
    | some σ => (s, σ)
    | none => (s.allocate, s.allocated)

def requestForceRefresh : System P :=
  match dictGet id s.authState with
  | none => s
  | some σ => { s with toCore := s.mark σ }

/-- `invalidate_cached_firewall_headers`. -/
def invalidateCached (identity : ℕ) : System P :=
  match dictGet id s.authState with
  | none => s
  | some σ =>
    match (s.states σ).cache with
    | none => s
    | some entry => if entry.identity = identity then { s with toCore := s.revoke σ } else s

/-- One scope of `reconcile_registry_cache_ownership` that has no active run. -/
def dropScope (scope : Scope) : System P :=
  match dictGet scope s.ownedAuthKeys with
  | none => s
  | some id => { s with
      ownedAuthKeys := dictErase scope s.ownedAuthKeys, authState := dictErase id s.authState }

/-- `reconcile_registry_cache_ownership`. -/
def reconcile (active : List (String × ℕ)) : System P :=
  let staleScopes := (s.ownedAuthKeys.map Prod.fst).filter fun scope =>
    decide (scope.1 ∉ active.map Prod.fst)
  staleScopes.foldl dropScope { s with activeRegistryGenerations := active }

/-- `evict_all_cache_keys`. -/
def evictAll : System P :=
  { s with authState := [], ownedAuthKeys := [], activeRegistryGenerations := [] }

end System

/-! ### The machine -/

/-- What happens on the event loop. -/
inductive Event (P : Type)
  /-- The clock moves. -/
  | tick (elapsed : ℕ)
  /-- `get_firewall_headers` is called and runs up to its first await. -/
  | call (key : FirewallAuthCacheKey) (firewallBillable : Bool) (wall : ℤ) (scheduled : Bool)
  /-- A fetch gets the semaphore. -/
  | enter (fetch : ℕ)
  /-- `fetch_firewall_headers` returns or raises, and the fetch ends. -/
  | finish (fetch : ℕ) (outcome : Option (FirewallAuthSuccess P)) (wall : ℤ)
  /-- A call whose fetch has ended goes on. -/
  | resume (call : ℕ) (wall : ℤ) (scheduled : Bool)
  /-- A call is cancelled while it waits. -/
  | cancel (call : ℕ)
  | invalidate (id : AuthIdentity) (identity : ℕ)
  | requestForceRefresh (id : AuthIdentity)
  | reconcile (active : List (String × ℕ))
  | evictAll
  deriving DecidableEq, Repr

/-- The status of a call changes. -/
def System.setCall (s : System P) (c : ℕ) (call : Call P) (status : CallStatus P) : System P :=
  { s with calls := s.calls.set c { call with status := status } }

/-- A call goes on after its fetch. -/
def resumeCall (s : System P) (c : ℕ) (call : Call P) (fetch : ℕ) (created : Bool) (wall : ℤ)
    (scheduled : Bool) : Option (System P) :=
  match s.fetches[fetch]?.map Fetch.status with
  | some (.done entry tokenMeta finishedAt) =>
    if created then some (s.setCall c call (.returned tokenMeta entry finishedAt))
    else
      let (core, status) := s.attempt call.state call.firewallBillable wall scheduled
      some ({ s with toCore := core }.setCall c call status)
  | some (.failed error) => some (s.setCall c call (.raised error))
  | _ => none

/-- One transition. -/
def step (s : System P) : Event P → Option (System P)
  | .tick elapsed => some { s with now := s.now + elapsed }
  | .call key firewallBillable wall scheduled =>
    let (s, σ) := s.getAuthState key
    let (core, status) := s.attempt σ firewallBillable wall scheduled
    some { s with toCore := core, calls := s.calls ++ [⟨key, σ, firewallBillable, status⟩] }
  | .enter f =>
    match s.fetches[f]? with
    | none => none
    | some fetch =>
      match fetch.status, s.permits with
      | .queued, permits + 1 =>
        some { s with
            permits := permits, fetches := s.fetches.set f { fetch with status := .sending } }
      | _, _ => none
  | .finish f outcome wall =>
    match s.fetches[f]? with
    | none => none
    | some fetch =>
      match fetch.status with
      | .sending => some { s with toCore := s.finishFetch f fetch outcome wall }
      | _ => none
  | .resume c wall scheduled =>
    match s.calls[c]? with
    | none => none
    | some call =>
      match call.status with
      | .waiting fetch created => resumeCall s c call fetch created wall scheduled
      | _ => none
  | .cancel c =>
    match s.calls[c]? with
    | none => none
    | some call =>
      match call.status with
      | .waiting _ _ => some (s.setCall c call .cancelled)
      | _ => none
  | .invalidate id identity => some (s.invalidateCached id identity)
  | .requestForceRefresh id => some (s.requestForceRefresh id)
  | .reconcile active => some (s.reconcile active)
  | .evictAll => some s.evictAll

end Okou.Auth
