import Okou.Auth.Cache

/-!
# What a transition of the credential cache does

Each transition is described once, for the core (`CoreStep`) and for the calls (`CallStep`);
the invariants of the other modules are proved from these descriptions.
-/

namespace Okou.Auth

open List Auth.Core

variable {P : Type}

/-! ### Small facts -/

namespace Core

variable (s : Core P) (σ : ℕ) (state : AuthState P)

@[simp] theorem setState_now : (s.setState σ state).now = s.now := rfl
@[simp] theorem setState_admitted : (s.setState σ state).admitted = s.admitted := rfl
@[simp] theorem setState_fetches : (s.setState σ state).fetches = s.fetches := rfl

theorem setState_states (τ : ℕ) :
    (s.setState σ state).states τ = if τ = σ then state else s.states τ := Function.update_apply ..

@[simp] theorem mark_now : (s.mark σ).now = s.now := by unfold mark; split <;> rfl
@[simp] theorem mark_admitted : (s.mark σ).admitted = s.admitted := by unfold mark; split <;> rfl
@[simp] theorem mark_fetches : (s.mark σ).fetches = s.fetches := by unfold mark; split <;> rfl
@[simp] theorem revoke_now : (s.revoke σ).now = s.now := by simp [revoke]
@[simp] theorem revoke_admitted : (s.revoke σ).admitted = s.admitted := by simp [revoke]
@[simp] theorem revoke_fetches : (s.revoke σ).fetches = s.fetches := by simp [revoke]

/-- A marker is set where the cooldown is over. -/
theorem mark_states (τ : ℕ) : (s.mark σ).states τ = if τ = σ then { s.states σ with
      forceRefreshPending := (s.states σ).forceRefreshPending || s.cooledDown σ }
        else s.states τ := by
  unfold mark
  split
  case isTrue hcool =>
    rw [setState_states, hcool, Bool.or_true]
  case isFalse hcool =>
    rw [Bool.not_eq_true] at hcool
    rw [hcool, Bool.or_false]
    split
    · next h => rw [h]
    · rfl

theorem revoke_states (τ : ℕ) : (s.revoke σ).states τ = if τ = σ then { s.states σ with
      cache := none, forceRefreshPending := (s.states σ).forceRefreshPending || s.cooledDown σ }
    else s.states τ := by
  have hcool : (s.setState σ { s.states σ with cache := none }).cooledDown σ = s.cooledDown σ := by
    simp only [cooledDown, setState_states, setState_now]
    rfl
  rw [revoke, mark_states, hcool]
  split <;> simp [setState_states, *]

end Core

/-! ### One pass of the loop -/

/-- What one pass does. -/
inductive Attempted (s : Core P) (σ : ℕ) (firewallBillable : Bool) (wall : ℤ) : Core P →
    CallStatus P → Prop
  | hit {entry : CacheEntry P} {tokenMeta : TokenMeta P} (hcache : (s.states σ).cache = some entry)
      (hhit : buildCacheHit entry firewallBillable wall = some tokenMeta) :
      Attempted s σ firewallBillable wall s (.returned tokenMeta entry wall)
  | join {f : ℕ} (hflight : (s.states σ).inFlight = some f) :
    Attempted s σ firewallBillable wall s (.waiting f false)
  | refused (error : AuthError) : Attempted s σ firewallBillable wall s (.raised error)
  | start (hidle : (s.states σ).inFlight = none) (hroom : s.admitted < maxAdmitted) :
      Attempted s σ firewallBillable wall (s.startFetch σ firewallBillable)
        (.waiting s.fetches.length true)

theorem attempted (s : Core P) (σ : ℕ) (firewallBillable : Bool) (wall : ℤ) (scheduled : Bool) :
    Attempted s σ firewallBillable wall (s.attempt σ firewallBillable wall scheduled).1
      (s.attempt σ firewallBillable wall scheduled).2 := by
  unfold attempt
  dsimp only
  split
  case h_1 entry tokenMeta hhit =>
    obtain ⟨entry', hcache, hmap⟩ := Option.bind_eq_some_iff.mp hhit
    obtain ⟨tokenMeta', hmeta, hpair⟩ := Option.map_eq_some_iff.mp hmap
    obtain ⟨rfl, rfl⟩ := Prod.mk.inj hpair
    exact .hit hcache hmeta
  case h_2 =>
    split
    case h_1 fetch hflight => exact .join hflight
    case h_2 hidle =>
      split
      case isTrue => exact .refused _
      case isFalse hroom =>
        split
        case isTrue => exact .start hidle (by omega)
        case isFalse => exact .refused _

/-! ### Lookups -/

/-- What `_get_auth_state` does: the system after it, and the state. -/
inductive Lookup (s : System P) (key : FirewallAuthCacheKey) : System P → ℕ → Prop
  /-- A stale key uses the state that is there. -/
  | reused {σ : ℕ} (hstale : s.isCurrent key = false)
      (hstate : dictGet key.toAuthIdentity s.authState = some σ) : Lookup s key s σ
  /-- A stale key gets a state that is not shared. -/
  | detached (hstale : s.isCurrent key = false)
      (hstate : dictGet key.toAuthIdentity s.authState = none) : Lookup s key s.allocate s.allocated
  /-- A current key goes on with the state of its scope. -/
  | kept {σ : ℕ} (hcur : s.isCurrent key = true)
      (hstate : dictGet key.toAuthIdentity s.authState = some σ)
      (howner : ∀ owned, dictGet key.scope s.ownedAuthKeys = some owned →
        owned = key.toAuthIdentity) :
      Lookup s key { s with ownedAuthKeys := dictSet key.scope key.toAuthIdentity s.ownedAuthKeys }
        σ
  /-- A current key takes over its scope, for which there is a new state. -/
  | claimed {authState : List (AuthIdentity × ℕ)} (hcur : s.isCurrent key = true)
      (hclaim : (authState = s.authState ∧ dictGet key.toAuthIdentity s.authState = none ∧
          ∀ owned, dictGet key.scope s.ownedAuthKeys = some owned → owned = key.toAuthIdentity) ∨
        ∃ owned, dictGet key.scope s.ownedAuthKeys = some owned ∧ owned ≠ key.toAuthIdentity ∧
          authState = dictErase owned s.authState) :
      Lookup s key { s.allocate with
        ownedAuthKeys := dictSet key.scope key.toAuthIdentity s.ownedAuthKeys
        authState := dictSet key.toAuthIdentity s.allocated authState } s.allocated

theorem lookup (s : System P) (key) :
    Lookup s key (s.getAuthState key).1 (s.getAuthState key).2 := by
  unfold System.getAuthState
  dsimp only
  split
  case isFalse hstale =>
    rw [Bool.not_eq_true] at hstale
    cases hstate : dictGet key.toAuthIdentity s.authState with
    | none => exact .detached hstale hstate
    | some σ => exact .reused hstale hstate
  case isTrue hcur =>
    cases hrepl : (dictGet key.scope s.ownedAuthKeys).filter
        (fun ownedKey => ownedKey ≠ key.toAuthIdentity) with
    | some owned =>
      obtain ⟨howned, hne⟩ := Option.filter_eq_some_iff.mp hrepl
      exact .claimed hcur (.inr ⟨owned, howned, of_decide_eq_true hne, rfl⟩)
    | none =>
      have howner : ∀ owned, dictGet key.scope s.ownedAuthKeys = some owned →
        owned = key.toAuthIdentity := by
        intro owned howned
        rw [howned, Option.filter_some] at hrepl
        by_contra hne
        rw [if_pos (decide_eq_true hne)] at hrepl
        cases hrepl
      cases hstate : dictGet key.toAuthIdentity s.authState with
      | none => exact .claimed hcur (.inl ⟨rfl, hstate, howner⟩)
      | some σ => exact .kept hcur hstate howner

/-! ### The states that exist -/

/-- States are handed out in order, and those to come are as new. -/
structure Allocated (s : System P) : Prop where
  fresh : ∀ σ, s.allocated ≤ σ → s.states σ = {}
  shared : ∀ id σ, dictGet id s.authState = some σ → σ < s.allocated
  calls : ∀ call ∈ s.calls, call.state < s.allocated
  fetches : ∀ fetch ∈ s.fetches, fetch.state < s.allocated

variable {s s' : System P} {σ : ℕ}

theorem allocate_toCore (halloc : Allocated s) : s.allocate.toCore = s.toCore := by
  have hsame : Function.update s.states s.allocated {} = s.states :=
    Function.update_eq_self_iff.mpr (halloc.fresh s.allocated (Nat.le_refl _)).symm
  show { s.toCore with states := Function.update s.states s.allocated {} } = s.toCore
  rw [hsame]

variable {key : FirewallAuthCacheKey} {id : AuthIdentity} {e : Event P} {wall : ℤ}

section

variable (hlook : Lookup s key s' σ)

include hlook

/-- A lookup does not touch the core. -/
theorem Lookup.toCore (halloc : Allocated s) : s'.toCore = s.toCore := by
  cases hlook with
  | reused => rfl
  | detached => exact allocate_toCore halloc
  | kept => rfl
  | claimed => exact allocate_toCore halloc

theorem Lookup.calls : s'.calls = s.calls := by
  cases hlook <;> rfl

theorem Lookup.allocated_le : s.allocated ≤ s'.allocated := by
  cases hlook with
  | reused => exact Nat.le_refl _
  | detached => exact Nat.le_succ _
  | kept => exact Nat.le_refl _
  | claimed => exact Nat.le_succ _

theorem Lookup.state_lt (halloc : Allocated s) : σ < s'.allocated := by
  cases hlook with
  | reused _ hstate => exact halloc.shared _ _ hstate
  | detached => exact Nat.lt_succ_self _
  | kept _ hstate _ => exact halloc.shared _ _ hstate
  | claimed => exact Nat.lt_succ_self _

end

theorem dictGet_of_dictErase {owned states}
    (h : dictGet id (dictErase owned states) = some σ) : dictGet id states = some σ := by
  rw [dictGet_dictErase] at h
  split at h
  · cases h
  · exact h

/-- What a lookup leaves shared was shared before, or is new. -/
theorem Lookup.shared {τ} (hlook : Lookup s key s' σ) (hτ : dictGet id s'.authState = some τ) :
    dictGet id s.authState = some τ ∨ (τ = s.allocated ∧ s'.allocated = s.allocated + 1) := by
  cases hlook with
  | reused => exact .inl hτ
  | detached => exact .inl hτ
  | kept => exact .inl hτ
  | claimed _ hclaim =>
    rw [dictGet_dictSet] at hτ
    split at hτ
    case isTrue => exact .inr ⟨(Option.some.inj hτ).symm, rfl⟩
    case isFalse =>
      refine .inl ?_
      rcases hclaim with ⟨rfl, _⟩ | ⟨owned, _, _, rfl⟩
      · exact hτ
      · exact dictGet_of_dictErase hτ

/-! ### The core -/

/-- What a transition does to the core, where there are so many states. -/
inductive CoreStep (e : Event P) (allocated : ℕ) (s : Core P) : Core P → Prop
  | refl : CoreStep e allocated s s
  | tick (elapsed : ℕ) (he : e = .tick elapsed) :
    CoreStep e allocated s { s with now := s.now + elapsed }
  | mark (σ : ℕ) (hσ : σ < allocated) (he : ∃ id, e = .requestForceRefresh id) :
    CoreStep e allocated s (s.mark σ)
  | revoke (σ : ℕ) (hσ : σ < allocated) (he : ∃ id identity, e = .invalidate id identity) :
      CoreStep e allocated s (s.revoke σ)
  | start (σ : ℕ) (hσ : σ < allocated) (firewallBillable : Bool)
    (hidle : (s.states σ).inFlight = none)
      (hroom : s.admitted < maxAdmitted) : CoreStep e allocated s (s.startFetch σ firewallBillable)
  | enter {f : ℕ} {fetch : Fetch P} (permits : ℕ) (hfetch : s.fetches[f]? = some fetch)
      (hstat : fetch.status = .queued) :
      CoreStep e allocated s
        { s with permits := permits, fetches := s.fetches.set f { fetch with status := .sending } }
  | finish {f : ℕ} {fetch : Fetch P} (outcome : Option (FirewallAuthSuccess P)) (wall : ℤ)
      (hfetch : s.fetches[f]? = some fetch) (hstat : fetch.status = .sending) :
      CoreStep e allocated s (s.finishFetch f fetch outcome wall)

variable {allocated : ℕ} {call : Call P} {created scheduled : Bool}

theorem Attempted.coreStep {s s'} {firewallBillable} {status}
    (h : Attempted s σ firewallBillable wall s' status) (hσ : σ < allocated) :
      CoreStep e allocated s s' := by
  cases h with
  | hit => exact .refl
  | join => exact .refl
  | refused => exact .refl
  | start hidle hroom => exact .start σ hσ firewallBillable hidle hroom

theorem foldl_dropScope_toCore (scopes : List Scope) (s : System P) :
    (scopes.foldl System.dropScope s).toCore = s.toCore ∧
      (scopes.foldl System.dropScope s).calls = s.calls ∧
      (scopes.foldl System.dropScope s).allocated = s.allocated := by
  refine foldlRecOn (motive := fun s' : System P => s'.toCore = s.toCore ∧ s'.calls = s.calls ∧
    s'.allocated = s.allocated) scopes _ ⟨rfl, rfl, rfl⟩ fun s' h scope _ => ?_
  unfold System.dropScope
  split <;> exact h

theorem reconcile_toCore (s : System P) (active : List (String × ℕ)) :
    (s.reconcile active).toCore = s.toCore ∧ (s.reconcile active).calls = s.calls ∧
      (s.reconcile active).allocated = s.allocated :=
  foldl_dropScope_toCore _ { s with activeRegistryGenerations := active }

/-! ### The calls -/

/-- What a transition does to the calls, with the core after it. -/
inductive CallStep (s s' : System P) : Prop
  | same (hcalls : s'.calls = s.calls)
  /-- A call begins. -/
  | opened {found : System P} {σ : ℕ} {status : CallStatus P} (key : FirewallAuthCacheKey)
      (firewallBillable : Bool) (wall : ℤ) (hlook : Lookup s key found σ)
      (hallocated : s'.allocated = found.allocated)
      (hatt : Attempted s.toCore σ firewallBillable wall s'.toCore status)
      (hcalls : s'.calls = s.calls ++ [⟨key, σ, firewallBillable, status⟩])
  /-- A call that found its fetch passes the loop again. -/
  | again {c f : ℕ} {call : Call P} {status : CallStatus P} (wall : ℤ)
      (hcall : s.calls[c]? = some call) (hstat : call.status = .waiting f false)
      (hatt : Attempted s.toCore call.state call.firewallBillable wall s'.toCore status)
      (hcalls : s'.calls = s.calls.set c { call with status := status })
  /-- A call returns what it fetched. -/
  | fetched {c f : ℕ} {call : Call P} {fetch : Fetch P} {entry : CacheEntry P}
    {tokenMeta : TokenMeta P} {wall : ℤ}
      (hcall : s.calls[c]? = some call) (hstat : call.status = .waiting f true)
      (hfetch : s.fetches[f]? = some fetch) (hdone : fetch.status = .done entry tokenMeta wall)
      (hcore : s'.toCore = s.toCore)
      (hcalls : s'.calls = s.calls.set c { call with status := .returned tokenMeta entry wall })
  /-- A call raises or is cancelled. -/
  | ended {c : ℕ} {call : Call P} {status : CallStatus P} (hcall : s.calls[c]? = some call)
      (hended : status = .cancelled ∨ ∃ error, status = .raised error)
      (hcore : s'.toCore = s.toCore)
      (hcalls : s'.calls = s.calls.set c { call with status := status })

/-- What a transition does to the dictionaries. -/
inductive ShareStep (e : Event P) (s s' : System P) : Prop
  | same (hauth : s'.authState = s.authState) (howned : s'.ownedAuthKeys = s.ownedAuthKeys)
      (hgen : s'.activeRegistryGenerations = s.activeRegistryGenerations)
      (hallocated : s'.allocated = s.allocated)
  | looked {found : System P} {σ : ℕ} {key : FirewallAuthCacheKey}
    {firewallBillable scheduled : Bool} {wall : ℤ}
      (he : e = .call key firewallBillable wall scheduled) (hlook : Lookup s key found σ)
      (hauth : s'.authState = found.authState) (howned : s'.ownedAuthKeys = found.ownedAuthKeys)
      (hgen : s'.activeRegistryGenerations = found.activeRegistryGenerations)
      (hallocated : s'.allocated = found.allocated)
  | reconciled (active : List (String × ℕ)) (he : e = .reconcile active)
    (hs' : s' = s.reconcile active)
  | evicted (he : e = .evictAll) (hs' : s' = s.evictAll)

theorem resumeCall_cases {c f} (halloc : Allocated s) (hcall : s.calls[c]? = some call)
    (hstat : call.status = .waiting f created)
    (h : resumeCall s c call f created wall scheduled = some s')
    (e : Event P) : CoreStep e s'.allocated s.toCore s'.toCore ∧ CallStep s s' ∧
      ShareStep e s s' := by
  have hσ : call.state < s.allocated := halloc.calls call (mem_of_getElem? hcall)
  unfold resumeCall at h
  split at h
  case h_1 entry tokenMeta finishedAt hdone =>
    obtain ⟨fetch, hfetch, hdone⟩ := Option.map_eq_some_iff.mp hdone
    split at h
    case isTrue hcreat =>
      subst hcreat
      cases h
      exact ⟨.refl, .fetched hcall hstat hfetch hdone rfl rfl, .same rfl rfl rfl rfl⟩
    case isFalse hcreat =>
      rw [Bool.not_eq_true] at hcreat
      subst hcreat
      cases h
      have hatt := attempted s.toCore call.state call.firewallBillable wall scheduled
      exact ⟨hatt.coreStep hσ, .again wall hcall hstat hatt rfl, .same rfl rfl rfl rfl⟩
  case h_2 error _ =>
    cases h
    exact ⟨.refl, .ended hcall (.inr ⟨error, rfl⟩) rfl rfl, .same rfl rfl rfl rfl⟩
  case h_3 => cases h

/-- **What a transition does.** Only lookups, reconciliations and evictions change what is shared.
-/
theorem step_cases (halloc : Allocated s) (h : step s e = some s') :
    CoreStep e s'.allocated s.toCore s'.toCore ∧ CallStep s s' ∧ ShareStep e s s' := by
  cases e with
  | tick elapsed =>
    cases h
    exact ⟨.tick elapsed rfl, .same rfl, .same rfl rfl rfl rfl⟩
  | call key firewallBillable wall scheduled =>
    have hlook := lookup s key
    obtain ⟨found, σ, hfound⟩ : ∃ found σ, s.getAuthState key = (found, σ) := ⟨_, _, rfl⟩
    simp only [step, hfound] at h hlook
    have hcore := hlook.toCore halloc
    have hatt := attempted s.toCore σ firewallBillable wall scheduled
    rw [hcore, hlook.calls] at h
    cases h
    exact ⟨hatt.coreStep (hlook.state_lt halloc),
      .opened key firewallBillable wall hlook rfl hatt rfl, .looked rfl hlook rfl rfl rfl rfl⟩
  | enter f =>
    simp only [step] at h
    split at h
    case h_1 => cases h
    case h_2 fetch hfetch =>
      split at h
      case h_1 permits hstat _ =>
        cases h
        exact ⟨.enter permits hfetch hstat, .same rfl, .same rfl rfl rfl rfl⟩
      case h_2 => cases h
  | finish f outcome wall =>
    simp only [step] at h
    split at h
    case h_1 => cases h
    case h_2 fetch hfetch =>
      split at h
      case h_1 hstat =>
        cases h
        exact ⟨.finish outcome wall hfetch hstat, .same rfl, .same rfl rfl rfl rfl⟩
      case h_2 => cases h
  | resume c wall scheduled =>
    -- only a call that waits for a fetch can be resumed
    simp only [step] at h
    split at h
    case h_1 => cases h
    case h_2 call hcall =>
      split at h
      case h_1 f created hstat => exact resumeCall_cases halloc hcall hstat h _
      case h_2 => cases h
  | cancel c =>
    simp only [step] at h
    split at h
    case h_1 => cases h
    case h_2 call hcall =>
      split at h
      case h_1 =>
        cases h
        exact ⟨.refl, .ended hcall (.inl rfl) rfl rfl, .same rfl rfl rfl rfl⟩
      case h_2 => cases h
  | invalidate id identity =>
    cases h
    unfold System.invalidateCached
    split
    · exact ⟨.refl, .same rfl, .same rfl rfl rfl rfl⟩
    case h_2 σ hσ =>
      split
      · exact ⟨.refl, .same rfl, .same rfl rfl rfl rfl⟩
      · split
        · exact ⟨.revoke σ (halloc.shared _ _ hσ) ⟨id, identity, rfl⟩, .same rfl,
            .same rfl rfl rfl rfl⟩
        · exact ⟨.refl, .same rfl, .same rfl rfl rfl rfl⟩
  | requestForceRefresh id =>
    cases h
    unfold System.requestForceRefresh
    split
    · exact ⟨.refl, .same rfl, .same rfl rfl rfl rfl⟩
    case h_2 σ hσ => exact ⟨.mark σ (halloc.shared _ _ hσ) ⟨id, rfl⟩, .same rfl,
      .same rfl rfl rfl rfl⟩
  | reconcile active =>
    cases h
    obtain ⟨hcore, hcalls, _⟩ := reconcile_toCore s active
    rw [hcore]
    exact ⟨.refl, .same hcalls, .reconciled active rfl rfl⟩
  | evictAll =>
    cases h
    exact ⟨.refl, .same rfl, .evicted rfl rfl⟩

/-! ### What is shared -/

theorem dictGet_dropScope {scope}
    (h : dictGet id (s.dropScope scope).authState = some σ) : dictGet id s.authState = some σ := by
  unfold System.dropScope at h
  split at h
  · exact h
  · exact dictGet_of_dictErase h

theorem dictGet_foldl_dropScope (scopes : List Scope) : ∀ s : System P,
    dictGet id (scopes.foldl System.dropScope s).authState = some σ →
      dictGet id s.authState = some σ := by
  induction scopes with
  | nil => exact fun _ h => h
  | cons scope scopes ih => exact fun s h => dictGet_dropScope (ih (s.dropScope scope) h)

theorem ShareStep.allocated_le (h : ShareStep e s s') : s.allocated ≤ s'.allocated := by
  cases h with
  | same _ _ _ hallocated => exact hallocated ▸ Nat.le_refl _
  | looked _ hlook _ _ _ hallocated => exact hallocated ▸ hlook.allocated_le
  | reconciled active _ hs' => exact hs' ▸ (reconcile_toCore s active).2.2 ▸ Nat.le_refl _
  | evicted _ hs' => exact hs' ▸ Nat.le_refl _

/-- What is shared after a transition was shared before, or is new. -/
theorem ShareStep.shared {τ} (h : ShareStep e s s') (hτ : dictGet id s'.authState = some τ) :
    dictGet id s.authState = some τ ∨ (τ = s.allocated ∧ s'.allocated = s.allocated + 1) := by
  cases h with
  | same hauth => exact .inl (hauth ▸ hτ)
  | looked _ hlook hauth _ _ hallocated =>
    rw [hauth] at hτ
    exact (hlook.shared hτ).imp_right fun h => ⟨h.1, hallocated.trans h.2⟩
  | reconciled active _ hs' =>
    subst hs'
    exact .inl (dictGet_foldl_dropScope _ { s with activeRegistryGenerations := active } hτ)
  | evicted _ hs' =>
    subst hs'
    cases hτ

/-! ### The states that exist, along a run -/

theorem CoreStep.fresh {s s'} (h : CoreStep e allocated s s')
    (hfresh : ∀ σ, allocated ≤ σ → s.states σ = {}) (hfetches : ∀ fetch ∈ s.fetches,
      fetch.state < allocated) :
    (∀ σ, allocated ≤ σ → s'.states σ = {}) ∧ ∀ fetch ∈ s'.fetches, fetch.state < allocated := by
  cases h with
  | refl => exact ⟨hfresh, hfetches⟩
  | tick => exact ⟨hfresh, hfetches⟩
  | mark σ hσ =>
    refine ⟨fun τ hτ => ?_, by rwa [mark_fetches]⟩
    rw [mark_states, if_neg (by omega)]
    exact hfresh τ hτ
  | revoke σ hσ =>
    refine ⟨fun τ hτ => ?_, by rwa [revoke_fetches]⟩
    rw [revoke_states, if_neg (by omega)]
    exact hfresh τ hτ
  | start σ hσ firewallBillable =>
    refine ⟨fun τ hτ => ?_, forall_mem_append.mpr ⟨hfetches, forall_mem_singleton.mpr hσ⟩⟩
    rw [startFetch, setState_states, if_neg (by omega)]
    exact hfresh τ hτ
  | @enter f fetch permits hfetch =>
    have hstate := hfetches fetch (mem_of_getElem? hfetch)
    refine ⟨hfresh, fun fetch' hmem => ?_⟩
    rcases mem_or_eq_of_mem_set hmem with hmem | rfl
    · exact hfetches fetch' hmem
    · exact hstate
  | @finish f fetch outcome wall hfetch =>
    have hstate := hfetches fetch (mem_of_getElem? hfetch)
    refine ⟨fun τ hτ => ?_, fun fetch' hmem => ?_⟩
    · rw [finishFetch, setState_states, if_neg (by omega)]
      exact hfresh τ hτ
    · rcases mem_or_eq_of_mem_set hmem with hmem | rfl
      · exact hfetches fetch' hmem
      · exact hstate

theorem allocated_init : Allocated (init : System P) where
  fresh _ _ := rfl
  shared _ _ h := by cases h
  calls _ h := absurd h not_mem_nil
  fetches _ h := absurd h not_mem_nil

theorem allocated_step (halloc : Allocated s) (h : step s e = some s') : Allocated s' := by
  obtain ⟨hcore, hcalls, hshare⟩ := step_cases halloc h
  have hle := hshare.allocated_le
  obtain ⟨hfresh, hfetches⟩ := hcore.fresh (fun σ hσ => halloc.fresh σ (Nat.le_trans hle hσ))
    (fun fetch hfetch => Nat.lt_of_lt_of_le (halloc.fetches fetch hfetch) hle)
  have hbef : ∀ call ∈ s.calls, call.state < s'.allocated :=
    fun call hcall => Nat.lt_of_lt_of_le (halloc.calls call hcall) hle
  have hset : ∀ c (call : Call P) status, s.calls[c]? = some call →
      ∀ call' ∈ s.calls.set c { call with status := status }, call'.state < s'.allocated := by
    intro c call status hcall call' hmem
    rcases mem_or_eq_of_mem_set hmem with hmem | rfl
    · exact hbef call' hmem
    · exact hbef call (mem_of_getElem? hcall)
  refine ⟨hfresh, fun id τ hτ => ?_, ?_, hfetches⟩
  · rcases hshare.shared hτ with hτ | ⟨rfl, hnew⟩
    · exact Nat.lt_of_lt_of_le (halloc.shared id τ hτ) hle
    · omega
  · cases hcalls with
    | same hcalls => rwa [hcalls]
    | opened key firewallBillable wall hlook hallocated hatt hcalls =>
      rw [hcalls]
      exact forall_mem_append.mpr ⟨hbef,
        forall_mem_singleton.mpr (hallocated ▸ hlook.state_lt halloc)⟩
    | again wall hcall hstat hatt hcalls => rw [hcalls]; exact hset _ _ _ hcall
    | fetched hcall hstat hfetch hdone hcore hcalls => rw [hcalls]; exact hset _ _ _ hcall
    | ended hcall hended hcore hcalls => rw [hcalls]; exact hset _ _ _ hcall

end Okou.Auth
