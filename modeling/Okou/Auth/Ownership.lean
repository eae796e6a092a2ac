import Okou.Auth.Flights

/-!
# Who owns the shared states

`_auth_state` and `_owned_auth_keys` are two dictionaries that are written on different
paths: a current key claims its scope, a reconciliation drops the scopes of runs that ended,
an eviction clears both.  Together they always say the same: a state is shared under exactly
the identity that owns its scope.

A state that was evicted is never shared again, since each claim takes a new one.  Fetches
of an evicted state go on, but only the calls that hold that state see what they do.
-/

namespace Okou.Auth

open List

variable {P : Type}

/-! ### The two dictionaries -/

/-- A state is shared under exactly the identities that own their scope. -/
structure Owned (s : System P) : Prop where
  keys : ∀ id, (∃ σ, dictGet id s.authState = some σ) ↔ dictGet id.scope s.ownedAuthKeys = some id
  scopes : ∀ scope id, dictGet scope s.ownedAuthKeys = some id → id.scope = scope

theorem owned_init : Owned (init : System P) where
  keys id := by
    constructor
    · rintro ⟨σ, hσ⟩
      cases hσ
    · intro h
      cases h
  scopes scope id h := by cases h

variable {s s' : System P} {id : AuthIdentity} {σ states fetches calls : ℕ} {e : Event P}

/-- Agreement is about the dictionaries only. -/
theorem Owned.congr (h : Owned s) (hauth : s'.authState = s.authState)
    (howned : s'.ownedAuthKeys = s.ownedAuthKeys) : Owned s' := by
  refine ⟨fun id => ?_, fun scope id => ?_⟩
  · rw [hauth, howned]
    exact h.keys id
  · rw [howned]
    exact h.scopes scope id

/-- An identity takes over its scope: it is shared, and no other identity of the scope is. -/
theorem Owned.claim (h : Owned s) (id)
    (howned : s'.ownedAuthKeys = dictSet id.scope id s.ownedAuthKeys)
    (hself : ∃ σ, dictGet id s'.authState = some σ)
    (hscope : ∀ other, other ≠ id → other.scope = id.scope → dictGet other s'.authState = none)
    (hoth : ∀ other, other.scope ≠ id.scope →
      dictGet other s'.authState = dictGet other s.authState) : Owned s' where
  keys other := by
    rw [howned, dictGet_dictSet]
    by_cases hsame : other.scope = id.scope
    · rw [if_pos hsame.symm]
      by_cases hid : other = id
      · subst hid
        exact iff_of_true hself rfl
      · refine iff_of_false ?_ fun heq => hid (Option.some.inj heq).symm
        rintro ⟨σ, hσ⟩
        rw [hscope other hid hsame] at hσ
        cases hσ
    · rw [if_neg (Ne.symm hsame), hoth other hsame]
      exact h.keys other
  scopes scope other hother := by
    rw [howned, dictGet_dictSet] at hother
    split at hother
    case isTrue heq =>
      cases hother
      exact heq
    case isFalse => exact h.scopes scope other hother

/-- In a scope that has an owner, no other identity is shared. -/
theorem Owned.not_shared (h : Owned s)
    (hother : ∀ owned, dictGet id.scope s.ownedAuthKeys = some owned → owned ≠ id) :
    dictGet id s.authState = none := by
  by_contra hsome
  obtain ⟨σ, hσ⟩ := Option.ne_none_iff_exists'.mp hsome
  exact hother id ((h.keys id).mp ⟨σ, hσ⟩) rfl

variable {key : FirewallAuthCacheKey}

theorem owned_lookup (h : Owned s) (hlook : Lookup s key s' σ) : Owned s' := by
  cases hlook with
  | reused => exact h
  | detached => exact h.congr rfl rfl
  | kept hcur hstate howner =>
    refine h.claim key.toAuthIdentity rfl ⟨σ, hstate⟩ (fun other hne hscope => ?_) (fun _ _ => rfl)
    refine h.not_shared fun owned howned => ?_
    rw [hscope] at howned
    exact howner owned howned ▸ hne.symm
  | claimed hcur hclaim =>
    refine h.claim key.toAuthIdentity rfl ⟨s.allocated, ?_⟩ (fun other hne hscope =>
      ?_) (fun other hscope => ?_)
    · rw [dictGet_dictSet, if_pos rfl]
    · rw [dictGet_dictSet, if_neg hne.symm]
      rcases hclaim with ⟨rfl, _, howner⟩ | ⟨owned, howned, _, rfl⟩
      · refine h.not_shared fun owned howned => ?_
        rw [hscope] at howned
        exact howner owned howned ▸ hne.symm
      · -- the owner of before is taken out, and nobody else was shared
        rw [dictGet_dictErase]
        split
        case isTrue => rfl
        case isFalse hother =>
          refine h.not_shared fun owned' howned' => ?_
          rw [hscope] at howned'
          exact Option.some.inj (howned.symm.trans howned') ▸ hother
    · have hne : key.toAuthIdentity ≠ other := fun heq => hscope (heq ▸ rfl)
      rw [dictGet_dictSet, if_neg hne]
      rcases hclaim with ⟨rfl, _⟩ | ⟨owned, howned, _, rfl⟩
      · rfl
      · have hne' : owned ≠ other := fun heq => hscope (heq ▸ h.scopes _ _ howned)
        rw [dictGet_dictErase, if_neg hne']

/-! ### Reconciliation -/

theorem dropScope_owned (s : System P) (scope other : Scope) :
      dictGet other (s.dropScope scope).ownedAuthKeys =
      if scope = other then none else dictGet other s.ownedAuthKeys := by
  unfold System.dropScope
  split
  case h_1 hnone =>
    split
    case isTrue heq => rw [← heq, hnone]
    case isFalse => rfl
  case h_2 => exact dictGet_dictErase ..

theorem owned_dropScope (h : Owned s) (scope : Scope) : Owned (s.dropScope scope) where
  keys id := by
    rw [dropScope_owned]
    unfold System.dropScope
    split
    case h_1 hnone =>
      rw [h.keys]
      split
      case isTrue heq => rw [← heq, hnone]
      case isFalse => rfl
    case h_2 owner howner =>
      rw [dictGet_dictErase]
      by_cases hscope : scope = id.scope
      · -- the owner is taken out of both; other identities of the scope were not shared
        rw [if_pos hscope]
        refine iff_of_false ?_ (Option.some_ne_none id).symm
        rintro ⟨σ, hσ⟩
        split at hσ
        case isTrue => cases hσ
        case isFalse hne =>
          have hown := (h.keys id).mp ⟨σ, hσ⟩
          rw [← hscope, howner] at hown
          exact hne (Option.some.inj hown)
      · have hne : owner ≠ id := fun heq => hscope (heq ▸ (h.scopes scope owner howner).symm)
        rw [if_neg hscope, if_neg hne]
        exact h.keys id
  scopes other id hid := by
    rw [dropScope_owned] at hid
    split at hid
    case isTrue => cases hid
    case isFalse => exact h.scopes other id hid

theorem foldl_dropScope_owned (scopes : List Scope) : ∀ {s : System P}, Owned s →
    Owned (scopes.foldl System.dropScope s) ∧ ∀ other,
        dictGet other (scopes.foldl System.dropScope s).ownedAuthKeys =
        if other ∈ scopes then none else dictGet other s.ownedAuthKeys := by
  induction scopes with
  | nil => exact fun h => ⟨h, fun _ => rfl⟩
  | cons scope scopes ih =>
    intro s h
    obtain ⟨howned, hget⟩ := ih (owned_dropScope h scope)
    refine ⟨howned, fun other => ?_⟩
    rw [foldl_cons, hget, dropScope_owned]
    by_cases hmem : other ∈ scopes
    · rw [if_pos hmem, if_pos (mem_cons_of_mem _ hmem)]
    · by_cases heq : scope = other
      · rw [if_neg hmem, if_pos heq, if_pos (heq ▸ mem_cons_self)]
      · rw [if_neg hmem, if_neg heq, if_neg]
        rw [mem_cons, not_or]
        exact ⟨Ne.symm heq, hmem⟩

theorem owned_reconcile (h : Owned s) (active : List (String × ℕ)) : Owned (s.reconcile active) :=
  have hbef : Owned { s with activeRegistryGenerations := active } := h.congr rfl rfl
  (foldl_dropScope_owned _ hbef).1

/-- **After a reconciliation no state of an absent run is shared.** -/
theorem reconcile_active (h : Owned s) {active}
    (hσ : dictGet id (s.reconcile active).authState = some σ) : id.runId ∈ active.map Prod.fst := by
  have howner := ((owned_reconcile h active).keys id).mp ⟨σ, hσ⟩
  have hbef : Owned { s with activeRegistryGenerations := active } := h.congr rfl rfl
  unfold System.reconcile at howner
  rw [(foldl_dropScope_owned _ hbef).2] at howner
  split at howner
  case isTrue => cases howner
  case isFalse hkept =>
    by_contra habsent
    refine hkept (mem_filter.mpr ⟨?_, decide_eq_true habsent⟩)
    by_contra hmem
    rw [dictGet_eq_none hmem] at howner
    cases howner

/-- **Every transition keeps the dictionaries in agreement.** -/
theorem owned_step (halloc : Allocated s) (h : Owned s) (hstep : step s e = some s') :
    Owned s' := by
  cases (step_cases halloc hstep).2.2 with
  | same hauth howned => exact h.congr hauth howned
  | looked _ hlook hauth howned => exact (owned_lookup h hlook).congr hauth howned
  | reconciled active _ hs' => exact hs' ▸ owned_reconcile h active
  | evicted _ hs' =>
    subst hs'
    exact owned_init.congr rfl rfl

/-! ### Evictions -/

/-- What holds of an identity once its state was evicted, when there were so many states,
fetches and calls. -/
structure Gone (id : AuthIdentity) (states fetches calls : ℕ) (s : System P) : Prop where
  allocated : states ≤ s.allocated
  /-- What is shared is new. -/
  shared : ∀ τ, dictGet id s.authState = some τ → states ≤ τ
  /-- Later calls hold new states. -/
  later : ∀ (c : ℕ) (call : Call P), calls ≤ c → s.calls[c]? = some call →
    call.key.toAuthIdentity = id → states ≤ call.state
  length_le : fetches ≤ s.fetches.length
  /-- The fetches of before are of old states. -/
  old : ∀ (f : ℕ) (fetch : Fetch P), f < fetches → s.fetches[f]? = some fetch → fetch.state < states

/-- The moment of the eviction. -/
theorem gone_of_evicted (hs : Sound s) (hnone : dictGet id s.authState = none) :
    Gone id s.allocated s.fetches.length s.calls.length s where
  allocated := Nat.le_refl _
  shared τ hτ := by
    rw [hnone] at hτ
    cases hτ
  later c call hc hcall _ := by
    have hlt := lt_of_getElem?_eq_some hcall
    omega
  length_le := Nat.le_refl _
  old f fetch _ hfetch := hs.allocated.fetches fetch (mem_of_getElem? hfetch)

/-- A lookup finds what is shared, or takes a new state. -/
theorem Lookup.state_cases (h : Lookup s key s' σ) :
    dictGet key.toAuthIdentity s.authState = some σ ∨ σ = s.allocated := by
  cases h with
  | reused _ hstate => exact .inl hstate
  | detached => exact .inr rfl
  | kept _ hstate _ => exact .inl hstate
  | claimed => exact .inr rfl

section

variable (h : Gone id states fetches calls s)

include h

theorem gone_calls (hcalls : CallStep s s') :
    ∀ (c : ℕ) (call : Call P), calls ≤ c → s'.calls[c]? = some call → call.key.toAuthIdentity = id →
      states ≤ call.state := by
  have hlater (c : ℕ) (call : Call P) (hcall : s.calls[c]? = some call) (hc : calls ≤ c) :=
    h.later c call hc hcall
  refine fun c call hc hcall => hcalls.forall_calls
    (Q := fun c call => calls ≤ c → call.key.toAuthIdentity = id → states ≤ call.state) hlater ?_
    (@fun c call _ _ hcall _ => hlater c call hcall) (@fun c _ call _ _ _ _ hcall _ _ _ =>
      hlater c call hcall)
    (@fun c call _ hcall _ => hlater c call hcall) c call hcall hc
  rintro _ _ _ _ _ _ hlook _ _ rfl
  rcases hlook.state_cases with hstate | rfl
  · exact h.shared _ hstate
  · exact h.allocated

theorem gone_step (hs : Sound s) (hstep : step s e = some s') :
    Gone id states fetches calls s' := by
  obtain ⟨hcore, hcalls, hshare⟩ := step_cases hs.allocated hstep
  refine ⟨Nat.le_trans h.allocated hshare.allocated_le, fun τ hτ => ?_, gone_calls h hcalls,
    Nat.le_trans h.length_le hcore.length_le, fun f fetch' hf hfetch' => ?_⟩
  · rcases hshare.shared hτ with hτ | ⟨rfl, _⟩
    · exact h.shared τ hτ
    · exact h.allocated
  · obtain ⟨fetch, hfetch⟩ : ∃ fetch, s.fetches[f]? = some fetch :=
      ⟨_, getElem?_eq_getElem (Nat.lt_of_lt_of_le hf h.length_le)⟩
    obtain ⟨fetch'', hfetch'', hlater⟩ := hcore.later hfetch
    obtain rfl : fetch' = fetch'' := Option.some.inj (hfetch'.symm.trans hfetch'')
    rw [hlater.state]
    exact h.old f fetch hf hfetch

variable {es : List (Event P)}

theorem gone_run (hs : Sound s) (hrun : runEvents step s es = some s') :
    Gone id states fetches calls s' := by
  refine (runEvents_invariant (fun s => Sound s ∧ Gone id states fetches calls s) ?_ ⟨hs, h⟩ hrun).2
  rintro s e s' ⟨hs, h⟩ hstep
  exact ⟨sound_step hs hstep, gone_step h hs hstep⟩

/-- The end of an old fetch does not touch what the identity has now. -/
theorem Gone.finish {f} {outcome} {wall} (hf : f < fetches)
    (hstep : step s (.finish f outcome wall) = some s') :
      dictGet id s'.authState = dictGet id s.authState ∧
      ∀ τ, dictGet id s.authState = some τ → s'.states τ = s.states τ := by
  simp only [step] at hstep
  split at hstep
  case h_1 => cases hstep
  case h_2 fetch hfetch =>
    split at hstep
    case h_1 hstat =>
      cases hstep
      refine ⟨rfl, fun τ hτ => ?_⟩
      have hold := h.old f fetch hf hfetch
      have hnew := h.shared τ hτ
      rw [Core.finishFetch_states, if_neg (by omega)]
    case h_2 => cases hstep

/-- What later calls return was fetched after the eviction. -/
theorem Gone.served (hs : Sound s) {c} {call} {tokenMeta} {served}
    {takenAt} (hc : calls ≤ c) (hcall : s.calls[c]? = some call)
    (hid : call.key.toAuthIdentity = id)
    (hret : call.status = .returned tokenMeta served takenAt) : fetches ≤ served.identity := by
  have hok := hs.served c call hcall
  rw [hret] at hok
  obtain ⟨fetch, _, _, hfetch, hstate, _⟩ := hok.1
  have hnew := h.later c call hc hcall hid
  by_contra hlt
  have hold := h.old served.identity fetch (by omega) hfetch
  omega

end

/-! ### The main result -/

/-- What is guaranteed of a system that is reached. -/
structure Governed (s : System P) : Prop where
  /-- The keys of the shared states are the owned keys. -/
  keys : ∀ id, (∃ σ, dictGet id s.authState = some σ) ↔ ∃ scope,
    dictGet scope s.ownedAuthKeys = some id
  /-- A scope owns an identity of its own. -/
  scopes : ∀ scope id, dictGet scope s.ownedAuthKeys = some id → id.scope = scope
  /-- Only calls with a current key, reconciliations and evictions change what is shared. -/
  changes : ∀ e s', step s e = some s' →
    (∀ key firewallBillable wall scheduled, e = .call key firewallBillable wall scheduled →
      s.isCurrent key = false) →
    (∀ active, e ≠ .reconcile active) → e ≠ .evictAll → s'.authState = s.authState ∧
      s'.ownedAuthKeys = s.ownedAuthKeys
  /-- After a reconciliation no state of an absent run is shared. -/
  reconciled : ∀ active s', step s (.reconcile active) = some s' → ∀ id σ,
    dictGet id s'.authState = some σ → id.runId ∈ active.map Prod.fst
  /-- A state has one fetch in flight. -/
  flight : ∀ (f g : ℕ) (first second : Fetch P), s.fetches[f]? = some first →
    s.fetches[g]? = some second →
    first.unfinished = true → second.unfinished = true → first.state = second.state → f = g
  admitted : s.admitted = s.fetches.countP Fetch.unfinished
  limit : s.admitted ≤ maxAdmitted

/-- A transition of a run takes an identity out of the shared states: the fetches that were
started up to then do not touch the state that the identity has at the end of the run, and
nothing that they got is returned to a call for it which began later. -/
def EvictedForGood (es : List (Event P)) (s : System P) : Prop :=
  ∀ (before after : List (Event P)) (e : Event P) (id : AuthIdentity) (σ : ℕ) (s₁ s₂ : System P),
    es = before ++ e :: after → runEvents step init before = some s₁ → step s₁ e = some s₂ →
    dictGet id s₁.authState = some σ → dictGet id s₂.authState = none →
      (∀ f outcome wall s', f < s₂.fetches.length → step s (.finish f outcome wall) = some s' →
        dictGet id s'.authState = dictGet id s.authState ∧
          ∀ τ, dictGet id s.authState = some τ → s'.states τ = s.states τ) ∧
      ∀ (c : ℕ) (call : Call P) (tokenMeta : TokenMeta P) (served : CacheEntry P) (takenAt : ℤ),
        s₂.calls.length ≤ c → s.calls[c]? = some call → call.key.toAuthIdentity = id →
        call.status = .returned tokenMeta served takenAt → s₂.fetches.length ≤ served.identity

theorem ShareStep.unchanged (h : ShareStep e s s')
    (hcall : ∀ key firewallBillable wall scheduled, e = .call key firewallBillable wall scheduled →
      s.isCurrent key = false)
    (hrec : ∀ active, e ≠ .reconcile active) (hevict : e ≠ .evictAll) :
    s'.authState = s.authState ∧ s'.ownedAuthKeys = s.ownedAuthKeys := by
  cases h with
  | same hauth howned => exact ⟨hauth, howned⟩
  | looked he hlook hauth howned =>
    have hstale := hcall _ _ _ _ he
    rw [hauth, howned]
    cases hlook with
    | reused => exact ⟨rfl, rfl⟩
    | detached => exact ⟨rfl, rfl⟩
    | kept hcur =>
      rw [hstale] at hcur
      cases hcur
    | claimed hcur =>
      rw [hstale] at hcur
      cases hcur
  | reconciled active he => exact absurd he (hrec active)
  | evicted he => exact absurd he hevict

theorem governed_of_sound (hs : Sound s) (howned : Owned s) : Governed s where
  keys id := by
    rw [howned.keys]
    constructor
    · exact fun h => ⟨id.scope, h⟩
    · rintro ⟨scope, h⟩
      rw [howned.scopes scope id h]
      exact h
  scopes := howned.scopes
  changes e s' hstep hcall hrec hevict :=
    (step_cases hs.allocated hstep).2.2.unchanged hcall hrec hevict
  reconciled active s' hstep id σ hσ := by
    cases hstep
    exact reconcile_active howned hσ
  flight f g first second hfirst hsec hunfin hunfin' hstate := by
    have hf := (hs.flights.inFlight first.state f).mpr ⟨first, hfirst, rfl, hunfin⟩
    have hg := (hs.flights.inFlight first.state g).mpr ⟨second, hsec, hstate.symm, hunfin'⟩
    exact Option.some.inj (hf.symm.trans hg)
  admitted := hs.flights.admitted
  limit := hs.flights.limit

theorem evictedForGood_run (hrun : runEvents step init es = some s) : EvictedForGood es s := by
  intro before after e id σ s₁ s₂ hes hbef hstep _ hnone
  subst hes
  rw [runEvents_append, hbef, Option.bind_some, runEvents, hstep, Option.bind_some] at hrun
  have hs₂ := sound_step (sound_run sound_init hbef) hstep
  have hs := sound_run hs₂ hrun
  have hgone := gone_run (gone_of_evicted hs₂ hnone) hs₂ hrun
  refine ⟨fun f outcome wall s' hf hfinish => hgone.finish hf hfinish, ?_⟩
  intro c call tokenMeta served takenAt hc hcall hid hret
  exact hgone.served hs hc hcall hid hret

/-- **One owner per scope, evictions are for good, and fetches stay bounded**, in every run. -/
theorem governed_run {es : List (Event P)} {s : System P} (hrun : runEvents step init es = some s) :
    Governed s ∧ EvictedForGood es s := by
  obtain ⟨hs, howned⟩ : Sound s ∧ Owned s := runEvents_invariant (fun s => Sound s ∧ Owned s)
    (fun _ _ _ h hstep => ⟨sound_step h.1 hstep, owned_step h.1.allocated h.2 hstep⟩) ⟨sound_init,
      owned_init⟩ hrun
  exact ⟨governed_of_sound hs howned, evictedForGood_run hrun⟩

/-- A fetch of a state that is evicted while it is in flight: the call that began it gets its
result, and the next call for the identity fetches again. -/
def evictedRun : List (Event String) :=
  let key : FirewallAuthCacheKey := ⟨⟨"run", "api", "auth"⟩, some 1⟩
  [.reconcile [("run", 1)], .call key false 0 true, .enter 0, .reconcile [],
    .reconcile [("run", 1)],
    .call key false 0 true, .finish 0 (some ⟨"first", .missing, [], []⟩) 0, .resume 0 0 true,
    .enter 1, .finish 1 (some ⟨"second", .missing, [], []⟩) 0, .resume 1 0 true]

theorem governed_run_evicted : ∃ s, runEvents step init evictedRun = some s ∧
      s.calls.map Call.status =
      [.returned ⟨"first", false, 0, some [], some []⟩ ⟨"first", 0, .missing⟩ 0,
        .returned ⟨"second", false, 1, some [], some []⟩ ⟨"second", 1, .missing⟩ 0] ∧
    Governed s ∧ EvictedForGood evictedRun s :=
  exists_run_and (by decide +kernel) fun _ hrun _ => governed_run hrun

end Okou.Auth
