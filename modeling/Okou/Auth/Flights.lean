import Okou.Auth.Steps

/-!
# Fetches of the credential cache

A state has at most one fetch in flight, every entry was made by a fetch of its own state,
and the admission counter is the number of the fetches that have not ended.  A call returns
an entry of its own state.
-/

namespace Okou.Auth

open List Auth.Core Fetch

variable {P : Type}

/-! ### Lists -/

variable {i : ℕ} {status : FetchStatus P} {entry : CacheEntry P} {call : Call P}

theorem getElem?_concat_eq_some {α : Type} {l : List α} {a b : α} :
    (l ++ [a])[i]? = some b ↔ l[i]? = some b ∨ (i = l.length ∧ a = b) := by grind

theorem getElem?_set_eq_some {α : Type} {l : List α} {a b : α} {j : ℕ} :
    (l.set i a)[j]? = some b ↔ (i = j ∧ i < l.length ∧ a = b) ∨ (i ≠ j ∧ l[j]? = some b) := by grind

theorem lt_of_getElem?_eq_some {α : Type} {l : List α} {a : α} (h : l[i]? = some a) :
  i < l.length := (List.getElem?_eq_some_iff.mp h).1

/-! ### What starting and ending a fetch does -/

namespace Core

variable (s : Core P) (σ : ℕ) (firewallBillable : Bool)

theorem startFetch_states (τ : ℕ) : (s.startFetch σ firewallBillable).states τ = if τ =
    σ then { s.states σ with
      inFlight := some s.fetches.length, forceRefreshPending := false
      lastForceRefresh := if (s.states σ).forceRefreshPending then some s.now
        else (s.states σ).lastForceRefresh }
    else s.states τ := setState_states ..

@[simp] theorem startFetch_fetches : (s.startFetch σ firewallBillable).fetches =
    s.fetches ++ [⟨σ, firewallBillable, (s.states σ).forceRefreshPending, s.now, .queued⟩] := rfl

variable (f : ℕ) (fetch : Fetch P) (outcome : Option (FirewallAuthSuccess P)) (wall : ℤ)

theorem finishFetch_states (τ : ℕ) : (s.finishFetch f fetch outcome wall).states τ =
    if τ = fetch.state then { s.states fetch.state with
      cache := (fetchOutcome (s.states fetch.state) f fetch outcome wall).2, inFlight := none }
    else s.states τ := setState_states ..

@[simp] theorem finishFetch_fetches : (s.finishFetch f fetch outcome wall).fetches = s.fetches.set f
    { fetch with status := (fetchOutcome (s.states fetch.state) f fetch outcome wall).1 } := rfl

end Core

/-- How a fetch ends: it fails and leaves the cache, or its result is an entry of its own. -/
inductive Ended (state : AuthState P) (f : ℕ) (fetch : Fetch P) (wall : ℤ) : FetchStatus P →
    Option (CacheEntry P) → Prop
  | failed (error : AuthError) : Ended state f fetch wall (.failed error) state.cache
  | done {entry : CacheEntry P} {tokenMeta : TokenMeta P} (hident : entry.identity = f)
      (hmeta : tokenMeta.payload = entry.payload ∧ tokenMeta.cacheEntryIdentity = entry.identity)
      (hexp : fetch.firewallBillable = true → hasValidExpiry entry.expiresAt wall = true) :
      Ended state f fetch wall (.done entry tokenMeta wall)
        (if !fetch.forceRefresh && state.forceRefreshPending then state.cache else some entry)

theorem ended (state) (f : ℕ) (fetch : Fetch P) (outcome) (wall : ℤ) :
    Ended state f fetch wall (fetchOutcome state f fetch outcome wall).1
      (fetchOutcome state f fetch outcome wall).2 := by
  unfold fetchOutcome
  split
  · exact .failed _
  · split
    · exact .failed _
    · next hexp =>
      refine .done rfl ⟨rfl, rfl⟩ fun hbill => ?_
      rw [hbill] at hexp
      simpa using hexp

variable {f allocated : ℕ} {fetch : Fetch P} {wall : ℤ} {s s' : Core P} {e : Event P}
  {firewallBillable : Bool}

theorem Ended.finished {state} {cache}
    (h : Ended state f fetch wall status cache) :
    { fetch with status := status }.unfinished = false := by
  cases h <;> rfl

/-! ### Markers -/

/-- What time and a response of 401 do: a marker is set where the cooldown is over, and nothing
enters a cache. -/
structure Marks (s s' : Core P) : Prop where
  fetches_eq : s'.fetches = s.fetches
  admitted_eq : s'.admitted = s.admitted
  now_le : s.now ≤ s'.now
  last_eq : ∀ τ, (s'.states τ).lastForceRefresh = (s.states τ).lastForceRefresh
  flight_eq : ∀ τ, (s'.states τ).inFlight = (s.states τ).inFlight
  cache : ∀ τ entry, (s'.states τ).cache = some entry → (s.states τ).cache = some entry
  kept : ∀ τ, (s.states τ).forceRefreshPending = true → (s'.states τ).forceRefreshPending = true
  pending : ∀ τ, (s'.states τ).forceRefreshPending = true →
    (s.states τ).forceRefreshPending = true ∨ s.cooledDown τ = true

theorem marks_tick (s : Core P) (elapsed : ℕ) : Marks s { s with now := s.now + elapsed } :=
  ⟨rfl, rfl, Nat.le_add_right _ _, fun _ => rfl, fun _ => rfl, fun _ _ => id, fun _ => id, fun _ =>
    .inl⟩

theorem marks_mark (s : Core P) (σ : ℕ) : Marks s (s.mark σ) := by
  refine ⟨s.mark_fetches σ, s.mark_admitted σ, Nat.le_of_eq (s.mark_now σ).symm, ?_, ?_, ?_, ?_, ?_⟩
  all_goals
    intro τ
    rw [mark_states]
    split <;> simp_all

theorem marks_revoke (s : Core P) (σ : ℕ) : Marks s (s.revoke σ) := by
  refine ⟨s.revoke_fetches σ, s.revoke_admitted σ, Nat.le_of_eq (s.revoke_now σ).symm, ?_, ?_, ?_,
    ?_, ?_⟩
  all_goals
    intro τ
    rw [revoke_states]
    split <;> simp_all

/-! ### Fetches go on -/

/-- The same fetch, later. -/
structure Fetch.Later (fetch fetch' : Fetch P) : Prop where
  state : fetch'.state = fetch.state
  firewallBillable : fetch'.firewallBillable = fetch.firewallBillable
  forceRefresh : fetch'.forceRefresh = fetch.forceRefresh
  startedAt : fetch'.startedAt = fetch.startedAt
  status : fetch.unfinished = false → fetch'.status = fetch.status
  unfinished : fetch'.unfinished = true → fetch.unfinished = true

theorem Fetch.Later.refl (fetch : Fetch P) : fetch.Later fetch :=
  ⟨rfl, rfl, rfl, rfl, fun _ => rfl, id⟩

theorem unfinished_of_queued (h : fetch.status = .queued) : fetch.unfinished := by
  rw [unfinished, h]

theorem unfinished_of_sending (h : fetch.status = .sending) : fetch.unfinished := by
  rw [unfinished, h]

/-- A fetch whose status changes is the same fetch, later. -/
theorem later_set {g : ℕ} {other : Fetch P} (hfetch : s.fetches[f]? = some fetch)
    (hunfin : fetch.unfinished) (hother : s.fetches[g]? = some other) :
    ∃ fetch', (s.fetches.set f { fetch with status := status })[g]? = some fetch' ∧
      other.Later fetch' := by
  by_cases hfg : f = g
  · subst hfg
    obtain rfl : fetch = other := Option.some.inj (hfetch.symm.trans hother)
    refine ⟨{ fetch with status := status },
      getElem?_set_eq_some.mpr (.inl ⟨rfl, lt_of_getElem?_eq_some hfetch, rfl⟩), rfl, rfl, rfl, rfl,
        ?_, fun _ => hunfin⟩
    intro h
    rw [hunfin] at h
    cases h
  · exact ⟨other, getElem?_set_eq_some.mpr (.inr ⟨hfg, hother⟩), .refl other⟩

/-- **Fetches go on**, and keep what they were started with. -/
theorem CoreStep.later (h : CoreStep e allocated s s') {g : ℕ}
    (hfetch : s.fetches[g]? = some fetch) :
    ∃ fetch', s'.fetches[g]? = some fetch' ∧ fetch.Later fetch' := by
  cases h with
  | refl => exact ⟨fetch, hfetch, .refl fetch⟩
  | tick => exact ⟨fetch, hfetch, .refl fetch⟩
  | mark σ => exact ⟨fetch, by rw [mark_fetches]; exact hfetch, .refl fetch⟩
  | revoke σ => exact ⟨fetch, by rw [revoke_fetches]; exact hfetch, .refl fetch⟩
  | start σ => exact ⟨fetch, getElem?_concat_eq_some.mpr (.inl hfetch), .refl fetch⟩
  | enter permits hentered hstat => exact later_set hentered (unfinished_of_queued hstat) hfetch
  | finish outcome wall hended hstat => exact later_set hended (unfinished_of_sending hstat) hfetch

theorem CoreStep.length_le (h : CoreStep e allocated s s') :
    s.fetches.length ≤ s'.fetches.length := by
  cases h <;> simp

/-! ### The invariant -/

/-- A fetch of the state made the entry. -/
def Made (s : Core P) (σ : ℕ) (entry : CacheEntry P) : Prop :=
  ∃ fetch tokenMeta finishedAt, s.fetches[entry.identity]? = some fetch ∧ fetch.state = σ ∧
    fetch.status = .done entry tokenMeta finishedAt

/-- What is always true of the fetches. -/
structure Flights (s : Core P) : Prop where
  inFlight : ∀ σ f, (s.states σ).inFlight = some f ↔
    ∃ fetch, s.fetches[f]? = some fetch ∧ fetch.state = σ ∧ fetch.unfinished = true
  admitted : s.admitted = s.fetches.countP Fetch.unfinished
  limit : s.admitted ≤ maxAdmitted
  entries : ∀ σ entry, (s.states σ).cache = some entry → Made s σ entry
  /-- The entry of a fetch is its own, and a billable request got a valid expiry. -/
  done : ∀ (f : ℕ) (fetch : Fetch P) (entry : CacheEntry P) (tokenMeta : TokenMeta P)
    (finishedAt : ℤ), s.fetches[f]? = some fetch → fetch.status = .done entry tokenMeta finishedAt →
      entry.identity = f ∧ (tokenMeta.payload = entry.payload ∧
        tokenMeta.cacheEntryIdentity = entry.identity) ∧
        (fetch.firewallBillable = true → hasValidExpiry entry.expiresAt finishedAt = true)

theorem Made.later {σ : ℕ} (hmade : Made s σ entry) (h : CoreStep e allocated s s') :
    Made s' σ entry := by
  obtain ⟨fetch, tokenMeta, finishedAt, hfetch, hstate, hstat⟩ := hmade
  obtain ⟨fetch', hfetch', hlater⟩ := h.later hfetch
  have hfin : fetch.unfinished = false := by rw [unfinished, hstat]
  exact ⟨fetch', tokenMeta, finishedAt, hfetch', hlater.state.trans hstate,
    (hlater.status hfin).trans hstat⟩

theorem flights_init : Flights (init : System P).toCore where
  inFlight σ f := by
    constructor
    · intro h
      cases h
    · rintro ⟨fetch, hfetch, _⟩
      cases hfetch
  admitted := rfl
  limit := by
    show (0 : ℤ) ≤ 16
    decide
  entries σ entry h := by cases h
  done f fetch entry tokenMeta finishedAt h := by cases h

theorem Flights.of_marks (h : Flights s) (hm : Marks s s') : Flights s' where
  inFlight σ f := by
    rw [hm.flight_eq, hm.fetches_eq]
    exact h.inFlight σ f
  admitted := by
    rw [hm.admitted_eq, hm.fetches_eq]
    exact h.admitted
  limit := hm.admitted_eq ▸ h.limit
  entries σ entry hentry := by
    unfold Made
    rw [hm.fetches_eq]
    exact h.entries σ entry (hm.cache σ entry hentry)
  done := hm.fetches_eq ▸ h.done

theorem flights_start {σ : ℕ} (h : Flights s) (hidle : (s.states σ).inFlight = none)
    (hroom : s.admitted < maxAdmitted)
    (hmade : ∀ τ entry, Made s τ entry → Made (s.startFetch σ firewallBillable) τ entry) :
    Flights (s.startFetch σ firewallBillable) where
  inFlight τ f := by
    rw [startFetch_states, startFetch_fetches]
    -- the fetches of the state that were in flight are none
    have hnone : ∀ fetch, s.fetches[f]? = some fetch → fetch.state = σ → fetch.unfinished →
      False := by
      intro fetch hfetch hstate hunfin
      have hflight := (h.inFlight σ f).mpr ⟨fetch, hfetch, hstate, hunfin⟩
      rw [hidle] at hflight
      cases hflight
    by_cases hτ : τ = σ
    · subst hτ
      rw [if_pos rfl]
      constructor
      · intro hf
        obtain rfl : s.fetches.length = f := Option.some.inj hf
        exact ⟨_, getElem?_concat_eq_some.mpr (.inr ⟨rfl, rfl⟩), rfl, rfl⟩
      · rintro ⟨fetch, hfetch, hstate, hunfin⟩
        rcases getElem?_concat_eq_some.mp hfetch with hfetch | ⟨rfl, _⟩
        · exact (hnone fetch hfetch hstate hunfin).elim
        · rfl
    · rw [if_neg hτ, h.inFlight]
      refine exists_congr fun fetch => ?_
      rw [getElem?_concat_eq_some]
      constructor
      · exact fun hfetch => ⟨.inl hfetch.1, hfetch.2⟩
      · rintro ⟨hfetch | ⟨_, rfl⟩, hstate, hunfin⟩
        · exact ⟨hfetch, hstate, hunfin⟩
        · exact absurd hstate.symm hτ
  admitted := by
    have hcount := h.admitted
    show s.admitted + 1 = _
    rw [startFetch_fetches, countP_append, hcount]
    simp [unfinished]
  limit := by
    show s.admitted + 1 ≤ maxAdmitted
    omega
  entries τ entry hentry := by
    refine hmade τ entry (h.entries τ entry ?_)
    rw [startFetch_states] at hentry
    split at hentry
    · next hτ => rw [hτ]; exact hentry
    · exact hentry
  done f fetch entry tokenMeta finishedAt hfetch hstat := by
    rcases getElem?_concat_eq_some.mp hfetch with hfetch | ⟨_, rfl⟩
    · exact h.done f fetch entry tokenMeta finishedAt hfetch hstat
    · cases hstat

theorem flights_enter {permits : ℕ} (h : Flights s)
    (hfetch : s.fetches[f]? = some fetch) (hstat : fetch.status = .queued)
      (hmade : ∀ τ entry, Made s τ entry →
      Made { s with
          permits := permits, fetches := s.fetches.set f { fetch with status := .sending } } τ entry) :
    Flights { s with
        permits := permits, fetches := s.fetches.set f { fetch with status := .sending } } where
  inFlight τ g := by
    rw [h.inFlight]
    constructor
    · rintro ⟨other, hother, hstate, hunfin⟩
      by_cases hfg : f = g
      · subst hfg
        obtain rfl : fetch = other := Option.some.inj (hfetch.symm.trans hother)
        exact ⟨_, getElem?_set_eq_some.mpr (.inl ⟨rfl, lt_of_getElem?_eq_some hfetch, rfl⟩), hstate,
          rfl⟩
      · exact ⟨other, getElem?_set_eq_some.mpr (.inr ⟨hfg, hother⟩), hstate, hunfin⟩
    · rintro ⟨other, hother, hstate, hunfin⟩
      rcases getElem?_set_eq_some.mp hother with ⟨rfl, _, rfl⟩ | ⟨_, hother⟩
      · exact ⟨fetch, hfetch, hstate, unfinished_of_queued hstat⟩
      · exact ⟨other, hother, hstate, hunfin⟩
  admitted := by
    obtain ⟨hlt, hget⟩ := List.getElem?_eq_some_iff.mp hfetch
    have hbef : fetch.unfinished := unfinished_of_queued hstat
    have hpos : 0 < s.fetches.countP unfinished :=
      countP_pos_iff.mpr ⟨fetch, mem_of_getElem? hfetch, hbef⟩
    have hafter : ({ fetch with status := .sending } : Fetch P).unfinished := rfl
    rw [countP_set hlt, hget, if_pos hbef, if_pos hafter, Nat.sub_add_cancel hpos]
    exact h.admitted
  limit := h.limit
  entries τ entry hentry := hmade τ entry (h.entries τ entry hentry)
  done g other entry tokenMeta finishedAt hother hdone := by
    rcases getElem?_set_eq_some.mp hother with ⟨rfl, _, rfl⟩ | ⟨_, hother⟩
    · cases hdone
    · exact h.done g other entry tokenMeta finishedAt hother hdone

theorem flights_finish (outcome) (wall : ℤ)
    (h : Flights s) (hfetch : s.fetches[f]? = some fetch) (hstat : fetch.status = .sending)
    (hmade : ∀ τ entry, Made s τ entry → Made (s.finishFetch f fetch outcome wall) τ entry) :
    Flights (s.finishFetch f fetch outcome wall) := by
  have hended := ended (s.states fetch.state) f fetch outcome wall
  have hlt := lt_of_getElem?_eq_some hfetch
  have hbef : fetch.unfinished := unfinished_of_sending hstat
  have hflight : (s.states fetch.state).inFlight = some f :=
    (h.inFlight fetch.state f).mpr ⟨fetch, hfetch, rfl, hbef⟩
  refine ⟨fun τ g => ?_, ?_, ?_, fun τ entry hentry => ?_, ?_⟩
  · rw [finishFetch_states, finishFetch_fetches]
    by_cases hτ : τ = fetch.state
    · -- the fetch that ended was the only one of its state
      subst hτ
      rw [if_pos rfl]
      refine ⟨fun hf => (Option.some_ne_none g hf.symm).elim, ?_⟩
      rintro ⟨other, hother, hstate, hunfin⟩
      rcases getElem?_set_eq_some.mp hother with ⟨rfl, _, rfl⟩ | ⟨hfg, hother⟩
      · rw [hended.finished] at hunfin
        cases hunfin
      · have hsame := (h.inFlight fetch.state g).mpr ⟨other, hother, hstate, hunfin⟩
        exact absurd (Option.some.inj (hflight.symm.trans hsame)) hfg
    · rw [if_neg hτ, h.inFlight]
      refine exists_congr fun other => and_congr_left fun ⟨hstate, hunfin⟩ => ?_
      rw [getElem?_set_eq_some]
      constructor
      · intro hother
        refine .inr ⟨?_, hother⟩
        rintro rfl
        obtain rfl : fetch = other := Option.some.inj (hfetch.symm.trans hother)
        exact hτ hstate.symm
      · rintro (⟨_, _, rfl⟩ | ⟨_, hother⟩)
        · exact absurd hstate.symm hτ
        · exact hother
  · obtain ⟨hlt, hget⟩ := List.getElem?_eq_some_iff.mp hfetch
    have hpos : 0 < s.fetches.countP unfinished :=
      countP_pos_iff.mpr ⟨fetch, mem_of_getElem? hfetch, hbef⟩
    have hcount := h.admitted
    show s.admitted - 1 = _
    rw [finishFetch_fetches, countP_set hlt, hget, if_pos hbef, hended.finished, hcount]
    simp only [Bool.false_eq_true, if_false]
    omega
  · have hlimit := h.limit
    show s.admitted - 1 ≤ maxAdmitted
    omega
  · rw [finishFetch_states] at hentry
    split at hentry
    case isTrue hτ =>
      subst hτ
      generalize hstatusEq : (fetchOutcome (s.states fetch.state) f fetch outcome wall).1 =
        status at hended
      generalize (fetchOutcome (s.states fetch.state) f fetch outcome wall).2 =
        cache at hended hentry
      cases hended with
      | failed error => exact hmade _ entry (h.entries _ entry hentry)
      | @done made tokenMeta hident hmeta hexp =>
        split at hentry
        · exact hmade _ entry (h.entries _ entry hentry)
        · obtain rfl := Option.some.inj hentry
          refine ⟨{ fetch with status := .done made tokenMeta wall }, tokenMeta, wall, ?_, rfl, rfl⟩
          rw [finishFetch_fetches, hstatusEq, hident]
          exact getElem?_set_eq_some.mpr (.inl ⟨rfl, hlt, rfl⟩)
    case isFalse => exact hmade τ entry (h.entries τ entry hentry)
  · intro g other entry tokenMeta finishedAt hother hdone
    rw [finishFetch_fetches] at hother
    rcases getElem?_set_eq_some.mp hother with ⟨rfl, _, rfl⟩ | ⟨_, hother⟩
    · generalize (fetchOutcome (s.states fetch.state) f fetch outcome wall).1 =
        status at hended hdone
      generalize (fetchOutcome (s.states fetch.state) f fetch outcome wall).2 = cache at hended
      cases hended with
      | failed error => cases hdone
      | done hident hmeta hexp =>
        cases hdone
        exact ⟨hident, hmeta, hexp⟩
    · exact h.done g other entry tokenMeta finishedAt hother hdone

/-- **The invariant of the fetches is kept.** -/
theorem flights_core (h : Flights s) (hstep : CoreStep e allocated s s') : Flights s' := by
  have hmade : ∀ τ entry, Made s τ entry → Made s' τ entry := fun τ entry hmade => hmade.later hstep
  cases hstep with
  | refl => exact h
  | tick elapsed => exact h.of_marks (marks_tick s elapsed)
  | mark σ => exact h.of_marks (marks_mark s σ)
  | revoke σ => exact h.of_marks (marks_revoke s σ)
  | start σ _ firewallBillable hidle hroom => exact flights_start h hidle hroom hmade
  | enter permits hfetch hstat => exact flights_enter h hfetch hstat hmade
  | finish outcome wall hfetch hstat => exact flights_finish outcome wall h hfetch hstat hmade

/-! ### What calls return -/

theorem buildCacheHit_spec {tokenMeta}
    (h : buildCacheHit entry firewallBillable wall = some tokenMeta) :
    (tokenMeta.payload = entry.payload ∧ tokenMeta.cacheEntryIdentity = entry.identity) ∧
      (firewallBillable → hasValidExpiry entry.expiresAt wall) := by
  unfold buildCacheHit at h
  split at h
  case h_1 =>
    split at h
    case isTrue => cases h
    case isFalse hfree =>
      cases h
      exact ⟨⟨rfl, rfl⟩, fun hbill => absurd hbill hfree⟩
  case h_2 =>
    split at h
    case isTrue hvalid =>
      cases h
      exact ⟨⟨rfl, rfl⟩, fun _ => hvalid⟩
    case isFalse => cases h

/-- What is known of a call in its status. -/
def CallOk (s : Core P) (call : Call P) : CallStatus P → Prop
  | .waiting f created => created = true → ∃ fetch, s.fetches[f]? = some fetch ∧
      fetch.state = call.state ∧ fetch.firewallBillable = call.firewallBillable
  | .returned tokenMeta served takenAt => Made s call.state served ∧
      (tokenMeta.payload = served.payload ∧ tokenMeta.cacheEntryIdentity = served.identity) ∧
      (call.firewallBillable = true → hasValidExpiry served.expiresAt takenAt = true)
  | .raised _ => True
  | .cancelled => True

/-- A call waits for its own fetch, or returned an entry of its own state. -/
def Served (s : System P) : Prop :=
  ∀ (c : ℕ) (call : Call P), s.calls[c]? = some call → CallOk s.toCore call call.status

theorem CallOk.later {status}
    (h : CallOk s call status) (hstep : CoreStep e allocated s s') : CallOk s' call status := by
  cases status with
  | waiting f created =>
    intro hcreat
    obtain ⟨fetch, hfetch, hstate, hbill⟩ := h hcreat
    obtain ⟨fetch', hfetch', hlater⟩ := hstep.later hfetch
    exact ⟨fetch', hfetch', hlater.state.trans hstate, hlater.firewallBillable.trans hbill⟩
  | returned tokenMeta served takenAt => exact ⟨h.1.later hstep, h.2⟩
  | raised error => trivial
  | cancelled => trivial

/-- One pass of the loop leaves a call as it should be. -/
theorem Attempted.callOk {status} (hflights : Flights s)
    (h : Attempted s call.state call.firewallBillable wall s' status) : CallOk s' call status := by
  cases h with
  | hit hcache hhit =>
    obtain ⟨hmeta, hexp⟩ := buildCacheHit_spec hhit
    exact ⟨hflights.entries _ _ hcache, hmeta, hexp⟩
  | join hflight =>
    intro hcreat
    cases hcreat
  | refused error => trivial
  | start hidle hroom =>
    intro _
    exact ⟨_, getElem?_concat_eq_some.mpr (.inr ⟨rfl, rfl⟩), rfl, rfl⟩

theorem served_init : Served (init : System P) := fun _ _ h => absurd h (by simp [init])

/-- **The calls after a step**: what holds of those of before, of one that is opened and of one
whose status changes holds of all. -/
theorem CallStep.forall_calls {Q : ℕ → Call P → Prop} {s s' : System P} (h : CallStep s s')
    (hold : ∀ c call, s.calls[c]? = some call → Q c call)
    (hopened : ∀ {key found σ firewallBillable wall status}, Lookup s key found σ →
      Attempted s.toCore σ firewallBillable wall s'.toCore status →
        Q s.calls.length ⟨key, σ, firewallBillable, status⟩)
    (hagain : ∀ {c call wall status}, s.calls[c]? = some call →
      Attempted s.toCore call.state call.firewallBillable wall s'.toCore status →
        Q c { call with status := status })
    (hfetched : ∀ {c f call fetch entry tokenMeta wall}, s.calls[c]? = some call →
      call.status = .waiting f true →
      s.fetches[f]? = some fetch → fetch.status = .done entry tokenMeta wall →
        Q c { call with status := .returned tokenMeta entry wall })
    (hended : ∀ {c call status}, s.calls[c]? = some call →
      (status = .cancelled ∨ ∃ error, status = .raised error) →
      Q c { call with status := status }) : ∀ c call, s'.calls[c]? = some call → Q c call := by
  have hset {c : ℕ} {call : Call P} (hcalls : s'.calls = s.calls.set c call) (hcall : Q c call) :
      ∀ d other, s'.calls[d]? = some other → Q d other := by
    intro d other hother
    rw [hcalls] at hother
    rcases getElem?_set_eq_some.mp hother with ⟨rfl, _, rfl⟩ | ⟨_, hother⟩
    · exact hcall
    · exact hold d other hother
  cases h with
  | same hcalls =>
    rw [hcalls]
    exact hold
  | opened _ _ _ hlook _ hatt hcalls =>
    intro c call hcall
    rw [hcalls] at hcall
    rcases getElem?_concat_eq_some.mp hcall with hcall | ⟨rfl, rfl⟩
    · exact hold c call hcall
    · exact hopened hlook hatt
  | again _ hcall _ hatt hcalls => exact hset hcalls (hagain hcall hatt)
  | fetched hcall hstat hfetch hdone _ hcalls =>
    exact hset hcalls (hfetched hcall hstat hfetch hdone)
  | ended hcall hstat _ hcalls => exact hset hcalls (hended hcall hstat)

theorem served_step {s s' : System P} (halloc : Allocated s) (hflights : Flights s.toCore)
    (hsrv : Served s) (h : step s e = some s') : Served s' := by
  obtain ⟨hcore, hcalls, _⟩ := step_cases halloc h
  refine hcalls.forall_calls (Q := fun _ call => CallOk s'.toCore call call.status)
    (fun c call hcall => (hsrv c call hcall).later hcore) (fun _ hatt => hatt.callOk hflights)
    (fun _ hatt => hatt.callOk hflights) ?_ ?_
  · intro c f call fetch entry tokenMeta wall hcall hstat hfetch hdone
    have hown := hsrv c call hcall
    rw [hstat] at hown
    obtain ⟨fetch', hfetch', hstate, hbill⟩ := hown rfl
    obtain rfl : fetch = fetch' := Option.some.inj (hfetch.symm.trans hfetch')
    obtain ⟨hident, hmeta, hexp⟩ := hflights.done f fetch entry tokenMeta wall hfetch hdone
    have hmade : Made s.toCore call.state entry :=
      ⟨fetch, tokenMeta, wall, hident ▸ hfetch, hstate, hdone⟩
    exact ⟨hmade.later hcore, hmeta, fun h => hexp (hbill.trans h)⟩
  · rintro _ _ _ _ (rfl | ⟨error, rfl⟩) <;> trivial

/-- What is true of every system that is reached. -/
structure Sound (s : System P) : Prop where
  allocated : Allocated s
  flights : Flights s.toCore
  served : Served s

theorem sound_init : Sound (init : System P) := ⟨allocated_init, flights_init, served_init⟩

theorem sound_step {s s'} (hs : Sound s) (h : step s e = some s') : Sound s' :=
  ⟨allocated_step hs.allocated h, flights_core hs.flights (step_cases hs.allocated h).1,
    served_step hs.allocated hs.flights hs.served h⟩

/-- **Every system that is reached is sound.** -/
theorem sound_run {s s' : System P} {es} (hs : Sound s) (hrun : runEvents step s es = some s') :
    Sound s' := runEvents_invariant Sound (fun _ _ _ hs h => sound_step hs h) hs hrun

end Okou.Auth
