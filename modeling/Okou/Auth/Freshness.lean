import Okou.Auth.Flights

/-!
# Revoked credentials are not served

A response of 401 clears the entry that was used and marks its state for a forced refresh.
Fetches that were started before may end later.  None of them is forced: a marker is set
only when the cooldown is over, and a forced fetch that is younger than the cooldown would
have begun it.  A fetch that is not forced keeps out of the cache while there is a marker,
and the marker stays until the next fetch begins.
-/

namespace Okou.Auth

open List Auth.Core

variable {P : Type}

/-! ### The cooldown -/

/-- Markers are set when the cooldown is over; the cooldown runs from the last forced fetch. -/
structure Cooled (s : Core P) : Prop where
  pending : ∀ σ, (s.states σ).forceRefreshPending = true → s.cooledDown σ = true
  forced : ∀ (f : ℕ) (fetch : Fetch P), s.fetches[f]? = some fetch → fetch.forceRefresh = true →
    ∃ last, (s.states fetch.state).lastForceRefresh = some last ∧ fetch.startedAt ≤ last
  current : ∀ (f : ℕ) (fetch : Fetch P), s.fetches[f]? = some fetch → fetch.forceRefresh = true →
    fetch.unfinished = true → (s.states fetch.state).lastForceRefresh = some fetch.startedAt
  apart : ∀ (f g : ℕ) (fetch fetch' : Fetch P), f < g → s.fetches[f]? = some fetch →
    s.fetches[g]? = some fetch' →
    fetch.state = fetch'.state → fetch.forceRefresh = true → fetch'.forceRefresh = true →
      fetch.startedAt + forceRefreshCooldown ≤ fetch'.startedAt

variable {s s' : Core P} {σ f allocated fetches : ℕ} {fetch : Fetch P} {e : Event P}
  {es : List (Event P)}

variable {firewallBillable : Bool}

theorem cooledDown_iff : s.cooledDown σ ↔
    ∀ last, (s.states σ).lastForceRefresh = some last → last + forceRefreshCooldown ≤ s.now := by
  unfold cooledDown
  split
  case h_1 hnone =>
    refine ⟨fun _ last hlast => ?_, fun _ => rfl⟩
    rw [hnone] at hlast
    cases hlast
  case h_2 last hsome =>
    rw [decide_eq_true_eq]
    refine ⟨fun h last' hlast => ?_, fun h => h last hsome⟩
    rw [hsome] at hlast
    exact Option.some.inj hlast ▸ h

theorem cooled_init : Cooled (init : System P).toCore where
  pending σ h := by cases h
  forced f fetch h := by cases h
  current f fetch h := by cases h
  apart f g fetch fetch' _ h := by cases h

theorem Cooled.of_marks (h : Cooled s) (hm : Marks s s') : Cooled s' where
  pending σ hσ := by
    refine cooledDown_iff.mpr fun last hl => ?_
    rw [hm.last_eq] at hl
    exact Nat.le_trans (cooledDown_iff.mp ((hm.pending σ hσ).elim (h.pending σ) id) last hl)
      hm.now_le
  forced f fetch hfetch := by
    rw [hm.last_eq]
    exact h.forced f fetch (hm.fetches_eq ▸ hfetch)
  current f fetch hfetch := by
    rw [hm.last_eq]
    exact h.current f fetch (hm.fetches_eq ▸ hfetch)
  apart := hm.fetches_eq ▸ h.apart

theorem cooled_start (h : Cooled s) (hflights : Flights s) (hidle : (s.states σ).inFlight = none) :
    Cooled (s.startFetch σ firewallBillable) where
  pending τ hτ := by
    rw [startFetch_states] at hτ
    split at hτ
    case isTrue => cases hτ
    case isFalse hne =>
      have hcool := h.pending τ hτ
      rw [cooledDown_iff] at hcool ⊢
      intro last hlast
      rw [startFetch_states, if_neg hne] at hlast
      exact hcool last hlast
  forced f fetch hfetch hforce := by
    rw [startFetch_states]
    rcases getElem?_concat_eq_some.mp hfetch with hfetch | ⟨_, rfl⟩
    · obtain ⟨last, hlast, hle⟩ := h.forced f fetch hfetch hforce
      split
      case isTrue heq =>
        rw [heq] at hlast
        split
        case isTrue hpend =>
          -- the refresh that begins now is later
          have hcool := cooledDown_iff.mp (h.pending σ hpend) last hlast
          exact ⟨s.now, rfl, by omega⟩
        case isFalse => exact ⟨last, hlast, hle⟩
      case isFalse => exact ⟨last, hlast, hle⟩
    · rw [if_pos rfl, if_pos hforce]
      exact ⟨s.now, rfl, Nat.le_refl _⟩
  current f fetch hfetch hforce hunfin := by
    rw [startFetch_states]
    rcases getElem?_concat_eq_some.mp hfetch with hfetch | ⟨_, rfl⟩
    · -- the other fetch is of another state
      have hflight := (hflights.inFlight fetch.state f).mpr ⟨fetch, hfetch, rfl, hunfin⟩
      have hne : fetch.state ≠ σ := by
        rintro rfl
        rw [hidle] at hflight
        cases hflight
      rw [if_neg hne]
      exact h.current f fetch hfetch hforce hunfin
    · rw [if_pos rfl, if_pos hforce]
  apart f g fetch fetch' hfg hfetch hfetch' hstate hforce hforce' := by
    rcases getElem?_concat_eq_some.mp hfetch' with hfetch' | ⟨rfl, rfl⟩
    · rcases getElem?_concat_eq_some.mp hfetch with hfetch | ⟨rfl, _⟩
      · exact h.apart f g fetch fetch' hfg hfetch hfetch' hstate hforce hforce'
      · have hlt := lt_of_getElem?_eq_some hfetch'
        omega
    · rcases getElem?_concat_eq_some.mp hfetch with hfetch | ⟨rfl, _⟩
      · obtain ⟨last, hlast, hle⟩ := h.forced f fetch hfetch hforce
        rw [hstate] at hlast
        have hcool := cooledDown_iff.mp (h.pending σ hforce') last hlast
        dsimp only
        omega
      · omega

/-- A fetch of a list in which one has a new status was there before. -/
theorem earlier_set {g : ℕ} {fetch' : Fetch P} {status} (hfetch : s.fetches[f]? = some fetch)
    (hunfin : fetch.unfinished) (h : (s.fetches.set f { fetch with status := status })[g]? =
      some fetch') :
    ∃ other, s.fetches[g]? = some other ∧ other.Later fetch' := by
  rcases getElem?_set_eq_some.mp h with ⟨rfl, _, rfl⟩ | ⟨_, hother⟩
  · refine ⟨fetch, hfetch, rfl, rfl, rfl, rfl, fun hfin => ?_, fun _ => hunfin⟩
    rw [hunfin] at hfin
    cases hfin
  · exact ⟨fetch', hother, .refl fetch'⟩

/-- Fetches go on, while markers and times stay. -/
structure GoesOn (s s' : Core P) : Prop where
  now_eq : s'.now = s.now
  last_eq : ∀ σ, (s'.states σ).lastForceRefresh = (s.states σ).lastForceRefresh
  pending_eq : ∀ σ, (s'.states σ).forceRefreshPending = (s.states σ).forceRefreshPending
  earlier : ∀ (f : ℕ) (fetch' : Fetch P), s'.fetches[f]? = some fetch' →
    ∃ fetch, s.fetches[f]? = some fetch ∧ fetch.Later fetch'

theorem goesOn_enter (permits : ℕ) (hfetch : s.fetches[f]? = some fetch)
    (hstat : fetch.status = .queued) :
    GoesOn s { s with
        permits := permits, fetches := s.fetches.set f { fetch with status := .sending } } :=
  ⟨rfl, fun _ => rfl, fun _ => rfl, fun _ _ => earlier_set hfetch (unfinished_of_queued hstat)⟩

theorem goesOn_finish (outcome) (wall : ℤ) (hfetch : s.fetches[f]? = some fetch)
    (hstat : fetch.status = .sending) : GoesOn s (s.finishFetch f fetch outcome wall) := by
  refine ⟨rfl, fun σ => ?_, fun σ => ?_, fun _ _ =>
    earlier_set hfetch (unfinished_of_sending hstat)⟩
  all_goals
    rw [finishFetch_states]
    split <;> simp [*]

/-- Fetches that go on keep the invariant. -/
theorem Cooled.of_goesOn (h : Cooled s) (hg : GoesOn s s') : Cooled s' where
  pending σ hσ := by
    rw [hg.pending_eq] at hσ
    refine cooledDown_iff.mpr fun last hl => ?_
    rw [hg.last_eq] at hl
    rw [hg.now_eq]
    exact cooledDown_iff.mp (h.pending σ hσ) last hl
  forced f fetch' hfetch' hforce := by
    obtain ⟨fetch, hfetch, hl⟩ := hg.earlier f fetch' hfetch'
    rw [hg.last_eq, hl.state, hl.startedAt]
    exact h.forced f fetch hfetch (hl.forceRefresh ▸ hforce)
  current f fetch' hfetch' hforce hunfin := by
    obtain ⟨fetch, hfetch, hl⟩ := hg.earlier f fetch' hfetch'
    rw [hg.last_eq, hl.state, hl.startedAt]
    exact h.current f fetch hfetch (hl.forceRefresh ▸ hforce) (hl.unfinished hunfin)
  apart f g first' second' hfg hfirst' hsec' hstate hforce hforce' := by
    obtain ⟨first, hfirst, hl⟩ := hg.earlier f first' hfirst'
    obtain ⟨second, hsec, hl'⟩ := hg.earlier g second' hsec'
    rw [hl.startedAt, hl'.startedAt]
    exact h.apart f g first second hfg hfirst hsec (hl.state ▸ hl'.state ▸
      hstate) (hl.forceRefresh ▸ hforce)
      (hl'.forceRefresh ▸ hforce')

theorem cooled_core (h : Cooled s) (hflights : Flights s) (hstep : CoreStep e allocated s s') :
    Cooled s' := by
  cases hstep with
  | refl => exact h
  | tick elapsed => exact h.of_marks (marks_tick s elapsed)
  | mark σ => exact h.of_marks (marks_mark s σ)
  | revoke σ => exact h.of_marks (marks_revoke s σ)
  | start σ _ firewallBillable hidle => exact cooled_start h hflights hidle
  | enter permits hfetch hstat => exact h.of_goesOn (goesOn_enter permits hfetch hstat)
  | finish outcome wall hfetch hstat => exact h.of_goesOn (goesOn_finish outcome wall hfetch hstat)

/-! ### Fetches end in time -/

/-- Every fetch ends within the cooldown: one that is still in flight when a response of 401
comes has run for less than 120 s. One that has run for exactly 120 s would be too late. -/
def Prompt (s : System P) : Event P → Prop
  | .invalidate _ _ => ∀ fetch ∈ s.fetches, fetch.unfinished = true →
      s.now < fetch.startedAt + forceRefreshCooldown
  | .requestForceRefresh _ => ∀ fetch ∈ s.fetches, fetch.unfinished = true →
      s.now < fetch.startedAt + forceRefreshCooldown
  | _ => True

instance (s : System P) : DecidablePred (Prompt s)
  | .invalidate _ _ => inferInstanceAs (Decidable (∀ fetch ∈ s.fetches, fetch.unfinished = true →
      s.now < fetch.startedAt + forceRefreshCooldown))
  | .requestForceRefresh _ => inferInstanceAs (Decidable (∀ fetch ∈ s.fetches,
      fetch.unfinished = true → s.now < fetch.startedAt + forceRefreshCooldown))
  | .tick _ => .isTrue trivial
  | .call .. => .isTrue trivial
  | .enter _ => .isTrue trivial
  | .finish .. => .isTrue trivial
  | .resume .. => .isTrue trivial
  | .cancel _ => .isTrue trivial
  | .reconcile _ => .isTrue trivial
  | .evictAll => .isTrue trivial

/-- There is no marker while a forced fetch is in flight. -/
def Unmarked (s : Core P) : Prop :=
  ∀ (f : ℕ) (fetch : Fetch P), s.fetches[f]? = some fetch → fetch.forceRefresh = true →
    fetch.unfinished = true → (s.states fetch.state).forceRefreshPending = false

/-- A forced fetch that is younger than the cooldown has begun it. -/
theorem Cooled.not_cooledDown (h : Cooled s)
    (hfetch : s.fetches[f]? = some fetch) (hforce : fetch.forceRefresh) (hunfin : fetch.unfinished)
    (hyoung : s.now < fetch.startedAt + forceRefreshCooldown) :
      s.cooledDown fetch.state = false := by
  by_contra hcool
  rw [Bool.not_eq_false] at hcool
  have hle := cooledDown_iff.mp hcool fetch.startedAt (h.current f fetch hfetch hforce hunfin)
  omega

/-- The markers that a response of 401 sets are not of forced fetches. -/
theorem Unmarked.of_marks (h : Unmarked s) (hcooled : Cooled s)
    (hyoung : ∀ fetch ∈ s.fetches, fetch.unfinished →
      s.now < fetch.startedAt + forceRefreshCooldown)
    (hm : Marks s s') : Unmarked s' := by
  intro f fetch hfetch hforce hunfin
  rw [hm.fetches_eq] at hfetch
  by_contra hpend
  rw [Bool.not_eq_false] at hpend
  rcases hm.pending fetch.state hpend with hpend | hcool
  · rw [h f fetch hfetch hforce hunfin] at hpend
    cases hpend
  · have hlt := hyoung fetch (mem_of_getElem? hfetch) hunfin
    rw [hcooled.not_cooledDown hfetch hforce hunfin hlt] at hcool
    cases hcool

/-- Fetches that go on keep their states without a marker. -/
theorem Unmarked.of_goesOn (h : Unmarked s) (hg : GoesOn s s') : Unmarked s' := by
  intro f fetch' hfetch' hforce hunfin
  obtain ⟨fetch, hfetch, hl⟩ := hg.earlier f fetch' hfetch'
  rw [hg.pending_eq, hl.state]
  exact h f fetch hfetch (hl.forceRefresh ▸ hforce) (hl.unfinished hunfin)

theorem unmarked_core {s} (h : Unmarked s.toCore)
    (hcooled : Cooled s.toCore) (hprompt : Prompt s e) (hstep : CoreStep e allocated s.toCore s') :
      Unmarked s' := by
  cases hstep with
  | refl => exact h
  | tick => exact h
  | mark σ _ he =>
    obtain ⟨id, rfl⟩ := he
    exact h.of_marks hcooled hprompt (marks_mark _ σ)
  | revoke σ _ he =>
    obtain ⟨id, identity, rfl⟩ := he
    exact h.of_marks hcooled hprompt (marks_revoke _ σ)
  | start σ _ firewallBillable =>
    intro f fetch hfetch hforce hunfin
    rw [startFetch_states]
    split
    case isTrue => rfl
    case isFalse hne =>
      rcases getElem?_concat_eq_some.mp hfetch with hfetch | ⟨_, rfl⟩
      · exact h f fetch hfetch hforce hunfin
      · exact absurd rfl hne
  | enter permits hfetch hstat => exact h.of_goesOn (goesOn_enter permits hfetch hstat)
  | finish outcome wall hfetch hstat => exact h.of_goesOn (goesOn_finish outcome wall hfetch hstat)

/-- What is true of every system that is reached while fetches end in time. -/
structure Timely (s : System P) : Prop extends Sound s where
  cooled : Cooled s.toCore
  unmarked : Unmarked s.toCore

theorem timely_init : Timely (init : System P) where
  toSound := sound_init
  cooled := cooled_init
  unmarked f fetch h := by cases h

theorem timely_step {s s'} (hs : Timely s) (hprompt : Prompt s e) (h : step s e = some s') :
    Timely s' := by
  have hcore := (step_cases hs.allocated h).1
  exact ⟨sound_step hs.toSound h, cooled_core hs.cooled hs.flights hcore,
    unmarked_core hs.unmarked hs.cooled hprompt hcore⟩

theorem timely_run {s s'} (hs : Timely s) (hprompt : holdsAlong step Prompt s es)
    (hrun : runEvents step s es = some s') : Timely s' :=
  runEvents_invariant_along Timely (fun _ _ _ hs hprompt h => timely_step hs hprompt h) hs hprompt
    hrun

/-! ### From a revocation on -/

/-- What holds of a state once it was revoked, when there were so many fetches. -/
structure Renewed (σ fetches : ℕ) (s : Core P) : Prop where
  fetches_le : fetches ≤ s.fetches.length
  /-- The cache has nothing older. -/
  cache : ∀ entry, (s.states σ).cache = some entry → fetches ≤ entry.identity
  /-- A fetch that was in flight is not forced, and the marker is still there. -/
  flight : ∀ f, (s.states σ).inFlight = some f → f < fetches →
    (s.states σ).forceRefreshPending = true ∧
    ∀ fetch, s.fetches[f]? = some fetch → fetch.forceRefresh = false

/-- The moment of the revocation. -/
theorem renewed_of_marked {s : System P} (hs : Timely s) (hclear : (s.states σ).cache = none)
    (hmark : (s.states σ).forceRefreshPending) : Renewed σ s.fetches.length s.toCore where
  fetches_le := Nat.le_refl _
  cache entry hentry := by
    rw [hclear] at hentry
    cases hentry
  flight f hf _ := by
    refine ⟨hmark, fun fetch hfetch => ?_⟩
    obtain ⟨fetch', hfetch', rfl, hunfin⟩ := (hs.flights.inFlight σ f).mp hf
    obtain rfl : fetch = fetch' := Option.some.inj (hfetch.symm.trans hfetch')
    by_contra hforce
    rw [Bool.not_eq_false] at hforce
    rw [hs.unmarked f fetch hfetch hforce hunfin] at hmark
    cases hmark

theorem renewed_finish (h : Renewed σ fetches s) (hflights : Flights s) (outcome)
    (wall : ℤ) (hfetch : s.fetches[f]? = some fetch) (hstat : fetch.status = .sending) :
    Renewed σ fetches (s.finishFetch f fetch outcome wall) := by
  have hflight : (s.states fetch.state).inFlight = some f :=
    (hflights.inFlight fetch.state f).mpr ⟨fetch, hfetch, rfl, unfinished_of_sending hstat⟩
  refine ⟨?_, fun entry hentry => ?_, fun g hg hlt => ?_⟩
  · rw [finishFetch_fetches, length_set]
    exact h.fetches_le
  · rw [finishFetch_states] at hentry
    split at hentry
    case isFalse => exact h.cache entry hentry
    case isTrue heq =>
      subst heq
      have hended := ended (s.states fetch.state) f fetch outcome wall
      generalize (fetchOutcome (s.states fetch.state) f fetch outcome wall).1 = status at hended
      generalize (fetchOutcome (s.states fetch.state) f fetch outcome wall).2 =
        cache at hended hentry
      cases hended with
      | failed error => exact h.cache entry hentry
      | done hidentity =>
        split at hentry
        case isTrue => exact h.cache entry hentry
        case isFalse hkept =>
          -- an older fetch would have found the marker
          cases hentry
          by_contra hlt
          obtain ⟨hpend, hforce⟩ := h.flight f hflight (by omega)
          rw [hpend, hforce fetch hfetch] at hkept
          exact hkept rfl
  · rw [finishFetch_states] at hg ⊢
    split at hg
    case isTrue => cases hg
    case isFalse hne =>
      rw [if_neg hne]
      obtain ⟨hpend, hforce⟩ := h.flight g hg hlt
      refine ⟨hpend, fun fetch' hfetch' => ?_⟩
      obtain ⟨other, hother, hlater⟩ := earlier_set hfetch (unfinished_of_sending hstat) hfetch'
      exact hlater.forceRefresh.trans (hforce other hother)

theorem Renewed.of_marks (h : Renewed σ fetches s) (hm : Marks s s') : Renewed σ fetches s' := by
  refine ⟨hm.fetches_eq ▸ h.fetches_le, fun entry hentry => h.cache entry (hm.cache σ entry hentry),
    fun f hf hlt => ?_⟩
  obtain ⟨hmark, hforce⟩ := h.flight f (hm.flight_eq σ ▸ hf) hlt
  exact ⟨hm.kept σ hmark, hm.fetches_eq ▸ hforce⟩

theorem renewed_core (h : Renewed σ fetches s)
    (hflights : Flights s) (hstep : CoreStep e allocated s s') : Renewed σ fetches s' := by
  cases hstep with
  | refl => exact h
  | tick elapsed => exact h.of_marks (marks_tick s elapsed)
  | mark τ => exact h.of_marks (marks_mark s τ)
  | revoke τ => exact h.of_marks (marks_revoke s τ)
  | start τ _ firewallBillable hidle =>
    have hle := h.fetches_le
    refine ⟨by rw [startFetch_fetches, length_append]; omega,
      fun entry hentry => ?_, fun f hf hlt => ?_⟩
    · rw [startFetch_states] at hentry
      split at hentry <;> simp_all [h.cache]
    · rw [startFetch_states] at hf ⊢
      split at hf
      case isTrue =>
        cases hf
        omega
      case isFalse hne =>
        rw [if_neg hne]
        obtain ⟨hpend, hforce⟩ := h.flight f hf hlt
        refine ⟨hpend, fun fetch hfetch => ?_⟩
        rcases getElem?_concat_eq_some.mp hfetch with hfetch | ⟨rfl, _⟩
        · exact hforce fetch hfetch
        · omega
  | enter permits hfetch hstat =>
    refine ⟨by rw [length_set]; exact h.fetches_le, h.cache, fun f hf hlt => ?_⟩
    obtain ⟨hpend, hforce⟩ := h.flight f hf hlt
    refine ⟨hpend, fun fetch' hfetch' => ?_⟩
    obtain ⟨other, hother, hlater⟩ := earlier_set hfetch (unfinished_of_queued hstat) hfetch'
    exact hlater.forceRefresh.trans (hforce other hother)
  | finish outcome wall hfetch hstat => exact renewed_finish h hflights outcome wall hfetch hstat

/-- A call that began after the revocation has to do with later fetches only. -/
def CallRenewed (fetches : ℕ) : CallStatus P → Prop
  | .waiting f created => created = true → fetches ≤ f
  | .returned _ served _ => fetches ≤ served.identity
  | .raised _ => True
  | .cancelled => True

/-- The calls of the state from number `calls` on began after the revocation. -/
structure RenewedFor (σ fetches calls : ℕ) (s : System P) :
    Prop extends Renewed σ fetches s.toCore where
  later : ∀ (c : ℕ) (call : Call P), calls ≤ c → s.calls[c]? = some call → call.state = σ →
    CallRenewed fetches call.status

/-- One pass of the loop finds nothing that was fetched before. -/
theorem Attempted.callRenewed {wall} {status} (h : Renewed σ fetches s)
    (hatt : Attempted s σ firewallBillable wall s' status) : CallRenewed fetches status := by
  cases hatt with
  | hit hcache hhit => exact h.cache _ hcache
  | join hflight =>
    intro hcreat
    cases hcreat
  | refused error => trivial
  | start hidle hroom => exact fun _ => h.fetches_le

theorem renewedFor_step {calls} {s s'} (hs : Sound s)
    (h : RenewedFor σ fetches calls s) (hstep : step s e = some s') :
      RenewedFor σ fetches calls s' := by
  obtain ⟨hcore, hcalls, _⟩ := step_cases hs.allocated hstep
  refine ⟨renewed_core h.toRenewed hs.flights hcore, fun c call hc hcall => hcalls.forall_calls
    (Q := fun c call => calls ≤ c → call.state = σ → CallRenewed fetches call.status)
    (fun c call hcall hc => h.later c call hc hcall) ?_ ?_ ?_ ?_ c call hcall hc⟩
  · rintro _ _ _ _ _ _ _ hatt _ rfl
    exact hatt.callRenewed h.toRenewed
  · rintro _ _ _ _ _ hatt _ rfl
    exact hatt.callRenewed h.toRenewed
  · intro c f call fetch entry tokenMeta wall hcall hstat hfetch hdone hc hstate
    have hown := h.later c call hc hcall hstate
    rw [hstat] at hown
    rw [CallRenewed, (hs.flights.done f fetch entry tokenMeta wall hfetch hdone).1]
    exact hown rfl
  · rintro _ _ _ _ (rfl | ⟨error, rfl⟩) _ _ <;> trivial

/-- What holds from the revocation on holds to the end of the run. -/
theorem renewedFor_run {calls} {s s'} (hs : Sound s)
    (h : RenewedFor σ fetches calls s) (hrun : runEvents step s es = some s') :
      RenewedFor σ fetches calls s' := by
  refine (runEvents_invariant (fun s => Sound s ∧ RenewedFor σ fetches calls s) ?_ ⟨hs, h⟩ hrun).2
  rintro s e s' ⟨hs, h⟩ hstep
  exact ⟨sound_step hs hstep, renewedFor_step hs h hstep⟩

/-! ### The main result -/

/-- An invalidation in a run clears the entry of a state and leaves a marker: the calls of that
state that begin later and return have the result of a fetch of that state which was started
later. -/
def NoneRevoked (es : List (Event P)) (s : System P) : Prop :=
  ∀ (before after : List (Event P)) (id : AuthIdentity) (identity σ : ℕ) (s₁ s₂ : System P),
    es = before ++ .invalidate id identity :: after → runEvents step init before = some s₁ →
    step s₁ (.invalidate id identity) = some s₂ → dictGet id s₁.authState = some σ →
    (s₁.states σ).cache ≠ none → (s₂.states σ).cache = none →
      (s₂.states σ).forceRefreshPending = true →
    ∀ (c : ℕ) (call : Call P) (tokenMeta : TokenMeta P) (served : CacheEntry P) (takenAt : ℤ),
      s₂.calls.length ≤ c → s.calls[c]? = some call → call.state = σ →
      call.status = .returned tokenMeta served takenAt → s₂.fetches.length ≤ served.identity ∧
          Made s.toCore σ served ∧
          tokenMeta.payload = served.payload ∧ tokenMeta.cacheEntryIdentity = served.identity

/-- Forced fetches of one state begin a cooldown apart. -/
def RefreshesApart (s : System P) : Prop :=
  ∀ (f g : ℕ) (first second : Fetch P), f < g → s.fetches[f]? = some first →
    s.fetches[g]? = some second →
    first.state = second.state → first.forceRefresh = true → second.forceRefresh = true →
      first.startedAt + forceRefreshCooldown ≤ second.startedAt

/-- What a billable request returned had a valid expiry when it was taken from the cache or fetched.
-/
def BillableValid (s : System P) : Prop :=
  ∀ (c : ℕ) (call : Call P) (tokenMeta : TokenMeta P) (served : CacheEntry P) (takenAt : ℤ),
    s.calls[c]? = some call → call.status = .returned tokenMeta served takenAt →
      call.firewallBillable = true → hasValidExpiry served.expiresAt takenAt = true

theorem noneRevoked_run {s : System P} (hprompt : holdsAlong step Prompt init es)
    (hrun : runEvents step init es = some s) : NoneRevoked es s := by
  intro before after id identity σ s₁ s₂ hes hbef hstep _ _ hclear hmark c call tokenMeta served
    takenAt
    hc hcall hstate hreturned
  subst hes
  obtain ⟨hprompt₁, hprompt₂⟩ := (holdsAlong_append _ _ _).mp hprompt
  rw [runEvents_append, hbef, Option.bind_some, runEvents, hstep, Option.bind_some] at hrun
  have hs₂ : Timely s₂ := timely_step (timely_run timely_init hprompt₁ hbef) (hprompt₂ s₁ hbef).1
    hstep
  -- no call that was there began later
  have hstart : RenewedFor σ s₂.fetches.length s₂.calls.length s₂ := by
    refine ⟨renewed_of_marked hs₂ hclear hmark, fun d other hd hother _ => ?_⟩
    have hlt := lt_of_getElem?_eq_some hother
    omega
  have hlater := (renewedFor_run hs₂.toSound hstart hrun).later c call hc hcall hstate
  have hsrv := (sound_run hs₂.toSound hrun).served c call hcall
  rw [hreturned] at hlater hsrv
  subst hstate
  exact ⟨hlater, hsrv.1, hsrv.2.1⟩

/-- **No call gets credentials that were fetched before they were revoked.**  For every run in
which fetches end within the cooldown. -/
theorem revoked_not_served {es : List (Event P)} {s : System P}
    (hprompt : holdsAlong step Prompt init es)
    (hrun : runEvents step init es = some s) : NoneRevoked es s ∧ RefreshesApart s ∧
      BillableValid s := by
  have hs := timely_run timely_init hprompt hrun
  refine ⟨noneRevoked_run hprompt hrun, hs.cooled.apart,
    fun c call tokenMeta served takenAt hcall hreturned => ?_⟩
  have hsrv := hs.served c call hcall
  rw [hreturned] at hsrv
  exact hsrv.2.2

/-- The response of 401 comes while a fetch is in flight; a call waits for that fetch, finds that
it left nothing, and refreshes. -/
def revokedRun : List (Event String) :=
  let key : FirewallAuthCacheKey := ⟨⟨"run", "api", "auth"⟩, none⟩
  [.call key false 0 true, .enter 0, .finish 0 (some ⟨"first", .missing, [], []⟩) 0,
    .resume 0 0 true,
    .call key true 0 true, .enter 1, .invalidate key.toAuthIdentity 0, .call key false 0 true,
    .finish 1 (some ⟨"second", .at 100, [], []⟩) 0, .resume 1 0 true, .resume 2 0 true,
    .enter 2, .finish 2 (some ⟨"third", .at 100, [], []⟩) 0, .resume 2 0 true]

/-- What the calls of a run returned. -/
def returnedPayloads (s : System P) : List (Option P) :=
  s.calls.map fun call => match call.status with
    | .returned tokenMeta _ _ => some tokenMeta.payload
    | _ => none

theorem revoked_not_served_run : holdsAlong step Prompt init revokedRun ∧ ∃ s,
      runEvents step init revokedRun = some s ∧
      returnedPayloads s = [some "first", some "second", some "third"] ∧
      NoneRevoked revokedRun s ∧ RefreshesApart s ∧ BillableValid s := by
  have hprompt : holdsAlong step Prompt init revokedRun := by decide +kernel
  exact ⟨hprompt, exists_run_and (by decide +kernel) fun _ hrun _ =>
    revoked_not_served hprompt hrun⟩

end Okou.Auth
