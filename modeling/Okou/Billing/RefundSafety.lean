import Mathlib.Data.List.Perm.Subperm
import Okou.Billing.Refund

/-!
# A removed member is refunded once

A stored snapshot of a refund is never ahead of the refund (`Later`), and a snapshot
that is final stays right.  With that every run keeps `RefundInv`: there is one refund
for an attempt, at most three attempts, and each refund has the amount that was
requested when the member was removed.

That at most one of the refunds is live needs more.  `applyStripeRefundState` writes
without looking at the row, so an execution that was held up can put the refund of an
earlier attempt back into the row; when a later execution finds that this refund failed,
it starts one more attempt beside the one that is under way (`two_live_refunds`).  If
each of these writes finds the attempt that its execution read, then the refunds of all
earlier attempts have failed (`FreshInv`).
-/

namespace Okou.Billing

open List

/-! ### Snapshots -/

/-- The refund `r`, at the time of a snapshot or after it. -/
structure Later (snapshot r : StripeRefund) : Prop where
  id : r.id = snapshot.id
  attempt : r.attempt = snapshot.attempt
  status : snapshot.status.Final → r.status = snapshot.status

theorem Later.refl (r) : Later r r := ⟨rfl, rfl, fun _ => rfl⟩

theorem Later.trans {a b c} (hab : Later a b) (hbc : Later b c) : Later a c where
  id := hbc.id.trans hab.id
  attempt := hbc.attempt.trans hab.attempt
  status hfinal := by
    have hb : b.status = a.status := hab.status hfinal
    exact (hbc.status (hb ▸ hfinal)).trans hb

/-- The snapshot of a refund that exists. -/
def Known (refunds : List StripeRefund) (snapshot : StripeRefund) : Prop :=
  ∃ r ∈ refunds, Later snapshot r

/-- Refunds are added and move on. -/
def Grows (refunds refunds' : List StripeRefund) : Prop := ∀ r ∈ refunds, Known refunds' r

variable {refunds refunds' : List StripeRefund} {snapshot : StripeRefund}

theorem Known.of_mem (hmem : snapshot ∈ refunds) : Known refunds snapshot :=
  ⟨snapshot, hmem, .refl snapshot⟩

theorem Known.mono (hknown : Known refunds snapshot) (hgrows : Grows refunds refunds') :
    Known refunds' snapshot := by
  obtain ⟨r, hr, hlater⟩ := hknown
  obtain ⟨r', hr', hlater'⟩ := hgrows r hr
  exact ⟨r', hr', hlater.trans hlater'⟩

theorem grows_append (refunds more) : Grows refunds (refunds ++ more) :=
  fun _ hr => .of_mem (mem_append_left more hr)

variable (id : ℕ) (status : StripeRefundStatus) (failureReason : Option String)

theorem later_settleRefund (r) : Later r (settleRefund id status failureReason r) := by
  unfold settleRefund
  split
  case isTrue h => exact ⟨rfl, rfl, fun hfinal => absurd hfinal h.2⟩
  case isFalse => exact .refl r

theorem grows_settle (refunds) :
    Grows refunds (refunds.map (settleRefund id status failureReason)) :=
  fun r hr => ⟨_, mem_map_of_mem hr, later_settleRefund id status failureReason r⟩

@[simp] theorem settleRefund_amount (r) :
    (settleRefund id status failureReason r).amount = r.amount := by
  unfold settleRefund
  split <;> rfl

/-! ### What a call does -/

variable {next : RefundCall} {s : RefundSystem} {e : RefundExecution} {i : ℕ}
  {refund : StripeRefund} {reply : StripeReply}

variable {response : CreateResponse}

theorem mem_setNext {execution} (he : e ∈ (s.setNext i execution next).executions) :
    e = { execution with next := next } ∨ e ∈ s.executions :=
  (mem_or_eq_of_mem_set he).symm

/-- A page adds nothing but succeeded refunds to the match. -/
theorem scanPage_some {amountCents} {page} :
    ∀ {matching : Option StripeRefund} {r : StripeRefund},
      scanPage amountCents matching page = some (some r) →
      matching = some r ∨ (r ∈ page ∧ r.status = .succeeded) := by
  induction page with
  | nil =>
    intro matching r h
    exact .inl (Option.some.inj h)
  | cons refund page ih =>
    intro matching r h
    have hrest : r ∈ page ∧ r.status = .succeeded → r ∈ refund :: page ∧ r.status = .succeeded :=
      fun hr => ⟨mem_cons_of_mem refund hr.1, hr.2⟩
    unfold scanPage at h
    split at h
    case isTrue => exact (ih h).imp_right hrest
    case isFalse hmatch =>
      cases matching with
      | some _ => cases h
      | none =>
        have hsucc : refund.status = .succeeded := not_not.mp (not_or.mp hmatch).1
        rcases ih h with hrfd | hr
        · cases hrfd
          exact .inr ⟨mem_cons_self, hsucc⟩
        · exact .inr (hrest hr)

/-- The match that an execution goes on with. -/
def RefundCall.found : RefundCall → Option StripeRefund
  | .list matching => matching
  | .apply refund => some refund
  | _ => none

theorem found_afterPage {hasMore} {result r}
    (h : (afterPage hasMore result).found = some r) : result = some (some r) := by
  unfold afterPage at h
  split at h
  case h_1 => cases h
  case h_2 matching =>
    split at h
    case isTrue => exact congrArg some h
    case isFalse =>
      cases matching with
      | none => cases h
      | some refund => exact congrArg some h

theorem afterPage_ne_mark (hasMore : Bool) (result) (r) :
    afterPage hasMore result ≠ .mark r := by
  unfold afterPage
  repeat' split
  all_goals nofun

/-- All that the next call of an execution can do. -/
inductive CallEffect (s : RefundSystem) (i : ℕ) (e : RefundExecution) : RefundSystem → Prop
  | claim (next : RefundCall) (hnext : next = .fetch ∨ next = .done) :
    CallEffect s i e ({ s with row := claimRefund s.row }.setNext i e next)
  | retrieve (refund : StripeRefund) (hrfd : refund ∈ s.refunds)
    (hid : e.copy.stripeRefundId = some refund.id) :
      CallEffect s i e (s.setNext i e (.apply refund))
  | replay (response : CreateResponse) (hresp : dictGet e.copy.attempt s.responses = some response)
    : CallEffect s i e (s.setNext i e (afterCreate response))
  | create (refund : StripeRefund) (hnew : dictGet e.copy.attempt s.responses = none)
    (hid : refund.id = s.refunds.length) (hatt : refund.attempt = e.copy.attempt)
    (hamount : e.copy.requestedAmountCents = some refund.amount) :
    CallEffect s i e ({ s with
      refunds := s.refunds ++ [refund]
      responses := dictSet e.copy.attempt (.created refund) s.responses }.setNext i e
        (.apply refund))
  | refuse (response : CreateResponse) (responses : List (ℕ × CreateResponse))
    (hresp : ∀ refund, response ≠ .created refund)
    (hresponses : responses = s.responses ∨ responses = dictSet e.copy.attempt response s.responses)
      :
    CallEffect s i e ({ s with responses := responses }.setNext i e (afterCreate response))
  | list (next : RefundCall) (hmark : ∀ refund, next ≠ .mark refund)
    (hfound : ∀ refund, next.found = some refund →
      e.next = .list (some refund) ∨ (refund ∈ s.refunds ∧ refund.status = .succeeded)) :
    CallEffect s i e (s.setNext i e next)
  | fail (failureReason : String) :
    CallEffect s i e ({ s with row := markRefundFailed failureReason s.row }.setNext i e .done)
  | apply (refund : StripeRefund) (happly : e.next = .apply refund) (next : RefundCall)
    (hnext : next = .done ∨ next = .mark refund ∧ refund.status = .succeeded) :
    CallEffect s i e
      ({ s with row := applyStripeRefundState e.copy refund s.row }.setNext i e next)
  | mark (refund : StripeRefund) (hmark : e.next = .mark refund) : CallEffect s i e ({ s with
      row := markRefundSucceeded refund.id e.copy.requestedAmountCents s.row }.setNext i e .done)

theorem find_refund {id} (h : (refunds.find? fun refund => refund.id = id) = some refund) :
    refund ∈ refunds ∧ refund.id = id := by
  have hid := find?_some h
  exact ⟨mem_of_find?_eq_some h, of_decide_eq_true hid⟩

theorem createEffect {t} {amount} (hamount : e.copy.requestedAmountCents = some amount)
    (h : createRefund e.copy.attempt amount reply s = some (response, t)) :
    CallEffect s i e (t.setNext i e (afterCreate response)) := by
  unfold createRefund at h
  split at h
  case h_1 stored _ hstor =>
    cases h
    exact .replay response hstor
  case h_2 status failureReason hnew =>
    cases h
    exact .create _ hnew rfl rfl hamount
  case h_3 chargeAlreadyRefunded remembered hnew =>
    cases h
    refine .refuse _ _ (fun refund => ?_) ?_
    · cases chargeAlreadyRefunded <;> nofun
    · cases remembered
      · exact .inl rfl
      · exact .inr rfl
  case h_4 => cases h

/-- **A call has one of the effects.** -/
theorem callStep_effect {s'} (h : callStep s i e reply = some s') : CallEffect s i e s' := by
  unfold callStep at h
  split at h
  case h_1 =>
    cases h
    refine .claim _ ?_
    split
    · exact .inr rfl
    · exact .inl rfl
  case h_2 =>
    split at h
    case h_1 id _ hid =>
      obtain ⟨refund, hfind, rfl⟩ := Option.map_eq_some_iff.mp h
      obtain ⟨hmem, rfl⟩ := find_refund hfind
      exact .retrieve refund hmem hid
    case h_2 amount _ hamount =>
      obtain ⟨⟨response, t⟩, hcreate, rfl⟩ := Option.map_eq_some_iff.mp h
      exact createEffect hamount hcreate
    case h_3 => cases h
  case h_3 matching hlist =>
    split at h
    case h_1 ids hasMore =>
      cases h
      refine .list _ (afterPage_ne_mark _ _) fun refund hfound => ?_
      rcases scanPage_some (found_afterPage hfound) with rfl | ⟨hpage, hsucc⟩
      · exact .inl hlist
      · obtain ⟨id, _, hfind⟩ := mem_filterMap.mp hpage
        exact .inr ⟨(find_refund hfind).1, hsucc⟩
    case h_2 => cases h
  case h_4 failureReason _ =>
    cases h
    exact .fail failureReason
  case h_5 refund happly =>
    cases h
    refine .apply refund happly _ ?_
    split
    case isTrue hsucc => exact .inr ⟨rfl, hsucc⟩
    case isFalse => exact .inl rfl
  case h_6 refund hmark =>
    cases h
    exact .mark refund hmark
  case h_7 => cases h

/-! ### What every run keeps -/

/-- There are at most three attempts. -/
def AttemptOk (attempt : ℕ) : Prop := 1 ≤ attempt ∧ attempt ≤ maxRefundAttempts

/-- The amount that was requested for what was left of the grant. -/
def Requested (source : RefundSource) (row : RefundRow) (amount : ℤ) : Prop :=
  ∃ remainingAmount, row.refundCredits = some remainingAmount ∧ 0 < remainingAmount ∧
    remainingAmount ≤ source.originalAmount ∧ amount = source.requestedAmountCents remainingAmount

/-- What the next call of an execution rests on. -/
structure NextInv (refunds : List StripeRefund) (next : RefundCall) : Prop where
  found : ∀ refund, next.found = some refund → Known refunds refund
  list : ∀ refund, next = .list (some refund) → refund.status = .succeeded
  mark : ∀ refund, next = .mark refund → Known refunds refund ∧ refund.status = .succeeded

/-- What an execution rests on. -/
structure ExecutionInv (s : RefundSystem) (e : RefundExecution) : Prop where
  attempt : AttemptOk e.copy.attempt
  requested : e.copy.requestedAmountCents = s.row.requestedAmountCents
  prepared : s.row.status ≠ .available
  next : NextInv s.refunds e.next

/-- What is known about a refund. -/
structure RefundOk (s : RefundSystem) (r : StripeRefund) : Prop where
  attempt : AttemptOk r.attempt
  requested : s.row.requestedAmountCents = some r.amount
  prepared : s.row.status ≠ .available
  answered : (dictGet r.attempt s.responses).isSome

/-- The row names a refund that succeeded. -/
def NamesSucceeded (refunds : List StripeRefund) (row : RefundRow) : Prop :=
  ∃ r ∈ refunds, row.stripeRefundId = some r.id ∧ r.status = .succeeded

/-- What every run keeps. -/
structure RefundInv (source : RefundSource) (s : RefundSystem) : Prop where
  attempt : AttemptOk s.row.attempt
  requested : ∀ amount, s.row.requestedAmountCents = some amount → Requested source s.row amount
  executions : ∀ e ∈ s.executions, ExecutionInv s e
  ids : s.refunds.map StripeRefund.id = List.range s.refunds.length
  attempts : (s.refunds.map StripeRefund.attempt).Nodup
  refunds : ∀ r ∈ s.refunds, RefundOk s r
  responses : ∀ attempt refund, dictGet attempt s.responses = some (.created refund) →
    refund.attempt = attempt ∧ Known s.refunds refund
  succeeded : s.row.status = .succeeded → NamesSucceeded s.refunds s.row

theorem NextInv.of_idle (hnext : next = .fetch ∨ next = .done) : NextInv refunds next := by
  rcases hnext with rfl | rfl
  · exact ⟨nofun, nofun, nofun⟩
  · exact ⟨nofun, nofun, nofun⟩

theorem NextInv.of_apply (hknown : Known refunds refund) : NextInv refunds (.apply refund) where
  found := by
    rintro _ ⟨⟩
    exact hknown
  list := nofun
  mark := nofun

theorem NextInv.mono (h : NextInv refunds next) (hgrows : Grows refunds refunds') :
    NextInv refunds' next where
  found refund hfound := (h.found refund hfound).mono hgrows
  list := h.list
  mark refund hmark := ⟨(h.mark refund hmark).1.mono hgrows, (h.mark refund hmark).2⟩

theorem nextInv_afterCreate (h : ∀ refund, response = .created refund → Known refunds refund) :
    NextInv refunds (afterCreate response) := by
  cases response with
  | created refund => exact .of_apply (h refund rfl)
  | chargeAlreadyRefunded => exact ⟨nofun, nofun, nofun⟩
  | error => exact .of_idle (.inr rfl)

/-- What no write after the first one changes. -/
structure RowKept (row row' : RefundRow) : Prop where
  refundCredits : row'.refundCredits = row.refundCredits
  requested : row'.requestedAmountCents = row.requestedAmountCents
  prepared : row.status ≠ .available → row'.status ≠ .available

theorem rowKept_claimRefund (row) : RowKept row (claimRefund row) := by
  unfold claimRefund
  split
  case isTrue => exact ⟨rfl, rfl, nofun⟩
  case isFalse => exact ⟨rfl, rfl, id⟩

theorem rowKept_applyStripeRefundState (copy) (refund) (row) :
    RowKept row (applyStripeRefundState copy refund row) := by
  unfold applyStripeRefundState
  repeat' split
  all_goals exact ⟨rfl, rfl, nofun⟩

section Run

variable {source : RefundSource} {s s' : RefundSystem} {i : ℕ} {e : RefundExecution}

variable {r refund : StripeRefund} {row : RefundRow}

theorem ids_unique (hids : refunds.map StripeRefund.id = List.range refunds.length) {r'}
    (hr : r ∈ refunds) (hr' : r' ∈ refunds) (hid : r.id = r'.id) : r = r' :=
  inj_on_of_nodup_map (hids ▸ nodup_range) hr hr' hid

theorem NamesSucceeded.mono (h : NamesSucceeded refunds row)
    (hgrows : Grows refunds refunds') : NamesSucceeded refunds' row := by
  obtain ⟨r, hr, hid, hsucc⟩ := h
  obtain ⟨r', hr', hlater⟩ := hgrows r hr
  exact ⟨r', hr', hlater.id ▸ hid, (hlater.status (.inl hsucc)).trans hsucc⟩

section

variable (h : RefundInv source s)

include h

/-- A write to the row. -/
theorem RefundInv.write (hkept : RowKept s.row row) (hatt : AttemptOk row.attempt)
    (hsucc : row.status = .succeeded → NamesSucceeded s.refunds row) :
      RefundInv source { s with row := row } where
  __ := h
  attempt := hatt
  requested amount hamount := by
    obtain ⟨remainingAmount, hcred, hrest⟩ := h.requested amount (hkept.requested ▸ hamount)
    exact ⟨remainingAmount, hkept.refundCredits.trans hcred, hrest⟩
  executions e he :=
    let hexec := h.executions e he
    { hexec with
        requested := hexec.requested.trans hkept.requested.symm, prepared := hkept.prepared hexec.prepared }
  refunds r hr :=
    let hrfd := h.refunds r hr
    { hrfd with
        requested := hkept.requested.trans hrfd.requested, prepared := hkept.prepared hrfd.prepared }
  succeeded := hsucc

/-- An execution goes on. -/
theorem RefundInv.setNext (he : e ∈ s.executions)
    (hnext : NextInv s.refunds next) : RefundInv source (s.setNext i e next) where
  __ := h
  executions e' he' := by
    rcases mem_setNext he' with rfl | hmem
    · exact { h.executions e he with next := hnext }
    · exact { h.executions e' hmem with }
  refunds r hr := { h.refunds r hr with }

variable {attempt : ℕ}

omit h in
/-- A key that has a response keeps one. -/
theorem isSome_dictSet {responses} (h : (dictGet attempt responses).isSome) (key : ℕ)
    (response : CreateResponse) : (dictGet attempt (dictSet key response responses)).isSome := by
  rw [dictGet_dictSet]
  split
  case isTrue => rfl
  case isFalse => exact h

/-- A response is remembered. -/
theorem RefundInv.remember
    (hresp : ∀ refund, response = .created refund → refund.attempt = attempt ∧
      Known s.refunds refund) :
    RefundInv source { s with responses := dictSet attempt response s.responses } where
  __ := h
  executions e he := { h.executions e he with }
  refunds r hr := { h.refunds r hr with answered := isSome_dictSet (h.refunds r hr).answered _ _ }
  responses attempt' refund hget := by
    rw [dictGet_dictSet] at hget
    split at hget
    case isTrue heq => exact heq ▸ hresp refund (Option.some.inj hget)
    case isFalse => exact h.responses attempt' refund hget

omit h in
theorem ExecutionInv.mono (h : ExecutionInv s e) (hgrows : Grows s.refunds refunds')
    (responses) : ExecutionInv { s with refunds := refunds', responses := responses } e :=
  { h with next := h.next.mono hgrows }

/-- A refund is created for a key that has no response yet. -/
theorem RefundInv.create (he : e ∈ s.executions) (hnew : dictGet e.copy.attempt s.responses = none)
    (hid : refund.id = s.refunds.length) (hatt : refund.attempt = e.copy.attempt)
    (hamount : e.copy.requestedAmountCents = some refund.amount) : RefundInv source { s with
      refunds := s.refunds ++ [refund]
      responses := dictSet e.copy.attempt (.created refund) s.responses } := by
  have hexec := h.executions e he
  have hgrows : Grows s.refunds (s.refunds ++ [refund]) := grows_append s.refunds [refund]
  have hknown : Known (s.refunds ++ [refund]) refund :=
    .of_mem (mem_append_right s.refunds mem_cons_self)
  have hother : ∀ r ∈ s.refunds, r.attempt ≠ refund.attempt := by
    intro r hr heq
    have hansw := (h.refunds r hr).answered
    rw [heq, hatt, hnew] at hansw
    cases hansw
  constructor
  case attempt => exact h.attempt
  case requested => exact h.requested
  case executions => exact fun e' he' => (h.executions e' he').mono hgrows _
  case ids => simp [h.ids, hid, range_succ]
  case attempts =>
    rw [map_append, map_singleton]
    refine nodup_append.mpr ⟨h.attempts, nodup_singleton _, ?_⟩
    intro a ha b hb
    obtain ⟨r, hr, rfl⟩ := mem_map.mp ha
    rw [mem_singleton.mp hb]
    exact hother r hr
  case refunds =>
    refine forall_mem_append.mpr ⟨fun r hr => ?_, forall_mem_singleton.mpr ?_⟩
    · exact { h.refunds r hr with answered := isSome_dictSet (h.refunds r hr).answered _ _ }
    · refine ⟨hatt ▸ hexec.attempt, hexec.requested.symm.trans hamount, hexec.prepared, ?_⟩
      rw [hatt, dictGet_dictSet, if_pos rfl]
      rfl
  case responses =>
    intro attempt refund' hget
    rw [dictGet_dictSet] at hget
    split at hget
    case isTrue heq =>
      cases hget
      exact ⟨hatt.trans heq, hknown⟩
    case isFalse =>
      obtain ⟨hkey, hstor⟩ := h.responses attempt refund' hget
      exact ⟨hkey, hstor.mono hgrows⟩
  case succeeded => exact fun hsucc => (h.succeeded hsucc).mono hgrows

/-- A refund moves on. -/
theorem RefundInv.settle (id : ℕ) (status) (failureReason) :
    RefundInv source { s with refunds := s.refunds.map (settleRefund id status
      failureReason) } := by
  have hgrows := grows_settle id status failureReason s.refunds
  have hlater := later_settleRefund id status failureReason
  have hids : StripeRefund.id ∘ settleRefund id status failureReason = StripeRefund.id :=
    funext fun r => (hlater r).id
  have hattempts : StripeRefund.attempt ∘ settleRefund id status failureReason =
    StripeRefund.attempt :=
    funext fun r => (hlater r).attempt
  constructor
  case attempt => exact h.attempt
  case requested => exact h.requested
  case executions => exact fun e he => (h.executions e he).mono hgrows _
  case ids => rw [map_map, hids, length_map, h.ids]
  case attempts =>
    rw [map_map, hattempts]
    exact h.attempts
  case refunds =>
    refine forall_mem_map.mpr fun r hr => ?_
    obtain ⟨hattempt, hrequested, hprepared, hanswered⟩ := h.refunds r hr
    rw [← (hlater r).attempt] at hattempt hanswered
    exact ⟨hattempt, by rwa [settleRefund_amount], hprepared, hanswered⟩
  case responses =>
    intro attempt refund hget
    obtain ⟨hkey, hstor⟩ := h.responses attempt refund hget
    exact ⟨hkey, hstor.mono hgrows⟩
  case succeeded => exact fun hsucc => (h.succeeded hsucc).mono hgrows

/-- The request: nothing has been read or created before it. -/
theorem RefundInv.prepare {remainingAmount} (hpos : 0 < remainingAmount)
    (hle : remainingAmount ≤ source.originalAmount) :
    RefundInv source { s with row := prepareRefund source remainingAmount s.row } := by
  unfold prepareRefund
  split
  case isFalse => exact h
  case isTrue havail =>
    refine { h with
      requested := ?_
      executions := fun e he => absurd havail.1 (h.executions e he).prepared
      refunds := fun r hr => absurd havail.1 (h.refunds r hr).prepared
      succeeded := nofun }
    rintro amount ⟨⟩
    exact ⟨remainingAmount, rfl, hpos, hle, rfl⟩

/-- An execution starts. -/
theorem RefundInv.read (hstat : s.row.status = .pending ∨ s.row.status = .processing) :
    RefundInv source { s with executions := s.executions ++ [⟨s.row, .claim⟩] } where
  __ := h
  executions e he := by
    rcases mem_append.mp he with hold | hlast
    · exact { h.executions e hold with }
    · rw [mem_singleton.mp hlast]
      refine ⟨h.attempt, rfl, ?_, ⟨nofun, nofun, nofun⟩⟩
      rintro havail
      rw [havail] at hstat
      rcases hstat with h | h <;> cases h
  refunds r hr := { h.refunds r hr with }

theorem attemptOk_applyStripeRefundState (he : e ∈ s.executions)
    (refund) : AttemptOk (applyStripeRefundState e.copy refund s.row).attempt := by
  have hcopy := (h.executions e he).attempt
  unfold applyStripeRefundState
  split
  case isTrue =>
    split
    case isTrue => exact hcopy
    case isFalse hmore => exact ⟨Nat.le_add_left 1 _, Nat.lt_of_not_le hmore⟩
  case isFalse => exact h.attempt

omit h in
theorem applyStripeRefundState_ne_succeeded (copy) (refund) (row) :
    (applyStripeRefundState copy refund row).status ≠ .succeeded := by
  unfold applyStripeRefundState
  repeat' split
  all_goals nofun

/-- **A call keeps the invariant.** -/
theorem RefundInv.call (he : e ∈ s.executions) (heff : CallEffect s i e s') :
    RefundInv source s' := by
  have hnextInv := (h.executions e he).next
  cases heff with
  | claim next hnext =>
    refine (h.write (rowKept_claimRefund s.row) ?_ ?_).setNext he (.of_idle hnext)
    · unfold claimRefund
      split <;> exact h.attempt
    · unfold claimRefund
      split
      · nofun
      · exact h.succeeded
  | retrieve refund hrfd hid => exact h.setNext he (.of_apply (.of_mem hrfd))
  | replay response hresp =>
    refine h.setNext he (nextInv_afterCreate ?_)
    rintro refund rfl
    exact (h.responses e.copy.attempt refund hresp).2
  | create refund hnew hid hatt hamount =>
    refine (h.create he hnew hid hatt hamount).setNext he (.of_apply (.of_mem ?_))
    exact mem_append_right s.refunds mem_cons_self
  | refuse response responses hresp hresponses =>
    have hnext : NextInv s.refunds (afterCreate response) :=
      nextInv_afterCreate fun refund hcreated => absurd hcreated (hresp refund)
    rcases hresponses with rfl | rfl
    · exact h.setNext he hnext
    · exact (h.remember fun refund hcreated => absurd hcreated (hresp refund)).setNext he hnext
  | list next hmark hfound =>
    -- what the listing goes on with was found on an earlier page or on this one
    refine h.setNext he ⟨fun refund hnext => ?_, fun refund hnext => ?_, fun refund hnext => ?_⟩
    · rcases hfound refund hnext with hlist | hpage
      · exact hnextInv.found refund (by rw [hlist]; rfl)
      · exact .of_mem hpage.1
    · rcases hfound refund (by rw [hnext]; rfl) with hlist | hpage
      · exact hnextInv.list refund hlist
      · exact hpage.2
    · exact absurd hnext (hmark refund)
  | fail failureReason =>
    have hkept : RowKept s.row (markRefundFailed failureReason s.row) := ⟨rfl, rfl, nofun⟩
    exact (h.write hkept h.attempt nofun).setNext he
      (.of_idle (.inr rfl))
  | apply refund happly next hnext =>
    have hknown : Known s.refunds refund := hnextInv.found refund (by rw [happly]; rfl)
    refine (h.write (rowKept_applyStripeRefundState e.copy refund s.row)
      (attemptOk_applyStripeRefundState h he refund) fun hsucc =>
        absurd hsucc (applyStripeRefundState_ne_succeeded e.copy refund s.row)).setNext he ?_
    rcases hnext with rfl | ⟨rfl, hsucc⟩
    · exact .of_idle (.inr rfl)
    · refine ⟨nofun, nofun, ?_⟩
      rintro _ ⟨⟩
      exact ⟨hknown, hsucc⟩
  | mark refund hmark =>
    -- a success is final, so the refund that was seen is still one
    obtain ⟨⟨r, hr, hlater⟩, hsucc⟩ := hnextInv.mark refund hmark
    have hkept (amount : Option ℤ) : RowKept s.row (markRefundSucceeded refund.id amount s.row) :=
      ⟨rfl, rfl, nofun⟩
    refine (h.write (hkept _) h.attempt fun _ => ?_).setNext he
      (.of_idle (.inr rfl))
    exact ⟨r, hr, congrArg some hlater.id.symm, (hlater.status (.inl hsucc)).trans hsucc⟩

/-- **A step keeps the invariant.** -/
theorem RefundInv.step {step} (hstep : refundStep source s step = some s') :
    RefundInv source s' := by
  cases step with
  | prepare remainingAmount =>
    obtain ⟨hbounds, ⟨⟩⟩ := Option.ite_none_right_eq_some.mp hstep
    exact h.prepare hbounds.1 hbounds.2
  | read =>
    obtain ⟨hstat, ⟨⟩⟩ := Option.ite_none_right_eq_some.mp hstep
    exact h.read hstat
  | call i reply =>
    obtain ⟨e, he, hcall⟩ := Option.bind_eq_some_iff.mp hstep
    exact h.call (mem_of_getElem? he) (callStep_effect hcall)
  | crash i =>
    obtain ⟨e, he, rfl⟩ := Option.map_eq_some_iff.mp hstep
    exact h.setNext (mem_of_getElem? he) (.of_idle (.inr rfl))
  | settle id status failureReason =>
    cases hstep
    exact h.settle id status failureReason

end

theorem RefundInv.start (source) : RefundInv source RefundSystem.start :=
  ⟨⟨le_rfl, by decide⟩, fun _ hamount => absurd hamount (Option.some_ne_none _).symm,
    forall_mem_nil _,
    rfl, nodup_nil, forall_mem_nil _, fun _ _ hget => absurd hget (Option.some_ne_none _).symm,
    fun hstat => RefundRowStatus.noConfusion hstat⟩

/-! ### What runs of fresh writes keep -/

/-- The next call writes Stripe's state of a refund. -/
def RefundCall.isApply : RefundCall → Bool
  | .apply _ => true
  | _ => false

/-- A write of `applyStripeRefundState` finds the attempt that its execution read. -/
def FreshWrite (s : RefundSystem) : RefundStep → Prop
  | .call i _ => ∀ e ∈ s.executions[i]?, e.next.isApply = true → s.row.attempt = e.copy.attempt
  | _ => True

instance (s : RefundSystem) : ∀ step : RefundStep, Decidable (FreshWrite s step)
  | .call i _ => inferInstanceAs
      (Decidable (∀ e ∈ s.executions[i]?, e.next.isApply = true → s.row.attempt = e.copy.attempt))
  | .prepare _ => .isTrue trivial
  | .read => .isTrue trivial
  | .crash _ => .isTrue trivial
  | .settle _ _ _ => .isTrue trivial

/-- The refund with an id is that of an attempt. -/
def Holds (refunds : List StripeRefund) (id attempt : ℕ) : Prop :=
  ∃ r ∈ refunds, r.id = id ∧ r.attempt = attempt

/-- An execution is not ahead of the row, and what it knows is about its own attempt. -/
structure FreshExecution (s : RefundSystem) (e : RefundExecution) : Prop where
  attempt : e.copy.attempt ≤ s.row.attempt
  stored : ∀ id, e.copy.stripeRefundId = some id → Holds s.refunds id e.copy.attempt
  found : ∀ refund, e.next.found = some refund → refund.attempt = e.copy.attempt ∨
    refund.status = .succeeded

/-- The refunds of all attempts before that of the row exist, and have failed. -/
structure FreshInv (s : RefundSystem) : Prop where
  bound : ∀ r ∈ s.refunds, r.attempt ≤ s.row.attempt
  live : ∀ r ∈ s.refunds, r.status.Live → r.attempt = s.row.attempt
  used : ∀ attempt, 1 ≤ attempt → attempt < s.row.attempt → ∃ r ∈ s.refunds, r.attempt = attempt
  stored : ∀ id, s.row.stripeRefundId = some id → Holds s.refunds id s.row.attempt
  executions : ∀ e ∈ s.executions, FreshExecution s e

theorem Holds.mono {id} (h : Holds refunds id attempt) (hgrows : Grows refunds refunds') :
    Holds refunds' id attempt := by
  obtain ⟨r, hr, hid, hatt⟩ := h
  obtain ⟨r', hr', hlater⟩ := hgrows r hr
  exact ⟨r', hr', hlater.id.trans hid, hlater.attempt.trans hatt⟩

theorem Later.live (hlater : Later snapshot r) (hlive : r.status.Live) : snapshot.status.Live := by
  by_contra hdead
  have hfinal : snapshot.status.Final := .inr (by
    rwa [StripeRefundStatus.Live, not_and_or, not_not, not_not] at hdead)
  rw [hlater.status hfinal] at hlive
  exact hdead hlive

section

variable (h : FreshInv s)

include h

/-- A write that keeps the attempt. -/
theorem FreshInv.write (hatt : row.attempt = s.row.attempt)
    (hstor : ∀ id, row.stripeRefundId = some id → Holds s.refunds id s.row.attempt) :
    FreshInv { s with row := row } where
  bound r hr := (h.bound r hr).trans_eq hatt.symm
  live r hr hlive := (h.live r hr hlive).trans hatt.symm
  used attempt hpos hlt := h.used attempt hpos (hlt.trans_eq hatt)
  stored id hid := by
    rw [hatt]
    exact hstor id hid
  executions e he := { h.executions e he with
      attempt := (h.executions e he).attempt.trans_eq hatt.symm }

/-- The attempt of the row has failed, and the next one begins. -/
theorem FreshInv.retry (hatt : row.attempt = s.row.attempt + 1) (hrow : row.stripeRefundId = none)
    (hr : r ∈ s.refunds) (hcur : r.attempt = s.row.attempt)
    (hdead : ∀ r ∈ s.refunds, r.attempt = s.row.attempt → ¬r.status.Live) :
      FreshInv { s with row := row } := by
  have hle : s.row.attempt ≤ row.attempt := hatt ▸ Nat.le_succ s.row.attempt
  constructor
  case bound => exact fun r hr => (h.bound r hr).trans hle
  case live => exact fun r hr hlive => absurd hlive (hdead r hr (h.live r hr hlive))
  case used =>
    intro attempt hpos hlt
    have hlast : attempt ≤ s.row.attempt := Nat.le_of_lt_succ (hlt.trans_eq hatt)
    rcases hlast.lt_or_eq with hbef | rfl
    · exact h.used attempt hpos hbef
    · exact ⟨r, hr, hcur⟩
  case stored => exact fun id hid => nomatch hrow.symm.trans hid
  case executions =>
    exact fun e he => { h.executions e he with attempt := (h.executions e he).attempt.trans hle }

theorem FreshInv.setNext (he : e ∈ s.executions)
    (hnext : ∀ refund, next.found = some refund → refund.attempt = e.copy.attempt ∨
      refund.status = .succeeded) :
    FreshInv (s.setNext i e next) where
  __ := h
  executions e' he' := by
    rcases mem_setNext he' with rfl | hmem
    · exact { h.executions e he with found := hnext }
    · exact { h.executions e' hmem with }

theorem FreshInv.remember (responses) : FreshInv { s with responses := responses } where
  __ := h
  executions e he := { h.executions e he with }

omit h in
theorem FreshExecution.mono (h : FreshExecution s e) (hgrows : Grows s.refunds refunds')
    (responses) :
    FreshExecution { s with refunds := refunds', responses := responses } e :=
  { h with stored := fun id hid => (h.stored id hid).mono hgrows }

/-- A refund is added for the attempt of the row. -/
theorem FreshInv.create (hatt : refund.attempt = s.row.attempt) (responses) :
    FreshInv { s with refunds := s.refunds ++ [refund], responses := responses } := by
  have hgrows : Grows s.refunds (s.refunds ++ [refund]) := grows_append s.refunds [refund]
  constructor
  case bound => exact forall_mem_append.mpr ⟨h.bound, forall_mem_singleton.mpr hatt.le⟩
  case live => exact forall_mem_append.mpr ⟨h.live, forall_mem_singleton.mpr fun _ => hatt⟩
  case used =>
    intro attempt hpos hlt
    obtain ⟨r, hr, hr'⟩ := h.used attempt hpos hlt
    exact ⟨r, mem_append_left [refund] hr, hr'⟩
  case stored => exact fun id hid => (h.stored id hid).mono hgrows
  case executions => exact fun e he => (h.executions e he).mono hgrows _

theorem FreshInv.settle (id : ℕ) (status) (failureReason) :
    FreshInv { s with refunds := s.refunds.map (settleRefund id status failureReason) } := by
  have hgrows := grows_settle id status failureReason s.refunds
  have hlater := later_settleRefund id status failureReason
  constructor
  case bound => exact forall_mem_map.mpr fun r hr => (hlater r).attempt.trans_le (h.bound r hr)
  case live =>
    exact forall_mem_map.mpr fun r hr hlive =>
      (hlater r).attempt.trans (h.live r hr ((hlater r).live hlive))
  case used =>
    intro attempt hpos hlt
    obtain ⟨r, hr, rfl⟩ := h.used attempt hpos hlt
    exact ⟨_, mem_map_of_mem hr, (hlater r).attempt⟩
  case stored => exact fun id hid => (h.stored id hid).mono hgrows
  case executions => exact fun e he => (h.executions e he).mono hgrows _

theorem FreshInv.read : FreshInv { s with executions := s.executions ++ [⟨s.row, .claim⟩] } where
  __ := h
  executions := forall_mem_append.mpr ⟨fun e hold => { h.executions e hold with },
    forall_mem_singleton.mpr ⟨le_rfl, h.stored, nofun⟩⟩

/-- A refund that succeeded is that of the row's attempt. -/
theorem FreshInv.holds_succeeded (hknown : Known s.refunds refund)
    (hsucc : refund.status = .succeeded) : Holds s.refunds refund.id s.row.attempt := by
  obtain ⟨r, hr, hlater⟩ := hknown
  have hstat : r.status = .succeeded := (hlater.status (.inl hsucc)).trans hsucc
  exact ⟨r, hr, hlater.id, h.live r hr (by rw [hstat]; exact ⟨nofun, nofun⟩)⟩

end

section

variable (hfresh : FreshInv s) (h : RefundInv source s)

include hfresh h

/-- The write of `applyStripeRefundState` with the attempt of the row. -/
theorem FreshInv.apply (he : e ∈ s.executions) (happly : e.next = .apply refund)
    (hatt : s.row.attempt = e.copy.attempt) :
    FreshInv { s with row := applyStripeRefundState e.copy refund s.row } := by
  have hfound : e.next.found = some refund := by rw [happly]; rfl
  have hknown : Known s.refunds refund := (h.executions e he).next.found refund hfound
  have hholds : Holds s.refunds refund.id s.row.attempt := by
    rcases (hfresh.executions e he).found refund hfound with hown | hsucc
    · obtain ⟨r, hr, hlater⟩ := hknown
      exact ⟨r, hr, hlater.id, (hlater.attempt.trans hown).trans hatt.symm⟩
    · exact hfresh.holds_succeeded hknown hsucc
  have hset : ∀ {row : RefundRow}, row.stripeRefundId = some refund.id →
      ∀ id, row.stripeRefundId = some id → Holds s.refunds id s.row.attempt := by
    intro row hrow id hid
    obtain rfl : refund.id = id := Option.some.inj (hrow.symm.trans hid)
    exact hholds
  unfold applyStripeRefundState
  split
  case isFalse => exact hfresh.write rfl (hset rfl)
  case isTrue hfailed =>
    split
    case isTrue => exact hfresh.write hatt.symm (hset rfl)
    case isFalse =>
      -- the refund of this attempt is the one that failed: there is no other
      obtain ⟨r, hr, hid, hcur⟩ := hholds
      obtain ⟨r', hr', hlater⟩ := hknown
      obtain rfl : r = r' := ids_unique h.ids hr hr' (hid.trans hlater.id.symm)
      refine hfresh.retry (congrArg (· + 1) hatt.symm) rfl hr hcur fun r'' hr'' hsame hlive => ?_
      obtain rfl : r'' = r :=
        inj_on_of_nodup_map h.attempts hr'' hr (hsame.trans hcur.symm)
      have hstat := hlater.status (.inr hfailed)
      rw [hstat] at hlive
      rcases hfailed with hfailed | hfailed
      · exact hlive.1 hfailed
      · exact hlive.2 hfailed

/-- **A call that is fresh keeps the invariant.** -/
theorem FreshInv.call (he : e ∈ s.executions)
    (hwrite : e.next.isApply → s.row.attempt = e.copy.attempt)
    (heff : CallEffect s i e s') : FreshInv s' := by
  have hexec := hfresh.executions e he
  have hafter : ∀ response : CreateResponse,
      (∀ refund, response = .created refund → refund.attempt = e.copy.attempt) →
      ∀ refund, (afterCreate response).found = some refund →
        refund.attempt = e.copy.attempt ∨ refund.status = .succeeded := by
    intro response hresp refund hfound
    cases response with
    | created _ => cases hfound; exact .inl (hresp refund rfl)
    | chargeAlreadyRefunded => cases hfound
    | error => cases hfound
  cases heff with
  | claim next hnext =>
    have hclaim : FreshInv { s with row := claimRefund s.row } := by
      unfold claimRefund
      split
      · exact hfresh.write rfl hfresh.stored
      · exact hfresh
    refine hclaim.setNext he fun refund hfound => ?_
    rcases hnext with rfl | rfl <;> cases hfound
  | retrieve refund hrfd hid =>
    refine hfresh.setNext he ?_
    rintro _ ⟨⟩
    obtain ⟨r, hr, hrid, hatt⟩ := hexec.stored refund.id hid
    obtain rfl : r = refund := ids_unique h.ids hr hrfd hrid
    exact .inl hatt
  | replay response hresp =>
    refine hfresh.setNext he (hafter response ?_)
    rintro refund rfl
    exact (h.responses e.copy.attempt refund hresp).1
  | create refund hnew hid hatt hamount =>
    have hcur : e.copy.attempt = s.row.attempt := by
      -- an earlier attempt has a refund, so its key has a response
      by_contra hne
      have hbef : e.copy.attempt < s.row.attempt := lt_of_le_of_ne hexec.attempt hne
      obtain ⟨r, hr, hr'⟩ := hfresh.used e.copy.attempt (h.executions e he).attempt.1 hbef
      have hansw := (h.refunds r hr).answered
      rw [hr', hnew] at hansw
      cases hansw
    refine (hfresh.create (hatt.trans hcur) _).setNext he ?_
    rintro _ ⟨⟩
    exact .inl hatt
  | refuse response responses hresp hresponses =>
    exact (hfresh.remember responses).setNext he
      (hafter response fun refund hcreated => absurd hcreated (hresp refund))
  | list next hmark hfound =>
    refine hfresh.setNext he fun refund hnext => .inr ?_
    rcases hfound refund hnext with hlist | hpage
    · exact (h.executions e he).next.list refund hlist
    · exact hpage.2
  | fail failureReason =>
    have hfail : FreshInv { s with row := markRefundFailed failureReason s.row } :=
      hfresh.write rfl hfresh.stored
    exact hfail.setNext he nofun
  | apply refund happly next hnext =>
    have hatt : s.row.attempt = e.copy.attempt := hwrite (by rw [happly]; rfl)
    refine (hfresh.apply h he happly hatt).setNext he fun refund' hfound => ?_
    rcases hnext with rfl | ⟨rfl, _⟩ <;> cases hfound
  | mark refund hmark =>
    obtain ⟨hknown, hsucc⟩ := (h.executions e he).next.mark refund hmark
    have hmarked : FreshInv { s with
        row := markRefundSucceeded refund.id e.copy.requestedAmountCents s.row } := by
      refine hfresh.write rfl ?_
      rintro _ ⟨⟩
      exact hfresh.holds_succeeded hknown hsucc
    exact hmarked.setNext he nofun

/-- **A step that is fresh keeps the invariant.** -/
theorem FreshInv.step {step}
    (hwrite : FreshWrite s step) (hstep : refundStep source s step = some s') : FreshInv s' := by
  cases step with
  | prepare remainingAmount =>
    obtain ⟨_, ⟨⟩⟩ := Option.ite_none_right_eq_some.mp hstep
    unfold prepareRefund
    split
    · exact hfresh.write rfl hfresh.stored
    · exact hfresh
  | read =>
    obtain ⟨_, ⟨⟩⟩ := Option.ite_none_right_eq_some.mp hstep
    exact hfresh.read
  | call i reply =>
    obtain ⟨e, he, hcall⟩ := Option.bind_eq_some_iff.mp hstep
    exact hfresh.call h (mem_of_getElem? he) (hwrite e he) (callStep_effect hcall)
  | crash i =>
    obtain ⟨e, he, rfl⟩ := Option.map_eq_some_iff.mp hstep
    exact hfresh.setNext (mem_of_getElem? he) nofun
  | settle id status failureReason =>
    cases hstep
    exact hfresh.settle id status failureReason

end

theorem FreshInv.start : FreshInv RefundSystem.start :=
  ⟨forall_mem_nil _, forall_mem_nil _,
    fun _ hpos hlt => absurd hlt (Nat.not_lt.mpr hpos), fun _ hid =>
      absurd hid (Option.some_ne_none _).symm,
    forall_mem_nil _⟩

/-! ### The guarantees -/

/-- What holds after every run: at most three refunds, each of the requested amount, and a
row that is marked as succeeded names a refund that succeeded. -/
structure RefundBounds (source : RefundSource) (s : RefundSystem) : Prop where
  count : s.refunds.length ≤ 3
  amount : ∀ r ∈ s.refunds, Requested source s.row r.amount ∧ r.amount ≤ source.sourceAmountCents
  succeeded : s.row.status = .succeeded → NamesSucceeded s.refunds s.row

/-- No two refunds of the grant are live. -/
def OneLive (s : RefundSystem) : Prop :=
  (s.refunds.filter fun r => decide r.status.Live).length ≤ 1

instance (s : RefundSystem) : Decidable (OneLive s) := inferInstanceAs (Decidable (_ ≤ _))

/-- A part of the grant is refunded with at most what was paid. -/
theorem Requested.le_source {amount} (h : Requested source row amount) :
    amount ≤ source.sourceAmountCents := by
  obtain ⟨remainingAmount, _, _, hle, rfl⟩ := h
  refine Int.ediv_le_of_le_mul source.originalAmount_pos ?_
  exact mul_le_mul_of_nonneg_left hle source.sourceAmountCents_nonneg

theorem RefundInv.count (h : RefundInv source s) : s.refunds.length ≤ 3 := by
  have hsub : s.refunds.map StripeRefund.attempt ⊆ [1, 2, 3] := by
    intro attempt hmem
    obtain ⟨r, hr, rfl⟩ := mem_map.mp hmem
    obtain ⟨hpos, hle⟩ := (h.refunds r hr).attempt
    have hle : r.attempt ≤ 3 := hle
    simp only [mem_cons]
    omega
  have hlength := (List.Nodup.subperm h.attempts hsub).length_le
  rwa [length_map] at hlength

theorem RefundInv.bounds (h : RefundInv source s) : RefundBounds source s where
  count := h.count
  amount r hr := by
    have hreqd := h.requested r.amount (h.refunds r hr).requested
    exact ⟨hreqd, hreqd.le_source⟩
  succeeded := h.succeeded

theorem FreshInv.oneLive (hfresh : FreshInv s) (h : RefundInv source s) : OneLive s := by
  have hnodup : ((s.refunds.filter fun r => decide r.status.Live).map StripeRefund.attempt).Nodup :=
    h.attempts.sublist (filter_sublist.map StripeRefund.attempt)
  have hsub : (s.refunds.filter fun r => decide r.status.Live).map StripeRefund.attempt ⊆
    [s.row.attempt] := by
    intro attempt hmem
    obtain ⟨r, hr, rfl⟩ := mem_map.mp hmem
    obtain ⟨hmem, hlive⟩ := mem_filter.mp hr
    exact mem_singleton.mpr (hfresh.live r hmem (of_decide_eq_true hlive))
  have hlength := (List.Nodup.subperm hnodup hsub).length_le
  rwa [length_map] at hlength

/-- **A removed member's credits are refunded at most once**: after every run there are at
most three refunds, each of the requested amount, and a row marked as succeeded names a
refund that succeeded; and after every run whose writes of Stripe's state are fresh, no two
of the refunds are live. -/
theorem refunded_at_most_once (source : RefundSource) (steps : List RefundStep) (s : RefundSystem)
    (hrun : runEvents (refundStep source) .start steps = some s) :
    RefundBounds source s ∧ (holdsAlong (refundStep source) FreshWrite .start steps →
      OneLive s) := by
  have h : RefundInv source s :=
    runEvents_invariant (RefundInv source) (fun _ _ _ hs hstep =>
      hs.step hstep) (.start source) hrun
  refine ⟨h.bounds, fun halong => ?_⟩
  have hboth : RefundInv source s ∧ FreshInv s :=
    runEvents_invariant_along (fun s => RefundInv source s ∧ FreshInv s)
      (fun _ _ _ hs hwrite hstep => ⟨hs.1.step hstep, hs.2.step hs.1 hwrite hstep⟩)
      ⟨.start source, .start⟩ halong hrun
  exact hboth.2.oneLive h

end Run

/-- Half of a grant of 1000 credits that cost 500 cents. -/
def halfRefund : RefundSource := ⟨500, 1000, by decide, by decide⟩

/-- The first refund fails and the second succeeds, one execution after the other. -/
def retriedRefund : List RefundStep :=
  [.prepare 500, .read, .call 0 .none, .call 0 (.create .pending none), .call 0 .none,
    .settle 0 .failed (some "expired_or_canceled_card"),
    .read, .call 1 .none, .call 1 .none, .call 1 .none,
    .read, .call 2 .none, .call 2 (.create .succeeded none), .call 2 .none, .call 2 .none]

theorem refunded_at_most_once_retried : ∃ s,
      runEvents (refundStep halfRefund) .start retriedRefund = some s ∧
      s.refunds.length = 2 ∧ s.row.status = .succeeded ∧
      holdsAlong (refundStep halfRefund) FreshWrite .start retriedRefund ∧
      RefundBounds halfRefund s ∧ OneLive s := by
  have halong : holdsAlong (refundStep halfRefund) FreshWrite .start
    retriedRefund := by decide +kernel
  obtain ⟨s, hrun, hlength, hstat⟩ : ∃ s, runEvents (refundStep halfRefund) .start retriedRefund =
      some s ∧ s.refunds.length = 2 ∧ s.row.status = .succeeded := ⟨_, rfl, rfl, rfl⟩
  obtain ⟨hbounds, hone⟩ := refunded_at_most_once halfRefund retriedRefund s hrun
  exact ⟨s, hrun, hlength, hstat, halong, hbounds, hone halong⟩

/-- Execution 0 is held up after it has created the first refund.  Execution 1 finds the
same refund, it fails, 2 starts the second attempt and 3 creates its refund.  Now 0 writes
the first refund into the row, 4 finds that it failed, and 5 creates a third refund beside
the second one. -/
def staleWriteRun : List RefundStep :=
  [.prepare 500, .read, .call 0 .none, .call 0 (.create .pending none),
    .read, .call 1 .none, .call 1 .none, .call 1 .none,
    .settle 0 .failed none,
    .read, .call 2 .none, .call 2 .none, .call 2 .none,
    .read, .call 3 .none, .call 3 (.create .pending none), .call 3 .none,
    .call 0 .none,
    .read, .call 4 .none, .call 4 .none, .call 4 .none,
    .read, .call 5 .none, .call 5 (.create .pending none), .call 5 .none]

/-- **Two refunds of the grant are pending at once**, because of a write that is not fresh. -/
theorem two_live_refunds : ∃ s, runEvents (refundStep halfRefund) .start staleWriteRun = some s ∧
      ¬OneLive s ∧
      s.refunds.map (fun r => (r.amount, r.status)) = [(250, .failed), (250, .pending),
        (250, .pending)] :=
  ⟨_, rfl, by decide +kernel, by decide +kernel⟩

end Okou.Billing
