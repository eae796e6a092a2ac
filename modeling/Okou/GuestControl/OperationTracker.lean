import Okou.Lib.Dict
import Okou.Lib.Machine

/-!
# Which operations a connection may be parked on

`NormalOperationTracker` admits the normal operations of a connection and decides when the
connection may be fenced off, to be parked and used again.  An operation whose token is dropped
after it may have written to the guest leaves the connection in an unknown state: from then on it
is not parkable.

Tokens and fences are owned values, so each is completed or dropped once.  Handles are cloned from
a token and may outlive it; here any token that was ever issued may have one.  The counters of
identifiers are natural numbers.
-/

namespace Okou.GuestControl.OperationTracker

open List

/-! ### The tracker -/

inductive OperationPhase
  | reservedBeforeWrite
  | possibleGuestWrite
  | guestWriteCompleted
deriving DecidableEq, Repr

inductive TrackerState
  | open
  | fenced (id : ℕ)
  | notParkable
  | closed
deriving DecidableEq, Repr

inductive NormalOperationRejection
  | fenced
  | notParkable
  | closed
deriving DecidableEq, Repr

inductive NormalOperationFenceRejection
  | busy
  | alreadyFenced
  | notParkable
  | closed
deriving DecidableEq, Repr

inductive NormalOperationTransitionError
  | unknownOperation (operationId : ℕ)
  /-- the operation is not in a phase that the transition starts from -/
  | invalidTransition (operationId : ℕ) (source target : OperationPhase)
deriving DecidableEq, Repr

structure Inner where
  state : TrackerState
  nextOperationId : ℕ
  nextFenceId : ℕ
  operations : List (ℕ × OperationPhase)
deriving DecidableEq, Repr

namespace Inner

def new : Inner := ⟨.open, 1, 1, []⟩

variable (inner : Inner) (id : ℕ)

/-- A new operation. -/
def enter (inner : Inner) : Inner :=
  { inner with
    nextOperationId := inner.nextOperationId + 1
    operations := dictSet inner.nextOperationId .reservedBeforeWrite inner.operations }

/-- A new fence. -/
def raise (inner : Inner) : Inner :=
  { inner with nextFenceId := inner.nextFenceId + 1, state := .fenced inner.nextFenceId }

/-- A state that nothing leaves for an open one, and no operations. -/
def shut (inner : Inner) (state : TrackerState) : Inner :=
  { inner with state := state, operations := [] }

def reserve (inner : Inner) : Inner × Except NormalOperationRejection ℕ :=
  match inner.state with
  | .open => (inner.enter, .ok inner.nextOperationId)
  | .fenced _ => (inner, .error .fenced)
  | .notParkable => (inner, .error .notParkable)
  | .closed => (inner, .error .closed)

def tryFence (inner : Inner) : Inner × Except NormalOperationFenceRejection ℕ :=
  match inner.state with
  | .open => if inner.operations = [] then (inner.raise, .ok inner.nextFenceId)
    else (inner, .error .busy)
  | .fenced _ => (inner, .error .alreadyFenced)
  | .notParkable => (inner, .error .notParkable)
  | .closed => (inner, .error .closed)

def tryReserveAndFence (inner : Inner) : Inner × Except NormalOperationFenceRejection (ℕ × ℕ) :=
  match inner.state with
  | .open =>
    if inner.operations = [] then (inner.enter.raise,
      .ok (inner.nextOperationId, inner.nextFenceId))
    else (inner, .error .busy)
  | .fenced _ => (inner, .error .alreadyFenced)
  | .notParkable => (inner, .error .notParkable)
  | .closed => (inner, .error .closed)

def markNotParkable (inner : Inner) : Inner := inner.shut .notParkable

def markClosed (inner : Inner) : Inner :=
  if inner.operations.any (fun entry => entry.2 = .possibleGuestWrite) then inner.shut .notParkable
  else
    match inner.state with
    | .open | .fenced _ => inner.shut .closed
    | .notParkable | .closed => inner

def markPossibleGuestWriteStarted (inner : Inner) (id : ℕ) :
    Inner × Except NormalOperationTransitionError Unit :=
  match dictGet id inner.operations with
  | none => (inner, .error (.unknownOperation id))
  | some .possibleGuestWrite =>
    (inner, .error (.invalidTransition id .possibleGuestWrite .possibleGuestWrite))
  | some _ => ({ inner with operations := dictSet id .possibleGuestWrite inner.operations }, .ok ())

def markPossibleGuestWriteCompleted (inner : Inner) (id : ℕ) :
    Inner × Except NormalOperationTransitionError Unit :=
  match dictGet id inner.operations with
  | none => (inner, .error (.unknownOperation id))
  | some .possibleGuestWrite =>
    ({ inner with operations := dictSet id .guestWriteCompleted inner.operations }, .ok ())
  | some phase => (inner, .error (.invalidTransition id phase .guestWriteCompleted))

/-- The drop of a token that was not released. -/
def dropToken (inner : Inner) (id : ℕ) : Inner :=
  let removed := { inner with operations := dictErase id inner.operations }
  match dictGet id inner.operations with
  | none | some .reservedBeforeWrite => removed
  | some _ => if inner.state = .closed then removed else removed.shut .notParkable

/-- `complete` consumes the token: where it fails, the token is dropped unreleased. -/
def complete (inner : Inner) (id : ℕ) : Inner × Except NormalOperationTransitionError Unit :=
  match dictGet id inner.operations with
  | some _ => ({ inner with operations := dictErase id inner.operations }, .ok ())
  | none =>
    -- a guest write can fail closed before an older operation comes to its end
    if inner.state = .notParkable then (inner, .ok ())
    else (inner.dropToken id, .error (.unknownOperation id))

def dropFence (inner : Inner) (id : ℕ) : Inner :=
  if inner.state = .fenced id then { inner with state := .open } else inner

end Inner

/-! ### Runs -/

inductive Call
  | reserve
  | tryFence
  | tryReserveAndFence
  /-- through the token or a handle -/
  | markStarted (id : ℕ)
  | markCompleted (id : ℕ)
  | complete (id : ℕ)
  | dropToken (id : ℕ)
  | dropFence (id : ℕ)
  | markClosed
  | markNotParkable
deriving DecidableEq, Repr

inductive Outcome
  | done
  | reserved (id : ℕ)
  | fenced (id : ℕ)
  | reservedAndFenced (id fenceId : ℕ)
  | rejected (error : NormalOperationRejection)
  | fenceRejected (error : NormalOperationFenceRejection)
  | transitionFailed (error : NormalOperationTransitionError)
deriving DecidableEq, Repr

/-- The tracker with the tokens and fences that are alive, and the calls so far. -/
structure World where
  inner : Inner
  tokens : List ℕ
  fences : List ℕ
  history : List (Call × Outcome)
deriving DecidableEq, Repr

namespace World

def init : World := ⟨.new, [], [], []⟩

variable (w : World)

/-- A token of the operation was issued, so a handle of it may exist. -/
def Issued (w : World) (id : ℕ) : Prop := 1 ≤ id ∧ id < w.inner.nextOperationId

instance (w : World) (id : ℕ) : Decidable (w.Issued id) := inferInstanceAs (Decidable (_ ∧ _))

/-- After a call. -/
def record (w : World) (call : Call) (inner : Inner) (outcome : Outcome) : World :=
  { w with inner := inner, history := w.history ++ [(call, outcome)] }

/-- The outcome of a transition. -/
def transitioned : Except NormalOperationTransitionError Unit → Outcome
  | .ok _ => .done
  | .error error => .transitionFailed error

def withoutToken (w : World) (id : ℕ) : World := { w with tokens := w.tokens.filter (· ≠ id) }

def withoutFence (w : World) (id : ℕ) : World := { w with fences := w.fences.filter (· ≠ id) }

/-- One call, by whoever owns what it needs. -/
def step (w : World) (call : Call) : Option World :=
  match call with
  | .reserve =>
    match w.inner.reserve with
    | (inner, .ok id) => some { w.record call inner (.reserved id) with tokens := id :: w.tokens }
    | (inner, .error error) => some (w.record call inner (.rejected error))
  | .tryFence =>
    match w.inner.tryFence with
    | (inner, .ok id) => some { w.record call inner (.fenced id) with fences := id :: w.fences }
    | (inner, .error error) => some (w.record call inner (.fenceRejected error))
  | .tryReserveAndFence =>
    match w.inner.tryReserveAndFence with
    | (inner, .ok (id, fenceId)) =>
      some { w.record call inner (.reservedAndFenced id fenceId) with
        tokens := id :: w.tokens
        fences := fenceId :: w.fences }
    | (inner, .error error) => some (w.record call inner (.fenceRejected error))
  | .markStarted id =>
    if w.Issued id then
      let (inner, result) := w.inner.markPossibleGuestWriteStarted id
      some (w.record call inner (transitioned result))
    else none
  | .markCompleted id =>
    if w.Issued id then
      let (inner, result) := w.inner.markPossibleGuestWriteCompleted id
      some (w.record call inner (transitioned result))
    else none
  | .complete id =>
    if id ∈ w.tokens then
      let (inner, result) := w.inner.complete id
      some ((w.record call inner (transitioned result)).withoutToken id)
    else none
  | .dropToken id =>
    if id ∈ w.tokens then some ((w.record call (w.inner.dropToken id) .done).withoutToken id)
      else none
  | .dropFence id =>
    if id ∈ w.fences then some ((w.record call (w.inner.dropFence id) .done).withoutFence id)
      else none
  | .markClosed => some (w.record call w.inner.markClosed .done)
  | .markNotParkable => some (w.record call w.inner.markNotParkable .done)

end World

/-! ### What the history says -/

/-- The operation recorded a possible guest write. -/
def Recorded (history : List (Call × Outcome)) (id : ℕ) : Prop :=
  (Call.markStarted id, Outcome.done) ∈ history

/-- The token was dropped and not completed. -/
def Dropped (history : List (Call × Outcome)) (id : ℕ) : Prop :=
  (Call.dropToken id, Outcome.done) ∈ history

/-- The operation was completed, and recorded no guest write after that. -/
def CompletedSince (history : List (Call × Outcome)) (id : ℕ) : Prop :=
  ∃ before after, history = before ++ (.complete id, .done) :: after ∧ ¬Recorded after id

/-- A fence was raised. -/
def Fences : Call × Outcome → Prop
  | (_, .fenced _) | (_, .reservedAndFenced _ _) => True
  | _ => False

/-- An operation was admitted or a fence raised. -/
def Admits : Call × Outcome → Prop
  | (_, .reserved _) | (_, .fenced _) | (_, .reservedAndFenced _ _) => True
  | _ => False

section History

variable {history : List (Call × Outcome)} {entry : Call × Outcome} {id : ℕ}

theorem recorded_concat :
    Recorded (history ++ [entry]) id ↔ Recorded history id ∨ entry = (.markStarted id, .done) := by
  simp [Recorded, eq_comm]

theorem dropped_concat : Dropped (history ++ [entry]) id ↔ Dropped history id ∨
    entry = (.dropToken id, .done) := by
  simp [Dropped, eq_comm]

theorem CompletedSince.concat (h : CompletedSince history id)
    (hentry : entry ≠ (.markStarted id, .done)) : CompletedSince (history ++ [entry]) id := by
  obtain ⟨before, after, rfl, hafter⟩ := h
  refine ⟨before, after ++ [entry], by simp, ?_⟩
  rw [recorded_concat]
  exact not_or_intro hafter hentry

theorem completedSince_complete : CompletedSince (history ++ [(.complete id, .done)]) id :=
  ⟨history, [], rfl, by simp [Recorded]⟩

theorem Fences.admits (h : Fences entry) : Admits entry := by
  obtain ⟨call, outcome⟩ := entry
  cases outcome <;> trivial

end History

/-! ### What a call can do -/

/-- The call records no guest write, drops no token and admits nothing. -/
def Quiet (entry : Call × Outcome) : Prop :=
  (∀ id, entry ≠ (.markStarted id, .done)) ∧ (∀ id, entry ≠ (.dropToken id, .done)) ∧ ¬Admits entry

/-- The tracker still admits or is to reopen. -/
def TrackerState.Live : TrackerState → Prop
  | .open | .fenced _ => True
  | .notParkable | .closed => False

/-- What a call does to the tracker and the tokens, with its entry in the history. -/
inductive Move (inner : Inner) (tokens : List ℕ) : Call × Outcome → Inner → List ℕ → Prop
  /-- nothing but an answer -/
  | idle {entry tokens'} : Quiet entry → (∀ id ∈ tokens', id ∈ tokens) →
    Move inner tokens entry inner tokens'
  | reserve : inner.state = .open →
      Move inner tokens (.reserve, .reserved inner.nextOperationId) inner.enter
        (inner.nextOperationId :: tokens)
  | fence : inner.state = .open → inner.operations = [] →
      Move inner tokens (.tryFence, .fenced inner.nextFenceId) inner.raise tokens
  | reserveAndFence : inner.state = .open → inner.operations = [] →
      Move inner tokens (.tryReserveAndFence,
        .reservedAndFenced inner.nextOperationId inner.nextFenceId)
        inner.enter.raise (inner.nextOperationId :: tokens)
  | start {id phase} : dictGet id inner.operations = some phase →
    Move inner tokens (.markStarted id, .done)
        { inner with operations := dictSet id .possibleGuestWrite inner.operations } tokens
  | finish {id phase} : dictGet id inner.operations = some phase → phase ≠ .reservedBeforeWrite →
      Move inner tokens (.markCompleted id, .done)
        { inner with operations := dictSet id .guestWriteCompleted inner.operations } tokens
  | complete {id phase} : dictGet id inner.operations = some phase →
    Move inner tokens (.complete id, .done)
        { inner with operations := dictErase id inner.operations } (tokens.filter (· ≠ id))
  /-- a token goes without a guest write that matters -/
  | discard {entry id} : id ∈ tokens → (entry = (.dropToken id, .done) ∨ Quiet entry) →
      (inner.state.Live → ∀ phase ∈ dictGet id inner.operations, phase = .reservedBeforeWrite) →
      Move inner tokens entry
        { inner with operations := dictErase id inner.operations } (tokens.filter (· ≠ id))
  /-- the tracker gives up its operations, and with a token's drop the token is gone -/
  | shut {entry state tokens'} : ¬state.Live →
      (inner.state = .notParkable → state = .notParkable) → (∀ id ∈ tokens', id ∈ tokens) →
      (∀ id, entry = (.dropToken id, .done) → id ∈ tokens) →
        (∀ id, entry ≠ (.markStarted id, .done)) →
      ¬Admits entry → Move inner tokens entry (inner.shut state) tokens'
  | reopen {entry id} : inner.state = .fenced id → Quiet entry →
      Move inner tokens entry { inner with state := .open } tokens

variable {call : Call}

theorem quiet_of {outcome} (hadm : ¬Admits (call, outcome))
    (houtc : outcome ≠ .done) : Quiet (call, outcome) :=
  ⟨fun _ h => houtc (Prod.mk.inj h).2, fun _ h => houtc (Prod.mk.inj h).2, hadm⟩

open World

theorem transitioned_error_quiet (call : Call) (error) :
    Quiet (call, transitioned (.error error)) := quiet_of id nofun

variable {id : ℕ}

open OperationTracker.Inner

section Steps

variable {inner : Inner} {tokens : List ℕ}

theorem move_dropToken (hid : id ∈ tokens) :
    Move inner tokens (.dropToken id, .done) (inner.dropToken id) (tokens.filter (· ≠ id)) := by
  unfold dropToken
  split
  case h_1 hget => exact .discard hid (.inl rfl) (by simp [hget])
  case h_2 hget => exact .discard hid (.inl rfl) (by simp [hget])
  case h_3 =>
    split
    case isTrue hclosed => exact .discard hid (.inl rfl) (by simp [hclosed, TrackerState.Live])
    case isFalse =>
      refine .shut (fun hl => hl) (fun _ => rfl) (fun j hj => (mem_filter.mp hj).1) ?_ ?_ ?_
      · rintro j ⟨⟩
        exact hid
      · rintro j ⟨⟩
      · rintro ⟨⟩

theorem move_complete (hid : id ∈ tokens) :
    Move inner tokens (.complete id, transitioned (inner.complete id).2) (inner.complete id).1
      (tokens.filter (· ≠ id)) := by
  unfold complete
  split
  case h_1 phase hget => exact .complete hget
  case h_2 hget =>
    split
    case isTrue => exact .idle ⟨nofun, nofun, nofun⟩ fun j hj => (mem_filter.mp hj).1
    case isFalse =>
      unfold dropToken
      simp only [hget]
      exact .discard hid (.inr (transitioned_error_quiet _ _)) (by simp [hget])

theorem move_markClosed : Move inner tokens (.markClosed, .done) inner.markClosed tokens := by
  unfold markClosed
  split
  case isTrue => exact .shut id (fun _ => rfl) (fun _ => id) nofun nofun nofun
  case isFalse =>
    split
    case h_1 hstate => exact .shut id (by simp [hstate]) (fun _ => id) nofun nofun nofun
    case h_2 hstate => exact .shut id (by simp [hstate]) (fun _ => id) nofun nofun nofun
    case h_3 => exact .idle ⟨nofun, nofun, nofun⟩ fun _ => id
    case h_4 => exact .idle ⟨nofun, nofun, nofun⟩ fun _ => id

theorem move_markStarted (id : ℕ) :
    Move inner tokens (.markStarted id, transitioned (inner.markPossibleGuestWriteStarted id).2)
      (inner.markPossibleGuestWriteStarted id).1 tokens := by
  unfold markPossibleGuestWriteStarted
  split
  case h_1 => exact .idle (transitioned_error_quiet _ _) fun _ hj => hj
  case h_2 => exact .idle (transitioned_error_quiet _ _) fun _ hj => hj
  case h_3 phase _ hget => exact .start hget

theorem move_markCompleted (id : ℕ) :
    Move inner tokens (.markCompleted id, transitioned (inner.markPossibleGuestWriteCompleted id).2)
      (inner.markPossibleGuestWriteCompleted id).1 tokens := by
  unfold markPossibleGuestWriteCompleted
  split
  case h_1 => exact .idle (transitioned_error_quiet _ _) fun _ hj => hj
  case h_2 hget => exact .finish hget nofun
  case h_3 => exact .idle (transitioned_error_quiet _ _) fun _ hj => hj

end Steps

variable {w w' : World}

/-- **Every call makes one of the moves.** -/
theorem World.step_move (hs : w.step call = some w') : ∃ outcome, w'.history = w.history ++
      [(call, outcome)] ∧ Move w.inner w.tokens (call, outcome) w'.inner w'.tokens := by
  cases call with
  | reserve =>
    cases hstate : w.inner.state <;> simp only [World.step, reserve, hstate] at hs <;>
      cases hs
    · exact ⟨_, rfl, .reserve hstate⟩
    all_goals exact ⟨_, rfl, .idle (quiet_of id nofun) fun _ => id⟩
  | tryFence | tryReserveAndFence =>
    cases hstate : w.inner.state <;>
      simp only [World.step, tryFence, tryReserveAndFence, hstate] at hs
    · by_cases hempty : w.inner.operations = []
      · rw [if_pos hempty] at hs
        cases hs
        first
        | exact ⟨_, rfl, .fence hstate hempty⟩
        | exact ⟨_, rfl, .reserveAndFence hstate hempty⟩
      · rw [if_neg hempty] at hs
        cases hs
        exact ⟨_, rfl, .idle (quiet_of id nofun) fun _ => id⟩
    all_goals
      cases hs
      exact ⟨_, rfl, .idle (quiet_of id nofun) fun _ => id⟩
  | markStarted id =>
    obtain ⟨-, ⟨⟩⟩ := Option.ite_none_right_eq_some.mp hs
    exact ⟨_, rfl, move_markStarted id⟩
  | markCompleted id =>
    obtain ⟨-, ⟨⟩⟩ := Option.ite_none_right_eq_some.mp hs
    exact ⟨_, rfl, move_markCompleted id⟩
  | complete id =>
    obtain ⟨hid, ⟨⟩⟩ := Option.ite_none_right_eq_some.mp hs
    exact ⟨_, rfl, move_complete hid⟩
  | dropToken id =>
    obtain ⟨hid, ⟨⟩⟩ := Option.ite_none_right_eq_some.mp hs
    exact ⟨_, rfl, move_dropToken hid⟩
  | dropFence id =>
    obtain ⟨-, ⟨⟩⟩ := Option.ite_none_right_eq_some.mp hs
    refine ⟨.done, rfl, ?_⟩
    have hquiet : Quiet (.dropFence id, .done) := ⟨nofun, nofun, nofun⟩
    simp only [dropFence]
    split
    case isTrue hstate => exact .reopen hstate hquiet
    case isFalse => exact .idle hquiet fun _ hj => hj
  | markClosed =>
    cases hs
    exact ⟨_, rfl, move_markClosed⟩
  | markNotParkable =>
    cases hs
    exact ⟨.done, rfl, .shut id (fun _ => rfl) (fun _ => id) nofun nofun nofun⟩

/-! ### The invariant -/

/-- Every guest write that was recorded is still tracked or was completed. -/
structure Inv (inner : Inner) (tokens : List ℕ) (history : List (Call × Outcome)) : Prop where
  operations_lt : ∀ id phase, dictGet id inner.operations = some phase → id < inner.nextOperationId
  tokens_lt : ∀ id ∈ tokens, id < inner.nextOperationId
  history_lt : ∀ id, Recorded history id ∨ Dropped history id → id < inner.nextOperationId
  tracked : ∀ id phase, dictGet id inner.operations = some phase → ¬Dropped history id
  unwritten : ∀ id, dictGet id inner.operations = some .reservedBeforeWrite → ¬Recorded history id
  settled : inner.state.Live → ∀ id, Recorded history id → dictGet id inner.operations = none →
    CompletedSince history id ∧ ¬Dropped history id ∧ id ∉ tokens
  fences : ∀ before entry after, history = before ++ entry :: after → Fences entry →
    ∀ id, Recorded before id → CompletedSince before id ∧ ¬Dropped before id

theorem inv_init : Inv .new [] [] := by
  constructor <;> simp [Inner.new, dictGet, Recorded, Dropped]

section Invariant

variable {inner inner' : Inner} {tokens tokens' : List ℕ} {history : List (Call × Outcome)}
  {entry : Call × Outcome}

/-- A split of a history with one more entry is a split of the history, or its end. -/
theorem concat_split {before after e} (h : history ++ [entry] = before ++ e :: after) :
    (before = history ∧ e = entry) ∨ ∃ after', history = before ++ e :: after' := by
  rcases eq_nil_or_concat after with rfl | ⟨after', last, rfl⟩
  · obtain ⟨hbef, he⟩ := append_inj' h rfl
    exact .inl ⟨hbef.symm, (singleton_inj.mp he).symm⟩
  · rw [concat_eq_append, ← cons_append, ← append_assoc] at h
    exact .inr ⟨after', (append_inj' h rfl).1⟩

variable (h : Inv inner tokens history)

include h

/-- What a fence finds: every recorded write is settled, as nothing is tracked. -/
theorem Inv.fences_concat (hentry : Fences entry → inner.state = .open ∧ inner.operations = []) :
    ∀ before e after, history ++ [entry] = before ++ e :: after → Fences e →
      ∀ id, Recorded before id → CompletedSince before id ∧ ¬Dropped before id := by
  intro before e after hsplit hfenc id hrec
  rcases concat_split hsplit with ⟨rfl, rfl⟩ | ⟨after', hafter⟩
  · obtain ⟨hopen, hempty⟩ := hentry hfenc
    have hsettl := h.settled (hopen ▸ trivial) id hrec (by simp [hempty, dictGet])
    exact ⟨hsettl.1, hsettl.2.1⟩
  · exact h.fences before e after' hafter hfenc id hrec

/-- A move keeps the invariant if it holds anew at the operations the move touches. -/
theorem Inv.of_touched (touched : ℕ → Prop) (hlt : ∀ id, touched id → id < inner'.nextOperationId)
    (hnext : inner.nextOperationId ≤ inner'.nextOperationId) (hlive : inner'.state.Live →
      inner.state.Live)
    (hops : ∀ id, ¬touched id → dictGet id inner'.operations = dictGet id inner.operations)
    (htok : ∀ id, ¬touched id → id ∈ tokens' → id ∈ tokens)
    (hstart : ∀ id, entry = (.markStarted id, .done) → touched id)
    (hdropp : ∀ id, entry = (.dropToken id, .done) → touched id)
    (hfenc : Fences entry → inner.state = .open ∧ inner.operations = [])
    (htracked : ∀ id, touched id → ∀ phase, dictGet id inner'.operations = some phase →
      ¬Dropped (history ++ [entry]) id)
    (hunwritten : ∀ id, touched id → dictGet id inner'.operations = some .reservedBeforeWrite →
      ¬Recorded (history ++ [entry]) id)
    (hsettl : inner'.state.Live → ∀ id, touched id → Recorded (history ++ [entry]) id →
      dictGet id inner'.operations = none →
      CompletedSince (history ++ [entry]) id ∧ ¬Dropped (history ++ [entry]) id ∧ id ∉ tokens') :
    Inv inner' tokens' (history ++ [entry]) := by
  have hrec {id : ℕ} (hid : ¬touched id) : Recorded (history ++ [entry]) id ↔
    Recorded history id := by
    rw [recorded_concat, or_iff_left (mt (hstart id) hid)]
  have hdrop {id : ℕ} (hid : ¬touched id) : Dropped (history ++ [entry]) id ↔
    Dropped history id := by
    rw [dropped_concat, or_iff_left (mt (hdropp id) hid)]
  constructor
  case operations_lt =>
    intro id phase hget
    by_cases hid : touched id
    · exact hlt id hid
    · exact Nat.lt_of_lt_of_le (h.operations_lt id phase (hops id hid ▸ hget)) hnext
  case tokens_lt =>
    intro id hmem
    by_cases hid : touched id
    · exact hlt id hid
    · exact Nat.lt_of_lt_of_le (h.tokens_lt id (htok id hid hmem)) hnext
  case history_lt =>
    intro id hhist
    by_cases hid : touched id
    · exact hlt id hid
    · rw [hrec hid, hdrop hid] at hhist
      exact Nat.lt_of_lt_of_le (h.history_lt id hhist) hnext
  case tracked =>
    intro id phase hget
    by_cases hid : touched id
    · exact htracked id hid phase hget
    · rw [hdrop hid]
      exact h.tracked id phase (hops id hid ▸ hget)
  case unwritten =>
    intro id hget
    by_cases hid : touched id
    · exact hunwritten id hid hget
    · rw [hrec hid]
      exact h.unwritten id (hops id hid ▸ hget)
  case settled =>
    intro hl id hrecd hnone
    by_cases hid : touched id
    · exact hsettl hl id hid hrecd hnone
    · obtain ⟨hcompl, hnot, htoken⟩ := h.settled (hlive hl) id ((hrec hid).mp hrecd) (hops id hid ▸
        hnone)
      exact ⟨hcompl.concat (mt (hstart id) hid), mt (hdrop hid).mp hnot, mt (htok id hid) htoken⟩
  case fences => exact h.fences_concat hfenc

/-- The operations do not change. -/
theorem Inv.of_same (hops : inner'.operations = inner.operations)
    (hnext : inner'.nextOperationId = inner.nextOperationId) (hlive : inner'.state.Live →
      inner.state.Live)
    (htok : ∀ id ∈ tokens', id ∈ tokens) (hstart : ∀ id, entry ≠ (.markStarted id, .done))
    (hdropp : ∀ id, entry ≠ (.dropToken id, .done))
    (hfenc : Fences entry → inner.state = .open ∧ inner.operations = []) :
      Inv inner' tokens' (history ++ [entry]) :=
  h.of_touched (fun _ => False) nofun (Nat.le_of_eq hnext.symm) hlive (fun _ _ => by rw [hops])
    (fun id _ => htok id) hstart
    hdropp hfenc nofun nofun nofun

/-- A new operation is a fresh one. -/
theorem Inv.of_admit (hopen : inner.state = .open)
    (hops : inner'.operations = inner.enter.operations)
    (hnext : inner'.nextOperationId = inner.nextOperationId + 1)
    (hstart : ∀ id, entry ≠ (.markStarted id, .done))
    (hdropp : ∀ id, entry ≠ (.dropToken id, .done)) (hfenc : Fences entry → inner.operations = []) :
    Inv inner' (inner.nextOperationId :: tokens) (history ++ [entry]) := by
  have hget (id : ℕ) : dictGet id inner'.operations =
      if inner.nextOperationId = id then some .reservedBeforeWrite
        else dictGet id inner.operations := by
    rw [hops, enter, dictGet_dictSet]
  have hfresh (hid : Recorded history inner.nextOperationId ∨ Dropped history inner.nextOperationId)
    : False :=
    Nat.lt_irrefl _ (h.history_lt _ hid)
  refine h.of_touched (inner.nextOperationId = ·) ?_ (by omega) (fun _ => hopen ▸ trivial) ?_ ?_
    (fun id hid => absurd hid (hstart id)) (fun id hid => absurd hid (hdropp id)) (fun hf =>
      ⟨hopen, hfenc hf⟩) ?_ ?_ ?_
  · omega
  · exact fun id hne => by rw [hget, if_neg hne]
  · exact fun id hne hid => mem_of_ne_of_mem (Ne.symm hne) hid
  · rintro _ rfl _ _ hdrop
    simp only [dropped_concat, hdropp, or_false] at hdrop
    exact hfresh (.inr hdrop)
  · rintro _ rfl _ hrec
    simp only [recorded_concat, hstart, or_false] at hrec
    exact hfresh (.inl hrec)
  · rintro _ _ rfl _ hnone
    rw [hget, if_pos rfl] at hnone
    cases hnone

/-- A tracked operation moves to a phase after its write. -/
theorem Inv.of_phase {phase phase'} (hget : dictGet id inner.operations = some phase)
    (hwritt : phase' ≠ .reservedBeforeWrite) (hstart : ∀ j, entry = (.markStarted j, .done) →
      j = id)
    (hdropp : ∀ j, entry ≠ (.dropToken j, .done)) (hadm : ¬Admits entry) :
    Inv { inner with operations := dictSet id phase' inner.operations } tokens
      (history ++ [entry]) := by
  refine h.of_touched (· = id) ?_ (Nat.le_refl _) (fun hl => hl) ?_ (fun _ _ hj => hj) hstart
    (fun j hj => absurd hj (hdropp j)) (fun hf => absurd hf.admits hadm) ?_ ?_ ?_
  · rintro _ rfl
    exact h.operations_lt _ phase hget
  · exact fun j hne => by rw [dictGet_dictSet, if_neg (Ne.symm hne)]
  · rintro _ rfl _ _ hdrop
    simp only [dropped_concat, hdropp, or_false] at hdrop
    exact h.tracked _ phase hget hdrop
  all_goals
    simp_all [dictGet_dictSet]

/-- An operation is taken out: it is completed, or has not written while the tracker is live. -/
theorem Inv.of_erase (hlt : id < inner.nextOperationId)
    (hstart : ∀ j, entry ≠ (.markStarted j, .done))
    (hdropp : ∀ j, entry = (.dropToken j, .done) → j = id) (hadm : ¬Admits entry)
    (hsettl : inner.state.Live → Recorded history id →
      CompletedSince (history ++ [entry]) id ∧ ¬Dropped (history ++ [entry]) id) :
    Inv { inner with operations := dictErase id inner.operations } (tokens.filter (· ≠ id))
      (history ++ [entry]) := by
  refine h.of_touched (· = id) ?_ (Nat.le_refl _) (fun hl => hl) ?_ (fun j _ hj =>
    (mem_filter.mp hj).1)
    (fun j hj => absurd hj (hstart j)) hdropp (fun hf => absurd hf.admits hadm) ?_ ?_ ?_
  · rintro _ rfl
    exact hlt
  · exact fun j hne => by rw [dictGet_dictErase, if_neg (Ne.symm hne)]
  · rintro _ rfl _ hphase
    rw [dictGet_dictErase, if_pos rfl] at hphase
    cases hphase
  · rintro _ rfl hphase
    rw [dictGet_dictErase, if_pos rfl] at hphase
    cases hphase
  · rintro hl _ rfl hrec _
    simp only [recorded_concat, hstart, or_false] at hrec
    obtain ⟨hcompl, hnot⟩ := hsettl hl hrec
    exact ⟨hcompl, hnot, by simp⟩

/-- **Every move keeps the invariant.** -/
theorem Inv.move (hmove : Move inner tokens entry inner' tokens') :
    Inv inner' tokens' (history ++ [entry]) := by
  cases hmove with
  | idle hquiet htok =>
    exact h.of_same rfl rfl (fun hl => hl) htok hquiet.1 hquiet.2.1 fun hf =>
      absurd hf.admits hquiet.2.2
  | reserve hopen => exact h.of_admit hopen rfl rfl nofun nofun nofun
  | fence hopen hempty =>
    exact h.of_same rfl rfl (fun _ => hopen ▸ trivial) (fun _ hj => hj) nofun nofun
      fun _ => ⟨hopen, hempty⟩
  | reserveAndFence hopen hempty => exact h.of_admit hopen rfl rfl nofun nofun fun _ => hempty
  | start hget =>
    refine h.of_phase hget nofun ?_ nofun nofun
    rintro j ⟨⟩
    rfl
  | finish hget _ => exact h.of_phase hget nofun nofun nofun nofun
  | @complete id phase hget =>
    refine h.of_erase (h.operations_lt id phase hget) nofun nofun nofun ?_
    intro _ _
    refine ⟨completedSince_complete, ?_⟩
    rw [dropped_concat]
    exact not_or_intro (h.tracked id phase hget) nofun
  | @discard _ id hid hentry hphase =>
    -- a live tracker has no recorded write of an operation that is not tracked and keeps its token
    have hunrec (hl : inner.state.Live) (hrec : Recorded history id) : False := by
      cases hget : dictGet id inner.operations with
      | none => exact (h.settled hl id hrec hget).2.2 hid
      | some phase =>
        obtain rfl := hphase hl phase hget
        exact h.unwritten id hget hrec
    have hsettl (hl : inner.state.Live) (hrec : Recorded history id) :
        CompletedSince (history ++ [entry]) id ∧ ¬Dropped (history ++ [entry]) id :=
      (hunrec hl hrec).elim
    rcases hentry with rfl | ⟨hstart, hdropp, hadm⟩
    · refine h.of_erase (h.tokens_lt id hid) nofun ?_ nofun hsettl
      rintro j ⟨⟩
      rfl
    · exact h.of_erase (h.tokens_lt id hid) hstart (fun j hj => absurd hj (hdropp j)) hadm hsettl
  | shut hdead _ htok hdropp hstart hadm =>
    constructor
    case operations_lt => exact nofun
    case tokens_lt => exact fun j hj => h.tokens_lt j (htok j hj)
    case history_lt =>
      intro j hj
      rw [recorded_concat, dropped_concat] at hj
      rcases hj with (hj | hj) | (hj | hj)
      · exact h.history_lt j (.inl hj)
      · exact absurd hj (hstart j)
      · exact h.history_lt j (.inr hj)
      · exact h.tokens_lt j (hdropp j hj)
    case tracked => exact nofun
    case unwritten => exact nofun
    case settled => exact fun hl => absurd hl hdead
    case fences => exact h.fences_concat fun hf => absurd hf.admits hadm
  | reopen hfenced hquiet =>
    exact h.of_same rfl rfl (fun _ => hfenced ▸ trivial) (fun _ hj => hj) hquiet.1 hquiet.2.1
      fun hf => absurd hf.admits hquiet.2.2

end Invariant

/-! ### The closing states -/

/-- What a later state may be: not parkable for good, and never live again. -/
theorem Move.closing {inner inner'} {tokens tokens'} {entry}
    (hmove : Move inner tokens entry inner' tokens') :
      (inner.state = .notParkable → inner'.state = .notParkable) ∧
      (¬inner.state.Live → ¬inner'.state.Live ∧ ¬Admits entry) := by
  cases hmove with
  | idle hquiet _ => exact ⟨fun hs => hs, fun hs => ⟨hs, hquiet.2.2⟩⟩
  | reserve hopen => simp [hopen, TrackerState.Live]
  | fence hopen _ => simp [hopen, TrackerState.Live]
  | reserveAndFence hopen _ => simp [hopen, TrackerState.Live]
  | start | finish | complete => exact ⟨fun hs => hs, fun hs => ⟨hs, nofun⟩⟩
  | discard _ hentry _ =>
    refine ⟨fun hs => hs, fun hs => ⟨hs, ?_⟩⟩
    rcases hentry with rfl | hquiet
    · exact nofun
    · exact hquiet.2.2
  | shut hdead hpark _ _ _ hadm => exact ⟨hpark, fun _ => ⟨hdead, hadm⟩⟩
  | reopen hfenced _ => simp [hfenced, TrackerState.Live]

theorem TrackerState.not_live {state : TrackerState} : ¬state.Live ↔ state = .notParkable ∨
    state = .closed := by
  cases state <;> simp [Live]

/-- A closing tracker admits nothing, however it goes on. -/
theorem closing_run (hclos : ¬w.inner.state.Live) {calls}
    (hrun : runEvents World.step w calls = some w') :
    (w.inner.state = .notParkable → w'.inner.state = .notParkable) ∧
      ∃ later, w'.history = w.history ++ later ∧ ∀ entry ∈ later, ¬Admits entry := by
  have hinv := runEvents_invariant (fun v : World => ¬v.inner.state.Live ∧
    (w.inner.state = .notParkable → v.inner.state = .notParkable) ∧
      ∃ later, v.history = w.history ++ later ∧ ∀ entry ∈ later, ¬Admits entry) ?_
      ⟨hclos, fun hs => hs, [], by simp, by simp⟩ hrun
  · exact hinv.2
  · rintro v call v' ⟨hlive, hpark, later, hlater, hadm⟩ hstep
    obtain ⟨outcome, hhist, hmove⟩ := step_move hstep
    obtain ⟨hstays, hdead⟩ := hmove.closing
    refine ⟨(hdead hlive).1, fun hs => hstays (hpark hs), later ++ [(call, outcome)], ?_, ?_⟩
    · rw [hhist, hlater, append_assoc]
    · exact forall_mem_append.mpr ⟨hadm, forall_mem_singleton.mpr (hdead hlive).2⟩

/-- **A parked connection has no uncertain guest write.**  In every run, wherever a fence was
raised, every operation that had recorded a possible guest write had been completed since, and its
token was not dropped.  From a tracker that is not parkable or closed, no operation is admitted and
no fence is raised, and one that is not parkable stays so. -/
theorem fence_after_completion (calls : List Call) (w : World)
    (hrun : runEvents World.step World.init calls = some w) :
    (∀ before entry after, w.history = before ++ entry :: after → Fences entry →
      ∀ id, Recorded before id → CompletedSince before id ∧ ¬Dropped before id) ∧
    ∀ (more : List Call) (w' : World), runEvents World.step w more = some w' →
      (w.inner.state = .notParkable → w'.inner.state = .notParkable) ∧
      (w.inner.state = .notParkable ∨ w.inner.state = .closed →
        ∃ later, w'.history = w.history ++ later ∧ ∀ entry ∈ later, ¬Admits entry) := by
  have hinv : Inv w.inner w.tokens w.history := by
    refine runEvents_invariant (fun w : World => Inv w.inner w.tokens w.history) ?_ inv_init hrun
    intro v call v' h hstep
    obtain ⟨outcome, hhist, hmove⟩ := step_move hstep
    rw [hhist]
    exact h.move hmove
  refine ⟨hinv.fences, ?_⟩
  intro more w' hmore
  constructor
  · intro hstate
    exact (closing_run (by simp [hstate, TrackerState.Live]) hmore).1 hstate
  · intro hstate
    exact (closing_run (TrackerState.not_live.mpr hstate) hmore).2

/-- An operation writes and is completed before the fence; the next one writes and is dropped. -/
def parkedCalls : List Call :=
  [.reserve, .reserve, .markStarted 1, .tryFence, .markCompleted 1, .complete 1, .dropToken 2,
    .tryFence,
    .reserve, .dropFence 1, .reserve, .markStarted 3, .dropToken 3, .tryFence, .markClosed,
      .reserve]

theorem fence_after_completion_parked : ∃ w, runEvents World.step World.init parkedCalls = some w ∧
    (.tryFence, .fenced 1) ∈ w.history ∧ w.inner.state = .notParkable ∧
    ∀ more w', runEvents World.step w more = some w' → w'.inner.state = .notParkable := by
  refine exists_run (fun w => (.tryFence, .fenced 1) ∈ w.history ∧
    w.inner.state = .notParkable) (by decide +kernel) ?_
  intro w hw ⟨hfenced, hstate⟩
  refine ⟨hfenced, hstate, ?_⟩
  intro more w' hmore
  exact ((fence_after_completion parkedCalls w hw).2 more w' hmore).1 hstate

end Okou.GuestControl.OperationTracker
