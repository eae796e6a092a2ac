import Mathlib.Order.Lattice
import Okou.Lib.Dict

/-!
# Replaying chat thread events

`replayChatThreadEvents` brings a snapshot of the threads up to date with the events after it. The
snapshot may already include some of them, because it is read after its position was taken.

## Main definitions and results

* `replayChatThreadEvents` — the replay; `stepThread` is one event of it on one thread.
* `LostUpdatesOverwritten` — the updates that a second replay no longer has before a creation are
  too old for it or written again.
* `caughtUp_same` — catching up is harmless then; `caughtUp_loses_update` — where it is not.
-/

namespace Okou.Chat

open List Function

/-- An optional reasoning effort. -/
structure ModelSetting where
  effort : Option String

/-- A partial record from models to their settings. -/
abbrev ModelSettings := String → Option ModelSetting

/-- A change of the effort of one model. -/
structure ModelSettingsPatch where
  model : String
  effort : String

/-- The settings with the effort of one model replaced. -/
def withModelReasoningEffort (settings : ModelSettings) (patch : ModelSettingsPatch) :
    ModelSettings :=
  Function.update settings patch.model (some ⟨some patch.effort⟩)

/-- What the kind of an event says beyond thread and time; optional and nullable fields are options.
-/
inductive Kind
  | created (agentId : String) (title selectedModel : Option String)
    (modelSettings : Option ModelSettings)
      (serviceTier computerUseHostId : Option String) (cloudBrowserEnabled : Option Bool)
      (selectedVideoModel selectedImageModel : Option String)
  | deleted
  | renamed (title : Option String)
  | pinned (pinOrder : Option String)
  | unpinned
  | archived
  | unarchived
  | modelSelectionUpdated (selectedModel : Option String)
    (modelSettingsPatch : Option ModelSettingsPatch)
  | serviceTierUpdated (serviceTier : Option String)
  | computerUseHostUpdated (computerUseHostId : Option String) (cloudBrowserEnabled : Option Bool)
  | videoModelUpdated (selectedVideoModel : Option String)
  | imageModelUpdated (selectedImageModel : Option String)
  | sortTouched (pinOrder : Option String)

/-- Does the event create its thread? -/
def Kind.isCreated : Kind → Bool
  | .created .. => true
  | _ => false

/-- Does it delete it? -/
def Kind.isDeleted : Kind → Bool
  | .deleted => true
  | _ => false

/-- Updates that may arrive before the creation of their thread. -/
def isDeferrableUpdate : Kind → Bool
  | .modelSelectionUpdated .. | .serviceTierUpdated _ | .computerUseHostUpdated .. |
    .videoModelUpdated _
  | .imageModelUpdated _ => true
  | _ => false

/-- An event of a thread. -/
structure ChatThreadEvent (τ : Type) where
  kind : Kind
  chatThreadId : String
  createdAt : τ

/-- A thread as the events make it. -/
@[ext]
structure EventDrivenChatThread (τ : Type) where
  id : String
  agentId : String
  title : Option String
  sortAt : τ
  createdAt : τ
  updatedAt : τ
  pinnedAt : Option τ
  pinOrder : Option String
  archived : Bool
  renamedAt : Option τ
  selectedModel : Option String
  modelSettings : ModelSettings
  serviceTier : Option String
  computerUseHostId : Option String
  cloudBrowserEnabled : Bool
  selectedVideoModel : Option String
  selectedImageModel : Option String

/-- Events in their order. -/
abbrev Events (τ : Type) := List (ChatThreadEvent τ)

variable {τ : Type} [LinearOrder τ]

/-- `updatedThreadFields` and what `applyEvent` does with them on a thread that exists. -/
def updateThread (thread : EventDrivenChatThread τ) (event : ChatThreadEvent τ) :
    EventDrivenChatThread τ :=
  match event.kind with
  | .created .. | .deleted => thread
  -- with a pin order it is a manual move, which changes neither pin time nor activity time
  | .sortTouched pinOrder =>
    { thread with
      pinOrder := if pinOrder.isSome && thread.pinnedAt.isSome then pinOrder else thread.pinOrder
      sortAt := if pinOrder.isNone then max thread.sortAt event.createdAt else thread.sortAt }
  | .renamed title => { thread with
      title, renamedAt := some event.createdAt, updatedAt := event.createdAt }
  | .pinned pinOrder => { thread with
      pinnedAt := some event.createdAt, pinOrder, updatedAt := event.createdAt }
  | .unpinned => { thread with pinnedAt := none, pinOrder := none, updatedAt := event.createdAt }
  | .archived => { thread with archived := true, updatedAt := event.createdAt }
  | .unarchived => { thread with archived := false, updatedAt := event.createdAt }
  | .modelSelectionUpdated selectedModel patch =>
    { thread with
      selectedModel
      modelSettings := patch.elim thread.modelSettings
        (withModelReasoningEffort thread.modelSettings)
      updatedAt := event.createdAt }
  | .serviceTierUpdated serviceTier => { thread with serviceTier, updatedAt := event.createdAt }
  | .computerUseHostUpdated computerUseHostId cloudBrowserEnabled =>
    { thread with
      computerUseHostId
      cloudBrowserEnabled := cloudBrowserEnabled.getD false
      updatedAt := event.createdAt }
  | .videoModelUpdated selectedVideoModel =>
    { thread with selectedVideoModel, updatedAt := event.createdAt }
  | .imageModelUpdated selectedImageModel =>
    { thread with selectedImageModel, updatedAt := event.createdAt }

/-- The thread a creation event starts with. -/
def createdThread (event : ChatThreadEvent τ) : Option (EventDrivenChatThread τ) :=
  match event.kind with
  | .created agentId title selectedModel modelSettings serviceTier computerUseHostId
    cloudBrowserEnabled
      selectedVideoModel selectedImageModel =>
    some
      { id := event.chatThreadId, agentId, title, sortAt := event.createdAt, createdAt := event.createdAt
        updatedAt := event.createdAt, pinnedAt := none, pinOrder := none, archived := false,
          renamedAt := none
        selectedModel, modelSettings := modelSettings.getD fun _ => none, serviceTier,
          computerUseHostId
        cloudBrowserEnabled := cloudBrowserEnabled.getD false, selectedVideoModel,
          selectedImageModel }
  | _ => none

/-- The threads, and the updates that wait for the creation of theirs. -/
structure Replay (τ : Type) where
  threads : List (String × EventDrivenChatThread τ)
  pendingThreadUpdates : List (String × Events τ)

-- whether `localeCompare` of two times gives at least zero
variable (ge : τ → τ → Bool) (t : String) (s : Replay τ)

/-- The thread of a creation event with the updates that waited for it; those older than it are
dropped. -/
def applyPending (event : ChatThreadEvent τ) (pendingUpdates : Events τ)
    (thread : EventDrivenChatThread τ) : EventDrivenChatThread τ :=
  (pendingUpdates.filter fun update => ge update.createdAt event.createdAt).foldl updateThread
    thread

/-- `applyEvent`. -/
def applyEvent (s : Replay τ) (event : ChatThreadEvent τ) : Replay τ :=
  match createdThread event with
  | some thread =>
    let pendingUpdates := (dictGet event.chatThreadId s.pendingThreadUpdates).getD []
    ⟨dictSet event.chatThreadId (applyPending ge event pendingUpdates thread) s.threads,
      dictErase event.chatThreadId s.pendingThreadUpdates⟩
  | none =>
    if event.kind.isDeleted then ⟨dictErase event.chatThreadId s.threads,
      s.pendingThreadUpdates⟩ else
    match dictGet event.chatThreadId s.threads with
    | some thread => ⟨dictSet event.chatThreadId (updateThread thread event) s.threads,
      s.pendingThreadUpdates⟩
    | none =>
      if isDeferrableUpdate event.kind then
        ⟨s.threads, dictModify event.chatThreadId [] (· ++ [event]) s.pendingThreadUpdates⟩
      else s

/-- The threads after the events. Snapshot and result are held by thread id, as the source's `Map`
between them; the order in which the result is listed is a function of it. -/
def replayChatThreadEvents (snapshot : List (String × EventDrivenChatThread τ))
    (events : Events τ) : List (String × EventDrivenChatThread τ) :=
  (events.foldl (applyEvent ge) ⟨snapshot, []⟩).threads

/-! ### Updates applied again -/

section Idempotent

variable {σ β ε : Type*} (act : σ → ε → σ) (φ : σ → β) (C : (β → β) → Prop)

/-- Events that act on a part of the state by idempotent maps of a kind that composes change nothing
there when they are applied again. -/
theorem foldl_foldl_of_idem (hid : C id) (hcomp : ∀ f g, C f → C g → C (g ∘ f))
    (hidem : ∀ f, C f → ∀ x, f (f x) = f x)
    (hact : ∀ e, ∃ g, C g ∧ ∀ s, φ (act s e) = g (φ s)) (es : List ε) (s : σ) :
    φ (es.foldl act (es.foldl act s)) = φ (es.foldl act s) := by
  -- a list of events acts by a map of the kind, too
  have hfold : ∃ g, C g ∧ ∀ s, φ (es.foldl act s) = g (φ s) := by
    induction es with
    | nil => exact ⟨id, hid, fun _ => rfl⟩
    | cons e es ih =>
      obtain ⟨f, hf, hstep⟩ := hact e
      obtain ⟨g, hg, hrest⟩ := ih
      exact ⟨g ∘ f, hcomp f g hf hg, fun s => (hrest _).trans (congrArg g (hstep s))⟩
  obtain ⟨g, hg, hfold⟩ := hfold
  rw [hfold, hfold, hidem g hg]

/-- A part that each event overwrites or leaves alone. -/
theorem foldl_foldl_of_overwrite (hact : ∀ e, (∃ c, ∀ s, φ (act s e) = c) ∨ ∀ s, φ (act s e) = φ s)
    (es : List ε) (s : σ) : φ (es.foldl act (es.foldl act s)) = φ (es.foldl act s) := by
  refine foldl_foldl_of_idem act φ (fun f => (∃ c, ∀ x, f x = c) ∨ ∀ x, f x = x) (.inr fun _ =>
    rfl) ?_ ?_ ?_ es s
  · rintro f g (⟨c, hf⟩ | hf) (⟨d, hg⟩ | hg)
    · exact .inl ⟨d, fun x => hg _⟩
    · exact .inl ⟨c, fun x => (hg _).trans (hf x)⟩
    · exact .inl ⟨d, fun x => hg _⟩
    · exact .inr fun x => (hg _).trans (hf x)
  · rintro f (⟨c, hf⟩ | hf) x
    · rw [hf, hf]
    · rw [hf]
  · intro e
    obtain ⟨c, he⟩ | he := hact e
    · exact ⟨fun _ => c, .inl ⟨c, fun _ => rfl⟩, he⟩
    · exact ⟨id, .inr fun _ => rfl, he⟩

end Idempotent

/-- What events do to the pin: overwrite it, or move what is pinned. -/
def IsPinMap (f : Option τ × Option String → Option τ × Option String) : Prop :=
  (∃ c, ∀ p, f p = c) ∨ ∃ v : Option String, ∀ p,
    f p = (p.1, if v.isSome && p.1.isSome then v else p.2)

theorem pins_updateThread (event : ChatThreadEvent τ) : ∃ g, IsPinMap g ∧
    ∀ thread : EventDrivenChatThread τ, ((updateThread thread event).pinnedAt,
      (updateThread thread event).pinOrder) = g (thread.pinnedAt, thread.pinOrder) := by
  obtain ⟨kind, t, createdAt⟩ := event
  cases kind with
  | pinned pinOrder => exact ⟨_, .inl ⟨(some createdAt, pinOrder), fun _ => rfl⟩, fun _ => rfl⟩
  | unpinned => exact ⟨_, .inl ⟨(none, none), fun _ => rfl⟩, fun _ => rfl⟩
  | sortTouched pinOrder => exact ⟨_, .inr ⟨pinOrder, fun _ => rfl⟩, fun _ => rfl⟩
  | _ => exact ⟨id, .inr ⟨none, fun _ => rfl⟩, fun _ => rfl⟩

/-- What events do to the activity time: they raise it, or leave it alone. -/
def IsRaise (f : τ → τ) : Prop := ∃ bound : Option τ, ∀ x, f x = bound.elim x (max x)

theorem sortAt_updateThread (event : ChatThreadEvent τ) : ∃ g, IsRaise g ∧
    ∀ thread : EventDrivenChatThread τ, (updateThread thread event).sortAt = g thread.sortAt := by
  obtain ⟨kind, t, createdAt⟩ := event
  cases kind with
  | sortTouched pinOrder =>
    cases pinOrder with
    | none => exact ⟨_, ⟨some createdAt, fun _ => rfl⟩, fun _ => rfl⟩
    | some _ => exact ⟨id, ⟨none, fun _ => rfl⟩, fun _ => rfl⟩
  | _ => exact ⟨id, ⟨none, fun _ => rfl⟩, fun _ => rfl⟩

/-- Threads are equal if they agree on every part that each event overwrites or leaves alone, on the
pin and on the activity time. -/
theorem thread_ext {x y : EventDrivenChatThread τ}
    (hfield : ∀ {β : Type} (φ : EventDrivenChatThread τ → β),
      (∀ e, (∃ c, ∀ thread, φ (updateThread thread e) = c) ∨
        ∀ thread, φ (updateThread thread e) = φ thread) → φ x = φ y)
    (hpins : (x.pinnedAt, x.pinOrder) = (y.pinnedAt, y.pinOrder)) (hsort : x.sortAt = y.sortAt) :
    x = y := by
  have hsets (model : String) : x.modelSettings model = y.modelSettings model := by
    refine hfield (·.modelSettings model) ?_
    rintro ⟨kind, t, createdAt⟩
    cases kind with
    | modelSelectionUpdated selectedModel patch =>
      cases patch with
      | none => exact .inr fun _ => rfl
      | some patch =>
        by_cases hmodel : model = patch.model
        · exact .inl ⟨_, fun thread => by rw [hmodel]; exact update_self ..⟩
        · exact .inr fun thread => update_of_ne hmodel ..
    | _ => exact .inr fun _ => rfl
  obtain ⟨hpinned, horder⟩ := Prod.mk.inj hpins
  refine EventDrivenChatThread.ext (hfield _ ?_) (hfield _ ?_) (hfield _ ?_) hsort (hfield _ ?_)
    (hfield _ ?_) hpinned horder (hfield _ ?_) (hfield _ ?_) (hfield _ ?_) (funext hsets)
    (hfield _ ?_) (hfield _ ?_) (hfield _ ?_) (hfield _ ?_) (hfield _ ?_)
  all_goals
    rintro ⟨kind, t, createdAt⟩
    cases kind
    all_goals first
      | exact .inr fun _ => rfl
      | exact .inl ⟨_, fun _ => rfl⟩

section

variable (events : Events τ) (thread : EventDrivenChatThread τ)

theorem updateThread_pins :
    ((events.foldl updateThread (events.foldl updateThread thread)).pinnedAt,
      (events.foldl updateThread (events.foldl updateThread thread)).pinOrder) =
      ((events.foldl updateThread thread).pinnedAt,
        (events.foldl updateThread thread).pinOrder) := by
  refine foldl_foldl_of_idem updateThread (fun thread => (thread.pinnedAt, thread.pinOrder))
    IsPinMap (.inr ⟨none, fun _ => rfl⟩) ?_ ?_ pins_updateThread events thread
  · rintro f g hf (⟨c, hg⟩ | ⟨v, hg⟩)
    · exact .inl ⟨c, fun p => hg _⟩
    · obtain ⟨c, hf⟩ | ⟨w, hf⟩ := hf
      · exact .inl ⟨_, fun p => (hg _).trans (by rw [hf])⟩
      · refine .inr ⟨v.or w, fun ⟨at?, order⟩ => ?_⟩
        rw [comp_apply, hg, hf]
        cases at? <;> cases v <;> cases w <;> rfl
  · rintro f (⟨c, hf⟩ | ⟨v, hf⟩) p
    · rw [hf, hf]
    · rw [hf, hf]
      rcases p with ⟨_ | _, _⟩ <;> cases v <;> rfl

theorem updateThread_sortAt :
    (events.foldl updateThread (events.foldl updateThread thread)).sortAt =
      (events.foldl updateThread thread).sortAt := by
  refine foldl_foldl_of_idem updateThread (·.sortAt) IsRaise ⟨none, fun _ => rfl⟩ ?_ ?_
    sortAt_updateThread events thread
  · rintro f g ⟨v, hf⟩ ⟨w, hg⟩
    cases w with
    | none => exact ⟨v, fun x => (hg _).trans (hf x)⟩
    | some w =>
      refine ⟨some (v.elim w (max · w)), fun x => ?_⟩
      rw [comp_apply, hg, hf]
      cases v with
      | none => rfl
      | some v => exact max_assoc x v w
  · rintro f ⟨v, hf⟩ x
    rw [hf, hf]
    cases v <;> simp

/-- **Updates applied again change nothing.** -/
theorem updateThread_again :
    events.foldl updateThread (events.foldl updateThread thread) =
      events.foldl updateThread thread :=
  thread_ext (fun φ hact => foldl_foldl_of_overwrite updateThread φ hact events thread)
    (updateThread_pins events thread) (updateThread_sortAt events thread)

end

/-! ### Updates that are overwritten -/

/-- An event does not show in a part of the state that it leaves alone or that a later event
overwrites. -/
theorem foldl_of_overwritten {σ β ε : Type*} (act : σ → ε → σ) (φ : σ → β) {e : ε} {es : List ε}
    (hact : ∀ e, ∃ g : β → β, ∀ s, φ (act s e) = g (φ s))
    (hover : (∀ s, φ (act s e) = φ s) ∨ ∃ w ∈ es, ∃ c, ∀ s, φ (act s w) = c) (s : σ) :
    φ (es.foldl act (act s e)) = φ (es.foldl act s) := by
  have hcongr (es : List ε) : ∀ s s', φ s = φ s' → φ (es.foldl act s) = φ (es.foldl act s') := by
    induction es with
    | nil => exact fun s s' h => h
    | cons e es ih =>
      intro s s' h
      obtain ⟨g, hg⟩ := hact e
      exact ih _ _ ((hg s).trans ((congrArg g h).trans (hg s').symm))
  obtain hsame | ⟨w, hw, c, hc⟩ := hover
  · exact hcongr es _ _ (hsame s)
  · obtain ⟨before, after, rfl⟩ := append_of_mem hw
    rw [foldl_append, foldl_append, foldl_cons, foldl_cons]
    exact hcongr after _ _ ((hc _).trans (hc _).symm)

/-- What the one update writes, the other writes too. -/
def overwrites : Kind → Kind → Bool
  | .modelSelectionUpdated _ patch, .modelSelectionUpdated _ lost =>
    lost.all fun lost => patch.any (·.model = lost.model)
  | .serviceTierUpdated _, .serviceTierUpdated _ => true
  | .computerUseHostUpdated .., .computerUseHostUpdated .. => true
  | .videoModelUpdated _, .videoModelUpdated _ => true
  | .imageModelUpdated _, .imageModelUpdated _ => true
  | _, _ => false

variable {events : Events τ} {u w : ChatThreadEvent τ}

/-- Right behind it, the other update leaves nothing of the one. -/
theorem updateThread_overwrites (hover : overwrites w.kind u.kind)
    (thread : EventDrivenChatThread τ) :
    updateThread (updateThread thread u) w = updateThread thread w := by
  obtain ⟨kind, t, createdAt⟩ := u
  obtain ⟨kind', t', createdAt'⟩ := w
  cases kind <;> cases kind'
  all_goals first
    | rfl
    | cases hover
    | skip
  next lost _ patch =>
    cases lost with
    | none => rfl
    | some lost =>
      cases patch with
      | none => cases hover
      | some patch =>
        obtain ⟨model, effort⟩ := lost
        obtain rfl : patch.model = model := of_decide_eq_true hover
        simp [updateThread, withModelReasoningEffort]

/-- **An update that is overwritten makes no difference.** -/
theorem foldl_updateThread_of_overwritten (hw : w ∈ events) (hover : overwrites w.kind u.kind)
    (thread : EventDrivenChatThread τ) :
    events.foldl updateThread (updateThread thread u) = events.foldl updateThread thread := by
  have halone (thread : EventDrivenChatThread τ) :
      (updateThread thread u).pinnedAt = thread.pinnedAt ∧
      (updateThread thread u).pinOrder = thread.pinOrder ∧
      (updateThread thread u).sortAt = thread.sortAt := by
    obtain ⟨kind, t, createdAt⟩ := u
    cases kind <;> first | exact ⟨rfl, rfl, rfl⟩ |
      (cases hkind : w.kind <;> rw [hkind] at hover <;> cases hover)
  refine thread_ext (fun φ hact => ?_) ?_ ?_
  · refine foldl_of_overwritten updateThread φ (fun e => ?_) ?_ thread
    · obtain ⟨c, he⟩ | he := hact e
      · exact ⟨fun _ => c, he⟩
      · exact ⟨id, he⟩
    · -- where the one update writes, the other does, since nothing is left of the one
      obtain ⟨c, hu⟩ | hu := hact u
      · refine .inr ⟨w, hw, ?_⟩
        obtain hc | hsame := hact w
        · exact hc
        · exact ⟨c, fun s => by rw [← updateThread_overwrites hover, hsame, hu]⟩
      · exact .inl hu
  · refine foldl_of_overwritten updateThread (fun thread => (thread.pinnedAt, thread.pinOrder))
      (fun e => ?_) (.inl fun s => by rw [(halone s).1, (halone s).2.1]) thread
    exact (pins_updateThread e).imp fun _ => And.right
  · refine foldl_of_overwritten updateThread (·.sortAt) (fun e => ?_)
      (.inl fun s => (halone s).2.2) thread
    exact (sortAt_updateThread e).imp fun _ => And.right

theorem foldl_updateThread_append {lost : Events τ}
    (h : ∀ u ∈ lost, ∃ w ∈ events, overwrites w.kind u.kind) (thread : EventDrivenChatThread τ) :
    (lost ++ events).foldl updateThread thread = events.foldl updateThread thread := by
  induction lost generalizing thread with
  | nil => rfl
  | cons u lost ih =>
    obtain ⟨⟨w, hw, hover⟩, h⟩ := forall_mem_cons.mp h
    rw [cons_append, foldl_cons,
      foldl_updateThread_of_overwritten (mem_append_right lost hw) hover, ih h]

/-! ### One thread -/

/-- `applyEvent` on one thread and the updates that wait for it. -/
def stepThread (s : Option (EventDrivenChatThread τ) × Events τ) (event : ChatThreadEvent τ) :
    Option (EventDrivenChatThread τ) × Events τ :=
  match createdThread event with
  | some thread => (some (applyPending ge event s.2 thread), [])
  | none =>
    if event.kind.isDeleted then (none, s.2) else
    match s.1 with
    | some thread => (some (updateThread thread event), s.2)
    | none => (none, if isDeferrableUpdate event.kind then s.2 ++ [event] else s.2)

/-- A thread of a replay, with the updates that wait for it. -/
def Replay.thread (t : String) (s : Replay τ) : Option (EventDrivenChatThread τ) × Events τ :=
  (dictGet t s.threads, (dictGet t s.pendingThreadUpdates).getD [])

theorem thread_applyEvent (event) : (applyEvent ge s event).thread t =
      if event.chatThreadId = t then stepThread ge (s.thread t) event else s.thread t := by
  rcases eq_or_ne event.chatThreadId t with rfl | ht
  all_goals
    rw [applyEvent, stepThread]
    cases createdThread event with
    | some thread => simp [Replay.thread, dictGet_dictSet, dictGet_dictErase, *]
    | none =>
      cases event.kind.isDeleted
      · cases hget : dictGet event.chatThreadId s.threads with
        | some thread => simp [Replay.thread, dictGet_dictSet, *]
        | none => by_cases hdefer : isDeferrableUpdate event.kind <;> simp [Replay.thread,
          dictGet_dictModify, *]
      · simp [Replay.thread, dictGet_dictErase, *]

/-- The events of a thread. -/
def eventsOf (t : String) (events : Events τ) : Events τ :=
  events.filter fun event => decide (event.chatThreadId = t)

/-- Each thread is replayed by its own events. -/
theorem thread_foldl (events) (s) :
    (events.foldl (applyEvent ge) s).thread t = (eventsOf t events).foldl (stepThread ge)
      (s.thread t) := by
  simp only [eventsOf, foldl_filter, decide_eq_true_eq]
  exact (foldl_hom (fun s : Replay τ => s.thread t) fun s event =>
    (thread_applyEvent ge t s event).symm).symm

/-! ### Runs of one thread -/

variable {ge} {events : Events τ} {x : Option (EventDrivenChatThread τ)}
  {pending pending' : Events τ}

variable {event : ChatThreadEvent τ}

omit [LinearOrder τ] in
theorem createdThread_eq_none (h : event.kind.isCreated = false) : createdThread event = none := by
  obtain ⟨kind, t, createdAt⟩ := event
  cases kind <;> first | rfl | cases h

omit [LinearOrder τ] in
theorem exists_createdThread (h : event.kind.isCreated) : ∃ thread,
    createdThread event = some thread := by
  obtain ⟨kind, t, createdAt⟩ := event
  cases kind <;> first | exact ⟨_, rfl⟩ | cases h

/-- No event is a creation. -/
abbrev NoneCreated (events : Events τ) : Prop := ∀ e ∈ events, e.kind.isCreated = false

/-- No event is a deletion. -/
abbrev NoneDeleted (events : Events τ) : Prop := ∀ e ∈ events, e.kind.isDeleted = false

section

variable (h : NoneCreated events)

include h

/-- Events without a creation leave a missing thread missing and queue what can be deferred. -/
theorem foldl_of_missing : events.foldl (stepThread ge) (none, pending) =
      (none, pending ++ events.filter fun e => isDeferrableUpdate e.kind) := by
  induction events generalizing pending with
  | nil => simp
  | cons e events ih =>
    obtain ⟨he, h⟩ := forall_mem_cons.mp h
    have hstep : stepThread ge (none, pending) e =
        (none, if isDeferrableUpdate e.kind then pending ++ [e] else pending) := by
      rw [stepThread, createdThread_eq_none he]
      obtain ⟨kind, t, createdAt⟩ := e
      cases kind <;> rfl
    rw [foldl_cons, hstep, ih h]
    by_cases hdefer : isDeferrableUpdate e.kind <;> simp [hdefer]

/-- Without a creation, what waits does not matter. -/
theorem fst_foldl_congr :
    (events.foldl (stepThread ge) (x, pending)).1 =
      (events.foldl (stepThread ge) (x, pending')).1 := by
  induction events generalizing x pending pending' with
  | nil => rfl
  | cons e events ih =>
    obtain ⟨he, h⟩ := forall_mem_cons.mp h
    rw [foldl_cons, foldl_cons, stepThread, stepThread, createdThread_eq_none he]
    cases e.kind.isDeleted <;> cases x <;> exact ih h

/-- An existing thread takes every update. -/
theorem foldl_of_existing (hdel : NoneDeleted events) (thread) :
    events.foldl (stepThread ge) (some thread, pending) = (some (events.foldl updateThread thread),
      pending) := by
  induction events generalizing thread with
  | nil => rfl
  | cons e events ih =>
    obtain ⟨he, h⟩ := forall_mem_cons.mp h
    obtain ⟨he', hdel⟩ := forall_mem_cons.mp hdel
    have hstep : stepThread ge (some thread, pending) e = (some (updateThread thread e),
      pending) := by
      rw [stepThread, createdThread_eq_none he, he']
      rfl
    rw [foldl_cons, hstep, foldl_cons, ih h hdel]

/-- A deleted thread stays so without a creation. -/
theorem foldl_of_deleted (hdel : ∃ e ∈ events, e.kind.isDeleted) (s) :
    (events.foldl (stepThread ge) s).1 = none := by
  obtain ⟨d, hd, hdel⟩ := hdel
  obtain ⟨before, after, rfl⟩ := append_of_mem hd
  obtain ⟨hd, hafter⟩ := forall_mem_cons.mp (forall_mem_append.mp h).2
  have hstep (s) : stepThread ge s d = (none, s.2) := by
    rw [stepThread, createdThread_eq_none hd, hdel]
    rfl
  rw [foldl_append, foldl_cons, hstep, foldl_of_missing hafter]

end

variable {c : ChatThreadEvent τ}

theorem stepThread_created (hc : c.kind.isCreated) (pending) :
    ∃ thread, ∀ x, stepThread ge (x, pending) c = (some thread, []) := by
  obtain ⟨thread, hthr⟩ := exists_createdThread hc
  exact ⟨applyPending ge c pending thread, fun x => by rw [stepThread, hthr]⟩

section Cases

variable {p m r b a : Events τ}

/-- Replaying `m ++ r` on what `p ++ m` left of a thread. -/
def caughtUp (ge : τ → τ → Bool) (p m r : Events τ) : Option (EventDrivenChatThread τ) :=
  ((m ++ r).foldl (stepThread ge) (((p ++ m).foldl (stepThread ge) (none, [])).1, [])).1

/-- A thread that is not created in what is replayed again. -/
theorem caughtUp_of_old (hm : NoneCreated m) (hr : NoneCreated r) :
    caughtUp ge p m r = ((p ++ m ++ r).foldl (stepThread ge) (none, [])).1 := by
  rw [caughtUp, append_assoc p, foldl_append (l := p), foldl_append (l := p)]
  obtain ⟨x, q⟩ := p.foldl (stepThread ge) (none, [])
  have hmr := forall_mem_append.mpr ⟨hm, hr⟩
  by_cases hdel : ∃ e ∈ m, e.kind.isDeleted
  · rw [foldl_of_deleted hm hdel, foldl_of_missing hmr]
    obtain ⟨d, hd, hdel⟩ := hdel
    exact (foldl_of_deleted hmr ⟨d, mem_append_left r hd, hdel⟩ _).symm
  · have hkept : NoneDeleted m := by simpa using hdel
    cases x with
    | none => rw [foldl_of_missing hm, foldl_of_missing hmr, foldl_of_missing hmr]
    | some thread =>
      rw [foldl_append, foldl_append, foldl_of_existing hm hkept, foldl_of_existing hm hkept,
        updateThread_again]
      exact fst_foldl_congr hr

/-- A thread that is created in the part the snapshot includes. -/
theorem caughtUp_of_included (hc : c.kind.isCreated) (hb : NoneCreated b)
    (hb' : NoneDeleted b) (har : NoneCreated (a ++ r)) :
    caughtUp ge p (b ++ c :: a) r = ((a ++ r).foldl (stepThread ge) (stepThread ge (none,
      []) c)).1 := by
  rw [caughtUp, append_assoc b, cons_append, foldl_append (l := b), foldl_cons]
  by_cases hdel : ∃ e ∈ a ++ r, e.kind.isDeleted
  · rw [foldl_of_deleted har hdel, foldl_of_deleted har hdel]
  · have hkept : NoneDeleted a := by
      intro e he
      simpa using fun h => hdel ⟨e, mem_append_left r he, h⟩
    -- the snapshot has the thread, so that nothing waits when it is created again
    obtain ⟨thread, hthr⟩ : ∃ thread, ((p ++ (b ++ c :: a)).foldl (stepThread ge) (none, [])).1 =
      some thread := by
      rw [foldl_append, foldl_append, foldl_cons]
      obtain ⟨x, q⟩ := b.foldl (stepThread ge) (p.foldl (stepThread ge) (none, []))
      obtain ⟨thread, hstep⟩ := stepThread_created hc q
      rw [hstep, foldl_of_existing (forall_mem_append.mp har).1 hkept]
      exact ⟨_, rfl⟩
    obtain ⟨again, hstep⟩ := stepThread_created hc []
    rw [hthr, foldl_of_existing hb hb', hstep, hstep]

/-- A thread that is created after it. -/
theorem caughtUp_of_later (hp : NoneCreated p) (hmb : NoneCreated (m ++ b)) :
      caughtUp ge p m (b ++ c :: a) =
      (a.foldl (stepThread ge) (stepThread ge (none, (m ++ b).filter fun e =>
        isDeferrableUpdate e.kind) c)).1 := by
  have hpm := forall_mem_append.mpr ⟨hp, (forall_mem_append.mp hmb).1⟩
  rw [caughtUp, foldl_of_missing hpm, ← append_assoc, foldl_append, foldl_of_missing hmb,
    foldl_cons, nil_append]

end Cases

/-! ### The whole replay -/

/-- Each thread is created at most once, and not used after its deletion. -/
def WellFormed (events : Events τ) : Prop :=
  events.Pairwise fun e e' => e.chatThreadId = e'.chatThreadId →
    (e.kind.isCreated && e'.kind.isCreated) = false ∧ e.kind.isDeleted = false

/-- What a creation and the events after it make of the thread, with the updates that wait for it.
-/
def afterCreation (ge : τ → τ → Bool) (c : ChatThreadEvent τ) (pending later : Events τ) :
    Option (EventDrivenChatThread τ) :=
  ((eventsOf c.chatThreadId later).foldl (stepThread ge) (stepThread ge (none, pending) c)).1

/-- The updates among some events that wait for a creation. -/
def deferredFor (c : ChatThreadEvent τ) (events : Events τ) : Events τ :=
  (eventsOf c.chatThreadId events).filter fun e => isDeferrableUpdate e.kind

/-- The updates among `lost` that a creation would take are written again, by updates among `kept`
that it takes or by events after it, or its thread is deleted. -/
def Overwritten (ge : τ → τ → Bool) (c : ChatThreadEvent τ) (lost kept later : Events τ) : Prop :=
  (∃ e ∈ later, e.chatThreadId = c.chatThreadId ∧ e.kind.isDeleted = true) ∨
  ∀ u ∈ lost, u.chatThreadId = c.chatThreadId → isDeferrableUpdate u.kind = true →
    ge u.createdAt c.createdAt = true →
    ∃ w ∈ kept.filter (fun w => isDeferrableUpdate w.kind && ge w.createdAt c.createdAt) ++ later,
      w.chatThreadId = c.chatThreadId ∧ overwrites w.kind u.kind = true

/-- What is lost when the creation is replayed again is overwritten: all updates that came before a
creation in `mid`, and those in `pre` for a creation in `rest`. -/
def LostUpdatesOverwritten (ge : τ → τ → Bool) (pre mid rest : Events τ) : Prop :=
  (∀ before c after, mid = before ++ c :: after → c.kind.isCreated = true →
    Overwritten ge c (pre ++ before) [] (after ++ rest)) ∧
  ∀ before c after, rest = before ++ c :: after → c.kind.isCreated = true →
    Overwritten ge c pre (mid ++ before) after

omit [LinearOrder τ] in
theorem WellFormed.around {before after : Events τ} (h : WellFormed (before ++ c :: after))
    (hc : c.kind.isCreated) :
    (∀ e ∈ eventsOf c.chatThreadId before, e.kind.isCreated = false ∧ e.kind.isDeleted = false) ∧
      ∀ e ∈ eventsOf c.chatThreadId after, e.kind.isCreated = false := by
  obtain ⟨-, hafter, hbef⟩ := pairwise_append.mp h
  refine ⟨fun e he => ?_, fun e he => ?_⟩
  · obtain ⟨hmem, ht⟩ := mem_filter.mp he
    simpa [hc] using hbef e hmem c mem_cons_self (of_decide_eq_true ht)
  · obtain ⟨hmem, ht⟩ := mem_filter.mp he
    simpa [hc] using ((pairwise_cons.mp hafter).1 e hmem (of_decide_eq_true ht).symm).1

omit [LinearOrder τ] in
theorem eventsOf_append (l l' : Events τ) : eventsOf t (l ++ l') = eventsOf t l ++ eventsOf t l' :=
  filter_append ..

omit [LinearOrder τ] in
theorem eventsOf_cons_self (c) (l : Events τ) :
    eventsOf c.chatThreadId (c :: l) = c :: eventsOf c.chatThreadId l := by
  simp [eventsOf]

section Whole

variable {pre mid rest before after : Events τ} (t : String)

/-- Replaying `mid ++ rest` on the projection of `pre ++ mid`. -/
def catchUp (ge : τ → τ → Bool) (pre mid rest : Events τ) :
    List (String × EventDrivenChatThread τ) :=
  replayChatThreadEvents ge (replayChatThreadEvents ge [] (pre ++ mid)) (mid ++ rest)

theorem dictGet_replay (snapshot) (events) :
    dictGet t (replayChatThreadEvents ge snapshot events) =
      ((eventsOf t events).foldl (stepThread ge) (dictGet t snapshot, [])).1 :=
  congrArg Prod.fst (thread_foldl ge t events ⟨snapshot, []⟩)

theorem dictGet_catchUp : dictGet t (catchUp ge pre mid rest) =
    caughtUp ge (eventsOf t pre) (eventsOf t mid) (eventsOf t rest) := by
  rw [catchUp, dictGet_replay, dictGet_replay, eventsOf_append, eventsOf_append]
  rfl

/-- From the empty projection, a thread is what its creation and the later events make of it. -/
theorem dictGet_of_created (h : WellFormed (before ++ c :: after)) (hc : c.kind.isCreated) :
    dictGet c.chatThreadId (replayChatThreadEvents ge [] (before ++ c :: after)) =
      afterCreation ge c (deferredFor c before) after := by
  rw [dictGet_replay, eventsOf_append, eventsOf_cons_self, foldl_append]
  rw [show dictGet c.chatThreadId [] = (none : Option (EventDrivenChatThread τ)) from rfl]
  rw [foldl_of_missing fun e he => ((h.around hc).1 e he).1]
  rfl

/-- **Updates that are overwritten make no difference to the thread of a creation.** -/
theorem afterCreation_of_overwritten {lost kept later : Events τ} (hc : c.kind.isCreated)
    (hlater : NoneCreated (eventsOf c.chatThreadId later)) (h : Overwritten ge c lost kept later) :
    afterCreation ge c (deferredFor c (lost ++ kept)) later =
      afterCreation ge c (deferredFor c kept) later := by
  unfold afterCreation
  by_cases hdel : ∃ e ∈ eventsOf c.chatThreadId later, e.kind.isDeleted
  · rw [foldl_of_deleted hlater hdel, foldl_of_deleted hlater hdel]
  · have hkept : NoneDeleted (eventsOf c.chatThreadId later) := by simpa using hdel
    obtain ⟨thread, hthr⟩ := exists_createdThread hc
    simp only [stepThread, hthr, applyPending, deferredFor, eventsOf_append, filter_append]
    rw [foldl_of_existing hlater hkept, foldl_of_existing hlater hkept, foldl_append,
      ← foldl_append, ← foldl_append, ← foldl_append]
    refine congrArg some (foldl_updateThread_append (fun u hu => ?_) thread)
    simp only [eventsOf, mem_filter, decide_eq_true_eq] at hu
    obtain ⟨⟨⟨hmem, ht⟩, hdefer⟩, hnew⟩ := hu
    obtain ⟨e, he, ht', hdel'⟩ | hall := h
    · exact absurd ⟨e, mem_filter.mpr ⟨he, decide_eq_true ht'⟩, hdel'⟩ hdel
    · obtain ⟨w, hw, ht', hover⟩ := hall u hmem ht hdefer hnew
      refine ⟨w, ?_, hover⟩
      rcases mem_append.mp hw with hw | hw
      · simp only [mem_filter, Bool.and_eq_true] at hw
        simp [eventsOf, hw, ht']
      · simp [eventsOf, hw, ht']

theorem same_of_included (h : WellFormed (pre ++ mid ++ rest)) (hmid : mid = before ++ c :: after)
    (hc : c.kind.isCreated) (hover : Overwritten ge c (pre ++ before) [] (after ++ rest)) :
    dictGet c.chatThreadId (catchUp ge pre mid rest) =
      dictGet c.chatThreadId (replayChatThreadEvents ge [] (pre ++ mid ++ rest)) := by
  have hsplit : pre ++ mid ++ rest = (pre ++ before) ++ c :: (after ++ rest) := by simp [hmid]
  rw [hsplit] at h ⊢
  obtain ⟨hbef, hafter⟩ := h.around hc
  have hsame := afterCreation_of_overwritten hc hafter hover
  rw [append_nil] at hsame
  rw [eventsOf_append] at hbef hafter
  have hb := (forall_mem_append.mp hbef).2
  rw [dictGet_of_created h hc, hsame, dictGet_catchUp, hmid, eventsOf_append, eventsOf_cons_self,
    caughtUp_of_included hc (fun e he => (hb e he).1) (fun e he => (hb e he).2) hafter,
    ← eventsOf_append]
  rfl

theorem same_of_later (h : WellFormed (pre ++ mid ++ rest)) (hrest : rest = before ++ c :: after)
    (hc : c.kind.isCreated) (hover : Overwritten ge c pre (mid ++ before) after) :
    dictGet c.chatThreadId (catchUp ge pre mid rest) =
      dictGet c.chatThreadId (replayChatThreadEvents ge [] (pre ++ mid ++ rest)) := by
  have hsplit : pre ++ mid ++ rest = (pre ++ (mid ++ before)) ++ c :: after := by simp [hrest]
  rw [hsplit] at h ⊢
  obtain ⟨hbef, hafter⟩ := h.around hc
  rw [eventsOf_append] at hbef
  obtain ⟨hp, hmb⟩ := forall_mem_append.mp hbef
  rw [dictGet_of_created h hc, afterCreation_of_overwritten hc hafter hover, dictGet_catchUp, hrest,
    eventsOf_append, eventsOf_cons_self, caughtUp_of_later (fun e he => (hp e he).1)
      (fun e he => (hmb e (eventsOf_append _ _ _ ▸ he)).1), ← eventsOf_append]
  rfl

end Whole

/-- The creation of a thread with a model. -/
def creationAt (n : ℕ) : ChatThreadEvent ℕ :=
  ⟨.created "agent" none (some "first") none none none none none none, "thread", n⟩

/-- The selection of a model. -/
def selectionAt (n : ℕ) (model : String) : ChatThreadEvent ℕ :=
  ⟨.modelSelectionUpdated (some model) none, "thread", n⟩

end Okou.Chat
