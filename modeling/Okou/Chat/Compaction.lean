import Mathlib.Data.List.Sort
import Mathlib.Data.Prod.Lex
import Okou.Lib.Machine

/-!
# Compaction of the thread events

A compaction reads the position of a scope, then the threads page by page, newest message first, and
publishes the projection by a compare-and-set on the head that it read. The pages are separate
queries: between two of them the threads are written, and a message moves its thread to the front of
the order that the pages follow. The cursor between two pages is a `Date`, so that it has lost what
the time of the last thread has below a millisecond.

The scope is one user and org. The pages go over all threads of the user, of other orgs too. What is
proved is about every interleaving of the writes with the queries of any number of compactions and
prunes.

## Main results

* `published_covers` — a published projection has the threads that its head covers, once, in a run
  that `keepsUnread`; heads never go back, and pruned events are covered.
* `published_misses` — runs in which a published projection misses a thread.
-/

namespace Okou.Compaction

open List

/-! ### The rows -/

/-- A thread of the user. -/
structure Thread where
  id : ℕ
  agentId : Option String
  title : String
  /-- The time of the last message, in microseconds. -/
  lastMessageAt : ℕ
  pinnedAt : Option ℕ
  /-- The sequence number of the event that created the thread, in the scope of its org: no query
  reads it. -/
  createdSeqId : ℕ
deriving DecidableEq

/-- What the pages are ordered by. -/
def Thread.key (t : Thread) : ℕ ×ₗ ℕ := toLex (t.lastMessageAt, t.id)

/-- The cursor that is kept of the last thread of a page: a `Date` has milliseconds. -/
def Thread.cursor (t : Thread) : ℕ ×ₗ ℕ := toLex (t.lastMessageAt / 1000 * 1000, t.id)

/-- Is the thread under an agent of the org? -/
def Thread.listed (agentIds : List String) (t : Thread) : Bool := t.agentId.any (· ∈ agentIds)

/-- An event, which its sequence number identifies in the scope. -/
structure ThreadEvent where
  seqId : ℕ
  createdAt : ℕ
deriving DecidableEq

/-- An object key: the position and the digest, for which the projection itself stands. -/
abbrev ObjectKey := Option ℕ × List Thread

/-- The row of the published snapshot. -/
structure SnapshotHead where
  latestEventSeqId : Option ℕ
  objectKey : Option ObjectKey
  updatedAt : ℕ
deriving DecidableEq

/-- `head?.latestEventSeqId ?? 0`. -/
def position (head : Option SnapshotHead) : ℕ := (head.bind (·.latestEventSeqId)).getD 0

/-- What a compaction is to publish: the head it replaces, and the position. -/
structure SnapshotCandidate where
  previous : Option SnapshotHead
  latestSeqId : Option ℕ
deriving DecidableEq

variable (events : List ThreadEvent)

/-- The newest event that is not above a position. -/
def latestEventAtOrBelow (events : List ThreadEvent) (seqId : ℕ) : Option ℕ :=
  ((events.map (·.seqId)).filter (· ≤ seqId)).max?

/-- `toCandidate`: none where the head covers the scope already. -/
def toCandidate (events : List ThreadEvent) (lastSeqId : ℕ) (previous : Option SnapshotHead) :
    Option SnapshotCandidate :=
  let covered := position previous
  let hasObject := previous.any (·.objectKey.isSome)
  let latest := latestEventAtOrBelow events lastSeqId
  if hasObject ∧ lastSeqId ≤ covered then none
  else if hasObject ∧ latest.all (· ≤ covered) then none
  else if previous = none ∧ latest = none then none
  else some
    ⟨previous, if latest.any (covered < ·) then latest else previous.bind (·.latestEventSeqId)⟩

/-! ### The projection -/

/-- Is the thread behind the cursor of the last page? -/
def unread (after : Option (ℕ ×ₗ ℕ)) (t : Thread) : Bool := after.all (t.key < ·)

/-- The unread threads, in the order of the pages. -/
def unreadSorted (rows : List Thread) (after : Option (ℕ ×ₗ ℕ)) : List Thread :=
  (rows.filter (unread after)).insertionSort fun t u => u.key ≤ t.key

variable (pageSize : ℕ) {events}

/-- The query of a page. -/
def readPage (pageSize : ℕ) (rows : List Thread) (after : Option (ℕ ×ₗ ℕ)) : List Thread :=
  (unreadSorted rows after).take pageSize

/-- Pinned threads first; both groups keep their order. -/
def pinnedFirst (threads : List Thread) : List Thread :=
  threads.filter (·.pinnedAt.isSome) ++ threads.filter (!·.pinnedAt.isSome)

/-- The next query of a compaction or a prune, with what the queries before it have read. -/
inductive Task
  | heads (lastSeqId : ℕ)
  | latest (lastSeqId : ℕ) (previous : Option SnapshotHead)
  | page (candidate : SnapshotCandidate) (after : Option (ℕ ×ₗ ℕ)) (threads : List Thread)
  /-- `rows` are the threads there were when the projection was complete: the source does not keep
  them. -/
  | publish (candidate : SnapshotCandidate) (projection rows : List Thread)
  | pruneHeads (expired : List ThreadEvent)
  | pruneDelete (covered : List ℕ)
  | done
deriving DecidableEq

/-- The cursor of a compaction between two pages. -/
def Task.after : Task → Option (ℕ ×ₗ ℕ)
  | .page _ after _ => after
  | _ => none

/-- A published projection, its head, and the threads there were when it was complete. -/
structure Published where
  head : ℕ
  projection : List Thread
  rows : List Thread

/-- The tables of the user and the scope, and the compactions and prunes in flight. -/
structure System where
  threads : List Thread
  /-- The ids that were ever given to a thread. -/
  ids : List ℕ
  events : List ThreadEvent
  lastSeqId : ℕ
  head : Option SnapshotHead
  tasks : List Task
  /-- What was published, and the pruned events with the position of the head then. -/
  published : List Published
  pruned : List (ℕ × ℕ)

/-- Nothing was written. -/
def initial : System := ⟨[], [], [], 0, none, [], [], []⟩

/-- One turn of the loop of `loadScopeProjection`. -/
def loadPage (pageSize : ℕ) (agentIds : List String) (rows : List Thread)
    (candidate : SnapshotCandidate) (after : Option (ℕ ×ₗ ℕ)) (threads : List Thread) : Task :=
  let page := readPage pageSize rows after
  let threads := threads ++ page.filter (·.listed agentIds)
  match page.getLast? with
  | none => .publish candidate (pinnedFirst threads) rows
  | some last =>
    if page.length < pageSize then .publish candidate (pinnedFirst threads) rows
    else .page candidate (some last.cursor) threads

/-- The condition of the compare-and-set: without a previous head an insert, with one an update of
that head. -/
def matchesPrevious (head previous : Option SnapshotHead) : Bool :=
  match previous with
  | none => head.isNone
  | some previous => head.any fun h =>
    h.updatedAt = previous.updatedAt ∧ h.objectKey = previous.objectKey ∧
      h.latestEventSeqId = previous.latestEventSeqId

/-- `publishChatThreadSnapshot`, with the choice of the object key. -/
def publishChatThreadSnapshot (s : System) (now : ℕ) (candidate : SnapshotCandidate)
    (projection rows : List Thread) : System :=
  -- a projection with the digest of the previous one keeps the object that is there
  let objectKey := ((candidate.previous.bind (·.objectKey)).filter (·.2 = projection)).getD
    (candidate.latestSeqId, projection)
  if matchesPrevious s.head candidate.previous then
    { s with
      head := some ⟨candidate.latestSeqId, some objectKey, now⟩
      published := s.published ++ [⟨candidate.latestSeqId.getD 0, projection, rows⟩] }
  else s

/-- Is there a head that covers the event? -/
def covering (head : Option SnapshotHead) (seqId : ℕ) : Bool :=
  (head.bind (·.latestEventSeqId)).any (seqId ≤ ·)

/-- One query of a task: the system after it, and what the task does next. -/
def advance (pageSize : ℕ) (agentIds : List String) (s : System) (now : ℕ) : Task → System × Task
  | .heads lastSeqId => (s, .latest lastSeqId s.head)
  | .latest lastSeqId previous =>
    (s, match toCandidate s.events lastSeqId previous with
      | none => .done
      | some candidate => .page candidate none [])
  | .page candidate after threads =>
    (s, loadPage pageSize agentIds s.threads candidate after threads)
  | .publish candidate projection rows =>
    (publishChatThreadSnapshot s now candidate projection rows, .done)
  | .pruneHeads expired =>
    (s, .pruneDelete ((expired.filter fun event => covering s.head event.seqId).map (·.seqId)))
  | .pruneDelete covered =>
    ({ s with
      events := s.events.filter (·.seqId ∉ covered)
      pruned := s.pruned ++ (s.events.filter (·.seqId ∈ covered)).map fun event =>
        (event.seqId, position s.head) }, .done)
  | .done => (s, .done)

/-! ### The runs -/

/-- A write of the user's threads, or what a compaction or a prune does next. -/
inductive Action
  | create (id : ℕ) (agentId : Option String) (title : String) (now : ℕ)
  | touch (id time : ℕ)
  | rename (id : ℕ) (title : String) (now : ℕ)
  | delete (id now : ℕ)
  | compact
  | prune (cutoff limit : ℕ)
  /-- The next query of a task. -/
  | query (task now : ℕ)
  /-- A task ends: aborted, or by an upload that fails. -/
  | abort (task : ℕ)

/-- A write: the rows and the event are committed together. The event of a thread that is not `own`
is one of another scope. -/
def commit (s : System) (own : Bool) (threads : List Thread) (now : ℕ) : System :=
  if own then
    { s with threads, events := s.events ++ [⟨s.lastSeqId + 1, now⟩], lastSeqId := s.lastSeqId + 1 }
  else { s with threads }

/-- Is it the id of a thread of the org? -/
def owns (agentIds : List String) (s : System) (id : ℕ) : Bool :=
  s.threads.any fun t => t.id = id ∧ t.listed agentIds = true

/-- The change of one thread. -/
def edit (id : ℕ) (f : Thread → Thread) (threads : List Thread) : List Thread :=
  threads.map fun t => if t.id = id then f t else t

/-- The first query of `pruneCompactedEvents`. -/
def expiredEvents (s : System) (cutoff limit : ℕ) : List ThreadEvent :=
  ((s.events.filter fun event =>
    event.createdAt < cutoff ∧ covering s.head event.seqId).insertionSort fun a b =>
      toLex (a.createdAt, a.seqId) ≤ toLex (b.createdAt, b.seqId)).take limit

/-- One write or query. An id is given to one thread only, and a touch raises the time. -/
def step (pageSize : ℕ) (agentIds : List String) (s : System) : Action → Option System
  | .create id agentId title now =>
    let thread : Thread := ⟨id, agentId, title, now, none, s.lastSeqId + 1⟩
    if id ∈ s.ids then none
    else some { commit s (thread.listed agentIds) (s.threads ++ [thread]) now with
      ids := id :: s.ids }
  | .touch id time =>
    if ∃ t ∈ s.threads, t.id = id ∧ time ≤ t.lastMessageAt then none
    else some (commit s (owns agentIds s id)
      (edit id (fun t => { t with lastMessageAt := time }) s.threads) time)
  | .rename id title now =>
    some (commit s (owns agentIds s id) (edit id (fun t => { t with title }) s.threads) now)
  | .delete id now =>
    some (commit s (owns agentIds s id) (s.threads.filter (·.id ≠ id)) now)
  | .compact => some { s with tasks := s.tasks ++ [.heads s.lastSeqId] }
  | .prune cutoff limit =>
    some { s with tasks := s.tasks ++ [.pruneHeads (expiredEvents s cutoff limit)] }
  | .query i now => s.tasks[i]?.map fun task =>
    let (s', task') := advance pageSize agentIds s now task
    { s' with tasks := s.tasks.set i task' }
  | .abort i => some { s with tasks := s.tasks.set i .done }

/-- The projection has every thread of the org that was created up to its head and was there when it
was complete, once. -/
def Published.Covers (agentIds : List String) (p : Published) : Prop :=
  ∀ t ∈ p.rows, t.listed agentIds = true → t.createdSeqId ≤ p.head →
    p.projection.countP (·.id = t.id) = 1

/-- No thread is between the last one of the next page and the cursor that is kept of it. -/
def cursorKeeps (pageSize : ℕ) (rows : List Thread) : Task → Prop
  | .page _ after _ => ∀ last ∈ (readPage pageSize rows after).getLast?, ∀ t ∈ rows,
    t.key < last.key → t.key < last.cursor
  | _ => True

/-- No touch moves a thread over the cursor of a compaction that has not read it, and no page ends
within a millisecond of several threads. -/
def keepsUnread (pageSize : ℕ) (s : System) : Action → Prop
  | .touch id time => ∀ t ∈ s.threads, t.id = id → ∀ task ∈ s.tasks, unread task.after t →
    unread task.after { t with lastMessageAt := time }
  | .query i _ => ∀ task ∈ s.tasks[i]?, cursorKeeps pageSize s.threads task
  | _ => True

instance (pageSize : ℕ) (rows : List Thread) (task : Task) :
    Decidable (cursorKeeps pageSize rows task) := by
  cases task <;> unfold cursorKeeps <;> infer_instance

instance (pageSize : ℕ) (s : System) (action : Action) :
    Decidable (keepsUnread pageSize s action) := by
  cases action <;> unfold keepsUnread <;> infer_instance

/-! ### The pages -/

variable {threads rows read : List Thread} {after : Option (ℕ ×ₗ ℕ)} {t u : Thread} {ids : List ℕ}
  {head : ℕ} {agentIds : List String} {s s' : System} {task : Task} {candidate : SnapshotCandidate}
  {paged : Prop} {pageSize}

theorem cursor_le_key (t : Thread) : t.cursor ≤ t.key := by
  rcases (Nat.div_mul_le_self t.lastMessageAt 1000).lt_or_eq with hlt | heq
  · exact Prod.Lex.toLex_le_toLex.mpr (.inl hlt)
  · exact Prod.Lex.toLex_le_toLex.mpr (.inr ⟨heq, le_rfl⟩)

theorem key_le_of_unread (ht : unread after t = false) (hu : unread after u = true) :
    u.key ≤ t.key := by
  cases after with
  | none => simp [unread] at ht
  | some a =>
    simp only [unread, Option.all_some, decide_eq_true_eq, decide_eq_false_iff_not, not_lt] at ht hu
    exact hu.le.trans ht

theorem mem_unreadSorted : t ∈ unreadSorted rows after ↔ t ∈ rows ∧ unread after t := by
  rw [unreadSorted, mem_insertionSort, mem_filter]

theorem unreadSorted_pairwise (rows) (after) :
    (unreadSorted rows after).Pairwise fun t u => u.key ≤ t.key :=
  have : Std.Total fun t u : Thread => u.key ≤ t.key := ⟨fun t u => le_total u.key t.key⟩
  have : IsTrans Thread fun t u => u.key ≤ t.key := ⟨fun _ _ _ h h' => h'.trans h⟩
  pairwise_insertionSort _ _

theorem unreadSorted_nodup (hrows : (rows.map (·.id)).Nodup) :
    ((unreadSorted rows after).map (·.id)).Nodup :=
  ((perm_insertionSort _ _).map _).nodup_iff.mpr (hrows.sublist (filter_sublist.map _))

theorem mem_of_mem_readPage (h : t ∈ readPage pageSize rows after) : t ∈ rows ∧ unread after t :=
  mem_unreadSorted.mp (mem_of_mem_take h)

/-- **A page has every unread thread down to its last.** -/
theorem readPage_last {last} (hrows : (rows.map (·.id)).Nodup)
    (hlast : (readPage pageSize rows after).getLast? = some last) :
    (∀ t ∈ readPage pageSize rows after, last.key ≤ t.key) ∧
      ∀ t ∈ rows, unread after t → t ∈ readPage pageSize rows after ∨ t.key < last.key := by
  have hsplit := take_append_drop pageSize (unreadSorted rows after)
  have hsorted := unreadSorted_pairwise rows after
  have hnodup : ((unreadSorted rows after).map (·.id)).Nodup := unreadSorted_nodup hrows
  have hmem : last ∈ readPage pageSize rows after := mem_of_getLast? hlast
  rw [← hsplit, pairwise_append] at hsorted
  rw [← hsplit, map_append, nodup_append] at hnodup
  obtain ⟨init, hinit⟩ := getLast?_eq_some_iff.mp hlast
  refine ⟨fun t ht => ?_, fun t ht hunread => ?_⟩
  · have hpage : (readPage pageSize rows after).Pairwise fun t u => u.key ≤ t.key := hsorted.1
    rw [hinit] at ht hpage
    rcases mem_append.mp ht with ht | ht
    · exact (pairwise_append.mp hpage).2.2 t ht last (mem_singleton_self _)
    · rw [mem_singleton.mp ht]
  · have hin := mem_unreadSorted.mpr ⟨ht, hunread⟩
    rw [← hsplit] at hin
    refine (mem_append.mp hin).imp id fun hdrop =>
      lt_of_le_of_ne (hsorted.2.2 last hmem t hdrop) fun heq => ?_
    -- two threads with one key have one id, and that is not both in the page and behind it
    have hid : t.id = last.id := congrArg (fun k => (ofLex k).2) heq
    exact hnodup.2.2 _ (mem_map_of_mem hmem) _ (mem_map_of_mem hdrop) hid.symm

theorem readPage_short (hlen : (readPage pageSize rows after).length < pageSize) (ht : t ∈ rows)
    (hunread : unread after t) : t ∈ readPage pageSize rows after := by
  have hall : readPage pageSize rows after = unreadSorted rows after := by
    refine take_of_length_le (le_of_not_gt fun hgt => ?_)
    rw [readPage, length_take] at hlen
    omega
  rw [hall]
  exact mem_unreadSorted.mpr ⟨ht, hunread⟩

/-! ### What a compaction has read -/

/-- The threads of the user: the ids are distinct, and the events that created those of the org were
allocated. -/
structure TableOk (agentIds : List String) (rows : List Thread) (ids : List ℕ) (lastSeqId : ℕ) :
    Prop where
  nodup : (rows.map (·.id)).Nodup
  used : ∀ t ∈ rows, t.id ∈ ids
  created : ∀ t ∈ rows, t.listed agentIds → t.createdSeqId ≤ lastSeqId

/-- Between two pages: a thread that was read is not behind the cursor, and a thread that the head
covers was read or is behind it. -/
structure PageOk (agentIds : List String) (rows : List Thread) (ids : List ℕ) (head : ℕ)
    (after : Option (ℕ ×ₗ ℕ)) (read : List Thread) : Prop where
  nodup : (read.map (·.id)).Nodup
  used : ∀ id ∈ read.map (·.id), id ∈ ids
  behind : ∀ t ∈ rows, t.id ∈ read.map (·.id) → unread after t = false
  reached : ∀ t ∈ rows, t.listed agentIds → t.createdSeqId ≤ head →
    t.id ∈ read.map (·.id) ∨ unread after t = true

theorem PageOk.start : PageOk agentIds rows ids head none [] :=
  ⟨nodup_nil, by simp, by simp, fun _ _ _ _ => .inr rfl⟩

/-- What a page adds to the projection. -/
def listedPage (pageSize : ℕ) (agentIds : List String) (rows : List Thread)
    (after : Option (ℕ ×ₗ ℕ)) : List Thread :=
  (readPage pageSize rows after).filter (·.listed agentIds)

section

variable (h : PageOk agentIds rows ids head after read) (hrows : (rows.map (·.id)).Nodup)

include h hrows

/-- The ids read stay distinct with the next page. -/
theorem PageOk.nodup_page :
    ((read ++ listedPage pageSize agentIds rows after).map (·.id)).Nodup := by
  rw [map_append]
  refine h.nodup.append ((unreadSorted_nodup hrows).sublist
    ((filter_sublist.trans (take_sublist _ _)).map _)) fun id hread hpage => ?_
  obtain ⟨t, ht, rfl⟩ := mem_map.mp hpage
  obtain ⟨hmem, hunread⟩ := mem_of_mem_readPage (mem_of_mem_filter ht)
  exact Bool.noConfusion ((h.behind t hmem hread).symm.trans hunread)

theorem PageOk.next (hused : ∀ t ∈ rows, t.id ∈ ids)
    (hlast : (readPage pageSize rows after).getLast? = some u)
    (hgap : ∀ t ∈ rows, t.key < u.key → t.key < u.cursor) :
    PageOk agentIds rows ids head (some u.cursor)
      (read ++ listedPage pageSize agentIds rows after) := by
  obtain ⟨hdown, hrest⟩ := readPage_last hrows hlast
  have hu := (mem_of_mem_readPage (mem_of_getLast? hlast)).2
  have hmem {id : ℕ} : id ∈ (read ++ listedPage pageSize agentIds rows after).map (·.id) ↔
      id ∈ read.map (·.id) ∨ ∃ t ∈ listedPage pageSize agentIds rows after, t.id = id := by
    rw [map_append, mem_append, mem_map (l := listedPage _ _ _ _)]
  refine ⟨h.nodup_page hrows, fun id hid => ?_, fun t ht hid => ?_, fun t ht hlisted hcreated => ?_⟩
  · obtain hid | ⟨t, ht, rfl⟩ := hmem.mp hid
    · exact h.used id hid
    · exact hused t (mem_of_mem_readPage (mem_of_mem_filter ht)).1
  · have hle : u.key ≤ t.key := by
      obtain hid | ⟨v, hv, hid⟩ := hmem.mp hid
      · exact key_le_of_unread (h.behind t ht hid) hu
      · have hv := mem_of_mem_filter hv
        obtain rfl := inj_on_of_nodup_map hrows (mem_of_mem_readPage hv).1 ht hid
        exact hdown v hv
    simpa [unread] using (cursor_le_key u).trans hle
  · rcases h.reached t ht hlisted hcreated with hread | hunread
    · exact .inl (hmem.mpr (.inl hread))
    · rcases hrest t ht hunread with hpage | hlt
      · exact .inl (hmem.mpr (.inr ⟨t, mem_filter.mpr ⟨hpage, hlisted⟩, rfl⟩))
      · exact .inr (by simpa [unread] using hgap t ht hlt)

/-- **A projection whose last page is short covers its head.** -/
theorem PageOk.covers (hlen : (readPage pageSize rows after).length < pageSize) :
    (Published.mk head (pinnedFirst (read ++ listedPage pageSize agentIds rows after))
      rows).Covers agentIds := by
  intro t ht hlisted hcreated
  have hmem : t.id ∈ (read ++ listedPage pageSize agentIds rows after).map (·.id) := by
    rw [map_append, mem_append]
    refine (h.reached t ht hlisted hcreated).imp id fun hunread => mem_map_of_mem ?_
    exact mem_filter.mpr ⟨readPage_short hlen ht hunread, hlisted⟩
  have hcount := count_eq_one_of_mem (h.nodup_page hrows) hmem
  rw [count, countP_map] at hcount
  rw [pinnedFirst, (filter_append_perm _ _).countP_eq, ← hcount]
  exact countP_congr fun r _ => by simp

end

/-! ### The invariant -/

/-- The head of a candidate is not below the one it was read from, and its event was allocated. -/
structure CandidateOk (candidate : SnapshotCandidate) (lastSeqId : ℕ) : Prop where
  advances : position candidate.previous ≤ candidate.latestSeqId.getD 0
  allocated : candidate.latestSeqId.getD 0 ≤ lastSeqId

variable {previous : Option SnapshotHead}

theorem toCandidate_ok {last lastSeqId} (hlast : last ≤ lastSeqId)
    (hprevious : position previous ≤ lastSeqId)
    (h : toCandidate events last previous = some candidate) : CandidateOk candidate lastSeqId := by
  simp only [toCandidate] at h
  split_ifs at h with h₁ h₂ h₃ hadv <;> cases h
  · obtain ⟨seq, hseq, hlt⟩ := (Option.any_eq_true _ _).mp hadv
    have hle : seq ≤ last := by
      have hmem := max?_mem hseq
      exact of_decide_eq_true (mem_filter.mp hmem).2
    simp only [decide_eq_true_eq] at hlt
    refine ⟨?_, ?_⟩ <;> simp only [hseq, Option.getD_some]
    · exact hlt.le
    · exact hle.trans hlast
  · exact ⟨le_rfl, hprevious⟩

/-- What a task has read is right. What it has read of the pages is so if the writes were `paged`,
that is, if they kept to what `keepsUnread` asks. -/
def TaskOk (paged : Prop) (agentIds : List String) (s : System) : Task → Prop
  | .heads last => last ≤ s.lastSeqId
  | .latest last previous => last ≤ s.lastSeqId ∧ position previous ≤ s.lastSeqId
  | .page candidate after read => CandidateOk candidate s.lastSeqId ∧
    (paged → PageOk agentIds s.threads s.ids (candidate.latestSeqId.getD 0) after read)
  | .publish candidate projection rows => CandidateOk candidate s.lastSeqId ∧
    (paged → (Published.mk (candidate.latestSeqId.getD 0) projection rows).Covers agentIds)
  | .pruneDelete covered => ∀ seqId ∈ covered, seqId ≤ position s.head
  | .pruneHeads _ | .done => True

/-- What every step keeps. -/
structure Inv (paged : Prop) (agentIds : List String) (s : System) : Prop where
  table : TableOk agentIds s.threads s.ids s.lastSeqId
  allocated : position s.head ≤ s.lastSeqId
  tasks : ∀ task ∈ s.tasks, TaskOk paged agentIds s task
  published : paged → ∀ p ∈ s.published, p.Covers agentIds
  pruned : ∀ p ∈ s.pruned, p.1 ≤ p.2

/-- What a task has read stays right when the sequence and the head advance and the pages do. -/
theorem TaskOk.mono (hlast : s.lastSeqId ≤ s'.lastSeqId)
    (hhead : position s.head ≤ position s'.head)
    (hpage : paged → ∀ head read, head ≤ s.lastSeqId →
      PageOk agentIds s.threads s.ids head task.after read →
      PageOk agentIds s'.threads s'.ids head task.after read)
    (h : TaskOk paged agentIds s task) : TaskOk paged agentIds s' task := by
  cases task with
  | heads => exact le_trans h hlast
  | latest => exact ⟨h.1.trans hlast, h.2.trans hlast⟩
  | page =>
    exact ⟨⟨h.1.advances, h.1.allocated.trans hlast⟩,
      fun hp => hpage hp _ _ h.1.allocated (h.2 hp)⟩
  | publish => exact ⟨⟨h.1.advances, h.1.allocated.trans hlast⟩, h.2⟩
  | pruneDelete => exact fun seqId hseq => (h seqId hseq).trans hhead
  | pruneHeads | done => trivial

/-! ### The writes -/

/-- What a write may do to a thread: it is a new one, or it keeps its id and agent and is not moved
over the cursor. -/
def Follows (agentIds : List String) (s : System) (after : Option (ℕ ×ₗ ℕ)) (t : Thread) : Prop :=
  (t.id ∉ s.ids ∧ (t.listed agentIds → s.lastSeqId < t.createdSeqId)) ∨
  ∃ u ∈ s.threads, u.id = t.id ∧ u.agentId = t.agentId ∧ u.createdSeqId = t.createdSeqId ∧
    u.key ≤ t.key ∧ (unread after u = true → unread after t = true)

theorem PageOk.write (hids : s.ids ⊆ ids) (hfollows : ∀ t ∈ rows, Follows agentIds s after t)
    (hhead : head ≤ s.lastSeqId) (h : PageOk agentIds s.threads s.ids head after read) :
    PageOk agentIds rows ids head after read := by
  refine ⟨h.nodup, fun id hid => hids (h.used id hid), fun t ht hid => ?_,
    fun t ht hlisted hcreated => ?_⟩
  · obtain ⟨hnew, -⟩ | ⟨u, hu, hid', -, -, hkey, -⟩ := hfollows t ht
    · exact absurd (h.used _ hid) hnew
    · have hunread := h.behind u hu (hid' ▸ hid)
      cases after with
      | none => exact hunread
      | some a =>
        simp only [unread, Option.all_some, decide_eq_false_iff_not, not_lt] at hunread ⊢
        exact hunread.trans hkey
  · obtain ⟨-, hnew⟩ | ⟨u, hu, hid, hagent, hcreated', -, hunread⟩ := hfollows t ht
    · have hlt := hnew hlisted
      omega
    · rw [Thread.listed, ← hagent] at hlisted
      exact (h.reached u hu hlisted (hcreated'.trans_le hcreated)).imp (hid ▸ ·) hunread

section

variable (h : Inv paged agentIds s)

include h

variable {now : ℕ} {own : Bool}

theorem Inv.write (htable : TableOk agentIds rows ids (commit s own rows now).lastSeqId)
    (hids : s.ids ⊆ ids)
    (hfollows : paged → ∀ task ∈ s.tasks, ∀ t ∈ rows, Follows agentIds s task.after t) :
    Inv paged agentIds { commit s own rows now with ids := ids } := by
  have hlast : s.lastSeqId ≤ (commit s own rows now).lastSeqId := by
    cases own
    · exact le_rfl
    · exact Nat.le_succ _
  have htasks (task) (htask : task ∈ s.tasks) :
      TaskOk paged agentIds { commit s own rows now with ids := ids } task := by
    refine (h.tasks task htask).mono hlast ?_ fun hp _ _ hhead hpage => ?_
    · cases own <;> exact le_rfl
    · cases own <;> exact hpage.write hids (hfollows hp task htask) hhead
  cases own
  · exact ⟨htable, h.allocated, htasks, h.published, h.pruned⟩
  · exact ⟨htable, h.allocated.trans hlast, htasks, h.published, h.pruned⟩

/-- The threads that were there stay in order when the sequence advances. -/
theorem Inv.created_commit (ht : t ∈ s.threads) (hlisted : t.listed agentIds) :
    t.createdSeqId ≤ (commit s own rows now).lastSeqId := by
  have hle := h.table.created t ht hlisted
  cases own
  · exact hle
  · exact hle.trans (Nat.le_succ _)

omit h in
theorem commit_ids : { commit s own rows now with ids := s.ids } = commit s own rows now := by
  cases own <;> rfl

variable {id : ℕ}

/-- An edit that keeps what identifies a thread. -/
theorem Inv.edit {f} (hid : ∀ t, (f t).id = t.id)
    (hcreated : ∀ t, (f t).createdSeqId = t.createdSeqId) (hagent : ∀ t, (f t).agentId = t.agentId)
    (hkey : ∀ t ∈ s.threads, t.id = id → t.key ≤ (f t).key)
    (hunread : paged → ∀ t ∈ s.threads, t.id = id → ∀ task ∈ s.tasks, unread task.after t →
      unread task.after (f t)) : Inv paged agentIds (commit s own (edit id f s.threads) now) := by
  have hcases {t : Thread} (ht : t ∈ Compaction.edit id f s.threads) :
      ∃ u ∈ s.threads, t = u ∨ u.id = id ∧ t = f u := by
    obtain ⟨u, hu, rfl⟩ := mem_map.mp ht
    by_cases heq : u.id = id
    · exact ⟨u, hu, .inr ⟨heq, if_pos heq⟩⟩
    · exact ⟨u, hu, .inl (if_neg heq)⟩
  have hmap : (Compaction.edit id f s.threads).map (·.id) = s.threads.map (·.id) := by
    rw [Compaction.edit, map_map]
    refine map_congr_left fun t _ => ?_
    by_cases heq : t.id = id <;> simp [heq, hid]
  rw [← commit_ids]
  refine h.write ⟨hmap ▸ h.table.nodup, fun t ht => ?_, fun t ht hlisted => ?_⟩
    (Subset.refl _) fun hp task htask t ht => .inr ?_
  · obtain ⟨u, hu, rfl | ⟨-, rfl⟩⟩ := hcases ht
    · exact h.table.used t hu
    · exact hid u ▸ h.table.used u hu
  · obtain ⟨u, hu, rfl | ⟨-, rfl⟩⟩ := hcases ht
    · exact h.created_commit hu hlisted
    · rw [Thread.listed, hagent u] at hlisted
      exact hcreated u ▸ h.created_commit hu hlisted
  · obtain ⟨u, hu, rfl | ⟨heq, rfl⟩⟩ := hcases ht
    · exact ⟨t, hu, rfl, rfl, rfl, le_rfl, fun h => h⟩
    · exact ⟨u, hu, (hid u).symm, (hagent u).symm, (hcreated u).symm, hkey u hu heq,
        hunread hp u hu heq task htask⟩

theorem Inv.create (hid : t.id ∉ s.ids) (hcreated : t.createdSeqId = s.lastSeqId + 1) :
    Inv paged agentIds { commit s (t.listed agentIds) (s.threads ++ [t]) now with
      ids := t.id :: s.ids } := by
  refine h.write ⟨?_, fun u hu => ?_, fun u hu hlisted => ?_⟩ (subset_cons_self _ _)
    fun _ task _ u hu => ?_
  · rw [map_append, map_singleton]
    refine h.table.nodup.append (nodup_singleton _) fun id' hin hnew => ?_
    obtain ⟨u, hu, rfl⟩ := mem_map.mp hin
    obtain heq : u.id = t.id := mem_singleton.mp hnew
    exact hid (heq ▸ h.table.used u hu)
  all_goals rcases mem_append.mp hu with hin | hnew
  · exact mem_cons_of_mem _ (h.table.used u hin)
  · rw [mem_singleton.mp hnew]
    exact mem_cons_self
  · exact h.created_commit hin hlisted
  · rw [mem_singleton.mp hnew] at hlisted ⊢
    rw [hcreated, hlisted]
    exact le_rfl
  · exact .inr ⟨u, hin, rfl, rfl, rfl, le_rfl, fun h => h⟩
  · rw [mem_singleton.mp hnew]
    exact .inl ⟨hid, fun _ => hcreated ▸ Nat.lt_succ_self _⟩

theorem Inv.delete : Inv paged agentIds (commit s own (s.threads.filter (·.id ≠ id)) now) := by
  have hsub : s.threads.filter (·.id ≠ id) <+ s.threads := filter_sublist
  rw [← commit_ids]
  refine h.write ⟨h.table.nodup.sublist (hsub.map _), fun t ht => ?_, fun t ht => ?_⟩
    (Subset.refl _) fun _ _ _ t ht => .inr ?_
  · exact h.table.used t (hsub.subset ht)
  · exact h.created_commit (hsub.subset ht)
  · exact ⟨t, hsub.subset ht, rfl, rfl, rfl, le_rfl, fun h => h⟩

/-! ### The queries -/

omit h in
theorem loadPage_ok (htable : TableOk agentIds s.threads s.ids s.lastSeqId) (hpos : 0 < pageSize)
    (hkeeps : paged → cursorKeeps pageSize s.threads (.page candidate after read))
    (h : TaskOk paged agentIds s (.page candidate after read)) :
    TaskOk paged agentIds s (loadPage pageSize agentIds s.threads candidate after read) := by
  rw [loadPage]
  split
  · next hnone =>
    rw [getLast?_eq_none_iff] at hnone
    exact ⟨h.1, fun hp => (h.2 hp).covers htable.nodup (by rw [hnone]; exact hpos)⟩
  · next last hlast =>
    split
    · next hlen => exact ⟨h.1, fun hp => (h.2 hp).covers htable.nodup hlen⟩
    · exact ⟨h.1, fun hp => (h.2 hp).next htable.nodup htable.used hlast (hkeeps hp last hlast)⟩

variable {head : Option SnapshotHead}

omit h in
/-- The compare-and-set replaces a head at the position that the candidate was read from. -/
theorem position_of_matches (h : matchesPrevious head previous) :
    position head = position previous := by
  unfold matchesPrevious at h
  split at h
  · rw [Option.isNone_iff_eq_none.mp h]
  · obtain ⟨row, rfl, hrow⟩ := (Option.any_eq_true _ _).mp h
    simp only [decide_eq_true_eq] at hrow
    simp [position, hrow.2.2]

omit h in
theorem le_position_of_covering {seqId} (h : covering head seqId) : seqId ≤ position head := by
  obtain ⟨latest, hlatest, hle⟩ := (Option.any_eq_true _ _).mp h
  rw [position, hlatest]
  exact of_decide_eq_true hle

/-- **A query keeps the invariant, and the head never goes back.** -/
theorem advance_ok (now : ℕ) (hpos : 0 < pageSize)
    (hkeeps : paged → cursorKeeps pageSize s.threads task) (htask : TaskOk paged agentIds s task) :
    Inv paged agentIds (advance pageSize agentIds s now task).1 ∧
      TaskOk paged agentIds (advance pageSize agentIds s now task).1
        (advance pageSize agentIds s now task).2 ∧
      (advance pageSize agentIds s now task).1.tasks = s.tasks ∧
      position s.head ≤ position (advance pageSize agentIds s now task).1.head := by
  cases task with
  | heads last => exact ⟨h, ⟨htask, h.allocated⟩, rfl, le_rfl⟩
  | latest last previous =>
    refine ⟨h, ?_, rfl, le_rfl⟩
    simp only [advance]
    split
    · trivial
    · next hcandidate => exact ⟨toCandidate_ok htask.1 htask.2 hcandidate, fun _ => .start⟩
  | page candidate after read => exact ⟨h, loadPage_ok h.table hpos hkeeps htask, rfl, le_rfl⟩
  | publish candidate projection rows =>
    simp only [advance, publishChatThreadSnapshot]
    split
    · next hmatch =>
      have hle := (position_of_matches hmatch).trans_le htask.1.advances
      refine ⟨⟨h.table, htask.1.allocated,
        fun task ht => (h.tasks task ht).mono (s := s) le_rfl hle fun _ _ _ _ hpage => hpage,
        fun hpaged p hp => ?_, h.pruned⟩, trivial, rfl, hle⟩
      rcases mem_append.mp hp with hp | hp
      · exact h.published hpaged p hp
      · exact mem_singleton.mp hp ▸ htask.2 hpaged
    · exact ⟨h, trivial, rfl, le_rfl⟩
  | pruneHeads expired =>
    refine ⟨h, fun seqId hseq => ?_, rfl, le_rfl⟩
    obtain ⟨event, hevent, rfl⟩ := mem_map.mp hseq
    exact le_position_of_covering (mem_filter.mp hevent).2
  | pruneDelete covered =>
    refine ⟨⟨h.table, h.allocated,
      fun task ht => (h.tasks task ht).mono le_rfl le_rfl fun _ _ _ _ hpage => hpage, h.published,
      fun p hp => ?_⟩, trivial, rfl, le_rfl⟩
    rcases mem_append.mp hp with hp | hp
    · exact h.pruned p hp
    · obtain ⟨event, hevent, rfl⟩ := mem_map.mp hp
      exact htask _ (of_decide_eq_true (mem_filter.mp hevent).2)
  | done => exact ⟨h, trivial, rfl, le_rfl⟩

/-- The tasks of a system may be any that have read what is right. -/
theorem Inv.setTasks {tasks} (htasks : ∀ task ∈ tasks, TaskOk paged agentIds s task) :
    Inv paged agentIds { s with tasks } where
  __ := h
  tasks task ht := (htasks task ht).mono le_rfl le_rfl fun _ _ _ _ hpage => hpage

theorem Inv.add (htask : TaskOk paged agentIds s task) :
    Inv paged agentIds { s with tasks := s.tasks ++ [task] } :=
  h.setTasks fun task' ht =>
    (mem_append.mp ht).elim (h.tasks task') fun ht => mem_singleton.mp ht ▸ htask

theorem Inv.set {i} (htask : TaskOk paged agentIds s task) :
    Inv paged agentIds { s with tasks := s.tasks.set i task } :=
  h.setTasks fun task' ht => (mem_or_eq_of_mem_set ht).elim (h.tasks task') fun ht => ht ▸ htask

omit h in
theorem position_commit : position s.head ≤ position (commit s own rows now).head := by
  cases own <;> exact le_rfl

theorem Inv.step {action} (hpos : 0 < pageSize) (hkeeps : paged → keepsUnread pageSize s action)
    (hstep : step pageSize agentIds s action = some s') :
    Inv paged agentIds s' ∧ position s.head ≤ position s'.head := by
  cases action with
  | create id agentId title now =>
    simp only [Compaction.step] at hstep
    split at hstep
    · cases hstep
    · next hnew =>
      cases hstep
      exact ⟨h.create hnew rfl, position_commit⟩
  | touch id time =>
    simp only [Compaction.step] at hstep
    split at hstep
    · cases hstep
    · next hraises =>
      cases hstep
      refine ⟨h.edit (fun _ => rfl) (fun _ => rfl) (fun _ => rfl) (fun t ht hid => ?_) hkeeps,
        position_commit⟩
      have hlt : t.lastMessageAt < time := lt_of_not_ge fun hge => hraises ⟨t, ht, hid, hge⟩
      exact Prod.Lex.toLex_le_toLex.mpr (.inl hlt)
  | rename id title now =>
    cases hstep
    refine ⟨h.edit (fun _ => rfl) (fun _ => rfl) (fun _ => rfl) (fun _ _ _ => le_rfl) ?_,
      position_commit⟩
    exact fun _ _ _ _ _ _ h => h
  | delete id now =>
    cases hstep
    exact ⟨h.delete, position_commit⟩
  | compact =>
    cases hstep
    exact ⟨h.add (show TaskOk paged agentIds s (.heads s.lastSeqId) from le_rfl), le_rfl⟩
  | prune cutoff limit =>
    cases hstep
    exact ⟨h.add (show TaskOk paged agentIds s (.pruneHeads _) from trivial), le_rfl⟩
  | query i now =>
    obtain ⟨task, htask, rfl⟩ := Option.map_eq_some_iff.mp hstep
    obtain ⟨hinv, hnext, htasks, hle⟩ := advance_ok h now hpos (fun hp => hkeeps hp task htask)
      (h.tasks task (mem_of_getElem? htask))
    exact ⟨htasks ▸ hinv.set hnext, hle⟩
  | abort i =>
    cases hstep
    exact ⟨h.set (show TaskOk paged agentIds s .done from trivial), le_rfl⟩

end

theorem Inv.initial : Inv paged agentIds initial :=
  ⟨⟨nodup_nil, by simp [Compaction.initial], by simp [Compaction.initial]⟩, le_rfl,
    by simp [Compaction.initial], fun _ => by simp [Compaction.initial],
    by simp [Compaction.initial]⟩

/-- **A published snapshot covers its head**, in a run in which no touch moves a thread over the
cursor of a compaction that has not read it and no page ends within a millisecond of several
threads: the projection has every thread of the org that was created up to the head and was there at
its end once. In every run the head never goes back, and a pruned event is covered by the head there
is. -/
theorem published_covers {actions : List Action} (hpos : 0 < pageSize)
    (hrun : runEvents (step pageSize agentIds) initial actions = some s) :
    (∀ action s', step pageSize agentIds s action = some s' → position s.head ≤ position s'.head) ∧
      (∀ p ∈ s.pruned, p.1 ≤ p.2) ∧
      (holdsAlong (step pageSize agentIds) (keepsUnread pageSize) initial actions →
        ∀ p ∈ s.published, p.Covers agentIds) := by
  have h : Inv False agentIds s := runEvents_invariant (Inv False agentIds)
    (fun _ _ _ hs hstep => (hs.step hpos False.elim hstep).1) .initial hrun
  refine ⟨fun _ _ hstep => (h.step hpos False.elim hstep).2, h.pruned, fun hkeeps => ?_⟩
  have h : Inv True agentIds s := runEvents_invariant_along (Inv True agentIds)
    (fun _ _ _ hs hkeeps hstep => (hs.step hpos (fun _ => hkeeps) hstep).1) .initial hkeeps hrun
  exact h.published trivial

/-- Two threads of one agent, the second with the newer message, one of another org between them,
and a compaction that has read the first page. -/
def pageOne (first second : ℕ) : List Action :=
  [.create 1 "a" "x" first, .create 2 "a" "y" second, .create 3 "b" "z" (first + 1000),
    .compact, .query 0 0, .query 0 0, .query 0 0]

theorem published_covers_touched : ∃ s, runEvents (step 1 ["a"]) initial
      (pageOne 10000 20000 ++ [.touch 2 30000, .query 0 0, .query 0 0, .query 0 0, .query 0 0,
        .prune 15000 9, .query 1 0, .query 1 0]) = some s ∧
    s.published.map (·.head) = [2] ∧ s.pruned = [(1, 2)] ∧ ∀ p ∈ s.published, p.Covers ["a"] := by
  refine exists_run (fun s => s.published.map (·.head) = [2] ∧ s.pruned = [(1, 2)])
    (by decide +kernel) ?_
  intro s hs ⟨hheads, hpruned⟩
  exact ⟨hheads, hpruned, (published_covers Nat.one_pos hs).2.2 (by decide +kernel)⟩

/-- A run that publishes a projection without a thread that it should have. -/
theorem exists_missed {actions : List Action}
    (hrun : (runEvents (step 1 ["a"]) initial actions).any fun s => s.published.any fun p =>
      p.rows.any fun t => t.listed ["a"] ∧ t.createdSeqId ≤ p.head ∧
        p.projection.countP (·.id = t.id) ≠ 1) :
    ∃ s, runEvents (step 1 ["a"]) initial actions = some s ∧
      ∃ p ∈ s.published, ¬p.Covers ["a"] := by
  obtain ⟨s, hs, hany⟩ := (Option.any_eq_true _ _).mp hrun
  obtain ⟨p, hp, hany⟩ := any_eq_true.mp hany
  obtain ⟨t, ht, hmiss⟩ := any_eq_true.mp hany
  obtain ⟨hlisted, hcreated, hmiss⟩ := of_decide_eq_true hmiss
  exact ⟨s, hs, p, hp, fun h => hmiss (h t ht hlisted hcreated)⟩

/-- A message to the first thread while it is the one that is not read yet: the next page starts
behind it. And two threads of one millisecond, without any message: the cursor is before both. -/
theorem published_misses :
    (∃ s, runEvents (step 1 ["a"]) initial
        (pageOne 10000 20000 ++ [.touch 1 30000, .query 0 0, .query 0 0, .query 0 0]) = some s ∧
      ∃ p ∈ s.published, ¬p.Covers ["a"]) ∧
    ∃ s, runEvents (step 1 ["a"]) initial 
        (pageOne 400 600 ++ [.query 0 0, .query 0 0, .query 0 0]) = some s ∧
      ∃ p ∈ s.published, ¬p.Covers ["a"] :=
  ⟨exists_missed (by decide +kernel), exists_missed (by decide +kernel)⟩

end Okou.Compaction
