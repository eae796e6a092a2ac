import Mathlib.Data.List.Lex
import Mathlib.Data.List.Sort
import Mathlib.Data.Prod.Lex
import Okou.Firewall.Text

/-!
# Batches of usage events

The events of a flush are grouped by run, protocol and, under a protocol, day, and each group is cut
into batches for the webhook. The size of a batch is kept up from the sizes of its events.

## Main results

* `batches_partition` — what the batches of a flush have, and what the loop keeps as their size.
* `legacy_size_untracked` — of events without a protocol that is not their size.
-/

namespace Okou.Usage

open List
open Firewall (PyStr lit)

/-- The limits of a batch: events, resources and bytes. -/
def usageEventBatchSize : ℕ := 100
@[inherit_doc usageEventBatchSize]
def maxResourceIdsPerBatch : ℕ := 1000
@[inherit_doc usageEventBatchSize]
def maxResourceBatchBytes : ℕ := 256 * 1024

/-- The protocol of resource events. -/
def resourceProtocol : PyStr := lit "x-resource-v1"

/-- An event: the fields that are read, empty where they are missing, and the others. -/
structure UsageEvent (δ : Type*) where
  protocol : PyStr
  observedAt : PyStr
  resources : List PyStr
  others : δ

/-- `json.dumps` of an event and of a string: the texts are ASCII. -/
structure Dumps (δ : Type*) where
  event : UsageEvent δ → PyStr
  string : PyStr → PyStr

variable {δ : Type*} (dumps : Dumps δ) (runId protocol : PyStr) (event : UsageEvent δ)

/-- The size of `json.dumps` of a request, whose events are joined by commas and blanks. -/
def payloadSize (events : List (UsageEvent δ)) : ℕ :=
  (lit "\x7b\"runId\": " ++ dumps.string runId ++ lit ", \"events\": [" ++
    (events.flatMap fun event => lit ", " ++ dumps.event event).drop (lit ", ").length ++
      lit "]\x7d").length

/-- `resource_event_fits`. -/
def resourceEventFits (event : UsageEvent δ) : Prop := event.protocol ≠ resourceProtocol ∨
  event.resources.length ≤ maxResourceIdsPerBatch ∧
    payloadSize dumps runId [event] ≤ maxResourceBatchBytes

/-- `source_event_size`: legacy events have none. -/
def sourceEventSize (event : UsageEvent δ) : ℕ :=
  if event.protocol ≠ [] then (dumps.event event).length else 0

/-- A buffered event, whose size is taken once. -/
structure BufferedSourceEvent where
  runId : PyStr
  event : UsageEvent δ
  encodedSize : ℕ
  encodedSize_eq : encodedSize = sourceEventSize dumps event

/-- Run, protocol and day. -/
abbrev GroupKey := PyStr × PyStr × PyStr

/-- The key under which an event is grouped. -/
def groupKey (event : UsageEvent δ) : GroupKey :=
  (runId, event.protocol, if event.protocol ≠ [] then event.observedAt.take 10 else [])

variable {dumps event} (source : BufferedSourceEvent dumps)

@[inherit_doc groupKey]
def BufferedSourceEvent.key (source : BufferedSourceEvent dumps) : GroupKey :=
  groupKey source.runId source.event

/-- The loop over a group: the batches it has yielded and the one it builds. -/
structure Batcher (δ : Type*) where
  yielded : List (List (UsageEvent δ))
  batch : List (UsageEvent δ)
  resourceCount : ℕ
  payloadBytes : ℕ

namespace Batcher

variable (dumps) in
/-- The size of a request without events. -/
def emptyPayloadBytes : ℕ := if protocol ≠ [] then payloadSize dumps runId [] else 0

/-- The separator in front of the next event. -/
def separatorBytes (batch : List (UsageEvent δ)) : ℕ := if batch ≠ [] then (lit ", ").length else 0

/-- One turn of the loop. -/
def add (s : Batcher δ) (source : BufferedSourceEvent dumps) : Batcher δ :=
  let eventResourceCount := source.event.resources.length
  let appendedBytes := source.encodedSize + separatorBytes s.batch
  if s.batch ≠ [] ∧ (usageEventBatchSize ≤ s.batch.length ∨ protocol = resourceProtocol ∧
      (maxResourceIdsPerBatch < s.resourceCount + eventResourceCount ∨
        maxResourceBatchBytes < s.payloadBytes + appendedBytes)) then
    ⟨s.yielded ++ [s.batch], [source.event], eventResourceCount,
      emptyPayloadBytes dumps runId protocol + source.encodedSize⟩
  else
    ⟨s.yielded, s.batch ++ [source.event], s.resourceCount + eventResourceCount,
      s.payloadBytes + appendedBytes⟩

/-- The loop. -/
def run (sources : List (BufferedSourceEvent dumps)) : Batcher δ :=
  sources.foldl (add runId protocol) ⟨[], [], 0, emptyPayloadBytes dumps runId protocol⟩

/-- The batches of a group, with the last one. -/
def batches (s : Batcher δ) : List (List (UsageEvent δ)) :=
  if s.batch ≠ [] then s.yielded ++ [s.batch] else s.yielded

end Batcher

/-- The groups in the order of their keys. -/
def sortedGroups (sources : List (BufferedSourceEvent dumps)) :
    List (GroupKey × List (BufferedSourceEvent dumps)) :=
  (dictGroup (·.key) sources).insertionSort fun a b =>
    toLex (a.1.1, toLex a.1.2) ≤ toLex (b.1.1, toLex b.1.2)

/-- `source_event_batches`. -/
def sourceEventBatches (sources : List (BufferedSourceEvent dumps)) :
    List (PyStr × List (UsageEvent δ)) :=
  (sortedGroups sources).flatMap fun (key, events) =>
    (Batcher.run key.1 key.2.1 events).batches.map fun batch => (key.1, batch)

/-- The buffered events with their runs. -/
def buffered (sources : List (BufferedSourceEvent dumps)) : List (PyStr × UsageEvent δ) :=
  sources.map fun source => (source.runId, source.event)

/-- The events of the batches with the runs they are sent for. -/
def sent (batches : List (PyStr × List (UsageEvent δ))) : List (PyStr × UsageEvent δ) :=
  batches.flatMap fun (runId, batch) => batch.map (runId, ·)

/-- The events of a group. -/
def ofGroup (key : GroupKey) (events : List (PyStr × UsageEvent δ)) : List (PyStr × UsageEvent δ) :=
  events.filter fun event => groupKey event.1 event.2 = key

/-! ### The loop over a group -/

variable {runId protocol} {batch events : List (UsageEvent δ)} {s : Batcher δ} {source}

theorem payloadSize_append : payloadSize dumps runId (batch ++ [event]) =
    payloadSize dumps runId batch + ((dumps.event event).length +
      Batcher.separatorBytes batch) := by
  cases batch with
  | nil =>
    simp [payloadSize, Batcher.separatorBytes]
    omega
  | cons first batch =>
    simp [payloadSize, Batcher.separatorBytes]
    omega

variable (dumps runId protocol) in
/-- A batch within the limits. -/
structure BatchOk (batch : List (UsageEvent δ)) : Prop where
  ne : batch ≠ []
  length_le : batch.length ≤ usageEventBatchSize
  resource : protocol = resourceProtocol → (∀ event ∈ batch, resourceEventFits dumps runId event) →
    (batch.flatMap (·.resources)).length ≤ maxResourceIdsPerBatch ∧
      payloadSize dumps runId batch ≤ maxResourceBatchBytes

theorem BatchOk.single (h : event.protocol = protocol) : BatchOk dumps runId protocol [event] := by
  refine ⟨cons_ne_nil _ _, Nat.le_of_ble_eq_true rfl, fun hres hfits => ?_⟩
  simpa using (hfits event mem_cons_self).resolve_left (not_not.mpr (h.trans hres))

namespace Batcher

variable (dumps runId protocol) in
/-- What the loop keeps of the events it has gone through. -/
structure Inv (events : List (UsageEvent δ)) (s : Batcher δ) : Prop where
  events_eq : s.yielded.flatten ++ s.batch = events
  yielded : ∀ batch ∈ s.yielded, BatchOk dumps runId protocol batch
  batch : s.batch ≠ [] → BatchOk dumps runId protocol s.batch
  resources : s.resourceCount = (s.batch.flatMap (·.resources)).length
  bytes : protocol ≠ [] → s.payloadBytes = payloadSize dumps runId s.batch
  separators : protocol = [] → s.payloadBytes = (lit ", ").length * (s.batch.length - 1)

theorem Inv.add (h : Inv dumps runId protocol events s)
    (hsource : source.event.protocol = protocol) :
    Inv dumps runId protocol (events ++ [source.event]) (s.add runId protocol source) := by
  have hsize (hne : protocol ≠ []) : source.encodedSize = (dumps.event source.event).length := by
    rw [source.encodedSize_eq, sourceEventSize, if_pos (hsource ▸ hne)]
  have hlegacy (hnil : protocol = []) : source.encodedSize = 0 := by
    rw [source.encodedSize_eq, sourceEventSize, if_neg (not_not.mpr (hsource.trans hnil))]
  unfold Batcher.add
  dsimp only
  split
  · next hcut =>
    refine ⟨?_, ?_, fun _ => .single hsource, by simp, fun hne => ?_, fun hnil => ?_⟩
    · rw [flatten_append, flatten_singleton, h.events_eq]
    · exact forall_mem_append.mpr ⟨h.yielded, forall_mem_singleton.mpr (h.batch hcut.1)⟩
    · rw [emptyPayloadBytes, if_pos hne, hsize hne]
      exact (@payloadSize_append _ dumps runId source.event []).symm
    · simp [emptyPayloadBytes, hnil, hlegacy hnil]
  · next hroom =>
    have hbytes (hne : protocol ≠ []) : payloadSize dumps runId (s.batch ++ [source.event]) = _ :=
      payloadSize_append.trans (by rw [← h.bytes hne, ← hsize hne])
    refine ⟨?_, h.yielded, fun _ => ?_, by simp [h.resources], fun hne => (hbytes hne).symm,
      fun hnil => ?_⟩
    · rw [← append_assoc, h.events_eq]
    · by_cases hempty : s.batch = []
      · rw [hempty, nil_append]
        exact .single hsource
      · simp only [ne_eq, hempty, not_false_eq_true, true_and, not_or, not_le, not_and] at hroom
        refine ⟨by simp, by rw [length_append]; exact hroom.1, fun hres _ => ?_⟩
        rw [hbytes (hres ▸ by decide), flatMap_append, length_append, ← h.resources]
        simpa using hroom.2 hres
    · rw [h.separators hnil, hlegacy hnil, separatorBytes]
      cases s.batch with
      | nil => rfl
      | cons event batch => simp [Nat.mul_succ]

/-- Without the resource protocol no size is compared: the batches do not depend on it. -/
theorem batches_add_bytes (h : protocol ≠ resourceProtocol) (bytes : ℕ) :
    ({ s with payloadBytes := bytes }.add runId protocol source).batches =
      (s.add runId protocol source).batches := by
  simp only [Batcher.add, h, false_and, or_false]
  split <;> rfl

theorem inv_run (sources : List (BufferedSourceEvent dumps))
    (hsources : ∀ source ∈ sources, source.event.protocol = protocol) :
    Inv dumps runId protocol (sources.map (·.event)) (run runId protocol sources) := by
  induction sources using List.reverseRecOn with
  | nil => exact ⟨rfl, forall_mem_nil _, fun h => absurd rfl h, rfl, fun h => if_pos h,
      fun h => if_neg (not_not.mpr h)⟩
  | append_singleton sources source ih =>
    obtain ⟨hbefore, hlast⟩ := forall_mem_append.mp hsources
    rw [run, foldl_append, map_append]
    exact (ih hbefore).add (hlast source mem_cons_self)

theorem Inv.batches (h : Inv dumps runId protocol events s) :
    s.batches.flatten = events ∧ ∀ batch ∈ s.batches, BatchOk dumps runId protocol batch := by
  rw [← h.events_eq]
  unfold Batcher.batches
  split
  · next hne =>
    exact ⟨by simp, forall_mem_append.mpr ⟨h.yielded, forall_mem_singleton.mpr (h.batch hne)⟩⟩
  · next hempty => exact ⟨by rw [not_not.mp hempty, append_nil], h.yielded⟩

end Batcher

/-! ### The groups -/

section Groups

variable {sources events : List (BufferedSourceEvent dumps)} {key : GroupKey}

/-- The loop over a group, or over the beginning of one. -/
theorem inv_group (h : events ⊆ sources.filter (·.key = key)) :
    Batcher.Inv dumps key.1 key.2.1 (events.map (·.event)) (.run key.1 key.2.1 events) := by
  refine Batcher.inv_run events fun source hsource => ?_
  rw [← of_decide_eq_true (mem_filter.mp (h hsource)).2]
  rfl

theorem mem_sortedGroups (h : (key, events) ∈ sortedGroups sources) :
    events = sources.filter (·.key = key) := by
  have hgroup := dictGet_of_mem (keys_dictCollect _ _ _ _).1 ((mem_insertionSort _).mp h)
  rw [← dictGroup, dictGet_dictGroup] at hgroup
  split at hgroup
  · cases hgroup
  · exact (Option.some.inj hgroup).symm

/-- The batches of a group have its events in order, with its run. -/
theorem sent_group (h : (key, events) ∈ sortedGroups sources) :
    (sent ((Batcher.run key.1 key.2.1 events).batches.map fun batch => (key.1, batch))) =
      ofGroup key (buffered sources) := by
  obtain rfl := mem_sortedGroups h
  have hbatches := (inv_group (Subset.refl (sources.filter (·.key = key)))).batches.1
  rw [sent, flatMap_map]
  show ((Batcher.run key.1 key.2.1 (sources.filter (·.key = key))).batches.map
    (map (key.1, ·))).flatten = _
  rw [← map_flatten, hbatches, map_map, ofGroup, buffered, filter_map]
  refine map_congr_left fun source hsource => Prod.ext ?_ rfl
  rw [← of_decide_eq_true (mem_filter.mp hsource).2]
  rfl

/-- What is gathered by distinct keys has the entries of each of them in order. -/
theorem filter_flatMap_filter {α κ : Type*} [DecidableEq κ] (f : α → κ) (l : List α) {keys : List κ}
    (hkeys : keys.Nodup) (k : κ) : (keys.flatMap fun j => l.filter (f · = j)).filter (f · = k) =
      if k ∈ keys then l.filter (f · = k) else [] := by
  induction keys with
  | nil => rfl
  | cons j keys ih =>
    obtain ⟨hj, hkeys⟩ := nodup_cons.mp hkeys
    rw [flatMap_cons, filter_append, ih hkeys, filter_filter]
    by_cases heq : j = k
    · subst heq
      simp [hj]
    · have hnone : (l.filter fun a => decide (f a = k) && decide (f a = j)) = [] := by
        refine filter_eq_nil_iff.mpr fun a _ ha => heq ?_
        simp only [Bool.and_eq_true, decide_eq_true_eq] at ha
        exact ha.2.symm.trans ha.1
      simp [hnone, Ne.symm heq]

theorem ofGroup_sent (key : GroupKey) :
    ofGroup key (sent (sourceEventBatches sources)) = ofGroup key (buffered sources) := by
  have hsent : sent (sourceEventBatches sources) =
      ((sortedGroups sources).map Prod.fst).flatMap fun key => ofGroup key (buffered sources) := by
    rw [sent, sourceEventBatches, flatMap_assoc, flatMap_map]
    exact flatMap_congr fun group hgroup => sent_group hgroup
  have hperm : ((sortedGroups sources).map Prod.fst).Perm _ := (perm_insertionSort _ _).map _
  obtain ⟨hnodup, hmem⟩ := keys_dictCollect (·.key) [] (fun group entry => group ++ [entry]) sources
  rw [hsent]
  refine (filter_flatMap_filter (fun event : PyStr × UsageEvent δ =>
    groupKey event.1 event.2) (buffered sources)
    (hperm.nodup_iff.mpr hnodup) key).trans ?_
  split
  · rfl
  · next hkey =>
    refine (filter_eq_nil_iff.mpr fun event hevent h =>
      hkey (hperm.mem_iff.mpr ((hmem key).mpr ?_))).symm
    obtain ⟨source, hsource, rfl⟩ := mem_map.mp hevent
    exact mem_map.mpr ⟨source, hsource, of_decide_eq_true h⟩

theorem perm_of_ofGroup {l l' : List (PyStr × UsageEvent δ)}
    (h : ∀ key, ofGroup key l = ofGroup key l') : l.Perm l' := by
  classical
  refine perm_iff_count.mpr fun event => ?_
  have hcount := congrArg (count event) (h (groupKey event.1 event.2))
  rwa [ofGroup, ofGroup, count_filter (by simp), count_filter (by simp)] at hcount

end Groups

/-- **The batches partition the events within the limits of the webhook.** Each event is sent once,
for its run and in the order of its group; a batch has at most 100 events, of one run, protocol and
day; a batch of resource events that fit alone has at most 1000 resources and 256 KiB; and under a
protocol the size that the loop keeps is the size of the batch so far. Of legacy events it has the
separators only, and the batches do not depend on it. -/
theorem batches_partition (sources : List (BufferedSourceEvent dumps)) :
    (sent (sourceEventBatches sources)).Perm (buffered sources) ∧
    (∀ key, ofGroup key (sent (sourceEventBatches sources)) = ofGroup key (buffered sources)) ∧
    (∀ runId batch, (runId, batch) ∈ sourceEventBatches sources →
      (∃ key, ∀ event ∈ batch, groupKey runId event = key) ∧ batch.length ≤ usageEventBatchSize ∧
      ((∀ event ∈ batch, event.protocol = resourceProtocol ∧ resourceEventFits dumps runId event) →
        (batch.flatMap (·.resources)).length ≤ maxResourceIdsPerBatch ∧
          payloadSize dumps runId batch ≤ maxResourceBatchBytes)) ∧
    ∀ key events, events <+: sources.filter (·.key = key) →
      (key.2.1 ≠ [] → (Batcher.run key.1 key.2.1 events).payloadBytes =
        payloadSize dumps key.1 (Batcher.run key.1 key.2.1 events).batch) ∧
      (key.2.1 = [] → (Batcher.run key.1 key.2.1 events).payloadBytes =
          (lit ", ").length * ((Batcher.run key.1 key.2.1 events).batch.length - 1) ∧
        ∀ bytes (source : BufferedSourceEvent dumps),
          ({ Batcher.run key.1 key.2.1 events with payloadBytes := bytes }.add
            key.1 key.2.1 source).batches =
          ((Batcher.run key.1 key.2.1 events).add key.1 key.2.1 source).batches) := by
  refine ⟨perm_of_ofGroup ofGroup_sent, ofGroup_sent, fun runId batch hbatch => ?_,
    fun key events hevents => ⟨(inv_group hevents.subset).bytes, fun hnil =>
      ⟨(inv_group hevents.subset).separators hnil, fun bytes source => ?_⟩⟩⟩
  swap
  · exact Batcher.batches_add_bytes (by rw [hnil]; decide) bytes
  obtain ⟨⟨key, events⟩, hgroup, hbatch⟩ := mem_flatMap.mp hbatch
  have hkey : ∀ event ∈ batch, groupKey runId event = key := by
    intro event hevent
    have hin : (runId, event) ∈ ofGroup key (buffered sources) := by
      rw [← sent_group hgroup]
      exact mem_flatMap.mpr ⟨_, hbatch, mem_map_of_mem hevent⟩
    exact of_decide_eq_true (mem_filter.mp hin).2
  obtain rfl := mem_sortedGroups hgroup
  obtain ⟨batch, hbatch, ⟨⟩⟩ := mem_map.mp hbatch
  obtain ⟨hne, hlen, hres⟩ := (inv_group (Subset.refl (sources.filter (·.key = key)))).batches.2
    batch hbatch
  refine ⟨⟨key, hkey⟩, hlen, fun hall => hres ?_ fun event hevent => (hall event hevent).2⟩
  obtain ⟨event, hevent⟩ := exists_mem_of_ne_nil _ hne
  rw [← hkey event hevent]
  exact (hall event hevent).1

/-- Of events without a protocol the size kept is not theirs. -/
theorem legacy_size_untracked : ∃ (dumps : Dumps Unit) (source : BufferedSourceEvent dumps),
    (Batcher.run source.runId source.event.protocol [source]).payloadBytes ≠
      payloadSize dumps source.runId (Batcher.run source.runId source.event.protocol
        [source]).batch :=
  ⟨⟨fun _ => lit "\x7b\x7d", fun s => s⟩, ⟨lit "r", ⟨[], [], [], ()⟩, 0, rfl⟩, by decide⟩

end Okou.Usage
