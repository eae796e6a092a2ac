import Mathlib.Data.Int.ModEq
import Okou.Nbd.Pool

/-!
# The workers of a demand scan

`pool/scan.rs` one step at a time: the workers of a cohort take indexes from one
atomic cursor, and what sysfs and the claim locks answer comes with the events.
-/

namespace Okou.Nbd

open List Prod

/-- Where a worker is in `scan_and_claim`, with the index it has in its hands. -/
inductive ScanPhase
  | next
  | precheck (index : ℕ)
  | acquire (index : ℕ)
  | recheck (index : ℕ)
  | done (result : ScanResult)
  deriving DecidableEq

def ScanPhase.index : ScanPhase → Option ℕ
  | .precheck index | .acquire index | .recheck index | .done (.claim index) => some index
  | _ => none

/-- `taken` has every index the cursor has given, with the worker that took it. -/
structure ScanCohort where
  scan : SharedScan
  phase : ℕ → ScanPhase
  taken : List (ℕ × ℕ)

/-- A worker moves on; its task may fail, and `answer` is what its check says otherwise. -/
structure ScanEvent where
  worker : ℕ
  answer : Except String Bool

/-- `next_index`, with the cursor after it. -/
def SharedScan.nextIndex (scan : SharedScan) : Option (ℕ × SharedScan) :=
  if scan.nextOffset < scan.maxDevices then
    some ((scan.start + scan.nextOffset) % scan.maxDevices,
      { scan with nextOffset := scan.nextOffset + 1 })
  else none

def ScanCohort.goto (s : ScanCohort) (worker : ℕ) (phase : ScanPhase) : ScanCohort :=
  { s with phase := Function.update s.phase worker phase }

/-- A step of `scan_and_claim` in one of the first `workers` workers. -/
def scanStep (workers : ℕ) (s : ScanCohort) (event : ScanEvent) : Option ScanCohort :=
  if event.worker < workers then
    match s.phase event.worker, event.answer with
    | .done _, _ => none
    | _, .error message => s.goto event.worker (.done (.joinError message))
    | .next, .ok _ =>
      match s.scan.nextIndex with
      | none => s.goto event.worker (.done (.failed .noFreeDevice))
      | some (index, scan) =>
        { s with scan, taken := s.taken ++ [(event.worker, index)] : ScanCohort }.goto event.worker
          (if index ∈ scan.exclude then .next else .precheck index)
    | .precheck index, .ok free => s.goto event.worker (if free then .acquire index else .next)
    | .acquire index, .ok granted => s.goto event.worker (if granted then .recheck index else .next)
    | .recheck index, .ok free => s.goto event.worker (if free then .done (.claim index) else .next)
  else none

variable {workers : ℕ} {scan : SharedScan} {s s' : ScanCohort} {event : ScanEvent}
  {events : List ScanEvent}

def ScanCohort.init (scan : SharedScan) : ScanCohort :=
  ⟨{ scan with nextOffset := 0 }, fun _ => .next, []⟩

/-- What holds of a cohort that started with the cursor of `scan`. -/
structure ScanCohort.Inv (scan : SharedScan) (s : ScanCohort) : Prop where
  cursor : s.scan = { scan with nextOffset := s.taken.length }
  bound : s.taken.length ≤ scan.maxDevices
  consecutive : s.taken.map snd = (range s.taken.length).map fun offset =>
    (scan.start + offset) % scan.maxDevices
  holds : ∀ worker, ∀ index ∈ (s.phase worker).index, (worker, index) ∈ s.taken
  exhausted : ∀ worker, s.phase worker = .done (.failed .noFreeDevice) →
    s.taken.length = scan.maxDevices

namespace ScanCohort

theorem inv_init : (init scan).Inv scan where
  cursor := rfl
  bound := Nat.zero_le _
  consecutive := rfl
  holds _ _ h := by cases h
  exhausted _ h := by cases h

/-- A worker may drop its index or keep it, and reports exhaustion at the end of the cursor. -/
theorem Inv.goto (h : s.Inv scan) {worker} {phase}
    (hindex : ∀ index ∈ phase.index, (worker, index) ∈ s.taken)
    (hend : phase = .done (.failed .noFreeDevice) → s.taken.length = scan.maxDevices) :
      (s.goto worker phase).Inv scan where
  cursor := h.cursor
  bound := h.bound
  consecutive := h.consecutive
  holds other := by
    rcases eq_or_ne other worker with rfl | hne
    · simpa [ScanCohort.goto] using hindex
    · simpa [ScanCohort.goto, hne] using h.holds other
  exhausted other := by
    rcases eq_or_ne other worker with rfl | hne
    · simpa [ScanCohort.goto] using hend
    · simpa [ScanCohort.goto, hne] using h.exhausted other

/-- Taking the next index moves the cursor over it. -/
theorem Inv.take (h : s.Inv scan) {worker index} {cursor}
    (hnext : s.scan.nextIndex = some (index, cursor)) :
    Inv scan { s with scan := cursor, taken := s.taken ++ [(worker, index)] } := by
  obtain ⟨hlt, heq⟩ := Option.ite_none_right_eq_some.mp hnext
  cases heq
  rw [h.cursor] at hlt ⊢
  constructor
  · simp
  · simpa using Nat.succ_le_of_lt hlt
  · simp [range_succ, h.consecutive]
  · intro other i hi
    exact mem_append_left _ (h.holds other i hi)
  · intro other hother
    exact absurd (h.exhausted other hother) (Nat.ne_of_lt hlt)

theorem Inv.step (h : s.Inv scan) (hstep : scanStep workers s event = some s') : s'.Inv scan := by
  rw [scanStep] at hstep
  have hheld := h.holds event.worker
  split at hstep
  case isFalse => cases hstep
  split at hstep
  case h_1 => cases hstep
  case h_3 hphase _ =>
    split at hstep
    case h_1 hnext =>
      cases hstep
      refine h.goto (by simp [ScanPhase.index]) fun _ => ?_
      have := h.bound
      simp [SharedScan.nextIndex, h.cursor] at hnext
      omega
    case h_2 hnext =>
      cases hstep
      apply (h.take hnext).goto
      · split <;> simp [ScanPhase.index]
      · split <;> simp
  all_goals
    cases hstep
    apply h.goto
    · grind [ScanPhase.index]
    · grind

end ScanCohort

/-- **The cursor hands out every index once, in turn, before any worker reports that there is
none.** -/
theorem scan_indexes (hrun : runEvents (scanStep workers) (.init scan) events = some s) :
    (s.taken.map snd).Nodup ∧ (∀ index ∈ s.taken.map snd, index < scan.maxDevices) ∧
    s.taken.map snd = (range s.taken.length).map (fun offset =>
      (scan.start + offset) % scan.maxDevices) ∧
    (∀ worker, ∀ index ∈ (s.phase worker).index, (worker, index) ∈ s.taken) ∧
    ∀ worker, s.phase worker = .done (.failed .noFreeDevice) →
      ∀ index < scan.maxDevices, ∃ other, (other, index) ∈ s.taken := by
  have h := runEvents_invariant (ScanCohort.Inv scan) (fun _ _ _ h hstep =>
    h.step hstep) ScanCohort.inv_init hrun
  have hnodup : (s.taken.map snd).Nodup := by
    rw [h.consecutive]
    refine nodup_range.map_on fun i hi j hj hij => ?_
    have hbound := h.bound
    exact (Nat.ModEq.add_left_cancel' _ hij).eq_of_lt_of_lt (by grind) (by grind)
  have hlt : ∀ index ∈ s.taken.map snd, index < scan.maxDevices := by
    rw [h.consecutive, forall_mem_map]
    intro offset hoffset
    exact Nat.mod_lt _ (Nat.lt_of_lt_of_le (Nat.zero_lt_of_lt (mem_range.mp hoffset)) h.bound)
  refine ⟨hnodup, hlt, h.consecutive, h.holds, fun worker hdone index hindex => ?_⟩
  have hperm : s.taken.map snd ~ range scan.maxDevices := by
    refine (hnodup.subperm fun i hi => mem_range.mpr (hlt i hi)).perm_of_length_le ?_
    simp [h.exhausted worker hdone]
  simpa using hperm.mem_iff.mpr (mem_range.mpr hindex)

/-- Two workers share two indexes from `1` on; the first finds its own in use, and nothing after it.
-/
theorem scan_indexes_exhausted : ∃ s, runEvents (scanStep 2) (.init ⟨2, 1, 0, ∅⟩)
    [⟨0, .ok true⟩, ⟨1, .ok true⟩, ⟨0, .ok false⟩, ⟨0, .ok true⟩] = some s ∧
    s.phase 0 = .done (.failed .noFreeDevice) ∧ ∀ index < 2, ∃ other, (other, index) ∈ s.taken :=
  exists_run_and (by decide) fun _ hs => (scan_indexes hs).2.2.2.2 0

end Okou.Nbd
