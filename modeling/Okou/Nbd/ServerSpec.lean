import Mathlib.Data.List.Forall2
import Okou.Nbd.Server

/-!
# What the dispatcher is for

The server as a function of the requests alone: for each request one answer,
decided by what the COW handle returned for it.  Nothing here knows of sockets,
buffers or shutdown.
-/

namespace Okou.Nbd

open List

/-- A call on the COW handle. -/
inductive CowCall
  | read (offset len : ℕ)
  | write (offset : ℕ) (payload : Bytes)
  | sync
  deriving DecidableEq

/-- Reads and writes over 32 MiB are refused. -/
def NbdRequest.oversized (r : NbdRequest) : Bool :=
  decide ((r.command = .read ∨ r.command = .write) ∧ maxRequestLength < r.length)

/-- The call a request makes on the COW handle. -/
def cowCall (r : WireRequest) : Option CowCall :=
  if r.request.oversized then none
  else
    match r.request.command with
    | .read => some (.read r.request.offset.toNat r.request.length.toNat)
    | .write => some (.write r.request.offset.toNat r.payload)
    | .flush => some .sync
    | .trim => none
    | .disconnect => some .sync

/-- An answer on the wire: a reply, and the data behind it. -/
structure Answer where
  reply : NbdReply
  data : Bytes
  deriving DecidableEq

/-- The bytes of an answer. -/
def Answer.bytes (a : Answer) : Bytes := serializeReply a.reply ++ a.data

section Serve

variable {σ : Type*} (dev : CowDevice σ) (s : σ) (r : WireRequest)

/-- The state a call leaves, and the data it returns: bytes for a read, nothing
for the others. -/
def CowCall.run (s : σ) : CowCall → σ × Except NbdCowError Bytes
  | .read offset len => dev.read s offset (List.replicate len 0)
  | .write offset payload =>
    match dev.write s offset payload with
    | (s', result) => (s', result.map fun _ => [])
  | .sync =>
    match dev.sync s with
    | (s', result) => (s', result.map fun _ => [])

/-- The answer to a request, from the result of its call. -/
def answer (r : WireRequest) : Except NbdCowError Bytes → Answer
  | .ok data => ⟨successReply r.request.handle, data⟩
  | .error _ => ⟨⟨eio, r.request.handle⟩, []⟩

/-- The server as it should be: one request in, one answer out. -/
def serve (s : σ) (r : WireRequest) : σ × Answer :=
  match cowCall r with
  | some call =>
    match call.run dev s with
    | (s', result) => (s', answer r result)
  | none =>
    (s, if r.request.oversized then ⟨⟨eio, r.request.handle⟩, []⟩
      else ⟨successReply r.request.handle, []⟩)

/-- The server over a session. -/
def serveAll : σ → List WireRequest → σ × List Answer
  | s, [] => (s, [])
  | s, r :: rs =>
    match serve dev s r with
    | (s', a) =>
      match serveAll s' rs with
      | (s'', as) => (s'', a :: as)

/-- What an answer owes its request: the handle; success or `EIO`, the latter for
every oversized request; and data of the announced length exactly behind a read
that succeeded. -/
structure Fits (r : WireRequest) (a : Answer) : Prop where
  handle_eq : a.reply.handle = r.request.handle
  error_eq : a.reply.error = 0 ∨ a.reply.error = eio
  refused : r.request.oversized = true → a.reply.error = eio
  length_data : r.request.command = .read → a.reply.error = 0 →
    a.data.length = r.request.length.toNat
  no_data : ¬ (r.request.command = .read ∧ a.reply.error = 0) → a.data = []

variable {dev}

theorem eio_ne_zero : eio ≠ 0 := by decide

theorem fits_error : Fits r ⟨⟨eio, r.request.handle⟩, []⟩ where
  handle_eq := rfl
  error_eq := .inr rfl
  refused _ := rfl
  length_data _ h := absurd h eio_ne_zero
  no_data _ := rfl

variable {call : CowCall} {r}

/-- A success fits a request that is not refused, if its data does. -/
theorem fits_success {data} (hsize : r.request.oversized = false)
    (hread : r.request.command = .read → data.length = r.request.length.toNat)
    (hother : r.request.command ≠ .read → data = []) :
      Fits r ⟨successReply r.request.handle, data⟩ where
  handle_eq := rfl
  error_eq := .inl rfl
  refused h := by rw [hsize] at h; simp at h
  length_data h _ := hread h
  no_data h := hother fun hc => h ⟨hc, rfl⟩

/-- The bytes a call returns when it succeeds. -/
def CowCall.dataLen : CowCall → ℕ
  | .read _ len => len
  | .write _ _ => 0
  | .sync => 0

theorem CowCall.length_run {s s'} {data}
    (h : call.run dev s = (s', .ok data)) : data.length = call.dataLen := by
  have hmap : ∀ {α : Type} (r : Except NbdCowError α), r.map (fun _ => ([] : Bytes)) = .ok data →
    data = [] := by
    intro α r hr
    cases r with
    | error e => simp [Except.map] at hr
    | ok a => exact (Except.ok.inj hr).symm
  cases call with
  | read offset len => rw [dev.length_read _ _ _ _ _ h, length_replicate]; rfl
  | write offset payload => rw [hmap _ (Prod.mk.inj h).2]; rfl
  | sync => rw [hmap _ (Prod.mk.inj h).2]; rfl

theorem cowCall_some (h : cowCall r = some call) : r.request.oversized = false ∧
      call.dataLen = if r.request.command = .read then r.request.length.toNat else 0 := by
  unfold cowCall at h
  split at h
  · simp at h
  · next hsize =>
    refine ⟨by simpa using hsize, ?_⟩
    cases hcmd : r.request.command <;> rw [hcmd] at h <;>
      first
      | (obtain rfl := Option.some.inj h; simp [CowCall.dataLen])
      | simp at h

theorem cowCall_none (h : cowCall r = none) (hsize : r.request.oversized = false) :
    r.request.command = .trim := by
  rw [cowCall, hsize] at h
  cases hcmd : r.request.command <;> simp [hcmd] at h ⊢

/-- The abstract server on a request whose call is known. -/
theorem serve_of_cowCall {s} (h : cowCall r = some call) :
    serve dev s r = ((call.run dev s).1, answer r (call.run dev s).2) := by
  rw [serve, h]

theorem serve_of_oversized {s} (h : r.request.oversized) :
    serve dev s r = (s, ⟨⟨eio, r.request.handle⟩, []⟩) := by
  have hcall : cowCall r = none := by rw [cowCall, h, if_pos rfl]
  rw [serve, hcall, h, if_pos rfl]

/-- The answers of the abstract server fit. -/
theorem fits_serve (r) : Fits r (serve dev s r).2 := by
  unfold serve
  cases hcall : cowCall r with
  | none =>
    cases hsize : r.request.oversized with
    | true => exact fits_error r
    | false =>
      have hcmd := cowCall_none hcall hsize
      exact fits_success hsize (fun h => by rw [hcmd] at h; simp at h) fun _ => rfl
  | some call =>
    obtain ⟨hsize, hlen⟩ := cowCall_some hcall
    rcases hrun : call.run dev s with ⟨s', _ | data⟩
    · simp only [hrun]
      exact fits_error r
    · simp only [hrun]
      have hdata := call.length_run hrun
      rw [hlen] at hdata
      refine fits_success hsize (fun h => ?_) fun h => ?_
      · rw [hdata, if_pos h]
      · rw [if_neg h] at hdata
        exact length_eq_zero_iff.mp hdata

theorem fits_serveAll (rs) : List.Forall₂ Fits rs (serveAll dev s rs).2 := by
  induction rs generalizing s with
  | nil => exact .nil
  | cons r rs ih => exact .cons (fits_serve s r) (ih _)

/-- The session changes the COW state through its calls alone, in request order. -/
theorem serveAll_state (rs) :
    (serveAll dev s rs).1 = (rs.filterMap cowCall).foldl (fun s call => (call.run dev s).1) s := by
  induction rs generalizing s with
  | nil => rfl
  | cons r rs ih =>
    have hstep : (serveAll dev s (r :: rs)).1 = (serveAll dev (serve dev s r).1 rs).1 := rfl
    rw [hstep, ih, serve]
    cases hcall : cowCall r with
    | none => rw [filterMap_cons_none hcall]
    | some call => rw [filterMap_cons_some hcall, foldl_cons]

end Serve

end Okou.Nbd
