import Okou.Lib.Bytes

/-!
# Byte streams that come and go in pieces

A stream socket hands over its bytes in pieces of its own choosing, and takes
bytes in the same way.  Here each direction is a script of what the next calls
will do.  `Delivers` and `Willing` describe the scripts of a peer that only ever
sends and accepts bytes, in whatever pieces; every call then makes progress, and
nothing but the concatenation of the pieces can be observed by a loop that asks
again until it is done.
-/

namespace Okou

open List

variable {ε : Type*}

/-! ### Reading -/

/-- What the next read meets: bytes that have arrived, or a fault. -/
inductive Arrival (ε : Type*)
  | bytes (b : Bytes)
  | fault (e : ε)

/-- Read at most `n` bytes.  Bytes that do not fit wait for the next read; the end
of the script is the end of the stream, where a read returns nothing. -/
def recv (n : ℕ) : List (Arrival ε) → List (Arrival ε) × Except ε Bytes
  | [] => ([], .ok [])
  | .fault e :: arrivals => (arrivals, .error e)
  | .bytes b :: arrivals =>
    (if b.length ≤ n then arrivals else .bytes (b.drop n) :: arrivals, .ok (b.take n))

/-- The arrivals are exactly the bytes `s`, in non-empty pieces. -/
def Delivers (arrivals : List (Arrival ε)) (s : Bytes) : Prop :=
  ∃ pieces : List Bytes, arrivals = pieces.map .bytes ∧ (∀ p ∈ pieces, p ≠ []) ∧ pieces.flatten = s

theorem Delivers.eq_nil {arrivals : List (Arrival ε)} (h : Delivers arrivals []) :
    arrivals = [] := by
  obtain ⟨pieces, rfl, hne, hs⟩ := h
  cases pieces with
  | nil => rfl
  | cons p pieces =>
    rw [flatten_cons, append_eq_nil_iff] at hs
    exact absurd hs.1 (hne p mem_cons_self)

/-- A read takes a non-empty front of what is delivered. -/
theorem Delivers.recv {arrivals : List (Arrival ε)} {s : Bytes} (h : Delivers arrivals s)
    (hs : s ≠ []) {n : ℕ}
    (hn : 0 < n) : ∃ arrivals' b s', Okou.recv n arrivals = (arrivals', .ok b) ∧ b ≠ [] ∧
      b.length ≤ n ∧ s = b ++ s' ∧ Delivers arrivals' s' := by
  obtain ⟨pieces, rfl, hne, rfl⟩ := h
  cases pieces with
  | nil => exact absurd rfl hs
  | cons p pieces =>
    have hp : p ≠ [] := hne p mem_cons_self
    have hrest : ∀ q ∈ pieces, q ≠ [] := (forall_mem_cons.mp hne).2
    have htake : p.take n ≠ [] := by
      rw [Ne, take_eq_nil_iff]
      rintro (h | h)
      · exact hn.ne' h
      · exact hp h
    rw [map_cons, Okou.recv]
    by_cases hle : p.length ≤ n
    · rw [if_pos hle]
      refine ⟨_, _, pieces.flatten, rfl, htake, length_take_le _ _, ?_, pieces, rfl, hrest, rfl⟩
      rw [take_of_length_le hle, flatten_cons]
    · rw [if_neg hle]
      refine ⟨_, _, p.drop n ++ pieces.flatten, rfl, htake, length_take_le _ _, ?_,
        p.drop n :: pieces, rfl, ?_, rfl⟩
      · rw [← append_assoc, take_append_drop, flatten_cons]
      · exact forall_mem_cons.mpr ⟨mt drop_eq_nil_iff.mp hle, hrest⟩

/-! ### Writing -/

/-- What the next write meets: room for some bytes, or a fault. -/
inductive Acceptance (ε : Type*)
  | accept (n : ℕ)
  | fault (e : ε)

/-- The sending side: the bytes sent so far, and what the next writes meet; behind
the end of the script there is room for everything. -/
structure Outbox (ε : Type*) where
  sent : Bytes
  script : List (Acceptance ε)

/-- Write from the front of a buffer, and report how many bytes were taken. -/
def Outbox.send (o : Outbox ε) (buf : Bytes) : Outbox ε × Except ε ℕ :=
  match o.script with
  | [] => (⟨o.sent ++ buf, []⟩, .ok buf.length)
  | .accept n :: script => (⟨o.sent ++ buf.take n, script⟩, .ok (min n buf.length))
  | .fault e :: script => (⟨o.sent, script⟩, .error e)

/-- Every write finds some room. -/
def Outbox.Willing (o : Outbox ε) : Prop := ∀ a ∈ o.script, ∃ n, a = .accept (n + 1)

/-- A write sends a non-empty front of its buffer. -/
theorem Outbox.Willing.send {o : Outbox ε} (h : o.Willing) {buf : Bytes} (hbuf : buf ≠ []) :
    ∃ o' n, o.send buf = (o', .ok n) ∧ 0 < n ∧ n ≤ buf.length ∧ o'.sent = o.sent ++ buf.take n ∧
      o'.Willing := by
  have hlen : 0 < buf.length := length_pos_iff.mpr hbuf
  rcases o with ⟨sent, script⟩
  cases script with
  | nil =>
    refine ⟨_, _, rfl, hlen, le_rfl, ?_, ?_⟩
    · rw [take_length]
    · exact forall_mem_nil _
  | cons a script =>
    obtain ⟨n, rfl⟩ := h a mem_cons_self
    refine ⟨_, min (n + 1) buf.length, rfl, by omega, min_le_right _ _, ?_, ?_⟩
    · rcases Nat.le_total (n + 1) buf.length with hle | hle
      · rw [min_eq_left hle]
      · rw [min_eq_right hle, take_length, take_of_length_le hle]
    · exact (forall_mem_cons.mp h).2

end Okou
