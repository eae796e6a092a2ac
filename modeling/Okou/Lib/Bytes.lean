import Mathlib.Data.List.GetD
import Mathlib.Tactic.Ring

/-!
# Byte strings

Slices, in-place overwrites and fixed-width integers over lists of bytes: the
vocabulary shared by positioned file I/O and by the wire formats.  Nothing here
names a file format; the modules above instantiate it.
-/

namespace Okou

open List

/-- A byte string. -/
abbrev Bytes := List UInt8

section Slices

variable {α : Type*}

/-- The `n` elements of `l` from `off`. -/
def slice (l : List α) (off n : ℕ) : List α := (l.drop off).take n

/-- `l` with the elements from `off` on overwritten by `d`. -/
def splice (l : List α) (off : ℕ) (d : List α) : List α :=
  l.take off ++ d ++ l.drop (off + d.length)

variable {l d : List α} {off n : ℕ}

theorem length_slice (h : off + n ≤ l.length) : (slice l off n).length = n := by
  simp only [slice, length_take, length_drop]
  omega

theorem getElem?_slice (l : List α) (off n i : ℕ) : (slice l off n)[i]? = if i < n then l[off + i]?
    else none := by
  simp [slice, getElem?_take]

theorem getD_slice {i} (h : i < n) (a : α) : (slice l off n).getD i a = l.getD (off + i) a := by
  simp [getElem?_slice, if_pos h]

theorem slice_add (l : List α) (off m n : ℕ) : slice l off (m + n) = slice l off m ++
    slice l (off + m) n := by
  simp [slice, take_add]

theorem slice_append_left (h : off + n ≤ l.length) (m) : slice (l ++ m) off n = slice l off n := by
  rw [slice, slice, drop_append_of_le_length (by omega), take_append_of_le_length]
  rw [length_drop]
  omega

theorem slice_drop (l : List α) (k off n : ℕ) : slice (l.drop k) off n = slice l (k + off) n := by
  rw [slice, slice, drop_drop]

@[simp] theorem slice_zero (l : List α) (off : ℕ) : slice l off 0 = [] := by
  rw [slice, take_zero]

theorem length_splice (h : off + d.length ≤ l.length) : (splice l off d).length = l.length := by
  simp only [splice, length_append, length_take, length_drop]
  omega

theorem getElem?_splice (h : off ≤ l.length) (i : ℕ) : (splice l off d)[i]? =
      if i < off then l[i]? else if i < off + d.length then d[i - off]? else l[i]? := by
  have htake : (l.take off).length = off := by rw [length_take]; omega
  unfold splice
  rw [append_assoc]
  split
  · next hi => rw [getElem?_append_left (by omega), getElem?_take, if_pos hi]
  · next hi =>
    rw [getElem?_append_right (by omega), htake]
    split
    · next hd => rw [getElem?_append_left (by omega)]
    · next hd =>
      rw [getElem?_append_right (by omega), getElem?_drop]
      congr 1
      omega

theorem getD_splice (h : off ≤ l.length) (i : ℕ) (a : α) : (splice l off d).getD i a =
      if off ≤ i ∧ i < off + d.length then d.getD (i - off) a else l.getD i a := by
  simp only [getD_eq_getElem?_getD, getElem?_splice h]
  by_cases hlo : i < off
  · rw [if_pos hlo, if_neg (by omega)]
  · rw [if_neg hlo]
    by_cases hhi : i < off + d.length
    · rw [if_pos hhi, if_pos (by omega)]
    · rw [if_neg hhi, if_neg (by omega)]

/-- Two lists of one length are equal when they agree below it. -/
theorem eq_of_getD {m} (a : α) (hlen : l.length = m.length)
    (h : ∀ i, i < l.length → l.getD i a = m.getD i a) : l = m := by
  refine ext_getElem hlen fun i hl hm => ?_
  have hi := h i hl
  rwa [getD_eq_getElem l a hl, getD_eq_getElem m a hm] at hi

/-- Pieces of length `n`; the last one may be shorter.  The fuel is the length of the list. -/
def chunksOfAux (n : ℕ) : ℕ → List α → List (List α)
  | 0, _ => []
  | _ + 1, [] => []
  | fuel + 1, a :: l => (a :: l).take n :: chunksOfAux n fuel ((a :: l).drop n)

/-- The list in pieces of length `n`; the last one may be shorter. -/
def chunksOf (n : ℕ) (l : List α) : List (List α) := chunksOfAux n l.length l

theorem flatten_chunksOfAux (hn : 0 < n) {fuel} (h : l.length ≤ fuel) :
    (chunksOfAux n fuel l).flatten = l := by
  induction fuel generalizing l with
  | zero =>
    exact (eq_nil_of_length_eq_zero (by omega)).symm
  | succ fuel ih =>
    cases l with
    | nil => rfl
    | cons a l =>
      rw [chunksOfAux, flatten_cons, ih, take_append_drop]
      rw [length_drop]
      omega

theorem flatten_chunksOf (hn : 0 < n) (l : List α) : (chunksOf n l).flatten = l :=
  flatten_chunksOfAux hn (Nat.le_refl _)

theorem of_mem_chunksOfAux (hn : 0 < n) {fuel} {p}
    (hp : p ∈ chunksOfAux n fuel l) : p ≠ [] ∧ p.length ≤ n := by
  induction fuel generalizing l with
  | zero => cases hp
  | succ fuel ih =>
    cases l with
    | nil => cases hp
    | cons a l =>
      rcases mem_cons.mp hp with rfl | hrest
      · refine ⟨?_, length_take_le _ _⟩
        obtain ⟨m, rfl⟩ := Nat.exists_eq_succ_of_ne_zero hn.ne'
        exact cons_ne_nil _ _
      · exact ih hrest

/-- The pieces are neither empty nor too long. -/
theorem of_mem_chunksOf (hn : 0 < n) {p} (hp : p ∈ chunksOf n l) : p ≠ [] ∧ p.length ≤ n :=
  of_mem_chunksOfAux hn hp

end Slices

/-! ### Positioned reads and writes on a sparse file -/

variable (f : Bytes)

/-- `pread_exact`: the `n` bytes at `off`, or `none` when the file ends first.
An empty read never touches the file. -/
def readExactAt (f : Bytes) (off n : ℕ) : Option Bytes :=
  if n = 0 ∨ off + n ≤ f.length then some (slice f off n) else none

/-- `pwrite`: overwrite from `off`, extending the file with zeros up to `off`
when it is shorter.  An empty write leaves the file alone. -/
def pwrite (f : Bytes) (off : ℕ) (d : Bytes) : Bytes :=
  if d = [] then f else splice (f ++ List.replicate (off - f.length) 0) off d

@[simp] theorem pwrite_nil (off : ℕ) : pwrite f off [] = f := by
  simp [pwrite]

variable {n : ℕ} (bs : Bytes)

theorem readExactAt_of_le {f} {off} (h : off + n ≤ f.length) :
    readExactAt f off n = some (slice f off n) := if_pos (Or.inr h)

theorem getD_append_replicate_zero (n i : ℕ) : (f ++ List.replicate n 0).getD i 0 = f.getD i 0 := by
  simp only [getD_eq_getElem?_getD, getElem?_append, getElem?_replicate]
  split
  · rfl
  · next h =>
    rw [getElem?_eq_none (Nat.le_of_not_lt h)]
    split <;> rfl

/-- **What a positioned write changes**: the bytes it covers, and no other. -/
theorem getD_pwrite (off : ℕ) (d : Bytes) (i : ℕ) : (pwrite f off d).getD i 0 =
      if off ≤ i ∧ i < off + d.length then d.getD (i - off) 0 else f.getD i 0 := by
  unfold pwrite
  split
  · next h => subst h; rw [if_neg (by simp only [length_nil]; omega)]
  · rw [getD_splice (by simp only [length_append, length_replicate]; omega),
      getD_append_replicate_zero]

theorem length_pwrite {f} {off} {d} (hd : d ≠ []) :
    (pwrite f off d).length = max f.length (off + d.length) := by
  unfold pwrite splice
  rw [if_neg hd]
  simp only [length_append, length_take, length_replicate, length_drop]
  omega

theorem length_le_length_pwrite (off : ℕ) (d : Bytes) : f.length ≤ (pwrite f off d).length := by
  by_cases hd : d = []
  · rw [hd, pwrite_nil]
  · rw [length_pwrite hd]; exact le_max_left _ _

/-! ### Fixed-width integers -/

/-- The low `n` bytes of `x`, least significant first. -/
def leBytes : ℕ → ℕ → Bytes
  | 0, _ => []
  | n + 1, x => UInt8.ofNat (x % 256) :: leBytes n (x / 256)

/-- The integer a little-endian byte string denotes. -/
def leNat : Bytes → ℕ
  | [] => 0
  | b :: bs => b.toNat + 256 * leNat bs

/-- The low `n` bytes of `x`, most significant first. -/
def beBytes (n x : ℕ) : Bytes := (leBytes n x).reverse

/-- The integer a big-endian byte string denotes. -/
def beNat (bs : Bytes) : ℕ := leNat bs.reverse

@[simp] theorem length_leBytes (n x : ℕ) : (leBytes n x).length = n := by
  induction n generalizing x with
  | zero => rfl
  | succ n ih => simp [leBytes, ih]

@[simp] theorem length_beBytes (n x : ℕ) : (beBytes n x).length = n := by
  simp [beBytes]

theorem leNat_leBytes (n x : ℕ) : leNat (leBytes n x) = x % 256 ^ n := by
  induction n generalizing x with
  | zero => simp [leBytes, leNat, Nat.mod_one]
  | succ n ih =>
    simp only [leBytes, leNat, ih]
    rw [UInt8.toNat_ofNat_of_lt' (by simpa using Nat.mod_lt x (by decide)), pow_succ', Nat.mod_mul]

theorem leNat_leBytes_of_lt {x} (h : x < 256 ^ n) : leNat (leBytes n x) = x := by
  rw [leNat_leBytes, Nat.mod_eq_of_lt h]

theorem beNat_beBytes_of_lt {x} (h : x < 256 ^ n) : beNat (beBytes n x) = x := by
  rw [beNat, beBytes, reverse_reverse, leNat_leBytes_of_lt h]

theorem leBytes_leNat : leBytes bs.length (leNat bs) = bs := by
  induction bs with
  | nil => rfl
  | cons b bs ih =>
    have hb : b.toNat < 256 := b.toNat_lt
    simp only [length_cons, leBytes, leNat]
    rw [show (b.toNat + 256 * leNat bs) % 256 = b.toNat by omega,
      show (b.toNat + 256 * leNat bs) / 256 = leNat bs by omega, ih, UInt8.ofNat_toNat]

theorem leNat_lt : leNat bs < 256 ^ bs.length := by
  induction bs with
  | nil => simp [leNat]
  | cons b bs ih =>
    have hb : b.toNat < 256 := b.toNat_lt
    simp only [leNat, length_cons]
    omega

theorem beNat_lt : beNat bs < 256 ^ bs.length := by
  simpa [beNat] using leNat_lt bs.reverse

theorem beBytes_beNat {bs} (h : bs.length = n) : beBytes n (beNat bs) = bs := by
  have hrev := leBytes_leNat bs.reverse
  rw [length_reverse, h] at hrev
  rw [beBytes, beNat, hrev, reverse_reverse]

end Okou
