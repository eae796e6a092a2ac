import Okou.Lib.Bytes
import Okou.Lib.Except

/-!
# Netlink attributes

An attribute is written as two words in the byte order of the target, its length and its
type, followed by the payload padded to four bytes.  `find_nla_u16` walks a buffer by the
lengths it reads and answers with the first attribute of a type; the encoder and the walk
align the lengths each for itself.
-/

namespace Okou.Nbd

open List

/-- `to_ne_bytes` of a `u16`, on a little-endian or a big-endian target. -/
def toNeBytes (little : Bool) (x : UInt16) : Bytes :=
  if little then leBytes 2 x.toNat else beBytes 2 x.toNat

/-- `u16::from_ne_bytes`. -/
def fromNeBytes (little : Bool) (bytes : Bytes) : UInt16 :=
  .ofNat (if little then leNat bytes else beNat bytes)

def maxNlaPayloadLen : ℕ := 65535 - 4

/-- The mask of the source clears the two low bits. -/
def alignNlaLen (len : ℕ) : ℕ := (len + 4 - 1) / 4 * 4

/-- What the assertion of `build_nla` lets through. -/
structure Nla where
  nlaType : UInt16
  payload : Bytes
  le_max : payload.length ≤ maxNlaPayloadLen

def buildNla (little : Bool) (a : Nla) : Bytes :=
  let nlaLen := 4 + a.payload.length
  toNeBytes little (.ofNat nlaLen) ++ toNeBytes little a.nlaType ++ a.payload
    ++ replicate (alignNlaLen nlaLen - nlaLen) 0

/-- `read_u16_at`, whose conversion of a slice of two bytes does not fail. -/
def readU16At (little : Bool) (buf : Bytes) (offset : ℕ) (sliceMessage : String) :
    Except String UInt16 :=
  match readExactAt buf offset 2 with
  | none => .error sliceMessage
  | some bytes => .ok (fromNeBytes little bytes)

section Search

variable (little : Bool) (attrs : Bytes) (targetType : UInt16) (message : String)

/-- The body of the loop of `find_nla_u16`: the value it returns, or the next offset.  Its
`checked_add` does not fail, since a slice has at most `isize::MAX` bytes. -/
def nlaTurn (offset : ℕ) : Except String (UInt16 ⊕ ℕ) := do
  let remaining := attrs.length - offset
  require (4 ≤ remaining) "truncated nla"
  let nlaLen ← readU16At little attrs offset "truncated nla"
  let nlaType ← readU16At little attrs (offset + 2) "truncated nla"
  require (4 ≤ nlaLen.toNat) "invalid nla length"
  require (nlaLen.toNat ≤ remaining) "truncated nla"
  if nlaType = targetType then do
    require (4 + 2 ≤ nlaLen.toNat) message
    let value ← readU16At little attrs (offset + 4) message
    return .inl value
  else return .inr (offset + alignNlaLen nlaLen.toNat)

/-- A turn that goes on has passed over a header. -/
theorem nlaTurn_advances {offset next}
    (h : nlaTurn little attrs targetType message offset = .ok (.inr next)) : offset + 4 ≤ next := by
  simp only [nlaTurn, bind_eq_ok, require_eq_ok] at h
  obtain ⟨-, -, nlaLen, -, nlaType, -, -, hmin, -, -, h⟩ := h
  split at h
  · simp only [bind_eq_ok] at h
    obtain ⟨-, -, value, -, h⟩ := h
    cases h
  · cases h
    unfold alignNlaLen
    omega

/-- `find_nla_u16` from an offset on. -/
def findNlaFrom (offset : ℕ) : Except String (Option UInt16) :=
  if _hin : offset < attrs.length then
    match _hturn : nlaTurn little attrs targetType message offset with
    | .error e => .error e
    | .ok (.inl value) => .ok (some value)
    | .ok (.inr next) => findNlaFrom next
  else .ok none
termination_by attrs.length - offset
decreasing_by
  have := nlaTurn_advances little attrs targetType message _hturn
  omega

def findNlaU16 : Except String (Option UInt16) := findNlaFrom little attrs targetType message 0

end Search

variable {little : Bool} {attrs after : Bytes} {offset : ℕ} {a : Nla}

theorem readU16At_of_le (h : offset + 2 ≤ attrs.length) (m) :
    readU16At little attrs offset m = .ok (fromNeBytes little (slice attrs offset 2)) := by
  rw [readU16At, readExactAt_of_le h]

/-- A word is read back from where it stands. -/
theorem readU16At_of_drop {word} (hdrop : attrs.drop offset = word ++ after)
    (hword : word.length = 2)
    (m) : readU16At little attrs offset m = .ok (fromNeBytes little word) := by
  have hlen := congrArg length hdrop
  rw [length_drop, length_append, hword] at hlen
  rw [readU16At_of_le (by omega), slice, hdrop, ← hword, take_left]

theorem length_toNeBytes (x) : (toNeBytes little x).length = 2 := by
  cases little <;> simp [toNeBytes]

theorem fromNeBytes_toNeBytes (x) : fromNeBytes little (toNeBytes little x) = x := by
  cases little <;> simp [fromNeBytes, toNeBytes, leNat_leBytes_of_lt, beNat_beBytes_of_lt,
    x.toNat_lt]

theorem length_buildNla : (buildNla little a).length = alignNlaLen (4 + a.payload.length) := by
  simp only [buildNla, length_append, length_toNeBytes, length_replicate, alignNlaLen]
  omega

theorem toNat_nlaLen : (UInt16.ofNat (4 + a.payload.length)).toNat = 4 + a.payload.length := by
  have hmax := a.le_max
  unfold maxNlaPayloadLen at hmax
  rw [UInt16.toNat_ofNat', Nat.mod_eq_of_lt (by omega)]

variable (targetType : UInt16) (message : String)

/-- **One turn on an attribute** that the encoder wrote, whatever follows it. -/
theorem nlaTurn_buildNla (hdrop : attrs.drop offset = buildNla little a ++ after) :
    nlaTurn little attrs targetType message offset =
      if a.nlaType = targetType then
        if a.payload.length < 2 then .error message
          else .ok (.inl (fromNeBytes little (a.payload.take 2)))
      else .ok (.inr (offset + (buildNla little a).length)) := by
  have hlen := congrArg length hdrop
  rw [length_drop, length_append, length_buildNla] at hlen
  have hle : 4 + a.payload.length ≤
    alignNlaLen (4 + a.payload.length) := by unfold alignNlaLen; omega
  rw [length_buildNla]
  unfold buildNla at hdrop
  simp only [append_assoc] at hdrop
  have htype := congrArg (drop 2) hdrop
  rw [drop_drop, drop_left' (length_toNeBytes _)] at htype
  have hpayload := congrArg (drop 2) htype
  rw [drop_drop, drop_left' (length_toNeBytes _)] at hpayload
  have hremaining : 4 ≤ attrs.length - offset := by omega
  have hwhole : 4 + a.payload.length ≤ attrs.length - offset := by omega
  simp only [nlaTurn, readU16At_of_drop hdrop (length_toNeBytes _),
    readU16At_of_drop htype (length_toNeBytes _),
    fromNeBytes_toNeBytes, require, if_pos hremaining, toNat_nlaLen, if_pos hwhole,
      Nat.le_add_right, if_true,
    Except.bind, bind]
  by_cases htarget : a.nlaType = targetType
  · rw [if_pos htarget, if_pos htarget]
    by_cases hshort : a.payload.length < 2
    · rw [if_neg (by omega), if_pos hshort]
    · rw [← take_append_drop 2 a.payload, append_assoc] at hpayload
      rw [if_pos (by omega), if_neg hshort]
      simp only [readU16At_of_drop hpayload (length_take_of_le (Nat.not_lt.mp hshort))]
      rfl
  · rw [if_neg htarget, if_neg htarget]
    rfl

theorem findNlaFrom_of_lt (hin : offset < attrs.length) :
      findNlaFrom little attrs targetType message offset =
      match nlaTurn little attrs targetType message offset with
      | .error e => .error e
      | .ok (.inl value) => .ok (some value)
      | .ok (.inr next) => findNlaFrom little attrs targetType message next := by
  rw [findNlaFrom, dif_pos hin]
  split <;> next hturn => rw [hturn]

/-- What `find_nla_u16` is for: the word at the start of the first attribute of a type. -/
def firstU16 (little : Bool) (as : List Nla) (targetType : UInt16) (message : String) :
    Except String (Option UInt16) :=
  match as.find? fun a => a.nlaType = targetType with
  | none => .ok none
  | some a => if a.payload.length < 2 then .error message
    else .ok (some (fromNeBytes little (a.payload.take 2)))

/-- The walk, from the start of any of the encoded attributes on. -/
theorem findNlaFrom_flatMap {as} (hdrop : attrs.drop offset = as.flatMap (buildNla little)) :
    findNlaFrom little attrs targetType message offset = firstU16 little as targetType message := by
  induction as generalizing offset with
  | nil =>
    rw [findNlaFrom, dif_neg (Nat.not_lt.mpr (drop_eq_nil_iff.mp hdrop))]
    rfl
  | cons a as ih =>
    rw [flatMap_cons] at hdrop
    have hlen := congrArg length hdrop
    rw [length_drop, length_append] at hlen
    have hpos : 0 < (buildNla little a).length := by rw [length_buildNla, alignNlaLen]; omega
    have hturn := nlaTurn_buildNla targetType message hdrop
    rw [findNlaFrom_of_lt _ _ (by omega), hturn, firstU16]
    by_cases htype : a.nlaType = targetType
    · rw [if_pos htype, find?_cons_of_pos (by simpa using htype)]
      by_cases hshort : a.payload.length < 2 <;> simp [hshort]
    · rw [if_neg htype, find?_cons_of_neg (by simpa using htype)]
      exact ih (by rw [← drop_drop, hdrop, drop_left])

/-- **The search over encoded attributes answers with the first of the type.**  On every byte string
each turn reads inside the buffer and passes over at least the four bytes of a header, so the walk
ends. -/
theorem findNlaU16_spec (little : Bool) (targetType : UInt16) (message : String) :
    (∀ as : List Nla,
      findNlaU16 little (as.flatMap (buildNla little)) targetType message =
        firstU16 little as targetType message) ∧
    ∀ attrs offset, (∀ next, nlaTurn little attrs targetType message offset = .ok (.inr next) →
      offset + 4 ≤ next) ∧
      ∀ m, 4 ≤ attrs.length - offset → ∃ nlaLen nlaType,
        readU16At little attrs offset m = .ok nlaLen ∧
        readU16At little attrs (offset + 2) m = .ok nlaType ∧ (4 + 2 ≤ nlaLen.toNat →
          nlaLen.toNat ≤ attrs.length - offset → ∃ value,
            readU16At little attrs (offset + 4) m = .ok value) := by
  refine ⟨fun as => findNlaFrom_flatMap _ _ rfl, fun attrs offset =>
    ⟨fun next => nlaTurn_advances _ _ _ _, fun m hhead => ?_⟩⟩
  exact ⟨_, _, readU16At_of_le (by omega) m, readU16At_of_le (by omega) m,
    fun hvalue hwhole => ⟨_, readU16At_of_le (by omega) m⟩⟩

end Okou.Nbd
