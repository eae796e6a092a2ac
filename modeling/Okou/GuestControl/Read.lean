import Okou.GuestControl.Wire
import Okou.Lib.Codec

/-!
# Reading payload fields

The decoders of `guest-control-proto` walk an offset over a payload with the reads of
`read.rs`: integers, slices and UTF-8 strings, each with the text of the error it gives
when the payload ends too early.
-/

namespace Okou.GuestControl

open List

/-- A decoder of a payload. -/
abbrev Decode := Parse UInt8 ProtocolError

variable {α : Type} (readAt : Bytes → ℕ → Option α)

/-- Read at the offset and step over what was read. -/
def readWith {α : Type} (readAt : Bytes → ℕ → Option α) (size : ℕ) (err : String) : Decode α :=
  fun payload offset =>
    match readAt payload offset with
    | none => .error (.invalidPayload err)
    | some value => .ok (value, offset + size)

variable (len : ℕ) (err truncatedErr utf8Err : String) {enc : α → Bytes} {readAt}

def readU8 : Decode UInt8 := readWith readU8At 1 err

def readU16 : Decode UInt16 := readWith readU16At 2 err

def readU32 : Decode UInt32 := readWith readU32At 4 err

def readI32 : Decode Int32 := readWith readI32At 4 err

def readSlice : Decode Bytes :=
  readWith (fun payload offset => getRange payload offset (offset + len)) len err

/-- The UTF-8 bytes of a string. -/
def strBytes (s : String) : Bytes := s.toByteArray.data.toList

/-- The string with these bytes, if they are UTF-8. -/
def fromUtf8 (bytes : Bytes) : Option String := String.fromUTF8? ⟨bytes.toArray⟩

def readStr : Decode String := do
  let bytes ← readSlice len truncatedErr
  match fromUtf8 bytes with
  | none => Parse.fail (.invalidPayload utf8Err)
  | some s => return s

/-- Nothing of the payload is left. -/
def expectConsumed : Decode Unit := fun payload offset =>
  if offset ≠ payload.length then .error (.invalidPayload err) else .ok ((), offset)

/-- A check, made while decoding. -/
def liftCheck (check : Except ProtocolError Unit) : Decode Unit := fun _ offset =>
  match check with
  | .error e => .error e
  | .ok () => .ok ((), offset)

/-- Stop at a payload that is not well formed. -/
def invalid {α : Type} (msg : String) : Decode α := Parse.fail (.invalidPayload msg)

theorem fromUtf8_eq_some {bytes} {s} : fromUtf8 bytes = some s ↔ bytes = strBytes s := by
  unfold fromUtf8 String.fromUTF8? strBytes
  constructor
  · intro h
    split at h
    · cases h
      rfl
    · cases h
  · rintro rfl
    rw [dif_pos s.isValidUTF8]
    rfl

/-! ### Their grammars -/

/-- A read at an offset reads an encoding of a fixed size if it finds exactly that. -/
theorem codes_readWith {size} {P} (hsize : ∀ a, P a → (enc a).length = size)
    (hread : ∀ payload offset a, offset ≤ payload.length →
      (readAt payload offset = some a ↔ P a ∧ enc a <+: payload.drop offset)) :
    (readWith readAt size err).Codes enc P := by
  intro payload offset hoff a offset'
  unfold readWith
  constructor
  · intro h
    split at h
    · cases h
    · rename_i value hvalue
      cases h
      obtain ⟨hP, rest, hrest⟩ := (hread payload offset a hoff).mp hvalue
      exact ⟨enc a, rest, hrest.symm, by rw [hsize a hP], hP, rfl⟩
  · rintro ⟨_, rest, htext, rfl, hP, rfl⟩
    rw [(hread payload offset a hoff).mpr ⟨hP, rest, htext.symm⟩, hsize a hP]

/-- Reading a number of bytes, and making a value of them. -/
theorem getRange_map {size} {g} (henc : ∀ a, (enc a).length = size)
    (hleft : ∀ a, g (enc a) = a) (hright : ∀ bytes, bytes.length = size → enc (g bytes) = bytes)
    (payload : Bytes) (offset : ℕ) (a : α) (hoff : offset ≤ payload.length) :
    (getRange payload offset (offset + size)).map g = some a ↔ True ∧
      enc a <+: payload.drop offset := by
  simp only [true_and, Option.map_eq_some_iff]
  constructor
  · rintro ⟨bytes, hbytes, rfl⟩
    rw [getRange_add] at hbytes
    obtain ⟨hle, ⟨⟩⟩ := Option.ite_none_right_eq_some.mp hbytes
    rw [hright _ (length_slice hle)]
    exact take_prefix _ _
  · intro h
    have hlen := h.length_le
    rw [henc, length_drop] at hlen
    refine ⟨enc a, ?_, hleft a⟩
    rw [getRange_add, if_pos (by omega), slice, ← henc a, ← prefix_iff_eq_take.mp h]

theorem codes_readU8 : (readU8 err).Codes (fun b => [b]) fun _ => True := by
  refine codes_readWith err (fun _ _ => rfl) fun payload offset b _ => ?_
  rw [readU8At, true_and, singleton_prefix_iff_head?_eq_some, head?_drop]

/-- A value in one byte, where every other byte is refused. -/
theorem codes_tag {next} {err} (hnext : ∀ a, ∃ tag, enc a = [tag] ∧ next tag = pure a)
    (hother : ∀ tag, (∃ a, enc a = [tag]) ∨ ∃ msg, next tag = invalid msg) :
    (readU8 err >>= next).Codes enc fun _ => True := by
  have htag {a : α} {tag : UInt8} (h : enc a = [tag]) : next tag = pure a := by
    obtain ⟨tag', henc, hpure⟩ := hnext a
    obtain rfl := (List.cons.inj (h.symm.trans henc)).1
    exact hpure
  have hreads (tag : UInt8) : (next tag).Reads fun a text _ => enc a = [tag] ∧ text = [] := by
    rcases hother tag with ⟨b, hb⟩ | ⟨msg, hmsg⟩
    · rw [htag hb]
      refine (Parse.Reads.pure b).congr fun a text _ =>
        and_congr_left' ⟨fun h => h ▸ hb, fun ha => ?_⟩
      have hrun := congrFun (congrFun ((htag ha).symm.trans (htag hb)) []) 0
      exact (Parse.pure_eq_ok.mp hrun.symm).1
    · rw [hmsg]
      refine (Parse.Reads.fail _).congr fun a text _ => ⟨False.elim, fun ⟨ha, _⟩ => ?_⟩
      have hrun := congrFun (congrFun ((htag ha).symm.trans hmsg) []) 0
      cases hrun
  refine ((codes_readU8 err).bind hreads).congr fun a text rest => ?_
  constructor
  · rintro ⟨tag, _, rfl, -, henc, rfl⟩
    exact ⟨trivial, henc.symm⟩
  · rintro ⟨-, rfl⟩
    obtain ⟨tag, henc, -⟩ := hnext a
    exact ⟨tag, [], henc, trivial, henc, rfl⟩

theorem codes_readU16 : (readU16 err).Codes u16Bytes fun _ => True :=
  codes_readWith err (fun x _ => length_u16Bytes x)
    (getRange_map length_u16Bytes ofNat_beNat_u16Bytes fun _ => u16Bytes_ofNat_beNat)

theorem codes_readU32 : (readU32 err).Codes u32Bytes fun _ => True :=
  codes_readWith err (fun x _ => length_u32Bytes x)
    (getRange_map length_u32Bytes ofNat_beNat_u32Bytes fun _ => u32Bytes_ofNat_beNat)

theorem codes_readI32 : (readI32 err).Codes i32Bytes fun _ => True := by
  refine codes_readWith err (fun x _ => length_i32Bytes x) (getRange_map length_i32Bytes ?_ ?_)
  · intro x
    rw [i32Bytes, ofNat_beNat_u32Bytes]
    rfl
  · intro bytes hlen
    exact u32Bytes_ofNat_beNat hlen

theorem codes_readSlice : (readSlice len err).Codes id fun bytes => bytes.length = len := by
  refine codes_readWith err (fun _ h => h) fun payload offset bytes hoff => ?_
  rw [getRange_add]
  constructor
  · intro h
    obtain ⟨hle, ⟨⟩⟩ := Option.ite_none_right_eq_some.mp h
    exact ⟨length_slice hle, take_prefix _ _⟩
  · rintro ⟨rfl, h⟩
    have hlen := h.length_le
    rw [id, length_drop] at hlen
    rw [if_pos (by omega), slice]
    exact congrArg some (prefix_iff_eq_take.mp h).symm

theorem codes_readStr : (readStr len truncatedErr utf8Err).Codes strBytes fun s =>
    (strBytes s).length = len := by
  have hutf8 (bytes : Bytes) : (match fromUtf8 bytes with
      | none => Parse.fail (.invalidPayload utf8Err)
      | some s => pure s : Decode String).Reads fun s text _ => bytes = strBytes s ∧ text = [] := by
    cases hs : fromUtf8 bytes with
    | none =>
      refine (Parse.Reads.fail _).congr fun s text _ => ⟨False.elim, fun h => ?_⟩
      rw [fromUtf8_eq_some.mpr h.1] at hs
      cases hs
    | some s' =>
      refine (Parse.Reads.pure s').congr fun s text _ => ?_
      rw [← fromUtf8_eq_some, hs, Option.some.injEq, eq_comm]
  refine ((codes_readSlice len truncatedErr).bind hutf8).congr fun s text _ => ?_
  constructor
  · rintro ⟨_, _, rfl, hlen, rfl, rfl⟩
    exact ⟨hlen, append_nil _⟩
  · rintro ⟨hlen, rfl⟩
    exact ⟨strBytes s, [], (append_nil _).symm, hlen, rfl, rfl⟩

theorem reads_expectConsumed : (expectConsumed err).Reads fun _ text rest => text = [] ∧
    rest = [] := by
  intro payload offset hoff u offset'
  unfold expectConsumed
  constructor
  · intro h
    obtain ⟨hall, h⟩ := refuse_eq_ok.mp h
    cases h
    rw [not_not] at hall
    subst hall
    exact ⟨[], [], drop_length, rfl, rfl, rfl⟩
  · rintro ⟨_, _, hdrop, rfl, rfl, rfl⟩
    have hlen := congrArg List.length hdrop
    rw [length_drop, append_nil, length_nil] at hlen
    rw [if_neg (by omega)]
    rfl

theorem reads_liftCheck {check} {p} {R}
    (h : p.Reads R) : (do liftCheck check; p : Decode α).Reads fun a text rest => check = .ok () ∧
      R a text rest := by
  intro payload offset hoff a offset'
  rw [Parse.bind_eq_ok]
  cases check with
  | error e =>
    constructor
    · rintro ⟨_, _, hcheck, -⟩
      cases hcheck
    · rintro ⟨_, _, _, _, hcheck, -⟩
      cases hcheck
  | ok u =>
    simp only [true_and, ← h payload offset hoff]
    constructor
    · rintro ⟨_, _, hcheck, ha⟩
      cases hcheck
      exact ha
    · intro ha
      exact ⟨(), offset, rfl, ha⟩

/-! ### Flag bytes -/

theorem bitVec_flag : ∀ x : BitVec 8, x &&& ~~~1#8 = 0#8 ↔ x = if x &&& 1#8 ≠ 0#8 then 1#8
    else 0#8 := by
  decide +kernel

/-- A flag byte with no unknown flag is its one flag. -/
theorem flags_known (flags : UInt8) :
    ¬(flags &&& ~~~(1 : UInt8) ≠ 0) ↔ flags = if decide (flags &&& 1 ≠ 0) then 1 else 0 := by
  have h := bitVec_flag flags.toBitVec
  simp only [decide_eq_true_eq, not_not, ne_eq, ← UInt8.toBitVec_inj, apply_ite UInt8.toBitVec]
  exact h

theorem flag_read (flag : Bool) : decide ((if flag then (1 : UInt8) else 0) &&& 1 ≠ 0) = flag := by
  cases flag <;> rfl

end Okou.GuestControl
