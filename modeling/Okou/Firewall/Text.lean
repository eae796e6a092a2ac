import Mathlib.Order.Lattice
import Okou.Lib.Dict

/-!
# Strings and values of the addon

The proxy addon is Python.  A `str` is a list of code points, lone surrogates
included; what comes out of the registry is a tree of Python values, in which
dictionaries may have keys of any kind.

What the matcher takes from the standard library, and from the parts of the
addon that are not modelled here, is collected in `PyLib`.
-/

namespace Okou.Firewall

open List

/-! ### Strings -/

/-- A Python `str`: a list of code points. -/
abbrev PyStr := List ℕ

instance PyStr.lawfulBEq : LawfulBEq PyStr := List.instLawfulBEq

/-- A literal. -/
def lit (s : String) : PyStr := s.toList.map Char.toNat

/-- The code point of a character. -/
def cp (c : Char) : ℕ := c.toNat

variable (c : ℕ)

/-- `s.find(c, start)` with one character. -/
def findFrom (c : ℕ) (s : PyStr) (start : ℕ) : Option ℕ :=
  ((s.drop start).idxOf? c).map (start + ·)

/-- `s.find(c)` with one character. -/
def find (c : ℕ) (s : PyStr) : Option ℕ := s.idxOf? c

def findSub (sub : PyStr) : PyStr → Option ℕ
  | [] => if sub = [] then some 0 else none
  | c :: s => if sub.isPrefixOf (c :: s) then some 0 else (findSub sub s).map (· + 1)

/-- `sub in s`. -/
def contains (sub s : PyStr) : Bool := (findSub sub s).isSome

/-- `s.partition(c)`: what stands before the first `c`, and what stands after it. -/
def partition (c : ℕ) (s : PyStr) : PyStr × Option PyStr :=
  match find c s with
  | none => (s, none)
  | some i => (s.take i, some (s.drop (i + 1)))

/-- `s.rpartition(c)`: what stands before the last `c`, and what stands after it. -/
def rpartition (c : ℕ) (s : PyStr) : Option PyStr × PyStr :=
  match find c s.reverse with
  | none => (none, s)
  | some i => (some (s.take (s.length - i - 1)), s.drop (s.length - i))

/-- `s.endswith(suffix)`. -/
def endsWith (suf s : PyStr) : Bool := suf.reverse.isPrefixOf s.reverse

/-- `sep.join(parts)`. -/
def join (sep : ℕ) (parts : List PyStr) : PyStr := [sep].intercalate parts

/-- `str.strip(chars)`. -/
def strip (drop : ℕ → Bool) (s : PyStr) : PyStr :=
  ((s.dropWhile drop).reverse.dropWhile drop).reverse

def isAscii (s : PyStr) : Bool := s.all (· < 128)

/-- `str(n)` of a port. -/
def decimal (n : ℕ) : PyStr := (Nat.toDigits 10 n).map Char.toNat

/-- The ASCII letters and digits. -/
def isAlnum (c : ℕ) : Bool :=
  decide (cp '0' ≤ c ∧ c ≤ cp '9' ∨ cp 'A' ≤ c ∧ c ≤ cp 'Z' ∨ cp 'a' ≤ c ∧ c ≤ cp 'z')

/-- `_HEX_DIGITS`. -/
def isHexDigit (c : ℕ) : Bool :=
  decide (cp '0' ≤ c ∧ c ≤ cp '9' ∨ cp 'A' ≤ c ∧ c ≤ cp 'F' ∨ cp 'a' ≤ c ∧ c ≤ cp 'f')

/-! ### Partitions -/

/-- What `partition` does: there is no separator, or the text is split at the first. -/
theorem partition_cases (s : PyStr) : (c ∉ s ∧ partition c s = (s, none)) ∨
      ∃ a b, s = a ++ c :: b ∧ c ∉ a ∧ partition c s = (a, some b) := by
  unfold partition find
  cases hfind : s.idxOf? c with
  | none =>
    refine .inl ⟨?_, rfl⟩
    rwa [idxOf?_eq_none_iff] at hfind
  | some i =>
    obtain ⟨hlt, hget, hbef⟩ := idxOf?_eq_some_iff.mp hfind
    refine .inr ⟨s.take i, s.drop (i + 1), ?_, ?_, rfl⟩
    · rw [← hget, ← drop_eq_getElem_cons hlt, take_append_drop]
    · intro hmem
      obtain ⟨j, hj, hc⟩ := mem_iff_getElem.mp hmem
      rw [length_take] at hj
      have hji : j < i := lt_of_lt_of_le hj (min_le_left i s.length)
      refine hbef j hji ?_
      rw [getElem_take] at hc
      exact hc

/-- Where the first of a character stands. -/
theorem idxOf?_cut {α : Type*} [DecidableEq α] {c} {a} (ha : c ∉ a) (b : List α) :
    (a ++ c :: b).idxOf? c = some a.length := by
  refine idxOf?_eq_some_iff.mpr ⟨by simp, by simp, fun j hj => ?_⟩
  rw [getElem_append_left hj]
  intro hc
  exact ha (hc ▸ getElem_mem hj)

theorem partition_append {c} {a} (ha : c ∉ a) (b : PyStr) :
    partition c (a ++ c :: b) = (a, some b) := by
  unfold partition find
  rw [idxOf?_cut ha]
  simp

theorem partition_of_not_mem {c} {s} (hs : c ∉ s) : partition c s = (s, none) := by
  rcases partition_cases c s with h | ⟨a, b, rfl, _, _⟩
  · exact h.2
  · exact absurd (mem_append_right a mem_cons_self) hs

/-! ### Stripping -/

section Strip

variable {drop : ℕ → Bool} {s : PyStr}

theorem strip_of_ends (hhead : ∀ c ∈ s.head?, drop c = false)
    (hlast : ∀ c ∈ s.getLast?, drop c = false) : strip drop s = s := by
  have hfront : s.dropWhile drop = s := by
    cases s with
    | nil => rfl
    | cons c s => exact dropWhile_cons_of_neg (by simp [hhead c rfl])
  have hback : s.reverse.dropWhile drop = s.reverse := by
    cases hrev : s.reverse with
    | nil => rfl
    | cons c rest =>
      have hc : s.getLast? = some c := by rw [← head?_reverse, hrev, head?_cons]
      exact dropWhile_cons_of_neg (by simp [hlast c hc])
  rw [strip, hfront, hback, reverse_reverse]

theorem strip_cons {c} (hc : drop c) : strip drop (c :: s) = strip drop s := by
  rw [strip, dropWhile_cons_of_pos hc]
  rfl

end Strip

/-! ### Values -/

/-- A value of the registry. -/
inductive PyValue
  | none
  | bool (value : Bool)
  | int (value : Int)
  | str (value : PyStr)
  | list (items : List PyValue)
  | dict (items : List (PyValue × PyValue))
  /-- Anything else, such as a `float`. -/
  | other (id : ℕ)

/-- The entries of a `dict`. -/
abbrev PyDict := List (PyValue × PyValue)

/-- `d.get(key)` with a string; `none` where the key is missing. -/
def pyGet (d : PyDict) (key : PyStr) : Option PyValue :=
  (d.find? fun entry => match entry.1 with
    | .str k => k == key
    | _ => false).map Prod.snd

/-- `isinstance(value, str)`. -/
def PyValue.asStr : PyValue → Option PyStr
  | .str s => some s
  | _ => Option.none

/-! ### Libraries -/

/-- `urllib.parse.SplitResult`, with the properties the addon reads.  `port` is
`none` where reading it raises `ValueError`. -/
structure SplitResult where
  scheme : PyStr
  netloc : PyStr
  path : PyStr
  query : PyStr
  fragment : PyStr
  username : Option PyStr
  password : Option PyStr
  port : Option (Option ℕ)
  deriving DecidableEq, Repr

/-- `ipaddress.ip_address`, as far as it is read. -/
structure IpAddress where
  version : ℕ
  compressed : PyStr
  deriving DecidableEq, Repr

/-- A `SimpleTemplateReference`, as far as it is read. -/
structure TemplateReference where
  start : ℕ
  stop : ℕ
  deriving DecidableEq, Repr

/-- What the matcher calls and this development does not look into.  A function
that may raise returns an `Option`. -/
structure PyLib where
  /-- `str.lower`. -/
  lower : PyStr → PyStr
  /-- `str.upper`. -/
  upper : PyStr → PyStr
  /-- `str.isspace` on one character. -/
  isSpace : ℕ → Bool
  /-- `str.isprintable` on one character. -/
  isPrintable : ℕ → Bool
  /-- `urllib.parse.urlsplit`; `ValueError` is `none`. -/
  urlsplit : PyStr → Option SplitResult
  /-- `ipaddress.ip_address`; `ValueError` is `none`. -/
  ipAddress : PyStr → Option IpAddress
  /-- `unquote_to_bytes(s).decode("utf-8")`; `UnicodeError` is `none`. -/
  unquoteUtf8 : PyStr → Option PyStr
  /-- `unicodedata.normalize("NFKC", s)`. -/
  nfkc : PyStr → PyStr
  /-- `unicodedata.normalize("NFKD", c)`. -/
  nfkd : ℕ → PyStr
  /-- `unicodedata.combining(c)`, as a truth value. -/
  combining : ℕ → Bool
  /-- `parse_qsl(s, keep_blank_values=True)`. -/
  parseQsl : PyStr → List (PyStr × PyStr)
  /-- A form body decoded as UTF-8 and parsed; `none` where either raises. -/
  parseForm : List ℕ → Option (List (PyStr × PyStr))
  /-- `json.dumps` with the options of `_api_routing_identity`; `none` where it raises. -/
  jsonDumps : PyValue → Option PyStr
  /-- `normalize_idna_hostname`; `none` where it raises. -/
  normalizeIdnaHostname : PyStr → Option PyStr
  /-- `iter_simple_references`. -/
  iterSimpleReferences : PyStr → List TemplateReference
  /-- `aws_sigv4.inspect_sigv4_service`. -/
  inspectSigv4Service : PyStr → List (PyStr × PyStr) → Option PyStr

/-! ### The library on plain texts

An instance that computes, and agrees with the library on what a concrete request is
written in: printable ASCII without escapes, authorities without userinfo or port,
values without templates or numbers below zero. -/

/-- `str.lower` on ASCII. -/
def plainLower (s : PyStr) : PyStr := s.map fun c => if 65 ≤ c ∧ c ≤ 90 then c + 32 else c

/-- `str.upper` on ASCII. -/
def plainUpper (s : PyStr) : PyStr := s.map fun c => if 97 ≤ c ∧ c ≤ 122 then c - 32 else c

/-- `urlsplit` on `scheme://host/path?query#fragment`. -/
def plainSplit (url : PyStr) : Option SplitResult :=
  match findSub (lit "://") url with
  | none => none
  | some i =>
    let rest := url.drop (i + 3)
    let netloc := rest.takeWhile (· ∉ [cp '/', cp '?', cp '#'])
    if cp '@' ∈ netloc ∨ cp ':' ∈ netloc then none
    else
      let (beforeFragment, fragment) := partition (cp '#') (rest.drop netloc.length)
      let (path, query) := partition (cp '?') beforeFragment
      some ⟨plainLower (url.take i), netloc, path, query.getD [], fragment.getD [], none, none,
        some none⟩

/-- `json.dumps`, down to a depth. -/
def plainDump : ℕ → PyValue → PyStr
  | 0, _ => []
  | _, .none => lit "null"
  | _, .bool value => if value then lit "true" else lit "false"
  | _, .int value => decimal value.toNat
  | _, .str value => cp '"' :: value ++ [cp '"']
  | depth + 1, .list items => cp '[' :: join (cp ',') (items.map (plainDump depth)) ++ [cp ']']
  | depth + 1, .dict items =>
    cp '{' :: join (cp ',') (items.map fun (key, value) =>
      plainDump depth key ++ cp ':' :: plainDump depth value) ++ [cp '}']
  | _, .other _ => []

/-- The library on plain texts. -/
def plainLib : PyLib where
  lower := plainLower
  upper := plainUpper
  isSpace c := decide (9 ≤ c ∧ c ≤ 13 ∨ 28 ≤ c ∧ c ≤ 32)
  isPrintable c := decide (32 ≤ c ∧ c < 127)
  urlsplit := plainSplit
  ipAddress _ := none
  unquoteUtf8 s := if cp '%' ∈ s then none else some s
  nfkc s := s
  nfkd c := [c]
  combining _ := false
  parseQsl _ := []
  parseForm _ := none
  jsonDumps value := some (plainDump 8 value)
  normalizeIdnaHostname host := some (plainLower host)
  iterSimpleReferences _ := []
  inspectSigv4Service _ _ := none

end Okou.Firewall
