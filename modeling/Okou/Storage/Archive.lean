import Mathlib.Data.List.Infix
import Okou.Lib.Dict
import Okou.Lib.Machine

/-!
# Archive extraction

`extract_tar_gz` checks the path and the link name of an entry lexically, and the deepest ancestor
that exists against the file system, before the entry is unpacked. Link names are text: where a link
leads is decided by the file system, which follows the links that earlier entries left. The checks
are of `fullPath`, which is the entry's path itself where that is absolute; `unpack_in` goes to
`dstPath`, which drops the root.

## Main results

* `links_contained`, `links_escape` — when the links of an archive lead into the target, and an
  archive whose links do not.
* `entries_within`, `entries_escape` — the same for the places where entries are made.
-/

namespace Okou.Storage

open List

/-- A component of a path. A path is read without its `.` components. -/
inductive Part
  | up
  | name (text : String)
deriving DecidableEq

/-- A path, with the root in front or without it. -/
structure Path where
  absolute : Bool
  parts : List Part
deriving DecidableEq

/-- What may be found at a location. -/
inductive Node
  | dir
  | file
  | link (dest : Path)
deriving DecidableEq

/-- What is found at the locations of the file system, each the names that lead to it from the
root. -/
abbrev Fs := List (List String × Node)

/-- `join`, on an absolute path. -/
def join (base : List Part) (path : Path) : List Part :=
  if path.absolute then path.parts else base ++ path.parts

/-- A component read lexically. -/
def normalizeStep (components : List String) : Part → List String
  | .up => components.dropLast
  | .name n => components ++ [n]

/-- `normalize_path` of an absolute path, where `..` at the root is dropped. -/
def normalizePath (path : List Part) : List String := path.foldl normalizeStep []

variable (steps : ℕ) (target : List String) (fs : Fs)

/-- `is_within`. -/
def isWithin (path : List Part) : Bool := decide (target <+: normalizePath path)

/-- The walk of the file system along a path. With `mkdir`, directories that are missing are made.
-/
def walk (mkdir : Bool) : ℕ → Fs → List String → List Part → Option (Fs × List String)
  | 0, _, _, _ => none
  | _ + 1, fs, here, [] => some (fs, here)
  | steps + 1, fs, here, .up :: rest => walk mkdir steps fs here.dropLast rest
  | steps + 1, fs, here, .name n :: rest =>
    match dictGet (here ++ [n]) fs with
    | some .dir => walk mkdir steps fs (here ++ [n]) rest
    | some .file => if rest = [] then some (fs, here ++ [n]) else none
    | some (.link dest) =>
      walk mkdir steps fs (if dest.absolute then [] else here) (dest.parts ++ rest)
    | none =>
      if mkdir then walk mkdir steps (dictSet (here ++ [n]) .dir fs) (here ++ [n]) rest else none

/-- The location that a path denotes, if there is one. -/
def canonicalize (path : List Part) : Option (List String) :=
  (walk false steps fs [] path).map Prod.snd

/-- `symlink_metadata`, which does not follow the last component. -/
def symlinkMetadata (path : List Part) : Option Node :=
  match path.getLast? with
  | some (.name n) => (canonicalize steps fs path.dropLast).bind fun dir => dictGet (dir ++ [n]) fs
  | _ => (canonicalize steps fs path).map fun _ => .dir

/-- The loop of `ancestors_within_target`, on the components from the last to the first. -/
def ancestorsLoop : List Part → Bool
  | [] => decide (target = [])
  | part :: parent =>
    let ancestor := (part :: parent).reverse
    if ancestor = target.map .name then true
    else if (symlinkMetadata steps fs ancestor).isSome then
      (canonicalize steps fs ancestor).any fun canonical => decide (target <+: canonical)
    else ancestorsLoop parent

/-- `ancestors_within_target`, which starts at the parent. -/
def ancestorsWithinTarget (path : List Part) : Bool :=
  match path.reverse with
  | [] => true
  | _ :: parent => ancestorsLoop steps target fs parent

/-- The type of an entry; a link name may be unreadable. -/
inductive EntryType
  | file
  | dir
  | symlink (linkName : Option Path)
  | hardLink (linkName : Option Path)

/-- An archive entry. -/
structure Entry where
  path : Path
  type : EntryType

variable (entry : Entry) {parts : List Part}

/-- The path that the checks are made of. -/
def Entry.fullPath : List Part := join (target.map .name) entry.path

/-- The path to which `unpack_in` goes: the components of the entry's path under the target, without
a root. -/
def Entry.dstPath : List Part := target.map .name ++ entry.path.parts

/-- The checks before an entry is unpacked. -/
def accepted : Bool :=
  let fullPath := entry.fullPath target
  let linkDir := if fullPath = [] then target.map .name else fullPath.dropLast
  isWithin target fullPath
  && (match entry.type with
    | .symlink linkName => linkName.any fun link => isWithin target (join linkDir link)
    | .hardLink linkName => linkName.any fun link => isWithin target (join (target.map .name) link)
    | _ => true)
  && ancestorsWithinTarget steps target fs fullPath

/-- What an entry puts at its location; a hard link is not to a directory. -/
def newNode : EntryType → Option Node
  | .file => some .file
  | .dir => some .dir
  | .symlink linkName => linkName.map .link
  | .hardLink linkName =>
    (linkName.bind fun link => symlinkMetadata steps fs (join (target.map .name) link)).filter
      (· ≠ .dir)

/-- No directory is replaced. -/
def create (location : List String) (node : Node) : Option Fs :=
  match dictGet location fs, node with
  | none, node => some (dictSet location node fs)
  | some _, .dir => some fs
  | some .dir, _ => none
  | some _, node => some (dictSet location node fs)

/-- `unpack_in`: the entry is made where the file system finds its path under the target. -/
def unpackIn : Option Fs :=
  match entry.path.parts.getLast? with
  | some (.name n) => do
    let (fs, dir) ← walk true steps fs [] (entry.dstPath target).dropLast
    let node ← newNode steps target fs entry.type
    create fs (dir ++ [n]) node
  | _ => some fs

/-- One turn of the loop: entries that do not pass the checks are skipped. -/
def extractEntry : Option Fs :=
  if accepted steps target fs entry then unpackIn steps target fs entry else some fs

/-- `extract_tar_gz`: the first entry that cannot be unpacked ends it, with what is there. -/
def extractTarGz : List Entry → Fs → Fs
  | [], fs => fs
  | entry :: entries, fs => ((extractEntry steps target fs entry).map (extractTarGz entries)).getD
    fs

/-- A component other than `..`. -/
def Part.isName : Part → Bool
  | .name _ => true
  | .up => false

/-- A symbolic link. -/
def Node.isLink : Node → Bool
  | .link _ => true
  | _ => false

/-- An accepted symbolic link has a relative path, is made through no other link and has its `..` in
front, and an accepted hard link is to no symbolic link. -/
def plain : Bool :=
  !accepted steps target fs entry || match entry.type with
  | .symlink (some link) =>
    !entry.path.absolute && entry.path.parts.all Part.isName
    && (normalizePath (entry.dstPath target)).dropLast.inits.all
      (fun p => !(dictGet p fs).any Node.isLink)
    && (link.parts.dropWhile fun part => !part.isName).all Part.isName
  | .hardLink _ => (walk true steps fs [] (entry.dstPath target).dropLast).all fun made =>
    !(newNode steps target made.1 entry.type).any Node.isLink
  | _ => true

/-- Every link that is new leads into the target or nowhere. -/
def Contained (before after : Fs) : Prop :=
  ∀ dir n dest, dictGet (dir ++ [n]) after = some (.link dest) →
    dictGet (dir ++ [n]) before ≠ some (.link dest) →
    ∀ steps loc, walk false steps after (if dest.absolute then [] else dir) dest.parts = some loc →
      target <+: loc.2

/-- A canonical directory: its location and those above it are directories. -/
def Canonical : Prop := ∀ p, p ≠ [] → p <+: target → dictGet p fs = some .dir

/-- There are no symbolic links in the target. -/
def NoLinks : Prop := ∀ p dest, target <+: p → dictGet p fs ≠ some (.link dest)

/-! ### Paths -/

theorem foldl_normalizeStep_names (ns s : List String) :
    (ns.map Part.name).foldl normalizeStep s = s ++ ns := by
  induction ns generalizing s with
  | nil => simp
  | cons n ns ih => simp [normalizeStep, ih]

theorem take_dropLast (s : List String) (j : ℕ) :
    s.dropLast.take (s.dropLast.length - j) = s.take (s.length - (j + 1)) := by
  rw [dropLast_eq_take, take_take, length_take]
  congr 1
  omega

theorem foldl_normalizeStep_ups (j : ℕ) (s : List String) :
    (replicate j Part.up).foldl normalizeStep s = s.take (s.length - j) := by
  induction j generalizing s with
  | zero => simp
  | succ j ih => rw [replicate_succ, foldl_cons, ih, normalizeStep, take_dropLast]

theorem exists_names (h : parts.all Part.isName) : ∃ ns : List String, parts = ns.map .name := by
  induction parts with
  | nil => exact ⟨[], rfl⟩
  | cons part parts ih =>
    rw [all_cons, Bool.and_eq_true] at h
    obtain ⟨ns, rfl⟩ := ih h.2
    cases part with
    | up => cases h.1
    | name n => exact ⟨n :: ns, rfl⟩

theorem exists_ups_names (h : (parts.dropWhile fun part => !part.isName).all Part.isName) :
    ∃ (j : ℕ) (ns : List String), parts = replicate j .up ++ ns.map .name := by
  induction parts with
  | nil => exact ⟨0, [], rfl⟩
  | cons part parts ih =>
    cases part with
    | up =>
      obtain ⟨j, ns, rfl⟩ := ih h
      exact ⟨j + 1, ns, rfl⟩
    | name n =>
      obtain ⟨ns, hns⟩ := exists_names h
      exact ⟨0, ns, hns⟩

/-! ### Walks -/

variable {steps target fs entry} {before made after : Fs} {dir here loc ns : List String}
  {n : String} {dest : Path} {mkdir : Bool} {node : Node}

/-- A link name with its `..` in front that leads from a directory into the target. -/
def LinkOk (target dir : List String) (dest : Path) : Prop :=
  ∃ j ns, dest.parts = replicate j .up ++ ns.map .name ∧
    target <+: (if dest.absolute then [] else dir).take
      ((if dest.absolute then [] else dir).length - j) ++ ns

/-- **A walk into the target stays in it**, as long as the links of the target lead into it. -/
theorem walk_within (hcanon : Canonical target fs)
    (hlinks : ∀ dir n dest, target <+: dir → dictGet (dir ++ [n]) fs = some (.link dest) →
      LinkOk target dir dest) {j : ℕ}
    (h : walk false steps fs here (replicate j .up ++ ns.map .name) = some (made, loc))
    (hto : target <+: here.take (here.length - j) ++ ns) : target <+: loc := by
  induction steps generalizing here j ns with
  | zero => cases h
  | succ steps ih =>
    cases j with
    | succ j => exact ih h (take_dropLast here j ▸ hto)
    | zero =>
      rw [Nat.sub_zero, take_length] at hto
      cases ns with
      | nil =>
        cases h
        simpa using hto
      | cons n ns =>
        rw [replicate_zero, nil_append, map_cons, walk] at h
        split at h
        · refine ih (j := 0) h ?_
          rwa [Nat.sub_zero, take_length, append_assoc]
        · split at h
          · next hnil =>
            cases h
            simpa [map_eq_nil_iff.mp hnil] using hto
          · cases h
        · next dest hlink =>
          -- a link is not on the way to the target, so that it is in it
          have hin : target <+: here := by
            rcases prefix_or_prefix_of_prefix hto (show here ++ [n] <+: here ++ n :: ns by simp)
              with hle | hle
            · rcases prefix_concat_iff.mp hle with rfl | hle
              · simp [hcanon _ (by simp) (prefix_refl _)] at hlink
              · exact hle
            · simp [hcanon _ (by simp) hle] at hlink
          obtain ⟨j, ns', hparts, hpre⟩ := hlinks here n dest hin hlink
          rw [hparts, append_assoc, ← map_append] at h
          exact ih h (append_assoc _ _ _ ▸ hpre.trans (prefix_append _ _))
        · cases h

/-- Walks only make directories, and only where there is nothing. -/
theorem walk_grows (h : walk mkdir steps fs here parts = some (made, loc)) (p) :
    dictGet p made = dictGet p fs ∨ dictGet p fs = none ∧ dictGet p made = some .dir := by
  fun_induction walk mkdir steps fs here parts with
  | case1 | case6 | case9 => cases h
  | case2 | case5 =>
    cases h
    exact .inl rfl
  | case3 _ _ _ _ ih | case4 _ _ _ _ _ _ ih | case7 _ _ _ _ _ _ _ ih => exact ih h
  | case8 _ _ here n _ hnone _ ih =>
    have hnext := ih h
    rw [dictGet_dictSet] at hnext
    by_cases hp : here ++ [n] = p
    · subst hp
      exact .inr ⟨hnone, hnext.elim (·.trans (if_pos rfl)) (·.2)⟩
    · rwa [if_neg hp] at hnext

/-- A path of names that leads through no link is where it says. -/
theorem walk_names (hlinks : ∀ p, p <+: ns → ∀ dest, dictGet (here ++ p) fs ≠ some (.link dest))
    (h : walk mkdir steps fs here (ns.map .name) = some (made, loc)) : loc = here ++ ns := by
  induction ns generalizing steps fs here with
  | nil => cases steps <;> cases h; simp
  | cons n ns ih =>
    have hnext (p) (hp : p <+: ns) : here ++ [n] ++ p = here ++ n :: p ∧ n :: p <+: n :: ns := by
      simpa using hp
    cases steps with
    | zero => cases h
    | succ steps =>
      rw [map_cons, walk] at h
      split at h
      · refine (ih (fun p hp => ?_) h).trans (by simp)
        rw [(hnext p hp).1]
        exact hlinks _ (hnext p hp).2
      · split at h
        · next hnil =>
          cases h
          simp [map_eq_nil_iff.mp hnil]
        · cases h
      · next dest hlink => exact absurd hlink (hlinks [n] (by simp) dest)
      · split at h
        · refine (ih (fun p hp dest => ?_) h).trans (by simp)
          rw [dictGet_dictSet, (hnext p hp).1]
          split
          · simp
          · exact hlinks _ (hnext p hp).2 dest
        · cases h

/-! ### Extraction -/

theorem Canonical.walk (h : Canonical target fs)
    (hwalk : walk mkdir steps fs here parts = some (made, loc)) : Canonical target made :=
      fun p hp hle => (walk_grows hwalk p).elim (·.trans (h p hp hle)) (·.2)

theorem Canonical.set (h : Canonical target fs) (hdir : dictGet loc fs ≠ some .dir) :
    Canonical target (dictSet loc node fs) := by
  intro p hp hle
  rw [dictGet_dictSet]
  split
  · next heq => exact absurd (h p hp hle) (heq ▸ hdir)
  · exact h p hp hle

/-- What extraction keeps: the links that are new have been made in the target and lead into it. -/
structure Inv (target : List String) (before fs : Fs) : Prop where
  canonical : Canonical target fs
  links : ∀ dir n dest, dictGet (dir ++ [n]) fs = some (.link dest) →
    dictGet (dir ++ [n]) before = some (.link dest) ∨ target <+: dir ∧ LinkOk target dir dest

theorem Inv.contained (h : Inv target before fs) (hbef : NoLinks target before) :
    Contained target before fs := by
  intro dir n dest hlink hnew steps ⟨made, loc⟩ hwalk
  obtain ⟨_, j, ns, hparts, hto⟩ := (h.links dir n dest hlink).resolve_left hnew
  rw [hparts] at hwalk
  refine walk_within h.canonical (fun dir n dest hdir hlink => ?_) hwalk hto
  refine ((h.links dir n dest hlink).resolve_left ?_).2
  exact hbef _ dest (hdir.trans (prefix_append _ _))

theorem Inv.walk (h : Inv target before fs)
    (hwalk : walk mkdir steps fs here parts = some (made, loc)) : Inv target before made where
  canonical := h.canonical.walk hwalk
  links dir n dest hlink := by
    rcases walk_grows hwalk (dir ++ [n]) with heq | ⟨_, hdir⟩
    · exact h.links dir n dest (heq.symm.trans hlink)
    · simp [hdir] at hlink

theorem Inv.set (h : Inv target before fs) (hdir : dictGet (dir ++ [n]) fs ≠ some .dir)
    (hlink : ∀ dest, node = .link dest → target <+: dir ∧ LinkOk target dir dest) :
    Inv target before (dictSet (dir ++ [n]) node fs) where
  canonical := h.canonical.set hdir
  links dir' n' dest hget := by
    rw [dictGet_dictSet] at hget
    split at hget
    · next heq =>
      obtain ⟨rfl, -⟩ := append_inj' heq rfl
      exact .inr (hlink dest (Option.some.inj hget))
    · exact h.links dir' n' dest hget

/-- The lexical check of a link name with its `..` in front, on a directory that is where its path
says. -/
theorem linkOk_of_isWithin (hshape : (dest.parts.dropWhile fun part =>
    !part.isName).all Part.isName)
    (h : isWithin target (join (dir.map .name) dest)) : LinkOk target dir dest := by
  obtain ⟨j, ns, hparts⟩ := exists_ups_names hshape
  refine ⟨j, ns, hparts, ?_⟩
  have hnorm : target <+: normalizePath
      ((if dest.absolute then [] else dir).map .name ++ dest.parts) := by
    cases habs : dest.absolute <;> simpa [isWithin, join, habs] using h
  rwa [hparts, normalizePath, foldl_append, foldl_normalizeStep_names, foldl_append,
    foldl_normalizeStep_ups, foldl_normalizeStep_names] at hnorm

/-- The path of a relative entry is checked where it is used. -/
theorem dstPath_eq (h : entry.path.absolute = false) :
    entry.dstPath target = entry.fullPath target := by
  simp [Entry.dstPath, Entry.fullPath, join, h]

/-- A symbolic link that is accepted, and made through no other link. -/
theorem linkOk_of_plain {link : Path} (htype : entry.type = .symlink (some link))
    (hplain : plain steps target fs entry) (hacc : accepted steps target fs entry)
    (hlast : entry.path.parts.getLast? = some (.name n))
    (hwalk : walk true steps fs [] (entry.dstPath target).dropLast = some (made, dir)) :
    target <+: dir ∧ LinkOk target dir link := by
  simp only [plain, hacc, htype, Bool.not_true, Bool.false_or, Bool.and_eq_true, all_eq_true,
    mem_inits, Bool.not_eq_true'] at hplain
  obtain ⟨⟨⟨hrel, hnames⟩, hlinks⟩, hshape⟩ := hplain
  obtain ⟨ns, hns⟩ := exists_names (all_eq_true.mpr hnames)
  obtain ⟨ns, n', rfl⟩ := (eq_nil_or_concat' ns).resolve_left (by rintro rfl; simp [hns] at hlast)
  obtain rfl : n' = n := by simpa [hns] using hlast
  have hpath : entry.dstPath target = (target ++ ns).map .name ++ [.name n'] := by
    simp [Entry.dstPath, hns]
  simp only [accepted, htype, ← dstPath_eq hrel, hpath, Bool.and_eq_true,
    append_ne_nil_of_right_ne_nil, ne_eq, cons_ne_self, not_false_eq_true, if_false] at hacc
  obtain ⟨⟨-, hlink⟩, -⟩ := hacc
  rw [hpath, dropLast_concat] at hwalk
  rw [hpath, normalizePath, foldl_append, foldl_normalizeStep_names] at hlinks
  simp only [normalizeStep, foldl_cons, foldl_nil, nil_append, dropLast_concat] at hlinks
  obtain rfl := walk_names (fun p hp dest hget => by
    simpa [show dictGet p fs = _ from hget, Node.isLink] using hlinks p hp) hwalk
  refine ⟨prefix_append _ _, linkOk_of_isWithin (all_eq_true.mpr hshape) ?_⟩
  simpa using hlink

theorem create_cases {location} (h : create fs location node = some after) :
    after = fs ∨ dictGet location fs ≠ some .dir ∧ after = dictSet location node fs := by
  unfold create at h
  split at h <;> cases h
  · next hnone => exact .inr ⟨by simp [hnone], rfl⟩
  · exact .inl rfl
  · next hne hget _ => exact .inr ⟨fun hdir => hne (Option.some.inj (hget.symm.trans hdir)), rfl⟩

theorem Inv.extract (h : Inv target before fs) (hplain : plain steps target fs entry)
    (hstep : extractEntry steps target fs entry = some after) : Inv target before after := by
  unfold extractEntry at hstep
  split at hstep
  · next hacc =>
    unfold unpackIn at hstep
    split at hstep
    · next n hlast =>
      obtain ⟨⟨made, dir⟩, hwalk, hstep⟩ := Option.bind_eq_some_iff.mp hstep
      obtain ⟨node, hnode, hstep⟩ := Option.bind_eq_some_iff.mp hstep
      rcases create_cases hstep with rfl | ⟨hdir, rfl⟩
      · exact h.walk hwalk
      · refine (h.walk hwalk).set hdir ?_
        rintro dest rfl
        cases htype : entry.type with
        | file | dir => simp [htype, newNode] at hnode
        | symlink linkName =>
          obtain ⟨link, rfl, hlink⟩ := Option.map_eq_some_iff.mp (htype ▸ hnode)
          cases hlink
          exact linkOk_of_plain htype hplain hacc hlast hwalk
        | hardLink linkName =>
          rw [htype] at hnode
          simp [plain, hacc, htype, hwalk, hnode, Node.isLink] at hplain
    · cases hstep
      exact h
  · cases hstep
    exact h

/-- **Archive extraction leaves no symbolic link that leads out of the target**, as long as no
accepted symbolic link has an absolute path, is made through another or has a `..` behind a name,
and no accepted hard link is to a symbolic link. -/
theorem links_contained {entries : List Entry} (hcanon : Canonical target before)
    (hlinks : NoLinks target before)
    (hplain : holdsAlong (extractEntry steps target) (plain steps target · ·) before entries) :
    Contained target before (extractTarGz steps target entries before) := by
  have hrun : ∀ fs, Inv target before fs →
      holdsAlong (extractEntry steps target) (plain steps target · ·) fs entries →
      Inv target before (extractTarGz steps target entries fs) := by
    clear hplain
    induction entries with
    | nil => exact fun fs h _ => h
    | cons entry entries ih =>
      intro fs h hplain
      rw [extractTarGz]
      cases hstep : extractEntry steps target fs entry with
      | none => exact h
      | some after => exact ih after (h.extract hplain.1 hstep) (hplain.2 after hstep)
  exact (hrun before ⟨hcanon, fun _ _ _ => .inl⟩ hplain).contained hlinks

/-- A target `/t` with nothing in it. -/
def emptyTarget : Fs := [(["t"], .dir)]

/-- A symbolic link with a relative path and link name. -/
def symlinkEntry (path link : List Part) : Entry := ⟨⟨false, path⟩, .symlink (some ⟨false, link⟩)⟩

theorem emptyTarget_canonical : Canonical ["t"] emptyTarget ∧ NoLinks ["t"] emptyTarget := by
  refine ⟨fun p hp hle => ?_, fun p dest _ hget => ?_⟩
  · obtain rfl : p = ["t"] :=
      (prefix_cons_iff.mp hle).resolve_left hp |>.elim fun q hq => by simp_all
    rfl
  · rw [emptyTarget, dictGet] at hget
    split at hget <;> cases hget

theorem links_contained_up : Contained ["t"] emptyTarget
    (extractTarGz 9 ["t"] [symlinkEntry [.name "d", .name "l"] [.up, .name "x"]] emptyTarget) :=
  links_contained emptyTarget_canonical.1 emptyTarget_canonical.2
    ⟨by decide +kernel, fun _ _ => trivial⟩

/-- `s -> .` and then `l -> s/..`: the link name is `.` lexically, and the parent of the target in
fact. -/
theorem links_escape : ∃ steps target before entries, Canonical target before ∧
    NoLinks target before ∧
    ¬Contained target before (extractTarGz steps target entries before) := by
  refine ⟨9, ["t"], emptyTarget,
    [symlinkEntry [.name "s"] [], symlinkEntry [.name "l"] [.name "s", .up]],
    emptyTarget_canonical.1, emptyTarget_canonical.2, fun h => ?_⟩
  have hout := h ["t"] "l" ⟨false, [.name "s", .up]⟩ (by decide +kernel) (by decide +kernel) 9
  revert hout
  decide +kernel

/-! ### Where entries are made -/

/-- An entry with a `..` in its path is skipped by `unpack_in`. -/
def extractNamed (steps : ℕ) (target : List String) (fs : Fs) (entry : Entry) : Option Fs :=
  if entry.path.parts.all Part.isName then extractEntry steps target fs entry else some fs

/-- An accepted entry has a relative path, or the ancestors of the path to which `unpack_in` goes
would pass the check too. -/
def checkedThere (steps : ℕ) (target : List String) (fs : Fs) (entry : Entry) : Bool :=
  !accepted steps target fs entry || !entry.path.absolute
  || ancestorsWithinTarget steps target fs (entry.dstPath target)

/-- Something is at a location. -/
def There (fs : Fs) (p : List String) : Prop := p = [] ∨ dictGet p fs ≠ none

/-- What is above a place that is there is there. -/
def IsTree (fs : Fs) : Prop := ∀ p, There fs p → There fs p.dropLast

/-- The parent directory of an accepted entry is in the target, with all that the entry changes. -/
def MadeWithin (steps : ℕ) (target : List String) (fs : Fs) (entry : Entry) : Prop :=
  accepted steps target fs entry = true →
    (∀ loc, walk false steps fs [] (entry.dstPath target).dropLast = some loc → target <+: loc.2) ∧
    (entry.path.parts.all Part.isName = true →
      ∀ made loc, walk true steps fs [] (entry.dstPath target).dropLast = some (made, loc) →
        target <+: loc ∧ ∀ p, dictGet p made ≠ dictGet p fs → target <+: p) ∧
    ∀ after, extractNamed steps target fs entry = some after →
      ∀ p, dictGet p after ≠ dictGet p fs → target <+: p

/-- A walk along two paths in a row. -/
theorem walk_append {rest} (h : walk mkdir steps fs here (parts ++ rest) = some (made, loc)) :
    ∃ steps' mid here', walk mkdir steps fs here parts = some (mid, here') ∧
      walk mkdir steps' mid here' rest = some (made, loc) := by
  induction steps generalizing fs here parts with
  | zero => cases h
  | succ steps ih =>
    cases parts with
    | nil => exact ⟨_, fs, here, rfl, h⟩
    | cons part parts =>
      cases part with
      | up => exact ih h
      | name n =>
        rw [cons_append, walk] at h
        rw [walk]
        split at h
        · exact ih h
        · split at h
          · next hnil =>
            cases h
            obtain ⟨rfl, rfl⟩ := append_eq_nil_iff.mp hnil
            exact ⟨1, _, _, if_pos rfl, rfl⟩
          · cases h
        · rw [← append_assoc] at h
          exact ih h
        · split at h
          · next hmkdir =>
            rw [if_pos hmkdir]
            exact ih h
          · cases h

/-- A walk makes no directory, or has found one missing. -/
theorem walk_mkdir (h : walk mkdir steps fs here parts = some (made, loc)) :
    made = fs ∧ walk false steps fs here parts = some (fs, loc) ∨
      mkdir ∧ walk false steps fs here parts = none := by
  fun_induction walk mkdir steps fs here parts with
  | case1 | case6 | case9 => cases h
  | case2 =>
    cases h
    exact .inl ⟨rfl, rfl⟩
  | case3 _ _ _ _ ih => exact ih h
  | case4 _ _ _ _ _ hdir ih =>
    rw [walk, hdir]
    exact ih h
  | case5 _ _ _ _ hfile =>
    cases h
    exact .inl ⟨rfl, by simp [walk, hfile]⟩
  | case7 _ _ _ _ _ _ hlink ih =>
    rw [walk, hlink]
    exact ih h
  | case8 _ _ _ _ _ hnone hmkdir => exact .inr ⟨hmkdir, by simp [walk, hnone]⟩

/-- A path of directories is where it says. -/
theorem walk_dirs (hdirs : ∀ p, p ≠ [] → p <+: ns → dictGet (here ++ p) fs = some .dir)
    (h : walk mkdir steps fs here (ns.map .name) = some (made, loc)) :
    loc = here ++ ns ∧ made = fs ∧ walk false steps fs here (ns.map .name) = some (fs, loc) := by
  induction ns generalizing steps here with
  | nil =>
    cases steps <;> cases h
    exact ⟨(append_nil _).symm, rfl, rfl⟩
  | cons n ns ih =>
    cases steps with
    | zero => cases h
    | succ steps =>
      have hdir := hdirs [n] (cons_ne_nil _ _) (by simp)
      rw [map_cons, walk, hdir] at h ⊢
      rw [append_cons]
      refine ih (fun p hp hle => ?_) h
      rw [append_assoc]
      exact hdirs (n :: p) (cons_ne_nil _ _) (by simpa using hle)

theorem changes_set (hdir : target <+: dir) (h : ∀ p, dictGet p made ≠ dictGet p fs → target <+: p)
    (p) (hp : dictGet p (dictSet (dir ++ [n]) node made) ≠ dictGet p fs) : target <+: p := by
  rw [dictGet_dictSet] at hp
  split at hp
  · next heq => exact heq ▸ hdir.trans (prefix_append _ _)
  · exact h p hp

theorem There.set {p} (h : There fs p) : There (dictSet dir node fs) p := by
  unfold There at h ⊢
  rw [dictGet_dictSet]
  split
  · exact .inr (Option.some_ne_none _)
  · exact h

theorem IsTree.set (h : IsTree fs) (hdir : There fs dir) (node : Node) :
    IsTree (dictSet (dir ++ [n]) node fs) := by
  intro p hp
  by_cases heq : dir ++ [n] = p
  · rw [← heq, dropLast_concat]
    exact hdir.set
  · refine (h p ?_).set
    rwa [There, dictGet_dictSet, if_neg heq] at hp

theorem IsTree.walk (h : IsTree fs) (hhere : There fs here)
    (hwalk : walk mkdir steps fs here parts = some (made, loc)) : IsTree made ∧ There made loc := by
  fun_induction Storage.walk mkdir steps fs here parts with
  | case1 | case6 | case9 => cases hwalk
  | case2 =>
    cases hwalk
    exact ⟨h, hhere⟩
  | case3 _ _ _ _ ih => exact ih h (h _ hhere) hwalk
  | case4 _ _ _ _ _ hdir ih => exact ih h (.inr (by simp [hdir])) hwalk
  | case5 _ _ _ _ hfile =>
    cases hwalk
    exact ⟨h, .inr (by simp [hfile])⟩
  | case7 _ _ _ _ _ _ _ ih =>
    refine ih h ?_ hwalk
    split
    · exact .inl rfl
    · exact hhere
  | case8 _ _ _ _ _ _ _ ih => exact ih (h.set hhere .dir) (.inr (by simp [dictGet_dictSet])) hwalk

/-- **The directories on the way to an accepted entry are made in the target.** -/
theorem ancestorsLoop_named (htree : IsTree fs) (hcanon : Canonical target fs)
    (hloop : ancestorsLoop steps target fs (ns.map .name).reverse)
    (h : walk true steps fs [] (ns.map .name) = some (made, loc)) :
    target <+: loc ∧ (∀ p, dictGet p made ≠ dictGet p fs → target <+: p) ∧
      (walk false steps fs [] (ns.map .name) = some (fs, loc) ∨ ¬There fs loc) := by
  induction ns using reverseRecOn generalizing made loc with
  | nil =>
    cases steps <;> cases h
    obtain rfl : target = [] := of_decide_eq_true hloop
    exact ⟨ nil_prefix, fun _ _ => nil_prefix, .inl rfl⟩
  | append_singleton ns n ih =>
    rw [map_append, map_singleton, reverse_append, reverse_singleton, singleton_append,
      ancestorsLoop] at hloop
    simp only [reverse_cons, reverse_reverse, ← map_singleton (f := Part.name),
      ← map_append] at hloop
    split at hloop
    · next htarget =>
      rw [htarget] at h ⊢
      obtain ⟨rfl, rfl, hsame⟩ := walk_dirs (by exact hcanon) h
      exact ⟨prefix_rfl, fun _ hne => absurd rfl hne, .inl hsame⟩
    split at hloop
    · -- it exists, and the walk ends where `canonicalize` says
      obtain ⟨canonical, hwalk, hin⟩ := (Option.any_eq_true _ _).mp hloop
      rw [canonicalize] at hwalk
      rcases walk_mkdir h with ⟨rfl, hsame⟩ | ⟨_, hnone⟩
      · rw [hsame] at hwalk
        cases hwalk
        exact ⟨of_decide_eq_true hin, fun _ hne => absurd rfl hne, .inl hsame⟩
      · rw [hnone] at hwalk
        cases hwalk
    · -- it does not, and is made in its parent
      next hmiss =>
      rw [map_append] at h hmiss
      obtain ⟨steps', mid, dir, hdir, hlast⟩ := walk_append h
      obtain ⟨hin, hmade, hfound⟩ := ih hloop hdir
      have hfree : ¬There fs (dir ++ [n]) := by
        rcases hfound with hsame | hnot
        · simpa [symlinkMetadata, canonicalize, hsame, There] using hmiss
        · intro hthere
          have hparent := htree _ hthere
          rw [dropLast_concat] at hparent
          exact hnot hparent
      cases steps' with
      | zero => cases hlast
      | succ steps' =>
        rw [map_singleton, walk] at hlast
        rcases walk_grows hdir (dir ++ [n]) with hget | ⟨_, hget⟩
        · rw [hget, not_not.mp (not_or.mp hfree).2] at hlast
          cases steps' <;> cases hlast
          exact ⟨hin.trans (prefix_append _ _), changes_set hin hmade, .inr hfree⟩
        · rw [hget] at hlast
          cases steps' <;> cases hlast
          exact ⟨hin.trans (prefix_append _ _), hmade, .inr hfree⟩

/-- What a walk finds is there. -/
theorem symlinkMetadata_of_walk (h : walk false steps fs [] parts = some (made, loc)) :
    (symlinkMetadata steps fs parts).isSome := by
  unfold symlinkMetadata
  split
  · next n hlast =>
    obtain ⟨parent, rfl⟩ := getLast?_eq_some_iff.mp hlast
    obtain ⟨steps', mid, dir, hdir, hname⟩ := walk_append h
    obtain ⟨rfl, -⟩ := (walk_mkdir hdir).resolve_right nofun
    rw [dropLast_concat, canonicalize, hdir]
    cases hget : dictGet (dir ++ [n]) mid with
    | some node => simp [hget]
    | none => cases steps' <;> simp [walk, hget] at hname
  · simp [canonicalize, h]

/-- The parent directory of a path that passes the check, if it exists. -/
theorem parent_within (hcanon : Canonical target fs) {path} (hpath : path = [] → target = [])
    (h : ancestorsWithinTarget steps target fs path)
    (hwalk : walk false steps fs [] path.dropLast = some (made, loc)) : target <+: loc := by
  unfold ancestorsWithinTarget at h
  split at h
  · next hnil =>
    rw [hpath (reverse_eq_nil_iff.mp hnil)]
    exact nil_prefix
  · next last parent hrev =>
    obtain rfl : path = parent.reverse ++ [last] := by simpa using congrArg reverse hrev
    rw [dropLast_concat] at hwalk
    cases parent with
    | nil =>
      obtain rfl : target = [] := of_decide_eq_true h
      exact nil_prefix
    | cons part parent =>
      rw [ancestorsLoop] at h
      split at h
      · next htarget =>
        rw [htarget] at hwalk
        exact (walk_dirs (by exact hcanon) hwalk).1 ▸ prefix_rfl
      · rw [if_pos (symlinkMetadata_of_walk hwalk), canonicalize, hwalk] at h
        exact of_decide_eq_true h

/-- The ancestors of the path to which `unpack_in` goes pass the check. -/
theorem ancestors_dstPath (hacc : accepted steps target fs entry)
    (h : checkedThere steps target fs entry) :
    ancestorsWithinTarget steps target fs (entry.dstPath target) := by
  simp only [checkedThere, hacc, Bool.not_true, Bool.false_or, Bool.or_eq_true,
    Bool.not_eq_true'] at h
  rcases h with hrel | h
  · rw [dstPath_eq hrel]
    simp only [accepted, Bool.and_eq_true] at hacc
    exact hacc.2
  · exact h

/-- The walk to the parent directory of an entry without `..`. -/
theorem named_within (htree : IsTree fs) (hcanon : Canonical target fs)
    (hloop : ancestorsWithinTarget steps target fs (entry.dstPath target))
    (hnamed : entry.path.parts.all Part.isName)
    (h : walk true steps fs [] (entry.dstPath target).dropLast = some (made, loc)) :
    target <+: loc ∧ ∀ p, dictGet p made ≠ dictGet p fs → target <+: p := by
  obtain ⟨ns, hns⟩ := exists_names hnamed
  have hpath : entry.dstPath target = (target ++ ns).map .name := by simp [Entry.dstPath, hns]
  rw [hpath] at hloop h
  rcases eq_nil_or_concat' (target ++ ns) with hnil | ⟨ns, n, hns⟩
  · rw [hnil] at h
    cases steps <;> cases h
    exact ⟨append_eq_nil_iff.mp hnil |>.1 ▸ nil_prefix, fun p hp => absurd rfl hp⟩
  · rw [hns] at hloop h
    simp only [map_append, map_singleton, dropLast_concat, ancestorsWithinTarget,
      reverse_append] at hloop h
    obtain ⟨hin, hmade, -⟩ := ancestorsLoop_named htree hcanon hloop h
    exact ⟨hin, hmade⟩

/-- **An entry changes the target only**, and leaves a tree with the target in it. -/
theorem extractNamed_within (htree : IsTree fs) (hcanon : Canonical target fs)
    (hthere : checkedThere steps target fs entry)
    (h : extractNamed steps target fs entry = some after) :
    (∀ p, dictGet p after ≠ dictGet p fs → target <+: p) ∧ IsTree after ∧
      Canonical target after := by
  have hsame : (∀ p, dictGet p fs ≠ dictGet p fs → target <+: p) ∧ IsTree fs ∧
    Canonical target fs :=
    ⟨fun p hp => absurd rfl hp, htree, hcanon⟩
  unfold extractNamed extractEntry unpackIn at h
  split at h
  · next hnamed =>
    split at h
    · next hacc =>
      split at h
      · next n hlast =>
        obtain ⟨⟨made, dir⟩, hwalk, h⟩ := Option.bind_eq_some_iff.mp h
        obtain ⟨node, -, h⟩ := Option.bind_eq_some_iff.mp h
        obtain ⟨hin, hmade⟩ :=
          named_within htree hcanon (ancestors_dstPath hacc hthere) hnamed hwalk
        obtain ⟨htree', hthere⟩ := htree.walk (.inl rfl) hwalk
        have hcanon' := hcanon.walk hwalk
        rcases create_cases h with rfl | ⟨hdir, rfl⟩
        · exact ⟨hmade, htree', hcanon'⟩
        · exact ⟨changes_set hin hmade, htree'.set hthere node, hcanon'.set hdir⟩
      · cases h
        exact hsame
    · cases h
      exact hsame
  · cases h
    exact hsame

/-- **Archive extraction creates nothing outside of the target**, as long as the check of the
ancestors is of the path to which an entry goes: the parent directory of an accepted entry is in the
target after the links of the earlier entries are followed, and so is all that changes. -/
theorem entries_within (entries : List Entry) (htree : IsTree fs) (hcanon : Canonical target fs)
    (hthere : holdsAlong (extractNamed steps target) (checkedThere steps target · ·) fs entries) :
    holdsAlong (extractNamed steps target) (MadeWithin steps target) fs entries := by
  induction entries generalizing fs with
  | nil => trivial
  | cons entry entries ih =>
    refine ⟨fun hacc => ?_, fun after h => ?_⟩
    · have hloop := ancestors_dstPath hacc hthere.1
      refine ⟨fun loc => parent_within hcanon ?_ hloop, fun hnamed made loc => ?_, fun after h =>
        ?_⟩
      · simp +contextual [Entry.dstPath]
      · exact named_within htree hcanon hloop hnamed
      · exact (extractNamed_within htree hcanon hthere.1 h).1
    · obtain ⟨-, htree, hcanon⟩ := extractNamed_within htree hcanon hthere.1 h
      exact ih htree hcanon (hthere.2 after h)

theorem emptyTarget_isTree : IsTree emptyTarget := by
  intro p hp
  rcases hp with rfl | hp
  · exact .inl rfl
  · rw [emptyTarget, dictGet] at hp
    split at hp
    · next heq => exact .inl (heq ▸ rfl)
    · exact absurd rfl hp

/-- A file behind a link, and one with an absolute path that leads through no link. -/
theorem entries_within_link : holdsAlong (extractNamed 9 ["t"]) (MadeWithin 9 ["t"]) emptyTarget
    [symlinkEntry [.name "s"] [], symlinkEntry [.name "l"] [.name "s", .up],
      ⟨⟨false, [.name "s", .name "x"]⟩, .file⟩, ⟨⟨true, [.name "t", .name "x"]⟩, .file⟩] := by
  exact entries_within _ emptyTarget_isTree emptyTarget_canonical.1 (by decide +kernel)

/-- `s -> .`, `t -> s/..` and the file `/t/x` in the target `/t`: the parent of `/t/x` is the
target, and the file is made behind the link `/t/t`, at `/x`. -/
theorem entries_escape : ∃ steps target fs entries, IsTree fs ∧ Canonical target fs ∧
    ¬holdsAlong (extractNamed steps target) (MadeWithin steps target) fs entries := by
  refine ⟨9, ["t"], emptyTarget,
    [symlinkEntry [.name "s"] [], symlinkEntry [.name "t"] [.name "s", .up],
      ⟨⟨true, [.name "t", .name "x"]⟩, .file⟩],
    emptyTarget_isTree, emptyTarget_canonical.1, fun h => ?_⟩
  -- the target with the two links
  let linked : Fs := [(["t"], .dir), (["t", "s"], .link ⟨false, []⟩)]
  let there : Fs := linked ++ [(["t", "t"], .link ⟨false, [.name "s", .up]⟩)]
  have hfile := ((h.2 linked (by decide +kernel)).2 there (by decide +kernel)).1
  have hout := (hfile (by decide +kernel)).1 (there, []) (by decide +kernel)
  exact absurd hout (by decide)

end Okou.Storage
