import Okou.Rewrite.AuthBase

/-!
# Trusted query parameters

The query of a rewritten URL is read by a server that splits it at `&`, or by one that
splits it at `&` and `;`.  The rewriting itself splits at both.  So a server that does
the same finds the trusted pairs first: those of the authentication, then those of the
base, and of the request only the pairs with other keys (`readQuery_merged`).

For a server that splits at `&` only, a pair may have `;` in its value.  Since what stands
behind the `;` was filtered as a pair of its own, such a value can be cut, and a pair can
come up that stood in another one's value.  Trusted keys are still not shadowed: a key
without `;` that such a server reads is the key of a pair that was filtered
(`keys_readQuery_amp`).
-/

namespace Okou.Rewrite

open List hiding partition

open Firewall

/-! ### Splitting -/

/-- Splitting at `&` only. -/
def isAmp (c : ℕ) : Bool := c == cp '&'

/-- The segments of a query that are not empty. -/
def segments (p : ℕ → Bool) (query : PyStr) : List PyStr :=
  (query.splitOnP p).filter fun segment => decide (segment ≠ [])

variable {p : ℕ → Bool}

@[simp] theorem segments_nil : segments p [] = [] := by
  rfl

theorem segments_append_cons {sep} (hsep : p sep) (a b : PyStr) :
    segments p (a ++ sep :: b) = segments p a ++ segments p b := by
  rw [segments, splitOnP_append_cons a b hsep, filter_append]
  rfl

variable {query text key baseQuery origQuery merged : PyStr} {blockedKeys : List PyStr}
  {resolvedQuery : QueryDict}

variable (pairs : List QueryPair)

theorem segments_of_forall (hquery : ∀ c ∈ query, p c = false) :
    segments p query = [query].filter fun segment => segment ≠ [] := by
  rw [segments, splitOnP_eq_singleton hquery]

/-- Splitting at more characters splits the pieces again. -/
theorem splitOnP_refine {p'} (hle : ∀ c, p c → p' c) (text : PyStr) :
    text.splitOnP p' = (text.splitOnP p).flatMap (List.splitOnP p') := by
  induction text using splitOnP_rec (p := p) with
  | hfree text hall => rw [splitOnP_eq_singleton hall, flatMap_singleton]
  | hcut before sep rest hsep ihBefore ihRest =>
    rw [splitOnP_append_cons _ _ (hle sep hsep), splitOnP_append_cons _ _ hsep, flatMap_append,
      ihBefore, ihRest]

theorem flatMap_filter_of_nil {α β : Type*} {f : α → List β} {q : α → Bool}
    (h : ∀ a, q a = false → f a = []) (l : List α) : (l.filter q).flatMap f = l.flatMap f := by
  induction l with
  | nil => rfl
  | cons a l ih =>
    cases hq : q a with
    | true => rw [filter_cons_of_pos hq, flatMap_cons, flatMap_cons, ih]
    | false => rw [filter_cons_of_neg (by simp [hq]), flatMap_cons, h a hq, nil_append, ih]

theorem segments_of_empty (text : PyStr) (h : decide (text ≠ []) = false) :
    segments p text = [] := by
  rw [show text = [] by simpa using h, segments_nil]

theorem segments_refine {p' : ℕ → Bool} (hle : ∀ c, p c → p' c) (text : PyStr) :
    segments p' text = (segments p text).flatMap (segments p') := by
  rw [segments, splitOnP_refine hle, filter_flatMap]
  exact (flatMap_filter_of_nil segments_of_empty _).symm

theorem isSeparator_of_isAmp (c : ℕ) (hc : isAmp c) : isSeparator c := by
  rw [isSeparator, show (c == cp '&') from hc, Bool.true_or]

/-! ### Reading -/

/-- A pair as it is read. -/
def readPair (raw : PyStr) : PyStr × PyStr :=
  let (key, value) := partition (cp '=') raw
  (unquotePlus key, unquotePlus (value.getD []))

/-- The pairs of a query; empty segments are no pairs. -/
def readQuery (p : ℕ → Bool) (query : PyStr) : List (PyStr × PyStr) :=
  (segments p query).map readPair

/-- The keys that are read. -/
def readKeys (p : ℕ → Bool) (query : PyStr) : List PyStr := (readQuery p query).map Prod.fst

/-- The pairs of a key. -/
def withKey (key : PyStr) (pairs : List (PyStr × PyStr)) : List (PyStr × PyStr) :=
  pairs.filter fun pair => decide (pair.1 = key)

theorem withKey_append (key : PyStr) (a b) :
    withKey key (a ++ b) = withKey key a ++ withKey key b := filter_append a b

theorem withKey_eq_nil {pairs} (h : key ∉ pairs.map Prod.fst) : withKey key pairs = [] := by
  refine filter_eq_nil_iff.mpr fun pair hpair hkey => h ?_
  rw [← of_decide_eq_true hkey]
  exact mem_map_of_mem hpair

/-- Dropping other keys does not change the pairs of a key. -/
theorem withKey_filter {blocked : List PyStr} (hkey : key ∉ blocked) (pairs) :
    withKey key (pairs.filter fun pair => pair.1 ∉ blocked) = withKey key pairs := by
  rw [withKey, filter_filter]
  refine filter_congr fun pair _ => ?_
  by_cases h : pair.1 = key
  · simp [h, hkey]
  · simp [h]

/-! ### Quoting -/

/-- The characters that the quoting of the query leaves alone. -/
theorem isSafe_query : ∀ c ∈ [cp '%', cp '+', cp '&', cp ';', cp '='],
    isSafe urlQuerySafeChars c := by
  decide

theorem quoteChar_query {c} (hc : c ∈ [cp '%', cp '+', cp '&', cp ';', cp '=']) :
    quoteChar urlQuerySafeChars c = [c] := by
  rw [quoteChar_eq, if_pos (isSafe_query c hc)]

/-- Quoting brings in no separators. -/
theorem not_mem_quoteChar {c d} (hc : IsScalar c) (hd : d ∈ [cp '&', cp ';', cp '='])
    (hne : d ≠ c) : d ∉ quoteChar urlQuerySafeChars c := by
  intro hmem
  have hresv : d ≠ 37 ∧ isUnreserved d = false := by
    simp only [mem_cons, not_mem_nil, or_false] at hd
    rcases hd with rfl | rfl | rfl <;> exact ⟨by decide, by decide⟩
  rcases mem_quoteChar hc hmem with h | h | h
  · exact hresv.1 h
  · rw [hresv.2] at h
    cases h
  · exact hne h.1

theorem splitOnP_quoteText (htext : ∀ c ∈ text, IsScalar c) (hp : ∀ c, p c → c ∈ [cp '&', cp ';']) :
    (quoteText urlQuerySafeChars text).splitOnP p =
      (text.splitOnP p).map (quoteText urlQuerySafeChars) := by
  refine splitOnP_flatMap (fun c _ hc => ?_) fun c hmem hc d hd => ?_
  · refine quoteChar_query ?_
    have := hp c hc
    simp only [mem_cons, not_mem_nil, or_false] at this ⊢
    rcases this with h | h <;> simp [h]
  · by_contra hpd
    have hpd : p d := by simpa using hpd
    have hd' : d ∈ [cp '&', cp ';', cp '='] := mem_append_left [cp '='] (hp d hpd)
    refine not_mem_quoteChar (htext c hmem) hd' ?_ hd
    rintro rfl
    rw [hc] at hpd
    cases hpd

theorem quoteChar_ne_nil (safe : PyStr) (c : ℕ) : quoteChar safe c ≠ [] := by
  rw [quoteChar_eq]
  split
  · exact cons_ne_nil c []
  · obtain ⟨rest, hrest⟩ := exists_escapes c
    rw [hrest]
    exact cons_ne_nil 37 rest

theorem quoteText_eq_nil {safe} : quoteText safe text = [] ↔ text = [] := by
  cases text with
  | nil => exact ⟨fun _ => rfl, fun _ => rfl⟩
  | cons c text =>
    refine ⟨fun h => ?_, nofun⟩
    rw [quoteText, flatMap_cons, append_eq_nil_iff] at h
    exact absurd h.1 (quoteChar_ne_nil safe c)

theorem unquotePlus_quoted (htext : ∀ c ∈ text, IsScalar c) :
    unquotePlus (quoteText urlQuerySafeChars text) = unquotePlus text :=
  unquotePlus_quoteText (by decide) (by decide) htext

/-- A quoted pair is read as the pair. -/
theorem readPair_quoteText {raw} (hraw : ∀ c ∈ raw, IsScalar c) :
    readPair (quoteText urlQuerySafeChars raw) = readPair raw := by
  have hnone : ∀ {text : PyStr}, (∀ c ∈ text, IsScalar c) → cp '=' ∉ text →
      cp '=' ∉ quoteText urlQuerySafeChars text := by
    intro text htext hmem hquot
    obtain ⟨c, hc, hd⟩ := mem_flatMap.mp hquot
    have hne : cp '=' ≠ c := fun h => hmem (h ▸ hc)
    exact not_mem_quoteChar (htext c hc) (by decide) hne hd
  unfold readPair
  rcases partition_cases (cp '=') raw with ⟨hmem, hpart⟩ | ⟨key, value, rfl, hmem, hpart⟩
  · rw [hpart, partition_of_not_mem (hnone hraw hmem)]
    dsimp only
    rw [unquotePlus_quoted hraw]
  · have hkey : ∀ c ∈ key, IsScalar c := fun c hc => hraw c (mem_append_left _ hc)
    have hvalue : ∀ c ∈ value, IsScalar c := fun c hc =>
      hraw c (mem_append_right key (mem_cons_of_mem _ hc))
    have hquot : quoteText urlQuerySafeChars (key ++ cp '=' :: value) =
        quoteText urlQuerySafeChars key ++ cp '=' :: quoteText urlQuerySafeChars value := by
      rw [quoteText, flatMap_append, flatMap_cons, quoteChar_query (by decide)]
      rfl
    rw [hpart, hquot, partition_append (hnone hkey hmem)]
    dsimp only [Option.getD_some]
    rw [unquotePlus_quoted hkey, unquotePlus_quoted hvalue]

/-- **Quoting the query does not change what is read.** -/
theorem readQuery_quoted (hquery : ∀ c ∈ query, IsScalar c) (hp : ∀ c, p c → c ∈ [cp '&', cp ';']) :
    readQuery p (quoteText urlQuerySafeChars query) = readQuery p query := by
  rw [readQuery, segments, splitOnP_quoteText hquery hp, filter_map, map_map]
  have hfilter : ((fun segment => decide (segment ≠ [])) ∘ quoteText urlQuerySafeChars) =
      fun segment : PyStr => decide (segment ≠ []) :=
    funext fun segment => decide_eq_decide.mpr (not_congr quoteText_eq_nil)
  rw [hfilter]
  refine map_congr_left fun raw hraw => ?_
  have hpiece := mem_splitOnP (mem_of_mem_filter hraw)
  exact readPair_quoteText fun c hc => hquery c (hpiece c hc).1

/-! ### Pairs and their separators -/

/-- The segments of a list of pairs. -/
def rawSegments (pairs : List QueryPair) : List PyStr :=
  (pairs.map Prod.snd).filter fun raw => decide (raw ≠ [])

/-- A pair as `splitQueryPairs` gives them. -/
structure PairOk (pair : QueryPair) : Prop where
  separator : pair.1 = [] ∨ pair.1 = [cp '&'] ∨ pair.1 = [cp ';']
  raw : ∀ c ∈ pair.2, isSeparator c = false

theorem rawSegments_append (a b) : rawSegments (a ++ b) = rawSegments a ++ rawSegments b := by
  rw [rawSegments, map_append, filter_append]
  rfl

theorem joinedPair_eq {pair} (hpair : PairOk pair) :
    ∃ sep, isSeparator sep ∧ joinedPair pair = sep :: pair.2 := by
  unfold joinedPair
  rcases hpair.separator with h | h | h
  · exact ⟨cp '&', rfl, by rw [h]; rfl⟩
  · exact ⟨cp '&', rfl, by rw [h]; rfl⟩
  · exact ⟨cp ';', rfl, by rw [h]; rfl⟩

/-- Joined pairs are split into the pairs. -/
theorem segments_joinedPairs {pairs} (hpairs : ∀ pair ∈ pairs, PairOk pair) (first : PyStr) :
    segments isSeparator (first ++ pairs.flatMap joinedPair) = segments isSeparator first ++
      rawSegments pairs := by
  induction pairs generalizing first with
  | nil =>
    rw [flatMap_nil, append_nil]
    exact (append_nil _).symm
  | cons pair pairs ih =>
    have hpair := hpairs pair mem_cons_self
    obtain ⟨sep, hsep, hjoined⟩ := joinedPair_eq hpair
    rw [flatMap_cons, hjoined, cons_append, segments_append_cons hsep,
      ih (forall_mem_cons.mp hpairs).2, segments_of_forall hpair.raw]
    exact congrArg (segments isSeparator first ++ ·) (rawSegments_append [pair] pairs).symm

theorem segments_joinQueryPairs {pairs} (hpairs : ∀ pair ∈ pairs, PairOk pair) :
    segments isSeparator (joinQueryPairs pairs) = rawSegments pairs := by
  cases pairs with
  | nil => exact segments_nil
  | cons pair pairs =>
    rw [joinQueryPairs, segments_joinedPairs (forall_mem_cons.mp hpairs).2,
      segments_of_forall (hpairs pair mem_cons_self).raw]
    exact (rawSegments_append [pair] pairs).symm

theorem splitPairsLoop_ok {separator current} (query : PyStr)
    (hok : PairOk (separator, current)) : ∀ pair ∈ splitPairsLoop separator current query,
      PairOk pair := by
  induction query generalizing separator current with
  | nil => exact forall_mem_singleton.mpr hok
  | cons c query ih =>
    rw [splitPairsLoop]
    split
    case isTrue hc =>
      refine forall_mem_cons.mpr ⟨hok, ih ⟨.inr ?_, forall_mem_nil _⟩⟩
      rw [isSeparator, Bool.or_eq_true, beq_iff_eq, beq_iff_eq] at hc
      exact hc.imp (congrArg (fun d => [d])) (congrArg (fun d => [d]))
    case isFalse hc =>
      exact ih ⟨hok.separator, forall_mem_append.mpr ⟨hok.raw,
        forall_mem_singleton.mpr (Bool.eq_false_iff.mpr hc)⟩⟩

theorem flatMap_splitPairsLoop {separator} (hseparator : separator ≠ []) (current query : PyStr) :
    (splitPairsLoop separator current query).flatMap joinedPair = separator ++
      (current ++ query) := by
  induction query generalizing separator current with
  | nil =>
    rw [splitPairsLoop, flatMap_singleton, joinedPair, if_neg hseparator, append_nil]
  | cons c query ih =>
    rw [splitPairsLoop]
    split
    case isTrue =>
      rw [flatMap_cons, ih (cons_ne_nil c []), joinedPair, if_neg hseparator, append_assoc]
      rfl
    case isFalse => rw [ih hseparator, append_assoc, singleton_append]

theorem joinQueryPairs_splitPairsLoop (separator current query : PyStr) :
    joinQueryPairs (splitPairsLoop separator current query) = current ++ query := by
  induction query generalizing separator current with
  | nil => rfl
  | cons c query ih =>
    rw [splitPairsLoop]
    split
    case isTrue => rw [joinQueryPairs, flatMap_splitPairsLoop (cons_ne_nil c [])]; rfl
    case isFalse => rw [ih, append_assoc, singleton_append]

theorem splitQueryPairs_ok (query : PyStr) : ∀ pair ∈ splitQueryPairs query, PairOk pair := by
  unfold splitQueryPairs
  split
  case isTrue => exact forall_mem_nil _
  case isFalse =>
    exact splitPairsLoop_ok query ⟨.inl rfl, forall_mem_nil _⟩

/-- Splitting and joining gives the query back. -/
theorem joinQueryPairs_splitQueryPairs (query : PyStr) :
    joinQueryPairs (splitQueryPairs query) = query := by
  unfold splitQueryPairs
  split
  case isTrue hquery => exact hquery.symm
  case isFalse => exact joinQueryPairs_splitPairsLoop [] [] query

theorem rawSegments_splitQueryPairs (query : PyStr) :
    rawSegments (splitQueryPairs query) = segments isSeparator query := by
  rw [← segments_joinQueryPairs (splitQueryPairs_ok query), joinQueryPairs_splitQueryPairs]

/-! ### The filter -/

theorem dropTrailingEmpty_append :
    ∃ dropped, pairs = dropTrailingEmpty pairs ++ dropped ∧ ∀ pair ∈ dropped, pair.2 = [] := by
  refine ⟨pairs.rtakeWhile fun pair => pair.2 = [], ?_, fun pair hpair => ?_⟩
  · exact (rdropWhile_append_rtakeWhile).symm
  · have hempty := mem_rtakeWhile_imp hpair
    exact of_decide_eq_true hempty

theorem rawSegments_dropTrailingEmpty :
    rawSegments (dropTrailingEmpty pairs) = rawSegments pairs := by
  obtain ⟨dropped, hpairs, hempty⟩ := dropTrailingEmpty_append pairs
  have hnil : rawSegments dropped = [] := by
    refine filter_eq_nil_iff.mpr fun raw hraw hne => ?_
    obtain ⟨pair, hpair, rfl⟩ := mem_map.mp hraw
    exact of_decide_eq_true hne (hempty pair hpair)
  conv_rhs => rw [hpairs, rawSegments_append, hnil, append_nil]

/-- The segments whose key is not blocked. -/
def unblocked (blockedKeys : List PyStr) (raws : List PyStr) : List PyStr :=
  raws.filter fun raw => decide ((readPair raw).1 ∉ blockedKeys)

theorem rawSegments_filterStep (blockedKeys) (state) (pair) :
    rawSegments (filterStep blockedKeys state pair).1 =
      rawSegments state.1 ++ unblocked blockedKeys (rawSegments [pair]) := by
  obtain ⟨filtered, removed⟩ := state
  obtain ⟨separator, raw⟩ := pair
  unfold filterStep
  by_cases hraw : raw = []
  · subst hraw
    cases removed with
    | true => exact (append_nil _).symm
    | false => exact rawSegments_append filtered [(separator, [])]
  · have hone : ∀ separator : PyStr, rawSegments [(separator, raw)] = [raw] := by
      intro separator
      rw [rawSegments, map_singleton, filter_singleton, decide_eq_true hraw]
      rfl
    have hkey : queryPairKey (separator, raw) = (readPair raw).1 := rfl
    dsimp only
    rw [if_neg hraw, hone, unblocked, filter_singleton, hkey]
    split
    case isTrue hblock =>
      rw [rawSegments_dropTrailingEmpty, decide_eq_false (not_not.mpr hblock)]
      exact (append_nil _).symm
    case isFalse hfree =>
      rw [rawSegments_append, hone, decide_eq_true hfree]
      rfl

theorem rawSegments_foldl (blockedKeys) (pairs) (state) :
      rawSegments (pairs.foldl (filterStep blockedKeys) state).1 =
        rawSegments state.1 ++ unblocked blockedKeys (rawSegments pairs) := by
  induction pairs generalizing state with
  | nil => exact (append_nil _).symm
  | cons pair pairs ih =>
    have hcons : rawSegments (pair :: pairs) = rawSegments [pair] ++ rawSegments pairs :=
      rawSegments_append [pair] pairs
    rw [foldl_cons, ih, rawSegments_filterStep, hcons, unblocked, unblocked, unblocked,
      filter_append, append_assoc]

/-- **The filter drops the pairs with a blocked key, and no others.** -/
theorem rawSegments_filterQueryPairs (blockedKeys) :
    rawSegments (filterQueryPairs pairs blockedKeys) =
      unblocked blockedKeys (rawSegments pairs) := by
  unfold filterQueryPairs
  split
  case isTrue hnone =>
    rw [hnone, unblocked, filter_eq_self.mpr fun raw _ => decide_eq_true not_mem_nil]
  case isFalse => exact rawSegments_foldl blockedKeys pairs ([], false)

/-- A pair that was kept has its text, and its separator or `&`. -/
def KeptFrom (pairs : List QueryPair) (pair : QueryPair) : Prop :=
  ∃ old ∈ pairs, pair.2 = old.2 ∧ (pair.1 = old.1 ∨ pair.1 = [cp '&'])

theorem keptFrom_foldl {pairs all : List QueryPair} {state : List QueryPair × Bool}
    (hstate : ∀ pair ∈ state.1, KeptFrom all pair) (hall : ∀ pair ∈ pairs, pair ∈ all) :
    ∀ pair ∈ (pairs.foldl (filterStep blockedKeys) state).1, KeptFrom all pair := by
  induction pairs generalizing state with
  | nil => exact hstate
  | cons next pairs ih =>
    obtain ⟨filtered, removed⟩ := state
    obtain ⟨hnext, hall⟩ := forall_mem_cons.mp hall
    refine ih ?_ hall
    have happ : ∀ separator : PyStr, separator = next.1 ∨ separator = [cp '&'] →
        ∀ pair ∈ filtered ++ [(separator, next.2)], KeptFrom all pair := by
      intro separator hseparator
      exact forall_mem_append.mpr ⟨hstate, forall_mem_singleton.mpr ⟨next, hnext, rfl, hseparator⟩⟩
    unfold filterStep
    dsimp only
    split
    case isTrue =>
      split
      · exact hstate
      · exact happ next.1 (.inl rfl)
    case isFalse =>
      split
      case isTrue =>
        obtain ⟨dropped, hpairs, _⟩ := dropTrailingEmpty_append filtered
        exact fun pair hpair => hstate pair (hpairs ▸ mem_append_left dropped hpair)
      case isFalse =>
        refine happ _ ?_
        split
        · exact .inr rfl
        · exact .inl rfl

theorem keptFrom_filterQueryPairs (blockedKeys) :
    ∀ pair ∈ filterQueryPairs pairs blockedKeys, KeptFrom pairs pair := by
  unfold filterQueryPairs
  split
  case isTrue => exact fun pair hpair => ⟨pair, hpair, rfl, .inl rfl⟩
  case isFalse =>
    exact keptFrom_foldl (forall_mem_nil _) fun _ hpair => hpair

/-- Where nothing is blocked, the pairs stay with their separators. -/
theorem filterQueryPairs_of_forall {pairs} (hpairs : ∀ pair ∈ pairs, pair.2 ≠ [] →
    queryPairKey pair ∉ blockedKeys) :
    filterQueryPairs pairs blockedKeys = pairs := by
  have hloop : ∀ kept : List QueryPair,
      pairs.foldl (filterStep blockedKeys) (kept, false) = (kept ++ pairs, false) := by
    induction pairs with
    | nil => exact fun kept => by rw [append_nil]; rfl
    | cons pair pairs ih =>
      intro kept
      have hstep : filterStep blockedKeys (kept, false) pair = (kept ++ [pair], false) := by
        unfold filterStep
        dsimp only
        split
        case isTrue => rfl
        case isFalse hraw =>
          rw [if_neg (hpairs pair mem_cons_self hraw)]
          rfl
      rw [foldl_cons, hstep, ih (forall_mem_cons.mp hpairs).2, append_assoc, singleton_append]
  unfold filterQueryPairs
  split
  case isTrue => rfl
  case isFalse => rw [hloop []]; rfl

/-! ### What is left of a query -/

/-- A query without the pairs whose keys are blocked. -/
def keptQuery (query : PyStr) (blockedKeys : List PyStr) : PyStr :=
  joinQueryPairs (filterQueryPairs (splitQueryPairs query) blockedKeys)

section

variable (query : PyStr) (blockedKeys : List PyStr)

theorem filterQueryPairs_ok : ∀ pair ∈ filterQueryPairs (splitQueryPairs query) blockedKeys,
    PairOk pair := by
  intro pair hpair
  obtain ⟨old, hold, hraw, hseparator⟩ := keptFrom_filterQueryPairs _ _ pair hpair
  have hok := splitQueryPairs_ok query old hold
  refine ⟨?_, hraw ▸ hok.raw⟩
  rcases hseparator with h | h
  · exact h ▸ hok.separator
  · exact .inr (.inl h)

theorem segments_keptQuery :
    segments isSeparator (keptQuery query blockedKeys) =
      unblocked blockedKeys (segments isSeparator query) := by
  rw [keptQuery, segments_joinQueryPairs (filterQueryPairs_ok query blockedKeys),
    rawSegments_filterQueryPairs, rawSegments_splitQueryPairs]

/-- A server that splits at both separators reads the pairs that are not blocked. -/
theorem readQuery_keptQuery : readQuery isSeparator (keptQuery query blockedKeys) =
      (readQuery isSeparator query).filter fun pair => pair.1 ∉ blockedKeys := by
  rw [readQuery, segments_keptQuery, readQuery, filter_map]
  rfl

theorem queryPairKeys_filterQueryPairs :
      queryPairKeys (filterQueryPairs (splitQueryPairs query) blockedKeys) =
      readKeys isSeparator (keptQuery query blockedKeys) := by
  rw [readKeys, readQuery, keptQuery,
    segments_joinQueryPairs (filterQueryPairs_ok query blockedKeys),
    rawSegments, queryPairKeys, filter_map, map_map, map_map]
  rfl

end

/-- The query loses no pair, or has no `;`. -/
def Intact (query : PyStr) (blockedKeys : List PyStr) : Prop :=
  cp ';' ∉ query ∨ ∀ key ∈ readKeys isSeparator query, key ∉ blockedKeys

theorem keptQuery_of_unblocked (hkeys : ∀ key ∈ readKeys isSeparator query, key ∉ blockedKeys) :
    keptQuery query blockedKeys = query := by
  have hpairs : ∀ pair ∈ splitQueryPairs query, pair.2 ≠ [] → queryPairKey pair ∉ blockedKeys := by
    intro pair hpair hraw
    refine hkeys _ ?_
    have hseg : pair.2 ∈ segments isSeparator query := by
      rw [← rawSegments_splitQueryPairs]
      exact mem_filter.mpr ⟨mem_map_of_mem hpair, decide_eq_true hraw⟩
    exact mem_map_of_mem (mem_map_of_mem hseg)
  rw [keptQuery, filterQueryPairs_of_forall hpairs, joinQueryPairs_splitQueryPairs]

/-- Without `;` the two ways of splitting are one. -/
theorem segments_amp (hquery : cp ';' ∉ query) :
    segments isAmp query = segments isSeparator query := by
  have hsame : query.splitOnP isAmp = query.splitOnP isSeparator := by
    have hc : ∀ c ∈ query, isSeparator c = isAmp c := by
      intro c hc
      have hne : c ≠ cp ';' := fun h => hquery (h ▸ hc)
      rw [isSeparator, isAmp, beq_eq_false_iff_ne.mpr hne, Bool.or_false]
    clear hquery
    induction query with
    | nil => rfl
    | cons c query ih =>
      rw [splitOnP_cons_eq_if_modifyHead, splitOnP_cons_eq_if_modifyHead,
        hc c mem_cons_self, ih (forall_mem_cons.mp hc).2]
  rw [segments, hsame]
  rfl

theorem semicolon_not_mem_keptQuery (hquery : cp ';' ∉ query) (blockedKeys) :
    cp ';' ∉ keptQuery query blockedKeys := by
  -- the text of the pairs and their separators come from the query, or are `&`
  have hsplit : ∀ (query separator current : PyStr), cp ';' ∉ separator → cp ';' ∉ current →
      cp ';' ∉ query → ∀ pair ∈ splitPairsLoop separator current query, cp ';' ∉ pair.1 ∧
        cp ';' ∉ pair.2 := by
    intro query separator current hseparator hcur hmem
    induction query generalizing separator current with
    | nil => exact forall_mem_singleton.mpr ⟨hseparator, hcur⟩
    | cons c query ih =>
      rw [mem_cons, not_or] at hmem
      have hone : cp ';' ∉ [c] := fun h => hmem.1 (mem_singleton.mp h)
      rw [splitPairsLoop]
      split
      case isTrue => exact forall_mem_cons.mpr ⟨⟨hseparator, hcur⟩,
        ih [c] [] hone not_mem_nil hmem.2⟩
      case isFalse =>
        refine ih separator (current ++ [c]) hseparator ?_ hmem.2
        rw [mem_append, not_or]
        exact ⟨hcur, hone⟩
  have hpairs : ∀ pair ∈ splitQueryPairs query, cp ';' ∉ pair.1 ∧ cp ';' ∉ pair.2 := by
    unfold splitQueryPairs
    split
    case isTrue => exact forall_mem_nil _
    case isFalse => exact hsplit query [] [] not_mem_nil not_mem_nil hquery
  have hkept : ∀ pair ∈ filterQueryPairs (splitQueryPairs query) blockedKeys,
      cp ';' ∉ pair.2 ∧ cp ';' ∉ joinedPair pair := by
    intro pair hpair
    obtain ⟨old, hold, hraw, hseparator⟩ := keptFrom_filterQueryPairs _ _ pair hpair
    have hraw' : cp ';' ∉ pair.2 := hraw ▸ (hpairs old hold).2
    refine ⟨hraw', ?_⟩
    rw [joinedPair, mem_append, not_or]
    refine ⟨?_, hraw'⟩
    split
    · decide
    · rcases hseparator with h | h
      · exact h ▸ (hpairs old hold).1
      · rw [h]
        decide
  unfold keptQuery
  cases hfilt : filterQueryPairs (splitQueryPairs query) blockedKeys with
  | nil => exact not_mem_nil
  | cons pair pairs =>
    rw [hfilt] at hkept
    rw [joinQueryPairs, mem_append, mem_flatMap, not_or]
    refine ⟨(hkept pair mem_cons_self).1, ?_⟩
    rintro ⟨pair', hpair', hmem⟩
    exact (hkept pair' (mem_cons_of_mem pair hpair')).2 hmem

/-- What a server that splits at `&` only reads of a query that is intact. -/
theorem withKey_amp_keptQuery (hint : Intact query blockedKeys) (hkey : key ∉ blockedKeys) :
    withKey key (readQuery isAmp (keptQuery query blockedKeys)) = withKey key
      (readQuery isAmp query) := by
  rcases hint with hsemi | hunbl
  · rw [readQuery, segments_amp (semicolon_not_mem_keptQuery hsemi blockedKeys), readQuery,
      segments_amp hsemi]
    have hboth := readQuery_keptQuery query blockedKeys
    unfold readQuery at hboth
    rw [hboth, withKey_filter hkey]
  · rw [keptQuery_of_unblocked hunbl]

/-! ### A server that splits at `&` only -/

theorem mem_unquotePlus_semicolon (htext : ∀ c ∈ text, IsScalar c) (hmem : cp ';' ∈ text) :
    cp ';' ∈ unquotePlus text := by
  have hscal : ∀ c ∈ text.map plusToSpace, IsScalar c :=
    forall_mem_map.mpr fun d hd => isScalar_plusToSpace (htext d hd)
  exact mem_unquote hscal (mem_map.mpr ⟨cp ';', hmem, rfl⟩) (by decide) rfl

/-- A key without `;` that is read from a segment between two `&` is the key of the first
pair in it. -/
theorem exists_segment_of_key {segment} (hscal : ∀ c ∈ segment, IsScalar c)
    (hne : segment ≠ []) (hamp : ∀ c ∈ segment, isAmp c = false)
    (hkey : cp ';' ∉ (readPair segment).1) :
    ∃ raw ∈ segments isSeparator segment, (readPair raw).1 = (readPair segment).1 := by
  have hclean : ∀ {key : PyStr}, (∀ c ∈ key, c ∈ segment) → cp ';' ∉ key → ∀ c ∈ key,
    isSeparator c = false := by
    intro key hsub hsemi c hc
    have hc' : (c == cp '&') = false := hamp c (hsub c hc)
    rw [isSeparator, hc', Bool.false_or]
    exact beq_eq_false_iff_ne.mpr fun h => hsemi (h ▸ hc)
  rcases partition_cases (cp '=') segment with ⟨_, hpart⟩ | ⟨key, value, hseg, hmem, hpart⟩
  · have hread : (readPair segment).1 = unquotePlus segment := by
      rw [readPair, hpart]
    rw [hread] at hkey ⊢
    have hsemi : cp ';' ∉ segment := fun h => hkey (mem_unquotePlus_semicolon hscal h)
    refine ⟨segment, ?_, hread⟩
    rw [segments_of_forall (hclean (fun c hc => hc) hsemi)]
    exact mem_filter.mpr ⟨mem_singleton_self segment, decide_eq_true hne⟩
  · have hread : (readPair segment).1 = unquotePlus key := by
      rw [readPair, hpart]
    have hsub : ∀ c ∈ key, c ∈ segment := fun c hc => hseg ▸ mem_append_left _ hc
    rw [hread] at hkey ⊢
    have hsemi : cp ';' ∉ key := fun h =>
      hkey (mem_unquotePlus_semicolon (fun c hc => hscal c (hsub c hc)) h)
    have hbef : ∀ c ∈ key ++ [cp '='], isSeparator c = false :=
      forall_mem_append.mpr ⟨hclean hsub hsemi, forall_mem_singleton.mpr rfl⟩
    have hsplit : segment.splitOnP isSeparator = (value.splitOnP isSeparator).modifyHead
      (key ++ [cp '='] ++ ·) := by
      rw [← splitOnP_append_of_forall hbef, hseg, append_assoc, singleton_append]
    obtain ⟨first, rest, hvalue⟩ := exists_cons_of_ne_nil (splitOnP_ne_nil isSeparator value)
    rw [hvalue, modifyHead_cons, append_assoc, singleton_append] at hsplit
    refine ⟨key ++ cp '=' :: first, ?_, ?_⟩
    · rw [segments, hsplit]
      refine mem_filter.mpr ⟨mem_cons_self, decide_eq_true ?_⟩
      exact append_ne_nil_of_right_ne_nil key (cons_ne_nil _ _)
    · rw [readPair, partition_append hmem]

/-- **A key without `;` that is read at `&` only is the key of a pair at both.** -/
theorem keys_readQuery_amp (hscal : ∀ segment ∈ segments isAmp query, ∀ c ∈ segment, IsScalar c)
    (hsemi : cp ';' ∉ key) (hkey : key ∈ readKeys isAmp query) :
      key ∈ readKeys isSeparator query := by
  obtain ⟨pair, hpair, rfl⟩ := mem_map.mp hkey
  obtain ⟨segment, hseg, rfl⟩ := mem_map.mp hpair
  obtain ⟨hsplit, hne⟩ := mem_filter.mp hseg
  obtain ⟨raw, hraw, hread⟩ := exists_segment_of_key (hscal segment hseg) (of_decide_eq_true hne)
    (fun c hc => (mem_splitOnP hsplit c hc).2) hsemi
  rw [← hread]
  refine mem_map_of_mem (mem_map_of_mem ?_)
  rw [segments_refine isSeparator_of_isAmp]
  exact mem_flatMap.mpr ⟨segment, hseg, hraw⟩

/-! ### The merged query -/

theorem segments_join (hamp : p (cp '&')) (queries) :
    segments p (join (cp '&') queries) = queries.flatMap (segments p) := by
  induction queries with
  | nil => exact segments_nil
  | cons query queries ih =>
    cases queries with
    | nil =>
      rw [flatMap_singleton]
      exact congrArg (segments p) (append_nil query)
    | cons next queries =>
      have hjoin : join (cp '&') (query :: next :: queries) = query ++ cp '&' :: join (cp '&')
        (next :: queries) := by
        simp [join]
      rw [hjoin, segments_append_cons hamp, ih]
      rfl

theorem joinQueryPairs_dropLeadingSeparator :
    joinQueryPairs (dropLeadingSeparator pairs) = joinQueryPairs pairs := by
  cases pairs <;> rfl

/-- The sources are read one after the other. -/
theorem segments_joinQuerySources (hamp : p (cp '&')) (sources) :
    segments p (joinQuerySources sources) = sources.flatMap fun source =>
      segments p (joinQueryPairs source) := by
  unfold joinQuerySources
  rw [segments_join hamp, flatMap_filter_of_nil segments_of_empty, flatMap_map]
  simp only [joinQueryPairs_dropLeadingSeparator]
  refine flatMap_filter_of_nil (fun source hempty => ?_) sources
  rw [show source = [] by simpa using hempty, joinQueryPairs, segments_nil]

/-- An entry of the authentication is read back. -/
theorem urlencodeEntry_spec {entry} {encoded} (h : urlencodeEntry entry = some encoded) :
    readPair encoded = entry ∧ encoded ≠ [] ∧ ∀ c ∈ encoded, c ≠ cp '&' ∧ c ≠ cp ';' := by
  unfold urlencodeEntry at h
  split at h
  case h_2 => cases h
  case h_1 key value hkey hvalue =>
    cases h
    have hchars : ∀ {text quoted : PyStr}, quotePlus text = some quoted →
        ∀ c ∈ quoted, c ≠ cp '&' ∧ c ≠ cp ';' ∧ c ≠ cp '=' := by
      intro text quoted hquote c hc
      rcases mem_quotePlus hquote hc with rfl | rfl | hc
      · decide
      · decide
      · exact ⟨isUnreserved_ne hc _ rfl, isUnreserved_ne hc _ rfl, isUnreserved_ne hc _ rfl⟩
    have hmem : cp '=' ∉ key := fun h => (hchars hkey _ h).2.2 rfl
    refine ⟨?_, append_ne_nil_of_right_ne_nil key (cons_ne_nil _ _), forall_mem_append.mpr
      ⟨fun c hc => ⟨(hchars hkey c hc).1, (hchars hkey c hc).2.1⟩,
        forall_mem_cons.mpr ⟨by decide, fun c hc => ?_⟩⟩⟩
    · rw [readPair, partition_append hmem]
      dsimp only [Option.getD_some]
      rw [unquotePlus_quotePlus hkey, unquotePlus_quotePlus hvalue]
    · exact ⟨(hchars hvalue c hc).1, (hchars hvalue c hc).2.1⟩

/-- The two ways to split a query. -/
def IsSplitter (p : ℕ → Bool) : Prop := p = isAmp ∨ p = isSeparator

theorem IsSplitter.mem (hp : IsSplitter p) (c : ℕ) (hc : p c) : c ∈ [cp '&', cp ';'] := by
  have hc : isSeparator c := by
    rcases hp with rfl | rfl
    · exact isSeparator_of_isAmp c hc
    · exact hc
  rw [isSeparator, Bool.or_eq_true, beq_iff_eq, beq_iff_eq] at hc
  rcases hc with rfl | rfl
  · exact mem_cons_self
  · exact mem_cons_of_mem _ mem_cons_self

theorem IsSplitter.amp (hp : IsSplitter p) : p (cp '&') := by
  rcases hp with rfl | rfl <;> rfl

theorem mapM_urlencodeEntry {entries} {encoded : List PyStr}
    (h : entries.mapM urlencodeEntry = some encoded)
    (hp : IsSplitter p) : (encoded.flatMap (segments p)).map readPair = entries := by
  induction entries generalizing encoded with
  | nil =>
    cases h
    rfl
  | cons entry entries ih =>
    rw [mapM_cons] at h
    obtain ⟨first, hfirst, h⟩ := Option.bind_eq_some_iff.mp h
    obtain ⟨rest, hrest, ⟨⟩⟩ := Option.bind_eq_some_iff.mp h
    obtain ⟨hread, hne, hchars⟩ := urlencodeEntry_spec hfirst
    have hclean : ∀ c ∈ first, p c = false := by
      intro c hc
      refine Bool.eq_false_iff.mpr fun hpc => ?_
      have hmem := hp.mem c hpc
      simp only [mem_cons, not_mem_nil, or_false] at hmem
      rcases hmem with h | h
      · exact (hchars c hc).1 h
      · exact (hchars c hc).2 h
    rw [flatMap_cons, segments_of_forall hclean, filter_singleton, decide_eq_true hne]
    exact congrArg₂ List.cons hread (ih hrest)

/-- **The pairs of the authentication are read back.** -/
theorem readQuery_encodeQueryPairs {pairs} {query : QueryDict}
    (h : encodeQueryPairs query = some pairs)
    (hp : IsSplitter p) : readQuery p (joinQueryPairs pairs) = query.entries := by
  unfold encodeQueryPairs at h
  split at h
  case isTrue hempty =>
    cases h
    rw [hempty, joinQueryPairs, readQuery, segments_nil]
    rfl
  case isFalse =>
    obtain ⟨encoded, henc, rfl⟩ := Option.map_eq_some_iff.mp h
    rw [joinQueryPairs_splitQueryPairs, readQuery, segments_join hp.amp]
    exact mapM_urlencodeEntry henc hp

/-- The keys of the base that are not replaced. -/
def trustedKeys (baseQuery : PyStr) (resolvedQuery : QueryDict) : List PyStr :=
  resolvedQuery.keys ++ readKeys isSeparator (keptQuery baseQuery resolvedQuery.keys)

/-- **The merged query is what is left of the base, what is left of the request, and the
pairs of the authentication.** -/
theorem mergeRewriteQuery_segments (htrusted : baseQuery ≠ [] ∨ resolvedQuery.entries ≠ [])
    (h : mergeRewriteQuery baseQuery origQuery resolvedQuery = .ok merged) :
    ∃ auth, encodeQueryPairs resolvedQuery = some auth ∧ ∀ {p : ℕ → Bool}, IsSplitter p →
      segments p merged = segments p (keptQuery baseQuery resolvedQuery.keys) ++
        (segments p (keptQuery origQuery (trustedKeys baseQuery resolvedQuery)) ++
          segments p (joinQueryPairs auth)) := by
  have hne : ¬(baseQuery = [] ∧ resolvedQuery.entries = []) := not_and_or.mpr htrusted
  rw [mergeRewriteQuery, if_neg hne] at h
  split at h
  case h_1 => cases h
  case h_2 =>
    split at h
    case h_1 => cases h
    case h_2 auth hauth =>
      cases h
      refine ⟨auth, hauth, fun {p} hp => ?_⟩
      rw [segments_joinQuerySources hp.amp, flatMap_cons, flatMap_cons, flatMap_singleton,
        queryPairKeys_filterQueryPairs]
      rfl

/-! ### Precedence -/

/-- What the pairs of a key are in a merged query: those of the authentication, or else
those of the base, or else those of the request. -/
structure Precedence (p : ℕ → Bool) (baseQuery origQuery : PyStr) (resolvedQuery : QueryDict)
    (key query : PyStr) : Prop where
  resolved : ∀ value, (key, value) ∈ resolvedQuery.entries → withKey key (readQuery p query) =
    [(key, value)]
  base : key ∉ resolvedQuery.keys → key ∈ readKeys isSeparator baseQuery →
    withKey key (readQuery p query) = withKey key
      (readQuery p (keptQuery baseQuery resolvedQuery.keys))
  orig : key ∉ resolvedQuery.keys →
      key ∉ readKeys isSeparator baseQuery → withKey key (readQuery p query) =
      withKey key (readQuery p (keptQuery origQuery (trustedKeys baseQuery resolvedQuery)))

theorem withKey_entries (query : QueryDict) {value} (hmem : (key, value) ∈ query.entries) :
    withKey key query.entries = [(key, value)] := by
  obtain ⟨before, after, hentr⟩ := append_of_mem hmem
  have hnodup := query.nodup_keys
  rw [hentr, map_append, map_cons, nodup_append, nodup_cons] at hnodup
  obtain ⟨_, ⟨hafter, _⟩, hbef⟩ := hnodup
  have hnone : key ∉ before.map Prod.fst := fun h => hbef key h key mem_cons_self rfl
  have hself : withKey key ((key, value) :: after) = (key, value) :: withKey key after :=
    filter_cons_of_pos (decide_eq_true (rfl : key = key))
  rw [hentr, withKey_append, withKey_eq_nil hnone, hself, withKey_eq_nil hafter]
  rfl

theorem mem_readKeys_keptQuery : key ∈ readKeys isSeparator (keptQuery query blockedKeys) ↔
      key ∈ readKeys isSeparator query ∧ key ∉ blockedKeys := by
  rw [readKeys, readQuery_keptQuery]
  constructor
  · intro h
    obtain ⟨pair, hpair, rfl⟩ := mem_map.mp h
    obtain ⟨hpair, hfree⟩ := mem_filter.mp hpair
    exact ⟨mem_map_of_mem hpair, of_decide_eq_true hfree⟩
  · rintro ⟨h, hfree⟩
    obtain ⟨pair, hpair, rfl⟩ := mem_map.mp h
    exact mem_map_of_mem (mem_filter.mpr ⟨hpair, decide_eq_true hfree⟩)

/-- Precedence, if a key that is read from a part is the key of a pair that was kept in it. -/
theorem precedence_of_parts (hp : IsSplitter p) {auth}
    (hauth : encodeQueryPairs resolvedQuery = some auth)
    (hmerg : segments p merged = segments p (keptQuery baseQuery resolvedQuery.keys) ++
      (segments p (keptQuery origQuery (trustedKeys baseQuery resolvedQuery)) ++
        segments p (joinQueryPairs auth)))
    (hkeys : ∀ query, (∀ segment ∈ segments p query, segment ∈ segments p merged) →
      key ∈ readKeys p query → key ∈ readKeys isSeparator query) :
    Precedence p baseQuery origQuery resolvedQuery key merged := by
  have hread : readQuery p merged = readQuery p (keptQuery baseQuery resolvedQuery.keys) ++
      (readQuery p (keptQuery origQuery (trustedKeys baseQuery resolvedQuery)) ++
        resolvedQuery.entries) := by
    rw [← readQuery_encodeQueryPairs hauth hp, readQuery, hmerg, map_append, map_append]
    rfl
  have hbase : key ∈ readKeys p (keptQuery baseQuery resolvedQuery.keys) →
      key ∈ readKeys isSeparator baseQuery ∧ key ∉ resolvedQuery.keys := by
    refine fun h => mem_readKeys_keptQuery.mp (hkeys _ (fun segment hseg => ?_) h)
    exact hmerg ▸ mem_append_left _ hseg
  have horig : key ∈ readKeys p (keptQuery origQuery (trustedKeys baseQuery resolvedQuery)) →
      key ∉ trustedKeys baseQuery resolvedQuery := by
    refine fun h => (mem_readKeys_keptQuery.mp (hkeys _ (fun segment hseg => ?_) h)).2
    exact hmerg ▸ mem_append_right _ (mem_append_left _ hseg)
  have htrusted : key ∈ trustedKeys baseQuery resolvedQuery ↔
      key ∈ resolvedQuery.keys ∨ key ∈ readKeys isSeparator baseQuery := by
    rw [trustedKeys, mem_append, mem_readKeys_keptQuery]
    by_cases h : key ∈ resolvedQuery.keys
    · exact ⟨fun _ => .inl h, fun _ => .inl h⟩
    · exact or_congr_right (and_iff_left h)
  constructor
  case resolved =>
    intro value hmem
    have hkey : key ∈ resolvedQuery.keys := mem_map_of_mem hmem
    rw [hread, withKey_append, withKey_append, withKey_eq_nil fun h => (hbase h).2 hkey,
      withKey_eq_nil fun h => horig h (htrusted.mpr (.inl hkey)), withKey_entries resolvedQuery
        hmem]
    rfl
  case base =>
    intro hkey hmem
    rw [hread, withKey_append, withKey_append, withKey_eq_nil fun h =>
      horig h (htrusted.mpr (.inr hmem)), withKey_eq_nil hkey]
    exact append_nil _
  case orig =>
    intro hkey hmem
    rw [hread, withKey_append, withKey_append, withKey_eq_nil fun h =>
      hmem (hbase h).1, withKey_eq_nil hkey]
    exact append_nil _

/-- **The pairs of a key in a merged query.**  At both separators the pairs that are left of the
base and of the request are just those with the key. -/
theorem precedence_merged (htrusted : baseQuery ≠ [] ∨ resolvedQuery.entries ≠ [])
    (h : mergeRewriteQuery baseQuery origQuery resolvedQuery = .ok merged)
    (hscal : ∀ c ∈ merged, IsScalar c)
    (key : PyStr) : Precedence isSeparator baseQuery origQuery resolvedQuery key merged ∧
      (cp ';' ∉ key → Precedence isAmp baseQuery origQuery resolvedQuery key merged) := by
  obtain ⟨auth, hauth, hmerg⟩ := mergeRewriteQuery_segments htrusted h
  refine ⟨precedence_of_parts (.inr rfl) hauth (hmerg (.inr rfl)) fun _ _ hkey => hkey, fun hsemi =>
    ?_⟩
  refine precedence_of_parts (.inl rfl) hauth (hmerg (.inl rfl)) fun query hquery hkey => ?_
  refine keys_readQuery_amp (fun segment hseg c hc => hscal c ?_) hsemi hkey
  exact (mem_splitOnP (mem_of_mem_filter (hquery segment hseg)) c hc).1

/-- A URL that was built has the merged query, quoted. -/
theorem buildRewriteUrl_query {py} {resolvedBase relPath authority} {parsed} {url}
    (hbase : validatedRewriteBase py resolvedBase = .ok (parsed, authority))
    (hbuild : buildRewriteUrl py resolvedBase relPath origQuery resolvedQuery = .ok url) :
    ∃ merged, mergeRewriteQuery parsed.query origQuery resolvedQuery = .ok merged ∧
      (∀ c ∈ merged, IsScalar c) ∧ url.query = quoteText urlQuerySafeChars merged := by
  unfold buildRewriteUrl at hbuild
  split at hbuild
  case isTrue => cases hbuild
  case isFalse =>
    rw [hbase] at hbuild
    dsimp only at hbuild
    split at hbuild
    case h_1 => cases hbuild
    case h_2 merged hmerg =>
      split at hbuild
      case h_1 => cases hbuild
      case h_2 => cases hbuild
      case h_3 path query _ hquery =>
        cases hbuild
        unfold quoteUrlPart at hquery
        split at hquery
        case h_1 => cases hquery
        case h_2 quoted hquot =>
          cases hquery
          obtain ⟨hscal, rfl⟩ := quote_eq_some.mp hquot
          exact ⟨merged, hmerg, hscal, rfl⟩

theorem Precedence.quoted (hp : IsSplitter p) (hscal : ∀ c ∈ merged, IsScalar c)
    (h : Precedence p baseQuery origQuery resolvedQuery key merged) :
    Precedence p baseQuery origQuery resolvedQuery key (quoteText urlQuerySafeChars merged) := by
  have hread := readQuery_quoted hscal hp.mem
  constructor
  case resolved => exact hread.symm ▸ h.resolved
  case base => exact hread.symm ▸ h.base
  case orig => exact hread.symm ▸ h.orig

/-- **Trusted query parameters cannot be shadowed.**  In the query of a URL that was built, the
pairs of a key are that of the authentication, or else those of the base, or else those of the
request.  This is so for a server that splits at `&` and `;`.  For one that splits at `&` only,
and a key without `;`, it is so for what is left of the base and of the request, which is the
whole query if it has no `;` or loses no pair. -/
theorem trusted_query_precedence (py : PyLib) (resolvedBase relPath origQuery authority : PyStr)
    (resolvedQuery : QueryDict) (parsed : SplitResult) (url : RewriteUrl)
    (hbase : validatedRewriteBase py resolvedBase = .ok (parsed, authority))
    (hbuild : buildRewriteUrl py resolvedBase relPath origQuery resolvedQuery = .ok url)
    (htrusted : parsed.query ≠ [] ∨ resolvedQuery.entries ≠ []) (key : PyStr) :
    ((∀ value, (key, value) ∈ resolvedQuery.entries → withKey key (readQuery isSeparator url.query)
      = [(key, value)]) ∧
      (key ∉ resolvedQuery.keys → key ∈ readKeys isSeparator parsed.query →
        withKey key (readQuery isSeparator url.query) = withKey key
          (readQuery isSeparator parsed.query)) ∧
      (key ∉ resolvedQuery.keys → key ∉ readKeys isSeparator parsed.query →
        withKey key (readQuery isSeparator url.query) = withKey key
          (readQuery isSeparator origQuery))) ∧
    (cp ';' ∉ key → Precedence isAmp parsed.query origQuery resolvedQuery key url.query ∧
      (Intact parsed.query resolvedQuery.keys → key ∉ resolvedQuery.keys →
        key ∈ readKeys isSeparator parsed.query →
        withKey key (readQuery isAmp url.query) = withKey key (readQuery isAmp parsed.query)) ∧
      (Intact origQuery (trustedKeys parsed.query resolvedQuery) → key ∉ resolvedQuery.keys →
        key ∉ readKeys isSeparator parsed.query →
        withKey key (readQuery isAmp url.query) = withKey key (readQuery isAmp origQuery))) := by
  obtain ⟨merged, hmerg, hscal, hquery⟩ := buildRewriteUrl_query hbase hbuild
  obtain ⟨hboth, hamp⟩ := precedence_merged htrusted hmerg hscal key
  have hnot : key ∉ resolvedQuery.keys → key ∉ readKeys isSeparator parsed.query →
      key ∉ trustedKeys parsed.query resolvedQuery := by
    intro hkey hmem htrusted
    rcases mem_append.mp htrusted with h | h
    · exact hkey h
    · exact hmem (mem_readKeys_keptQuery.mp h).1
  have hboth := hboth.quoted (.inr rfl) hscal
  rw [← hquery] at hboth
  refine ⟨⟨hboth.resolved, fun hkey hmem => ?_, fun hkey hmem => ?_⟩, fun hsemi => ?_⟩
  · rw [hboth.base hkey hmem, readQuery_keptQuery, withKey_filter hkey]
  · rw [hboth.orig hkey hmem, readQuery_keptQuery, withKey_filter (hnot hkey hmem)]
  · have hamp := (hamp hsemi).quoted (.inl rfl) hscal
    rw [← hquery] at hamp
    refine ⟨hamp, fun hint hkey hmem => ?_, fun hint hkey hmem => ?_⟩
    · rw [hamp.base hkey hmem, withKey_amp_keptQuery hint hkey]
    · rw [hamp.orig hkey hmem, withKey_amp_keptQuery hint (hnot hkey hmem)]

/-- A key that the authentication adds. -/
def tokenQuery : QueryDict := ⟨[(lit "k", lit "v")], by decide⟩

theorem trusted_query_precedence_token : ∃ parsed authority url,
      validatedRewriteBase plainLib (lit "https://api.example.com/x?b=1") = .ok (parsed,
        authority) ∧
      buildRewriteUrl plainLib (lit "https://api.example.com/x?b=1") (lit "/") (lit "b=2&k=3&y=4")
        tokenQuery = .ok url ∧ url.query = lit "b=1&y=4&k=v" ∧ parsed.query ≠ [] ∧
      withKey (lit "k") (readQuery isSeparator url.query) = [(lit "k", lit "v")] := by
  have htrusted := trusted_query_precedence plainLib (lit "https://api.example.com/x?b=1") (lit "/")
    (lit "b=2&k=3&y=4") _ tokenQuery _ _ rfl rfl (.inl (by decide +kernel)) (lit "k")
  exact ⟨_, _, _, rfl, rfl, by decide +kernel, by decide +kernel,
    htrusted.1.1 (lit "v") mem_cons_self⟩

/-- **A server that splits at `&` only finds a value cut** that had a trusted key behind a `;`. -/
theorem semicolon_value_cut :
    ∃ url, buildRewriteUrl plainLib (lit "https://api.example.com/x") (lit "/") (lit "x=1;k=2")
        tokenQuery = .ok url ∧
      withKey (lit "x") (readQuery isAmp url.query) = [(lit "x", lit "1")] ∧
      withKey (lit "x") (readQuery isAmp (lit "x=1;k=2")) = [(lit "x", lit "1;k=2")] :=
  ⟨_, rfl, by decide +kernel, by decide +kernel⟩

end Okou.Rewrite
