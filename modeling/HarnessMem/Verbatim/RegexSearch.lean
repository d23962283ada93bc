import HarnessMem.Library.Casing
import HarnessMem.Verbatim.Scope
import Mathlib.Data.List.Dedup

/-! The search of the verbatim store by a regular expression: the observations are narrowed by the trigrams of a literal
piece of the pattern before the expression is tried on them.
-/

set_option autoImplicit false

namespace HarnessMem.Verbatim

open Library

/-! ### Trigrams -/

section
variable (casing : Casing)

def folded (text : String) : List Char := subSpaces false (casing.lower text.toList)

def trigrams (text : String) : List String :=
  let normalized := folded casing text
  if normalized.length < 3 then (if normalized.isEmpty then [] else [String.ofList normalized])
  else ((List.range (normalized.length - 2)).map fun index => String.ofList ((normalized.drop index).take 3)).dedup

/-- Rows of `observation_trigrams`: a trigram and the id of an observation. -/
abbrev Postings := List (String × String)

def deleteObservationTrigrams (postings : Postings) (observationId : String) : Postings :=
  postings.filter fun posting => posting.2 ≠ observationId

def replaceObservationTrigrams (postings : Postings) (observationId text : String) : Postings :=
  deleteObservationTrigrams postings observationId ++ (trigrams casing text).map fun ngram => (ngram, observationId)

/-- `candidate_observation_ids_for_trigrams`, in an order the engine chooses. -/
def candidateObservationIds (scan : Scan String) (postings : Postings) (ngrams : List String) (limit : Option Nat) : List String :=
  if ngrams.isEmpty then []
  else
    let ids := ((postings.filter fun posting => posting.1 ∈ ngrams).map (·.2)).dedup.filter fun id =>
      (ngrams.filter fun ngram => (ngram, id) ∈ postings).length = ngrams.length
    match limit with
    | none => scan.order ids
    | some limit => (scan.order ids).take limit

end

/-! ### The literal of a pattern -/

def regexMetaChars : List Char := ['\\', '.', '^', '$', '*', '+', '?', '{', '}', '[', ']', '|', '(', ')']

def classEscapes : List Char := ['d', 'D', 's', 'S', 'w', 'W', 'b', 'B', 'A', 'Z']

def fragmentOf (current : List Char) : List (List Char) := if current.isEmpty then [] else [current]

def literalFragments : Bool → List Char → List Char → List (List Char)
  | escaped, current, [] => fragmentOf (if escaped then current ++ ['\\'] else current)
  | true, current, c :: rest =>
    if c ∈ classEscapes then fragmentOf current ++ literalFragments false [] rest
    else literalFragments false (current ++ [c]) rest
  | false, current, c :: rest =>
    if c = '\\' then literalFragments true current rest
    else if c ∈ regexMetaChars then fragmentOf current ++ literalFragments false [] rest
    else literalFragments false (current ++ [c]) rest

def longestLiteralFragment (pattern : String) : String :=
  String.ofList (((literalFragments false [] pattern.toList).map strip).foldl
    (fun longest fragment => if longest.length < fragment.length then fragment else longest) [])

/-! ### The search -/

abbrev Matcher := String → Option (Nat × Nat)

structure RegexObservationMatch where
  observation : Observation
  snippet : String
  matchStart : Nat
  matchEnd : Nat
  candidateCount : Nat

def regexSnippet (text : String) (start stop maxChars : Nat) : String :=
  let length := text.toList.length
  let context := maxChars / 3
  let snippetStart := start - context
  let snippetEnd := min length (max (stop + context) (snippetStart + maxChars))
  let snippetEnd := if maxChars < snippetEnd - snippetStart then snippetStart + maxChars else snippetEnd
  let snippet := ((text.toList.drop snippetStart).take (snippetEnd - snippetStart)).map fun c => if c = '\n' then ' ' else c
  let before := if 0 < snippetStart then "..." else ""
  let behind := if snippetEnd < length then "..." else ""
  before ++ String.ofList snippet ++ behind

def inProject (projectName : Option String) (observation : Observation) : Bool :=
  (given projectName).all fun name => observation.projectName? = some name

def collectMatches (matcher : Matcher) (projectName : Option String) (limit : Option Nat) (candidateCount : Nat)
    (found : List RegexObservationMatch) : List Observation → List RegexObservationMatch
  | [] => found
  | observation :: rest =>
    if !inProject projectName observation || observation.compacted then
      collectMatches matcher projectName limit candidateCount found rest
    else
      match matcher observation.rawContent with
      | none => collectMatches matcher projectName limit candidateCount found rest
      | some (start, stop) =>
        let grown := found ++ [{
          observation, snippet := regexSnippet observation.rawContent start stop 220, matchStart := start, matchEnd := stop, candidateCount }]
        if limit.any fun limit => limit ≤ grown.length then grown
        else collectMatches matcher projectName limit candidateCount grown rest

structure PostedStore where
  store : VerbatimStore
  postings : Postings

/-- `regex_search_observations`; `none` where the pattern does not compile. -/
def regexSearchObservations (compile : String → Nat → Option Matcher) (casing : Casing) (scan : Scan String) (posted : PostedStore)
    (pattern : String) (projectName : Option String) (limit : Option Nat) (flags : Nat) : Option (List RegexObservationMatch) :=
  (compile pattern flags).map fun matcher =>
    let ngrams := trigrams casing (longestLiteralFragment pattern)
    let candidateLimit := limit.map fun limit => max (limit * 20) 100
    let candidateIds := candidateObservationIds scan posted.postings ngrams candidateLimit
    if ngrams.isEmpty then
      let observations := posted.store.list none candidateLimit none
      collectMatches matcher projectName limit observations.length [] observations
    else collectMatches matcher projectName limit candidateIds.length [] (candidateIds.filterMap posted.store.blobs.get?)

/-! ### The writes -/

def VerbatimOp.post (casing : Casing) (op : VerbatimOp) (posted : PostedStore) : PostedStore where
  store := op.run posted.store
  postings :=
    match op with
    | .save observation =>
      if observation.compacted then deleteObservationTrigrams posted.postings observation.id
      else replaceObservationTrigrams casing posted.postings observation.id observation.rawContent
    | .delete id => deleteObservationTrigrams posted.postings id
    | .softDelete id =>
      match posted.store.blobs.get? id with
      | none => posted.postings
      | some _ => deleteObservationTrigrams posted.postings id

def afterPosted (casing : Casing) (ops : List VerbatimOp) : PostedStore :=
  ops.foldl (fun posted op => op.post casing posted) { store := .empty, postings := [] }

theorem afterPosted_store (casing : Casing) (ops : List VerbatimOp) : (afterPosted casing ops).store = after ops := by
  have folded : ∀ (ops : List VerbatimOp) (posted : PostedStore),
      (ops.foldl (fun posted op => op.post casing posted) posted).store = ops.foldl (fun store op => op.run store) posted.store := by
    intro ops
    induction ops with
    | nil => exact fun _ => rfl
    | cons op ops ih => exact fun posted => ih (op.post casing posted)
  exact folded ops _

/-! ### What is posted -/

section
variable {casing : Casing} {posted : PostedStore}

def PostedStore.Indexed (casing : Casing) (posted : PostedStore) : Prop :=
  ∀ ngram id, (ngram, id) ∈ posted.postings ↔
    ∃ observation ∈ posted.store.blobs.rows, observation.id = id ∧ observation.compacted = false ∧ ngram ∈ trigrams casing observation.rawContent

theorem mem_deleteObservationTrigrams {postings : Postings} {observationId ngram id : String} :
    (ngram, id) ∈ deleteObservationTrigrams postings observationId ↔ (ngram, id) ∈ postings ∧ id ≠ observationId := by
  rw [deleteObservationTrigrams, List.mem_filter, decide_eq_true_eq]

theorem mem_replaceObservationTrigrams {postings : Postings} {observationId text ngram id : String} :
    (ngram, id) ∈ replaceObservationTrigrams casing postings observationId text ↔
      ((ngram, id) ∈ postings ∧ id ≠ observationId) ∨ (ngram ∈ trigrams casing text ∧ id = observationId) := by
  rw [replaceObservationTrigrams, List.mem_append, mem_deleteObservationTrigrams, List.mem_map]
  refine or_congr_right ⟨?_, ?_⟩
  · rintro ⟨other, member, same⟩
    obtain ⟨rfl, rfl⟩ := Prod.mk.inj same
    exact ⟨member, rfl⟩
  · rintro ⟨member, rfl⟩
    exact ⟨ngram, member, rfl⟩

theorem PostedStore.Indexed.post (indexed : posted.Indexed casing) (op : VerbatimOp) : (op.post casing posted).Indexed casing := by
  intro ngram id
  cases op with
  | save observation =>
    change (ngram, id) ∈ (if observation.compacted then _ else _) ↔
      ∃ other ∈ (posted.store.blobs.upsert observation).rows, _
    by_cases hidden : observation.compacted = true
    · rw [if_pos hidden, mem_deleteObservationTrigrams, indexed]
      constructor
      · rintro ⟨⟨other, member, rfl, whole, there⟩, differs⟩
        exact ⟨other, (Table.mem_upsert _ _ _).mpr (.inr ⟨member, differs⟩), rfl, whole, there⟩
      · rintro ⟨other, member, rfl, whole, there⟩
        rcases (Table.mem_upsert _ _ _).mp member with rfl | ⟨old, differs⟩
        · rw [whole] at hidden
          cases hidden
        · exact ⟨⟨other, old, rfl, whole, there⟩, differs⟩
    · rw [if_neg hidden, mem_replaceObservationTrigrams, indexed]
      constructor
      · rintro (⟨⟨other, member, rfl, whole, there⟩, differs⟩ | ⟨there, rfl⟩)
        · exact ⟨other, (Table.mem_upsert _ _ _).mpr (.inr ⟨member, differs⟩), rfl, whole, there⟩
        · exact ⟨observation, (Table.mem_upsert _ _ _).mpr (.inl rfl), rfl, Bool.not_eq_true _ ▸ hidden, there⟩
      · rintro ⟨other, member, rfl, whole, there⟩
        rcases (Table.mem_upsert _ _ _).mp member with rfl | ⟨old, differs⟩
        · exact .inr ⟨there, rfl⟩
        · exact .inl ⟨⟨other, old, rfl, whole, there⟩, differs⟩
  | delete gone =>
    change (ngram, id) ∈ deleteObservationTrigrams posted.postings gone ↔
      ∃ other ∈ posted.store.blobs.rows.filter fun other => other.id ≠ gone, _
    rw [mem_deleteObservationTrigrams, indexed]
    simp only [List.mem_filter, decide_eq_true_eq]
    constructor
    · rintro ⟨⟨other, member, rfl, whole, there⟩, differs⟩
      exact ⟨other, ⟨member, differs⟩, rfl, whole, there⟩
    · rintro ⟨other, ⟨member, differs⟩, rfl, whole, there⟩
      exact ⟨⟨other, member, rfl, whole, there⟩, differs⟩
  | softDelete hidden =>
    unfold VerbatimOp.post VerbatimOp.run VerbatimStore.softDelete
    dsimp only
    cases found : posted.store.blobs.get? hidden with
    | none => exact indexed ngram id
    | some known =>
      dsimp only
      rw [mem_deleteObservationTrigrams, indexed]
      simp only [Table.rows_mapRows, List.mem_map]
      constructor
      · rintro ⟨⟨other, member, rfl, whole, there⟩, differs⟩
        exact ⟨other, ⟨other, member, if_neg differs⟩, rfl, whole, there⟩
      · rintro ⟨_, ⟨other, member, rfl⟩, rfl, whole, there⟩
        by_cases same : other.id = hidden
        · rw [if_pos same] at whole
          cases whole
        · rw [if_neg same] at whole there ⊢
          exact ⟨⟨other, member, rfl, whole, there⟩, same⟩

theorem afterPosted_indexed (casing : Casing) (ops : List VerbatimOp) : (afterPosted casing ops).Indexed casing := by
  have folded : ∀ (ops : List VerbatimOp) (posted : PostedStore), posted.Indexed casing →
      (ops.foldl (fun posted op => op.post casing posted) posted).Indexed casing := by
    intro ops
    induction ops with
    | nil => exact fun _ indexed => indexed
    | cons op ops ih => exact fun posted indexed => ih (op.post casing posted) (indexed.post op)
  refine folded ops _ fun ngram id => ?_
  simp [VerbatimStore.empty]

/-! ### What is found -/

theorem mem_candidateObservationIds {scan : Scan String} {postings : Postings} {ngrams : List String} (some : ngrams ≠ []) {id : String} :
    id ∈ candidateObservationIds scan postings ngrams none ↔ ∀ ngram ∈ ngrams, (ngram, id) ∈ postings := by
  unfold candidateObservationIds
  rw [if_neg (by simpa using some)]
  dsimp only
  rw [scan.mem_order, List.mem_filter, decide_eq_true_eq, List.length_filter_eq_length_iff]
  simp only [decide_eq_true_eq]
  refine and_iff_right_of_imp fun all => ?_
  obtain ⟨ngram, member⟩ := List.exists_mem_of_ne_nil _ some
  rw [List.mem_dedup, List.mem_map]
  exact ⟨(ngram, id), List.mem_filter.mpr ⟨all ngram member, by simpa using member⟩, rfl⟩

theorem candidateObservationIds_nodup (scan : Scan String) (postings : Postings) (ngrams : List String) :
    (candidateObservationIds scan postings ngrams none).Nodup := by
  unfold candidateObservationIds
  split
  · exact List.nodup_nil
  · exact (scan.perm _).nodup_iff.mpr ((List.nodup_dedup _).filter _)

def wanted (matcher : Matcher) (projectName : Option String) (observation : Observation) : Bool :=
  inProject projectName observation && !observation.compacted && (matcher observation.rawContent).isSome

theorem collectMatches_observations (matcher : Matcher) (projectName : Option String) (candidateCount : Nat)
    (found : List RegexObservationMatch) (candidates : List Observation) :
    (collectMatches matcher projectName none candidateCount found candidates).map (·.observation) =
      found.map (·.observation) ++ candidates.filter (wanted matcher projectName) := by
  induction candidates generalizing found with
  | nil => rw [collectMatches, List.filter_nil, List.append_nil]
  | cons observation rest ih =>
    unfold collectMatches
    by_cases other : (!inProject projectName observation || observation.compacted) = true
    · rw [if_pos other, ih, List.filter_cons_of_neg]
      simp only [Bool.or_eq_true, Bool.not_eq_true'] at other
      rcases other with outside | hidden
      · simp [wanted, outside]
      · simp [wanted, hidden]
    · rw [if_neg other]
      rw [Bool.not_eq_true, Bool.or_eq_false_iff, Bool.not_eq_false'] at other
      cases matched : matcher observation.rawContent with
      | none => rw [List.filter_cons_of_neg (by simp [wanted, matched])]; exact ih found
      | some place =>
        rw [List.filter_cons_of_pos (by simp [wanted, matched, other])]
        dsimp only
        rw [if_neg (by simp), ih, List.map_append, List.append_assoc]
        rfl

theorem mem_wanted {matcher : Matcher} {projectName : Option String} {observation : Observation} :
    wanted matcher projectName observation = true ↔
      inProject projectName observation = true ∧ observation.compacted = false ∧ (matcher observation.rawContent).isSome = true := by
  simp [wanted, and_assoc]

/-- The search finds the observations of the project that the expression matches, each of them once. -/
structure FindsAll (store : VerbatimStore) (matcher : Matcher) (projectName : Option String) (found : List RegexObservationMatch) : Prop where
  once : (found.map (·.observation)).Nodup
  exact : ∀ observation, observation ∈ found.map (·.observation) ↔
    observation ∈ store.blobs.rows ∧ observation.compacted = false ∧ inProject projectName observation = true ∧
      (matcher observation.rawContent).isSome = true

/-- No observation of the project that the expression matches is without a trigram of the pattern's literal. -/
def LiteralKept (casing : Casing) (store : VerbatimStore) (pattern : String) (matcher : Matcher) (projectName : Option String) : Prop :=
  ∀ observation ∈ store.blobs.rows, observation.compacted = false → inProject projectName observation = true →
    (matcher observation.rawContent).isSome = true →
    ∀ ngram ∈ trigrams casing (longestLiteralFragment pattern), ngram ∈ trigrams casing observation.rawContent

variable {store : VerbatimStore}

theorem finds_of_candidates {matcher : Matcher} {projectName : Option String} {found : List RegexObservationMatch}
    {candidates : List Observation} (once : candidates.Nodup) (kept : found.map (·.observation) = candidates.filter (wanted matcher projectName))
    (inside : ∀ observation ∈ candidates, observation ∈ store.blobs.rows) :
    FindsAll store matcher projectName found ↔
      ∀ observation ∈ store.blobs.rows, wanted matcher projectName observation = true → observation ∈ candidates := by
  constructor
  · intro finds observation member asked
    obtain ⟨own, whole, matched⟩ := mem_wanted.mp asked
    have there := (finds.exact observation).mpr ⟨member, whole, own, matched⟩
    rw [kept] at there
    exact (List.mem_filter.mp there).1
  · intro all
    refine ⟨kept ▸ once.filter _, fun observation => ?_⟩
    rw [kept, List.mem_filter, mem_wanted]
    constructor
    · rintro ⟨member, own, whole, matched⟩
      exact ⟨inside observation member, whole, own, matched⟩
    · rintro ⟨member, whole, own, matched⟩
      exact ⟨all observation member (mem_wanted.mpr ⟨own, whole, matched⟩), own, whole, matched⟩

theorem listed_perm (agrees : store.Agrees) :
    (store.list none none none).Perm (store.blobs.rows.filter fun observation => !observation.compacted) := by
  have perm := agrees.select_perm (scopeWhere none none)
  refine perm.trans (List.Perm.of_eq (List.filter_congr fun observation _ => ?_))
  cases whole : observation.compacted <;> simp [scopeWhere, given, Observation.row, whole]

theorem narrowed_nodup (scan : Scan String) (postings : Postings) (ngrams : List String) :
    ((candidateObservationIds scan postings ngrams none).filterMap store.blobs.get?).Nodup := by
  refine (candidateObservationIds_nodup scan postings ngrams).filterMap fun first second observation one other => ?_
  exact (Table.key_of_get? one).symm.trans (Table.key_of_get? other)

theorem mem_narrowed {scan : Scan String} (indexed : posted.Indexed casing) {ngrams : List String} (some : ngrams ≠ [])
    {observation : Observation} :
    observation ∈ (candidateObservationIds scan posted.postings ngrams none).filterMap posted.store.blobs.get? ↔
      observation ∈ posted.store.blobs.rows ∧ observation.compacted = false ∧
        ∀ ngram ∈ ngrams, ngram ∈ trigrams casing observation.rawContent := by
  rw [List.mem_filterMap]
  simp only [mem_candidateObservationIds some, Table.get?_eq_some]
  constructor
  · rintro ⟨id, all, member, rfl⟩
    have own : ∀ ngram ∈ ngrams, observation.compacted = false ∧ ngram ∈ trigrams casing observation.rawContent := by
      intro ngram asked
      obtain ⟨other, known, same, whole, there⟩ := (indexed ngram observation.id).mp (all ngram asked)
      obtain rfl := posted.store.blobs.eq_of_key known member same
      exact ⟨whole, there⟩
    obtain ⟨ngram, asked⟩ := List.exists_mem_of_ne_nil _ some
    exact ⟨member, (own ngram asked).1, fun ngram asked => (own ngram asked).2⟩
  · rintro ⟨member, whole, all⟩
    exact ⟨observation.id, fun ngram asked => (indexed ngram _).mpr ⟨observation, member, rfl, whole, all ngram asked⟩, member, rfl⟩

theorem finds_iff (indexed : posted.Indexed casing) (agrees : posted.store.Agrees) {compile : String → Nat → Option Matcher}
    {scan : Scan String} {pattern : String} {projectName : Option String} {flags : Nat} {matcher : Matcher}
    (compiles : compile pattern flags = some matcher) {found : List RegexObservationMatch}
    (search : regexSearchObservations compile casing scan posted pattern projectName none flags = some found) :
    FindsAll posted.store matcher projectName found ↔ LiteralKept casing posted.store pattern matcher projectName := by
  have rows_nodup : posted.store.blobs.rows.Nodup := posted.store.blobs.nodup.of_map
  unfold regexSearchObservations at search
  rw [compiles, Option.map_some] at search
  have result := Option.some.inj search
  dsimp only [Option.map_none] at result
  by_cases bare : trigrams casing (longestLiteralFragment pattern) = []
  · have listed := listed_perm agrees
    rw [if_pos (by simpa using bare)] at result
    have kept : found.map (·.observation) = (posted.store.list none none none).filter (wanted matcher projectName) := by
      rw [← result, collectMatches_observations, List.map_nil, List.nil_append]
    rw [finds_of_candidates (listed.nodup_iff.mpr (rows_nodup.filter _)) kept fun observation member =>
      (List.mem_filter.mp (listed.mem_iff.mp member)).1]
    refine iff_of_true (fun observation member asked => ?_) fun observation _ _ _ _ ngram member => ?_
    · rw [listed.mem_iff, List.mem_filter]
      exact ⟨member, by simp [(mem_wanted.mp asked).2.1]⟩
    · rw [bare] at member
      cases member
  · rw [if_neg (by simpa using bare)] at result
    have kept : found.map (·.observation) = ((candidateObservationIds scan posted.postings (trigrams casing (longestLiteralFragment pattern))
        none).filterMap posted.store.blobs.get?).filter (wanted matcher projectName) := by
      rw [← result, collectMatches_observations, List.map_nil, List.nil_append]
    rw [finds_of_candidates (narrowed_nodup scan posted.postings _) kept fun observation member =>
      ((mem_narrowed indexed bare).mp member).1]
    constructor
    · intro all observation member whole own matched
      exact ((mem_narrowed indexed bare).mp (all observation member (mem_wanted.mpr ⟨own, whole, matched⟩))).2.2
    · intro kept observation member asked
      obtain ⟨own, whole, matched⟩ := mem_wanted.mp asked
      exact (mem_narrowed indexed bare).mpr ⟨member, whole, kept observation member whole own matched⟩

end

/-! ### A pattern of two alternatives -/

section

def placeOf (words : List (List Char)) : Nat → List Char → Option (Nat × Nat)
  | _, [] => none
  | place, c :: rest =>
    match words.find? fun word => word.isPrefixOf (c :: rest) with
    | some word => some (place, place + word.length)
    | none => placeOf words (place + 1) rest

/-- What the pattern `abc|xyz` matches. -/
def eitherWord : Matcher := fun text => placeOf [['a', 'b', 'c'], ['x', 'y', 'z']] 0 text.toList

def compileEither (pattern : String) (_ : Nat) : Option Matcher := if pattern = "abc|xyz" then some eitherWord else none

/-- An observation of the project `App` with a text. -/
def noted (text : String) : Observation := { otherCase with rawContent := text }

/-- The literal that the search takes of the pattern is its first word. -/
example : longestLiteralFragment "abc|xyz" = "abc" := by decide +kernel

end

end HarnessMem.Verbatim
