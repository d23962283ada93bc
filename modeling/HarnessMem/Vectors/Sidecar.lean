import HarnessMem.Library.Limits
import HarnessMem.Library.Table
import Mathlib.Algebra.Field.Defs
import Mathlib.Algebra.Order.Ring.Defs
import Mathlib.Analysis.Real.Sqrt
import Mathlib.Data.Finset.Card

/-! Scores of embeddings: read from the table of embeddings, or from the vec0 index beside it. -/

set_option autoImplicit false

namespace HarnessMem.Vectors

open Library

/-- A row of `vec_embeddings` and of `vec_embeddings_vec0`. -/
structure VectorRow (K : Type) where
  entryId : String
  modelId : String
  embedding : List K

abbrev VectorTable (K : Type) := Table (@VectorRow.entryId K)

abbrev Scores (K : Type) := List (String × K)

def score? {K : Type} (scores : Scores K) (id : String) : Option K :=
  (scores.reverse.find? fun entry => entry.1 = id).map (·.2)

section
variable {K : Type} [Field K] [LinearOrder K] (sqrt : K → K)

def dot (first second : List K) : K := (List.zipWith (· * ·) first second).sum

def norm (vector : List K) : K := sqrt (dot vector vector)

/-- One score of `batch_cosine_topk`. -/
def cosine (query document : List K) : K :=
  if norm sqrt query = 0 then 0
  else if norm sqrt document = 0 then 0
  else dot query document / (norm sqrt document * norm sqrt query)

def distance? (query document : List K) : Option K :=
  if norm sqrt query = 0 ∨ norm sqrt document = 0 then none
  else some (1 - dot query document / (norm sqrt document * norm sqrt query))

/-- `1.0 - float(distance)`. -/
def similarity : Option K → K
  | some distance => 1 - distance
  | none => 0

theorem similarity_distance? (query document : List K) :
    similarity (distance? sqrt query document) = cosine sqrt query document := by
  unfold distance? cosine
  by_cases empty : norm sqrt query = 0
  · rw [if_pos (.inl empty), if_pos empty]
    rfl
  · rw [if_neg empty]
    by_cases bare : norm sqrt document = 0
    · rw [if_pos (.inr bare), if_pos bare]
      rfl
    · rw [if_neg (not_or.mpr ⟨empty, bare⟩), if_neg bare]
      exact sub_sub_cancel _ _

def far (query : List K) (row : VectorRow K) : K := (distance? sqrt query row.embedding).getD 1

/-- What a KNN statement returns for the rows of a model; `none` where it raises or there is no extension. -/
abbrev Search (K : Type) := List (VectorRow K) → List K → Nat → Option (List (String × Option K))

def Search.Exact (search : Search K) : Prop :=
  ∀ rows query count answer, search rows query count = some answer →
    ∃ found, Nearest (far sqrt query) rows count found ∧
      answer = found.map fun row => (row.entryId, distance? sqrt query row.embedding)

end

/-! ### The index -/

section
variable {K : Type} (accepts : VectorTable K → VectorRow K → Bool)

/-- `upsert_row`; an insert that raises is skipped. -/
def upsertRow (sidecar : VectorTable K) (row : VectorRow K) : VectorTable K :=
  if accepts sidecar row then sidecar.upsert row else sidecar

def vec0HasEntry (sidecar : VectorTable K) (entryId modelId : String) : Bool :=
  sidecar.rows.any fun row => row.entryId = entryId && row.modelId = modelId

/-- `_backfill_missing_rows` for given ids. -/
def backfillMissingRows (table sidecar : VectorTable K) (modelId : String) (entryIds : Finset String) : VectorTable K :=
  let missing := table.rows.filter fun row =>
    row.modelId = modelId && row.entryId ∈ entryIds && !vec0HasEntry sidecar row.entryId modelId
  missing.foldl (fun sidecar row => if row.embedding.isEmpty then sidecar else upsertRow accepts sidecar row) sidecar

/-- `rebuild_from_embeddings`, where it publishes. -/
def rebuildFromEmbeddings (table : VectorTable K) (modelId : String) : VectorTable K :=
  table.filter fun row => row.modelId = modelId && !row.embedding.isEmpty

/-- The states of the index under its upserts, lazy backfills and rebuilds, beside any states of the table. -/
inductive Reachable : VectorTable K → Prop where
  | empty : Reachable .empty
  | upsert {sidecar : VectorTable K} (row : VectorRow K) : Reachable sidecar → Reachable (upsertRow accepts sidecar row)
  | backfill {sidecar : VectorTable K} (table : VectorTable K) (modelId : String) (entryIds : Finset String) :
      Reachable sidecar → Reachable (backfillMissingRows accepts table sidecar modelId entryIds)
  | rebuild {sidecar : VectorTable K} (table : VectorTable K) (modelId : String) :
      Reachable sidecar → Reachable (rebuildFromEmbeddings table modelId)

end

theorem reachable_all {K : Type} (sidecar : VectorTable K) : Reachable (fun _ _ => true) sidecar := by
  have upserts : ∀ (rows : List (VectorRow K)) (start : VectorTable K), Reachable (fun _ _ => true) start →
      Reachable (fun _ _ => true) (rows.foldl (fun current row => current.upsert row) start) := by
    intro rows
    induction rows with
    | nil => exact fun _ reached => reached
    | cons row rest ih => exact fun start reached => ih _ (.upsert row reached)
  have whole := upserts sidecar.rows .empty .empty
  have same : sidecar.rows.foldl (fun current row => current.upsert row) Table.empty = sidecar :=
    Table.eq_of_rows (Table.rows_foldl_upsert .empty sidecar.rows sidecar.nodup fun _ _ => rfl)
  rwa [same] at whole

/-! ### The two paths -/

section
variable {K : Type} [Field K] [LinearOrder K]

def collectHits (limit : Nat) (allowed : Finset String) (hits : Scores K) : List (String × Option K) → Scores K
  | [] => hits
  | (entryId, distance) :: rows =>
    if entryId ∉ allowed then collectHits limit allowed hits rows
    else
      let hits := hits ++ [(entryId, similarity distance)]
      if limit ≤ hits.length then hits else collectHits limit allowed hits rows

def knnVecEmbeddings (accepts : VectorTable K → VectorRow K → Bool) (search : Search K) (table sidecar : VectorTable K) (query : List K)
    (modelId : String) (limit : Nat) (allowed : Finset String) : Option (Scores K) :=
  if query.isEmpty then none
  else if allowed = ∅ then some []
  else
    let filled := backfillMissingRows accepts table sidecar modelId allowed
    let probeLimit := min (max (limit * 3) limit) (max allowed.card limit)
    (search (filled.rows.filter fun row => row.modelId = modelId) query probeLimit).map (collectHits limit allowed [])

/-- The scores of `_try_knn_vector_state`. The allowed ids are those of the candidates, so that every hit is a candidate. -/
def tryKnnVectorState (accepts : VectorTable K → VectorRow K → Bool) (search : Search K) (table sidecar : VectorTable K) (query : List K)
    (modelId : String) (limit : Nat) (allowed : Finset String) : Option (Scores K) :=
  match knnVecEmbeddings accepts search table sidecar query modelId limit allowed with
  | none | some [] => none
  | some hits => some hits

/-- `_read_persisted_embeddings`; the model's dimension is that of the query. -/
def readPersistedEmbeddings (table : VectorTable K) (query : List K) (modelId : String) (allowed : Finset String) :
    Option (List (VectorRow K)) :=
  let rows := (table.rows.filter fun row => row.entryId ∈ allowed && row.modelId = modelId).filter fun row =>
    row.embedding.length = query.length
  if rows.isEmpty then none else some rows

/-- The scores of `_batch_cosine_vector_state`. -/
def batchCosineVectorState (sqrt : K → K) (table : VectorTable K) (query : List K) (modelId : String) (allowed : Finset String) :
    Option (Scores K) :=
  (readPersistedEmbeddings table query modelId allowed).map fun rows =>
    rows.map fun row => (row.entryId, cosine sqrt query row.embedding)

end

end HarnessMem.Vectors

/-! When the scores of the index are those of the table. -/

namespace HarnessMem.Vectors

open Library

/-! ### Scores -/

theorem score?_eq_some {K : Type} {scores : Scores K} (unique : (scores.map (·.1)).Nodup) {id : String} {score : K} :
    score? scores id = some score ↔ (id, score) ∈ scores := by
  unfold score?
  rw [Option.map_eq_some_iff]
  constructor
  · rintro ⟨entry, found, rfl⟩
    have same : entry.1 = id := by simpa using List.find?_some found
    have member := List.mem_reverse.mp (List.mem_of_find?_eq_some found)
    rwa [← same]
  · intro member
    have held : (scores.reverse.find? fun entry => entry.1 = id).isSome = true :=
      List.find?_isSome.mpr ⟨(id, score), List.mem_reverse.mpr member, by simp⟩
    obtain ⟨entry, found⟩ := Option.isSome_iff_exists.mp held
    have same : entry.1 = id := by simpa using List.find?_some found
    have here := List.mem_reverse.mp (List.mem_of_find?_eq_some found)
    exact ⟨entry, found, congrArg Prod.snd (List.inj_on_of_nodup_map unique here member same)⟩

theorem collectHits_eq {K : Type} [Field K] {limit : Nat} {allowed : Finset String} {hits : Scores K} {rows : List (String × Option K)}
    (room : hits.length + rows.length ≤ limit) :
    collectHits limit allowed hits rows =
      hits ++ (rows.filter fun row => row.1 ∈ allowed).map fun row => (row.1, similarity row.2) := by
  induction rows generalizing hits with
  | nil => rw [collectHits, List.filter_nil, List.map_nil, List.append_nil]
  | cons row rest ih =>
    rw [List.length_cons] at room
    unfold collectHits
    by_cases known : row.1 ∈ allowed
    · rw [if_neg (not_not.mpr known), List.filter_cons_of_pos (by simpa using known), List.map_cons]
      dsimp only
      by_cases full : limit ≤ (hits ++ [(row.1, similarity row.2)]).length
      · rw [if_pos full]
        rw [List.length_append, List.length_singleton] at full
        have none : rest = [] := List.length_eq_zero_iff.mp (by omega)
        rw [none, List.filter_nil, List.map_nil]
      · rw [if_neg full, ih (by rw [List.length_append, List.length_singleton]; omega), List.append_assoc]
        rfl
    · rw [if_pos known, List.filter_cons_of_neg (by simpa using known)]
      exact ih (by omega)

/-! ### Rows -/

section
variable {K : Type}

def searched (accepts : VectorTable K → VectorRow K → Bool) (table sidecar : VectorTable K) (modelId : String) (allowed : Finset String) :
    List (VectorRow K) :=
  (backfillMissingRows accepts table sidecar modelId allowed).rows.filter fun row => row.modelId = modelId

def stored (table : VectorTable K) (modelId : String) (allowed : Finset String) : List (VectorRow K) :=
  table.rows.filter fun row => row.entryId ∈ allowed && row.modelId = modelId

theorem ids_filter (table : VectorTable K) (keep : VectorRow K → Bool) : ((table.rows.filter keep).map (·.entryId)).Nodup :=
  (List.filter_sublist.map _).nodup table.nodup

end

theorem tryKnn_eq_some {K : Type} [Field K] {accepts : VectorTable K → VectorRow K → Bool} {table sidecar : VectorTable K}
    {query : List K} {modelId : String} {limit : Nat} {allowed : Finset String} (visible : query ≠ []) (enough : allowed.card ≤ limit) {search : Search K} {fast : Scores K} :
    tryKnnVectorState accepts search table sidecar query modelId limit allowed = some fast ↔
      allowed ≠ ∅ ∧ fast ≠ [] ∧ ∃ answer, search (searched accepts table sidecar modelId allowed) query limit = some answer ∧
        collectHits limit allowed [] answer = fast := by
  have probe : min (max (limit * 3) limit) (max allowed.card limit) = limit := by omega
  unfold tryKnnVectorState knnVecEmbeddings
  rw [if_neg (by simpa using visible)]
  by_cases none : allowed = ∅
  · rw [if_pos none]
    simp [none]
  · rw [if_neg none]
    dsimp only
    rw [probe]
    cases answered : search (searched accepts table sidecar modelId allowed) query limit with
    | none =>
      rw [searched] at answered
      rw [answered]
      simp
    | some answer =>
      rw [searched] at answered
      rw [answered, Option.map_some]
      cases hits : collectHits limit allowed [] answer with
      | nil =>
        refine iff_of_false (by simp) ?_
        rintro ⟨-, filled, other, own, rfl⟩
        obtain rfl := Option.some.inj own
        exact filled hits
      | cons hit more =>
        constructor
        · intro here
          obtain rfl := Option.some.inj here
          exact ⟨none, by simp, answer, rfl, hits⟩
        · rintro ⟨-, filled, other, own, rfl⟩
          obtain rfl := Option.some.inj own
          exact congrArg some hits.symm

section
variable {K : Type} [Field K] [LinearOrder K] (sqrt : K → K) (accepts : VectorTable K → VectorRow K → Bool)
  (table sidecar : VectorTable K) (query : List K) (modelId : String) (limit : Nat) (allowed : Finset String)

/-- The fast path returns what the plain path computes, however a search breaks ties. -/
def FastAgrees : Prop :=
  ∀ search : Search K, search.Exact sqrt → ∀ fast, tryKnnVectorState accepts search table sidecar query modelId limit allowed = some fast →
    ∃ plain, batchCosineVectorState sqrt table query modelId allowed = some plain ∧ ∀ id, score? fast id = score? plain id

/-- When no row is lost to a nearer one of others, and no row is out of date. -/
inductive Sound : Prop where
  | noQuery : query = [] → Sound
  /-- No allowed row can be among the nearest. -/
  | hidden : (∀ row ∈ searched accepts table sidecar modelId allowed, row.entryId ∈ allowed →
      limit ≤ nearer (far sqrt query) (searched accepts table sidecar modelId allowed) row) → Sound
  /-- Every allowed row that can be among the nearest has its score in the table, and every row of the table can be among the
  nearest, and always is unless it is the only one. -/
  | whole : (∀ row ∈ searched accepts table sidecar modelId allowed, row.entryId ∈ allowed →
        nearer (far sqrt query) (searched accepts table sidecar modelId allowed) row < limit →
        ∃ own ∈ stored table modelId allowed, own.entryId = row.entryId ∧
          cosine sqrt query own.embedding = cosine sqrt query row.embedding) →
      (∀ own ∈ stored table modelId allowed, ∃ row ∈ searched accepts table sidecar modelId allowed, row.entryId = own.entryId ∧
        nearer (far sqrt query) (searched accepts table sidecar modelId allowed) row < limit ∧
        (within (far sqrt query) (searched accepts table sidecar modelId allowed) row ≤ limit ∨
          ∀ other ∈ stored table modelId allowed, other.entryId = own.entryId)) → Sound

def scoresOf (rows : List (VectorRow K)) : Scores K := rows.map fun row => (row.entryId, cosine sqrt query row.embedding)

def hitsOf (found : List (VectorRow K)) : Scores K := scoresOf sqrt query (found.filter fun row => row.entryId ∈ allowed)

end

section
variable {K : Type} [Field K] [LinearOrder K] {sqrt : K → K} {accepts : VectorTable K → VectorRow K → Bool}
  {table sidecar : VectorTable K} {query : List K} {modelId : String} {limit : Nat} {allowed : Finset String}

theorem mem_scoresOf {rows : List (VectorRow K)} {id : String} {score : K} :
    (id, score) ∈ scoresOf sqrt query rows ↔ ∃ row ∈ rows, row.entryId = id ∧ cosine sqrt query row.embedding = score := by
  simp [scoresOf]

theorem scoresOf_unique {rows : List (VectorRow K)} (unique : (rows.map (·.entryId)).Nodup) :
    ((scoresOf sqrt query rows).map (·.1)).Nodup := by
  rw [scoresOf, List.map_map]
  exact unique

theorem hitsOf_map (found : List (VectorRow K)) :
    (((found.map fun row => (row.entryId, distance? sqrt query row.embedding)).filter fun row => row.1 ∈ allowed).map
      fun row => (row.1, similarity row.2)) = hitsOf sqrt query allowed found := by
  rw [List.filter_map, List.map_map]
  refine List.map_congr_left fun row _ => ?_
  rw [Function.comp_apply, similarity_distance?]

theorem collectHits_nearest {found : List (VectorRow K)}
    (nearest : Nearest (far sqrt query) (searched accepts table sidecar modelId allowed) limit found) :
    collectHits limit allowed [] (found.map fun row => (row.entryId, distance? sqrt query row.embedding)) =
      hitsOf sqrt query allowed found := by
  have bound := nearest.length
  rw [collectHits_eq (by rw [List.length_map, List.length_nil]; omega), List.nil_append, hitsOf_map]

theorem batchCosine_eq (fits : ∀ row ∈ table.rows, row.embedding.length = query.length) :
    batchCosineVectorState sqrt table query modelId allowed =
      if stored table modelId allowed = [] then none else some (scoresOf sqrt query (stored table modelId allowed)) := by
  have whole : (stored table modelId allowed).filter (fun row => row.embedding.length = query.length) = stored table modelId allowed :=
    List.filter_eq_self.mpr fun row member => decide_eq_true (fits row (List.mem_filter.mp member).1)
  unfold batchCosineVectorState readPersistedEmbeddings
  rw [show table.rows.filter (fun row => row.entryId ∈ allowed && row.modelId = modelId) = stored table modelId allowed from rfl, whole]
  by_cases none : stored table modelId allowed = []
  · rw [if_pos none, none]
    rfl
  · rw [if_neg none]
    dsimp only
    rw [if_neg (by simpa using none)]
    rfl

theorem exists_search {rows found : List (VectorRow K)} (nearest : Nearest (far sqrt query) rows limit found) :
    ∃ search : Search K, search.Exact sqrt ∧
      search rows query limit = some (found.map fun row => (row.entryId, distance? sqrt query row.embedding)) := by
  classical
  refine ⟨fun others vector count => if others = rows ∧ vector = query ∧ count = limit then
    some (found.map fun row => (row.entryId, distance? sqrt query row.embedding)) else none, ?_, if_pos ⟨rfl, rfl, rfl⟩⟩
  intro others vector count answer answered
  dsimp only at answered
  split at answered
  · next same =>
    obtain ⟨rfl, rfl, rfl⟩ := same
    exact ⟨found, nearest, (Option.some.inj answered).symm⟩
  · cases answered

def AnswersAgree (sqrt : K → K) (accepts : VectorTable K → VectorRow K → Bool) (table sidecar : VectorTable K) (query : List K)
    (modelId : String) (limit : Nat) (allowed : Finset String) : Prop :=
  ∀ found, Nearest (far sqrt query) (searched accepts table sidecar modelId allowed) limit found →
    hitsOf sqrt query allowed found = [] ∨
      ∀ id score, (id, score) ∈ hitsOf sqrt query allowed found ↔ (id, score) ∈ scoresOf sqrt query (stored table modelId allowed)

theorem fastAgrees_iff (visible : query ≠ []) (enough : allowed.card ≤ limit)
    (fits : ∀ row ∈ table.rows, row.embedding.length = query.length) :
    FastAgrees sqrt accepts table sidecar query modelId limit allowed ↔
      AnswersAgree sqrt accepts table sidecar query modelId limit allowed := by
  have plain_unique := @scoresOf_unique K _ _ sqrt query (stored table modelId allowed) (ids_filter table _)
  have hits_unique : ∀ found, Nearest (far sqrt query) (searched accepts table sidecar modelId allowed) limit found →
      ((hitsOf sqrt query allowed found).map (·.1)).Nodup := by
    intro found nearest
    refine scoresOf_unique (List.Nodup.map_on ?_ (nearest.nodup.filter _))
    intro first one second other same
    exact List.inj_on_of_nodup_map (ids_filter _ _) (nearest.subset (List.mem_filter.mp one).1)
      (nearest.subset (List.mem_filter.mp other).1) same
  constructor
  · intro agrees found nearest
    by_cases none : hitsOf sqrt query allowed found = []
    · exact .inl none
    right
    obtain ⟨search, exact, answered⟩ := exists_search nearest
    have some : allowed ≠ ∅ := by
      rintro rfl
      exact none (by simp [hitsOf, scoresOf])
    obtain ⟨plain, computed, same⟩ := agrees search exact (hitsOf sqrt query allowed found)
      ((tryKnn_eq_some visible enough).mpr ⟨some, none, _, answered, collectHits_nearest nearest⟩)
    rw [batchCosine_eq fits] at computed
    split at computed
    · cases computed
    · obtain rfl := Option.some.inj computed
      intro id score
      rw [← score?_eq_some (hits_unique found nearest), ← score?_eq_some plain_unique, same]
  · intro all search exact fast returned
    obtain ⟨-, filled, answer, answered, rfl⟩ := (tryKnn_eq_some visible enough).mp returned
    obtain ⟨found, nearest, rfl⟩ := exact _ _ _ _ answered
    rw [collectHits_nearest nearest] at filled ⊢
    have same := (all found nearest).resolve_left filled
    refine ⟨scoresOf sqrt query (stored table modelId allowed), ?_, fun id => Option.ext fun score => ?_⟩
    · rw [batchCosine_eq fits, if_neg]
      intro empty
      obtain ⟨hit, member⟩ := List.exists_mem_of_ne_nil _ filled
      have there := (same hit.1 hit.2).mp member
      rw [empty] at there
      cases there
    · rw [score?_eq_some (hits_unique found nearest), score?_eq_some plain_unique, same]

theorem mem_hitsOf {found : List (VectorRow K)} {id : String} {score : K} : (id, score) ∈ hitsOf sqrt query allowed found ↔
    ∃ row ∈ found, row.entryId ∈ allowed ∧ row.entryId = id ∧ cosine sqrt query row.embedding = score := by
  rw [hitsOf, mem_scoresOf]
  simp only [List.mem_filter, decide_eq_true_eq, and_assoc]

theorem hitsOf_ne_nil {found : List (VectorRow K)} {row : VectorRow K} (held : row ∈ found) (known : row.entryId ∈ allowed) :
    hitsOf sqrt query allowed found ≠ [] :=
  List.ne_nil_of_mem (mem_hitsOf.mpr ⟨row, held, known, rfl, rfl⟩)

theorem sound_of_answers (agree : AnswersAgree sqrt accepts table sidecar query modelId limit allowed) :
    Sound sqrt accepts table sidecar query modelId limit allowed := by
  classical
  have distinct : (searched accepts table sidecar modelId allowed).Nodup := (ids_filter _ _).of_map
  by_cases hidden : ∀ row ∈ searched accepts table sidecar modelId allowed, row.entryId ∈ allowed →
      limit ≤ nearer (far sqrt query) (searched accepts table sidecar modelId allowed) row
  · exact .hidden hidden
  push Not at hidden
  obtain ⟨row, member, known, few⟩ := hidden
  -- an answer that holds one allowed row holds them all
  have complete : ∀ {found : List (VectorRow K)} {held : VectorRow K},
      Nearest (far sqrt query) (searched accepts table sidecar modelId allowed) limit found → held ∈ found → held.entryId ∈ allowed →
      ∀ own ∈ stored table modelId allowed, ∃ other ∈ found, other.entryId = own.entryId := by
    intro found held nearest inside allows own here
    have same := (agree found nearest).resolve_left (hitsOf_ne_nil inside allows)
    obtain ⟨other, there, -, id, -⟩ := mem_hitsOf.mp ((same _ _).mpr (mem_scoresOf.mpr ⟨own, here, rfl, rfl⟩))
    exact ⟨other, there, id⟩
  obtain ⟨first, nearest, held⟩ := exists_nearest_mem distinct member few
  refine .whole ?_ ?_
  · intro row member known few
    obtain ⟨found, nearest, held⟩ := exists_nearest_mem distinct member few
    have same := (agree found nearest).resolve_left (hitsOf_ne_nil held known)
    exact mem_scoresOf.mp ((same _ _).mp (mem_hitsOf.mpr ⟨row, held, known, rfl, rfl⟩))
  · intro own here
    obtain ⟨other, there, id⟩ := complete nearest held known own here
    refine ⟨other, nearest.subset there, id, nearest.nearer_lt distinct there, ?_⟩
    by_contra lost
    push Not at lost
    obtain ⟨many, rival, stands, different⟩ := lost
    obtain ⟨second, beside, name⟩ := complete nearest held known rival stands
    have apart : other ≠ second := by
      rintro rfl
      exact different (name.symm.trans id)
    obtain ⟨found, without, keeps, leaves⟩ := exists_nearest_but distinct (nearest.subset beside) apart (nearest.nearer_lt distinct beside) many
    have allows : second.entryId ∈ allowed := by
      have kept := (List.mem_filter.mp stands).2
      rw [Bool.and_eq_true, decide_eq_true_eq] at kept
      exact name ▸ kept.1
    obtain ⟨again, inside, same⟩ := complete without keeps allows own here
    have one := List.inj_on_of_nodup_map (ids_filter _ _) (without.subset inside) (nearest.subset there) (same.trans id.symm)
    exact leaves (one ▸ inside)

theorem answers_of_sound (visible : query ≠ []) (sound : Sound sqrt accepts table sidecar query modelId limit allowed) :
    AnswersAgree sqrt accepts table sidecar query modelId limit allowed := by
  have distinct : (searched accepts table sidecar modelId allowed).Nodup := (ids_filter _ _).of_map
  intro found nearest
  by_cases none : hitsOf sqrt query allowed found = []
  · exact .inl none
  right
  obtain ⟨hit, shown⟩ := List.exists_mem_of_ne_nil _ none
  obtain ⟨first, held, known, -, -⟩ := mem_hitsOf.mp (show (hit.1, hit.2) ∈ _ from shown)
  cases sound with
  | noQuery empty => exact absurd empty visible
  | hidden hidden => exact absurd (nearest.nearer_lt distinct held) (hidden first (nearest.subset held) known).not_gt
  | whole current all =>
    intro id score
    rw [mem_hitsOf, mem_scoresOf]
    constructor
    · rintro ⟨row, inside, allows, rfl, rfl⟩
      exact current row (nearest.subset inside) allows (nearest.nearer_lt distinct inside)
    · rintro ⟨own, here, rfl, rfl⟩
      obtain ⟨row, member, id, few, always⟩ := all own here
      have inside : row ∈ found := by
        rcases always with sure | single
        · exact nearest.mem_of_within member sure
        · obtain ⟨other, there, name, -⟩ := current first (nearest.subset held) known (nearest.nearer_lt distinct held)
          have same := name.symm.trans ((single other there).trans id.symm)
          exact List.inj_on_of_nodup_map (ids_filter _ _) (nearest.subset held) member same ▸ held
      have allows : row.entryId ∈ allowed := by
        have kept := (List.mem_filter.mp here).2
        rw [Bool.and_eq_true, decide_eq_true_eq] at kept
        exact id ▸ kept.1
      obtain ⟨other, there, name, score⟩ := current row member allows few
      have one : other = own := List.inj_on_of_nodup_map (ids_filter _ _) there here (name.trans id)
      exact ⟨row, inside, allows, id, by rw [← score, one]⟩

/-- The fast path agrees with the plain path, whatever rows of others are near and however ties are broken, exactly where
no row can be lost and none is out of date. -/
theorem fast_agrees_iff (enough : allowed.card ≤ limit) (fits : ∀ row ∈ table.rows, row.embedding.length = query.length) :
    FastAgrees sqrt accepts table sidecar query modelId limit allowed ↔ Sound sqrt accepts table sidecar query modelId limit allowed := by
  by_cases empty : query = []
  · refine iff_of_true (fun search _ fast returned => ?_) (.noQuery empty)
    simp [tryKnnVectorState, knnVecEmbeddings, empty] at returned
  · rw [fastAgrees_iff empty enough fits]
    exact ⟨sound_of_answers, answers_of_sound empty⟩

end

/-! ### A crowd of other rows -/

section

theorem backfill_self {K : Type} (accepts : VectorTable K → VectorRow K → Bool) (table : VectorTable K) (modelId : String)
    (allowed : Finset String) : backfillMissingRows accepts table table modelId allowed = table := by
  have none : table.rows.filter (fun row =>
      row.modelId = modelId && row.entryId ∈ allowed && !vec0HasEntry table row.entryId modelId) = [] := by
    refine List.filter_eq_nil_iff.mpr fun row member kept => ?_
    simp only [Bool.and_eq_true, decide_eq_true_eq, Bool.not_eq_true', vec0HasEntry, List.any_eq_false] at kept
    exact kept.2 row member ⟨rfl, kept.1.1⟩
  unfold backfillMissingRows
  rw [none]
  rfl

def rival (number : Nat) : VectorRow ℝ :=
  { entryId := String.ofList (List.replicate (number + 1) 'x'), modelId := "m", embedding := [1, 0] }

def nearRow : VectorRow ℝ := { entryId := "a", modelId := "m", embedding := [1, 0] }

def farRow : VectorRow ℝ := { entryId := "b", modelId := "m", embedding := [0, 1] }

theorem far_ahead (entryId modelId : String) : far Real.sqrt [1, 0] { entryId, modelId, embedding := [1, 0] } = 0 := by
  simp [far, distance?, norm, dot]

theorem far_aside (entryId modelId : String) : far Real.sqrt [1, 0] { entryId, modelId, embedding := [0, 1] } = 1 := by
  simp [far, distance?, norm, dot]

theorem rivals_unique (count : Nat) : (([nearRow, farRow] ++ (List.range count).map rival).map (·.entryId)).Nodup := by
  have others : ∀ number, (rival number).entryId ≠ "a" ∧ (rival number).entryId ≠ "b" := by
    intro number
    constructor
    · intro same
      have text := congrArg String.toList same
      simp [rival, List.replicate_succ] at text
    · intro same
      have text := congrArg String.toList same
      simp [rival, List.replicate_succ] at text
  have injective : Function.Injective fun number => (rival number).entryId := by
    intro first second same
    have text := congrArg (List.length ∘ String.toList) same
    simpa [rival] using text
  rw [List.map_append, List.map_map]
  refine List.nodup_append.mpr ⟨by decide, List.nodup_range.map injective, ?_⟩
  rintro own known other member rfl
  obtain ⟨number, -, same⟩ := List.mem_map.mp member
  simp only [List.map_cons, List.map_nil, List.mem_cons, List.not_mem_nil, or_false] at known
  rcases known with rfl | rfl
  · exact (others number).1 same
  · exact (others number).2 same

def crowd (count : Nat) : VectorTable ℝ := { rows := [nearRow, farRow] ++ (List.range count).map rival, nodup := rivals_unique count }

theorem crowd_dimension {count : Nat} : ∀ row ∈ (crowd count).rows, row.embedding.length = 2 := by
  intro row member
  rcases List.mem_append.mp member with own | other
  · rcases List.mem_pair.mp own with rfl | rfl <;> rfl
  · obtain ⟨number, -, rfl⟩ := List.mem_map.mp other
    rfl

theorem crowd_searched (count : Nat) (allowed : Finset String) :
    searched (fun _ _ => true) (crowd count) (crowd count) "m" allowed = (crowd count).rows := by
  rw [searched, backfill_self]
  refine List.filter_eq_self.mpr fun row member => ?_
  rcases List.mem_append.mp member with own | other
  · rcases List.mem_pair.mp own with rfl | rfl <;> rfl
  · obtain ⟨number, -, rfl⟩ := List.mem_map.mp other
    rfl

/-- Without a crowd, nothing is lost. -/
theorem pair_agrees : FastAgrees Real.sqrt (fun _ _ => true) (crowd 0) (crowd 0) [1, 0] "m" 2 {"a", "b"} := by
  refine (fast_agrees_iff Finset.card_le_two crowd_dimension).mpr (.whole ?_ ?_)
  · intro row member known _
    rw [crowd_searched] at member
    have model : row.modelId = "m" := by
      rcases List.mem_pair.mp member with rfl | rfl <;> rfl
    exact ⟨row, List.mem_filter.mpr ⟨member, by simp [known, model]⟩, rfl, rfl⟩
  · intro own here
    have member : own ∈ searched (fun _ _ => true) (crowd 0) (crowd 0) "m" {"a", "b"} := by
      rw [crowd_searched]
      exact (List.mem_filter.mp here).1
    have few : within (far Real.sqrt [1, 0]) (searched (fun _ _ => true) (crowd 0) (crowd 0) "m" {"a", "b"}) own ≤ 2 := by
      rw [crowd_searched]
      exact List.countP_le_length
    have distinct : (searched (fun _ _ => true) (crowd 0) (crowd 0) "m" {"a", "b"}).Nodup := (ids_filter _ _).of_map
    have taken := nearest_take (far Real.sqrt [1, 0]) 2 distinct
    exact ⟨own, member, rfl, taken.nearer_lt distinct (taken.mem_of_within member few), .inl few⟩

theorem crowd_nearest (count : Nat) :
    Nearest (far Real.sqrt [1, 0]) (crowd count).rows (count + 1) (nearRow :: (List.range count).map rival) := by
  have ahead : ∀ row ∈ nearRow :: (List.range count).map rival, far Real.sqrt [1, 0] row = 0 := by
    refine List.forall_mem_cons.mpr ⟨far_ahead _ _, fun row member => ?_⟩
    obtain ⟨number, -, rfl⟩ := List.mem_map.mp member
    exact far_ahead _ _
  have part : (nearRow :: (List.range count).map rival).Sublist (crowd count).rows := .cons_cons _ (.cons _ (.refl _))
  refine ⟨(List.Nodup.of_map _ (crowd count).nodup).sublist part, part.subset, ?_, ?_, ?_⟩
  · simp [crowd]
  · exact List.pairwise_of_forall_mem_list fun first one second other => by rw [ahead first one, ahead second other]
  · intro row member other known out
    rw [ahead row member]
    rcases List.mem_append.mp known with own | rivals
    · rcases List.mem_pair.mp own with rfl | rfl
      · exact absurd List.mem_cons_self out
      · rw [farRow, far_aside]
        exact zero_le_one
    · exact absurd (List.mem_cons_of_mem _ rivals) out

theorem farRow_not_near (count : Nat) : farRow.entryId ∉ (nearRow :: (List.range count).map rival).map (·.entryId) := by
  have unique := rivals_unique count
  rw [List.cons_append, List.cons_append, List.nil_append, List.map_cons, List.map_cons] at unique
  have moved := (List.Perm.swap _ _ _).nodup_iff.mp unique
  rw [List.map_cons]
  exact (List.nodup_cons.mp moved).1

/-- Rivals of other projects keep an allowed row from the answer of the index. -/
theorem fast_agrees_fails :
    ¬∀ (table sidecar : VectorTable ℝ) (query : List ℝ) (modelId : String) (limit : Nat) (allowed : Finset String),
      Reachable (fun _ _ => true) sidecar → allowed.card ≤ limit → (∀ row ∈ table.rows, row.embedding.length = query.length) →
      (∀ row ∈ sidecar.rows, row.embedding.length = query.length) →
      FastAgrees Real.sqrt (fun _ _ => true) table sidecar query modelId limit allowed := by
  intro claim
  have agrees := claim (crowd 499) (crowd 499) [1, 0] "m" 500 {"a", "b"} (reachable_all _) (Finset.card_le_two.trans (by omega))
    crowd_dimension crowd_dimension
  rw [fastAgrees_iff (by simp) (Finset.card_le_two.trans (by omega)) crowd_dimension] at agrees
  have nearest := crowd_nearest 499
  rw [← crowd_searched 499 {"a", "b"}] at nearest
  have same := (agrees _ nearest).resolve_left (hitsOf_ne_nil List.mem_cons_self (by decide))
  have scored : farRow ∈ stored (crowd 499) "m" {"a", "b"} :=
    List.mem_filter.mpr ⟨.tail _ (.head _), by decide⟩
  obtain ⟨row, member, -, id, -⟩ := mem_hitsOf.mp ((same _ _).mpr (mem_scoresOf.mpr ⟨farRow, scored, rfl, rfl⟩))
  exact farRow_not_near 499 (id ▸ List.mem_map_of_mem member)

end

end HarnessMem.Vectors
