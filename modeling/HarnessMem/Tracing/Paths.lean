import HarnessMem.Library.Exploration
import HarnessMem.Temporal.Reads
import HarnessMem.Temporal.Store
import Mathlib.Algebra.Order.Ring.Rat
import Mathlib.Data.Prod.Lex
import Mathlib.Data.String.Basic

/-! Relation facts between entities, their rows in the index, and the paths traced through them. Confidences
and scores are numbers of any linear order.
-/

set_option autoImplicit false

namespace HarnessMem.Tracing

open Library
open Structured (ListFilter UtcTime matchesFilter normalizeStatusOnLoad)
open Temporal (Collection TimeColumns Validity currentOnlyClause isCurrentData)

variable {K : Type} [LinearOrder K]

structure RelationFact (K : Type) where
  id : String
  projectName : String
  sourceEntity : String
  targetEntity : String
  relationType : String
  confidence : K
  status : String
  times : Validity

structure FactRow where
  id : String
  projectName : String
  sourceEntity : String
  targetEntity : String
  relationType : String
  status : String
  times : TimeColumns

def RelationFact.row (fact : RelationFact K) : FactRow where
  id := fact.id
  projectName := fact.projectName
  sourceEntity := fact.sourceEntity
  targetEntity := fact.targetEntity
  relationType := fact.relationType
  status := fact.status
  times := fact.times.columns

/-- `RelationFact.from_dict`. -/
def RelationFact.onLoad (fact : RelationFact K) : RelationFact K := { fact with status := normalizeStatusOnLoad fact.status }

abbrev RelationFacts (K : Type) : Type := Collection (RelationFact.id (K := K)) FactRow.id

/-- The facts after `save_relation_fact` was called for each of a list. -/
def savedFacts (facts : List (RelationFact K)) : RelationFacts K := Collection.saved RelationFact.row facts

/-! ### The listing -/

/-- `ORDER BY created_at DESC`. -/
def newestText (row : FactRow) : (List Char)ᵒᵈ := OrderDual.toDual row.times.createdAt

/-- How the engine orders rows, whatever it does with equal times. -/
structure Engine where
  order : List FactRow → List FactRow
  ordered : ∀ rows, Ordered newestText rows (order rows)

structure Trace (K : Type) where
  projectName : String
  sourceEntity : String
  relationType : Option String
  maxDepth : Int
  limit : Int
  minConfidence : K
  includeHistory : Bool

namespace Trace

variable (trace : Trace K)

def filter : ListFilter := ⟨"readable_truth", trace.includeHistory, false⟩

def effectiveLimit : Nat := (max 1 trace.limit).toNat

end Trace

section

variable (engine : Engine) (store : RelationFacts K) (now : UtcTime) (trace : Trace K)

/-- The WHERE clause of `list_relation_facts`. -/
def listWhere (sourceEntity : String) (row : FactRow) : Bool :=
  row.projectName = trace.projectName && trace.filter.statuses.contains row.status &&
    (trace.includeHistory || currentOnlyClause now row.times) && matchesFilter (some sourceEntity) row.sourceEntity &&
    matchesFilter trace.relationType row.relationType

def listCheck (data : RelationFact K) : Bool :=
  trace.filter.statuses.contains data.status && (trace.includeHistory || isCurrentData now data.times)

/-- `list_relation_facts`, as a trace calls it for an entity. -/
def listRelationFacts (sourceEntity : String) : List (RelationFact K) :=
  ((engine.order (store.index.rows.filter (listWhere now trace sourceEntity))).take (trace.effectiveLimit * 5)).filterMap fun row =>
    (store.blobs.get? row.id).bind fun data => if listCheck now trace data then some data.onLoad else none

end

/-! ### The trace -/

/-- `score_relation_fact` at a depth, and the score of a path. -/
structure Scoring (K : Type) where
  scoreRelationFact : RelationFact K → Nat → K
  scoreRelationPath : List (RelationFact K) → K

/-- An entity reached, the facts that lead there, and the entities on the way. -/
structure Branch (K : Type) where
  entity : String
  path : List (RelationFact K)
  seen : List String

section

variable (scoring : Scoring K) (trace : Trace K)

def factKey (depth : Nat) (fact : RelationFact K) : K ×ₗ K ×ₗ Int :=
  toLex (scoring.scoreRelationFact fact depth, toLex (fact.confidence, fact.times.createdAt.1.instant))

def nextFacts (listed : List (RelationFact K)) (branch : Branch K) : List (RelationFact K) :=
  (listed.filter fun fact => decide (trace.minConfidence ≤ fact.confidence) && !branch.seen.contains fact.targetEntity).insertionSort
    fun first second => factKey scoring (branch.path.length + 1) second ≤ factKey scoring (branch.path.length + 1) first

def extendPaths (branch : Branch K) :
    List (RelationFact K) → List (List (RelationFact K)) × List (Branch K) → List (List (RelationFact K)) × List (Branch K)
  | [], state => state
  | fact :: facts, (paths, queue) =>
    let nextPath := branch.path ++ [fact]
    if trace.effectiveLimit ≤ (paths ++ [nextPath]).length then (paths ++ [nextPath], queue)
    else
      extendPaths branch facts (paths ++ [nextPath],
        if nextPath.length < trace.maxDepth.toNat then
          queue ++ [⟨fact.targetEntity, nextPath, fact.targetEntity :: branch.seen⟩]
        else queue)

omit [LinearOrder K] in
theorem length_extendPaths (branch : Branch K) (facts : List (RelationFact K))
    (state : List (List (RelationFact K)) × List (Branch K)) :
    state.1.length ≤ (extendPaths trace branch facts state).1.length ∧
      (facts ≠ [] → state.1.length < (extendPaths trace branch facts state).1.length) := by
  induction facts generalizing state with
  | nil => exact ⟨Nat.le_refl _, fun some_ => absurd rfl some_⟩
  | cons fact facts ih =>
    have one : state.1.length < (state.1 ++ [branch.path ++ [fact]]).length := by simp
    have later := fun queue => (ih (state.1 ++ [branch.path ++ [fact]], queue)).1
    have grown : state.1.length < (extendPaths trace branch (fact :: facts) state).1.length := by
      rw [extendPaths]
      split
      · exact one
      · exact one.trans_le (later _)
    exact ⟨grown.le, fun _ => grown⟩

def traceLoop (listed : String → List (RelationFact K)) (paths : List (List (RelationFact K))) :
    List (Branch K) → List (List (RelationFact K))
  | [] => paths
  | branch :: queue =>
    if paths.length < trace.effectiveLimit then
      let state := extendPaths trace branch (nextFacts scoring trace (listed branch.entity) branch) (paths, queue)
      traceLoop listed state.1 state.2
    else paths
termination_by queue => (trace.effectiveLimit - paths.length, queue.length)
decreasing_by
  simp only [Prod.lex_def]
  by_cases none_ : nextFacts scoring trace (listed branch.entity) branch = []
  · right
    rw [none_]
    exact ⟨rfl, Nat.lt_succ_self _⟩
  · left
    exact Nat.sub_lt_sub_left ‹_› ((length_extendPaths trace branch _ (paths, queue)).2 none_)

/-- `RelationPath.entities`. -/
def pathEntities (path : List (RelationFact K)) : List String :=
  match path with
  | [] => []
  | fact :: _ => fact.sourceEntity :: path.map (·.targetEntity)

def pathKey (path : List (RelationFact K)) : K ×ₗ Nat ×ₗ List String :=
  toLex (scoring.scoreRelationPath path, toLex (path.length, pathEntities path))

/-- `trace_relation_paths`, at one reading of the clock. -/
def traceRelationPaths (engine : Engine) (store : RelationFacts K) (now : UtcTime) : Except String (List (List (RelationFact K))) :=
  if trace.maxDepth < 1 then .error "max_depth must be >= 1"
  else if 3 < trace.maxDepth then .error "max_depth must be <= 3"
  else
    let paths := traceLoop scoring trace (listRelationFacts engine store now trace) []
      [⟨trace.sourceEntity, [], [trace.sourceEntity]⟩]
    .ok ((paths.insertionSort fun first second => pathKey scoring second ≤ pathKey scoring first).take trace.effectiveLimit)

end

end HarnessMem.Tracing

/-! What a trace returns: paths of readable facts from the source entity that visit no entity twice, and every one
whose facts are listed, as long as there are no more of them than the limit.
-/

namespace HarnessMem.Tracing

open Library
open Structured (UtcTime matchesFilter normalizeStatusOnLoad statusesForListFilter)
open Temporal (Collection currentOnlyClause isCurrentData)

variable {K : Type} [LinearOrder K]

/-! ### Paths and the branches that stand for them -/

section

omit [LinearOrder K]

def entityAfter (source : String) (path : List (RelationFact K)) : String :=
  (path.getLast?.map (·.targetEntity)).getD source

def along (source : String) (path : List (RelationFact K)) : Branch K :=
  ⟨entityAfter source path, path, (path.map (·.targetEntity)).reverse ++ [source]⟩

theorem along_snoc (source : String) (path : List (RelationFact K)) (fact : RelationFact K) :
    along source (path ++ [fact]) =
      ⟨fact.targetEntity, path ++ [fact], fact.targetEntity :: (along source path).seen⟩ := by
  simp [along, entityAfter]

theorem extendPaths_along (trace : Trace K) (source : String) (path facts : List (RelationFact K))
    (paths queue : List (List (RelationFact K))) :
    extendPaths trace (along source path) facts (paths, queue.map (along source)) =
      ((grow trace.maxDepth.toNat trace.effectiveLimit path facts (paths, queue)).1,
        (grow trace.maxDepth.toNat trace.effectiveLimit path facts (paths, queue)).2.map (along source)) := by
  induction facts generalizing paths queue with
  | nil => rfl
  | cons fact facts ih =>
    have queued : (if (path ++ [fact]).length < trace.maxDepth.toNat then
        queue.map (along source) ++ [⟨fact.targetEntity, path ++ [fact], fact.targetEntity :: (along source path).seen⟩]
        else queue.map (along source)) =
        (if (path ++ [fact]).length < trace.maxDepth.toNat then queue ++ [path ++ [fact]] else queue).map (along source) := by
      split
      · rw [List.map_append, List.map_singleton, along_snoc]
      · rfl
    have own : (along source path).path = path := rfl
    rw [extendPaths, grow, own, queued, ih]
    split <;> rfl

end

def children (scoring : Scoring K) (trace : Trace K) (listed : String → List (RelationFact K)) (path : List (RelationFact K)) :
    List (RelationFact K) :=
  nextFacts scoring trace (listed (entityAfter trace.sourceEntity path)) (along trace.sourceEntity path)

theorem traceLoop_along (scoring : Scoring K) (trace : Trace K) (listed : String → List (RelationFact K))
    (paths queue : List (List (RelationFact K))) :
    traceLoop scoring trace listed paths (queue.map (along trace.sourceEntity)) =
      explore trace.maxDepth.toNat trace.effectiveLimit (children scoring trace listed) paths queue := by
  induction paths, queue using explore.induct trace.maxDepth.toNat trace.effectiveLimit (children scoring trace listed) with
  | case1 paths => rw [List.map_nil, traceLoop, explore]
  | case2 paths path queue below state ih =>
    have one := extendPaths_along trace trace.sourceEntity path (children scoring trace listed path) paths queue
    rw [List.map_cons, traceLoop, explore, if_pos below, if_pos below]
    have named : (along trace.sourceEntity path).entity = entityAfter trace.sourceEntity path := rfl
    have same : nextFacts scoring trace (listed (along trace.sourceEntity path).entity) (along trace.sourceEntity path) =
        children scoring trace listed path := rfl
    rw [same]
    dsimp only
    rw [one]
    exact ih
  | case3 paths path queue full => rw [List.map_cons, traceLoop, explore, if_neg full, if_neg full]

/-! ### Facts that are listed -/

section

variable (engine : Engine) (store : RelationFacts K) (now : UtcTime) (trace : Trace K)

/-- A fact of the project that the trace may read. -/
structure Readable (fact : RelationFact K) : Prop where
  held : fact ∈ store.blobs.rows
  own : fact.projectName = trace.projectName
  accepted : fact.status ∈ trace.filter.statuses
  current : trace.includeHistory = false → currentOnlyClause now fact.times.columns = true ∧ isCurrentData now fact.times = true

end

omit [LinearOrder K] in
theorem onLoad_of_accepted {trace : Trace K} {fact : RelationFact K} (accepted : fact.status ∈ trace.filter.statuses) :
    fact.onLoad = fact := by
  have filled : fact.status ≠ "" := by
    intro nothing
    rw [nothing] at accepted
    revert accepted
    unfold Structured.ListFilter.statuses Trace.filter
    cases trace.includeHistory <;> decide
  unfold RelationFact.onLoad normalizeStatusOnLoad
  rw [if_neg filled]

variable {engine : Engine} {store : RelationFacts K} {now : UtcTime} {trace : Trace K}

omit [LinearOrder K] in
theorem listCheck_iff {fact : RelationFact K} : listCheck now trace fact = true ↔
    fact.status ∈ trace.filter.statuses ∧ (trace.includeHistory = false → isCurrentData now fact.times = true) := by
  unfold listCheck
  cases trace.includeHistory <;> simp

omit [LinearOrder K] in
theorem listWhere_row {entity : String} {fact : RelationFact K} : listWhere now trace entity fact.row = true ↔
    fact.projectName = trace.projectName ∧ fact.status ∈ trace.filter.statuses ∧
      (trace.includeHistory = false → currentOnlyClause now fact.times.columns = true) ∧
      matchesFilter (some entity) fact.sourceEntity = true ∧ matchesFilter trace.relationType fact.relationType = true := by
  unfold listWhere RelationFact.row
  cases trace.includeHistory <;> simp [and_assoc]

omit [LinearOrder K] in
theorem of_mem_list (agrees : store.Agrees RelationFact.row) {entity : String} {fact : RelationFact K}
    (member : fact ∈ listRelationFacts engine store now trace entity) :
    Readable store now trace fact ∧ matchesFilter (some entity) fact.sourceEntity = true ∧
      matchesFilter trace.relationType fact.relationType = true := by
  obtain ⟨row, taken, found⟩ := List.mem_filterMap.mp member
  obtain ⟨data, got, passed⟩ := Option.bind_eq_some_iff.mp found
  split at passed
  · next checked =>
    have selected := (engine.ordered _).perm.subset (List.mem_of_mem_take taken)
    obtain ⟨inside, clause⟩ := List.mem_filter.mp selected
    rw [agrees] at inside
    obtain ⟨saved, held, rfl⟩ := List.mem_map.mp inside
    have known : store.blobs.get? saved.row.id = some saved := Table.get?_of_mem held
    obtain rfl := Option.some.inj (known.symm.trans got)
    obtain ⟨own, accepted, open_, source, typed⟩ := listWhere_row.mp clause
    obtain ⟨_, current⟩ := listCheck_iff.mp checked
    rw [onLoad_of_accepted accepted] at passed
    obtain rfl := Option.some.inj passed
    exact ⟨⟨held, own, accepted, fun history => ⟨open_ history, current history⟩⟩, source, typed⟩
  · cases passed

omit [LinearOrder K] in
theorem nodup_list (entity : String) :
    (listRelationFacts engine store now trace entity).Nodup := by
  have rows : ((engine.order (store.index.rows.filter (listWhere now trace entity))).take (trace.effectiveLimit * 5)).Pairwise
      fun first second => first.id ≠ second.id := by
    have distinct : store.index.rows.Pairwise fun first second => first.id ≠ second.id := List.pairwise_map.mp store.index.nodup
    have selected := distinct.filter (listWhere now trace entity)
    exact ((engine.ordered _).perm.pairwise_iff (fun apart same => apart same.symm) |>.mpr selected).sublist (List.take_sublist _ _)
  have named : ∀ {row : FactRow} {fact : RelationFact K}, (store.blobs.get? row.id).bind (fun data =>
      if listCheck now trace data then some data.onLoad else none) = some fact → fact.id = row.id := by
    intro row fact found
    obtain ⟨data, got, passed⟩ := Option.bind_eq_some_iff.mp found
    split at passed
    · obtain rfl := Option.some.inj passed
      have own : data.id = row.id := Table.key_of_get? got
      exact own
    · cases passed
  refine List.Pairwise.filterMap _ ?_ rows
  rintro first second apart fact found other found' rfl
  exact apart ((named found).symm.trans (named found'))

/-- What a trace may return: readable facts of the type asked for, linked from the source entity on, that visit no
entity twice. -/
structure Chain (store : RelationFacts K) (now : UtcTime) (trace : Trace K) (link : String → RelationFact K → Prop)
    (path : List (RelationFact K)) : Prop where
  filled : path ≠ []
  short : path.length ≤ trace.maxDepth
  readable : ∀ fact ∈ path, Readable store now trace fact
  typed : ∀ fact ∈ path, matchesFilter trace.relationType fact.relationType = true
  confident : ∀ fact ∈ path, trace.minConfidence ≤ fact.confidence
  linked : ∀ front fact back, path = front ++ fact :: back → link (entityAfter trace.sourceEntity front) fact
  once : (trace.sourceEntity :: path.map (·.targetEntity)).Nodup

def startsAt (entity : String) (fact : RelationFact K) : Prop := fact.sourceEntity = entity

def matching (entity : String) (fact : RelationFact K) : Prop := matchesFilter (some entity) fact.sourceEntity = true

def Listed (engine : Engine) (store : RelationFacts K) (now : UtcTime) (trace : Trace K) (path : List (RelationFact K)) : Prop :=
  ∀ front fact back, path = front ++ fact :: back →
    fact ∈ listRelationFacts engine store now trace (entityAfter trace.sourceEntity front)

theorem mem_children {scoring : Scoring K} {listed : String → List (RelationFact K)} {path : List (RelationFact K)}
    {fact : RelationFact K} : fact ∈ children scoring trace listed path ↔
      fact ∈ listed (entityAfter trace.sourceEntity path) ∧ trace.minConfidence ≤ fact.confidence ∧
        fact.targetEntity ∉ trace.sourceEntity :: path.map (·.targetEntity) := by
  unfold children nextFacts along
  rw [List.mem_insertionSort, List.mem_filter]
  simp only [Bool.and_eq_true, decide_eq_true_eq, Bool.not_eq_true', List.contains_eq_mem, decide_eq_false_iff_not,
    List.mem_append, List.mem_reverse, List.mem_cons, List.not_mem_nil, false_or, or_comm]

omit [LinearOrder K] in
theorem once_iff (source : String) (path : List (RelationFact K)) : (source :: path.map (·.targetEntity)).Nodup ↔
    ∀ front fact back, path = front ++ fact :: back → fact.targetEntity ∉ source :: front.map (·.targetEntity) := by
  induction path using List.reverseRecOn with
  | nil => simp
  | append_singleton path fact ih =>
    rw [forall_split_snoc, ← ih, List.map_append, ← List.cons_append, List.nodup_append]
    simp only [List.map_cons, List.map_nil, List.nodup_singleton, true_and, List.mem_singleton, forall_eq]
    exact and_congr_right fun _ => ⟨fun all inside => all _ inside rfl, fun outside _ inside same => outside (same ▸ inside)⟩

theorem wanted_iff (agrees : store.Agrees RelationFact.row) (scoring : Scoring K) {path : List (RelationFact K)} :
    Wanted (children scoring trace (listRelationFacts engine store now trace)) trace.maxDepth.toNat path ↔
      Chain store now trace matching path ∧ Listed engine store now trace path := by
  have inner : ∀ fact ∈ path, ∃ front back, path = front ++ fact :: back := fun fact member => List.append_of_mem member
  constructor
  · rintro ⟨grown, filled, short⟩
    have all := grown_iff.mp grown
    have listed : Listed engine store now trace path := fun front fact back shape => (mem_children.mp (all front fact back shape)).1
    have positive := List.length_pos_iff.mpr filled
    refine ⟨⟨filled, by omega, ?_, ?_, ?_, ?_, ?_⟩, listed⟩
    · intro fact member
      obtain ⟨front, back, shape⟩ := inner fact member
      exact (of_mem_list agrees (listed front fact back shape)).1
    · intro fact member
      obtain ⟨front, back, shape⟩ := inner fact member
      exact (of_mem_list agrees (listed front fact back shape)).2.2
    · intro fact member
      obtain ⟨front, back, shape⟩ := inner fact member
      exact (mem_children.mp (all front fact back shape)).2.1
    · exact fun front fact back shape => (of_mem_list agrees (listed front fact back shape)).2.1
    · exact (once_iff _ _).mpr fun front fact back shape => (mem_children.mp (all front fact back shape)).2.2
  · rintro ⟨chain, listed⟩
    have positive := List.length_pos_iff.mpr chain.filled
    have short := chain.short
    refine ⟨grown_iff.mpr ?_, chain.filled, by omega⟩
    intro front fact back shape
    have member : fact ∈ path := by simp [shape]
    exact mem_children.mpr ⟨listed front fact back shape, chain.confident fact member,
      (once_iff _ _).mp chain.once front fact back shape⟩

/-! ### What a trace returns -/

def stableEngine : Engine where
  order rows := rows.insertionSort fun first second => newestText first ≤ newestText second
  ordered rows := by
    let sorted : FactRow → FactRow → Prop := fun one another => newestText one ≤ newestText another
    have : Std.Total sorted := ⟨fun one another => le_total (newestText one) (newestText another)⟩
    have : IsTrans FactRow sorted := ⟨fun _ _ _ => le_trans⟩
    exact ⟨List.perm_insertionSort _ _, List.pairwise_insertionSort sorted _⟩

theorem newYear_date : 1 ≤ 2026 ∧ 2026 ≤ 9999 ∧ 1 ≤ 1 ∧ 1 ≤ 12 ∧ 1 ≤ 1 ∧ 1 ≤ daysInMonth 2026 1 := by decide

def newYear : DateTime := ⟨2026, 1, 1, 0, 0, 0, 0, some 0, newYear_date, DateTime.midnight_clock, DateTime.utc_zone⟩

def sinceNewYear : Temporal.Validity := ⟨⟨newYear, rfl⟩, ⟨newYear, rfl⟩, none, ⟨newYear, rfl⟩, []⟩

def dependency (id target : String) : RelationFact ℚ :=
  ⟨id, "demo", "parser", target, "depends_on", 1, "user_confirmed", sinceNewYear⟩

def dependencies : List (RelationFact ℚ) :=
  [dependency "f1" "parser", dependency "f2" "parser", dependency "f3" "parser", dependency "f4" "parser",
    dependency "f5" "parser", dependency "f6" "lexer"]

def parserTrace : Trace ℚ := ⟨"demo", "parser", none, 2, 1, 0, false⟩

def plainScoring : Scoring ℚ := ⟨fun fact _ => fact.confidence, fun path => (path.map (·.confidence)).sum⟩

theorem no_dependency : nextFacts plainScoring parserTrace
    (listRelationFacts stableEngine (savedFacts dependencies) ⟨newYear, rfl⟩ parserTrace "parser") ⟨"parser", [], ["parser"]⟩ = [] :=
  List.isEmpty_iff.mp (by decide)

theorem parser_traced : traceRelationPaths plainScoring parserTrace stableEngine (savedFacts dependencies) ⟨newYear, rfl⟩ = .ok [] := by
  have first : (⟨parserTrace.sourceEntity, [], [parserTrace.sourceEntity]⟩ : Branch ℚ) = ⟨"parser", [], ["parser"]⟩ := rfl
  unfold traceRelationPaths
  rw [if_neg (by decide), if_neg (by decide), first, traceLoop, if_pos (by decide)]
  dsimp only
  rw [no_dependency, extendPaths, traceLoop]
  rfl

/-- A trace returns distinct chains from the source entity, and all of them where there are no more than its limit. -/
def TracesAll (engine : Engine) (facts : List (RelationFact K)) (now : UtcTime) (trace : Trace K) (scoring : Scoring K) : Prop :=
  ∃ paths, traceRelationPaths scoring trace engine (savedFacts facts) now = .ok paths ∧ paths.Nodup ∧
    (∀ path ∈ paths, Chain (savedFacts facts) now trace startsAt path) ∧
    ({path | Chain (savedFacts facts) now trace startsAt path}.encard ≤ trace.limit.toNat →
      ∀ path, Chain (savedFacts facts) now trace startsAt path → path ∈ paths)

end HarnessMem.Tracing
