import HarnessMem.Library.JsonMembers
import HarnessMem.Verbatim.Store

/-! What the reads of the verbatim store select: by the LIKE over the metadata the
observations in which some member names the project, and by the timestamps those
whose clock reading lies inside the bounds.
-/

set_option autoImplicit false

namespace HarnessMem.Verbatim

open Library

/-! ### Runs of writes -/

namespace VerbatimStore

theorem Agrees.get?_row {store : VerbatimStore} (agrees : store.Agrees) (id : String) :
    store.index.get? id = (store.blobs.get? id).map Observation.row := by
  unfold Table.get?
  rw [agrees, List.find?_map]
  rfl

theorem agrees_empty : empty.Agrees := rfl

theorem Agrees.save {store : VerbatimStore} (agrees : store.Agrees) (observation : Observation) : (store.save observation).Agrees := by
  have rows := agrees.get?_row observation.id
  unfold Agrees VerbatimStore.save
  cases found : store.blobs.get? observation.id with
  | none =>
    have fresh : store.index.get? observation.row.id = none := by rw [← Option.map_none, ← found, ← rows]; rfl
    rw [Table.rows_upsert_fresh found, Table.rows_upsert_fresh fresh, agrees, List.map_append]
    rfl
  | some old =>
    have known : store.index.get? observation.row.id = some old.row := by rw [← Option.map_some, ← found, ← rows]; rfl
    rw [Table.rows_upsert_known found, Table.rows_upsert_known known, agrees, List.map_map, List.map_map]
    apply List.map_congr_left
    intro other _
    by_cases same : other.id = observation.id
    · simp [Observation.row, same]
    · simp [Observation.row, same]

theorem Agrees.delete {store : VerbatimStore} (agrees : store.Agrees) (id : String) : (store.delete id).Agrees := by
  unfold Agrees VerbatimStore.delete
  rw [Table.rows_filter, Table.rows_filter, agrees, List.filter_map]
  rfl

theorem Agrees.softDelete {store : VerbatimStore} (agrees : store.Agrees) (id : String) : (store.softDelete id).Agrees := by
  unfold VerbatimStore.softDelete
  split
  · exact agrees
  · unfold Agrees
    rw [Table.rows_mapRows, Table.rows_mapRows, agrees, List.map_map, List.map_map]
    apply List.map_congr_left
    intro other _
    by_cases same : other.id = id
    · simp [Observation.row, same]
    · simp [Observation.row, same]

theorem Agrees.run {store : VerbatimStore} (agrees : store.Agrees) (op : VerbatimOp) : (op.run store).Agrees := by
  cases op with
  | save observation => exact agrees.save observation
  | delete id => exact agrees.delete id
  | softDelete id => exact agrees.softDelete id

end VerbatimStore

theorem after_agrees (ops : List VerbatimOp) : (after ops).Agrees := by
  have folded : ∀ (ops : List VerbatimOp) (store : VerbatimStore), store.Agrees → (ops.foldl (fun store op => op.run store) store).Agrees := by
    intro ops
    induction ops with
    | nil => exact fun _ agrees => agrees
    | cons op ops ih => exact fun store agrees => ih (op.run store) (agrees.run op)
  exact folded ops _ VerbatimStore.agrees_empty

/-! ### What a read returns -/

namespace VerbatimStore

variable {store : VerbatimStore}

theorem Agrees.payloads_filter (agrees : store.Agrees) (condition : IndexRow → Bool) :
    store.payloads (store.index.rows.filter condition) =
      store.blobs.rows.filter fun observation => !observation.compacted && condition observation.row := by
  have each : ∀ observations : List Observation, (∀ observation ∈ observations, observation ∈ store.blobs.rows) →
      ((observations.map Observation.row).filter condition).filterMap (fun row => store.blobs.get? row.id) =
        observations.filter fun observation => condition observation.row := by
    intro observations inside
    induction observations with
    | nil => rfl
    | cons observation rest ih =>
      have later := ih fun other member => inside other (List.mem_cons_of_mem _ member)
      have found : store.blobs.get? observation.row.id = some observation := Table.get?_of_mem (inside observation List.mem_cons_self)
      cases holds : condition observation.row with
      | false => simp [holds, later]
      | true => simp [holds, later, found]
  unfold payloads
  rw [agrees, each _ fun _ member => member, List.filter_filter]

theorem payloads_perm {first second : List IndexRow} (same : first.Perm second) : (store.payloads first).Perm (store.payloads second) :=
  (same.filterMap _).filter _

theorem Agrees.select_perm (agrees : store.Agrees) (condition : IndexRow → Bool) :
    (store.payloads (store.select condition none)).Perm
      (store.blobs.rows.filter fun observation => !observation.compacted && condition observation.row) := by
  rw [← agrees.payloads_filter]
  exact payloads_perm (List.perm_insertionSort _ _)

end VerbatimStore

/-! ### The project -/

/-- `project_name`. -/
def projectKey : List Char := ['p', 'r', 'o', 'j', 'e', 'c', 't', '_', 'n', 'a', 'm', 'e']

theorem projectKey_name : Name projectKey := by
  unfold projectKey
  repeat first
    | exact .last (by decide)
    | apply Name.joker (by decide)
    | apply Name.letter (by decide)

/-- Some member of the metadata, at any depth, has a key whose text ends in `"project_name"` as LIKE
reads it, and behind its colon the text in quotes that LIKE reads for the name. -/
def Observation.Mentions (observation : Observation) (projectName : String) : Prop :=
  Names true projectKey ('"' :: (projectName.toList ++ ['"', '%'])) ((JsonValue.obj observation.metadata.fields).members true [])

theorem projectMetadataPattern_eq (projectName : String) :
    projectMetadataPattern projectName = finds projectKey (':' :: ' ' :: '"' :: (projectName.toList ++ ['"', '%'])) := by
  have opens : "%\"project_name\": \"".toList = '%' :: '"' :: (projectKey ++ ['"', ':', ' ', '"']) := by decide
  have closes : "\"%".toList = ['"', '%'] := by decide
  unfold projectMetadataPattern finds
  rw [opens, closes]
  generalize projectKey = key
  simp

theorem like_projectMetadataPattern (observation : Observation) (projectName : String) :
    like (projectMetadataPattern projectName) observation.metadata.dumps = true ↔ observation.Mentions projectName := by
  have ended : Ended [] := by rintro _ ⟨⟩
  have found : like (finds projectKey (':' :: ' ' :: '"' :: (projectName.toList ++ ['"', '%']))) (observation.metadata.dumps ++ []) = true ↔ _ :=
    projectKey_name.finds_dumps (JsonValue.obj observation.metadata.fields) ended
  rw [List.append_nil] at found
  rw [projectMetadataPattern_eq, found, Observation.Mentions]
  simp [finds, like_any_nil, like_cons_nil]

/-! ### The timestamp -/

/-- The clock of the first reading shows less; where both show the same, the texts of the offsets decide. -/
def clockBefore (first second : DateTime) : Prop :=
  first.wall < second.wall ∨ first.wall = second.wall ∧ DateTime.offsetText first.offset < DateTime.offsetText second.offset

theorem wall_inUtc (time : DateTime) : time.inUtc.wall = time.wall := rfl

theorem instant_inUtc (time : DateTime) : time.inUtc.instant = time.instant := rfl

section search

variable (julianday : List Char → Option Int) (timeWindow : Option TimeWindow) (asOf : Option DateTime)

def windowOf : TimeWindow := timeWindow.getD (none, none)

def notLater (first second : DateTime) : Prop :=
  ∃ day ∈ julianday first.isoformat, ∃ last ∈ julianday second.isoformat, day ≤ last

/-- The timestamp stands inside the bounds by its clock, and by the date function of SQLite. -/
def InsideByClock (time : DateTime) : Prop :=
  (∀ start ∈ (windowOf timeWindow).1, ¬ clockBefore time start.inUtc) ∧
    (∀ stop ∈ (windowOf timeWindow).2, clockBefore time stop.inUtc) ∧
      ∀ limit ∈ asOf, notLater julianday time limit.inUtc

def Inside (time : DateTime) : Prop :=
  (∀ start ∈ (windowOf timeWindow).1, start.instant ≤ time.instant) ∧
    (∀ stop ∈ (windowOf timeWindow).2, time.instant < stop.instant) ∧
      ∀ limit ∈ asOf, time.instant ≤ limit.instant

def Told (projectName : String) (observation : Observation) : Prop :=
  projectName = "" ∨ observation.Mentions projectName

theorem scopeWhere_row (projectName : String) (observation : Observation) :
    scopeWhere none (some projectName) observation.row = true ↔ observation.compacted = false ∧ Told projectName observation := by
  have pattern := like_projectMetadataPattern observation projectName
  unfold scopeWhere Told
  by_cases empty : projectName = ""
  · simp [given, Observation.row, empty]
  · simp only [given, Observation.row, Option.filter, empty, decide_true, Bool.and_eq_true, Bool.not_eq_true', Option.all_none,
      Option.all_some, ne_eq, not_false_eq_true, if_true, false_or, and_true, pattern]

theorem all_normalizeDatetime (value : Option DateTime) (holds : DateTime → Bool) :
    (normalizeDatetime value).all holds = true ↔ ∀ time ∈ value, holds time.inUtc = true := by
  cases value <;> simp [normalizeDatetime]

theorem searchWhere_row (projectName : String) (observation : Observation) :
    searchWhere julianday none (some projectName) timeWindow asOf observation.row = true ↔
      (observation.compacted = false ∧ Told projectName observation) ∧ InsideByClock julianday timeWindow asOf observation.timestamp := by
  have earlier : ∀ bound : DateTime, observation.row.timestamp < bound.isoformat ↔ clockBefore observation.timestamp bound :=
    fun _ => DateTime.isoformat_lt_iff
  have limit : ∀ bound : DateTime,
      juliandayLe julianday observation.row.timestamp bound.isoformat = true ↔ notLater julianday observation.timestamp bound := by
    intro bound
    simp only [juliandayLe, Observation.row, notLater]
    cases julianday observation.timestamp.isoformat <;> cases julianday bound.isoformat <;> simp
  unfold searchWhere InsideByClock
  rw [Bool.and_eq_true, Bool.and_eq_true, scopeWhere_row, all_normalizeDatetime, and_assoc]
  simp only [limit]
  cases timeWindow with
  | none => simp [windowOf]
  | some window =>
    simp only [normalizeTimeWindow, Bool.and_eq_true, all_normalizeDatetime, decide_eq_true_eq, earlier, windowOf, Option.getD_some, and_assoc]

end search

/-! ### The reads are scoped -/

section reads

variable (julianday : List Char → Option Int)

/-- What the project's reads promise: the list and the timeline return the project's uncompacted
observations and no other, and the predicate of the search admits those whose instant lies inside. -/
structure ScopedReads (store : VerbatimStore) (projectName : String) (timeWindow : Option TimeWindow) (asOf : Option DateTime) : Prop where
  list : (store.list none none (some projectName)).Perm
    (store.blobs.rows.filter fun observation => !observation.compacted && observation.projectName? = some projectName)
  timeline : (store.timeline (some projectName) none).Perm
    (store.blobs.rows.filter fun observation => !observation.compacted && observation.projectName? = some projectName)
  search : ∀ observation ∈ store.blobs.rows, searchWhere julianday none (some projectName) timeWindow asOf observation.row = true ↔
    observation.compacted = false ∧ observation.projectName? = some projectName ∧ Inside timeWindow asOf observation.timestamp

/-- The metadata tells the project's observations from the others, and the clocks of its own observations
place them inside the bounds as their instants do. -/
def Distinguished (projectName : String) (timeWindow : Option TimeWindow) (asOf : Option DateTime) (observation : Observation) : Prop :=
  (Told projectName observation ↔ observation.projectName? = some projectName) ∧
    (observation.projectName? = some projectName →
      (InsideByClock julianday timeWindow asOf observation.timestamp ↔ Inside timeWindow asOf observation.timestamp))

end reads

/-- An observation of the project `App`, made at the beginning of the calendar. -/
def otherCase : Observation where
  id := "observation-1"
  sessionId := "session-1"
  client := "codex"
  rawContent := "notes"
  contentType := "transcript"
  timestamp := ⟨1, 1, 1, 0, 0, 0, 0, some 0, by decide, DateTime.midnight_clock, DateTime.utc_zone⟩
  metadata := ⟨[("project_name", .str "App")], by decide⟩
  tags := []
  compacted := false

end HarnessMem.Verbatim
