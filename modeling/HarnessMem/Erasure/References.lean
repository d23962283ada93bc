import HarnessMem.Library.JsonAccess
import HarnessMem.Library.Saturation
import Mathlib.Data.Finset.Sort
import Mathlib.Data.String.Basic
import Mathlib.Tactic.Tauto

/-! Which structured records are linked to private evidence: by the fields that name a
job, a session or an observation, or by a reference to a record that is linked.
-/

set_option autoImplicit false

namespace HarnessMem.Erasure

open Library

abbrev Payload := List (String × JsonValue)

inductive Collection where
  | memoryEntries
  | ruleCandidates
  | proceduralCandidates
  | relationFacts
  | confirmedRules
  | skills
  | supersedeCandidates
  | mergeSuggestionCandidates
  | staleTruthSuggestionCandidates
  | taskHandoffs
  | retrievalSignals
  | metabolismRuns
  | dreamRuns
  deriving DecidableEq

def structuredCollections : List Collection :=
  [.memoryEntries, .ruleCandidates, .proceduralCandidates, .relationFacts, .confirmedRules, .skills, .supersedeCandidates,
    .mergeSuggestionCandidates, .staleTruthSuggestionCandidates, .taskHandoffs, .retrievalSignals, .metabolismRuns,
    .dreamRuns]

theorem mem_structuredCollections (collection : Collection) : collection ∈ structuredCollections := by
  cases collection <;> decide

def Collection.isCandidate : Collection → Bool
  | .memoryEntries | .ruleCandidates | .proceduralCandidates | .relationFacts | .supersedeCandidates
  | .mergeSuggestionCandidates | .staleTruthSuggestionCandidates => true
  | _ => false

/-- The `repr` of lists and dictionaries. -/
abbrev Repr := PyValue → String

variable (repr : Repr)

/-- `str(payload.get(key) or "")`. -/
def textOf (payload : Payload) (key : String) : String :=
  match member? payload key with
  | some value => if value.truthy then value.pyStr repr else ""
  | none => ""

structure Evidence where
  jobIds : List String
  sessionIds : List String
  observationIds : List String

def Evidence.ids (evidence : Evidence) : List String := evidence.jobIds ++ evidence.sessionIds ++ evidence.observationIds

def provenance? (payload : Payload) : Option Payload :=
  match member? payload "provenance" with
  | some (.obj provenance) => some provenance
  | _ => none

def provenanceRefs (provenance : Payload) : List String :=
  match member? provenance "observation_ids" with
  | some (.arr refs) => refs.map (JsonValue.pyStr repr)
  | _ => []

/-- `_payload_is_directly_linked`. -/
def isDirectlyLinked (evidence : Evidence) (payload : Payload) : Bool :=
  textOf repr payload "distill_job_id" ∈ evidence.jobIds ||
  textOf repr payload "session_id" ∈ evidence.sessionIds ||
  textOf repr payload "source_session_id" ∈ evidence.sessionIds ||
  textOf repr payload "source" ∈ evidence.observationIds ||
  (provenance? payload).any fun provenance =>
    textOf repr provenance "session_id" ∈ evidence.sessionIds ||
    (provenanceRefs repr provenance).any fun ref => ref ∈ evidence.observationIds

def scalarFields : List String :=
  ["distill_job_id", "session_id", "source_session_id", "source_candidate_id", "source", "observation_id", "signal_id",
    "truth_id", "candidate_id", "entry_id", "created_entry_id", "target_id", "replacement_id", "target_a_id", "target_b_id",
    "source_entity", "target_entity", "metabolism_run_id", "dream_run_id", "reflection_job_id"]

def listFields : List String :=
  ["observation_ids", "signal_ids", "evidence_ids", "evidence_signal_ids", "selected_signal_ids", "selected_ids",
    "source_ids", "source_truth_ids", "supersedes", "superseded_by"]

def scalarReference (value : JsonValue) : List String :=
  match value with
  | .null => []
  | .str text => if text = "" then [] else [text]
  | value => [value.pyStr repr]

def itemReference (value : JsonValue) : List String :=
  match value with
  | .arr _ => []
  | .obj _ => []
  | value => scalarReference repr value

def memberReferences (key : String) (child : JsonValue) : List String :=
  if key ∈ scalarFields then scalarReference repr child
  else if key ∈ listFields then
    match child with
    | .arr items => items.flatMap (itemReference repr)
    | _ => []
  else []

mutual

/-- `visit`. -/
def references : JsonValue → List String
  | .obj fields => fieldReferences fields
  | .arr items => itemsReferences items
  | _ => []

def fieldReferences : Payload → List String
  | [] => []
  | (key, child) :: rest => memberReferences repr key child ++ references child ++ fieldReferences rest

def itemsReferences : List JsonValue → List String
  | [] => []
  | child :: rest => references child ++ itemsReferences rest

end

def payloadReferenceIds (payload : Payload) : List String := fieldReferences repr payload

/-! ### Records -/

structure Record where
  collection : Collection
  payload : Payload

abbrev Target := Collection × String

def Record.id (record : Record) : String := textOf repr record.payload "id"

def Record.key (record : Record) : Target := (record.collection, record.id repr)

def inCollections (records : List Record) : List Record :=
  structuredCollections.flatMap fun collection => records.filter fun record => record.collection = collection

theorem mem_inCollections {records : List Record} {record : Record} : record ∈ inCollections records ↔ record ∈ records := by
  unfold inCollections
  rw [List.mem_flatMap]
  constructor
  · intro ⟨collection, _, inside⟩
    exact (List.mem_filter.mp inside).1
  · intro member
    exact ⟨record.collection, mem_structuredCollections _, List.mem_filter.mpr ⟨member, decide_eq_true rfl⟩⟩

def Eligible (projectName : String) (record : Record) : Prop :=
  record.id repr ≠ "" ∧ textOf repr record.payload "project_name" = projectName

def Names (evidence : Evidence) (record : Record) : Prop :=
  isDirectlyLinked repr evidence record.payload = true ∨ ∃ ref ∈ payloadReferenceIds repr record.payload, ref ∈ evidence.ids

def Joins (projectName : String) (evidence : Evidence) (seedEntityIds : List String) (selected : List Target)
    (record : Record) : Prop :=
  Eligible repr projectName record ∧ (Names repr evidence record ∨
    ∃ ref ∈ payloadReferenceIds repr record.payload, ref ∈ seedEntityIds ∨ ref ∈ selected.map Prod.snd)

instance (projectName : String) (record : Record) : Decidable (Eligible repr projectName record) :=
  inferInstanceAs (Decidable (_ ∧ _))

instance (evidence : Evidence) (record : Record) : Decidable (Names repr evidence record) := inferInstanceAs (Decidable (_ ∨ _))

instance (projectName : String) (evidence : Evidence) (seedEntityIds : List String) (selected : List Target) (record : Record) :
    Decidable (Joins repr projectName evidence seedEntityIds selected record) := inferInstanceAs (Decidable (_ ∧ _))

def linkedStructuredRecords (records : List Record) (projectName : String) (evidence : Evidence) (preselected : List Target)
    (seedEntityIds : List String) : List Target :=
  saturate (Record.key repr) (Joins repr projectName evidence seedEntityIds) (inCollections records) preselected

def namedSessions (payload : Payload) : List String :=
  [textOf repr payload "session_id", textOf repr payload "source_session_id"] ++
    (provenance? payload).toList.map fun provenance => textOf repr provenance "session_id"

def namedObservations (payload : Payload) : List String :=
  textOf repr payload "source" :: (provenance? payload).toList.flatMap (provenanceRefs repr)

variable {repr}

theorem isDirectlyLinked_iff {evidence : Evidence} {payload : Payload} : isDirectlyLinked repr evidence payload = true ↔
    textOf repr payload "distill_job_id" ∈ evidence.jobIds ∨ (∃ id ∈ namedSessions repr payload, id ∈ evidence.sessionIds) ∨
      ∃ id ∈ namedObservations repr payload, id ∈ evidence.observationIds := by
  unfold isDirectlyLinked namedSessions namedObservations
  cases provenance? payload with
  | none =>
    simp
    tauto
  | some provenance =>
    simp
    tauto

theorem Names.mono {first second : Evidence} {record : Record} (jobs : ∀ id ∈ first.jobIds, id ∈ second.jobIds)
    (sessions : ∀ id ∈ first.sessionIds, id ∈ second.sessionIds)
    (observations : ∀ id ∈ first.observationIds, id ∈ second.observationIds) (names : Names repr first record) :
    Names repr second record := by
  cases names with
  | inl direct =>
    apply Or.inl
    rw [isDirectlyLinked_iff] at *
    rcases direct with job | ⟨id, named, inside⟩ | ⟨id, named, inside⟩
    · exact .inl (jobs _ job)
    · exact .inr (.inl ⟨id, named, sessions id inside⟩)
    · exact .inr (.inr ⟨id, named, observations id inside⟩)
  | inr refers =>
    obtain ⟨ref, member, inside⟩ := refers
    refine .inr ⟨ref, member, ?_⟩
    unfold Evidence.ids at *
    rw [List.mem_append, List.mem_append] at *
    exact inside.imp (Or.imp (jobs ref) (sessions ref)) (observations ref)

theorem Names.sessions_or {evidence : Evidence} {record : Record} (names : Names repr evidence record) :
    Names repr ⟨[], evidence.sessionIds, []⟩ record ∨ Names repr ⟨evidence.jobIds, [], evidence.observationIds⟩ record := by
  cases names with
  | inl direct =>
    rcases isDirectlyLinked_iff.mp direct with job | session | observation
    · exact .inr (.inl (isDirectlyLinked_iff.mpr (.inl job)))
    · exact .inl (.inl (isDirectlyLinked_iff.mpr (.inr (.inl session))))
    · exact .inr (.inl (isDirectlyLinked_iff.mpr (.inr (.inr observation))))
  | inr refers =>
    obtain ⟨ref, member, inside⟩ := refers
    unfold Evidence.ids at inside
    rw [List.mem_append, List.mem_append] at inside
    rcases inside with (job | session) | observation
    · exact .inr (.inr ⟨ref, member, List.mem_append_left _ (List.mem_append_left _ job)⟩)
    · exact .inl (.inr ⟨ref, member, List.mem_append_left _ (List.mem_append_right _ session)⟩)
    · exact .inr (.inr ⟨ref, member, List.mem_append_right _ observation⟩)

variable (repr)

/-! ### What is linked -/

/-- The records that a chain of references ties to the evidence. -/
inductive Linked (records : List Record) (projectName : String) (evidence : Evidence) : Record → Prop where
  | named {record : Record} (member : record ∈ records) (eligible : Eligible repr projectName record)
      (names : Names repr evidence record) : Linked records projectName evidence record
  | through {record other : Record} (member : record ∈ records) (eligible : Eligible repr projectName record)
      (before : Linked records projectName evidence other) (refers : other.id repr ∈ payloadReferenceIds repr record.payload) :
      Linked records projectName evidence record

variable {repr} {records : List Record} {projectName : String} {evidence : Evidence}

theorem Linked.member {record : Record} (linked : Linked repr records projectName evidence record) : record ∈ records := by
  cases linked with
  | named member _ _ => exact member
  | through member _ _ _ => exact member

theorem mem_linkedStructuredRecords {target : Target} :
    target ∈ linkedStructuredRecords repr records projectName evidence [] [] ↔
      ∃ record, Linked repr records projectName evidence record ∧ record.key repr = target := by
  constructor
  · apply saturate_induction (motive := fun target => ∃ record, Linked repr records projectName evidence record ∧
      record.key repr = target) _ (fun _ none => absurd none List.not_mem_nil)
    intro selected before record member ⟨eligible, names⟩
    rw [mem_inCollections] at member
    refine ⟨record, ?_, rfl⟩
    rcases names with names | ⟨ref, refers, seed | chosen⟩
    · exact .named member eligible names
    · cases seed
    · obtain ⟨target, inside, rfl⟩ := List.mem_map.mp chosen
      obtain ⟨other, linked, rfl⟩ := before target inside
      exact .through member eligible linked refers
  · rintro ⟨record, linked, rfl⟩
    have closed : Closed (Record.key repr) (Joins repr projectName evidence []) (inCollections records) _ := closed_saturate _ []
    induction linked with
    | named member eligible names => exact closed _ (mem_inCollections.mpr member) ⟨eligible, .inl names⟩
    | @through record other member eligible _ refers ih =>
      refine closed _ (mem_inCollections.mpr member) ⟨eligible, .inr ⟨_, refers, .inr ?_⟩⟩
      exact List.mem_map.mpr ⟨_, ih, rfl⟩

end HarnessMem.Erasure

/-! The closure of an erasure: whatever the order in which collections and payloads are read, the loop ends,
and what it selects is the least selection that nothing is linked to any more.
-/

namespace HarnessMem.Erasure

open Library

variable (repr : Repr)

def scanned (order : List Collection) (records : List Record) : List Record :=
  order.flatMap fun collection => records.filter fun record => record.collection = collection

def selectedLists (selected : List Target) : List (Collection × List String) :=
  structuredCollections.filterMap fun collection =>
    let ids := ((selected.filter fun target => target.1 = collection).map (·.2)).toFinset.sort (· ≤ ·)
    if ids = [] then none else some (collection, ids)

theorem selectedLists_congr {first second : List Target} (same : ∀ target, target ∈ first ↔ target ∈ second) :
    selectedLists first = selectedLists second := by
  unfold selectedLists
  refine List.filterMap_congr fun collection _ => ?_
  have ids : ((first.filter fun target => target.1 = collection).map (·.2)).toFinset =
      ((second.filter fun target => target.1 = collection).map (·.2)).toFinset := by
    ext id
    simp only [List.mem_toFinset, List.mem_map, List.mem_filter, same]
  rw [ids]

/-- A record of the project is linked, given which targets are selected: directly, or by a reference to one of the
identifiers of the evidence, a seed or a selected record. -/
def Meets (projectName : String) (evidence : Evidence) (seedEntityIds : List String) (selection : Set Target) (record : Record) : Prop :=
  Eligible repr projectName record ∧ (isDirectlyLinked repr evidence record.payload = true ∨
    ∃ ref ∈ payloadReferenceIds repr record.payload, ref ∈ evidence.ids ∨ ref ∈ seedEntityIds ∨ ∃ target ∈ selection, target.2 = ref)

variable {repr} {projectName : String} {evidence : Evidence} {seedEntityIds : List String}

theorem joins_iff_meets (selected : List Target) (record : Record) : Joins repr projectName evidence seedEntityIds selected record ↔
    Meets repr projectName evidence seedEntityIds {target | target ∈ selected} record := by
  unfold Joins Meets Names
  refine and_congr_right fun _ => ?_
  rw [or_assoc]
  refine or_congr_right ?_
  rw [← exists_or]
  refine exists_congr fun ref => ?_
  rw [← and_or_left, List.mem_map]
  rfl

theorem Meets.mono {first second : Set Target} {record : Record} (larger : first ⊆ second)
    (meet : Meets repr projectName evidence seedEntityIds first record) : Meets repr projectName evidence seedEntityIds second record := by
  obtain ⟨eligible, linked⟩ := meet
  refine ⟨eligible, ?_⟩
  rcases linked with direct | ⟨ref, inside, known | seed | ⟨target, there, same⟩⟩
  · exact .inl direct
  · exact .inr ⟨ref, inside, .inl known⟩
  · exact .inr ⟨ref, inside, .inr (.inl seed)⟩
  · exact .inr ⟨ref, inside, .inr (.inr ⟨target, larger there, same⟩)⟩

theorem mem_scanned {order : List Collection} {records : List Record} (all : ∀ collection, collection ∈ order) {record : Record} :
    record ∈ scanned order records ↔ record ∈ records := by
  unfold scanned
  rw [List.mem_flatMap]
  constructor
  · rintro ⟨collection, -, inside⟩
    exact (List.mem_filter.mp inside).1
  · intro member
    exact ⟨record.collection, all _, List.mem_filter.mpr ⟨member, decide_eq_true rfl⟩⟩

theorem isLeast_linked {order : List Collection} {listing records : List Record} (all : ∀ collection, collection ∈ order)
    (same : ∀ record, record ∈ listing ↔ record ∈ records) (preselected : List Target) :
    IsLeast {selection : Set Target | (∀ target ∈ preselected, target ∈ selection) ∧
        ∀ record ∈ records, Meets repr projectName evidence seedEntityIds selection record → record.key repr ∈ selection}
      {target | target ∈ saturate (Record.key repr) (Joins repr projectName evidence seedEntityIds) (scanned order listing) preselected} := by
  have least := @isLeast_saturate _ _ _ (Record.key repr) (Joins repr projectName evidence seedEntityIds) _
    (Meets repr projectName evidence seedEntityIds) joins_iff_meets Meets.mono (scanned order listing) preselected
  simp only [mem_scanned all, same] at least
  exact least

/-- Reading the collections and their payloads in any order, the loop ends; what it returns is the same, and what it has
selected is the least selection that holds what was selected before and every record of the project that is linked to it. So no
record of the project that is left refers to one that is selected. -/
theorem linkedStructuredRecords_least (records : List Record) (preselected : List Target) {order : List Collection}
    {listing : List Record} (orders : order.Perm structuredCollections) (same : listing.Perm records) :
    ∃ selected, Settles (Record.key repr) (Joins repr projectName evidence seedEntityIds) (scanned order listing) preselected selected ∧
      selectedLists selected = selectedLists (linkedStructuredRecords repr records projectName evidence preselected seedEntityIds) ∧
      IsLeast {selection : Set Target | (∀ target ∈ preselected, target ∈ selection) ∧
        ∀ record ∈ records, Meets repr projectName evidence seedEntityIds selection record → record.key repr ∈ selection}
        {target | target ∈ selected} ∧
      ∀ record ∈ records, Eligible repr projectName record → record.key repr ∉ selected →
        ∀ target ∈ selected, target.2 ∉ payloadReferenceIds repr record.payload := by
  have all : ∀ collection, collection ∈ order := fun collection => orders.mem_iff.mpr (mem_structuredCollections collection)
  have least := @isLeast_linked repr projectName evidence seedEntityIds order listing records all (fun record => same.mem_iff) preselected
  have standard := @isLeast_linked repr projectName evidence seedEntityIds structuredCollections records records
    mem_structuredCollections (fun _ => Iff.rfl) preselected
  refine ⟨_, settles_saturate _ _, selectedLists_congr fun target => ?_, least, fun record member eligible left target inside refers => ?_⟩
  · exact Set.ext_iff.mp (least.unique standard) target
  · exact left (least.1.2 record member ⟨eligible, .inr ⟨target.2, refers, .inr (.inr ⟨target, inside, rfl⟩)⟩⟩)

def citing : List Record :=
  [⟨.skills, [("id", .str "s1"), ("project_name", .str "p"), ("supersedes", .arr [.str "r1"])]⟩,
    ⟨.ruleCandidates, [("id", .str "r1"), ("project_name", .str "p"), ("distill_job_id", .str "j1")]⟩]

theorem linkedStructuredRecords_least_citing :
    ∃ selected, Settles (Record.key fun _ => "") (Joins (fun _ => "") "p" ⟨["j1"], [], []⟩ []) (scanned structuredCollections.reverse citing.reverse)
        [] selected ∧
      selectedLists selected = [(.ruleCandidates, ["r1"]), (.skills, ["s1"])] := by
  obtain ⟨selected, ends, lists, -⟩ := @linkedStructuredRecords_least (fun _ => "") "p" ⟨["j1"], [], []⟩ [] citing [] _ _
    (List.reverse_perm _) (List.reverse_perm _)
  refine ⟨selected, ends, lists.trans ?_⟩
  decide +kernel

def unnamed : Record := ⟨.ruleCandidates, [("project_name", .str "p"), ("session_id", .str "s1")]⟩

/-- A payload without an id is selected by nothing, whatever it refers to. -/
theorem unnamed_is_left : ¬ ∀ (repr : Repr) (projectName : String) (evidence : Evidence) (seedEntityIds : List String)
    (records : List Record) (preselected selected : List Target),
    Settles (Record.key repr) (Joins repr projectName evidence seedEntityIds) (scanned structuredCollections records) preselected selected →
      IsLeast {selection : Set Target | (∀ target ∈ preselected, target ∈ selection) ∧ ∀ record ∈ records,
        textOf repr record.payload "project_name" = projectName →
          (isDirectlyLinked repr evidence record.payload = true ∨ ∃ ref ∈ payloadReferenceIds repr record.payload,
            ref ∈ evidence.ids ∨ ref ∈ seedEntityIds ∨ ∃ target ∈ selection, target.2 = ref) → record.key repr ∈ selection}
        {target | target ∈ selected} := by
  intro all
  have ends : Settles (Record.key fun _ => "") (Joins (fun _ => "") "p" ⟨[], ["s1"], []⟩ []) (scanned structuredCollections [unnamed]) [] [] :=
    .last (by decide +kernel)
  have closed := (all _ _ _ _ _ _ _ ends).1.2 unnamed List.mem_cons_self (by decide +kernel) (.inl (by decide +kernel))
  exact absurd closed List.not_mem_nil

end HarnessMem.Erasure
