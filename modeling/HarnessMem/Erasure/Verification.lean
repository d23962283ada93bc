import HarnessMem.Erasure.HardDelete
import HarnessMem.Storage.Operations

/-! What verification finds after an erasure: a record that names the session is counted
although the plan left it, unless the session was erased as a whole.
-/

set_option autoImplicit false

namespace HarnessMem.Erasure

open Library Storage

/-! ### The ledger -/

/-- What of the selected revisions is left. -/
structure Gone (keys : List (String × String)) (before after : Ledger) : Prop where
  revisions : ∀ row ∈ after.revisions.rows, row ∈ before.revisions.rows ∧ row.key ∉ keys
  jobs : ∀ job ∈ after.jobs.rows, job ∈ before.jobs.rows ∧ (job.sourceId, job.sourceRevision) ∉ keys
  chunks : ∀ chunk ∈ after.chunks.rows, chunk ∈ before.chunks.rows ∧ (chunk.sourceId, chunk.sourceRevision) ∉ keys
  projections : ∀ row ∈ after.projections.rows, row ∈ before.projections.rows ∧ (row.sourceId, row.sourceRevision) ∉ keys
  sources : ∀ source ∈ after.sources.rows, ∃ old ∈ before.sources.rows,
    old.id = source.id ∧ old.projectName = source.projectName ∧ old.sessionId = source.sessionId

theorem Gone.refl (ledger : Ledger) : Gone [] ledger ledger where
  revisions _ member := ⟨member, List.not_mem_nil⟩
  jobs _ member := ⟨member, List.not_mem_nil⟩
  chunks _ member := ⟨member, List.not_mem_nil⟩
  projections _ member := ⟨member, List.not_mem_nil⟩
  sources source member := ⟨source, member, rfl, rfl, rfl⟩

theorem Gone.trans {first second : List (String × String)} {before middle after : Ledger} (earlier : Gone first before middle)
    (later : Gone second middle after) : Gone (first ++ second) before after where
  revisions row member :=
    have ⟨kept, apart⟩ := later.revisions row member
    have ⟨old, away⟩ := earlier.revisions row kept
    ⟨old, fun inside => (List.mem_append.mp inside).elim away apart⟩
  jobs job member :=
    have ⟨kept, apart⟩ := later.jobs job member
    have ⟨old, away⟩ := earlier.jobs job kept
    ⟨old, fun inside => (List.mem_append.mp inside).elim away apart⟩
  chunks chunk member :=
    have ⟨kept, apart⟩ := later.chunks chunk member
    have ⟨old, away⟩ := earlier.chunks chunk kept
    ⟨old, fun inside => (List.mem_append.mp inside).elim away apart⟩
  projections row member :=
    have ⟨kept, apart⟩ := later.projections row member
    have ⟨old, away⟩ := earlier.projections row kept
    ⟨old, fun inside => (List.mem_append.mp inside).elim away apart⟩
  sources source member := by
    obtain ⟨middle, kept, id, project, session⟩ := later.sources source member
    obtain ⟨old, inside, id', project', session'⟩ := earlier.sources middle kept
    exact ⟨old, inside, id'.trans id, project'.trans project, session'.trans session⟩

theorem gone_eraseRevision {before after : Ledger} {sourceId sourceRevision : String} {counts : DeletionCounts}
    (ran : before.eraseRevision sourceId sourceRevision = .ok (counts, after)) :
    Gone [(sourceId, sourceRevision)] before after := by
  unfold Ledger.eraseRevision at ran
  dsimp only at ran
  split at ran
  · cases ran
  · cases ran
    constructor
    · intro row member
      have kept := List.mem_filter.mp member
      exact ⟨kept.1, by simpa using kept.2⟩
    · intro job member
      have kept := List.mem_filter.mp member
      exact ⟨kept.1, by simpa [imp_iff_not_or] using kept.2⟩
    · intro chunk member
      have kept := List.mem_filter.mp member
      exact ⟨kept.1, by simpa [imp_iff_not_or] using kept.2⟩
    · intro row member
      have kept := List.mem_filter.mp member
      exact ⟨kept.1, by simpa [imp_iff_not_or] using kept.2⟩
    · intro source member
      exact ⟨source, member, rfl, rfl, rfl⟩

theorem gone_eraseRevisions {before after : Ledger} {keys : List (String × String)} {counts : DeletionCounts}
    (ran : before.eraseRevisions keys = .ok (counts, after)) : Gone keys before after := by
  induction keys generalizing before counts with
  | nil =>
    cases ran
    exact .refl _
  | cons key rest ih =>
    unfold Ledger.eraseRevisions at ran
    split at ran
    · cases ran
    · next step =>
      split at ran
      · cases ran
      · next others =>
        cases ran
        exact (gone_eraseRevision step).trans (ih others)

theorem gone_restoreSource {before after : Ledger} {scan : Scan RevisionRow} {sourceId : String} {now : Time} {dropped : Nat}
    (ran : before.restoreSource scan sourceId now = .ok (dropped, after)) : Gone [] before after := by
  unfold Ledger.restoreSource at ran
  split at ran
  · cases ran
    exact { Gone.refl before with
      sources := fun source member => ⟨source, (List.mem_filter.mp member).1, rfl, rfl, rfl⟩ }
  · next row _ =>
    split at ran
    · cases ran
      exact .refl _
    · next source found =>
      split at ran
      · cases ran
      · next written =>
        cases ran
        unfold Ledger.upsertSourceLocked at written
        split at written
        · cases written
        · cases written
          refine { Gone.refl before with sources := ?_ }
          intro other member
          cases (before.sources.mem_upsert _ other).mp member with
          | inl same => exact ⟨source, Table.mem_of_get? found, by rw [same]; rfl, by rw [same]; rfl, by rw [same]; rfl⟩
          | inr kept => exact ⟨other, kept.1, rfl, rfl, rfl⟩

theorem gone_restoreSources {before after : Ledger} {scan : Scan RevisionRow} {sourceIds : List String} {now : Time}
    {dropped : Nat} (ran : before.restoreSources scan now sourceIds = .ok (dropped, after)) : Gone [] before after := by
  induction sourceIds generalizing before dropped with
  | nil =>
    cases ran
    exact .refl _
  | cons sourceId rest ih =>
    unfold Ledger.restoreSources at ran
    split at ran
    · cases ran
    · next step =>
      split at ran
      · cases ran
      · next others =>
        cases ran
        exact (gone_restoreSource step).trans (ih others)

theorem gone_hardDeleteRevisions {hashes : Hashes} {before after : Ledger} {scan : Scan RevisionRow} {deletion : HardDelete}
    {freshId : String} {now : Time} {audit : Dict}
    (ran : before.hardDeleteRevisions hashes scan deletion freshId now = .ok (audit, after)) :
    Gone deletion.revisionKeys before after := by
  unfold Ledger.hardDeleteRevisions at ran
  dsimp only at ran
  split at ran
  · cases ran
  · next erased =>
    split at ran
    · cases ran
    · next restored =>
      cases ran
      have both := (gone_eraseRevisions erased).trans (gone_restoreSources restored)
      rw [List.append_nil] at both
      have same : ∀ key, key ∈ deletion.revisionKeys.eraseDups ↔ key ∈ deletion.revisionKeys := fun key => List.mem_eraseDups
      exact {
        revisions := fun row member => ⟨(both.revisions row member).1, fun inside => (both.revisions row member).2 ((same _).mpr inside)⟩
        jobs := fun job member => ⟨(both.jobs job member).1, fun inside => (both.jobs job member).2 ((same _).mpr inside)⟩
        chunks := fun chunk member => ⟨(both.chunks chunk member).1, fun inside => (both.chunks chunk member).2 ((same _).mpr inside)⟩
        projections := fun row member =>
          ⟨(both.projections row member).1, fun inside => (both.projections row member).2 ((same _).mpr inside)⟩
        sources := both.sources }

/-! ### The stores -/

variable {repr : Repr}

theorem filter_notMem_cons {α β : Type} [BEq β] [LawfulBEq β] [DecidableEq β] (name : α → β) (items : List α) (first : β) (rest : List β) :
    (items.filter fun item => name item ≠ first).filter (fun item => name item ∉ rest) =
      items.filter fun item => name item ∉ first :: rest := by
  rw [List.filter_filter]
  apply List.filter_congr
  intro item _
  simp [Bool.and_comm]

theorem foldl_deleteRecord (backend : Backend repr) (targets : List Target) :
    let after := targets.foldl Backend.deleteRecord backend
    after.ledger = backend.ledger ∧ after.observations = backend.observations ∧
      after.records.rows = backend.records.rows.filter (fun record => record.key repr ∉ targets) ∧
      after.index = { backend.index with
        entities := backend.index.entities.filter (· ∉ targets)
        structuredEmbeddings := backend.index.structuredEmbeddings.filter (· ∉ targets.map Prod.snd) } := by
  induction targets generalizing backend with
  | nil => simp
  | cons target rest ih =>
    obtain ⟨ledger, observations, records, index⟩ := ih (backend.deleteRecord target)
    refine ⟨ledger, observations, records.trans (filter_notMem_cons _ _ _ _), index.trans ?_⟩
    have entities := filter_notMem_cons id backend.index.entities target rest
    have embeddings := filter_notMem_cons id backend.index.structuredEmbeddings target.2 (rest.map Prod.snd)
    unfold Backend.deleteRecord
    dsimp only [id] at *
    rw [entities, embeddings, List.map_cons]

theorem foldl_deleteObservation (backend : Backend repr) (ids : List String) :
    let after := ids.foldl Backend.deleteObservation backend
    after.ledger = backend.ledger ∧ after.records = backend.records ∧
      after.observations.rows = backend.observations.rows.filter (fun payload => textOf repr payload "id" ∉ ids) ∧
      after.index = { backend.index with
        observations := backend.index.observations.filter (· ∉ ids)
        verbatimEmbeddings := backend.index.verbatimEmbeddings.filter (· ∉ ids)
        observationTrigrams := backend.index.observationTrigrams.filter (· ∉ ids) } := by
  induction ids generalizing backend with
  | nil => simp
  | cons observationId rest ih =>
    obtain ⟨ledger, records, observations, index⟩ := ih (backend.deleteObservation observationId)
    refine ⟨ledger, records, observations.trans (filter_notMem_cons _ _ _ _), index.trans ?_⟩
    have rows := fun names : List String => filter_notMem_cons id names observationId rest
    unfold Backend.deleteObservation
    dsimp only [id] at *
    rw [rows, rows, rows]

/-- A backend after the execution of a plan. -/
structure Erased (plan : Plan) (before after : Backend repr) : Prop where
  ledger : Gone plan.ledger.revisionKeys before.ledger after.ledger
  observations : after.observations.rows = before.observations.rows.filter fun payload => textOf repr payload "id" ∉ plan.observationIds
  records : after.records.rows = before.records.rows.filter fun record => record.key repr ∉ plan.targets
  index : after.index = {
    observations := before.index.observations.filter (· ∉ plan.observationIds)
    verbatimEmbeddings := before.index.verbatimEmbeddings.filter (· ∉ plan.observationIds)
    observationTrigrams := before.index.observationTrigrams.filter (· ∉ plan.observationIds)
    entities := before.index.entities.filter (· ∉ plan.targets)
    structuredEmbeddings := before.index.structuredEmbeddings.filter (· ∉ plan.targets.map Prod.snd) }

/-! ### A plan after the execution of the first -/

variable {selector : Selector} {scan : Scan RevisionRow}

theorem mem_revisions {ledger : Ledger} {row : RevisionRow} :
    row ∈ selector.revisions ledger scan ↔ row ∈ ledger.revisions.rows ∧ selector.selects ledger row = true := by
  unfold Selector.revisions
  rw [List.mem_insertionSort, scan.mem_order, List.mem_filter]

theorem selects_of_gone {keys : List (String × String)} {before after : Ledger} (gone : Gone keys before after)
    {row : RevisionRow} (selected : selector.selects after row = true) : selector.selects before row = true := by
  unfold Selector.selects at *
  cases found : after.getSource row.sourceId with
  | none =>
    rw [found] at selected
    cases selected
  | some source =>
    rw [found] at selected
    obtain ⟨old, member, id, project, session⟩ := gone.sources source (Table.mem_of_get? found)
    have first : before.getSource row.sourceId = some old :=
      (Table.get?_eq_some _ _ _).mpr ⟨member, id.trans (Table.key_of_get? found)⟩
    rw [first]
    dsimp only at *
    rw [project, session]
    exact selected

theorem revisions_after {before after : Ledger} (gone : Gone (planLedger before scan selector).revisionKeys before after) :
    selector.revisions after scan = [] := by
  apply List.eq_nil_iff_forall_not_mem.mpr
  intro row member
  have ⟨kept, selected⟩ := mem_revisions.mp member
  have ⟨old, apart⟩ := gone.revisions row kept
  exact apart (List.mem_map_of_mem (mem_revisions.mpr ⟨old, selects_of_gone gone selected⟩))

theorem planLedger_of_none {ledger : Ledger} (none : selector.revisions ledger scan = []) :
    planLedger ledger scan selector = ⟨[], [], [], [], 0, 0⟩ := by
  unfold planLedger
  rw [none]
  rfl

def evidenceOf (backend : Backend repr) (scan : Scan RevisionRow) (selector : Selector) : Evidence :=
  selector.evidence backend (planLedger backend.ledger scan selector)

/-- The plan that was executed, and the backend before and after. -/
structure Executed (scan : Scan RevisionRow) (selector : Selector) (plan : Plan) (before after : Backend repr) : Prop where
  planned : plan = planHardDelete before scan selector
  erased : Erased plan before after

def verifiedEvidence (selector : Selector) (plan : Plan) : Evidence where
  jobIds := sortedSet plan.ledger.jobIds
  sessionIds := selector.sessionId.toList
  observationIds := plan.observationIds.dedup

def verifiedTargets (backend : Backend repr) (selector : Selector) (plan : Plan) : List Target :=
  linkedStructuredRecords repr backend.records.rows selector.projectName (verifiedEvidence selector plan) []
    (plan.observationIds.dedup ++ sortedSet plan.ledger.jobIds ++ plan.targets.dedup.map Prod.snd)

namespace Executed

variable {plan : Plan} {before after : Backend repr} (executed : Executed scan selector plan before after)

include executed

theorem ledger : planLedger after.ledger scan selector = ⟨[], [], [], [], 0, 0⟩ := by
  apply planLedger_of_none
  refine @revisions_after selector scan before.ledger after.ledger ?_
  have gone := executed.erased.ledger
  rw [executed.planned] at gone
  exact gone

theorem fallback {session : String} (inside : session ∈ selector.sessionFallbackIds (planLedger after.ledger scan selector)) :
    session ∈ selector.sessionFallbackIds plan.ledger := by
  rw [executed.ledger] at inside
  unfold Selector.sessionFallbackIds at *
  split at inside
  · next whole =>
    rw [if_pos whole]
    exact List.mem_append_right _ inside
  · cases inside

theorem observations : plannedObservations after selector (planLedger after.ledger scan selector) = [] := by
  apply List.eq_nil_iff_forall_not_mem.mpr
  intro observationId member
  unfold plannedObservations at member
  rw [mem_sortedSet] at member
  obtain ⟨fields, inside, rfl⟩ := List.mem_map.mp member
  obtain ⟨listed, selected⟩ := List.mem_filter.mp inside
  obtain ⟨payload, stored, rfl⟩ := List.mem_map.mp listed
  rw [executed.erased.observations] at stored
  obtain ⟨old, apart⟩ := List.mem_filter.mp stored
  apply of_decide_eq_true apart
  rw [executed.planned]
  change _ ∈ sortedSet _
  rw [mem_sortedSet]
  refine List.mem_map.mpr ⟨observationFields repr payload, List.mem_filter.mpr ⟨List.mem_map_of_mem old, ?_⟩, rfl⟩
  unfold Selector.selectsObservation at *
  rw [Bool.and_eq_true] at selected ⊢
  refine ⟨selected.1, ?_⟩
  rw [Bool.or_eq_true] at *
  right
  cases selected.2 with
  | inl revision =>
    rw [executed.ledger] at revision
    simp at revision
  | inr session =>
    rw [Bool.and_eq_true] at session ⊢
    refine ⟨decide_eq_true ?_, session.2⟩
    have known := executed.fallback (of_decide_eq_true session.1)
    rw [executed.planned] at known
    exact known

theorem left {record : Record} (member : record ∈ after.records.rows) : record ∈ before.records.rows ∧
    ¬ Linked repr before.records.rows selector.projectName (evidenceOf before scan selector) record := by
  rw [executed.erased.records] at member
  obtain ⟨old, apart⟩ := List.mem_filter.mp member
  refine ⟨old, fun linked => of_decide_eq_true apart ?_⟩
  rw [executed.planned]
  exact mem_linkedStructuredRecords.mpr ⟨record, linked, rfl⟩

theorem evidence_mono : ∀ id ∈ (evidenceOf after scan selector).ids, id ∈ (evidenceOf before scan selector).sessionIds := by
  intro id member
  unfold Evidence.ids evidenceOf Selector.evidence at member
  rw [executed.observations] at member
  have session : id ∈ selector.sessionFallbackIds (planLedger after.ledger scan selector) := by
    rw [executed.ledger] at *
    simpa using member
  have known := executed.fallback session
  rw [executed.planned] at known
  exact known

theorem targets : linkedStructuredRecords repr after.records.rows selector.projectName (evidenceOf after scan selector) [] [] = [] := by
  apply List.eq_nil_iff_forall_not_mem.mpr
  intro target member
  obtain ⟨record, linked, -⟩ := mem_linkedStructuredRecords.mp member
  induction linked with
  | @named record member eligible names =>
    have ⟨old, apart⟩ := executed.left member
    apply apart
    refine .named old eligible (Names.mono ?_ ?_ ?_ names)
    · intro id inside
      unfold evidenceOf Selector.evidence at inside
      rw [executed.ledger] at inside
      cases inside
    · intro id inside
      apply executed.evidence_mono
      unfold Evidence.ids
      rw [List.mem_append, List.mem_append]
      exact .inl (.inr inside)
    · intro id inside
      unfold evidenceOf Selector.evidence at inside
      rw [executed.observations] at inside
      cases inside
  | through _ _ _ _ ih => exact ih

theorem residual : planHardDelete after scan selector =
    { ledger := ⟨[], [], [], [], 0, 0⟩
      observationIds := []
      targets := []
      indexCounts := countIndexArtifacts after.index [] [] } := by
  have observations := executed.observations
  have targets := executed.targets
  unfold planHardDelete
  unfold evidenceOf at targets
  unfold Selector.evidence at *
  dsimp only at *
  rw [observations] at *
  rw [targets, executed.ledger]

/-- The linked records that verification finds. -/
theorem verified_targets : verifiedTargets after selector plan = [] ↔
    ∀ session, selector.sessionId = some session → ∀ record ∈ before.records.rows, Eligible repr selector.projectName record →
      Names repr ⟨[], [session], []⟩ record →
        Linked repr before.records.rows selector.projectName (evidenceOf before scan selector) record := by
  have empty : verifiedTargets after selector plan = [] ↔
      ∀ record ∈ after.records.rows, ¬ Joins repr selector.projectName (verifiedEvidence selector plan)
        (plan.observationIds.dedup ++ sortedSet plan.ledger.jobIds ++ plan.targets.dedup.map Prod.snd) [] record := by
    constructor
    · intro none record member joins
      have closed := @closed_saturate _ _ _ (Record.key repr) (Joins repr selector.projectName (verifiedEvidence selector plan)
        (plan.observationIds.dedup ++ sortedSet plan.ledger.jobIds ++ plan.targets.dedup.map Prod.snd)) _
        (inCollections after.records.rows) []
      have inside := closed record (mem_inCollections.mpr member)
      unfold verifiedTargets linkedStructuredRecords at none
      rw [none] at inside
      exact absurd (inside joins) List.not_mem_nil
    · intro none
      exact saturate_of_closed fun record member joins => absurd joins (none record (mem_inCollections.mp member))
  rw [empty]
  constructor
  · intro none session given record member eligible names
    by_contra unlinked
    have kept : record ∈ after.records.rows := by
      rw [executed.erased.records]
      refine List.mem_filter.mpr ⟨member, decide_eq_true fun target => unlinked ?_⟩
      rw [executed.planned] at target
      obtain ⟨other, linked, same⟩ := mem_linkedStructuredRecords.mp target
      rwa [before.records.eq_of_key linked.member member same] at linked
    apply none record kept
    refine ⟨eligible, .inl (names.mono (List.forall_mem_nil _) ?_ (List.forall_mem_nil _))⟩
    intro id inside
    unfold verifiedEvidence
    rw [given]
    exact inside
  · intro linked record member ⟨eligible, joins⟩
    have ⟨old, unlinked⟩ := executed.left member
    -- what is not the session was evidence of the plan
    have evidence : ¬ Names repr ⟨plan.ledger.jobIds, [], plan.observationIds⟩ record := by
      intro names
      rw [executed.planned] at names
      refine unlinked (.named old eligible (names.mono ?_ (List.forall_mem_nil _) ?_))
      · exact fun _ job => job
      · exact fun _ observation => observation
    rcases joins with names | ⟨ref, refers, inside | chosen⟩
    · cases names.sessions_or with
      | inl session =>
        cases given : selector.sessionId with
        | none =>
          unfold verifiedEvidence at session
          rw [given] at session
          exact evidence (session.mono (List.forall_mem_nil _) (List.forall_mem_nil _) (List.forall_mem_nil _))
        | some value =>
          unfold verifiedEvidence at session
          rw [given] at session
          exact unlinked (linked value given record old eligible session)
      | inr rest =>
        apply evidence
        refine rest.mono (fun id job => ?_) (List.forall_mem_nil _) (fun id observation => ?_)
        · exact mem_sortedSet.mp job
        · exact List.mem_dedup.mp observation
    · rw [List.mem_append, List.mem_append] at inside
      rcases inside with (observation | job) | target
      · exact evidence (.inr ⟨ref, refers, List.mem_append_right _ (List.mem_dedup.mp observation)⟩)
      · exact evidence (.inr ⟨ref, refers, List.mem_append_left _ (List.mem_append_left _ (mem_sortedSet.mp job))⟩)
      · obtain ⟨target, known, rfl⟩ := List.mem_map.mp target
        rw [List.mem_dedup, executed.planned] at known
        obtain ⟨other, before, rfl⟩ := mem_linkedStructuredRecords.mp known
        exact unlinked (.through old eligible before refers)
    · cases chosen

/-- Nothing of the ledger and no observation is left, so what verification counts is records and rows of the indexes. -/
theorem verification : verifyHardDelete after scan selector plan =
    let targets := verifiedTargets after selector plan
    let indexCounts := countIndexArtifacts after.index plan.observationIds.dedup targets
    { Remaining.none with
      candidates := targets.countP fun target => target.1.isCandidate
      structuredTruth := targets.countP fun target => !target.1.isCandidate
      indexes := indexCounts.entityRows
      indexArtifacts := indexCounts.entityRows + indexCounts.embeddingRows + indexCounts.trigramRows } := by
  have gone := executed.erased.ledger
  have revisions : ∀ key ∈ plan.ledger.revisionKeys.dedup,
      (after.ledger.revisions.rows.countP fun row => row.key = key) = 0 := by
    intro key known
    apply List.countP_eq_zero.mpr
    intro row member same
    exact (gone.revisions row member).2 (of_decide_eq_true same ▸ List.mem_dedup.mp known)
  have chunks : ∀ key ∈ plan.ledger.revisionKeys.dedup, (after.ledger.chunksOf key.1 key.2).length = 0 := by
    intro key known
    apply List.length_eq_zero_iff.mpr
    apply List.filter_eq_nil_iff.mpr
    intro chunk member same
    have key : (chunk.sourceId, chunk.sourceRevision) = key := by simpa [Prod.ext_iff] using same
    exact (gone.chunks chunk member).2 (key ▸ List.mem_dedup.mp known)
  have projections : ∀ key ∈ plan.ledger.revisionKeys.dedup, projectionCount after.ledger key = 0 := by
    intro key known
    apply List.countP_eq_zero.mpr
    intro row member same
    have key : (row.sourceId, row.sourceRevision) = key := by simpa [Prod.ext_iff] using same
    exact (gone.projections row member).2 (key ▸ List.mem_dedup.mp known)
  have jobs : ∀ jobId ∈ sortedSet plan.ledger.jobIds, (after.ledger.jobs.rows.countP fun job => job.id = jobId) = 0 := by
    intro jobId known
    apply List.countP_eq_zero.mpr
    intro job member same
    have ⟨old, apart⟩ := gone.jobs job member
    rw [executed.planned] at known apart
    change jobId ∈ sortedSet (sortedSet _) at known
    rw [mem_sortedSet, mem_sortedSet] at known
    obtain ⟨key, selected, named⟩ := List.mem_flatMap.mp known
    obtain ⟨other, inside, id⟩ := List.mem_map.mp named
    obtain ⟨stored, revision⟩ := List.mem_filter.mp inside
    rw [before.ledger.jobs.eq_of_key old stored ((of_decide_eq_true same).trans id.symm)] at apart
    have key : (other.sourceId, other.sourceRevision) = key := by simpa [Prod.ext_iff] using revision
    exact apart (key ▸ selected)
  have observations : (plan.observationIds.dedup.countP fun id => (after.observations.get? id).isSome) = 0 := by
    apply List.countP_eq_zero.mpr
    intro id known found
    obtain ⟨payload, stored⟩ := Option.isSome_iff_exists.mp found
    have member := Table.mem_of_get? stored
    rw [executed.erased.observations] at member
    apply of_decide_eq_true (List.mem_filter.mp member).2
    rw [Table.key_of_get? stored]
    exact List.mem_dedup.mp known
  have preselected : (plan.targets.dedup.filter fun target => (after.records.get? target).isSome) = [] := by
    apply List.filter_eq_nil_iff.mpr
    intro target known found
    obtain ⟨record, stored⟩ := Option.isSome_iff_exists.mp found
    have member := Table.mem_of_get? stored
    rw [executed.erased.records] at member
    apply of_decide_eq_true (List.mem_filter.mp member).2
    rw [Table.key_of_get? stored]
    exact List.mem_dedup.mp known
  have zero : ∀ {α : Type} {items : List α} {count : α → Nat}, (∀ item ∈ items, count item = 0) → (items.map count).sum = 0 := by
    intro α items count each
    apply List.sum_eq_zero_iff_forall_eq_nat.mpr
    intro value member
    obtain ⟨item, inside, rfl⟩ := List.mem_map.mp member
    exact each item inside
  unfold verifyHardDelete
  rw [executed.residual]
  dsimp only
  rw [List.append_nil, List.append_nil, List.append_nil, List.append_nil, preselected, zero revisions, zero chunks, zero jobs,
    zero projections, observations]
  rfl

theorem verification_none_iff : verifyHardDelete after scan selector plan = .none ↔
    verifiedTargets after selector plan = [] ∧
      ∀ id ∈ before.index.structuredEmbeddings, id ∈ plan.observationIds → id ∈ plan.targets.map Prod.snd := by
  have embeddings : countRows after.index.structuredEmbeddings plan.observationIds.dedup = 0 ↔
      ∀ id ∈ before.index.structuredEmbeddings, id ∈ plan.observationIds → id ∈ plan.targets.map Prod.snd := by
    unfold countRows
    rw [List.countP_eq_zero, executed.erased.index]
    constructor
    · intro none id member selected
      by_contra apart
      exact none id (List.mem_filter.mpr ⟨member, decide_eq_true apart⟩) (decide_eq_true (List.mem_dedup.mpr selected))
    · intro all id member selected
      obtain ⟨old, apart⟩ := List.mem_filter.mp member
      exact of_decide_eq_true apart (all id old (List.mem_dedup.mp (of_decide_eq_true selected)))
  have filtered : ∀ rows : List String, countRows (rows.filter (· ∉ plan.observationIds)) plan.observationIds.dedup = 0 := by
    intro rows
    apply List.countP_eq_zero.mpr
    intro id member selected
    exact of_decide_eq_true (List.mem_filter.mp member).2 (List.mem_dedup.mp (of_decide_eq_true selected))
  rw [executed.verification, ← embeddings]
  unfold Remaining.none
  constructor
  · intro same
    have fields := Remaining.mk.inj same
    obtain ⟨-, -, -, -, -, candidates, truth, -, artifacts⟩ := fields
    have empty : verifiedTargets after selector plan = [] := by
      apply List.eq_nil_iff_forall_not_mem.mpr
      intro target member
      have candidate := List.countP_eq_zero.mp candidates target member
      have settled := List.countP_eq_zero.mp truth target member
      revert candidate settled
      cases target.1.isCandidate <;> decide
    refine ⟨empty, ?_⟩
    rw [empty] at artifacts
    unfold countIndexArtifacts at artifacts
    dsimp only at artifacts
    rw [List.map_nil, List.append_nil] at artifacts
    omega
  · intro ⟨empty, rows⟩
    have index := executed.erased.index
    rw [empty]
    unfold countIndexArtifacts
    dsimp only
    rw [List.map_nil, List.append_nil, rows, index, filtered, filtered, filtered]
    simp [countRows]

end Executed

/-! ### One erasure -/

/-- When verification finds nothing that the plan left. -/
structure Agrees (backend : Backend repr) (scan : Scan RevisionRow) (selector : Selector) (request : Request) : Prop where
  /-- A record of the project that names the session is linked to the evidence that is erased. -/
  sessions : ∀ session, selector.sessionId = some session → ∀ record ∈ backend.records.rows,
    Eligible repr selector.projectName record → Names repr ⟨[], [session], []⟩ record →
      Linked repr backend.records.rows selector.projectName (evidenceOf backend scan selector) record
  /-- The structured index has an embedding under the id of a selected observation only for a linked record of that id. -/
  embeddings : ∀ id ∈ backend.index.structuredEmbeddings, id ∈ (evidenceOf backend scan selector).observationIds →
    ∃ record, Linked repr backend.records.rows selector.projectName (evidenceOf backend scan selector) record ∧ record.id repr = id
  /-- No native source is left over where native sources are erased too. -/
  native : request.nativeIncomplete.getD 0 = 0

theorem gone_saveDeletionReceipt {before after : Ledger} {receipt saved : Dict} {now : Time}
    (ran : before.saveDeletionReceipt receipt now = .ok (saved, after)) : Gone [] before after := by
  unfold Ledger.saveDeletionReceipt at ran
  dsimp only at ran
  split at ran
  · cases ran
  · cases ran
    exact ⟨(Gone.refl before).revisions, (Gone.refl before).jobs, (Gone.refl before).chunks, (Gone.refl before).projections,
      (Gone.refl before).sources⟩

theorem erased_of_deletes {plan : Plan} {before : Backend repr} {receipted ledger : Ledger}
    (begins : Gone [] before.ledger receipted)
    (gone : Gone plan.ledger.revisionKeys (plan.observationIds.foldl Backend.deleteObservation
      (plan.targets.foldl Backend.deleteRecord { before with ledger := receipted })).ledger ledger) :
    Erased plan before { plan.observationIds.foldl Backend.deleteObservation
      (plan.targets.foldl Backend.deleteRecord { before with ledger := receipted }) with ledger } := by
  have first := foldl_deleteRecord { before with ledger := receipted } plan.targets
  have second := foldl_deleteObservation (plan.targets.foldl Backend.deleteRecord { before with ledger := receipted })
    plan.observationIds
  dsimp only at first second
  obtain ⟨ledger₁, observations₁, records₁, index₁⟩ := first
  obtain ⟨ledger₂, records₂, observations₂, index₂⟩ := second
  rw [ledger₂, ledger₁] at gone
  refine ⟨begins.trans gone, ?_, ?_, ?_⟩
  · exact observations₂.trans (by rw [observations₁])
  · exact (congrArg Table.rows records₂).trans records₁
  · exact index₂.trans (by rw [index₁])

theorem executed_of_finished {hashes : Hashes} {backend after : Backend repr} {request : Request} {status : Status}
    {remaining : Remaining} (ran : hardDelete hashes scan backend selector request = (.finished status remaining none, after)) :
    ∃ final, Executed scan selector (planHardDelete backend scan selector) backend final ∧
      remaining = verifyHardDelete final scan selector (planHardDelete backend scan selector) ∧
      status = if remaining = .none ∧ request.nativeIncomplete.getD 0 = 0 then .succeeded else .partialFailure := by
  unfold hardDelete at ran
  dsimp only at ran
  split at ran
  · cases ran
  · split at ran
    · cases ran
    · next saved =>
      split at ran
      · cases ran
      · split at ran
        · cases ran
        · next deleted =>
          cases ran
          exact ⟨_, ⟨rfl, erased_of_deletes (gone_saveDeletionReceipt saved) (gone_hardDeleteRevisions deleted)⟩, rfl, rfl⟩

/-- If nothing was raised, verification finds nothing left exactly if every record of the project that names the session is
linked to what was erased, no selected observation has an embedding in the index of the structured records, and no native
source is left over. -/
theorem erasure_verified_iff {hashes : Hashes} {backend after : Backend repr} {request : Request} {status : Status}
    {remaining : Remaining} (ran : hardDelete hashes scan backend selector request = (.finished status remaining none, after)) :
    (remaining = .none ∧ status = .succeeded) ↔ Agrees backend scan selector request := by
  obtain ⟨final, executed, rfl, rfl⟩ := executed_of_finished ran
  have succeeds : verifyHardDelete final scan selector (planHardDelete backend scan selector) = .none ∧
      (if verifyHardDelete final scan selector (planHardDelete backend scan selector) = .none ∧
          request.nativeIncomplete.getD 0 = 0 then Status.succeeded else .partialFailure) = .succeeded ↔
      verifyHardDelete final scan selector (planHardDelete backend scan selector) = .none ∧
        request.nativeIncomplete.getD 0 = 0 := by
    split
    · next both => exact ⟨fun _ => both, fun _ => ⟨both.1, rfl⟩⟩
    · next neither => exact ⟨fun holds => absurd holds.2 (by decide), fun both => absurd both neither⟩
  have embeddings : (∀ id ∈ backend.index.structuredEmbeddings,
        id ∈ (planHardDelete backend scan selector).observationIds →
          id ∈ (planHardDelete backend scan selector).targets.map Prod.snd) ↔
      ∀ id ∈ backend.index.structuredEmbeddings, id ∈ (evidenceOf backend scan selector).observationIds →
        ∃ record, Linked repr backend.records.rows selector.projectName (evidenceOf backend scan selector) record ∧
          record.id repr = id := by
    refine forall_congr' fun id => imp_congr_right fun _ => imp_congr_right fun _ => ?_
    rw [List.mem_map]
    constructor
    · rintro ⟨target, member, rfl⟩
      obtain ⟨record, linked, rfl⟩ := mem_linkedStructuredRecords.mp member
      exact ⟨record, linked, rfl⟩
    · rintro ⟨record, linked, rfl⟩
      exact ⟨_, mem_linkedStructuredRecords.mpr ⟨record, linked, rfl⟩, rfl⟩
  rw [succeeds, executed.verification_none_iff, executed.verified_targets, embeddings]
  constructor
  · intro ⟨⟨sessions, embedded⟩, native⟩
    exact ⟨sessions, embedded, native⟩
  · intro agrees
    exact ⟨⟨agrees.sessions, agrees.embeddings⟩, agrees.native⟩

theorem sessions_of_whole {backend : Backend repr} {session : String} (given : selector.sessionId = some session)
    (filled : session ≠ "") (whole : selector.sourceId = none ∧ selector.before = none) {record : Record}
    (member : record ∈ backend.records.rows) (eligible : Eligible repr selector.projectName record)
    (names : Names repr ⟨[], [session], []⟩ record) :
    Linked repr backend.records.rows selector.projectName (evidenceOf backend scan selector) record := by
  refine .named member eligible (names.mono (List.forall_mem_nil _) ?_ (List.forall_mem_nil _))
  intro id inside
  rw [List.mem_singleton.mp inside]
  change session ∈ selector.sessionFallbackIds _
  unfold Selector.sessionFallbackIds
  rw [if_pos ⟨by rw [given]; exact Option.some_ne_none session, whole⟩, given]
  apply List.mem_append_right
  simp [filled]

/-! ### A rule of the session, and one source of it erased -/

def sampleRepr : Repr := fun _ => "[]"

def sampleRule : Record where
  collection := .ruleCandidates
  payload := [("id", .str "rule"), ("project_name", .str "project"), ("session_id", .str "source"),
    ("pattern", .str "Run the tests")]

def sampleBackend : Backend sampleRepr where
  ledger := (World.initial.after .spelled [⟨1, sampleCapture .spelled "source" ["text"]⟩]).ledger
  observations := .empty
  records := ⟨[sampleRule], by decide +kernel⟩
  index := ⟨[], [], [], [(.ruleCandidates, "rule")], []⟩

def sampleSelector (sourceId : Option String) : Selector := ⟨"project", some "source", sourceId, none⟩

def sampleRequest : Request := ⟨"receipt", "user_requested_erasure", 2, none⟩

def Outcome.finished? : Outcome → Option (Status × Remaining)
  | .finished status remaining none => some (status, remaining)
  | _ => none

theorem eq_of_finished? {result : Outcome × Backend repr} {status : Status} {remaining : Remaining}
    (ends : result.1.finished? = some (status, remaining)) : result = (.finished status remaining none, result.2) := by
  obtain ⟨outcome, after⟩ := result
  dsimp only at *
  unfold Outcome.finished? at ends
  split at ends
  · cases ends
    rfl
  · cases ends

/-- The whole session is erased, and nothing is left. -/
theorem erasure_verified_sample : ∃ status remaining after,
    hardDelete .spelled .insertion sampleBackend (sampleSelector none) sampleRequest = (.finished status remaining none, after) ∧
      remaining = .none ∧ status = .succeeded := by
  obtain ⟨⟨status, remaining⟩, ends⟩ := Option.isSome_iff_exists.mp
    (show (hardDelete .spelled .insertion sampleBackend (sampleSelector none) sampleRequest).1.finished?.isSome = true by
      decide +kernel)
  have ran := eq_of_finished? ends
  refine ⟨status, remaining, _, ran, (erasure_verified_iff ran).mpr ⟨?_, ?_, rfl⟩⟩
  · intro session given record member eligible names
    cases given
    exact sessions_of_whole rfl (by decide) ⟨rfl, rfl⟩ member eligible names
  · exact List.forall_mem_nil _

/-- One source of the session is erased, and the candidate that the plan leaves is counted as left over. -/
theorem erasure_verified_fails : ¬ ∀ (backend : Backend sampleRepr) (selector : Selector) (status : Status) (remaining : Remaining)
    (after : Backend sampleRepr),
    hardDelete .spelled .insertion backend selector sampleRequest = (.finished status remaining none, after) →
      remaining = .none ∧ status = .succeeded := by
  intro claim
  have ends : (hardDelete .spelled .insertion sampleBackend (sampleSelector (some "source")) sampleRequest).1.finished? =
      some (.partialFailure, { Remaining.none with candidates := 1, indexes := 1, indexArtifacts := 1 }) := by
    decide +kernel
  have succeeded := (claim _ _ _ _ _ (eq_of_finished? ends)).2
  cases succeeded

end HarnessMem.Erasure
