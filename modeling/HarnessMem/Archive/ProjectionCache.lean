import HarnessMem.Archive.Snapshots

/-! The cache of semantic projections while jobs for different revisions finish in any order. For a source and
a record version it has one record, of the newest revision that one was saved for.
-/

set_option autoImplicit false

namespace HarnessMem.Archive

open Storage Library TranscriptChunking

/-- The row that `save_distill_projection` writes for a record. -/
def projectionRow (record : Dict) (now : Time) : SemanticProjection where
  sourceId := record.text "source_id"
  sourceRevision := record.text "source_revision"
  recordVersion := record.text "record_version"
  projectionSha256 := record.text "projection_sha256"
  updatedAt := now
  data := record

def getLatestPriorDistillProjection (ledger : Ledger) (sourceId sourceRevision recordVersion : String) : Option Dict :=
  if (ledger.getRevision sourceId sourceRevision).isNone then none
  else ((ledger.revisions.rows.take (ledger.revisionOrdinal sourceId sourceRevision)).reverse.findSome? fun prior =>
    if prior.sourceId = sourceId then ledger.projections.get? (prior.sourceId, prior.sourceRevision, recordVersion) else none).map (·.data)

inductive CacheCall where
  | saveSnapshot (source : TranscriptSource) (chunks : List TranscriptChunk) (rawBytes : Option (List UInt8))
  | saveDistillProjection (record : Dict)

namespace CacheCall

def run (hashes : Hashes) (ledger : Ledger) (now : Time) : CacheCall → Except StoreError Ledger
  | .saveSnapshot source chunks rawBytes => ledger.saveSnapshot hashes source chunks rawBytes now
  | .saveDistillProjection record => ledger.saveDistillProjection record now

def records (now : Time) : CacheCall → List SemanticProjection
  | .saveSnapshot .. => []
  | .saveDistillProjection record => [projectionRow record now]

end CacheCall

structure CacheState where
  ledger : Ledger
  saved : List SemanticProjection

def cacheStep (hashes : Hashes) (state : CacheState) (event : CacheCall × Time) : CacheState :=
  match event.1.run hashes state.ledger event.2 with
  | .ok next => ⟨next, state.saved ++ event.1.records event.2⟩
  | .error _ => state

def cacheRun (hashes : Hashes) (events : List (CacheCall × Time)) : CacheState :=
  events.foldl (cacheStep hashes) ⟨.empty, []⟩

/-! ### The newest record -/

def SameCache (first second : SemanticProjection) : Prop :=
  first.sourceId = second.sourceId ∧ first.recordVersion = second.recordVersion

def ordinal (ledger : Ledger) (row : SemanticProjection) : Nat := ledger.revisionOrdinal row.sourceId row.sourceRevision

/-- Of the records of its source and version it was saved last for the newest revision. -/
def Newest (ledger : Ledger) (saved : List SemanticProjection) (row : SemanticProjection) : Prop :=
  ∃ front back, saved = front ++ row :: back ∧ (∀ other ∈ front, SameCache other row → ordinal ledger other ≤ ordinal ledger row) ∧
    ∀ other ∈ back, SameCache other row → ordinal ledger other < ordinal ledger row

/-- The cache has one record for each source and version that a record was saved for, the newest. -/
structure Cached (state : CacheState) : Prop where
  stored : ∀ row ∈ state.saved, (state.ledger.getRevision row.sourceId row.sourceRevision).isSome
  newest : ∀ row ∈ state.ledger.projections.rows, Newest state.ledger state.saved row
  alone : ∀ first ∈ state.ledger.projections.rows, ∀ second ∈ state.ledger.projections.rows, SameCache first second → first = second
  covered : ∀ row ∈ state.saved, ∃ kept ∈ state.ledger.projections.rows, SameCache row kept ∧
    ordinal state.ledger row ≤ ordinal state.ledger kept

variable {ledger : Ledger} {saved : List SemanticProjection} {first second : SemanticProjection}

theorem Newest.mem (newest : Newest ledger saved first) : first ∈ saved := by
  obtain ⟨front, back, rfl, _⟩ := newest
  exact List.mem_append_right _ List.mem_cons_self

theorem Newest.above (newest : Newest ledger saved first) : ∀ other ∈ saved, SameCache other first →
    ordinal ledger other ≤ ordinal ledger first := by
  obtain ⟨front, back, rfl, before, after⟩ := newest
  intro other member same
  rcases List.mem_append.mp member with early | late
  · exact before other early same
  · rcases List.mem_cons.mp late with rfl | later
    · exact le_rfl
    · exact (after other later same).le

theorem Newest.unique (one : Newest ledger saved first) (two : Newest ledger saved second) (same : SameCache first second) :
    first = second := by
  have back : SameCache second first := ⟨same.1.symm, same.2.symm⟩
  have level := le_antisymm (two.above first one.mem same) (one.above second two.mem back)
  obtain ⟨front, rest, rfl, _, after⟩ := one
  obtain ⟨front', rest', split, _, after'⟩ := two
  rcases List.append_eq_append_iff.mp split with ⟨between, rfl, tail⟩ | ⟨between, rfl, tail⟩
  · rcases between with - | ⟨head, between⟩
    · exact (List.cons.inj tail).1
    · have later : second ∈ rest := by
        rw [(List.cons.inj tail).2]
        exact List.mem_append_right _ List.mem_cons_self
      exact absurd level (after second later back).ne'
  · rcases between with - | ⟨head, between⟩
    · exact (List.cons.inj tail).1.symm
    · have later : first ∈ rest' := by
        rw [(List.cons.inj tail).2]
        exact List.mem_append_right _ List.mem_cons_self
      exact absurd level (after' first later same).ne

theorem Newest.congr {other : Ledger} (newest : Newest ledger saved first)
    (same : ∀ row ∈ saved, ordinal other row = ordinal ledger row) : Newest other saved first := by
  obtain ⟨front, back, rfl, before, after⟩ := newest
  have own := same first (List.mem_append_right _ List.mem_cons_self)
  refine ⟨front, back, rfl, fun row early cache => ?_, fun row late cache => ?_⟩
  · rw [same row (List.mem_append_left _ early), own]
    exact before row early cache
  · rw [same row (List.mem_append_right _ (List.mem_cons_of_mem _ late)), own]
    exact after row late cache

theorem Newest.snoc (newest : Newest ledger saved first)
    (older : SameCache second first → ordinal ledger second < ordinal ledger first) : Newest ledger (saved ++ [second]) first := by
  obtain ⟨front, back, rfl, before, after⟩ := newest
  refine ⟨front, back ++ [second], by simp, before, fun row member cache => ?_⟩
  rcases List.mem_append.mp member with early | last
  · exact after row early cache
  · rw [List.mem_singleton] at last
    subst last
    exact older cache

/-! ### Calls -/

theorem revisionOrdinal_insertRevision {row : RevisionRow} {sourceId sourceRevision : String}
    (stored : (ledger.getRevision sourceId sourceRevision).isSome) :
    (ledger.insertRevision row).revisionOrdinal sourceId sourceRevision = ledger.revisionOrdinal sourceId sourceRevision := by
  obtain ⟨found, here⟩ := Option.isSome_iff_exists.mp stored
  have place : ledger.revisions.rows.findIdx (fun row => decide (row.key = (sourceId, sourceRevision))) < ledger.revisions.rows.length :=
    List.findIdx_lt_length_of_exists ⟨found, Table.mem_of_get? here, decide_eq_true (Table.key_of_get? here)⟩
  unfold Ledger.insertRevision
  split
  · unfold Ledger.revisionOrdinal
    rw [Table.rows_insert, List.findIdx_append, if_pos place]
  · rfl

theorem Cached.saveSnapshot {hashes : Hashes} {state : CacheState} {source : TranscriptSource} {chunks : List TranscriptChunk}
    {rawBytes : Option (List UInt8)} {now : Time} {next : Ledger} (cached : Cached state)
    (ran : state.ledger.saveSnapshot hashes source chunks rawBytes now = .ok next) : Cached ⟨next, state.saved⟩ := by
  have captured := saveSnapshot_captured ran
  have places : ∀ row ∈ state.saved, ordinal next row = ordinal state.ledger row := by
    intro row member
    unfold ordinal
    rw [← revisionOrdinal_insertRevision (cached.stored row member)]
    unfold Ledger.revisionOrdinal
    rw [captured.revisions]
  refine ⟨fun row member => ?_, ?_, ?_, fun row member => ?_⟩
  · unfold Ledger.getRevision
    rw [captured.revisions]
    exact Integrity.getRevision_insertRevision (.inl (cached.stored row member))
  · rw [captured.projections]
    exact fun row member => (cached.newest row member).congr places
  · rw [captured.projections]
    exact cached.alone
  · obtain ⟨kept, there, same, below⟩ := cached.covered row member
    refine ⟨kept, captured.projections ▸ there, same, ?_⟩
    rw [places row member, places kept (cached.newest kept there).mem]
    exact below

/-- A record is left out where a newer revision has one; otherwise it takes the place of what was there. -/
theorem saveDistillProjection_cases {record : Dict} {now : Time} {next : Ledger}
    (ran : ledger.saveDistillProjection record now = .ok next) :
    (ledger.getRevision (projectionRow record now).sourceId (projectionRow record now).sourceRevision).isSome ∧
      ((next = ledger ∧ ∃ kept ∈ ledger.projections.rows, SameCache (projectionRow record now) kept ∧
          ordinal ledger (projectionRow record now) < ordinal ledger kept) ∨
        (next.revisions = ledger.revisions ∧
          (∀ kept ∈ ledger.projections.rows, SameCache kept (projectionRow record now) →
            ordinal ledger kept ≤ ordinal ledger (projectionRow record now)) ∧
          ∀ row, row ∈ next.projections.rows ↔ row = projectionRow record now ∨
            row ∈ ledger.projections.rows ∧ ¬SameCache row (projectionRow record now))) := by
  unfold Ledger.saveDistillProjection at ran
  dsimp only at ran
  split at ran
  · cases ran
  split at ran
  · cases ran
  next present =>
  refine ⟨Option.isSome_iff_ne_none.mpr fun none => present (Option.isNone_iff_eq_none.mpr none), ?_⟩
  split at ran
  · next newer =>
    cases ran
    obtain ⟨kept, member, above⟩ := List.any_eq_true.mp newer
    obtain ⟨there, cache⟩ := List.mem_filter.mp member
    rw [decide_eq_true_eq] at above cache
    exact .inl ⟨rfl, kept, there, ⟨cache.1.symm, cache.2.symm⟩, above⟩
  · next oldest =>
    cases ran
    refine .inr ⟨rfl, fun kept there cache => Nat.not_lt.mp fun below => oldest ?_, fun row => ?_⟩
    · exact List.any_eq_true.mpr ⟨kept, List.mem_filter.mpr ⟨there, decide_eq_true cache⟩, decide_eq_true below⟩
    · rw [Table.mem_upsert, Table.rows_filter, List.mem_filter, and_assoc]
      refine or_congr Iff.rfl (and_congr_right fun _ => ?_)
      rw [Bool.not_eq_true', decide_eq_false_iff_not]
      unfold SameCache projectionRow SemanticProjection.key
      simp only [ne_eq, Prod.mk.injEq]
      tauto

theorem Cached.saveDistillProjection {state : CacheState} {record : Dict} {now : Time} {next : Ledger} (cached : Cached state)
    (ran : state.ledger.saveDistillProjection record now = .ok next) : Cached ⟨next, state.saved ++ [projectionRow record now]⟩ := by
  obtain ⟨known, cases⟩ := saveDistillProjection_cases ran
  generalize projectionRow record now = row at known cases ⊢
  have stored : ∀ other ∈ state.saved ++ [row], (state.ledger.getRevision other.sourceId other.sourceRevision).isSome := by
    intro other member
    rcases List.mem_append.mp member with early | last
    · exact cached.stored other early
    · rw [List.mem_singleton.mp last]
      exact known
  rcases cases with ⟨rfl, kept, there, cache, above⟩ | ⟨revisions, oldest, rows⟩
  · refine ⟨stored, fun other place => (cached.newest other place).snoc fun same => ?_, cached.alone, fun other place => ?_⟩
    · rw [cached.alone other place kept there ⟨same.1.symm.trans cache.1, same.2.symm.trans cache.2⟩]
      exact above
    · rcases List.mem_append.mp place with early | last
      · exact cached.covered other early
      · rw [List.mem_singleton.mp last]
        exact ⟨kept, there, cache, above.le⟩
  · have places : ∀ other, ordinal next other = ordinal state.ledger other := by
      intro other
      unfold ordinal Ledger.revisionOrdinal
      rw [revisions]
    -- Whatever was saved for this cache is no newer than what it holds, and that is no newer than the record.
    have top : ∀ other ∈ state.saved, SameCache other row → ordinal state.ledger other ≤ ordinal state.ledger row := by
      intro other member same
      obtain ⟨kept, there, cache, below⟩ := cached.covered other member
      exact below.trans (oldest kept there ⟨cache.1.symm.trans same.1, cache.2.symm.trans same.2⟩)
    refine ⟨fun other member => ?_, fun other member => ?_, fun first here second there cache => ?_, fun other member => ?_⟩
    · unfold Ledger.getRevision
      rw [revisions]
      exact stored other member
    · rcases (rows other).mp member with rfl | ⟨old, apart⟩
      · refine ⟨state.saved, [], rfl, fun first early same => ?_, fun first none => absurd none List.not_mem_nil⟩
        rw [places, places]
        exact top first early same
      · have still : Newest state.ledger (state.saved ++ [row]) other :=
          (cached.newest other old).snoc fun same => absurd ⟨same.1.symm, same.2.symm⟩ apart
        exact still.congr fun first _ => places first
    · rcases (rows first).mp here with rfl | ⟨old, apart⟩
      · rcases (rows second).mp there with rfl | ⟨_, apart⟩
        · rfl
        · exact absurd ⟨cache.1.symm, cache.2.symm⟩ apart
      · rcases (rows second).mp there with rfl | ⟨older, _⟩
        · exact absurd cache apart
        · exact cached.alone first old second older cache
    · by_cases own : SameCache other row
      · refine ⟨row, (rows row).mpr (.inl rfl), own, ?_⟩
        rw [places, places]
        rcases List.mem_append.mp member with early | last
        · exact top other early own
        · rw [List.mem_singleton.mp last]
      · rcases List.mem_append.mp member with early | last
        · obtain ⟨kept, there, cache, below⟩ := cached.covered other early
          refine ⟨kept, (rows kept).mpr (.inr ⟨there, fun same => own ?_⟩), cache, ?_⟩
          · exact ⟨cache.1.trans same.1, cache.2.trans same.2⟩
          · rw [places, places]
            exact below
        · exact absurd (by rw [List.mem_singleton.mp last]; exact ⟨rfl, rfl⟩) own

/-! ### Runs -/

theorem cached_run (hashes : Hashes) (events : List (CacheCall × Time)) : Cached (cacheRun hashes events) := by
  suffices steps : ∀ state, Cached state → Cached (events.foldl (cacheStep hashes) state) from
    steps ⟨.empty, []⟩ ⟨List.forall_mem_nil _, List.forall_mem_nil _, fun _ none => absurd none List.not_mem_nil, List.forall_mem_nil _⟩
  induction events with
  | nil => exact fun state cached => cached
  | cons event rest ih =>
    refine fun state cached => ih _ ?_
    obtain ⟨call, now⟩ := event
    unfold cacheStep
    split
    · next next ran =>
      cases call with
      | saveSnapshot source chunks rawBytes =>
        rw [CacheCall.records, List.append_nil]
        exact cached.saveSnapshot ran
      | saveDistillProjection record => exact cached.saveDistillProjection ran
    · exact cached

theorem getLatestPriorDistillProjection_prior {sourceId sourceRevision recordVersion : String} {record : Dict}
    (found : getLatestPriorDistillProjection ledger sourceId sourceRevision recordVersion = some record) :
    ∃ row ∈ ledger.projections.rows, row.data = record ∧ row.sourceId = sourceId ∧ row.recordVersion = recordVersion ∧
      (ledger.getRevision sourceId sourceRevision).isSome ∧ ordinal ledger row < ledger.revisionOrdinal sourceId sourceRevision := by
  unfold getLatestPriorDistillProjection at found
  split at found
  · cases found
  next present =>
  obtain ⟨row, first, data⟩ := Option.map_eq_some_iff.mp found
  obtain ⟨prior, member, joined⟩ := List.exists_of_findSome?_eq_some first
  rw [List.mem_reverse] at member
  split at joined
  · next same =>
    obtain ⟨there, key⟩ := (Table.get?_eq_some _ _ _).mp joined
    obtain ⟨source, revision, version⟩ : row.sourceId = prior.sourceId ∧ row.sourceRevision = prior.sourceRevision ∧
        row.recordVersion = recordVersion := by simpa [SemanticProjection.key] using key
    refine ⟨row, there, data, source.trans same, version, Option.isSome_iff_ne_none.mpr fun none => present (Option.isNone_iff_eq_none.mpr none), ?_⟩
    obtain ⟨place, bound, here⟩ := List.getElem_of_mem member
    rw [List.length_take] at bound
    rw [List.getElem_take] at here
    have early : ordinal ledger row ≤ place := by
      refine Nat.not_lt.mp fun late => ?_
      have missed := List.not_of_lt_findIdx late
      rw [here, source, revision] at missed
      simp [RevisionRow.key] at missed
    omega
  · cases joined

/-- Over every run of captures and saved records: the cache has one record at most for each source and version,
namely the one saved last for the newest revision that one was saved for, and a prior record is of an earlier
revision than the one it is asked for.
-/
theorem projection_cache_never_regresses (hashes : Hashes) (events : List (CacheCall × Time)) :
    (∀ row, row ∈ (cacheRun hashes events).ledger.projections.rows ↔
      Newest (cacheRun hashes events).ledger (cacheRun hashes events).saved row) ∧
    (∀ sourceId recordVersion, ((cacheRun hashes events).ledger.projections.rows.filter fun row =>
      row.sourceId = sourceId ∧ row.recordVersion = recordVersion).length ≤ 1) ∧
    ∀ sourceId sourceRevision recordVersion record,
      getLatestPriorDistillProjection (cacheRun hashes events).ledger sourceId sourceRevision recordVersion = some record →
        ∃ row ∈ (cacheRun hashes events).ledger.projections.rows, row.data = record ∧ row.sourceId = sourceId ∧
          row.recordVersion = recordVersion ∧ ((cacheRun hashes events).ledger.getRevision sourceId sourceRevision).isSome ∧
          ordinal (cacheRun hashes events).ledger row < (cacheRun hashes events).ledger.revisionOrdinal sourceId sourceRevision := by
  have cached := cached_run hashes events
  generalize cacheRun hashes events = state at cached
  refine ⟨fun row => ⟨cached.newest row, fun newest => ?_⟩, fun sourceId recordVersion => ?_, fun _ _ _ _ found =>
    getLatestPriorDistillProjection_prior found⟩
  · obtain ⟨kept, there, same, below⟩ := cached.covered row newest.mem
    exact newest.unique (cached.newest kept there) same ▸ there
  · have once : state.ledger.projections.rows.Nodup := List.Nodup.of_map _ state.ledger.projections.nodup
    have apart := once.filter fun row => decide (row.sourceId = sourceId ∧ row.recordVersion = recordVersion)
    cases rows : state.ledger.projections.rows.filter fun row => decide (row.sourceId = sourceId ∧ row.recordVersion = recordVersion) with
    | nil => exact Nat.zero_le _
    | cons first rest =>
      cases rest with
      | nil => exact le_rfl
      | cons second rest =>
        rw [rows] at apart
        have inside : ∀ row ∈ first :: second :: rest, row ∈ state.ledger.projections.rows ∧ row.sourceId = sourceId ∧
            row.recordVersion = recordVersion := by
          intro row member
          rw [← rows, List.mem_filter, decide_eq_true_eq] at member
          exact member
        obtain ⟨here, source, version⟩ := inside first List.mem_cons_self
        obtain ⟨there, source', version'⟩ := inside second (List.mem_cons_of_mem _ List.mem_cons_self)
        have same := cached.alone first here second there ⟨source.trans source'.symm, version.trans version'.symm⟩
        exact absurd (same ▸ List.mem_cons_self) (List.nodup_cons.mp apart).1

end HarnessMem.Archive
