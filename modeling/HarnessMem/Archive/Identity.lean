import HarnessMem.Archive.Snapshots
import HarnessMem.Lifecycle.Simulation

/-! Which source a capture at a new locator goes to: the one source of its session, where the
caller asks for it, and otherwise a source whose bytes it is proven to continue.
-/

set_option autoImplicit false

namespace HarnessMem.Archive

open Storage Library TranscriptChunking

variable {hashes : Hashes} {ledger : Ledger} {capture : Capture}

/-! ### The claim on identities -/

def Sole (property : TranscriptSource → Prop) (source : TranscriptSource) : Prop :=
  ∀ other, property other ↔ other = source

/-- A source of the session whose current bytes are some, and the captured ones begin with them. -/
def Proven (hashes : Hashes) (ledger : Ledger) (capture : Capture) (source : TranscriptSource) : Prop :=
  source ∈ sessionSources ledger capture ∧ ∃ bytes,
    ledger.reconstructRaw hashes source.id source.sourceRevision = .ok bytes ∧ bytes ≠ [] ∧ bytes <+: capture.nativeBytes

def Emptied (source : TranscriptSource) : Prop :=
  source.sessionId = "" ∧ source.sourceUri = "processed-source://" ++ source.id

def NewLocator (ledger : Ledger) (capture : Capture) : Prop :=
  ∀ source ∈ ledger.sources.rows, source.identity ≠ capture.identity

/-- With the flag a capture goes to the one source of its session, which stays the only one. Without it a capture goes to
no stored source but the one it is proven to continue, or the emptied one of its own identifier. -/
structure IdentityKept (hashes : Hashes) (ledger : Ledger) (capture : Capture) (result : TranscriptSyncResult) : Prop where
  logical : capture.reuseLogicalSession = true → ∀ source, sessionSources ledger capture = [source] →
    result.source.id = source.id ∧ (sessionSources result.ledger capture).map (·.id) = [source.id]
  moved : capture.reuseLogicalSession = false → ∀ source ∈ ledger.sources.rows, source.id = result.source.id →
    Sole (Proven hashes ledger capture) source ∨ Emptied source ∧ source.id = capture.ownId hashes

/-! ### The condition -/

/-- A source of the session that `_find_moved_source` counts, empty bytes included. -/
def Matching (hashes : Hashes) (ledger : Ledger) (capture : Capture) (source : TranscriptSource) : Prop :=
  source ∈ sessionSources ledger capture ∧ continues hashes ledger capture source = true

structure Resolvable (hashes : Hashes) (ledger : Ledger) (scan : Scan TranscriptSource) (capture : Capture) : Prop where
  /-- The one source of the session is among those `list_sources` shows, or its bytes begin the captured ones. -/
  logical : capture.reuseLogicalSession = true → ∀ source, sessionSources ledger capture = [source] →
    source ∈ ledger.listSources scan capture.projectName capture.client defaultLimit ∨
      continues hashes ledger capture source = true ∨ source.id = capture.ownId hashes
  /-- The one source that matches has some bytes. -/
  filled : capture.reuseLogicalSession = false → ∀ source, Sole (Matching hashes ledger capture) source →
    ledger.reconstructRaw hashes source.id source.sourceRevision ≠ .ok [] ∨ Emptied source ∧ source.id = capture.ownId hashes
  /-- Where none matches alone, the identifier of the capture is no other source's. -/
  own : capture.reuseLogicalSession = false → (∀ source, ¬ Sole (Matching hashes ledger capture) source) →
    ∀ source ∈ ledger.sources.rows, source.id = capture.ownId hashes →
      Sole (Proven hashes ledger capture) source ∨ Emptied source

/-! ### What is resolved -/

variable {source : TranscriptSource}

theorem mem_sessionSources :
    source ∈ sessionSources ledger capture ↔ source ∈ ledger.sources.rows ∧ ofSession capture source = true :=
  List.mem_filter

theorem findSource_none (fresh : NewLocator ledger capture) : findSource ledger capture = none := by
  unfold findSource
  rw [List.find?_eq_none]
  intro source member same
  exact fresh source member (of_decide_eq_true same)

theorem continues_iff : continues hashes ledger capture source = true ↔
    ∃ bytes, ledger.reconstructRaw hashes source.id source.sourceRevision = .ok bytes ∧ bytes <+: capture.nativeBytes := by
  unfold continues
  cases ledger.reconstructRaw hashes source.id source.sourceRevision with
  | error failure => simp
  | ok bytes => simp

variable {scan : Scan TranscriptSource}

theorem findMovedSource_eq_some :
    findMovedSource hashes ledger scan capture = some source ↔ Sole (Matching hashes ledger capture) source := by
  have matching : ∀ other, other ∈ (listSourcesForSession ledger scan capture).filter (continues hashes ledger capture) ↔
      Matching hashes ledger capture other := by
    intro other
    unfold listSourcesForSession
    rw [List.mem_filter, List.mem_insertionSort, scan.mem_order]
    rfl
  have distinct : ((listSourcesForSession ledger scan capture).filter (continues hashes ledger capture)).Nodup := by
    apply List.Nodup.filter
    unfold listSourcesForSession
    rw [(List.perm_insertionSort _ _).nodup_iff, (scan.perm _).nodup_iff]
    exact (List.Nodup.of_map _ ledger.sources.nodup).filter _
  unfold findMovedSource
  rw [only?_eq_some distinct]
  exact forall_congr' fun other => by rw [matching other]

theorem mem_listSources {limit : Nat}
    (listed : source ∈ ledger.listSources scan capture.projectName capture.client limit) :
    source ∈ ledger.sources.rows ∧ source.projectName = capture.projectName ∧ source.client = capture.client := by
  unfold Ledger.listSources at listed
  have there := List.mem_of_mem_take listed
  rw [List.mem_insertionSort, scan.mem_order, List.mem_filter, decide_eq_true_eq] at there
  exact there

theorem nodup_listSources (scan : Scan TranscriptSource) (limit : Nat) (projectName client : String) :
    (ledger.listSources scan projectName client limit).Nodup := by
  unfold Ledger.listSources
  apply (List.take_sublist _ _).nodup
  rw [(List.perm_insertionSort _ _).nodup_iff, (scan.perm _).nodup_iff]
  exact (List.Nodup.of_map _ ledger.sources.nodup).filter _

theorem findLogical_of_one {other : TranscriptSource}
    (one : sessionSources ledger capture = [source]) : findLogical ledger scan capture = some other ↔
      other = source ∧ source ∈ ledger.listSources scan capture.projectName capture.client defaultLimit := by
  have session : ∀ other, other ∈ (ledger.listSources scan capture.projectName capture.client defaultLimit).filter (fun source =>
      source.sessionId = capture.sessionId) ↔
        other = source ∧ source ∈ ledger.listSources scan capture.projectName capture.client defaultLimit := by
    intro other
    have ours : ∀ other, other ∈ sessionSources ledger capture ↔ other = source := fun other => one ▸ List.mem_singleton
    rw [List.mem_filter, decide_eq_true_eq]
    constructor
    · intro ⟨listed, same⟩
      have ⟨stored, project, client⟩ := mem_listSources listed
      have here : other = source := (ours other).mp (mem_sessionSources.mpr ⟨stored, by
        simp only [ofSession, project, client, same, decide_true, Bool.and_self]⟩)
      exact ⟨here, here ▸ listed⟩
    · intro ⟨here, listed⟩
      have same := (mem_sessionSources.mp ((ours other).mpr here)).2
      simp only [ofSession, Bool.and_eq_true, decide_eq_true_eq] at same
      exact ⟨here ▸ listed, same.2⟩
  unfold findLogical
  rw [only?_eq_some ((nodup_listSources scan defaultLimit _ _).filter _)]
  constructor
  · intro sole
    exact (session other).mp ((sole other).mpr rfl)
  · intro ⟨here, listed⟩ third
    rw [session third, here]
    exact and_iff_left listed

def resolved (hashes : Hashes) (ledger : Ledger) (scan : Scan TranscriptSource) (capture : Capture) : Option TranscriptSource :=
  (if capture.reuseLogicalSession then findLogical ledger scan capture else none).or (findMovedSource hashes ledger scan capture)

theorem resolve_new {scan : Scan TranscriptSource} (fresh : NewLocator ledger capture) :
    (resolve hashes ledger scan capture).existing = resolved hashes ledger scan capture ∧
      (resolve hashes ledger scan capture).sourceId =
        ((resolved hashes ledger scan capture).map (·.id)).getD (capture.ownId hashes) := by
  unfold resolve
  rw [findSource_none fresh]
  dsimp only
  unfold resolved
  split
  · next source found =>
    rw [found]
    exact ⟨rfl, rfl⟩
  · next found =>
    rw [found]
    exact ⟨rfl, rfl⟩

theorem resolved_stored
    (found : resolved hashes ledger scan capture = some source) : source ∈ sessionSources ledger capture := by
  rcases Option.or_eq_some_iff.mp found with logical | ⟨_, moved⟩
  · split at logical
    · unfold findLogical at logical
      have member := ((only?_eq_some ((nodup_listSources scan defaultLimit _ _).filter _)).mp logical source).mpr rfl
      have ⟨listed, session⟩ := List.mem_filter.mp member
      have ⟨stored, project, client⟩ := mem_listSources listed
      exact mem_sessionSources.mpr ⟨stored, by
        simp only [ofSession, project, client, of_decide_eq_true session, decide_true, Bool.and_self]⟩
    · cases logical
  · exact ((findMovedSource_eq_some.mp moved source).mpr rfl).1

/-! ### What is written -/

/-- The sources after a capture: a row of its session is written under the identifier of the source it returns, or
that source was stored and stays. -/
def Wrote (capture : Capture) (before : Table TranscriptSource.id) (source : TranscriptSource)
    (after : Table TranscriptSource.id) : Prop :=
  (∃ row, row.id = source.id ∧ ofSession capture row = true ∧ after = before.upsert row) ∨
    (source ∈ before.rows ∧ after = before)

theorem ofSession_captureSource {resolution : Resolution} {now : Time} :
    ofSession capture (captureSource hashes capture resolution now) = true := by
  simp [ofSession, captureSource]

variable {next : Ledger}

theorem upsertSource_sources (ran : ledger.upsertSourceLocked source = .ok next) :
    next.sources = ledger.sources.upsert source := by
  unfold Ledger.upsertSourceLocked at ran
  split at ran
  · cases ran
  · cases ran
    rfl

variable {now : Time}

theorem storeCapture_wrote {resolution : Resolution}
    (own : ∀ existing, resolution.existing = some existing → existing ∈ ledger.sources.rows ∧ resolution.sourceId = existing.id)
    (ran : storeCapture hashes ledger capture resolution now = .ok (source, next)) :
    source.id = resolution.sourceId ∧ Wrote capture ledger.sources source next.sources := by
  unfold storeCapture at ran
  dsimp only at ran
  split at ran
  · obtain ⟨saved, written, same⟩ := Lifecycle.map_ok ran
    cases same
    exact ⟨rfl, .inl ⟨_, rfl, @ofSession_captureSource hashes capture resolution now,
      (saveSnapshot_captured written).sources⟩⟩
  · next existing found =>
    have ⟨stored, same⟩ := own existing (Option.filter_eq_some_iff.mp found).1
    split at ran
    · obtain ⟨saved, written, equal⟩ := Lifecycle.map_ok ran
      cases equal
      exact ⟨rfl, .inl ⟨_, rfl, @ofSession_captureSource hashes capture resolution now,
        upsertSource_sources written⟩⟩
    · cases ran
      exact ⟨same.symm, .inr ⟨stored, rfl⟩⟩

theorem enqueue_sources {scan : Scan QueueRow} {request : EnqueueRequest} {job : SessionDistillJob}
    {selections : List Selection} (ran : ledger.enqueue hashes scan request now = .ok (job, selections, next)) :
    next.sources = ledger.sources := by
  have rebalanced : ∀ current : Ledger, ∀ source, (current.rebalanceWithin scan source request now).2.sources = current.sources :=
    fun current source => (Lifecycle.rebalanceWithin_moves :
      Lifecycle.Moves hashes ledger now (.enqueue scan request) current _).shape.sources
  obtain ⟨source, chunks, _, ⟨existing, _, _, placed⟩ | ⟨_, _, _, placed⟩⟩ := Lifecycle.enqueue_cases ran
  · rw [show next = _ from congrArg Prod.snd placed, rebalanced]
    split <;> rfl
  · rw [show next = _ from congrArg Prod.snd placed, rebalanced]
    rfl

theorem Wrote.session {before after : Table TranscriptSource.id} {known : TranscriptSource}
    (wrote : Wrote capture before source after) (member : known ∈ before.rows) (ours : ofSession capture known = true)
    (same : source.id = known.id) :
    (after.rows.filter (ofSession capture)).map (·.id) = (before.rows.filter (ofSession capture)).map (·.id) := by
  rcases wrote with ⟨row, id, session, rfl⟩ | ⟨_, rfl⟩
  · have found : before.get? row.id = some known := by
      rw [id, same]
      exact Table.get?_of_mem member
    rw [Table.rows_upsert_known found, List.filter_map, List.map_map]
    have kept : ∀ other ∈ before.rows,
        (ofSession capture ∘ fun other => if other.id = row.id then row else other) other = ofSession capture other := by
      intro other there
      rw [Function.comp_apply]
      split
      · next here =>
        have equal : other = known := before.eq_of_key there member (here.trans (id.trans same))
        rw [session, equal, ours]
      · rfl
    rw [List.filter_congr kept]
    apply List.map_congr_left
    intro other _
    rw [Function.comp_apply]
    split
    · next here => exact here.symm
    · rfl
  · rfl

/-! ### Results -/

theorem persisted_new {queue : Scan QueueRow} {result : TranscriptSyncResult}
    (fresh : NewLocator ledger capture) (ran : persistSessionSnapshot hashes ledger scan queue capture now = .ok result) :
    result.source.id = ((resolved hashes ledger scan capture).map (·.id)).getD (capture.ownId hashes) ∧
      Wrote capture ledger.sources result.source result.ledger.sources := by
  have ⟨existing, id⟩ := @resolve_new hashes ledger capture scan fresh
  unfold persistSessionSnapshot at ran
  dsimp only at ran
  split at ran
  · cases ran
  · next source stored written =>
    obtain ⟨⟨job, selections, queued⟩, added, same⟩ := Lifecycle.map_ok ran
    cases same
    have own : ∀ known, (resolve hashes ledger scan capture).existing = some known →
        known ∈ ledger.sources.rows ∧ (resolve hashes ledger scan capture).sourceId = known.id := by
      intro known found
      rw [existing] at found
      rw [id, found]
      exact ⟨(mem_sessionSources.mp (resolved_stored found)).1, rfl⟩
    have ⟨sameId, wrote⟩ := storeCapture_wrote own written
    refine ⟨sameId.trans id, ?_⟩
    change Wrote capture ledger.sources source queued.sources
    rw [enqueue_sources added]
    exact wrote

theorem resolved_of_one (reuse : capture.reuseLogicalSession = true)
    (one : sessionSources ledger capture = [source]) : (resolved hashes ledger scan capture).map (·.id) = some source.id ↔
      source ∈ ledger.listSources scan capture.projectName capture.client defaultLimit ∨ continues hashes ledger capture source = true := by
  have ours : ∀ other, other ∈ sessionSources ledger capture ↔ other = source := fun other => one ▸ List.mem_singleton
  unfold resolved
  rw [if_pos reuse]
  by_cases listed : source ∈ ledger.listSources scan capture.projectName capture.client defaultLimit
  · rw [(findLogical_of_one one).mpr ⟨rfl, listed⟩]
    exact ⟨fun _ => .inl listed, fun _ => rfl⟩
  · have absent : findLogical ledger scan capture = none :=
      Option.eq_none_iff_forall_not_mem.mpr fun other found => listed ((findLogical_of_one one).mp found).2
    rw [absent, Option.none_or]
    constructor
    · intro found
      obtain ⟨other, moved, _⟩ := Option.map_eq_some_iff.mp found
      have matching := (findMovedSource_eq_some.mp moved other).mpr rfl
      exact .inr ((ours other).mp matching.1 ▸ matching.2)
    · intro shown
      have begins := shown.resolve_left listed
      rw [findMovedSource_eq_some.mpr]
      · rfl
      · intro other
        constructor
        · exact fun matching => (ours other).mp matching.1
        · rintro rfl
          exact ⟨(ours other).mpr rfl, begins⟩

theorem matching_of_proven (proven : Proven hashes ledger capture source) :
    Matching hashes ledger capture source :=
  let ⟨ours, bytes, read, _, begins⟩ := proven
  ⟨ours, continues_iff.mpr ⟨bytes, read, begins⟩⟩

theorem sole_proven_iff (sole : Sole (Matching hashes ledger capture) source) :
    Sole (Proven hashes ledger capture) source ↔ ledger.reconstructRaw hashes source.id source.sourceRevision ≠ .ok [] := by
  constructor
  · intro proven empty
    obtain ⟨_, bytes, read, filled, _⟩ := (proven source).mpr rfl
    rw [empty] at read
    cases read
    exact filled rfl
  · intro filled other
    constructor
    · exact fun proven => (sole other).mp (matching_of_proven proven)
    · rintro rfl
      have ⟨ours, begins⟩ := (sole other).mpr rfl
      obtain ⟨bytes, read, before⟩ := continues_iff.mp begins
      refine ⟨ours, bytes, read, ?_, before⟩
      rintro rfl
      exact filled read

/-- A capture at a new locator keeps the identity of its session exactly where its source can be resolved. -/
theorem identity_kept_iff {scan : Scan TranscriptSource} {queue : Scan QueueRow} {now : Time} {result : TranscriptSyncResult}
    (fresh : NewLocator ledger capture) (ran : persistSessionSnapshot hashes ledger scan queue capture now = .ok result) :
    IdentityKept hashes ledger capture result ↔ Resolvable hashes ledger scan capture := by
  have ⟨id, wrote⟩ := persisted_new fresh ran
  constructor
  · intro kept
    constructor
    · intro reuse source one
      have same := (kept.logical reuse source one).1
      rw [id] at same
      cases found : (resolved hashes ledger scan capture).map (·.id) with
      | none =>
        rw [found] at same
        exact .inr (.inr same.symm)
      | some known =>
        rw [found] at same
        have there : (resolved hashes ledger scan capture).map (·.id) = some source.id := found.trans (congrArg some same)
        exact ((resolved_of_one reuse one).mp there).imp_right .inl
    · intro apart source sole
      have moved : resolved hashes ledger scan capture = some source := by
        unfold resolved
        rw [apart]
        exact findMovedSource_eq_some.mpr sole
      rw [moved] at id
      have stored := (mem_sessionSources.mp ((sole source).mpr rfl).1).1
      exact (kept.moved apart source stored id.symm).imp_left (sole_proven_iff sole).mp
    · intro apart none_ source stored own
      have absent : resolved hashes ledger scan capture = none := by
        unfold resolved
        rw [apart]
        exact Option.eq_none_iff_forall_not_mem.mpr fun other found => none_ other (findMovedSource_eq_some.mp found)
      rw [absent] at id
      exact (kept.moved apart source stored (own.trans id.symm)).imp_right (·.1)
  · intro resolvable
    constructor
    · intro reuse source one
      have same : result.source.id = source.id := by
        rw [id]
        rcases resolvable.logical reuse source one with listed | begins | own
        · rw [(resolved_of_one reuse one).mpr (.inl listed)]
          rfl
        · rw [(resolved_of_one reuse one).mpr (.inr begins)]
          rfl
        · cases found : resolved hashes ledger scan capture with
          | none => exact own.symm
          | some known =>
            have ours := resolved_stored found
            rw [one] at ours
            rw [List.mem_singleton.mp ours]
            rfl
      have ours : source ∈ sessionSources ledger capture := one ▸ List.mem_singleton_self source
      have ⟨stored, session⟩ := mem_sessionSources.mp ours
      refine ⟨same, (wrote.session stored session same).trans ?_⟩
      change (sessionSources ledger capture).map (·.id) = [source.id]
      rw [one]
      rfl
    · intro apart source stored same
      cases moved : findMovedSource hashes ledger scan capture with
      | none =>
        have absent : resolved hashes ledger scan capture = none := by
          unfold resolved
          rw [apart, moved]
          rfl
        rw [absent] at id
        have own : source.id = capture.ownId hashes := same.trans id
        have nowhere : ∀ other, ¬ Sole (Matching hashes ledger capture) other := by
          intro other sole
          rw [findMovedSource_eq_some.mpr sole] at moved
          cases moved
        exact (resolvable.own apart nowhere source stored own).imp_right fun emptied => ⟨emptied, own⟩
      | some known =>
        have found : resolved hashes ledger scan capture = some known := by
          unfold resolved
          rw [apart, moved]
          rfl
        rw [found] at id
        have sole := findMovedSource_eq_some.mp moved
        have here : source = known :=
          ledger.sources.eq_of_key stored (mem_sessionSources.mp (resolved_stored found)).1 (same.trans id)
        subst here
        exact (resolvable.filled apart source sole).imp_left (sole_proven_iff sole).mpr

/-! ### Two captures of one session identifier -/

def textCapture (sourceUri : String) (texts : List String) : Capture where
  projectName := "project"
  projectRoot := "/project"
  client := "codex"
  sessionId := "s"
  sourceKind := "jsonl"
  sourceUri
  nativeBytes := encodeUtf8 (String.join texts)
  sourceText := String.join texts
  cut := fun sourceId revision => sampleChunks .spelled sourceId revision 0 0 texts

def firstSnapshot (sourceUri : String) (texts : List String) : LedgerOp :=
  let capture := textCapture sourceUri texts
  let source := captureSource .spelled capture ⟨none, capture.ownId .spelled, sourceUri⟩ 1
  .saveSnapshot source (capture.cut source.id source.sourceRevision) (some capture.nativeBytes)

def capturedOnce (texts : List String) : World := World.initial.after .spelled [⟨1, firstSnapshot "file:///a" texts⟩]

theorem newLocator_captured {texts : List String} {capture : Capture}
    (elsewhere : (capturedOnce texts).ledger.sources.rows.all (fun source => decide (source.identity ≠ capture.identity)) = true) :
    NewLocator (capturedOnce texts).ledger capture :=
  fun source member => of_decide_eq_true (List.all_eq_true.mp elsewhere source member)

/-- A transcript that has moved and grown goes to its source. -/
theorem identity_kept_moved : ∃ result,
    persistSessionSnapshot .spelled (capturedOnce ["a"]).ledger .insertion .insertion (textCapture "file:///b" ["a", "b"]) 2 = .ok result ∧
      (IdentityKept .spelled (capturedOnce ["a"]).ledger (textCapture "file:///b" ["a", "b"]) result ↔
        Resolvable .spelled (capturedOnce ["a"]).ledger .insertion (textCapture "file:///b" ["a", "b"])) ∧
      (capturedOnce ["a"]).ledger.sources.rows.map (·.id) = [result.source.id] := by
  have passes : ((persistSessionSnapshot .spelled (capturedOnce ["a"]).ledger .insertion .insertion
      (textCapture "file:///b" ["a", "b"]) 2).toOption.map fun result => [result.source.id]) =
        some ((capturedOnce ["a"]).ledger.sources.rows.map (·.id)) := by decide +kernel
  cases ran : persistSessionSnapshot .spelled (capturedOnce ["a"]).ledger .insertion .insertion (textCapture "file:///b" ["a", "b"]) 2 with
  | error failure =>
    rw [ran] at passes
    cases passes
  | ok result =>
    rw [ran] at passes
    exact ⟨result, rfl, identity_kept_iff (newLocator_captured (by decide +kernel)) ran, (Option.some.inj passes).symm⟩

/-- An empty capture is a beginning of every other: a second conversation goes to its source. -/
theorem identity_merged : ∃ world capture scan queue now result, Reachable .spelled world ∧ NewLocator world.ledger capture ∧
    persistSessionSnapshot .spelled world.ledger scan queue capture now = .ok result ∧
      ¬ IdentityKept .spelled world.ledger capture result := by
  have passes : ((persistSessionSnapshot .spelled (capturedOnce []).ledger .insertion .insertion
      (textCapture "file:///b" ["b"]) 2).toOption.map fun result => [result.source.id]) =
        some ((capturedOnce []).ledger.sources.rows.map (·.id)) := by decide +kernel
  cases ran : persistSessionSnapshot .spelled (capturedOnce []).ledger .insertion .insertion (textCapture "file:///b" ["b"]) 2 with
  | error failure =>
    rw [ran] at passes
    cases passes
  | ok result =>
    refine ⟨capturedOnce [], textCapture "file:///b" ["b"], .insertion, .insertion, 2, result, reachable_after (by decide),
      newLocator_captured (by decide +kernel), ran, ?_⟩
    intro kept
    rw [ran] at passes
    obtain ⟨source, rest, stored, id, _⟩ := List.map_eq_cons_iff.mp (Option.some.inj passes).symm
    have member : source ∈ (capturedOnce []).ledger.sources.rows := stored ▸ List.mem_cons_self ..
    have empty : (capturedOnce []).ledger.sources.rows.all (fun source => source.sessionId = "s" &&
        ((capturedOnce []).ledger.reconstructRaw .spelled source.id source.sourceRevision).toOption = some []) = true := by
      decide +kernel
    have ⟨session, read⟩ := (Bool.and_eq_true _ _).mp (List.all_eq_true.mp empty source member)
    rcases kept.moved rfl source member id with proven | ⟨emptied, _⟩
    · obtain ⟨_, bytes, found, filled, _⟩ := (proven source).mpr rfl
      rw [found] at read
      exact filled (Option.some.inj (of_decide_eq_true read))
    · rw [emptied.1] at session
      cases session

end HarnessMem.Archive
