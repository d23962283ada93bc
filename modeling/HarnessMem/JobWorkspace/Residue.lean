import HarnessMem.JobWorkspace.Files
import HarnessMem.Library.Results
import HarnessMem.Library.Text

/-! What is left in the workspace. A call that removes a candidate removes what
belongs to it, if it is not cut off on the way; expiry looks at the candidate files only.
-/

set_option autoImplicit false

namespace HarnessMem.JobWorkspace

open Library

/-- The calls of the workspace that write, with the clock readings they take. -/
inductive JobCall (β γ : Type) where
  | saveCandidate (candidate : Candidate β) (workspaceId : Option String) (now : Time)
  | saveEvidence (evidence : Evidence γ) (now later : Time)
  | saveUnresolvedDecision (decision : AssimilationDecision) (now : Time)
  | cleanupCandidate (candidateId : String)
  | cleanupWorkspace (workspaceId : String)
  | pruneExpired (ttlSeconds : Int) (now : Time)

/-- A call, and the number of its writes after which it is cut off, if it is. -/
structure Event (β γ : Type) where
  call : JobCall β γ
  cut : Option Nat := none

variable {β γ : Type} (host : Host β γ)

def Event.leaves (event : Event β γ) (workspace : Workspace β γ) : Option (Workspace β γ) :=
  match event.call with
  | .saveCandidate candidate workspaceId now =>
    Script.leaves (saveCandidate host candidate workspaceId now) workspace event.cut
  | .saveEvidence evidence now later => Script.leaves (saveEvidence host evidence now later) workspace event.cut
  | .saveUnresolvedDecision decision now =>
    Script.leaves (saveUnresolvedDecision host decision now) workspace event.cut
  | .cleanupCandidate candidateId => Script.leaves (cleanupCandidate host candidateId) workspace event.cut
  | .cleanupWorkspace workspaceId => Script.leaves (cleanupWorkspace host workspaceId) workspace event.cut
  | .pruneExpired ttlSeconds now => Script.leaves (pruneExpired host ttlSeconds now) workspace event.cut

def Step (workspace : Workspace β γ) (event : Event β γ) (after : Workspace β γ) : Prop :=
  event.leaves host workspace = some after

/-- The state a history of calls leaves. -/
abbrev Reached (history : List (Event β γ)) (workspace : Workspace β γ) : Prop :=
  Exec (Step host) .empty history workspace

namespace Workspace

variable (workspace : Workspace β γ)

/-- Evidence and decisions belong to a stored candidate of their project. -/
structure Belongs : Prop where
  evidence : ∀ file ∈ workspace.evidence.rows, ∃ owner ∈ workspace.candidates.rows,
    owner.data.id = file.data.candidateId ∧ owner.data.projectName = file.data.projectName
  decisions : ∀ file ∈ workspace.decisions.rows, ∃ owner ∈ workspace.candidates.rows,
    owner.data.id = file.data.candidateId ∧ owner.data.projectName = file.data.projectName

/-- The candidates of the evidence and of the decisions are stored. -/
structure Attached : Prop where
  evidence : ∀ file ∈ workspace.evidence.rows, ∃ owner ∈ workspace.candidates.rows, owner.data.id = file.data.candidateId
  decisions : ∀ file ∈ workspace.decisions.rows, ∃ owner ∈ workspace.candidates.rows, owner.data.id = file.data.candidateId

def Marked : Prop := ∀ file ∈ workspace.candidates.rows, hasVisible file.workspaceId = true

/-- The clock is past the time to live of every record. -/
structure Past (ttlSeconds : Nat) (now : Time) : Prop where
  candidates : ∀ file ∈ workspace.candidates.rows, file.updatedAt + seconds ttlSeconds < now
  evidence : ∀ file ∈ workspace.evidence.rows, file.updatedAt + seconds ttlSeconds < now
  decisions : ∀ file ∈ workspace.decisions.rows, file.updatedAt + seconds ttlSeconds < now

def Clear : Prop :=
  workspace.candidates.rows = [] ∧ workspace.evidence.rows = [] ∧ workspace.decisions.rows = []

def without (candidateIds : List String) : Workspace β γ where
  candidates := workspace.candidates.filter fun file => file.data.id ∉ candidateIds
  evidence := workspace.evidence.filter fun file => file.data.candidateId ∉ candidateIds
  decisions := workspace.decisions.filter fun file => file.data.candidateId ∉ candidateIds

def fileCount (candidateId : String) : Nat :=
  (if (workspace.candidates.get? candidateId).isSome then 1 else 0) +
    ((workspace.evidence.rows.filter fun file => file.data.candidateId = candidateId).length +
      (workspace.decisions.rows.filter fun file => file.data.candidateId = candidateId).length)

def Valid : Prop := ∀ file ∈ workspace.decisions.rows, hasVisible file.workspaceId = true

end Workspace

/-! ### Cleaning up, uncut -/

open Attempt

variable {host} {workspace : Workspace β γ} {candidateId : String}

theorem Workspace.dropCandidate_of_none (missing : workspace.candidates.get? candidateId = none) :
    workspace.dropCandidate candidateId = workspace := by
  unfold dropCandidate
  congr 1
  apply Table.eq_of_rows
  apply List.filter_eq_self.mpr
  intro file member
  exact decide_eq_true ((Table.get?_eq_none _ _).mp missing file member)

theorem unlinkCandidate_performs :
    Performs (unlinkCandidate candidateId : Call β γ Unit) workspace (workspace.dropCandidate candidateId)
      (if (workspace.candidates.get? candidateId).isSome then 1 else 0) := by
  unfold unlinkCandidate
  cases found : workspace.candidates.get? candidateId with
  | none =>
    rw [Workspace.dropCandidate_of_none found]
    apply Performs.ask
    · exact congrArg Except.ok found
    · exact Performs.pure workspace
  | some file =>
    apply Performs.ask
    · exact congrArg Except.ok found
    · exact Performs.write _ workspace

def Workspace.withoutEvidence (workspace : Workspace β γ) (keys : List (String × String)) : Workspace β γ :=
  { workspace with evidence := workspace.evidence.filter fun file => (file.data.candidateId, file.data.id) ∉ keys }

def Workspace.withoutDecisions (workspace : Workspace β γ) (decisionIds : List String) : Workspace β γ :=
  { workspace with decisions := workspace.decisions.filter fun file => file.data.id ∉ decisionIds }

theorem unlinkEvidence_performs (files : List (Wrapper (Evidence γ))) :
    Performs (each files unlinkEvidence : Call β γ Unit) workspace
      (workspace.withoutEvidence (files.map fun file => (file.data.candidateId, file.data.id))) files.length := by
  induction files generalizing workspace with
  | nil =>
    have same : workspace.withoutEvidence [] = workspace := by
      unfold Workspace.withoutEvidence
      congr 1
      exact Table.eq_of_rows (List.filter_eq_self.mpr (by simp))
    rw [List.map_nil, same]
    exact Performs.pure workspace
  | cons file rest ih =>
    have joined : (workspace.dropEvidence (file.data.candidateId, file.data.id)).withoutEvidence
        (rest.map fun file => (file.data.candidateId, file.data.id)) =
          workspace.withoutEvidence ((file :: rest).map fun file => (file.data.candidateId, file.data.id)) := by
      unfold Workspace.withoutEvidence Workspace.dropEvidence
      congr 1
      apply Table.eq_of_rows
      simp only [Table.rows_filter, List.filter_filter, List.map_cons, List.mem_cons, not_or, Bool.decide_and]
      exact List.filter_congr fun other _ => Bool.and_comm _ _
    rw [List.length_cons, Nat.add_comm, ← joined]
    exact Performs.bind (Performs.write _ workspace) ih

theorem removeEvidence_performs :
    Performs (removeEvidence host candidateId) workspace
      { workspace with evidence := workspace.evidence.filter fun file => file.data.candidateId ≠ candidateId }
      (workspace.evidence.rows.filter fun file => file.data.candidateId = candidateId).length := by
  unfold removeEvidence
  apply Performs.ask
  · rfl
  let own := workspace.evidence.rows.filter fun file => file.data.candidateId = candidateId
  have removes := @unlinkEvidence_performs β γ workspace (host.evidenceFiles.order own)
  rw [(host.evidenceFiles.perm own).length_eq] at removes
  have same : workspace.withoutEvidence ((host.evidenceFiles.order own).map fun file => (file.data.candidateId, file.data.id)) =
      { workspace with evidence := workspace.evidence.filter fun file => file.data.candidateId ≠ candidateId } := by
    unfold Workspace.withoutEvidence
    congr 1
    apply Table.eq_of_rows
    apply List.filter_congr
    intro file member
    rw [decide_eq_decide, not_iff_not, List.mem_map]
    constructor
    · rintro ⟨other, inside, key⟩
      have owned := (List.mem_filter.mp ((host.evidenceFiles.mem_order own other).mp inside)).2
      rw [← (Prod.mk.inj key).1]
      exact of_decide_eq_true owned
    · intro owned
      exact ⟨file, (host.evidenceFiles.mem_order own file).mpr (List.mem_filter.mpr ⟨member, decide_eq_true owned⟩), rfl⟩
  rw [same] at removes
  exact removes

theorem removeDecision_performs {files : List (Wrapper AssimilationDecision)}
    (valid : ∀ file ∈ files, hasVisible file.workspaceId = true) :
    Performs (each files (removeDecision candidateId) : Call β γ Unit) workspace
      (workspace.withoutDecisions ((files.filter fun file => file.data.candidateId = candidateId).map (·.data.id)))
      (files.filter fun file => file.data.candidateId = candidateId).length := by
  induction files generalizing workspace with
  | nil =>
    have same : workspace.withoutDecisions [] = workspace := by
      unfold Workspace.withoutDecisions
      congr 1
      exact Table.eq_of_rows (List.filter_eq_self.mpr (by simp))
    rw [List.filter_nil, List.map_nil, same]
    exact Performs.pure workspace
  | cons file rest ih =>
    obtain ⟨visible, others⟩ := List.forall_mem_cons.mp valid
    have read : readWrapper file = .ok file := if_pos visible
    by_cases own : file.data.candidateId = candidateId
    · have kept : (file :: rest).filter (fun file => file.data.candidateId = candidateId) =
          file :: rest.filter fun file => file.data.candidateId = candidateId :=
        List.filter_cons_of_pos (by simpa using own)
      have first : Performs (removeDecision candidateId file : Call β γ Unit) workspace (workspace.dropDecision file.data.id) 1 := by
        unfold removeDecision
        apply Performs.ask
        · exact read
        · rw [if_pos own]
          exact Performs.write _ workspace
      have joined : (workspace.dropDecision file.data.id).withoutDecisions
          ((rest.filter fun file => file.data.candidateId = candidateId).map (·.data.id)) =
            workspace.withoutDecisions ((file :: rest.filter fun file => file.data.candidateId = candidateId).map (·.data.id)) := by
        unfold Workspace.withoutDecisions Workspace.dropDecision
        congr 1
        apply Table.eq_of_rows
        simp only [Table.rows_filter, List.filter_filter, List.map_cons, List.mem_cons, not_or, Bool.decide_and]
        exact List.filter_congr fun other _ => Bool.and_comm _ _
      rw [kept, ← joined, List.length_cons, Nat.add_comm]
      exact first.bind (ih others)
    · have first : Performs (removeDecision candidateId file : Call β γ Unit) workspace workspace 0 := by
        unfold removeDecision
        apply Performs.ask
        · exact read
        · rw [if_neg own]
          exact Performs.pure workspace
      have dropped : (file :: rest).filter (fun file => file.data.candidateId = candidateId) =
          rest.filter fun file => file.data.candidateId = candidateId := List.filter_cons_of_neg (by simpa using own)
      rw [dropped, ← Nat.zero_add (List.length _)]
      exact first.bind (ih others)

theorem cleanupCandidate_performs (host : Host β γ) (candidateId : String) (valid : workspace.Valid) :
    Performs (cleanupCandidate host candidateId) workspace (workspace.without [candidateId]) (workspace.fileCount candidateId) := by
  have first := @unlinkCandidate_performs β γ workspace candidateId
  let emptied := workspace.dropCandidate candidateId
  have second := @removeEvidence_performs β γ host emptied candidateId
  let bare : Workspace β γ := { emptied with evidence := emptied.evidence.filter fun file => file.data.candidateId ≠ candidateId }
  let files := host.decisionFiles.order workspace.decisions.rows
  have readable : ∀ file ∈ files, hasVisible file.workspaceId = true := fun file member =>
    valid file ((host.decisionFiles.mem_order _ file).mp member)
  have third := @removeDecision_performs β γ bare candidateId files readable
  have count : (files.filter fun file => file.data.candidateId = candidateId).length =
      (workspace.decisions.rows.filter fun file => file.data.candidateId = candidateId).length :=
    ((host.decisionFiles.perm _).filter _).length_eq
  have same : bare.withoutDecisions ((files.filter fun file => file.data.candidateId = candidateId).map (·.data.id)) =
      workspace.without [candidateId] := by
    change Workspace.mk _ _ _ = Workspace.mk _ _ _
    congr 1
    · exact Table.eq_of_rows (List.filter_congr fun file _ => by simp)
    · exact Table.eq_of_rows (List.filter_congr fun file _ => by simp)
    · apply Table.eq_of_rows
      apply List.filter_congr
      intro file member
      rw [decide_eq_decide, not_iff_not, List.mem_map, List.mem_singleton]
      constructor
      · rintro ⟨other, inside, key⟩
        obtain ⟨listed, own⟩ := List.mem_filter.mp inside
        have stored := (host.decisionFiles.mem_order _ other).mp listed
        rw [← Table.eq_of_key workspace.decisions stored member key]
        exact of_decide_eq_true own
      · intro own
        have listed := (host.decisionFiles.mem_order _ file).mpr member
        exact ⟨file, List.mem_filter.mpr ⟨listed, decide_eq_true own⟩, rfl⟩
  rw [same, count] at third
  unfold cleanupCandidate Workspace.fileCount
  apply first.bind
  apply second.bind
  apply Performs.ask
  · rfl
  · exact third

theorem Workspace.Valid.without (valid : workspace.Valid) (candidateIds : List String) : (workspace.without candidateIds).Valid :=
  fun file member => valid file (List.mem_of_mem_filter member)

theorem Workspace.without_without (first second : List String) :
    (workspace.without first).without second = workspace.without (first ++ second) := by
  unfold Workspace.without
  congr 1
  all_goals
    apply Table.eq_of_rows
    simp only [Table.rows_filter, List.filter_filter, List.mem_append, not_or, Bool.decide_and]
    exact List.filter_congr fun _ _ => Bool.and_comm _ _

theorem Workspace.without_nil : workspace.without [] = workspace := by
  unfold Workspace.without
  cases workspace
  congr 1
  all_goals exact Table.eq_of_rows (List.filter_eq_self.mpr (by simp))

variable {candidateIds : List String}

theorem Workspace.fileCount_without (other : candidateId ∉ candidateIds) :
    (workspace.without candidateIds).fileCount candidateId = workspace.fileCount candidateId := by
  have stored : ((workspace.without candidateIds).candidates.get? candidateId) = workspace.candidates.get? candidateId := by
    unfold Workspace.without
    rw [Table.get?_filter]
    cases found : workspace.candidates.get? candidateId with
    | none => rfl
    | some file => simp [Table.key_of_get? found, other]
  have evidence : ((workspace.without candidateIds).evidence.rows.filter fun file => file.data.candidateId = candidateId) =
      workspace.evidence.rows.filter fun file => file.data.candidateId = candidateId := by
    unfold Workspace.without
    rw [Table.rows_filter, List.filter_filter]
    apply List.filter_congr
    intro file _
    by_cases own : file.data.candidateId = candidateId
    · simp [own, other]
    · simp [own]
  have decisions : ((workspace.without candidateIds).decisions.rows.filter fun file => file.data.candidateId = candidateId) =
      workspace.decisions.rows.filter fun file => file.data.candidateId = candidateId := by
    unfold Workspace.without
    rw [Table.rows_filter, List.filter_filter]
    apply List.filter_congr
    intro file _
    by_cases own : file.data.candidateId = candidateId
    · simp [own, other]
    · simp [own]
  unfold Workspace.fileCount
  rw [stored, evidence, decisions]

theorem cleanupEach_performs (host : Host β γ) (valid : workspace.Valid) (distinct : candidateIds.Nodup) :
    Performs (each candidateIds (cleanupCandidate host)) workspace (workspace.without candidateIds)
      (candidateIds.map workspace.fileCount).sum := by
  induction candidateIds generalizing workspace with
  | nil =>
    rw [Workspace.without_nil]
    exact Performs.pure workspace
  | cons candidateId rest ih =>
    rw [List.nodup_cons] at distinct
    have later := ih (valid.without [candidateId]) distinct.2
    have counts : rest.map (workspace.without [candidateId]).fileCount = rest.map workspace.fileCount := by
      apply List.map_congr_left
      intro other member
      apply Workspace.fileCount_without
      rw [List.mem_singleton]
      exact fun same => distinct.1 (same ▸ member)
    rw [counts, Workspace.without_without] at later
    exact (cleanupCandidate_performs host candidateId valid).bind later

/-! ### Expiry -/

variable {now : Time} {files : List (Wrapper (Candidate β))}

theorem all_expired {ttlSeconds : Nat}
    (marked : ∀ file ∈ files, hasVisible file.workspaceId = true)
    (past : ∀ file ∈ files, file.updatedAt + seconds ttlSeconds < now) :
    expiredCandidates ttlSeconds now files = .ok (files.map (·.data.id)) := by
  have reads : files.mapM readWrapper = .ok (files.map id) := mapM_ok fun file member => if_pos (marked file member)
  have expired : files.filter (isExpired ttlSeconds now) = files := by
    apply List.filter_eq_self.mpr
    intro file member
    have late : (file.updatedAt + ttlSeconds * 1000000 : Nat) < now := past file member
    have early := Int.ofNat_lt.mpr late
    apply decide_eq_true
    push_cast at early
    exact lt_sub_iff_add_lt'.mpr early
  unfold expiredCandidates
  rw [if_neg (by omega), reads, ok_bind, List.map_id, expired]
  rfl

variable {ttlSeconds : Int} {file : Wrapper (Candidate β)}

theorem expired_fails (member : file ∈ files) (blank : hasVisible file.workspaceId = false) :
    ∃ error, expiredCandidates ttlSeconds now files = .error error := by
  unfold expiredCandidates
  split
  · exact ⟨_, rfl⟩
  cases read : files.mapM readWrapper with
  | error error => exact ⟨error, rfl⟩
  | ok wrappers =>
    obtain ⟨wrapper, -, this⟩ := exists_of_forall₂ (forall₂_of_mapM read) file member
    rw [readWrapper, if_neg (by rw [blank]; exact Bool.false_ne_true)] at this
    cases this

theorem pruneExpired_of_ok {expired : List String}
    (listed : expiredCandidates ttlSeconds now (host.candidateFiles.order workspace.candidates.rows) = .ok expired) :
    (pruneExpired host ttlSeconds now) workspace =
      (each expired (cleanupCandidate host) >>= fun _ => pure expired.length) workspace := by
  apply ask_bind_of_ok
  exact listed

theorem pruneExpired_of_error {error : JobError}
    (fails : expiredCandidates ttlSeconds now (host.candidateFiles.order workspace.candidates.rows) = .error error) :
    (pruneExpired host ttlSeconds now) workspace = ⟨[], workspace, .error error⟩ := by
  apply ask_bind_of_error
  exact fails

/-- Past the time to live of all records, expiry that is not cut off clears the workspace exactly where every
record hangs on a candidate and every candidate file can be read. -/
theorem pruneExpired_clear_iff (valid : workspace.Valid) {ttlSeconds : Nat} (past : workspace.Past ttlSeconds now) :
    ((pruneExpired host ttlSeconds now) workspace).final.Clear ↔ workspace.Attached ∧ workspace.Marked := by
  let files := host.candidateFiles.order workspace.candidates.rows
  have listed : ∀ file, file ∈ files ↔ file ∈ workspace.candidates.rows := host.candidateFiles.mem_order _
  by_cases marked : workspace.Marked
  · have expired : expiredCandidates ttlSeconds now files = .ok (files.map (·.data.id)) :=
      all_expired (fun file member => marked file ((listed file).mp member))
        fun file member => past.candidates file ((listed file).mp member)
    have distinct : (files.map (·.data.id)).Nodup :=
      ((host.candidateFiles.perm _).map _).nodup_iff.mpr workspace.candidates.nodup
    have cleans := cleanupEach_performs host valid distinct
    have final : ((pruneExpired host ttlSeconds now) workspace).final = workspace.without (files.map (·.data.id)) := by
      rw [pruneExpired_of_ok expired, bind_of_ok cleans.returned, cleans.ended]
      rfl
    have gone : ∀ owner, (∃ file ∈ workspace.candidates.rows, file.data.id = owner) ↔ owner ∈ files.map (·.data.id) := by
      intro owner
      rw [List.mem_map]
      exact exists_congr fun file => and_congr_left fun _ => (listed file).symm
    rw [final]
    unfold Workspace.Clear Workspace.without
    simp only [Table.rows_filter, List.filter_eq_nil_iff, decide_eq_true_eq, not_not]
    constructor
    · rintro ⟨-, evidence, decisions⟩
      exact ⟨⟨fun file member => (gone _).mpr (evidence file member), fun file member => (gone _).mpr (decisions file member)⟩, marked⟩
    · rintro ⟨⟨evidence, decisions⟩, -⟩
      exact ⟨fun file member => (gone _).mp ⟨file, member, rfl⟩, fun file member => (gone _).mp (evidence file member),
        fun file member => (gone _).mp (decisions file member)⟩
  · obtain ⟨file, member, blank⟩ : ∃ file ∈ workspace.candidates.rows, hasVisible file.workspaceId = false := by
      unfold Workspace.Marked at marked
      push Not at marked
      simpa using marked
    obtain ⟨error, fails⟩ : ∃ error, expiredCandidates ttlSeconds now files = .error error :=
      expired_fails ((listed file).mpr member) blank
    rw [pruneExpired_of_error fails]
    constructor
    · rintro ⟨empty, -, -⟩
      rw [empty] at member
      cases member
    · exact fun both => absurd both.2 marked

/-! ### What a save leaves -/

theorem adhoc_visible (candidateId : String) : hasVisible (adhoc candidateId) = true := by
  unfold hasVisible adhoc
  rw [String.toList_append, List.any_append, Bool.or_eq_true]
  exact .inl (by decide)

theorem orElse_visible {text other : String} (first : text ≠ "" → hasVisible text = true) (second : hasVisible other = true) :
    hasVisible (orElse text other) = true := by
  unfold orElse
  split
  · exact second
  · next filled => exact first filled

variable {candidate : Candidate β}

theorem stored_of_getCandidate (read : workspace.getCandidate host candidateId = .ok (some candidate)) :
    ∃ file, workspace.candidates.get? candidateId = some file ∧ file.data = candidate ∧ hasVisible file.workspaceId = true := by
  unfold Workspace.getCandidate Workspace.candidateWrapper at read
  obtain ⟨wrapper, wrapped, read⟩ := bind_eq_ok.mp read
  cases found : workspace.candidates.get? candidateId with
  | none =>
    rw [found] at wrapped
    cases wrapped
    cases read
  | some file =>
    rw [found] at wrapped
    obtain ⟨_, visible, rfl⟩ := map_eq_ok.mp wrapped
    unfold readWrapper at visible
    split at visible
    · next shown =>
      cases visible
      obtain ⟨same, reread, read⟩ := bind_eq_ok.mp read
      cases read
      exact ⟨file, rfl, (host.candidate.faithful reread).symm, shown⟩
    · cases visible

theorem workspaceId_of_stored (found : workspace.candidates.get? candidateId = some file)
    (visible : hasVisible file.workspaceId = true) : workspace.workspaceIdForCandidate candidateId = .ok (some file.workspaceId) := by
  unfold Workspace.workspaceIdForCandidate Workspace.candidateWrapper
  rw [found]
  have read : readWrapper file = .ok file := if_pos visible
  change Except.map some (readWrapper file) >>= _ = _
  rw [read]
  rfl

theorem ensure_eq_ok {condition : Prop} [Decidable condition] {message : String} :
    ensure condition message = .ok () ↔ condition := by
  unfold ensure
  split
  · next holds => exact ⟨fun _ => holds, fun _ => rfl⟩
  · next fails => exact ⟨fun impossible => (by cases impossible), fun holds => absurd holds fails⟩

theorem getCandidate_of_stored (found : workspace.candidates.get? candidateId = some file)
    {read : Option (Candidate β)} (reads : workspace.getCandidate host candidateId = .ok read) : read = some file.data := by
  cases read with
  | none =>
    unfold Workspace.getCandidate Workspace.candidateWrapper at reads
    obtain ⟨wrapper, wrapped, reads⟩ := bind_eq_ok.mp reads
    rw [found] at wrapped
    obtain ⟨_, -, rfl⟩ := map_eq_ok.mp wrapped
    obtain ⟨_, -, reads⟩ := bind_eq_ok.mp reads
    cases reads
  | some candidate =>
    obtain ⟨other, there, same, -⟩ := stored_of_getCandidate reads
    rw [found] at there
    cases there
    rw [same]

theorem checkedScope_eq_ok {workspaceId : Option String} {scope : String}
    (checked : checkedScope host workspace candidate workspaceId = .ok scope) :
    (∀ file, workspace.candidates.get? candidate.id = some file → file.data.projectName = candidate.projectName) ∧
      scopeFor host workspace candidate.id workspaceId = .ok scope := by
  unfold checkedScope at checked
  obtain ⟨existing, read, checked⟩ := bind_eq_ok.mp checked
  obtain ⟨⟨⟩, same, checked⟩ := bind_eq_ok.mp checked
  obtain ⟨scope, scoping, checked⟩ := bind_eq_ok.mp checked
  obtain ⟨⟨⟩, -, checked⟩ := bind_eq_ok.mp checked
  cases checked
  refine ⟨fun file found => ?_, scoping⟩
  exact ensure_eq_ok.mp same file.data (getCandidate_of_stored found read)

theorem ownerOf_eq_ok {projectName missing foreign : String}
    (owned : ownerOf host workspace candidateId projectName missing foreign = .ok candidate) :
    ∃ file, workspace.candidates.get? candidateId = some file ∧ file.data = candidate ∧
      candidate.projectName = projectName ∧ hasVisible file.workspaceId = true := by
  unfold ownerOf at owned
  obtain ⟨read, reads, owned⟩ := bind_eq_ok.mp owned
  cases read with
  | none => cases owned
  | some own =>
    obtain ⟨⟨⟩, same, owned⟩ := bind_eq_ok.mp owned
    cases owned
    obtain ⟨file, found, stored, visible⟩ := stored_of_getCandidate reads
    exact ⟨file, found, stored, ensure_eq_ok.mp same, visible⟩

theorem evidenceScope_eq_ok {evidence : Evidence γ} {owner : Candidate β × String}
    (scoping : evidenceScope host workspace evidence = .ok owner) :
    ∃ file ∈ workspace.candidates.rows, file.data = owner.1 ∧ owner.1.id = evidence.candidateId ∧
      owner.1.projectName = evidence.projectName ∧ hasVisible owner.2 = true := by
  unfold evidenceScope at scoping
  obtain ⟨candidate, owned, scoping⟩ := bind_eq_ok.mp scoping
  obtain ⟨known, knows, scoping⟩ := bind_eq_ok.mp scoping
  cases scoping
  obtain ⟨file, found, rfl, same, visible⟩ := ownerOf_eq_ok owned
  rw [workspaceId_of_stored found visible] at knows
  cases knows
  have named : file.data.id = evidence.candidateId := @Table.key_of_get? _ _ _ _ workspace.candidates _ _ found
  refine ⟨file, Table.mem_of_get? found, rfl, named, same, ?_⟩
  exact orElse_visible hasVisible_stripped (orElse_visible (fun _ => visible) (adhoc_visible _))

theorem decisionScope_eq_ok {decision : AssimilationDecision} {scope : String}
    (scoping : decisionScope host workspace decision = .ok (some scope)) :
    ∃ file ∈ workspace.candidates.rows, file.data.id = decision.candidateId ∧
      file.data.projectName = decision.projectName ∧ hasVisible scope = true := by
  unfold decisionScope at scoping
  obtain ⟨⟨⟩, -, scoping⟩ := bind_eq_ok.mp scoping
  obtain ⟨candidate, owned, scoping⟩ := bind_eq_ok.mp scoping
  obtain ⟨known, knows, scoping⟩ := bind_eq_ok.mp scoping
  obtain ⟨file, found, rfl, same, visible⟩ := ownerOf_eq_ok owned
  have named : file.data.id = decision.candidateId := @Table.key_of_get? _ _ _ _ workspace.candidates _ _ found
  rw [named, workspaceId_of_stored found visible] at knows
  cases knows
  refine ⟨file, Table.mem_of_get? found, named, same, ?_⟩
  cases before : workspace.decisions.get? decision.id with
  | none =>
    rw [before] at scoping
    cases scoping
    exact orElse_visible (fun _ => visible) (adhoc_visible _)
  | some other =>
    rw [before] at scoping
    obtain ⟨_, -, scoping⟩ := bind_eq_ok.mp scoping
    obtain ⟨⟨⟩, -, scoping⟩ := bind_eq_ok.mp scoping
    cases scoping

section

variable {after : Workspace β γ} {cut : Option Nat}

variable {candidate : Candidate β} {workspaceId : Option String}

theorem saveCandidate_of_ok (now : Time) {scope : String}
    (checked : checkedScope host workspace candidate workspaceId = .ok scope) :
    (saveCandidate host candidate workspaceId now) workspace =
      ⟨[workspace], workspace.putCandidate ⟨scope, now, candidate⟩, .ok candidate.id⟩ := by
  apply ask_bind_of_ok
  exact checked

theorem saveCandidate_of_error (now : Time) {error : JobError}
    (fails : checkedScope host workspace candidate workspaceId = .error error) :
    (saveCandidate host candidate workspaceId now) workspace = ⟨[], workspace, .error error⟩ := by
  apply ask_bind_of_error
  exact fails

variable {now : Time}

theorem leaves_saveCandidate
    (left : Script.leaves (saveCandidate host candidate workspaceId now) workspace cut = some after) :
    after = workspace ∨ ∃ scope, checkedScope host workspace candidate workspaceId = .ok scope ∧
      after = workspace.putCandidate ⟨scope, now, candidate⟩ := by
  cases checked : checkedScope host workspace candidate workspaceId with
  | error error =>
    have course := saveCandidate_of_error now checked
    have unchanged := Script.leaves_of_nil (congrArg Course.before course) left
    exact .inl (unchanged.trans (congrArg Course.final course))
  | ok scope =>
    have course := saveCandidate_of_ok now checked
    rcases Script.leaves_cases left with ⟨-, rfl⟩ | ⟨writes, -, found⟩
    · exact .inr ⟨scope, rfl, congrArg Course.final course⟩
    · rw [course] at found
      cases writes with
      | zero => exact .inl (Option.some.inj found).symm
      | succ writes => cases found

theorem leaves_saveEvidence {evidence : Evidence γ} {later : Time}
    (left : Script.leaves (saveEvidence host evidence now later) workspace cut = some after) :
    after = workspace ∨ ∃ owner scope, evidenceScope host workspace evidence = .ok owner ∧
      checkedScope host workspace owner.1 (some owner.2) = .ok scope ∧
      (after = workspace.putCandidate ⟨scope, now, owner.1⟩ ∨
        after = (workspace.putCandidate ⟨scope, now, owner.1⟩).putEvidence ⟨owner.2, later, evidence⟩) := by
  cases scoping : evidenceScope host workspace evidence with
  | error error =>
    have course : (saveEvidence host evidence now later) workspace = ⟨[], workspace, .error error⟩ := by
      apply ask_bind_of_error
      exact scoping
    have unchanged := Script.leaves_of_nil (congrArg Course.before course) left
    exact .inl (unchanged.trans (congrArg Course.final course))
  | ok owner =>
    let rest : String → Call β γ String := fun _ => do
      Attempt.ask fun _ => encode host.evidence evidence
      Attempt.write fun workspace => workspace.putEvidence ⟨owner.2, later, evidence⟩
      return evidence.id
    have start : (saveEvidence host evidence now later) workspace =
        (saveCandidate host owner.1 (some owner.2) now >>= rest) workspace := by
      apply ask_bind_of_ok
      exact scoping
    cases checked : checkedScope host workspace owner.1 (some owner.2) with
    | error error =>
      have fails := saveCandidate_of_error now checked
      have course := start.trans (bind_of_error (congrArg Course.value fails))
      have unchanged := Script.leaves_of_nil ((congrArg Course.before course).trans (congrArg Course.before fails)) left
      exact .inl (unchanged.trans ((congrArg Course.final course).trans (congrArg Course.final fails)))
    | ok scope =>
      have saves := saveCandidate_of_ok now checked
      have course := start.trans (@bind_of_ok _ _ _ _ _ rest _ _ (congrArg Course.value saves))
      rw [saves] at course
      let saved := workspace.putCandidate ⟨scope, now, owner.1⟩
      have outcome : after = workspace ∨ after = saved ∨ after = saved.putEvidence ⟨owner.2, later, evidence⟩ := by
        cases encodes : encode host.evidence evidence with
        | error error =>
          have tail : rest owner.1.id saved = ⟨[], saved, .error error⟩ := by
            apply ask_bind_of_error
            exact encodes
          have whole := course.trans (congrArg (fun back : Course (Workspace β γ) (Except JobError String) =>
            Course.mk ([workspace] ++ back.before) back.final back.value) tail)
          rcases Script.leaves_cases left with ⟨-, rfl⟩ | ⟨writes, -, found⟩
          · exact .inr (.inl (congrArg Course.final whole))
          · rw [whole] at found
            cases writes with
            | zero => exact .inl (Option.some.inj found).symm
            | succ writes => cases found
        | ok written =>
          have tail : rest owner.1.id saved =
              ⟨[saved], saved.putEvidence ⟨owner.2, later, evidence⟩, .ok evidence.id⟩ := by
            apply ask_bind_of_ok
            exact encodes
          have whole := course.trans (congrArg (fun back : Course (Workspace β γ) (Except JobError String) =>
            Course.mk ([workspace] ++ back.before) back.final back.value) tail)
          have pair : ((saveEvidence host evidence now later) workspace).before = [workspace, saved] :=
            congrArg Course.before whole
          rcases Script.leaves_of_pair pair left with ⟨-, same⟩ | ⟨-, same⟩ | ⟨-, same⟩
          · exact .inr (.inr (same.trans (congrArg Course.final whole)))
          · exact .inl same
          · exact .inr (.inl same)
      exact outcome.imp_right fun moved => ⟨owner, scope, rfl, checked, moved⟩

theorem leaves_saveUnresolvedDecision {decision : AssimilationDecision}
    (left : Script.leaves (saveUnresolvedDecision host decision now) workspace cut = some after) :
    after = workspace ∨ ∃ scope, decisionScope host workspace decision = .ok (some scope) ∧
      after = workspace.putDecision ⟨scope, now, decision⟩ := by
  cases scoping : decisionScope host workspace decision with
  | error error =>
    have course : (saveUnresolvedDecision host decision now) workspace = ⟨[], workspace, .error error⟩ := by
      apply ask_bind_of_error
      exact scoping
    have unchanged := Script.leaves_of_nil (congrArg Course.before course) left
    exact .inl (unchanged.trans (congrArg Course.final course))
  | ok known =>
    cases known with
    | none =>
      have course : (saveUnresolvedDecision host decision now) workspace = ⟨[], workspace, .ok decision.id⟩ := by
        refine (@ask_bind_of_ok _ _ _ _ _ _ _ Option.none ?_).trans rfl
        exact scoping
      have unchanged := Script.leaves_of_nil (congrArg Course.before course) left
      exact .inl (unchanged.trans (congrArg Course.final course))
    | some scope =>
      have course : (saveUnresolvedDecision host decision now) workspace =
          ⟨[workspace], workspace.putDecision ⟨scope, now, decision⟩, .ok decision.id⟩ := by
        refine (@ask_bind_of_ok _ _ _ _ _ _ _ (some scope) ?_).trans rfl
        exact scoping
      rcases Script.leaves_cases left with ⟨-, rfl⟩ | ⟨writes, -, found⟩
      · exact .inr ⟨scope, rfl, congrArg Course.final course⟩
      · rw [course] at found
        cases writes with
        | zero => exact .inl (Option.some.inj found).symm
        | succ writes => cases found

end

/-! ### Where a cleanup is cut off -/

theorem readWrapper_eq_ok {α : Type} {file wrapper : Wrapper α} (read : readWrapper file = .ok wrapper) : wrapper = file := by
  unfold readWrapper at read
  split at read
  · exact (Except.ok.inj read).symm
  · cases read

theorem resolvedCandidates_sublist {workspaceId : String}
    (resolved : resolvedCandidates host workspaceId files = .ok candidateIds) :
    candidateIds.Sublist (files.map (·.data.id)) := by
  induction files generalizing candidateIds with
  | nil =>
    cases resolved
    exact .refl _
  | cons file rest ih =>
    unfold resolvedCandidates at resolved
    obtain ⟨wrapper, wrapped, chosen⟩ := bind_eq_ok.mp resolved
    rw [readWrapper_eq_ok wrapped] at chosen
    rw [List.map_cons]
    split at chosen
    · exact (ih chosen).cons _
    · obtain ⟨candidate, reread, chosen⟩ := bind_eq_ok.mp chosen
      obtain ⟨others, later, chosen⟩ := bind_eq_ok.mp chosen
      rw [host.candidate.faithful reread] at chosen
      cases chosen
      split
      · exact (ih later).cons_cons _
      · exact (ih later).cons _

theorem expiredCandidates_sublist (expired : expiredCandidates ttlSeconds now files = .ok candidateIds) :
    candidateIds.Sublist (files.map (·.data.id)) := by
  unfold expiredCandidates at expired
  split at expired
  · cases expired
  obtain ⟨wrappers, read, expired⟩ := bind_eq_ok.mp expired
  cases expired
  have same : wrappers = files := by
    have alike : List.Forall₂ (· = ·) files wrappers :=
      (forall₂_of_mapM read).imp fun _ _ step => (readWrapper_eq_ok step).symm
    rw [List.forall₂_eq_eq_eq] at alike
    exact alike.symm
  rw [same]
  exact List.filter_sublist.map _

def Workspace.Between (workspace : Workspace β γ) (candidateIds : List String) (cut : Option Nat) : Prop :=
  ∀ writes ∈ cut, ∃ done rest, candidateIds = done ++ rest ∧ writes = (done.map workspace.fileCount).sum

section

variable {after : Workspace β γ} {cut : Option Nat}

theorem leaves_cleanupEach {candidateIds : List String} (valid : workspace.Valid) (distinct : candidateIds.Nodup)
    (between : workspace.Between candidateIds cut)
    (left : Script.leaves (each candidateIds (cleanupCandidate host)) workspace cut = some after) :
    ∃ done, after = workspace.without done := by
  cases cut with
  | none => exact ⟨candidateIds, (Option.some.inj left).symm.trans (cleanupEach_performs host valid distinct).ended⟩
  | some writes =>
    obtain ⟨done, rest, rfl, rfl⟩ := between writes rfl
    clear between
    induction done generalizing workspace with
    | nil =>
      refine ⟨[], ?_⟩
      rw [Workspace.without_nil]
      exact (cleanupEach_performs host valid distinct).leaves_start left
    | cons candidateId done ih =>
      rw [List.cons_append, List.nodup_cons] at distinct
      rw [List.map_cons, List.sum_cons] at left
      have first := cleanupCandidate_performs host candidateId valid
      have later := (first.leaves_later _).symm.trans left
      have counts : done.map (workspace.without [candidateId]).fileCount = done.map workspace.fileCount := by
        apply List.map_congr_left
        intro other member
        apply Workspace.fileCount_without
        rw [List.mem_singleton]
        exact fun same => distinct.1 (List.mem_append_left _ (same ▸ member))
      rw [← counts] at later
      obtain ⟨gone, same⟩ := ih (valid.without _) distinct.2 later
      exact ⟨candidateId :: gone, by rw [same, Workspace.without_without]; rfl⟩

end

/-! ### Steps -/

namespace Event

variable (host) (event : Event β γ) (workspace : Workspace β γ)

def Spares : Prop :=
  match event.call with
  | .cleanupCandidate candidateId => workspace.Between [candidateId] event.cut
  | .cleanupWorkspace workspaceId => ∀ candidateIds,
    resolvedCandidates host workspaceId (host.candidateFiles.order workspace.candidates.rows) = .ok candidateIds →
      workspace.Between candidateIds event.cut
  | .pruneExpired ttlSeconds now => ∀ candidateIds,
    expiredCandidates ttlSeconds now (host.candidateFiles.order workspace.candidates.rows) = .ok candidateIds →
      workspace.Between candidateIds event.cut
  | _ => True

/-- A candidate saved without a workspace id does not get a blank one from its evidence. -/
def Names : Prop :=
  match event.call with
  | .saveCandidate candidate workspaceId _ => stripped (workspaceId.getD "") = "" →
    ∀ job, workspace.workspaceFromCandidateEvidence host candidate.id = .ok (some job) → hasVisible job = true
  | _ => True

end Event

section

variable {event : Event β γ} {after : Workspace β γ}

/-- What a step leaves: a file written, candidates removed whole, or any part of the files. -/
inductive Outcome (host : Host β γ) (workspace : Workspace β γ) (event : Event β γ) : Workspace β γ → Prop where
  | unchanged : Outcome host workspace event workspace
  | candidate {candidate : Candidate β} {workspaceId : Option String} {scope : String} (now : Time) :
      checkedScope host workspace candidate workspaceId = .ok scope →
      (event.Names host workspace → hasVisible scope = true) →
      Outcome host workspace event (workspace.putCandidate ⟨scope, now, candidate⟩)
  | evidence {owner : Candidate β × String} {evidence : Evidence γ} {scope : String} (now later : Time) :
      evidenceScope host workspace evidence = .ok owner →
      checkedScope host workspace owner.1 (some owner.2) = .ok scope → hasVisible scope = true →
      Outcome host workspace event ((workspace.putCandidate ⟨scope, now, owner.1⟩).putEvidence ⟨owner.2, later, evidence⟩)
  | decision {decision : AssimilationDecision} {scope : String} (now : Time) :
      decisionScope host workspace decision = .ok (some scope) →
      Outcome host workspace event (workspace.putDecision ⟨scope, now, decision⟩)
  | cleaned {after : Workspace β γ} : after.candidates.rows ⊆ workspace.candidates.rows →
      after.decisions.rows ⊆ workspace.decisions.rows →
      (event.Spares host workspace → ∃ done, after = workspace.without done) → Outcome host workspace event after

theorem scopeFor_given {workspaceId : Option String} {scope : String} (filled : stripped (workspaceId.getD "") ≠ "")
    (scoping : scopeFor host workspace candidateId workspaceId = .ok scope) : hasVisible scope = true := by
  unfold scopeFor at scoping
  dsimp only at scoping
  rw [if_pos filled] at scoping
  cases scoping
  exact hasVisible_stripped filled

theorem scopeFor_found {workspaceId : Option String} {scope : String} (blank : stripped (workspaceId.getD "") = "")
    (named : ∀ job, workspace.workspaceFromCandidateEvidence host candidateId = .ok (some job) → hasVisible job = true)
    (scoping : scopeFor host workspace candidateId workspaceId = .ok scope) : hasVisible scope = true := by
  unfold scopeFor at scoping
  dsimp only at scoping
  rw [if_neg (not_not.mpr blank)] at scoping
  obtain ⟨job, found, scoping⟩ := bind_eq_ok.mp scoping
  cases scoping
  cases job with
  | none => exact adhoc_visible candidateId
  | some job => exact named job found

theorem cleanupEach_within (host : Host β γ) (candidateIds : List String) :
    Script.Keeps (fun after => after.candidates.rows ⊆ workspace.candidates.rows ∧
      after.decisions.rows ⊆ workspace.decisions.rows) (each candidateIds (cleanupCandidate host)) := by
  have writes : ∀ change : Workspace β γ → Workspace β γ,
      (∀ before, (change before).candidates.rows ⊆ before.candidates.rows ∧
        (change before).decisions.rows ⊆ before.decisions.rows) →
      Script.Keeps (fun after => after.candidates.rows ⊆ workspace.candidates.rows ∧
        after.decisions.rows ⊆ workspace.decisions.rows) (Attempt.write change : Call β γ Unit) := by
    intro change fewer before held
    refine ⟨fun earlier member => List.mem_singleton.mp member ▸ held, ?_⟩
    exact ⟨List.Subset.trans (fewer before).1 held.1, List.Subset.trans (fewer before).2 held.2⟩
  apply Script.Keeps.each
  intro candidateId _
  apply Script.Keeps.attempt
  · apply Script.Keeps.attempt (Script.Keeps.query _)
    intro found
    cases found with
    | none => exact Script.Keeps.pure _
    | some file => exact writes _ fun before => ⟨List.filter_sublist.subset, List.Subset.refl _⟩
  intro _
  apply Script.Keeps.attempt
  · apply Script.Keeps.attempt (Script.Keeps.query _)
    intro files
    apply Script.Keeps.each
    intro file _
    exact writes _ fun before => ⟨List.Subset.refl _, List.Subset.refl _⟩
  intro _
  apply Script.Keeps.attempt (Script.Keeps.query _)
  intro files
  apply Script.Keeps.each
  intro file _
  apply Script.Keeps.attempt (Script.Keeps.query _)
  intro wrapper
  split
  · exact writes _ fun before => ⟨List.Subset.refl _, List.filter_sublist.subset⟩
  · exact Script.Keeps.pure _

theorem leaves_cleaned {candidateIds : List String} {cut : Option Nat} (valid : workspace.Valid)
    (distinct : candidateIds.Nodup) (spares : event.Spares host workspace → workspace.Between candidateIds cut)
    (left : Script.leaves (each candidateIds (cleanupCandidate host)) workspace cut = some after) :
    Outcome host workspace event after := by
  have within := (cleanupEach_within host candidateIds).leaves ⟨List.Subset.refl _, List.Subset.refl _⟩ left
  exact .cleaned within.1 within.2 fun held => leaves_cleanupEach valid distinct (spares held) left

theorem outcome_of_step (valid : workspace.Valid) (step : Step host workspace event after) :
    Outcome host workspace event after := by
  obtain ⟨call, cut⟩ := event
  have nodup : ((host.candidateFiles.order workspace.candidates.rows).map (·.data.id)).Nodup :=
    ((host.candidateFiles.perm _).map _).nodup_iff.mpr workspace.candidates.nodup
  cases call with
  | saveCandidate candidate workspaceId now =>
    rcases leaves_saveCandidate step with rfl | ⟨scope, checked, rfl⟩
    · exact .unchanged
    · refine .candidate now checked fun named => ?_
      have scoping := (checkedScope_eq_ok checked).2
      by_cases blank : stripped (workspaceId.getD "") = ""
      · exact scopeFor_found blank (named blank) scoping
      · exact scopeFor_given blank scoping
  | saveEvidence evidence now later =>
    rcases leaves_saveEvidence step with rfl | ⟨owner, scope, scoping, checked, written⟩
    · exact .unchanged
    · obtain ⟨file, member, _, _, _, visible⟩ := evidenceScope_eq_ok scoping
      have shown : hasVisible scope = true := by
        refine scopeFor_given ?_ (checkedScope_eq_ok checked).2
        rw [Option.getD_some, ne_eq, stripped_eq_empty_iff, visible]
        exact Bool.noConfusion
      rcases written with rfl | rfl
      · exact .candidate now checked fun _ => shown
      · exact .evidence now later scoping checked shown
  | saveUnresolvedDecision decision now =>
    rcases leaves_saveUnresolvedDecision step with rfl | ⟨scope, scoping, rfl⟩
    · exact .unchanged
    · exact .decision now scoping
  | cleanupCandidate candidateId =>
    have single : ∀ cut, Script.leaves (each [candidateId] (cleanupCandidate host)) workspace cut =
        Script.leaves (cleanupCandidate host candidateId) workspace cut :=
      (cleanupCandidate_performs host candidateId valid).leaves_return ()
    exact leaves_cleaned valid (List.nodup_singleton _) (fun held => held) ((single cut).trans step)
  | cleanupWorkspace workspaceId =>
    cases resolved : resolvedCandidates host workspaceId (host.candidateFiles.order workspace.candidates.rows) with
    | error error =>
      have course : (cleanupWorkspace host workspaceId) workspace = ⟨[], workspace, .error error⟩ := by
        apply ask_bind_of_error
        exact resolved
      have same := Script.leaves_of_nil (congrArg Course.before course) step
      rw [same, congrArg Course.final course]
      exact .unchanged
    | ok candidateIds =>
      have distinct := (resolvedCandidates_sublist resolved).nodup nodup
      have course : (cleanupWorkspace host workspaceId) workspace =
          (each candidateIds (cleanupCandidate host)).bind (fun _ => pure candidateIds.length) workspace := by
        apply ask_bind_of_ok
        exact resolved
      refine leaves_cleaned valid distinct (fun held => held _ resolved) ?_
      rw [← (cleanupEach_performs host valid distinct).leaves_return candidateIds.length cut]
      exact (Script.leaves_congr course cut).symm.trans step
  | pruneExpired ttlSeconds now =>
    cases expired : expiredCandidates ttlSeconds now (host.candidateFiles.order workspace.candidates.rows) with
    | error error =>
      have course := pruneExpired_of_error expired
      have same := Script.leaves_of_nil (congrArg Course.before course) step
      rw [same, congrArg Course.final course]
      exact .unchanged
    | ok candidateIds =>
      have distinct := (expiredCandidates_sublist expired).nodup nodup
      refine leaves_cleaned valid distinct (fun held => held _ expired) ?_
      rw [← (cleanupEach_performs host valid distinct).leaves_return candidateIds.length cut]
      exact (Script.leaves_congr (pruneExpired_of_ok expired) cut).symm.trans step

/-! ### Invariants -/

theorem Outcome.valid (outcome : Outcome host workspace event after) (valid : workspace.Valid) : after.Valid := by
  cases outcome with
  | unchanged => exact valid
  | candidate => exact valid
  | evidence => exact valid
  | decision now scoping =>
    obtain ⟨_, _, _, _, visible⟩ := decisionScope_eq_ok scoping
    intro file member
    rcases (Table.mem_upsert _ _ _).mp member with rfl | ⟨old, _⟩
    · exact visible
    · exact valid file old
  | cleaned _ decisions _ => exact fun file member => valid file (decisions member)

theorem Outcome.marked (outcome : Outcome host workspace event after) (names : event.Names host workspace)
    (marked : workspace.Marked) : after.Marked := by
  have put : ∀ {file : Wrapper (Candidate β)}, hasVisible file.workspaceId = true → (workspace.putCandidate file).Marked := by
    intro file visible other member
    rcases (Table.mem_upsert _ _ _).mp member with rfl | ⟨old, _⟩
    · exact visible
    · exact marked other old
  cases outcome with
  | unchanged => exact marked
  | candidate now _ visible => exact put (visible names)
  | evidence now later _ _ visible => exact @put ⟨_, now, _⟩ visible
  | decision => exact marked
  | cleaned candidates _ _ => exact fun file member => marked file (candidates member)

theorem Workspace.Belongs.putCandidate (belongs : workspace.Belongs) (file : Wrapper (Candidate β))
    (same : ∀ old, workspace.candidates.get? file.data.id = some old → old.data.projectName = file.data.projectName) :
    (workspace.putCandidate file).Belongs := by
  have owns : ∀ {candidateId projectName : String},
      (∃ owner ∈ workspace.candidates.rows, owner.data.id = candidateId ∧ owner.data.projectName = projectName) →
      ∃ owner ∈ (workspace.putCandidate file).candidates.rows, owner.data.id = candidateId ∧ owner.data.projectName = projectName := by
    rintro candidateId projectName ⟨owner, member, rfl, rfl⟩
    by_cases replaced : owner.data.id = file.data.id
    · refine ⟨file, (Table.mem_upsert _ _ _).mpr (.inl rfl), replaced.symm, ?_⟩
      apply Eq.symm
      apply same
      rw [← replaced]
      exact Table.get?_of_mem member
    · exact ⟨owner, (Table.mem_upsert _ _ _).mpr (.inr ⟨member, replaced⟩), rfl, rfl⟩
  exact ⟨fun other member => owns (belongs.evidence other member), fun other member => owns (belongs.decisions other member)⟩

theorem Workspace.Belongs.without (belongs : workspace.Belongs) (candidateIds : List String) :
    (workspace.without candidateIds).Belongs := by
  constructor
  · intro file member
    obtain ⟨stored, other⟩ := List.mem_filter.mp member
    obtain ⟨owner, there, named, same⟩ := belongs.evidence file stored
    exact ⟨owner, List.mem_filter.mpr ⟨there, by rw [named]; exact other⟩, named, same⟩
  · intro file member
    obtain ⟨stored, other⟩ := List.mem_filter.mp member
    obtain ⟨owner, there, named, same⟩ := belongs.decisions file stored
    exact ⟨owner, List.mem_filter.mpr ⟨there, by rw [named]; exact other⟩, named, same⟩

theorem Outcome.belongs (outcome : Outcome host workspace event after) (spares : event.Spares host workspace)
    (belongs : workspace.Belongs) : after.Belongs := by
  cases outcome with
  | unchanged => exact belongs
  | candidate now checked _ => exact belongs.putCandidate _ (checkedScope_eq_ok checked).1
  | @evidence owner evidence scope now later scoping checked _ =>
    obtain ⟨file, member, stored, named, project, _⟩ := evidenceScope_eq_ok scoping
    have saved := belongs.putCandidate ⟨scope, now, owner.1⟩ (checkedScope_eq_ok checked).1
    refine ⟨fun other there => ?_, saved.decisions⟩
    rcases (Table.mem_upsert _ _ _).mp there with rfl | ⟨old, _⟩
    · exact ⟨⟨scope, now, owner.1⟩, (Table.mem_upsert _ _ _).mpr (.inl rfl), named, project⟩
    · exact saved.evidence other old
  | @decision decision scope now scoping =>
    obtain ⟨file, member, named, project, _⟩ := decisionScope_eq_ok scoping
    refine ⟨belongs.evidence, fun other there => ?_⟩
    rcases (Table.mem_upsert _ _ _).mp there with rfl | ⟨old, _⟩
    · exact ⟨file, member, named, project⟩
    · exact belongs.decisions other old
  | cleaned _ _ whole =>
    obtain ⟨done, rfl⟩ := whole spares
    exact belongs.without done

end

/-! ### Histories -/

section

variable {history : List (Event β γ)}

/-- What an uninterrupted history leaves belongs to a stored candidate, and expiry clears what any history leaves. -/
structure NoResidue (host : Host β γ) : Prop where
  belongs : ∀ history workspace, Reached host history workspace → (∀ event ∈ history, event.cut = none) → workspace.Belongs
  cleared : ∀ history workspace, Reached host history workspace → ∀ ttlSeconds now, workspace.Past ttlSeconds now →
    ((pruneExpired host ttlSeconds now) workspace).final.Clear

theorem Workspace.empty_valid : (Workspace.empty : Workspace β γ).Valid := fun _ member => absurd member List.not_mem_nil

theorem Workspace.empty_marked : (Workspace.empty : Workspace β γ).Marked := fun _ member => absurd member List.not_mem_nil

theorem Workspace.empty_belongs : (Workspace.empty : Workspace β γ).Belongs :=
  ⟨fun _ member => absurd member List.not_mem_nil, fun _ member => absurd member List.not_mem_nil⟩

theorem valid_of_reached (reached : Reached host history workspace) : workspace.Valid :=
  reached.invariant Workspace.Valid (fun _ _ _ valid step => (outcome_of_step valid step).valid valid) Workspace.empty_valid

theorem Event.spares_of_uncut {event : Event β γ} (whole : event.cut = none) : event.Spares host workspace := by
  have between : ∀ candidateIds, workspace.Between candidateIds event.cut := by
    intro candidateIds writes cut
    rw [whole] at cut
    cases cut
  unfold Spares
  split
  · exact between _
  · exact fun candidateIds _ => between candidateIds
  · exact fun candidateIds _ => between candidateIds
  · trivial

theorem belongs_of_spared
    (run : Exec (Restrict (Step host) fun workspace event => event.Spares host workspace) .empty history workspace) :
    workspace.Valid ∧ workspace.Belongs :=
  run.invariant (fun workspace => workspace.Valid ∧ workspace.Belongs)
    (fun _ _ _ held step =>
      have outcome := outcome_of_step held.1 step.1
      ⟨outcome.valid held.1, outcome.belongs step.2 held.2⟩)
    ⟨Workspace.empty_valid, Workspace.empty_belongs⟩

theorem marked_of_named
    (run : Exec (Restrict (Step host) fun workspace event => event.Names host workspace) .empty history workspace) :
    workspace.Valid ∧ workspace.Marked :=
  run.invariant (fun workspace => workspace.Valid ∧ workspace.Marked)
    (fun _ _ _ held step =>
      have outcome := outcome_of_step held.1 step.1
      ⟨outcome.valid held.1, outcome.marked step.2 held.2⟩)
    ⟨Workspace.empty_valid, Workspace.empty_marked⟩

/-- Uninterrupted histories leave nothing without its candidate. Expiry clears what a history leaves exactly where
every record hangs on a stored candidate and no candidate file has a blank workspace id; it does after every history
whose cleanups are not cut off within one candidate and whose saves find no blank job. -/
theorem residue_iff (host : Host β γ) :
    (∀ history workspace, Reached host history workspace → (∀ event ∈ history, event.cut = none) → workspace.Belongs) ∧
    (∀ history workspace, Reached host history workspace → ∀ ttlSeconds now, workspace.Past ttlSeconds now →
      (((pruneExpired host ttlSeconds now) workspace).final.Clear ↔ workspace.Attached ∧ workspace.Marked)) ∧
    (∀ history workspace,
      Exec (Restrict (Step host) fun workspace event => event.Spares host workspace ∧ event.Names host workspace)
        .empty history workspace →
      ∀ ttlSeconds now, workspace.Past ttlSeconds now → ((pruneExpired host ttlSeconds now) workspace).final.Clear) := by
  refine ⟨?_, ?_, ?_⟩
  · intro history workspace reached uncut
    have spared := (reached.restrict uncut).mono fun start event next step =>
      (⟨step.1, Event.spares_of_uncut step.2⟩ : Restrict (Step host) (fun workspace event => event.Spares host workspace) start event next)
    exact (belongs_of_spared spared).2
  · intro history workspace reached ttlSeconds now past
    exact pruneExpired_clear_iff (valid_of_reached reached) past
  · intro history workspace run ttlSeconds now past
    have spared := belongs_of_spared (run.mono fun _ _ _ step => ⟨step.1, step.2.1⟩)
    have named := marked_of_named (run.mono fun _ _ _ step => ⟨step.1, step.2.2⟩)
    have attached : workspace.Attached :=
      ⟨fun file member => (spared.2.evidence file member).imp fun _ owner => ⟨owner.1, owner.2.1⟩,
        fun file member => (spared.2.decisions file member).imp fun _ owner => ⟨owner.1, owner.2.1⟩⟩
    exact (pruneExpired_clear_iff spared.1 past).mpr ⟨attached, named.2⟩

end

/-! ### A cleanup cut off after its first step -/

def plainSchema (α : Type) : Schema α := ⟨fun _ => true, .ok, fun read => (Except.ok.inj read).symm⟩

def plainHost : Host Unit Unit :=
  ⟨plainSchema _, plainSchema _, .spelled, .insertion, .insertion, .insertion⟩

/-- A candidate is saved with evidence and cleaned up; the process is cut off when the candidate file is gone. -/
def cutCleanup : List (Event Unit Unit) :=
  [⟨.saveCandidate ⟨"c", "p", .assimilated, ()⟩ (some "job") 1, none⟩,
    ⟨.saveEvidence ⟨"e", "p", "c", some "job", ()⟩ 2 3, none⟩,
    ⟨.cleanupCandidate "c", some 1⟩]

def strandedEvidence : Workspace Unit Unit :=
  Workspace.empty.putEvidence ⟨"job", 3, ⟨"e", "p", "c", some "job", ()⟩⟩

theorem cutCleanup_reached : Reached plainHost cutCleanup strandedEvidence :=
  .cons rfl (.cons rfl (.cons rfl (.nil _)))

theorem residue_left : ¬ NoResidue plainHost := by
  intro claim
  have past : strandedEvidence.Past 10 (seconds 60) :=
    ⟨by decide, by decide, by decide⟩
  have clear := claim.cleared cutCleanup strandedEvidence cutCleanup_reached 10 (seconds 60) past
  have attached := ((pruneExpired_clear_iff (valid_of_reached cutCleanup_reached) past).mp clear).1
  obtain ⟨owner, member, _⟩ := attached.evidence _ List.mem_cons_self
  cases member

end HarnessMem.JobWorkspace
