import HarnessMem.JobWorkspace.Admission
import HarnessMem.JobWorkspace.Residue

/-! Admitted candidates are read back. A record that cannot be read stops every listing,
so whether an admission is read back depends on all admissions before it.
-/

set_option autoImplicit false

namespace HarnessMem.JobWorkspace

open Library Attempt

/-! ### Reading a workspace without a bad record -/

section

variable {β γ : Type} (host : Host β γ)

def Wrapper.Read {α : Type} (schema : Schema α) (file : Wrapper α) : Prop :=
  hasVisible file.workspaceId = true ∧ schema.reread file.data = .ok file.data

/-- Every candidate and every piece of evidence is read. -/
structure Workspace.Readable (workspace : Workspace β γ) : Prop where
  candidates : ∀ file ∈ workspace.candidates.rows, file.Read host.candidate
  evidence : ∀ file ∈ workspace.evidence.rows, file.Read host.evidence

def Workspace.Spoiled (workspace : Workspace β γ) : Prop :=
  ∃ file ∈ workspace.candidates.rows, ¬ file.Read host.candidate

variable {host} {workspace : Workspace β γ}

variable {α : Type}

theorem Wrapper.Read.reads {schema : Schema α} {file : Wrapper α} (read : file.Read schema) :
    (do schema.reread (← readWrapper file).data) = Except.ok file.data := by
  have wrapped : readWrapper file = .ok file := if_pos read.1
  rw [wrapped, ok_bind]
  exact read.2

theorem Wrapper.read_of_reads {schema : Schema α} {file : Wrapper α} {value : α}
    (reads : (do schema.reread (← readWrapper file).data) = Except.ok value) : file.Read schema := by
  obtain ⟨wrapper, wrapped, reread⟩ := bind_eq_ok.mp reads
  unfold readWrapper at wrapped
  split at wrapped
  · next visible =>
    cases wrapped
    have same := schema.faithful reread
    rw [same] at reread
    exact ⟨visible, reread⟩
  · cases wrapped

theorem Wrapper.Read.under {schema : Schema α} {file : Wrapper α} (read : file.Read schema) {scope : String}
    (visible : hasVisible scope = true) (time : Time) : (⟨scope, time, file.data⟩ : Wrapper α).Read schema := ⟨visible, read.2⟩

theorem Workspace.mem_byName (hashes : Hashes) (id : α → String) (files : List (Wrapper α)) (file : Wrapper α) :
    file ∈ byName hashes id files ↔ file ∈ files := (List.perm_insertionSort _ _).mem_iff

theorem Workspace.listModels_of_read {α : Type} {schema : Schema α} {files : List (Wrapper α)}
    (read : ∀ file ∈ files, file.Read schema) : listModels schema files = .ok (files.map (·.data)) :=
  mapM_ok fun file member => (read file member).reads

theorem Workspace.read_of_listModels {schema : Schema α} {files : List (Wrapper α)} {values : List α}
    (listed : listModels schema files = .ok values) {file : Wrapper α} (member : file ∈ files) : file.Read schema := by
  obtain ⟨value, -, reads⟩ := exists_of_forall₂ (forall₂_of_mapM listed) file member
  exact Wrapper.read_of_reads reads

theorem Workspace.eq_of_listModels {schema : Schema α} {files : List (Wrapper α)} {values : List α}
    (listed : listModels schema files = .ok values) : values = files.map (·.data) := by
  have rounds := forall₂_of_mapM listed
  have same : List.Forall₂ (fun file value => file.data = value) files values := by
    apply rounds.imp
    intro file value reads
    obtain ⟨wrapper, wrapped, reread⟩ := bind_eq_ok.mp reads
    rw [schema.faithful reread, readWrapper_eq_ok wrapped]
  exact (List.forall₂_eq_eq_eq ▸ (List.forall₂_map_left_iff.mpr same) : files.map (·.data) = values).symm

namespace Workspace

theorem getCandidate_of_none {candidateId : String} (missing : workspace.candidates.get? candidateId = none) :
    workspace.getCandidate host candidateId = .ok none := by
  unfold Workspace.getCandidate candidateWrapper
  rw [missing]
  rfl

variable {file : Wrapper (Candidate β)}

theorem getCandidate_of_read {candidateId : String}
    (found : workspace.candidates.get? candidateId = some file) (read : file.Read host.candidate) :
    workspace.getCandidate host candidateId = .ok (some file.data) := by
  have wrapped : readWrapper file = .ok file := if_pos read.1
  unfold Workspace.getCandidate candidateWrapper
  rw [found]
  dsimp only
  rw [wrapped]
  change (do return some (← host.candidate.reread file.data)) = _
  rw [read.2]
  rfl

theorem Readable.getCandidate (readable : workspace.Readable host) (candidateId : String) :
    workspace.getCandidate host candidateId = .ok ((workspace.candidates.get? candidateId).map (·.data)) := by
  cases found : workspace.candidates.get? candidateId with
  | none => exact getCandidate_of_none found
  | some file => exact getCandidate_of_read found (readable.candidates file (Table.mem_of_get? found))

theorem Readable.listEvidence (readable : workspace.Readable host) (candidateId : String) :
    ∃ items, workspace.listEvidence host candidateId = .ok items ∧
      ∀ file ∈ workspace.evidence.rows, file.data.candidateId = candidateId → file.data ∈ items := by
  refine ⟨_, listModels_of_read fun file member => ?_, fun file member own => ?_⟩
  · exact readable.evidence file (List.mem_of_mem_filter ((mem_byName _ _ _ file).mp member))
  · exact List.mem_map.mpr ⟨file, (mem_byName _ _ _ file).mpr (List.mem_filter.mpr ⟨member, decide_eq_true own⟩), rfl⟩

theorem Readable.listCandidates (readable : workspace.Readable host) (projectName : String) :
    ∃ candidates, workspace.listCandidates host projectName = .ok candidates ∧
      ∀ file ∈ workspace.candidates.rows, file.data.projectName = projectName → file.data ∈ candidates := by
  have listed := @listModels_of_read _ host.candidate (byName host.hashes (·.id) workspace.candidates.rows)
    fun file member => readable.candidates file ((mem_byName _ _ _ file).mp member)
  let files := byName host.hashes (·.id) workspace.candidates.rows
  refine ⟨(files.map (·.data)).filter fun candidate => candidate.projectName = projectName, ?_, fun file member own => ?_⟩
  · unfold Workspace.listCandidates
    rw [listed]
    rfl
  · have inside : file.data ∈ files.map (·.data) := List.mem_map.mpr ⟨file, (mem_byName _ _ _ file).mpr member, rfl⟩
    exact List.mem_filter.mpr ⟨inside, decide_eq_true own⟩

theorem Spoiled.listCandidates (spoiled : workspace.Spoiled host) (projectName : String) (candidates : List (Candidate β)) :
    workspace.listCandidates host projectName ≠ .ok candidates := by
  obtain ⟨file, member, unread⟩ := spoiled
  intro listed
  obtain ⟨values, read, -⟩ := bind_eq_ok.mp listed
  exact unread (read_of_listModels read ((mem_byName _ _ _ file).mpr member))

theorem Readable.putCandidate (readable : workspace.Readable host)
    (read : file.Read host.candidate) : (workspace.putCandidate file).Readable host where
  candidates other member := by
    rcases (Table.mem_upsert _ _ _).mp member with rfl | ⟨kept, -⟩
    · exact read
    · exact readable.candidates other kept
  evidence := readable.evidence

theorem Readable.putEvidence (readable : workspace.Readable host) {file : Wrapper (Evidence γ)}
    (read : file.Read host.evidence) : (workspace.putEvidence file).Readable host where
  candidates := readable.candidates
  evidence other member := by
    rcases (Table.mem_upsert _ _ _).mp member with rfl | ⟨kept, -⟩
    · exact read
    · exact readable.evidence other kept

theorem mem_putCandidate {other : Wrapper (Candidate β)} (member : other ∈ workspace.candidates.rows)
    (differs : other.data.id ≠ file.data.id) : other ∈ (workspace.putCandidate file).candidates.rows :=
  (Table.mem_upsert _ _ _).mpr (.inr ⟨member, differs⟩)

theorem mem_putCandidate_self (file : Wrapper (Candidate β)) : file ∈ (workspace.putCandidate file).candidates.rows :=
  (Table.mem_upsert _ _ _).mpr (.inl rfl)

end Workspace

variable {file : Wrapper (Candidate β)}

theorem read_of_getCandidate {candidateId : String}
    (found : workspace.candidates.get? candidateId = some file) {read : Option (Candidate β)}
    (reads : workspace.getCandidate host candidateId = .ok read) : file.Read host.candidate := by
  unfold Workspace.getCandidate Workspace.candidateWrapper at reads
  rw [found] at reads
  obtain ⟨wrapper, wrapped, reads⟩ := bind_eq_ok.mp reads
  obtain ⟨inner, opened, rfl⟩ := map_eq_ok.mp wrapped
  obtain ⟨value, reread, -⟩ := bind_eq_ok.mp reads
  exact Wrapper.read_of_reads (bind_eq_ok.mpr ⟨inner, opened, reread⟩)

theorem read_of_evidenceScope {evidence : Evidence γ} {owner : Candidate β × String}
    (scoping : evidenceScope host workspace evidence = .ok owner)
    (found : workspace.candidates.get? evidence.candidateId = some file) : file.Read host.candidate ∧ owner.1 = file.data := by
  unfold evidenceScope ownerOf at scoping
  obtain ⟨candidate, owned, scoping⟩ := bind_eq_ok.mp scoping
  obtain ⟨read, reads, owned⟩ := bind_eq_ok.mp owned
  cases getCandidate_of_stored found reads
  obtain ⟨⟨⟩, -, owned⟩ := bind_eq_ok.mp owned
  cases owned
  obtain ⟨known, -, scoping⟩ := bind_eq_ok.mp scoping
  cases scoping
  exact ⟨read_of_getCandidate found reads, rfl⟩

theorem evidenceScope_of_read {evidence : Evidence γ}
    (found : workspace.candidates.get? evidence.candidateId = some file) (read : file.Read host.candidate)
    (project : file.data.projectName = evidence.projectName) :
    evidenceScope host workspace evidence = .ok (file.data,
      orElse (stripped (evidence.distillJobId.getD "")) (orElse file.workspaceId (adhoc evidence.candidateId))) := by
  have shared : ensure (file.data.projectName = evidence.projectName) "knowledge evidence must share the candidate project" =
      .ok () := ensure_eq_ok.mpr project
  have owned : ownerOf host workspace evidence.candidateId evidence.projectName
      "knowledge evidence requires an existing candidate" "knowledge evidence must share the candidate project" =
        .ok file.data := by
    unfold ownerOf
    rw [Workspace.getCandidate_of_read found read]
    change (do
      ensure (file.data.projectName = evidence.projectName) "knowledge evidence must share the candidate project"
      return file.data) = _
    rw [shared]
    rfl
  unfold evidenceScope
  rw [owned, ok_bind, workspaceId_of_stored found read.1]
  rfl

theorem checkedScope_given {candidate : Candidate β} {stored : Option (Candidate β)} {workspaceId : Option String}
    (reads : workspace.getCandidate host candidate.id = .ok stored)
    (project : ∀ previous ∈ stored, previous.projectName = candidate.projectName)
    (filled : stripped (workspaceId.getD "") ≠ "") (encodes : host.candidate.encodes candidate = true) :
    checkedScope host workspace candidate workspaceId = .ok (stripped (workspaceId.getD "")) := by
  have scoping : scopeFor host workspace candidate.id workspaceId = .ok (stripped (workspaceId.getD "")) := if_pos filled
  have encoded : encode host.candidate candidate = .ok () := if_pos encodes
  unfold checkedScope
  rw [reads, ok_bind, ensure_eq_ok.mpr project, ok_bind, scoping, ok_bind, encoded]
  rfl

/-- A save of evidence writes both files, the owner's alone, or nothing. -/
theorem saveEvidence_cases (evidence : Evidence γ) (now later : Time) :
    (∃ error, (saveEvidence host evidence now later workspace).value = .error error ∧
      (saveEvidence host evidence now later workspace).final = workspace ∧
      ∀ owner, evidenceScope host workspace evidence = .ok owner →
        ∀ scope, checkedScope host workspace owner.1 (some owner.2) ≠ .ok scope) ∨
    ∃ owner scope, evidenceScope host workspace evidence = .ok owner ∧
      checkedScope host workspace owner.1 (some owner.2) = .ok scope ∧
      ((∃ error, encode host.evidence evidence = .error error ∧
          (saveEvidence host evidence now later workspace).value = .error error ∧
          (saveEvidence host evidence now later workspace).final = workspace.putCandidate ⟨scope, now, owner.1⟩) ∨
        (saveEvidence host evidence now later workspace).value = .ok evidence.id ∧
          (saveEvidence host evidence now later workspace).final =
            (workspace.putCandidate ⟨scope, now, owner.1⟩).putEvidence ⟨owner.2, later, evidence⟩) := by
  cases scoping : evidenceScope host workspace evidence with
  | error error =>
    have course : saveEvidence host evidence now later workspace = ⟨[], workspace, .error error⟩ := by
      apply ask_bind_of_error
      exact scoping
    exact .inl ⟨error, congrArg Course.value course, congrArg Course.final course, fun _ impossible => by cases impossible⟩
  | ok owner =>
    let rest : String → Call β γ String := fun _ => do
      Attempt.ask fun _ => encode host.evidence evidence
      Attempt.write fun workspace => workspace.putEvidence ⟨owner.2, later, evidence⟩
      return evidence.id
    have start : saveEvidence host evidence now later workspace =
        (saveCandidate host owner.1 (some owner.2) now >>= rest) workspace := by
      apply ask_bind_of_ok
      exact scoping
    cases checked : checkedScope host workspace owner.1 (some owner.2) with
    | error error =>
      have fails := saveCandidate_of_error now checked
      have course := start.trans (bind_of_error (congrArg Course.value fails))
      refine .inl ⟨error, congrArg Course.value course, (congrArg Course.final course).trans (congrArg Course.final fails), ?_⟩
      intro other same scope written
      cases same
      exact absurd (checked.symm.trans written) (fun impossible => by cases impossible)
    | ok scope =>
      have saves := saveCandidate_of_ok now checked
      have course := start.trans (@bind_of_ok _ _ _ _ _ rest _ _ (congrArg Course.value saves))
      rw [saves] at course
      refine .inr ⟨owner, scope, rfl, checked, ?_⟩
      let saved := workspace.putCandidate ⟨scope, now, owner.1⟩
      cases encodes : encode host.evidence evidence with
      | error error =>
        have tail : rest owner.1.id saved = ⟨[], saved, .error error⟩ := by
          apply ask_bind_of_error
          exact encodes
        refine .inl ⟨error, rfl, (congrArg Course.value course).trans ?_, (congrArg Course.final course).trans ?_⟩
        · exact congrArg Course.value tail
        · exact congrArg Course.final tail
      | ok written =>
        have tail : rest owner.1.id saved =
            ⟨[saved], saved.putEvidence ⟨owner.2, later, evidence⟩, .ok evidence.id⟩ := by
          apply ask_bind_of_ok
          exact encodes
        refine .inr ⟨(congrArg Course.value course).trans ?_, (congrArg Course.final course).trans ?_⟩
        · exact congrArg Course.value tail
        · exact congrArg Course.final tail

end

/-! ### What an admission leaves -/

variable (machine : Machine)

def Admission.encodes (call : Admission) : Bool :=
  isEncodable call.assimilationDisposition && isEncodable call.assimilationReason && isEncodable call.canonicalTitle

def Admission.isValid (call : Admission) : Bool :=
  isDisposition call.assimilationDisposition && isOptionalText call.assimilationReason && isOptionalText call.canonicalTitle

/-- A call that passes its own checks and whose values have a JSON text gives values that the schema accepts, and
the job that the evidence of its candidate names first, if it names one, is not blank. -/
def Sound (workspace : Workspace Proposal EvidenceFields) (call : Admission) : Prop :=
  (∃ admitted, admission machine call workspace = .ok admitted) → call.encodes = true →
    call.isValid = true ∧ ∀ candidateId, call.candidateId = .str candidateId →
      ∀ job, workspace.workspaceFromCandidateEvidence machine.host candidateId = .ok (some job) → hasVisible job = true

def Admits (workspace : Workspace Proposal EvidenceFields) (call : Admission) (after : Workspace Proposal EvidenceFields) :
    Prop :=
  (admitSeparatedCandidate machine call workspace).final = after

/-- The candidate and the evidence that a call saved are read, and so is everything else. -/
structure ReadsBack (after : Workspace Proposal EvidenceFields) (saved : Candidate Proposal)
    (evidence : Evidence EvidenceFields) : Prop where
  candidate : after.getCandidate machine.host saved.id = .ok (some saved)
  evidence : ∃ items, after.listEvidence machine.host saved.id = .ok items ∧ evidence ∈ items
  listed : ∃ candidates, after.listCandidates machine.host saved.projectName = .ok candidates ∧ saved ∈ candidates
  others : ∀ candidateId, (∃ read, after.getCandidate machine.host candidateId = .ok read) ∧
    ∃ items, after.listEvidence machine.host candidateId = .ok items

variable {machine} {workspace : Workspace Proposal EvidenceFields} {call : Admission}

/-- What the checks before the first write have found. -/
structure Admitted.From (admitted : Admitted) (machine : Machine) (workspace : Workspace Proposal EvidenceFields)
    (call : Admission) : Prop where
  named : call.candidateId = .str admitted.candidate.id
  known : ∃ read, workspace.getCandidate machine.host admitted.candidate.id = .ok read ∧
    ∀ stored ∈ read, stored.projectName = admitted.candidate.projectName
  disposition : admitted.candidate.fields.assimilationDisposition = call.assimilationDisposition
  reason : admitted.candidate.fields.assimilationReason = call.assimilationReason
  title : admitted.candidate.fields.canonicalTitle = call.canonicalTitle
  waits : admitted.candidate.status = .pending
  cited : ∃ arguments, call.verificationRefs = .ok arguments ∧ evidenceRefs machine arguments = .ok admitted.refs
  validated : ∃ subject, subject.evidenceBasis = call.evidenceBasis ∧
    subject.verificationOutcome = call.verificationOutcome ∧ subject.verificationRefs = admitted.refs ∧
    call.validateCandidateEvidence subject = .ok admitted.validation

theorem refuse_eq_ok {α : Type} {result : Except Staging.Raised α} {value : α} (passes : refuse result = .ok value) :
    result = .ok value := by
  cases result with
  | ok other =>
    cases passes
    rfl
  | error raised => cases raised <;> cases passes

theorem proposalBase_eq_ok {candidateId : String} {kind : CandidateType} {statement : String}
    {base : Candidate Proposal × Bool} (based : proposalBase machine workspace call candidateId kind statement = .ok base) :
    base.1.id = candidateId ∧ base.1.status = .pending ∧ ∃ read, workspace.getCandidate machine.host candidateId = .ok read ∧
      ∀ stored ∈ read, stored.projectName = base.1.projectName := by
  unfold proposalBase at based
  obtain ⟨read, reads, based⟩ := bind_eq_ok.mp based
  cases read with
  | none =>
    obtain ⟨made, new, based⟩ := bind_eq_ok.mp based
    cases based
    unfold newCandidate at new
    split at new
    · split at new
      · cases new
        exact ⟨rfl, rfl, none, reads, fun stored impossible => by cases impossible⟩
      · cases new
    · cases new
  | some candidate =>
    obtain ⟨⟨⟩, -, based⟩ := bind_eq_ok.mp based
    obtain ⟨⟨⟩, waiting, based⟩ := bind_eq_ok.mp based
    cases based
    obtain ⟨file, found, same, -⟩ := stored_of_getCandidate reads
    refine ⟨?_, ensure_eq_ok.mp waiting, some candidate, reads, fun stored member => by cases member; rfl⟩
    rw [← same]
    exact @Table.key_of_get? _ _ _ _ workspace.candidates _ _ found

theorem assigned_eq_ok {candidate proposed : Candidate Proposal} (assigns : assigned machine call candidate = .ok proposed) :
    proposed.id = candidate.id ∧ proposed.projectName = candidate.projectName ∧ proposed.status = candidate.status ∧
      proposed.fields.assimilationDisposition = call.assimilationDisposition ∧
      proposed.fields.assimilationReason = call.assimilationReason ∧
      proposed.fields.canonicalTitle = call.canonicalTitle := by
  unfold assigned at assigns
  obtain ⟨targetIds, -, assigns⟩ := bind_eq_ok.mp assigns
  obtain ⟨targetValues, -, assigns⟩ := bind_eq_ok.mp assigns
  obtain ⟨targets, -, assigns⟩ := bind_eq_ok.mp assigns
  obtain ⟨topic, -, assigns⟩ := bind_eq_ok.mp assigns
  cases assigns
  exact ⟨rfl, rfl, rfl, rfl, rfl, rfl⟩

variable {admitted : Admitted}

theorem admission_eq_ok (passes : admission machine call workspace = .ok admitted) :
    admitted.From machine workspace call := by
  unfold admission at passes
  obtain ⟨kind, -, passes⟩ := bind_eq_ok.mp passes
  obtain ⟨⟨⟩, -, passes⟩ := bind_eq_ok.mp passes
  obtain ⟨candidateId, text, passes⟩ := bind_eq_ok.mp passes
  obtain ⟨base, based, passes⟩ := bind_eq_ok.mp passes
  obtain ⟨arguments, refArguments, passes⟩ := bind_eq_ok.mp passes
  obtain ⟨refs, cited, passes⟩ := bind_eq_ok.mp passes
  obtain ⟨⟨⟩, -, passes⟩ := bind_eq_ok.mp passes
  obtain ⟨candidate, assigns, passes⟩ := bind_eq_ok.mp passes
  obtain ⟨codes, -, passes⟩ := bind_eq_ok.mp passes
  obtain ⟨validation, validates, passes⟩ := bind_eq_ok.mp passes
  cases passes
  obtain ⟨rfl, waiting, known⟩ := proposalBase_eq_ok based
  obtain ⟨id, project, status, disposition, reason, title⟩ := assigned_eq_ok assigns
  have given : call.candidateId = .str base.1.id := by
    unfold textOf at text
    split at text
    · next value shape => rw [shape, Except.ok.inj text]
    · cases text
  refine ⟨given.trans (congrArg PyValue.str id.symm), ?_, disposition, reason, title, status.trans waiting,
    ⟨arguments, refuse_eq_ok refArguments, cited⟩, _, rfl, rfl, rfl, refuse_eq_ok validates⟩
  change ∃ read, workspace.getCandidate machine.host candidate.id = .ok read ∧ ∀ stored ∈ read, stored.projectName = candidate.projectName
  rw [id, project]
  exact known

/-- What a call leaves and how it ends. -/
inductive AdmissionOutcome (machine : Machine) (workspace : Workspace Proposal EvidenceFields) (call : Admission) :
    Workspace Proposal EvidenceFields → Except JobError (Candidate Proposal × Bool) → Prop where
  | unwritten {error : JobError} :
      (∀ admitted, admission machine call workspace = .ok admitted →
        ∀ scope, checkedScope machine.host workspace admitted.candidate none ≠ .ok scope) →
      AdmissionOutcome machine workspace call workspace (.error error)
  | candidateOnly {admitted : Admitted} {scope : String} {error : JobError} :
      admission machine call workspace = .ok admitted →
      checkedScope machine.host workspace admitted.candidate none = .ok scope →
      (∀ evidence, admitted.evidence machine call = .ok evidence → ∀ owner,
        evidenceScope machine.host (workspace.putCandidate ⟨scope, call.readings.candidateFile, admitted.candidate⟩) evidence =
          .ok owner →
        ∀ ownerScope, checkedScope machine.host
          (workspace.putCandidate ⟨scope, call.readings.candidateFile, admitted.candidate⟩) owner.1 (some owner.2) ≠
            .ok ownerScope) →
      AdmissionOutcome machine workspace call
        (workspace.putCandidate ⟨scope, call.readings.candidateFile, admitted.candidate⟩) (.error error)
  | both {admitted : Admitted} {scope ownerScope evidenceScope : String} {evidence : Evidence EvidenceFields} :
      admission machine call workspace = .ok admitted →
      checkedScope machine.host workspace admitted.candidate none = .ok scope →
      admitted.evidence machine call = .ok evidence →
      (⟨scope, call.readings.candidateFile, admitted.candidate⟩ : Wrapper (Candidate Proposal)).Read machine.host.candidate →
      hasVisible ownerScope = true → hasVisible evidenceScope = true →
      AdmissionOutcome machine workspace call
        (((workspace.putCandidate ⟨scope, call.readings.candidateFile, admitted.candidate⟩).putCandidate
          ⟨ownerScope, call.readings.ownerFile, admitted.candidate⟩).putEvidence
            ⟨evidenceScope, call.readings.evidenceFile, evidence⟩)
        (.ok (admitted.candidate, admitted.replay))

variable {evidence : Evidence EvidenceFields}

theorem Admitted.evidence_eq_ok (made : admitted.evidence machine call = .ok evidence) :
    evidence.candidateId = admitted.candidate.id ∧ evidence.projectName = admitted.candidate.projectName := by
  unfold Admitted.evidence at made
  obtain ⟨distillJobId, -, made⟩ := bind_eq_ok.mp made
  obtain ⟨basis, -, made⟩ := bind_eq_ok.mp made
  obtain ⟨outcome, -, made⟩ := bind_eq_ok.mp made
  cases made
  exact ⟨rfl, rfl⟩

theorem admission_outcome (machine : Machine) (workspace : Workspace Proposal EvidenceFields) (call : Admission) :
    AdmissionOutcome machine workspace call (admitSeparatedCandidate machine call workspace).final
      (admitSeparatedCandidate machine call workspace).value := by
  cases passes : admission machine call workspace with
  | error error =>
    have course : admitSeparatedCandidate machine call workspace = ⟨[], workspace, .error error⟩ := by
      apply ask_bind_of_error
      exact passes
    rw [course]
    refine .unwritten fun admitted impossible => ?_
    rw [passes] at impossible
    cases impossible
  | ok admitted =>
    have course : admitSeparatedCandidate machine call workspace = admitted.save machine call workspace := by
      apply ask_bind_of_ok
      exact passes
    rw [course]
    let rest : String → JobWorkspace.Call Proposal EvidenceFields (Candidate Proposal × Bool) := fun _ => do
      let evidence ← Attempt.ask fun _ => admitted.evidence machine call
      let _ ← saveEvidence machine.host evidence call.readings.ownerFile call.readings.evidenceFile
      return (admitted.candidate, admitted.replay)
    have start : admitted.save machine call workspace =
        (saveCandidate machine.host admitted.candidate none call.readings.candidateFile >>= rest) workspace := rfl
    cases checked : checkedScope machine.host workspace admitted.candidate none with
    | error error =>
      have fails := saveCandidate_of_error call.readings.candidateFile checked
      rw [start, bind_of_error (congrArg Course.value fails), fails]
      refine .unwritten fun other passed scope impossible => ?_
      rw [passes] at passed
      cases passed
      rw [checked] at impossible
      cases impossible
    | ok scope =>
      have saves := saveCandidate_of_ok call.readings.candidateFile checked
      let file : Wrapper (Candidate Proposal) := ⟨scope, call.readings.candidateFile, admitted.candidate⟩
      let saved := workspace.putCandidate file
      have second := start.trans (@bind_of_ok _ _ _ _ _ rest _ _ (congrArg Course.value saves))
      rw [saves] at second
      rw [second]
      change AdmissionOutcome machine workspace call (rest admitted.candidate.id saved).final
        (rest admitted.candidate.id saved).value
      cases made : admitted.evidence machine call with
      | error error =>
        have tail : rest admitted.candidate.id saved = ⟨[], saved, .error error⟩ := by
          apply ask_bind_of_error
          exact made
        rw [tail]
        refine .candidateOnly passes checked fun evidence impossible => ?_
        rw [made] at impossible
        cases impossible
      | ok evidence =>
        let last : String → JobWorkspace.Call Proposal EvidenceFields (Candidate Proposal × Bool) := fun _ =>
          return (admitted.candidate, admitted.replay)
        have third : rest admitted.candidate.id saved =
            (saveEvidence machine.host evidence call.readings.ownerFile call.readings.evidenceFile >>= last) saved := by
          apply ask_bind_of_ok
          exact made
        rw [third]
        obtain ⟨same, project⟩ := Admitted.evidence_eq_ok made
        rcases @saveEvidence_cases _ _ machine.host saved evidence call.readings.ownerFile call.readings.evidenceFile with
          ⟨error, value, final, refused⟩ | ⟨owner, ownerScope, scoping, owned, written⟩
        · rw [bind_of_error value]
          dsimp only
          rw [final]
          refine .candidateOnly passes checked fun other remade => ?_
          cases made.symm.trans remade
          exact refused
        · have found : saved.candidates.get? evidence.candidateId = some file := by
            rw [same]
            exact (@Table.get?_upsert _ _ _ _ workspace.candidates file _).trans (if_pos rfl)
          obtain ⟨read, stored⟩ := read_of_evidenceScope scoping found
          obtain ⟨-, -, -, -, -, visible⟩ := evidenceScope_eq_ok scoping
          have filled : stripped ((some owner.2).getD "") ≠ "" := by
            intro blank
            rw [stripped_eq_empty_iff, Option.getD_some, visible] at blank
            cases blank
          have marked := scopeFor_given filled (checkedScope_eq_ok owned).2
          rcases written with ⟨error, encodes, -, -⟩ | ⟨value, final⟩
          · cases encodes
          · rw [bind_of_ok value, final]
            dsimp only
            rw [stored]
            exact .both passes checked made read marked visible

/-! ### Runs of admissions -/

theorem reread_candidate (machine : Machine) {candidate : Candidate Proposal} (encodes : candidate.fields.encodes = true) :
    machine.host.candidate.reread candidate =
      if candidate.fields.isValid then .ok candidate else .error (.validationError "KnowledgeCandidate") := by
  unfold Machine.host
  exact candidateSchema_reread machine.schemas machine.python.repr encodes

theorem reread_evidence (machine : Machine) (evidence : Evidence EvidenceFields) :
    machine.host.evidence.reread evidence = .ok evidence := by
  unfold Machine.host
  exact evidenceSchema_reread machine.schemas machine.hashes evidence

variable {scope : String}

theorem evidence_read (machine : Machine) (visible : hasVisible scope = true) (time : Time)
    (evidence : Evidence EvidenceFields) :
    (⟨scope, time, evidence⟩ : Wrapper (Evidence EvidenceFields)).Read machine.host.evidence :=
  And.intro visible (reread_evidence machine evidence)

theorem Admitted.From.encodes (facts : admitted.From machine workspace call) :
    admitted.candidate.fields.encodes = call.encodes := by
  unfold Proposal.encodes Admission.encodes
  rw [facts.disposition, facts.reason, facts.title]

theorem Admitted.From.isValid (facts : admitted.From machine workspace call) :
    admitted.candidate.fields.isValid = call.isValid := by
  unfold Proposal.isValid Admission.isValid
  rw [facts.disposition, facts.reason, facts.title]

theorem encodes_of_checkedScope {candidate : Candidate Proposal} {workspaceId : Option String}
    (checked : checkedScope machine.host workspace candidate workspaceId = .ok scope) : candidate.fields.encodes = true := by
  unfold checkedScope at checked
  obtain ⟨existing, -, checked⟩ := bind_eq_ok.mp checked
  obtain ⟨⟨⟩, -, checked⟩ := bind_eq_ok.mp checked
  obtain ⟨found, -, checked⟩ := bind_eq_ok.mp checked
  obtain ⟨⟨⟩, encoded, -⟩ := bind_eq_ok.mp checked
  unfold encode at encoded
  split at encoded
  · next encodes => exact encodes
  · cases encoded

theorem Sound.read (sound : Sound machine workspace call)
    (passes : admission machine call workspace = .ok admitted)
    (checked : checkedScope machine.host workspace admitted.candidate none = .ok scope) (time : Time) :
    (⟨scope, time, admitted.candidate⟩ : Wrapper (Candidate Proposal)).Read machine.host.candidate := by
  have facts := admission_eq_ok passes
  have encodes := encodes_of_checkedScope checked
  obtain ⟨valid, named⟩ := sound ⟨admitted, passes⟩ (facts.encodes.symm.trans encodes)
  have visible := scopeFor_found rfl (named admitted.candidate.id facts.named) (checkedScope_eq_ok checked).2
  have reread := reread_candidate machine encodes
  rw [facts.isValid, valid] at reread
  exact ⟨visible, reread⟩

variable {after : Workspace Proposal EvidenceFields} {result : Except JobError (Candidate Proposal × Bool)}

theorem AdmissionOutcome.readable (outcome : AdmissionOutcome machine workspace call after result)
    (readable : workspace.Readable machine.host) (sound : Sound machine workspace call) : after.Readable machine.host := by
  cases outcome with
  | unwritten => exact readable
  | candidateOnly passes checked failed => exact readable.putCandidate (sound.read passes checked _)
  | both passes checked made read owned visible =>
    have first := readable.putCandidate read
    have second := first.putCandidate (read.under owned call.readings.ownerFile)
    exact second.putEvidence (evidence_read machine visible _ _)

theorem AdmissionOutcome.readable_of_returned
    {result : Candidate Proposal × Bool} (outcome : AdmissionOutcome machine workspace call after (.ok result))
    (readable : workspace.Readable machine.host) : after.Readable machine.host := by
  cases outcome with
  | both passes checked made read owned visible =>
    have first := readable.putCandidate read
    have second := first.putCandidate (read.under owned call.readings.ownerFile)
    exact second.putEvidence (evidence_read machine visible _ _)

theorem AdmissionOutcome.spoiled (outcome : AdmissionOutcome machine workspace call after result)
    (spoiled : workspace.Spoiled machine.host) : after.Spoiled machine.host := by
  obtain ⟨bad, member, unread⟩ := spoiled
  have differs : ∀ {admitted : Admitted}, admission machine call workspace = .ok admitted → bad.data.id ≠ admitted.candidate.id := by
    intro admitted passes same
    obtain ⟨read, reads, -⟩ := (admission_eq_ok passes).known
    have found := @Table.get?_of_mem _ _ _ _ workspace.candidates _ member
    rw [same] at found
    exact unread (read_of_getCandidate found reads)
  cases outcome with
  | unwritten => exact ⟨bad, member, unread⟩
  | candidateOnly passes checked failed =>
    refine ⟨bad, ?_, unread⟩
    apply Workspace.mem_putCandidate member
    exact differs passes
  | both passes checked made read owned visible =>
    refine ⟨bad, ?_, unread⟩
    apply Workspace.mem_putCandidate
    · apply Workspace.mem_putCandidate member
      exact differs passes
    · exact differs passes

theorem checkedScope_of_listed (facts : admitted.From machine workspace call)
    (encodes : admitted.candidate.fields.encodes = true) {items : List (Evidence EvidenceFields)}
    (listed : workspace.listEvidence machine.host admitted.candidate.id = .ok items) :
    checkedScope machine.host workspace admitted.candidate none =
      .ok ((Workspace.firstJob items).getD (adhoc admitted.candidate.id)) := by
  obtain ⟨read, reads, same⟩ := facts.known
  have blank : stripped ((none : Option String).getD "") = "" := rfl
  have scoping : scopeFor machine.host workspace admitted.candidate.id none =
      .ok ((Workspace.firstJob items).getD (adhoc admitted.candidate.id)) := by
    unfold scopeFor Workspace.workspaceFromCandidateEvidence
    dsimp only
    rw [if_neg (not_not.mpr blank), listed]
    rfl
  have encoded : encode machine.host.candidate admitted.candidate = .ok () := if_pos encodes
  unfold checkedScope
  rw [reads, ok_bind, ensure_eq_ok.mpr same, ok_bind, scoping, ok_bind, encoded]
  rfl

theorem spoiled_of_unsound (readable : workspace.Readable machine.host) (unsound : ¬ Sound machine workspace call)
    (outcome : AdmissionOutcome machine workspace call after result) : after.Spoiled machine.host := by
  unfold Sound at unsound
  push Not at unsound
  obtain ⟨⟨admitted, passes⟩, encodes, bad⟩ := unsound
  have facts := admission_eq_ok passes
  obtain ⟨items, listed, -⟩ := readable.listEvidence admitted.candidate.id
  have checked := checkedScope_of_listed facts (facts.encodes.trans encodes) listed
  let scope := (Workspace.firstJob items).getD (adhoc admitted.candidate.id)
  have unread : ∀ time, ¬ (⟨scope, time, admitted.candidate⟩ : Wrapper (Candidate Proposal)).Read machine.host.candidate := by
    intro time read
    have reread := reread_candidate machine (facts.encodes.trans encodes)
    rw [read.2, facts.isValid] at reread
    cases valid : call.isValid with
    | false =>
      rw [valid] at reread
      cases reread
    | true =>
      obtain ⟨candidateId, given, job, found, blank⟩ := bad valid
      rw [facts.named] at given
      cases given
      obtain ⟨others, relisted, first⟩ := bind_eq_ok.mp found
      cases listed.symm.trans relisted
      have named : scope = job := congrArg (fun job : Option String => job.getD _) (Except.ok.inj first)
      rw [← named] at blank
      exact blank read.1
  cases outcome with
  | unwritten refused => exact absurd checked (refused admitted passes scope)
  | candidateOnly passed written failed =>
    cases passes.symm.trans passed
    cases checked.symm.trans written
    exact ⟨_, Workspace.mem_putCandidate_self _, unread _⟩
  | both passed written made read owned visible =>
    cases passes.symm.trans passed
    cases checked.symm.trans written
    exact absurd read (unread _)

theorem sound_or_spoiled {history : List Admission} {start : Workspace Proposal EvidenceFields}
    (run : Exec (Admits machine) start history workspace) (readable : start.Readable machine.host) :
    (Exec (Restrict (Admits machine) (Sound machine)) start history workspace ∧ workspace.Readable machine.host) ∨
      workspace.Spoiled machine.host ∧ ¬ Exec (Restrict (Admits machine) (Sound machine)) start history workspace := by
  induction run with
  | nil state => exact .inl ⟨.nil state, readable⟩
  | cons edge rest ih =>
    rename_i start next final call history
    have outcome := admission_outcome machine start call
    rw [edge] at outcome
    by_cases sound : Sound machine start call
    · rcases ih (outcome.readable readable sound) with ⟨later, held⟩ | ⟨spoiled, never⟩
      · exact .inl ⟨.cons ⟨edge, sound⟩ later, held⟩
      · refine .inr ⟨spoiled, fun whole => ?_⟩
        cases whole with
        | cons first later =>
          rw [← edge, first.1] at never
          exact never later
    · -- the bad record stays to the end of the run
      have bad := spoiled_of_unsound readable sound outcome
      have kept : final.Spoiled machine.host := by
        apply rest.invariant _ _ bad
        intro before event after spoiled step
        have left := admission_outcome machine before event
        rw [step] at left
        exact left.spoiled spoiled
      refine .inr ⟨kept, fun whole => ?_⟩
      cases whole with
      | cons first later => exact sound first.2

def SavedIsRead (machine : Machine) (workspace : Workspace Proposal EvidenceFields) (call : Admission)
    (saved : Candidate Proposal) : Prop :=
  ∃ admitted evidence, admission machine call workspace = .ok admitted ∧ admitted.evidence machine call = .ok evidence ∧
    ReadsBack machine (admitSeparatedCandidate machine call workspace).final saved evidence

def AcceptsReadable (machine : Machine) : Prop :=
  ∀ history workspace, Exec (Admits machine) .empty history workspace → ∀ call saved replay,
    (admitSeparatedCandidate machine call workspace).value = .ok (saved, replay) → SavedIsRead machine workspace call saved

theorem AdmissionOutcome.savedIsRead {saved : Candidate Proposal} {replay : Bool}
    (outcome : AdmissionOutcome machine workspace call after (.ok (saved, replay))) (readable : workspace.Readable machine.host) :
    ∃ admitted evidence, admission machine call workspace = .ok admitted ∧ admitted.evidence machine call = .ok evidence ∧
      ReadsBack machine after saved evidence := by
  have held := outcome.readable_of_returned readable
  cases outcome with
  | both passes checked made read owned visible =>
    rename_i admitted scope ownerScope evidenceScope evidence
    obtain ⟨own, project⟩ := Admitted.evidence_eq_ok made
    refine ⟨admitted, evidence, passes, made, ?_, ?_, ?_, fun candidateId => ⟨⟨_, held.getCandidate candidateId⟩, ?_⟩⟩
    · rw [held.getCandidate]
      let first := workspace.putCandidate ⟨scope, call.readings.candidateFile, admitted.candidate⟩
      let owner : Wrapper (Candidate Proposal) := ⟨ownerScope, call.readings.ownerFile, admitted.candidate⟩
      have found := @Table.get?_upsert _ _ _ _ first.candidates owner admitted.candidate.id
      rw [if_pos rfl] at found
      exact congrArg (fun file : Option (Wrapper (Candidate Proposal)) => Except.ok (file.map (·.data))) found
    · obtain ⟨items, listed, inside⟩ := held.listEvidence admitted.candidate.id
      exact ⟨items, listed, inside _ ((Table.mem_upsert _ _ _).mpr (.inl rfl)) own⟩
    · obtain ⟨candidates, listed, inside⟩ := held.listCandidates admitted.candidate.projectName
      exact ⟨candidates, listed, inside _ (Workspace.mem_putCandidate_self _) rfl⟩
    · obtain ⟨items, listed, -⟩ := held.listEvidence candidateId
      exact ⟨items, listed⟩

theorem Workspace.empty_readable {β γ : Type} (host : Host β γ) : (Workspace.empty : Workspace β γ).Readable host :=
  ⟨fun _ member => absurd member List.not_mem_nil, fun _ member => absurd member List.not_mem_nil⟩

/-- What a call has saved is read back if and only if every call before it was sound. -/
theorem savedIsRead_iff {history : List Admission} (reached : Exec (Admits machine) .empty history workspace)
    {saved : Candidate Proposal} {replay : Bool}
    (returned : (admitSeparatedCandidate machine call workspace).value = .ok (saved, replay)) :
    SavedIsRead machine workspace call saved ↔ Exec (Restrict (Admits machine) (Sound machine)) .empty history workspace := by
  have outcome := admission_outcome machine workspace call
  rw [returned] at outcome
  rcases sound_or_spoiled reached (Workspace.empty_readable machine.host) with ⟨sound, readable⟩ | ⟨spoiled, unsound⟩
  · exact ⟨fun _ => sound, fun _ => outcome.savedIsRead readable⟩
  · constructor
    · intro read
      obtain ⟨admitted, evidence, -, -, back⟩ := read
      obtain ⟨candidates, listed, -⟩ := back.listed
      exact absurd listed ((outcome.spoiled spoiled).listCandidates _ _)
    · intro sound
      exact absurd sound unsound

/-! ### A call with a new identifier -/

theorem admission_of_fresh {candidateId : String} (named : call.candidateId = .str candidateId)
    (fresh : workspace.candidates.get? candidateId = none) : admission machine call workspace = admission machine call .empty := by
  have unknown := @Workspace.getCandidate_of_none _ _ machine.host _ _ fresh
  have base : ∀ kind statement, proposalBase machine workspace call candidateId kind statement =
      proposalBase machine .empty call candidateId kind statement := by
    intro kind statement
    unfold proposalBase
    rw [unknown]
    rfl
  have replayed : ∀ kind statement based, proposalBase machine .empty call candidateId kind statement = .ok based →
      based.2 = false := by
    intro kind statement based made
    obtain ⟨read, reads, made⟩ := bind_eq_ok.mp made
    cases reads
    obtain ⟨candidate, -, made⟩ := bind_eq_ok.mp made
    cases made
    rfl
  unfold admission
  rw [named]
  apply bind_congr
  intro kind
  apply bind_congr
  intro stated
  change (proposalBase machine workspace call candidateId kind _ >>= _) =
    (proposalBase machine .empty call candidateId kind _ >>= _)
  rw [base]
  cases made : proposalBase machine .empty call candidateId kind (collapseSpaces (machine.python.text call.statement)) with
  | error error => rfl
  | ok based =>
    obtain ⟨candidate, replay⟩ := based
    cases replayed kind _ _ made
    rfl

theorem admission_returns
    (passes : admission machine call workspace = .ok admitted) (made : admitted.evidence machine call = .ok evidence)
    (encodes : call.encodes = true) (valid : call.isValid = true)
    (bare : ∀ file ∈ workspace.evidence.rows, file.data.candidateId ≠ admitted.candidate.id) :
    (admitSeparatedCandidate machine call workspace).value = .ok (admitted.candidate, admitted.replay) := by
  have facts := admission_eq_ok passes
  have fits := facts.encodes.trans encodes
  let file : Wrapper (Candidate Proposal) :=
    ⟨adhoc admitted.candidate.id, call.readings.candidateFile, admitted.candidate⟩
  let saved := workspace.putCandidate file
  have read : file.Read machine.host.candidate := by
    have reread := reread_candidate machine fits
    rw [facts.isValid, valid] at reread
    exact ⟨adhoc_visible _, reread⟩
  have own : (workspace.evidence.rows.filter fun file => file.data.candidateId = admitted.candidate.id) = [] := by
    apply List.filter_eq_nil_iff.mpr
    intro other member same
    exact bare other member (of_decide_eq_true same)
  have listed : workspace.listEvidence machine.host admitted.candidate.id = .ok [] := by
    unfold Workspace.listEvidence
    rw [own]
    rfl
  have checked := checkedScope_of_listed facts fits listed
  obtain ⟨owner, project⟩ := Admitted.evidence_eq_ok made
  have found : saved.candidates.get? evidence.candidateId = some file := by
    rw [owner]
    exact (@Table.get?_upsert _ _ _ _ workspace.candidates file _).trans (if_pos rfl)
  have scoping := evidenceScope_of_read found read project.symm
  have reads : saved.getCandidate machine.host admitted.candidate.id = .ok (some admitted.candidate) := by
    rw [← owner]
    exact Workspace.getCandidate_of_read found read
  -- the owner is saved again, under a scope that is not blank
  obtain ⟨-, -, -, -, -, visible⟩ := evidenceScope_eq_ok scoping
  have filled : stripped ((some (orElse (stripped (evidence.distillJobId.getD ""))
      (orElse file.workspaceId (adhoc evidence.candidateId)))).getD "") ≠ "" := by
    intro blank
    rw [stripped_eq_empty_iff, Option.getD_some, visible] at blank
    cases blank
  have again := checkedScope_given reads (fun previous same => by cases same; rfl) filled fits
  have outcome := admission_outcome machine workspace call
  generalize (admitSeparatedCandidate machine call workspace).final = after at outcome
  generalize (admitSeparatedCandidate machine call workspace).value = result at outcome ⊢
  cases outcome with
  | unwritten refused => exact absurd checked (refused admitted passes _)
  | candidateOnly passed written failed =>
    cases passes.symm.trans passed
    cases checked.symm.trans written
    exact absurd again (failed evidence made _ scoping _)
  | both passed written remade reread marked shown =>
    cases passes.symm.trans passed
    rfl

/-! ### A disposition that does not exist -/

def sampleMoment : DateTime := ⟨2026, 3, 1, 9, 30, 0, 0, some 0, by decide, by decide, DateTime.utc_zone⟩

def plainMachine : Machine where
  schemas :=
    { timestamp := fun _ => none
      laxInt := fun value => match value with
        | .int n => some n
        | _ => none
      laxInt_int := fun _ => rfl
      freshId := "fresh"
      now := sampleMoment }
  python := ⟨fun _ => "", fun _ => none, fun _ => none, id, id, id⟩
  hashes := .spelled
  candidateFiles := .insertion
  evidenceFiles := .insertion
  decisionFiles := .insertion

def proposed (candidateId : String) (disposition : PyValue) : Admission where
  candidateId := .str candidateId
  projectName := .str "demo"
  candidateType := .str "memory"
  statement := .str "Exports are written as CSV"
  distillJobId := .none
  evidenceBasis := .str "user_statement"
  verificationOutcome := .str "verified"
  assimilationDisposition := disposition
  readings := ⟨sampleMoment, sampleMoment, sampleMoment, 0, 0, 0⟩
  validateCandidateEvidence := fun _ => .ok ⟨.str "user_statement", .str "verified", [], none, none⟩

theorem proposed_admitted (candidateId : String) (disposition : PyValue) :
    ∃ admitted, admission plainMachine (proposed candidateId disposition) .empty = .ok admitted := by
  have kind : kindOf plainMachine (proposed candidateId disposition).candidateType = .ok .memory := by
    have text : stripped (plainMachine.python.text (proposed candidateId disposition).candidateType) = "memory" := by
      change stripped "memory" = "memory"
      decide
    unfold kindOf
    rw [text]
    rfl
  have statement : collapseSpaces (plainMachine.python.text (proposed candidateId disposition).statement) =
      "Exports are written as CSV" := by
    change collapseSpaces "Exports are written as CSV" = "Exports are written as CSV"
    decide
  unfold admission
  rw [kind, statement]
  exact ⟨_, rfl⟩

theorem proposed_evidence {candidateId : String} {disposition : PyValue} {workspace : Workspace Proposal EvidenceFields} (passes : admission plainMachine (proposed candidateId disposition) workspace = .ok admitted) :
    ∃ evidence, admitted.evidence plainMachine (proposed candidateId disposition) = .ok evidence := by
  obtain ⟨subject, -, -, -, validated⟩ := (admission_eq_ok passes).validated
  have same : (⟨.str "user_statement", .str "verified", [], none, none⟩ : EvidenceValidation) = admitted.validation :=
    Except.ok.inj validated
  unfold Admitted.evidence
  rw [← same]
  exact ⟨_, rfl⟩

theorem proposed_returns {workspace : Workspace Proposal EvidenceFields} {candidateId : String}
    (fresh : workspace.candidates.get? candidateId = none) (bare : workspace.evidence.rows = []) :
    ∃ saved replay, (admitSeparatedCandidate plainMachine (proposed candidateId .none) workspace).value = .ok (saved, replay) := by
  obtain ⟨admitted, checks⟩ := proposed_admitted candidateId .none
  have passes := (@admission_of_fresh plainMachine workspace (proposed candidateId .none) _ rfl fresh).trans checks
  obtain ⟨evidence, made⟩ := proposed_evidence passes
  refine ⟨_, _, admission_returns passes made rfl rfl fun file member => ?_⟩
  rw [bare] at member
  cases member

/-- An admission of another candidate stays unread behind a disposition that no reader accepts. -/
theorem disposition_spoils : ¬ AcceptsReadable plainMachine := by
  intro always
  let call := proposed "first" (.str "bogus")
  obtain ⟨admitted, passes⟩ := proposed_admitted "first" (.str "bogus")
  have unsound : ¬ Sound plainMachine .empty call := by
    intro sound
    have valid := (sound ⟨admitted, passes⟩ rfl).1
    have refused : call.isValid = false := by decide +kernel
    rw [refused] at valid
    cases valid
  have outcome := admission_outcome plainMachine .empty call
  have spoiled := spoiled_of_unsound (Workspace.empty_readable plainMachine.host) unsound outcome
  have left : (admitSeparatedCandidate plainMachine call .empty).final.candidates.get? "second" = none ∧
      (admitSeparatedCandidate plainMachine call .empty).final.evidence.rows = [] := by
    generalize (admitSeparatedCandidate plainMachine call .empty).final = after at outcome spoiled ⊢
    generalize (admitSeparatedCandidate plainMachine call .empty).value = result at outcome
    obtain ⟨bad, member, unread⟩ := spoiled
    cases result with
    | ok result =>
      have readable := outcome.readable_of_returned (Workspace.empty_readable plainMachine.host)
      exact absurd (readable.candidates bad member) unread
    | error error =>
      cases outcome with
      | unwritten => cases member
      | candidateOnly passed written failed =>
        have named := (admission_eq_ok passed).named
        refine ⟨?_, rfl⟩
        refine (@Table.get?_upsert _ _ _ _ (Workspace.empty : Workspace Proposal EvidenceFields).candidates _ _).trans (if_neg ?_)
        intro same
        have other : "first" = "second" := (PyValue.str.inj named).trans same
        exact absurd other (by decide +kernel)
  obtain ⟨saved, replay, returned⟩ := proposed_returns left.1 left.2
  obtain ⟨_, _, -, -, back⟩ := always [call] _ (.single rfl) _ saved replay returned
  obtain ⟨candidates, listed, -⟩ := back.listed
  have later := admission_outcome plainMachine (admitSeparatedCandidate plainMachine call .empty).final (proposed "second" .none)
  exact (later.spoiled spoiled).listCandidates _ _ listed

/-- The first admission of a workspace is read back. -/
theorem first_admission_read : ∃ saved, SavedIsRead plainMachine .empty (proposed "second" .none) saved := by
  obtain ⟨saved, replay, returned⟩ := @proposed_returns .empty "second" rfl rfl
  exact ⟨saved, (savedIsRead_iff (.nil _) returned).mpr (.nil _)⟩

end HarnessMem.JobWorkspace
