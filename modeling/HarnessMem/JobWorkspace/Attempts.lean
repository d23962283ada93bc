import HarnessMem.JobWorkspace.ReadBack

/-! A new extraction attempt of a job. What earlier attempts left open is deferred, and
each point is admitted under an identity made of the job, its position and its text;
a candidate of that identity which has a result already is returned as it is.
-/

set_option autoImplicit false

namespace HarnessMem.JobWorkspace

open Library Attempt

variable (machine : Machine)

/-! ### The points of an extraction -/

/-- `str(arguments.get(key) or "")`. -/
def argument (arguments : PyDict) (key : String) : String := (arguments.get key).orEmpty machine.python.repr

def isHan (c : Char) : Bool := (0x3400 ≤ c.toNat && c.toNat ≤ 0x4dbf) || (0x4e00 ≤ c.toNat && c.toNat ≤ 0x9fff)

/-- `text.rstrip(characters)`. -/
def rstrip (characters : List Char) (text : String) : String :=
  String.ofList (text.toList.rdropWhile fun c => c ∈ characters)

/-- `_statement` before it is looked at. -/
def statementText (arguments : PyDict) (kind : String) : String :=
  if kind = "memory" then stripped (argument machine arguments "content")
  else if kind = "rule" then
    let trigger := rstrip ['，', ',', ':', '：'] (stripped (argument machine arguments "trigger"))
    let separator := if trigger.toList.any isHan then "：" else ": "
    stripped (trigger ++ separator ++ stripped (argument machine arguments "pattern"))
  else
    stripped (stripped (argument machine arguments "source_entity") ++ " " ++
      stripped (argument machine arguments "relation_type") ++ " " ++ stripped (argument machine arguments "target_entity"))

structure ExtractedPoint where
  kind : String
  statement : String
  candidateId : String

def candidateName (distillJobId : String) (index : Nat) (kind statement : String) : String :=
  "harness-mem:autonomous-knowledge-candidate:" ++ distillJobId ++ ":" ++ toString index ++ ":" ++ kind ++ ":" ++ statement

/-- `_statement` and the identity of the point at a position. -/
def extractedPoint (distillJobId : String) (index : Nat) (arguments : PyDict) : Except JobError ExtractedPoint := do
  let kind := argument machine arguments "kind"
  ensure (kind ∈ ["memory", "rule", "relation"]) "separated candidate kind must be memory, rule, or relation"
  let statement := statementText machine arguments kind
  ensure (statement ≠ "") "separated candidate statement is empty"
  return ⟨kind, statement, machine.hashes.uuid5 (candidateName distillJobId index kind statement)⟩

/-- An argument that has to be one of the names of a `Literal`. -/
def requiredName {α : Type} (names : List (String × α)) (arguments : PyDict) (key message : String) : Except JobError String := do
  let value := argument machine arguments key
  ensure (names.any (fun known => known.1 = value) = true) message
  return value

/-- One extraction of a job, with the clock readings and the answers of the evidence gate for each position. -/
structure Extraction where
  projectName : String
  distillJobId : String
  candidateArguments : List PyDict
  readings : Nat → Readings
  validate : Nat → AdmissionSubject → Except Staging.Raised EvidenceValidation
  closedAt : String → Time
  deferredAt : String → Time

variable (extraction : Extraction)

/-- `value or []`, as references. -/
def refArguments (value : PyValue) : Except Staging.Raised (List RefArgument) :=
  (Staging.iterateOr value).map fun values => values.map .value

/-- The arguments of `admit_separated_candidate` for a point. -/
def pointAdmission (index : Nat) (arguments : PyDict) (point : ExtractedPoint) : Except JobError Admission := do
  let evidenceBasis ← requiredName machine Staging.bases arguments "evidence_basis" "candidate evidence basis is invalid"
  let verificationOutcome ← requiredName machine Staging.outcomes arguments "verification_outcome"
    "candidate verification outcome is invalid"
  let codes := arguments.get "verification_reason_codes"
  return { candidateId := .str point.candidateId
           projectName := .str extraction.projectName
           candidateType := .str point.kind
           statement := .str point.statement
           distillJobId := .str extraction.distillJobId
           evidenceBasis := .str evidenceBasis
           verificationOutcome := .str verificationOutcome
           verificationRefs := refArguments (arguments.get "verification_refs")
           verificationReasonCodes := if codes.truthy then codes else .list []
           readings := extraction.readings index
           validateCandidateEvidence := extraction.validate index }

/-! ### What earlier attempts left -/

def closingReason : String := "Replaced by a fresh extraction attempt before the distill job finalized."

/-- The decision that `record_assimilation_result` makes of a deferral. -/
def deferral (candidate : Candidate Proposal) : AssimilationDecision where
  id := machine.hashes.uuid5 ("harness-mem:assimilation-decision:" ++ candidate.id ++ ":defer:::" ++ closingReason)
  projectName := candidate.projectName
  candidateId := candidate.id
  disposition := .defer
  reason := closingReason

/-- `record_assimilation_result` of a point that is deferred. -/
def recordDeferral (candidate : Candidate Proposal) : JobWorkspace.Call Proposal EvidenceFields Unit := do
  let _ ← saveCandidate machine.host { candidate with status := .deferred } none (extraction.closedAt candidate.id)
  let _ ← saveUnresolvedDecision machine.host (deferral machine candidate) (extraction.deferredAt candidate.id)
  return ()

def isBound (workspace : Workspace Proposal EvidenceFields) (candidateId : String) : Except JobError Bool := do
  let items ← workspace.listEvidence machine.host candidateId
  return items.any fun item => item.distillJobId = some extraction.distillJobId

def closeExisting (existing : Candidate Proposal) : JobWorkspace.Call Proposal EvidenceFields Unit :=
  if existing.status ≠ .pending then pure ()
  else do
    let bound ← Attempt.ask fun workspace => isBound machine extraction workspace existing.id
    bif bound then recordDeferral machine extraction existing else pure ()

/-! ### The attempt -/

/-- Whether the point has a candidate with a result already, which has to be of the same proposal and job. -/
def isReplay (workspace : Workspace Proposal EvidenceFields) (point : ExtractedPoint) : Except JobError Bool := do
  match ← workspace.getCandidate machine.host point.candidateId with
  | none => return false
  | some candidate =>
    if candidate.status = .pending then return false
    else
      ensure (candidate.projectName = extraction.projectName ∧
          nameIn candidateTypes candidate.fields.candidateType = point.kind ∧
          candidate.fields.statement = collapseSpaces point.statement)
        "separated candidate id already belongs to another proposal"
      match ← workspace.listEvidence machine.host candidate.id with
      | [evidence] =>
        ensure (evidence.distillJobId = some extraction.distillJobId) "separated candidate replay belongs to another job"
        return true
      | _ => throw (.valueError ("separated candidate requires exactly one evidence envelope: " ++ candidate.id))

def createPoint (index : Nat) (arguments : PyDict) : JobWorkspace.Call Proposal EvidenceFields String := do
  let point ← Attempt.ask fun _ => extractedPoint machine extraction.distillJobId index arguments
  let replay ← Attempt.ask fun workspace => isReplay machine extraction workspace point
  bif replay then pure point.candidateId
  else do
    let call ← Attempt.ask fun _ => pointAdmission machine extraction index arguments point
    let _ ← admitSeparatedCandidate machine call
    return point.candidateId

def createPoints (index : Nat) : List PyDict → JobWorkspace.Call Proposal EvidenceFields (List String)
  | [] => pure []
  | arguments :: rest => do
    let candidateId ← createPoint machine extraction index arguments
    let others ← createPoints (index + 1) rest
    return candidateId :: others

def createSeparatedCandidates : JobWorkspace.Call Proposal EvidenceFields (List String) := do
  let candidates ← Attempt.ask fun workspace => workspace.listCandidates machine.host extraction.projectName
  Attempt.each candidates (closeExisting machine extraction)
  createPoints machine extraction 1 extraction.candidateArguments

end HarnessMem.JobWorkspace

/-! What a new attempt leaves of the earlier ones. Each point touches the records of its
own candidate only, and the identities of two positions differ, so what one turn of the
loop leaves stays to the end.
-/

namespace HarnessMem.JobWorkspace

open Library Attempt

variable {machine : Machine} {extraction : Extraction}

/-! ### Saves that return -/

section

variable {β γ : Type} {host : Host β γ} {workspace final : Workspace β γ} {value : String}

theorem saveCandidate_returns {candidate : Candidate β} {workspaceId : Option String} {now : Time}
    (returned : Returns (saveCandidate host candidate workspaceId now) workspace value final) :
    ∃ scope, checkedScope host workspace candidate workspaceId = .ok scope ∧
      final = workspace.putCandidate ⟨scope, now, candidate⟩ := by
  cases checked : checkedScope host workspace candidate workspaceId with
  | error error =>
    have fails := saveCandidate_of_error now checked
    rw [Returns, fails] at returned
    cases returned.1
  | ok scope =>
    have saves := saveCandidate_of_ok now checked
    rw [Returns, saves] at returned
    exact ⟨scope, rfl, returned.2.symm⟩

/-- The candidate and its evidence are those of another state. -/
structure SameRecord (candidateId : String) (before after : Workspace β γ) : Prop where
  candidate : after.candidates.get? candidateId = before.candidates.get? candidateId
  evidence : ∀ evidenceId, after.evidence.get? (candidateId, evidenceId) = before.evidence.get? (candidateId, evidenceId)

theorem SameRecord.refl (candidateId : String) (workspace : Workspace β γ) : SameRecord candidateId workspace workspace :=
  ⟨rfl, fun _ => rfl⟩

variable {candidateId : String}

theorem SameRecord.trans {first second third : Workspace β γ} (left : SameRecord candidateId first second)
    (right : SameRecord candidateId second third) : SameRecord candidateId first third :=
  ⟨right.candidate.trans left.candidate, fun evidenceId => (right.evidence evidenceId).trans (left.evidence evidenceId)⟩

theorem sameRecord_putCandidate {candidateId : String} {file : Wrapper (Candidate β)} (other : file.data.id ≠ candidateId) :
    SameRecord candidateId workspace (workspace.putCandidate file) where
  candidate := (@Table.get?_upsert _ _ _ _ workspace.candidates file candidateId).trans (if_neg other)
  evidence _ := rfl

theorem sameRecord_putEvidence {file : Wrapper (Evidence γ)} (other : file.data.candidateId ≠ candidateId) :
    SameRecord candidateId workspace (workspace.putEvidence file) where
  candidate := rfl
  evidence evidenceId := by
    have differs : (file.data.candidateId, file.data.id) ≠ (candidateId, evidenceId) :=
      fun same => other (Prod.mk.inj same).1
    exact (@Table.get?_upsert _ _ _ _ workspace.evidence file (candidateId, evidenceId)).trans (if_neg differs)

theorem saveUnresolvedDecision_returns {decision : AssimilationDecision} {now : Time}
    (returned : Returns (saveUnresolvedDecision host decision now) workspace value final) :
    final.candidates = workspace.candidates ∧ final.evidence = workspace.evidence ∧
      ∃ owner, workspace.getCandidate host decision.candidateId = .ok (some owner) := by
  unfold saveUnresolvedDecision at returned
  obtain ⟨place, middle, asked, rest⟩ := returns_bind.mp returned
  obtain ⟨scoping, rfl⟩ := returns_ask.mp asked
  have owned : ∃ owner, middle.getCandidate host decision.candidateId = .ok (some owner) := by
    unfold decisionScope at scoping
    obtain ⟨⟨⟩, -, scoping⟩ := bind_eq_ok.mp scoping
    obtain ⟨candidate, owned, -⟩ := bind_eq_ok.mp scoping
    unfold ownerOf at owned
    obtain ⟨read, reads, owned⟩ := bind_eq_ok.mp owned
    cases read with
    | none => cases owned
    | some owner => exact ⟨owner, reads⟩
  cases place with
  | none =>
    obtain ⟨-, rfl⟩ := returns_pure.mp rest
    exact ⟨rfl, rfl, owned⟩
  | some scope =>
    obtain ⟨⟨⟩, written, wrote, ended⟩ := returns_bind.mp rest
    obtain ⟨-, rfl⟩ := returns_pure.mp ended
    rw [returns_write.mp wrote]
    exact ⟨rfl, rfl, owned⟩

theorem getCandidate_congr {before after : Workspace β γ}
    (same : after.candidates.get? candidateId = before.candidates.get? candidateId) :
    after.getCandidate host candidateId = before.getCandidate host candidateId := by
  unfold Workspace.getCandidate Workspace.candidateWrapper
  rw [same]

end

/-! ### The loop over what was left -/

variable {workspace final : Workspace Proposal EvidenceFields}

theorem isBound_congr {before after : Workspace Proposal EvidenceFields} (same : after.evidence = before.evidence)
    (candidateId : String) : isBound machine extraction after candidateId = isBound machine extraction before candidateId := by
  unfold isBound Workspace.listEvidence
  rw [same]

def Superseded (machine : Machine) (extraction : Extraction) (workspace : Workspace Proposal EvidenceFields)
    (candidate : Candidate Proposal) : Prop :=
  candidate.status = .pending ∧ isBound machine extraction workspace candidate.id = .ok true

theorem recordDeferral_returns {existing : Candidate Proposal}
    (returned : Returns (recordDeferral machine extraction existing) workspace () final) :
    final.evidence = workspace.evidence ∧
      (∀ candidateId, existing.id ≠ candidateId → final.candidates.get? candidateId = workspace.candidates.get? candidateId) ∧
      final.getCandidate machine.host existing.id = .ok (some { existing with status := .deferred }) := by
  unfold recordDeferral at returned
  obtain ⟨saved, middle, saves, rest⟩ := returns_bind.mp returned
  obtain ⟨scope, -, rfl⟩ := saveCandidate_returns saves
  obtain ⟨decided, last, decides, ended⟩ := returns_bind.mp rest
  obtain ⟨-, rfl⟩ := returns_pure.mp ended
  obtain ⟨candidates, evidence, owner, owned⟩ := saveUnresolvedDecision_returns decides
  let file : Wrapper (Candidate Proposal) :=
    ⟨scope, extraction.closedAt existing.id, { existing with status := .deferred }⟩
  have found : (workspace.putCandidate file).candidates.get? existing.id = some file :=
    (@Table.get?_upsert _ _ _ _ workspace.candidates file _).trans (if_pos rfl)
  refine ⟨evidence, fun candidateId other => ?_, ?_⟩
  · rw [candidates]
    exact (@sameRecord_putCandidate _ _ _ _ file other).candidate
  · rw [getCandidate_congr (congrArg (fun table => Table.get? table existing.id) candidates)]
    exact owned.trans (congrArg Except.ok (getCandidate_of_stored found owned))

theorem closeExisting_returns {existing : Candidate Proposal}
    (returned : Returns (closeExisting machine extraction existing) workspace () final) :
    final.evidence = workspace.evidence ∧
      (∀ candidateId, existing.id ≠ candidateId → final.candidates.get? candidateId = workspace.candidates.get? candidateId) ∧
      (Superseded machine extraction workspace existing →
        final.getCandidate machine.host existing.id = .ok (some { existing with status := .deferred })) ∧
      (¬ Superseded machine extraction workspace existing → final = workspace) ∧
      (existing.status = .pending → ∃ bound, isBound machine extraction workspace existing.id = .ok bound) := by
  unfold closeExisting at returned
  split at returned
  · next settled =>
    obtain ⟨-, rfl⟩ := returns_pure.mp returned
    exact ⟨rfl, fun _ _ => rfl, fun superseded => absurd superseded.1 settled, fun _ => rfl, fun pending => absurd pending settled⟩
  · next pending =>
    obtain ⟨bound, middle, asked, rest⟩ := returns_bind.mp returned
    obtain ⟨reads, rfl⟩ := returns_ask.mp asked
    cases bound with
    | true =>
      obtain ⟨evidence, others, closed⟩ := recordDeferral_returns rest
      exact ⟨evidence, others, fun _ => closed, fun left => absurd ⟨not_not.mp pending, reads⟩ left,
        fun _ => ⟨true, reads⟩⟩
    | false =>
      obtain ⟨-, rfl⟩ := returns_pure.mp rest
      refine ⟨rfl, fun _ _ => rfl, fun superseded => ?_, fun _ => rfl, fun _ => ⟨false, reads⟩⟩
      cases reads.symm.trans superseded.2

variable {candidates : List (Candidate Proposal)}

/-- The loop closes the candidates it has to close and leaves the others. -/
theorem closeEach_returns (distinct : (candidates.map (·.id)).Nodup)
    (returned : Returns (each candidates (closeExisting machine extraction)) workspace () final) :
    final.evidence = workspace.evidence ∧
      (∀ candidateId, (∀ candidate ∈ candidates, candidate.id = candidateId → ¬ Superseded machine extraction workspace candidate) →
        final.candidates.get? candidateId = workspace.candidates.get? candidateId) ∧
      (∀ candidate ∈ candidates, Superseded machine extraction workspace candidate →
        final.getCandidate machine.host candidate.id = .ok (some { candidate with status := .deferred })) ∧
      ∀ candidate ∈ candidates, candidate.status = .pending →
        ∃ bound, isBound machine extraction workspace candidate.id = .ok bound := by
  induction candidates generalizing workspace with
  | nil =>
    obtain ⟨-, rfl⟩ := returns_pure.mp returned
    exact ⟨rfl, fun _ _ => rfl, fun _ impossible => absurd impossible List.not_mem_nil,
      fun _ impossible => absurd impossible List.not_mem_nil⟩
  | cons first rest ih =>
    obtain ⟨⟨⟩, middle, closes, later⟩ := returns_bind.mp returned
    obtain ⟨fresh, distinct⟩ := List.nodup_cons.mp distinct
    obtain ⟨evidence, others, closed, left, asked⟩ := closeExisting_returns closes
    obtain ⟨lastEvidence, untouched, deferred, answered⟩ := ih distinct later
    have superseded : ∀ candidate, Superseded machine extraction middle candidate ↔ Superseded machine extraction workspace candidate := by
      intro candidate
      unfold Superseded
      rw [isBound_congr evidence]
    -- the rest of the loop does not meet the first candidate again
    have kept : final.candidates.get? first.id = middle.candidates.get? first.id := by
      apply untouched
      intro candidate member same
      exact absurd (List.mem_map.mpr ⟨candidate, member, same⟩) fresh
    refine ⟨lastEvidence.trans evidence, fun candidateId none => ?_, ?_, ?_⟩
    · rw [untouched candidateId fun candidate member same =>
        (superseded candidate).not.mpr (none candidate (List.mem_cons_of_mem _ member) same)]
      by_cases same : first.id = candidateId
      · rw [left (none first List.mem_cons_self same)]
      · exact others candidateId same
    · intro candidate member closing
      rcases List.mem_cons.mp member with rfl | member
      · rw [getCandidate_congr kept]
        exact closed closing
      · exact deferred candidate member ((superseded candidate).mpr closing)
    · intro candidate member pending
      rcases List.mem_cons.mp member with rfl | member
      · exact asked pending
      · rw [← isBound_congr evidence]
        exact answered candidate member pending

/-! ### The loop over the points -/

/-- Evidence that was made of the arguments of a call and of what the gate answered to them. -/
structure Judged (machine : Machine) (call : Admission) (evidence : Evidence EvidenceFields) : Prop where
  job : optionalTextOf call.distillJobId = .ok evidence.distillJobId
  cited : ∃ arguments, call.verificationRefs = .ok arguments ∧ evidenceRefs machine arguments = .ok evidence.fields.verificationRefs
  validated : ∃ subject validation, subject.evidenceBasis = call.evidenceBasis ∧
    subject.verificationOutcome = call.verificationOutcome ∧ subject.verificationRefs = evidence.fields.verificationRefs ∧
    call.validateCandidateEvidence subject = .ok validation ∧
    literalOf Staging.bases (orText validation.evidenceBasis "transcript") = .ok evidence.fields.evidenceBasis ∧
    literalOf Staging.outcomes (orText validation.verificationOutcome "unverified") = .ok evidence.fields.verificationOutcome

theorem Admitted.From.judged {call : Admission} {admitted : Admitted} (facts : admitted.From machine workspace call)
    {evidence : Evidence EvidenceFields} (made : admitted.evidence machine call = .ok evidence) :
    Judged machine call evidence ∧ evidence.id = evidenceId machine admitted.candidate.id := by
  obtain ⟨subject, basis, outcome, refs, answer⟩ := facts.validated
  unfold Admitted.evidence at made
  obtain ⟨distillJobId, job, made⟩ := bind_eq_ok.mp made
  obtain ⟨evidenceBasis, based, made⟩ := bind_eq_ok.mp made
  obtain ⟨verificationOutcome, found, made⟩ := bind_eq_ok.mp made
  cases made
  exact ⟨⟨job, facts.cited, subject, _, basis, outcome, refs, answer, based, found⟩, rfl⟩

def JudgedOn (machine : Machine) (extraction : Extraction) (index : Nat) (arguments : PyDict) (candidateId : String)
    (final : Workspace Proposal EvidenceFields) : Prop :=
  ∃ point call candidate file, extractedPoint machine extraction.distillJobId index arguments = .ok point ∧
    point.candidateId = candidateId ∧ pointAdmission machine extraction index arguments point = .ok call ∧
    final.getCandidate machine.host candidateId = .ok (some candidate) ∧ candidate.status = .pending ∧
    final.evidence.get? (candidateId, evidenceId machine candidateId) = some file ∧ Judged machine call file.data

variable {index : Nat} {arguments : PyDict} {point : ExtractedPoint}

theorem pointAdmission_named {call : Admission}
    (made : pointAdmission machine extraction index arguments point = .ok call) :
    call.candidateId = .str point.candidateId := by
  unfold pointAdmission at made
  obtain ⟨basis, -, made⟩ := bind_eq_ok.mp made
  obtain ⟨outcome, -, made⟩ := bind_eq_ok.mp made
  cases made
  rfl

variable {candidateId : String}

theorem admitSeparatedCandidate_returns {call : Admission} {result : Candidate Proposal × Bool}
    (named : call.candidateId = .str candidateId)
    (returned : Returns (admitSeparatedCandidate machine call) workspace result final) :
    (∀ other, candidateId ≠ other → SameRecord other workspace final) ∧
      ∃ candidate file, final.getCandidate machine.host candidateId = .ok (some candidate) ∧ candidate.status = .pending ∧
        final.evidence.get? (candidateId, evidenceId machine candidateId) = some file ∧ Judged machine call file.data := by
  have outcome := admission_outcome machine workspace call
  rw [returned.1, returned.2] at outcome
  cases outcome with
  | both passes checked made read owned visible =>
    rename_i admitted scope ownerScope evidenceScope evidence
    have facts := admission_eq_ok passes
    have same : candidateId = admitted.candidate.id := PyValue.str.inj (named.symm.trans facts.named)
    subst same
    obtain ⟨judged, identity⟩ := facts.judged made
    obtain ⟨owner, -⟩ := Admitted.evidence_eq_ok made
    let first : Wrapper (Candidate Proposal) := ⟨scope, call.readings.candidateFile, admitted.candidate⟩
    let second : Wrapper (Candidate Proposal) := ⟨ownerScope, call.readings.ownerFile, admitted.candidate⟩
    let item : Wrapper (Evidence EvidenceFields) := ⟨evidenceScope, call.readings.evidenceFile, evidence⟩
    constructor
    · intro other differs
      have one := @sameRecord_putCandidate _ _ workspace other first differs
      have two := one.trans (@sameRecord_putCandidate _ _ (workspace.putCandidate first) other second differs)
      apply two.trans
      apply sameRecord_putEvidence
      exact owner.trans_ne differs
    · have found : ((workspace.putCandidate first).putCandidate second).candidates.get? admitted.candidate.id = some second :=
        (@Table.get?_upsert _ _ _ _ (workspace.putCandidate first).candidates second _).trans (if_pos rfl)
      have stored : (((workspace.putCandidate first).putCandidate second).putEvidence item).evidence.get?
          (admitted.candidate.id, evidenceId machine admitted.candidate.id) = some item := by
        refine (@Table.get?_upsert _ _ _ _ ((workspace.putCandidate first).putCandidate second).evidence item _).trans (if_pos ?_)
        exact Prod.ext owner identity
      exact ⟨admitted.candidate, item, Workspace.getCandidate_of_read found (read.under owned _), facts.waits, stored, judged⟩

/-- What one turn leaves for its candidate: a record that had a result is as it was, and one that had none is
judged on the arguments. -/
structure PointOutcome (machine : Machine) (extraction : Extraction) (index : Nat) (arguments : PyDict) (candidateId : String)
    (workspace final : Workspace Proposal EvidenceFields) : Prop where
  answered : ∀ file, workspace.candidates.get? candidateId = some file → file.data.status ≠ .pending →
    SameRecord candidateId workspace final ∧ final.getCandidate machine.host candidateId = .ok (some file.data)
  fresh : (∀ file, workspace.candidates.get? candidateId = some file → file.data.status = .pending) →
    JudgedOn machine extraction index arguments candidateId final

theorem isReplay_eq_ok {replay : Bool} (asked : isReplay machine extraction workspace point = .ok replay) :
    ∃ read, workspace.getCandidate machine.host point.candidateId = .ok read ∧
      (replay = true ↔ ∃ candidate, read = some candidate ∧ candidate.status ≠ .pending) := by
  unfold isReplay at asked
  obtain ⟨read, reads, asked⟩ := bind_eq_ok.mp asked
  refine ⟨read, reads, ?_⟩
  cases read with
  | none =>
    cases asked
    simp
  | some candidate =>
    dsimp only at asked
    split at asked
    · next pending =>
      cases asked
      simp [pending]
    · next settled =>
      obtain ⟨⟨⟩, -, asked⟩ := bind_eq_ok.mp asked
      obtain ⟨items, -, asked⟩ := bind_eq_ok.mp asked
      split at asked
      · obtain ⟨⟨⟩, -, asked⟩ := bind_eq_ok.mp asked
        cases asked
        simp [settled]
      · cases asked

theorem createPoint_returns
    (returned : Returns (createPoint machine extraction index arguments) workspace candidateId final) :
    (∃ point, extractedPoint machine extraction.distillJobId index arguments = .ok point ∧ point.candidateId = candidateId) ∧
      (∀ other, candidateId ≠ other → SameRecord other workspace final) ∧
      PointOutcome machine extraction index arguments candidateId workspace final := by
  unfold createPoint at returned
  obtain ⟨point, start, asked, rest⟩ := returns_bind.mp returned
  obtain ⟨extracts, rfl⟩ := returns_ask.mp asked
  obtain ⟨replay, start, asked, rest⟩ := returns_bind.mp rest
  obtain ⟨replays, rfl⟩ := returns_ask.mp asked
  obtain ⟨read, reads, settled⟩ := isReplay_eq_ok replays
  cases replay with
  | true =>
    obtain ⟨rfl, rfl⟩ := returns_pure.mp rest
    obtain ⟨candidate, rfl, done⟩ := settled.mp rfl
    obtain ⟨stored, found, same, -⟩ := stored_of_getCandidate reads
    refine ⟨⟨point, extracts, rfl⟩, fun other _ => SameRecord.refl other _, ?_, fun pending => ?_⟩
    · intro file there _
      cases found.symm.trans there
      rw [same]
      exact ⟨SameRecord.refl _ _, reads⟩
    · have waits := pending stored found
      rw [same] at waits
      exact absurd waits done
  | false =>
    obtain ⟨call, middle, makes, admission⟩ := returns_bind.mp rest
    obtain ⟨made, rfl⟩ := returns_ask.mp makes
    obtain ⟨result, last, admits, ended⟩ := returns_bind.mp admission
    obtain ⟨rfl, rfl⟩ := returns_pure.mp ended
    obtain ⟨others, candidate, file, stored, waits, evidence, judged⟩ :=
      admitSeparatedCandidate_returns (pointAdmission_named made) admits
    refine ⟨⟨point, extracts, rfl⟩, others, ?_, fun _ => ?_⟩
    · intro before found done
      have known := getCandidate_of_stored found reads
      cases settled.mpr ⟨before.data, known, done⟩
    · exact ⟨point, call, candidate, file, extracts, rfl, made, stored, waits, evidence, judged⟩

theorem candidateName_injective {distillJobId : String} {first second : Nat} {kind other statement text : String}
    (same : candidateName distillJobId first kind statement = candidateName distillJobId second other text) : first = second := by
  have digits : ∀ n : Nat, ∀ c ∈ Nat.toDigits 10 n, (c != ':') = true := by
    intro n c member
    have digit : c.isDigit = true := Nat.isDigit_of_mem_toDigits (by decide) (Nat.le_refl 10) member
    rw [bne_iff_ne]
    rintro rfl
    cases digit
  have spelled : ∀ n : Nat, (toString n).toList = Nat.toDigits 10 n := fun n => String.toList_ofList
  unfold candidateName at same
  simp only [String.append_assoc, String.append_right_inj] at same
  -- the numeral is what stands before the next colon
  have front : ∀ (n : Nat) (rest : String), ((toString n ++ (":" ++ rest)).toList).takeWhile (· != ':') = Nat.toDigits 10 n := by
    intro n rest
    rw [String.toList_append, spelled, List.takeWhile_append_of_pos (digits n), String.toList_append]
    exact List.append_nil _
  have numerals : Nat.toDigits 10 first = Nat.toDigits 10 second := by
    rw [← front first (kind ++ (":" ++ statement)), same, front]
  have back := congrArg (fun numeral => Nat.ofDigitChars 10 numeral 0) numerals
  simpa only [Nat.ofDigitChars_ten_toDigits] using back

theorem extractedPoint_position {distillJobId : String} {first second : Nat} {others : PyDict}
    {other : ExtractedPoint} (one : extractedPoint machine distillJobId first arguments = .ok point)
    (two : extractedPoint machine distillJobId second others = .ok other) (same : point.candidateId = other.candidateId) :
    first = second := by
  unfold extractedPoint at one two
  obtain ⟨⟨⟩, -, one⟩ := bind_eq_ok.mp one
  obtain ⟨⟨⟩, -, one⟩ := bind_eq_ok.mp one
  obtain ⟨⟨⟩, -, two⟩ := bind_eq_ok.mp two
  obtain ⟨⟨⟩, -, two⟩ := bind_eq_ok.mp two
  cases one
  cases two
  exact candidateName_injective (machine.hashes.uuid5_injective same)

variable {middle : Workspace Proposal EvidenceFields}

theorem PointOutcome.later (outcome : PointOutcome machine extraction index arguments candidateId workspace middle)
    (kept : SameRecord candidateId middle final) :
    PointOutcome machine extraction index arguments candidateId workspace final where
  answered file found done := by
    obtain ⟨same, reads⟩ := outcome.answered file found done
    exact ⟨same.trans kept, (getCandidate_congr kept.candidate).trans reads⟩
  fresh pending := by
    obtain ⟨point, call, candidate, file, extracts, identity, made, reads, waits, evidence, judged⟩ := outcome.fresh pending
    exact ⟨point, call, candidate, file, extracts, identity, made, (getCandidate_congr kept.candidate).trans reads, waits,
      (kept.evidence _).trans evidence, judged⟩

theorem PointOutcome.earlier {start : Workspace Proposal EvidenceFields}
    (outcome : PointOutcome machine extraction index arguments candidateId workspace final)
    (kept : SameRecord candidateId start workspace) :
    PointOutcome machine extraction index arguments candidateId start final where
  answered file found done := by
    obtain ⟨same, reads⟩ := outcome.answered file (kept.candidate.trans found) done
    exact ⟨kept.trans same, reads⟩
  fresh pending := outcome.fresh fun file found => pending file (kept.candidate.symm.trans found)

theorem createPoints_returns {arguments : List PyDict} {candidateIds : List String}
    (returned : Returns (createPoints machine extraction index arguments) workspace candidateIds final) :
    List.Forall₂ (fun place candidateId => index ≤ place.2 ∧
        (∃ point, extractedPoint machine extraction.distillJobId place.2 place.1 = .ok point ∧ point.candidateId = candidateId) ∧
        PointOutcome machine extraction place.2 place.1 candidateId workspace final)
      (arguments.zipIdx index) candidateIds ∧
      ∀ other ∉ candidateIds, SameRecord other workspace final := by
  induction arguments generalizing index workspace candidateIds with
  | nil =>
    obtain ⟨rfl, rfl⟩ := returns_pure.mp returned
    exact ⟨.nil, fun other _ => SameRecord.refl other _⟩
  | cons first rest ih =>
    obtain ⟨candidateId, middle, one, later⟩ := returns_bind.mp returned
    obtain ⟨others, last, more, ended⟩ := returns_bind.mp later
    obtain ⟨rfl, rfl⟩ := returns_pure.mp ended
    obtain ⟨⟨point, extracts, identity⟩, untouched, outcome⟩ := createPoint_returns one
    obtain ⟨rounds, kept⟩ := ih more
    -- a later position has another candidate
    have differs : ∀ {place : PyDict × Nat} {other : String}, index + 1 ≤ place.2 →
        (∃ next, extractedPoint machine extraction.distillJobId place.2 place.1 = .ok next ∧ next.candidateId = other) →
        candidateId ≠ other := by
      intro place other after extracted same
      obtain ⟨next, extracted, rfl⟩ := extracted
      have position := extractedPoint_position extracts extracted (identity.trans same)
      omega
    have fresh : candidateId ∉ others := by
      intro again
      obtain ⟨place, -, after, extracted, -⟩ := exists_of_forall₂ rounds.flip candidateId again
      exact differs after extracted rfl
    constructor
    · rw [List.zipIdx_cons]
      refine .cons ⟨Nat.le_refl _, ⟨point, extracts, identity⟩, outcome.later (kept candidateId fresh)⟩ (rounds.imp ?_)
      rintro place other ⟨after, extracted, left⟩
      exact ⟨Nat.le_of_succ_le after, extracted, left.earlier (untouched other (differs after extracted))⟩
    · intro other outside
      obtain ⟨not, absent⟩ := not_or.mp (List.mem_cons.not.mp outside)
      exact (untouched other (Ne.symm not)).trans (kept other absent)

/-! ### The attempt -/

def BoundTo (workspace : Workspace Proposal EvidenceFields) (distillJobId candidateId : String) : Prop :=
  ∃ file ∈ workspace.evidence.rows, file.data.candidateId = candidateId ∧ file.data.distillJobId = some distillJobId

/-- What an attempt leaves: a candidate that had a result before is returned as it was; one that is new, or that
waited without evidence of the job, is pending and judged on this call's arguments; and what waited for the job
and is not returned is deferred. -/
structure AttemptOutcome (machine : Machine) (extraction : Extraction) (workspace final : Workspace Proposal EvidenceFields)
    (candidateIds : List String) : Prop where
  counted : candidateIds.length = extraction.candidateArguments.length
  answered : ∀ candidateId ∈ candidateIds, ∀ file, workspace.candidates.get? candidateId = some file →
    file.data.status ≠ .pending →
    SameRecord candidateId workspace final ∧ final.getCandidate machine.host candidateId = .ok (some file.data)
  judged : ∀ position arguments candidateId, extraction.candidateArguments[position]? = some arguments →
    candidateIds[position]? = some candidateId →
    (∀ file, workspace.candidates.get? candidateId = some file →
      file.data.status = .pending ∧ ¬ BoundTo workspace extraction.distillJobId candidateId) →
    JudgedOn machine extraction (position + 1) arguments candidateId final
  closed : ∀ file ∈ workspace.candidates.rows, file.data.projectName = extraction.projectName →
    file.data.status = .pending → BoundTo workspace extraction.distillJobId file.data.id → file.data.id ∉ candidateIds →
    final.getCandidate machine.host file.data.id = .ok (some { file.data with status := .deferred })

theorem mem_listCandidates {projectName : String}
    (listed : workspace.listCandidates machine.host projectName = .ok candidates) :
    (candidates.map (·.id)).Nodup ∧ ∀ candidate, candidate ∈ candidates ↔
      candidate.projectName = projectName ∧ ∃ file ∈ workspace.candidates.rows, file.data = candidate := by
  let files := Workspace.byName machine.host.hashes (·.id) workspace.candidates.rows
  obtain ⟨values, read, shape⟩ := bind_eq_ok.mp listed
  cases shape
  rw [Workspace.eq_of_listModels read]
  constructor
  · have order : (files.map fun file => file.data.id).Perm (workspace.candidates.rows.map fun file => file.data.id) :=
      (List.perm_insertionSort _ _).map _
    have distinct := order.nodup_iff.mpr workspace.candidates.nodup
    refine List.Nodup.sublist (List.filter_sublist.map _) ?_
    rw [List.map_map]
    exact distinct
  · intro candidate
    rw [List.mem_filter, List.mem_map, decide_eq_true_eq, and_comm]
    apply and_congr_right
    intro _
    constructor
    · rintro ⟨file, member, rfl⟩
      exact ⟨file, (Workspace.mem_byName _ _ _ file).mp member, rfl⟩
    · rintro ⟨file, member, rfl⟩
      exact ⟨file, (Workspace.mem_byName _ _ _ file).mpr member, rfl⟩

theorem isBound_iff {bound : Bool} (asked : isBound machine extraction workspace candidateId = .ok bound) :
    bound = true ↔ BoundTo workspace extraction.distillJobId candidateId := by
  unfold isBound at asked
  obtain ⟨items, listed, shape⟩ := bind_eq_ok.mp asked
  cases shape
  rw [Workspace.eq_of_listModels listed, List.any_eq_true]
  unfold BoundTo
  constructor
  · rintro ⟨item, member, named⟩
    obtain ⟨file, inside, rfl⟩ := List.mem_map.mp member
    obtain ⟨stored, own⟩ := List.mem_filter.mp ((Workspace.mem_byName _ _ _ file).mp inside)
    exact ⟨file, stored, of_decide_eq_true own, of_decide_eq_true named⟩
  · rintro ⟨file, stored, own, named⟩
    refine ⟨file.data, List.mem_map.mpr ⟨file, ?_, rfl⟩, decide_eq_true named⟩
    exact (Workspace.mem_byName _ _ _ file).mpr (List.mem_filter.mpr ⟨stored, decide_eq_true own⟩)

theorem sameRecord_of_closed (listing : ∀ candidate, candidate ∈ candidates ↔
      candidate.projectName = extraction.projectName ∧ ∃ file ∈ workspace.candidates.rows, file.data = candidate)
    (evidence : middle.evidence = workspace.evidence)
    (untouched : ∀ candidateId, (∀ candidate ∈ candidates, candidate.id = candidateId →
      ¬ Superseded machine extraction workspace candidate) →
      middle.candidates.get? candidateId = workspace.candidates.get? candidateId)
    (spared : ∀ file, workspace.candidates.get? candidateId = some file → ¬ Superseded machine extraction workspace file.data) :
    SameRecord candidateId workspace middle := by
  refine ⟨untouched candidateId fun candidate member named => ?_, fun evidenceId => by rw [evidence]⟩
  obtain ⟨-, file, stored, rfl⟩ := (listing candidate).mp member
  have found := @Table.get?_of_mem _ _ _ _ workspace.candidates _ stored
  rw [named] at found
  exact spared file found

theorem createSeparatedCandidates_returns {candidateIds : List String}
    (returned : Returns (createSeparatedCandidates machine extraction) workspace candidateIds final) :
    AttemptOutcome machine extraction workspace final candidateIds := by
  unfold createSeparatedCandidates at returned
  obtain ⟨candidates, start, asked, rest⟩ := returns_bind.mp returned
  obtain ⟨listed, same⟩ := returns_ask.mp asked
  rw [same] at rest
  obtain ⟨⟨⟩, middle, closes, creates⟩ := returns_bind.mp rest
  obtain ⟨distinct, listing⟩ := mem_listCandidates listed
  obtain ⟨evidence, untouched, deferred, answered⟩ := closeEach_returns distinct closes
  obtain ⟨rounds, kept⟩ := createPoints_returns creates
  constructor
  · have lengths := rounds.length_eq
    rw [List.length_zipIdx] at lengths
    exact lengths.symm
  · intro candidateId member file found done
    have record : SameRecord candidateId workspace middle := by
      apply sameRecord_of_closed listing evidence untouched
      intro other there superseded
      cases found.symm.trans there
      exact done superseded.1
    obtain ⟨place, -, -, -, outcome⟩ := exists_of_forall₂ rounds.flip candidateId member
    exact (outcome.earlier record).answered file found done
  · intro position arguments candidateId given named fresh
    have record : SameRecord candidateId workspace middle := by
      apply sameRecord_of_closed listing evidence untouched
      intro file found superseded
      have identity : file.data.id = candidateId := @Table.key_of_get? _ _ _ _ workspace.candidates _ _ found
      have bound := (isBound_iff superseded.2).mp rfl
      rw [identity] at bound
      exact (fresh file found).2 bound
    obtain ⟨inside, there⟩ := List.getElem?_eq_some_iff.mp named
    have argued : (extraction.candidateArguments.zipIdx 1)[position]? = some (arguments, 1 + position) := by
      rw [List.getElem?_zipIdx, given]
      rfl
    obtain ⟨place, placed⟩ := List.getElem?_eq_some_iff.mp argued
    obtain ⟨-, -, outcome⟩ := rounds.get place inside
    change PointOutcome machine extraction (extraction.candidateArguments.zipIdx 1)[position].2
      (extraction.candidateArguments.zipIdx 1)[position].1 candidateIds[position] middle final at outcome
    rw [placed, there] at outcome
    rw [Nat.add_comm]
    exact (outcome.earlier record).fresh fun file found => (fresh file found).1
  · intro file stored own pending bound outside
    have member := (listing file.data).mpr ⟨own, file, stored, rfl⟩
    obtain ⟨found, asked⟩ := answered file.data member pending
    have superseded : Superseded machine extraction workspace file.data := by
      refine ⟨pending, ?_⟩
      rw [asked, (isBound_iff asked).mpr bound]
    rw [getCandidate_congr (kept file.data.id outside).candidate]
    exact deferred file.data member superseded

/-! ### A point that was recorded before the finalization failed -/

/-- Every returned candidate is pending, with evidence of this call's arguments, and what waited for the job and is
not returned is deferred. -/
def JudgesAfresh (machine : Machine) : Prop :=
  ∀ workspace extraction candidateIds final,
    Returns (createSeparatedCandidates machine extraction) workspace candidateIds final →
    (∀ position arguments candidateId, extraction.candidateArguments[position]? = some arguments →
      candidateIds[position]? = some candidateId → JudgedOn machine extraction (position + 1) arguments candidateId final) ∧
    ∀ file ∈ workspace.candidates.rows, file.data.projectName = extraction.projectName →
      file.data.status = .pending → BoundTo workspace extraction.distillJobId file.data.id → file.data.id ∉ candidateIds →
      final.getCandidate machine.host file.data.id = .ok (some { file.data with status := .deferred })

theorem closeEach_settled (settled : ∀ candidate ∈ candidates, candidate.status ≠ .pending) :
    Returns (each candidates (closeExisting machine extraction)) workspace () workspace := by
  induction candidates with
  | nil => exact returns_pure.mpr ⟨rfl, rfl⟩
  | cons first rest ih =>
    obtain ⟨done, others⟩ := List.forall_mem_cons.mp settled
    refine returns_bind.mpr ⟨(), workspace, ?_, ih others⟩
    unfold closeExisting
    rw [if_pos done]
    exact returns_pure.mpr ⟨rfl, rfl⟩

def sampleStatement : String := "Exports are written as CSV"

def sampleExtraction : Extraction where
  projectName := "demo"
  distillJobId := "job"
  candidateArguments :=
    [[("kind", .str "memory"), ("content", .str sampleStatement), ("evidence_basis", .str "transcript"),
      ("verification_outcome", .str "unverified")]]
  readings _ := ⟨sampleMoment, sampleMoment, sampleMoment, 0, 0, 0⟩
  validate _ _ := .ok ⟨.str "transcript", .str "unverified", [], none, none⟩
  closedAt _ := 0
  deferredAt _ := 0

def sampleId : String := candidateName "job" 1 "memory" sampleStatement

def recordedCandidate : Candidate Proposal where
  id := sampleId
  projectName := "demo"
  status := .assimilated
  fields :=
    { candidateType := .memory, statement := sampleStatement, createdAt := sampleMoment, updatedAt := sampleMoment
      filled := by decide +kernel }

def recordedEvidence : Evidence EvidenceFields where
  id := evidenceId plainMachine sampleId
  projectName := "demo"
  candidateId := sampleId
  distillJobId := some "job"
  fields := { evidenceBasis := .transcript, verificationOutcome := .unverified, createdAt := sampleMoment }

def recordedWorkspace : Workspace Proposal EvidenceFields :=
  (Workspace.empty.putCandidate ⟨"job", 0, recordedCandidate⟩).putEvidence ⟨"job", 0, recordedEvidence⟩

theorem recordedWorkspace_readable : recordedWorkspace.Readable plainMachine.host := by
  have visible : hasVisible "job" = true := by decide
  have valid : recordedCandidate.fields.isValid = true := rfl
  have reread := @reread_candidate plainMachine recordedCandidate rfl
  rw [valid, if_pos rfl] at reread
  have stored : (⟨"job", 0, recordedCandidate⟩ : Wrapper (Candidate Proposal)).Read plainMachine.host.candidate :=
    And.intro visible reread
  have bound := evidence_read plainMachine visible 0 recordedEvidence
  exact ((Workspace.empty_readable plainMachine.host).putCandidate stored).putEvidence bound

theorem recorded_point : ∀ arguments ∈ sampleExtraction.candidateArguments,
    extractedPoint plainMachine "job" 1 arguments = .ok ⟨"memory", sampleStatement, sampleId⟩ := by
  intro arguments member
  cases List.mem_singleton.mp member
  have kind : argument plainMachine [("kind", .str "memory"), ("content", .str sampleStatement),
      ("evidence_basis", .str "transcript"), ("verification_outcome", .str "unverified")] "kind" = "memory" := by decide
  have statement : statementText plainMachine [("kind", .str "memory"), ("content", .str sampleStatement),
      ("evidence_basis", .str "transcript"), ("verification_outcome", .str "unverified")] "memory" = sampleStatement := by
    decide
  unfold extractedPoint
  rw [kind]
  dsimp only
  rw [statement]
  rfl

theorem recorded_replays :
    isReplay plainMachine sampleExtraction recordedWorkspace ⟨"memory", sampleStatement, sampleId⟩ = .ok true := by
  have found : recordedWorkspace.candidates.get? sampleId = some ⟨"job", 0, recordedCandidate⟩ :=
    @Table.get?_of_mem _ _ _ _ recordedWorkspace.candidates ⟨"job", 0, recordedCandidate⟩ List.mem_cons_self
  have reads : recordedWorkspace.getCandidate plainMachine.host sampleId = .ok (some recordedCandidate) := by
    rw [recordedWorkspace_readable.getCandidate, found]
    rfl
  have same : ensure (recordedCandidate.projectName = sampleExtraction.projectName ∧
      nameIn candidateTypes recordedCandidate.fields.candidateType = "memory" ∧
      recordedCandidate.fields.statement = collapseSpaces sampleStatement)
      "separated candidate id already belongs to another proposal" = .ok () :=
    ensure_eq_ok.mpr ⟨rfl, by decide, by decide⟩
  have own : (recordedWorkspace.evidence.rows.filter fun file => file.data.candidateId = sampleId) =
      [⟨"job", 0, recordedEvidence⟩] := List.filter_cons_of_pos (decide_eq_true rfl)
  have items : recordedWorkspace.listEvidence plainMachine.host sampleId = .ok [recordedEvidence] := by
    unfold Workspace.listEvidence
    rw [own]
    apply Workspace.listModels_of_read
    intro file member
    cases List.mem_singleton.mp member
    exact recordedWorkspace_readable.evidence _ List.mem_cons_self
  have job : ensure (recordedEvidence.distillJobId = some sampleExtraction.distillJobId)
      "separated candidate replay belongs to another job" = .ok () := ensure_eq_ok.mpr rfl
  unfold isReplay
  rw [reads, ok_bind]
  dsimp only
  rw [if_neg (fun impossible => by cases impossible), same, ok_bind]
  change (recordedWorkspace.listEvidence plainMachine.host sampleId >>= _) = _
  rw [items, ok_bind]
  dsimp only
  rw [job]
  rfl

theorem recorded_returns : Returns (createSeparatedCandidates plainMachine sampleExtraction) recordedWorkspace [sampleId] recordedWorkspace := by
  obtain ⟨candidates, listed, -⟩ := recordedWorkspace_readable.listCandidates "demo"
  obtain ⟨-, listing⟩ := mem_listCandidates listed
  have settled : ∀ candidate ∈ candidates, candidate.status ≠ .pending := by
    intro candidate member
    obtain ⟨-, file, stored, rfl⟩ := (listing candidate).mp member
    cases List.mem_singleton.mp stored
    exact fun impossible => by cases impossible
  refine returns_bind.mpr ⟨candidates, recordedWorkspace, returns_ask.mpr ⟨listed, rfl⟩, ?_⟩
  refine returns_bind.mpr ⟨(), recordedWorkspace, closeEach_settled settled, ?_⟩
  refine returns_bind.mpr ⟨sampleId, recordedWorkspace, ?_, returns_bind.mpr ⟨[], recordedWorkspace, ?_, returns_pure.mpr ⟨rfl, rfl⟩⟩⟩
  · refine returns_bind.mpr ⟨⟨"memory", sampleStatement, sampleId⟩, recordedWorkspace, returns_ask.mpr ⟨?_, rfl⟩, ?_⟩
    · exact recorded_point _ List.mem_cons_self
    · exact returns_bind.mpr ⟨true, recordedWorkspace, returns_ask.mpr ⟨recorded_replays, rfl⟩, returns_pure.mpr ⟨rfl, rfl⟩⟩
  · exact returns_pure.mpr ⟨rfl, rfl⟩

/-- A candidate that has its result already is returned as it is. -/
theorem recorded_stays : ¬ JudgesAfresh plainMachine := by
  intro always
  obtain ⟨judged, -⟩ := always _ _ _ _ recorded_returns
  obtain ⟨point, call, candidate, file, -, -, -, reads, waits, -⟩ := judged 0 _ sampleId rfl rfl
  have stored : recordedWorkspace.getCandidate plainMachine.host sampleId = .ok (some recordedCandidate) := by
    rw [recordedWorkspace_readable.getCandidate]
    rfl
  cases reads.symm.trans stored
  cases waits

theorem recorded_attempt : AttemptOutcome plainMachine sampleExtraction recordedWorkspace recordedWorkspace [sampleId] :=
  createSeparatedCandidates_returns recorded_returns

end HarnessMem.JobWorkspace
