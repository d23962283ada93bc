import HarnessMem.Assimilation.FinalScope

/-! A plan is applied: the gate that asks for the proofs of the last verification, and what each
point is then recorded with.
-/

set_option autoImplicit false

namespace HarnessMem.Assimilation

open Library

/-! ### The reason codes of a candidate's evidence -/

/-- `_SAFE_REASON`. -/
def isSafeReason (value : String) : Bool :=
  let lower (c : Char) : Bool := ('a' ≤ c ∧ c ≤ 'z') ∨ ('0' ≤ c ∧ c ≤ '9')
  match value.toList with
  | first :: rest => lower first ∧ rest.length ≤ 63 ∧ rest.all fun c => lower c ∨ c = '_' ∨ c = '-'
  | [] => false

def validatedCodes (codes reasons : List String) : List String := (codes.filter isSafeReason ++ reasons).eraseDups

/-- A candidate with what validating its sources says: the status of the gate, and its reasons. -/
structure ReviewedCandidate where
  candidate : KnowledgeCandidate
  /-- `assimilation_targets` is filled. -/
  targeted : Bool
  answerStatus : AnswerGateStatus
  fromTranscript : Bool
  reasons : List String

def ReviewedCandidate.gated (review : ReviewedCandidate) (codes : List String) : GatedCandidate where
  candidate := review.candidate
  targeted := review.targeted
  answerStatus := review.answerStatus
  fromTranscript := review.fromTranscript
  reasonCodes := validatedCodes codes review.reasons

/-- What a project has: its candidates, and its current entries in the order of their relevance. -/
structure ProjectKnowledge where
  review : String → ReviewedCandidate
  entries : List KnowledgeEntry
  distinct : (entries.map (·.id)).Nodup
  /-- `current_change_committed`, of the decision that a candidate and a normalized point name. -/
  committed : String → PlanPoint → Bool

namespace ProjectKnowledge

variable (project : ProjectKnowledge)

/-- The codes that `prepare_separated_assimilation` saves. -/
def savedCodes (codes : String → List String) (candidateId : String) : List String :=
  validatedCodes (codes candidateId) (project.review candidateId).reasons

/-- `prepare_separated_assimilation`, of the codes that the evidence of the candidates holds. -/
def prepare (codes : String → List String) (candidateIds : List String) : SeparatedPreparedAssimilation :=
  prepareSeparatedAssimilation (fun candidateId => (project.review candidateId).gated (codes candidateId)) candidateIds
    project.entries project.distinct

def getEntry (id : String) : Option KnowledgeEntry := project.entries.find? fun entry => entry.id = id

/-- `committed_write`: a write that has been committed is not written again. -/
def isCommittedWrite (point : PlanPoint) : Bool :=
  (project.review point.candidateId).candidate.status = .assimilated ∧ writes point.disposition ∧
    project.committed point.candidateId point

end ProjectKnowledge

/-! ### The gate -/

inductive ApplyRefusal where
  | invalid (message : String)
  /-- The proof of the last verification is missing, or what it was bound to has changed. -/
  | finalScope (message : String)
  deriving DecidableEq

/-- One call of `record_assimilation_result`. -/
structure RecordCall where
  point : PlanPoint
  /-- `expected_predecessor_entries`. -/
  expected : Option (List KnowledgeEntry)
  deriving DecidableEq

def sameReport : Option SourceReport → Option SourceReport → Bool
  | some first, some second => first.speaker = second.speaker ∧ first.period = second.period ∧ first.sessionId = second.sessionId ∧
    first.sourceId = second.sourceId ∧ first.sourceRevision = second.sourceRevision ∧ first.exchangeIndexes = second.exchangeIndexes
  | none, none => true
  | _, _ => false

def TargetSnapshot.isCurrent (snapshot : TargetSnapshot) (current : KnowledgeEntry) : Bool :=
  current.statement.text = snapshot.statement ∧ current.title.text = snapshot.title ∧
    current.modulePath.map (·.text) = snapshot.topicPath ∧
    sameReport current.sourceReport snapshot.sourceReport

/-- `point_by_candidate`: of two points of one candidate the later one. -/
def pointByCandidate? (points : List PlanPoint) (candidateId : String) : Option PlanPoint :=
  points.reverse.find? fun point => point.candidateId = candidateId

def finalScopeRequired : String := "autonomous_final_scope_required"

section

variable (digests : HexDigests) (project : ProjectKnowledge)

def expectedTarget (snapshot : TargetSnapshot) : Except ApplyRefusal KnowledgeEntry :=
  match project.getEntry snapshot.id with
  | some current =>
    if snapshot.isCurrent current then .ok current
    else .error (.finalScope "final knowledge scope target changed during preparation")
  | none => .error (.finalScope "final knowledge scope target changed during preparation")

/-- The gate of one candidate, and the entries of `expected_targets_by_candidate`. -/
def gateCandidate (prepared : SeparatedPreparedAssimilation) (codes : String → List String) (points : List PlanPoint)
    (candidateId : String) : Except ApplyRefusal (Option (List KnowledgeEntry)) :=
  match pointByCandidate? points candidateId with
  | none => .error (.invalid candidateId)
  | some point =>
    let committedWrite := project.isCommittedWrite point
    if (project.review candidateId).candidate.status = .assimilated ∧ writes point.disposition ∧ !committedWrite then
      .error (.invalid "terminal candidate requires the exact normalized committed plan")
    else if finalScopeRequired ∈ codes candidateId ∧ settles point.disposition ∧ !committedWrite then do
      let payload ← (finalScopePayload prepared point).mapError .finalScope
      (if finalScopeProof digests payload ∈ codes candidateId then do
        let targets ← payload.targets.mapM (expectedTarget project)
        return some targets
      else throw (.finalScope "final knowledge scope proof is missing or the normalized plan/target changed"))
    else .ok none

def checkOffered (prepared : SeparatedPreparedAssimilation) (point : PlanPoint) (target : String) : Except ApplyRefusal Unit :=
  if prepared.truthByHandle.any fun pair => pair.2 = target then .ok ()
  else if !mutates point.disposition then .error (.invalid "separated assimilation target was not offered to the provider")
  else if (project.getEntry target).isSome then .error (.invalid "separated assimilation target was not offered to the provider")
  else .ok ()

/-- `apply_separated_assimilation`, up to its calls of `record_assimilation_result`, which are made in this order. -/
def applySeparatedAssimilation (evidence : String → List String) (candidateIds : List String) (plan : AssimilationPlan) :
    Except ApplyRefusal (List RecordCall) := do
  (if candidateIds = [] ∨ ¬ candidateIds.Nodup then
    throw (.invalid "separated assimilation candidates must be unique and non-empty") else pure ())
  (if plan.candidateIds ≠ candidateIds then
    throw (.invalid "separated assimilation plan is not bound to these candidates") else pure ())
  let prepared := project.prepare evidence candidateIds
  let codes := project.savedCodes evidence
  (if ¬ plan.providerCandidateIds.Nodup ∨ ¬ plan.providerCandidateIds ⊆ prepared.eligibleCandidateIds ∨
      ¬ prepared.eligibleCandidateIds ⊆ plan.providerCandidateIds then
    throw (.invalid "separated assimilation provider candidates no longer match the eligible set") else pure ())
  let points ← (validateApplyPoints prepared plan.points).mapError .invalid
  points.forM fun point => point.matchedTruthIds.forM (checkOffered project prepared point)
  (if ¬ points.map (·.candidateId) ⊆ candidateIds ∨ ¬ candidateIds ⊆ points.map (·.candidateId) then
    throw (.invalid "separated assimilation plan does not cover this job's candidates") else pure ())
  let gates ← candidateIds.mapM fun candidateId =>
    return (candidateId, ← gateCandidate digests project prepared codes points candidateId)
  return points.map fun point => ⟨point, (gates.lookup point.candidateId).join⟩

end

end HarnessMem.Assimilation

/-! The reason codes of a candidate's evidence between two preparations: what the last verification adds
decides nothing at the gate of the candidates, and is still there when the plan is applied.
-/

namespace HarnessMem.Assimilation

open Library

/-! ### What is retained -/

theorem mem_validatedCodes {codes reasons : List String} {code : String} :
    code ∈ validatedCodes codes reasons ↔ (code ∈ codes ∧ isSafeReason code = true) ∨ code ∈ reasons := by
  simp only [validatedCodes, List.mem_eraseDups, List.mem_append, List.mem_filter]

def IsScopeCode (code : String) : Prop := code.toList.head? = some 'f'

instance (code : String) : Decidable (IsScopeCode code) := inferInstanceAs (Decidable (_ = _))

theorem head?_append {first rest : String} {c : Char} (head : first.toList.head? = some c) :
    (first ++ rest).toList.head? = some c := by
  rw [String.toList_append, List.head?_append, head]
  rfl

theorem isScopeCode_proof (digests : HexDigests) (payload : FinalScopePayload) : IsScopeCode (finalScopeProof digests payload) :=
  head?_append (by decide)

theorem isScopeCode_deferral (verdict : Dream.CandidateVerificationPoint) (text : String) : IsScopeCode (deferralReason verdict text) :=
  head?_append (by decide)

theorem isSafeReason_proof (digests : HexDigests) (payload : FinalScopePayload) :
    isSafeReason (finalScopeProof digests payload) = true := by
  obtain ⟨size, hex⟩ := digests.hex (String.ofList (payload.toJson.dumps false))
  have plain : ∀ c ∈ "0123456789abcdef".toList, (('a' ≤ c ∧ c ≤ 'z') ∨ ('0' ≤ c ∧ c ≤ '9')) := by decide
  have shape : (finalScopeProof digests payload).toList =
      'f' :: ('s' :: 'v' :: '_' :: (digests.sha256 (String.ofList (payload.toJson.dumps false))).toList.take 60) := by
    unfold finalScopeProof
    rw [String.toList_append, String.toList_ofList, String.toList_ofList]
    rfl
  unfold isSafeReason
  rw [shape]
  have short : ((digests.sha256 (String.ofList (payload.toJson.dumps false))).toList.take 60).length ≤ 60 := by
    rw [List.length_take]
    exact min_le_left _ _
  simp only [decide_eq_true_eq, List.length_cons, List.all_cons, Bool.and_eq_true, List.all_eq_true]
  refine ⟨by decide, by omega, by decide, by decide, by decide, fun c member => ?_⟩
  exact .inl (plain c (hex c (List.mem_of_mem_take member)))

section

variable {digests : HexDigests} {prepared : SeparatedPreparedAssimilation} {sources : ScopeSources}
  {verify : List ScopeRow → Except String (List ScopeVerdict)} {plan : AssimilationPlan} {codes : String → List String}
  {outcome : ScopeOutcome}

def BlockedWithCodes (blocked : String → Option String) : Prop :=
  ∀ candidateId reason, blocked candidateId = some reason → IsScopeCode reason

theorem BlockedWithCodes.update {blocked : String → Option String} (held : BlockedWithCodes blocked) {candidateId reason : String}
    (code : IsScopeCode reason) : BlockedWithCodes (Function.update blocked candidateId (some reason)) := by
  intro other found same
  by_cases own : other = candidateId
  · rw [own, Function.update_self] at same
    cases same
    exact code
  · rw [Function.update_of_ne own] at same
    exact held other found same

theorem blockedWithCodes_rows {points : List PlanPoint} {progress : ScopeProgress}
    (ran : points.foldlM (scopePoint prepared sources) {} = .ok progress) : BlockedWithCodes progress.blocked := by
  have targets : IsScopeCode "final_scope_target_source_incomplete" := by decide
  have own : IsScopeCode "final_scope_source_incomplete" := by decide
  refine foldlM_ok (fun _ state => BlockedWithCodes state.blocked) (fun done point state next held round => ?_) ?_ ran
  · unfold scopePoint at round
    split at round
    swap
    · cases round
      exact held
    obtain ⟨payload, -, round⟩ := bind_eq_ok.mp round
    dsimp only at round
    split at round
    · cases round
    split at round
    · cases round
      exact held.update targets
    split at round
    · cases round
      exact held
    split at round
    · cases round
      exact held
    · cases round
      exact held.update own
  · intro candidateId reason none
    cases none

theorem BlockedWithCodes.judged {rows : List ScopeRow} {checked : List ScopeVerdict} {blocked : String → Option String}
    (held : BlockedWithCodes blocked) : BlockedWithCodes (checked.foldl (judge rows) blocked) := by
  induction checked generalizing blocked with
  | nil => exact held
  | cons verdict rest ih =>
    refine ih ?_
    unfold judge
    split
    · split
      · exact held
      · exact held.update (isScopeCode_deferral _ _)
    · exact held

theorem verify_spec (verified : verifyFinalKnowledgeScope digests prepared sources verify plan codes = .ok outcome) :
    ∃ progress, plan.points.foldlM (scopePoint prepared sources) {} = .ok progress ∧ outcome.rows = progress.rows ∧
      checkRows verify progress.rows = .ok outcome.checked ∧
      outcome.plan = { plan with points := plan.points.map (deferPoint (outcome.checked.foldl (judge progress.rows) progress.blocked)) } ∧
      outcome.codes = retainScopeVerdicts digests progress.payloads
        (outcome.checked.foldl (judge progress.rows) progress.blocked) codes := by
  unfold verifyFinalKnowledgeScope at verified
  dsimp only at verified
  split at verified
  · cases verified
  obtain ⟨progress, rows, verified⟩ := bind_eq_ok.mp verified
  obtain ⟨checked, answered, verified⟩ := bind_eq_ok.mp verified
  cases verified
  exact ⟨progress, rows, rfl, answered, rfl, rfl⟩

theorem mem_outcome_codes (verified : verifyFinalKnowledgeScope digests prepared sources verify plan codes = .ok outcome)
    {candidateId code : String} : (code ∈ codes candidateId → code ∈ outcome.codes candidateId) ∧
      (code ∈ outcome.codes candidateId → code ∈ codes candidateId ∨ IsScopeCode code) := by
  obtain ⟨progress, rows, -, -, -, shape⟩ := verify_spec verified
  have blocked := @BlockedWithCodes.judged progress.rows outcome.checked _ (blockedWithCodes_rows rows)
  rw [shape]
  unfold retainScopeVerdicts
  split
  · next payload _ =>
    simp only [List.mem_eraseDups, List.mem_append, List.mem_singleton]
    refine ⟨.inl, fun inside => inside.imp id ?_⟩
    rintro rfl
    cases reason : outcome.checked.foldl (judge progress.rows) progress.blocked candidateId with
    | some code => exact blocked candidateId code reason
    | none => exact isScopeCode_proof digests payload
  · exact ⟨id, .inl⟩

end

/-! ### A project prepared again -/

section

variable {digests : HexDigests} {project : ProjectKnowledge} {prepared : SeparatedPreparedAssimilation} {sources : ScopeSources}
  {verify : List ScopeRow → Except String (List ScopeVerdict)} {plan : AssimilationPlan} {evidence : String → List String}
  {outcome : ScopeOutcome}

theorem savedCodes_again (verified : verifyFinalKnowledgeScope digests prepared sources verify plan (project.savedCodes evidence) = .ok outcome)
    {candidateId code : String} (safe : isSafeReason code = true) (apart : ¬ IsScopeCode code) :
    code ∈ project.savedCodes outcome.codes candidateId ↔ code ∈ project.savedCodes evidence candidateId := by
  obtain ⟨kept, added⟩ := @mem_outcome_codes _ _ _ _ _ _ _ verified candidateId code
  unfold ProjectKnowledge.savedCodes at kept added ⊢
  rw [mem_validatedCodes]
  constructor
  · rintro (⟨inside, -⟩ | own)
    · exact (added inside).resolve_right apart
    · exact mem_validatedCodes.mpr (.inr own)
  · intro inside
    exact .inl ⟨kept inside, safe⟩

theorem finalScopeRequired_again
    (verified : verifyFinalKnowledgeScope digests prepared sources verify plan (project.savedCodes evidence) = .ok outcome)
    {candidateId : String} :
    finalScopeRequired ∈ project.savedCodes outcome.codes candidateId ↔ finalScopeRequired ∈ project.savedCodes evidence candidateId :=
  savedCodes_again verified (by decide) (by decide)

theorem automatic_again (verified : verifyFinalKnowledgeScope digests prepared sources verify plan (project.savedCodes evidence) = .ok outcome)
    (candidateId : String) :
    ((project.review candidateId).gated (outcome.codes candidateId)).automatic? candidateId =
      ((project.review candidateId).gated (evidence candidateId)).automatic? candidateId := by
  have lasting : ((project.review candidateId).gated (outcome.codes candidateId)).isNonDurable =
      ((project.review candidateId).gated (evidence candidateId)).isNonDurable := by
    have session := @savedCodes_again _ _ _ _ _ _ _ _ verified candidateId "session_only_not_durable" (by decide)
      (by decide)
    have task := @savedCodes_again _ _ _ _ _ _ _ _ verified candidateId "source_use_task_context" (by decide)
      (by decide)
    unfold GatedCandidate.isNonDurable ReviewedCandidate.gated
    unfold ProjectKnowledge.savedCodes at session task
    refine Bool.eq_iff_iff.mpr ?_
    simp only [List.any_eq_true, List.mem_cons, List.not_mem_nil, or_false, decide_eq_true_eq]
    constructor
    · rintro ⟨code, inside, rfl | rfl⟩
      · exact ⟨_, session.mp inside, .inl rfl⟩
      · exact ⟨_, task.mp inside, .inr rfl⟩
    · rintro ⟨code, inside, rfl | rfl⟩
      · exact ⟨_, session.mpr inside, .inl rfl⟩
      · exact ⟨_, task.mpr inside, .inr rfl⟩
  unfold GatedCandidate.automatic?
  rw [lasting]
  rfl

theorem prepare_again (verified : verifyFinalKnowledgeScope digests prepared sources verify plan (project.savedCodes evidence) = .ok outcome)
    (candidateIds : List String) : project.prepare outcome.codes candidateIds = project.prepare evidence candidateIds := by
  have same := automatic_again verified
  unfold ProjectKnowledge.prepare prepareSeparatedAssimilation
  simp only [same]
  rfl

end

/-! ### Snapshots of what is current -/

theorem handle_injective {first second : Nat} (same : "T" ++ toString first = "T" ++ toString second) : first = second := by
  have digits : Nat.toDigits 10 first = Nat.toDigits 10 second := String.ofList_injective ((String.append_right_inj _).mp same)
  rw [← @Nat.ofDigitChars_ten_toDigits first, digits, Nat.ofDigitChars_ten_toDigits]

theorem sameReport_self (report : Option SourceReport) : sameReport report report = true := by
  cases report <;> simp [sameReport]

theorem snapshot_current {project : ProjectKnowledge} {evidence : String → List String} {candidateIds : List String}
    {target : String} {snapshot : TargetSnapshot} (found : (project.prepare evidence candidateIds).snapshot? target = some snapshot) :
    ∃ entry, project.getEntry target = some entry ∧ snapshot.id = target ∧ snapshot.isCurrent entry = true := by
  unfold SeparatedPreparedAssimilation.snapshot? at found
  obtain ⟨item, current, rfl⟩ := Option.map_eq_some_iff.mp found
  unfold SeparatedPreparedAssimilation.current? at current
  have own := List.find?_some current
  have named : (project.prepare evidence candidateIds).truth? item.handle = some target := of_decide_eq_true own
  obtain ⟨numbered, inside, rfl⟩ := List.mem_map.mp (List.mem_reverse.mp (List.mem_of_find?_eq_some current))
  unfold SeparatedPreparedAssimilation.truth? at named
  obtain ⟨front, back, shape, -⟩ := List.lookup_eq_some_iff.mp named
  have pair : ("T" ++ toString numbered.2, target) ∈ (project.prepare evidence candidateIds).truthByHandle := by
    rw [shape]
    exact List.mem_append_right _ List.mem_cons_self
  obtain ⟨other, there, same⟩ := List.mem_map.mp pair
  obtain ⟨handle, rfl⟩ := Prod.ext_iff.mp same
  -- one number, one entry
  have numbers := handle_injective handle
  have entries : other.1 = numbered.1 := by
    obtain ⟨first, second⟩ := List.mem_zipIdx_iff_le_and_getElem?_sub.mp there
    obtain ⟨-, third⟩ := List.mem_zipIdx_iff_le_and_getElem?_sub.mp inside
    rw [numbers, third] at second
    exact (Option.some.inj second).symm
  rw [entries]
  have member : numbered.1 ∈ project.entries := List.fst_mem_of_mem_zipIdx inside
  refine ⟨numbered.1, ?_, rfl, ?_⟩
  · exact find?_of_nodup project.distinct member
  · simp [TargetSnapshot.isCurrent, sameReport_self]

end HarnessMem.Assimilation
