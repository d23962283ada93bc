import HarnessMem.Schemas.SessionDistill
import HarnessMem.Review.Worker

/-! What a finalization checks of a submitted review, and that it accepts what
the worker let pass: the two validators of a review without candidates agree, and
only the bounds of the summary differ.
-/

set_option autoImplicit false

namespace HarnessMem.Review

open Library Projection

structure ChallengeError where
  error : String
  reasonCodes : List String
  deriving DecidableEq, Repr

def rawReviewed (checkpoints : List DistillChunkCheckpoint) : Bool :=
  !checkpoints.isEmpty && checkpoints.all fun checkpoint =>
    checkpoint.status = .completed && !Json.truthy (checkpoint.result.get? "structural_verified")

section

variable (unicode : Unicode) (hashes : Hashes) (countTokens : Text → Nat) (casing : Casing)

def exchangeProofError (source : Source) (required : List Nat) (challenge : ZeroCandidateChallenge) :
    Option ChallengeError :=
  let expected := (loadDistillExchangeWindows unicode hashes source required).map Window.ref
  let changed := expected.filter fun ref =>
    refDict challenge.inspectedExchangeRefs ref.exchangeIndex ≠ some ref.contentSha256
  let cited := expected.map (·.exchangeIndex)
  if changed ≠ [] ∨ ¬ (cited ⊆ required ∧ required ⊆ cited) then
    some ⟨"zero_candidate_exchange_proof_incomplete", ["required_exchange_proof_missing_or_changed"]⟩
  else none

def signalError (evidence : ProjectionSummary) (challenge : ZeroCandidateChallenge) : Option ChallengeError :=
  let challenged := CheckName.sorted.filter (detected evidence)
  let incorrectlyAbsent := challenged.filter fun check => challenge.checks check = .absent
  let downgraded := challenged.filter fun check => challenge.checks check = .notDurable
  let explained := challenge.futureUtility = .sessionOnly ∧ substantive casing challenge.rationale downgraded
  let unjustified :=
    if downgraded ≠ [] ∧ ¬ explained then downgraded
    else downgraded.filter fun check => !mentions casing challenge.rationale check
  if incorrectlyAbsent ≠ [] then
    some ⟨"zero_candidate_signal_check_inconsistent", ["detected_signal_marked_absent"]⟩
  else if unjustified ≠ [] then
    some ⟨"zero_candidate_signal_downgrade_unjustified", ["detected_signal_downgrade_requires_rationale"]⟩
  else none

def evidenceError (source : Source) (checkpoints : List DistillChunkCheckpoint) (challenge : ZeroCandidateChallenge) :
    Option ChallengeError :=
  match loadDistillSemanticEvidence unicode hashes countTokens source .compact 256 with
  | none => some ⟨"zero_candidate_evidence_unavailable", ["semantic_evidence_unavailable"]⟩
  | some evidence =>
    let required := evidence.challenge.requiredExchangeIndexes
    if evidence.challenge.reviewBasis = "complete_raw_checkpoint" ∧ required = [] then
      if rawReviewed checkpoints then none
      else some ⟨"zero_candidate_raw_review_required", ["complete_raw_checkpoint_not_agent_reviewed"]⟩
    else (exchangeProofError unicode hashes source required challenge).or (signalError casing evidence challenge)

def validateZeroCandidateChallenge (source : Source) (job : SessionDistillJob)
    (checkpoints : List DistillChunkCheckpoint) (submission : Submission) : Option ChallengeError :=
  let review := submission.semanticReview
  if submission.candidateIds ≠ [] ∨ submission.handoffIds ≠ [] ∨ job.zeroCandidateChallengeVersion ≠ some "v1" then none
  else match review.zeroCandidateChallenge with
    | none =>
      if review.promotionDecision = .noPromotion then none
      else some ⟨"zero_candidate_challenge_required", ["zero_candidate_challenge_missing"]⟩
    | some challenge =>
      if ¬ challenge.FitsRuntime then
        some ⟨"zero_candidate_challenge_invalid", ["zero_candidate_challenge_schema_invalid"]⟩
      else if challenge.sourceRevision ≠ job.sourceRevision then
        some ⟨"zero_candidate_challenge_revision_mismatch", ["source_revision_changed"]⟩
      else if challenge.conclusion = .candidateRequired then
        some ⟨"zero_candidate_challenge_requires_candidate", ["durable_signal_requires_candidate"]⟩
      else if review.promotionDecision ≠ .noPromotion then
        some ⟨"zero_candidate_review_inconsistent", ["zero_candidate_requires_no_promotion"]⟩
      else evidenceError unicode hashes countTokens casing source checkpoints challenge

def AcceptedReview (source : Source) (job : SessionDistillJob) (checkpoints : List DistillChunkCheckpoint)
    (submission : Submission) : Prop :=
  submission.semanticReview.FitsSession ∧
    (submission.candidateIds = [] → submission.handoffIds = [] →
      validateZeroCandidateChallenge unicode hashes countTokens casing source job checkpoints submission = none)

end

variable {unicode : Unicode} {hashes : Hashes} {countTokens : Text → Nat} {casing : Casing}

/-! ### What an accepted response is -/

/-- What the worker knows of a response it expanded. -/
structure Expanded (compact : AgentExtractionDecision) (packet : Packet) (response : AutonomousDecision) : Prop where
  review : response.semanticReview =
    expandReview compact.review response.candidates response.semanticReview.zeroCandidateChallenge
  fits : response.Fits
  /-- A response without candidates answers the template of the packet. -/
  challenge : response.candidates = [] → ∃ template, packet.zeroCandidateChallengeTemplate = some template ∧
    response.semanticReview.zeroCandidateChallenge = some (boundChallenge compact.review template)

variable {response : AutonomousDecision}

theorem eq_of_validate {decision : AutonomousDecision} (valid : decision.validate = .ok response) :
    decision = response ∧ response.Fits := by
  unfold AutonomousDecision.validate at valid
  split at valid
  · next fits =>
    cases valid
    exact ⟨rfl, fits⟩
  · cases valid

variable {packet : Packet}

theorem expanded_of_expand {compact : AgentExtractionDecision}
    (ran : expandAgentExtractionDecision compact packet = .ok response) : Expanded compact packet response := by
  unfold expandAgentExtractionDecision at ran
  split at ran
  · cases ran
  · cases ran
  · next template _ present =>
    obtain ⟨rfl, fits⟩ := eq_of_validate ran
    exact ⟨rfl, fits, fun _ => ⟨template, present, rfl⟩⟩
  · obtain ⟨rfl, fits⟩ := eq_of_validate ran
    exact ⟨rfl, fits, fun none => by cases none⟩

theorem repaired_review (response : AutonomousDecision) (packet : Packet) :
    (normalizeZeroCandidateSignalLabels casing response packet).candidates = response.candidates ∧
      (normalizeZeroCandidateSignalLabels casing response packet).semanticReview =
        { response.semanticReview with
          zeroCandidateChallenge :=
            (normalizeZeroCandidateSignalLabels casing response packet).semanticReview.zeroCandidateChallenge } := by
  unfold normalizeZeroCandidateSignalLabels
  split
  · exact ⟨rfl, rfl⟩
  · split
    · exact ⟨rfl, rfl⟩
    · exact ⟨rfl, rfl⟩

theorem normalized_review (decision : AutonomousDecision) :
    (normalizeProviderReviewState decision).candidates = decision.candidates ∧
      (normalizeProviderReviewState decision).semanticReview.sessionSummary = decision.semanticReview.sessionSummary ∧
      (normalizeProviderReviewState decision).semanticReview.zeroCandidateChallenge =
        decision.semanticReview.zeroCandidateChallenge ∧
      (normalizeProviderReviewState decision).semanticReview.unfinished = decision.semanticReview.unfinished := by
  unfold normalizeProviderReviewState
  dsimp only
  split
  · exact ⟨rfl, rfl, rfl, rfl⟩
  · exact ⟨rfl, rfl, rfl, rfl⟩

theorem relabel_eq (challenge template : ZeroCandidateChallenge) :
    challenge.relabel casing template =
      { challenge with rationale := (challenge.relabel casing template).rationale } := by
  unfold ZeroCandidateChallenge.relabel
  dsimp only
  split
  · rfl
  · split
    · rfl
    · rfl

theorem boundChallenge_conclusion (review : AgentExtractionReview) (template : ZeroCandidateChallenge)
    (settled : (boundChallenge review template).named .candidateRequired = []) :
    (boundChallenge review template).conclusion = .noDurableCandidate := by
  apply if_neg
  rw [List.any_eq_true]
  rintro ⟨check, inside, required⟩
  have member : check ∈ (boundChallenge review template).named .candidateRequired := List.mem_filter.mpr ⟨inside, required⟩
  rw [settled] at member
  cases member

theorem decided_of_decideOnce {job : SessionDistillJob}
    {decided : Decided} (ran : decideOnce casing response packet job = some decided) :
    decided.decision = normalizeProviderReviewState (normalizeZeroCandidateSignalLabels casing response packet) ∧
      (response.candidates = [] → zeroCandidateValidationErrors casing decided.decision packet job = []) := by
  unfold decideOnce at ran
  dsimp only at ran
  split at ran
  · next passes =>
    cases ran
    refine ⟨rfl, fun none => ?_⟩
    have kept : (normalizeProviderReviewState (normalizeZeroCandidateSignalLabels casing response packet)).candidates =
        [] := by
      rw [(normalized_review _).1, (repaired_review response packet).1, none]
    have free := passes.1.resolve_left (not_not.mpr kept)
    exact (List.append_eq_nil_iff.mp free).1
  · cases ran

section

variable {compact : AgentExtractionDecision} {packet : Packet} {response : AutonomousDecision} {job : SessionDistillJob}
  {decided : Decided}

theorem decided_summary (expanded : Expanded compact packet response)
    (ran : decideOnce casing response packet job = some decided) :
    decided.decision.semanticReview.sessionSummary = compact.review.summary := by
  rw [(decided_of_decideOnce ran).1, (normalized_review _).2.1, (repaired_review response packet).2]
  rw [expanded.review]
  rfl

theorem decided_without_challenge (expanded : Expanded compact packet response)
    (ran : decideOnce casing response packet job = some decided) (some : response.candidates ≠ []) :
    decided.decision.semanticReview.zeroCandidateChallenge = none := by
  rw [(decided_of_decideOnce ran).1, (normalized_review _).2.2.1]
  unfold normalizeZeroCandidateSignalLabels
  rw [if_pos some]
  have unanswered := mt expanded.fits.2.2.mpr some
  rwa [Bool.not_eq_true, Option.isSome_eq_false_iff, Option.isNone_iff_eq_none] at unanswered

theorem decided_challenge (expanded : Expanded compact packet response)
    (ran : decideOnce casing response packet job = some decided) (none : response.candidates = []) :
    ∃ template, packet.zeroCandidateChallengeTemplate = some template ∧
      (boundChallenge compact.review template).FitsResponse ∧
      decided.decision.semanticReview.zeroCandidateChallenge =
        some ((boundChallenge compact.review template).relabel casing template) ∧
      challengeErrors casing ((boundChallenge compact.review template).relabel casing template) packet job = [] := by
  obtain ⟨template, present, answered⟩ := expanded.challenge none
  have fits := expanded.fits.1.2.2.2 _ (Option.mem_def.mpr answered)
  have shown : decided.decision.semanticReview.zeroCandidateChallenge =
      some ((boundChallenge compact.review template).relabel casing template) := by
    rw [(decided_of_decideOnce ran).1, (normalized_review _).2.2.1]
    unfold normalizeZeroCandidateSignalLabels
    rw [if_neg (not_not.mpr none), present]
    dsimp only
    rw [answered]
    rfl
  have kept : decided.decision.candidates = [] := by
    rw [(decided_of_decideOnce ran).1, (normalized_review _).1, (repaired_review response packet).1, none]
  have free := (decided_of_decideOnce ran).2 none
  unfold zeroCandidateValidationErrors at free
  rw [if_neg (not_not.mpr kept), shown] at free
  exact ⟨template, present, fits, shown, free⟩

theorem decided_fits_iff (expanded : Expanded compact packet response)
    (ran : decideOnce casing response packet job = some decided) :
    decided.decision.semanticReview.FitsSession ↔ compact.review.summary.length ≤ 2000 := by
  have long := compact.review.summary_fits.1
  unfold SemanticReview.FitsSession
  rw [decided_summary expanded ran]
  constructor
  · exact fun fits => fits.1.2
  · intro short
    refine ⟨⟨long, short⟩, ?_⟩
    by_cases none : response.candidates = []
    · obtain ⟨template, -, -, shown, free⟩ := decided_challenge expanded ran none
      intro challenge given
      rw [shown] at given
      cases given
      -- the worker checks this schema itself
      by_contra unfit
      unfold challengeErrors at free
      rw [if_neg unfit] at free
      cases free
    · rw [decided_without_challenge expanded ran none]
      intro challenge given
      cases given

end

/-! ### The packet and the evidence loaded again -/

structure Bundled (unicode : Unicode) (hashes : Hashes) (source : Source) (packet : Packet) (value : Text)
    (template : ZeroCandidateChallenge) (evidence : ProjectionSummary) : Prop where
  present : source.rendering = some value
  asks : evidence.challenge = zeroCandidateChallengeManifest (source.parsed unicode hashes value).exchanges
  refs : packet.zeroCandidateExchangeRefs =
    (loadDistillExchangeWindows unicode hashes source evidence.challenge.requiredExchangeIndexes).map Window.ref
  template : template = challengeTemplate (source.revision hashes) evidence packet.zeroCandidateExchangeRefs
  /-- The text has every exchange of the evidence, also where the evidence extends an earlier projection. -/
  complete : (source.parsed unicode hashes value).exchanges.length ≤ (parseExchanges unicode value).exchanges.length

theorem bundled_of_prepare {source : Source} {detailLevel : DetailLevel} {budgetTokens : Int} {reviewing : Bool} {template : ZeroCandidateChallenge}
    (prepared : preparePacket unicode hashes countTokens source detailLevel budgetTokens reviewing = .ok packet)
    (present : packet.zeroCandidateChallengeTemplate = some template) :
    ∃ value evidence, Bundled unicode hashes source packet value template evidence := by
  unfold preparePacket at prepared
  split at prepared
  · cases prepared
    cases present
  · next evidence loaded =>
    split at prepared
    · cases prepared
      cases present
    · dsimp only at prepared
      split at prepared
      · cases prepared
      · next whole =>
        cases prepared
        obtain ⟨value, there, asks, count⟩ := evidence_asks loaded
        have counted := @Source.counted_parsed unicode hashes source value
        have enough := windows_complete there (not_not.mp whole)
        rw [count, counted] at enough
        exact ⟨value, evidence, there, asks, rfl, (Option.some.inj present).symm, enough⟩

section

variable {source : Source} {packet : Packet} {value : Text} {template : ZeroCandidateChallenge}
  {evidence : ProjectionSummary}

theorem refDict_of_mem {refs : List ExchangeRef} (distinct : (refs.map (·.exchangeIndex)).Nodup) {ref : ExchangeRef}
    (member : ref ∈ refs) : refDict refs ref.exchangeIndex = some ref.contentSha256 := by
  have only : refs.filter (fun other => other.exchangeIndex = ref.exchangeIndex) = [ref] := by
    induction refs with
    | nil => cases member
    | cons first rest ih =>
      rw [List.map_cons, List.nodup_cons] at distinct
      rcases List.mem_cons.mp member with rfl | later
      · rw [List.filter_cons_of_pos (by simp), List.filter_eq_nil_iff.mpr]
        intro other inside equal
        exact distinct.1 (List.mem_map.mpr ⟨other, inside, of_decide_eq_true equal⟩)
      · have other : ¬ first.exchangeIndex = ref.exchangeIndex :=
          fun equal => distinct.1 (List.mem_map.mpr ⟨ref, later, equal.symm⟩)
        rw [List.filter_cons_of_neg (by simpa using other)]
        exact ih distinct.2 later
  unfold refDict
  rw [only]
  rfl

theorem windows_refs (present : source.rendering = some value) (indexes : List Nat) :
    ((loadDistillExchangeWindows unicode hashes source indexes).map Window.ref).map (·.exchangeIndex) =
      (selected indexes).filter fun index =>
        (window? unicode hashes (parseExchanges unicode value).exchanges index).isSome := by
  unfold loadDistillExchangeWindows
  rw [present, List.map_map]
  exact windows_indexes _ _

variable {challenge : ZeroCandidateChallenge}

theorem exchangeProofError_eq_none (bundled : Bundled unicode hashes source packet value template evidence) (cites : challenge.inspectedExchangeRefs = packet.zeroCandidateExchangeRefs) :
    exchangeProofError unicode hashes source evidence.challenge.requiredExchangeIndexes challenge = none := by
  have indexes := @windows_refs unicode hashes source value bundled.present
    evidence.challenge.requiredExchangeIndexes
  unfold exchangeProofError
  rw [cites, ← bundled.refs] at *
  apply if_neg
  rintro (changed | uncited)
  · apply changed
    apply List.filter_eq_nil_iff.mpr
    intro ref member
    have distinct : (packet.zeroCandidateExchangeRefs.map (·.exchangeIndex)).Nodup := by
      rw [indexes]
      exact (selected_nodup _).filter _
    simp [refDict_of_mem distinct member]
  · apply uncited
    rw [indexes]
    constructor
    · intro index member
      exact (mem_selected.mp (List.mem_filter.mp member).1).1
    · intro index member
      have bounds := member
      rw [bundled.asks] at bounds
      have inside := required_bounds bounds
      rw [List.mem_filter, mem_selected, window?_isSome inside.1]
      exact ⟨⟨member, inside.1⟩, inside.2.trans bundled.complete⟩

theorem challenged_filter (bundled : Bundled unicode hashes source packet value template evidence)
    (challenge : ZeroCandidateChallenge) (finding : Finding) :
    (CheckName.sorted.filter (detected evidence)).filter (fun check => challenge.checks check = finding) =
      CheckName.sorted.filter fun check =>
        template.checks check = .candidateRequired ∧ challenge.checks check = finding := by
  rw [List.filter_filter]
  apply List.filter_congr
  intro check _
  rw [bundled.template]
  unfold challengeTemplate
  dsimp only
  by_cases cited : detected evidence check = true
  · simp [cited]
  · simp [cited]

theorem settled_of_findingErrors (free : findingErrors casing template challenge = []) :
    challenge.named .candidateRequired = [] ∧ incorrectlyAbsent template challenge = [] ∧
      (downgraded template challenge = [] ∨
        ((downgraded template challenge).filter fun check => !mentions casing challenge.rationale check) = [] ∧
          challenge.futureUtility = .sessionOnly ∧
          substantive casing challenge.rationale (downgraded template challenge) = true) := by
  unfold findingErrors at free
  obtain ⟨⟨required, present⟩, justified⟩ : (_ ∧ _) ∧ _ := by
    simpa only [List.append_eq_nil_iff] using free
  refine ⟨?_, ?_, ?_⟩
  · by_contra some
    rw [if_neg some] at required
    cases required
  · by_contra some
    rw [if_neg some] at present
    cases present
  · by_contra open_
    rw [not_or, not_and_or] at open_
    rw [if_pos open_] at justified
    cases justified

theorem signalError_eq_none (bundled : Bundled unicode hashes source packet value template evidence) (free : findingErrors casing template challenge = []) :
    signalError casing evidence challenge = none := by
  obtain ⟨-, absent, justified⟩ := settled_of_findingErrors free
  have denied : (CheckName.sorted.filter (detected evidence)).filter (fun check => challenge.checks check = .absent) = [] :=
    (challenged_filter bundled challenge .absent).trans absent
  have lowered : (CheckName.sorted.filter (detected evidence)).filter
      (fun check => challenge.checks check = .notDurable) = downgraded template challenge :=
    challenged_filter bundled challenge .notDurable
  unfold signalError
  dsimp only
  rw [denied, lowered, if_neg (not_not.mpr rfl)]
  apply if_neg
  apply not_not.mpr
  rcases justified with none | ⟨named, utility, explained⟩
  · rw [none]
    rfl
  · rw [if_neg fun both => both.2 ⟨utility, explained⟩]
    exact named

end

/-! ### The worker and the finalization agree -/

theorem unfinished_expandReview (review : AgentExtractionReview) (candidates : List DistillCandidate)
    (challenge : Option ZeroCandidateChallenge) :
    (expandReview review candidates challenge).unfinished =
      (review.unfinished.map stripped).filter fun item => item ≠ "" := by
  have shown : (expandReview review candidates challenge).unfinishedWork =
      (review.unfinished.map stripped).filter fun item => item ≠ "" := rfl
  unfold SemanticReview.unfinished
  rw [shown]
  -- stripped texts that are not empty stay as they are
  rw [List.map_congr_left (g := id), List.map_id, List.filter_filter]
  · simp only [Bool.and_self]
  · intro item member
    obtain ⟨text, -, rfl⟩ := List.mem_map.mp (List.mem_filter.mp member).1
    exact stripped_stripped text

section

variable {compact : AgentExtractionDecision} {packet : Packet} {response : AutonomousDecision} {job : SessionDistillJob}
  {decided : Decided}

theorem decided_promotion (expanded : Expanded compact packet response)
    (ran : decideOnce casing response packet job = some decided) (none : response.candidates = [])
    (settled : decided.decision.semanticReview.promotionDecision ≠ .partly ∨
      decided.decision.semanticReview.unfinished = []) :
    decided.decision.semanticReview.promotionDecision = .noPromotion := by
  have review := expanded.review
  have repaired := (@repaired_review casing response packet).2
  have work : decided.decision.semanticReview.unfinished =
      (compact.review.unfinished.map stripped).filter fun item => item ≠ "" := by
    rw [(decided_of_decideOnce ran).1, (normalized_review _).2.2.2, repaired, review]
    exact unfinished_expandReview _ _ _
  by_cases idle : decided.decision.semanticReview.unfinished = []
  · have still : decided.decision = normalizeZeroCandidateSignalLabels casing response packet := by
      rw [(decided_of_decideOnce ran).1, (normalized_review _).2.2.2] at idle
      rw [(decided_of_decideOnce ran).1]
      unfold normalizeProviderReviewState
      exact if_pos (Or.inl idle)
    rw [work] at idle
    rw [still, repaired, review]
    unfold expandReview
    dsimp only
    rw [idle, none]
    rfl
  · exfalso
    have partly : decided.decision.semanticReview.promotionDecision = .partly := by
      rw [(decided_of_decideOnce ran).1]
      unfold normalizeProviderReviewState
      dsimp only
      split
      · rw [work] at idle
        rw [repaired, review]
        unfold expandReview
        exact if_pos idle
      · rfl
    rcases settled with other | done
    · exact other partly
    · exact idle done

theorem submitted_review {decision : AutonomousDecision} {governed jobCandidates jobHandoffs : List String}
    {saveHandoff : Except String String} {submission : Submission}
    (ran : submit decision governed saveHandoff jobCandidates jobHandoffs = .ok submission) :
    submission.semanticReview = decision.semanticReview ∧
      (decision.candidates ≠ [] → submission.candidateIds ≠ []) ∧
      (submission.handoffIds = [] → decision.semanticReview.promotionDecision ≠ .partly ∨
        decision.semanticReview.unfinished = []) := by
  unfold submit at ran
  dsimp only at ran
  split at ran
  · cases ran
  · next saved =>
    have governs : decision.candidates ≠ [] → (if governed = [] then jobCandidates else governed) ≠ [] := by
      intro some
      have filled : governed ≠ [] := fun empty => saved ⟨some, empty⟩
      rwa [if_neg filled]
    split at ran
    · next settled =>
      cases ran
      exact ⟨rfl, governs, fun _ => settled⟩
    · cases handed : saveHandoff with
      | error reason =>
        rw [handed] at ran
        cases ran
      | ok handoff =>
        rw [handed] at ran
        cases ran
        refine ⟨rfl, governs, ?_⟩
        intro empty
        cases empty

theorem evidenceError_eq_none {source : Source} {detailLevel : DetailLevel} {budgetTokens : Int} {reviewing : Bool}
    {checkpoints : List DistillChunkCheckpoint} {template challenge : ZeroCandidateChallenge}
    (prepared : preparePacket unicode hashes countTokens source detailLevel budgetTokens reviewing = .ok packet)
    (present : packet.zeroCandidateChallengeTemplate = some template)
    (cites : challenge.inspectedExchangeRefs = packet.zeroCandidateExchangeRefs)
    (cited : challenge.inspectedExchangeRefs ≠ []) (free : findingErrors casing template challenge = []) :
    evidenceError unicode hashes countTokens casing source checkpoints challenge = none := by
  obtain ⟨value, evidence, bundled⟩ := bundled_of_prepare prepared present
  obtain ⟨again, loaded⟩ := Option.isSome_iff_exists.mp (@loadDistillSemanticEvidence_isSome unicode hashes
    countTokens source value bundled.present .compact 256)
  have asks : again.challenge = evidence.challenge := by
    obtain ⟨other, there, asked, -⟩ := evidence_asks loaded
    rw [bundled.present] at there
    cases there
    rw [asked, bundled.asks]
  have renewed : Bundled unicode hashes source packet value template again :=
    { bundled with
      asks := asks.trans bundled.asks
      refs := by
        rw [asks]
        exact bundled.refs
      template := by
        have same : detected again = detected evidence := by
          funext check
          unfold detected
          rw [asks]
        unfold challengeTemplate
        rw [same]
        exact bundled.template }
  have required : again.challenge.requiredExchangeIndexes ≠ [] := by
    intro empty
    apply cited
    rw [cites, renewed.refs, empty]
    unfold loadDistillExchangeWindows renderDistillExchangeWindows
    rw [bundled.present]
    simp [selected]
  unfold evidenceError
  rw [loaded]
  dsimp only
  rw [if_neg fun raw => required raw.2, exchangeProofError_eq_none renewed cites, Option.none_or]
  exact signalError_eq_none renewed free

/-- A review that passed the worker is accepted exactly when its summary has at most 2000 characters. -/
theorem autonomous_review_accepted {source : Source} {detailLevel : DetailLevel} {budgetTokens : Int} {reviewing : Bool}
    {checkpoints : List DistillChunkCheckpoint} {governed jobCandidates jobHandoffs : List String}
    {saveHandoff : Except String String} {submission : Submission}
    (prepared : preparePacket unicode hashes countTokens source detailLevel budgetTokens reviewing = .ok packet)
    (expands : expandAgentExtractionDecision compact packet = .ok response)
    (passes : decideOnce casing response packet job = some decided)
    (submits : submit decided.decision governed saveHandoff jobCandidates jobHandoffs = .ok submission) :
    AcceptedReview unicode hashes countTokens casing source job checkpoints submission ↔
      compact.review.summary.length ≤ 2000 := by
  have expanded := expanded_of_expand expands
  obtain ⟨same, governs, settled⟩ := submitted_review submits
  unfold AcceptedReview
  rw [same, decided_fits_iff expanded passes, and_iff_left_iff_imp]
  intro _ unsaved unhanded
  unfold validateZeroCandidateChallenge
  dsimp only
  split
  · rfl
  · have none : response.candidates = [] := by
      by_contra some
      apply governs _ unsaved
      rw [(decided_of_decideOnce passes).1, (normalized_review _).1, (repaired_review response packet).1]
      exact some
    obtain ⟨template, present, fits, shown, free⟩ := decided_challenge expanded passes none
    rw [same, shown]
    dsimp only
    -- the answers to the template cite its references and are settled
    unfold challengeErrors at free
    rw [present] at free
    obtain ⟨⟨⟨schema, revision⟩, -⟩, findings⟩ : ((_ ∧ _) ∧ _) ∧ _ := by
      simpa only [List.append_eq_nil_iff] using free
    have concluded : ((boundChallenge compact.review template).relabel casing template).conclusion = .noDurableCandidate := by
      have required := (settled_of_findingErrors findings).1
      rw [relabel_eq] at required ⊢
      exact boundChallenge_conclusion _ _ required
    have cites : ((boundChallenge compact.review template).relabel casing template).inspectedExchangeRefs =
        packet.zeroCandidateExchangeRefs := by
      obtain ⟨value, evidence, bundled⟩ := bundled_of_prepare prepared present
      rw [relabel_eq]
      exact congrArg ZeroCandidateChallenge.inspectedExchangeRefs bundled.template
    have fitting : ((boundChallenge compact.review template).relabel casing template).FitsRuntime := by
      by_contra unfit
      rw [if_neg unfit] at schema
      cases schema
    have bound : ((boundChallenge compact.review template).relabel casing template).sourceRevision = job.sourceRevision := by
      by_contra changed
      rw [if_neg changed] at revision
      cases revision
    rw [if_neg (not_not.mpr fitting), if_neg (not_not.mpr bound), concluded, if_neg (by decide),
      if_neg (not_not.mpr (decided_promotion expanded passes none (settled unhanded)))]
    apply evidenceError_eq_none prepared present cites _ findings
    rw [relabel_eq]
    exact fits.2.1

end

/-! ### A summary that is too long for the finalization -/

def samplePoint : AgentExtractionPoint where
  kind := .memory
  statement := "The store keeps one row per key."
  evidenceBasis := .repository
  repositoryLocator := some "src/store.py"
  repositorySha256 := some (String.ofList (List.replicate 64 'a'))
  statement_fits := by decide +kernel
  condition_fits := by decide +kernel
  source_fits := by decide +kernel
  target_fits := by decide +kernel
  relation_fits := by decide +kernel
  locator_fits := by decide +kernel
  digest_fits := by decide +kernel
  reported := by decide +kernel
  ruled := by decide +kernel
  related := by decide +kernel
  placed := by decide +kernel

def sampleAnswer (size : Nat) (fits : 12 ≤ size ∧ size ≤ 4000) : AgentExtractionDecision where
  review :=
    { summary := String.ofList (List.replicate size 'a')
      finalRequest := "Keep this."
      actualResult := "Kept."
      summary_fits := by simpa using fits
      request_fits := by decide +kernel
      result_fits := by decide +kernel
      reason_fits := by decide +kernel }
  points := [samplePoint]
  explained := by simp
  kept := fun _ => rfl

def sampleCandidate : DistillCandidate where
  kind := .memory
  evidenceBasis := .repository
  verificationRefs :=
    [{ kind := .repository
       contentSha256 := String.ofList (List.replicate 64 'a')
       locator := some "src/store.py" }]
  category := some "knowledge"
  content := some "The store keeps one row per key."

def sampleSource : Source where
  rendering := some "User: Hello\n\nAssistant: Hi".toList
  bytes := [1]
  sequenceCount := 1
  counted := by
    intro record present
    cases present

def sampleJob : SessionDistillJob where
  id := "job"
  idempotencyKey := "key"
  projectName := "project"
  projectRoot := "/project"
  client := "codex"
  sessionId := "session"
  sourceId := "source"
  sourceRevision := sampleSource.revision .spelled
  status := .reviewing
  phase := .review
  zeroCandidateChallengeVersion := some "v1"
  createdAt := 0
  updatedAt := 0

def sampleResponse (size : Nat) (fits : 12 ≤ size ∧ size ≤ 4000) : AutonomousDecision :=
  ⟨expandReview (sampleAnswer size fits).review [sampleCandidate] none, [sampleCandidate]⟩

theorem sampleAnswer_expands (size : Nat) (fits : 12 ≤ size ∧ size ≤ 4000) (packet : Packet) :
    expandAgentExtractionDecision (sampleAnswer size fits) packet = .ok (sampleResponse size fits) := by
  have schema : (sampleResponse size fits).Fits := by
    refine ⟨⟨(sampleAnswer size fits).review.summary_fits, (sampleAnswer size fits).review.request_fits,
      (sampleAnswer size fits).review.result_fits, ?_⟩, ?_, ?_⟩
    · intro challenge given
      cases given
    · intro candidate member
      rw [List.mem_singleton.mp member]
      decide
    · constructor
      · intro none
        cases none
      · intro given
        cases given
  exact if_pos schema

theorem sampleResponse_passes (size : Nat) (fits : 12 ≤ size ∧ size ≤ 4000) (packet : Packet) (job : SessionDistillJob) :
    decideOnce .ascii (sampleResponse size fits) packet job =
      some ⟨sampleResponse size fits, [sampleCandidate], []⟩ := by
  rfl

def sampleSubmission (size : Nat) (fits : 12 ≤ size ∧ size ≤ 4000) : Submission :=
  ⟨(sampleResponse size fits).semanticReview, ["candidate"], []⟩

theorem autonomous_review_accepted_short :
    AcceptedReview .ascii .spelled List.length .ascii sampleSource sampleJob [] (sampleSubmission 12 (by decide)) := by
  obtain ⟨packet, prepared⟩ := @preparePacket_succeeds .ascii .spelled List.length sampleSource rfl
    .compact 3000 true
  apply (autonomous_review_accepted prepared (sampleAnswer_expands 12 (by decide) packet)
    (sampleResponse_passes 12 (by decide) packet sampleJob)
    (show submit _ ["candidate"] (.error "") [] [] = .ok (sampleSubmission 12 (by decide)) from rfl)).mpr
  decide +kernel

/-- A summary of 2001 characters passes every check of the worker and is refused. -/
theorem autonomous_review_accepted_fails :
    ¬ ∀ (compact : AgentExtractionDecision) (packet : Packet) (response : AutonomousDecision) (decided : Decided)
      (governed : List String) (submission : Submission),
      preparePacket .ascii .spelled List.length sampleSource .compact 3000 true = .ok packet →
      expandAgentExtractionDecision compact packet = .ok response →
      decideOnce .ascii response packet sampleJob = some decided →
      submit decided.decision governed (.error "") [] [] = .ok submission →
      AcceptedReview .ascii .spelled List.length .ascii sampleSource sampleJob [] submission := by
  intro claim
  obtain ⟨packet, prepared⟩ := @preparePacket_succeeds .ascii .spelled List.length sampleSource rfl
    .compact 3000 true
  have accepted := claim (sampleAnswer 2001 (by decide)) packet _ _ ["candidate"] (sampleSubmission 2001 (by decide))
    prepared (sampleAnswer_expands 2001 (by decide) packet) (sampleResponse_passes 2001 (by decide) packet sampleJob) rfl
  have short : (String.ofList (List.replicate 2001 'a')).length ≤ 2000 := accepted.1.1.2
  rw [String.length_ofList, List.length_replicate] at short
  omega

end HarnessMem.Review
