import HarnessMem.Assimilation.GateAgreement

/-! A verified plan at the apply step: when each of its points is recorded with the entries it targets itself. -/

set_option autoImplicit false

namespace HarnessMem.Assimilation

open Library Dream

section

variable {specificity : SeparatedPreparedAssimilation → String → List String → Except String Unit}
  {digests : HexDigests} {project : ProjectKnowledge} {evidence : String → List String} {candidateIds : List String}
  {decision : AssimilationDecision} {plan : AssimilationPlan} {sources : ScopeSources}
  {verify : List ScopeRow → Except String (List ScopeVerdict)} {outcome : ScopeOutcome}

/-! ### What is left in the plan -/

variable {prepared : SeparatedPreparedAssimilation} {codes : String → List String}

theorem plan_left (verified : verifyFinalKnowledgeScope digests prepared sources verify plan codes = .ok outcome) :
    ∃ blocked : String → Option String, outcome.plan = { plan with points := plan.points.map (deferPoint blocked) } ∧
      (∀ candidateId, blocked candidateId = none ↔ Cleared prepared sources plan outcome candidateId) ∧
      ∀ candidateId point, LastOf (settlesFor candidateId) plan.points point → blocked candidateId = none →
        ∃ payload, finalScopePayload prepared point = .ok payload ∧ finalScopeProof digests payload ∈ outcome.codes candidateId := by
  obtain ⟨progress, ran, rows, -, shape, codesShape⟩ := verify_spec verified
  have held := rowsOf ran
  refine ⟨_, shape, fun candidateId => ?_, fun candidateId point last open_ => ?_⟩
  · rw [judged_none, held.blocked candidateId]
    unfold Cleared
    rw [rows]
  · obtain ⟨payload, read, kept⟩ := held.payload candidateId point last
    refine ⟨payload, read, ?_⟩
    rw [codesShape]
    unfold retainScopeVerdicts
    rw [kept, open_]
    exact List.mem_eraseDups.mpr (List.mem_append_right _ List.mem_cons_self)

theorem verified_itemsStand (verified : verifyFinalKnowledgeScope digests prepared sources verify plan codes = .ok outcome) :
    ItemsStand prepared outcome := by
  obtain ⟨progress, ran, rows, answered, shape, -⟩ := verify_spec verified
  have held := rowsOf ran
  intro point member settling
  rw [shape] at member
  obtain ⟨original, inside, rfl⟩ := List.mem_map.mp member
  obtain ⟨settles, open_⟩ := deferPoint_settles.mp settling
  rw [deferPoint_of_none open_]
  obtain ⟨unblocked, stands⟩ := judged_none.mp open_
  obtain ⟨payload, read, items⟩ := held.rows original inside settles unblocked
  refine ⟨payload, read, ?_, fun item own => ?_⟩
  · obtain ⟨other, own, behind, again, -, -, judged⟩ :=
      (held.blocked original.candidateId).mp unblocked original inside (settlesFor_iff.mpr ⟨settles, rfl⟩)
    rw [read] at again
    cases again
    unfold canJudge at judged
    exact (of_decide_eq_true judged).1
  · obtain ⟨row, there, owner, title, statement⟩ := items item own
    obtain ⟨verdict, given, found⟩ := covered answered there
    have stand := stands verdict given row found owner
    rw [title, statement] at stand
    refine ⟨verdict, given, row, ?_, owner, title, statement, stand, durableOver_of_status stand.2.1⟩
    rw [rows]
    exact found

variable {points : List PlanPoint} {candidateId : String}

theorem seen_at_gate {blocked : String → Option String}
    (rounds : List.Forall₂ (fun point normal => applyPoint prepared point = .ok normal) (plan.points.map (deferPoint blocked)) points) {normal : PlanPoint} (last : LastOf (fun other => other.candidateId = candidateId) points normal) :
    ∃ point, LastOf (fun other => other.candidateId = candidateId) plan.points point ∧
      applyPoint prepared (deferPoint blocked point) = .ok normal := by
  have backward : List.Forall₂ (fun point normal => applyPoint prepared point = .ok normal)
      (plan.points.map (deferPoint blocked)).reverse points.reverse := List.forall₂_reverse_iff.mpr rounds
  obtain ⟨point, found, ran⟩ := @find?_of_forall₂ _ (fun point : PlanPoint => decide (point.candidateId = candidateId)) _ _ _ _ _ backward
    (fun point normal ran => by rw [(applyPoint_fields ran).1]) _ (reverse_find?_iff.mpr last)
  obtain ⟨original, own, rfl⟩ := (reverse_find?_iff.mp found).of_map
  refine ⟨original, ?_, ran⟩
  simpa only [deferPoint_candidate] using own

theorem lastOf_settling {point : PlanPoint}
    (last : LastOf (fun other => other.candidateId = candidateId) points point) (settling : settles point.disposition = true) :
    LastOf (settlesFor candidateId) points point := by
  obtain ⟨front, back, rfl, own, after⟩ := last
  refine ⟨front, back, rfl, settlesFor_iff.mpr ⟨settling, of_decide_eq_true own⟩, fun other member => ?_⟩
  have apart : ¬ other.candidateId = candidateId := of_decide_eq_false (after other member)
  exact Bool.eq_false_iff.mpr fun mine => apart (settlesFor_iff.mp mine).2

/-! ### The gate lets the plan pass -/

theorem gate_passes
    (accepted : validateSeparatedAssimilationDecision specificity (project.prepare evidence candidateIds) decision = .ok plan)
    (verified : verifyFinalKnowledgeScope digests (project.prepare evidence candidateIds) sources verify plan
      (project.savedCodes evidence) = .ok outcome)
    (rounds : List.Forall₂ (fun point normal => applyPoint (project.prepare evidence candidateIds) point = .ok normal)
      outcome.plan.points points) {message : String} :
    gateCandidate digests project (project.prepare evidence candidateIds) (project.savedCodes outcome.codes) points candidateId ≠
      .error (.finalScope message) := by
  obtain ⟨blocked, shape, -, proofs⟩ := plan_left verified
  rw [shape] at rounds
  intro failed
  unfold gateCandidate at failed
  split at failed
  · cases failed
  next normal found =>
  dsimp only at failed
  split at failed
  · cases failed
  split at failed
  swap
  · cases failed
  next asked =>
  obtain ⟨point, last, ran⟩ := seen_at_gate rounds (reverse_find?_iff.mp found)
  -- the point is left, so its payload has been kept and its proof retained
  have settling : settles (deferPoint blocked point).disposition = true := (applyPoint_fields ran).2 ▸ asked.2.1
  obtain ⟨settles, open_⟩ := deferPoint_settles.mp settling
  rw [deferPoint_of_none open_] at ran
  obtain ⟨front, back, whole, own, after⟩ := last
  have named : point.candidateId = candidateId := of_decide_eq_true own
  rw [named] at open_
  obtain ⟨payload, read, proof⟩ := proofs candidateId point (lastOf_settling ⟨front, back, whole, own, after⟩ settles) open_
  have member : point ∈ plan.points := by
    rw [whole]
    exact List.mem_append_right _ List.mem_cons_self
  obtain ⟨targets, again⟩ := payload_again accepted member settles ran read
  have saved : finalScopeProof digests payload ∈ project.savedCodes outcome.codes candidateId :=
    mem_validatedCodes.mpr (.inl ⟨proof, isSafeReason_proof digests payload⟩)
  rw [again] at failed
  rcases bind_eq_error.mp failed with wrong | ⟨same, kept, failed⟩
  · cases wrong
  cases kept
  rw [if_pos saved] at failed
  rcases bind_eq_error.mp failed with wrong | ⟨entries, -, failed⟩
  · obtain ⟨snapshot, inside, missing⟩ := mapM_eq_error wrong
    unfold finalScopePayload at read
    split at read
    · cases read
    next snapshots shots =>
    obtain ⟨items, -, rest⟩ := bind_eq_ok.mp read
    cases rest
    obtain ⟨target, -, shot⟩ := exists_of_forall₂ (forall₂_of_mapM_some shots).flip snapshot inside
    obtain ⟨entry, current, named, same⟩ := snapshot_current shot
    unfold expectedTarget at missing
    rw [named, current] at missing
    dsimp only at missing
    rw [if_pos same] at missing
    cases missing
  · cases failed

theorem normalized_rounds {supplied : List PlanPoint}
    (reads : (validateApplyPoints prepared supplied).mapError ApplyRefusal.invalid = .ok points) :
    List.Forall₂ (fun point normal => applyPoint prepared point = .ok normal) supplied points := by
  cases validated : validateApplyPoints prepared supplied with
  | error message =>
    rw [validated] at reads
    cases reads
  | ok read =>
    rw [validated] at reads
    cases reads
    unfold validateApplyPoints at validated
    obtain ⟨same, each, rest⟩ := bind_eq_ok.mp validated
    obtain ⟨done, -, rest⟩ := bind_eq_ok.mp rest
    cases rest
    exact forall₂_of_mapM each

theorem apply_spec {calls : List RecordCall}
    (prepares : project.prepare codes candidateIds = prepared)
    (ran : applySeparatedAssimilation digests project codes candidateIds plan = .ok calls) :
    ∃ points gates, List.Forall₂ (fun point normal => applyPoint prepared point = .ok normal) plan.points points ∧
      (∀ normal ∈ points, ∃ result, gateCandidate digests project prepared (project.savedCodes codes) points normal.candidateId = .ok result ∧
        (gates : List (String × Option (List KnowledgeEntry))).lookup normal.candidateId = some result) ∧
      calls = points.map fun normal => ⟨normal, (gates.lookup normal.candidateId).join⟩ := by
  unfold applySeparatedAssimilation at ran
  dsimp only at ran
  rw [prepares] at ran
  obtain ⟨done1, -, ran⟩ := bind_eq_ok.mp ran
  obtain ⟨done2, -, ran⟩ := bind_eq_ok.mp ran
  obtain ⟨done3, -, ran⟩ := bind_eq_ok.mp ran
  obtain ⟨points, reads, ran⟩ := bind_eq_ok.mp ran
  obtain ⟨done4, -, ran⟩ := bind_eq_ok.mp ran
  obtain ⟨done5, covers, ran⟩ := bind_eq_ok.mp ran
  obtain ⟨gates, opened, ran⟩ := bind_eq_ok.mp ran
  cases ran
  have rounds := normalized_rounds reads
  refine ⟨points, gates, rounds, fun normal member => ?_, rfl⟩
  split at covers
  · cases covers
  next all =>
  have known := not_not.mp (not_or.mp all).1 (List.mem_map_of_mem member)
  exact lookup_mapM opened known

theorem apply_finds_proofs
    (accepted : validateSeparatedAssimilationDecision specificity (project.prepare evidence candidateIds) decision = .ok plan)
    (verified : verifyFinalKnowledgeScope digests (project.prepare evidence candidateIds) sources verify plan
      (project.savedCodes evidence) = .ok outcome) (message : String) :
    applySeparatedAssimilation digests project outcome.codes candidateIds outcome.plan ≠ .error (.finalScope message) := by
  have prepares := prepare_again verified candidateIds
  intro failed
  unfold applySeparatedAssimilation at failed
  dsimp only at failed
  rw [prepares] at failed
  rcases bind_eq_error.mp failed with wrong | ⟨done1, -, failed⟩
  · split at wrong <;> cases wrong
  rcases bind_eq_error.mp failed with wrong | ⟨done2, -, failed⟩
  · split at wrong <;> cases wrong
  rcases bind_eq_error.mp failed with wrong | ⟨done3, -, failed⟩
  · split at wrong <;> cases wrong
  rcases bind_eq_error.mp failed with wrong | ⟨points, reads, failed⟩
  · cases validated : validateApplyPoints (project.prepare evidence candidateIds) outcome.plan.points <;> rw [validated] at wrong <;>
      cases wrong
  rcases bind_eq_error.mp failed with wrong | ⟨done4, -, failed⟩
  · obtain ⟨normal, -, wrong⟩ := forM_eq_error wrong
    obtain ⟨target, -, wrong⟩ := forM_eq_error wrong
    unfold checkOffered at wrong
    split at wrong
    · cases wrong
    split at wrong
    · cases wrong
    split at wrong <;> cases wrong
  rcases bind_eq_error.mp failed with wrong | ⟨done5, -, failed⟩
  · split at wrong <;> cases wrong
  rcases bind_eq_error.mp failed with wrong | ⟨gates, -, failed⟩
  swap
  · cases failed
  obtain ⟨candidateId, -, wrong⟩ := mapM_eq_error wrong
  have rounds := normalized_rounds reads
  rcases bind_eq_error.mp wrong with gate | ⟨result, -, wrong⟩
  · exact gate_passes accepted verified rounds gate
  · cases wrong

/-! ### Predecessors -/

theorem applied_of_ok {point normal : PlanPoint} (ran : applyPoint prepared point = .ok normal) :
    applied prepared point = normal := by
  unfold applied
  rw [ran]
  rfl

/-- Every item left in a verified plan stands and no proof is missed; and each point left is recorded with its own entries
exactly where the last point of its candidate stands for it. -/
theorem verified_plan_recorded_with_own_iff
    (accepted : validateSeparatedAssimilationDecision specificity (project.prepare evidence candidateIds) decision = .ok plan)
    (verified : verifyFinalKnowledgeScope digests (project.prepare evidence candidateIds) sources verify plan
      (project.savedCodes evidence) = .ok outcome) :
    ItemsStand (project.prepare evidence candidateIds) outcome ∧
      (∀ message, applySeparatedAssimilation digests project outcome.codes candidateIds outcome.plan ≠ .error (.finalScope message)) ∧
      ∀ calls, applySeparatedAssimilation digests project outcome.codes candidateIds outcome.plan = .ok calls →
        (List.Forall₂ (RecordedWithOwn project) outcome.plan.points calls ↔
          ∀ point ∈ plan.points, settles point.disposition = true →
            Cleared (project.prepare evidence candidateIds) sources plan outcome point.candidateId →
            project.isCommittedWrite (applied (project.prepare evidence candidateIds) point) = false →
            LastStandsFor project (project.prepare evidence candidateIds) (project.savedCodes evidence) plan point) := by
  refine ⟨verified_itemsStand verified, apply_finds_proofs accepted verified, fun calls ran => ?_⟩
  obtain ⟨points, gates, rounds, opened, rfl⟩ := apply_spec (prepare_again verified candidateIds) ran
  obtain ⟨blocked, shape, cleared, -⟩ := plan_left verified
  have places : outcome.plan.points = plan.points.map (deferPoint blocked) := by rw [shape]
  rw [places] at rounds ⊢
  rw [List.forall₂_map_right_iff]
  -- a point that is left comes from the plan as it is, and is normalized as it is
  have left : ∀ point ∈ plan.points, settles point.disposition = true → blocked point.candidateId = none →
      ∀ normal, applyPoint (project.prepare evidence candidateIds) point = .ok normal →
        normal.matchedTruthIds = point.matchedTruthIds ∧ applied (project.prepare evidence candidateIds) point = normal := by
    intro point member settling open_ normal own
    obtain ⟨complete, -⟩ := (cleared point.candidateId).mp open_
    obtain ⟨payload, -, -, read, -⟩ := complete point member (settlesFor_iff.mpr ⟨settling, rfl⟩)
    exact ⟨(payload_again accepted member settling own read).1, applied_of_ok own⟩
  -- what the gate of a candidate that is left sees, and what it yields
  have gate : ∀ normal ∈ points, blocked normal.candidateId = none →
      ∃ last, LastOf (fun other => other.candidateId = normal.candidateId) plan.points last ∧
        ∃ seen, applyPoint (project.prepare evidence candidateIds) last = .ok seen ∧
          if finalScopeRequired ∈ project.savedCodes evidence normal.candidateId ∧ settles seen.disposition = true ∧
              project.isCommittedWrite seen = false then
            ∃ entries, (gates.lookup normal.candidateId).join = some entries ∧ seen.matchedTruthIds.mapM project.getEntry = some entries
          else (gates.lookup normal.candidateId).join = none := by
    intro normal member open_
    obtain ⟨result, gated, found⟩ := opened normal member
    obtain ⟨seen, lastSeen, yields⟩ := gate_ok gated
    obtain ⟨last, own, ran⟩ := seen_at_gate rounds lastSeen
    obtain ⟨front, back, whole, named, after⟩ := own
    rw [deferPoint_of_none ((of_decide_eq_true named : last.candidateId = _) ▸ open_)] at ran
    refine ⟨last, ⟨front, back, whole, named, after⟩, seen, ran, ?_⟩
    rw [found]
    simp only [finalScopeRequired_again verified] at yields
    exact yields
  constructor
  · intro recorded point member settling clear new
    have open_ := (cleared point.candidateId).mpr clear
    have inside : point ∈ plan.points.map (deferPoint blocked) := List.mem_map.mpr ⟨point, member, deferPoint_of_none open_⟩
    obtain ⟨normal, there, own, held⟩ := exists_of_forall₂ (both_forall₂ rounds recorded) point inside
    have named : normal.candidateId = point.candidateId := (applyPoint_fields own).1
    obtain ⟨-, same⟩ := left point member settling open_ normal own
    obtain ⟨-, entries, expected, targets⟩ := held settling (same ▸ new)
    obtain ⟨last, lastOf, seen, ran, yields⟩ := gate normal there (named ▸ open_)
    dsimp only at expected
    split at yields
    · next asked =>
      obtain ⟨others, found, theirs⟩ := yields
      rw [expected] at found
      cases found
      rw [named] at lastOf asked
      have settles : settles last.disposition = true := (applyPoint_fields ran).2 ▸ asked.2.1
      have mine : last.candidateId = point.candidateId := by
        obtain ⟨front, back, -, here, -⟩ := lastOf
        exact of_decide_eq_true here
      obtain ⟨ids, applies⟩ := left last lastOf.mem settles (mine ▸ open_) seen ran
      refine ⟨last, lastOf, settles, ?_, applies ▸ asked.2.2, asked.1⟩
      rw [← ids, ids_of_entries theirs, ids_of_entries targets]
    · rw [expected] at yields
      cases yields
  · intro stands
    refine (both_forall₂ ((List.forall₂_and_left _ _).mpr ⟨fun _ => id, rounds⟩)
      ((List.forall₂_and_left _ _).mpr ⟨fun _ => id, rounds.flip⟩).flip).imp fun point normal held settling new => ?_
    obtain ⟨⟨inside, own⟩, there, -⟩ := held
    obtain ⟨original, member, rfl⟩ := List.mem_map.mp inside
    obtain ⟨settles, open_⟩ := deferPoint_settles.mp settling
    rw [deferPoint_of_none open_] at own ⊢
    obtain ⟨ids, same⟩ := left original member settles open_ normal own
    obtain ⟨last, lastOf, lasting, targets, fresh, asked⟩ :=
      stands original member settles ((cleared original.candidateId).mp open_) (same ▸ new)
    have named : normal.candidateId = original.candidateId := (applyPoint_fields own).1
    obtain ⟨found, foundLast, seen, ran, yields⟩ := gate normal there (named ▸ open_)
    rw [named] at foundLast yields
    cases foundLast.unique lastOf
    have mine : last.candidateId = original.candidateId := by
      obtain ⟨front, back, -, here, -⟩ := lastOf
      exact of_decide_eq_true here
    obtain ⟨seenIds, applies⟩ := left last lastOf.mem lasting (mine ▸ open_) seen ran
    rw [if_pos ⟨asked, (applyPoint_fields ran).2 ▸ lasting, applies ▸ fresh⟩] at yields
    obtain ⟨entries, expected, theirs⟩ := yields
    refine ⟨ids, entries, ?_, ?_⟩
    · rw [named]
      exact expected
    · rw [← targets, ← seenIds]
      exact theirs

end

/-! ### A candidate with two points -/

/-- An entry of the project `p`. -/
def noted (id : String) (title statement : SingleLine) : KnowledgeEntry where
  id
  projectName := .of "p" SingleLine.p_line
  modulePath := [.of "core" SingleLine.core_line]
  title
  statement
  createdAt := 0
  updatedAt := 0
  placed := SingleLine.core_placed
  attributed := KnowledgeEntry.not_reported title statement

def logsKept : KnowledgeEntry := noted "k1" (.of "Logs" SingleLine.logs_line) (.of "logs stay a day" (by decide +kernel))

def cacheCold : KnowledgeEntry := noted "k2" (.of "Cache" (by decide +kernel)) (.of "the cache starts cold" (by decide +kernel))

def noting : ProjectKnowledge where
  review _ := ⟨⟨"c1", "p", .memory, "logs stay a week and the cache is warm", none, .pending, none, none, [], none, []⟩, false, .answered,
    false, []⟩
  entries := [logsKept, cacheCold]
  distinct := by decide
  committed _ _ := false

def notedCodes (_ : String) : List String := [finalScopeRequired]

def restating (handle title statement : String) : AssimilationPoint where
  candidateId := "c1"
  disposition := .refine
  matchedTruthHandles := [handle]
  knowledgeItems := [⟨title, statement, ["core"], .procedure⟩]
  reason := "restated"

def restatedLogs : AssimilationPoint := restating "T1" "Logs" "logs stay a week"

def restatedCache : AssimilationPoint := restating "T2" "Cache" "the cache is warm"

theorem decided_by_both : ∀ point ∈ [restatedLogs, restatedCache], ∃ raw : AssimilationPoint, raw.validate = .ok point := by
  intro point member
  rcases List.mem_cons.mp member with rfl | last
  · exact ⟨restatedLogs, by decide⟩
  · rw [List.mem_singleton.mp last]
    exact ⟨restatedCache, by decide⟩

theorem scopeText_ne_empty (title statement : String) : scopeText title statement ≠ "" := by
  intro none
  have inside : '\n' ∈ (scopeText title statement).toList := by
    unfold scopeText
    simp only [String.toList_append]
    exact List.mem_append_left _ (List.mem_append_right _ (by decide))
  rw [none] at inside
  exact absurd inside (by decide)

def supporting (rows : List ScopeRow) : Except String (List ScopeVerdict) :=
  .ok <| rows.zipIdx.map fun row => ⟨row.2, {
    semanticSupport := .supported
    futureScope := .durable
    sourceUse := .reusableKnowledge
    scopeSegments := [⟨scopeText row.1.title row.1.statement, .reusableKnowledge, .durable, false, .claim, .supported,
      scopeText_ne_empty _ _⟩] }⟩

def quoted : ScopeSources where
  governedCandidateIds := ["c1"]
  original := [[⟨"transcript", none, some "logs stay a week and the cache is warm"⟩]]
  target _ := ⟨true, [("transcript", none)], [⟨some "as said", false⟩]⟩

def restatedOnce : HexDigests where
  sha256 _ := "0202173062742c59e9fa37de793bc069410af95c136e3ec2ca88b4cc6b26fe64"
  hex _ := by decide +kernel

def restated : HexDigests where
  sha256 text :=
    if text.utf8ByteSize = 275 then "0202173062742c59e9fa37de793bc069410af95c136e3ec2ca88b4cc6b26fe64"
    else "46e0b9d469173c519f0e53a3779d9ff0d8cc0c3c552cf5428df87320173a2d80"
  hex text := by
    split
    · exact restatedOnce.hex ""
    · decide +kernel

def recorded (digests : HexDigests) (decision : AssimilationDecision) : Except String (AssimilationPlan × AssimilationPlan × List RecordCall) := do
  let prepared := noting.prepare notedCodes ["c1"]
  let plan ← validateSeparatedAssimilationDecision (fun _ _ _ => .ok ()) prepared decision
  let outcome ← verifyFinalKnowledgeScope digests prepared quoted supporting plan (noting.savedCodes notedCodes)
  let calls ← (applySeparatedAssimilation digests noting outcome.codes ["c1"] outcome.plan).mapError fun _ => "refused"
  return (plan, outcome.plan, calls)

theorem run_of_recorded {digests : HexDigests} {decision : AssimilationDecision} {plan left : AssimilationPlan} {calls : List RecordCall}
    (ran : recorded digests decision = .ok (plan, left, calls)) : ∃ outcome,
    validateSeparatedAssimilationDecision (fun _ _ _ => .ok ()) (noting.prepare notedCodes ["c1"]) decision = .ok plan ∧
    verifyFinalKnowledgeScope digests (noting.prepare notedCodes ["c1"]) quoted supporting plan (noting.savedCodes notedCodes) = .ok outcome ∧
    outcome.plan = left ∧ applySeparatedAssimilation digests noting outcome.codes ["c1"] outcome.plan = .ok calls := by
  unfold recorded at ran
  dsimp only at ran
  obtain ⟨own, accepted, ran⟩ := bind_eq_ok.mp ran
  obtain ⟨outcome, verified, ran⟩ := bind_eq_ok.mp ran
  obtain ⟨others, applies, ran⟩ := bind_eq_ok.mp ran
  cases ran
  refine ⟨outcome, accepted, verified, rfl, ?_⟩
  cases result : applySeparatedAssimilation digests noting outcome.codes ["c1"] outcome.plan with
  | error refusal =>
    rw [result] at applies
    cases applies
  | ok same =>
    rw [result] at applies
    cases applies
    rfl

def planned (target : String) (title statement : String) : PlanPoint where
  candidateId := "c1"
  answerStatus := .answered
  disposition := .refine
  matchedTruthIds := [target]
  matchedTruthKinds := ["knowledge_entry"]
  knowledgeItems := [⟨title, statement, ["core"], .procedure⟩]
  reason := "restated"

def plannedLogs : PlanPoint := planned "k1" "Logs" "logs stay a week"

def plannedCache : PlanPoint := planned "k2" "Cache" "the cache is warm"

theorem verified_plan_recorded_with_own_single : ∃ outcome : ScopeOutcome, ItemsStand (noting.prepare notedCodes ["c1"]) outcome ∧
    outcome.plan.points = [plannedLogs] ∧
    List.Forall₂ (RecordedWithOwn noting) outcome.plan.points [⟨plannedLogs, some [logsKept]⟩] := by
  have ran : recorded restatedOnce ⟨[restatedLogs], decided_by restatedLogs (by decide +kernel)⟩ =
      .ok (⟨["c1"], [plannedLogs], ["c1"]⟩, ⟨["c1"], [plannedLogs], ["c1"]⟩, [⟨plannedLogs, some [logsKept]⟩]) := by decide +kernel
  obtain ⟨outcome, accepted, verified, left, applies⟩ := run_of_recorded ran
  obtain ⟨stand, -, recorded⟩ := verified_plan_recorded_with_own_iff accepted verified
  refine ⟨outcome, stand, by rw [left], (recorded _ applies).mpr fun point member _ _ _ => ?_⟩
  cases List.mem_singleton.mp member
  exact ⟨plannedLogs, ⟨[], [], rfl, rfl, fun _ none => absurd none List.not_mem_nil⟩, rfl, rfl, by decide +kernel, by decide +kernel⟩

/-- Two points of one candidate that restate two entries: both are recorded with the entry of the second one, and
recording refuses the first. -/
theorem restated_twice_recorded_with_last : ¬ ∀ (specificity : SeparatedPreparedAssimilation → String → List String → Except String Unit)
    (digests : HexDigests) (project : ProjectKnowledge) (evidence : String → List String) (candidateIds : List String)
    (decision : AssimilationDecision) (plan : AssimilationPlan) (sources : ScopeSources)
    (verify : List ScopeRow → Except String (List ScopeVerdict)) (outcome : ScopeOutcome),
    validateSeparatedAssimilationDecision specificity (project.prepare evidence candidateIds) decision = .ok plan →
    verifyFinalKnowledgeScope digests (project.prepare evidence candidateIds) sources verify plan (project.savedCodes evidence) = .ok outcome →
      ItemsStand (project.prepare evidence candidateIds) outcome ∧
      (∀ message, applySeparatedAssimilation digests project outcome.codes candidateIds outcome.plan ≠ .error (.finalScope message)) ∧
      ∀ calls, applySeparatedAssimilation digests project outcome.codes candidateIds outcome.plan = .ok calls →
        List.Forall₂ (RecordedWithOwn project) outcome.plan.points calls := by
  intro all
  have ran : recorded restated ⟨[restatedLogs, restatedCache], decided_by_both⟩ =
      .ok (⟨["c1"], [plannedLogs, plannedCache], ["c1"]⟩, ⟨["c1"], [plannedLogs, plannedCache], ["c1"]⟩,
        [⟨plannedLogs, some [cacheCold]⟩, ⟨plannedCache, some [cacheCold]⟩]) := by decide +kernel
  obtain ⟨outcome, accepted, verified, left, applies⟩ := run_of_recorded ran
  have agreed := (all _ _ _ _ _ _ _ _ _ _ accepted verified).2.2 _ applies
  rw [left] at agreed
  obtain ⟨first, -⟩ := List.forall₂_cons.mp agreed
  obtain ⟨-, entries, expected, own⟩ := first rfl rfl
  cases expected
  have wrong : plannedLogs.matchedTruthIds.mapM noting.getEntry ≠ some [cacheCold] := by decide +kernel
  exact wrong own

end HarnessMem.Assimilation
