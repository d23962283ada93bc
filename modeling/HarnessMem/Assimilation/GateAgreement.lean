import HarnessMem.Assimilation.PointByPoint

/-! The gate of the apply step against the last verification: it asks for no proof that is not there, and it
hands every point of a candidate the entries that the last of its points targets.
-/

set_option autoImplicit false

namespace HarnessMem.Assimilation

open Library Dream

/-! ### What is left of a plan -/

section

variable {blocked : String → Option String} {point : PlanPoint}

theorem deferPoint_candidate : (deferPoint blocked point).candidateId = point.candidateId := by
  unfold deferPoint
  split <;> rfl

theorem deferPoint_of_none (open_ : blocked point.candidateId = none) : deferPoint blocked point = point := by
  unfold deferPoint
  rw [open_]

theorem deferPoint_settles : settles (deferPoint blocked point).disposition = true ↔
    settles point.disposition = true ∧ blocked point.candidateId = none := by
  unfold deferPoint
  cases reason : blocked point.candidateId with
  | none => simp
  | some text => simp [settles, writes]

end

theorem automatic?_silent {gated : GatedCandidate} {candidateId : String} {point : PlanPoint}
    (decided : gated.automatic? candidateId = some point) : settles point.disposition = false := by
  unfold GatedCandidate.automatic? at decided
  split at decided
  · next disposition chosen =>
    cases decided
    split at chosen
    · unfold GatedCandidate.nonPromotingDisposition at chosen
      dsimp only at chosen
      split at chosen
      · split at chosen
        · next allowed =>
          cases chosen
          change settles disposition = false
          rcases List.mem_cons.mp allowed.1 with same | same
          · rw [same]
            rfl
          · rw [List.mem_singleton.mp same]
            rfl
        · cases chosen
      · cases chosen
    · cases chosen
  · split at decided
    · split at decided
      · cases decided
        rfl
      · cases decided
    · cases decided
      cases gated.answerStatus <;> rfl

theorem applyPoint_fields {prepared : SeparatedPreparedAssimilation} {point normal : PlanPoint}
    (ran : applyPoint prepared point = .ok normal) :
    normal.candidateId = point.candidateId ∧ normal.disposition = point.disposition := by
  unfold applyPoint at ran
  dsimp only at ran
  split at ran
  · cases ran
  split at ran
  swap
  · cases ran
  split at ran
  · split at ran
    · next expected found =>
      split at ran
      · cases ran
      · next same =>
        cases ran
        have own := List.find?_some found
        exact ⟨of_decide_eq_true own, (not_not.mp (not_or.mp same).1).symm⟩
    · cases ran
  split at ran
  · cases ran
  unfold applyEligible at ran
  dsimp only at ran
  split at ran
  · cases ran
  obtain ⟨done, -, ran⟩ := bind_eq_ok.mp ran
  split at ran
  · cases ran
  split at ran
  · cases ran
  obtain ⟨supplied, -, ran⟩ := bind_eq_ok.mp ran
  obtain ⟨report, -, ran⟩ := bind_eq_ok.mp ran
  obtain ⟨final, -, ran⟩ := bind_eq_ok.mp ran
  cases ran
  exact ⟨rfl, rfl⟩

section

variable {specificity : SeparatedPreparedAssimilation → String → List String → Except String Unit}
  {digests : HexDigests} {project : ProjectKnowledge} {evidence : String → List String} {candidateIds : List String}
  {decision : AssimilationDecision} {plan : AssimilationPlan} {sources : ScopeSources}
  {verify : List ScopeRow → Except String (List ScopeVerdict)} {outcome : ScopeOutcome}

theorem planned_of_settling
    (accepted : validateSeparatedAssimilationDecision specificity (project.prepare evidence candidateIds) decision = .ok plan)
    {point : PlanPoint} (member : point ∈ plan.points) (settling : settles point.disposition = true) :
    ∃ original report, original.Valid ∧ Planned (project.prepare evidence candidateIds) original point report ∧
      point.candidateId ∈ (project.prepare evidence candidateIds).eligibleCandidateIds := by
  obtain ⟨normalized, planned, -, eligible, entries, -, shape⟩ := accepted_spec accepted
  rw [shape] at member
  rcases List.mem_append.mp (mem_byCandidate.mp member) with automatic | inside
  · obtain ⟨candidateId, -, decided⟩ := List.mem_filterMap.mp automatic
    rw [automatic?_silent decided] at settling
    cases settling
  · obtain ⟨original, own, report, entry⟩ := exists_of_forall₂ entries.flip point inside
    exact ⟨original, report, normalized.valid own, entry, entry.fields.1 ▸ eligible original own⟩

theorem payload_again
    (accepted : validateSeparatedAssimilationDecision specificity (project.prepare evidence candidateIds) decision = .ok plan)
    {point normal : PlanPoint} (member : point ∈ plan.points) (settling : settles point.disposition = true)
    (ran : applyPoint (project.prepare evidence candidateIds) point = .ok normal) {payload : FinalScopePayload}
    (read : finalScopePayload (project.prepare evidence candidateIds) point = .ok payload) :
    normal.matchedTruthIds = point.matchedTruthIds ∧ finalScopePayload (project.prepare evidence candidateIds) normal = .ok payload := by
  obtain ⟨original, report, valid, entry, eligible⟩ := planned_of_settling accepted member settling
  rw [applyPoint_eligible eligible] at ran
  unfold applyEligible at ran
  dsimp only at ran
  split at ran
  · cases ran
  obtain ⟨done, -, ran⟩ := bind_eq_ok.mp ran
  split at ran
  · cases ran
  split at ran
  · cases ran
  obtain ⟨supplied, supplies, ran⟩ := bind_eq_ok.mp ran
  obtain ⟨own, authority, ran⟩ := bind_eq_ok.mp ran
  obtain ⟨final, binds, ran⟩ := bind_eq_ok.mp ran
  cases ran
  refine ⟨rfl, ?_⟩
  have same : own = report := by
    have checked := entry.authority
    rw [← entry.fields.1, ← entry.fields.2.2.1, authority] at checked
    exact Except.ok.inj checked
  subst same
  let normal : PlanPoint := {
    candidateId := point.candidateId
    answerStatus := .answered
    disposition := point.disposition
    matchedTruthIds := point.matchedTruthIds
    matchedTruthKinds := point.matchedTruthIds.map fun _ => "knowledge_entry"
    knowledgeItems := final
    reason := stripped point.reason }
  have items := @items_again _ _ _ normal _ _ _ valid entry supplies binds rfl rfl rfl rfl
  unfold finalScopePayload at read ⊢
  dsimp only
  split at read
  · cases read
  next targets found =>
  rw [supplies, ok_bind] at read
  dsimp only [normal] at items
  rw [items, ok_bind]
  exact read

/-! ### What agrees -/

/-- The verifier was asked about an item, and its verdict over the title, a newline and the statement lets it stand. -/
def ItemStands (outcome : ScopeOutcome) (candidateId : String) (item : String × String) : Prop :=
  ∃ verdict ∈ outcome.checked, ∃ row, outcome.rows[verdict.candidateIndex]? = some row ∧ row.owner = candidateId ∧
    row.title = item.1 ∧ row.statement = item.2 ∧ Stands verdict.point (item.1 ++ "\n" ++ item.2) ∧
    DurableOver verdict.point (item.1 ++ "\n" ++ item.2)

def ItemsStand (prepared : SeparatedPreparedAssimilation) (outcome : ScopeOutcome) : Prop :=
  ∀ point ∈ outcome.plan.points, settles point.disposition = true → ∃ payload, finalScopePayload prepared point = .ok payload ∧
    payload.finalItems ≠ [] ∧ ∀ item ∈ payload.finalItems, ItemStands outcome point.candidateId item

/-- A point that is about to write or confirm is recorded with the entries it targets itself. -/
def RecordedWithOwn (project : ProjectKnowledge) (point : PlanPoint) (call : RecordCall) : Prop :=
  settles point.disposition = true → project.isCommittedWrite call.point = false →
    call.point.matchedTruthIds = point.matchedTruthIds ∧
      ∃ entries, call.expected = some entries ∧ point.matchedTruthIds.mapM project.getEntry = some entries

/-- Verification leaves a candidate in the plan: the sources of all its points let them be judged, and every verdict on
an item of it lets the item stand. -/
def Cleared (prepared : SeparatedPreparedAssimilation) (sources : ScopeSources) (plan : AssimilationPlan) (outcome : ScopeOutcome)
    (candidateId : String) : Prop :=
  (∀ point ∈ plan.points, settlesFor candidateId point = true → Complete prepared sources point) ∧
    ∀ verdict ∈ outcome.checked, ∀ row, outcome.rows[verdict.candidateIndex]? = some row → row.owner = candidateId →
      Stands verdict.point (scopeText row.title row.statement)

/-- The last point of the candidate writes or confirms too, targets the same entries and is not a replay, and the evidence
of the candidate asks for the proof. -/
def LastStandsFor (project : ProjectKnowledge) (prepared : SeparatedPreparedAssimilation) (codes : String → List String)
    (plan : AssimilationPlan) (point : PlanPoint) : Prop :=
  ∃ last, LastOf (fun other => other.candidateId = point.candidateId) plan.points last ∧ settles last.disposition = true ∧
    last.matchedTruthIds = point.matchedTruthIds ∧ project.isCommittedWrite (applied prepared last) = false ∧
    finalScopeRequired ∈ codes point.candidateId

/-! ### One candidate at the gate -/

theorem entries_of_targets {project : ProjectKnowledge} {prepared : SeparatedPreparedAssimilation} {ids : List String}
    {targets : List TargetSnapshot} {entries : List KnowledgeEntry} (snapshots : ids.mapM prepared.snapshot? = some targets)
    (found : targets.mapM (expectedTarget project) = .ok entries) : ids.mapM project.getEntry = some entries := by
  induction ids generalizing targets entries with
  | nil =>
    cases snapshots
    cases found
    rfl
  | cons id rest ih =>
    rw [List.mapM_cons] at snapshots
    obtain ⟨snapshot, first, snapshots⟩ := Option.bind_eq_some_iff.mp snapshots
    obtain ⟨others, later, snapshots⟩ := Option.bind_eq_some_iff.mp snapshots
    cases snapshots
    rw [List.mapM_cons] at found
    obtain ⟨entry, here, found⟩ := bind_eq_ok.mp found
    obtain ⟨more, rounds, found⟩ := bind_eq_ok.mp found
    cases found
    have named : snapshot.id = id := by
      unfold SeparatedPreparedAssimilation.snapshot? at first
      obtain ⟨item, -, rfl⟩ := Option.map_eq_some_iff.mp first
      rfl
    have own : project.getEntry id = some entry := by
      unfold expectedTarget at here
      rw [named] at here
      split at here
      · next current there =>
        split at here
        · cases here
          exact there
        · cases here
      · cases here
    rw [List.mapM_cons, own, ih later rounds]
    rfl

theorem ids_of_entries {project : ProjectKnowledge} {ids : List String} {entries : List KnowledgeEntry}
    (found : ids.mapM project.getEntry = some entries) : ids = entries.map (·.id) := by
  have rounds := forall₂_of_mapM_some found
  clear found
  induction rounds with
  | nil => rfl
  | cons here _ ih =>
    have own := List.find?_some here
    rw [List.map_cons, ← ih, of_decide_eq_true own]

theorem gate_ok {prepared : SeparatedPreparedAssimilation} {codes : String → List String} {points : List PlanPoint}
    {candidateId : String} {result : Option (List KnowledgeEntry)}
    (ran : gateCandidate digests project prepared codes points candidateId = .ok result) :
    ∃ point, LastOf (fun other => other.candidateId = candidateId) points point ∧
      if finalScopeRequired ∈ codes candidateId ∧ settles point.disposition = true ∧ project.isCommittedWrite point = false then
        ∃ entries, result = some entries ∧ point.matchedTruthIds.mapM project.getEntry = some entries
      else result = none := by
  unfold gateCandidate at ran
  split at ran
  · cases ran
  next point found =>
  refine ⟨point, reverse_find?_iff.mp found, ?_⟩
  dsimp only at ran
  split at ran
  · cases ran
  split at ran
  · next asked =>
    rw [if_pos ⟨asked.1, asked.2.1, by simpa using asked.2.2⟩]
    obtain ⟨payload, read, ran⟩ := bind_eq_ok.mp ran
    split at ran
    swap
    · cases ran
    obtain ⟨entries, targets, ran⟩ := bind_eq_ok.mp ran
    cases ran
    refine ⟨entries, rfl, ?_⟩
    cases own : finalScopePayload prepared point with
    | error message =>
      rw [own] at read
      cases read
    | ok same =>
      rw [own] at read
      cases read
      unfold finalScopePayload at own
      split at own
      · cases own
      next snapshots shots =>
      obtain ⟨items, -, rest⟩ := bind_eq_ok.mp own
      cases rest
      exact entries_of_targets shots targets
  · next silent =>
    rw [if_neg (fun asked => silent ⟨asked.1, asked.2.1, by simpa using asked.2.2⟩)]
    cases ran
    rfl

theorem lookup_mapM {β ε : Type} {read : String → Except ε β} {items : List String} {results : List (String × β)}
    (ran : (items.mapM fun item => return (item, ← read item)) = .ok results) {item : String} (member : item ∈ items) :
    ∃ result, read item = .ok result ∧ results.lookup item = some result := by
  induction items generalizing results with
  | nil => cases member
  | cons first rest ih =>
    rw [List.mapM_cons] at ran
    obtain ⟨pair, here, ran⟩ := bind_eq_ok.mp ran
    obtain ⟨result, own, here⟩ := bind_eq_ok.mp here
    cases here
    obtain ⟨others, later, ran⟩ := bind_eq_ok.mp ran
    cases ran
    by_cases same : item = first
    · subst same
      exact ⟨result, own, by simp⟩
    · obtain ⟨found, reads, there⟩ := ih later ((List.mem_cons.mp member).resolve_left same)
      refine ⟨found, reads, ?_⟩
      rw [List.lookup_cons, show (item == first) = false from beq_eq_false_iff_ne.mpr same]
      exact there

end

end HarnessMem.Assimilation
