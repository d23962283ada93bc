import HarnessMem.Assimilation.Agreement
import HarnessMem.Assimilation.ApplyGate

/-! The last verification and the gate of the apply step, point by point: what is left in the plan has been
judged, and its proof is there. The entries a point is recorded with are those of the last point of its
candidate.
-/

set_option autoImplicit false

namespace HarnessMem.Assimilation

open Library Dream

def settlesFor (candidateId : String) (point : PlanPoint) : Bool := settles point.disposition && point.candidateId = candidateId

theorem settlesFor_iff {candidateId : String} {point : PlanPoint} :
    settlesFor candidateId point = true ↔ settles point.disposition = true ∧ point.candidateId = candidateId := by
  simp [settlesFor]

section

variable (prepared : SeparatedPreparedAssimilation) (sources : ScopeSources)

def Complete (point : PlanPoint) : Prop :=
  ∃ payload own behind, finalScopePayload prepared point = .ok payload ∧ sources.candidate? point.candidateId = some own ∧
    sources.behind? payload own = some behind ∧ canJudge payload behind = true

/-- What is known of the rows once some points have been seen. -/
structure RowsOf (done : List PlanPoint) (progress : ScopeProgress) : Prop where
  /-- The payload that is kept for a candidate is that of its last point. -/
  payload : ∀ candidateId point, LastOf (settlesFor candidateId) done point →
    ∃ payload, finalScopePayload prepared point = .ok payload ∧ progress.payloads candidateId = some payload
  rows : ∀ point ∈ done, settles point.disposition = true → progress.blocked point.candidateId = none →
    ∃ payload, finalScopePayload prepared point = .ok payload ∧ ∀ item ∈ payload.finalItems,
      ∃ row ∈ progress.rows, row.owner = point.candidateId ∧ row.title = item.1 ∧ row.statement = item.2
  blocked : ∀ candidateId, progress.blocked candidateId = none ↔
    ∀ point ∈ done, settlesFor candidateId point = true → Complete prepared sources point

end

section

variable {prepared : SeparatedPreparedAssimilation} {sources : ScopeSources}

theorem finalScopePayload_candidate {point : PlanPoint} {payload : FinalScopePayload}
    (read : finalScopePayload prepared point = .ok payload) :
    payload.candidateId = point.candidateId ∧ payload.disposition = point.disposition := by
  unfold finalScopePayload at read
  split at read
  · cases read
  · obtain ⟨items, -, rest⟩ := bind_eq_ok.mp read
    cases rest
    exact ⟨rfl, rfl⟩

/-- What one round over a point can do. -/
theorem scopePoint_cases {progress next : ScopeProgress} {point : PlanPoint}
    (ran : scopePoint prepared sources progress point = .ok next) :
    (settles point.disposition = false ∧ next = progress) ∨
    (settles point.disposition = true ∧ ∃ payload own, finalScopePayload prepared point = .ok payload ∧
      sources.candidate? point.candidateId = some own ∧
      ((¬ Complete prepared sources point ∧ (∃ reason, next = (progress.keep payload).block point.candidateId reason) ∨
        (progress.blocked point.candidateId).isSome ∧ next = progress.keep payload) ∨
      (Complete prepared sources point ∧ progress.blocked point.candidateId = none ∧
        ∃ behind, next = { progress.keep payload with
          rows := progress.rows ++ payload.finalItems.map fun item => ⟨point.candidateId, item.1, item.2, behind⟩ }))) := by
  unfold scopePoint at ran
  split at ran
  swap
  · next silent =>
    cases ran
    exact .inl ⟨Bool.eq_false_iff.mpr silent, rfl⟩
  next settling =>
  obtain ⟨payload, read, ran⟩ := bind_eq_ok.mp ran
  dsimp only at ran
  split at ran
  · cases ran
  next own known =>
  refine .inr ⟨settling, payload, own, read, known, ?_⟩
  split at ran
  · next missing =>
    cases ran
    refine .inl (.inl ⟨?_, _, rfl⟩)
    rintro ⟨other, mine, behind, again, found, complete, -⟩
    rw [read] at again
    rw [known] at found
    cases again
    cases found
    rw [missing] at complete
    cases complete
  · next behind found =>
    split at ran
    · next already =>
      cases ran
      exact .inl (.inr ⟨already, rfl⟩)
    next open_ =>
    split at ran
    · next judged =>
      cases ran
      refine .inr ⟨⟨payload, own, behind, read, known, found, judged⟩, ?_, behind, rfl⟩
      exact Option.not_isSome_iff_eq_none.mp open_
    · next unjudged =>
      cases ran
      refine .inl (.inl ⟨?_, _, rfl⟩)
      rintro ⟨other, mine, complete, again, mineFound, all, judged⟩
      rw [read] at again
      rw [known] at mineFound
      cases again
      cases mineFound
      rw [found] at all
      cases all
      exact unjudged judged

/-- A round keeps what is known. -/
theorem RowsOf.step {done : List PlanPoint} {progress next : ScopeProgress} {point : PlanPoint}
    (held : RowsOf prepared sources done progress) (ran : scopePoint prepared sources progress point = .ok next) :
    RowsOf prepared sources (done ++ [point]) next := by
  rcases scopePoint_cases ran with ⟨silent, rfl⟩ | ⟨settling, payload, own, read, known, outcome⟩
  · -- the point neither writes nor confirms
    have skipped : ∀ candidateId, settlesFor candidateId point = false := fun candidateId => by
      simp [settlesFor, silent]
    refine ⟨fun candidateId last found => ?_, fun other member settling open_ => ?_, fun candidateId => ?_⟩
    · rcases found.of_snoc with ⟨mine, -⟩ | ⟨-, before⟩
      · rw [skipped] at mine
        cases mine
      · exact held.payload candidateId last before
    · rcases List.mem_append.mp member with inside | same
      · exact held.rows other inside settling open_
      · rw [List.mem_singleton.mp same, silent] at settling
        cases settling
    · rw [held.blocked candidateId]
      simp only [List.forall_mem_append, List.forall_mem_singleton, skipped, Bool.false_eq_true, false_implies, and_true]
  · have named := (finalScopePayload_candidate read).1
    have mine : ∀ candidateId, settlesFor candidateId point = true ↔ point.candidateId = candidateId := fun candidateId => by
      simp [settlesFor, settling]
    -- the payload is kept whatever becomes of the point
    have kept : ∀ state : ScopeProgress, state.payloads = (progress.keep payload).payloads →
        ∀ candidateId last, LastOf (settlesFor candidateId) (done ++ [point]) last →
          ∃ found, finalScopePayload prepared last = .ok found ∧ state.payloads candidateId = some found := by
      intro state same candidateId last found
      rw [same]
      simp only [ScopeProgress.keep, named]
      rcases found.of_snoc with ⟨own, rfl⟩ | ⟨other, before⟩
      · rw [(mine candidateId).mp own]
        exact ⟨payload, read, Function.update_self ..⟩
      · have apart : point.candidateId ≠ candidateId := fun same => by
          rw [(mine candidateId).mpr same] at other
          cases other
        rw [Function.update_of_ne apart.symm]
        exact held.payload candidateId last before
    rcases outcome with (⟨incomplete, reason, rfl⟩ | ⟨already, rfl⟩) | ⟨complete, open_, behind, rfl⟩
    · refine ⟨kept _ rfl, fun other member settles open_ => ?_, fun candidateId => ?_⟩
      · have apart : other.candidateId ≠ point.candidateId := fun same => by
          simp [ScopeProgress.block, same] at open_
        simp only [ScopeProgress.block, ScopeProgress.keep, Function.update_of_ne apart] at open_
        rcases List.mem_append.mp member with inside | same
        · exact held.rows other inside settles open_
        · exact absurd (congrArg PlanPoint.candidateId (List.mem_singleton.mp same)) apart
      · by_cases same : candidateId = point.candidateId
        · subst same
          simp only [ScopeProgress.block, Function.update_self, reduceCtorEq, false_iff]
          intro all
          exact incomplete (all point (List.mem_append_right _ List.mem_cons_self) ((mine _).mpr rfl))
        · simp only [ScopeProgress.block, ScopeProgress.keep, Function.update_of_ne same]
          rw [held.blocked candidateId]
          have other : settlesFor candidateId point = false := Bool.eq_false_iff.mpr fun own => same ((mine _).mp own).symm
          simp only [List.forall_mem_append, List.forall_mem_singleton, other, Bool.false_eq_true, false_implies, and_true]
    · refine ⟨kept _ rfl, fun other member settles open_ => ?_, fun candidateId => ?_⟩
      · rcases List.mem_append.mp member with inside | same
        · exact held.rows other inside settles open_
        · rw [List.mem_singleton.mp same] at open_
          rw [show (progress.keep payload).blocked = progress.blocked from rfl] at open_
          rw [open_] at already
          cases already
      · rw [show (progress.keep payload).blocked = progress.blocked from rfl]
        constructor
        · intro none other member own
          rcases List.mem_append.mp member with inside | same
          · exact (held.blocked candidateId).mp none other inside own
          · rw [List.mem_singleton.mp same] at own
            rw [(mine candidateId).mp own, none] at already
            cases already
        · intro all
          exact (held.blocked candidateId).mpr fun other inside own => all other (List.mem_append_left _ inside) own
    · refine ⟨kept _ rfl, fun other member settles unblocked => ?_, fun candidateId => ?_⟩
      · rcases List.mem_append.mp member with inside | same
        · obtain ⟨found, again, rows⟩ := held.rows other inside settles unblocked
          refine ⟨found, again, fun item own => ?_⟩
          obtain ⟨row, there, facts⟩ := rows item own
          exact ⟨row, List.mem_append_left _ there, facts⟩
        · rw [List.mem_singleton.mp same]
          refine ⟨payload, read, fun item own => ?_⟩
          exact ⟨_, List.mem_append_right _ (List.mem_map_of_mem own), rfl, rfl, rfl⟩
      · rw [show (progress.keep payload).blocked = progress.blocked from rfl, held.blocked candidateId]
        simp only [List.forall_mem_append, List.forall_mem_singleton]
        exact (and_iff_left fun _ => complete).symm

theorem rowsOf {points : List PlanPoint} {progress : ScopeProgress}
    (ran : points.foldlM (scopePoint prepared sources) {} = .ok progress) : RowsOf prepared sources points progress := by
  refine foldlM_ok (RowsOf prepared sources) (fun done point state next held => RowsOf.step held) ?_ ran
  refine ⟨fun candidateId point found => ?_, fun point member => absurd member List.not_mem_nil, fun candidateId => ?_⟩
  · obtain ⟨front, back, shape, -⟩ := found
    cases front <;> cases shape
  · exact ⟨fun _ point member => absurd member List.not_mem_nil, fun _ => rfl⟩

/-! ### The verdicts -/

theorem judged_none {rows : List ScopeRow} {checked : List ScopeVerdict} {blocked : String → Option String} {candidateId : String} :
    checked.foldl (judge rows) blocked candidateId = none ↔ blocked candidateId = none ∧
      ∀ verdict ∈ checked, ∀ row, rows[verdict.candidateIndex]? = some row → row.owner = candidateId →
        Stands verdict.point (scopeText row.title row.statement) := by
  induction checked generalizing blocked with
  | nil => simp
  | cons verdict rest ih =>
    rw [List.foldl_cons, ih, List.forall_mem_cons]
    have first : judge rows blocked verdict candidateId = none ↔ blocked candidateId = none ∧
        ∀ row, rows[verdict.candidateIndex]? = some row → row.owner = candidateId →
          Stands verdict.point (scopeText row.title row.statement) := by
      unfold judge
      cases found : rows[verdict.candidateIndex]? with
      | none => simp
      | some row =>
        dsimp only
        by_cases stands : Stands verdict.point (scopeText row.title row.statement)
        · rw [if_pos stands]
          refine ⟨fun none => ⟨none, fun other same _ => ?_⟩, And.left⟩
          cases same
          exact stands
        · rw [if_neg stands]
          by_cases own : candidateId = row.owner
          · subst own
            simp only [Function.update_self, reduceCtorEq, false_iff, not_and]
            exact fun _ all => stands (all row rfl rfl)
          · rw [Function.update_of_ne own]
            refine ⟨fun none => ⟨none, fun other same mine => ?_⟩, And.left⟩
            cases same
            exact absurd mine.symm own
    rw [first, and_assoc]

theorem covered {rows : List ScopeRow} {checked : List ScopeVerdict} {verify : List ScopeRow → Except String (List ScopeVerdict)}
    (ran : checkRows verify rows = .ok checked) {row : ScopeRow} (member : row ∈ rows) :
    ∃ verdict ∈ checked, rows[verdict.candidateIndex]? = some row := by
  obtain ⟨index, inside, found⟩ := List.getElem_of_mem member
  unfold checkRows at ran
  split at ran
  · next none =>
    rw [none] at member
    cases member
  obtain ⟨answer, -, rest⟩ := bind_eq_ok.mp ran
  split at rest
  · next all =>
    cases rest
    simp only [covers, decide_eq_true_eq, List.all_eq_true, List.mem_range, List.any_eq_true] at all
    obtain ⟨verdict, there, same⟩ := all.2.2 index inside
    exact ⟨verdict, there, by rw [same, List.getElem?_eq_getElem inside, found]⟩
  · cases rest

/-! ### A payload on both sides -/

theorem reread_of_validated {point : PlanPoint} {items : List CanonicalKnowledgeItem}
    (read : validatedApplyKnowledgeItems point true = .ok items) : ∃ supplied, supplied ≠ [] ∧ reread supplied = .ok items := by
  by_cases legacy : point.knowledgeItems = []
  · rw [validatedApply_legacy legacy] at read
    exact ⟨_, List.cons_ne_nil _ _, read⟩
  · refine ⟨_, legacy, ?_⟩
    by_cases mixed : stripped (point.canonicalTitle.getD "") ≠ "" ∨ stripped (point.canonicalStatement.getD "") ≠ "" ∨
        point.topicPath ≠ []
    · unfold validatedApplyKnowledgeItems at read
      dsimp only at read
      rw [if_neg (by decide), if_pos ⟨legacy, mixed⟩] at read
      cases read
    · unfold validatedApplyKnowledgeItems at read
      dsimp only at read
      rw [if_neg (by decide), if_neg (fun both => mixed both.2), if_neg legacy] at read
      exact read

theorem reread_again {supplied items : List CanonicalKnowledgeItem} (filled : supplied ≠ []) (read : reread supplied = .ok items) :
    items ≠ [] ∧ reread items = .ok items := by
  unfold reread at read
  obtain ⟨results, ran, rest⟩ := bind_eq_ok.mp read
  cases rest
  have canonical : ∀ item ∈ results, item.Canonical := by
    intro item member
    obtain ⟨raw, -, reads⟩ := of_mem_mapM ran member
    obtain ⟨rfl, canonical⟩ := readItem_iff.mp reads
    exact canonical
  constructor
  · intro none
    have size := (forall₂_of_mapM ran).length_eq
    obtain ⟨item, others, shape⟩ := List.exists_cons_of_ne_nil filled
    cases results with
    | nil => rw [shape] at size; cases size
    | cons first rest =>
      have member : first ∈ (first :: rest).eraseDups := List.mem_eraseDups.mpr List.mem_cons_self
      rw [show (first :: rest).eraseDups = [] from none] at member
      cases member
  · exact reread_self (fun item member => canonical item (List.mem_eraseDups.mp member)) (nodup_eraseDups _)

theorem validated_silent {point : PlanPoint} {items : List CanonicalKnowledgeItem}
    (read : validatedApplyKnowledgeItems point false = .ok items) : items = [] := by
  unfold validatedApplyKnowledgeItems at read
  dsimp only at read
  split at read
  · split at read
    · cases read
    · cases read
      rfl
  · next loud => exact absurd rfl loud

/-- The items of a planned point are the same to the verification and, once normalized, to the gate. -/
theorem items_again {point : AssimilationPoint} {planned normal : PlanPoint} {report : Option SourceReport}
    {supplied final : List CanonicalKnowledgeItem} (valid : point.Valid) (entry : Planned prepared point planned report)
    (read : validatedApplyKnowledgeItems planned (writes planned.disposition) = .ok supplied)
    (binds : bindReportItems report supplied (writes planned.disposition) = .ok final) (items : normal.knowledgeItems = final)
    (title : normal.canonicalTitle = none) (statement : normal.canonicalStatement = none) (path : normal.topicPath = []) :
    validatedApplyKnowledgeItems normal (writes planned.disposition) = .ok supplied := by
  have disposition := entry.fields.2.2.1
  cases writing : writes planned.disposition with
  | false =>
    rw [writing] at read binds
    have none := validated_silent read
    subst none
    have bare : final = [] := by
      cases report <;> cases binds <;> rfl
    have empty : stripped "" = "" := by decide
    simp [validatedApplyKnowledgeItems, items, bare, title, statement, path, empty]
    rfl
  | true =>
    rw [writing] at read binds
    obtain ⟨raw, filled, reads⟩ := reread_of_validated read
    obtain ⟨some_left, again⟩ := reread_again filled reads
    cases report with
    | none =>
      have same := bindReportItems_none binds
      subst same
      rw [validatedApply_items (by rw [items]; exact some_left) title statement path, items]
      exact again
    | some report =>
      -- a report is in the plan already, and is bound to the item again
      rw [disposition] at writing
      have carried := entry.carried
      unfold carriedItems at carried
      rw [if_pos writing] at carried
      obtain ⟨⟨written, own⟩, wrote, carried⟩ := bind_eq_ok.mp carried
      obtain ⟨bound, first, carried⟩ := bind_eq_ok.mp carried
      obtain ⟨item, only, shape⟩ := bindReportItems_some first
      subst only
      obtain ⟨same, place⟩ := Prod.ext_iff.mp (Except.ok.inj carried)
      have kept : planned.knowledgeItems = [{ item with
          title := report.renderTitle, statement := report.renderStatement, claimKind := .sourceReport }] := same.symm
      have canonical : item.Canonical := by
        by_cases legacy : point.knowledgeItems = []
        · obtain ⟨none, -⟩ := writtenItems_legacy valid legacy wrote
          cases none
        · exact (writtenItems_items valid legacy wrote).2.2 item List.mem_cons_self
      obtain ⟨single, rebinds⟩ := @bound_again report item canonical.placed canonical.parts _ rfl
      have names : planned.canonicalTitle = none ∧ planned.canonicalStatement = none ∧ planned.topicPath = [] := by
        by_cases legacy : point.knowledgeItems = []
        · obtain ⟨none, -⟩ := writtenItems_legacy valid legacy wrote
          cases none
        · obtain ⟨noTitle, noStatement, -⟩ := valid.single legacy
          obtain ⟨-, noPath, -⟩ := writtenItems_items valid legacy wrote
          exact ⟨entry.fields.2.2.2.1.trans noTitle, entry.fields.2.2.2.2.1.trans noStatement, place.symm.trans noPath⟩
      have only : planned.knowledgeItems ≠ [] := by
        rw [kept]
        exact List.cons_ne_nil _ _
      rw [validatedApply_items only names.1 names.2.1 names.2.2] at read
      have supplies : supplied = [CanonicalKnowledgeItem.canonical { item with
          title := report.renderTitle, statement := report.renderStatement, claimKind := .sourceReport }] := by
        rw [kept] at read
        unfold reread at read
        rw [List.mapM_cons, single] at read
        exact (Except.ok.inj read).symm
      have finals : final = planned.knowledgeItems := by
        rw [supplies, rebinds] at binds
        rw [kept]
        exact (Except.ok.inj binds).symm
      rw [validatedApply_items (by rw [items, finals]; exact only) title statement path, items, finals]
      exact read

end

end HarnessMem.Assimilation
