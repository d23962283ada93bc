import HarnessMem.Dream.Literal
import HarnessMem.Dream.Verification
import HarnessMem.Library.Results

/-! Resuming a verification from its checkpoint. -/

set_option autoImplicit false

namespace HarnessMem.Dream

open Library

/-! ### What the schema has checked -/

def CandidateVerificationPoint.boundScope (point : CandidateVerificationPoint) : FutureScope :=
  if point.sourceUse = .taskContext then .sessionOnly
  else if point.sourceUse = .unclear then .unclear
  else point.futureScope

/-- The units of a point pass their checks. -/
structure CandidateVerificationPoint.UnitsChecked (point : CandidateVerificationPoint) : Prop where
  ranges : ∀ unit ∈ point.claimUnits, unit.requireNonemptyRange = .ok ()
  bound : ∀ unit ∈ point.claimUnits, point.checkUnit unit = .ok ()

variable {point : CandidateVerificationPoint}

theorem validate_eq_ok {checked : CandidateVerificationPoint} : point.validate = .ok checked ↔
    point.UnitsChecked ∧ { point with futureScope := point.boundScope } = checked := by
  constructor
  · intro ran
    obtain ⟨done, ranges, ran⟩ := bind_eq_ok.mp ran
    obtain ⟨done, bound, ran⟩ := bind_eq_ok.mp ran
    exact ⟨⟨forM_eq_ok.mp ranges, forM_eq_ok.mp bound⟩, Except.ok.inj ran⟩
  · rintro ⟨units, rfl⟩
    refine bind_eq_ok.mpr ⟨(), forM_eq_ok.mpr units.ranges, ?_⟩
    exact bind_eq_ok.mpr ⟨(), forM_eq_ok.mpr units.bound, rfl⟩

/-- The range a unit selects, the segments it leaves out and its title. -/
structure CandidateClaimUnit.InRange (unit : CandidateClaimUnit) : Prop where
  nonempty : unit.firstSegment < unit.endSegmentExclusive
  once : unit.excludedSegments.Nodup
  inside : ∀ index ∈ unit.excludedSegments, unit.firstSegment ≤ index ∧ index < unit.endSegmentExclusive
  both : unit.titleStart.isNone = unit.titleEnd.isNone
  title : ∀ start ∈ unit.titleStart, ∀ finish ∈ unit.titleEnd, start < finish ∧ finish ≤ unit.retainedText.length ∧
    CandidateClaimUnit.slice unit.retainedText start finish ≠ "" ∧
    CandidateClaimUnit.slice unit.retainedText start finish = stripped (CandidateClaimUnit.slice unit.retainedText start finish)

variable {unit : CandidateClaimUnit}

theorem CandidateClaimUnit.InRange.titled (range : unit.InRange) :
    unit.titleStart = none ∧ unit.titleEnd = none ∨ ∃ start finish, unit.titleStart = some start ∧ unit.titleEnd = some finish := by
  have both := range.both
  cases starts : unit.titleStart <;> cases finishes : unit.titleEnd <;> simp [starts, finishes] at both ⊢

theorem requireNonemptyRange_eq_ok : unit.requireNonemptyRange = .ok () ↔ unit.InRange := by
  constructor
  · intro ran
    unfold CandidateClaimUnit.requireNonemptyRange at ran
    dsimp only at ran
    split at ran
    · cases ran
    rename_i nonempty
    split at ran
    · cases ran
    rename_i excluded
    split at ran
    · cases ran
    rename_i both
    simp only [not_or, not_not, List.any_eq_true, decide_eq_true_eq, not_exists, not_and] at excluded
    refine ⟨by omega, excluded.1, fun index member => ?_, ?_, ?_⟩
    · have outside := excluded.2 index member
      omega
    · simpa using both
    · intro start starts finish finishes
      rw [Option.mem_def] at starts finishes
      simp only [starts, finishes] at ran
      split at ran
      · cases ran
      rename_i range
      split at ran
      · cases ran
      rename_i bare
      simp only [not_or, not_not] at range bare
      exact ⟨range.1, range.2, bare.1, bare.2⟩
  · intro range
    have excluded : ¬ (¬ unit.excludedSegments.Nodup ∨ (unit.excludedSegments.any fun index =>
        index < unit.firstSegment ∨ unit.endSegmentExclusive ≤ index) = true) := by
      simp only [not_or, not_not, List.any_eq_true, decide_eq_true_eq, not_exists, not_and]
      refine ⟨range.once, fun index member => ?_⟩
      have inside := range.inside index member
      omega
    unfold CandidateClaimUnit.requireNonemptyRange
    dsimp only
    rw [if_neg (by have := range.nonempty; omega), if_neg excluded, if_neg (by simpa using range.both)]
    cases starts : unit.titleStart with
    | none => rfl
    | some start =>
      cases finishes : unit.titleEnd with
      | none => rfl
      | some finish =>
        obtain ⟨before, within, filled, bare⟩ := range.title start starts finish finishes
        dsimp only
        rw [if_neg (by simp only [not_not]; exact ⟨before, within⟩), if_neg (by simp only [not_or, not_not]; exact ⟨filled, bare⟩)]
        rfl

/-- What `checkUnit` has checked of the text of a unit. -/
theorem checkUnit_text (checked : point.checkUnit unit = .ok ()) :
    unit.endSegmentExclusive ≤ point.scopeSegments.length ∧
      (unit.retainedText = "" ∨ unit.retainedText = unit.projected point.scopeSegments) := by
  unfold CandidateVerificationPoint.checkUnit at checked
  dsimp only at checked
  split at checked
  · cases checked
  rename_i within
  split at checked
  · cases checked
  split at checked
  · cases checked
  rename_i projects
  refine ⟨by omega, ?_⟩
  by_cases empty : unit.retainedText = ""
  · exact .inl empty
  · refine .inr (not_not.mp fun differs => projects ⟨.inr empty, .inr differs⟩)

theorem checkUnit_retitled {other : CandidateClaimUnit}
    (same : { unit with titleStart := other.titleStart, titleEnd := other.titleEnd } = other)
    (titled : unit.titleStart.isSome = other.titleStart.isSome) : point.checkUnit other = point.checkUnit unit := by
  rw [← same]
  unfold CandidateVerificationPoint.checkUnit
  simp only [← titled]
  rfl

/-! ### Ranges of the text -/

theorem slice_append (before part after : String) :
    CandidateClaimUnit.slice (before ++ part ++ after) before.length (before.length + part.length) = part := by
  unfold CandidateClaimUnit.slice
  rw [String.toList_append, String.toList_append, ← String.length_toList, ← String.length_toList, ← List.length_append,
    List.take_left, List.drop_left, String.ofList_toList]

theorem length_slice {text : String} {start finish : Nat} (within : finish ≤ text.length) :
    (CandidateClaimUnit.slice text start finish).length = finish - start := by
  rw [← String.length_toList] at within
  simp [CandidateClaimUnit.slice, within]

theorem join_cons (text : String) (texts : List String) : String.join (text :: texts) = text ++ String.join texts := by
  rw [← String.toList_inj]
  simp

section
variable (hashes : Hashes)

theorem restoreSegment_proof (before after : String) (part : CandidateScopeSegment) :
    restoreSegment hashes (before ++ part.text ++ after) before.length {
      charStart := before.length
      charEnd := ↑(before.length + part.text.length)
      textSha256 := hashes.sha256Text part.text
      contentRole := part.contentRole
      sourceUse := part.sourceUse
      futureScope := part.futureScope
      standalone := part.standalone
      sourceSupport := part.sourceSupport } = some part := by
  have filled : 0 < part.text.length := by
    rw [← String.length_toList, List.length_pos_iff]
    exact fun empty => part.filled (String.toList_eq_nil_iff.mp empty)
  have length : (before ++ part.text ++ after).length = before.length + part.text.length + after.length := by
    simp only [String.length_append]
  unfold restoreSegment
  dsimp only
  rw [if_neg (by rw [length]; omega)]
  simp only [Int.toNat_natCast, slice_append]
  simp [part.filled]

theorem restoreSegments_proofs (before : String) (segments : List CandidateScopeSegment) :
    restoreSegments hashes (before ++ String.join (segments.map (·.text))) before.length (segmentProofs hashes before.length segments) =
      some segments := by
  induction segments generalizing before with
  | nil => simp [restoreSegments, segmentProofs]
  | cons part rest ih =>
    have first := restoreSegment_proof hashes before (String.join (rest.map (·.text))) part
    have others := ih (before ++ part.text)
    simp only [String.append_assoc, String.length_append] at first others
    simp only [segmentProofs, restoreSegments, List.map_cons, join_cons, first, Int.toNat_natCast, others]
    rfl

def UnitProof.restored (unit : UnitProof) : CandidateClaimUnit where
  firstSegment := unit.firstSegment.toNat
  endSegmentExclusive := unit.endSegmentExclusive.toNat
  standalone := unit.standalone
  sourceSupport := unit.sourceSupport
  sourceUse := unit.sourceUse
  futureScope := unit.futureScope
  excludedSegments := unit.excludedSegments.map (·.toNat)
  titleStart := unit.titleStart.map (·.toNat)
  titleEnd := unit.titleEnd.map (·.toNat)
  titleAndTextSupport := unit.titleAndTextSupport
  selectedForRetention := unit.selectedForRetention

def UnitProof.retained (segments : List CandidateScopeSegment) (unit : UnitProof) : String :=
  if unit.retainedTextPresent then unit.restored.projected segments else ""

/-- The checks of `restore_point` on one unit. -/
structure UnitProof.Holds (segments : List CandidateScopeSegment) (unit : UnitProof) : Prop where
  range : 0 ≤ unit.firstSegment ∧ unit.firstSegment < unit.endSegmentExclusive ∧ unit.endSegmentExclusive ≤ segments.length
  text : hashes.sha256Text (joinRange segments unit.firstSegment.toNat unit.endSegmentExclusive.toNat) = unit.textSha256
  original : unit.originalRangeSha256 = unit.textSha256
  once : unit.excludedSegments.Nodup
  inside : ∀ index ∈ unit.excludedSegments, unit.firstSegment ≤ index ∧ index < unit.endSegmentExclusive
  retained : hashes.sha256Text (unit.retained segments) = unit.retainedTextSha256
  title : titleMatches hashes (unit.retained segments) unit = true

theorem restoreUnit_eq (segments : List CandidateScopeSegment) (unit : UnitProof) : restoreUnit hashes segments unit =
    if ¬ (0 ≤ unit.firstSegment ∧ unit.firstSegment < unit.endSegmentExclusive ∧ unit.endSegmentExclusive ≤ segments.length) ∨
        hashes.sha256Text (joinRange segments unit.firstSegment.toNat unit.endSegmentExclusive.toNat) ≠ unit.textSha256 ∨
        unit.originalRangeSha256 ≠ unit.textSha256 then none
    else if ¬ unit.excludedSegments.Nodup ∨
        unit.excludedSegments.any fun index => ¬ (unit.firstSegment ≤ index ∧ index < unit.endSegmentExclusive) then none
    else if hashes.sha256Text (unit.retained segments) ≠ unit.retainedTextSha256 then none
    else if !titleMatches hashes (unit.retained segments) unit then none
    else some { unit.restored with retainedText := unit.retained segments } := rfl

variable {segments : List CandidateScopeSegment}

theorem restoreUnit_eq_some {unit : UnitProof} {result : CandidateClaimUnit} :
    restoreUnit hashes segments unit = some result ↔
      unit.Holds hashes segments ∧ { unit.restored with retainedText := unit.retained segments } = result := by
  have excluded : (¬ unit.excludedSegments.Nodup ∨ (unit.excludedSegments.any fun index =>
      ¬ (unit.firstSegment ≤ index ∧ index < unit.endSegmentExclusive)) = true) ↔
      ¬ (unit.excludedSegments.Nodup ∧ ∀ index ∈ unit.excludedSegments, unit.firstSegment ≤ index ∧ index < unit.endSegmentExclusive) := by
    simp only [List.any_eq_true, decide_eq_true_eq, not_and_or, not_forall, exists_prop]
  rw [restoreUnit_eq]
  constructor
  · intro ran
    split at ran
    · cases ran
    rename_i range
    split at ran
    · cases ran
    rename_i inside
    rw [excluded] at inside
    split at ran
    · cases ran
    rename_i retained
    split at ran
    · cases ran
    rename_i title
    simp only [not_or, not_not] at range inside retained
    refine ⟨⟨range.1, range.2.1, range.2.2, inside.1, inside.2, retained, ?_⟩, Option.some.inj ran⟩
    simpa using title
  · rintro ⟨holds, rfl⟩
    have range : ¬ (¬ (0 ≤ unit.firstSegment ∧ unit.firstSegment < unit.endSegmentExclusive ∧ unit.endSegmentExclusive ≤ segments.length) ∨
        hashes.sha256Text (joinRange segments unit.firstSegment.toNat unit.endSegmentExclusive.toNat) ≠ unit.textSha256 ∨
        unit.originalRangeSha256 ≠ unit.textSha256) := by
      simp only [not_or, not_not]
      exact ⟨holds.range, holds.text, holds.original⟩
    rw [if_neg range, if_neg (excluded.not.mpr (not_not.mpr ⟨holds.once, holds.inside⟩)),
      if_neg (not_not.mpr holds.retained), holds.title]
    rfl

variable {unit : CandidateClaimUnit}

theorem unitProof_restored :
    (unitProof hashes segments unit).restored = { unit with retainedText := "" } := by
  unfold unitProof UnitProof.restored
  simp [Function.comp_def]

theorem unitProof_retained (projects : unit.retainedText = "" ∨ unit.retainedText = unit.projected segments) :
    (unitProof hashes segments unit).retained segments = unit.retainedText := by
  unfold UnitProof.retained
  rw [unitProof_restored]
  by_cases empty : unit.retainedText = ""
  · simp [unitProof, empty]
  · simp only [unitProof, empty, ne_eq, not_false_eq_true, decide_true, if_true]
    rw [projects.resolve_left empty]
    rfl

theorem titleMatches_proof (range : unit.InRange) :
    titleMatches hashes unit.retainedText (unitProof hashes segments unit) = true := by
  unfold titleMatches unitProof
  obtain ⟨starts, finishes⟩ | ⟨start, finish, starts, finishes⟩ := range.titled
  · simp [starts, finishes]
  · obtain ⟨before, within, -⟩ := range.title start starts finish finishes
    simp [starts, finishes, before, within]

theorem unitProof_holds (range : unit.InRange)
    (within : unit.endSegmentExclusive ≤ segments.length)
    (projects : unit.retainedText = "" ∨ unit.retainedText = unit.projected segments) :
    (unitProof hashes segments unit).Holds hashes segments := by
  have nonempty := range.nonempty
  have retained := unitProof_retained hashes projects
  refine ⟨?_, rfl, rfl, ?_, ?_, ?_, ?_⟩
  · simp only [unitProof]
    omega
  · exact range.once.map fun _ _ => Int.ofNat.inj
  · intro index member
    obtain ⟨number, there, rfl⟩ := List.mem_map.mp member
    have inside := range.inside number there
    simp only [unitProof, Int.ofNat_eq_natCast]
    omega
  · rw [retained]
    rfl
  · rw [retained]
    exact titleMatches_proof hashes range

theorem restoreUnit_proof (range : unit.InRange)
    (within : unit.endSegmentExclusive ≤ segments.length)
    (projects : unit.retainedText = "" ∨ unit.retainedText = unit.projected segments) :
    restoreUnit hashes segments (unitProof hashes segments unit) = some unit := by
  refine (restoreUnit_eq_some hashes).mpr ⟨unitProof_holds hashes range within projects, ?_⟩
  rw [unitProof_restored, unitProof_retained hashes projects]

variable {text : String} {proof : PointProof}

/-- What `point_proof` requires of a point and its text. -/
theorem pointProof_eq_some {point : VerifiedPoint} (proved : pointProof hashes point text = some proof) :
    point.scopeSegments ≠ [] ∧ String.join (point.scopeSegments.map (·.text)) = text ∧ proof = {
      proofVersion := "scope-offsets-v3"
      candidateIndex := point.candidateIndex
      semanticSupport := point.semanticSupport
      futureScope := point.futureScope
      sourceUse := point.sourceUse
      literalEdit := point.literalEdit
      reasonSha256 := hashes.sha256Text point.reason
      scopeTextSha256 := hashes.sha256Text text
      scopeSegments := segmentProofs hashes 0 point.scopeSegments
      claimUnits := point.claimUnits.map (unitProof hashes point.scopeSegments) } := by
  unfold pointProof at proved
  split at proved
  · cases proved
  rename_i partitioned
  simp only [not_or, not_not] at partitioned
  exact ⟨partitioned.1, partitioned.2, (Option.some.inj proved).symm⟩

theorem mapM_restoreUnit {segments : List CandidateScopeSegment} {units : List CandidateClaimUnit}
    (restores : ∀ unit ∈ units, restoreUnit hashes segments (unitProof hashes segments unit) = some unit) :
    (units.map (unitProof hashes segments)).mapM (restoreUnit hashes segments) = some units := by
  induction units with
  | nil => rfl
  | cons unit rest ih =>
    rw [List.forall_mem_cons] at restores
    rw [List.map_cons, List.mapM_cons, restores.1, ih restores.2]
    rfl

theorem restorePoint_eq_some {result : VerifiedPoint} :
    restorePoint hashes proof text = some result ↔
      proof.proofVersion = "scope-offsets-v3" ∧ proof.scopeTextSha256 = hashes.sha256Text text ∧
      ∃ segments units checked, restoreSegments hashes text 0 proof.scopeSegments = some segments ∧ segments ≠ [] ∧
        proof.claimUnits.mapM (restoreUnit hashes segments) = some units ∧
        CandidateVerificationPoint.validate {
          semanticSupport := proof.semanticSupport
          futureScope := proof.futureScope
          sourceUse := proof.sourceUse
          scopeSegments := segments
          claimUnits := units
          literalEdit := proof.literalEdit } = .ok checked ∧
        { toCandidateVerificationPoint := checked, candidateIndex := proof.candidateIndex, reason := reusedReason,
          explained := reusedReason_explained } = result := by
  unfold restorePoint
  constructor
  · intro ran
    split at ran
    · cases ran
    rename_i current
    simp only [not_or, not_not] at current
    obtain ⟨segments, cut, ran⟩ := Option.bind_eq_some_iff.mp ran
    split at ran
    · cases ran
    rename_i filled
    obtain ⟨units, made, ran⟩ := Option.bind_eq_some_iff.mp ran
    obtain ⟨checked, valid, ran⟩ := Option.bind_eq_some_iff.mp ran
    refine ⟨current.1, current.2, segments, units, checked, cut, filled, made, ?_, Option.some.inj ran⟩
    exact toOption_eq_some.mp valid
  · rintro ⟨version, current, segments, units, checked, cut, filled, made, valid, rfl⟩
    rw [if_neg (by simp [version, current]), cut]
    dsimp only [Option.bind_eq_bind, Option.bind_some]
    rw [if_neg filled, made]
    dsimp only [Option.bind_eq_bind, Option.bind_some]
    rw [valid]
    rfl

theorem restorePoint_proof {point : VerifiedPoint}
    (checked : point.UnitsChecked) (proved : pointProof hashes point text = some proof) :
    restorePoint hashes proof text = some { point with
      futureScope := point.boundScope
      reason := reusedReason
      explained := reusedReason_explained } := by
  obtain ⟨filled, whole, rfl⟩ := pointProof_eq_some hashes proved
  have segments := restoreSegments_proofs hashes "" point.scopeSegments
  rw [whole, String.empty_append] at segments
  have units := @mapM_restoreUnit hashes point.scopeSegments point.claimUnits fun unit member =>
    have text := checkUnit_text (checked.bound unit member)
    restoreUnit_proof hashes (requireNonemptyRange_eq_ok.mp (checked.ranges unit member)) text.1 text.2
  have validated := validate_eq_ok.mpr ⟨checked, rfl⟩
  exact (restorePoint_eq_some hashes).mpr ⟨rfl, rfl, point.scopeSegments, point.claimUnits, _, segments, filled, units, validated, rfl⟩

/-! ### Changed proofs

`withoutOffsets` and `withoutHashes` say what a changed proof keeps. The digest of the reason is of no part of the text,
and the indexes of a unit count segments, not characters.
-/

def SegmentProof.withoutOffsets (part : SegmentProof) : SegmentProof := { part with charStart := 0, charEnd := 0 }

def UnitProof.withoutOffsets (unit : UnitProof) : UnitProof := { unit with titleStart := none, titleEnd := none }

def PointProof.withoutOffsets (proof : PointProof) : PointProof :=
  { proof with
    scopeSegments := proof.scopeSegments.map (·.withoutOffsets)
    claimUnits := proof.claimUnits.map (·.withoutOffsets) }

def SegmentProof.withoutHashes (part : SegmentProof) : SegmentProof := { part with textSha256 := "" }

def UnitProof.withoutHashes (unit : UnitProof) : UnitProof :=
  { unit with retainedTextSha256 := "", titleSha256 := none, textSha256 := "", originalRangeSha256 := "" }

def PointProof.withoutHashes (proof : PointProof) : PointProof :=
  { proof with
    scopeTextSha256 := ""
    scopeSegments := proof.scopeSegments.map (·.withoutHashes)
    claimUnits := proof.claimUnits.map (·.withoutHashes) }

theorem restoreSegment_eq_some {offset : Nat} {part : SegmentProof} {restored : CandidateScopeSegment}
    (ran : restoreSegment hashes text offset part = some restored) :
    part.charStart = offset ∧ part.charStart < part.charEnd ∧ part.charEnd ≤ text.length ∧
      hashes.sha256Text (CandidateClaimUnit.slice text part.charStart.toNat part.charEnd.toNat) = part.textSha256 := by
  unfold restoreSegment at ran
  split at ran
  · cases ran
  rename_i range
  dsimp only at ran
  split at ran
  · cases ran
  rename_i same
  simp only [not_or, not_not] at range same
  exact ⟨range.1, range.2.1, range.2.2, same⟩

theorem segmentProofs_of_moved {offset : Nat} {moved : List SegmentProof}
    {restored : List CandidateScopeSegment}
    (same : moved.map (·.withoutOffsets) = (segmentProofs hashes offset segments).map (·.withoutOffsets))
    (ran : restoreSegments hashes text offset moved = some restored) : moved = segmentProofs hashes offset segments := by
  induction segments generalizing offset moved restored with
  | nil => simpa [segmentProofs] using same
  | cons part rest ih =>
    rw [segmentProofs, List.map_cons] at same
    obtain ⟨first, others, rfl, here, there⟩ := List.map_eq_cons_iff.mp same
    obtain ⟨segment, cut, ran⟩ := Option.bind_eq_some_iff.mp ran
    obtain ⟨following, tail, -⟩ := Option.bind_eq_some_iff.mp ran
    obtain ⟨starts, before, within, digest⟩ := restoreSegment_eq_some hashes cut
    have hash : first.textSha256 = hashes.sha256Text part.text := congrArg SegmentProof.textSha256 here
    have text := hashes.sha256Text_injective (digest.trans hash)
    have length := congrArg String.length text
    rw [length_slice (by omega)] at length
    have ends : first.charEnd = ↑(offset + part.text.length) := by omega
    have head : first = { first.withoutOffsets with charStart := offset, charEnd := ↑(offset + part.text.length) } := by
      rw [← starts, ← ends]
      rfl
    rw [ends, Int.toNat_natCast] at tail
    rw [segmentProofs, ih there tail, head, here]
    rfl

theorem segmentProofs_of_rehashed {before : String} {segments : List CandidateScopeSegment} {changed : List SegmentProof}
    {restored : List CandidateScopeSegment}
    (same : changed.map (·.withoutHashes) = (segmentProofs hashes before.length segments).map (·.withoutHashes))
    (ran : restoreSegments hashes (before ++ String.join (segments.map (·.text))) before.length changed = some restored) :
    changed = segmentProofs hashes before.length segments := by
  induction segments generalizing before changed restored with
  | nil => simpa [segmentProofs] using same
  | cons part rest ih =>
    rw [segmentProofs, List.map_cons] at same
    obtain ⟨first, others, rfl, here, there⟩ := List.map_eq_cons_iff.mp same
    obtain ⟨segment, cut, ran⟩ := Option.bind_eq_some_iff.mp ran
    obtain ⟨following, tail, -⟩ := Option.bind_eq_some_iff.mp ran
    obtain ⟨-, -, -, digest⟩ := restoreSegment_eq_some hashes cut
    have starts : first.charStart = before.length := congrArg SegmentProof.charStart here
    have ends : first.charEnd = ↑(before.length + part.text.length) := congrArg SegmentProof.charEnd here
    rw [starts, ends, Int.toNat_natCast, Int.toNat_natCast, List.map_cons, join_cons, ← String.append_assoc, slice_append] at digest
    have head : first = { first.withoutHashes with textSha256 := hashes.sha256Text part.text } := by
      rw [digest]
      rfl
    rw [ends, Int.toNat_natCast, List.map_cons, join_cons, ← String.append_assoc, ← String.length_append] at tail
    rw [← String.length_append] at there
    have tails := ih there tail
    rw [String.length_append] at tails
    rw [segmentProofs, tails, head, here]
    rfl

def TitleOnce (unit : CandidateClaimUnit) : Prop :=
  ∀ start ∈ unit.titleStart, ∀ finish ∈ unit.titleEnd, ∀ other last, other < last → last ≤ unit.retainedText.length →
    CandidateClaimUnit.slice unit.retainedText other last = CandidateClaimUnit.slice unit.retainedText start finish →
    other = start ∧ last = finish

theorem titleMatches_some {retained : String} {unit : UnitProof} {title : String}
    (holds : titleMatches hashes retained unit = true) (hash : unit.titleSha256 = some (hashes.sha256Text title)) :
    ∃ start finish : Nat, unit.titleStart = some (start : Int) ∧ unit.titleEnd = some (finish : Int) ∧ start < finish ∧
      finish ≤ retained.length ∧ CandidateClaimUnit.slice retained start finish = title := by
  unfold titleMatches at holds
  cases starts : unit.titleStart with
  | none => cases finishes : unit.titleEnd <;> simp [starts, finishes, hash] at holds
  | some start =>
    cases finishes : unit.titleEnd with
    | none => simp [starts, finishes] at holds
    | some finish =>
      simp only [starts, finishes, hash, Bool.and_eq_true, decide_eq_true_eq, Option.some.injEq] at holds
      obtain ⟨⟨zero, before, within⟩, digest⟩ := holds
      refine ⟨start.toNat, finish.toNat, by rw [Int.toNat_of_nonneg zero], by rw [Int.toNat_of_nonneg (by omega)],
        by omega, by omega, hashes.sha256Text_injective digest⟩

theorem titleMatches_none {retained : String} {unit : UnitProof}
    (holds : titleMatches hashes retained unit = true) (hash : unit.titleSha256 = none) :
    unit.titleStart = none ∧ unit.titleEnd = none := by
  unfold titleMatches at holds
  cases starts : unit.titleStart <;> cases finishes : unit.titleEnd <;> simp [starts, finishes, hash] at holds ⊢

section
variable {segments : List CandidateScopeSegment} {unit : CandidateClaimUnit}

theorem unitProof_of_moved {moved : UnitProof} (range : unit.InRange)
    (projects : unit.retainedText = "" ∨ unit.retainedText = unit.projected segments) (once : TitleOnce unit)
    (same : moved.withoutOffsets = (unitProof hashes segments unit).withoutOffsets) (holds : moved.Holds hashes segments) :
    moved = unitProof hashes segments unit := by
  have retained : moved.retained segments = unit.retainedText :=
    (congrArg (UnitProof.retained segments) same).trans (unitProof_retained hashes projects)
  have hash : moved.titleSha256 = (unitProof hashes segments unit).titleSha256 := (congrArg UnitProof.titleSha256 same :)
  have title := holds.title
  rw [retained] at title
  have whole : moved = { moved.withoutOffsets with titleStart := moved.titleStart, titleEnd := moved.titleEnd } := rfl
  obtain ⟨starts, finishes⟩ | ⟨start, finish, starts, finishes⟩ := range.titled
  · obtain ⟨first, last⟩ := titleMatches_none hashes title (by rw [hash]; simp [unitProof, starts])
    rw [whole, same, first, last]
    simp [unitProof, UnitProof.withoutOffsets, starts, finishes]
  · have digest : moved.titleSha256 = some (hashes.sha256Text (CandidateClaimUnit.slice unit.retainedText start finish)) :=
      hash.trans (by simp only [unitProof, starts, finishes])
    obtain ⟨other, last, startsAt, endsAt, before, within, text⟩ := titleMatches_some hashes title digest
    obtain ⟨rfl, rfl⟩ := once start starts finish finishes other last before within text
    rw [whole, same, startsAt, endsAt]
    simp [unitProof, UnitProof.withoutOffsets, starts, finishes]

theorem unitProof_of_rehashed {changed : UnitProof} (range : unit.InRange)
    (projects : unit.retainedText = "" ∨ unit.retainedText = unit.projected segments)
    (same : changed.withoutHashes = (unitProof hashes segments unit).withoutHashes) (holds : changed.Holds hashes segments) :
    changed = unitProof hashes segments unit := by
  have retained : changed.retained segments = unit.retainedText :=
    (congrArg (UnitProof.retained segments) same).trans (unitProof_retained hashes projects)
  have first : changed.firstSegment = unit.firstSegment := congrArg UnitProof.firstSegment same
  have last : changed.endSegmentExclusive = unit.endSegmentExclusive := congrArg UnitProof.endSegmentExclusive same
  have start : changed.titleStart = unit.titleStart.map Int.ofNat := congrArg UnitProof.titleStart same
  have finish : changed.titleEnd = unit.titleEnd.map Int.ofNat := congrArg UnitProof.titleEnd same
  have text := holds.text
  have digest := holds.retained
  have title := holds.title
  rw [first, last, Int.toNat_natCast, Int.toNat_natCast] at text
  rw [retained] at digest title
  have titled : changed.titleSha256 = (unitProof hashes segments unit).titleSha256 := by
    unfold titleMatches at title
    obtain ⟨starts, finishes⟩ | ⟨position, final, starts, finishes⟩ := range.titled
    · simp only [start, finish, starts, finishes, Option.map_none, decide_eq_true_eq] at title
      simp [title, unitProof, starts]
    · simp only [start, finish, starts, finishes, Option.map_some, Bool.and_eq_true, decide_eq_true_eq] at title
      simp [← title.2, unitProof, starts, finishes]
  have whole : changed = { changed.withoutHashes with
      retainedTextSha256 := changed.retainedTextSha256, titleSha256 := changed.titleSha256, textSha256 := changed.textSha256,
      originalRangeSha256 := changed.originalRangeSha256 } := rfl
  rw [whole, same, holds.original, ← text, ← digest, titled]
  rfl

end

/-! ### The round trip -/

/-- What a checkpoint promises of a point and its text. -/
structure RoundTrips (point : VerifiedPoint) (text : String) (proof : PointProof) : Prop where
  resumed : ∃ restored, restorePoint hashes proof text = some restored ∧
    { restored with reason := point.reason, explained := point.explained } = point ∧
    (∀ statement, verificationScopeStatus restored.toCandidateVerificationPoint statement =
      verificationScopeStatus point.toCandidateVerificationPoint statement) ∧
    ∀ candidate : DreamAssimilationCandidate,
      verifiedDurableScopeItems { candidate with scopeVerification := some restored.toCandidateVerificationPoint } =
        verifiedDurableScopeItems { candidate with scopeVerification := some point.toCandidateVerificationPoint }
  otherText : ∀ other, other ≠ text → restorePoint hashes proof other = none
  otherOffsets : ∀ moved, moved.withoutOffsets = proof.withoutOffsets → moved ≠ proof → restorePoint hashes moved text = none
  otherHashes : ∀ changed, changed.withoutHashes = proof.withoutHashes → changed ≠ proof → restorePoint hashes changed text = none

def KeepsScope (point : CandidateVerificationPoint) : Prop := point.boundScope = point.futureScope

theorem map_unitProof_eq {units : List CandidateClaimUnit} {proofs : List UnitProof}
    {view : UnitProof → UnitProof} (same : proofs.map view = (units.map (unitProof hashes segments)).map view)
    (settled : ∀ proof ∈ proofs, ∀ unit ∈ units, view proof = view (unitProof hashes segments unit) →
      proof = unitProof hashes segments unit) : proofs = units.map (unitProof hashes segments) := by
  induction units generalizing proofs with
  | nil => simpa using same
  | cons unit rest ih =>
    rw [List.map_cons, List.map_cons] at same
    obtain ⟨first, others, rfl, here, there⟩ := List.map_eq_cons_iff.mp same
    rw [List.map_cons, settled first List.mem_cons_self unit List.mem_cons_self here]
    rw [ih there fun proof member unit within => settled proof (.tail _ member) unit (.tail _ within)]

section
variable {point : VerifiedPoint} {text : String} {proof changed : PointProof} {restored : VerifiedPoint}

theorem holds_of_restored (whole : String.join (point.scopeSegments.map (·.text)) = text)
    (parts : changed.scopeSegments = segmentProofs hashes 0 point.scopeSegments)
    (ran : restorePoint hashes changed text = some restored) :
    ∀ unit ∈ changed.claimUnits, unit.Holds hashes point.scopeSegments := by
  obtain ⟨-, -, segments, units, -, cut, -, made, -⟩ := (restorePoint_eq_some hashes).mp ran
  have own := restoreSegments_proofs hashes "" point.scopeSegments
  rw [whole, String.empty_append] at own
  rw [parts] at cut
  have same : point.scopeSegments = segments := Option.some.inj (own.symm.trans cut)
  intro unit member
  obtain ⟨result, reads⟩ := exists_of_mapM_some made member
  rw [← same] at reads
  exact ((restoreUnit_eq_some hashes).mp reads).1

theorem unitsChecked_text (checked : point.UnitsChecked) {unit : CandidateClaimUnit} (member : unit ∈ point.claimUnits) :
    unit.InRange ∧ unit.endSegmentExclusive ≤ point.scopeSegments.length ∧
      (unit.retainedText = "" ∨ unit.retainedText = unit.projected point.scopeSegments) :=
  ⟨requireNonemptyRange_eq_ok.mp (checked.ranges unit member), checkUnit_text (checked.bound unit member)⟩

theorem restorePoint_moved (checked : point.UnitsChecked) (once : ∀ unit ∈ point.claimUnits, TitleOnce unit)
    (proved : pointProof hashes point text = some proof) (same : changed.withoutOffsets = proof.withoutOffsets)
    (ran : restorePoint hashes changed text = some restored) : changed = proof := by
  obtain ⟨-, whole, rfl⟩ := pointProof_eq_some hashes proved
  obtain ⟨-, -, segments, units, -, cut, -⟩ := (restorePoint_eq_some hashes).mp ran
  have parts := segmentProofs_of_moved hashes (congrArg PointProof.scopeSegments same) cut
  have holds := holds_of_restored hashes whole parts ran
  have own := map_unitProof_eq hashes (congrArg PointProof.claimUnits same) fun proof there unit member alike =>
    have text := unitsChecked_text checked member
    unitProof_of_moved hashes text.1 text.2.2 (once unit member) alike (holds proof there)
  have full : changed = { changed.withoutOffsets with scopeSegments := changed.scopeSegments, claimUnits := changed.claimUnits } := rfl
  rw [full, same, parts, own]
  rfl

theorem restorePoint_rehashed (checked : point.UnitsChecked) (proved : pointProof hashes point text = some proof)
    (same : changed.withoutHashes = proof.withoutHashes) (ran : restorePoint hashes changed text = some restored) :
    changed = proof := by
  obtain ⟨-, whole, rfl⟩ := pointProof_eq_some hashes proved
  obtain ⟨-, current, segments, units, -, cut, -⟩ := (restorePoint_eq_some hashes).mp ran
  rw [← whole, ← String.empty_append (s := String.join _)] at cut
  have parts := @segmentProofs_of_rehashed hashes "" _ _ _ (congrArg PointProof.scopeSegments same) cut
  have holds := holds_of_restored hashes whole parts ran
  have own := map_unitProof_eq hashes (congrArg PointProof.claimUnits same) fun proof there unit member alike =>
    have text := unitsChecked_text checked member
    unitProof_of_rehashed hashes text.1 text.2.2 alike (holds proof there)
  have full : changed = { changed.withoutHashes with
      scopeTextSha256 := changed.scopeTextSha256, scopeSegments := changed.scopeSegments, claimUnits := changed.claimUnits } := rfl
  rw [full, same, current, parts, own]
  rfl

def retitled (unit : CandidateClaimUnit) (start finish : Nat) : CandidateClaimUnit :=
  { unit with titleStart := some start, titleEnd := some finish }

def VerifiedPoint.retitle (point : VerifiedPoint) (unit : CandidateClaimUnit) (start finish : Nat) : VerifiedPoint :=
  { point with claimUnits := point.claimUnits.map fun each => if each = unit then retitled unit start finish else each }

section
variable {unit : CandidateClaimUnit} {start finish other last : Nat}

theorem unitProof_retitled {segments : List CandidateScopeSegment} (starts : unit.titleStart = some start)
    (finishes : unit.titleEnd = some finish)
    (text : CandidateClaimUnit.slice unit.retainedText other last = CandidateClaimUnit.slice unit.retainedText start finish) :
    unitProof hashes segments (retitled unit other last) =
      { unitProof hashes segments unit with titleStart := some (other : Int), titleEnd := some (last : Int) } := by
  unfold unitProof retitled
  simp [starts, finishes, text]

theorem retitle_checked (checked : point.UnitsChecked) (member : unit ∈ point.claimUnits) (starts : unit.titleStart = some start)
    (finishes : unit.titleEnd = some finish) (before : other < last) (within : last ≤ unit.retainedText.length)
    (text : CandidateClaimUnit.slice unit.retainedText other last = CandidateClaimUnit.slice unit.retainedText start finish) :
    (point.retitle unit other last).UnitsChecked := by
  have range := requireNonemptyRange_eq_ok.mp (checked.ranges unit member)
  obtain ⟨-, -, filled, bare⟩ := range.title start starts finish finishes
  constructor
  · intro each there
    obtain ⟨old, inside, rfl⟩ := List.mem_map.mp there
    split
    · refine requireNonemptyRange_eq_ok.mpr ⟨range.nonempty, range.once, range.inside, rfl, ?_⟩
      rintro _ ⟨⟩ _ ⟨⟩
      rw [← text] at filled bare
      exact ⟨before, within, filled, bare⟩
    · exact checked.ranges old inside
  · intro each there
    obtain ⟨old, inside, rfl⟩ := List.mem_map.mp there
    split
    · have titled : unit.titleStart.isSome = (retitled unit other last).titleStart.isSome := by rw [starts]; rfl
      exact (checkUnit_retitled rfl titled).trans (checked.bound unit member)
    · exact checked.bound old inside

end

theorem titles_once (checked : point.UnitsChecked) (proved : pointProof hashes point text = some proof)
    (fails : ∀ moved, moved.withoutOffsets = proof.withoutOffsets → moved ≠ proof → restorePoint hashes moved text = none) :
    ∀ unit ∈ point.claimUnits, TitleOnce unit := by
  intro unit member start starts finish finishes other last before within same
  by_contra differs
  obtain ⟨filled, whole, rfl⟩ := pointProof_eq_some hashes proved
  have again : pointProof hashes (point.retitle unit other last) text = some _ := if_neg (not_or.mpr ⟨filled, not_not.mpr whole⟩)
  have restored := restorePoint_proof hashes (retitle_checked checked member starts finishes before within same) again
  have proofs := @unitProof_retitled hashes unit start finish other last point.scopeSegments starts finishes same
  rw [fails _ ?_ ?_] at restored
  · cases restored
  · have units : ((point.retitle unit other last).claimUnits.map (unitProof hashes point.scopeSegments)).map (·.withoutOffsets) =
        (point.claimUnits.map (unitProof hashes point.scopeSegments)).map (·.withoutOffsets) := by
      simp only [VerifiedPoint.retitle, List.map_map]
      refine List.map_congr_left fun each _ => ?_
      by_cases here : each = unit
      · simp only [Function.comp, here, if_true, proofs]
        rfl
      · simp only [Function.comp, if_neg here]
    unfold PointProof.withoutOffsets
    dsimp only
    rw [← units]
    rfl
  · intro unmoved
    have units : (point.retitle unit other last).claimUnits.map (unitProof hashes point.scopeSegments) =
        point.claimUnits.map (unitProof hashes point.scopeSegments) := congrArg PointProof.claimUnits unmoved
    simp only [VerifiedPoint.retitle, List.map_map] at units
    have here := List.map_inj_left.mp units unit member
    simp only [Function.comp, if_true, proofs] at here
    have first := congrArg UnitProof.titleStart here
    have final := congrArg UnitProof.titleEnd here
    simp only [unitProof, Option.mem_def.mp starts, Option.mem_def.mp finishes, Option.map_some, Option.some.injEq,
      Int.ofNat_eq_natCast] at first final
    exact differs ⟨Int.ofNat.inj first, Int.ofNat.inj final⟩

/-- The points that are put into a checkpoint: those the schema accepts, and those whose scope follows their partition. -/
inductive Recheckable (point : VerifiedPoint) : Prop where
  | accepted (raw : CandidateVerificationPoint) : raw.validate = .ok point.toCandidateVerificationPoint → Recheckable point
  | overridden (raw : CandidateVerificationPoint) (own : VerifiedPoint) (statement : String) :
      raw.validate = .ok own.toCandidateVerificationPoint → point = own.checked statement → Recheckable point

theorem checked_eq (own : VerifiedPoint) (statement : String) : ∃ scope, own.checked statement = { own with futureScope := scope } := by
  unfold VerifiedPoint.checked
  dsimp only
  split
  · exact ⟨_, rfl⟩
  split
  · exact ⟨_, rfl⟩
  · exact ⟨_, rfl⟩

theorem Recheckable.unitsChecked {point : VerifiedPoint} (reached : Recheckable point) : point.UnitsChecked := by
  cases reached with
  | accepted raw valid =>
    obtain ⟨units, same⟩ := validate_eq_ok.mp valid
    rw [← same]
    exact ⟨units.ranges, units.bound⟩
  | overridden raw own statement valid same =>
    obtain ⟨units, kept⟩ := validate_eq_ok.mp valid
    obtain ⟨scope, overridden⟩ := checked_eq own statement
    rw [same, overridden]
    dsimp only
    rw [← kept]
    exact ⟨units.ranges, units.bound⟩

/-- A checkpoint is resumed exactly where the scope of the point is the one its source use leaves it and no title
stands twice in its text: the schema binds the scope anew when a point is rebuilt. -/
theorem round_trips_iff {point : VerifiedPoint} {text : String} {proof : PointProof} (reached : Recheckable point)
    (proved : pointProof hashes point text = some proof) :
    RoundTrips hashes point text proof ↔
      KeepsScope point.toCandidateVerificationPoint ∧ ∀ unit ∈ point.claimUnits, TitleOnce unit := by
  have checked := reached.unitsChecked
  have restored := restorePoint_proof hashes checked proved
  constructor
  · intro trips
    obtain ⟨found, back, same, -⟩ := trips.resumed
    rw [restored] at back
    obtain rfl := Option.some.inj back
    refine ⟨congrArg (fun each : VerifiedPoint => each.futureScope) same, titles_once hashes checked proved trips.otherOffsets⟩
  · rintro ⟨kept, once⟩
    have same : ({ point with futureScope := point.boundScope } : CandidateVerificationPoint) = point.toCandidateVerificationPoint := by
      rw [show point.boundScope = point.futureScope from kept]
    refine ⟨⟨_, restored, ?_, ?_, ?_⟩, ?_, ?_, ?_⟩
    · dsimp only
      rw [show point.boundScope = point.futureScope from kept]
    · intro statement
      dsimp only
      rw [same]
    · intro candidate
      dsimp only
      rw [same]
    · intro other differs
      obtain ⟨-, -, rfl⟩ := pointProof_eq_some hashes proved
      by_contra found
      obtain ⟨result, found⟩ := Option.ne_none_iff_exists'.mp found
      obtain ⟨-, current, -⟩ := (restorePoint_eq_some hashes).mp found
      exact differs (hashes.sha256Text_injective current).symm
    · intro moved alike differs
      by_contra found
      obtain ⟨result, found⟩ := Option.ne_none_iff_exists'.mp found
      exact differs (restorePoint_moved hashes checked once proved alike found)
    · intro changed alike differs
      by_contra found
      obtain ⟨result, found⟩ := Option.ne_none_iff_exists'.mp found
      exact differs (restorePoint_rehashed hashes checked proved alike found)

end

end

/-! ### A claim beside the task it was made in -/

def lasting : CandidateScopeSegment :=
  { text := "Keep logs.", sourceUse := .reusableKnowledge, futureScope := .durable, contentRole := .claim, sourceSupport := .supported,
    filled := by decide +kernel }

def passing : CandidateScopeSegment :=
  { text := " Today.", sourceUse := .taskContext, futureScope := .sessionOnly, contentRole := .temporaryContext,
    sourceSupport := .supported, filled := by decide +kernel }

def mixedText : String := "Keep logs. Today."

def mixedPoint : VerifiedPoint :=
  { semanticSupport := .supported, futureScope := .sessionOnly, sourceUse := .taskContext, scopeSegments := [lasting, passing],
    candidateIndex := 0, reason := "The source says so.", explained := by decide +kernel }

theorem mixedPoint_accepted : mixedPoint.toCandidateVerificationPoint.validate = .ok mixedPoint.toCandidateVerificationPoint := by
  decide

theorem mixedPoint_partitioned :
    ¬ (mixedPoint.scopeSegments = [] ∨ String.join (mixedPoint.scopeSegments.map (·.text)) ≠ mixedText) := by decide

theorem mixedPoint_proved (hashes : Hashes) : ∃ proof, pointProof hashes (mixedPoint.checked mixedText) mixedText = some proof := by
  obtain ⟨scope, same⟩ := checked_eq mixedPoint mixedText
  rw [same]
  exact ⟨_, if_neg mixedPoint_partitioned⟩

/-- A point about a task whose partition is mixed is resumed as one that no session needs any more. -/
theorem mixed_point_not_resumed : Recheckable (mixedPoint.checked mixedText) ∧
    ∃ proof, pointProof .spelled (mixedPoint.checked mixedText) mixedText = some proof ∧
      ¬ RoundTrips .spelled (mixedPoint.checked mixedText) mixedText proof := by
  have reached : Recheckable (mixedPoint.checked mixedText) := .overridden _ mixedPoint mixedText mixedPoint_accepted rfl
  obtain ⟨proof, proved⟩ := mixedPoint_proved .spelled
  refine ⟨reached, proof, proved, fun trips => ?_⟩
  obtain ⟨restored, back, same, -⟩ := trips.resumed
  rw [restorePoint_proof _ reached.unitsChecked proved] at back
  obtain rfl := Option.some.inj back
  have kept : (mixedPoint.checked mixedText).boundScope = (mixedPoint.checked mixedText).futureScope :=
    congrArg (fun each : VerifiedPoint => each.futureScope) same
  revert kept
  decide +kernel

/-- The same point is resumed where its partition has not been held against it. -/
theorem mixed_point_resumed_as_reported : ∃ proof, pointProof .spelled mixedPoint mixedText = some proof ∧
    (RoundTrips .spelled mixedPoint mixedText proof ↔
      KeepsScope mixedPoint.toCandidateVerificationPoint ∧ ∀ unit ∈ mixedPoint.claimUnits, TitleOnce unit) := by
  obtain ⟨proof, proved⟩ : ∃ proof, pointProof .spelled mixedPoint mixedText = some proof :=
    ⟨_, if_neg mixedPoint_partitioned⟩
  exact ⟨proof, proved, round_trips_iff .spelled (.accepted _ mixedPoint_accepted) proved⟩

end HarnessMem.Dream
