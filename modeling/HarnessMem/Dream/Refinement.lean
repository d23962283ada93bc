import HarnessMem.Dream.Literal
import HarnessMem.Library.Results

/-! What a literal refinement keeps and what it drops. -/

set_option autoImplicit false

namespace HarnessMem.Dream

open Library
open Assimilation (CanonicalKnowledgeItem)

variable {point : CandidateVerificationPoint} {bodyStart : Nat} {allowLiteralEdit : Bool}

/-! ### The units that are kept -/

/-- The text of a kept unit is that of its segments, and those that are filled are supported claims or qualifiers. -/
structure RetainedUnit.Proved (point : CandidateVerificationPoint) (bodyStart : Nat) (row : RetainedUnit) : Prop where
  selected : row.unit ∈ point.claimUnits ∧ row.unit.selectedForRetention = true ∧ row.unit.sourceSupport = .supported
  bounds : row.unit.firstSegment < row.unit.endSegmentExclusive ∧ row.unit.endSegmentExclusive ≤ point.scopeSegments.length
  body : bodyStart ≤ point.startOf row.unit.firstSegment
  indexes : row.indexes = row.unit.indexes
  text : row.text = row.unit.projected point.scopeSegments
  claim : ∃ index ∈ row.indexes, ∃ segment, point.scopeSegments[index]? = some segment ∧ hasVisible segment.text = true ∧
    segment.contentRole = .claim
  supported : ∀ index ∈ row.indexes, ∀ segment, point.scopeSegments[index]? = some segment → hasVisible segment.text = true →
    segment.isSupportedClaim = true

theorem mem_substantive {unit : CandidateClaimUnit} {segment : CandidateScopeSegment} : segment ∈ point.substantive unit ↔
    ∃ index ∈ unit.indexes, point.scopeSegments[index]? = some segment ∧ hasVisible segment.text = true := by
  unfold CandidateVerificationPoint.substantive
  rw [List.mem_filter, List.mem_filterMap]
  constructor
  · rintro ⟨⟨index, inside, found⟩, visible⟩
    exact ⟨index, inside, found, visible⟩
  · rintro ⟨index, inside, found, visible⟩
    exact ⟨⟨index, inside, found⟩, visible⟩

theorem readUnit_spec {occupied : List Nat} {unit : CandidateClaimUnit} {row : RetainedUnit} (member : unit ∈ point.claimUnits)
    (read : point.readUnit bodyStart allowLiteralEdit occupied unit = some (some row)) :
    row.Proved point bodyStart ∧ ∀ index ∈ row.indexes, index ∉ occupied := by
  unfold CandidateVerificationPoint.readUnit at read
  split at read
  · cases read
  split at read
  · cases read
  split at read
  · cases read
  rename_i readable chosen durable
  dsimp only at read
  split at read
  · cases read
  obtain rfl := Option.some.inj (Option.some.inj read)
  simp only [Bool.not_eq_true', Bool.not_eq_false, CandidateVerificationPoint.isReadable, CandidateVerificationPoint.isDurable,
    Bool.and_eq_true, decide_eq_true_eq, List.all_eq_true, List.any_eq_true] at readable chosen durable
  obtain ⟨⟨⟨bounds, -⟩, -⟩, -⟩ := readable
  obtain ⟨⟨⟨⟨support, body⟩, ⟨claimed, inside, role⟩⟩, supported⟩, free⟩ := durable
  obtain ⟨index, own, found, visible⟩ := mem_substantive.mp inside
  exact ⟨⟨⟨member, chosen, support.1⟩, bounds, body, rfl, rfl, ⟨index, own, claimed, found, visible, role⟩,
    fun index own segment found visible => supported segment (mem_substantive.mpr ⟨index, own, found, visible⟩)⟩, free⟩

theorem readUnits_spec {units : List CandidateClaimUnit} {occupied : List Nat} {rows : List RetainedUnit}
    (inside : ∀ unit ∈ units, unit ∈ point.claimUnits) (read : point.readUnits bodyStart allowLiteralEdit occupied units = some rows) :
    (∀ row ∈ rows, row.Proved point bodyStart ∧ ∀ index ∈ row.indexes, index ∉ occupied) ∧
      rows.Pairwise fun first second => first.indexes.Disjoint second.indexes := by
  induction units generalizing occupied rows with
  | nil =>
    cases read
    exact ⟨List.forall_mem_nil _, .nil⟩
  | cons unit rest ih =>
    have later := fun other member => inside other (List.mem_cons_of_mem unit member)
    unfold CandidateVerificationPoint.readUnits at read
    cases one : point.readUnit bodyStart allowLiteralEdit occupied unit with
    | none =>
      rw [one] at read
      cases read
    | some result =>
      rw [one] at read
      cases result with
      | none => exact ih later read
      | some row =>
        obtain ⟨others, more, rfl⟩ := Option.map_eq_some_iff.mp read
        obtain ⟨proved, apart⟩ := ih later more
        refine ⟨List.forall_mem_cons.mpr ⟨readUnit_spec (inside unit List.mem_cons_self) one, fun other member => ?_⟩,
          List.pairwise_cons.mpr ⟨fun other member index own taken => ?_, apart⟩⟩
        · exact ⟨(proved other member).1, fun index own taken => (proved other member).2 index own (List.mem_append_left _ taken)⟩
        · exact (proved other member).2 index taken (List.mem_append_right _ own)

theorem standaloneDurableUnits_spec :
    (∀ row ∈ point.standaloneDurableUnits bodyStart allowLiteralEdit, row.Proved point bodyStart) ∧
      (point.standaloneDurableUnits bodyStart allowLiteralEdit).Pairwise fun first second => first.indexes.Disjoint second.indexes := by
  unfold CandidateVerificationPoint.standaloneDurableUnits
  cases read : point.readUnits bodyStart allowLiteralEdit [] point.claimUnits with
  | none => exact ⟨List.forall_mem_nil _, .nil⟩
  | some rows =>
    obtain ⟨proved, apart⟩ := readUnits_spec (fun _ member => member) read
    have sorted := List.perm_insertionSort (fun first second : RetainedUnit =>
      first.indexes.min?.getD 0 ≤ second.indexes.min?.getD 0) rows
    refine ⟨fun row member => (proved row (sorted.mem_iff.mp member)).1, ?_⟩
    exact (sorted.pairwise_iff fun disjoint => by
    intro index taken own
    exact disjoint own taken).mpr apart

/-! ### The segments that are dropped -/

def Dropped (point : CandidateVerificationPoint) (bodyStart : Nat) (units : List RetainedUnit) (index : Nat)
    (segment : CandidateScopeSegment) : Prop :=
  point.scopeSegments[index]? = some segment ∧ bodyStart ≤ point.startOf index ∧ hasVisible segment.text = true ∧
    ∀ row ∈ units, index ∉ row.indexes

/-- What the loop over the segments has found, from a place on: whatever it has passed in the body is kept, blank or
disposable, and it has dropped something where it says so. -/
structure Passed (point : CandidateVerificationPoint) (units : List RetainedUnit) (bodyStart start offset : Nat)
    (segments : List CandidateScopeSegment) (scan : CandidateVerificationPoint.Scan) : Prop where
  disposable : ∀ place segment, segments[place]? = some segment →
    bodyStart ≤ offset + ((segments.take place).map (·.text.length)).sum → hasVisible segment.text = true →
    (∀ row ∈ units, start + place ∉ row.indexes) → point.isDisposable units (start + place) segment = true
  removed : scan.removed = true → ∃ place segment, segments[place]? = some segment ∧
    bodyStart ≤ offset + ((segments.take place).map (·.text.length)).sum ∧ hasVisible segment.text = true ∧
    ∀ row ∈ units, start + place ∉ row.indexes
  heading : ∀ place segment, segments[place]? = some segment →
    offset + ((segments.take place).map (·.text.length)).sum < bodyStart → hasVisible segment.text = true → segment ∈ scan.heading

theorem sum_take_succ (segment : CandidateScopeSegment) (rest : List CandidateScopeSegment) (offset place : Nat) :
    offset + (((segment :: rest).take (place + 1)).map (·.text.length)).sum =
      offset + segment.text.length + ((rest.take place).map (·.text.length)).sum := by
  rw [List.take_succ_cons, List.map_cons, List.sum_cons, Nat.add_assoc]

/-- One segment more in front. -/
theorem Passed.cons {units : List RetainedUnit} {start offset : Nat} {segment : CandidateScopeSegment}
    {rest : List CandidateScopeSegment} {scan whole : CandidateVerificationPoint.Scan}
    (later : Passed point units bodyStart (start + 1) (offset + segment.text.length) rest scan)
    (first : bodyStart ≤ offset → hasVisible segment.text = true → (∀ row ∈ units, start ∉ row.indexes) →
      point.isDisposable units start segment = true)
    (removed : whole.removed = true →
      scan.removed = true ∨ (bodyStart ≤ offset ∧ hasVisible segment.text = true ∧ ∀ row ∈ units, start ∉ row.indexes))
    (keeps : ∀ part ∈ scan.heading, part ∈ whole.heading)
    (own : offset < bodyStart → hasVisible segment.text = true → segment ∈ whole.heading) :
    Passed point units bodyStart start offset (segment :: rest) whole := by
  have shift : ∀ place, start + 1 + place = start + (place + 1) := fun place => by omega
  refine ⟨fun place part found body visible unused => ?_, fun dropped => ?_, fun place part found before visible => ?_⟩
  · cases place with
    | zero =>
      cases found
      exact first body visible unused
    | succ place =>
      rw [sum_take_succ] at body
      rw [← shift] at unused ⊢
      exact later.disposable place part found body visible unused
  · rcases removed dropped with behind | ⟨body, visible, unused⟩
    · obtain ⟨place, part, found, body, visible, unused⟩ := later.removed behind
      exact ⟨place + 1, part, found, by rw [sum_take_succ]; exact body, visible, by rw [← shift]; exact unused⟩
    · exact ⟨0, segment, rfl, body, visible, unused⟩
  · cases place with
    | zero =>
      cases found
      exact own before visible
    | succ place =>
      rw [sum_take_succ] at before
      exact keeps part (later.heading place part found before visible)

variable {units : List RetainedUnit} {scan : CandidateVerificationPoint.Scan}

theorem scanSegments_spec {start offset : Nat} {segments : List CandidateScopeSegment} (ran : point.scanSegments units bodyStart start offset segments = some scan) :
    Passed point units bodyStart start offset segments scan := by
  induction segments generalizing start offset scan with
  | nil =>
    cases ran
    exact ⟨nofun, nofun, nofun⟩
  | cons segment rest ih =>
    unfold CandidateVerificationPoint.scanSegments at ran
    dsimp only at ran
    split at ran
    · next before =>
      split at ran
      · cases ran
      split at ran
      · obtain ⟨behind, more, rfl⟩ := Option.map_eq_some_iff.mp ran
        exact (ih more).cons (fun body => absurd before (not_lt.mpr body)) .inl
          (fun _ member => List.mem_cons_of_mem _ member) fun _ _ => List.mem_cons_self
      · next blank =>
        exact (ih ran).cons (fun body => absurd before (not_lt.mpr body)) .inl (fun _ member => member)
          fun _ visible => absurd visible blank
    · next body =>
      split at ran
      · next passed =>
        refine (ih ran).cons (fun _ visible unused => ?_) .inl (fun _ member => member) fun before => absurd before body
        rcases passed with kept | blank
        · obtain ⟨row, member, own⟩ := List.any_eq_true.mp kept
          exact absurd (of_decide_eq_true own) (unused row member)
        · rw [visible] at blank
          cases blank
      · next passed =>
        push Not at passed
        have visible : hasVisible segment.text = true := by simpa using passed.2
        have unused : ∀ row ∈ units, start ∉ row.indexes :=
          fun row member own => passed.1 (List.any_eq_true.mpr ⟨row, member, decide_eq_true own⟩)
        split at ran
        · cases ran
        · next disposable =>
          obtain ⟨behind, more, rfl⟩ := Option.map_eq_some_iff.mp ran
          exact (ih more).cons (fun _ _ _ => by simpa using disposable) (fun _ => .inr ⟨not_lt.mp body, visible, unused⟩)
            (fun _ member => member) fun before => absurd before body

/-! ### The items -/

/-- The statement of an item is the text of a unit. That of a report is its rendering around the text. -/
def States (entry : KnowledgeEntry) (item : CanonicalKnowledgeItem) (row : RetainedUnit) : Prop :=
  item.topicPath = modulePath entry ∧
    item.statement = match entry.sourceReport with
      | none => row.text
      | some report => renderedAccount report row.text

def Retitled (item : CanonicalKnowledgeItem) (row : RetainedUnit) : Prop :=
  ∃ start finish, start < finish ∧ finish ≤ row.text.length ∧ item.title = stripped (CandidateClaimUnit.slice row.text start finish)

theorem factItem_spec {entry : KnowledgeEntry} {keepTitle : Bool} {row : RetainedUnit} {item : CanonicalKnowledgeItem}
    (unreported : entry.sourceReport = none) (made : factItem entry point keepTitle row = some item) :
    States entry item row ∧ (keepTitle = false → Retitled item row) := by
  unfold factItem at made
  split at made
  · cases made
  obtain ⟨title, titled, rfl⟩ := Option.map_eq_some_iff.mp made
  refine ⟨⟨rfl, by rw [unreported]⟩, ?_⟩
  rintro rfl
  unfold itemTitle at titled
  rw [if_neg Bool.false_ne_true] at titled
  split at titled
  · split at titled
    · next start finish _ _ bounds =>
      dsimp only at titled
      split at titled
      · cases titled
      · cases titled
        exact ⟨start, finish, bounds.1, bounds.2.1, rfl⟩
    · cases titled
  · cases titled

variable {items : List CanonicalKnowledgeItem}

theorem refinedItems_spec {entry : KnowledgeEntry} {removed : Bool}
    (account : entry.sourceReport.isSome = true → point.standaloneDurableUnits 0 true = units)
    (made : refinedItems entry point units scan = .ok (some (items, removed))) :
    List.Forall₂ (States entry) items units ∧ (removed = true → scan.removed = true ∨
      (entry.sourceReport = none ∧ replacesTitle point scan = true ∧ List.Forall₂ Retitled items units)) := by
  unfold refinedItems at made
  cases reported : entry.sourceReport with
  | some report =>
    rw [reported] at made account
    dsimp only at made
    split at made
    · cases made
    obtain ⟨text, retained, made⟩ := bind_eq_ok.mp made
    cases made
    unfold CandidateVerificationPoint.retainedReportText at retained
    rw [account rfl] at retained
    split at retained
    · cases retained
      exact ⟨.cons ⟨rfl, by rw [reported]⟩ .nil, .inl⟩
    · cases retained
  | none =>
    rw [reported] at made
    dsimp only at made
    split at made
    · cases made
    rename_i titled
    cases each : units.mapM (factItem entry point (keepsTitle scan)) with
    | none =>
      rw [each] at made
      cases made
    | some results =>
      rw [each] at made
      cases made
      have rounds := (forall₂_of_mapM_some each).flip
      refine ⟨rounds.imp fun _ _ made => (factItem_spec reported made).1, fun dropped => ?_⟩
      rcases Bool.or_eq_true_iff.mp dropped with segment | title
      · exact .inl segment
      · have other : keepsTitle scan = false := by simpa using title
        refine .inr ⟨rfl, ?_, rounds.imp fun _ _ made => (factItem_spec reported made).2 other⟩
        rw [other] at titled
        simpa using titled

/-! ### The refinement -/

/-- A segment that may be dropped: supported temporary context, or text of a claim that a partial verdict does not
support and no other unit that is not refuted covers. -/
def MayGo (point : CandidateVerificationPoint) (index : Nat) (segment : CandidateScopeSegment) : Prop :=
  segment.isTemporary = true ∨ (segment.isUnsupported point.semanticSupport = true ∧ point.isCovered index = false)

def TitleDropped (entry : KnowledgeEntry) (point : CandidateVerificationPoint) (units : List RetainedUnit)
    (items : List CanonicalKnowledgeItem) : Prop :=
  entry.sourceReport = none ∧ List.Forall₂ Retitled items units ∧
    ∀ index segment, point.scopeSegments[index]? = some segment → point.startOf index < bodyStartOf entry →
      hasVisible segment.text = true → segment.isUnsupported point.semanticSupport = true

structure Exact (entry : KnowledgeEntry) (point : CandidateVerificationPoint) (units : List RetainedUnit)
    (items : List CanonicalKnowledgeItem) : Prop where
  whole : dreamScopeText entry = .ok (String.join (point.scopeSegments.map (·.text)))
  proved : ∀ row ∈ units, row.Proved point (bodyStartOf entry)
  stated : List.Forall₂ (States entry) items units
  apart : units.Pairwise fun first second => first.indexes.Disjoint second.indexes
  dropped : ∀ index segment, Dropped point (bodyStartOf entry) units index segment → MayGo point index segment
  something : (∃ index segment, Dropped point (bodyStartOf entry) units index segment) ∨ TitleDropped entry point units items

theorem mayGo_of_disposable {index : Nat} {segment : CandidateScopeSegment}
    (disposable : point.isDisposable units index segment = true) : MayGo point index segment := by
  obtain ⟨uncovered, reason⟩ := Bool.and_eq_true_iff.mp disposable
  rcases Bool.or_eq_true_iff.mp reason with temporary | unsupported
  · exact .inl temporary
  · exact .inr ⟨(Bool.and_eq_true_iff.mp unsupported).1, by simpa using uncovered⟩

theorem verified_items_keep_proved_text {candidate : DreamAssimilationCandidate} {point : CandidateVerificationPoint}
    {items : List CanonicalKnowledgeItem} (verification : candidate.scopeVerification = some point)
    (returned : verifiedDurableScopeItems candidate = .ok items) (filled : items ≠ []) :
    ∃ units, Exact candidate.entry point units items := by
  unfold verifiedDurableScopeItems at returned
  rw [verification] at returned
  dsimp only at returned
  split at returned
  · cases returned
    exact absurd rfl filled
  obtain ⟨source, named, returned⟩ := bind_eq_ok.mp returned
  split at returned
  · cases returned
    exact absurd rfl filled
  rename_i whole
  split at returned
  · cases returned
    exact absurd rfl filled
  rename_i single
  cases looped : point.scanSegments (point.standaloneDurableUnits (bodyStartOf candidate.entry) true)
      (bodyStartOf candidate.entry) 0 0 point.scopeSegments with
  | none =>
    rw [looped] at returned
    cases returned
    exact absurd rfl filled
  | some scan =>
    rw [looped] at returned
    obtain ⟨result, made, returned⟩ := bind_eq_ok.mp returned
    cases result with
    | none =>
      cases returned
      exact absurd rfl filled
    | some result =>
      obtain ⟨found, removed⟩ := result
      dsimp only at returned
      split at returned
      · cases returned
        exact absurd rfl filled
      rename_i something
      have valid : items = found := by
        cases returned
        split at filled
        · next ok => rw [if_pos ok]
        · exact absurd rfl filled
      subst valid
      have passed := scanSegments_spec looped
      have account : candidate.entry.sourceReport.isSome = true →
          point.standaloneDurableUnits 0 true = point.standaloneDurableUnits (bodyStartOf candidate.entry) true := by
        intro reported
        have start : bodyStartOf candidate.entry = 0 := if_neg (by rw [← Option.not_isSome, reported]; exact Bool.false_ne_true)
        rw [start]
      obtain ⟨stated, drops⟩ := refinedItems_spec account made
      obtain ⟨proved, apart⟩ := @standaloneDurableUnits_spec point (bodyStartOf candidate.entry) true
      refine ⟨_, ?_, proved, stated, apart, ?_, ?_⟩
      · rw [named, not_not.mp whole]
      · rintro index segment ⟨found, body, visible, unused⟩
        have disposable := passed.disposable index segment found (by rw [Nat.zero_add]; exact body) visible
          (fun row member => by rw [Nat.zero_add]; exact unused row member)
        rw [Nat.zero_add] at disposable
        exact mayGo_of_disposable disposable
      · rcases drops (by simpa using something) with segment | ⟨unreported, replaced, retitled⟩
        · obtain ⟨index, part, found, body, visible, unused⟩ := passed.removed segment
          simp only [Nat.zero_add] at body unused
          exact .inl ⟨index, part, found, body, visible, unused⟩
        · refine .inr ⟨unreported, retitled, fun index segment found before visible => ?_⟩
          have heads := passed.heading index segment found (by rw [Nat.zero_add]; exact before) visible
          simp only [replacesTitle, Bool.and_eq_true, List.all_eq_true] at replaced
          exact replaced.1.2 segment heads

/-! ### An entry with a temporary remark -/

def claimed (text : String) (filled : text ≠ "") : CandidateScopeSegment :=
  { text, sourceUse := .reusableKnowledge, futureScope := .durable, contentRole := .claim, sourceSupport := .supported, filled }

def blank : CandidateScopeSegment := { text := " ", sourceUse := .unclear, futureScope := .unclear, filled := by decide }

def remark : CandidateScopeSegment :=
  { text := " now", sourceUse := .taskContext, futureScope := .sessionOnly, contentRole := .temporaryContext,
    sourceSupport := .supported, filled := by decide }

def logsUnit (first : Nat) : CandidateClaimUnit :=
  { firstSegment := first, endSegmentExclusive := first + 3, standalone := true, sourceSupport := .supported,
    sourceUse := .reusableKnowledge, futureScope := .durable, retainedText := "Keep logs", selectedForRetention := true,
    titleAndTextSupport := .supported }

def logsPoint : CandidateVerificationPoint :=
  { semanticSupport := .supported, futureScope := .unclear, sourceUse := .unclear
    scopeSegments := [claimed "Logs\n" (by decide), claimed "Keep" (by decide), blank, claimed "logs" (by decide), remark]
    claimUnits := [logsUnit 1] }

def logsEntry : KnowledgeEntry :=
  { id := "k1", projectName := .of "p" SingleLine.p_line, modulePath := [.of "core" SingleLine.core_line]
    title := .of "Logs" SingleLine.logs_line, statement := .of "Keep logs now" (by decide +kernel)
    createdAt := 0, updatedAt := 0, placed := SingleLine.core_placed, attributed := by rintro _ ⟨⟩ }

def logsCandidate : DreamAssimilationCandidate :=
  { entry := logsEntry, semanticSupport := .supported, scopeVerification := some logsPoint
    verificationContract := some "dream-source-recheck-v7" }

def logsItem : CanonicalKnowledgeItem := ⟨"Logs", "Keep logs", ["core"], .procedure⟩

theorem logsCandidate_items : verifiedDurableScopeItems logsCandidate = .ok [logsItem] := by decide

theorem verified_items_keep_logs : [logsItem] ≠ [] ∧ ∃ units, Exact logsEntry logsPoint units [logsItem] :=
  ⟨by decide, @verified_items_keep_proved_text logsCandidate logsPoint [logsItem] rfl logsCandidate_items (by decide)⟩

def OnlyClaims (candidate : DreamAssimilationCandidate) : Prop :=
  ∀ point items, candidate.scopeVerification = some point → verifiedDurableScopeItems candidate = .ok items →
    ∀ item ∈ items, ∃ unit ∈ point.claimUnits, unit.selectedForRetention = true ∧ ∃ indexes : List Nat,
      (∀ index ∈ indexes, unit.firstSegment ≤ index ∧ index < unit.endSegmentExclusive ∧
        ∃ segment, point.scopeSegments[index]? = some segment ∧ segment.isSupportedClaim = true) ∧
      item.statement = stripped (String.join (indexes.filterMap fun index => point.scopeSegments[index]?.map (·.text)))

theorem mem_join {texts : List String} {c : Char} : c ∈ (String.join texts).toList ↔ ∃ text ∈ texts, c ∈ text.toList := by
  rw [String.toList_join, List.mem_flatMap]

theorem OnlyClaims.shown {candidate : DreamAssimilationCandidate} (only : OnlyClaims candidate) {point : CandidateVerificationPoint} (verification : candidate.scopeVerification = some point)
    (returned : verifiedDurableScopeItems candidate = .ok items) {item : CanonicalKnowledgeItem} (member : item ∈ items) {c : Char}
    (written : c ∈ item.statement.toList) :
    ∃ segment ∈ point.scopeSegments, segment.isSupportedClaim = true ∧ c ∈ segment.text.toList := by
  obtain ⟨unit, -, -, indexes, claims, stated⟩ := only point items verification returned item member
  rw [stated, stripped, String.toList_ofList] at written
  obtain ⟨text, inside, own⟩ := mem_join.mp ((strip_sublist _).subset written)
  obtain ⟨index, indexed, found⟩ := List.mem_filterMap.mp inside
  obtain ⟨-, -, segment, place, supported⟩ := claims index indexed
  rw [place] at found
  cases found
  exact ⟨segment, List.mem_of_getElem? place, supported, own⟩

/-! ### A report -/

def accountReport : SourceReport :=
  { speaker := .user, period := .of "May" (by decide +kernel), sessionId := .of "s" (by decide +kernel)
    sourceId := .of "d" (by decide +kernel), sourceRevision := .of "r" (by decide +kernel), exchangeIndexes := [1]
    text := .of "Keep logs now" (by decide +kernel), cited := by decide }

def accountPoint : CandidateVerificationPoint :=
  { logsPoint with
    scopeSegments := [claimed "Keep" (by decide), blank, claimed "logs" (by decide), remark]
    claimUnits := [logsUnit 0] }

set_option maxRecDepth 4000 in
def accountCandidate : DreamAssimilationCandidate :=
  { entry :=
      { logsEntry with
        title := .of "Source report — user account (source-session timestamp: May)" (by
          rw [stripped, String.toList_ofList]
          decide)
        statement := .of ("Source-scoped report — user, source-session timestamp: May, in that session's cited exchanges: " ++
          "Keep logs now [Reports that speaker's account only; not independently established current fact or user approval.]")
          (by
            rw [stripped, String.toList_append, String.toList_ofList, String.toList_ofList]
            decide)
        sourceReport := some accountReport
        attributed := by
          intro report bound
          obtain rfl := Option.some.inj bound
          decide }
    semanticSupport := .supported, scopeVerification := some accountPoint
    verificationContract := some "dream-source-recheck-v7" }

def accountItem : CanonicalKnowledgeItem :=
  ⟨accountReport.renderTitle, renderedAccount accountReport "Keep logs", ["core"], .sourceReport⟩

theorem validateWritingItems_visible {item : CanonicalKnowledgeItem} {path : List String} (titled : hasVisible item.title = true)
    (stated : hasVisible item.statement = true) (placed : Assimilation.validateKnowledgeModulePath item.topicPath = .ok path) :
    validateWritingItems [item] = .ok () := by
  have title : stripped item.title ≠ "" := by
    rw [ne_eq, stripped_eq_empty_iff, titled]
    decide
  have statement : stripped item.statement ≠ "" := by
    rw [ne_eq, stripped_eq_empty_iff, stated]
    decide
  obtain ⟨c, member, shown⟩ := List.any_eq_true.mp (hasVisible_stripped statement)
  have filled := collapseSpaces_ne_empty member (by simpa using shown)
  simp [validateWritingItems, title, statement, Assimilation.validateAtomicKnowledgeStatement, filled, placed, bind, Except.bind, pure,
    Except.pure]

theorem hasVisible_append {front : String} (shown : hasVisible front = true) (back : String) : hasVisible (front ++ back) = true := by
  rw [hasVisible, String.toList_append, List.any_append, Bool.or_eq_true]
  exact .inl shown

theorem accountItem_valid : validateWritingItems [accountItem] = .ok () := by
  refine @validateWritingItems_visible accountItem ["core"] ?_ ?_ (by decide)
  · have front : hasVisible "Source report — " = true := by decide
    exact hasVisible_append (hasVisible_append (hasVisible_append (hasVisible_append front _) _) _) _
  · have front : hasVisible "Source-scoped report — " = true := by decide
    exact hasVisible_append (hasVisible_append (hasVisible_append (hasVisible_append (hasVisible_append (hasVisible_append front _) _) _) _) _) _

theorem accountCandidate_items : verifiedDurableScopeItems accountCandidate = .ok [accountItem] := by
  have source : dreamScopeText accountCandidate.entry = .ok "Keep logs now" := by
    obtain ⟨statement, title⟩ := accountCandidate.entry.attributed accountReport rfl
    rw [dreamScopeText, show accountCandidate.entry.sourceReport = some accountReport by rfl]
    dsimp only
    rw [if_neg (by rw [title, statement]; simp)]
    rfl
  have kept : accountPoint.retainedReportText true = .ok "Keep logs" := by decide
  have scans : (accountPoint.scanSegments (accountPoint.standaloneDurableUnits 0 true) 0 0 0 accountPoint.scopeSegments).map (·.removed) =
      some true := by decide
  obtain ⟨scan, found, removed⟩ := Option.map_eq_some_iff.mp scans
  rw [verifiedDurableScopeItems, show accountCandidate.scopeVerification = some accountPoint by rfl]
  dsimp only
  rw [if_neg (by decide), source]
  dsimp only [bind, Except.bind]
  rw [if_neg (by decide), show bodyStartOf accountCandidate.entry = 0 by rfl, if_neg (by decide), found]
  dsimp only
  rw [refinedItems, show accountCandidate.entry.sourceReport = some accountReport by rfl]
  dsimp only
  rw [if_neg (by decide), kept]
  dsimp only [bind, Except.bind, pure, Except.pure]
  rw [removed, if_neg (by decide)]
  change Except.ok (if (validateWritingItems [accountItem]).isOk = true then [accountItem] else []) = Except.ok [accountItem]
  rw [accountItem_valid]
  rfl

/-- The blank between two claims is kept with them, and the account of a report stands inside its attribution. -/
theorem verified_items_not_only_claims : (logsPoint.validate = .ok logsPoint ∧ ¬ OnlyClaims logsCandidate) ∧
    (accountPoint.validate = .ok accountPoint ∧ ¬ OnlyClaims accountCandidate) := by
  refine ⟨⟨by decide +kernel, fun only => ?_⟩, by decide +kernel, fun only => ?_⟩
  · have none_blank : ∀ segment ∈ logsPoint.scopeSegments, segment.isSupportedClaim = true → ' ' ∉ segment.text.toList := by decide +kernel
    obtain ⟨segment, member, supported, inside⟩ := only.shown rfl logsCandidate_items List.mem_cons_self
      (show ' ' ∈ logsItem.statement.toList by decide +kernel)
    exact none_blank segment member supported inside
  · have none_colon : ∀ segment ∈ accountPoint.scopeSegments, segment.isSupportedClaim = true → ':' ∉ segment.text.toList := by
      decide +kernel
    obtain ⟨segment, member, supported, inside⟩ := only.shown rfl accountCandidate_items List.mem_cons_self
      (show ':' ∈ accountItem.statement.toList by decide +kernel)
    exact none_colon segment member supported inside

end HarnessMem.Dream
