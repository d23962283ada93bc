import HarnessMem.Assimilation.Validation

/-! Producer and consumer of a plan: when the points of an accepted decision are accepted again,
and that they then carry what the decision says.
-/

set_option autoImplicit false

namespace HarnessMem.Assimilation

open Library

/-! ### Items that are read as they are -/

/-- What reading makes of an item. -/
structure CanonicalKnowledgeItem.Canonical (item : CanonicalKnowledgeItem) : Prop where
  title : item.title ≠ "" ∧ collapseSpaces item.title = item.title
  statement : item.statement ≠ "" ∧ collapseSpaces item.statement = item.statement
  placed : item.topicPath ≠ []
  parts : ∀ part ∈ item.topicPath, part ≠ "" ∧ stripped part = part

variable {path : List String}

theorem validateKnowledgeModulePath_parts {normalized : List String}
    (read : validateKnowledgeModulePath path = .ok normalized) :
    normalized ≠ [] ∧ ∀ part ∈ normalized, part ≠ "" ∧ stripped part = part := by
  unfold validateKnowledgeModulePath at read
  dsimp only at read
  split at read
  · cases read
  · next filled =>
    cases read
    refine ⟨filled, fun part member => ?_⟩
    obtain ⟨inside, named⟩ := List.mem_filter.mp member
    obtain ⟨original, -, rfl⟩ := List.mem_map.mp inside
    exact ⟨of_decide_eq_true named, stripped_stripped original⟩

theorem validateKnowledgeModulePath_self (filled : path ≠ [])
    (parts : ∀ part ∈ path, part ≠ "" ∧ stripped part = part) : validateKnowledgeModulePath path = .ok path := by
  have same : path.map stripped = path := (List.map_congr_left fun part member => (parts part member).2).trans (List.map_id path)
  have kept : path.filter (· ≠ "") = path := List.filter_eq_self.mpr fun part member => decide_eq_true (parts part member).1
  simp only [validateKnowledgeModulePath, same, kept, if_neg filled]

theorem validateAtomicKnowledgeStatement_ok {value : String} (filled : value ≠ "") (single : collapseSpaces value = value) :
    validateAtomicKnowledgeStatement value = .ok value := by
  simp only [validateAtomicKnowledgeStatement, single, if_neg filled]

def CanonicalKnowledgeItem.canonical (raw : CanonicalKnowledgeItem) : CanonicalKnowledgeItem :=
  { raw with
    title := collapseSpaces raw.title
    statement := collapseSpaces raw.statement
    topicPath := raw.topicPath.map stripped }

variable {raw item : CanonicalKnowledgeItem}

theorem validateCanonicalKnowledgeItem_iff :
    validateCanonicalKnowledgeItem raw = .ok item ↔ item = raw.canonical ∧ raw.canonical.Canonical := by
  constructor
  · intro read
    unfold validateCanonicalKnowledgeItem at read
    dsimp only at read
    split at read
    · cases read
    split at read
    · cases read
    split at read
    · cases read
    rename_i titled placed blank
    push Not at titled
    rw [validateAtomicKnowledgeStatement_ok titled.2 (collapseSpaces_collapseSpaces _)] at read
    cases read
    refine ⟨rfl, ⟨titled.1, collapseSpaces_collapseSpaces _⟩, ⟨titled.2, collapseSpaces_collapseSpaces _⟩, ?_, fun part member => ?_⟩
    · exact fun none => placed (List.map_eq_nil_iff.mp none)
    · obtain ⟨original, inside, rfl⟩ := List.mem_map.mp member
      exact ⟨fun none => blank (List.any_eq_true.mpr ⟨original, inside, decide_eq_true none⟩), stripped_stripped original⟩
  · rintro ⟨rfl, canonical⟩
    have titled : ¬ (collapseSpaces raw.title = "" ∨ collapseSpaces raw.statement = "") :=
      not_or.mpr ⟨canonical.title.1, canonical.statement.1⟩
    have placed : raw.topicPath ≠ [] := fun none => canonical.placed (congrArg (List.map stripped) none)
    have shown : ¬ (raw.topicPath.any fun part => stripped part = "") = true := by
      intro blank
      obtain ⟨part, inside, none⟩ := List.any_eq_true.mp blank
      exact (canonical.parts (stripped part) (List.mem_map_of_mem inside)).1 (of_decide_eq_true none)
    unfold validateCanonicalKnowledgeItem
    dsimp only
    have atomic : validateAtomicKnowledgeStatement (collapseSpaces raw.statement) = .ok (collapseSpaces raw.statement) :=
      validateAtomicKnowledgeStatement_ok canonical.statement.1 canonical.statement.2
    rw [if_neg titled, if_neg placed, if_neg shown, atomic]
    rfl

theorem readItem_iff :
    readItem raw = .ok item ↔ item = raw.canonical ∧ raw.canonical.Canonical := by
  unfold readItem
  constructor
  · intro read
    obtain ⟨checked, valid, read⟩ := bind_eq_ok.mp read
    obtain ⟨rfl, canonical⟩ := validateCanonicalKnowledgeItem_iff.mp valid
    rw [validateKnowledgeModulePath_self canonical.placed canonical.parts] at read
    cases read
    exact ⟨rfl, canonical⟩
  · rintro ⟨rfl, canonical⟩
    rw [validateCanonicalKnowledgeItem_iff.mpr ⟨rfl, canonical⟩, ok_bind,
      validateKnowledgeModulePath_self canonical.placed canonical.parts]
    rfl

theorem CanonicalKnowledgeItem.Canonical.canonical_eq (canonical : item.Canonical) :
    item.canonical = item := by
  have path : item.topicPath.map stripped = item.topicPath :=
    (List.map_congr_left fun part member => (canonical.parts part member).2).trans (List.map_id _)
  simp only [CanonicalKnowledgeItem.canonical, canonical.title.2, canonical.statement.2, path]

theorem CanonicalKnowledgeItem.Canonical.reads (canonical : item.Canonical) :
    readItem item = .ok item :=
  readItem_iff.mpr ⟨canonical.canonical_eq.symm, by rwa [canonical.canonical_eq]⟩

/-! ### Decisions that have passed their validation -/

/-- What the validation of a point leaves. -/
structure AssimilationPoint.Valid (point : AssimilationPoint) : Prop where
  reason : 8 ≤ point.reason.length ∧ point.reason.length ≤ 1000
  items : ∀ item ∈ point.knowledgeItems, item.canonical = item
  single : point.knowledgeItems ≠ [] → point.canonicalTitle = none ∧ point.canonicalStatement = none ∧ point.topicPath = []
  title : collapseSpaces (point.canonicalTitle.getD "") = point.canonicalTitle.getD ""
  statement : collapseSpaces (point.canonicalStatement.getD "") = point.canonicalStatement.getD ""

theorem canonical_of_validate (read : raw.validate = .ok item) : item.canonical = item := by
  unfold CanonicalKnowledgeItem.validate at read
  dsimp only at read
  split at read
  · cases read
  split at read
  · cases read
  split at read
  · cases read
  cases read
  simp only [CanonicalKnowledgeItem.canonical, collapseSpaces_collapseSpaces, List.map_map, Function.comp_def, stripped_collapseSpaces]

theorem checkedText_collapsed {check : String → Except String String} {value result : Option String}
    (collapses : ∀ text normalized, check text = .ok normalized → collapseSpaces normalized = normalized)
    (read : checkedText check value = .ok result) : collapseSpaces (result.getD "") = result.getD "" := by
  have empty : collapseSpaces "" = "" := by decide
  cases value with
  | none =>
    cases read
    exact empty
  | some text =>
    unfold checkedText at read
    dsimp only at read
    split at read
    · next none =>
      cases read
      rw [none]
      exact empty
    · obtain ⟨normalized, checked, rfl⟩ := map_eq_ok.mp read
      exact collapses text normalized checked

theorem assertAtomicTitle_collapsed {text normalized : String} (read : assertAtomicTitle text = .ok normalized) :
    collapseSpaces normalized = normalized := by
  unfold assertAtomicTitle at read
  dsimp only at read
  split at read
  · cases read
  · cases read
    exact collapseSpaces_collapseSpaces text

theorem validateAtomicKnowledgeStatement_collapsed {text normalized : String}
    (read : validateAtomicKnowledgeStatement text = .ok normalized) : collapseSpaces normalized = normalized := by
  unfold validateAtomicKnowledgeStatement at read
  dsimp only at read
  split at read
  · cases read
  · cases read
    exact collapseSpaces_collapseSpaces text

variable {point : AssimilationPoint}

theorem validate_spec {raw : AssimilationPoint} (read : raw.validate = .ok point) :
    point.Valid ∧ point.candidateId = raw.candidateId ∧ point.disposition = raw.disposition ∧
      point.matchedTruthHandles = raw.matchedTruthHandles ∧ point.reason = raw.reason ∧
      point.topicPath = if raw.knowledgeItems = [] then raw.topicPath else [] := by
  unfold AssimilationPoint.validate at read
  dsimp only at read
  split at read
  · cases read
  obtain ⟨items, checked, read⟩ := bind_eq_ok.mp read
  split at read
  · cases read
  rename_i bounded
  obtain ⟨-, -, read⟩ := bind_eq_ok.mp read
  obtain ⟨title, titled, read⟩ := bind_eq_ok.mp read
  obtain ⟨statement, stated, read⟩ := bind_eq_ok.mp read
  cases read
  have canonical : ∀ item ∈ items, item.canonical = item := by
    intro item member
    obtain ⟨original, -, valid⟩ := of_mem_mapM checked member
    exact canonical_of_validate valid
  have empties : items = [] ↔ raw.knowledgeItems = [] := by
    have sizes := (forall₂_of_mapM checked).length_eq
    rw [← List.length_eq_zero_iff, ← sizes, List.length_eq_zero_iff]
  have texts := And.intro (checkedText_collapsed (fun _ _ => assertAtomicTitle_collapsed) titled)
    (checkedText_collapsed (fun _ _ => validateAtomicKnowledgeStatement_collapsed) stated)
  have lengths : 8 ≤ raw.reason.length ∧ raw.reason.length ≤ 1000 := by omega
  unfold AssimilationPoint.oneForm at titled stated ⊢
  by_cases legacy : items = []
  · simp only [if_pos legacy, if_pos (empties.mp legacy)] at titled stated ⊢
    exact ⟨⟨lengths, canonical, fun filled => absurd legacy filled, texts.1, texts.2⟩, by simp⟩
  · simp only [if_neg legacy, if_neg (mt empties.mpr legacy)] at titled stated ⊢
    cases titled
    cases stated
    exact ⟨⟨lengths, canonical, fun _ => ⟨rfl, rfl, rfl⟩, texts.1, texts.2⟩, by simp⟩

theorem AssimilationDecision.valid (decision : AssimilationDecision) (member : point ∈ decision.points) :
    point.Valid := by
  obtain ⟨raw, read⟩ := decision.validated point member
  exact (validate_spec read).1

/-! ### What a point writes -/

def CanonicalKnowledgeItem.text (item : CanonicalKnowledgeItem) : String × String × List String :=
  (item.title, item.statement, item.topicPath)

def AssimilationPoint.texts (point : AssimilationPoint) (report : Option SourceReport) : List (String × String × List String) :=
  if writes point.disposition then
    match report with
    | some report => point.knowledgeItems.eraseDups.map fun item => (report.renderTitle, report.renderStatement, item.topicPath)
    | none =>
      if point.knowledgeItems = [] then
        [(point.canonicalTitle.getD "", point.canonicalStatement.getD "", (point.topicPath.map stripped).filter (· ≠ ""))]
      else point.knowledgeItems.eraseDups.map (·.text)
  else []

structure SameText (planned : PlanPoint) (title statement : Option String) (topicPath : List String)
    (items : List CanonicalKnowledgeItem) : Prop where
  title : planned.canonicalTitle = title
  statement : planned.canonicalStatement = statement
  path : planned.topicPath = topicPath
  items : planned.knowledgeItems = items

variable {items : List CanonicalKnowledgeItem}

theorem mapM_readItem {read : List CanonicalKnowledgeItem} (valid : ∀ item ∈ items, item.canonical = item)
    (ran : items.mapM readItem = .ok read) : read = items ∧ ∀ item ∈ items, item.Canonical := by
  have canonical : ∀ item ∈ items, item.Canonical := by
    intro item member
    obtain ⟨result, -, reads⟩ := exists_of_forall₂ (forall₂_of_mapM ran) item member
    have shape := (readItem_iff.mp reads).2
    rwa [valid item member] at shape
  have whole : items.mapM readItem = .ok (items.map id) := mapM_ok fun item member => (canonical item member).reads
  rw [ran, List.map_id] at whole
  exact ⟨Except.ok.inj whole, canonical⟩

theorem mem_renderTitle (report : SourceReport) : 'S' ∈ report.renderTitle.toList := by
  have begins : 'S' ∈ "Source report — ".toList := by decide
  unfold SourceReport.renderTitle
  simp only [String.toList_append]
  exact List.mem_append_left _ (List.mem_append_left _ (List.mem_append_left _ (List.mem_append_left _ begins)))

theorem mem_renderStatement (report : SourceReport) : 'S' ∈ report.renderStatement.toList := by
  have begins : 'S' ∈ "Source-scoped report — ".toList := by decide
  unfold SourceReport.renderStatement
  simp only [String.toList_append]
  exact List.mem_append_left _ (List.mem_append_left _ (List.mem_append_left _ (List.mem_append_left _
    (List.mem_append_left _ (List.mem_append_left _ begins)))))

theorem bound_again {report : SourceReport} {item : CanonicalKnowledgeItem} (placed : item.topicPath ≠ [])
    (parts : ∀ part ∈ item.topicPath, part ≠ "" ∧ stripped part = part) {bound : CanonicalKnowledgeItem}
    (shape : bound = { item with title := report.renderTitle, statement := report.renderStatement, claimKind := .sourceReport }) :
    readItem bound = .ok bound.canonical ∧ bindReportItems (some report) [bound.canonical] true = .ok [bound] := by
  have titled := collapseSpaces_ne_empty (mem_renderTitle report) (by decide)
  have stated := collapseSpaces_ne_empty (mem_renderStatement report) (by decide)
  have path : item.topicPath.map stripped = item.topicPath :=
    (List.map_congr_left fun part member => (parts part member).2).trans (List.map_id _)
  subst shape
  constructor
  · refine readItem_iff.mpr ⟨rfl, ⟨titled, collapseSpaces_collapseSpaces _⟩, ⟨stated, collapseSpaces_collapseSpaces _⟩, ?_, ?_⟩
    · simpa only [CanonicalKnowledgeItem.canonical, path] using placed
    · simpa only [CanonicalKnowledgeItem.canonical, path] using parts
  · simp only [bindReportItems, CanonicalKnowledgeItem.canonical, path, if_true]

theorem writtenItems_items (valid : point.Valid) (filled : point.knowledgeItems ≠ []) (written : writtenItems point = .ok (items, path)) :
    items = point.knowledgeItems.eraseDups ∧ path = [] ∧ ∀ item ∈ items, item.Canonical := by
  unfold writtenItems at written
  rw [if_pos filled] at written
  split at written
  · cases written
  obtain ⟨read, ran, written⟩ := bind_eq_ok.mp written
  cases written
  obtain ⟨rfl, canonical⟩ := mapM_readItem valid.items ran
  exact ⟨rfl, (valid.single filled).2.2, fun item member => canonical item (List.mem_eraseDups.mp member)⟩

theorem writtenItems_legacy (valid : point.Valid) (legacy : point.knowledgeItems = []) (written : writtenItems point = .ok (items, path)) :
    items = [] ∧ path = (point.topicPath.map stripped).filter (· ≠ "") ∧
      CanonicalKnowledgeItem.Canonical ⟨point.canonicalTitle.getD "", point.canonicalStatement.getD "", path, .procedure⟩ := by
  unfold writtenItems at written
  rw [if_neg (not_not_intro legacy)] at written
  split at written
  · cases written
  rename_i named
  push Not at named
  obtain ⟨normalized, placed, written⟩ := bind_eq_ok.mp written
  cases written
  have parts := validateKnowledgeModulePath_parts placed
  have title := stripped_collapseSpaces (point.canonicalTitle.getD "")
  have statement := stripped_collapseSpaces (point.canonicalStatement.getD "")
  rw [valid.title] at title
  rw [valid.statement] at statement
  rw [title, statement] at named
  refine ⟨rfl, ?_, ⟨named.1, valid.title⟩, ⟨named.2, valid.statement⟩, parts.1, parts.2⟩
  unfold validateKnowledgeModulePath at placed
  dsimp only at placed
  split at placed
  · cases placed
  · cases placed
    rfl

def reread (items : List CanonicalKnowledgeItem) : Except String (List CanonicalKnowledgeItem) := do
  let read ← items.mapM readItem
  return normalizeSplitKnowledgeItems read

variable {planned : PlanPoint}

theorem validatedApply_items (filled : planned.knowledgeItems ≠ []) (title : planned.canonicalTitle = none)
    (statement : planned.canonicalStatement = none) (path : planned.topicPath = []) :
    validatedApplyKnowledgeItems planned true = reread planned.knowledgeItems := by
  have empty : stripped "" = "" := by decide
  simp [validatedApplyKnowledgeItems, reread, filled, title, statement, path, empty]

theorem validatedApply_legacy (legacy : planned.knowledgeItems = []) :
    validatedApplyKnowledgeItems planned true =
      reread [⟨stripped (planned.canonicalTitle.getD ""), stripped (planned.canonicalStatement.getD ""), planned.topicPath, .procedure⟩] := by
  simp [validatedApplyKnowledgeItems, reread, legacy]

theorem reread_self (canonical : ∀ item ∈ items, item.Canonical) (once : items.Nodup) :
    reread items = .ok items := by
  have reads : items.mapM readItem = .ok (items.map id) := mapM_ok fun item member => (canonical item member).reads
  unfold reread
  rw [reads, ok_bind, List.map_id]
  exact congrArg Except.ok (eraseDups_eq_self once)

variable {bound : List CanonicalKnowledgeItem}

theorem bindReportItems_none {writing : Bool}
    (binds : bindReportItems none items writing = .ok bound) : bound = items := by
  unfold bindReportItems at binds
  dsimp only at binds
  split at binds
  · cases binds
  · cases binds
    rfl

theorem bindReportItems_some {report : SourceReport}
    (binds : bindReportItems (some report) items true = .ok bound) : ∃ item, items = [item] ∧
      bound = [{ item with title := report.renderTitle, statement := report.renderStatement, claimKind := .sourceReport }] := by
  match items, binds with
  | [item], binds =>
    cases binds
    exact ⟨item, rfl, rfl⟩

variable {report : Option SourceReport}

theorem apply_writing (valid : point.Valid) (writing : writes point.disposition = true)
    (carried : carriedItems report point = .ok (items, path))
    (same : SameText planned point.canonicalTitle point.canonicalStatement path items) :
    ∃ supplied final, validatedApplyKnowledgeItems planned true = .ok supplied ∧ bindReportItems report supplied true = .ok final ∧
      final.map (·.text) = point.texts report := by
  unfold carriedItems at carried
  rw [if_pos writing] at carried
  obtain ⟨⟨written, own⟩, wrote, carried⟩ := bind_eq_ok.mp carried
  obtain ⟨bound, binds, carried⟩ := bind_eq_ok.mp carried
  cases carried
  unfold AssimilationPoint.texts
  rw [if_pos writing]
  by_cases legacy : point.knowledgeItems = []
  · obtain ⟨rfl, rfl, canonical⟩ := writtenItems_legacy valid legacy wrote
    have title := stripped_collapseSpaces (point.canonicalTitle.getD "")
    have statement := stripped_collapseSpaces (point.canonicalStatement.getD "")
    rw [valid.title] at title
    rw [valid.statement] at statement
    cases report with
    | some report => cases binds
    | none =>
      cases binds
      let item : CanonicalKnowledgeItem := ⟨point.canonicalTitle.getD "", point.canonicalStatement.getD "",
        (point.topicPath.map stripped).filter (· ≠ ""), .procedure⟩
      refine ⟨[item], [item], ?_, rfl, ?_⟩
      · rw [validatedApply_legacy same.items, same.title, same.statement, same.path, title, statement]
        exact reread_self (List.forall_mem_singleton.mpr canonical) (List.nodup_singleton _)
      · simp only [item, legacy, if_true, List.map_singleton, CanonicalKnowledgeItem.text]
  · obtain ⟨rfl, rfl, canonical⟩ := writtenItems_items valid legacy wrote
    obtain ⟨noTitle, noStatement, -⟩ := valid.single legacy
    have some_left : point.knowledgeItems.eraseDups ≠ [] := by
      obtain ⟨item, rest, shape⟩ := List.exists_cons_of_ne_nil legacy
      rw [shape, List.eraseDups_cons]
      exact List.cons_ne_nil _ _
    have reads : ∀ items, planned.knowledgeItems = items → items ≠ [] → validatedApplyKnowledgeItems planned true = reread items := by
      rintro _ rfl filled
      exact validatedApply_items filled (same.title.trans noTitle) (same.statement.trans noStatement) same.path
    cases report with
    | none =>
      obtain rfl := bindReportItems_none binds
      refine ⟨_, _, (reads _ same.items some_left).trans (reread_self canonical (nodup_eraseDups _)), binds, ?_⟩
      rw [if_neg legacy]
    | some report =>
      obtain ⟨item, only, shape⟩ := bindReportItems_some binds
      have own := canonical item (by rw [only]; exact List.mem_cons_self)
      obtain ⟨again, rebinds⟩ := bound_again own.placed own.parts rfl
      refine ⟨_, _, (reads _ (same.items.trans shape) (List.cons_ne_nil _ _)).trans ?_, rebinds, ?_⟩
      · unfold reread
        rw [List.mapM_cons, again]
        rfl
      · rw [only]
        rfl

theorem carried_nonwriting (silent : writes point.disposition = false) (carried : carriedItems report point = .ok (items, path)) :
    items = [] ∧ path = point.topicPath ∧ stripped (point.canonicalTitle.getD "") = "" ∧
      stripped (point.canonicalStatement.getD "") = "" := by
  unfold carriedItems at carried
  rw [if_neg (by rw [silent]; exact Bool.false_ne_true)] at carried
  split at carried
  · cases carried
  · next bare =>
    cases carried
    push Not at bare
    exact ⟨rfl, rfl, bare.2.1, bare.2.2.1⟩

theorem apply_nonwriting (items : planned.knowledgeItems = [])
    (title : stripped (planned.canonicalTitle.getD "") = "") (statement : stripped (planned.canonicalStatement.getD "") = "") :
    validatedApplyKnowledgeItems planned false =
      if planned.topicPath = [] then .ok [] else .error "non-writing assimilation cannot carry canonical knowledge" := by
  by_cases bare : planned.topicPath = []
  · simp [validatedApplyKnowledgeItems, items, title, statement, bare]
    rfl
  · simp [validatedApplyKnowledgeItems, items, title, statement, bare]
    rfl

/-! ### One point -/

/-- What is read of one point that the provider decided is what it decided. -/
structure Carries (prepared : SeparatedPreparedAssimilation) (point : AssimilationPoint) (applied : PlanPoint) : Prop where
  candidate : applied.candidateId = point.candidateId
  disposition : applied.disposition = point.disposition
  targets : List.Forall₂ (fun handle target => prepared.truth? handle = some target) point.matchedTruthHandles applied.matchedTruthIds
  items : ∃ report, prepared.report? point.candidateId = .ok report ∧ applied.knowledgeItems.map (·.text) = point.texts report

structure Planned (prepared : SeparatedPreparedAssimilation) (point : AssimilationPoint) (planned : PlanPoint)
    (report : Option SourceReport) : Prop where
  once : point.matchedTruthHandles.Nodup
  known : List.Forall₂ (fun handle target => prepared.truth? handle = some target) point.matchedTruthHandles planned.matchedTruthIds
  authority : prepared.validateReportAuthority point.candidateId point.disposition planned.matchedTruthIds = .ok report
  allowed : validateTargets point.disposition point.matchedTruthHandles = .ok ()
  carried : carriedItems report point = .ok (planned.knowledgeItems, planned.topicPath)
  kinds : planned.matchedTruthKinds = point.matchedTruthHandles.map fun _ => "knowledge_entry"
  fields : planned.candidateId = point.candidateId ∧ planned.answerStatus = .answered ∧ planned.disposition = point.disposition ∧
    planned.canonicalTitle = point.canonicalTitle ∧ planned.canonicalStatement = point.canonicalStatement ∧
    planned.reason = point.reason

theorem forall₂_filterMap {α β : Type} {read : α → Option β} {items : List α} (known : ∀ item ∈ items, (read item).isSome) :
    List.Forall₂ (fun item result => read item = some result) items (items.filterMap read) := by
  induction items with
  | nil => exact .nil
  | cons item rest ih =>
    obtain ⟨result, found⟩ := Option.isSome_iff_exists.mp (known item List.mem_cons_self)
    rw [List.filterMap_cons_some found]
    exact .cons found (ih fun other member => known other (List.mem_cons_of_mem _ member))

theorem validatePoint_spec {prepared : SeparatedPreparedAssimilation}
    (accepted : validatePoint prepared point = .ok planned) : ∃ report, Planned prepared point planned report := by
  unfold validatePoint at accepted
  dsimp only at accepted
  split at accepted
  · cases accepted
  split at accepted
  · cases accepted
  rename_i once known
  obtain ⟨report, authority, accepted⟩ := bind_eq_ok.mp accepted
  obtain ⟨done, allowed, accepted⟩ := bind_eq_ok.mp accepted
  obtain ⟨⟨items, path⟩, carried, accepted⟩ := bind_eq_ok.mp accepted
  cases accepted
  refine ⟨report, not_not.mp once, forall₂_filterMap fun handle member => ?_, authority, allowed, carried, rfl, rfl, rfl, rfl, rfl, rfl, rfl⟩
  cases found : prepared.truth? handle with
  | some target => rfl
  | none => exact absurd (List.any_eq_true.mpr ⟨handle, member, by rw [found]; rfl⟩) known

theorem SeparatedPreparedAssimilation.truth?_injective {prepared : SeparatedPreparedAssimilation} {first second target : String}
    (one : prepared.truth? first = some target) (other : prepared.truth? second = some target) : first = second := by
  have member : ∀ {handle : String}, prepared.truth? handle = some target → (handle, target) ∈ prepared.truthByHandle := by
    intro handle found
    obtain ⟨before, behind, shape, -⟩ := List.lookup_eq_some_iff.mp found
    rw [shape]
    exact List.mem_append_right _ List.mem_cons_self
  exact congrArg Prod.fst (List.inj_on_of_nodup_map prepared.distinct (member one) (member other) rfl)

theorem nodup_targets {prepared : SeparatedPreparedAssimilation} {handles targets : List String} (once : handles.Nodup)
    (known : List.Forall₂ (fun handle target => prepared.truth? handle = some target) handles targets) : targets.Nodup := by
  induction known with
  | nil => exact List.nodup_nil
  | cons found rest ih =>
    obtain ⟨fresh, later⟩ := List.nodup_cons.mp once
    refine List.nodup_cons.mpr ⟨fun member => fresh ?_, ih later⟩
    obtain ⟨handle, inside, same⟩ := exists_of_forall₂ rest.flip _ member
    exact SeparatedPreparedAssimilation.truth?_injective found same ▸ inside

variable {disposition : AssimilationDisposition}

theorem validateApplyTargets_of {handles targets : List String} (once : targets.Nodup)
    (size : targets.length = handles.length) (allowed : validateTargets disposition handles = .ok ()) :
    validateApplyTargets disposition targets = .ok () := by
  have empties : targets = [] ↔ handles = [] := by
    rw [← List.length_eq_zero_iff, size, List.length_eq_zero_iff]
  unfold validateTargets at allowed
  unfold validateApplyTargets
  rw [size]
  cases disposition <;> simp_all [mutates] <;> split_ifs at allowed ⊢ <;> rfl

def AssimilationPoint.Applies (point : AssimilationPoint) : Prop :=
  8 ≤ (stripped point.reason).length ∧ (writes point.disposition = false → point.topicPath = [])

theorem length_stripped (value : String) : (stripped value).length ≤ value.length := by
  rw [stripped, String.length_ofList, ← String.length_toList]
  exact (strip_sublist value.toList).length_le

theorem apply_items {prepared : SeparatedPreparedAssimilation} (valid : point.Valid) (entry : Planned prepared point planned report)
    (bare : writes point.disposition = false → point.topicPath = []) :
    ∃ supplied final, validatedApplyKnowledgeItems planned (writes planned.disposition) = .ok supplied ∧
      bindReportItems report supplied (writes planned.disposition) = .ok final ∧ final.map (·.text) = point.texts report := by
  obtain ⟨-, -, disposition, title, statement, -⟩ := entry.fields
  rw [disposition]
  by_cases writing : writes point.disposition = true
  · rw [writing]
    exact apply_writing valid writing entry.carried ⟨title, statement, rfl, rfl⟩
  · have silent : writes point.disposition = false := Bool.eq_false_iff.mpr writing
    obtain ⟨items, path, noTitle, noStatement⟩ := carried_nonwriting silent entry.carried
    rw [silent, apply_nonwriting items (title ▸ noTitle) (statement ▸ noStatement), if_pos (path.trans (bare silent))]
    refine ⟨[], [], rfl, ?_, ?_⟩
    · cases report <;> rfl
    · unfold AssimilationPoint.texts
      rw [if_neg writing]
      rfl

theorem applyEligible_of_applies {prepared : SeparatedPreparedAssimilation} (valid : point.Valid) (entry : Planned prepared point planned report) (applies : point.Applies) :
    ∃ applied, applyEligible prepared planned = .ok applied ∧ Carries prepared point applied := by
  obtain ⟨candidate, status, disposition, -, -, reason⟩ := entry.fields
  obtain ⟨supplied, final, read, binds, texts⟩ := apply_items valid entry applies.2
  have sizes := entry.known.length_eq
  have targets : validateApplyTargets planned.disposition planned.matchedTruthIds = .ok () := by
    rw [disposition]
    exact validateApplyTargets_of (nodup_targets entry.once entry.known) sizes.symm entry.allowed
  have kinds : ¬ (planned.matchedTruthKinds ≠ [] ∧ (planned.matchedTruthKinds.length ≠ planned.matchedTruthIds.length ∨
      (planned.matchedTruthKinds.any fun kind => kind ≠ "knowledge_entry") = true)) := by
    rw [entry.kinds, List.length_map]
    rintro ⟨-, differ | other⟩
    · exact differ sizes
    · obtain ⟨kind, inside, wrong⟩ := List.any_eq_true.mp other
      obtain ⟨handle, -, rfl⟩ := List.mem_map.mp inside
      exact of_decide_eq_true wrong rfl
  have bounded : ¬ ((stripped planned.reason).length < 8 ∨ 1000 < (stripped planned.reason).length) := by
    rw [reason]
    have shorter := length_stripped point.reason
    have least := applies.1
    have most := valid.reason.2
    omega
  have authority : prepared.validateReportAuthority planned.candidateId planned.disposition planned.matchedTruthIds = .ok report := by
    rw [candidate, disposition]
    exact entry.authority
  have found : prepared.report? point.candidateId = .ok report := by
    have checked := entry.authority
    unfold SeparatedPreparedAssimilation.validateReportAuthority at checked
    obtain ⟨own, found, checked⟩ := bind_eq_ok.mp checked
    obtain ⟨done, -, checked⟩ := bind_eq_ok.mp checked
    cases checked
    exact found
  let applied : PlanPoint := {
    candidateId := planned.candidateId, answerStatus := .answered, disposition := planned.disposition
    matchedTruthIds := planned.matchedTruthIds, matchedTruthKinds := planned.matchedTruthIds.map fun _ => "knowledge_entry"
    knowledgeItems := final, reason := stripped planned.reason }
  have ran : applyEligible prepared planned = .ok applied := by
    unfold applyEligible
    dsimp only
    rw [if_neg (not_not_intro status), targets, ok_bind, if_neg kinds, if_neg bounded, read, ok_bind, authority, ok_bind, binds]
    rfl
  exact ⟨applied, ran, candidate, disposition, entry.known, report, found, texts⟩

theorem applies_of_applyEligible {prepared : SeparatedPreparedAssimilation} {applied : PlanPoint} (entry : Planned prepared point planned report)
    (ran : applyEligible prepared planned = .ok applied) : point.Applies := by
  obtain ⟨candidate, status, disposition, title, statement, reason⟩ := entry.fields
  unfold applyEligible at ran
  dsimp only at ran
  rw [if_neg (not_not_intro status)] at ran
  obtain ⟨done, -, ran⟩ := bind_eq_ok.mp ran
  split at ran
  · cases ran
  split at ran
  · cases ran
  rename_i bounded
  obtain ⟨supplied, read, -⟩ := bind_eq_ok.mp ran
  rw [reason] at bounded
  refine ⟨by omega, fun silent => ?_⟩
  obtain ⟨items, path, noTitle, noStatement⟩ := carried_nonwriting silent entry.carried
  rw [disposition, silent, apply_nonwriting items (title ▸ noTitle) (statement ▸ noStatement)] at read
  split at read
  · next bare => exact path.symm.trans bare
  · cases read

/-! ### Targets that are used again -/

variable {uses : List (String × AssimilationDisposition)}

theorem rejectReused_iff : rejectReusedMutatingTargets uses = .ok () ↔
    ∀ use ∈ uses, mutates use.2 = true → (uses.filter fun other => other.1 = use.1).length ≤ 1 := by
  unfold rejectReusedMutatingTargets
  constructor
  · intro ran use member mutating
    split at ran
    · cases ran
    · next once =>
      by_contra more
      refine once (List.any_eq_true.mpr ⟨use.1, List.mem_map_of_mem member, ?_⟩)
      simp only [List.length_map, Bool.and_eq_true, decide_eq_true_eq, List.any_map, List.any_filter]
      exact ⟨not_le.mp more, List.any_eq_true.mpr ⟨use, member, by simpa using mutating⟩⟩
  · intro once
    rw [if_neg]
    intro reused
    obtain ⟨target, -, reused⟩ := List.any_eq_true.mp reused
    simp only [List.length_map, Bool.and_eq_true, decide_eq_true_eq, List.any_map, List.any_filter] at reused
    obtain ⟨use, member, shape⟩ := List.any_eq_true.mp reused.2
    simp only [Function.comp_apply, Bool.and_eq_true, decide_eq_true_eq] at shape
    obtain ⟨rfl, mutating⟩ := shape
    exact absurd reused.1 (not_lt.mpr (once use member mutating))

theorem rejectReused_perm {others : List (String × AssimilationDisposition)} (same : uses.Perm others) :
    rejectReusedMutatingTargets uses = .ok () ↔ rejectReusedMutatingTargets others = .ok () := by
  simp only [rejectReused_iff, same.mem_iff, (same.filter _).length_eq]

theorem rejectReused_renamed {uses : List (String × AssimilationDisposition)} {name : String → String}
    (apart : ∀ first ∈ uses, ∀ second ∈ uses, name first.1 = name second.1 → first.1 = second.1) :
    rejectReusedMutatingTargets (uses.map fun use => (name use.1, use.2)) = .ok () ↔ rejectReusedMutatingTargets uses = .ok () := by
  have sizes : ∀ use ∈ uses, ((uses.map fun use => (name use.1, use.2)).filter fun other => other.1 = name use.1).length =
      (uses.filter fun other => other.1 = use.1).length := by
    intro use member
    rw [List.filter_map, List.length_map]
    refine congrArg List.length (List.filter_congr fun other inside => ?_)
    exact decide_eq_decide.mpr ⟨fun same => apart other inside use member same, congrArg name⟩
  simp only [rejectReused_iff, List.forall_mem_map]
  exact forall₂_congr fun use member => by rw [sizes use member]

/-! ### The whole plan -/

variable {prepared : SeparatedPreparedAssimilation}

/-- The entry that `_validate_apply_points` makes of one of the plan. -/
def applied (prepared : SeparatedPreparedAssimilation) (point : PlanPoint) : PlanPoint :=
  (applyPoint prepared point).toOption.getD point

theorem applyPoint_automatic {point : PlanPoint} (member : point ∈ prepared.automaticPoints) :
    applyPoint prepared point = .ok point := by
  obtain ⟨known, other, status⟩ := prepared.automatic point member
  have found : (prepared.automaticPoints.reverse.find? fun item => item.candidateId = point.candidateId) = some point := by
    cases search : prepared.automaticPoints.reverse.find? fun item => item.candidateId = point.candidateId with
    | none =>
      have missed := List.find?_eq_none.mp search point (List.mem_reverse.mpr member)
      exact absurd (decide_eq_true rfl) missed
    | some expected =>
      have hit := List.find?_some search
      have same : expected.candidateId = point.candidateId := of_decide_eq_true hit
      rw [prepared.decided expected (List.mem_reverse.mp (List.mem_of_find?_eq_some search)) point member same]
  unfold applyPoint
  rw [if_neg (not_not_intro known), status]
  dsimp only
  rw [if_pos other, found]
  simp
  rfl

theorem applyPoint_eligible {point : PlanPoint} (member : point.candidateId ∈ prepared.eligibleCandidateIds) :
    applyPoint prepared point = applyEligible prepared point := by
  obtain ⟨known, status⟩ := prepared.eligible point.candidateId member
  unfold applyPoint
  rw [if_neg (not_not_intro known), status]
  dsimp only
  rw [if_neg (not_not_intro member), if_neg (not_not_intro rfl)]

theorem uses_planned {points : List AssimilationPoint} {planned : List PlanPoint}
    (entries : List.Forall₂ (fun point entry => ∃ report, Planned prepared point entry report) points planned) :
    (planned.flatMap fun entry => entry.matchedTruthIds.map fun target => (target, entry.disposition)) =
      (points.flatMap fun point => point.matchedTruthHandles.map fun handle => (handle, point.disposition)).map
        fun use => ((prepared.truth? use.1).getD "", use.2) := by
  induction entries with
  | nil => rfl
  | @cons point entry _ _ first _ ih =>
    obtain ⟨report, first⟩ := first
    have targets : ∀ {handles ids : List String},
        List.Forall₂ (fun handle target => prepared.truth? handle = some target) handles ids →
        ids = handles.map fun handle => (prepared.truth? handle).getD "" := by
      intro handles ids known
      induction known with
      | nil => rfl
      | cons found _ ih => rw [List.map_cons, found, ← ih]; rfl
    rw [List.flatMap_cons, List.flatMap_cons, List.map_append, ih, targets first.known, first.fields.2.2.1, List.map_map, List.map_map]
    rfl

variable {decision : AssimilationDecision}

theorem accepted_spec {specificity : SeparatedPreparedAssimilation → String → List String → Except String Unit} {plan : AssimilationPlan}
    (accepted : validateSeparatedAssimilationDecision specificity prepared decision = .ok plan) :
    ∃ normalized planned, normalizeIdenticalReplacements prepared decision = .ok normalized ∧
      (∀ point ∈ normalized.points, point.candidateId ∈ prepared.eligibleCandidateIds) ∧
      List.Forall₂ (fun point entry => ∃ report, Planned prepared point entry report) normalized.points planned ∧
      rejectReusedMutatingTargets (planned.flatMap fun entry => entry.matchedTruthIds.map fun target => (target, entry.disposition)) =
        .ok () ∧
      plan.points = byCandidate prepared (prepared.automaticPoints ++ planned) := by
  unfold validateSeparatedAssimilationDecision at accepted
  obtain ⟨normalized, normal, accepted⟩ := bind_eq_ok.mp accepted
  dsimp only at accepted
  split at accepted
  · cases accepted
  split at accepted
  · cases accepted
  split at accepted
  · cases accepted
  rename_i extra
  obtain ⟨planned, ran, accepted⟩ := bind_eq_ok.mp accepted
  obtain ⟨done, unused, accepted⟩ := bind_eq_ok.mp accepted
  obtain ⟨specific, -, accepted⟩ := bind_eq_ok.mp accepted
  cases accepted
  have entries : List.Forall₂ (fun point entry => ∃ report, Planned prepared point entry report) normalized.points planned :=
    (forall₂_of_mapM ran).imp fun _ _ => validatePoint_spec
  refine ⟨normalized, planned, normal, fun point member => ?_, entries, ?_, rfl⟩
  · by_contra other
    refine extra (List.ne_nil_of_mem (List.mem_filter.mpr ⟨List.mem_map_of_mem member, decide_eq_true other⟩))
  · rw [uses_planned entries]
    refine (@rejectReused_renamed _ (fun handle => (prepared.truth? handle).getD "") fun first one second two same => ?_).mpr unused
    have known : ∀ use ∈ normalized.points.flatMap fun point => point.matchedTruthHandles.map fun handle => (handle, point.disposition),
        ∃ target, prepared.truth? use.1 = some target := by
      intro use inside
      obtain ⟨point, member, inside⟩ := List.mem_flatMap.mp inside
      obtain ⟨handle, own, rfl⟩ := List.mem_map.mp inside
      obtain ⟨entry, -, report, entry⟩ := exists_of_forall₂ entries point member
      obtain ⟨target, -, found⟩ := exists_of_forall₂ entry.known handle own
      exact ⟨target, found⟩
    obtain ⟨target, found⟩ := known first one
    obtain ⟨other, otherFound⟩ := known second two
    rw [found, otherFound] at same
    cases same
    exact SeparatedPreparedAssimilation.truth?_injective found otherFound

/-! ### Identical replacements -/

theorem normalizedPoint_cases (point : AssimilationPoint) : normalizedPoint prepared point = point ∨
    (mutates point.disposition = true ∧ normalizedPoint prepared point =
      { point with disposition := .confirm, canonicalTitle := none, canonicalStatement := none, topicPath := [], knowledgeItems := [] }) := by
  unfold normalizedPoint
  split
  · split
    · next identical => exact .inr ⟨identical.1, rfl⟩
    · exact .inl rfl
  · exact .inl rfl

theorem writes_of_mutates (mutating : mutates disposition = true) :
    writes disposition = true := by
  cases disposition <;> first | rfl | cases mutating

theorem normalizedPoint_applies {result : AssimilationPoint} (valid : point.Valid)
    (read : (normalizedPoint prepared point).validate = .ok result) : result.Applies ↔ point.Applies := by
  obtain ⟨-, -, disposition, -, reason, path⟩ := validate_spec read
  unfold AssimilationPoint.Applies
  rw [disposition, reason, path]
  rcases @normalizedPoint_cases prepared point with same | ⟨mutating, changed⟩
  · rw [same]
    by_cases legacy : point.knowledgeItems = []
    · rw [if_pos legacy]
    · rw [if_neg legacy, (valid.single legacy).2.2]
  · rw [changed]
    refine and_congr_right fun _ => ⟨fun _ silent => ?_, fun _ _ => rfl⟩
    rw [writes_of_mutates mutating] at silent
    cases silent

/-- What the consumer needs of a decision: reasons of eight visible characters, and no module path on a point that
writes nothing. -/
def AssimilationDecision.Applies (decision : AssimilationDecision) : Prop := ∀ point ∈ decision.points, point.Applies

theorem modelValidate_spec {payload : List AssimilationPoint}
    (read : AssimilationDecision.modelValidate payload = .ok decision) : payload.mapM AssimilationPoint.validate = .ok decision.points := by
  unfold AssimilationDecision.modelValidate at read
  split at read
  · next points shape =>
    cases read
    exact shape
  · cases read

theorem normalized_applies {normalized : AssimilationDecision}
    (normal : normalizeIdenticalReplacements prepared decision = .ok normalized) : normalized.Applies ↔ decision.Applies := by
  unfold normalizeIdenticalReplacements at normal
  dsimp only at normal
  split at normal
  · cases normal
    exact Iff.rfl
  · have rounds := forall₂_of_mapM (modelValidate_spec normal)
    rw [List.forall₂_map_left_iff] at rounds
    constructor
    · intro all point member
      obtain ⟨result, inside, read⟩ := exists_of_forall₂ rounds point member
      exact (normalizedPoint_applies (decision.valid member) read).mp (all result inside)
    · intro all result inside
      obtain ⟨point, member, read⟩ := exists_of_forall₂ rounds.flip result inside
      exact (normalizedPoint_applies (decision.valid member) read).mpr (all point member)

/-! ### Producer and consumer -/

/-- The consumer accepts the points, and yields the automatic ones and what the decision says, by candidate. -/
def Agrees (prepared : SeparatedPreparedAssimilation) (decision : AssimilationDecision) (points : List PlanPoint) : Prop :=
  ∃ yielded carried, validateApplyPoints prepared points = .ok yielded ∧
    List.Forall₂ (Carries prepared) decision.points carried ∧
    yielded = byCandidate prepared (prepared.automaticPoints ++ carried)

theorem mem_byCandidate {points : List PlanPoint} {point : PlanPoint} : point ∈ byCandidate prepared points ↔ point ∈ points :=
  (List.perm_insertionSort _ points).mem_iff

theorem uses_plan {planned : List PlanPoint} (eligible : ∀ entry ∈ planned, entry.candidateId ∈ prepared.eligibleCandidateIds) :
    (((byCandidate prepared (prepared.automaticPoints ++ planned)).filter fun point =>
      point.candidateId ∈ prepared.eligibleCandidateIds).flatMap fun point =>
        point.matchedTruthIds.map fun target => (target, point.disposition)).Perm
      (planned.flatMap fun entry => entry.matchedTruthIds.map fun target => (target, entry.disposition)) := by
  have none_left : (prepared.automaticPoints.filter fun point => point.candidateId ∈ prepared.eligibleCandidateIds) = [] := by
    refine List.filter_eq_nil_iff.mpr fun point member inside => ?_
    exact (prepared.automatic point member).2.1 (of_decide_eq_true inside)
  have all : (planned.filter fun point => point.candidateId ∈ prepared.eligibleCandidateIds) = planned :=
    List.filter_eq_self.mpr fun entry member => decide_eq_true (eligible entry member)
  have sorted := (List.perm_insertionSort (fun first second : PlanPoint =>
    prepared.candidateIds.idxOf first.candidateId ≤ prepared.candidateIds.idxOf second.candidateId)
    (prepared.automaticPoints ++ planned)).filter fun point => point.candidateId ∈ prepared.eligibleCandidateIds
  rw [List.filter_append, none_left, all, List.nil_append] at sorted
  exact sorted.flatMap_right _

theorem byCandidate_map {points : List PlanPoint} {change : PlanPoint → PlanPoint}
    (same : ∀ point ∈ points, (change point).candidateId = point.candidateId) :
    (byCandidate prepared points).map change = byCandidate prepared (points.map change) := by
  refine List.map_insertionSort _ _ _ _ fun first one second two => ?_
  rw [same first one, same second two]

theorem accepted_plan_applies_iff {specificity : SeparatedPreparedAssimilation → String → List String → Except String Unit}
    {decision : AssimilationDecision} {plan : AssimilationPlan}
    (accepted : validateSeparatedAssimilationDecision specificity prepared decision = .ok plan) :
    (∃ normalized, normalizeIdenticalReplacements prepared decision = .ok normalized ∧ Agrees prepared normalized plan.points) ↔
      decision.Applies := by
  obtain ⟨normalized, planned, normal, eligible, entries, unused, shape⟩ := accepted_spec accepted
  rw [← normalized_applies normal]
  constructor
  · rintro ⟨other, again, yielded, carried, ran, -, -⟩ point member
    obtain ⟨read, reads, -⟩ := bind_eq_ok.mp ran
    obtain ⟨entry, inside, report, first⟩ := exists_of_forall₂ entries point member
    have own : entry ∈ plan.points := by
      rw [shape]
      exact mem_byCandidate.mpr (List.mem_append_right _ inside)
    obtain ⟨result, -, single⟩ := exists_of_forall₂ (forall₂_of_mapM reads) entry own
    rw [applyPoint_eligible (first.fields.1 ▸ eligible point member)] at single
    exact applies_of_applyEligible first single
  · intro applies
    -- every planned entry is read, and what is read carries its point
    have each : List.Forall₂ (fun point entry => applyPoint prepared entry = .ok (applied prepared entry) ∧
        Carries prepared point (applied prepared entry) ∧ entry.candidateId = point.candidateId) normalized.points planned := by
      have facts : ∀ point ∈ normalized.points, point.candidateId ∈ prepared.eligibleCandidateIds ∧ point.Valid ∧ point.Applies :=
        fun point member => ⟨eligible point member, normalized.valid member, applies point member⟩
      refine ((List.forall₂_and_left _ _).mpr ⟨facts, entries⟩).imp fun point entry ⟨⟨own, valid, needs⟩, report, first⟩ => ?_
      obtain ⟨result, ran, carries⟩ := applyEligible_of_applies valid first needs
      have single : applyPoint prepared entry = .ok result := (applyPoint_eligible (first.fields.1 ▸ own)).trans ran
      have same : applied prepared entry = result := by
        unfold applied
        rw [single]
        rfl
      rw [same]
      exact ⟨single, carries, first.fields.1⟩
    have stays : ∀ point ∈ prepared.automaticPoints, applied prepared point = point := by
      intro point member
      unfold applied
      rw [applyPoint_automatic member]
      rfl
    have reads : ∀ point ∈ plan.points, applyPoint prepared point = .ok (applied prepared point) ∧
        (applied prepared point).candidateId = point.candidateId := by
      intro point member
      rw [shape] at member
      rcases List.mem_append.mp (mem_byCandidate.mp member) with automatic | inside
      · rw [stays point automatic]
        exact ⟨applyPoint_automatic automatic, rfl⟩
      · obtain ⟨own, -, read, carries, same⟩ := exists_of_forall₂ each.flip point inside
        exact ⟨read, carries.candidate.trans same.symm⟩
    have eligibleEntries : ∀ entry ∈ planned, entry.candidateId ∈ prepared.eligibleCandidateIds := by
      intro entry inside
      obtain ⟨point, member, -, -, same⟩ := exists_of_forall₂ each.flip entry inside
      exact same ▸ eligible point member
    have ran : validateApplyPoints prepared plan.points = .ok (plan.points.map (applied prepared)) := by
      unfold validateApplyPoints
      rw [mapM_ok fun point member => (reads point member).1, ok_bind, shape, (rejectReused_perm (uses_plan eligibleEntries)).mpr unused]
      rfl
    have automatic : prepared.automaticPoints.map (applied prepared) = prepared.automaticPoints :=
      (List.map_congr_left stays).trans (List.map_id _)
    refine ⟨normalized, normal, _, planned.map (applied prepared), ran, ?_, ?_⟩
    · exact List.forall₂_map_right_iff.mpr (each.imp fun _ _ carries => carries.2.1)
    · rw [shape] at reads ⊢
      rw [byCandidate_map fun point member => (reads point (mem_byCandidate.mpr member)).2, List.map_append, automatic]

def reviewing : SeparatedPreparedAssimilation where
  candidateIds := ["c1", "c2"]
  eligibleCandidateIds := ["c2"]
  automaticPoints := [automaticPoint "c1" .stale none none]
  answerStatusByCandidate candidateId := if candidateId = "c1" then some .stale else some .answered
  truthByHandle := [("T1", "k1")]
  verifiedCandidates := [⟨"c2", "logs stay", none⟩]
  currentTruth := [⟨"T1", "Logs", "old text", ["core"], none⟩]
  eligible := by decide
  automatic := by decide
  decided := by decide
  distinct := by decide

def refining : AssimilationPoint where
  candidateId := "c2"
  disposition := .refine
  matchedTruthHandles := ["T1"]
  knowledgeItems := [⟨"Logs", "logs stay", ["core"], .procedure⟩]
  reason := "restated"

def refined : PlanPoint where
  candidateId := "c2"
  answerStatus := .answered
  disposition := .refine
  matchedTruthIds := ["k1"]
  matchedTruthKinds := ["knowledge_entry"]
  knowledgeItems := [⟨"Logs", "logs stay", ["core"], .procedure⟩]
  reason := "restated"

theorem decided_by (point : AssimilationPoint) (valid : point.validate = .ok point) :
    ∀ other ∈ [point], ∃ raw : AssimilationPoint, raw.validate = .ok other := by
  intro other member
  cases List.mem_singleton.mp member
  exact ⟨point, valid⟩

theorem accepted_plan_applies_refinement : ∃ normalized,
    normalizeIdenticalReplacements reviewing ⟨[refining], decided_by refining (by decide +kernel)⟩ = .ok normalized ∧
      Agrees reviewing normalized [automaticPoint "c1" .stale none none, refined] := by
  have accepted : validateSeparatedAssimilationDecision (fun _ _ _ => .ok ()) reviewing
      ⟨[refining], decided_by refining (by decide +kernel)⟩ =
        .ok ⟨["c1", "c2"], [automaticPoint "c1" .stale none none, refined], ["c2"]⟩ := by decide +kernel
  refine (accepted_plan_applies_iff accepted).mpr fun point member => ?_
  cases List.mem_singleton.mp member
  exact ⟨by decide +kernel, nofun⟩

def unexplained : AssimilationPoint where
  candidateId := "c2"
  disposition := .noWrite
  reason := "        "

theorem accepted_plan_fails : ¬ ∀ (specificity : SeparatedPreparedAssimilation → String → List String → Except String Unit)
    (prepared : SeparatedPreparedAssimilation) (decision : AssimilationDecision) (plan : AssimilationPlan),
    validateSeparatedAssimilationDecision specificity prepared decision = .ok plan →
      ∃ normalized, normalizeIdenticalReplacements prepared decision = .ok normalized ∧ Agrees prepared normalized plan.points := by
  intro all
  have accepted : validateSeparatedAssimilationDecision (fun _ _ _ => .ok ()) reviewing
      ⟨[unexplained], decided_by unexplained (by decide +kernel)⟩ =
        .ok ⟨["c1", "c2"], [automaticPoint "c1" .stale none none, ⟨"c2", .answered, .noWrite, [], [], none, none, [], [], "        "⟩],
          ["c2"]⟩ := by decide +kernel
  obtain ⟨normalized, -, yielded, carried, ran, -⟩ := all _ _ _ _ accepted
  have refused : validateApplyPoints reviewing [automaticPoint "c1" .stale none none,
      ⟨"c2", .answered, .noWrite, [], [], none, none, [], [], "        "⟩] =
        .error "assimilation reason must contain 8 to 1000 characters" := by decide +kernel
  rw [refused] at ran
  cases ran

end HarnessMem.Assimilation
