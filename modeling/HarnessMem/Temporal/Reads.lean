import HarnessMem.Library.Calendar
import HarnessMem.Temporal.Store
import HarnessMem.Verbatim.Scope

/-! The temporal reads of structured truth against the instants of its times. The index compares
clock readings, and the listing tests the tier of a payload only behind the limit.
-/

set_option autoImplicit false

namespace HarnessMem.Temporal

open Library
open Structured (ListFilter Tier UtcTime matchesFilter normalizeStatusOnLoad tierVisible)
open Verbatim (TimeWindow all_normalizeDatetime clockBefore given juliandayLe normalizeTimeWindow notLater timestampInWindow)

/-! ### Saved records and their rows -/

section

variable {ρ σ : Type} {id : ρ → String} {rowId : σ → String} {row : ρ → σ}

def Collection.Agrees (row : ρ → σ) (collection : Collection id rowId) : Prop :=
  collection.index.rows = collection.blobs.rows.map row

theorem Collection.Agrees.save (same : ∀ record, rowId (row record) = id record) {collection : Collection id rowId}
    (agrees : collection.Agrees row) (record : ρ) : (collection.save row record).Agrees row := by
  have rows : collection.index.get? (id record) = (collection.blobs.get? (id record)).map row := by
    unfold Table.get?
    have named : (fun other => decide (rowId other = id record)) ∘ row = fun other => decide (id other = id record) := by
      funext other
      rw [Function.comp_apply, same]
    rw [agrees, List.find?_map, named]
  rw [← same] at rows
  unfold Collection.Agrees Collection.save
  cases found : collection.blobs.get? (id record) with
  | none =>
    have fresh : collection.index.get? (rowId (row record)) = none := by rw [rows, same, found, Option.map_none]
    rw [Table.rows_upsert_fresh found, Table.rows_upsert_fresh fresh, agrees, List.map_append]
    rfl
  | some old =>
    have known : collection.index.get? (rowId (row record)) = some (row old) := by rw [rows, same, found, Option.map_some]
    rw [Table.rows_upsert_known found, Table.rows_upsert_known known, agrees, List.map_map, List.map_map]
    apply List.map_congr_left
    intro other _
    rw [Function.comp_apply, Function.comp_apply, same, same]
    split <;> rfl

theorem Collection.saved_agrees (same : ∀ record, rowId (row record) = id record) (records : List ρ) :
    (Collection.saved row records : Collection id rowId).Agrees row := by
  have folded : ∀ (records : List ρ) (collection : Collection id rowId), collection.Agrees row →
      (records.foldl (Collection.save row) collection).Agrees row := by
    intro records
    induction records with
    | nil => exact fun _ agrees => agrees
    | cons record records ih => exact fun collection agrees => ih (collection.save row record) (agrees.save same record)
  exact folded records _ rfl

end

/-! ### Clock readings -/

/-- A record without successors whose end the clock has not reached, by the reading of its own clock. -/
def OpenByClock (now : UtcTime) (times : Validity) : Prop :=
  times.supersededBy = [] ∧ ∀ time ∈ times.validTo, clockBefore now.1 time.1

theorem currentOnlyClause_columns (now : UtcTime) (times : Validity) :
    currentOnlyClause now times.columns = true ↔ OpenByClock now times := by
  have later : ∀ time : DateTime, now.1.isoformat < time.isoformat ↔ clockBefore now.1 time := fun _ => DateTime.isoformat_lt_iff
  unfold currentOnlyClause OpenByClock Validity.columns
  cases times.validTo with
  | none => simp
  | some time => simp [later, and_comm]

def EndTold (now : UtcTime) (times : Validity) : Prop := ∀ time ∈ times.validTo, clockBefore now.1 time.1

theorem currentOnly_iff {now : UtcTime} {times : Validity} (current : isCurrentData now times = true) :
    currentOnlyClause now times.columns = true ↔ EndTold now times := by
  rw [currentOnlyClause_columns]
  unfold isCurrentData at current
  rw [Bool.and_eq_true] at current
  exact ⟨fun opened => opened.2, fun told => ⟨List.isEmpty_iff.mp current.1, told⟩⟩

theorem newestText_le_iff (first second : MemoryEntry) :
    newestText first.row ≤ newestText second.row ↔ ¬ clockBefore first.times.createdAt.1 second.times.createdAt.1 := by
  unfold newestText
  rw [OrderDual.toDual_le_toDual, ← not_lt]
  exact not_congr DateTime.isoformat_lt_iff

theorem newestText_lt_iff (first second : MemoryEntry) :
    newestText first.row < newestText second.row ↔ clockBefore second.times.createdAt.1 first.times.createdAt.1 := by
  unfold newestText
  rw [OrderDual.toDual_lt_toDual]
  exact DateTime.isoformat_lt_iff

/-! ### The listing -/

section

variable (projectName : String) (read : ListRead) (now : UtcTime)

def eligible (entry : MemoryEntry) : Bool :=
  entry.projectName = projectName && !entry.compacted && read.filter.statuses.contains entry.status &&
    matchesFilter read.category entry.category

def listed (entry : MemoryEntry) : Bool :=
  eligible projectName read entry && tierVisible read.deepRecall entry.tier &&
    (read.filter.includeHistory || isCurrentData now entry.times)

/-- The clock readings tell which entries to list and which is newer, and no other eligible entry that its clock
shows open has a later reading of its creation. -/
structure ListedByClock (entries : List MemoryEntry) : Prop where
  ends : ∀ entry ∈ entries, listed projectName read now entry = true → read.filter.includeHistory = false →
    EndTold now entry.times
  ahead : ∀ entry ∈ entries, listed projectName read now entry = true →
    ∀ other ∈ entries, eligible projectName read other = true →
      (read.filter.includeHistory = true ∨ OpenByClock now other.times) → listed projectName read now other = false →
        clockBefore other.times.createdAt.1 entry.times.createdAt.1
  newer : ∀ entry ∈ entries, listed projectName read now entry = true →
    ∀ other ∈ entries, listed projectName read now other = true →
      ¬ clockBefore entry.times.createdAt.1 other.times.createdAt.1 →
        other.times.createdAt.1.instant ≤ entry.times.createdAt.1.instant

def age (entry : MemoryEntry) : Int := - entry.times.createdAt.1.instant

/-- The listing is the newest of the entries to list, in whatever order the index has rows of one creation text. -/
def ListsNewest (store : MemoryEntries) : Prop :=
  ∀ answer, Ordered newestText (store.index.rows.filter (listWhere projectName read now)) answer → ∀ limit,
    ∃ newest, Nearest age (store.blobs.rows.filter (listed projectName read now)) limit newest ∧
      listMemoryEntries store read now limit answer = newest.map MemoryEntry.onLoad

theorem listWhere_row (entry : MemoryEntry) :
    listWhere projectName read now entry.row = true ↔
      eligible projectName read entry = true ∧ (read.filter.includeHistory = true ∨ OpenByClock now entry.times) := by
  have clause := currentOnlyClause_columns now entry.times
  unfold listWhere eligible
  simp only [MemoryEntry.row, Bool.and_eq_true, Bool.or_eq_true, clause]
  tauto

theorem listCheck_eq_listed {entry : MemoryEntry} (fits : eligible projectName read entry = true) :
    listCheck read now entry = listed projectName read now entry := by
  have parts := fits
  unfold eligible at parts
  simp only [Bool.and_eq_true] at parts
  unfold listCheck listed
  rw [fits, parts.1.1.2, parts.1.2]
  simp [Bool.and_comm]

variable {store : MemoryEntries}

theorem payload_of_row (entries : List MemoryEntry) (inside : ∀ entry ∈ entries, entry ∈ store.blobs.rows) (limit : Nat) :
    listMemoryEntries store read now limit (entries.map MemoryEntry.row) =
      ((entries.take limit).filter (listCheck read now)).map MemoryEntry.onLoad := by
  unfold listMemoryEntries
  rw [← List.map_take]
  have held : ∀ entry ∈ entries.take limit, entry ∈ store.blobs.rows := fun entry member => inside entry (List.mem_of_mem_take member)
  generalize entries.take limit = taken at held ⊢
  induction taken with
  | nil => rfl
  | cons entry rest ih =>
    obtain ⟨first, later⟩ := List.forall_mem_cons.mp held
    have found : store.blobs.get? entry.row.id = some entry := Table.get?_of_mem first
    rw [List.map_cons, List.filterMap_cons, found, Option.bind_some, List.filter_cons]
    cases passes : listCheck read now entry with
    | true => rw [if_pos rfl, if_pos rfl, List.map_cons, ih later]
    | false => rw [if_neg Bool.false_ne_true, if_neg Bool.false_ne_true, ih later]

theorem ordered_rows_iff (entries : List MemoryEntry) (answer : List EntryRow) :
    Ordered newestText (entries.map MemoryEntry.row) answer ↔
      ∃ order, answer = order.map MemoryEntry.row ∧ Ordered (fun entry => newestText entry.row) entries order := by
  constructor
  · rintro ⟨perm, sorted⟩
    obtain ⟨order, placed, rfl⟩ := exists_of_perm_map perm
    rw [List.pairwise_map] at sorted
    exact ⟨order, rfl, placed, sorted⟩
  · rintro ⟨order, rfl, perm, sorted⟩
    exact ⟨perm.map _, List.pairwise_map.mpr sorted⟩

theorem eq_of_onLoad {first second : List MemoryEntry} (left : ∀ entry ∈ first, entry ∈ store.blobs.rows)
    (right : ∀ entry ∈ second, entry ∈ store.blobs.rows) (same : first.map MemoryEntry.onLoad = second.map MemoryEntry.onLoad) :
    first = second := by
  have found : ∀ entries : List MemoryEntry, (∀ entry ∈ entries, entry ∈ store.blobs.rows) →
      (entries.map MemoryEntry.onLoad).filterMap (fun entry => store.blobs.get? entry.id) = entries := by
    intro entries inside
    induction entries with
    | nil => rfl
    | cons entry rest ih =>
      obtain ⟨held, later⟩ := List.forall_mem_cons.mp inside
      have loaded : store.blobs.get? entry.onLoad.id = some entry := Table.get?_of_mem held
      rw [List.map_cons, List.filterMap_cons, loaded, ih later]
  rw [← found first left, same, found second right]

/-- The listing is the newest of the entries to list exactly where the clocks tell them. -/
theorem listsNewest_iff (agrees : store.Agrees MemoryEntry.row) :
    ListsNewest projectName read now store ↔ ListedByClock projectName read now store.blobs.rows := by
  have distinct : store.blobs.rows.Nodup := List.Nodup.of_map _ store.blobs.nodup
  have checks : ∀ entry ∈ store.blobs.rows, listWhere projectName read now entry.row = true →
      listCheck read now entry = listed projectName read now entry := fun entry _ selected =>
    listCheck_eq_listed projectName read now ((listWhere_row projectName read now entry).mp selected).1
  have limited := @limited_iff _ _ _ _ _ (fun entry : MemoryEntry => newestText entry.row) age store.blobs.rows
    (fun entry => listWhere projectName read now entry.row) (listed projectName read now) (listCheck read now) distinct checks
  have rows : store.index.rows.filter (listWhere projectName read now) =
      (store.blobs.rows.filter fun entry => listWhere projectName read now entry.row).map MemoryEntry.row := by
    rw [agrees, List.filter_map]
    rfl
  have loads : ∀ order : List MemoryEntry, Ordered (fun entry => newestText entry.row)
      (store.blobs.rows.filter fun entry => listWhere projectName read now entry.row) order → ∀ limit,
        listMemoryEntries store read now limit (order.map MemoryEntry.row) =
          ((order.take limit).filter (listCheck read now)).map MemoryEntry.onLoad := fun order ordered limit =>
    payload_of_row read now order (fun entry member => (List.mem_filter.mp (ordered.perm.subset member)).1) limit
  have bridged : ListsNewest projectName read now store ↔
      ∀ order, Ordered (fun entry : MemoryEntry => newestText entry.row)
        (store.blobs.rows.filter fun entry => listWhere projectName read now entry.row) order → ∀ limit,
          Nearest age (store.blobs.rows.filter (listed projectName read now)) limit
            ((order.take limit).filter (listCheck read now)) := by
    unfold ListsNewest
    rw [rows]
    constructor
    · intro lists order ordered limit
      obtain ⟨newest, nearest, same⟩ := lists _ ((ordered_rows_iff _ _).mpr ⟨order, rfl, ordered⟩) limit
      rw [loads order ordered limit] at same
      have chosen : (order.take limit).filter (listCheck read now) = newest := by
        refine @eq_of_onLoad store _ _ ?_ ?_ same
        · intro entry member
          have taken := List.mem_of_mem_take (List.mem_filter.mp member).1
          exact (List.mem_filter.mp (ordered.perm.subset taken)).1
        · exact fun entry member => (List.mem_filter.mp (nearest.subset member)).1
      rw [chosen]
      exact nearest
    · intro nearest answer ordered limit
      obtain ⟨order, rfl, sorted⟩ := (ordered_rows_iff _ _).mp ordered
      exact ⟨_, nearest order sorted limit, loads order sorted limit⟩
  rw [bridged, limited]
  simp only [newestText_lt_iff, newestText_le_iff, listWhere_row]
  constructor
  · rintro ⟨selected, ahead, newer⟩
    refine ⟨?_, ?_, ?_⟩
    · intro entry member seen current
      rcases (selected entry member seen).2 with history | opened
      · exact absurd (current.symm.trans history) Bool.false_ne_true
      · exact opened.2
    · intro entry member seen other held fits opened hidden
      exact ahead entry member seen other held ⟨fits, opened⟩ hidden
    · intro entry member seen other held shown later
      have older := newer entry member seen other held shown later
      unfold age at older
      omega
  · rintro ⟨ends, ahead, newer⟩
    refine ⟨?_, ?_, ?_⟩
    · intro entry member seen
      have parts := seen
      unfold listed at parts
      rw [Bool.and_eq_true, Bool.and_eq_true, Bool.or_eq_true] at parts
      refine ⟨parts.1.1, ?_⟩
      cases history : read.filter.includeHistory with
      | true => exact .inl rfl
      | false =>
        have current := parts.2.resolve_left (by rw [history]; exact Bool.false_ne_true)
        exact .inr ((currentOnlyClause_columns now entry.times).mp ((currentOnly_iff current).mpr (ends entry member seen history)))
    · intro entry member seen other held selected hidden
      exact ahead entry member seen other held selected.1 selected.2 hidden
    · intro entry member seen other held shown later
      have older := newer entry member seen other held shown later
      unfold age
      omega

end

/-! ### The searches -/

section

variable (julianday : List Char → Option Int) (arguments : SearchArguments) (now : UtcTime)

def laterDay (first second : DateTime) : Prop :=
  ∃ day ∈ julianday first.isoformat, ∃ last ∈ julianday second.isoformat, last < day

/-- SQLite takes the beginning for no later than the limit, and the end for later than it. -/
def SpanTold (limit : UtcTime) (times : Validity) : Prop :=
  notLater julianday times.validFrom.1 limit.1 ∧ ∀ time ∈ times.validTo, laterDay julianday time.1 limit.1

def WindowTold (timeWindow : Option TimeWindow) (times : Validity) : Prop :=
  ∀ window ∈ timeWindow, (∀ start ∈ window.1, ¬ clockBefore times.recordedAt.1 start.inUtc) ∧
    ∀ stop ∈ window.2, clockBefore times.recordedAt.1 stop.inUtc

/-- Clock readings, and for an `as_of` the date function of SQLite, tell of a record what the search asks. -/
structure TimesTold (times : Validity) : Prop where
  current : arguments.currentOnly = true → EndTold now times
  span : ∀ limit ∈ arguments.asOf, SpanTold julianday limit times
  window : WindowTold arguments.timeWindow times

theorem timeWindowClause_columns (timeWindow : Option TimeWindow) (times : Validity) :
    timeWindowClause timeWindow times.columns = true ↔ WindowTold timeWindow times := by
  have earlier : ∀ bound : DateTime, times.recordedAt.1.isoformat < bound.isoformat ↔ clockBefore times.recordedAt.1 bound :=
    fun _ => DateTime.isoformat_lt_iff
  unfold timeWindowClause WindowTold Validity.columns
  cases timeWindow with
  | none => simp
  | some window =>
    simp only [normalizeTimeWindow, Option.all_some, Bool.and_eq_true, all_normalizeDatetime, decide_eq_true_eq, earlier,
      Option.mem_some_iff, forall_eq']

theorem asOfClause_iff {limit : UtcTime} {times : Validity} {includeHistory : Bool}
    (kept : applyTemporalFilter includeHistory (some limit) now times = true) :
    asOfClause julianday limit times.columns = true ↔ SpanTold julianday limit times := by
  have begins : juliandayLe julianday times.validFrom.1.isoformat limit.1.isoformat = true ↔
      notLater julianday times.validFrom.1 limit.1 := by
    unfold juliandayLe notLater
    cases julianday times.validFrom.1.isoformat <;> cases julianday limit.1.isoformat <;> simp
  have ends : ∀ time : DateTime, juliandayGt julianday time.isoformat limit.1.isoformat = true ↔ laterDay julianday time limit.1 := by
    intro time
    unfold juliandayGt laterDay
    cases julianday time.isoformat <;> cases julianday limit.1.isoformat <;> simp
  have superseded : (!(!times.supersededBy.isEmpty && times.validTo.isNone)) = true := by
    unfold applyTemporalFilter at kept
    dsimp only at kept
    split at kept
    · cases kept
    · split at kept
      · cases kept
      · exact kept
  have shape : times.columns.validTo.isNone = times.validTo.isNone := Option.isNone_map
  unfold asOfClause SpanTold
  rw [Bool.and_eq_true, Bool.and_eq_true, shape, show times.columns.supersededBy = times.supersededBy from rfl, superseded]
  simp only [and_true, show times.columns.validFrom = times.validFrom.1.isoformat from rfl, begins]
  refine and_congr_right fun _ => ?_
  unfold Validity.columns
  cases times.validTo with
  | none => simp
  | some time => simp [ends]

theorem temporalWhere_iff {times : Validity} (passes : temporalCheck arguments now times = true) :
    temporalWhere julianday arguments now times.columns = true ↔ TimesTold julianday arguments now times := by
  unfold temporalCheck at passes
  rw [Bool.and_eq_true, Bool.and_eq_true] at passes
  obtain ⟨⟨currently, -⟩, kept⟩ := passes
  have first : (!arguments.currentOnly || currentOnlyClause now times.columns) = true ↔
      (arguments.currentOnly = true → EndTold now times) := by
    cases only : arguments.currentOnly with
    | false => simp
    | true =>
      rw [only] at currently
      have told := currentOnly_iff currently
      simpa using told
  have second : (arguments.asOf.all fun limit => asOfClause julianday limit times.columns) = true ↔
      ∀ limit ∈ arguments.asOf, SpanTold julianday limit times := by
    cases bound : arguments.asOf with
    | none => simp
    | some limit =>
      rw [bound] at kept
      have told := asOfClause_iff julianday now kept
      simpa using told
  unfold temporalWhere
  rw [Bool.and_eq_true, Bool.and_eq_true, first, second, timeWindowClause_columns]
  constructor
  · rintro ⟨⟨current, span⟩, window⟩
    exact ⟨current, span, window⟩
  · rintro ⟨current, span, window⟩
    exact ⟨⟨current, span⟩, window⟩

def asked (projectName : String) : Bool := (given arguments.projectName).all fun name => projectName = name

theorem searchMemoryEntriesWhere_iff {entry : MemoryEntry} (own : asked arguments entry.projectName = true)
    (passes : entryCheck arguments now entry = true) :
    searchMemoryEntriesWhere julianday arguments now entry.row = true ↔ TimesTold julianday arguments now entry.times := by
  unfold entryCheck at passes
  simp only [Bool.and_eq_true] at passes
  obtain ⟨⟨⟨⟨whole, status⟩, type⟩, -⟩, times⟩ := passes
  have told := temporalWhere_iff julianday arguments now times
  unfold searchMemoryEntriesWhere MemoryEntry.row
  unfold asked at own
  simp only [whole, status, type, own, Bool.true_and, Bool.and_true, told]

theorem searchRelationFactsWhere_iff {fact : RelationFact} (own : asked arguments fact.projectName = true)
    (passes : factCheck arguments now fact = true) :
    searchRelationFactsWhere julianday arguments now fact.row = true ↔ TimesTold julianday arguments now fact.times := by
  unfold factCheck at passes
  simp only [Bool.and_eq_true] at passes
  obtain ⟨status, times⟩ := passes
  have told := temporalWhere_iff julianday arguments now times
  unfold searchRelationFactsWhere RelationFact.row
  unfold asked at own
  simp only [status, own, Bool.true_and, Bool.and_true, told]

/-! ### All reads -/

/-- What the reads promise: the listing is exact, and a search hands the index a predicate that loses no record
which the tests of the payload let through. -/
structure ExactReads (entries : MemoryEntries) (facts : RelationFacts) (projectName : String) (read : ListRead) : Prop where
  listing : ListsNewest projectName read now entries
  entries : ∀ entry ∈ entries.blobs.rows, asked arguments entry.projectName = true → entryCheck arguments now entry = true →
    searchMemoryEntriesWhere julianday arguments now entry.row = true
  facts : ∀ fact ∈ facts.blobs.rows, asked arguments fact.projectName = true → factCheck arguments now fact = true →
    searchRelationFactsWhere julianday arguments now fact.row = true

/-- The clocks tell of all records what the reads ask. -/
structure ToldByClocks (entries : MemoryEntries) (facts : RelationFacts) (projectName : String) (read : ListRead) : Prop where
  listing : ListedByClock projectName read now entries.blobs.rows
  entries : ∀ entry ∈ entries.blobs.rows, asked arguments entry.projectName = true → entryCheck arguments now entry = true →
    TimesTold julianday arguments now entry.times
  facts : ∀ fact ∈ facts.blobs.rows, asked arguments fact.projectName = true → factCheck arguments now fact = true →
    TimesTold julianday arguments now fact.times

def savedEntries (entries : List MemoryEntry) : MemoryEntries := entries.foldl saveMemoryEntry .empty

def savedFacts (facts : List RelationFact) : RelationFacts := facts.foldl saveRelationFact .empty

/-- After any saves the reads are exact exactly where the clocks tell what they ask. -/
theorem exactReads_iff (entries : List MemoryEntry) (facts : List RelationFact) (projectName : String) (read : ListRead) :
    ExactReads julianday arguments now (savedEntries entries) (savedFacts facts) projectName read ↔
      ToldByClocks julianday arguments now (savedEntries entries) (savedFacts facts) projectName read := by
  have agrees : (savedEntries entries).Agrees MemoryEntry.row := Collection.saved_agrees (fun _ => rfl) entries
  have listing := listsNewest_iff projectName read now agrees
  constructor
  · rintro ⟨lists, found, known⟩
    exact ⟨listing.mp lists,
      fun entry member own passes => (searchMemoryEntriesWhere_iff julianday arguments now own passes).mp (found entry member own passes),
      fun fact member own passes => (searchRelationFactsWhere_iff julianday arguments now own passes).mp (known fact member own passes)⟩
  · rintro ⟨lists, found, known⟩
    exact ⟨listing.mpr lists,
      fun entry member own passes => (searchMemoryEntriesWhere_iff julianday arguments now own passes).mpr (found entry member own passes),
      fun fact member own passes => (searchRelationFactsWhere_iff julianday arguments now own passes).mpr (known fact member own passes)⟩

end

/-! ### An entry whose end is written in another zone -/

def noon : UtcTime := ⟨⟨2026, 1, 1, 12, 0, 0, 0, some 0, DateTime.newYear_date, by decide, DateTime.utc_zone⟩, rfl⟩

/-- Nine in the morning, five hours behind UTC: two hours after `noon`. -/
def afternoon : OffsetTime := ⟨⟨2026, 1, 1, 9, 0, 0, 0, some (-18000000000), DateTime.newYear_date, by decide, by decide⟩, rfl⟩

def midnight : OffsetTime := ⟨⟨2026, 1, 1, 0, 0, 0, 0, some 0, DateTime.newYear_date, DateTime.midnight_clock, DateTime.utc_zone⟩, rfl⟩

def closing : MemoryEntry :=
  ⟨"entry-1", "p", "decision", "user_confirmed", false, .hot, .semantic, ⟨midnight, midnight, some afternoon, midnight, []⟩⟩

def plainRead : ListRead := ⟨⟨"readable_truth", false, false⟩, none, false⟩

def plainSearch : SearchArguments := ⟨some "p", "readable_truth", [], false, false, none, false, none⟩

def millisecondDay (text : List Char) : Option Int := (DateTime.fromisoformat text).map fun time => time.instant / 1000

/-- The entry is current for two more hours, and the listing does not show it. -/
theorem closing_hidden : ¬ ExactReads millisecondDay plainSearch noon (savedEntries [closing]) (savedFacts []) "p" plainRead := by
  intro reads
  have none : (savedEntries [closing]).index.rows.filter (listWhere "p" plainRead noon) = [] := by decide +kernel
  have shown : ((savedEntries [closing]).blobs.rows.filter (listed "p" plainRead noon)).length = 1 := by decide +kernel
  obtain ⟨newest, nearest, same⟩ := reads.listing [] ⟨by rw [none], List.Pairwise.nil⟩ 1
  have length := nearest.length
  rw [shown] at length
  have empty : newest = [] := List.map_eq_nil_iff.mp same.symm
  rw [empty] at length
  cases length

end HarnessMem.Temporal
