import HarnessMem.Scanning.Scheduler

/-! The order in which a plan goes through the backlog: up the keys beyond the
cursor, and then from the least key up to the cursor.
-/

set_option autoImplicit false

namespace HarnessMem.Scanning

open Library

variable {host : HostPaths}

def TranscriptScanFrontier.cursor (frontier : TranscriptScanFrontier) : Option String :=
  frontier.cursorKey.filter fun key => key ≠ ""

def traversed (host : HostPaths) (frontier : TranscriptScanFrontier) (sessions : List SessionRecord) (total : Nat) :
    List (SessionRecord × Bool) :=
  (backlogOf host frontier sessions total).filter fun entry => sessionScanKey host entry.1 ∉ frontier.pending

def recentKeys (host : HostPaths) (sessions : List SessionRecord) (total : Nat) : List String :=
  (recentWindow sessions total).map (sessionScanKey host)

theorem totalBudget_again (sessions : List SessionRecord) (changeLimit : Option Int) :
    totalBudget sessions (some (totalBudget sessions changeLimit)) = totalBudget sessions changeLimit := by
  have positive : 1 ≤ totalBudget sessions changeLimit := by
    cases changeLimit <;> simp [totalBudget]
  simp only [totalBudget, Int.toNat_natCast] at positive ⊢
  omega

theorem sessionScanKey_ne_empty (session : SessionRecord) : sessionScanKey host session ≠ "" := by
  intro empty
  have length := congrArg String.length empty
  simp [sessionScanKey] at length

theorem inKeyOrder_perm (sessions : List SessionRecord) : (inKeyOrder host sessions).Perm sessions :=
  List.perm_insertionSort _ _

theorem inKeyOrder_sorted (sessions : List SessionRecord) :
    (inKeyOrder host sessions).Pairwise fun first second => sessionScanKey host first ≤ sessionScanKey host second :=
  List.pairwise_insertionSort _ _

/-- What a traversal is made of: the sessions in key order, cut behind the cursor. -/
structure Parts (host : HostPaths) (frontier : TranscriptScanFrontier) (sessions wrapped beyond : List SessionRecord) :
    Prop where
  cut : wrapped ++ beyond = inKeyOrder host sessions
  traversal : traversal host frontier sessions = beyond.map (·, false) ++ wrapped.map (·, true)
  fresh : frontier.cursor = none → wrapped = []
  placed : ∀ c, frontier.cursor = some c → beyond = [] ∨ c ∈ wrapped.map (sessionScanKey host)
  reached : ∀ c, frontier.cursor = some c → c ∈ sessions.map (sessionScanKey host) →
    ∀ session ∈ wrapped, sessionScanKey host session ≤ c

theorem le_of_mem_take {sessions : List SessionRecord} {c : String} {index : Nat}
    (sorted : sessions.Pairwise fun first second => sessionScanKey host first ≤ sessionScanKey host second)
    (found : (sessions.map (sessionScanKey host)).findIdx? (· = c) = some index) :
    (c ∈ (sessions.take (index + 1)).map (sessionScanKey host)) ∧
      ∀ session ∈ sessions.take (index + 1), sessionScanKey host session ≤ c := by
  obtain ⟨bound, same, _⟩ := List.findIdx?_eq_some_iff_getElem.mp found
  simp only [List.length_map, List.getElem_map, decide_eq_true_eq] at bound same
  have last : sessions.take (index + 1) = sessions.take index ++ [sessions[index]] := by
    rw [List.take_append_getElem]
  rw [last]
  constructor
  · rw [← same]
    exact List.mem_map_of_mem (List.mem_append_right _ List.mem_cons_self)
  · intro session member
    rcases List.mem_append.mp member with earlier | here
    · have whole : sessions = sessions.take index ++ sessions[index] :: sessions.drop (index + 1) := by
        rw [List.getElem_cons_drop, List.take_append_drop]
      rw [whole] at sorted
      rw [← same]
      exact (List.pairwise_append.mp sorted).2.2 session earlier _ List.mem_cons_self
    · rw [List.mem_singleton.mp here, same]

theorem traversal_parts (frontier : TranscriptScanFrontier) (sessions : List SessionRecord) :
    ∃ wrapped beyond, Parts host frontier sessions wrapped beyond := by
  cases stands : frontier.cursor with
  | none =>
    refine ⟨[], inKeyOrder host sessions, by simp, ?_, fun _ => rfl, ?_, ?_⟩
    · unfold traversal
      unfold TranscriptScanFrontier.cursor at stands
      cases key : frontier.cursorKey with
      | none => simp
      | some cursor =>
        have empty : cursor = "" := by simpa [key, Option.filter_some] using stands
        simp [empty]
    · intro c other
      rw [stands] at other
      cases other
    · intro c other
      rw [stands] at other
      cases other
  | some c =>
    have cursor : frontier.cursorKey = some c ∧ c ≠ "" := by
      unfold TranscriptScanFrontier.cursor at stands
      obtain ⟨known, filled⟩ := Option.filter_eq_some_iff.mp stands
      exact ⟨known, by simpa using filled⟩
    have only : ∀ d, some c = some d → d = c := fun d same => (Option.some.inj same).symm
    cases found : ((inKeyOrder host sessions).map (sessionScanKey host)).findIdx? (· = c) with
    | none =>
      -- the session of the cursor is gone: everything counts as wrapped
      refine ⟨inKeyOrder host sessions, [], by simp, ?_, ?_, fun _ _ => .inl rfl, ?_⟩
      · simp [traversal, cursor.1, cursor.2, found]
      · rw [stands]
        nofun
      · intro d same present
        rw [stands] at same
        rw [only d same] at present
        have absent := List.findIdx?_eq_none_iff.mp found
        obtain ⟨session, member, here⟩ := List.mem_map.mp present
        have listed : c ∈ (inKeyOrder host sessions).map (sessionScanKey host) :=
          List.mem_map.mpr ⟨session, (inKeyOrder_perm sessions).mem_iff.mpr member, here⟩
        simpa using absent c listed
    | some index =>
      obtain ⟨inside, below⟩ := le_of_mem_take (inKeyOrder_sorted sessions) found
      by_cases ended : (inKeyOrder host sessions).length ≤ index + 1
      · have whole : (inKeyOrder host sessions).take (index + 1) = inKeyOrder host sessions :=
          List.take_of_length_le ended
        refine ⟨inKeyOrder host sessions, [], by simp, ?_, ?_, fun _ _ => .inl rfl, ?_⟩
        · simp [traversal, cursor.1, cursor.2, found, ended]
        · rw [stands]
          nofun
        · intro d same _
          rw [stands] at same
          rw [only d same, ← whole]
          exact below
      · refine ⟨(inKeyOrder host sessions).take (index + 1), (inKeyOrder host sessions).drop (index + 1),
          List.take_append_drop _ _, ?_, ?_, ?_, ?_⟩
        · simp only [traversal, cursor.1, cursor.2, found, ended, if_false]
        · rw [stands]
          nofun
        · intro d same
          rw [stands] at same
          rw [only d same]
          exact .inr inside
        · intro d same _
          rw [stands] at same
          rw [only d same]
          exact below

theorem mem_backlogOf {frontier : TranscriptScanFrontier} {sessions : List SessionRecord} {total : Nat} {key : String} :
    key ∈ (backlogOf host frontier sessions total).map (fun entry => sessionScanKey host entry.1) ↔
      key ∈ sessions.map (sessionScanKey host) ∧ key ∉ recentKeys host sessions total := by
  have whole : ∀ session, session ∈ (traversal host frontier sessions).map (·.1) ↔ session ∈ sessions := by
    intro session
    obtain ⟨wrapped, beyond, parts⟩ := @traversal_parts host frontier sessions
    rw [← (inKeyOrder_perm sessions).mem_iff, ← parts.cut, parts.traversal]
    simp [or_comm]
  unfold backlogOf
  constructor
  · intro listed
    obtain ⟨entry, member, rfl⟩ := List.mem_map.mp listed
    obtain ⟨present, away⟩ := List.mem_filter.mp member
    refine ⟨List.mem_map_of_mem ((whole entry.1).mp (List.mem_map_of_mem present)), ?_⟩
    simpa [recentKeys] using away
  · rintro ⟨listed, away⟩
    obtain ⟨session, member, rfl⟩ := List.mem_map.mp listed
    obtain ⟨entry, present, rfl⟩ := List.mem_map.mp ((whole session).mpr member)
    refine List.mem_map.mpr ⟨entry, List.mem_filter.mpr ⟨present, ?_⟩, rfl⟩
    simpa [recentKeys] using away

theorem mem_traversed {frontier : TranscriptScanFrontier} {sessions : List SessionRecord} {total : Nat} {key : String} :
    key ∈ (traversed host frontier sessions total).map (fun entry => sessionScanKey host entry.1) ↔
      key ∈ sessions.map (sessionScanKey host) ∧ key ∉ recentKeys host sessions total ∧ key ∉ frontier.pending := by
  rw [← and_assoc, ← @mem_backlogOf host frontier]
  unfold traversed
  simp only [List.mem_map, List.mem_filter, decide_not, Bool.not_eq_true', decide_eq_false_iff_not]
  constructor
  · rintro ⟨entry, ⟨member, free⟩, rfl⟩
    exact ⟨⟨entry, member, rfl⟩, free⟩
  · rintro ⟨⟨entry, member, rfl⟩, free⟩
    exact ⟨entry, ⟨member, free⟩, rfl⟩

theorem alternate_filter {α : Type} (keep : α → Bool) {first second : List α} (dropped : ∀ x ∈ first, keep x = false)
    (kept : ∀ x ∈ second, keep x = true) :
    (alternate first second).filter keep = second ∧ (alternate second first).filter keep = second := by
  induction first generalizing second with
  | nil =>
    have all : second.filter keep = second := List.filter_eq_self.mpr kept
    refine ⟨by simpa [alternate] using all, ?_⟩
    cases second with
    | nil => rfl
    | cons => simpa [alternate] using all
  | cons x rest ih =>
    have gone : keep x = false := dropped x List.mem_cons_self
    have others : ∀ y ∈ rest, keep y = false := fun y member => dropped y (List.mem_cons_of_mem _ member)
    cases second with
    | nil =>
      have none : rest.filter keep = [] := List.filter_eq_nil_iff.mpr fun y member => by simp [others y member]
      simp [alternate, gone, none]
    | cons y more =>
      have stays : keep y = true := kept y List.mem_cons_self
      obtain ⟨left, right⟩ := ih others fun z member => kept z (List.mem_cons_of_mem _ member)
      simp [alternate, gone, stays, left, right]

theorem mem_alternate {α : Type} {first second : List α} {x : α} :
    x ∈ alternate first second ↔ x ∈ first ∨ x ∈ second := by
  induction first generalizing second with
  | nil => simp [alternate]
  | cons y rest ih =>
    cases second with
    | nil => simp [alternate]
    | cons z more =>
      simp only [alternate, List.mem_cons, ih]
      tauto

/-- The lanes of a plan: entries of the recent lane, and the traversed sessions in order as the backlog. -/
structure LaneEntries (host : HostPaths) (frontier : TranscriptScanFrontier) (sessions : List SessionRecord)
    (total : Nat) (lanes : List (SessionRecord × Lane)) : Prop where
  recent : ∀ session, (session, Lane.recent) ∈ lanes → sessionScanKey host session ∈ recentKeys host sessions total
  free : ∀ entry ∈ lanes, sessionScanKey host entry.1 ∉ frontier.pending
  backlog : (lanes.filter fun entry => entry.2 = .backlog).map (·.1) <+: (traversed host frontier sessions total).map (·.1)

/-- The lanes of a plan, whichever comes first and however many are probed. -/
theorem laneEntries_alternate (frontier : TranscriptScanFrontier) (sessions : List SessionRecord) (total budget : Nat)
    (primary : Lane) :
    LaneEntries host frontier sessions total
      ((match primary with
        | .recent => alternate
            (((recentWindow sessions total).filter fun session =>
              !decide (sessionScanKey host session ∈ frontier.pending)).map (·, Lane.recent))
            ((((backlogOf host frontier sessions total).map (·.1)).filter fun session =>
              !decide (sessionScanKey host session ∈ frontier.pending)).map (·, Lane.backlog))
        | .backlog => alternate
            ((((backlogOf host frontier sessions total).map (·.1)).filter fun session =>
              !decide (sessionScanKey host session ∈ frontier.pending)).map (·, Lane.backlog))
            (((recentWindow sessions total).filter fun session =>
              !decide (sessionScanKey host session ∈ frontier.pending)).map (·, Lane.recent)) :
          List (SessionRecord × Lane)).take budget) := by
  have behind : ((backlogOf host frontier sessions total).map (·.1)).filter (fun session =>
      !decide (sessionScanKey host session ∈ frontier.pending)) = (traversed host frontier sessions total).map (·.1) := by
    unfold traversed
    rw [List.filter_map]
    congr 1
    apply List.filter_congr
    intro entry _
    simp
  rw [behind]
  generalize window : (recentWindow sessions total).filter (fun session =>
    !decide (sessionScanKey host session ∈ frontier.pending)) = recent
  have members : ∀ session ∈ recent,
      sessionScanKey host session ∈ recentKeys host sessions total ∧ sessionScanKey host session ∉ frontier.pending := by
    intro session member
    rw [← window] at member
    obtain ⟨listed, free⟩ := List.mem_filter.mp member
    exact ⟨List.mem_map_of_mem listed, by simpa using free⟩
  have away : ∀ session ∈ (traversed host frontier sessions total).map (·.1),
      sessionScanKey host session ∉ frontier.pending := by
    intro session member
    obtain ⟨entry, listed, rfl⟩ := List.mem_map.mp member
    exact (mem_traversed.mp (List.mem_map_of_mem listed)).2.2
  have whole : ∀ entries : List (SessionRecord × Lane),
      (∀ entry, entry ∈ entries ↔ entry ∈ recent.map (·, Lane.recent) ∨
        entry ∈ ((traversed host frontier sessions total).map (·.1)).map (·, Lane.backlog)) →
      entries.filter (fun entry => entry.2 = .backlog) =
        ((traversed host frontier sessions total).map (·.1)).map (·, Lane.backlog) →
      LaneEntries host frontier sessions total (entries.take budget) := by
    intro entries listed order
    constructor
    · intro session member
      rcases (listed _).mp (List.mem_of_mem_take member) with here | elsewhere
      · obtain ⟨other, known, same⟩ := List.mem_map.mp here
        obtain ⟨rfl, _⟩ := Prod.mk.inj same
        exact (members other known).1
      · obtain ⟨_, _, same⟩ := List.mem_map.mp elsewhere
        cases (Prod.mk.inj same).2
    · intro entry member
      rcases (listed _).mp (List.mem_of_mem_take member) with here | elsewhere
      · obtain ⟨other, known, rfl⟩ := List.mem_map.mp here
        exact (members other known).2
      · obtain ⟨other, known, rfl⟩ := List.mem_map.mp elsewhere
        exact away other known
    · have prefixed := ((List.take_prefix budget entries).filter fun entry => decide (entry.2 = Lane.backlog)).map Prod.fst
      rw [order] at prefixed
      simpa [Function.comp_def] using prefixed
  have split := @alternate_filter _ (fun entry : SessionRecord × Lane => decide (entry.2 = Lane.backlog))
    (recent.map (·, Lane.recent)) (((traversed host frontier sessions total).map Prod.fst).map (·, Lane.backlog))
    (by simp) (by simp)
  cases primary with
  | recent =>
    exact whole _ (fun _ => mem_alternate) split.1
  | backlog =>
    exact whole _ (fun _ => mem_alternate.trans or_comm) split.2

/-- The parts of a plan over an inventory that is not empty. -/
theorem planSessionScan_eq (frontier : TranscriptScanFrontier) {sessions : List SessionRecord}
    (changeLimit : Option Int) (now : Time) (present : sessions ≠ []) :
    ∃ lanes retries, LaneEntries host frontier sessions (totalBudget sessions changeLimit) lanes ∧
      (∀ session ∈ retries, sessionScanKey host session ∈ frontier.pending) ∧
      (planSessionScan host frontier sessions changeLimit now).sessions = retries ++ lanes.map (·.1) ∧
      (planSessionScan host frontier sessions changeLimit now).lanes =
        retries.map (fun session => (sessionScanKey host session, Lane.backlog)) ++
          lanes.map (fun entry => (sessionScanKey host entry.1, entry.2)) ∧
      (planSessionScan host frontier sessions changeLimit now).backlogWrap =
        (backlogOf host frontier sessions (totalBudget sessions changeLimit)).map
          (fun entry => (sessionScanKey host entry.1, entry.2)) ∧
      (planSessionScan host frontier sessions changeLimit now).frontier = frontier ∧
      (planSessionScan host frontier sessions changeLimit now).cycleAdvanced = false := by
  have due : ∀ session ∈ retrySessions host frontier sessions (totalBudget sessions changeLimit) now,
      sessionScanKey host session ∈ frontier.pending := by
    intro session member
    unfold retrySessions at member
    obtain ⟨key, waits, found⟩ := List.mem_filterMap.mp (List.mem_of_mem_take member)
    have same : sessionScanKey host session = key := by
      rcases Option.or_eq_some_iff.mp found with found | ⟨_, found⟩
      · obtain ⟨_, _, same⟩ := List.mem_map.mp (mem_of_assigned found)
        obtain ⟨rfl, rfl⟩ := Prod.mk.inj same
        rfl
      · obtain ⟨_, _, same⟩ := List.mem_map.mp (mem_of_assigned found)
        obtain ⟨rfl, rfl⟩ := Prod.mk.inj same
        rfl
    rw [same]
    have listed := (List.mem_insertionSort _).mp waits
    obtain ⟨retry, kept, rfl⟩ := List.mem_map.mp listed
    exact List.mem_map_of_mem (List.mem_filter.mp kept).1
  unfold planSessionScan
  rw [if_neg present]
  exact ⟨_, _, laneEntries_alternate frontier sessions _ _ _, due, rfl, rfl, rfl, rfl, rfl⟩

end HarnessMem.Scanning
