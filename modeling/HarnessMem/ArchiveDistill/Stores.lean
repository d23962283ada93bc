import HarnessMem.ArchiveDistill.Records

/-! What one store of a run keeps of the copies the run has read.
-/

set_option autoImplicit false

namespace HarnessMem.ArchiveDistill

open Library

variable {host : Host}

/-! ### Terminal entries -/

def KeepsVerified (first second : KeyMap String TerminalEntry) : Prop :=
  ∀ id entry, first.get? id = some entry → entry.disposition = .verifiedCompleted → second.get? id = some entry

theorem KeepsVerified.trans {first second third : KeyMap String TerminalEntry} (left : KeepsVerified first second)
    (right : KeepsVerified second third) : KeepsVerified first third :=
  fun id entry found verified => right id entry (left id entry found verified) verified

variable {sessions : KeyMap String TerminalEntry}

theorem keepsVerified_admitAll {verifiedAt : String} {runId : Option String} {kind : RepairKind} {outcomes : List CompletedOutcome}
    (open_ : ∀ outcome ∈ outcomes, ∀ entry, sessions.get? outcome.sessionId = some entry → entry.disposition ≠ .verifiedCompleted) :
    KeepsVerified sessions (admitAll verifiedAt runId kind sessions outcomes) := by
  intro id entry found verified
  let assigned := (outcomes.filter (·.passed)).map fun outcome => (outcome.sessionId, admitted verifiedAt runId kind outcome)
  have same : admitAll verifiedAt runId kind sessions outcomes = assigned.foldl (fun map entry => map.set entry.1 entry.2) sessions := by
    unfold admitAll
    rw [List.foldl_map]
  rw [same, KeyMap.get?_assign_of_notMem]
  · exact found
  · intro member
    rw [List.map_map] at member
    obtain ⟨outcome, passed, rfl⟩ := List.mem_map.mp member
    exact open_ outcome (List.mem_filter.mp passed).1 entry found verified

variable {call : Call}

theorem not_verified_of_pending {outcome : CompletedOutcome}
    (pending : pendingOutcome host call sessions outcome = true) {entry : TerminalEntry}
    (found : sessions.get? outcome.sessionId = some entry) : entry.disposition ≠ .verifiedCompleted := by
  unfold pendingOutcome at pending
  rw [found] at pending
  intro verified
  simp [verified] at pending

theorem CompletedJob.mem_of_latest {jobs : List CompletedJob} {job : CompletedJob} (newest : latest jobs = some job) : job ∈ jobs := by
  cases jobs with
  | nil => cases newest
  | cons first rest =>
    cases newest
    refine List.foldlRecOn (motive := (· ∈ first :: rest)) rest _ (List.mem_cons_self ..) fun best member other there => ?_
    split
    · exact List.mem_cons_of_mem _ there
    · exact member

variable {id : String}

theorem completedAfterDeferred_id {jobs : List CompletedJob} {entry : TerminalEntry}
    {outcome : CompletedOutcome} (made : completedAfterDeferred host call jobs id entry = some outcome) : outcome.sessionId = id := by
  obtain ⟨job, newest, within⟩ := Option.bind_eq_some_iff.mp made
  split at within
  · cases within
    have member := CompletedJob.mem_of_latest newest
    have matches_ := (List.mem_filter.mp member).2
    simp only [Bool.and_eq_true, decide_eq_true_eq] at matches_
    exact matches_.1.1.1
  · cases within

theorem keepsVerified_repair {repair : Repair} :
    KeepsVerified sessions (repairPartialCompletedReceipts host call repair sessions) := by
  have receipts : KeepsVerified sessions (repair.receipts.foldl (repairReceipt host call repair.verifiedAt) sessions) := by
    refine List.foldlRecOn (motive := KeepsVerified sessions) repair.receipts _ (fun _ _ found _ => found) ?_
    intro repaired kept receipt _
    apply kept.trans
    exact keepsVerified_admitAll fun outcome member entry found => not_verified_of_pending (List.mem_filter.mp member).2 found
  apply receipts.trans
  apply keepsVerified_admitAll
  intro outcome member entry found
  obtain ⟨⟨id, quarantined⟩, there, made⟩ := List.mem_filterMap.mp member
  have ⟨entered, disposed⟩ := List.mem_filter.mp there
  rw [completedAfterDeferred_id made, KeyMap.get?_eq_some.mpr entered] at found
  cases found
  intro verified
  simp [verified] at disposed

theorem stored_session {start : Start} {batch : Batch} {sessions : KeyMap String TerminalEntry} (id : String) :
    (storedIndex host start batch sessions).sessions.get? id = sessions.get? id ∨
      ∃ pair : Row × Outcome, pair.1.sessionId = id ∧
        (storedIndex host start batch sessions).sessions.get? id = some (verifiedEntry start batch pair) := by
  refine List.foldlRecOn (motive := fun after : KeyMap String TerminalEntry => after.get? id = sessions.get? id ∨
    ∃ pair : Row × Outcome, pair.1.sessionId = id ∧ after.get? id = some (verifiedEntry start batch pair)) batch.outcomes _ (.inl rfl) ?_
  intro after recorded pair _
  unfold storeOutcome
  split
  · by_cases same : pair.1.sessionId = id
    · exact .inr ⟨pair, same, same ▸ KeyMap.get?_set_self ..⟩
    · rw [KeyMap.get?_set_of_ne _ _ (Ne.symm same)]
      exact recorded
  · exact recorded

/-! ### Attempts -/

variable {batch : Batch}

theorem Batch.outcomeOf_isSome (attempted : id ∈ batch.attemptedIds) :
    ∃ pair, batch.outcomeOf id = some pair := by
  obtain ⟨pair, there, same⟩ := List.mem_map.mp attempted
  have key : id ∈ (batch.outcomes.map fun pair => (pair.1.sessionId, pair)).map (·.1) := by
    rw [List.map_map]
    exact List.mem_map.mpr ⟨pair, (List.mem_filter.mp there).1, same⟩
  have ⟨found, _, here⟩ := @KeyMap.get?_assign_of_mem _ _ _ _ .empty _ key
  exact ⟨found, here⟩

variable {start : Start}

theorem stored_attempt_of_notMem (other : id ∉ batch.attemptedIds) :
    (storedIndex host start batch sessions).attempts.get? id = start.index.attempts.get? id := by
  change (batch.attemptedIds.foldl (storeAttempt host start batch) start.index.attempts).get? id = _
  refine List.foldlRecOn (motive := fun after : KeyMap String AttemptEntry => after.get? id = start.index.attempts.get? id)
    batch.attemptedIds _ rfl ?_
  intro after kept first member
  unfold storeAttempt
  split
  · exact kept
  · have differs : id ≠ first := fun same => other (same ▸ member)
    rw [KeyMap.get?_set_of_ne _ _ differs, kept]

theorem stored_attempt_of_mem
    {pair : Row × Outcome} (outcome : batch.outcomeOf id = some pair) (attempted : id ∈ batch.attemptedIds) :
    (storedIndex host start batch sessions).attempts.get? id = some (attemptEntry host start batch id pair.2) := by
  change (batch.attemptedIds.foldl (storeAttempt host start batch) start.index.attempts).get? id = _
  generalize start.index.attempts = attempts
  revert attempted
  induction batch.attemptedIds generalizing attempts with
  | nil => exact fun absent => nomatch absent
  | cons first rest ih =>
    intro attempted
    rw [List.foldl_cons]
    by_cases later : id ∈ rest
    · exact ih _ later
    · have here : id = first := (List.mem_cons.mp attempted).resolve_right later
      subst here
      refine List.foldlRecOn
        (motive := fun after : KeyMap String AttemptEntry => after.get? id = some (attemptEntry host start batch id pair.2)) rest _ ?_ ?_
      · rw [storeAttempt, outcome]
        exact KeyMap.get?_set_self ..
      · intro after found other member
        have differs : id ≠ other := fun same => later (same ▸ member)
        unfold storeAttempt
        split
        · exact found
        · rw [KeyMap.get?_set_of_ne _ _ differs, found]

/-! ### Counts -/

/-- The run has found the session at another revision than its last attempt was recorded under. -/
def Start.Changed (host : Host) (start : Start) (id : String) : Prop :=
  ∃ row ∈ start.eligible host, row.sessionId = id ∧ ∃ attempt, start.index.attempts.get? id = some attempt ∧
    attempt.sourceRevision ≠ row.sourceRevision

theorem countRow_grows {start : Start} {counts : KeyMap String Nat} {row : Row} {id : String} {count : Nat}
    (found : counts.get? id = some count)
    (same : row.sessionId = id → ∀ attempt, start.index.attempts.get? id = some attempt → attempt.sourceRevision = row.sourceRevision) :
    ∃ more, (start.countRow counts row).get? id = some more ∧ count ≤ more := by
  unfold Start.countRow
  by_cases here : row.sessionId = id
  · subst here
    cases durable : start.index.attempts.get? row.sessionId with
    | none => exact ⟨count, found, le_rfl⟩
    | some attempt =>
      simp only [if_pos (same rfl attempt durable), KeyMap.get?_set_self, found]
      exact ⟨_, rfl, le_max_left ..⟩
  · refine ⟨count, ?_, le_rfl⟩
    split
    · exact found
    · split
      · rw [KeyMap.get?_set_of_ne _ _ (Ne.symm here), found]
      · rw [KeyMap.get?_set_of_ne _ _ (Ne.symm here), found]

variable {count : Nat}

theorem countRow_present {counts : KeyMap String Nat} {row : Row}
    (found : counts.get? id = some count) : ∃ more, (start.countRow counts row).get? id = some more := by
  unfold Start.countRow
  split
  · exact ⟨count, found⟩
  · split
    · rw [KeyMap.get?_set]
      split
      · exact ⟨_, rfl⟩
      · exact ⟨count, found⟩
    · rw [KeyMap.get?_set]
      split
      · exact ⟨_, rfl⟩
      · exact ⟨count, found⟩

theorem attemptCounts_grow (host : Host) (found : start.countsToday.get? id = some count) :
    ∃ more, (start.attemptCounts host).get? id = some more ∧ (count ≤ more ∨ start.Changed host id) := by
  unfold Start.attemptCounts
  by_cases changed : start.Changed host id
  · have stays : ∃ more, ((start.eligible host).foldl start.countRow start.countsToday).get? id = some more :=
      List.foldlRecOn (motive := fun counts : KeyMap String Nat => ∃ more, counts.get? id = some more)
        (start.eligible host) _ ⟨count, found⟩ fun counts ⟨_, there⟩ row _ => countRow_present there
    have ⟨more, there⟩ := stays
    exact ⟨more, there, .inr changed⟩
  · have grows : ∃ more, ((start.eligible host).foldl start.countRow start.countsToday).get? id = some more ∧ count ≤ more := by
      refine List.foldlRecOn (motive := fun counts : KeyMap String Nat => ∃ more, counts.get? id = some more ∧ count ≤ more)
        (start.eligible host) _ ⟨count, found, le_rfl⟩ ?_
      intro counts ⟨next, there, more⟩ row member
      have same : row.sessionId = id → ∀ attempt, start.index.attempts.get? id = some attempt →
          attempt.sourceRevision = row.sourceRevision := by
        intro here attempt durable
        by_contra differs
        exact changed ⟨row, member, here, attempt, durable, differs⟩
      have ⟨last, final, larger⟩ := countRow_grows there same
      exact ⟨last, final, more.trans larger⟩
    have ⟨more, there, larger⟩ := grows
    exact ⟨more, there, .inl larger⟩

theorem attemptCounts_durable {attempt : AttemptEntry}
    (durable : start.index.attempts.get? id = some attempt) (eligible : ∃ row ∈ start.eligible host, row.sessionId = id)
    (same : ∀ row ∈ start.eligible host, row.sessionId = id → row.sourceRevision = attempt.sourceRevision) :
    ∃ count, (start.attemptCounts host).get? id = some count ∧ attempt.count ≤ count := by
  unfold Start.attemptCounts
  generalize start.countsToday = counts
  revert eligible same
  induction start.eligible host generalizing counts with
  | nil => exact fun ⟨_, member, _⟩ => nomatch member
  | cons row rest ih =>
    intro eligible same
    rw [List.foldl_cons]
    have unchanged : ∀ row ∈ rest, row.sessionId = id → row.sourceRevision = attempt.sourceRevision :=
      fun row member => same row (List.mem_cons_of_mem _ member)
    by_cases later : ∃ row ∈ rest, row.sessionId = id
    · exact ih _ later unchanged
    · have here : row.sessionId = id := by
        obtain ⟨other, member, matches_⟩ := eligible
        cases List.mem_cons.mp member with
        | inl first => exact first ▸ matches_
        | inr there => exact absurd ⟨other, there, matches_⟩ later
      have taken : (start.countRow counts row).get? id = some (max ((counts.get? id).getD 0) attempt.count) := by
        unfold Start.countRow
        rw [here, durable]
        simp only [if_pos (same row (List.mem_cons_self ..) here).symm]
        exact KeyMap.get?_set_self ..
      -- no later row is of the session
      refine List.foldlRecOn (motive := fun counts : KeyMap String Nat => ∃ count, counts.get? id = some count ∧ attempt.count ≤ count) rest _
        ⟨_, taken, le_max_right ..⟩ ?_
      intro counts ⟨count, there, more⟩ other member
      have ⟨last, final, larger⟩ := @countRow_grows start counts other id count there fun matches_ =>
        absurd ⟨other, member, matches_⟩ later
      exact ⟨last, final, more.trans larger⟩

theorem finalCounts_grow (batch : Batch)
    (found : (start.attemptCounts host).get? id = some count) :
    ∃ more, (finalCounts host start batch).get? id = some more ∧ count ≤ more := by
  unfold finalCounts
  refine List.foldlRecOn (motive := fun counts : KeyMap String Nat => ∃ more, counts.get? id = some more ∧ count ≤ more) batch.attemptedIds _
    ⟨count, found, le_rfl⟩ ?_
  intro counts ⟨next, there, more⟩ first _
  unfold countAttempt
  by_cases same : id = first
  · subst same
    rw [KeyMap.get?_set_self, there]
    exact ⟨next + 1, rfl, by omega⟩
  · rw [KeyMap.get?_set_of_ne _ _ same, there]
    exact ⟨next, rfl, more⟩

theorem countsToday_of_attempted (attempted : id ∈ start.ledger.attemptedSessionIds)
    (found : start.ledger.attemptCounts.get? id = some count) :
    ∃ more, start.countsToday.get? id = some more ∧ count ≤ more := by
  let assigned := start.ledger.attemptedSessionIds.map fun id => (id, max 1 ((start.ledger.attemptCounts.get? id).getD 1))
  have key : id ∈ assigned.map (·.1) := by
    rw [List.map_map]
    exact List.mem_map.mpr ⟨id, attempted, rfl⟩
  have ⟨value, there, here⟩ := @KeyMap.get?_assign_of_mem _ _ _ _ .empty _ key
  obtain ⟨other, -, same⟩ := List.mem_map.mp there
  cases same
  refine ⟨_, here, ?_⟩
  rw [found]
  exact le_max_right ..

end HarnessMem.ArchiveDistill
