import HarnessMem.Library.Calendar
import HarnessMem.Library.Results
import HarnessMem.Library.Sections
import HarnessMem.Notes.Render
import Mathlib.Data.Set.Function
import Mathlib.Logic.Function.Basic

/-! Writing the Notes of a session. Each job has a Note of its own, and the session's latest Note
is replaced unless the marker read back from it says that it is younger.
-/

set_option autoImplicit false

namespace HarnessMem.Notes

open Library

abbrev Path := List String

abbrev Files := Path → Option (List Char)

def sessionNotePath (job : SessionDistillJob) : Path := ["revisions", job.id, job.sessionId ++ ".md"]

def latestSessionNotePath (sessionId : String) : Path := [sessionId ++ ".md"]

def completedMarker : Regex := .marked "completed=" (· ≠ ' ')

def markedToken (text : List Char) : Option (List Char) :=
  (completedMarker.firstMatch none (universalNewlines text)).bind (·.groups.head?)

/-- `token.replace("Z", "+00:00")`. -/
def zuluSpelled (token : List Char) : List Char := token.flatMap fun c => if c = 'Z' then "+00:00".toList else [c]

structure Clock where
  rendered : DateTime
  compared : DateTime

section Materializing

-- What `\w` accepts, and what `datetime.fromisoformat` reads, which differs between versions of the language.
variable (isWord : Char → Bool) (fromisoformat : List Char → Option DateTime)

def shouldAdvanceLatest (now : DateTime) (existing : Option (List Char)) (completedAt : Option DateTime) : Bool :=
  existing.all fun text =>
    ((markedToken text).bind fun token => fromisoformat (zuluSpelled token)).all fun prior =>
      prior.instant ≤ (completedAt.getD now).instant

/-- `materialize_session_note`, as far as it writes. -/
def materializeSessionNote (files : Files) (call : SessionDistillJob × Clock) : Except String Files :=
  let job := call.1
  let clock := call.2
  let content := renderSessionNote isWord clock.rendered job
  if stripped job.sessionId = "" then .error "session note path requires a non-empty session identity"
  else
    let files := Function.update files (sessionNotePath job) (some content)
    let latest := latestSessionNotePath job.sessionId
    if shouldAdvanceLatest fromisoformat clock.compared (files latest) job.completedAt then
      .ok (Function.update files latest (some content))
    else .ok files

def materializeAll (files : Files) (calls : List (SessionDistillJob × Clock)) : Except String Files :=
  calls.foldlM (materializeSessionNote isWord fromisoformat) files

end Materializing

/-! ### What a Note says of its time -/

section Markers

variable {isWord : Char → Bool}

variable {job : SessionDistillJob} {time : DateTime}

theorem renderSessionNote_completed (completed : job.completedAt = some time)
    (now : DateTime) : renderSessionNote isWord now job = renderSessionNote isWord time job := by
  unfold renderSessionNote auditLine
  rw [completed]
  rfl

theorem renderSessionNote_parts (completed : job.completedAt = some time) :
    renderSessionNote isWord time job =
      unaudited isWord job ++ ("completed=".toList ++ (time.isoformat ++ ((auditTail job).toList ++ ['\n']))) := by
  unfold renderSessionNote unaudited auditLine
  rw [completed, Option.getD_some, intercalate_snoc_nil, intercalate_snoc_append]
  simp only [List.append_assoc]

theorem unaudited_blank (isWord : Char → Bool) (job : SessionDistillJob) : ∃ front, unaudited isWord job = front ++ [' '] := by
  have blank : (auditHead job).toList =
      ("<!-- harness-mem audit: session=" ++ job.sessionId ++ " job=" ++ job.id).toList ++ [' '] := by
    unfold auditHead
    rw [String.toList_append]
    rfl
  refine ⟨['\n'].intercalate ((noteLines isWord job).map String.toList ++
    [("<!-- harness-mem audit: session=" ++ job.sessionId ++ " job=" ++ job.id).toList]), ?_⟩
  unfold unaudited
  rw [blank, intercalate_snoc_append]

theorem auditTail_blank (job : SessionDistillJob) : ∃ word, (auditTail job).toList ++ ['\n'] = ' ' :: (word ++ [' ', '-', '-', '>', '\n']) ∧
    ' ' ∉ word := by
  refine ⟨("disposition=" ++ (job.completionDisposition.map completionValue).getD "unknown").toList, ?_, ?_⟩
  · have opens : " disposition=".toList = ' ' :: "disposition=".toList := by decide
    have closes : " -->".toList = [' ', '-', '-', '>'] := by decide
    unfold auditTail
    simp only [String.toList_append, opens, closes, List.cons_append, List.append_assoc, List.nil_append]
  · cases job.completionDisposition with
    | none => decide
    | some disposition => cases disposition <;> decide

def plantedToken (isWord : Char → Bool) (job : SessionDistillJob) : Option (List Char) := markedToken (unaudited isWord job)

theorem isoformat_token (time : DateTime) : ∀ c ∈ time.isoformat, c ≠ ' ' ∧ c ≠ '\r' ∧ c ≠ 'Z' :=
  DateTime.isoformat_all (p := fun c => c ≠ ' ' ∧ c ≠ '\r' ∧ c ≠ 'Z')
    (fun c digit => ⟨fun same => by simp [same] at digit, fun same => by simp [same] at digit,
      fun same => by simp [same] at digit⟩) (by decide) time

theorem markedToken_note (completed : job.completedAt = some time) :
    markedToken (renderSessionNote isWord time job) = (plantedToken isWord job).or (some time.isoformat) := by
  obtain ⟨front, shape⟩ := unaudited_blank isWord job
  obtain ⟨word, tail, _⟩ := auditTail_blank job
  have token := isoformat_token time
  have written : universalNewlines ("completed=".toList ++ (time.isoformat ++ ' ' :: (word ++ [' ', '-', '-', '>', '\n']))) =
      "completed=".toList ++ (time.isoformat ++ ' ' :: universalNewlines (word ++ [' ', '-', '-', '>', '\n'])) := by
    have plain : '\r' ∉ "completed=".toList ++ time.isoformat := by
      intro inside
      rcases List.mem_append.mp inside with mark | late
      · revert mark
        decide
      · exact (token _ late).2.1 rfl
    rw [← List.append_assoc, universalNewlines_append _ (by simp), universalNewlines_plain plain,
      universalNewlines_cons (by decide), List.append_assoc]
  have starts : ("completed=".toList ++ (time.isoformat ++ ' ' :: (word ++ [' ', '-', '-', '>', '\n']))).head? ≠ some '\n' := by
    have opens : "completed=".toList = 'c' :: "ompleted=".toList := by decide
    rw [opens, List.cons_append, List.head?_cons]
    decide
  have before : universalNewlines (front ++ [' ']) = universalNewlines front ++ [' '] := by
    rw [universalNewlines_append _ (by decide)]
    rfl
  have own := @Regex.firstMatch_here (fun c => c ≠ ' ') "completed=" time.isoformat
    (' ' :: universalNewlines (word ++ [' ', '-', '-', '>', '\n'])) (by decide) (DateTime.isoformat_ne_nil time)
    (fun c inside => decide_eq_true (token c inside).1) rfl (some ' ')
  unfold plantedToken markedToken completedMarker
  rw [renderSessionNote_parts completed, tail, shape, universalNewlines_append _ starts, written, before,
    List.append_assoc, List.singleton_append, Regex.firstMatch_stop (by decide) (by decide), own]
  cases found : (Regex.marked "completed=" fun c => c ≠ ' ').firstMatch none (universalNewlines front ++ [' ']) with
  | none => rfl
  | some planted =>
    obtain ⟨run, groups⟩ := Regex.firstMatch_marked_groups found
    rw [Option.some_or, Option.bind_some, groups]
    rfl

theorem plantedToken_heading {line : String} {front back token : List Char}
    (heading : (noteLines isWord job).head? = some line) (shape : line.toList = front ++ ' ' :: back)
    (found : markedToken (front ++ [' ']) = some token) : plantedToken isWord job = some token := by
  obtain ⟨rest, lines⟩ := List.head?_eq_some_iff.mp heading
  have whole : unaudited isWord job = front ++ ' ' :: (back ++ ('\n' :: ['\n'].intercalate (rest.map String.toList ++ [(auditHead job).toList]))) := by
    unfold unaudited
    rw [lines, List.map_cons, List.cons_append, intercalate_cons_ne_nil (by simp), shape]
    simp only [List.append_assoc, List.cons_append, List.nil_append]
  unfold plantedToken
  rw [whole]
  unfold markedToken at found ⊢
  rw [universalNewlines_append _ (by simp)] at found ⊢
  rw [universalNewlines_cons (by decide)] at found ⊢
  unfold completedMarker at found ⊢
  rw [Regex.firstMatch_stop (by decide) (by decide)]
  have same : universalNewlines ([] : List Char) = [] := rfl
  rw [same] at found
  cases first : (Regex.marked "completed=" fun c => c ≠ ' ').firstMatch none (universalNewlines front ++ [' ']) with
  | none => rw [first] at found; cases found
  | some planted =>
    rw [first] at found
    rw [Option.some_or, found]

theorem zuluSpelled_plain {token : List Char} (plain : ∀ c ∈ token, c ≠ 'Z') : zuluSpelled token = token := by
  induction token with
  | nil => rfl
  | cons c token ih =>
    have rest := ih fun d inside => plain d (List.mem_cons_of_mem _ inside)
    unfold zuluSpelled at rest ⊢
    rw [List.flatMap_cons, if_neg (plain c List.mem_cons_self), rest, List.singleton_append]

theorem renderSessionNote_time {first second : SessionDistillJob} {time' : DateTime}
    (completed : first.completedAt = some time) (completed' : second.completedAt = some time')
    (same : renderSessionNote isWord time first = renderSessionNote isWord time' second) : time = time' := by
  have words : ∀ {job : SessionDistillJob} {moment : DateTime}, job.completedAt = some moment → ∃ word, ' ' ∉ word ∧
      renderSessionNote isWord moment job = ((unaudited isWord job).dropLast ++ ' ' :: ("completed=".toList ++ moment.isoformat)) ++
        ' ' :: word ++ ' ' :: ['-', '-', '>', '\n'] := by
    intro job moment known
    obtain ⟨front, shape⟩ := unaudited_blank isWord job
    obtain ⟨word, tail, whole⟩ := auditTail_blank job
    refine ⟨word, whole, ?_⟩
    rw [renderSessionNote_parts known, tail, shape, List.dropLast_concat]
    simp only [List.append_assoc, List.cons_append, List.nil_append]
  have marker : ∀ moment : DateTime, ' ' ∉ "completed=".toList ++ moment.isoformat := by
    intro moment inside
    rcases List.mem_append.mp inside with mark | late
    · revert mark
      decide
    · exact (isoformat_token moment _ late).1 rfl
  obtain ⟨word, whole, shape⟩ := words completed
  obtain ⟨word', whole', shape'⟩ := words completed'
  rw [shape, shape'] at same
  have outer := (last_stop_inj same (by decide) (by decide)).1
  have middle := (last_stop_inj outer whole whole').1
  have inner := (last_stop_inj middle (marker time) (marker time')).2
  exact DateTime.isoformat_injective (List.append_cancel_left inner)

end Markers

/-! ### Runs -/

structure CompletedJobs where
  session : String
  jobs : Set SessionDistillJob
  named : stripped session ≠ ""
  together : ∀ job ∈ jobs, job.sessionId = session
  completed : ∀ job ∈ jobs, job.completedAt.isSome = true
  ids : jobs.InjOn (·.id)
  times : jobs.InjOn fun job => job.completedAt.map (·.instant)

section Running

variable (isWord : Char → Bool) (fromisoformat : List Char → Option DateTime)

def IsNewest (calls : List (SessionDistillJob × Clock)) (newest : SessionDistillJob) (time : DateTime) : Prop :=
  newest ∈ calls.map (·.1) ∧ newest.completedAt = some time ∧
    ∀ job ∈ calls.map (·.1), ∀ other, job.completedAt = some other → other.instant ≤ time.instant

/-- The latest Note is the Note of the job that completed last, and each job's own Note is its own. -/
def Follows (session : String) (calls : List (SessionDistillJob × Clock)) (files : Files) : Prop :=
  (∀ newest time, IsNewest calls newest time →
    files (latestSessionNotePath session) = some (renderSessionNote isWord time newest)) ∧
  ∀ job ∈ calls.map (·.1), ∀ time, job.completedAt = some time →
    files (sessionNotePath job) = some (renderSessionNote isWord time job)

/-- Whatever the order of the calls and however often each is repeated, the latest Note follows the time of completion. -/
def LatestFollows (session : CompletedJobs) : Prop :=
  ∀ (files : Files) (calls : List (SessionDistillJob × Clock)), files (latestSessionNotePath session.session) = none →
    (∀ job ∈ calls.map (·.1), job ∈ session.jobs) →
      ∃ after, materializeAll isWord fromisoformat files calls = .ok after ∧ Follows isWord session.session calls after

/-- Where a marker stands in front of a Note's audit marker, it is read as no later than another job's completion
for those jobs only that completed later. -/
def PlantedInOrder (session : CompletedJobs) : Prop :=
  ∀ first ∈ session.jobs, ∀ token, plantedToken isWord first = some token → ∀ second ∈ session.jobs, second ≠ first →
    ∀ time time', first.completedAt = some time → second.completedAt = some time' →
      ((∀ prior, fromisoformat (zuluSpelled token) = some prior → prior.instant ≤ time'.instant) ↔
        time.instant < time'.instant)

end Running

section Proofs

variable {isWord : Char → Bool} {fromisoformat : List Char → Option DateTime}

theorem latest_ne_own (sessionId : String) (job : SessionDistillJob) : latestSessionNotePath sessionId ≠ sessionNotePath job := by
  intro same
  cases congrArg List.length same

variable {time : DateTime}

theorem materializeSessionNote_eq {job : SessionDistillJob} (completed : job.completedAt = some time)
    (named : stripped job.sessionId ≠ "") (files : Files) (clock : Clock) :
    materializeSessionNote isWord fromisoformat files (job, clock) =
      .ok (if shouldAdvanceLatest fromisoformat clock.compared (files (latestSessionNotePath job.sessionId)) job.completedAt = true
        then Function.update (Function.update files (sessionNotePath job) (some (renderSessionNote isWord time job)))
          (latestSessionNotePath job.sessionId) (some (renderSessionNote isWord time job))
        else Function.update files (sessionNotePath job) (some (renderSessionNote isWord time job))) := by
  unfold materializeSessionNote
  dsimp only
  rw [renderSessionNote_completed completed, if_neg named, Function.update_of_ne (latest_ne_own _ _)]
  split <;> rfl

theorem shouldAdvanceLatest_note {first : SessionDistillJob} {time time' : DateTime}
    (completed : first.completedAt = some time) (now : DateTime) :
    shouldAdvanceLatest fromisoformat now (some (renderSessionNote isWord time first)) (some time') = true ↔
      ∀ prior, (((plantedToken isWord first).or (some time.isoformat)).bind fun token => fromisoformat (zuluSpelled token)) =
        some prior → prior.instant ≤ time'.instant := by
  unfold shouldAdvanceLatest
  rw [Option.all_some, markedToken_note completed, Option.all_eq_true]
  simp only [Option.getD_some, decide_eq_true_eq]

variable {session : CompletedJobs} {first second : SessionDistillJob} {time' : DateTime}

theorem instant_ne (member : first ∈ session.jobs)
    (member' : second ∈ session.jobs) (apart : second ≠ first) (completed : first.completedAt = some time)
    (completed' : second.completedAt = some time') : time.instant ≠ time'.instant := by
  intro same
  exact apart (session.times member' member (by simp only [completed, completed', Option.map_some, same]))

theorem advances_iff (reads : ∀ time : DateTime, fromisoformat time.isoformat = some time)
    (order : PlantedInOrder isWord fromisoformat session) (member : first ∈ session.jobs)
    (member' : second ∈ session.jobs) (apart : second ≠ first) (completed : first.completedAt = some time)
    (completed' : second.completedAt = some time') (now : DateTime) :
    shouldAdvanceLatest fromisoformat now (some (renderSessionNote isWord time first)) (some time') = true ↔
      time.instant < time'.instant := by
  rw [shouldAdvanceLatest_note completed]
  cases planted : plantedToken isWord first with
  | some token =>
    rw [Option.some_or, Option.bind_some]
    exact order first member token planted second member' apart time time' completed completed'
  | none =>
    have own : fromisoformat (zuluSpelled time.isoformat) = some time := by
      rw [zuluSpelled_plain fun c inside => (isoformat_token time c inside).2.2, reads]
    have distinct := instant_ne member member' apart completed completed'
    rw [Option.none_or, Option.bind_some, own]
    simp only [Option.some.injEq, forall_eq']
    omega

/-- What holds after some calls: no Note yet, or the Note of the job that completed last. -/
structure Following (isWord : Char → Bool) (session : String) (calls : List (SessionDistillJob × Clock)) (files : Files) : Prop where
  latest : calls = [] ∧ files (latestSessionNotePath session) = none ∨ ∃ newest time, IsNewest calls newest time ∧
    files (latestSessionNotePath session) = some (renderSessionNote isWord time newest)
  own : ∀ job ∈ calls.map (·.1), ∀ time, job.completedAt = some time →
    files (sessionNotePath job) = some (renderSessionNote isWord time job)

theorem isNewest_snoc {calls : List (SessionDistillJob × Clock)} {newest job : SessionDistillJob} {clock : Clock}
    {time time' : DateTime} (known : IsNewest calls newest time) (completed : job.completedAt = some time') :
    (time.instant ≤ time'.instant → IsNewest (calls ++ [(job, clock)]) job time') ∧
      (time'.instant ≤ time.instant → IsNewest (calls ++ [(job, clock)]) newest time) := by
  obtain ⟨member, reached, latest⟩ := known
  unfold IsNewest
  rw [List.map_append, List.map_singleton]
  constructor
  · intro later
    refine ⟨List.mem_append_right _ (List.mem_singleton_self _), completed, ?_⟩
    intro other inside moment ended
    rcases List.mem_append.mp inside with before | last
    · exact (latest other before moment ended).trans later
    · obtain rfl := List.mem_singleton.mp last
      rw [completed] at ended
      exact Option.some.inj ended ▸ Int.le_refl _
  · intro earlier
    refine ⟨List.mem_append_left _ member, reached, ?_⟩
    intro other inside moment ended
    rcases List.mem_append.mp inside with before | last
    · exact latest other before moment ended
    · obtain rfl := List.mem_singleton.mp last
      rw [completed] at ended
      exact Option.some.inj ended ▸ earlier

theorem Following.step (reads : ∀ time : DateTime, fromisoformat time.isoformat = some time)
    (order : PlantedInOrder isWord fromisoformat session) {calls : List (SessionDistillJob × Clock)} {files : Files}
    (members : ∀ job ∈ calls.map (·.1), job ∈ session.jobs) (following : Following isWord session.session calls files)
    {job : SessionDistillJob} (member : job ∈ session.jobs) (clock : Clock) :
    ∃ after, materializeSessionNote isWord fromisoformat files (job, clock) = .ok after ∧
      Following isWord session.session (calls ++ [(job, clock)]) after := by
  obtain ⟨time, completed⟩ := Option.isSome_iff_exists.mp (session.completed job member)
  have place := session.together job member
  have named : stripped job.sessionId ≠ "" := place ▸ session.named
  refine ⟨_, materializeSessionNote_eq completed named files clock, ?_⟩
  rw [place, completed]
  constructor
  · rcases following.latest with ⟨rfl, nothing⟩ | ⟨newest, reached, known, shown⟩
    · right
      have first : IsNewest ([] ++ [(job, clock)]) job time := by
        refine ⟨List.mem_singleton_self _, completed, ?_⟩
        intro other inside moment ended
        obtain rfl := List.mem_singleton.mp inside
        rw [completed] at ended
        exact Option.some.inj ended ▸ Int.le_refl _
      refine ⟨job, time, first, ?_⟩
      rw [nothing, show shouldAdvanceLatest fromisoformat clock.compared none (some time) = true from rfl, if_pos rfl,
        Function.update_self]
    · right
      have grown := @isNewest_snoc _ _ _ clock _ _ known completed
      by_cases again : job = newest
      · -- the Note is written over itself, or left as it is
        subst again
        have same : reached = time := Option.some.inj (known.2.1.symm.trans completed)
        subst same
        refine ⟨job, reached, grown.1 (Int.le_refl _), ?_⟩
        split
        · rw [Function.update_self]
        · rw [Function.update_of_ne (latest_ne_own session.session job), shown]
      · have advances := advances_iff reads order (members newest known.1) member again known.2.1 completed clock.compared
        rw [← shown] at advances
        by_cases later : reached.instant < time.instant
        · refine ⟨job, time, grown.1 (Int.le_of_lt later), ?_⟩
          rw [if_pos (advances.mpr later), Function.update_self]
        · refine ⟨newest, reached, grown.2 (Int.not_lt.mp later), ?_⟩
          rw [if_neg (mt advances.mp later), Function.update_of_ne (latest_ne_own session.session job), shown]
  · intro other inside moment ended
    have apart : sessionNotePath other ≠ latestSessionNotePath session.session :=
      (latest_ne_own session.session other).symm
    have kept : Function.update files (sessionNotePath job) (some (renderSessionNote isWord time job)) (sessionNotePath other) =
        some (renderSessionNote isWord moment other) := by
      by_cases same : other = job
      · subst same
        rw [Function.update_self, Option.some.inj (completed.symm.trans ended)]
      · rcases List.mem_append.mp (List.map_append ▸ inside) with before | last
        · have distinct : sessionNotePath other ≠ sessionNotePath job := by
            intro equal
            exact same (session.ids (members other before) member (List.cons.inj (List.cons.inj equal).2).1)
          rw [Function.update_of_ne distinct]
          exact following.own other before moment ended
        · exact absurd (List.mem_singleton.mp last) same
    split
    · rw [Function.update_of_ne apart, kept]
    · exact kept

theorem materializeAll_follows (reads : ∀ time : DateTime, fromisoformat time.isoformat = some time)
    (order : PlantedInOrder isWord fromisoformat session) {files : Files} (fresh : files (latestSessionNotePath session.session) = none)
    (calls : List (SessionDistillJob × Clock)) (members : ∀ job ∈ calls.map (·.1), job ∈ session.jobs) :
    ∃ after, materializeAll isWord fromisoformat files calls = .ok after ∧ Following isWord session.session calls after := by
  induction calls using List.reverseRecOn with
  | nil => exact ⟨files, rfl, .inl ⟨rfl, fresh⟩, fun _ member => absurd member List.not_mem_nil⟩
  | append_singleton calls call ih =>
    rw [List.map_append] at members
    have earlier := fun job member => members job (List.mem_append_left _ member)
    obtain ⟨middle, ran, following⟩ := ih earlier
    obtain ⟨after, wrote, next⟩ := following.step reads order earlier
      (members call.1 (List.mem_append_right _ (List.mem_singleton_self _))) call.2
    refine ⟨after, ?_, next⟩
    unfold materializeAll at ran ⊢
    rw [List.foldlM_append, ran, ok_bind, List.foldlM_cons, wrote, ok_bind, List.foldlM_nil]
    rfl

theorem secondCall_latest (member : first ∈ session.jobs)
    (member' : second ∈ session.jobs) (completed : first.completedAt = some time)
    (completed' : second.completedAt = some time') {clock : Clock} {after : Files}
    (ran : materializeAll isWord fromisoformat (fun _ => none) [(first, clock), (second, clock)] = .ok after) :
    after (latestSessionNotePath session.session) =
      some (if shouldAdvanceLatest fromisoformat clock.compared (some (renderSessionNote isWord time first)) (some time') = true
        then renderSessionNote isWord time' second else renderSessionNote isWord time first) := by
  have named : ∀ job ∈ session.jobs, stripped job.sessionId ≠ "" := fun job inside =>
    session.together job inside ▸ session.named
  obtain ⟨between, opening, held⟩ : ∃ between, materializeSessionNote isWord fromisoformat (fun _ => none) (first, clock) =
      .ok between ∧ between (latestSessionNotePath session.session) = some (renderSessionNote isWord time first) := by
    refine ⟨_, materializeSessionNote_eq completed (named first member) (fun _ => none) clock, ?_⟩
    rw [session.together first member, show shouldAdvanceLatest fromisoformat clock.compared none first.completedAt = true from rfl,
      if_pos rfl, Function.update_self]
  have closing : materializeSessionNote isWord fromisoformat between (second, clock) = .ok after := by
    unfold materializeAll at ran
    rw [List.foldlM_cons, opening, ok_bind, List.foldlM_cons] at ran
    simp only [List.foldlM_nil, bind_pure] at ran
    exact ran
  rw [materializeSessionNote_eq completed' (named second member') between clock, session.together second member', held,
    completed'] at closing
  obtain rfl := Except.ok.inj closing
  split
  · rw [Function.update_self]
  · rw [Function.update_of_ne (latest_ne_own session.session second), held]

theorem plantedInOrder_of_follows :
    LatestFollows isWord fromisoformat session → PlantedInOrder isWord fromisoformat session := by
  intro follows first member token planted second member' apart time time' completed completed'
  obtain ⟨after, done, latest, _⟩ := follows (fun _ => none) [(first, ⟨time, time⟩), (second, ⟨time, time⟩)] rfl (by
    simp [member, member'])
  have left := secondCall_latest member member' completed completed' done
  have reads := @shouldAdvanceLatest_note isWord fromisoformat first time time' completed time
  rw [planted, Option.some_or, Option.bind_some] at reads
  have distinct := instant_ne member member' apart completed completed'
  have newest : ∀ job moment, (job = first ∨ job = second) → job.completedAt = some moment → time.instant ≤ moment.instant →
      time'.instant ≤ moment.instant → IsNewest [(first, ⟨time, time⟩), (second, ⟨time, time⟩)] job moment := by
    intro job moment which ended late late'
    refine ⟨by simpa using which, ended, ?_⟩
    intro other inside reached known
    rcases List.mem_pair.mp inside with rfl | rfl
    · exact Option.some.inj (completed.symm.trans known) ▸ late
    · exact Option.some.inj (completed'.symm.trans known) ▸ late'
  rw [← reads]
  constructor
  · intro advanced
    rw [if_pos advanced] at left
    by_contra early
    have shown := latest first time (newest first time (.inl rfl) completed (Int.le_refl _) (Int.not_lt.mp early))
    rw [left] at shown
    exact distinct (congrArg DateTime.instant (renderSessionNote_time completed' completed (Option.some.inj shown))).symm
  · intro later
    have shown := latest second time' (newest second time' (.inr rfl) completed' (Int.le_of_lt later) (Int.le_refl _))
    rw [left] at shown
    by_contra stayed
    rw [if_neg stayed] at shown
    exact distinct (congrArg DateTime.instant (renderSessionNote_time completed completed' (Option.some.inj shown)))

theorem follows_of_plantedInOrder (reads : ∀ time : DateTime, fromisoformat time.isoformat = some time) :
    PlantedInOrder isWord fromisoformat session → LatestFollows isWord fromisoformat session := by
  intro order files calls fresh members
  obtain ⟨after, ran, following⟩ := materializeAll_follows reads order fresh calls members
  refine ⟨after, ran, ?_, following.own⟩
  intro newest time known
  rcases following.latest with ⟨rfl, _⟩ | ⟨other, reached, known', shown⟩
  · cases known.1
  · have tie : reached.instant = time.instant :=
      Int.le_antisymm (known.2.2 other known'.1 reached known'.2.1) (known'.2.2 newest known.1 time known.2.1)
    have same : other = newest := session.times (members other known'.1) (members newest known.1)
      (by simp only [known'.2.1, known.2.1, Option.map_some, tie])
    subst same
    rw [shown, Option.some.inj (known'.2.1.symm.trans known.2.1)]

end Proofs

/-! ### Two jobs of one session -/

def plainWord (c : Char) : Bool := c.isAlphanum || c == '_' || isHan c

theorem secondDay_date : 1 ≤ 2025 ∧ 2025 ≤ 9999 ∧ 1 ≤ 1 ∧ 1 ≤ 12 ∧ 1 ≤ 2 ∧ 2 ≤ daysInMonth 2025 1 := by decide

theorem thirdDay_date : 1 ≤ 2025 ∧ 2025 ≤ 9999 ∧ 1 ≤ 1 ∧ 1 ≤ 12 ∧ 1 ≤ 3 ∧ 3 ≤ daysInMonth 2025 1 := by decide

def secondDay : DateTime := ⟨2025, 1, 2, 0, 0, 0, 0, some 0, secondDay_date, DateTime.midnight_clock, DateTime.utc_zone⟩

def thirdDay : DateTime := ⟨2025, 1, 3, 0, 0, 0, 0, some 0, thirdDay_date, DateTime.midnight_clock, DateTime.utc_zone⟩

theorem thirdDay_later : secondDay.instant < thirdDay.instant := by decide

def dayJob (id summary : String) (time : DateTime) : SessionDistillJob where
  id := id
  sessionId := "s1"
  projectName := "demo"
  completedAt := some time
  semanticReview := { sessionSummary := some summary }

def twoJobs (earlier later : String) : CompletedJobs where
  session := "s1"
  jobs := {dayJob "d1" earlier secondDay, dayJob "d2" later thirdDay}
  named := by decide +kernel
  together := by
    rintro job (rfl | rfl) <;> rfl
  completed := by
    rintro job (rfl | rfl) <;> rfl
  ids := by
    rintro job (rfl | rfl) other (rfl | rfl) same
    · rfl
    · cases (String.toList_inj.mpr same : "d1".toList = "d2".toList)
    · cases (String.toList_inj.mpr same : "d2".toList = "d1".toList)
    · rfl
  times := by
    rintro job (rfl | rfl) other (rfl | rfl) same
    · rfl
    · simp only [dayJob, Option.map_some, Option.some.injEq] at same
      exact absurd same thirdDay_later.ne
    · simp only [dayJob, Option.map_some, Option.some.injEq] at same
      exact absurd same thirdDay_later.ne'
    · rfl

theorem plantedToken_dayJob {id summary front back token : String} {time : DateTime}
    (heading : (noteLines plainWord (dayJob id summary time)).head? = some (front ++ back))
    (blank : back.toList.head? = some ' ') (found : markedToken (front.toList ++ [' ']) = some token.toList) :
    plantedToken plainWord (dayJob id summary time) = some token.toList := by
  obtain ⟨rest, shape⟩ := List.head?_eq_some_iff.mp blank
  exact plantedToken_heading heading (by rw [String.toList_append, shape]) found

end HarnessMem.Notes
