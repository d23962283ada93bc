import HarnessMem.Library.Rounds
import HarnessMem.Review.Schemas
import HarnessMem.Schemas.SessionDistill

/-! Which completed jobs have proven their outcome. A receipt passes when what it wrote is
current, or was replaced by a job that has proven its own outcome.
-/

set_option autoImplicit false

namespace HarnessMem.Sessions

open Library

/-- The keys of `structural_audit` that a proof reads. -/
structure StructuralAudit where
  coverage : Option String := none
  expectedChunks : Option Nat := none
  completedChunks : Option Nat := none

structure PromotionPoint where
  candidateId : Option String := none
  disposition : Option AssimilationDisposition := none
  canonicalTruthIds : List String := []
  replacedTruthIds : List String := []

structure Readback where
  sourceRevision : Option String := none
  verified : Bool := false
  handoffIds : List String := []

structure PromotionSummary where
  pending : Nat := 0
  missing : Nat := 0
  promoted : Nat := 0
  points : List PromotionPoint := []
  readback : Option Readback := none

structure SemanticReview where
  sessionSummary : String := ""
  promotionDecision : Option Review.PromotionDecision := none
  unfinishedWork : List String := []
  zeroCandidateChallenge : Option Review.ZeroCandidateChallenge := none

structure DistillJob where
  id : String
  sourceRevision : String
  status : DistillJobStatus := .queued
  completionDisposition : Option CompletionDisposition := none
  expectedChunkCount : Nat := 0
  completedChunkCount : Nat := 0
  outputCandidateIds : List String := []
  structuralAudit : StructuralAudit := {}
  promotionSummary : PromotionSummary := {}
  semanticReview : SemanticReview := {}
  zeroCandidateChallengeVersion : Option String := none

namespace PromotionPoint

/-- The disposition is one of `add`, `refine` and `replace`. -/
def writes (point : PromotionPoint) : Bool := point.disposition ∈ [some .add, some .refine, some .replace]

/-- The disposition is one of `refine` and `replace`. -/
def supersedes (point : PromotionPoint) : Bool := point.disposition ∈ [some .refine, some .replace]

theorem writes_of_supersedes {point : PromotionPoint} (supersedes : point.supersedes = true) : point.writes = true := by
  unfold PromotionPoint.supersedes at supersedes
  unfold writes
  simp only [List.mem_cons, List.not_mem_nil, or_false, decide_eq_true_eq] at supersedes ⊢
  exact .inr supersedes

end PromotionPoint

namespace DistillJob

variable (job : DistillJob)

def points : List PromotionPoint := job.promotionSummary.points

def writes : List PromotionPoint := job.points.filter (·.writes)

def covered : Bool :=
  job.structuralAudit.coverage = some "complete" && job.structuralAudit.expectedChunks = some job.expectedChunkCount &&
    job.structuralAudit.completedChunks = some job.expectedChunkCount && job.completedChunkCount = job.expectedChunkCount

def readBack (receipt : Readback) : Bool := receipt.sourceRevision = some job.sourceRevision && receipt.verified

/-- The end of `completion_proven`, where no candidate was found. -/
def emptyProven (receipt : Readback) : Bool :=
  let review := job.semanticReview
  let summarized := strip review.sessionSummary.toList ≠ []
  match review.zeroCandidateChallenge with
  | none =>
    if receipt.handoffIds ≠ [] ∧ review.unfinishedWork ≠ [] then review.promotionDecision = some .partly && summarized
    else
      job.completionDisposition = some .noCandidate && review.promotionDecision = some .noPromotion && summarized &&
        receipt.handoffIds = [] && review.unfinishedWork = []
  | some challenge =>
    let terminalChallenge := challenge.conclusion = .noDurableCandidate && challenge.futureUtility ∈ [.none, .sessionOnly]
    let preservedHandoff := challenge.conclusion = .candidateRequired && receipt.handoffIds ≠ [] && review.unfinishedWork ≠ []
    job.zeroCandidateChallengeVersion = some "v1" && challenge.sourceRevision = job.sourceRevision &&
      challenge.evidenceFidelity = .complete && (terminalChallenge || preservedHandoff)

end DistillJob

def completionProven (job : DistillJob) (entries superseded : Finset String) : Bool :=
  if job.status ≠ .completed ∨ job.completionDisposition = none then false
  else if !job.covered then false
  else if job.promotionSummary.pending ≠ 0 ∨ job.promotionSummary.missing ≠ 0 then false
  else if (job.points.map (·.candidateId)).toFinset ≠ (job.outputCandidateIds.map some).toFinset then false
  else if job.writes.length ≠ job.promotionSummary.promoted then false
  else if job.writes.any fun point =>
      point.canonicalTruthIds = [] || (point.canonicalTruthIds.any fun value => value ∉ entries && value ∉ superseded) ||
        point.replacedTruthIds.any (· ∈ entries) then false
  else
    -- a completion without a readback is left for a verification
    match job.promotionSummary.readback with
    | none => false
    | some receipt => if !job.readBack receipt then false else if job.points ≠ [] then true else job.emptyProven receipt

def DistillJob.replaced (job : DistillJob) : Finset String :=
  job.points.foldl (fun ids point => if point.supersedes then ids ∪ point.replacedTruthIds.toFinset else ids) ∅

def completedJobIds (jobs : List DistillJob) (entries : Finset String) : Finset String × Finset String :=
  rounds (·.id) DistillJob.replaced (fun superseded job => completionProven job entries superseded) jobs (∅, ∅)

/-! ### What a proof consists of -/

/-- The checks of a receipt that look at nothing but the job. -/
structure ReceiptProven (job : DistillJob) : Prop where
  completed : job.status = .completed ∧ job.completionDisposition ≠ none
  covered : job.covered = true
  settled : job.promotionSummary.pending = 0 ∧ job.promotionSummary.missing = 0
  candidates : ∀ id, id ∈ job.points.map (·.candidateId) ↔ id ∈ job.outputCandidateIds.map some
  promoted : job.writes.length = job.promotionSummary.promoted
  written : ∀ point ∈ job.writes, point.canonicalTruthIds ≠ []
  readBack : ∃ receipt, job.promotionSummary.readback = some receipt ∧ job.readBack receipt = true ∧
    (job.points = [] → job.emptyProven receipt = true)

def Retired (entries : Finset String) (job : DistillJob) : Prop :=
  ∀ point ∈ job.writes, ∀ id ∈ point.replacedTruthIds, id ∉ entries

def Supported (entries : Finset String) (superseded : Set String) (job : DistillJob) : Prop :=
  ∀ point ∈ job.writes, ∀ id ∈ point.canonicalTruthIds, id ∈ entries ∨ id ∈ superseded

def Proven (entries : Finset String) (superseded : Set String) (job : DistillJob) : Prop :=
  ReceiptProven job ∧ Retired entries job ∧ Supported entries superseded job

theorem refuses_iff {refused : Prop} [Decidable refused] {rest : Bool} :
    (if refused then false else rest) = true ↔ ¬refused ∧ rest = true := by
  split <;> simp [*]

theorem completionProven_iff {job : DistillJob} {entries superseded : Finset String} :
    completionProven job entries superseded = true ↔ Proven entries ↑superseded job := by
  have candidates : (job.points.map (·.candidateId)).toFinset = (job.outputCandidateIds.map some).toFinset ↔
      ∀ id, id ∈ job.points.map (·.candidateId) ↔ id ∈ job.outputCandidateIds.map some := by
    simp only [Finset.ext_iff, List.mem_toFinset]
  have written : (job.writes.any fun point =>
      point.canonicalTruthIds = [] || (point.canonicalTruthIds.any fun value => value ∉ entries && value ∉ superseded) ||
        point.replacedTruthIds.any (· ∈ entries)) = false ↔
      (∀ point ∈ job.writes, point.canonicalTruthIds ≠ []) ∧ Retired entries job ∧ Supported entries ↑superseded job := by
    simp only [List.any_eq_false, Bool.or_eq_true, not_or, decide_eq_true_eq, Retired, Supported, ← forall_and]
    grind
  unfold completionProven
  simp only [refuses_iff, not_or, not_not, Bool.not_eq_true', Bool.not_eq_true, Bool.not_eq_false, candidates, written]
  constructor
  · rintro ⟨completed, covered, settled, candidates, promoted, ⟨written, retired, supported⟩, readBack⟩
    refine ⟨⟨completed, covered, settled, candidates, promoted, written, ?_⟩, retired, supported⟩
    split at readBack
    · cases readBack
    · next receipt kept =>
      rw [refuses_iff, Bool.not_eq_false] at readBack
      refine ⟨receipt, kept, readBack.1, fun empty => ?_⟩
      rw [← readBack.2, if_neg (not_not.mpr empty)]
  · rintro ⟨⟨completed, covered, settled, candidates, promoted, written, receipt, kept, readBack, empty⟩, retired, supported⟩
    refine ⟨completed, covered, settled, candidates, promoted, ⟨written, retired, supported⟩, ?_⟩
    rw [kept]
    dsimp only
    rw [readBack]
    by_cases points : job.points = []
    · simp [points, empty points]
    · simp [points]

theorem proven_mono (entries : Finset String) (job : DistillJob) : Monotone fun superseded => Proven entries superseded job := by
  rintro first second within ⟨receipt, retired, supported⟩
  exact ⟨receipt, retired, fun point wrote id named => (supported point wrote id named).imp_right fun known => within known⟩

theorem mem_replaced {job : DistillJob} {id : String} :
    id ∈ job.replaced ↔ ∃ point ∈ job.points, point.supersedes = true ∧ id ∈ point.replacedTruthIds := by
  have fold (points : List PromotionPoint) (ids : Finset String) :
      id ∈ points.foldl (fun ids point => if point.supersedes then ids ∪ point.replacedTruthIds.toFinset else ids) ids ↔
        id ∈ ids ∨ ∃ point ∈ points, point.supersedes = true ∧ id ∈ point.replacedTruthIds := by
    induction points generalizing ids with
    | nil => simp
    | cons point points ih =>
      rw [List.foldl_cons, ih, List.exists_mem_cons_iff, ← or_assoc]
      split
      · next supersedes => simp [supersedes]
      · next keeps => simp [keeps]
  unfold DistillJob.replaced
  rw [fold]
  simp

/-! ### The jobs that prove each other -/

def Replaces (job : DistillJob) (point : PromotionPoint) (id : String) : Prop :=
  point ∈ job.points ∧ point.disposition ∈ [some .refine, some .replace] ∧ id ∈ point.replacedTruthIds

def SupersededBy (jobs : List DistillJob) (certified : Set String) : Set String :=
  {id | ∃ job ∈ jobs, job.id ∈ certified ∧ ∃ point, Replaces job point id}

/-- The sets of ids of jobs that hold a job exactly when its own receipt passes with what they superseded. -/
def Consistent (jobs : List DistillJob) (entries : Finset String) (certified : Set String) : Prop :=
  ∀ id, id ∈ certified ↔ ∃ job ∈ jobs, job.id = id ∧ Proven entries (SupersededBy jobs certified) job

/-- A statement is current, or a certified job replaced it by a statement of which that holds. -/
inductive Joined (jobs : List DistillJob) (entries : Finset String) (certified : Set String) : String → Prop
  | current {id : String} (current : id ∈ entries) : Joined jobs entries certified id
  | replaced {id next : String} {job : DistillJob} {point : PromotionPoint} (member : job ∈ jobs) (sure : job.id ∈ certified)
      (replaces : Replaces job point id) (written : next ∈ point.canonicalTruthIds) (onward : Joined jobs entries certified next) :
      Joined jobs entries certified id

/-- Each of these jobs wrote a statement that is not current, and that no job outside replaced. -/
def Unanchored (jobs : List DistillJob) (entries : Finset String) (group : Set String) : Prop :=
  ∀ job ∈ jobs, job.id ∈ group → ∃ point ∈ job.writes, ∃ id ∈ point.canonicalTruthIds,
    id ∉ entries ∧ id ∉ SupersededBy jobs {other | other ∉ group}

theorem given_replaced (jobs : List DistillJob) (certified : Set String) :
    given (·.id) DistillJob.replaced jobs certified = SupersededBy jobs certified := by
  ext id
  simp only [given, SupersededBy, Replaces, Set.mem_ofPred_eq, mem_replaced, PromotionPoint.supersedes, decide_eq_true_eq]

section Least
variable {jobs : List DistillJob} {entries : Finset String}

def judgedJobs (jobs : List DistillJob) (entries : Finset String) : Set String →o Set String :=
  judged (·.id) DistillJob.replaced (proven_mono entries) jobs

theorem mem_judgedJobs {certified : Set String} {id : String} : id ∈ judgedJobs jobs entries certified ↔
    ∃ job ∈ jobs, job.id = id ∧ Proven entries (SupersededBy jobs certified) job := by
  rw [← given_replaced]
  rfl

theorem consistent_iff {certified : Set String} : Consistent jobs entries certified ↔ judgedJobs jobs entries certified = certified := by
  rw [Set.ext_iff]
  exact forall_congr' fun id => by rw [mem_judgedJobs]; exact Iff.comm

variable (distinct : (jobs.map (·.id)).Nodup)
include distinct

theorem coe_completedJobIds :
    ↑(completedJobIds jobs entries).1 = (judgedJobs jobs entries).lfp ∧
      ↑(completedJobIds jobs entries).2 = SupersededBy jobs ↑(completedJobIds jobs entries).1 := by
  rw [← given_replaced]
  exact coe_rounds (proven_mono entries) (fun _ _ => completionProven_iff) distinct

theorem isLeast_completedJobIds : IsLeast {certified | Consistent jobs entries certified} ↑(completedJobIds jobs entries).1 := by
  rw [(coe_completedJobIds distinct).1]
  simp only [consistent_iff]
  exact (judgedJobs jobs entries).isLeast_lfp

theorem proven_of_certified {job : DistillJob} (member : job ∈ jobs) (certified : job.id ∈ (completedJobIds jobs entries).1) :
    Proven entries (SupersededBy jobs ↑(completedJobIds jobs entries).1) job := by
  obtain ⟨other, inside, same, proven⟩ := ((isLeast_completedJobIds distinct).1 job.id).mp certified
  rwa [List.inj_on_of_nodup_map distinct inside member same] at proven

theorem joined_of_certified {job : DistillJob} (member : job ∈ jobs) (certified : job.id ∈ (completedJobIds jobs entries).1)
    {point : PromotionPoint} (wrote : point ∈ job.writes) {id : String} (named : id ∈ point.canonicalTruthIds) :
    Joined jobs entries ↑(completedJobIds jobs entries).1 id := by
  -- the certified jobs whose statements all lead there are kept by a round
  let leading : Set String := {key | key ∈ (completedJobIds jobs entries).1 ∧ ∀ job ∈ jobs, job.id = key →
    ∀ point ∈ job.writes, ∀ id ∈ point.canonicalTruthIds, Joined jobs entries ↑(completedJobIds jobs entries).1 id}
  have all : (judgedJobs jobs entries).lfp ≤ leading := by
    apply OrderHom.lfp_le
    intro key inside
    obtain ⟨judge, listed, rfl, proven⟩ := mem_judgedJobs.mp inside
    have known : judge.id ∈ (completedJobIds jobs entries).1 := by
      have within : SupersededBy jobs leading ≤ SupersededBy jobs ↑(completedJobIds jobs entries).1 := by
        rintro _ ⟨job, member, sure, gift⟩
        exact ⟨job, member, sure.1, gift⟩
      exact ((isLeast_completedJobIds distinct).1 judge.id).mpr ⟨judge, listed, rfl, proven_mono entries judge within proven⟩
    refine ⟨known, fun job member same point wrote id named => ?_⟩
    cases List.inj_on_of_nodup_map distinct member listed same
    rcases proven.2.2 point wrote id named with current | ⟨next, other, sure, replacing, replaces⟩
    · exact .current current
    · have replacing_writes : replacing ∈ next.writes :=
        List.mem_filter.mpr ⟨replaces.1, PromotionPoint.writes_of_supersedes (decide_eq_true replaces.2.1)⟩
      obtain ⟨beyond, written⟩ :=
        List.exists_mem_of_ne_nil _ ((proven_of_certified distinct other sure.1).1.written replacing replacing_writes)
      exact .replaced other sure.1 replaces written (sure.2 next other rfl replacing replacing_writes beyond written)
  rw [← (coe_completedJobIds distinct).1] at all
  exact (all certified).2 job member rfl point wrote id named

theorem not_certified_of_unanchored {group : Set String} (unanchored : Unanchored jobs entries group) {id : String}
    (certified : id ∈ (completedJobIds jobs entries).1) : id ∉ group := by
  have outside : (judgedJobs jobs entries).lfp ≤ {other | other ∉ group} := by
    apply OrderHom.lfp_le
    intro key inside grouped
    obtain ⟨job, member, rfl, proven⟩ := mem_judgedJobs.mp inside
    obtain ⟨point, wrote, id, named, past, unanswered⟩ := unanchored job member grouped
    exact (proven.2.2 point wrote id named).elim past unanswered
  rw [← (coe_completedJobIds distinct).1] at outside
  exact outside certified

end Least

/-- What is certified does not depend on the order of the jobs. Where each job has its own id, as the primary
key of the ledger has it, it is the least set that its own jobs account for. -/
theorem completion_certifies_least (jobs : List DistillJob) (entries : Finset String) :
    (∀ others : List DistillJob, others.Perm jobs → completedJobIds others entries = completedJobIds jobs entries) ∧
      ((jobs.map (·.id)).Nodup →
        IsLeast {certified | Consistent jobs entries certified} ↑(completedJobIds jobs entries).1 ∧
        ↑(completedJobIds jobs entries).2 = SupersededBy jobs ↑(completedJobIds jobs entries).1 ∧
        (∀ job ∈ jobs, job.id ∈ (completedJobIds jobs entries).1 → ∀ point ∈ job.writes, ∀ id ∈ point.canonicalTruthIds,
          Joined jobs entries ↑(completedJobIds jobs entries).1 id) ∧
        ∀ group, Unanchored jobs entries group → ∀ id ∈ (completedJobIds jobs entries).1, id ∉ group) := by
  refine ⟨fun _ same => rounds_perm same (∅, ∅), fun distinct => ?_⟩
  refine ⟨isLeast_completedJobIds distinct, (coe_completedJobIds distinct).2, ?_, ?_⟩
  · intro job member certified point wrote id named
    exact joined_of_certified distinct member certified wrote named
  · intro group unanchored id certified
    exact not_certified_of_unanchored distinct unanchored certified

/-! ### A chain and a cycle -/

def writing (id written : String) (replaced : List String) : DistillJob where
  id := id
  sourceRevision := "revision"
  status := .completed
  completionDisposition := some .promoted
  outputCandidateIds := [id]
  structuralAudit := { coverage := some "complete", expectedChunks := some 0, completedChunks := some 0 }
  promotionSummary := {
    promoted := 1
    points := [⟨some id, some .replace, [written], replaced⟩]
    readback := some { sourceRevision := some "revision", verified := true } }

/-- Two jobs in a chain to the current statement `c`, and one that replaced its own statement. -/
def chained : List DistillJob := [writing "first" "a" [], writing "second" "c" ["a"], writing "cycle" "d" ["d"]]

theorem completedJobIds_chained : completedJobIds chained {"c"} = ({"second", "first"}, {"a"}) := by
  unfold completedJobIds
  rw [rounds, if_neg (by decide), rounds, if_neg (by decide), rounds, if_pos (by decide)]
  decide

theorem completion_certifies_chained :
    (chained.map (·.id)).Nodup ∧ completedJobIds chained {"c"} = ({"second", "first"}, {"a"}) ∧
      IsLeast {certified | Consistent chained {"c"} certified} ↑(completedJobIds chained {"c"}).1 :=
  have distinct : (chained.map (·.id)).Nodup := by decide
  ⟨distinct, completedJobIds_chained, ((completion_certifies_least chained {"c"}).2 distinct).1⟩

end HarnessMem.Sessions
