import HarnessMem.Library.Text
import Mathlib.Algebra.BigOperators.Group.List.Basic
import Mathlib.Data.List.Dedup

/-! The layers of a context plan under their budgets of entries and characters, and the
receipt that says what was kept, shortened and evicted.
-/

set_option autoImplicit false

namespace HarnessMem.Context

open Library

abbrev Text := List Char

inductive LayerId where
  | l0 | l1 | l2 | l3 | l4
  deriving DecidableEq, Repr

def layerOrder : List LayerId := [.l0, .l1, .l2, .l3, .l4]

theorem mem_layerOrder (layer : LayerId) : layer ∈ layerOrder := by
  cases layer <;> decide

inductive TruthStatus where
  | confirmedCurrent | pending | historical
  deriving DecidableEq, Repr

structure Budget where
  maxEntries : Nat
  maxChars : Option Nat := none
  positive : 0 < maxEntries

structure DrilldownPointer where
  sourceId : String
  readSurface : String
  locator : List (String × String) := []
  deriving DecidableEq

structure PlanEntry where
  layer : LayerId
  sourceIds : List String
  whyIncluded : String
  summary : Text := []
  drilldown : Option DrilldownPointer := none
  truthStatus : TruthStatus := .confirmedCurrent
  sourced : sourceIds ≠ [] := by decide
  explained : whyIncluded ≠ "" := by decide

structure TruncationAccounting where
  available : Nat
  included : Nat
  dropped : Nat
  deriving DecidableEq

structure Layer where
  layer : LayerId
  entries : List PlanEntry
  budget : Budget
  truncation : TruncationAccounting

structure BudgetTrace where
  beforeText : Text := []
  afterText : Text := []
  evictedSourceIds : List String := []
  truncatedSourceIds : List String := []

/-! ### One layer -/

def truncateToCharBudget (value : Text) (maxChars : Nat) : Text :=
  if maxChars = 0 then []
  else if value.length ≤ maxChars then value
  else if maxChars = 1 then ['…']
  else (value.take (maxChars - 1)).rdropWhile isSpace ++ ['…']

/-- `"\n".join(text for text in texts if text)`. -/
def joinFilled (texts : List Text) : Text := List.intercalate ['\n'] (texts.filter (· ≠ []))

def projectionText (entries : List PlanEntry) : Text := joinFilled (entries.map (·.summary))

/-- `_dedupe`: the texts that are not empty, each where it comes first. -/
def dedupe (values : List String) : List String := values.foldl
  (fun result value => if value ≠ "" ∧ value ∉ result then result ++ [value] else result) []

/-- `_source_ids`. -/
def sourceIdsOf (entries : List PlanEntry) : List String := dedupe (entries.flatMap (·.sourceIds))

/-- The loop variables of `_apply_budget`. -/
structure Progress where
  selected : List PlanEntry := []
  evicted : List PlanEntry := []
  truncatedSourceIds : List String := []
  remainingChars : Option Nat

def separatorChars (selected : List PlanEntry) : Nat := if selected.any (·.summary ≠ []) then 1 else 0

/-- One candidate in the loop of `_apply_budget`. -/
def consider (maxEntries : Nat) (progress : Progress) (candidate : PlanEntry) : Progress :=
  if maxEntries ≤ progress.selected.length then { progress with evicted := progress.evicted ++ [candidate] }
  else
    match progress.remainingChars with
    | none => { progress with selected := progress.selected ++ [candidate] }
    | some remaining =>
      if candidate.summary = [] then { progress with selected := progress.selected ++ [candidate] }
      else
        let requiredChars := separatorChars progress.selected + candidate.summary.length
        if remaining ≤ separatorChars progress.selected then { progress with evicted := progress.evicted ++ [candidate] }
        else if requiredChars ≤ remaining then
          { progress with selected := progress.selected ++ [candidate], remainingChars := some (remaining - requiredChars) }
        else
          let summary := truncateToCharBudget candidate.summary (remaining - separatorChars progress.selected)
          { progress with
            selected := progress.selected ++ [{ candidate with summary := summary }]
            truncatedSourceIds := progress.truncatedSourceIds ++ candidate.sourceIds
            remainingChars := some 0 }

/-- `_apply_budget` with the trace it appends. -/
def applyBudget (layer : LayerId) (candidates : List PlanEntry) (budget : Budget) : Layer × BudgetTrace :=
  let progress := candidates.foldl (consider budget.maxEntries) { remainingChars := budget.maxChars }
  let included := progress.selected.length
  ({ layer := layer
     entries := progress.selected
     budget := budget
     truncation := ⟨candidates.length, included, candidates.length - included⟩ },
   { beforeText := projectionText candidates
     afterText := projectionText progress.selected
     evictedSourceIds := sourceIdsOf progress.evicted
     truncatedSourceIds := progress.truncatedSourceIds })

/-! ### The receipt -/

inductive TokenBasis where
  | observedUsage | tokenizerEstimate | characterEstimate
  deriving DecidableEq, Repr

inductive ProjectionOutcome where
  | none | truncated | evicted
  deriving DecidableEq, Repr

/-- `token_estimator`: how texts are counted, and whether a tokenizer does it. -/
structure TokenCounter where
  countTokens : Text → Nat
  heuristic : Bool

def charHeuristic : TokenCounter := ⟨fun text => text.length / 4, true⟩

def TokenCounter.estimatedTokens (counter : TokenCounter) (value : Text) : Nat × TokenBasis :=
  if value = [] then (0, .tokenizerEstimate)
  else (counter.countTokens value, if counter.heuristic then .characterEstimate else .tokenizerEstimate)

structure ContextProjectionReceipt where
  sourceRevision : Option String
  beforeTokens : Nat
  afterTokens : Nat
  keptSourceIds : List String
  evictedSourceIds : List String
  tokenBasis : TokenBasis
  outcome : ProjectionOutcome
  summaryGenerated : Bool
  drilldown : List DrilldownPointer

def drilldowns (layers : List Layer) : List DrilldownPointer :=
  (layers.flatMap (·.entries)).filterMap (·.drilldown)

def receiptSourceRevision (layers : List Layer) (explicitRevision : Option String) : Option String :=
  match explicitRevision with
  | some revision => if revision ≠ "" then some revision else found
  | none => found
where
  found : Option String :=
    match dedupe ((drilldowns layers).filterMap fun pointer => pointer.locator.lookup "source_revision") with
    | [revision] => some revision
    | _ => none

/-- `_projection_receipt`, the total of the observed usage given. -/
def projectionReceipt (counter : TokenCounter) (layers : List Layer) (traces : List BudgetTrace) (observedTotal : Option Nat)
    (sourceRevision : Option String) : ContextProjectionReceipt :=
  let before := counter.estimatedTokens (joinFilled (traces.map (·.beforeText)))
  let after := counter.estimatedTokens (joinFilled (traces.map (·.afterText)))
  let cut := traces.any fun trace => trace.evictedSourceIds ≠ [] || trace.truncatedSourceIds ≠ []
  let (beforeTokens, afterTokens, tokenBasis) : Nat × Nat × TokenBasis :=
    match observedTotal with
    | some total => (if cut then max before.1 total else total, total, .observedUsage)
    | none =>
      (before.1, after.1, if .characterEstimate ∈ [before.2, after.2] then .characterEstimate else .tokenizerEstimate)
  let keptSourceIds := sourceIdsOf (layers.flatMap (·.entries))
  let evictedSourceIds := (dedupe (traces.flatMap (·.evictedSourceIds))).filter (· ∉ keptSourceIds)
  let truncatedSourceIds := dedupe (traces.flatMap (·.truncatedSourceIds))
  { sourceRevision := receiptSourceRevision layers sourceRevision
    beforeTokens
    afterTokens
    keptSourceIds
    evictedSourceIds
    tokenBasis
    outcome := if truncatedSourceIds ≠ [] then .truncated else if evictedSourceIds ≠ [] then .evicted else .none
    summaryGenerated := false
    drilldown := drilldowns layers }

/-- The five layers of `assemble_context_plan` with their traces, from the candidates of each. -/
def budgetedLayers (candidates : LayerId → List PlanEntry) (budgets : LayerId → Budget) : List (Layer × BudgetTrace) :=
  layerOrder.map fun layer => applyBudget layer (candidates layer) (budgets layer)

end HarnessMem.Context

/-! What a budget keeps of the candidates of a layer, and what the receipt of five layers says
of it.
-/

namespace HarnessMem.Context

open Library

/-! ### The length of what is joined -/

def weight (texts : List Text) : Nat := (texts.map fun text => if text = [] then 0 else text.length + 1).sum

theorem weight_append (first second : List Text) : weight (first ++ second) = weight first + weight second := by
  simp [weight]

theorem weight_cons (text : Text) (texts : List Text) :
    weight (text :: texts) = (if text = [] then 0 else text.length + 1) + weight texts := by
  simp [weight]

theorem weight_eq_zero_iff {texts : List Text} : weight texts = 0 ↔ ∀ text ∈ texts, text = [] := by
  induction texts with
  | nil => simp [weight]
  | cons text texts ih =>
    rw [weight_cons, Nat.add_eq_zero_iff, ih, List.forall_mem_cons]
    simp

theorem length_intercalate_filled {texts : List Text} (filled : ∀ text ∈ texts, text ≠ []) :
    (List.intercalate ['\n'] texts).length = weight texts - 1 := by
  induction texts with
  | nil => rfl
  | cons text others ih =>
    have here : weight (text :: others) = text.length + 1 + weight others := by
      rw [weight_cons, if_neg (filled text List.mem_cons_self)]
    cases others with
    | nil => rw [here]; simp [List.intercalate, weight]
    | cons next others =>
      have more := ih fun text member => filled text (List.mem_cons_of_mem _ member)
      have next_filled : 0 < weight (next :: others) := by
        rw [Nat.pos_iff_ne_zero, Ne, weight_eq_zero_iff]
        exact fun empty => filled next (by simp) (empty next List.mem_cons_self)
      rw [List.intercalate_cons_cons, List.length_append, List.length_append, List.length_singleton, more, here]
      omega

theorem length_joinFilled (texts : List Text) : (joinFilled texts).length = weight texts - 1 := by
  have same : weight (texts.filter (· ≠ [])) = weight texts := by
    induction texts with
    | nil => rfl
    | cons text texts ih =>
      rw [List.filter_cons, weight_cons, ← ih]
      by_cases empty : text = []
      · simp [empty]
      · simp [empty, weight_cons]
  unfold joinFilled
  rw [length_intercalate_filled (fun text member => of_decide_eq_true (List.mem_filter.mp member).2), same]

theorem weight_joinFilled (groups : List (List Text)) : weight (groups.map joinFilled) = weight groups.flatten := by
  induction groups with
  | nil => rfl
  | cons texts groups ih =>
    rw [List.map_cons, weight_cons, ih, List.flatten_cons, weight_append]
    congr 1
    split
    · next empty =>
      symm
      rw [weight_eq_zero_iff]
      intro text member
      by_contra filled
      have none : texts.filter (· ≠ []) = [] := by
        by_contra some_
        obtain ⟨first, rest, shape⟩ := List.exists_cons_of_ne_nil some_
        have first_filled : first ≠ [] := of_decide_eq_true (List.mem_filter.mp (shape ▸ List.mem_cons_self : first ∈ _)).2
        have length := congrArg List.length empty
        unfold joinFilled at length
        rw [shape] at length
        cases rest with
        | nil => exact first_filled (by simpa [List.intercalate] using length)
        | cons next rest => simp [List.intercalate_cons_cons] at length
      exact absurd (List.mem_filter.mpr ⟨member, decide_eq_true filled⟩) (none ▸ List.not_mem_nil)
    · next filled =>
      have := List.length_pos_of_ne_nil filled
      rw [length_joinFilled] at this ⊢
      omega

/-! ### One candidate -/

theorem truncateToCharBudget_fits {value : Text} {maxChars : Nat} (positive : 0 < maxChars) (long : maxChars < value.length) :
    truncateToCharBudget value maxChars ≠ [] ∧ (truncateToCharBudget value maxChars).length ≤ maxChars := by
  unfold truncateToCharBudget
  rw [if_neg (by omega), if_neg (by omega)]
  split
  · next single => simp [single]
  · have kept : ((value.take (maxChars - 1)).rdropWhile isSpace).length ≤ maxChars - 1 := by
      calc ((value.take (maxChars - 1)).rdropWhile isSpace).length
          ≤ (value.take (maxChars - 1)).length := (List.rdropWhile_prefix _ _).length_le
        _ ≤ maxChars - 1 := List.length_take_le _ _
    refine ⟨by simp, ?_⟩
    rw [List.length_append, List.length_singleton]
    omega

/-- What the loop does with a candidate. -/
inductive Considered (maxEntries : Nat) (progress : Progress) (candidate : PlanEntry) : Progress → Prop
  | evicted : Considered maxEntries progress candidate { progress with evicted := progress.evicted ++ [candidate] }
  | free (room : progress.selected.length < maxEntries)
      (unbounded : progress.remainingChars = none ∨ candidate.summary = []) :
      Considered maxEntries progress candidate { progress with selected := progress.selected ++ [candidate] }
  | whole {remaining : Nat} (room : progress.selected.length < maxEntries) (left : progress.remainingChars = some remaining)
      (filled : candidate.summary ≠ []) (fits : separatorChars progress.selected + candidate.summary.length ≤ remaining) :
      Considered maxEntries progress candidate
        { progress with
          selected := progress.selected ++ [candidate]
          remainingChars := some (remaining - (separatorChars progress.selected + candidate.summary.length)) }
  | shortened {remaining : Nat} {summary : Text} (room : progress.selected.length < maxEntries)
      (left : progress.remainingChars = some remaining) (filled : summary ≠ [])
      (fits : separatorChars progress.selected + summary.length ≤ remaining) (shorter : summary.length < candidate.summary.length) :
      Considered maxEntries progress candidate
        { progress with
          selected := progress.selected ++ [{ candidate with summary := summary }]
          truncatedSourceIds := progress.truncatedSourceIds ++ candidate.sourceIds
          remainingChars := some 0 }

theorem considered (maxEntries : Nat) (progress : Progress) (candidate : PlanEntry) :
    Considered maxEntries progress candidate (consider maxEntries progress candidate) := by
  unfold consider
  split
  · exact .evicted
  · next room =>
    have room := Nat.lt_of_not_le room
    split
    · next unbounded => exact .free room (.inl unbounded)
    · next remaining left =>
      split
      · next empty => exact .free room (.inr empty)
      · next filled =>
        dsimp only
        by_cases full : remaining ≤ separatorChars progress.selected
        · rw [if_pos full]
          exact .evicted
        · rw [if_neg full]
          by_cases fits : separatorChars progress.selected + candidate.summary.length ≤ remaining
          · rw [if_pos fits]
            exact .whole room left filled fits
          · rw [if_neg fits]
            have cut := @truncateToCharBudget_fits candidate.summary (remaining - separatorChars progress.selected)
              (by omega) (by omega)
            exact .shortened room left cut.1 (by omega) (by omega)

/-! ### A whole layer -/

/-- What is selected from candidates in their order, which of them are evicted, and which go in with a shorter summary. -/
inductive Selection : List PlanEntry → List PlanEntry → List PlanEntry → List PlanEntry → Prop
  | nil : Selection [] [] [] []
  | evict {candidate : PlanEntry} {candidates selected evicted shortened : List PlanEntry}
      (rest : Selection candidates selected evicted shortened) :
      Selection (candidate :: candidates) selected (candidate :: evicted) shortened
  | keep {candidate : PlanEntry} {candidates selected evicted shortened : List PlanEntry}
      (rest : Selection candidates selected evicted shortened) :
      Selection (candidate :: candidates) (candidate :: selected) evicted shortened
  | shorten {candidate : PlanEntry} {candidates selected evicted shortened : List PlanEntry} (summary : Text)
      (filled : summary ≠ []) (shorter : summary.length < candidate.summary.length)
      (rest : Selection candidates selected evicted shortened) :
      Selection (candidate :: candidates) ({ candidate with summary := summary } :: selected) evicted (candidate :: shortened)

namespace Selection
variable {candidates selected evicted shortened : List PlanEntry}

theorem length_eq (selection : Selection candidates selected evicted shortened) :
    candidates.length = selected.length + evicted.length := by
  induction selection with
  | nil => rfl
  | evict _ ih | keep _ ih | shorten _ _ _ _ ih => simp only [List.length_cons]; omega

theorem mem_sourceIds (selection : Selection candidates selected evicted shortened) (id : String) :
    id ∈ candidates.flatMap (·.sourceIds) ↔ id ∈ selected.flatMap (·.sourceIds) ∨ id ∈ evicted.flatMap (·.sourceIds) := by
  induction selection with
  | nil => simp
  | evict _ ih | keep _ ih | shorten _ _ _ _ ih =>
    simp only [List.flatMap_cons, List.mem_append, ih]
    tauto

theorem weight_le (selection : Selection candidates selected evicted shortened) :
    weight (selected.map (·.summary)) ≤ weight (candidates.map (·.summary)) := by
  induction selection with
  | nil => rfl
  | evict _ ih | keep _ ih =>
    simp only [List.map_cons, weight_cons]
    omega
  | shorten summary filled shorter _ ih =>
    have longer := List.ne_nil_of_length_pos (Nat.zero_lt_of_lt shorter)
    simp only [List.map_cons, weight_cons, if_neg filled, if_neg longer]
    omega

end Selection

def Progress.Spent (progress : Progress) : Prop :=
  progress.remainingChars = some 0 ∧ separatorChars progress.selected = 1

theorem separatorChars_append {selected : List PlanEntry} {entry : PlanEntry} :
    separatorChars selected = 1 ∨ entry.summary ≠ [] → separatorChars (selected ++ [entry]) = 1 := by
  unfold separatorChars
  rw [List.any_append]
  intro filled
  rw [if_pos]
  rcases filled with before | here
  · simp only [Bool.or_eq_true]
    left
    by_contra none
    rw [if_neg none] at before
    cases before
  · simp [here]

theorem selection_consider (maxEntries : Nat) (candidates : List PlanEntry) (progress : Progress) :
    ∃ selected evicted shortened, Selection candidates selected evicted shortened ∧
      (candidates.foldl (consider maxEntries) progress).selected = progress.selected ++ selected ∧
      (candidates.foldl (consider maxEntries) progress).evicted = progress.evicted ++ evicted ∧
      (candidates.foldl (consider maxEntries) progress).truncatedSourceIds =
        progress.truncatedSourceIds ++ shortened.flatMap (·.sourceIds) ∧
      shortened.length ≤ 1 ∧ (progress.Spent → shortened = []) := by
  induction candidates generalizing progress with
  | nil => exact ⟨[], [], [], .nil, by simp⟩
  | cons candidate candidates ih =>
    rw [List.foldl_cons]
    have step := considered maxEntries progress candidate
    generalize consider maxEntries progress candidate = next at step
    obtain ⟨selected, evicted, shortened, selection, kept, gone, cut, few, spent⟩ := ih next
    rw [kept, gone, cut]
    cases step with
    | evicted =>
      exact ⟨selected, candidate :: evicted, shortened, .evict selection, rfl, by simp, rfl, few, spent⟩
    | free =>
      refine ⟨candidate :: selected, evicted, shortened, .keep selection, by simp, rfl, rfl, few, fun done => spent ?_⟩
      exact ⟨done.1, separatorChars_append (.inl done.2)⟩
    | @whole remaining _ left filled fits =>
      refine ⟨candidate :: selected, evicted, shortened, .keep selection, by simp, rfl, rfl, few, fun done => ?_⟩
      rw [done.1, Option.some.injEq] at left
      have := done.2
      omega
    | @shortened remaining summary _ left filled fits shorter =>
      -- nothing is left behind a shortened summary, so no other one is shortened
      have none : shortened = [] := spent ⟨rfl, separatorChars_append (.inr filled)⟩
      subst none
      refine ⟨{ candidate with summary := summary } :: selected, evicted, [candidate], .shorten summary filled shorter selection,
        by simp, rfl, by simp, le_refl _, fun done => ?_⟩
      rw [done.1, Option.some.injEq] at left
      have := done.2
      have := List.length_pos_of_ne_nil filled
      omega

def Progress.Within (budget : Budget) (progress : Progress) : Prop :=
  progress.selected.length ≤ budget.maxEntries ∧
    ∀ maxChars, budget.maxChars = some maxChars →
      ∃ remaining, progress.remainingChars = some remaining ∧ (projectionText progress.selected).length + remaining ≤ maxChars

theorem length_projectionText_append (selected : List PlanEntry) (entry : PlanEntry) :
    (projectionText (selected ++ [entry])).length =
      (projectionText selected).length + if entry.summary = [] then 0 else separatorChars selected + entry.summary.length := by
  have none_iff : separatorChars selected = 0 ↔ weight (selected.map (·.summary)) = 0 := by
    rw [weight_eq_zero_iff]
    simp [separatorChars]
  have cases_ : separatorChars selected = 0 ∨ separatorChars selected = 1 := by
    unfold separatorChars
    split <;> simp
  unfold projectionText
  rw [length_joinFilled, length_joinFilled, List.map_append, weight_append, List.map_singleton, weight_cons]
  have empty : weight [] = 0 := rfl
  split <;> omega

theorem within_consider {budget : Budget} {progress : Progress} (within : progress.Within budget) (candidate : PlanEntry) :
    (consider budget.maxEntries progress candidate).Within budget := by
  have step := considered budget.maxEntries progress candidate
  generalize consider budget.maxEntries progress candidate = next at step
  obtain ⟨few, short⟩ := within
  have room_append (entry : PlanEntry) (room : progress.selected.length < budget.maxEntries) :
      (progress.selected ++ [entry]).length ≤ budget.maxEntries := by
    rw [List.length_append, List.length_singleton]
    exact room
  cases step with
  | evicted => exact ⟨few, short⟩
  | free room unbounded =>
    refine ⟨room_append _ room, fun maxChars capped => ?_⟩
    obtain ⟨remaining, left, fits⟩ := short maxChars capped
    refine ⟨remaining, left, ?_⟩
    dsimp only
    rw [length_projectionText_append]
    rcases unbounded with none | empty
    · rw [none] at left
      cases left
    · rw [if_pos empty]
      exact fits
  | @whole remaining room left filled fits =>
    refine ⟨room_append _ room, fun maxChars capped => ⟨_, rfl, ?_⟩⟩
    obtain ⟨same, known, bound⟩ := short maxChars capped
    rw [left, Option.some.injEq] at known
    dsimp only
    rw [length_projectionText_append, if_neg filled]
    omega
  | @shortened remaining summary room left filled fits shorter =>
    refine ⟨room_append _ room, fun maxChars capped => ⟨_, rfl, ?_⟩⟩
    obtain ⟨same, known, bound⟩ := short maxChars capped
    rw [left, Option.some.injEq] at known
    dsimp only
    rw [length_projectionText_append, if_neg filled]
    dsimp only
    omega

theorem within_run {budget : Budget} (candidates : List PlanEntry) {progress : Progress} (within : progress.Within budget) :
    (candidates.foldl (consider budget.maxEntries) progress).Within budget := by
  induction candidates generalizing progress with
  | nil => exact within
  | cons candidate candidates ih => exact ih (within_consider within candidate)

/-- The candidates of a layer that its budget evicts, and those whose summaries it shortens. -/
structure Cut where
  evicted : List PlanEntry
  shortened : List PlanEntry

/-- A layer holds a selection of its candidates within the budget, and accounts for all of them. -/
structure Exact (candidates : List PlanEntry) (budget : Budget) (layer : Layer) (cut : Cut) : Prop where
  selection : Selection candidates layer.entries cut.evicted cut.shortened
  altered : cut.shortened.length ≤ 1
  entries : layer.entries.length ≤ budget.maxEntries
  chars : ∀ maxChars, budget.maxChars = some maxChars → (projectionText layer.entries).length ≤ maxChars
  accounted : layer.truncation.available = candidates.length ∧ layer.truncation.included = layer.entries.length ∧
    layer.truncation.dropped = cut.evicted.length ∧
    layer.truncation.available = layer.truncation.included + layer.truncation.dropped

theorem exact_applyBudget (layer : LayerId) (candidates : List PlanEntry) (budget : Budget) :
    ∃ cut, Exact candidates budget (applyBudget layer candidates budget).1 cut ∧
      (applyBudget layer candidates budget).2 = {
        beforeText := projectionText candidates
        afterText := projectionText (applyBudget layer candidates budget).1.entries
        evictedSourceIds := sourceIdsOf cut.evicted
        truncatedSourceIds := cut.shortened.flatMap (·.sourceIds) } := by
  have start : Progress.Within budget { remainingChars := budget.maxChars } := by
    refine ⟨Nat.zero_le _, fun maxChars capped => ⟨maxChars, capped, ?_⟩⟩
    rw [projectionText, length_joinFilled]
    exact (Nat.zero_add _).le
  obtain ⟨few, short⟩ := within_run candidates start
  obtain ⟨selected, evicted, shortened, selection, kept, gone, cut, altered, -⟩ :=
    selection_consider budget.maxEntries candidates { remainingChars := budget.maxChars }
  simp only [List.nil_append] at kept gone cut
  have total := selection.length_eq
  refine ⟨⟨evicted, shortened⟩, ⟨?_, altered, few, ?_, rfl, rfl, ?_, ?_⟩, ?_⟩
  · dsimp only [applyBudget]
    rwa [kept]
  · intro maxChars capped
    obtain ⟨remaining, -, fits⟩ := short maxChars capped
    exact (Nat.le_add_right _ _).trans fits
  · dsimp only [applyBudget]
    rw [kept]
    omega
  · dsimp only [applyBudget]
    rw [kept]
    omega
  · dsimp only [applyBudget]
    rw [kept, gone, cut]

/-! ### The receipt of all layers -/

theorem mem_dedupe {values : List String} {value : String} : value ∈ dedupe values ↔ value ∈ values ∧ value ≠ "" := by
  have fold (result : List String) : value ∈ values.foldl (fun result value =>
      if value ≠ "" ∧ value ∉ result then result ++ [value] else result) result ↔
        value ∈ result ∨ value ∈ values ∧ value ≠ "" := by
    induction values generalizing result with
    | nil => simp
    | cons first values ih =>
      rw [List.foldl_cons, ih]
      split
      · next fresh =>
        rw [List.mem_append, List.mem_singleton, List.mem_cons]
        constructor
        · rintro ((before | rfl) | later)
          · exact .inl before
          · exact .inr ⟨.inl rfl, fresh.1⟩
          · exact .inr ⟨.inr later.1, later.2⟩
        · rintro (before | ⟨rfl | later, filled⟩)
          · exact .inl (.inl before)
          · exact .inl (.inr rfl)
          · exact .inr ⟨later, filled⟩
      · next known =>
        rw [List.mem_cons]
        constructor
        · exact fun inside => inside.imp_right fun later => ⟨.inr later.1, later.2⟩
        · rintro (before | ⟨rfl | later, filled⟩)
          · exact .inl before
          · exact .inl (not_not.mp fun apart => known ⟨filled, apart⟩)
          · exact .inr ⟨later, filled⟩
  unfold dedupe
  rw [fold]
  simp

theorem dedupe_eq_nil_iff {values : List String} : dedupe values = [] ↔ ∀ value ∈ values, value = "" := by
  rw [List.eq_nil_iff_forall_not_mem]
  exact forall_congr' fun value => by rw [mem_dedupe, not_and, not_not]

theorem mem_sourceIdsOf {entries : List PlanEntry} {id : String} :
    id ∈ sourceIdsOf entries ↔ id ∈ entries.flatMap (·.sourceIds) ∧ id ≠ "" := mem_dedupe

theorem estimatedTokens_charHeuristic (text : Text) : (charHeuristic.estimatedTokens text).1 = text.length / 4 := by
  unfold TokenCounter.estimatedTokens
  split
  · next empty => rw [empty]; rfl
  · rfl

section Receipt
variable (candidates : LayerId → List PlanEntry) (budgets : LayerId → Budget) (sourceRevision : Option String)

def layers : List Layer := (budgetedLayers candidates budgets).map (·.1)

def receipt : ContextProjectionReceipt :=
  projectionReceipt charHeuristic (layers candidates budgets) ((budgetedLayers candidates budgets).map (·.2)) none sourceRevision

variable {candidates budgets} {cut : LayerId → Cut}
  (exact_ : ∀ id, Exact (candidates id) (budgets id) (applyBudget id (candidates id) (budgets id)).1 (cut id))
  (traced : ∀ id, (applyBudget id (candidates id) (budgets id)).2 = {
    beforeText := projectionText (candidates id)
    afterText := projectionText (applyBudget id (candidates id) (budgets id)).1.entries
    evictedSourceIds := sourceIdsOf (cut id).evicted
    truncatedSourceIds := (cut id).shortened.flatMap (·.sourceIds) })

theorem mem_keptSourceIds {source : String} : source ∈ (receipt candidates budgets sourceRevision).keptSourceIds ↔
    source ≠ "" ∧ ∃ id, ∃ entry ∈ (applyBudget id (candidates id) (budgets id)).1.entries, source ∈ entry.sourceIds := by
  change source ∈ sourceIdsOf _ ↔ _
  rw [mem_sourceIdsOf, layers, budgetedLayers]
  simp only [List.map_map, List.mem_flatMap, List.mem_map, Function.comp_apply]
  constructor
  · rintro ⟨⟨entry, ⟨_, ⟨id, _, rfl⟩, member⟩, named⟩, filled⟩
    exact ⟨filled, id, entry, member, named⟩
  · rintro ⟨filled, id, entry, member, named⟩
    exact ⟨⟨entry, ⟨_, ⟨id, mem_layerOrder id, rfl⟩, member⟩, named⟩, filled⟩

include traced

theorem mem_evictedSourceIds {source : String} : source ∈ (receipt candidates budgets sourceRevision).evictedSourceIds ↔
    source ≠ "" ∧ (∃ id, ∃ entry ∈ (cut id).evicted, source ∈ entry.sourceIds) ∧
      source ∉ (receipt candidates budgets sourceRevision).keptSourceIds := by
  change source ∈ (dedupe _).filter _ ↔ _
  rw [List.mem_filter, mem_dedupe, decide_eq_true_eq, budgetedLayers, List.map_map, List.mem_flatMap]
  simp only [List.mem_map, Function.comp_apply]
  constructor
  · rintro ⟨⟨⟨_, ⟨id, _, rfl⟩, member⟩, filled⟩, apart⟩
    rw [traced id] at member
    obtain ⟨entry, gone, named⟩ := List.mem_flatMap.mp (mem_sourceIdsOf.mp member).1
    exact ⟨filled, ⟨id, entry, gone, named⟩, apart⟩
  · rintro ⟨filled, ⟨id, entry, gone, named⟩, apart⟩
    refine ⟨⟨⟨_, ⟨id, mem_layerOrder id, rfl⟩, ?_⟩, filled⟩, apart⟩
    rw [traced id]
    exact mem_sourceIdsOf.mpr ⟨List.mem_flatMap.mpr ⟨entry, gone, named⟩, filled⟩

theorem outcome_eq_none_iff : (receipt candidates budgets sourceRevision).outcome = .none ↔
    (∀ id, ∀ entry ∈ (cut id).shortened, ∀ source ∈ entry.sourceIds, source = "") ∧
      (receipt candidates budgets sourceRevision).evictedSourceIds = [] := by
  change (if dedupe _ ≠ [] then ProjectionOutcome.truncated else if (receipt candidates budgets sourceRevision).evictedSourceIds ≠ []
    then .evicted else .none) = .none ↔ _
  have shortened : dedupe (((budgetedLayers candidates budgets).map (·.2)).flatMap (·.truncatedSourceIds)) = [] ↔
      ∀ id, ∀ entry ∈ (cut id).shortened, ∀ source ∈ entry.sourceIds, source = "" := by
    rw [dedupe_eq_nil_iff, budgetedLayers, List.map_map]
    constructor
    · intro empty id entry member source named
      refine empty source (List.mem_flatMap.mpr ⟨_, List.mem_map_of_mem (mem_layerOrder id), ?_⟩)
      rw [Function.comp_apply, traced id]
      exact List.mem_flatMap.mpr ⟨entry, member, named⟩
    · intro empty source inside
      obtain ⟨_, member, named⟩ := List.mem_flatMap.mp inside
      obtain ⟨id, _, rfl⟩ := List.mem_map.mp member
      rw [Function.comp_apply, traced id] at named
      obtain ⟨entry, cut_, named⟩ := List.mem_flatMap.mp named
      exact empty id entry cut_ source named
  rw [← shortened]
  by_cases cut_ : dedupe (((budgetedLayers candidates budgets).map (·.2)).flatMap (·.truncatedSourceIds)) = []
  · rw [if_neg (not_not.mpr cut_)]
    by_cases gone : (receipt candidates budgets sourceRevision).evictedSourceIds = [] <;> simp [cut_, gone]
  · rw [if_pos cut_]
    simp [cut_]

include exact_

theorem afterTokens_le : (receipt candidates budgets sourceRevision).afterTokens ≤ (receipt candidates budgets sourceRevision).beforeTokens := by
  change (charHeuristic.estimatedTokens _).1 ≤ (charHeuristic.estimatedTokens _).1
  rw [estimatedTokens_charHeuristic, estimatedTokens_charHeuristic]
  apply Nat.div_le_div_right
  rw [length_joinFilled, length_joinFilled]
  apply Nat.sub_le_sub_right
  have before : ((budgetedLayers candidates budgets).map (·.2)).map (·.beforeText) =
      (layerOrder.map fun id => (candidates id).map (·.summary)).map joinFilled := by
    simp only [budgetedLayers, List.map_map]
    exact List.map_congr_left fun id _ => by rw [Function.comp_apply, Function.comp_apply, traced id]; rfl
  have after : ((budgetedLayers candidates budgets).map (·.2)).map (·.afterText) =
      (layerOrder.map fun id => (applyBudget id (candidates id) (budgets id)).1.entries.map (·.summary)).map joinFilled := by
    simp only [budgetedLayers, List.map_map]
    exact List.map_congr_left fun id _ => by rw [Function.comp_apply, Function.comp_apply, traced id]; rfl
  rw [before, after, weight_joinFilled, weight_joinFilled]
  induction layerOrder with
  | nil => rfl
  | cons id rest ih =>
    simp only [List.map_cons, List.flatten_cons, weight_append]
    exact Nat.add_le_add (exact_ id).selection.weight_le ih

end Receipt

def plainEntry (layer : LayerId) (id summary : String) : PlanEntry :=
  ⟨layer, [id], "recall", summary.toList, none, .confirmedCurrent, by simp, by decide⟩

def surfacedAgain : LayerId → List PlanEntry
  | .l1 => [plainEntry .l1 "k" "Use uv."]
  | .l2 => [plainEntry .l2 "h" "Finish the release.", plainEntry .l2 "k" "Use uv."]
  | _ => []

end HarnessMem.Context
