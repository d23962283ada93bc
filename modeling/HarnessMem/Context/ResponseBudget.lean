import HarnessMem.Library.JsonAccess
import HarnessMem.Library.Settling

/-! The receipt in which a response states its own size, and when what it states is so. -/

set_option autoImplicit false

namespace HarnessMem.ResponseBudget

open Library

abbrev Fields := List (String × JsonValue)

/-- `RESPONSE_BUDGET_CONTRACT_VERSION`. -/
def contractVersion : String := "serialized-response-budget-v1"

def serializeMcpResult (result : Fields) : List Char := (JsonValue.obj result).dumps false

/-- `count_tokens` where no encoder is found. -/
def countTokens (text : List Char) : Nat := text.length / 4

/-- The entries of the receipt that are not the same in all of them. -/
structure Receipt where
  requestedTargetTokens : Nat
  evidenceTokens : Nat
  protocolTokens : Nat := 0
  serializedTokens : Nat := 0
  serializedChars : Nat := 0
  tokenizer : Option String := none
  outcome : String := "within_target"
  reason : Option String := none
  deriving DecidableEq

def optionalText (text : Option String) : JsonValue := text.elim .null .str

def Receipt.fields (receipt : Receipt) : Fields :=
  [("contract_version", .str contractVersion), ("scope", .str "mcp_content_text"),
    ("requested_target_tokens", .int receipt.requestedTargetTokens), ("evidence_tokens", .int receipt.evidenceTokens),
    ("protocol_tokens", .int receipt.protocolTokens), ("protocol_tokens_basis", .str "serialized_minus_evidence_estimate"),
    ("serialized_tokens", .int receipt.serializedTokens), ("serialized_chars", .int receipt.serializedChars),
    ("tokenizer", optionalText receipt.tokenizer), ("outcome", .str receipt.outcome),
    ("reason", optionalText receipt.reason), ("hard_truncation_applied", .bool false)]

/-- The arguments of `attach_response_budget_receipt`. -/
structure Request where
  result : Fields
  requestedTokens : Int
  evidenceTokens : Int := 0
  outcomeHint : Option String := none
  reasonHint : Option String := none

namespace Request

def target (request : Request) : Nat :=
  (max 256 (if request.requestedTokens = 0 then 3000 else request.requestedTokens)).toNat

def evidence (request : Request) : Nat := (max 0 request.evidenceTokens).toNat

def outcome (request : Request) (serializedTokens : Nat) : String :=
  if request.target < serializedTokens then
    (request.outcomeHint.filter (· ≠ "")).getD "expanded_for_required_metadata"
  else "within_target"

def reason (request : Request) (serializedTokens : Nat) : Option String :=
  if request.target < serializedTokens then
    some ((request.reasonHint.filter (· ≠ "")).getD "the complete serialized response exceeds the advisory target")
  else none

def response (request : Request) (receipt : Receipt) : Fields :=
  assign "response_budget" (.obj receipt.fields) request.result

def initial (request : Request) : Receipt :=
  { requestedTargetTokens := request.target, evidenceTokens := request.evidence }

def updated (request : Request) (receipt : Receipt) : Receipt :=
  let serialized := serializeMcpResult (request.response receipt)
  let serializedTokens := countTokens serialized
  { receipt with
    protocolTokens := serializedTokens - request.evidence
    serializedTokens := serializedTokens
    serializedChars := serialized.length
    tokenizer := some "char-heuristic"
    outcome := request.outcome serializedTokens
    reason := request.reason serializedTokens }

def settled (request : Request) : Receipt × Bool := settle request.updated 8 request.initial

end Request

def attachResponseBudgetReceipt (request : Request) : Fields := request.response request.settled.1

/-- `int(value or fallback)`, of an integer. -/
def intOr (fallback : Int) : Option JsonValue → Option Int
  | some (.int value) => some (if value = 0 then fallback else value)
  | some .null | none => some fallback
  | some _ => none

/-- `str(value or "")`, of a text. -/
def textOr : Option JsonValue → Option String
  | some (.str value) => some value
  | some .null | none => some ""
  | some _ => none

/-- `refresh_response_budget_receipt`, where the receipt that is there holds values of the kinds
that `attach_response_budget_receipt` writes. -/
def refreshResponseBudgetReceipt (result : Fields) : Option Fields :=
  match member? result "response_budget" with
  | some (.obj existing) => do
    let outcome ← textOr (member? existing "outcome")
    let requestedTokens ← intOr 3000 (member? existing "requested_target_tokens")
    let evidenceTokens ← intOr 0 (member? existing "evidence_tokens")
    let reason ← textOr (member? existing "reason")
    some (attachResponseBudgetReceipt {
      result, requestedTokens, evidenceTokens
      outcomeHint := if outcome ≠ "" ∧ outcome ≠ "within_target" then some outcome else none
      reasonHint := if reason ≠ "" then some reason else none })
  | _ => some result

/-! ### Sizes -/

def width (value : JsonValue) : Nat := (value.dumps false).length

def fieldsWidth (fields : Fields) : Nat := (JsonValue.dumpsFields false fields).length

theorem fieldsWidth_cons (key : String) (value : JsonValue) (fields : Fields) :
    fieldsWidth ((key, value) :: fields) = (dumpsString false key).length + width value + 2 + fieldsWidth fields := by
  simp only [fieldsWidth, width, JsonValue.dumpsFields, List.length_cons, List.length_append]
  omega

theorem width_obj (field : String × JsonValue) (fields : Fields) :
    width (.obj (field :: fields)) = fieldsWidth (field :: fields) := by
  simp [width, fieldsWidth, JsonValue.dumps, JsonValue.dumpsFields]

theorem length_serialize (result : Fields) (nonempty : result ≠ []) :
    (serializeMcpResult result).length = fieldsWidth result := by
  cases result with
  | nil => exact absurd rfl nonempty
  | cons field fields => exact width_obj field fields

theorem width_int (n : Nat) : width (.int n) = numeralLength n := rfl

theorem le_length_dumpsString (text : String) : text.toList.length + 2 ≤ (dumpsString false text).length := by
  have escaped : ∀ c : Char, 1 ≤ (escapeChar false c).length := by
    intro c
    unfold escapeChar unicodeEscape
    repeat' split
    all_goals simp
  have all : text.toList.length ≤ (text.toList.flatMap (escapeChar false)).length := by
    induction text.toList with
    | nil => exact Nat.le_refl 0
    | cons c rest ih =>
      have one := escaped c
      rw [List.flatMap_cons, List.length_append, List.length_cons]
      omega
  simp only [dumpsString, List.length_cons, List.length_append, List.length_nil]
  omega

theorem le_width_text {text : String} (nonempty : text ≠ "") : 3 ≤ width (.str text) := by
  have chars : text.toList ≠ [] := fun empty => nonempty (String.toList_eq_nil_iff.mp empty)
  have positive := List.length_pos_iff.mpr chars
  have quoted := le_length_dumpsString text
  change 3 ≤ (dumpsString false text).length
  omega

theorem assign_ne_nil (key : String) (value : JsonValue) (result : Fields) : assign key value result ≠ [] := by
  cases result with
  | nil => exact List.cons_ne_nil _ _
  | cons field fields =>
    rw [assign]
    split
    · exact List.cons_ne_nil _ _
    · exact List.cons_ne_nil _ _

theorem fieldsWidth_assign (key : String) (result : Fields) :
    ∃ around, ∀ value, fieldsWidth (assign key value result) = around + width value := by
  induction result with
  | nil =>
    refine ⟨(dumpsString false key).length + 2 + fieldsWidth [], fun value => ?_⟩
    rw [assign, fieldsWidth_cons]
    omega
  | cons field fields ih =>
    obtain ⟨around, rest⟩ := ih
    by_cases same : field.1 = key
    · refine ⟨(dumpsString false key).length + 2 + fieldsWidth fields, fun value => ?_⟩
      rw [assign, if_pos same, fieldsWidth_cons]
      omega
    · refine ⟨(dumpsString false field.1).length + width field.2 + 2 + around, fun value => ?_⟩
      rw [assign, if_neg same, fieldsWidth_cons, rest value]
      omega

theorem assign_assign (key : String) (first second : JsonValue) (result : Fields) :
    assign key second (assign key first result) = assign key second result := by
  induction result with
  | nil => simp [assign]
  | cons field fields ih =>
    by_cases same : field.1 = key
    · rw [assign, if_pos same, assign, if_pos rfl, assign, if_pos same]
    · rw [assign, if_neg same, assign, if_neg same, assign, if_neg same, ih]

theorem member?_assign (key : String) (value : JsonValue) (result : Fields) :
    member? (assign key value result) key = some value := by
  induction result with
  | nil => rw [assign, member?_cons, if_pos rfl]
  | cons field fields ih =>
    by_cases same : field.1 = key
    · rw [assign, if_pos same, member?_cons, if_pos rfl]
    · rw [assign, if_neg same, member?_cons, if_neg same, ih]

namespace Request

variable (request : Request)

/-- The receipt of a response of `n` characters. -/
def receiptOf (n : Nat) : Receipt :=
  { requestedTargetTokens := request.target
    evidenceTokens := request.evidence
    protocolTokens := n / 4 - request.evidence
    serializedTokens := n / 4
    serializedChars := n
    tokenizer := some "char-heuristic"
    outcome := request.outcome (n / 4)
    reason := request.reason (n / 4) }

/-- The characters of the response whose receipt says that it has `n`. -/
def measured (n : Nat) : Nat := (serializeMcpResult (request.response (request.receiptOf n))).length

def Own (receipt : Receipt) : Prop :=
  receipt.requestedTargetTokens = request.target ∧ receipt.evidenceTokens = request.evidence

theorem updated_own {receipt : Receipt} (own : request.Own receipt) :
    request.updated receipt = request.receiptOf (serializeMcpResult (request.response receipt)).length := by
  obtain ⟨target, evidence⟩ := own
  rw [updated, receiptOf, ← target, ← evidence]
  rfl

theorem own_updated {receipt : Receipt} (own : request.Own receipt) : request.Own (request.updated receipt) := own

theorem updated_receiptOf (n : Nat) : request.updated (request.receiptOf n) = request.receiptOf (request.measured n) :=
  request.updated_own ⟨rfl, rfl⟩

def statedWidth (receipt : Receipt) : Nat :=
  numeralLength receipt.protocolTokens + numeralLength receipt.serializedTokens + numeralLength receipt.serializedChars +
    width (optionalText receipt.tokenizer) + width (.str receipt.outcome) + width (optionalText receipt.reason)

theorem width_receipt {first second : Receipt} (own : request.Own first) (own' : request.Own second) :
    width (.obj first.fields) + statedWidth second = width (.obj second.fields) + statedWidth first ∧
      100 + statedWidth first ≤ width (.obj first.fields) := by
  have basis : 100 ≤ (dumpsString false "protocol_tokens_basis").length + width (.str "serialized_minus_evidence_estimate") +
      (dumpsString false "hard_truncation_applied").length + (dumpsString false "requested_target_tokens").length := by
    decide
  obtain ⟨target, evidence⟩ := own
  obtain ⟨target', evidence'⟩ := own'
  simp only [Receipt.fields, statedWidth, width_obj, fieldsWidth_cons, width_int, target, evidence, target', evidence']
  omega

theorem response_length : ∃ base, 100 ≤ base ∧ ∀ receipt, request.Own receipt →
    (serializeMcpResult (request.response receipt)).length = base + statedWidth receipt := by
  obtain ⟨around, whole⟩ := fieldsWidth_assign "response_budget" request.result
  have initial : request.Own request.initial := ⟨rfl, rfl⟩
  refine ⟨around + (width (.obj request.initial.fields) - statedWidth request.initial), ?_, fun receipt own => ?_⟩
  · have large := (request.width_receipt initial initial).2
    omega
  · have shift := request.width_receipt own initial
    rw [response, length_serialize _ (assign_ne_nil _ _ _), whole]
    omega

theorem getD_hint_ne_empty (hint : Option String) {fallback : String} (named : fallback ≠ "") :
    (hint.filter (· ≠ "")).getD fallback ≠ "" := by
  cases held : hint.filter (· ≠ "") with
  | none => exact named
  | some text => simpa using (Option.filter_eq_some_iff.mp held).2

def exceedingWidth (request : Request) : Nat :=
  width (.str (request.outcome (request.target + 1))) + width (optionalText (request.reason (request.target + 1)))

theorem six_le_exceedingWidth : 6 ≤ request.exceedingWidth := by
  have exceeds : request.target < request.target + 1 := Nat.lt_succ_self _
  have outcome := le_width_text (@getD_hint_ne_empty request.outcomeHint "expanded_for_required_metadata" (by decide))
  have reason := le_width_text (@getD_hint_ne_empty request.reasonHint
    "the complete serialized response exceeds the advisory target" (by decide))
  rw [exceedingWidth, Request.outcome, if_pos exceeds, Request.reason, if_pos exceeds]
  exact Nat.add_le_add outcome reason

theorem le_target : 256 ≤ request.target := by
  unfold target
  omega

def stating (within exceeding : Nat) : Stating where
  spent := request.evidence
  bound := 4 * (request.target + 1)
  aligned := Nat.mul_mod_right 4 _
  wide := by
    have wide := request.le_target
    omega
  within
  exceeding

theorem measured_eq : ∃ start exceeding, 100 ≤ start ∧ 100 ≤ exceeding ∧ start + 9 ≤ exceeding + 13 ∧
    (serializeMcpResult (request.response request.initial)).length = start ∧
    ∀ n, request.measured n = (request.stating (start + 9) exceeding).length n := by
  obtain ⟨base, large, lengths⟩ := request.response_length
  have labels := request.six_le_exceedingWidth
  have tokenizer : width (optionalText (some "char-heuristic")) = 16 ∧ width (optionalText none) = 4 ∧
      width (.str "within_target") = 15 ∧ numeralLength 0 = 1 := by
    decide
  refine ⟨base + 26, base + 16 + request.exceedingWidth, by omega, by omega, by omega, ?_, fun n => ?_⟩
  · rw [lengths request.initial ⟨rfl, rfl⟩, statedWidth]
    simp only [initial, tokenizer]
  · rw [measured, lengths (request.receiptOf n) ⟨rfl, rfl⟩, statedWidth]
    by_cases exceeds : request.target < n / 4
    · have past : request.target < request.target + 1 := Nat.lt_succ_self _
      rw [Stating.length_exceeding (show 4 * (request.target + 1) ≤ n by omega), ownLength]
      simp only [receiptOf, outcome, reason, stating, exceedingWidth, if_pos exceeds, if_pos past, tokenizer]
      omega
    · rw [Stating.length_within (show n < 4 * (request.target + 1) by omega), ownLength]
      simp only [receiptOf, outcome, reason, stating, if_neg exceeds, tokenizer]
      omega

/-! ### The loop -/

theorem iterate_updated (n : Nat) :
    request.updated^[n + 1] request.initial =
      request.receiptOf (request.measured^[n] (serializeMcpResult (request.response request.initial)).length) := by
  induction n with
  | zero => exact request.updated_own ⟨rfl, rfl⟩
  | succ n ih => rw [Function.iterate_succ_apply', ih, updated_receiptOf, Function.iterate_succ_apply']

theorem settled_own : request.Own request.settled.1 :=
  settle_keeps (P := request.Own) (fun _ own => own) ⟨rfl, rfl⟩

theorem settled_receipt (rests : request.settled.2 = true) :
    ∃ n, 100 ≤ n ∧ request.settled.1 = request.receiptOf n ∧ request.measured n = n := by
  have fixed : request.updated request.settled.1 = request.settled.1 := settle_fixed rests
  rw [request.updated_own request.settled_own] at fixed
  obtain ⟨base, large, lengths⟩ := request.response_length
  refine ⟨(serializeMcpResult (request.response request.settled.1)).length, ?_, fixed.symm, ?_⟩
  · rw [lengths _ request.settled_own]
    omega
  · rw [measured, fixed]

theorem settled_fits (rests : request.settled.2 = true) :
    ∃ n, request.settled.1 = request.receiptOf n ∧ request.measured n = n ∧
      (n < 4 * (request.target + 1) ∧ request.measured (4 * request.target + 3) ≤ 4 * request.target + 3 ∨
        4 * (request.target + 1) ≤ n ∧ 4 * (request.target + 1) ≤ request.measured (4 * (request.target + 1))) := by
  obtain ⟨start, exceeding, _, _, _, _, measured⟩ := request.measured_eq
  obtain ⟨n, many, receipt, same⟩ := request.settled_receipt rests
  have wide := request.le_target
  refine ⟨n, receipt, same, ?_⟩
  rw [measured] at same
  rw [measured, measured]
  by_cases low : n < 4 * (request.target + 1)
  · exact Or.inl ⟨low, Stating.fits_of_within many low same⟩
  · exact Or.inr ⟨not_lt.mp low, Stating.fits_of_exceeding (not_lt.mp low) same⟩

/-- `sys.maxsize`: no text is longer. -/
def maxsize : Nat := 2 ^ 63 - 1

theorem settled_rests (fits : ∀ n ≤ maxsize, request.measured n ≤ maxsize)
    (labels : request.measured (4 * request.target + 3) ≤ 4 * request.target + 3 ∨
      4 * (request.target + 1) ≤ request.measured (4 * (request.target + 1))) : request.settled.2 = true := by
  obtain ⟨start, exceeding, large, largeExceeding, shorter, first, measured⟩ := request.measured_eq
  have same : request.measured = (request.stating (start + 9) exceeding).length := funext measured
  have startFits : start ≤ maxsize := by
    have zero := fits 0 (Nat.zero_le _)
    rw [measured, Stating.length_within (Nat.mul_pos (by decide) (Nat.succ_pos _))] at zero
    exact (Nat.le_add_right _ _).trans ((Nat.le_add_right _ _).trans zero)
  rw [same] at fits labels
  have rests := Stating.rests large rfl shorter (by decide) startFits fits largeExceeding labels
  apply settle_of_iterate
  rw [iterate_updated, updated_receiptOf, same, first, rests]

/-! ### Refreshing -/

def again (receipt : Receipt) : Request :=
  { result := request.response receipt
    requestedTokens := receipt.requestedTargetTokens
    evidenceTokens := receipt.evidenceTokens
    outcomeHint := if receipt.outcome ≠ "" ∧ receipt.outcome ≠ "within_target" then some receipt.outcome else none
    reasonHint := receipt.reason.filter (· ≠ "") }

section
variable {request} {receipt : Receipt} (own : request.Own receipt)
include own

theorem refresh_response :
    refreshResponseBudgetReceipt (request.response receipt) = some (attachResponseBudgetReceipt (request.again receipt)) := by
  have positive : (receipt.requestedTargetTokens : Int) ≠ 0 := by
    have wide := request.le_target
    rw [own.1]
    omega
  have evidence : intOr 0 (some (.int receipt.evidenceTokens)) = some (receipt.evidenceTokens : Int) := by
    rw [intOr]
    split
    · next zero => rw [zero]
    · rfl
  have reason : textOr (some (optionalText receipt.reason)) = some (receipt.reason.getD "") := by
    cases receipt.reason <;> rfl
  have hint : (if receipt.reason.getD "" ≠ "" then some (receipt.reason.getD "") else none) = receipt.reason.filter (· ≠ "") := by
    cases held : receipt.reason with
    | none => rfl
    | some text => simp [Option.filter]
  have fields : member? receipt.fields "outcome" = some (.str receipt.outcome) ∧
      member? receipt.fields "requested_target_tokens" = some (.int receipt.requestedTargetTokens) ∧
      member? receipt.fields "evidence_tokens" = some (.int receipt.evidenceTokens) ∧
      member? receipt.fields "reason" = some (optionalText receipt.reason) := by
    simp [Receipt.fields, member?_cons]
  unfold refreshResponseBudgetReceipt
  rw [response, member?_assign]
  dsimp only
  rw [fields.1, fields.2.1, fields.2.2.1, fields.2.2.2, evidence, reason, intOr, if_neg positive, textOr]
  simp only [Option.bind_eq_bind, Option.bind_some, hint]
  rfl

theorem target_again : (request.again receipt).target = request.target := by
  have wide := request.le_target
  rw [target, again, own.1]
  dsimp only
  rw [if_neg (by omega)]
  omega

theorem evidence_again : (request.again receipt).evidence = request.evidence := by
  rw [evidence, again, own.2]
  dsimp only
  omega

omit own in
theorem response_again (other : Receipt) : (request.again receipt).response other = request.response other :=
  assign_assign _ _ _ _

theorem initial_again : (request.again receipt).initial = request.initial := by
  rw [initial, target_again own, evidence_again own]
  rfl

end

/-! ### When the receipt is exact -/

/-- Labels that cannot go back and forth: the response stays within the target when its receipt
says so, or it stays beyond when the receipt says that, under an outcome that is kept by a refresh. -/
def LabelsAgree : Prop :=
  request.measured (4 * request.target + 3) ≤ 4 * request.target + 3 ∨
    (4 * (request.target + 1) ≤ request.measured (4 * (request.target + 1)) ∧ request.outcomeHint ≠ some "within_target")

/-- The loop ends because nothing changes, what the receipt says is so of the response it is in,
and a refresh leaves the response as it is. -/
structure Exact : Prop where
  rests : request.settled.2 = true
  serializedChars : request.settled.1.serializedChars = (serializeMcpResult (attachResponseBudgetReceipt request)).length
  serializedTokens : request.settled.1.serializedTokens = countTokens (serializeMcpResult (attachResponseBudgetReceipt request))
  protocolTokens : request.settled.1.protocolTokens =
    countTokens (serializeMcpResult (attachResponseBudgetReceipt request)) - request.evidence
  outcome : request.settled.1.outcome =
    request.outcome (countTokens (serializeMcpResult (attachResponseBudgetReceipt request)))
  refreshed : refreshResponseBudgetReceipt (attachResponseBudgetReceipt request) = some (attachResponseBudgetReceipt request)

variable {request}

theorem getD_hint {text : String} (given : text ≠ "") (fallback : String) :
    ((some text).filter (· ≠ "")).getD fallback = text := by
  simp [Option.filter, given]

theorem outcome_exceeding {n m : Nat} (first : request.target < n) (second : request.target < m) :
    request.outcome n = request.outcome m := by
  rw [outcome, outcome, if_pos first, if_pos second]

theorem updated_again_exceeding {n : Nat} (exceeds : request.target < n / 4)
    (kept : request.outcome (n / 4) ≠ "within_target") : (request.again (request.receiptOf n)).updated = request.updated := by
  have own : request.Own (request.receiptOf n) := ⟨rfl, rfl⟩
  have target := target_again own
  have outcomeAgain : (request.again (request.receiptOf n)).outcome = request.outcome := by
    funext tokens
    by_cases past : request.target < tokens
    · have named : request.outcome (n / 4) ≠ "" := by
        rw [outcome, if_pos exceeds]
        exact getD_hint_ne_empty request.outcomeHint (by decide)
      have hint : (request.again (request.receiptOf n)).outcomeHint = some (request.outcome (n / 4)) := if_pos ⟨named, kept⟩
      rw [outcome_exceeding past exceeds, outcome, target, if_pos past, hint, getD_hint named]
    · rw [outcome, outcome, target, if_neg past, if_neg past]
  have reasonAgain : (request.again (request.receiptOf n)).reason = request.reason := by
    funext tokens
    by_cases past : request.target < tokens
    · have given := @getD_hint_ne_empty request.reasonHint
        "the complete serialized response exceeds the advisory target" (by decide)
      have hint : (request.again (request.receiptOf n)).reasonHint = (request.reason (n / 4)).filter (· ≠ "") := rfl
      rw [reason, if_pos exceeds] at hint
      rw [reason, reason, target, if_pos past, if_pos past, hint, Option.filter_filter]
      simp only [Bool.and_self, getD_hint given]
    · rw [reason, reason, target, if_neg past, if_neg past]
  funext receipt
  rw [updated, updated, response_again, evidence_again own, outcomeAgain, reasonAgain]

def Low (request : Request) (receipt : Receipt) : Prop :=
  request.Own receipt ∧ (serializeMcpResult (request.response receipt)).length < 4 * (request.target + 1)

theorem low_updated (inner : request.measured (4 * request.target + 3) ≤ 4 * request.target + 3) {receipt : Receipt}
    (low : request.Low receipt) : request.Low (request.updated receipt) := by
  obtain ⟨start, exceeding, _, _, _, _, measured⟩ := request.measured_eq
  refine ⟨low.1, ?_⟩
  rw [updated_own _ low.1, show (serializeMcpResult (request.response (request.receiptOf _))).length = request.measured _ from rfl,
    measured]
  rw [measured] at inner
  exact Stating.length_low inner low.2

theorem low_initial (inner : request.measured (4 * request.target + 3) ≤ 4 * request.target + 3) :
    request.Low request.initial := by
  obtain ⟨start, exceeding, _, _, _, first, measured⟩ := request.measured_eq
  rw [measured, Stating.length_within (Nat.lt_succ_self _)] at inner
  dsimp only [stating] at inner
  exact ⟨⟨rfl, rfl⟩, by omega⟩

theorem settled_again_within (inner : request.measured (4 * request.target + 3) ≤ 4 * request.target + 3) {n : Nat} :
    (request.again (request.receiptOf n)).settled = request.settled := by
  have own : request.Own (request.receiptOf n) := ⟨rfl, rfl⟩
  have agree : ∀ receipt, request.Low receipt → request.updated receipt = (request.again (request.receiptOf n)).updated receipt := by
    intro receipt low
    have few : ¬request.target < countTokens (serializeMcpResult (request.response receipt)) := by
      have short := low.2
      rw [countTokens]
      omega
    rw [updated, updated, response_again, evidence_again own]
    simp only [outcome, reason, target_again own, if_neg few]
  rw [settled, settled, initial_again own]
  exact (settle_congr agree (fun _ => low_updated inner) (low_initial inner)).symm

theorem settled_labels : request.settled.1.outcome = request.outcome request.settled.1.serializedTokens := by
  have start : request.initial.outcome = request.outcome request.initial.serializedTokens := (if_neg (Nat.not_lt_zero _)).symm
  exact settle_keeps (P := fun receipt : Receipt => receipt.outcome = request.outcome receipt.serializedTokens) (fun _ _ => rfl) start

theorem response_inj {first second : Receipt} (same : request.response first = request.response second) :
    first.outcome = second.outcome ∧ first.serializedTokens = second.serializedTokens := by
  have fields : some (JsonValue.obj first.fields) = some (.obj second.fields) := by
    rw [← member?_assign "response_budget" _ request.result, ← member?_assign "response_budget" _ request.result]
    exact congrFun (congrArg member? same) _
  simp only [Option.some_inj, JsonValue.obj.injEq, Receipt.fields, List.cons.injEq, Prod.mk.injEq, JsonValue.int.injEq,
    JsonValue.str.injEq, true_and] at fields
  exact ⟨fields.2.2.2.2.2.2.1, by omega⟩

theorem exact_of_rests (rests : request.settled.2 = true)
    (refreshed : refreshResponseBudgetReceipt (attachResponseBudgetReceipt request) = some (attachResponseBudgetReceipt request)) :
    request.Exact := by
  obtain ⟨n, _, receipt, same⟩ := request.settled_receipt rests
  have length : (serializeMcpResult (attachResponseBudgetReceipt request)).length = n := by
    rw [attachResponseBudgetReceipt, receipt]
    exact same
  have tokens : countTokens (serializeMcpResult (attachResponseBudgetReceipt request)) = n / 4 := by rw [countTokens, length]
  refine ⟨rests, ?_, ?_, ?_, ?_, refreshed⟩
  · rw [length, receipt]
    rfl
  all_goals
    rw [tokens, receipt]
    rfl

/-- For every response that a text can hold, the receipt is exact if and only if its labels agree. -/
theorem receipt_exact_iff (fits : ∀ n ≤ maxsize, request.measured n ≤ maxsize) :
    request.Exact ↔ request.LabelsAgree := by
  constructor
  · intro holds
    obtain ⟨n, receipt, same, ⟨_, inner⟩ | ⟨high, outer⟩⟩ := request.settled_fits holds.rests
    · exact Or.inl inner
    · right
      refine ⟨outer, fun hinted => ?_⟩
      -- the refresh would write the general outcome over the hint that reads like the other one
      have own : request.Own (request.receiptOf n) := ⟨rfl, rfl⟩
      have refreshed := holds.refreshed
      rw [attachResponseBudgetReceipt, receipt, refresh_response own, attachResponseBudgetReceipt, response_again] at refreshed
      obtain ⟨outcome, tokens⟩ := response_inj (Option.some.inj refreshed)
      have labels := (request.again (request.receiptOf n)).settled_labels
      have exceeds : request.target < n / 4 := by omega
      have said : request.outcome (n / 4) = "within_target" := by
        rw [Request.outcome, if_pos exceeds, hinted]
        rfl
      rw [outcome, tokens] at labels
      have hint : (request.again (request.receiptOf n)).outcomeHint = none := if_neg fun kept => kept.2 said
      rw [show (request.receiptOf n).outcome = request.outcome (n / 4) from rfl, said, Request.outcome, target_again own,
        show (request.receiptOf n).serializedTokens = n / 4 from rfl, if_pos exceeds, hint] at labels
      exact absurd labels (by decide)
  · intro agree
    have rests : request.settled.2 = true := request.settled_rests fits (agree.imp_right And.left)
    obtain ⟨n, receipt, same, fit⟩ := request.settled_fits rests
    apply exact_of_rests rests
    have own : request.Own (request.receiptOf n) := ⟨rfl, rfl⟩
    rw [attachResponseBudgetReceipt, receipt, refresh_response own, attachResponseBudgetReceipt, response_again, ← receipt]
    have settled : (request.again request.settled.1).settled = request.settled := by
      rw [receipt]
      rcases agree with inner | ⟨_, kept⟩
      · exact settled_again_within inner
      · by_cases exceeds : request.target < n / 4
        · have named : request.outcome (n / 4) ≠ "within_target" := by
            intro said
            rw [Request.outcome, if_pos exceeds] at said
            cases held : request.outcomeHint with
            | none =>
              rw [held] at said
              exact absurd said (by decide)
            | some text =>
              rw [held, Option.filter] at said
              split at said
              · exact kept (held.trans (congrArg some said))
              · exact absurd said (by decide)
          rw [settled, settled, updated_again_exceeding exceeds named, initial_again own]
        · obtain ⟨_, inner⟩ | ⟨high, _⟩ := fit
          · exact settled_again_within inner
          · omega
    rw [settled]

def brief : Request := { result := [("success", .bool true)], requestedTokens := 3000 }

theorem brief_measured {n : Nat} (small : n < 10 ^ 19) : brief.measured n ≤ 2000 := by
  obtain ⟨start, exceeding, _, _, shorter, _, measured⟩ := brief.measured_eq
  have beyond : brief.measured 12004 ≤ 1000 := by decide +kernel
  have numerals := ownLength_le brief.evidence small
  rw [measured, Stating.length_exceeding (show 4 * (brief.target + 1) ≤ 12004 by decide)] at beyond
  rw [measured]
  by_cases low : n < 4 * (brief.target + 1)
  · rw [Stating.length_within low]
    dsimp only [stating] at beyond ⊢
    omega
  · rw [Stating.length_exceeding (not_lt.mp low)]
    dsimp only [stating] at beyond ⊢
    omega

theorem receipt_exact_brief : brief.Exact :=
  (receipt_exact_iff fun _ small => (brief_measured (lt_of_le_of_lt small (by decide))).trans (by decide)).mpr
    (Or.inl ((brief_measured (by decide)).trans (by decide)))

def shortHints : Request :=
  { result := [("content", .str (String.ofList (List.replicate 640 'a')))], requestedTokens := 256
    outcomeHint := some "x", reasonHint := some "y" }

theorem receipt_inexact_shortHints : ¬shortHints.Exact := by
  intro holds
  obtain ⟨base, _, lengths⟩ := shortHints.response_length
  have letters : ∀ n, ((List.replicate n 'a').flatMap (escapeChar false)).length = n := by
    intro n
    induction n with
    | zero => rfl
    | succ n ih =>
      rw [List.replicate_succ, List.flatMap_cons, List.length_append, ih, Nat.add_comm]
      rfl
  have content : width (.str (String.ofList (List.replicate 640 'a'))) = 642 := by
    have length := letters 640
    change (dumpsString false (String.ofList (List.replicate 640 'a'))).length = 642
    rw [dumpsString, String.toList_ofList, List.cons_append, List.length_cons, List.length_append, length]
    rfl
  have others : (dumpsString false "content").length = 9 ∧ (dumpsString false "response_budget").length = 17 ∧
      width (.obj shortHints.initial.fields) = 342 ∧ fieldsWidth [] = 1 ∧ statedWidth shortHints.initial = 26 ∧
      statedWidth (shortHints.receiptOf 1027) = 45 ∧ statedWidth (shortHints.receiptOf 1028) = 32 := by
    decide +kernel
  obtain ⟨contentKey, budgetKey, receipt, nothing, stated, below, above⟩ := others
  have first : (serializeMcpResult (shortHints.response shortHints.initial)).length = 1015 := by
    have whole : shortHints.response shortHints.initial =
        [("content", .str (String.ofList (List.replicate 640 'a'))), ("response_budget", .obj shortHints.initial.fields)] := rfl
    rw [whole, length_serialize _ (List.cons_ne_nil _ _), fieldsWidth_cons, fieldsWidth_cons]
    omega
  rw [lengths _ ⟨rfl, rfl⟩, stated] at first
  have target : shortHints.target = 256 := by decide
  obtain ⟨_, _, _, ⟨_, inner⟩ | ⟨_, outer⟩⟩ := shortHints.settled_fits holds.rests
  · rw [target, measured, lengths _ ⟨rfl, rfl⟩, below] at inner
    omega
  · rw [target, measured, lengths _ ⟨rfl, rfl⟩, above] at outer
    omega

end Request

end HarnessMem.ResponseBudget
