import HarnessMem.Assimilation.Validation
import HarnessMem.Library.Calendar
import HarnessMem.Library.Marks
import HarnessMem.Library.Substitution
import HarnessMem.Schemas.SessionDistill

/-! What a finished distillation shows of its session: the work left over, and an outcome that the
checks of the run decide before the agent's own words.
-/

set_option autoImplicit false

namespace HarnessMem.Notes

open Library Assimilation

structure RetainedStateRef where
  candidateId : String
  unfinishedWorkItem : String

/-- The keys of `semantic_review` that a Note reads. -/
structure SemanticReview where
  sessionSummary : Option String := none
  finalUserRequest : Option String := none
  finalOutcome : Option String := none
  unfinishedWork : List String := []
  retainedStateRefs : List RetainedStateRef := []

structure PromotedKnowledgeItem where
  title : String
  fact : String

/-- The keys of an answer packet that a Note reads, each of which may be absent. -/
structure AnswerPacket where
  answerStatus : Option AnswerGateStatus := none
  question : Option String := none
  coreConclusion : Option String := none
  evidenceBasis : List String := []
  verifiedAt : Option String := none
  promotionStatus : Option String := none
  promotedItems : List PromotedKnowledgeItem := []
  destinationProject : Option String := none

structure PromotionPoint where
  candidateId : String := ""
  answerStatus : Option AnswerGateStatus := none
  disposition : Option AssimilationDisposition := none
  canonicalTruthIds : List String := []
  handoffId : Option String := none

structure Readback where
  verified : Bool := false
  handoffIds : List String := []

structure PromotionSummary where
  promoted : Int := 0
  points : List PromotionPoint := []
  unfinishedWork : List String := []
  readback : Readback := {}
  answerPacket : AnswerPacket := {}

structure SessionDistillJob where
  id : String
  sessionId : String
  projectName : String
  status : DistillJobStatus := .completed
  completionDisposition : Option CompletionDisposition := none
  completedAt : Option DateTime := none
  semanticReview : SemanticReview := {}
  promotionSummary : PromotionSummary := {}

/-- `value or fallback` of a text that may be absent. -/
def textOr (value : Option String) (fallback : String) : String := if value.getD "" = "" then fallback else value.getD ""

/-- `dict.fromkeys`: each item once, where it stood first. -/
def fromkeys : List String → List String
  | [] => []
  | item :: items => item :: (fromkeys items).filter (· ≠ item)

/-- `RetainedStateRef.model_validate`. -/
def RetainedStateRef.validated (ref : RetainedStateRef) : Option RetainedStateRef :=
  if stripped ref.candidateId = "" ∨ stripped ref.unfinishedWorkItem = "" then none
  else some ⟨stripped ref.candidateId, stripped ref.unfinishedWorkItem⟩

def PromotionPoint.saved (point : PromotionPoint) : Bool :=
  point.answerStatus = some .answered && point.disposition ∈ [some .add, some .confirm, some .refine, some .replace] &&
    !point.canonicalTruthIds.isEmpty && point.canonicalTruthIds.all (stripped · ≠ "") && point.handoffId.getD "" = ""

/-- The point's disposition is one of `defer`, `handoff` and `conflict`. -/
def PromotionPoint.unsettled (point : PromotionPoint) : Bool :=
  point.disposition ∈ [some .defer, some .handoff, some .conflict]

variable (job : SessionDistillJob)

def retainedStateItems : List String :=
  if job.status ≠ .completed ∨ job.promotionSummary.readback.verified = false then []
  else
    (job.semanticReview.retainedStateRefs.filterMap RetainedStateRef.validated).filterMap fun ref =>
      let points := job.promotionSummary.points.filter (·.candidateId = ref.candidateId)
      if !points.isEmpty && points.all (·.saved) then some ref.unfinishedWorkItem else none

def distillUnfinishedWork : List String :=
  let promotion := job.promotionSummary
  let reviewWork := job.semanticReview.unfinishedWork.filter fun item => stripped item ∉ retainedStateItems job
  let items := ((reviewWork ++ promotion.unfinishedWork).map stripped).filter (· ≠ "")
  let items :=
    if items.isEmpty && (!promotion.readback.handoffIds.isEmpty || promotion.points.any (·.unsettled)) then
      ["继续处理：" ++ textOr promotion.answerPacket.question "待验证的会话内容"]
    else items
  fromkeys items

def blockedStatuses : List (Option AnswerGateStatus) :=
  [some .partially, some .unanswered, some .contradicted, some .stale]

def distillDisplayReview : SemanticReview :=
  let promotion := job.promotionSummary
  let packet := promotion.answerPacket
  let unfinished := distillUnfinishedWork job
  let review := { job.semanticReview with unfinishedWork := unfinished }
  let blocked : Bool := packet.answerStatus ∈ blockedStatuses
  let unresolved : Bool := job.completionDisposition ∈ [some .deferred, some .handoff, some .conflict] ||
    promotion.points.any (·.unsettled)
  if blocked || unresolved then
    let outcome :=
      if blocked || promotion.promoted ≠ 0 then textOr packet.coreConclusion "整理尚未完成，本次未写入长期记忆。"
      else "本次内容保留为待处理事项，未写入长期记忆。"
    { review with finalOutcome := some (if unfinished.isEmpty then outcome else outcome ++ " 仍有待处理事项。") }
  else if packet.answerStatus ∈ [some .answered, some .notApplicable] ∧ promotion.promoted = 0 then
    { review with finalOutcome := some "本次未新增或替换长期记忆。" }
  else review

end HarnessMem.Notes

/-! The text of a session Note. It ends with an audit line that names the job and when it completed. -/

namespace HarnessMem.Notes

open Library Assimilation

def readableLabel (value : Option String) (labels : List (String × String)) (fallback : String) : String :=
  (labels.lookup (value.getD "")).getD fallback

def answerStatusLabels : List (String × String) :=
  [("ANSWERED", "已验证"), ("PARTIAL", "证据不完整"), ("UNANSWERED", "没有充分证据"), ("CONTRADICTED", "证据冲突"),
    ("STALE", "证据已过期"), ("NOT_APPLICABLE", "不涉及长期记忆")]

def promotionStatusLabels : List (String × String) :=
  [("promoted", "已写入长期记忆"), ("partial", "部分写入长期记忆"), ("not_promoted", "未写入长期记忆")]

def completionLabels : List (String × String) :=
  [("promoted", "形成长期记忆"), ("no_candidate", "无需长期记忆"), ("deferred", "暂缓处理"),
    ("handoff", "保留为未完成事项"), ("conflict", "存在待解决冲突")]

def evidenceBasisLabels : List (String × String) :=
  [("repository", "当前项目文件"), ("user_statement", "用户明确表达"), ("transcript", "会话内容")]

def readableEvidenceBasis (values : List String) : String :=
  let labels := (values.filter (stripped · ≠ "")).map fun value => (evidenceBasisLabels.lookup value).getD value
  let joined := "、".intercalate labels
  if joined = "" then "无" else joined

def completionValue : CompletionDisposition → String
  | .promoted => "promoted"
  | .noCandidate => "no_candidate"
  | .deferred => "deferred"
  | .handoff => "handoff"
  | .conflict => "conflict"

section Rendering

-- What `\w` accepts.
variable (isWord : Char → Bool)

/-- The pattern `\btext\b` with the flag `i`. -/
def word (text : String) : Regex := .cat [.wordBoundary isWord, .ignoreCase text, .wordBoundary isWord]

def userVisibleReplacements : List (Regex × String) :=
  [(word isWord "job_bound_truth", "按原处理记录回查"),
    (word isWord "sanitized_project_truth", "清理原文后按项目记忆回查"),
    (.cat [.wordBoundary isWord, .ignoreCase "semantic memor", .alt (.ignoreCase "y") (.ignoreCase "ies"),
      .wordBoundary isWord], "长期记忆"),
    (word isWord "outcome contract", "结果验收"),
    (word isWord "stop hook", "会话结束自动触发流程"),
    (word isWord "hook", "自动触发流程"),
    (word isWord "answer packet", "结果校验"),
    (word isWord "promoted_items", "写入的长期记忆列表"),
    (word isWord "wake/search_memory", "继续任务和记忆检索"),
    (word isWord "relation", "关系记忆"),
    (word isWord "truth", "长期记忆"),
    (word isWord "candidate", "待审记忆"),
    (word isWord "fail-closed", "安全性不明时停止操作"),
    (word isWord "note", "会话摘要"),
    (.literal "长期知识", "长期记忆"),
    (.literal "可读真值", "可读长期记忆"),
    (.literal "真值", "长期记忆")]

/-- `[\u4e00-\u9fff]`. -/
def isHan (c : Char) : Bool := 0x4e00 ≤ c.toNat && c.toNat ≤ 0x9fff

/-- `(?<=[\u4e00-\u9fff])\s+(?=[\u4e00-\u9fff])`. -/
def hanGap : Regex :=
  .cat [.check fun before _ => before.any isHan, .plus (.one isSpace), .check fun _ rest => rest.head?.any isHan]

def userVisibleText (value : String) : String :=
  let text := strip value.toList
  if text.any isHan = false then String.ofList text
  else
    String.ofList (hanGap.erase ((userVisibleReplacements isWord).foldl
      (fun text replacement => replacement.1.sub replacement.2.toList text) text))

def unrecoverableSessionSummary : String := "The session topic could not be recovered from the available evidence."

def completionLabel (job : SessionDistillJob) (unfinished : List String) : String :=
  let promotion := job.promotionSummary
  if promotion.answerPacket.answerStatus ∈ blockedStatuses then
    if promotion.promoted ≠ 0 then if unfinished.isEmpty then "部分内容写入长期记忆" else "部分写入，仍需处理"
    else if unfinished.isEmpty then "未写入长期记忆" else "未写入，仍需处理"
  else if !unfinished.isEmpty then
    if promotion.promoted ≠ 0 then "已写入，仍有未完成事项" else "保留为未完成事项"
  else if !promotion.points.isEmpty && promotion.promoted = 0 then "未新增长期记忆"
  else readableLabel (job.completionDisposition.map completionValue) completionLabels "状态未知"

def noteLines (job : SessionDistillJob) : List String :=
  let review := distillDisplayReview job
  let summary := userVisibleText isWord (textOr review.sessionSummary (textOr review.finalUserRequest ""))
  let outcome := userVisibleText isWord (textOr review.finalOutcome "No final outcome was recorded.")
  let unfinished := (review.unfinishedWork.filter (stripped · ≠ "")).map (userVisibleText isWord)
  let packet := job.promotionSummary.answerPacket
  ["# " ++ textOr (some (sliceTo 80 summary)) "Session Note",
    "",
    "> 历史会话记录（Note）：用于说明这次会话做了什么，不代表当前项目真相。",
    "",
    "## 会话主题",
    "",
    textOr (some summary) unrecoverableSessionSummary,
    "",
    "## 最终结果",
    "",
    outcome,
    "",
    "## 未完成工作",
    ""] ++
  (if unfinished.isEmpty then ["- 无。"] else unfinished.map ("- " ++ ·)) ++
  ["",
    "## 记忆治理结果",
    "",
    "- 结果：" ++ completionLabel job unfinished,
    "- 形成长期记忆：" ++ toString job.promotionSummary.promoted ++ " 条",
    "",
    "## Answer Packet（结果校验）",
    "",
    "- 验证问题：" ++ userVisibleText isWord (textOr packet.question "未记录。"),
    "- 验证状态：" ++ readableLabel (packet.answerStatus.map (·.value)) answerStatusLabels "没有充分证据",
    "- 核心结论：" ++ userVisibleText isWord (textOr packet.coreConclusion "未形成可验证结论。"),
    "- 证据来源：" ++ readableEvidenceBasis packet.evidenceBasis,
    "- 验证时间：" ++ textOr packet.verifiedAt "无",
    "- 写入状态：" ++ readableLabel packet.promotionStatus promotionStatusLabels "未写入长期记忆",
    "- 记忆归属项目：" ++ textOr packet.destinationProject job.projectName,
    "",
    "### 写入的长期记忆",
    "",
    ""] ++
  (if packet.promotedItems.isEmpty then ["- 无。"]
    else packet.promotedItems.map fun item => "- **" ++ textOr (some item.title) "长期记忆" ++ "**：" ++ item.fact) ++
  [""]

def auditHead (job : SessionDistillJob) : String :=
  "<!-- harness-mem audit: session=" ++ job.sessionId ++ " job=" ++ job.id ++ " "

def auditTail (job : SessionDistillJob) : String :=
  " disposition=" ++ (job.completionDisposition.map completionValue).getD "unknown" ++ " -->"

def auditLine (now : DateTime) (job : SessionDistillJob) : List Char :=
  (auditHead job).toList ++ ("completed=".toList ++ ((job.completedAt.getD now).isoformat ++ (auditTail job).toList))

/-- `render_session_note`, of a job that completes at `now` where it does not say when. -/
def renderSessionNote (now : DateTime) (job : SessionDistillJob) : List Char :=
  ['\n'].intercalate ((noteLines isWord job).map String.toList ++ [auditLine now job, []])

def unaudited (job : SessionDistillJob) : List Char :=
  ['\n'].intercalate ((noteLines isWord job).map String.toList ++ [(auditHead job).toList])

end Rendering

end HarnessMem.Notes
