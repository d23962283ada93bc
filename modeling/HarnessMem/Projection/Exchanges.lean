import HarnessMem.Library.Regex
import HarnessMem.Library.Text

/-! The patterns of the semantic projection: labels and headings of a rendered
transcript, evidence anchors, and the words that raise a risk flag or a memory
signal.
-/

set_option autoImplicit false

namespace HarnessMem.Projection

open Library Library.Regex

abbrev Text := List Char

/-- The character tables of the interpreter behind `\w` and `\d`. -/
structure Unicode where
  isWord : Char → Bool
  isDecimal : Char → Bool

def Unicode.ascii : Unicode where
  isWord c := c.isAlphanum || c == '_'
  isDecimal c := c.isDigit

inductive RiskFlag where
  | versionRelease | migrationStorage | privacySecurity | deletion | failure | conflictStale | unfinished
  deriving DecidableEq, Repr

namespace RiskFlag

def name : RiskFlag → String
  | versionRelease => "version_release"
  | migrationStorage => "migration_storage"
  | privacySecurity => "privacy_security"
  | deletion => "deletion"
  | failure => "failure"
  | conflictStale => "conflict_stale"
  | unfinished => "unfinished"

/-- `_RISK_FLAG_CODES`. -/
def code : RiskFlag → String
  | versionRelease => "V"
  | migrationStorage => "M"
  | privacySecurity => "P"
  | deletion => "D"
  | failure => "F"
  | conflictStale => "C"
  | unfinished => "U"

end RiskFlag

inductive MemorySignal where
  | userCorrection | explicitDecision | successfulSolution | ruleOrPreference | reusableWorkflowOrFact
  | versionOrMigration | unfinishedHandoff
  deriving DecidableEq, Repr

namespace MemorySignal

def name : MemorySignal → String
  | userCorrection => "user_correction"
  | explicitDecision => "explicit_decision"
  | successfulSolution => "successful_solution"
  | ruleOrPreference => "rule_or_preference"
  | reusableWorkflowOrFact => "reusable_workflow_or_fact"
  | versionOrMigration => "version_or_migration"
  | unfinishedHandoff => "unfinished_handoff"

/-- `_MEMORY_SIGNAL_CODES`. -/
def code : MemorySignal → String
  | userCorrection => "C"
  | explicitDecision => "Q"
  | successfulSolution => "S"
  | ruleOrPreference => "P"
  | reusableWorkflowOrFact => "R"
  | versionOrMigration => "V"
  | unfinishedHandoff => "U"

end MemorySignal

variable (unicode : Unicode)

def isNewline (c : Char) : Bool := c == '\n'

/-- `_TURN_HEADING_RE`: `(?m)^## Turn \d+ \([^\n]*\)\s*$`. -/
def turnHeadingRe : Regex :=
  cat [lineStart, literal "## Turn ", plus (one unicode.isDecimal), literal " (",
    star (one fun c => !isNewline c), literal ")", star (one isSpace), lineEnd]

/-- `_ENTRY_RE`: `(?:\A|\n\n)(User|Assistant|Tool): `. -/
def entryRe : Regex :=
  cat [alt textStart (literal "\n\n"),
    group (anyOf [literal "User", literal "Assistant", literal "Tool"]), literal ": "]

def isUpper (c : Char) : Bool := 'A' ≤ c && c ≤ 'Z'

def isAnchorChar (c : Char) : Bool := isUpper c || ('0' ≤ c && c ≤ '9')

/-- `_EVIDENCE_ANCHOR_RE`: `\b[A-Z][A-Z0-9]*(?:[-_][A-Z0-9]+)+\b`. -/
def evidenceAnchorRe : Regex :=
  cat [wordBoundary unicode.isWord, one isUpper, star (one isAnchorChar),
    plus (cat [one fun c => c == '-' || c == '_', plus (one isAnchorChar)]), wordBoundary unicode.isWord]

def passiveToolNames : List Text := ["wait".toList, "wait_agent".toList]

/-- Whole words: `\b(?:...)\b`. -/
def wholeWords (parts : List Regex) : Regex :=
  cat [wordBoundary unicode.isWord, anyOf parts, wordBoundary unicode.isWord]

/-- Words with any ending: `\b(?:...)\w*\b`. -/
def wordStems (parts : List Regex) : Regex :=
  cat [wordBoundary unicode.isWord, anyOf parts, star (one unicode.isWord), wordBoundary unicode.isWord]

/-- `v?\d+\.\d+\.\d+`. -/
def versionNumber : Regex :=
  cat [optional (ignoreCase "v"), plus (one unicode.isDecimal), literal ".", plus (one unicode.isDecimal),
    literal ".", plus (one unicode.isDecimal)]

/-- `.{0,40}`. -/
def upToForty : Regex := upTo 40 (one fun c => !isNewline c)

def riskPatterns : List (RiskFlag × Regex) := [
  (.versionRelease, anyOf [wholeWords unicode (versionNumber unicode :: ["version", "release", "publish"].map ignoreCase),
    literal "版本", literal "发布"]),
  (.migrationStorage, anyOf [wholeWords unicode (["migration", "migrate", "checksum", "storage", "rollback"].map ignoreCase),
    literal "迁移", literal "校验和", literal "存储", literal "回滚"]),
  (.privacySecurity, anyOf [wordStems unicode (["private", "privacy", "secret", "security", "vulnerab", "password",
    "credential"].map ignoreCase), literal "隐私", literal "安全", literal "密码", literal "密钥"]),
  (.deletion, anyOf [wordStems unicode (["delete", "erase", "purge", "remove"].map ignoreCase),
    literal "删除", literal "擦除", literal "清理"]),
  (.failure, anyOf [wordStems unicode (["fail", "error", "exception", "timeout", "corrupt", "broken"].map ignoreCase),
    literal "失败", literal "错误", literal "异常", literal "超时", literal "损坏"]),
  (.conflictStale, anyOf [wordStems unicode (["conflict", "stale", "supersed", "outdated"].map ignoreCase),
    literal "冲突", literal "过期", literal "取代"]),
  (.unfinished, anyOf [wholeWords unicode (["unfinished", "blocked", "blocker", "todo", "remaining"].map ignoreCase),
    literal "未完成", literal "阻塞", literal "待办", literal "剩余"])]

def memorySignalPatterns : List (MemorySignal × Regex) := [
  (.userCorrection, anyOf [wholeWords unicode (["correction", "corrected", "actually", "instead", "rather than"].map ignoreCase),
    literal "更正", literal "纠正", literal "改为", cat [literal "不是", upToForty, literal "而是"]]),
  (.explicitDecision, anyOf [wholeWords unicode (["we decided", "decision is", "chosen", "approved", "agreed to",
    "standardize on"].map ignoreCase), literal "决定", literal "最终选择", literal "确认采用",
    cat [literal "统一", anyOf [literal "使用", literal "为"]]]),
  (.successfulSolution, anyOf [wholeWords unicode (["root cause", "fixed by", "resolved by", "solution",
    "workaround"].map ignoreCase), literal "根因", literal "解决方案", literal "已修复",
    cat [literal "通过", upToForty, literal "修复"]]),
  (.ruleOrPreference, anyOf [wholeWords unicode [ignoreCase "always", ignoreCase "never", ignoreCase "from now on",
    cat [ignoreCase "default", optional (ignoreCase "s"), ignoreCase " to"], ignoreCase "prefer", ignoreCase "policy",
    ignoreCase "rule", ignoreCase "must"], literal "以后", literal "一律", literal "默认", literal "偏好",
    literal "规则", literal "必须", literal "禁止"]),
  (.reusableWorkflowOrFact, anyOf [wholeWords unicode (["workflow", "procedure", "runbook", "invariant", "architecture",
    "reusable"].map ignoreCase), literal "流程", literal "步骤", literal "不变量", literal "架构", literal "可复用"]),
  (.versionOrMigration, anyOf [wholeWords unicode (versionNumber unicode :: ["version", "release", "publish", "migration",
    "migrate", "storage"].map ignoreCase), literal "版本", literal "发布", literal "迁移", literal "存储"]),
  (.unfinishedHandoff, anyOf [wholeWords unicode (["unfinished", "blocked", "blocker", "todo", "remaining", "next step",
    "handoff"].map ignoreCase), literal "未完成", literal "阻塞", literal "待办", literal "剩余", literal "下一步",
    literal "交接"])]

def riskFlags (value : Text) : List RiskFlag :=
  (riskPatterns unicode).filterMap fun entry => if entry.2.search value then some entry.1 else none

def memorySignals (value : Text) : List MemorySignal :=
  (memorySignalPatterns unicode).filterMap fun entry => if entry.2.search value then some entry.1 else none

example : riskFlags .ascii "Migration Failed, v0.8.24 remains".toList =
    [.versionRelease, .migrationStorage, .failure] := by decide +kernel

end HarnessMem.Projection

/-! Reading the exchanges of a rendered transcript: the labelled messages, the
repeats among them, and the turns they make up.
-/

namespace HarnessMem.Projection

open Library

inductive Role where
  | user | assistant | tool
  deriving DecidableEq, Repr

structure Entry where
  role : Role
  content : Text
  deriving DecidableEq, Repr

structure Exchange where
  user : List Text
  assistant : List Text
  tools : List Text
  riskFlags : List RiskFlag
  memorySignals : List MemorySignal
  deriving DecidableEq, Repr

structure ParseSummary where
  projection : String
  inputMessageCount : Nat
  outputExchangeCount : Nat
  duplicateMessageCount : Nat
  collapsedAssistantMessageCount : Nat
  omittedPassiveToolCount : Nat
  deriving DecidableEq, Repr

structure Parsed where
  header : Text
  exchanges : List Exchange
  summary : ParseSummary
  deriving DecidableEq, Repr

def distillSemanticProjection : String := "exchange-outline-v1"

def distillCompactProjection : String := "exchange-outline-v2"

def distillIncrementalProjection : String := "exchange-projection-lineage-v1"

def roleOf (label : Text) : Role :=
  if label = "User".toList then .user else if label = "Assistant".toList then .assistant else .tool

def labelled (labels : List (Regex.Match × Text)) : List Entry :=
  labels.map fun piece => ⟨roleOf (piece.1.groups.headD []), strip piece.2⟩

def keepEntries : Option Entry → List Entry → List Entry × Nat
  | _, [] => ([], 0)
  | previous, entry :: rest =>
    if entry.content = [] then keepEntries previous rest
    else if previous = some entry then
      ((keepEntries previous rest).1, (keepEntries previous rest).2 + 1)
    else (entry :: (keepEntries (some entry) rest).1, (keepEntries (some entry) rest).2)

/-- `text.split(mark, 1)[0]`. -/
def splitFirst (mark : Text) : Text → Text
  | [] => []
  | c :: rest => if mark.isPrefixOf (c :: rest) then [] else c :: splitFirst mark rest

def toolName (content : Text) : Text := strip (splitFirst " ->".toList content)

structure Current where
  user : List Text := []
  assistant : List Text := []
  tools : List Text := []
  deriving DecidableEq, Repr

def Current.any (current : Current) : Bool :=
  !current.user.isEmpty || !current.assistant.isEmpty || !current.tools.isEmpty

/-- `"\n".join(lines)`. -/
def joinLines (lines : List Text) : Text := List.intercalate ['\n'] lines

variable (unicode : Unicode)

def exchangeOf (user assistant tools : List Text) : Exchange :=
  { user, assistant, tools
    riskFlags := riskFlags unicode (joinLines (user ++ assistant))
    memorySignals := memorySignals unicode (joinLines (user ++ assistant)) }

def flushExchange (current : Current) : List Exchange :=
  if current.any then [exchangeOf unicode current.user current.assistant current.tools] else []

def groupEntries : Current → List Entry → List Exchange × Nat
  | current, [] => (flushExchange unicode current, 0)
  | current, ⟨.user, content⟩ :: rest =>
    (flushExchange unicode current ++ (groupEntries { user := [content] } rest).1,
      (groupEntries { user := [content] } rest).2)
  | current, ⟨.assistant, content⟩ :: rest =>
    groupEntries { current with assistant := current.assistant ++ [content] } rest
  | current, ⟨.tool, content⟩ :: rest =>
    if toolName content ∈ passiveToolNames then
      ((groupEntries current rest).1, (groupEntries current rest).2 + 1)
    else if toolName content = [] then groupEntries current rest
    else groupEntries { current with tools := current.tools ++ [toolName content] } rest

def collapsed (exchanges : List Exchange) : Nat :=
  (exchanges.map fun exchange => exchange.assistant.length - 1).sum

def rendering (value : Text) : Text := (turnHeadingRe unicode).erase value

def parseExchanges (value : Text) : Parsed :=
  match entryRe.pieces none 0 (rendering unicode value) with
  | (_, []) =>
    { header := []
      exchanges := []
      summary :=
        { projection := "parser-render-v1"
          inputMessageCount := 0
          outputExchangeCount := 0
          duplicateMessageCount := 0
          collapsedAssistantMessageCount := 0
          omittedPassiveToolCount := 0 } }
  | (front, label :: labels) =>
    let (entries, repeats) := keepEntries none (labelled (label :: labels))
    let (exchanges, omitted) := groupEntries unicode {} entries
    { header := strip front
      exchanges
      summary :=
        { projection := distillSemanticProjection
          inputMessageCount := entries.length
          outputExchangeCount := exchanges.length
          duplicateMessageCount := repeats
          collapsedAssistantMessageCount := collapsed exchanges
          omittedPassiveToolCount := omitted } }

example : ((parseExchanges .ascii "# Session\n## Turn 1 (u)\n\nUser: hi\n\nTool: pytest -> ok\n\nTool: wait -> 1".toList).exchanges.map
    fun exchange => (exchange.user, exchange.tools)) = [(["hi".toList], ["pytest".toList])] := by decide +kernel

end HarnessMem.Projection
