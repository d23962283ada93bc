import HarnessMem.Library.Casing
import HarnessMem.Library.Lists
import HarnessMem.Library.Substitution
import HarnessMem.Schemas.Knowledge
import Mathlib.Algebra.Order.Field.Basic
import Mathlib.Data.Finset.Sort
import Mathlib.Data.Finset.Union
import Mathlib.Data.List.Infix
import Mathlib.Data.Prod.Lex
import Mathlib.Data.String.Basic

/-! The terms of a text and of a query: words and identifiers, runs of Chinese characters and their pairs,
and the multiword names that current knowledge contains.
-/

set_option autoImplicit false

namespace HarnessMem.Searching

open Library

def queryWrappers : List (Char × Char) :=
  [('\u0060', '\u0060'), ('"', '"'), ('\'', '\''), ('“', '”'), ('‘', '’'), ('【', '】')]

/-- `[\u3400-\u4dbf\u4e00-\u9fff]`. -/
def isCjk (c : Char) : Bool := (0x3400 ≤ c.toNat && c.toNat ≤ 0x4dbf) || (0x4e00 ≤ c.toNat && c.toNat ≤ 0x9fff)

/-- What the language says about code points: `\w`, `str.casefold` and `str.isupper`. Chinese characters and
quotation marks have no case, and no other character becomes a Chinese one. -/
structure Unicode where
  isWord : Char → Bool
  folded : Char → List Char
  isUpper : Char → Bool
  folded_cjk : ∀ c, isCjk c = true → folded c = [c]
  folded_other : ∀ c, isCjk c = false → folded c ≠ [] ∧ ∀ d ∈ folded c, isCjk d = false
  folded_wrapper : ∀ wrapper ∈ queryWrappers, folded wrapper.1 = [wrapper.1] ∧ folded wrapper.2 = [wrapper.2]

namespace Unicode

def foldLatin (c : Char) : List Char := if c = 'ß' then ['s', 's'] else [asciiLower c]

theorem isCjk_asciiLower (c : Char) : isCjk (asciiLower c) = isCjk c ∧ (isCjk c = true → asciiLower c = c) := by
  unfold asciiLower
  split
  · next upper =>
    have all : ∀ n < 91, 65 ≤ n → isCjk (Char.ofNat (n + 32)) = false ∧ isCjk (Char.ofNat n) = false := by decide
    have here := all c.toNat (by omega) upper.1
    rw [Char.ofNat_toNat] at here
    rw [here.1, here.2]
    exact ⟨rfl, fun impossible => absurd impossible Bool.false_ne_true⟩
  · exact ⟨rfl, fun _ => rfl⟩

theorem sharp_not_cjk : isCjk 'ß' = false ∧ isCjk 's' = false := by decide

def latin : Unicode where
  isWord c := c.isAlphanum || c == '_' || c == 'ß' || isCjk c
  folded := foldLatin
  isUpper c := c.isUpper
  folded_cjk c inside := by
    have plain : c ≠ 'ß' := by
      rintro rfl
      rw [sharp_not_cjk.1] at inside
      cases inside
    rw [foldLatin, if_neg plain, (isCjk_asciiLower c).2 inside]
  folded_other c outside := by
    unfold foldLatin
    split
    · refine ⟨List.cons_ne_nil _ _, fun d member => ?_⟩
      rcases List.mem_pair.mp member with same | same <;> rw [same] <;> exact sharp_not_cjk.2
    · refine ⟨List.cons_ne_nil _ _, fun d member => ?_⟩
      rw [List.mem_singleton.mp member, (isCjk_asciiLower c).1, outside]
  folded_wrapper := by decide

end Unicode

/-- `_CJK_RUN.findall`. -/
def cjkRunsOf (text : List Char) : List (List Char) := (Regex.plus (.one isCjk)).findAll text

def questionWords : Regex :=
  .anyOf (["请问", "之前", "以前", "这个", "那个", "我们", "你们", "怎么", "如何", "什么", "是否", "一下", "可以", "需要", "问题",
    "解决", "处理", "记得", "记住", "了吗", "的吗"].map .literal)

def genericActionPairs : List (List Char) := ["自动", "开启", "关闭", "启用", "停用", "使用", "默认"].map String.toList

def topicText (query : List Char) : List Char := questionWords.sub [' '] query

def pairsOf : List Char → List (List Char)
  | first :: second :: rest => [first, second] :: pairsOf (second :: rest)
  | _ => []

def cjkQueryPairs (query : List Char) : Finset (List Char) :=
  ((cjkRunsOf (topicText query)).flatMap fun run => (pairsOf run).filter (· ∉ genericActionPairs)).toFinset

/-- `[a-z0-9_]`. -/
def isTermChar (c : Char) : Bool := ('a' ≤ c && c ≤ 'z') || ('0' ≤ c && c ≤ '9') || c == '_'

/-- `[a-z0-9_]` under the flag `i`. -/
def isTermCharAnyCase (c : Char) : Bool := isTermChar c || ('A' ≤ c && c ≤ 'Z') || c == 'İ' || c == 'ı' || c == 'ſ' || c == kelvin

/-- `_WORD`, over the characters of its words. -/
def wordPattern (accepts : Char → Bool) : Regex :=
  .cat [.optional (.alt (.seq (.literal "-") (.optional (.literal "-"))) (.one fun c => c == '.' || c == '/' || c == '@')),
    .plus (.one accepts),
    .star (.seq (.plus (.one fun c => "./:\\=@-".toList.contains c)) (.plus (.one accepts))),
    .optional (.alt (.literal "++") (.literal "#"))]

/-- `_WORD.findall`. -/
def wordsOf (text : List Char) : List (List Char) := (wordPattern isTermChar).findAll text

def englishGrammarWords : Finset (List Char) :=
  (["a", "an", "the", "to", "of", "for", "in", "on", "with", "about", "my", "our", "your", "their", "its", "and", "or", "but", "not",
    "don", "t", "s", "m", "d", "re", "ve", "ll"].map String.toList).toFinset

def englishQuestionWords : Finset (List Char) :=
  englishGrammarWords ∪
    (["how", "what", "why", "when", "where", "which", "who", "is", "are", "was", "were", "do", "does", "did", "can", "could", "should",
      "would", "will", "may", "i", "we", "you", "it", "this", "that", "these", "those", "please", "tell", "me", "use", "enable",
      "disable"].map String.toList).toFinset

/-- `_unwrap_query_term`, whose steps are bounded by the length of the term. -/
def unwrapped : Nat → List Char → List Char
  | 0, term => term
  | steps + 1, term =>
    match term with
    | opening :: second :: rest =>
      match queryWrappers.lookup opening with
      | some closing => if (second :: rest).getLast? = some closing then unwrapped steps (second :: rest).dropLast else term
      | none => term
    | _ => term

def unwrapQueryTerm (term : List Char) : List Char := unwrapped term.length term

section

variable (unicode : Unicode)

/-- `text.casefold()`. -/
def casefold (text : List Char) : List Char := text.flatMap unicode.folded

def englishQuestionClause : Regex :=
  .cat [.wordBoundary unicode.isWord,
    .anyOf (["how", "what", "why", "when", "where", "which", "who"].map .ignoreCase),
    .plus (.one isSpace),
    .anyOf (["is", "are", "was", "were", "do", "does", "did", "can", "could", "should", "would", "will", "may", "i", "we", "you",
      "it"].map .ignoreCase),
    .wordBoundary unicode.isWord]

/-- The terms that `_term_counts` counts, as often as they occur. -/
def termOccurrences (text : List Char) : List (List Char) :=
  wordsOf (casefold unicode text) ++ (cjkRunsOf text).flatMap fun run => run.map (fun c => [c]) ++ pairsOf run

def termCounts (text : List Char) (term : List Char) : Nat := (termOccurrences unicode text).count term

def capitalizedIdentifiers (query : List Char) : Finset (List Char) :=
  (((wordPattern isTermCharAnyCase).findAll query).filterMap fun word =>
    if 1 < word.length ∧ word.tail.any unicode.isUpper then some (casefold unicode word) else none).toFinset

def quotedPattern (wrapper : Char × Char) : Regex :=
  let outside : Regex :=
    if wrapper.1 = '\'' then .check fun before _ => !before.any unicode.isWord else .empty
  let behind : Regex :=
    if wrapper.1 = '\'' then .check fun _ rest => !rest.head?.any unicode.isWord else .empty
  let closing : Regex := .seq (.one (· == wrapper.2)) behind
  .cat [outside, .one (· == wrapper.1),
    .group (.star (.seq (.check fun before rest => (closing.ends { before, rest }).isEmpty) (.one (· != '\n')))), closing]

def quotedIdentifiers (query : List Char) : Finset (List Char) :=
  (queryWrappers.flatMap fun wrapper =>
    (((quotedPattern unicode wrapper).pieces none 0 query).2.flatMap fun cut =>
      cut.1.groups.head?.toList.flatMap fun inner => wordsOf (casefold unicode inner))).toFinset

def namePattern : Regex :=
  let capitalized : Regex := .seq (.one fun c => 'A' ≤ c && c ≤ 'Z') (.plus (.one fun c => 'a' ≤ c && c ≤ 'z'))
  .cat [.wordBoundary unicode.isWord, capitalized,
    .plus (.seq (.plus (.one fun c => c == ' ' || c == '\t')) capitalized), .wordBoundary unicode.isWord]

def entryText (entry : KnowledgeEntry) : List Char := entry.title.text.toList ++ ' ' :: entry.statement.text.toList

def namedPhrases (entries : List KnowledgeEntry) (query : List Char) : Finset (List Char) :=
  ((((namePattern unicode).findAll query).map (casefold unicode)).filter fun phrase =>
    entries.any fun entry => decide (phrase <:+: casefold unicode (entryText entry))).toFinset

def phrasePattern (phrase : List Char) : Regex :=
  .cat [.check fun before _ => !before.any unicode.isWord, .cat (phrase.map fun c => .one (· == c)),
    .check fun _ rest => !rest.head?.any unicode.isWord]

def phraseCount (phrase text : List Char) : Nat := ((phrasePattern unicode phrase).findAll (casefold unicode text)).length

def withoutScaffolding (query : List Char) : Finset (List Char) :=
  let queryWords := wordsOf (casefold unicode query)
  match queryWords with
  | [] => ∅
  | first :: _ =>
    if first ∈ englishQuestionWords ∨ (englishQuestionClause unicode).search query then queryWords.toFinset \ englishQuestionWords
    else if first ≠ "sql".toList then queryWords.toFinset \ englishGrammarWords
    else queryWords.toFinset

def topicWords (query : List Char) : Finset (List Char) :=
  let words := (wordsOf (casefold unicode query)).toFinset
  if words.card = 1 then withoutScaffolding unicode query ∪ words else withoutScaffolding unicode query

def singleTerm (query : List Char) : List Char := strip (unwrapQueryTerm (strip query))

def singleCharacter (query : List Char) : Finset (List Char) :=
  let single := singleTerm query
  if single.length = 1 ∧ single.all isCjk then {single} else ∅

structure QueryTerms where
  terms : Finset (List Char)
  explicit : Finset (List Char)
  pairs : Finset (List Char)
  runs : List (List Char)
  phrases : Finset (List Char)
  single : List Char

def phraseWords (phrases : Finset (List Char)) : Finset (List Char) := phrases.biUnion fun phrase => (words isSpace phrase).toFinset

/-- The part of `_rank_current_entries` that reads the query. -/
def readQuery (entries : List KnowledgeEntry) (query : List Char) : QueryTerms :=
  let pairs := cjkQueryPairs query
  let quoted := quotedIdentifiers unicode query
  let terms := topicWords unicode query ∪ capitalizedIdentifiers unicode query ∪ quoted ∪ pairs ∪ singleCharacter query
  let explicit := capitalizedIdentifiers unicode query ∪ quoted
  let phrases := namedPhrases unicode entries query
  { terms := (terms \ phraseWords phrases) ∪ phrases ∪ quoted
    explicit := (explicit \ phraseWords phrases) ∪ quoted
    pairs
    runs := (cjkRunsOf (topicText query)).filter fun run => 2 ≤ run.length
    phrases
    single := singleTerm query }

end

end HarnessMem.Searching

/-! How current knowledge is ranked for a query. Weights are exact numbers of any ordered field, whose logarithm is given. -/

namespace HarnessMem.Searching

open Library

variable {K : Type} [Field K] [LinearOrder K] (unicode : Unicode) (log1p : K → K)

/-! ### What entries contain -/

/-- `field_terms`: how often a text has a term of a query. -/
def fieldTerms (phrases : Finset (List Char)) (text term : List Char) : Nat :=
  termCounts unicode text term + if term ∈ phrases then phraseCount unicode term text else 0

def content (phrases : Finset (List Char)) (entry : KnowledgeEntry) (term : List Char) : Nat :=
  fieldTerms unicode phrases entry.title.text.toList term + fieldTerms unicode phrases entry.statement.text.toList term

def identity (entry : KnowledgeEntry) : List Char × List Char :=
  (casefold unicode entry.title.text.toList, spaced (words isSpace (casefold unicode entry.statement.text.toList)))

def documents (asked : QueryTerms) (entries : List KnowledgeEntry) : List ((List Char × List Char) × (List Char → Nat)) :=
  (assigned (identity unicode) (content unicode asked.phrases) entries).filter
    fun document => decide (∃ term ∈ asked.terms, 0 < document.2 term)

def frequency (documents : List ((List Char × List Char) × (List Char → Nat))) (term : List Char) : Nat :=
  documents.countP fun document => 0 < document.2 term

/-- `weights[term]`. -/
def weight (documents : List ((List Char × List Char) × (List Char → Nat))) (term : List Char) : K :=
  log1p (((documents.length : K) - frequency documents term + 1 / 2) / (frequency documents term + 1 / 2))

/-- `distinctive_terms`: terms that one document alone has. -/
def distinctiveTerms (asked : QueryTerms) (documents : List ((List Char × List Char) × (List Char → Nat))) : Finset (List Char) :=
  if asked.pairs = ∅ then asked.terms.filter fun term => frequency documents term = 1 else ∅

def pairsAdmitted (asked : QueryTerms) (sourceContext : Bool) (entry : KnowledgeEntry) (pairs : Finset (List Char)) : Bool :=
  (2 ≤ pairs.card && asked.pairs.card ≤ pairs.card * 2) || (sourceContext && 2 ≤ pairs.card) ||
    asked.runs.any fun run =>
      (2 < run.length || asked.pairs.card ≤ 2 || run = strip entry.title.text.toList) &&
        (decide (run <:+: entry.title.text.toList) || decide (run <:+: entry.statement.text.toList))

def matchesOf (asked : QueryTerms) (sourceContext : Bool) (entry : KnowledgeEntry) : Finset (List Char) :=
  let found := asked.terms.filter fun term => 0 < content unicode asked.phrases entry term
  if pairsAdmitted asked sourceContext entry (found ∩ asked.pairs) then found else found \ asked.pairs

/-! ### Scores -/

structure Scored (K : Type) where
  entry : KnowledgeEntry
  coverage : K
  relevance : K
  repetitions : Nat
  category : K
  matched : Nat
  independent : Bool
  found : Finset (List Char)

def scoreOf (asked : QueryTerms) (sourceContext : Bool) (weights : List Char → K) (distinctive : Finset (List Char))
    (entry : KnowledgeEntry) : Scored K :=
  let found := matchesOf unicode asked sourceContext entry
  let matched := found.sort (· ≤ ·)
  let title := fieldTerms unicode asked.phrases entry.title.text.toList
  let module := termCounts unicode (spaced (entry.modulePath.map fun part => part.text.toList))
  { entry
    coverage := (matched.map weights).sum
    relevance := (matched.map fun term => weights term * if 0 < title term then 3 else 1).sum
    repetitions := (matched.map fun term => min (content unicode asked.phrases entry term) 3).sum
    category := ((matched.filter fun term => 0 < module term).map weights).sum
    matched := matched.length
    independent := decide (found ∩ (asked.explicit ∪ distinctive) ≠ ∅)
    found }

def scored (asked : QueryTerms) (sourceContext : Bool) (entries : List KnowledgeEntry) : List (Scored K) :=
  let documents := documents unicode asked entries
  (entries.map (scoreOf unicode asked sourceContext (weight log1p documents) (distinctiveTerms asked documents))).filter
    fun item => decide (item.coverage ≠ 0)

def cutoff (items : List (Scored K)) : K := (items.map (·.coverage)).max?.getD 0 / 2

def compoundTerms (items : List (Scored K)) : Finset (List Char) :=
  ((items.filter fun item => 1 < item.matched).flatMap fun item => item.found.sort (· ≤ ·)).toFinset

def strong (items : List (Scored K)) (item : Scored K) : Bool :=
  decide (cutoff items ≤ item.coverage) || 2 ≤ item.matched || item.independent

def suppressed (asked : QueryTerms) (items : List (Scored K)) (item : Scored K) : Bool :=
  item.matched = 1 && !item.independent &&
    casefold unicode (strip item.entry.title.text.toList) ≠ casefold unicode asked.single &&
    decide (item.found ∩ compoundTerms items ≠ ∅)

def rankKey (item : Scored K) : K ×ₗ K ×ₗ Int ×ₗ K ×ₗ String ×ₗ String ×ₗ String :=
  toLex (-item.relevance, toLex (-item.coverage, toLex (-item.repetitions, toLex (-item.category,
    toLex (item.entry.title.text, toLex (item.entry.projectName.text, item.entry.id))))))

def rankCurrentEntries (entries : List KnowledgeEntry) (query : List Char) (sourceContext : Bool) : List KnowledgeEntry :=
  let asked := readQuery unicode entries query
  let items := scored unicode log1p asked sourceContext entries
  let admitted := (items.filter (strong items)).filter fun item => !suppressed unicode asked items item
  (admitted.insertionSort fun first second => rankKey first ≤ rankKey second).map (·.entry)

/-! ### Two topics -/

def conjunction : Regex := .anyOf [.literal "以及", .literal "和", .literal "与"]

/-- `zip_longest` without the fillers. -/
def interleaved {α : Type} : List α → List α → List α
  | [], second => second
  | first, [] => first
  | item :: first, other :: second => item :: other :: interleaved first second

def conjoinedParts (query : List Char) : Option (List Char × List Char) :=
  if query.any fun c => queryWrappers.any fun wrapper => c == wrapper.1 || c == wrapper.2 then none
  else
    match conjunction.pieces none 0 query with
    | (front, [(_, back)]) =>
      let parts := (strip front, strip back)
      if 2 ≤ parts.1.length ∧ 2 ≤ parts.2.length ∧ parts.1.all isCjk ∧ parts.2.all isCjk then some parts else none
    | _ => none

def rankConjoinedTopics (entries : List KnowledgeEntry) (query : List Char) : List KnowledgeEntry :=
  match conjoinedParts query with
  | none => []
  | some (first, second) =>
    let groups := (rankCurrentEntries unicode log1p entries first false, rankCurrentEntries unicode log1p entries second false)
    if groups.1 = [] ∨ groups.2 = [] then [] else interleaved groups.1 groups.2

/-! ### Deduplication and search -/

/-- The key of `_deduplicate_current`. -/
structure FactKey where
  modulePath : List (List Char)
  title : List Char
  statement : List Char
  report : Option (String × String × Speaker × List Nat × String × String)
  deriving DecidableEq

def factKey (acrossProjects : Bool) (entry : KnowledgeEntry) : FactKey where
  modulePath := if acrossProjects then [] else entry.modulePath.map fun part => strip (casefold unicode part.text.toList)
  title := strip (casefold unicode entry.title.text.toList)
  statement := spaced (words isSpace (casefold unicode entry.statement.text.toList))
  report := entry.sourceReport.map fun report =>
    (report.sourceId.text, report.sourceRevision.text, report.speaker, report.exchangeIndexes, report.period.text, report.sessionId.text)

/-- The loop of `_deduplicate_current`. -/
def deduplicateFrom (acrossProjects : Bool) (seen : List FactKey) : List KnowledgeEntry → List KnowledgeEntry
  | [] => []
  | entry :: entries =>
    if factKey unicode acrossProjects entry ∈ seen then deduplicateFrom acrossProjects seen entries
    else entry :: deduplicateFrom acrossProjects (factKey unicode acrossProjects entry :: seen) entries

def deduplicateCurrent (acrossProjects : Bool) (entries : List KnowledgeEntry) : List KnowledgeEntry :=
  deduplicateFrom unicode acrossProjects [] entries

def browseKey (entry : KnowledgeEntry) : String ×ₗ String ×ₗ String :=
  toLex (entry.title.text, toLex (entry.projectName.text, entry.id))

/-- The ranking of `search_current_knowledge`. -/
def rankedSearch (entries : List KnowledgeEntry) (query : List Char) (sourceContext : Bool) : List KnowledgeEntry :=
  if strip query = [] then entries.insertionSort fun first second => browseKey first ≤ browseKey second
  else
    let ranked := rankCurrentEntries unicode log1p entries query sourceContext
    if ranked = [] then rankConjoinedTopics unicode log1p entries query else ranked

/-- `search_current_knowledge` over the entries of its scope. -/
def searchCurrentKnowledge (entries : List KnowledgeEntry) (query : List Char) (sourceContext acrossProjects : Bool)
    (limit : Option Int) : List KnowledgeEntry :=
  let results := deduplicateCurrent unicode acrossProjects (rankedSearch unicode log1p entries query sourceContext)
  match limit with
  | none => results
  | some limit => results.take (max 0 limit).toNat

end HarnessMem.Searching
