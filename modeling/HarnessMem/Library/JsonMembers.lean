import HarnessMem.Library.JsonText
import HarnessMem.Library.Text

/-! LIKE over written JSON. A pattern that opens with a quoted name is found in a
written value exactly where a member is written whose key ends in that name.
-/

set_option autoImplicit false

namespace HarnessMem.Library

/-! ### Written strings -/

def Guarded : Char → List Char → Prop
  | _, [] => True
  | before, c :: rest => (c = '"' → before = '\\') ∧ Guarded c rest

theorem Guarded.append {text more : List Char} (quoteless : '"' ∉ text) (guarded : ∀ before, Guarded before more) (before : Char) :
    Guarded before (text ++ more) := by
  induction text generalizing before with
  | nil => exact guarded before
  | cons c rest ih =>
    simp only [List.mem_cons, not_or] at quoteless
    exact ⟨fun quote => absurd quote.symm quoteless.1, ih quoteless.2 c⟩

theorem hex4_quoteless (n : Nat) : '"' ∉ hex4 n := by
  have digit : ∀ k, k < 16 → k.digitChar ≠ '"' := by decide
  by_cases large : n / 4096 < 16
  · simp only [hex4, List.mem_cons, List.not_mem_nil, or_false, not_or]
    exact ⟨(digit _ large).symm, (digit _ (by omega)).symm, (digit _ (by omega)).symm, (digit _ (by omega)).symm⟩
  · have other : (n / 4096).digitChar = '*' := by
      unfold Nat.digitChar
      repeat rw [if_neg (by omega)]
    simp only [hex4, List.mem_cons, List.not_mem_nil, or_false, not_or, other]
    exact ⟨by decide, (digit _ (by omega)).symm, (digit _ (by omega)).symm, (digit _ (by omega)).symm⟩

theorem escapeChar_quoteless (ascii : Bool) (c : Char) : escapeChar ascii c = ['\\', '"'] ∨ '"' ∉ escapeChar ascii c := by
  unfold escapeChar
  split_ifs with quote backslash newline carriage tab feed back coded
  · exact .inl rfl
  · exact .inr (by decide)
  · exact .inr (by decide)
  · exact .inr (by decide)
  · exact .inr (by decide)
  · exact .inr (by decide)
  · exact .inr (by decide)
  · right
    unfold unicodeEscape
    split_ifs <;> simp [hex4_quoteless]
  · exact .inr (by simpa using Ne.symm quote)

theorem guarded_escaped (ascii : Bool) (text : List Char) (before : Char) : Guarded before (text.flatMap (escapeChar ascii)) := by
  induction text generalizing before with
  | nil => trivial
  | cons c cs ih =>
    rw [List.flatMap_cons]
    rcases escapeChar_quoteless ascii c with quote | quoteless
    · rw [quote]
      exact ⟨fun same => absurd same (by decide), fun _ => rfl, ih _⟩
    · exact Guarded.append quoteless ih before

/-! ### Names in a pattern -/

/-- A name in a pattern: letters, and wildcards for one character that stand between letters. -/
inductive Name : List Char → Prop where
  | last {c : Char} : c.isAlpha = true → Name [c]
  | letter {c : Char} {rest : List Char} : c.isAlpha = true → Name rest → Name (c :: rest)
  | joker {c : Char} {rest : List Char} : c.isAlpha = true → Name rest → Name (c :: '_' :: rest)

def Behind (rest : List Char) : Prop :=
  ∀ c ∈ rest.head?, c ∈ [':', ',', ']', '}']

/-- One character of a pattern that is no `%` reads one character. -/
def reads (c d : Char) : Bool := decide (c = '_') || decide (foldLetter c = foldLetter d)

variable {c d : Char}

theorem letter_reads (alpha : c.isAlpha = true) (sign : d.toNat < 65 ∨ 90 < d.toNat ∧ d.toNat < 97 ∨ 122 < d.toNat) :
    reads c d = false := by
  have range := isAlpha_iff.mp alpha
  have unlike : c ≠ '_' := by
    rintro rfl
    exact absurd alpha (by decide)
  have different : foldLetter c ≠ foldLetter d := by
    intro same
    have equal := eq_of_foldLetter_eq same.symm sign
    subst equal
    omega
  simp [reads, unlike, different]

theorem letter_plain (alpha : c.isAlpha = true) : c ≠ '%' := by
  rintro rfl
  exact absurd alpha (by decide)

variable {pattern rest : List Char}

theorem like_letter (alpha : c.isAlpha = true) :
    like (c :: pattern) (d :: rest) = (reads c d && like pattern rest) :=
  like_cons_cons (letter_plain alpha)

theorem like_joker : like ('_' :: pattern) (d :: rest) = like pattern rest := by
  simp [like_cons_cons]

theorem like_quote : like ('"' :: pattern) (d :: rest) = (d = '"' && like pattern rest) := by
  by_cases quote : d = '"'
  · simp [like_cons_cons, quote]
  · have different : foldLetter '"' ≠ foldLetter d := fun same => quote (eq_of_foldLetter_eq same (by decide))
    simp [like_cons_cons, quote, different]

theorem like_letter_behind (alpha : c.isAlpha = true) (behind : Behind rest) :
    like (c :: pattern) rest = false := by
  cases rest with
  | nil => exact like_cons_nil (letter_plain alpha)
  | cons d rest =>
    have sign : d.toNat < 65 ∨ 90 < d.toNat ∧ d.toNat < 97 ∨ 122 < d.toNat := by
      have mark := behind d rfl
      simp only [List.mem_cons, List.not_mem_nil, or_false] at mark
      rcases mark with rfl | rfl | rfl | rfl <;> decide
    rw [like_letter alpha, letter_reads alpha sign, Bool.false_and]

variable {before : Char} {body : List Char}

theorem like_closing (after : List Char) (guarded : Guarded before body) (bare : before ≠ '\\') :
    like ('"' :: after) (body ++ '"' :: rest) = (body.isEmpty && like after rest) := by
  cases body with
  | nil => simp [like_quote]
  | cons d body =>
    have inside : d ≠ '"' := fun quote => bare (guarded.1 quote)
    simp [like_quote, inside]

variable {name : List Char}

theorem Name.like_quoted (isName : Name name) (after : List Char)
    (guarded : Guarded before body) (behind : Behind rest) :
    like (name ++ '"' :: after) (body ++ '"' :: rest) = (like name body && like after rest) := by
  induction isName generalizing before body with
  | @last c alpha =>
    cases body with
    | nil =>
      simp only [List.cons_append, List.nil_append, like_letter alpha, letter_reads alpha (d := '"') (by decide),
        like_cons_nil (letter_plain alpha), Bool.false_and]
    | cons d body =>
      rw [List.cons_append, List.cons_append, like_letter alpha, like_letter alpha, List.nil_append]
      cases read : reads c d with
      | false => simp
      | true =>
        -- A letter was read, so the next quote is no escaped one.
        have bare : d ≠ '\\' := by
          rintro rfl
          rw [letter_reads alpha (by decide)] at read
          cases read
        rw [like_closing after guarded.2 bare]
        cases body <;> simp
  | @letter c name alpha _ ih =>
    cases body with
    | nil =>
      simp only [List.cons_append, List.nil_append, like_letter alpha, letter_reads alpha (d := '"') (by decide),
        like_cons_nil (letter_plain alpha), Bool.false_and]
    | cons d body =>
      rw [List.cons_append, List.cons_append, like_letter alpha, like_letter alpha, ih guarded.2, Bool.and_assoc]
  | @joker c name alpha inner ih =>
    cases body with
    | nil =>
      simp only [List.cons_append, List.nil_append, like_letter alpha, letter_reads alpha (d := '"') (by decide),
        like_cons_nil (letter_plain alpha), Bool.false_and]
    | cons d body =>
      rw [List.cons_append, List.cons_append, List.cons_append, like_letter alpha, like_letter alpha, Bool.and_assoc]
      congr 1
      cases body with
      | nil =>
        -- The wildcard would take the closing quote, and no letter stands behind it.
        cases inner with
        | last next => simp [like_joker, like_letter_behind next behind, like_cons_nil]
        | letter next _ => simp [like_joker, like_letter_behind next behind, like_cons_nil]
        | joker next _ => simp [like_joker, like_letter_behind next behind, like_cons_nil]
      | cons e body => rw [List.cons_append, like_joker, like_joker, ih guarded.2.2]

theorem Name.like_behind (isName : Name name) (after : List Char) (behind : Behind rest) :
    like (name ++ after) rest = false := by
  cases isName with
  | last alpha => exact like_letter_behind alpha behind
  | letter alpha _ => exact like_letter_behind alpha behind
  | joker alpha _ => exact like_letter_behind alpha behind

def finds (name after : List Char) : List Char := '%' :: '"' :: (name ++ '"' :: after)

def KeyReads (ascii : Bool) (name : List Char) (key : String) : Prop :=
  like (finds name []) (dumpsString ascii key) = true

theorem like_finds_skip {after text : List Char} (quoteless : '"' ∉ text) (rest : List Char) :
    like (finds name after) (text ++ rest) = like (finds name after) rest := by
  induction text with
  | nil => rfl
  | cons c text ih =>
    simp only [List.mem_cons, not_or] at quoteless
    have other : c ≠ '"' := Ne.symm quoteless.1
    rw [finds, List.cons_append, like_any_cons, like_quote]
    simp only [other, decide_false, Bool.false_and, Bool.false_or]
    exact ih quoteless.2

theorem Name.finds_body (isName : Name name) (after : List Char)
    (guarded : Guarded before body) (behind : Behind rest) :
    like (finds name after) (body ++ '"' :: rest) =
      (like (finds name []) (body ++ ['"']) && like after rest || like (finds name after) rest) := by
  induction body generalizing before with
  | nil =>
    have empty : Behind [] := by rintro _ ⟨⟩
    simp only [finds, List.nil_append, like_any_cons, like_quote, like_any_nil, isName.like_behind _ behind, isName.like_behind _ empty]
    simp [like_cons_nil]
  | cons d body ih =>
    have step : ∀ more : List Char, like (finds name more) (d :: body ++ '"' :: rest) =
        (decide (d = '"') && like (name ++ '"' :: more) (body ++ '"' :: rest) || like (finds name more) (body ++ '"' :: rest)) := by
      intro more
      rw [finds, List.cons_append, like_any_cons, like_quote]
    have empty : Behind [] := by rintro _ ⟨⟩
    have alone : like (finds name []) (d :: body ++ ['"']) =
        (decide (d = '"') && like name body || like (finds name []) (body ++ ['"'])) := by
      rw [finds, List.cons_append, like_any_cons, like_quote, isName.like_quoted [] guarded.2 empty, like_nil_nil, Bool.and_true]
    rw [step, alone, isName.like_quoted after guarded.2 behind, ih guarded.2]
    cases decide (d = '"') <;> cases like name body <;> cases like after rest <;> simp

theorem Name.finds_string (isName : Name name) (ascii : Bool) (text : String) (after : List Char)
    (behind : Behind rest) :
    like (finds name after) (dumpsString ascii text ++ rest) = true ↔
      KeyReads ascii name text ∧ like after rest = true ∨ like (finds name after) rest = true := by
  have guarded : Guarded '\\' ('"' :: text.toList.flatMap (escapeChar ascii)) := ⟨fun _ => rfl, guarded_escaped ascii _ _⟩
  have found := isName.finds_body after guarded behind
  have whole : dumpsString ascii text ++ rest = '"' :: text.toList.flatMap (escapeChar ascii) ++ '"' :: rest := by
    simp [dumpsString]
  rw [KeyReads, whole, found, Bool.or_eq_true, Bool.and_eq_true, dumpsString]

/-! ### Members of a written value -/

/-- A member of a document: the key, the value, and what is written behind the value. -/
structure Member where
  key : String
  value : JsonValue
  behind : List Char

def Member.text (ascii : Bool) (member : Member) : List Char := member.value.dumpsSpaced ascii ++ member.behind

namespace JsonValue

mutual

/-- The members of a value at any depth, where `rest` is written behind the value. -/
def members (ascii : Bool) (rest : List Char) : JsonValue → List Member
  | arr (item :: items) => item.members ascii (spacedItems ascii items ++ rest) ++ membersOfItems ascii rest items
  | obj ((key, value) :: fields) =>
    ⟨key, value, spacedFields ascii fields ++ rest⟩ ::
      (value.members ascii (spacedFields ascii fields ++ rest) ++ membersOfFields ascii rest fields)
  | _ => []

def membersOfItems (ascii : Bool) (rest : List Char) : List JsonValue → List Member
  | [] => []
  | item :: items => item.members ascii (spacedItems ascii items ++ rest) ++ membersOfItems ascii rest items

def membersOfFields (ascii : Bool) (rest : List Char) : List (String × JsonValue) → List Member
  | [] => []
  | (key, value) :: fields =>
    ⟨key, value, spacedFields ascii fields ++ rest⟩ ::
      (value.members ascii (spacedFields ascii fields ++ rest) ++ membersOfFields ascii rest fields)

end

end JsonValue

/-- There is a member whose key ends in the name and behind whose colon the pattern is read. -/
def Names (ascii : Bool) (name more : List Char) (members : List Member) : Prop :=
  ∃ member ∈ members, KeyReads ascii name member.key ∧ like more (member.text ascii) = true

section members

open JsonValue hiding members

variable {ascii : Bool} {name more : List Char}

theorem Names.nil : ¬ Names ascii name more [] := by
  rintro ⟨_, ⟨⟩, _⟩

theorem Names.cons (member : Member) (members : List Member) :
    Names ascii name more (member :: members) ↔
      KeyReads ascii name member.key ∧ like more (member.text ascii) = true ∨ Names ascii name more members := by
  simp [Names]

theorem Names.append (first second : List Member) :
    Names ascii name more (first ++ second) ↔ Names ascii name more first ∨ Names ascii name more second := by
  simp [Names, or_and_right, exists_or]

def Ended (rest : List Char) : Prop :=
  ∀ c ∈ rest.head?, c ∈ [',', ']', '}']

variable {rest : List Char}

theorem Ended.behind (ended : Ended rest) : Behind rest :=
  fun c first => List.mem_cons_of_mem _ (ended c first)

theorem ended_items (items : List JsonValue) (rest : List Char) : Ended (spacedItems ascii items ++ rest) := by
  cases items <;> simp [Ended, spacedItems]

theorem ended_fields (fields : List (String × JsonValue)) (rest : List Char) : Ended (spacedFields ascii fields ++ rest) := by
  cases fields with
  | nil => simp [Ended, spacedFields]
  | cons field fields => simp [Ended, spacedFields]

theorem quoteless_of_token {token : List Char} (inside : token.all isTokenChar = true) : '"' ∉ token := by
  intro quote
  exact absurd (List.all_eq_true.mp inside _ quote) (by decide)

theorem like_finds_cons {after : List Char} {c : Char} (other : c ≠ '"') :
    like (finds name after) (c :: rest) = like (finds name after) rest :=
  like_finds_skip (show '"' ∉ [c] by simpa using other.symm) rest

theorem like_colon (rest : List Char) : like (':' :: ' ' :: more) (':' :: ' ' :: rest) = like more rest := by
  simp [like_cons_cons]

theorem Name.finds_text (isName : Name name) (text : String) (ended : Ended rest) :
    like (finds name (':' :: more)) (dumpsString ascii text ++ rest) = true ↔ like (finds name (':' :: more)) rest = true := by
  rw [isName.finds_string ascii text _ ended.behind]
  constructor
  · rintro (⟨_, colon⟩ | found)
    · cases rest with
      | nil => simp [like_cons_nil] at colon
      | cons c rest =>
        rw [like_cons_cons (by decide), Bool.and_eq_true, Bool.or_eq_true, decide_eq_true_eq, decide_eq_true_eq] at colon
        rcases colon.1 with joker | same
        · exact absurd joker (by decide)
        · have mark := ended c rfl
          rw [eq_of_foldLetter_eq same (by decide)] at mark
          exact absurd mark (by decide)
    · exact found
  · exact .inr

theorem Name.finds_key (isName : Name name) (key : String) (rest : List Char) :
    like (finds name (':' :: ' ' :: more)) (dumpsString ascii key ++ ':' :: ' ' :: rest) = true ↔
      KeyReads ascii name key ∧ like more rest = true ∨ like (finds name (':' :: ' ' :: more)) rest = true := by
  rw [isName.finds_string ascii key _ (by simp [Behind]), like_colon, like_finds_cons (by decide), like_finds_cons (by decide)]

mutual

/-- The pattern is found in a written value where one of its members is read, or behind the value. -/
theorem Name.finds_dumps (isName : Name name) : ∀ (value : JsonValue) {rest : List Char}, Ended rest →
    (like (finds name (':' :: ' ' :: more)) (value.dumpsSpaced ascii ++ rest) = true ↔
      Names ascii name more (value.members ascii rest) ∨ like (finds name (':' :: ' ' :: more)) rest = true)
  | .null, rest, _ => by
    rw [show JsonValue.null.dumpsSpaced ascii = "null".toList from rfl, like_finds_skip (by decide)]
    simp [JsonValue.members, Names.nil]
  | .bool true, rest, _ => by
    rw [show (JsonValue.bool true).dumpsSpaced ascii = "true".toList from rfl, like_finds_skip (by decide)]
    simp [JsonValue.members, Names.nil]
  | .bool false, rest, _ => by
    rw [show (JsonValue.bool false).dumpsSpaced ascii = "false".toList from rfl, like_finds_skip (by decide)]
    simp [JsonValue.members, Names.nil]
  | .int value, rest, _ => by
    rw [show (JsonValue.int value).dumpsSpaced ascii = dumpsInt value from rfl,
      like_finds_skip (quoteless_of_token (dumpsInt_token value))]
    simp [JsonValue.members, Names.nil]
  | .float value, rest, _ => by
    rw [show (JsonValue.float value).dumpsSpaced ascii = value.text from rfl,
      like_finds_skip (quoteless_of_token value.facts.2.1)]
    simp [JsonValue.members, Names.nil]
  | .str value, rest, ended => by
    rw [show (JsonValue.str value).dumpsSpaced ascii = dumpsString ascii value from rfl, isName.finds_text value ended]
    simp [JsonValue.members, Names.nil]
  | .arr [], rest, _ => by
    rw [show (JsonValue.arr []).dumpsSpaced ascii = ['[', ']'] from rfl, like_finds_skip (by decide)]
    simp [JsonValue.members, Names.nil]
  | .arr (item :: items), rest, _ => by
    rw [JsonValue.dumpsSpaced, List.cons_append, List.append_assoc, like_finds_cons (by decide),
      isName.finds_dumps item (ended_items items rest), isName.finds_items items rest, JsonValue.members, Names.append, or_assoc]
  | .obj [], rest, _ => by
    rw [show (JsonValue.obj []).dumpsSpaced ascii = ['\x7b', '\x7d'] from rfl, like_finds_skip (by decide)]
    simp [JsonValue.members, Names.nil]
  | .obj ((key, value) :: fields), rest, _ => by
    rw [JsonValue.dumpsSpaced, List.cons_append, List.append_assoc, like_finds_cons (by decide), List.cons_append,
      List.cons_append, List.append_assoc, isName.finds_key, isName.finds_dumps value (ended_fields fields rest),
      isName.finds_fields fields rest, JsonValue.members, Names.cons, Member.text, Names.append, or_assoc, or_assoc]

theorem Name.finds_items (isName : Name name) : ∀ (items : List JsonValue) (rest : List Char),
    (like (finds name (':' :: ' ' :: more)) (spacedItems ascii items ++ rest) = true ↔
      Names ascii name more (membersOfItems ascii rest items) ∨ like (finds name (':' :: ' ' :: more)) rest = true)
  | [], rest => by
    rw [spacedItems, List.cons_append, like_finds_cons (by decide)]
    simp [membersOfItems, Names.nil]
  | item :: items, rest => by
    rw [spacedItems, List.cons_append, List.cons_append, List.append_assoc, like_finds_cons (by decide), like_finds_cons (by decide),
      isName.finds_dumps item (ended_items items rest), isName.finds_items items rest, membersOfItems, Names.append, or_assoc]

theorem Name.finds_fields (isName : Name name) : ∀ (fields : List (String × JsonValue)) (rest : List Char),
    (like (finds name (':' :: ' ' :: more)) (spacedFields ascii fields ++ rest) = true ↔
      Names ascii name more (membersOfFields ascii rest fields) ∨ like (finds name (':' :: ' ' :: more)) rest = true)
  | [], rest => by
    rw [spacedFields, List.cons_append, like_finds_cons (by decide)]
    simp [membersOfFields, Names.nil]
  | (key, value) :: fields, rest => by
    rw [spacedFields, List.cons_append, List.cons_append, List.append_assoc, like_finds_cons (by decide), like_finds_cons (by decide),
      List.cons_append, List.cons_append, List.append_assoc, isName.finds_key, isName.finds_dumps value (ended_fields fields rest),
      isName.finds_fields fields rest, membersOfFields, Names.cons, Member.text, Names.append, or_assoc, or_assoc]

end

end members

end HarnessMem.Library
