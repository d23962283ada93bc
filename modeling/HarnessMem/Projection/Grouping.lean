import HarnessMem.Projection.Append

/-! How messages make up exchanges: what of the messages the exchanges hold, and
what becomes of them when two texts are read one after the other.
-/

set_option autoImplicit false

namespace HarnessMem.Projection

variable {unicode : Unicode}

def Entry.hidden (entry : Entry) : Bool :=
  entry.role = .tool ∧ (toolName entry.content ∈ passiveToolNames ∨ toolName entry.content = [])

def conversation (entries : List Entry) : List Entry := entries.filter fun entry => entry.role ≠ .tool

/-- The tools called, with `none` where a user text opens a new turn. -/
def toolCalls (entries : List Entry) : List (Option Text) :=
  entries.filterMap fun entry => match entry.role with
    | .user => some none
    | .assistant => none
    | .tool => if entry.hidden then none else some (some (toolName entry.content))

def exchangesOf (unicode : Unicode) (entries : List Entry) : List Exchange := (groupEntries unicode {} entries).1

def leftOpen (entries : List Entry) : Bool :=
  entries.foldl (fun said entry => match entry.role with
    | .user => false
    | .assistant => true
    | .tool => said) false

def opensWithAssistant : List Entry → Bool
  | [] => false
  | entry :: rest => match entry.role with
    | .user => false
    | .assistant => true
    | .tool => opensWithAssistant rest

def seams : List Entry → List (List Entry) → Nat
  | _, [] => 0
  | before, part :: rest =>
    (if leftOpen before && opensWithAssistant part then 1 else 0) + seams (before ++ part) rest

theorem seams_snoc (before : List Entry) (parts : List (List Entry)) (part : List Entry) :
    seams before (parts ++ [part]) =
      seams before parts + (if leftOpen (before ++ parts.flatten) && opensWithAssistant part then 1 else 0) := by
  induction parts generalizing before with
  | nil => simp [seams]
  | cons first rest ih => simp [seams, ih, Nat.add_assoc]

theorem length_entries (entries : List Entry) :
    entries.length =
      (conversation entries).length + (toolCalls entries).countP Option.isSome + entries.countP Entry.hidden := by
  induction entries with
  | nil => rfl
  | cons entry rest ih =>
    obtain ⟨role, content⟩ := entry
    cases role with
    | user => simp [conversation, toolCalls, Entry.hidden] at ih ⊢; omega
    | assistant => simp [conversation, toolCalls, Entry.hidden] at ih ⊢; omega
    | tool =>
      by_cases quiet : Entry.hidden ⟨.tool, content⟩
      · simp [conversation, toolCalls, quiet] at ih ⊢; omega
      · simp [conversation, toolCalls, quiet] at ih ⊢; omega

/-! ### One exchange after another -/

theorem flushExchange_empty {current : Current} (empty : current.any = false) :
    flushExchange unicode current = [] := by
  simp [flushExchange, empty]

theorem Current.eq_empty {current : Current} (empty : current.any = false) : current = {} := by
  obtain ⟨user, assistant, tools⟩ := current
  simp only [Current.any, Bool.or_eq_false_iff, Bool.not_eq_false', List.isEmpty_iff] at empty
  obtain ⟨⟨rfl, rfl⟩, rfl⟩ := empty
  rfl

theorem groupEntries_tool (current : Current) (content : Text) (rest : List Entry) :
    (groupEntries unicode current (⟨.tool, content⟩ :: rest)).1 =
      if Entry.hidden ⟨.tool, content⟩ then (groupEntries unicode current rest).1
      else (groupEntries unicode { current with tools := current.tools ++ [toolName content] } rest).1 := by
  by_cases passive : toolName content ∈ passiveToolNames
  · simp [groupEntries, Entry.hidden, passive]
  · by_cases blank : toolName content = []
    · have rested : ([] : Text) ∉ passiveToolNames := by decide
      simp [groupEntries, Entry.hidden, blank, rested]
    · simp [groupEntries, Entry.hidden, passive, blank]

variable (unicode) in
theorem groupEntries_opened (current : Current) (opened : current.user ≠ []) (entries : List Entry) :
    ∃ first rest, (groupEntries unicode current entries).1 = first :: rest ∧ first.user = current.user := by
  induction entries generalizing current with
  | nil =>
    have shown : current.any = true := by simp [Current.any, opened]
    exact ⟨exchangeOf unicode current.user current.assistant current.tools, [], by simp [groupEntries, flushExchange, shown],
      rfl⟩
  | cons entry rest ih =>
    obtain ⟨role, content⟩ := entry
    cases role with
    | user =>
      have shown : current.any = true := by simp [Current.any, opened]
      refine ⟨exchangeOf unicode current.user current.assistant current.tools,
        (groupEntries unicode { user := [content] } rest).1, ?_, rfl⟩
      simp [groupEntries, flushExchange, shown]
    | assistant => exact ih { current with assistant := current.assistant ++ [content] } opened
    | tool =>
      rw [groupEntries_tool]
      split
      · exact ih current opened
      · exact ih { current with tools := current.tools ++ [toolName content] } opened

/-! ### What the exchanges hold -/

def Exchange.conversation (exchange : Exchange) : List Entry :=
  exchange.user.map (⟨.user, ·⟩) ++ exchange.assistant.map (⟨.assistant, ·⟩)

def Exchange.toolCalls (exchange : Exchange) : List (Option Text) :=
  exchange.user.map (fun _ => none) ++ exchange.tools.map some

theorem flushExchange_conversation (current : Current) :
    (flushExchange unicode current).flatMap Exchange.conversation =
      current.user.map (⟨.user, ·⟩) ++ current.assistant.map (⟨.assistant, ·⟩) := by
  by_cases shown : current.any
  · simp [flushExchange, shown, Exchange.conversation, exchangeOf]
  · obtain rfl := Current.eq_empty (Bool.not_eq_true _ ▸ shown)
    rfl

theorem flushExchange_toolCalls (current : Current) :
    (flushExchange unicode current).flatMap Exchange.toolCalls =
      current.user.map (fun _ => none) ++ current.tools.map some := by
  by_cases shown : current.any
  · simp [flushExchange, shown, Exchange.toolCalls, exchangeOf]
  · obtain rfl := Current.eq_empty (Bool.not_eq_true _ ▸ shown)
    rfl

theorem groupEntries_conversation (current : Current) (entries : List Entry) :
    (groupEntries unicode current entries).1.flatMap Exchange.conversation =
      current.user.map (⟨.user, ·⟩) ++ current.assistant.map (⟨.assistant, ·⟩) ++ conversation entries := by
  induction entries generalizing current with
  | nil => simp [groupEntries, flushExchange_conversation, conversation]
  | cons entry rest ih =>
    obtain ⟨role, content⟩ := entry
    cases role with
    | user => simp [groupEntries, List.flatMap_append, flushExchange_conversation, ih, conversation]
    | assistant => simp [groupEntries, ih, conversation]
    | tool =>
      rw [groupEntries_tool]
      split <;> simp [ih, conversation]

theorem groupEntries_toolCalls (current : Current) (entries : List Entry) :
    (groupEntries unicode current entries).1.flatMap Exchange.toolCalls =
      current.user.map (fun _ => none) ++ current.tools.map some ++ toolCalls entries := by
  induction entries generalizing current with
  | nil => simp [groupEntries, flushExchange_toolCalls, toolCalls]
  | cons entry rest ih =>
    obtain ⟨role, content⟩ := entry
    cases role with
    | user => simp [groupEntries, List.flatMap_append, flushExchange_toolCalls, ih, toolCalls]
    | assistant => simp [groupEntries, ih, toolCalls]
    | tool =>
      rw [groupEntries_tool]
      split
      · next quiet => simp [ih, toolCalls, quiet]
      · next quiet => simp [ih, toolCalls, quiet]

def weave (unicode : Unicode) : Current → List Entry → List (Option Text) → List Exchange
  | current, ⟨.assistant, content⟩ :: said, called =>
    weave unicode { current with assistant := current.assistant ++ [content] } said called
  | current, said, some name :: called =>
    weave unicode { current with tools := current.tools ++ [name] } said called
  | current, ⟨.user, content⟩ :: said, none :: called =>
    flushExchange unicode current ++ weave unicode { user := [content] } said called
  | current, _, _ => flushExchange unicode current
termination_by _ said called => said.length + called.length

theorem weave_call (current : Current) (said : List Entry) (name : Text) (called : List (Option Text)) :
    weave unicode current said (some name :: called) =
      weave unicode { current with tools := current.tools ++ [name] } said called := by
  induction said generalizing current with
  | nil => rw [weave]; simp
  | cons entry rest ih =>
    obtain ⟨role, content⟩ := entry
    cases role with
    | assistant => simp only [weave, ih]
    | user => rw [weave]; simp
    | tool => rw [weave]; simp

theorem groupEntries_eq_weave (current : Current) (entries : List Entry) :
    (groupEntries unicode current entries).1 = weave unicode current (conversation entries) (toolCalls entries) := by
  induction entries generalizing current with
  | nil => simp [groupEntries, conversation, toolCalls, weave]
  | cons entry rest ih =>
    obtain ⟨role, content⟩ := entry
    cases role with
    | user => simp [groupEntries, ih, conversation, toolCalls, weave]
    | assistant => simp [groupEntries, ih, conversation, toolCalls, weave]
    | tool =>
      rw [groupEntries_tool]
      split
      · next quiet => simp [ih, conversation, toolCalls, quiet]
      · next quiet => simp [ih, conversation, toolCalls, quiet, weave_call]

theorem exchangesOf_eq_iff {first second : List Entry} :
    exchangesOf unicode first = exchangesOf unicode second ↔
      conversation first = conversation second ∧ toolCalls first = toolCalls second := by
  unfold exchangesOf
  constructor
  · intro same
    have said := congrArg (List.flatMap Exchange.conversation) same
    have called := congrArg (List.flatMap Exchange.toolCalls) same
    rw [groupEntries_conversation, groupEntries_conversation] at said
    rw [groupEntries_toolCalls, groupEntries_toolCalls] at called
    exact ⟨by simpa using said, by simpa using called⟩
  · rintro ⟨said, called⟩
    rw [groupEntries_eq_weave, groupEntries_eq_weave, said, called]

/-! ### Two texts read one after the other -/

theorem extendExchanges_nil (known : List Exchange) : extendExchanges unicode known [] = known := by
  unfold extendExchanges
  split
  · next clash => cases clash
  · exact List.append_nil known

theorem extendExchanges_ne_nil {known : List Exchange} (present : known ≠ []) (appended : List Exchange) :
    extendExchanges unicode known appended ≠ [] := by
  unfold extendExchanges
  split
  · split
    · simp
    · simp
  · simp [present]

theorem extendExchanges_append {known appended : List Exchange} (front : List Exchange) (present : known ≠ []) :
    extendExchanges unicode (front ++ known) appended = front ++ extendExchanges unicode known appended := by
  cases appended with
  | nil => rw [extendExchanges_nil, extendExchanges_nil]
  | cons first rest =>
    obtain ⟨last, final⟩ := List.getLast?_isSome.mpr present |> Option.isSome_iff_exists.mp
    have both : (front ++ known).getLast? = some last := by simp [List.getLast?_append, final]
    simp only [extendExchanges, final, both]
    split
    · rw [List.dropLast_append_of_ne_nil present, List.append_assoc]
    · rw [List.append_assoc]

def Current.extend (first second : Current) : Current :=
  { user := first.user ++ second.user
    assistant := first.assistant ++ second.assistant
    tools := first.tools ++ second.tools }

variable (unicode) in
theorem flushExchange_extend (first second : Current) (unopened : second.user = []) (more : List Exchange)
    (opens : ∀ next ∈ more.head?, next.user ≠ []) :
    extendExchanges unicode (flushExchange unicode first) (flushExchange unicode second ++ more) =
      flushExchange unicode (first.extend second) ++ more := by
  by_cases before : first.any
  · by_cases after : second.any
    · have both : (first.extend second).any = true := by
        simp only [Current.any, Current.extend, Bool.or_eq_true, Bool.not_eq_true', List.isEmpty_eq_false_iff] at before ⊢
        simp only [ne_eq, List.append_eq_nil_iff, not_and_or]
        tauto
      unfold flushExchange
      rw [if_pos before, if_pos after, if_pos both]
      simp [extendExchanges, exchangeOf, unopened, mergeExchanges, Current.extend]
    · obtain rfl := Current.eq_empty (Bool.not_eq_true _ ▸ after)
      have same : first.extend {} = first := by simp [Current.extend]
      rw [same, @flushExchange_empty unicode {} rfl, List.nil_append]
      cases more with
      | nil => rw [extendExchanges_nil, List.append_nil]
      | cons next rest =>
        have opened : next.user.isEmpty = false := by simpa using opens next rfl
        simp [flushExchange, before, extendExchanges, opened]
  · obtain rfl := Current.eq_empty (Bool.not_eq_true _ ▸ before)
    have same : Current.extend {} second = second := by simp [Current.extend]
    rw [same]
    rfl

variable (unicode) in
theorem groupEntries_extend (first second : Current) (unopened : second.user = []) (entries : List Entry) :
    (groupEntries unicode (first.extend second) entries).1 =
      extendExchanges unicode (flushExchange unicode first) (groupEntries unicode second entries).1 := by
  induction entries generalizing second with
  | nil =>
    have flushed := flushExchange_extend unicode first second unopened [] nofun
    simpa [groupEntries] using flushed.symm
  | cons entry rest ih =>
    obtain ⟨role, content⟩ := entry
    cases role with
    | user =>
      refine (flushExchange_extend unicode first second unopened _ fun next member => ?_).symm
      obtain ⟨start, more, grouped, user⟩ := groupEntries_opened unicode
        { user := [content] } (List.cons_ne_nil _ _) rest
      rw [grouped] at member
      obtain rfl := Option.some.inj member
      rw [user]
      exact List.cons_ne_nil _ _
    | assistant =>
      have step := ih { second with assistant := second.assistant ++ [content] } unopened
      simpa [groupEntries, Current.extend] using step
    | tool =>
      rw [groupEntries_tool, groupEntries_tool]
      split
      · exact ih second unopened
      · have step := ih { second with tools := second.tools ++ [toolName content] } unopened
        simpa [Current.extend] using step

theorem groupEntries_append (current : Current) (first second : List Entry) :
    (groupEntries unicode current (first ++ second)).1 =
      extendExchanges unicode (groupEntries unicode current first).1 (exchangesOf unicode second) := by
  induction first generalizing current with
  | nil =>
    have step := groupEntries_extend unicode current {} rfl second
    simpa [groupEntries, Current.extend, exchangesOf] using step
  | cons entry rest ih =>
    obtain ⟨role, content⟩ := entry
    cases role with
    | user =>
      obtain ⟨start, more, grouped, _⟩ := groupEntries_opened unicode
        { user := [content] } (List.cons_ne_nil _ _) rest
      have present : (groupEntries unicode { user := [content] } rest).1 ≠ [] := by simp [grouped]
      simp [groupEntries, ih, extendExchanges_append _ present]
    | assistant => exact ih _
    | tool =>
      rw [List.cons_append, groupEntries_tool, groupEntries_tool]
      split
      · exact ih _
      · exact ih _

theorem exchangesOf_append (first second : List Entry) :
    exchangesOf unicode (first ++ second) =
      extendExchanges unicode (exchangesOf unicode first) (exchangesOf unicode second) :=
  groupEntries_append {} first second

/-! ### Assistant texts that are not shown -/

variable (unicode) in
theorem groupEntries_leftOpen (current : Current) (entries : List Entry) :
    ((groupEntries unicode current entries).1.getLast?.any fun last => !last.assistant.isEmpty) =
      entries.foldl (fun said entry => match entry.role with
        | .user => false
        | .assistant => true
        | .tool => said) (!current.assistant.isEmpty) := by
  induction entries generalizing current with
  | nil =>
    by_cases shown : current.any
    · simp [groupEntries, flushExchange, shown, exchangeOf]
    · obtain rfl := Current.eq_empty (Bool.not_eq_true _ ▸ shown)
      rfl
  | cons entry rest ih =>
    obtain ⟨role, content⟩ := entry
    cases role with
    | user =>
      obtain ⟨start, more, grouped, _⟩ := groupEntries_opened unicode
        { user := [content] } (List.cons_ne_nil _ _) rest
      have present : (groupEntries unicode { user := [content] } rest).1 ≠ [] := by simp [grouped]
      have step := ih { user := [content] }
      simpa [groupEntries, List.getLast?_append_of_ne_nil _ present] using step
    | assistant =>
      have opened : (!(current.assistant ++ [content]).isEmpty) = true := by simp
      have step := ih { current with assistant := current.assistant ++ [content] }
      rw [opened] at step
      exact step
    | tool =>
      rw [groupEntries_tool]
      split
      · exact ih current
      · exact ih { current with tools := current.tools ++ [toolName content] }

theorem flushExchange_opensWithAssistant (current : Current) (unopened : current.user = []) :
    ((flushExchange unicode current).head?.any fun first => first.user.isEmpty && !first.assistant.isEmpty) =
      !current.assistant.isEmpty := by
  by_cases shown : current.any
  · simp [flushExchange, shown, exchangeOf, unopened]
  · obtain rfl := Current.eq_empty (Bool.not_eq_true _ ▸ shown)
    rfl

variable (unicode) in
theorem groupEntries_opensWithAssistant (current : Current) (unopened : current.user = []) (entries : List Entry) :
    ((groupEntries unicode current entries).1.head?.any fun first =>
      first.user.isEmpty && !first.assistant.isEmpty) =
        (!current.assistant.isEmpty || opensWithAssistant entries) := by
  induction entries generalizing current with
  | nil => simpa [groupEntries, opensWithAssistant] using flushExchange_opensWithAssistant current unopened
  | cons entry rest ih =>
    obtain ⟨role, content⟩ := entry
    cases role with
    | user =>
      obtain ⟨start, more, grouped, user⟩ := groupEntries_opened unicode
        { user := [content] } (List.cons_ne_nil _ _) rest
      by_cases shown : current.any
      · simp [groupEntries, flushExchange, shown, exchangeOf, unopened, opensWithAssistant]
      · obtain rfl := Current.eq_empty (Bool.not_eq_true _ ▸ shown)
        simp [groupEntries, @flushExchange_empty unicode {} rfl, grouped, user, opensWithAssistant]
    | assistant =>
      have opened : (!(current.assistant ++ [content]).isEmpty) = true := by simp
      have step := ih { current with assistant := current.assistant ++ [content] } unopened
      rw [opened, Bool.true_or] at step
      rw [opensWithAssistant, Bool.or_true]
      exact step
    | tool =>
      rw [groupEntries_tool]
      split
      · exact ih current unopened
      · exact ih { current with tools := current.tools ++ [toolName content] } unopened

theorem collapsed_append (first second : List Exchange) :
    collapsed (first ++ second) = collapsed first + collapsed second := by
  simp [collapsed]

theorem collapsed_extend (known appended : List Exchange) :
    collapsed (extendExchanges unicode known appended) = collapsed known + collapsed appended +
      (if (known.getLast?.any fun last => !last.assistant.isEmpty) &&
        (appended.head?.any fun first => first.user.isEmpty && !first.assistant.isEmpty) then 1 else 0) := by
  rcases List.eq_nil_or_concat known with rfl | ⟨front, last, rfl⟩
  · simp [extendExchanges, collapsed]
  · cases appended with
    | nil => simp [extendExchanges_nil, collapsed]
    | cons first rest =>
      have final : (front ++ [last]).getLast? = some last := List.getLast?_concat
      by_cases unopened : first.user.isEmpty
      · simp only [List.concat_eq_append, extendExchanges, final, unopened, if_true, List.dropLast_concat,
          collapsed_append, Option.any_some, List.head?_cons, Bool.true_and]
        simp only [collapsed, List.map_cons, List.sum_cons, List.map_nil, List.sum_nil, mergeExchanges, exchangeOf,
          List.length_append]
        -- one of the two shown assistant texts is no longer shown where both turns have one
        cases said : last.assistant with
        | nil => simp
        | cons said more =>
          cases opened : first.assistant with
          | nil => simp; omega
          | cons next others => simp; omega
      · simp [extendExchanges, final, unopened, collapsed]
        omega

theorem collapsed_exchangesOf_append (first second : List Entry) :
    collapsed (exchangesOf unicode (first ++ second)) =
      collapsed (exchangesOf unicode first) + collapsed (exchangesOf unicode second) +
        (if leftOpen first && opensWithAssistant second then 1 else 0) := by
  have left := groupEntries_leftOpen unicode {} first
  have right := groupEntries_opensWithAssistant unicode {} rfl second
  rw [exchangesOf_append, collapsed_extend]
  unfold exchangesOf at *
  rw [left, right]
  rfl

/-! ### The messages of a text -/

variable (unicode) in
def messages (value : Text) : List Entry :=
  (labelled (entryRe.pieces none 0 (rendering unicode value)).2).filter fun entry => !entry.content.isEmpty

variable (unicode) in
def kept (value : Text) : List Entry := (keepEntries none (messages unicode value)).1

theorem keepEntries_filter (previous : Option Entry) (entries : List Entry) :
    keepEntries previous (entries.filter fun entry => !entry.content.isEmpty) = keepEntries previous entries := by
  induction entries generalizing previous with
  | nil => rfl
  | cons entry rest ih =>
    by_cases blank : entry.content = []
    · rw [List.filter_cons_of_neg (by simp [blank])]
      simp [keepEntries, blank, ih]
    · rw [List.filter_cons_of_pos (by simp [blank])]
      simp [keepEntries, blank, ih]

theorem keepEntries_length (previous : Option Entry) {entries : List Entry}
    (shown : ∀ entry ∈ entries, entry.content ≠ []) :
    (keepEntries previous entries).1.length + (keepEntries previous entries).2 = entries.length := by
  induction entries generalizing previous with
  | nil => rfl
  | cons entry rest ih =>
    have later : ∀ previous, (keepEntries previous rest).1.length + (keepEntries previous rest).2 = rest.length :=
      fun previous => ih previous fun other member => shown other (List.mem_cons_of_mem _ member)
    have here := shown entry List.mem_cons_self
    by_cases repeated : previous = some entry
    · have step := later previous
      simp only [keepEntries, here, repeated, if_true, if_false, List.length_cons] at step ⊢
      omega
    · have step := later (some entry)
      simp only [keepEntries, here, repeated, if_false, List.length_cons]
      omega

variable (unicode) in
theorem parseExchanges_kept (value : Text) :
    (parseExchanges unicode value).exchanges = exchangesOf unicode (kept unicode value) ∧
      (parseExchanges unicode value).summary.inputMessageCount = (kept unicode value).length ∧
      (parseExchanges unicode value).summary.inputMessageCount +
        (parseExchanges unicode value).summary.duplicateMessageCount = (messages unicode value).length ∧
      (parseExchanges unicode value).summary.collapsedAssistantMessageCount =
        collapsed (exchangesOf unicode (kept unicode value)) := by
  unfold kept messages parseExchanges
  rcases entryRe.pieces none 0 (rendering unicode value) with ⟨front, labels⟩
  cases labels with
  | nil => exact ⟨rfl, rfl, rfl, rfl⟩
  | cons label labels =>
    have count : (keepEntries none ((labelled (label :: labels)).filter fun entry => !entry.content.isEmpty)).1.length +
        (keepEntries none ((labelled (label :: labels)).filter fun entry => !entry.content.isEmpty)).2 = _ :=
      keepEntries_length none fun entry member => by simpa using (List.mem_filter.mp member).2
    rw [keepEntries_filter] at count ⊢
    exact ⟨rfl, rfl, count, rfl⟩

end HarnessMem.Projection
