import HarnessMem.Library.Substitution
import HarnessMem.Projection.Grouping

/-! The hashes of authored messages at capture time. A label of the captured rendering counts
for an author if it stems from the label of a message that the native source gives that author.
-/

set_option autoImplicit false

namespace HarnessMem.Adapters.Snapshot

open Library Library.Regex
open Projection (Entry Exchange Role Text Unicode conversation entryRe exchangesOf groupEntries_conversation keepEntries
  labelled parseExchanges rendering roleOf turnHeadingRe)

/-! ### Private spans -/

def privateRedaction : Text := "[private content omitted]".toList

section

variable (unicode : Unicode)

/-- `_PRIVATE_TEXT_RE`: `<private\b[^>]*>.*?</private\s*>` with the flags `i` and `s`. -/
def privateTextRe : Regex :=
  cat [ignoreCase "<private", wordBoundary unicode.isWord, star (one fun c => c != '>'), literal ">",
    lazily (cat [ignoreCase "</private", star (one isSpace), literal ">"])]

/-- `redact_private_text(value)[0]`. -/
def redactPrivateText (value : Text) : Text := (privateTextRe unicode).sub privateRedaction value

end

example : redactPrivateText .ascii "a<Private x>b\nc</PRIVATE >d<private>e".toList =
    "a[private content omitted]d<private>e".toList := by decide +kernel

/-! ### Labels -/

inductive Author where
  | user | assistant
  deriving DecidableEq, Repr

/-- `speaker.title()`. -/
def Author.title : Author → Text
  | .user => "User".toList
  | .assistant => "Assistant".toList

/-- `exchange[speaker]`. -/
def Author.texts : Author → Exchange → List Text
  | .user => Exchange.user
  | .assistant => Exchange.assistant

/-- A label, the position of its name and the text up to the next label. -/
structure Label where
  name : Text
  position : Nat
  body : Text
  deriving DecidableEq, Repr

/-- A match is a separator, the name and `": "`. -/
def labelsFrom : Nat → List (Match × Text) → List Label
  | _, [] => []
  | start, (found, gap) :: rest =>
    ⟨found.groups.headD [], start + (found.text.length - ((found.groups.headD []).length + 2)), strip gap⟩ ::
      labelsFrom (start + found.text.length + gap.length) rest

def labels (text : Text) : List Label := labelsFrom (entryRe.pieces none 0 text).1.length (entryRe.pieces none 0 text).2

def labelsOf (speaker : Author) (text : Text) : List Label := (labels text).filter fun label => label.name = speaker.title

/-! ### Author hashes -/

section

variable (unicode : Unicode) (sha256Text : Text → String) (before after : Text) (authored : List Text) (privateTags : Bool)
  (speaker : Author)

def expected : List Text := authored.filter fun text => strip text ≠ []

def redacted (text : Text) : Text := if privateTags then redactPrivateText unicode text else text

def privacyEdits : List (Nat × Nat × Nat) :=
  if privateTags then edited privateRedaction.length ((privateTextRe unicode).spans before) else []

def headingEdits : List (Nat × Nat × Nat) := edited 0 ((turnHeadingRe unicode).spans after)

/-- `marker_bodies`: where the native labels that survive both edits went, with the text that may stand there. -/
def markerBodies : List (Int × Text) :=
  (((labelsOf speaker before).map Label.position).zip ((expected authored).map fun text =>
      strip (redacted unicode privateTags text))).filterMap fun marker =>
    ((survivingPosition marker.1 (privacyEdits unicode before privateTags)).bind fun moved =>
      survivingPosition moved (headingEdits unicode after)).map fun place => (place, marker.2)

/-- `dict.get`: what was assigned last. -/
def markerBody? (markers : List (Int × Text)) (position : Int) : Option Text :=
  (markers.reverse.find? fun marker => marker.1 = position).map (·.2)

def capturedTexts : List Text := (parseExchanges unicode after).exchanges.flatMap speaker.texts

def authoredCaptureHashes : List String :=
  if (labelsOf speaker before).map Label.body ≠ expected authored then []
  else if after ≠ redacted unicode privateTags before then []
  else if (labelsOf speaker ((turnHeadingRe unicode).erase after)).any fun label =>
      markerBody? (markerBodies unicode before after authored privateTags speaker) label.position ≠ some label.body then []
  else (capturedTexts unicode after speaker).map sha256Text

/-- A place of the captured rendering without headings stems from a place of the original: the character there
was neither put in by the redaction nor moved to another place by either edit. -/
def Stems (place origin : Nat) : Prop :=
  ∃ between, ((turnHeadingRe unicode).origins 0 after)[place]? = some (some between) ∧
    (if privateTags then ((privateTextRe unicode).origins privateRedaction.length before)[between]? = some (some origin)
      else between = origin)

end

/-! ### Positions -/

section

variable {unicode : Unicode} {before after : Text} {privateTags : Bool}

theorem labelsFrom_inside {start : Nat} {found : List (Match × Text)} (filled : ∀ cut ∈ found, cut.1.text ≠ []) :
    ∀ label ∈ labelsFrom start found, label.position < start + (pieced found).length := by
  induction found generalizing start with
  | nil => exact List.forall_mem_nil _
  | cons cut rest ih =>
    obtain ⟨here, gap⟩ := cut
    obtain ⟨first, later⟩ := List.forall_mem_cons.mp filled
    have positive : 0 < here.text.length := List.length_pos_iff.mpr first
    have lengths : (pieced ((here, gap) :: rest)).length = here.text.length + gap.length + (pieced rest).length := by
      simp only [pieced, List.flatMap_cons, List.length_append]
    rw [lengths]
    intro label member
    rcases List.mem_cons.mp member with rfl | behind
    · dsimp only
      omega
    · have bound := ih later label behind
      omega

theorem label_inside {text : Text} {label : Label} (member : label ∈ labels text) : label.position < text.length := by
  have cuts := cuts_pieces entryRe none text
  unfold labels at member
  generalize (entryRe.pieces none 0 text).1 = front at cuts member
  generalize (entryRe.pieces none 0 text).2 = found at cuts member
  have bound := labelsFrom_inside (cuts_filled cuts) label member
  rw [cuts.flatten, List.length_append]
  exact bound

theorem stems_of_survives {position : Nat} (inside : position < before.length)
    (captured : after = redacted unicode privateTags before) {moved place : Int}
    (first : survivingPosition position (privacyEdits unicode before privateTags) = some moved)
    (second : survivingPosition moved (headingEdits unicode after) = some place) :
    ∃ shown : Nat, place = shown ∧ Stems unicode before after privateTags shown position := by
  have between : ∃ middle : Nat, moved = middle ∧ middle < after.length ∧
      (if privateTags then ((privateTextRe unicode).origins privateRedaction.length before)[middle]? = some (some position)
        else middle = position) := by
    unfold privacyEdits at first
    unfold redacted at captured
    cases privateTags with
    | false =>
      rw [if_neg Bool.false_ne_true] at first captured
      have same : (position : Int) + 0 = moved := Option.some.inj first
      exact ⟨position, by omega, captured ▸ inside, rfl⟩
    | true =>
      rw [if_pos rfl] at first captured
      obtain ⟨middle, moves, stems⟩ := survivingPosition_origin inside first
      have bound := (List.getElem?_eq_some_iff.mp stems).1
      rw [length_origins] at bound
      exact ⟨middle, moves, captured ▸ bound, stems⟩
  obtain ⟨middle, rfl, bound, kept⟩ := between
  obtain ⟨shown, rfl, stems⟩ := survivingPosition_origin bound second
  exact ⟨shown, rfl, middle, stems, kept⟩

theorem markerBody?_spec {authored : List Text} {speaker : Author} (captured : after = redacted unicode privateTags before)
    {place : Nat} {body : Text}
    (found : markerBody? (markerBodies unicode before after authored privateTags speaker) place = some body) :
    ∃ (index : Nat) (native : Label) (message : Text), (labelsOf speaker before)[index]? = some native ∧ (expected authored)[index]? = some message ∧
      Stems unicode before after privateTags place native.position ∧ body = strip (redacted unicode privateTags message) := by
  obtain ⟨marker, held, rfl⟩ := Option.map_eq_some_iff.mp found
  have told := List.find?_some held
  have here : marker.1 = (place : Int) := of_decide_eq_true told
  have member := List.mem_reverse.mp (List.mem_of_find?_eq_some held)
  obtain ⟨source, zipped, moves⟩ := List.mem_filterMap.mp member
  obtain ⟨final, survives, rfl⟩ := Option.map_eq_some_iff.mp moves
  obtain ⟨moved, first, second⟩ := Option.bind_eq_some_iff.mp survives
  obtain ⟨index, bound, same⟩ := List.getElem_of_mem zipped
  rw [List.length_zip, List.length_map, List.length_map] at bound
  have native : index < (labelsOf speaker before).length := by omega
  have message : index < (expected authored).length := by omega
  rw [List.getElem_zip, List.getElem_map, List.getElem_map] at same
  rw [← same] at first
  have inside := label_inside (List.mem_filter.mp (List.getElem_mem native)).1
  obtain ⟨shown, moved_to, stems⟩ := stems_of_survives inside captured first second
  have places : shown = place := by
    dsimp only at here
    omega
  subst places
  exact ⟨index, _, _, List.getElem?_eq_getElem native, List.getElem?_eq_getElem message, stems, by rw [← same]⟩

end

/-! ### What the parser finds -/

section

variable {unicode : Unicode} {after text : Text} {speaker : Author}

def Author.role : Author → Role
  | .user => .user
  | .assistant => .assistant

theorem mem_conversation {exchange : Exchange} (inside : text ∈ speaker.texts exchange) :
    (⟨speaker.role, text⟩ : Entry) ∈ exchange.conversation := by
  unfold Exchange.conversation
  cases speaker with
  | user => exact List.mem_append_left _ (List.mem_map_of_mem inside)
  | assistant => exact List.mem_append_right _ (List.mem_map_of_mem inside)

theorem mem_of_keepEntries {previous : Option Entry} {entries : List Entry} {entry : Entry}
    (member : entry ∈ (keepEntries previous entries).1) : entry ∈ entries := by
  induction entries generalizing previous with
  | nil => exact member
  | cons first rest ih =>
    unfold keepEntries at member
    split at member
    · exact List.mem_cons_of_mem _ (ih member)
    · split at member
      · exact List.mem_cons_of_mem _ (ih member)
      · rcases List.mem_cons.mp member with rfl | later
        · exact List.mem_cons_self
        · exact List.mem_cons_of_mem _ (ih later)

theorem mem_labelsFrom {start : Nat} {found : List (Match × Text)} {cut : Match × Text} (member : cut ∈ found) :
    ∃ label ∈ labelsFrom start found, label.name = cut.1.groups.headD [] ∧ label.body = strip cut.2 := by
  induction found generalizing start with
  | nil => cases member
  | cons first rest ih =>
    rcases List.mem_cons.mp member with rfl | later
    · exact ⟨_, List.mem_cons_self, rfl, rfl⟩
    · obtain ⟨label, inside, named⟩ := ih later
      exact ⟨label, List.mem_cons_of_mem _ inside, named⟩

theorem name_of_role {name : Text} (same : roleOf name = speaker.role) : name = speaker.title := by
  unfold roleOf at same
  split at same
  · next user =>
    cases speaker with
    | user => exact user
    | assistant => cases same
  · split at same
    · next assistant =>
      cases speaker with
      | user => cases same
      | assistant => exact assistant
    · cases speaker <;> cases same

theorem label_of_captured (member : text ∈ capturedTexts unicode after speaker) :
    ∃ label ∈ labelsOf speaker ((turnHeadingRe unicode).erase after), label.body = text := by
  obtain ⟨exchange, parsed, inside⟩ := List.mem_flatMap.mp member
  rw [(Projection.parseExchanges_kept unicode after).1] at parsed
  have said : (⟨speaker.role, text⟩ : Entry) ∈ (exchangesOf unicode (Projection.kept unicode after)).flatMap Exchange.conversation :=
    List.mem_flatMap.mpr ⟨exchange, parsed, mem_conversation inside⟩
  unfold exchangesOf at said
  rw [groupEntries_conversation] at said
  have kept := (List.mem_filter.mp said).1
  have message := (List.mem_filter.mp (mem_of_keepEntries kept)).1
  obtain ⟨cut, found, same⟩ := List.mem_map.mp message
  obtain ⟨role, content⟩ := Entry.mk.inj same
  obtain ⟨label, shown, name, body⟩ := mem_labelsFrom found
  refine ⟨label, List.mem_filter.mpr ⟨shown, decide_eq_true ?_⟩, body.trans content⟩
  rw [name]
  exact name_of_role role

end

/-! ### The hashes are sound -/

/-- A label of the captured rendering is the author's: it stems from the label of a native message, and the text
behind it is the redacted text of that message. -/
def Authored (unicode : Unicode) (before after : Text) (authored : List Text) (privateTags : Bool) (speaker : Author)
    (shown : Label) : Prop :=
  ∃ (index : Nat) (native : Label) (message : Text),
    (labelsOf speaker before)[index]? = some native ∧ (expected authored)[index]? = some message ∧ native.body = message ∧
      Stems unicode before after privateTags shown.position native.position ∧
        shown.body = strip (redacted unicode privateTags message)

/-- Where the hashes of all texts of a speaker are returned and there is a text, every label of the speaker that the
parser can find is the author's, and every text stands behind one of them. -/
theorem authoredCaptureHashes_sound (unicode : Unicode) (sha256Text : Text → String) (before after : Text)
    (authored : List Text) (privateTags : Bool) (speaker : Author)
    (returned : authoredCaptureHashes unicode sha256Text before after authored privateTags speaker =
      (capturedTexts unicode after speaker).map sha256Text) :
    ∀ text ∈ capturedTexts unicode after speaker,
      (∀ shown ∈ labelsOf speaker ((turnHeadingRe unicode).erase after),
        Authored unicode before after authored privateTags speaker shown) ∧
      ∃ shown ∈ labelsOf speaker ((turnHeadingRe unicode).erase after), shown.body = text := by
  intro text member
  refine ⟨?_, label_of_captured member⟩
  have filled : (capturedTexts unicode after speaker).map sha256Text ≠ [] := by
    rw [Ne, List.map_eq_nil_iff]
    exact List.ne_nil_of_mem member
  unfold authoredCaptureHashes at returned
  split at returned
  · exact absurd returned.symm filled
  · next natives =>
    split at returned
    · exact absurd returned.symm filled
    · next captured =>
      rw [not_not] at natives captured
      split at returned
      · exact absurd returned.symm filled
      · next checked =>
        intro shown inside
        have passes : markerBody? (markerBodies unicode before after authored privateTags speaker) shown.position =
            some shown.body := by
          by_contra other
          exact checked (List.any_eq_true.mpr ⟨shown, inside, decide_eq_true other⟩)
        obtain ⟨index, native, message, label, said, stems, body⟩ := markerBody?_spec captured passes
        refine ⟨index, native, message, label, said, ?_, stems, body⟩
        have same : ((labelsOf speaker before).map Label.body)[index]? = some native.body := by
          rw [List.getElem?_map, label, Option.map_some]
        rw [natives, said, Option.some.injEq] at same
        exact same.symm

def twoRequests : Text := "User: fix it\n\nAssistant: <private>key</private> done\n\nUser: thanks".toList

/-- Both requests are the user's, though the redaction moved the second one. -/
theorem twoRequests_authored :
    capturedTexts .ascii (redactPrivateText .ascii twoRequests) .user = ["fix it".toList, "thanks".toList] ∧
      ∀ text ∈ capturedTexts .ascii (redactPrivateText .ascii twoRequests) .user,
        (∀ shown ∈ labelsOf .user ((turnHeadingRe .ascii).erase (redactPrivateText .ascii twoRequests)),
          Authored .ascii twoRequests (redactPrivateText .ascii twoRequests) ["fix it".toList, "thanks".toList] true .user shown) ∧
        ∃ shown ∈ labelsOf .user ((turnHeadingRe .ascii).erase (redactPrivateText .ascii twoRequests)), shown.body = text :=
  ⟨by decide +kernel, authoredCaptureHashes_sound .ascii String.ofList twoRequests (redactPrivateText .ascii twoRequests)
    ["fix it".toList, "thanks".toList] true .user (by decide +kernel)⟩

end HarnessMem.Adapters.Snapshot
