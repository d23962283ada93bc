import HarnessMem.Chunking.Chunker
import HarnessMem.Library.Results

/-! Logical units that partition a text, and where a cut can fall among them. -/

set_option autoImplicit false

namespace HarnessMem.TranscriptChunking

def Partition (length : Nat) : Nat → List TranscriptLogicalUnit → Prop
  | start, [] => start = length
  | start, unit :: units => unit.charStart = start ∧ unit.charStart < unit.charEnd ∧ Partition length unit.charEnd units

variable {units : List TranscriptLogicalUnit}

theorem partition_of_check {length : Nat} {start : Nat} {seen : List String}
    (checked : checkUnits length units start seen = .ok ()) : Partition length start units := by
  induction units generalizing start seen with
  | nil =>
    unfold checkUnits at checked
    split at checked
    · cases checked
    · next whole => exact not_not.mp whole
  | cons unit units ih =>
    unfold checkUnits at checked
    split at checked
    · cases checked
    · next follows =>
      split at checked
      · cases checked
      · next inside =>
        split at checked
        · cases checked
        · split at checked
          · cases checked
          · exact ⟨not_not.mp follows, by omega, ih checked⟩

namespace Partition

variable {length start : Nat} {units : List TranscriptLogicalUnit}

theorem start_le (partition : Partition length start units) : start ≤ length := by
  induction units generalizing start with
  | nil => exact Nat.le_of_eq partition
  | cons unit units ih =>
    obtain ⟨follows, filled, rest⟩ := partition
    have behind := ih rest
    omega

variable {index : Nat} {unit : TranscriptLogicalUnit}

theorem get (partition : Partition length start units)
    (found : units[index]? = some unit) :
    start ≤ unit.charStart ∧ unit.charStart < unit.charEnd ∧ Partition length unit.charEnd (units.drop (index + 1)) := by
  induction units generalizing start index with
  | nil => simp at found
  | cons head units ih =>
    obtain ⟨follows, filled, rest⟩ := partition
    cases index with
    | zero =>
      cases found
      exact ⟨Nat.le_of_eq follows.symm, filled, rest⟩
    | succ index =>
      obtain ⟨later, inside, behind⟩ := ih rest found
      exact ⟨by omega, inside, behind⟩

theorem ordered (partition : Partition length start units) {later : Nat} {other : TranscriptLogicalUnit}
    (found : units[index]? = some unit) (behind : units[later]? = some other) (before : index < later) :
    unit.charEnd ≤ other.charStart := by
  have rest := (partition.get found).2.2
  have shifted : (units.drop (index + 1))[later - (index + 1)]? = some other := by
    rw [List.getElem?_drop, Nat.add_sub_cancel' (by omega), behind]
  exact (rest.get shifted).1

theorem end_le (partition : Partition length start units)
    (found : units[index]? = some unit) : unit.charEnd ≤ length :=
  (partition.get found).2.2.start_le

theorem next (partition : Partition length start units)
    (found : units[index]? = some unit) :
    unit.charEnd = length ∨ ∃ other, units[index + 1]? = some other ∧ other.charStart = unit.charEnd ∧ other.charStart < other.charEnd := by
  have rest := (partition.get found).2.2
  cases shape : units.drop (index + 1) with
  | nil =>
    rw [shape] at rest
    exact .inl rest
  | cons other others =>
    have first : units[index + 1]? = some other := by
      rw [← List.head?_drop, shape]
      rfl
    rw [shape] at rest
    exact .inr ⟨other, first, rest.1, rest.2.1⟩

end Partition

/-- Where a round begins: in the unit of the logical index, or at the end of the text. The flag tells
whether it begins behind the unit's own start. -/
def Aligned (length : Nat) (units : List TranscriptLogicalUnit) (start logicalIndex : Nat) (continued : Bool) : Prop :=
  (start = length ∧ continued = false) ∨
    ∃ unit, units[logicalIndex]? = some unit ∧ unit.charStart ≤ start ∧ start < unit.charEnd ∧ continued = !decide (start = unit.charStart)

/-- What a round settles with logical units. -/
structure UnitRound (length maxChars : Nat) (units : List TranscriptLogicalUnit) (start : Nat) (continued : Bool) (cut : Cut) : Prop where
  later : start < cut.stop
  bounded : cut.stop ≤ start + maxChars ∧ cut.stop ≤ length
  starts : cut.startsWithContinuation = continued
  /-- No unit within the limit has this end inside it. -/
  whole : ∀ unit ∈ units, unit.charEnd - unit.charStart ≤ maxChars → start ≤ unit.charStart → unit.charStart < cut.stop → unit.charEnd ≤ cut.stop
  aligned : Aligned length units cut.stop cut.logicalIndex cut.endsWithContinuation

theorem complete_get {firstIndex hardEnd : Nat}
    (some : ((units.drop firstIndex).takeWhile fun unit => unit.charEnd ≤ hardEnd).length ≠ 0) :
    ∃ last, units[firstIndex + ((units.drop firstIndex).takeWhile fun unit => unit.charEnd ≤ hardEnd).length - 1]? = .some last ∧
      last.charEnd ≤ hardEnd := by
  generalize taken : (units.drop firstIndex).takeWhile (fun unit => unit.charEnd ≤ hardEnd) = complete at some ⊢
  have bound : complete.length - 1 < complete.length := by omega
  have kept : (units.drop firstIndex)[complete.length - 1]? = .some complete[complete.length - 1] := by
    have front : complete <+: units.drop firstIndex := taken ▸ List.takeWhile_prefix _
    rw [List.getElem?_eq_getElem (Nat.lt_of_lt_of_le bound front.length_le), front.getElem bound]
  refine ⟨complete[complete.length - 1], ?_, ?_⟩
  · rw [List.getElem?_drop] at kept
    rw [← kept]
    congr 1
    omega
  · have member : complete[complete.length - 1] ∈ (units.drop firstIndex).takeWhile fun unit => unit.charEnd ≤ hardEnd :=
      taken ▸ List.getElem_mem bound
    simpa using List.mem_takeWhile_imp member

theorem complete_none {firstIndex hardEnd : Nat} {first : TranscriptLogicalUnit}
    (found : units[firstIndex]? = some first)
    (none : ((units.drop firstIndex).takeWhile fun unit => unit.charEnd ≤ hardEnd).length = 0) : hardEnd < first.charEnd := by
  have shape := List.eq_nil_of_length_eq_zero none
  rw [List.drop_eq_getElem?_toList_append, found] at shape
  by_contra within
  rw [Option.toList_some, List.singleton_append, List.takeWhile_cons_of_pos (by simpa using within)] at shape
  cases shape

section round

variable {length maxChars start firstIndex : Nat} {units : List TranscriptLogicalUnit} {continued : Bool}

theorem hardCut_round {unit : TranscriptLogicalUnit} (partition : Partition length 0 units) (found : units[firstIndex]? = some unit)
    (begun : unit.charStart ≤ start) (inside : start < unit.charEnd) (flag : continued = !decide (start = unit.charStart))
    (positive : 1 ≤ maxChars)
    (none : ((units.drop firstIndex).takeWhile fun unit => unit.charEnd ≤ min (start + maxChars) length).length = 0) :
    ∃ cut, logicalCut units start (min (start + maxChars) length) firstIndex = .ok cut ∧
      UnitRound length maxChars units start continued cut := by
  have large := complete_none found none
  have fits := partition.end_le found
  have cutInside : min (start + maxChars) length ≠ unit.charEnd := by omega
  unfold logicalCut
  simp only [none, if_true, found]
  refine ⟨_, rfl, ?_⟩
  constructor
  · show start < min (start + maxChars) length
    omega
  · show min (start + maxChars) length ≤ start + maxChars ∧ min (start + maxChars) length ≤ length
    omega
  · exact flag.symm
  · -- a unit that begins in this round is the first one, and that is too long
    intro other member small behind before
    obtain ⟨index, at_index⟩ := List.getElem?_of_mem member
    have before : other.charStart < min (start + maxChars) length := before
    rcases Nat.lt_trichotomy index firstIndex with earlier | rfl | later
    · have apart := partition.ordered at_index found earlier
      have filled := (partition.get at_index).2.1
      omega
    · rw [found] at at_index
      cases at_index
      omega
    · have apart := partition.ordered found at_index later
      omega
  · refine .inr ⟨unit, ?_, ?_, ?_, ?_⟩
    · simp only [cutInside, decide_false, Bool.false_eq_true, if_false, found]
    · show unit.charStart ≤ min (start + maxChars) length
      omega
    · exact large
    · have moved : min (start + maxChars) length ≠ unit.charStart := by omega
      simp [cutInside, moved]

theorem unitCut_round {unit : TranscriptLogicalUnit} (partition : Partition length 0 units) (found : units[firstIndex]? = some unit)
    (inside : start < unit.charEnd) (flag : continued = !decide (start = unit.charStart))
    (some : ((units.drop firstIndex).takeWhile fun unit => unit.charEnd ≤ min (start + maxChars) length).length ≠ 0) :
    ∃ cut, logicalCut units start (min (start + maxChars) length) firstIndex = .ok cut ∧
      UnitRound length maxChars units start continued cut := by
  obtain ⟨last, atLast, within⟩ := complete_get some
  unfold logicalCut
  generalize ((units.drop firstIndex).takeWhile fun unit => unit.charEnd ≤ min (start + maxChars) length).length = complete at some atLast ⊢
  simp only [some, if_false, found, atLast, decide_true, if_true]
  refine ⟨_, rfl, ?_⟩
  have reaches : unit.charEnd ≤ last.charEnd := by
    by_cases single : complete = 1
    · subst single
      rw [Nat.add_sub_cancel, found] at atLast
      cases atLast
      exact Nat.le_refl _
    · have apart := partition.ordered found atLast (by omega)
      have filled := (partition.get atLast).2.1
      omega
  constructor
  · show start < last.charEnd
    omega
  · show last.charEnd ≤ start + maxChars ∧ last.charEnd ≤ length
    omega
  · exact flag.symm
  · intro other member _ _ before
    obtain ⟨index, at_index⟩ := List.getElem?_of_mem member
    have before : other.charStart < last.charEnd := before
    show other.charEnd ≤ last.charEnd
    rcases Nat.lt_trichotomy index (firstIndex + complete - 1) with earlier | rfl | later
    · have apart := partition.ordered at_index atLast earlier
      have filled := (partition.get atLast).2.1
      omega
    · rw [atLast] at at_index
      cases at_index
      exact Nat.le_refl _
    · have apart := partition.ordered atLast at_index later
      omega
  · rcases partition.next atLast with whole | ⟨other, found, follows, filled⟩
    · exact .inl ⟨whole, rfl⟩
    · refine .inr ⟨other, found, Nat.le_of_eq follows, ?_, ?_⟩
      · show last.charEnd < other.charEnd
        omega
      · simp [follows]

theorem logicalCut_round (partition : Partition length 0 units) (aligned : Aligned length units start firstIndex continued)
    (more : start < length) (positive : 1 ≤ maxChars) :
    ∃ cut, logicalCut units start (min (start + maxChars) length) firstIndex = .ok cut ∧
      UnitRound length maxChars units start continued cut := by
  rcases aligned with ⟨ended, _⟩ | ⟨unit, found, begun, inside, flag⟩
  · omega
  · by_cases none : ((units.drop firstIndex).takeWhile fun unit => unit.charEnd ≤ min (start + maxChars) length).length = 0
    · exact hardCut_round partition found begun inside flag positive none
    · exact unitCut_round partition found inside flag none

end round

end HarnessMem.TranscriptChunking

/-! Every chunking can be undone, keeps the logical units that fit and marks the others; what bounds its chunks. -/

namespace HarnessMem.TranscriptChunking

/-! ### Windows of a text -/

/-- How much of a text longer than the limit goes into one chunk: up to its last newline within the
limit that is not its first character, or else to the limit. -/
def window (maxChars : Nat) (text : List Char) : Nat :=
  if text.length ≤ maxChars then text.length
  else
    match rfindNewline text 1 maxChars with
    | some boundary => boundary + 1
    | none => maxChars

/-- Going through a text window by window, no newline stands directly behind the limit. -/
inductive Clear (maxChars : Nat) : List Char → Prop where
  | short {text : List Char} : text.length ≤ maxChars → Clear maxChars text
  | window {text : List Char} : text[maxChars]? ≠ some '\n' → Clear maxChars (text.drop (window maxChars text)) → Clear maxChars text

variable {maxChars : Nat} {text : List Char}

theorem Clear.no_newline (clear : Clear maxChars text) : text[maxChars]? ≠ some '\n' := by
  cases clear with
  | short short =>
    rw [List.getElem?_eq_none short]
    exact nofun
  | window other _ => exact other

theorem clear_iff (other : text[maxChars]? ≠ some '\n') :
    Clear maxChars text ↔ Clear maxChars (text.drop (window maxChars text)) := by
  constructor
  · intro clear
    cases clear with
    | short short =>
      unfold HarnessMem.TranscriptChunking.window
      rw [if_pos short, List.drop_length]
      exact .short (Nat.zero_le _)
    | window _ rest => exact rest
  · exact .window other

theorem rfindNewline_lt {first behind boundary : Nat} (found : rfindNewline text first behind = some boundary) :
    boundary < behind := by
  have member := List.mem_of_find?_eq_some found
  simpa using member

theorem rfindNewline_succ (text : List Char) {first behind : Nat} (reached : first ≤ behind) :
    rfindNewline text first (behind + 1) = if text[behind]? = some '\n' then some behind else rfindNewline text first behind := by
  unfold rfindNewline
  rw [List.range_succ, List.reverse_append, List.reverse_singleton, List.singleton_append, List.find?_cons]
  by_cases newline : text[behind]? = some '\n'
  · simp [newline, reached]
  · simp [newline]

theorem rfindNewline_drop (text : List Char) (start first behind : Nat) :
    rfindNewline text (start + first) (start + behind) = (rfindNewline (text.drop start) first behind).map (start + ·) := by
  induction behind with
  | zero =>
    have none : rfindNewline text (start + first) (start + 0) = .none := by
      refine List.find?_eq_none.mpr fun index member => ?_
      have before : index < start := by simpa using member
      simp only [Bool.and_eq_true, decide_eq_true_eq, not_and]
      omega
    rw [none]
    rfl
  | succ behind ih =>
    by_cases reached : first ≤ behind
    · rw [← Nat.add_assoc, rfindNewline_succ _ (by omega), rfindNewline_succ _ reached, ih, List.getElem?_drop]
      split <;> rfl
    · have none : ∀ (text : List Char) {first behind : Nat}, behind ≤ first → rfindNewline text first behind = .none := by
        intro text first behind short
        refine List.find?_eq_none.mpr fun index member => ?_
        have before : index < behind := by simpa using member
        simp only [Bool.and_eq_true, decide_eq_true_eq, not_and]
        omega
      rw [none text (by omega), none _ (by omega)]
      rfl

theorem window_le (maxChars : Nat) (text : List Char) : window maxChars text ≤ maxChars := by
  unfold window
  split
  · assumption
  · split
    · next found => exact rfindNewline_lt found
    · exact Nat.le_refl _

theorem window_pos (positive : 1 ≤ maxChars) (filled : text ≠ []) : 1 ≤ window maxChars text := by
  have some := List.length_pos_of_ne_nil filled
  unfold window
  split
  · exact some
  · split <;> omega

theorem window_le_length (maxChars : Nat) (text : List Char) : window maxChars text ≤ text.length := by
  have limit := window_le maxChars text
  by_cases short : text.length ≤ maxChars
  · unfold window
    rw [if_pos short]
  · omega

theorem newlineCut_stop {value : List Char} {start maxChars logicalIndex : Nat} (more : start < value.length) (positive : 1 ≤ maxChars) :
    (newlineCut value start (min (start + maxChars) value.length) logicalIndex).stop =
      start + if value[start + maxChars]? = some '\n' then maxChars + 1 else window maxChars (value.drop start) := by
  unfold newlineCut
  dsimp only
  by_cases long : start + maxChars < value.length
  · have limit : min (start + maxChars) value.length = start + maxChars := by omega
    have notShort : ¬(value.drop start).length ≤ maxChars := by
      rw [List.length_drop]
      omega
    rw [limit, if_pos long, rfindNewline_succ value (by omega), rfindNewline_drop]
    by_cases newline : value[start + maxChars]? = some '\n'
    · simp only [newline, if_true]
      omega
    · simp only [newline, if_false]
      unfold window
      rw [if_neg notShort]
      cases rfindNewline (value.drop start) 1 maxChars with
      | none => rfl
      | some boundary =>
        simp only [Option.map_some]
        omega
  · have limit : min (start + maxChars) value.length = value.length := by omega
    have none : value[start + maxChars]? ≠ some '\n' := by
      rw [List.getElem?_eq_none (by omega)]
      exact nofun
    have short : (value.drop start).length ≤ maxChars := by
      rw [List.length_drop]
      omega
    rw [limit, if_neg (Nat.lt_irrefl _), if_neg none]
    unfold window
    rw [if_pos short, List.length_drop]
    exact (Nat.add_sub_cancel' (Nat.le_of_lt more)).symm

/-! ### The rounds of the loop -/

section rounds

/-- What a round says of its chunk: where it ends, and how it stands to the units. -/
structure Round (value : List Char) (units : Option (List TranscriptLogicalUnit)) (maxChars start : Nat) (continued : Bool)
    (stop : Nat) (cut : Cut) : Prop where
  later : start < stop
  inside : stop ≤ value.length
  starts : cut.startsWithContinuation = continued
  bounded : units ≠ none → stop ≤ start + maxChars
  plain : units = none → stop = start + if value[start + maxChars]? = some '\n' then maxChars + 1 else window maxChars (value.drop start)
  whole : ∀ unit ∈ units.getD [], unit.charEnd - unit.charStart ≤ maxChars → start ≤ unit.charStart → unit.charStart < stop → unit.charEnd ≤ stop

/-- A run of rounds to the end of the text; the flag tells whether it begins inside a logical unit. -/
inductive Rounds (hashes : Hashes) (owner : ChunkOwner) (value : List Char) (units : Option (List TranscriptLogicalUnit))
    (maxChars : Nat) : Nat → Nat → Bool → List TranscriptChunk → Prop where
  | done {index : Nat} : Rounds hashes owner value units maxChars value.length index false []
  | round {start stop index : Nat} {continued : Bool} {cut : Cut} {chunks : List TranscriptChunk} :
    Round value units maxChars start continued stop cut →
    Rounds hashes owner value units maxChars stop (index + 1) cut.endsWithContinuation chunks →
    Rounds hashes owner value units maxChars start index continued (chunkOf hashes owner value start stop index cut :: chunks)

def Placed (value : List Char) (units : Option (List TranscriptLogicalUnit)) (start logicalIndex : Nat) (continued : Bool) : Prop :=
  match units with
  | none => continued = false ∧ start ≤ value.length
  | some units => Partition value.length 0 units ∧ Aligned value.length units start logicalIndex continued

variable {hashes : Hashes} {owner : ChunkOwner} {value : List Char} {units : Option (List TranscriptLogicalUnit)} {maxChars : Nat}

theorem Placed.ended {start logicalIndex : Nat} {continued : Bool} (placed : Placed value units start logicalIndex continued)
    (done : ¬start < value.length) : start = value.length ∧ continued = false := by
  cases units with
  | none => exact ⟨by have within := placed.2; omega, placed.1⟩
  | some units =>
    obtain ⟨partition, ended | ⟨unit, found, _, before, _⟩⟩ := placed
    · exact ended
    · have fits := partition.end_le found
      omega

theorem nextCut_round {start logicalIndex : Nat} {continued : Bool} (placed : Placed value units start logicalIndex continued)
    (more : start < value.length) (positive : 1 ≤ maxChars) :
    ∃ cut, nextCut value units start (min (start + maxChars) value.length) logicalIndex = .ok cut ∧
      Round value units maxChars start continued (stopOf start (min (start + maxChars) value.length) cut) cut ∧
      Placed value units (stopOf start (min (start + maxChars) value.length) cut) cut.logicalIndex cut.endsWithContinuation := by
  cases units with
  | none =>
    refine ⟨_, rfl, ?_⟩
    have ends := @newlineCut_stop value start maxChars logicalIndex more positive
    have plain : ∀ cut, cut = newlineCut value start (min (start + maxChars) value.length) logicalIndex →
        cut.startsWithContinuation = false ∧ cut.endsWithContinuation = false := by
      rintro cut rfl
      unfold newlineCut
      dsimp only
      split
      · split <;> exact ⟨rfl, rfl⟩
      · exact ⟨rfl, rfl⟩
    generalize newlineCut value start (min (start + maxChars) value.length) logicalIndex = cut at ends plain
    obtain ⟨starts, continues⟩ := plain cut rfl
    have filled : value.drop start ≠ [] := by
      rw [Ne, List.drop_eq_nil_iff]
      omega
    have some := window_pos positive filled
    have limit := window_le_length maxChars (value.drop start)
    rw [List.length_drop] at limit
    have later : start < cut.stop := by
      rw [ends]
      split <;> omega
    have inside : cut.stop ≤ value.length := by
      rw [ends]
      split
      · next newline =>
        have there := (List.getElem?_eq_some_iff.mp newline).1
        omega
      · omega
    have same : stopOf start (min (start + maxChars) value.length) cut = cut.stop := if_neg (by omega)
    rw [same]
    exact ⟨⟨later, inside, starts.trans placed.1.symm, fun given => absurd rfl given, fun _ => ends, fun _ impossible => absurd impossible List.not_mem_nil⟩,
      continues, inside⟩
  | some units =>
    obtain ⟨partition, aligned⟩ := placed
    obtain ⟨cut, found, round⟩ := logicalCut_round partition aligned more positive
    have later := round.later
    have same : stopOf start (min (start + maxChars) value.length) cut = cut.stop := if_neg (by omega)
    refine ⟨cut, found, ?_⟩
    rw [same]
    exact ⟨⟨later, round.bounded.2, round.starts, fun _ => round.bounded.1, nofun, round.whole⟩, partition, round.aligned⟩

theorem chunkLoop_rounds (positive : 1 ≤ maxChars) {start logicalIndex : Nat} {continued : Bool} (index : Nat)
    (placed : Placed value units start logicalIndex continued) :
    ∃ chunks, chunkLoop hashes owner value units maxChars positive start index logicalIndex = .ok chunks ∧
      Rounds hashes owner value units maxChars start index continued chunks := by
  induction left : value.length - start using Nat.strong_induction_on generalizing start logicalIndex continued index with
  | h left ih =>
    rw [chunkLoop]
    by_cases more : start < value.length
    · obtain ⟨cut, found, round, onward⟩ := nextCut_round placed more positive
      have later := round.later
      obtain ⟨chunks, rest, rounds⟩ := ih _ (by omega) (index + 1) onward rfl
      refine ⟨_, ?_, .round round rounds⟩
      simp only [more, dite_true, found, rest]
      rfl
    · obtain ⟨rfl, rfl⟩ := placed.ended more
      exact ⟨[], dif_neg more, .done⟩

/-! ### What a run of rounds leaves -/

variable {start index : Nat} {continued : Bool} {chunks : List TranscriptChunk}

theorem Round.length {stop : Nat} {cut : Cut} (round : Round value units maxChars start continued stop cut) :
    ((value.drop start).take (stop - start)).length = stop - start := by
  have inside := round.inside
  rw [List.length_take, List.length_drop]
  omega

theorem Rounds.indices (rounds : Rounds hashes owner value units maxChars start index continued chunks) :
    (∀ chunk ∈ chunks, (index : Int) ≤ chunk.chunkIndex) ∧
      chunks.Pairwise fun first second => first.chunkIndex < second.chunkIndex := by
  induction rounds with
  | done => exact ⟨fun _ member => absurd member List.not_mem_nil, .nil⟩
  | @round start stop index _ cut chunks _ _ ih =>
    obtain ⟨later, ordered⟩ := ih
    constructor
    · intro chunk member
      rcases List.mem_cons.mp member with rfl | member
      · exact Int.le_refl _
      · have behind := later chunk member
        omega
    · refine .cons (fun chunk member => ?_) ordered
      have behind := later chunk member
      show (index : Int) < chunk.chunkIndex
      omega

theorem Rounds.joined (rounds : Rounds hashes owner value units maxChars start index continued chunks) :
    joinChecked hashes owner.sourceId owner.revision chunks index start = .ok (String.ofList (value.drop start)) := by
  induction rounds with
  | done =>
    rw [List.drop_length]
    rfl
  | @round start stop index _ cut chunks round _ ih =>
    have width : ((stop : Int) - start) = ((value.drop start).take (stop - start)).length := by
      have later := round.later
      rw [round.length]
      omega
    have whole : (value.drop start).take (stop - start) ++ value.drop stop = value.drop start := by
      have later := round.later
      calc (value.drop start).take (stop - start) ++ value.drop stop
          = (value.drop start).take (stop - start) ++ (value.drop start).drop (stop - start) := by
            rw [List.drop_drop, Nat.add_sub_cancel' (Nat.le_of_lt later)]
        _ = value.drop start := List.take_append_drop _ _
    unfold joinChecked
    have next : ((index + 1 : Nat) : Int) = (index : Int) + 1 := rfl
    rw [next] at ih
    simp only [chunkOf, ne_eq, not_true_eq_false, or_self, if_false, String.toList_ofList, width, ih]
    rw [← String.ofList_append, whole]

theorem Rounds.filled (rounds : Rounds hashes owner value units maxChars start index continued chunks) :
    ∀ chunk ∈ chunks, chunk.rawContent ≠ "" := by
  induction rounds with
  | done => exact fun _ member => absurd member List.not_mem_nil
  | round round _ ih =>
    intro chunk member
    rcases List.mem_cons.mp member with rfl | member
    · intro empty
      have later := round.later
      have none := congrArg (fun text => text.toList.length) empty
      simp only [chunkOf, String.toList_ofList, round.length, String.toList_empty, List.length_nil] at none
      omega
    · exact ih chunk member

theorem Rounds.owned (rounds : Rounds hashes owner value units maxChars start index continued chunks) :
    ∀ chunk ∈ chunks, chunk.sourceId = owner.sourceId ∧ chunk.sourceRevision = owner.revision := by
  induction rounds with
  | done => exact fun _ member => absurd member List.not_mem_nil
  | round _ _ ih => exact List.forall_mem_cons.mpr ⟨⟨rfl, rfl⟩, ih⟩

theorem Rounds.whole (rounds : Rounds hashes owner value units maxChars start index continued chunks) :
    ∀ unit ∈ units.getD [], unit.charEnd - unit.charStart ≤ maxChars → start ≤ unit.charStart → unit.charStart < value.length →
      ∃ chunk ∈ chunks, chunk.charStart ≤ unit.charStart ∧ (unit.charEnd : Int) ≤ chunk.charEnd := by
  induction rounds with
  | done =>
    intro unit _ _ behind before
    omega
  | @round start stop _ _ _ _ round _ ih =>
    intro unit member small behind before
    by_cases here : unit.charStart < stop
    · refine ⟨_, List.mem_cons_self .., ?_, ?_⟩
      · exact Int.ofNat_le.mpr behind
      · exact Int.ofNat_le.mpr (round.whole unit member small behind here)
    · obtain ⟨chunk, inside, spans⟩ := ih unit member small (by omega) before
      exact ⟨chunk, List.mem_cons_of_mem _ inside, spans⟩

theorem Rounds.continues (rounds : Rounds hashes owner value units maxChars start index continued chunks) :
    (continued = true ↔ ∃ next, chunks[0]? = some next ∧ next.startsWithContinuation = true) ∧
      ∀ position chunk, chunks[position]? = some chunk →
        (chunk.endsWithContinuation = true ↔ ∃ next, chunks[position + 1]? = some next ∧ next.startsWithContinuation = true) := by
  induction rounds with
  | done => simp
  | round round _ ih =>
    constructor
    · rw [← round.starts]
      constructor
      · exact fun flag => ⟨_, rfl, flag⟩
      · rintro ⟨_, ⟨⟩, flag⟩
        exact flag
    · intro position chunk found
      cases position with
      | zero =>
        cases found
        exact ih.1
      | succ position => exact ih.2 position chunk found

theorem Rounds.bounded_iff (rounds : Rounds hashes owner value units maxChars start index continued chunks) :
    (∀ chunk ∈ chunks, chunk.rawContent.toList.length ≤ maxChars) ↔ (units = none → Clear maxChars (value.drop start)) := by
  induction rounds with
  | done =>
    rw [List.drop_length]
    exact ⟨fun _ _ => .short (Nat.zero_le _), fun _ _ member => absurd member List.not_mem_nil⟩
  | @round start stop index _ cut chunks round rest ih =>
    have length : (chunkOf hashes owner value start stop index cut).rawContent.toList.length = stop - start := by
      simp only [chunkOf, String.toList_ofList, round.length]
    rw [List.forall_mem_cons, ih, length]
    cases units with
    | some units =>
      have limit := round.bounded nofun
      exact ⟨fun _ => nofun, fun _ => ⟨by omega, nofun⟩⟩
    | none =>
      have ends := round.plain rfl
      have text : value[start + maxChars]? = (value.drop start)[maxChars]? := (List.getElem?_drop ..).symm
      by_cases newline : value[start + maxChars]? = some '\n'
      · rw [if_pos newline] at ends
        constructor
        · intro within
          omega
        · intro clear
          exact absurd (text.symm.trans newline) (clear rfl).no_newline
      · rw [if_neg newline] at ends
        have limit := window_le maxChars (value.drop start)
        have behind : value.drop stop = (value.drop start).drop (window maxChars (value.drop start)) := by
          rw [List.drop_drop, ends]
        rw [behind, ← clear_iff (text ▸ newline)]
        exact ⟨fun both => both.2, fun clear => ⟨by omega, clear⟩⟩

end rounds

/-! ### The chunks of a text -/

structure Lossless (hashes : Hashes) (value : String) (units : Option (List TranscriptLogicalUnit)) (maxChars : Int)
    (chunks : List TranscriptChunk) : Prop where
  restored : ∀ shuffled : List TranscriptChunk, shuffled.Perm chunks →
    reconstructTranscript hashes shuffled none = .ok value ∧
      reconstructTranscript hashes shuffled (some (hashes.sha256Text value)) = .ok value
  filled : ∀ chunk ∈ chunks, chunk.rawContent ≠ ""
  whole : ∀ unit ∈ units.getD [], ((unit.charEnd : Int) - unit.charStart) ≤ maxChars →
    ∃ chunk ∈ chunks, chunk.charStart ≤ unit.charStart ∧ unit.charEnd ≤ chunk.charEnd
  continued : units ≠ none → ∀ index chunk, chunks[index]? = some chunk →
    (chunk.endsWithContinuation = true ↔ ∃ next, chunks[index + 1]? = some next ∧ next.startsWithContinuation = true)

theorem inOrder_perm {chunks shuffled : List TranscriptChunk} (ordered : chunks.Pairwise fun first second => first.chunkIndex < second.chunkIndex)
    (same : shuffled.Perm chunks) : inOrder shuffled = chunks := by
  have sorted : (inOrder shuffled).Pairwise fun first second => first.chunkIndex ≤ second.chunkIndex :=
    List.pairwise_insertionSort (fun first second : TranscriptChunk => first.chunkIndex ≤ second.chunkIndex) shuffled
  have perm : (inOrder shuffled).Perm chunks := (List.perm_insertionSort _ shuffled).trans same
  have distinct : (chunks.map (·.chunkIndex)).Nodup := by
    rw [List.nodup_iff_pairwise_ne, List.pairwise_map]
    exact ordered.imp fun before => Int.ne_of_lt before
  refine perm.eq_of_pairwise (fun first second inFirst inSecond before after => ?_) sorted (ordered.imp Int.le_of_lt)
  exact List.inj_on_of_nodup_map distinct (perm.subset inFirst) inSecond (Int.le_antisymm before after)

variable {units : Option (List TranscriptLogicalUnit)}

theorem Rounds.lossless {hashes : Hashes} {owner : ChunkOwner} {value : String}
    {maxChars : Int} {chunks : List TranscriptChunk} {continued : Bool} (filled : value ≠ "")
    (rounds : Rounds hashes owner value.toList units maxChars.toNat 0 0 continued chunks)
    (inside : ∀ unit ∈ units.getD [], unit.charStart < unit.charEnd ∧ unit.charEnd ≤ value.toList.length) :
    Lossless hashes value units maxChars chunks where
  restored := by
    intro shuffled same
    have plain : reconstructTranscript hashes shuffled none = .ok value := by
      have joined : joinChecked hashes owner.sourceId owner.revision chunks 0 0 = .ok value := by
        have joined := rounds.joined
        rw [List.drop_zero, String.ofList_toList] at joined
        exact joined
      unfold reconstructTranscript
      rw [inOrder_perm rounds.indices.2 same]
      cases chunks with
      | nil =>
        cases joined
        exact absurd rfl filled
      | cons first rest =>
        obtain ⟨source, revision⟩ := rounds.owned first (List.mem_cons_self ..)
        dsimp only
        rw [source, revision, joined]
        rfl
    exact ⟨plain, reconstruct_expected hashes shuffled none value plain⟩
  filled := rounds.filled
  whole unit member small := by
    obtain ⟨width, fits⟩ := inside unit member
    exact rounds.whole unit member (by omega) (Nat.zero_le _) (by omega)
  continued _ := rounds.continues.2

theorem inside_of_partition {length : Nat} {units : List TranscriptLogicalUnit} (partition : Partition length 0 units) :
    ∀ unit ∈ units, unit.charStart < unit.charEnd ∧ unit.charEnd ≤ length := by
  intro unit member
  obtain ⟨index, found⟩ := List.getElem?_of_mem member
  exact ⟨(partition.get found).2.1, partition.end_le found⟩

theorem placed_of_validated {value : List Char} {accepted : Option (List TranscriptLogicalUnit)}
    (validated : validateLogicalUnits value units = .ok accepted) :
    accepted = units ∧ Placed value units 0 0 false ∧ ∀ unit ∈ units.getD [], unit.charStart < unit.charEnd ∧ unit.charEnd ≤ value.length := by
  unfold validateLogicalUnits at validated
  split at validated
  · cases validated
    exact ⟨rfl, ⟨rfl, Nat.zero_le _⟩, fun _ member => absurd member List.not_mem_nil⟩
  · cases validated
  · next units some =>
    obtain ⟨_, checked, same⟩ := Library.bind_eq_ok.mp validated
    cases same
    have partition := partition_of_check checked
    refine ⟨rfl, ⟨partition, ?_⟩, inside_of_partition partition⟩
    cases units with
    | nil => exact absurd rfl some
    | cons unit units =>
      obtain ⟨first, width, _⟩ := partition
      exact .inr ⟨unit, rfl, Nat.le_of_eq first, by omega, by simp [first]⟩

/-- A text that is cut is cut losslessly; its chunks are within the limit exactly when it has logical
units or no window with a newline directly behind it. -/
theorem chunks_iff (hashes : Hashes) (value sourceId projectName client sessionId : String) (sourceRevision : Option String)
    (maxChars : Int) (units : Option (List TranscriptLogicalUnit)) (now : Nat → Time) (filled : value ≠ "") (positive : 1 ≤ maxChars)
    (accepted : ∃ accepted, validateLogicalUnits value.toList units = .ok accepted) :
    ∃ chunks, chunkTranscriptText hashes value sourceId projectName client sessionId sourceRevision maxChars units now = .ok chunks ∧
      Lossless hashes value units maxChars chunks ∧
      ((∀ chunk ∈ chunks, (chunk.rawContent.toList.length : Int) ≤ maxChars) ↔ (units = none → Clear maxChars.toNat value.toList)) := by
  obtain ⟨accepted, validated⟩ := accepted
  obtain ⟨rfl, placed, inside⟩ := placed_of_validated validated
  have limit : 1 ≤ maxChars.toNat := by omega
  unfold chunkTranscriptText
  rw [dif_neg (by omega), if_neg filled, validated, Library.ok_bind]
  dsimp only
  generalize ChunkOwner.mk sourceId projectName client sessionId _ now = owner
  obtain ⟨chunks, ran, rounds⟩ := @chunkLoop_rounds hashes owner value.toList accepted maxChars.toNat limit 0 0 false 0 placed
  refine ⟨chunks, ran, rounds.lossless filled inside, ?_⟩
  have bounds := rounds.bounded_iff
  rw [List.drop_zero] at bounds
  rw [← bounds]
  exact forall₂_congr fun chunk _ => by omega

theorem chunks_iff_units :
    ∃ chunks, chunkTranscriptText .spelled "ab\nc" "s" "p" "c" "i" none 2 (some [⟨0, 3, "u", "message"⟩, ⟨3, 4, "v", "message"⟩]) (fun _ => 0) =
        .ok chunks ∧
      Lossless .spelled "ab\nc" (some [⟨0, 3, "u", "message"⟩, ⟨3, 4, "v", "message"⟩]) 2 chunks ∧
      ((∀ chunk ∈ chunks, (chunk.rawContent.toList.length : Int) ≤ 2) ↔
        (some [⟨0, 3, "u", "message"⟩, (⟨3, 4, "v", "message"⟩ : TranscriptLogicalUnit)] = none → Clear 2 "ab\nc".toList)) :=
  chunks_iff .spelled "ab\nc" "s" "p" "c" "i" none 2 (some [⟨0, 3, "u", "message"⟩, ⟨3, 4, "v", "message"⟩]) (fun _ => 0) (by decide)
    (by decide) ⟨_, rfl⟩

/-- `"ab\nc"` with two characters to a chunk: the newline behind them goes into the first chunk. -/
theorem chunk_overrun :
    (chunkTranscriptText .spelled "ab\nc" "s" "p" "c" "i" none 2 none fun _ => 0).map (fun chunks => chunks.map (·.rawContent)) =
      .ok ["ab\n", "c"] ∧ 2 < "ab\n".toList.length := by
  decide +kernel

end HarnessMem.TranscriptChunking
