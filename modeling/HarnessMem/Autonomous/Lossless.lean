import HarnessMem.Autonomous.ManifestPacket

/-! The packet expands to the manifest. Reserved keys stand nowhere else, so a value with
one of them was put there by the packing, and its index leads to the group of its row.
-/

set_option autoImplicit false

namespace HarnessMem.Autonomous

open Library Canonical
open JobWorkspace (list? mapM_of_map)

/-! ### Groups -/

theorem scope_keys (group : Group) : (group.scope.map (·.1)).Nodup := by simp [Group.scope]

theorem dict_keys (group : Group) : (group.dict.map (·.1)).Nodup := by simp [Group.dict]

theorem toJson_dict {fields : PyDict} (distinct : (fields.map (·.1)).Nodup) :
    (PyValue.dict fields).toJson = .obj (fields.map fun field => (field.1, field.2.toJson)) := by
  have keys : ((([] : List (String × JsonValue)) ++ PyValue.toJsonFields fields).map (·.1)).Nodup := by
    rw [List.nil_append, Knowledge.toJsonFields_eq, List.map_map]
    exact distinct
  rw [PyValue.toJson, foldl_setField [] keys, List.nil_append, Knowledge.toJsonFields_eq]

theorem toJson_texts (texts : List String) : (PyValue.list (texts.map .str)).toJson = .arr (texts.map .str) := by
  rw [PyValue.toJson, Knowledge.toJsonItems_eq, List.map_map]
  rfl

theorem sortKeys_texts (texts : List String) :
    (PyValue.list (texts.map .str)).toJson.sortKeys = .arr (texts.map .str) := by
  rw [toJson_texts, JsonValue.sortKeys, JsonValue.sortKeysItems_eq, List.map_map]
  rfl

theorem texts_same {first second : List String}
    (same : (PyValue.list (first.map .str)).toJson.sortKeys = (PyValue.list (second.map .str)).toJson.sortKeys) :
    first = second := by
  rw [sortKeys_texts, sortKeys_texts] at same
  exact List.map_injective_iff.mpr (fun _ _ => JsonValue.str.inj) (JsonValue.arr.inj same)

theorem identity_injective : Function.Injective Group.identity := by
  intro first second same
  have frozen : FrozenPayload.freeze first.dict = FrozenPayload.freeze second.dict :=
    FrozenPayload.eq_of_fields (JsonValue.obj.inj (dumps_injective false (FrozenPayload.freeze first.dict).distinct
      (FrozenPayload.freeze second.dict).distinct same))
  have agrees := @Knowledge.freeze_agrees_at _ _ (dict_keys first) (dict_keys second) frozen
  have scope : (PyValue.dict first.scope).toJson.sortKeys = (PyValue.dict second.scope).toJson.sortKeys :=
    agrees "scope" (by simp [Group.dict]) (by simp [Group.dict])
  have inner : FrozenPayload.freeze first.scope = FrozenPayload.freeze second.scope :=
    FrozenPayload.eq_of_fields (JsonValue.obj.inj scope)
  have within := @Knowledge.freeze_agrees_at _ _ (scope_keys first) (scope_keys second) inner
  have named : ∀ (key value other : String), (key, PyValue.str value) ∈ first.scope → (key, PyValue.str other) ∈ second.scope →
      value = other := fun key value other left right => JsonValue.str.inj (within key left right)
  have speaker := named "speaker" first.speaker second.speaker (by simp [Group.scope]) (by simp [Group.scope])
  have period := named "period" first.period second.period (by simp [Group.scope]) (by simp [Group.scope])
  have session := named "session_id" first.sessionId second.sessionId (by simp [Group.scope]) (by simp [Group.scope])
  have source := named "source_id" first.sourceId second.sourceId (by simp [Group.scope]) (by simp [Group.scope])
  have revision := named "source_revision" first.sourceRevision second.sourceRevision (by simp [Group.scope])
    (by simp [Group.scope])
  have listed : (PyValue.list (first.metadataKeys.map .str)).toJson.sortKeys =
      (PyValue.list (second.metadataKeys.map .str)).toJson.sortKeys :=
    agrees "metadata_keys" (by simp [Group.dict]) (by simp [Group.dict])
  have keys := texts_same listed
  have titled : (PyValue.str first.renderTitle).toJson.sortKeys = (PyValue.str second.renderTitle).toJson.sortKeys :=
    agrees "render_title" (by simp [Group.dict]) (by simp [Group.dict])
  have title : first.renderTitle = second.renderTitle := JsonValue.str.inj titled
  have framed : (PyValue.list ([first.front, first.back].map .str)).toJson.sortKeys =
      (PyValue.list ([second.front, second.back].map .str)).toJson.sortKeys :=
    agrees "render_statement" (by simp [Group.dict]) (by simp [Group.dict])
  have ends := texts_same framed
  obtain ⟨front, back⟩ := by simpa using ends
  cases first
  cases second
  simp only [Group.mk.injEq]
  exact ⟨speaker, period, session, source, revision, keys, title, front, back⟩

def Group.fields (group : Group) : List (String × JsonValue) :=
  [("scope", .obj (group.scope.map fun field => (field.1, field.2.toJson))),
    ("metadata_keys", .arr (group.metadataKeys.map .str)), ("render_title", .str group.renderTitle),
    ("render_statement", .arr [.str group.front, .str group.back])]

theorem group_toJson (group : Group) : (PyValue.dict group.dict).toJson = .obj group.fields := by
  rw [toJson_dict (dict_keys group)]
  simp only [Group.dict, List.map_cons, List.map_nil, toJson_dict (scope_keys group), toJson_texts]
  rfl

theorem group?_written (group : Group) : group? (PyValue.dict group.dict).toJson = some group := by
  rw [group_toJson]
  have keys : list? JsonValue.asStr? (.arr (group.metadataKeys.map .str)) = some group.metadataKeys :=
    mapM_of_map fun _ _ => rfl
  simp [group?, Group.fields, Group.scope, member?_cons, textAt, keys, PyValue.toJson, JsonValue.asStr?]

theorem group_distinct (group : Group) : (PyValue.dict group.dict).toJson.distinct = true := by
  rw [group_toJson]
  simp [Group.fields, Group.scope, JsonValue.distinct, JsonValue.distinctFields, JsonValue.distinctItems,
    JsonValue.distinctItems_iff, PyValue.toJson]

theorem placed_spec (groups : List Group) (group : Group) :
    (placed groups group).2[(placed groups group).1]? = some group ∧ groups <+: (placed groups group).2 := by
  unfold placed
  split
  · next index found =>
    obtain ⟨bound, same, -⟩ := List.findIdx?_eq_some_iff_getElem.mp found
    have equal := identity_injective (of_decide_eq_true same)
    exact ⟨by rw [List.getElem?_eq_getElem bound, equal], List.prefix_rfl⟩
  · exact ⟨by simp, List.prefix_append _ _⟩

/-! ### Framed rows -/

/-- What a row that can be packed looks like: its report `raw` has the scope of the group and nothing of its own
but its text and exchanges. -/
structure Shown (row raw : List (String × JsonValue)) (found : Framed) : Prop where
  report : member? row "source_report" = some (.obj raw)
  title : member? row "title" = some (.str found.group.renderTitle)
  statement : member? row "statement" = some (.str (found.group.front ++ found.text ++ found.group.back))
  metadataKeys : found.group.metadataKeys = raw.map (·.1)
  known : ∀ field ∈ raw, field.1 ∈ "text" :: required
  speaker : textAt raw "speaker" = some found.group.speaker
  period : textAt raw "period" = some found.group.period
  session : textAt raw "session_id" = some found.group.sessionId
  source : textAt raw "source_id" = some found.group.sourceId
  revision : textAt raw "source_revision" = some found.group.sourceRevision
  exchanges : member? raw "exchange_indexes" = some found.exchanges
  text : ∀ value, member? raw "text" = some value → value = .str found.text

variable {value : JsonValue}

theorem asStr?_eq {text : String} (read : value.asStr? = some text) : value = .str text := by
  cases value with
  | str found => exact congrArg JsonValue.str (Option.some.inj read)
  | _ => cases read

variable {fields : List (String × JsonValue)} {key : String}

theorem member?_of_textAt {text : String} (held : textAt fields key = some text) :
    member? fields key = some (.str text) := by
  obtain ⟨value, found, read⟩ := Option.bind_eq_some_iff.mp held
  rw [found, asStr?_eq read]

theorem sameKeys_known {keys : List String} (same : sameKeys fields keys = true) :
    ∀ field ∈ fields, field.1 ∈ keys := by
  intro field member
  exact of_decide_eq_true (List.all_eq_true.mp (Bool.and_eq_true_iff.mp same).1 field member)

variable {row : List (String × JsonValue)} {found : Framed}

theorem framed_shown (ran : framed row = some found) :
    ∃ raw, Shown row raw found := by
  unfold framed at ran
  split at ran
  · next raw report =>
    obtain ⟨⟨⟩, keys, ran⟩ := Option.bind_eq_some_iff.mp ran
    obtain ⟨title, titled, ran⟩ := Option.bind_eq_some_iff.mp ran
    obtain ⟨statement, stated, ran⟩ := Option.bind_eq_some_iff.mp ran
    unfold framedReport at ran
    obtain ⟨probe, -, ran⟩ := Option.bind_eq_some_iff.mp ran
    obtain ⟨frame, -, ran⟩ := Option.bind_eq_some_iff.mp ran
    obtain ⟨⟨⟩, -, ran⟩ := Option.bind_eq_some_iff.mp ran
    obtain ⟨⟨⟩, -, ran⟩ := Option.bind_eq_some_iff.mp ran
    obtain ⟨shown, -, ran⟩ := Option.bind_eq_some_iff.mp ran
    obtain ⟨⟨⟩, kept, ran⟩ := Option.bind_eq_some_iff.mp ran
    obtain ⟨⟨⟩, rendered, ran⟩ := Option.bind_eq_some_iff.mp ran
    obtain ⟨speaker, spoken, ran⟩ := Option.bind_eq_some_iff.mp ran
    obtain ⟨period, dated, ran⟩ := Option.bind_eq_some_iff.mp ran
    obtain ⟨session, held, ran⟩ := Option.bind_eq_some_iff.mp ran
    obtain ⟨source, sourced, ran⟩ := Option.bind_eq_some_iff.mp ran
    obtain ⟨revision, revised, ran⟩ := Option.bind_eq_some_iff.mp ran
    obtain ⟨exchanges, cited, ran⟩ := Option.bind_eq_some_iff.mp ran
    cases ran
    have same := (Option.guard_eq_some' _).mp rendered
    have reproduced := (Option.guard_eq_some' _).mp kept
    refine ⟨raw, report, ?_, ?_, rfl, ?_, spoken, dated, held, sourced, revised, cited, ?_⟩
    · rw [member?_of_textAt titled, same.1]
    · rw [member?_of_textAt stated, same.2.2]
    · intro field member
      rcases (Option.guard_eq_some' _).mp keys with plain | whole
      · exact List.mem_cons_of_mem _ (sameKeys_known plain field member)
      · exact sameKeys_known whole field member
    · intro value inside
      have own : textAt (setField raw ("text", value)) "text" = some shown.text.text := by
        rw [inside, Option.getD_some, unchanged, Bool.and_eq_true, Bool.and_eq_true] at reproduced
        exact of_decide_eq_true reproduced.1.2
      unfold textAt at own
      rw [member?_setField] at own
      exact asStr?_eq own
  · cases ran

theorem scope_field (group : Group) : ∀ field ∈ group.scope, field.1 ≠ "exchange_indexes" → field.1 ≠ "text" →
    ∀ text exchanges, metadata group text exchanges field.1 = field.2.toJson := by
  intro field member exchanged written text exchanges
  unfold metadata
  rw [if_neg exchanged, if_neg written]
  have keys : ((group.scope.map fun field => (field.1, field.2.toJson)).map (·.1)).Nodup := by
    rw [List.map_map]
    exact scope_keys group
  have found := member?_of_mem keys (List.mem_map_of_mem member)
  unfold textAt
  rw [found]
  simp only [Group.scope, List.mem_cons, List.not_mem_nil, or_false] at member
  rcases member with rfl | rfl | rfl | rfl | rfl <;> rfl

variable {raw : List (String × JsonValue)}

theorem Shown.report_restored (shown : Shown row raw found)
    (distinct : (raw.map (·.1)).Nodup) :
    (found.group.metadataKeys.map fun key => (key, metadata found.group found.text found.exchanges key)) = raw := by
  rw [shown.metadataKeys, List.map_map]
  have restored : ∀ field ∈ raw, (field.1, metadata found.group found.text found.exchanges field.1) = field := by
    intro field member
    have held := member?_of_mem distinct member
    have own : ∀ key text, textAt raw key = some text → field.1 = key →
        (key, PyValue.str text) ∈ found.group.scope → metadata found.group found.text found.exchanges field.1 = field.2 := by
      intro key text read same inside
      have value := member?_of_textAt read
      rw [← same, held, Option.some.injEq] at value
      have apart : key ≠ "exchange_indexes" ∧ key ≠ "text" := by
        simp only [Group.scope, List.mem_cons, Prod.mk.injEq, List.not_mem_nil, or_false] at inside
        rcases inside with ⟨rfl, -⟩ | ⟨rfl, -⟩ | ⟨rfl, -⟩ | ⟨rfl, -⟩ | ⟨rfl, -⟩ <;> decide
      rw [value, same]
      exact scope_field found.group _ inside apart.1 apart.2 _ _
    have named := shown.known field member
    simp only [required, scopeKeys, List.cons_append, List.nil_append, List.mem_cons, List.not_mem_nil, or_false] at named
    refine Prod.ext rfl ?_
    rcases named with same | same | same | same | same | same | same
    · rw [same] at held
      rw [shown.text _ held, same]
      rfl
    · exact own _ _ shown.speaker same (by simp [Group.scope])
    · exact own _ _ shown.period same (by simp [Group.scope])
    · exact own _ _ shown.session same (by simp [Group.scope])
    · exact own _ _ shown.source same (by simp [Group.scope])
    · exact own _ _ shown.revision same (by simp [Group.scope])
    · rw [same, shown.exchanges, Option.some.injEq] at held
      rw [← held, same]
      rfl
  exact (List.map_congr_left restored).trans (List.map_id' raw)

/-! ### References -/

theorem itemsCollide_iff {items : List JsonValue} : itemsCollide items = false ↔ ∀ item ∈ items, collides item = false := by
  induction items with
  | nil => simp [itemsCollide]
  | cons item items ih => rw [itemsCollide, Bool.or_eq_false_iff, ih, List.forall_mem_cons]

theorem fieldsCollide_iff :
    fieldsCollide fields = false ↔ ∀ field ∈ fields, field.1 ∉ reserved ∧ collides field.2 = false := by
  induction fields with
  | nil => simp [fieldsCollide]
  | cons field fields ih =>
    rw [fieldsCollide, Bool.or_eq_false_iff, Bool.or_eq_false_iff, decide_eq_false_iff_not, ih, List.forall_mem_cons]

theorem reference?_free (free : collides value = false) {name : String} (known : name ∈ reserved) :
    reference? name value = none := by
  cases value with
  | obj fields =>
    have missing : member? fields name = none := by
      rw [Option.eq_none_iff_forall_ne_some]
      intro held found
      exact (fieldsCollide_iff.mp free _ (mem_of_member? found)).1 known
    simp [reference?, missing]
  | _ => rfl

theorem expandValue_free (table : List Group) (text : String) (exchanges : JsonValue)
    (free : collides value = false) : expandValue table text exchanges value = some value := by
  unfold expandValue
  rw [reference?_free free (by simp [reserved]), reference?_free free (by simp [reserved]),
    reference?_free free (by simp [reserved])]

def reportOf (found : Framed) (index : Nat) : List (String × JsonValue) :=
  [("$sr_group", .int index), ("exchange_indexes", found.exchanges), ("text", .str found.text)]

def replaced (found : Framed) (index : Nat) (field : String × JsonValue) : JsonValue :=
  if field.1 = "source_report" then .obj (reportOf found index)
  else if field.1 = "statement" then reference "$sr_statement" index
  else if field.1 = "title" then reference "$sr_title" index
  else field.2

theorem key_of_member?
    (found : member? fields key = some value) : key ∈ fields.map (·.1) := List.mem_map_of_mem (mem_of_member? found)

theorem key_stays {field : String × JsonValue}
    (known : key ∈ fields.map (·.1)) : key ∈ (setField fields field).map (·.1) := by
  rw [map_key_setField]
  split
  · exact known
  · exact List.mem_append_left _ known

theorem Shown.packed_eq (shown : Shown row raw found) (index : Nat) :
    packed row found index = row.map fun field => (field.1, replaced found index field) := by
  have reported := key_of_member? shown.report
  have titled := key_of_member? shown.title
  have stated := key_of_member? shown.statement
  unfold packed
  rw [setField_of_mem (key_stays (key_stays reported)), setField_of_mem (key_stays stated), setField_of_mem titled,
    List.map_map, List.map_map]
  apply List.map_congr_left
  intro field _
  rfl

section

variable {table : List Group} {row raw : List (String × JsonValue)} {found : Framed} {index : Nat}

theorem expandValue_title (placed : table[index]? = some found.group) :
    expandValue table found.text found.exchanges (reference "$sr_title" index) = some (.str found.group.renderTitle) := by
  have read : reference? "$sr_title" (reference "$sr_title" index) = some index := rfl
  unfold expandValue
  rw [read]
  simp [placed]

theorem expandValue_statement (placed : table[index]? = some found.group) :
    expandValue table found.text found.exchanges (reference "$sr_statement" index) =
      some (.str (found.group.front ++ found.text ++ found.group.back)) := by
  have other : reference? "$sr_title" (reference "$sr_statement" index) = none := rfl
  have read : reference? "$sr_statement" (reference "$sr_statement" index) = some index := rfl
  unfold expandValue
  rw [other, read]
  simp [placed]

theorem Shown.expandValue_report (shown : Shown row raw found) (distinct : (raw.map (·.1)).Nodup)
    (placed : table[index]? = some found.group) :
    expandValue table found.text found.exchanges (.obj (reportOf found index)) = some (.obj raw) := by
  have other : reference? "$sr_title" (.obj (reportOf found index)) = none := rfl
  have another : reference? "$sr_statement" (.obj (reportOf found index)) = none := rfl
  have read : reference? "$sr_group" (.obj (reportOf found index)) = some index := rfl
  unfold expandValue
  rw [other, another, read]
  simp only [placed, Option.map_some]
  rw [shown.report_restored distinct]

theorem Shown.expandRow_packed (shown : Shown row raw found) (distinct : (JsonValue.obj row).distinct = true)
    (free : fieldsCollide row = false) (placed : table[index]? = some found.group) :
    expandRow table (.obj (packed row found index)) = some (.obj row) := by
  simp only [JsonValue.distinct, Bool.and_eq_true, decide_eq_true_eq, JsonValue.distinctFields_iff] at distinct
  have rawDistinct : (raw.map (·.1)).Nodup := by
    have within := distinct.2 _ (mem_of_member? shown.report)
    simp only [JsonValue.distinct, Bool.and_eq_true, decide_eq_true_eq] at within
    exact within.1
  have report : member? (packed row found index) "source_report" = some (.obj (reportOf found index)) := by
    unfold packed
    exact member?_setField
  have read : reference? "$sr_group" (.obj (reportOf found index)) = some index := rfl
  have text : textAt (reportOf found index) "text" = some found.text := rfl
  have exchanges : member? (reportOf found index) "exchange_indexes" = some found.exchanges := rfl
  have fields : (packed row found index).mapM (fun field =>
      (expandValue table found.text found.exchanges field.2).map (field.1, ·)) = some row := by
    rw [shown.packed_eq index]
    apply mapM_of_map
    intro field member
    have value : expandValue table found.text found.exchanges (replaced found index field) = some field.2 := by
      have held := member?_of_mem distinct.1 member
      unfold replaced
      split
      · next same =>
        rw [same, shown.report, Option.some.injEq] at held
        rw [← held]
        exact shown.expandValue_report rawDistinct placed
      · split
        · next same =>
          rw [same, shown.statement, Option.some.injEq] at held
          rw [← held]
          exact expandValue_statement placed
        · split
          · next same =>
            rw [same, shown.title, Option.some.injEq] at held
            rw [← held]
            exact expandValue_title placed
          · exact expandValue_free table _ _ (fieldsCollide_iff.mp free field member).2
    simp only [value, Option.map_some]
  simp only [expandRow, report, read, text, exchanges, fields, Option.bind_eq_bind, Option.bind_some, Option.pure_def]

theorem expandRow_free {row : JsonValue} (free : collides row = false) : expandRow table row = some row := by
  cases row with
  | obj fields =>
    unfold expandRow
    dsimp only
    split
    · next report held =>
      have inside := (fieldsCollide_iff.mp free _ (mem_of_member? held)).2
      rw [reference?_free inside (by simp [reserved])]
    · rfl
  | _ => rfl

end

/-! ### The loop over the rows -/

theorem packRow_spec (groups : List Group) {row : JsonValue} (distinct : row.distinct = true) (free : collides row = false) :
    groups <+: (packRow groups row).2 ∧
      ∀ table, (packRow groups row).2 <+: table → expandRow table (packRow groups row).1 = some row := by
  have plain : ∀ {row : JsonValue}, collides row = false → groups <+: groups ∧
      ∀ table, groups <+: table → expandRow table row = some row := fun free =>
    ⟨List.prefix_rfl, fun _ _ => expandRow_free free⟩
  unfold packRow
  split
  · next fields =>
    split
    · next found ran =>
      obtain ⟨raw, shown⟩ := framed_shown ran
      obtain ⟨held, grown⟩ := placed_spec groups found.group
      refine ⟨grown, fun table extending => shown.expandRow_packed distinct free ?_⟩
      obtain ⟨more, rfl⟩ := extending
      exact List.getElem?_append_left (List.getElem?_eq_some_iff.mp held).1 |>.trans held
    · exact plain free
  · exact plain free

theorem packRows_spec (groups : List Group) {rows : List JsonValue} (distinct : ∀ row ∈ rows, row.distinct = true)
    (free : ∀ row ∈ rows, collides row = false) :
    groups <+: (packRows groups rows).2 ∧
      ∀ table, (packRows groups rows).2 <+: table → (packRows groups rows).1.mapM (expandRow table) = some rows := by
  induction rows generalizing groups with
  | nil => exact ⟨List.prefix_rfl, fun _ _ => rfl⟩
  | cons row rows ih =>
    obtain ⟨first, later⟩ := List.forall_mem_cons.mp distinct
    obtain ⟨plain, others⟩ := List.forall_mem_cons.mp free
    obtain ⟨kept, one⟩ := packRow_spec groups first plain
    obtain ⟨grown, rest⟩ := ih (packRow groups row).2 later others
    refine ⟨kept.trans grown, fun table extending => ?_⟩
    unfold packRows
    rw [List.mapM_cons, one table (grown.trans extending), rest table extending]
    rfl

/-! ### The packet is JSON -/

theorem object_distinct :
    (JsonValue.obj fields).distinct = true ↔ (fields.map (·.1)).Nodup ∧ ∀ field ∈ fields, field.2.distinct = true := by
  simp only [JsonValue.distinct, Bool.and_eq_true, decide_eq_true_eq, JsonValue.distinctFields_iff]

theorem setField_distinct (distinct : (JsonValue.obj fields).distinct = true) (inner : value.distinct = true) :
    (JsonValue.obj (setField fields (key, value))).distinct = true := by
  obtain ⟨keys, values⟩ := object_distinct.mp distinct
  refine object_distinct.mpr ⟨?_, fun field member => ?_⟩
  · rw [map_key_setField]
    split
    · exact keys
    · next fresh => exact List.nodup_append.mpr ⟨keys, List.nodup_singleton _, fun other known _ same equal => fresh (by
        rw [List.mem_singleton.mp same] at equal
        exact equal ▸ known)⟩
  · rcases mem_setField member with known | rfl
    · exact values field known
    · exact inner

theorem packRow_distinct (groups : List Group) {row : JsonValue} (distinct : row.distinct = true) :
    (packRow groups row).1.distinct = true := by
  unfold packRow
  split
  · next fields =>
    split
    · next found ran =>
      obtain ⟨raw, shown⟩ := framed_shown ran
      have report := (object_distinct.mp distinct).2 _ (mem_of_member? shown.report)
      have exchanges := (object_distinct.mp report).2 _ (mem_of_member? shown.exchanges)
      refine setField_distinct (setField_distinct (setField_distinct distinct ?_) ?_) ?_
      · simp [reference, JsonValue.distinct, JsonValue.distinctFields]
      · simp [reference, JsonValue.distinct, JsonValue.distinctFields]
      · simp [JsonValue.distinct, JsonValue.distinctFields, exchanges]
    · exact distinct
  · exact distinct

theorem packRows_distinct (groups : List Group) {rows : List JsonValue} (distinct : ∀ row ∈ rows, row.distinct = true) :
    ∀ row ∈ (packRows groups rows).1, row.distinct = true := by
  induction rows generalizing groups with
  | nil => exact List.forall_mem_nil _
  | cons row rows ih =>
    obtain ⟨first, later⟩ := List.forall_mem_cons.mp distinct
    exact List.forall_mem_cons.mpr ⟨packRow_distinct groups first, ih _ later⟩

section

variable (manifest : Manifest) {rows packedRows : List JsonValue} {groups : List Group}

theorem packet_distinct (within : ∀ row ∈ packedRows, row.distinct = true) :
    (JsonValue.obj (packet manifest packedRows groups)).distinct = true := by
  refine setField_distinct (setField_distinct manifest.distinct ?_) ?_
  · exact (JsonValue.distinctItems_iff _).mpr within
  · refine (JsonValue.distinctItems_iff _).mpr ?_
    rw [List.forall_mem_map]
    exact fun group _ => group_distinct group

theorem packet_eq (rowed : member? manifest.fields "current_truth" = some (.arr rows))
    (free : fieldsCollide manifest.fields = false) :
    packet manifest packedRows groups =
      (manifest.fields.map fun field => (field.1, if field.1 = "current_truth" then .arr packedRows else field.2)) ++
        [(tableKey, .arr (groups.map fun group => (PyValue.dict group.dict).toJson))] := by
  have fresh : tableKey ∉ manifest.fields.map (·.1) := by
    intro known
    obtain ⟨field, member, same⟩ := List.mem_map.mp known
    exact (fieldsCollide_iff.mp free field member).1 (by simp [same, reserved])
  unfold packet
  rw [setField_of_mem (key_of_member? rowed), setField_of_not_mem]
  rw [List.map_map]
  exact fresh

theorem packet_restored (rowed : member? manifest.fields "current_truth" = some (.arr rows))
    (free : fieldsCollide manifest.fields = false) :
    ((setField (packet manifest packedRows groups) ("current_truth", .arr rows)).filter fun field => field.1 ≠ tableKey) =
      manifest.fields := by
  have keys := (object_distinct.mp manifest.distinct).1
  have known : "current_truth" ∈ (packet manifest packedRows groups).map (·.1) := key_stays (key_stays (key_of_member? rowed))
  rw [setField_of_mem known, packet_eq manifest rowed free, List.map_append, List.filter_append, List.map_map]
  have table : ([(tableKey, JsonValue.arr (groups.map fun group => (PyValue.dict group.dict).toJson))].map fun field =>
      (field.1, if field.1 = "current_truth" then JsonValue.arr rows else field.2)).filter
        (fun field => decide (field.1 ≠ tableKey)) = [] := by
    simp
  rw [table, List.append_nil]
  have same : ∀ field ∈ manifest.fields, ((fun field : String × JsonValue =>
      (field.1, if field.1 = "current_truth" then JsonValue.arr rows else field.2)) ∘ fun field =>
        (field.1, if field.1 = "current_truth" then JsonValue.arr packedRows else field.2)) field = field := by
    intro field member
    rw [Function.comp_apply]
    by_cases row : field.1 = "current_truth"
    · have held := member?_of_mem keys member
      rw [row, rowed, Option.some.injEq] at held
      refine Prod.ext rfl ?_
      rw [if_pos row, ← held]
      exact if_pos row
    · exact Prod.ext rfl (by rw [if_neg row, if_neg row])
  rw [(List.map_congr_left same).trans (List.map_id' _)]
  apply List.filter_eq_self.mpr
  intro field member
  apply decide_eq_true
  intro equal
  exact (fieldsCollide_iff.mp free field member).1 (by simp [equal, reserved])

theorem expandPacket_packet (rowed : member? manifest.fields "current_truth" = some (.arr rows))
    (free : fieldsCollide manifest.fields = false) (within : ∀ row ∈ packedRows, row.distinct = true)
    (expand : packedRows.mapM (expandRow groups) = some rows) :
    expandPacket ((JsonValue.obj (packet manifest packedRows groups)).dumps false) = some (.obj manifest.fields) := by
  have distinct := @packet_distinct manifest _ groups within
  have table : member? (packet manifest packedRows groups) tableKey =
      some (.arr (groups.map fun group => (PyValue.dict group.dict).toJson)) := by
    unfold packet
    exact member?_setField
  have inner : member? (packet manifest packedRows groups) "current_truth" = some (.arr packedRows) := by
    apply member?_of_mem (object_distinct.mp distinct).1
    rw [packet_eq manifest rowed free]
    apply List.mem_append_left
    exact List.mem_map.mpr ⟨_, mem_of_member? rowed, by simp⟩
  have read : (groups.map fun group => (PyValue.dict group.dict).toJson).mapM group? = some groups :=
    mapM_of_map fun group _ => group?_written group
  unfold expandPacket
  rw [loads_dumps false distinct]
  simp only [Option.bind_eq_bind, Option.bind_some, table, inner, read, expand, Option.pure_def]
  rw [packet_restored manifest rowed free]

end

/-- Expanding what the packing returns gives the manifest back, and the packet with its prose is not longer than
the manifest. -/
theorem assimilationManifestPacket_lossless (manifest : Manifest) :
    expanded (assimilationManifestPacket manifest) = some (.obj manifest.fields) ∧
      (encodeUtf8 ((assimilationManifestPacket manifest).2 ++ (assimilationManifestPacket manifest).1)).length ≤
        (encodeUtf8 manifest.original).length := by
  have plain : expanded (manifest.original, "") = some (.obj manifest.fields) ∧
      (encodeUtf8 ("" ++ manifest.original)).length ≤ (encodeUtf8 manifest.original).length := by
    refine ⟨?_, by rw [String.empty_append]⟩
    unfold expanded Manifest.original
    rw [if_pos rfl, String.toList_ofList]
    exact loads_dumps false manifest.distinct
  unfold assimilationManifestPacket
  split
  · next rows rowed =>
    split
    · exact plain
    · next free =>
      dsimp only
      split
      · exact plain
      · split
        · exact plain
        · next shorter =>
          have apart : fieldsCollide manifest.fields = false := Bool.eq_false_of_not_eq_true free
          have inside := (object_distinct.mp manifest.distinct).2 _ (mem_of_member? rowed)
          have distinct := (JsonValue.distinctItems_iff rows).mp inside
          have others := itemsCollide_iff.mp (fieldsCollide_iff.mp apart _ (mem_of_member? rowed)).2
          have expand := (packRows_spec [] distinct others).2 _ List.prefix_rfl
          have prose : instructions ++ "\n\n" ≠ "" := by
            intro empty
            have letters := congrArg String.toList empty
            simp at letters
          refine ⟨?_, Nat.le_of_lt (Nat.lt_of_not_le shorter)⟩
          unfold expanded
          rw [if_neg prose, String.toList_ofList]
          exact expandPacket_packet manifest rowed apart (packRows_distinct [] distinct) expand
  · exact plain

end HarnessMem.Autonomous
