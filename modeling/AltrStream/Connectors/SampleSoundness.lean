import AltrStream.Connectors.Bson
import AltrStream.Python.Str
import Mathlib.Data.List.Dedup

/-! # Schemas that are inferred from samples

The name of an inferred field is read as the keys that lead to its values. The schema is sound for
the sampled documents if no key has a dot in it, no fields are embedded under an empty key, and every
document has an `_id` if one has.
-/
namespace AltrStream.Connectors
open Foundations Python QueryEngine Domain

/-- The value that a document holds under nested keys. -/
def valueAt : BsonDocument → List String → Option Bson
  | _, [] => none
  | doc, [key] => doc.get? key
  | doc, key :: rest =>
    match doc.get? key with
    | some (.document fields) => valueAt fields rest
    | _ => none

/-- The keys that the name of a field is read as. -/
def segmentsOf (name : String) : List String := split '.' name

/-- A dictionary has each key once, as have the embedded ones that are entered. -/
def KeysOnce : ℕ → BsonDocument → Prop
  | 0, doc => (Dict.keys doc).Nodup
  | levels + 1, doc => (Dict.keys doc).Nodup ∧
    ∀ e ∈ doc, ∀ fields, e.2 = .document fields → KeysOnce levels fields

/-- The documents that were sampled from a collection. -/
structure SampledCollection where
  name : String
  docs : List BsonDocument
  keysOnce : ∀ doc ∈ docs, KeysOnce nestedLevels doc

/-- Numbers and times of the first type are values of the second one too. -/
def promotions : List (StandardDataType × StandardDataType) :=
  [(.smallint, .integer), (.smallint, .bigint), (.integer, .bigint),
    (.smallint, .float), (.integer, .float), (.bigint, .float),
    (.smallint, .decimal), (.integer, .decimal), (.bigint, .decimal), (.float, .decimal),
    (.date, .timestamp), (.time, .timestamp), (.timestamptz, .timestamp)]

/-- The data type holds the values of a type. -/
def Covers (dataType type : StandardDataType) : Prop :=
  dataType = type ∨ dataType = .other ∨ (type, dataType) ∈ promotions

instance (dataType type : StandardDataType) : Decidable (Covers dataType type) :=
  inferInstanceAs (Decidable (_ ∨ _ ∨ _))

/-- What is said of the entity of a collection. -/
structure SoundFor (entity : EntitySchema) (docs : List BsonDocument) : Prop where
  notNull : ∀ field ∈ entity.fields, field.nullable = false → ∀ doc ∈ docs,
    ∃ b, valueAt doc (segmentsOf field.name) = some b ∧ b.isNull = false
  typed : ∀ field ∈ entity.fields, ∀ doc ∈ docs, ∀ b,
    valueAt doc (segmentsOf field.name) = some b → b.isNull = false →
      Covers field.dataType (mapBsonValueToStandard b).1
  distinct : (entity.fields.map (·.name)).Nodup
  reported : ∀ doc ∈ docs, ∀ path b, path.length ≤ 3 → valueAt doc path = some b →
    ∃ field ∈ entity.fields, segmentsOf field.name = path

/-! ### The names of paths -/

/-- The name that the traversal gives to keys below a parent. -/
def pathFrom : String → List String → String
  | parent, [] => parent
  | parent, key :: rest => pathFrom (joinPath parent key) rest

theorem toList_joinPath {parent : String} (h : parent ≠ "") (key : String) :
    (joinPath parent key).toList = parent.toList ++ '.' :: key.toList := by
  rw [joinPath, if_neg h]
  simp only [String.toList_append, List.append_assoc]
  rfl

theorem joinPath_ne {parent : String} (h : parent ≠ "") (key : String) : joinPath parent key ≠ "" := by
  intro heq
  have hlist := toList_joinPath h key
  rw [heq] at hlist
  simp at hlist

/-- Below a parent the keys are joined with dots. -/
theorem toList_pathFrom {parent : String} (h : parent ≠ "") (path : List String) :
    (pathFrom parent path).toList = ['.'].intercalate (parent.toList :: path.map String.toList) := by
  induction path generalizing parent with
  | nil => simp [pathFrom]
  | cons key rest ih =>
    rw [pathFrom, ih (joinPath_ne h key), toList_joinPath h]
    cases rest with
    | nil => simp [List.intercalate_cons_cons]
    | cons next rest => simp [List.intercalate_cons_cons]

/-- No dot in the keys, and nothing below an empty first key. -/
structure PlainPath (path : List String) : Prop where
  noDot : ∀ key ∈ path, '.' ∉ key.toList
  noEmpty : ∀ key next rest, path = key :: next :: rest → key ≠ ""

theorem segmentsOf_pathFrom {path : List String} (h : PlainPath path) (hne : path ≠ []) :
    segmentsOf (pathFrom "" path) = path := by
  have hlist : (pathFrom "" path).toList = ['.'].intercalate (path.map String.toList) := by
    obtain ⟨key, rest, rfl⟩ := List.exists_cons_of_ne_nil hne
    have hfirst : joinPath "" key = key := if_pos rfl
    rw [pathFrom, hfirst]
    cases rest with
    | nil => simp [pathFrom]
    | cons next rest => exact toList_pathFrom (h.noEmpty key next rest rfl) _
  rw [segmentsOf, split, hlist, List.splitOn_intercalate]
  · rw [List.map_map]
    exact (List.map_congr_left fun key _ => String.ofList_toList).trans (List.map_id _)
  · intro piece hpiece
    obtain ⟨key, hkey, rfl⟩ := List.mem_map.1 hpiece
    exact h.noDot key hkey
  · simpa using hne

/-- A name of keys without dots does not begin with one. -/
theorem head_pathFrom {parent : String} {path : List String}
    (hparent : parent.toList.head? ≠ some '.') (h : ∀ key ∈ path, '.' ∉ key.toList) :
    (pathFrom parent path).toList.head? ≠ some '.' := by
  induction path generalizing parent with
  | nil => exact hparent
  | cons key rest ih =>
    obtain ⟨hkey, hrest⟩ := List.forall_mem_cons.1 h
    refine ih ?_ hrest
    by_cases hempty : parent = ""
    · rw [joinPath, if_pos hempty]
      exact fun hhead => hkey (List.mem_of_mem_head? hhead)
    · have hne : parent.toList ≠ [] := by simpa using hempty
      rw [toList_joinPath hempty, List.head?_append_of_ne_nil _ hne]
      exact hparent

/-! ### What the traversal finds -/

theorem keysOnce_nodup {levels : ℕ} {doc : BsonDocument} (h : KeysOnce levels doc) :
    (Dict.keys doc).Nodup := by
  cases levels with
  | zero => exact h
  | succ levels => exact h.1

theorem valueAt_cons_cons {doc : BsonDocument} {key next : String} {rest : List String} {b : Bson} :
    valueAt doc (key :: next :: rest) = some b ↔
      ∃ fields, doc.get? key = some (.document fields) ∧ valueAt fields (next :: rest) = some b := by
  rw [valueAt]
  · cases hget : doc.get? key with
    | none => simp
    | some value => cases value <;> simp
  · exact List.cons_ne_nil _ _

theorem valueAt_ne_nil {doc : BsonDocument} {path : List String} {b : Bson}
    (h : valueAt doc path = some b) : path ≠ [] := by
  rintro rfl
  cases h

/-- The traversal yields the values under up to so many nested keys, and nothing else. -/
theorem mem_traverse_iff {levels : ℕ} {parent name : String} {doc : BsonDocument} {b : Bson}
    (h : KeysOnce levels doc) : (name, b) ∈ traverseDocumentFields levels parent doc ↔
      ∃ path, path.length ≤ levels + 1 ∧ valueAt doc path = some b ∧ name = pathFrom parent path := by
  induction levels generalizing parent doc with
  | zero =>
    rw [traverseDocumentFields, List.mem_map]
    constructor
    · rintro ⟨⟨key, value⟩, hmem, heq⟩
      cases heq
      exact ⟨[key], le_rfl, (Dict.get?_eq_some_iff h).2 hmem, rfl⟩
    · rintro ⟨path, hlength, hvalue, rfl⟩
      obtain ⟨key, rest, rfl⟩ := List.exists_cons_of_ne_nil (valueAt_ne_nil hvalue)
      obtain rfl : rest = [] := List.length_eq_zero_iff.1 (Nat.le_zero.1 (Nat.le_of_succ_le_succ hlength))
      exact ⟨(key, b), (Dict.get?_eq_some_iff h).1 hvalue, rfl⟩
  | succ levels ih =>
    obtain ⟨hnodup, hdeeper⟩ := h
    rw [traverseDocumentFields, List.mem_flatMap]
    constructor
    · rintro ⟨⟨key, value⟩, hmem, hentry⟩
      have hget : doc.get? key = some value := (Dict.get?_eq_some_iff hnodup).2 hmem
      rcases List.mem_cons.1 hentry with heq | hentry
      · cases heq
        exact ⟨[key], by simp, hget, rfl⟩
      · cases value with
        | document fields =>
          obtain ⟨path, hlength, hvalue, rfl⟩ := (ih (hdeeper _ hmem fields rfl)).1 hentry
          obtain ⟨next, rest, rfl⟩ := List.exists_cons_of_ne_nil (valueAt_ne_nil hvalue)
          refine ⟨key :: next :: rest, Nat.succ_le_succ hlength, ?_, rfl⟩
          exact valueAt_cons_cons.2 ⟨fields, hget, hvalue⟩
        | _ => cases hentry
    · rintro ⟨path, hlength, hvalue, rfl⟩
      obtain ⟨key, rest, rfl⟩ := List.exists_cons_of_ne_nil (valueAt_ne_nil hvalue)
      cases rest with
      | nil => exact ⟨(key, b), (Dict.get?_eq_some_iff hnodup).1 hvalue, List.mem_cons_self⟩
      | cons next rest =>
        obtain ⟨fields, hget, hrest⟩ := valueAt_cons_cons.1 hvalue
        have hmem := (Dict.get?_eq_some_iff hnodup).1 hget
        refine ⟨_, hmem, List.mem_cons_of_mem _ ((ih (hdeeper _ hmem fields rfl)).2 ?_)⟩
        exact ⟨next :: rest, Nat.le_of_succ_le_succ hlength, hrest, rfl⟩

/-- The traversal of a sampled document. -/
theorem mem_fields_iff {name : String} {doc : BsonDocument} {b : Bson}
    (h : KeysOnce nestedLevels doc) : (name, b) ∈ traverseDocumentFields nestedLevels "" doc ↔
      ∃ path, path.length ≤ 3 ∧ valueAt doc path = some b ∧ name = pathFrom "" path :=
  mem_traverse_iff h

theorem mem_keys_docFields {doc : BsonDocument} {name : String} :
    name ∈ Dict.keys (docFields doc) ↔
      ∃ b, (name, b) ∈ traverseDocumentFields nestedLevels "" doc := by
  constructor
  · intro h
    obtain ⟨⟨_, b⟩, hmem, rfl⟩ := List.mem_map.1 h
    exact ⟨b, Dict.mem_of_mem_ofEntries hmem⟩
  · rintro ⟨b, hmem⟩
    obtain ⟨b', hb'⟩ := Option.isSome_iff_exists.1 (Dict.get?_update_isSome (d := []) (.inr ⟨b, hmem⟩))
    exact List.mem_map_of_mem (Dict.mem_of_get? hb')

theorem mem_orderedPaths {docs : List BsonDocument} {name : String} :
    name ∈ orderedPaths docs ↔
      ∃ doc ∈ docs, ∃ b, (name, b) ∈ traverseDocumentFields nestedLevels "" doc := by
  have hmem : name ∈ (docs.flatMap fun doc => Dict.keys (docFields doc)).dedup ↔
      ∃ doc ∈ docs, ∃ b, (name, b) ∈ traverseDocumentFields nestedLevels "" doc := by
    rw [List.mem_dedup, List.mem_flatMap]
    exact exists_congr fun doc => and_congr_right fun _ => mem_keys_docFields
  rw [← hmem]
  simp only [orderedPaths, sortTexts, List.mem_append, List.mem_insertionSort, List.mem_filter,
    decide_eq_true_eq]
  by_cases hid : name = "_id"
  · rw [hid]
    split_ifs with h <;> simp [h]
  · split_ifs with h
    · simp [hid]
    · simp [hid]

theorem nodup_orderedPaths (docs : List BsonDocument) : (orderedPaths docs).Nodup := by
  have hsorted : (sortTexts ((docs.flatMap fun doc => Dict.keys (docFields doc)).dedup.filter
      (· ≠ "_id"))).Nodup :=
    ((List.perm_insertionSort _ _).nodup_iff).2 ((List.nodup_dedup _).filter _)
  have hid : "_id" ∉ sortTexts ((docs.flatMap fun doc => Dict.keys (docFields doc)).dedup.filter
      (· ≠ "_id")) := by
    rw [sortTexts, List.mem_insertionSort, List.mem_filter]
    simp
  unfold orderedPaths
  dsimp only
  split_ifs
  · exact List.nodup_cons.2 ⟨hid, hsorted⟩
  · exact hsorted

/-! ### The order of the documents -/

theorem sortTexts_perm {texts texts' : List String} (h : texts.Perm texts') :
    sortTexts texts = sortTexts texts' := by
  refine List.Perm.eq_of_pairwise' (r := (· ≤ ·)) (List.pairwise_insertionSort _ _)
    (List.pairwise_insertionSort _ _) ?_
  exact (List.perm_insertionSort _ _).trans (h.trans (List.perm_insertionSort _ _).symm)

/-- The merged type does not depend on the order in which the types were observed. -/
theorem mergeObservedTypes_perm {types types' : List (StandardDataType × String)}
    (h : types.Perm types') : mergeObservedTypes types = mergeObservedTypes types' := by
  have hstd : (types.map (·.1)).Perm (types'.map (·.1)) := h.map _
  have hsub (l : List StandardDataType) : types.map (·.1) ⊆ l ↔ types'.map (·.1) ⊆ l :=
    ⟨fun hl t ht => hl (hstd.mem_iff.2 ht), fun hl t ht => hl (hstd.mem_iff.1 ht)⟩
  have hnames := sortTexts_perm (h.map (·.2)).dedup
  have hlength := h.length_eq
  rcases types with _ | ⟨t, _ | ⟨u, rest⟩⟩
  · rw [h.nil_eq]
  · rw [List.perm_singleton.1 h.symm]
  · rcases types' with _ | ⟨t', _ | ⟨u', rest'⟩⟩
    · cases hlength
    · cases hlength
    · simp only [mergeObservedTypes, hsub, hstd.mem_iff, hnames]

theorem observedValues_perm {docs docs' : List BsonDocument} (h : docs.Perm docs') (name : String) :
    (observedValues docs name).Perm (observedValues docs' name) :=
  (h.filterMap _).filter _

theorem inferField_perm {docs docs' : List BsonDocument} (h : docs.Perm docs') (name : String) :
    inferField docs name = inferField docs' name := by
  have htypes : mergeObservedTypes (observedTypes docs name) =
      mergeObservedTypes (observedTypes docs' name) :=
    mergeObservedTypes_perm ((observedValues_perm h name).map _).dedup
  unfold inferField
  rw [htypes, (observedValues_perm h name).length_eq, h.length_eq]

theorem orderedPaths_perm {docs docs' : List BsonDocument} (h : docs.Perm docs') :
    orderedPaths docs = orderedPaths docs' := by
  have hall : (docs.flatMap fun doc => Dict.keys (docFields doc)).dedup.Perm
      (docs'.flatMap fun doc => Dict.keys (docFields doc)).dedup := (h.flatMap_right _).dedup
  unfold orderedPaths
  dsimp only
  rw [sortTexts_perm (hall.filter _), if_congr hall.mem_iff rfl rfl]

theorem inferEntity_perm {docs docs' : List BsonDocument} (h : docs.Perm docs')
    (databaseName collection : String) :
    inferEntity databaseName (collection, docs) = inferEntity databaseName (collection, docs') := by
  have hfields : (orderedPaths docs).map (inferField docs) =
      (orderedPaths docs').map (inferField docs') := by
    rw [orderedPaths_perm h]
    exact List.map_congr_left fun name _ => inferField_perm h name
  unfold inferEntity
  dsimp only
  rw [hfields, orderedPaths_perm h, h.length_eq]
  exact if_congr ⟨fun hnil => by rw [hnil] at h; exact h.nil_eq.symm,
    fun hnil => by rw [hnil] at h; exact h.eq_nil⟩ rfl rfl

/-! ### Types and nulls -/

theorem covers_bigint : ∀ type ∈ integerTypes, Covers .bigint type := by decide

theorem covers_integer : ∀ type ∈ integerTypes, type ≠ .bigint → Covers .integer type := by decide

theorem covers_decimal : ∀ type ∈ integerTypes ++ floatTypes, Covers .decimal type := by decide

theorem covers_float : ∀ type ∈ integerTypes ++ floatTypes, type ≠ .decimal → Covers .float type := by
  decide

theorem covers_timestamp : ∀ type ∈ temporalTypes, Covers .timestamp type := by decide

/-- The merged type holds the values of every type that was observed. -/
theorem covers_mergeObservedTypes {types : List (StandardDataType × String)}
    {t : StandardDataType × String} (ht : t ∈ types) : Covers (mergeObservedTypes types).1 t.1 := by
  rcases types with _ | ⟨first, _ | ⟨second, rest⟩⟩
  · cases ht
  · rw [List.mem_singleton.1 ht]
    exact .inl rfl
  · have hstd : t.1 ∈ (first :: second :: rest).map (·.1) := List.mem_map_of_mem ht
    unfold mergeObservedTypes
    dsimp only
    split_ifs with hinteger hbigint hnumeric hdecimal htemporal
    · exact covers_bigint _ (hinteger hstd)
    · exact covers_integer _ (hinteger hstd) (ne_of_mem_of_not_mem hstd hbigint)
    · exact covers_decimal _ (hnumeric hstd)
    · exact covers_float _ (hnumeric hstd) (ne_of_mem_of_not_mem hstd hdecimal)
    · exact covers_timestamp _ (htemporal hstd)
    · exact .inr (.inl rfl)

/-- As many values as documents: every document has one. -/
theorem exists_of_length_observedValues {docs : List BsonDocument} {name : String}
    (h : docs.length ≤ (observedValues docs name).length) :
    ∀ doc ∈ docs, ∃ b, (docFields doc).get? name = some b ∧ b.isNull = false := by
  have hcount (ds : List BsonDocument) : (observedValues ds name).length ≤ ds.length :=
    (List.length_filter_le _ _).trans (List.length_filterMap_le _ _)
  induction docs with
  | nil => exact fun doc hdoc => absurd hdoc List.not_mem_nil
  | cons doc docs ih =>
    have htail := hcount docs
    cases hget : (docFields doc).get? name with
    | none =>
      have hskip : observedValues (doc :: docs) name = observedValues docs name := by
        rw [observedValues, List.filterMap_cons, hget]
        rfl
      rw [hskip, List.length_cons] at h
      omega
    | some b =>
      have hvalues : observedValues (doc :: docs) name =
          if b.isNull then observedValues docs name else b :: observedValues docs name := by
        rw [observedValues, List.filterMap_cons, hget]
        cases hnull : b.isNull <;> simp [hnull, observedValues]
      cases hnull : b.isNull with
      | true =>
        rw [hvalues, hnull, if_pos rfl, List.length_cons] at h
        omega
      | false =>
        rw [hvalues, hnull, if_neg Bool.false_ne_true] at h
        rw [List.forall_mem_cons]
        exact ⟨⟨b, hget, hnull⟩, ih (Nat.le_of_succ_le_succ h)⟩

/-! ### Plain keys -/

/-- Every path that is traversed is plain. -/
def PlainFieldNames (docs : List BsonDocument) : Prop :=
  ∀ doc ∈ docs, ∀ path b, path.length ≤ 3 → valueAt doc path = some b → PlainPath path

/-- Every document has an `_id` other than null, if one has an `_id`. -/
def IdsPresent (docs : List BsonDocument) : Prop :=
  (∃ doc ∈ docs, ∃ b, valueAt doc ["_id"] = some b) →
    ∀ doc ∈ docs, ∃ b, valueAt doc ["_id"] = some b ∧ b.isNull = false

variable {docs : List BsonDocument}

/-- A name stands for one path. -/
theorem get?_docFields (hdocs : ∀ doc ∈ docs, KeysOnce nestedLevels doc) (hplain : PlainFieldNames docs)
    {path : List String} (hlength : path.length ≤ 3) (hpath : PlainPath path) (hne : path ≠ [])
    {doc : BsonDocument} (hdoc : doc ∈ docs) :
    (docFields doc).get? (pathFrom "" path) = valueAt doc path := by
  have hvalue : ∀ b, (pathFrom "" path, b) ∈ traverseDocumentFields nestedLevels "" doc →
      valueAt doc path = some b := by
    intro b hmem
    obtain ⟨path', hlength', hvalue, hname⟩ := (mem_fields_iff (hdocs doc hdoc)).1 hmem
    have hsegments := segmentsOf_pathFrom (hplain doc hdoc path' b hlength' hvalue)
      (valueAt_ne_nil hvalue)
    rw [← hname, segmentsOf_pathFrom hpath hne] at hsegments
    rw [hsegments]
    exact hvalue
  cases hget : valueAt doc path with
  | none =>
    cases hfound : (docFields doc).get? (pathFrom "" path) with
    | none => rfl
    | some b =>
      have hsome := hvalue b (Dict.mem_of_mem_ofEntries (Dict.mem_of_get? hfound))
      rw [hget] at hsome
      cases hsome
  | some b =>
    refine Dict.get?_update_of_mem ?_ fun w hw => ?_
    · exact (mem_fields_iff (hdocs doc hdoc)).2 ⟨path, hlength, hget, rfl⟩
    · exact Option.some.inj ((hvalue w hw).symm.trans hget)

/-- A field of the entity stands for a path of some document. -/
theorem exists_path_of_mem (hdocs : ∀ doc ∈ docs, KeysOnce nestedLevels doc) {name : String}
    (h : name ∈ orderedPaths docs) : ∃ doc ∈ docs, ∃ path b, path.length ≤ 3 ∧
      valueAt doc path = some b ∧ name = pathFrom "" path := by
  obtain ⟨doc, hdoc, b, hmem⟩ := mem_orderedPaths.1 h
  obtain ⟨path, hpath⟩ := (mem_fields_iff (hdocs doc hdoc)).1 hmem
  exact ⟨doc, hdoc, path, b, hpath⟩

theorem fields_inferEntity (hne : docs ≠ []) (databaseName collection : String) :
    (inferEntity databaseName (collection, docs)).fields =
      (orderedPaths docs).map (inferField docs) := by
  rw [inferEntity, if_neg hne]

theorem nullable_inferField (name : String) : (inferField docs name).nullable = false ↔
    name = "_id" ∨ docs.length ≤ (observedValues docs name).length := by
  change (decide (name ≠ "_id") && decide ((observedValues docs name).length < docs.length)) =
    false ↔ _
  rw [Bool.and_eq_false_iff, decide_eq_false_iff_not, decide_eq_false_iff_not, not_not, not_lt]

theorem segmentsOf_id : segmentsOf "_id" = ["_id"] := by decide

theorem sound_of_plain (hdocs : ∀ doc ∈ docs, KeysOnce nestedLevels doc) (hplain : PlainFieldNames docs)
    (hids : IdsPresent docs) (databaseName collection : String) :
    SoundFor (inferEntity databaseName (collection, docs)) docs := by
  by_cases hne : docs = []
  · subst hne
    exact
      { notNull := fun _ _ _ doc hdoc => absurd hdoc List.not_mem_nil
        typed := fun _ _ doc hdoc => absurd hdoc List.not_mem_nil
        distinct := by
          rw [inferEntity, if_pos rfl]
          exact List.nodup_singleton _
        reported := fun doc hdoc => absurd hdoc List.not_mem_nil }
  -- a field, with the path that its name is read as
  have hfield : ∀ field ∈ (inferEntity databaseName (collection, docs)).fields,
      ∃ path, path.length ≤ 3 ∧ path ≠ [] ∧ PlainPath path ∧ segmentsOf field.name = path ∧
        field = inferField docs (pathFrom "" path) := by
    intro field hmem
    rw [fields_inferEntity hne] at hmem
    obtain ⟨name, hname, rfl⟩ := List.mem_map.1 hmem
    obtain ⟨doc, hdoc, path, b, hlength, hvalue, rfl⟩ := exists_path_of_mem hdocs hname
    have hpath := hplain doc hdoc path b hlength hvalue
    exact ⟨path, hlength, valueAt_ne_nil hvalue, hpath,
      segmentsOf_pathFrom hpath (valueAt_ne_nil hvalue), rfl⟩
  exact
    { notNull := by
        intro field hmem hnullable
        obtain ⟨path, hlength, hpathNe, hpath, hsegments, rfl⟩ := hfield field hmem
        rw [hsegments]
        rcases (nullable_inferField _).1 hnullable with hid | hcount
        · have hidPath : path = ["_id"] := by
            rw [← hsegments, ← segmentsOf_id]
            exact congrArg segmentsOf hid
          rw [fields_inferEntity hne] at hmem
          obtain ⟨name, hname, hsame⟩ := List.mem_map.1 hmem
          have hname' : name = pathFrom "" path := congrArg FieldSchema.name hsame
          obtain ⟨doc, hdoc, path', b, hlength', hvalue, hpath'⟩ := exists_path_of_mem hdocs hname
          have hsamePath : path' = path := by
            rw [← segmentsOf_pathFrom (hplain doc hdoc path' b hlength' hvalue)
              (valueAt_ne_nil hvalue), ← hpath', hname', segmentsOf_pathFrom hpath hpathNe]
          rw [hsamePath, hidPath] at hvalue
          rw [hidPath]
          exact hids ⟨doc, hdoc, b, hvalue⟩
        · intro doc hdoc
          obtain ⟨b, hb, hnull⟩ := exists_of_length_observedValues hcount doc hdoc
          rw [get?_docFields hdocs hplain hlength hpath hpathNe hdoc] at hb
          exact ⟨b, hb, hnull⟩
      typed := by
        intro field hmem doc hdoc b hvalue hnull
        obtain ⟨path, hlength, hpathNe, hpath, hsegments, rfl⟩ := hfield field hmem
        rw [hsegments, ← get?_docFields hdocs hplain hlength hpath hpathNe hdoc] at hvalue
        have hobserved : b ∈ observedValues docs (pathFrom "" path) :=
          List.mem_filter.2 ⟨List.mem_filterMap.2 ⟨doc, hdoc, hvalue⟩, by rw [hnull]; rfl⟩
        exact covers_mergeObservedTypes (List.mem_dedup.2 (List.mem_map_of_mem hobserved))
      distinct := by
        rw [fields_inferEntity hne, List.map_map]
        exact (List.map_id (orderedPaths docs)).symm ▸ nodup_orderedPaths docs
      reported := by
        intro doc hdoc path b hlength hvalue
        have hpath := hplain doc hdoc path b hlength hvalue
        refine ⟨inferField docs (pathFrom "" path), ?_,
          segmentsOf_pathFrom hpath (valueAt_ne_nil hvalue)⟩
        rw [fields_inferEntity hne]
        refine List.mem_map_of_mem (mem_orderedPaths.2 ⟨doc, hdoc, b, ?_⟩)
        exact (mem_fields_iff (hdocs doc hdoc)).2 ⟨path, hlength, hvalue, rfl⟩ }

theorem noDot_of_segmentsOf {name key : String} (h : key ∈ segmentsOf name) : '.' ∉ key.toList := by
  obtain ⟨piece, hpiece, rfl⟩ := List.mem_map.1 h
  rw [String.toList_ofList]
  exact not_mem_of_mem_splitOn hpiece

/-- A name that is read as an empty key and further ones begins with a dot. -/
theorem head_of_segmentsOf {name next : String} {rest : List String}
    (h : segmentsOf name = "" :: next :: rest) : name.toList.head? = some '.' := by
  have hsplit : name.toList = ['.'].intercalate (name.toList.splitOn '.') :=
    (List.intercalate_splitOn '.').symm
  cases hpieces : name.toList.splitOn '.' with
  | nil => exact absurd hpieces (List.splitOn_ne_nil _ _)
  | cons first pieces =>
    rw [segmentsOf, split, hpieces] at h
    obtain ⟨hfirst, hrest⟩ := List.cons_eq_cons.1 h
    have hempty : first = [] := by
      rw [← @String.toList_ofList first, hfirst]
      rfl
    cases pieces with
    | nil => cases hrest
    | cons second pieces =>
      rw [hpieces, hempty, List.intercalate_cons_cons] at hsplit
      rw [hsplit]
      rfl

theorem plain_of_sound (hdocs : ∀ doc ∈ docs, KeysOnce nestedLevels doc)
    {databaseName collection : String}
    (h : SoundFor (inferEntity databaseName (collection, docs)) docs) :
    PlainFieldNames docs ∧ IdsPresent docs := by
  have hnoDot : ∀ doc ∈ docs, ∀ path b, path.length ≤ 3 → valueAt doc path = some b →
      ∀ key ∈ path, '.' ∉ key.toList := by
    intro doc hdoc path b hlength hvalue key hkey
    obtain ⟨field, -, rfl⟩ := h.reported doc hdoc path b hlength hvalue
    exact noDot_of_segmentsOf hkey
  refine ⟨fun doc hdoc path b hlength hvalue => ⟨hnoDot doc hdoc path b hlength hvalue, ?_⟩, ?_⟩
  · rintro key next rest rfl rfl
    obtain ⟨field, hmem, hsegments⟩ := h.reported doc hdoc _ b hlength hvalue
    rw [fields_inferEntity (List.ne_nil_of_mem hdoc)] at hmem
    obtain ⟨name, hname, rfl⟩ := List.mem_map.1 hmem
    obtain ⟨doc', hdoc', path', b', hlength', hvalue', rfl⟩ := exists_path_of_mem hdocs hname
    exact head_pathFrom (by decide) (hnoDot doc' hdoc' path' b' hlength' hvalue')
      (head_of_segmentsOf hsegments)
  · rintro ⟨doc, hdoc, b, hvalue⟩ doc' hdoc'
    obtain ⟨field, hmem, hsegments⟩ := h.reported doc hdoc ["_id"] b (by simp) hvalue
    have hname : field.name = "_id" := by
      have hjoined : ['.'].intercalate (field.name.toList.splitOn '.') = field.name.toList :=
        List.intercalate_splitOn '.'
      rw [segmentsOf, split] at hsegments
      cases hpieces : field.name.toList.splitOn '.' with
      | nil => exact absurd hpieces (List.splitOn_ne_nil _ _)
      | cons first pieces =>
        rw [hpieces] at hsegments hjoined
        obtain ⟨hfirst, hrest⟩ := List.cons_eq_cons.1 hsegments
        obtain rfl : pieces = [] := List.map_eq_nil_iff.1 hrest
        rw [List.intercalate_singleton] at hjoined
        rw [← @String.ofList_toList field.name, ← hjoined, hfirst]
    have hnullable : field.nullable = false := by
      rw [fields_inferEntity (List.ne_nil_of_mem hdoc)] at hmem
      obtain ⟨name, -, rfl⟩ := List.mem_map.1 hmem
      exact (nullable_inferField _).2 (.inl hname)
    obtain ⟨b', hb', hnull⟩ := h.notNull field hmem hnullable doc' hdoc'
    rw [hsegments] at hb'
    exact ⟨b', hb', hnull⟩

/-! ### The schema of a source -/

/-- The collections of a database, each with a name of its own. -/
structure Samples where
  collections : List SampledCollection
  namesOnce : (collections.map (·.name)).Nodup

def Samples.sampled (samples : Samples) : Dict String (List BsonDocument) :=
  samples.collections.map fun c => (c.name, c.docs)

/-- The same documents in another order. -/
def Samples.Reordered (samples samples' : Samples) : Prop :=
  List.Forall₂ (fun c c' => c.name = c'.name ∧ c.docs.Perm c'.docs) samples.collections
    samples'.collections

/-- The inferred schema is sound for each collection, and the same for every order of documents. -/
structure SoundSchema (sourceId sourceName databaseName : String) (samples : Samples) : Prop where
  entity : ∀ c ∈ samples.collections, ∃ entity ∈ (buildSourceSchemaFromMongodbSamples sourceId
    sourceName databaseName samples.sampled).entities, entity.name = c.name ∧ SoundFor entity c.docs
  order : ∀ samples', samples.Reordered samples' →
    buildSourceSchemaFromMongodbSamples sourceId sourceName databaseName samples'.sampled =
      buildSourceSchemaFromMongodbSamples sourceId sourceName databaseName samples.sampled

theorem name_inferEntity (databaseName : String) (sampled : String × List BsonDocument) :
    (inferEntity databaseName sampled).name = sampled.1 := by
  unfold inferEntity
  dsimp only
  split_ifs <;> rfl

theorem mem_entities {sourceId sourceName databaseName : String} {samples : Samples}
    {c : SampledCollection} (hc : c ∈ samples.collections) {entity : EntitySchema} :
    entity ∈ (buildSourceSchemaFromMongodbSamples sourceId sourceName databaseName
      samples.sampled).entities ∧ entity.name = c.name ↔
      entity = inferEntity databaseName (c.name, c.docs) := by
  have hmem : entity ∈ (buildSourceSchemaFromMongodbSamples sourceId sourceName databaseName
      samples.sampled).entities ↔
      ∃ c ∈ samples.collections, inferEntity databaseName (c.name, c.docs) = entity := by
    change entity ∈ (samples.sampled.insertionSort _).map (inferEntity databaseName) ↔ _
    simp [Samples.sampled]
  rw [hmem]
  constructor
  · rintro ⟨⟨c', hc', rfl⟩, hname⟩
    rw [name_inferEntity] at hname
    rw [List.inj_on_of_nodup_map samples.namesOnce hc' hc hname]
  · rintro rfl
    exact ⟨⟨c, hc, rfl⟩, name_inferEntity _ _⟩

theorem build_reordered {samples samples' : Samples} (h : samples.Reordered samples')
    (sourceId sourceName databaseName : String) :
    buildSourceSchemaFromMongodbSamples sourceId sourceName databaseName samples'.sampled =
      buildSourceSchemaFromMongodbSamples sourceId sourceName databaseName samples.sampled := by
  have hsorted (samples : Samples) : (samples.sampled.insertionSort fun a b => a.1 ≤ b.1).map
      (inferEntity databaseName) = (samples.sampled.map (inferEntity databaseName)).insertionSort
        fun a b => a.name ≤ b.name :=
    List.map_insertionSort _ _ _ _ fun a _ b _ => by rw [name_inferEntity, name_inferEntity]
  have hentities : samples'.sampled.map (inferEntity databaseName) =
      samples.sampled.map (inferEntity databaseName) := by
    unfold Samples.sampled
    rw [List.map_map, List.map_map]
    unfold Samples.Reordered at h
    generalize samples.collections = collections at h ⊢
    generalize samples'.collections = collections' at h ⊢
    induction h with
    | nil => rfl
    | cons hc _ ih =>
      obtain ⟨hname, hdocs⟩ := hc
      rw [List.map_cons, List.map_cons, ih]
      refine congrArg (· :: _) ?_
      dsimp only [Function.comp]
      rw [← hname, inferEntity_perm hdocs]
  unfold buildSourceSchemaFromMongodbSamples
  rw [hsorted, hsorted, hentities]

/-- The inferred schema is sound exactly if the keys of the documents are plain and their ids are
present. -/
theorem soundSchema_iff (sourceId sourceName databaseName : String) (samples : Samples) :
    SoundSchema sourceId sourceName databaseName samples ↔
      ∀ c ∈ samples.collections, PlainFieldNames c.docs ∧ IdsPresent c.docs := by
  constructor
  · rintro ⟨hentity, -⟩ c hc
    obtain ⟨entity, hmem, hname, hsound⟩ := hentity c hc
    rw [(mem_entities hc).1 ⟨hmem, hname⟩] at hsound
    exact plain_of_sound c.keysOnce hsound
  · intro h
    refine ⟨fun c hc => ?_, fun samples' hreordered => build_reordered hreordered _ _ _⟩
    obtain ⟨hmem, hname⟩ := (@mem_entities sourceId sourceName databaseName _ _ hc _).2 rfl
    exact ⟨_, hmem, hname, sound_of_plain c.keysOnce (h c hc).1 (h c hc).2 _ _⟩

theorem keysOnce_of_flat {levels : ℕ} {doc : BsonDocument} (h : (Dict.keys doc).Nodup)
    (hflat : ∀ e ∈ doc, ∀ fields, e.2 ≠ .document fields) : KeysOnce levels doc := by
  cases levels with
  | zero => exact h
  | succ levels => exact ⟨h, fun e he fields heq => absurd heq (hflat e he fields)⟩

def dottedDocument : BsonDocument := [("_id", .int 1), ("a.b", .int 1)]

def nestedDocument : BsonDocument := [("_id", .int 2), ("a", .document [("b", .int 2)])]

/-- One document has a key with a dot, the other one has the same keys nested. -/
def dottedCollection : SampledCollection where
  name := "orders"
  docs := [dottedDocument, nestedDocument]
  keysOnce := by
    intro doc hdoc
    simp only [List.mem_cons, List.not_mem_nil, or_false] at hdoc
    rcases hdoc with rfl | rfl
    · refine keysOnce_of_flat (by decide) fun e he fields heq => ?_
      simp only [dottedDocument, List.mem_cons, List.not_mem_nil, or_false] at he
      rcases he with rfl | rfl <;> cases heq
    · refine ⟨by decide, fun e he fields heq => ?_⟩
      simp only [nestedDocument, List.mem_cons, List.not_mem_nil, or_false] at he
      rcases he with rfl | rfl
      · cases heq
      · cases heq
        refine keysOnce_of_flat (by decide) fun e he fields heq => ?_
        rw [List.mem_singleton.1 he] at heq
        cases heq

def dottedSamples : Samples where
  collections := [dottedCollection]
  namesOnce := List.nodup_singleton _

/-- The inferred `a.b` is not nullable, although one document has no `b` in an `a`. -/
theorem not_soundSchema_dotted : ¬ SoundSchema "s" "shop" "shop" dottedSamples := by
  intro h
  obtain ⟨entity, hmem, hname, hsound⟩ := h.entity dottedCollection List.mem_cons_self
  rw [(mem_entities List.mem_cons_self).1 ⟨hmem, hname⟩] at hsound
  have hne : dottedCollection.docs ≠ [] := List.cons_ne_nil _ _
  have hfield : inferField dottedCollection.docs "a.b" ∈
      (inferEntity "shop" (dottedCollection.name, dottedCollection.docs)).fields := by
    rw [fields_inferEntity hne]
    refine List.mem_map_of_mem (mem_orderedPaths.2 ⟨dottedDocument, List.mem_cons_self, .int 1, ?_⟩)
    exact List.mem_cons_of_mem _ List.mem_cons_self
  have hnullable : (inferField dottedCollection.docs "a.b").nullable = false := by decide
  obtain ⟨b, hvalue, -⟩ := hsound.notNull _ hfield hnullable dottedDocument List.mem_cons_self
  have hsegments : segmentsOf "a.b" = ["a", "b"] := by decide
  rw [show (inferField dottedCollection.docs "a.b").name = "a.b" from rfl, hsegments] at hvalue
  cases hvalue

end AltrStream.Connectors
