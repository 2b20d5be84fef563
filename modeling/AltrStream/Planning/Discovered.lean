import AltrStream.Planning.Registered

/-! # What becomes of the sources

Path B of `create_federated_plan`. Every active source takes part in the projection
or is excluded; a field of the projection has in every source that takes part a
column of the same name, whatever its case.
-/
namespace AltrStream.Planning
open Foundations Python QueryEngine Domain Registry Application Semantics

section
variable (py : Casing)

/-- The names under which the sources have a field. -/
def sourceNamesOf (ms : List MatchingSource) (name : String) : Dict String String :=
  .ofEntries <| ms.filterMap fun m => (m.fieldNamed py name).map fun f => (m.source.id, f.name)

/-- The source has the field in some case; MongoDB's own key does not count. -/
def HasField (src : Source) (entity : EntitySchema) (name : String) : Prop :=
  ∃ f ∈ entity.fields, (f.name = "_id" → src.type ≠ .mongodb) ∧ py.lower f.name = py.lower name

end

namespace QueryPlanner

variable (planner : QueryPlanner) (ir : AltrQueryIR) (logicalModelId : Option String)

/-- The sources that have the entity. -/
def matching : List MatchingSource :=
  (findSourcesWithPhysicalEntity planner.env.py planner.sources.rows planner.latestSchema ir.entity).1

/-- The sources that take part in the plan. -/
def taking : List MatchingSource :=
  participants planner.env.py (extractLogicalContext planner.env.py ir logicalModelId)
    (planner.matching ir)

/-- The projection that is made of them. -/
def projectionOf : EphemeralLogicalProjection :=
  synthesizeEphemeralProjection planner.env.py
    (extractLogicalContext planner.env.py ir logicalModelId) (planner.matching ir)
    (findSourcesWithPhysicalEntity planner.env.py planner.sources.rows planner.latestSchema
      ir.entity).2

/-- What a projection says of the active sources. -/
structure Surveys (projection : EphemeralLogicalProjection) : Prop where
  /-- Every active source takes part or is excluded, and not both. -/
  nothingLost : (projection.participatingSources ++
    projection.excludedSources.map (·.sourceId)).Perm
      ((activeSources planner.sources.rows).map (·.id))
  /-- A source takes part if the first of its entities that goes by the name has every field of an
  explicit projection. -/
  participates : ∀ src ∈ activeSources planner.sources.rows,
    src.id ∈ projection.participatingSources ↔ ∃ schema entity,
      planner.latestSchema src.id = some schema ∧
      schema.entities.find? (namesEntity planner.env.py ir.entity) = some entity ∧
      ∀ sel ∈ ir.projection, HasField planner.env.py src entity sel.path.root
  /-- A field of the projection stands for a column of each of these sources. -/
  columns : ∀ efp ∈ projection.canonicalFields, ∀ m ∈ planner.taking ir logicalModelId,
    ∃ f ∈ m.entity.fields, efp.sourceFieldNames.get? m.source.id = some f.name ∧
      planner.env.py.lower f.name = planner.env.py.lower efp.name
  /-- An explicit projection has its own fields, the other one those that all sources share with
  the first one with types that its type goes with. -/
  explicit : ir.projection ≠ [] → projection.participatingSources ≠ [] →
    projection.canonicalFields.map (·.name) = ir.projection.map (·.path.root)
  wildcard : ir.projection = [] → ∀ first rest, planner.matching ir = first :: rest →
    projection.canonicalFields.map (·.name) =
      (first.ownFields.filter (isShared planner.env.py (planner.matching ir))).map (·.name)

end QueryPlanner

variable {py : Casing}

/-! ### The fields of a projection -/

/-- Sources that differ have different ids. -/
def Apart (ms : List MatchingSource) : Prop :=
  ∀ m ∈ ms, ∀ m' ∈ ms, m.source.id = m'.source.id → m = m'

theorem get?_sourceNamesOf {ms : List MatchingSource} (hapart : Apart ms) {m : MatchingSource}
    (hm : m ∈ ms) (name : String) :
    (sourceNamesOf py ms name).get? m.source.id = (m.fieldNamed py name).map (·.name) := by
  have hentry : ∀ column, (m.source.id, column) ∈ ms.filterMap (fun m =>
      (m.fieldNamed py name).map fun f => (m.source.id, f.name)) →
        (m.fieldNamed py name).map (·.name) = some column := by
    intro column h
    obtain ⟨m', hm', h⟩ := List.mem_filterMap.1 h
    obtain ⟨f, hf, heq⟩ := Option.map_eq_some_iff.1 h
    obtain ⟨hid, rfl⟩ := Prod.mk.inj heq
    obtain rfl := hapart m' hm' m hm hid
    rw [hf]
    rfl
  cases hfound : m.fieldNamed py name with
  | none =>
    refine Dict.get?_update_of_not_mem fun hmem => ?_
    obtain ⟨⟨_, column⟩, hcolumn, rfl⟩ := List.mem_map.1 hmem
    have := hentry column hcolumn
    rw [hfound] at this
    cases this
  | some f =>
    refine Dict.get?_update_of_mem (List.mem_filterMap.2 ⟨m, hm, by rw [hfound]; rfl⟩) fun v hv => ?_
    have := hentry v hv
    rw [hfound] at this
    exact (Option.some.inj this).symm

theorem fieldNamed_lower (m : MatchingSource) {name name' : String}
    (h : py.lower name = py.lower name') : m.fieldNamed py name = m.fieldNamed py name' := by
  rw [MatchingSource.fieldNamed, h, MatchingSource.fieldNamed]

/-- Each field of the projection is found in every source that takes part. -/
theorem canonicalFields_found {context : LogicalPlanContext} {matching : List MatchingSource}
    {excluded : List SourceExclusionInfo} {efp : EphemeralFieldProjection}
    (h : efp ∈ (synthesizeEphemeralProjection py context matching excluded).canonicalFields) :
    efp.sourceFieldNames = sourceNamesOf py (participants py context matching) efp.name ∧
      ∀ m ∈ participants py context matching, (m.fieldNamed py efp.name).isSome := by
  unfold synthesizeEphemeralProjection at h
  dsimp only at h
  unfold participants at h ⊢
  split_ifs at h ⊢ with hwildcard hnone
  · cases matching with
    | nil => cases h
    | cons first rest =>
      obtain ⟨f, -, hf⟩ := List.mem_filterMap.1 h
      unfold sharedField at hf
      split_ifs at hf with hall
      cases hf
      refine ⟨rfl, fun m hm => ?_⟩
      exact Option.isSome_of_any (List.all_eq_true.1 hall m hm)
  · cases h
  · obtain ⟨name, hname, rfl⟩ := List.mem_map.1 h
    refine ⟨rfl, fun m hm => ?_⟩
    obtain ⟨m', -, hm'⟩ := mem_successes.1 hm
    obtain ⟨rfl, hall⟩ := checkFields_eq_ok.1 hm'
    exact hall name hname

/-! ### The sources of a projection -/

namespace QueryPlanner

variable {planner : QueryPlanner} {ir : AltrQueryIR} {logicalModelId : Option String}

theorem mem_matching {m : MatchingSource} : m ∈ planner.matching ir ↔
    m.source ∈ activeSources planner.sources.rows ∧
      planner.latestSchema m.source.id = some m.schema ∧
      m.schema.entities.find? (namesEntity planner.env.py ir.entity) = some m.entity := by
  rw [matching, findSourcesWithPhysicalEntity, mem_successes]
  constructor
  · rintro ⟨src, hsrc, h⟩
    obtain ⟨rfl, hschema, hentity⟩ := searchSource_eq_ok.1 h
    exact ⟨hsrc, hschema, hentity⟩
  · rintro ⟨hsrc, hschema, hentity⟩
    exact ⟨m.source, hsrc, searchSource_eq_ok.2 ⟨rfl, hschema, hentity⟩⟩

theorem source_eq_of_id {src src' : Source} (h : src ∈ activeSources planner.sources.rows)
    (h' : src' ∈ activeSources planner.sources.rows) (hid : src.id = src'.id) : src = src' :=
  Table.eq_of_key_eq (List.mem_of_mem_filter h) (List.mem_of_mem_filter h') hid

theorem apart_matching : Apart (planner.matching ir) := by
  rintro ⟨src, schema, entity⟩ hm ⟨src', schema', entity'⟩ hm' hid
  obtain ⟨hactive, hschema, hentity⟩ := mem_matching.1 hm
  obtain ⟨hactive', hschema', hentity'⟩ := mem_matching.1 hm'
  obtain rfl : src = src' := source_eq_of_id hactive hactive' hid
  obtain rfl : schema = schema' := Option.some.inj (hschema.symm.trans hschema')
  obtain rfl : entity = entity' := Option.some.inj (hentity.symm.trans hentity')
  rfl

theorem requested_of_explicit (hne : ir.projection ≠ []) :
    (extractLogicalContext planner.env.py ir logicalModelId).requested =
      ir.projection.map (·.path.root) := by
  have hexplicit : ir.isWildcardProjection = false := by
    simpa [AltrQueryIR.isWildcardProjection] using hne
  have hprojected : (extractLogicalContext planner.env.py ir logicalModelId).projectedFields =
      ir.projection.map (·.path.root) := by
    simp [extractLogicalContext, hexplicit]
  rw [LogicalPlanContext.requested, hprojected, if_pos (by simpa using hne)]

theorem mem_taking {m : MatchingSource} : m ∈ planner.taking ir logicalModelId ↔
    m ∈ planner.matching ir ∧
      ∀ sel ∈ ir.projection, (m.fieldNamed planner.env.py sel.path.root).isSome := by
  unfold taking participants
  cases hwildcard : ir.isWildcardProjection with
  | true =>
    have hnil : ir.projection = [] := List.isEmpty_iff.1 hwildcard
    rw [if_pos (by exact hwildcard)]
    simp [hnil]
  | false =>
    have hne : ir.projection ≠ [] := by simpa [AltrQueryIR.isWildcardProjection] using hwildcard
    rw [if_neg (by simp [extractLogicalContext, hwildcard]), mem_successes,
      requested_of_explicit hne]
    constructor
    · rintro ⟨m', hm', h⟩
      obtain ⟨rfl, hall⟩ := checkFields_eq_ok.1 h
      exact ⟨hm', fun sel hsel => hall _ (List.mem_map_of_mem hsel)⟩
    · rintro ⟨hm, hall⟩
      refine ⟨m, hm, checkFields_eq_ok.2 ⟨rfl, fun name hname => ?_⟩⟩
      obtain ⟨sel, hsel, rfl⟩ := List.mem_map.1 hname
      exact hall sel hsel

theorem participatingSources_eq : (planner.projectionOf ir logicalModelId).participatingSources =
    (planner.taking ir logicalModelId).map (·.source.id) := rfl

/-- No active source is lost, and none counts twice. -/
theorem perm_activeSources : ((planner.projectionOf ir logicalModelId).participatingSources ++
    (planner.projectionOf ir logicalModelId).excludedSources.map (·.sourceId)).Perm
      ((activeSources planner.sources.rows).map (·.id)) := by
  have hsearched : ((planner.matching ir).map (·.source.id) ++
      (findSourcesWithPhysicalEntity planner.env.py planner.sources.rows planner.latestSchema
        ir.entity).2.map (·.sourceId)).Perm ((activeSources planner.sources.rows).map (·.id)) :=
    labels_perm (fun src _ m h => congrArg Source.id (searchSource_eq_ok.1 h).1)
      fun src _ info h => searchSource_error_id h
  refine List.Perm.trans ?_ hsearched
  rw [participatingSources_eq]
  unfold projectionOf synthesizeEphemeralProjection taking participants
  dsimp only
  split_ifs with hwildcard
  · exact List.Perm.refl _
  · have hchecked : ((successes (checkFields planner.env.py
        (extractLogicalContext planner.env.py ir logicalModelId).requested)
          (planner.matching ir)).map (·.source.id) ++
        (failures (checkFields planner.env.py
          (extractLogicalContext planner.env.py ir logicalModelId).requested)
            (planner.matching ir)).map (·.sourceId)).Perm ((planner.matching ir).map (·.source.id)) :=
      labels_perm (fun m _ m' h => by rw [(checkFields_eq_ok.1 h).1])
        fun m _ info h => checkFields_error_id h
    rw [List.map_append]
    refine List.Perm.trans ?_ (hchecked.append_right _)
    rw [List.append_assoc]
    exact List.perm_append_comm.append_left _

theorem hasField_iff {m : MatchingSource} {name : String} :
    HasField py m.source m.entity name ↔ (m.fieldNamed py name).isSome := fieldNamed_isSome.symm

theorem mem_participatingSources {src : Source} (hsrc : src ∈ activeSources planner.sources.rows) :
    src.id ∈ (planner.projectionOf ir logicalModelId).participatingSources ↔ ∃ schema entity,
      planner.latestSchema src.id = some schema ∧
      schema.entities.find? (namesEntity planner.env.py ir.entity) = some entity ∧
      ∀ sel ∈ ir.projection, HasField planner.env.py src entity sel.path.root := by
  rw [participatingSources_eq, List.mem_map]
  constructor
  · rintro ⟨m, hm, hid⟩
    obtain ⟨hmatching, hfields⟩ := mem_taking.1 hm
    obtain ⟨hactive, hschema, hentity⟩ := mem_matching.1 hmatching
    obtain rfl := source_eq_of_id hactive hsrc hid
    exact ⟨m.schema, m.entity, hschema, hentity, fun sel hsel => hasField_iff.2 (hfields sel hsel)⟩
  · rintro ⟨schema, entity, hschema, hentity, hfields⟩
    have hm : (⟨src, schema, entity⟩ : MatchingSource) ∈ planner.matching ir :=
      mem_matching.2 ⟨hsrc, hschema, hentity⟩
    exact ⟨_, mem_taking.2 ⟨hm, fun sel hsel => hasField_iff.1 (hfields sel hsel)⟩, rfl⟩

theorem apart_taking : Apart (planner.taking ir logicalModelId) := fun m hm m' hm' hid =>
  apart_matching m (mem_taking.1 hm).1 m' (mem_taking.1 hm').1 hid

theorem canonical_column {efp : EphemeralFieldProjection}
    (hefp : efp ∈ (planner.projectionOf ir logicalModelId).canonicalFields) {m : MatchingSource}
    (hm : m ∈ planner.taking ir logicalModelId) :
    ∃ f ∈ m.entity.fields, m.fieldNamed planner.env.py efp.name = some f ∧
      efp.sourceFieldNames.get? m.source.id = some f.name ∧
      planner.env.py.lower f.name = planner.env.py.lower efp.name := by
  obtain ⟨hnames, hall⟩ := canonicalFields_found hefp
  obtain ⟨f, hf⟩ := Option.isSome_iff_exists.1 (hall m hm)
  obtain ⟨hmem, hlower⟩ := fieldNamed_eq_some hf
  refine ⟨f, hmem, hf, ?_, hlower⟩
  rw [hnames]
  exact (get?_sourceNamesOf apart_taking hm efp.name).trans (by rw [hf]; rfl)

theorem canonicalFields_explicit (hne : ir.projection ≠ [])
    (htaking : planner.taking ir logicalModelId ≠ []) :
    (planner.projectionOf ir logicalModelId).canonicalFields.map (·.name) =
      ir.projection.map (·.path.root) := by
  have hexplicit : (extractLogicalContext planner.env.py ir logicalModelId).isWildcard = false := by
    simpa [extractLogicalContext, AltrQueryIR.isWildcardProjection] using hne
  have hfields : (planner.projectionOf ir logicalModelId).canonicalFields =
      (extractLogicalContext planner.env.py ir logicalModelId).requested.map
        (requestedField planner.env.py (planner.taking ir logicalModelId)) := by
    unfold projectionOf synthesizeEphemeralProjection
    dsimp only
    rw [if_neg (by simp [hexplicit])]
    exact if_neg htaking
  rw [hfields, requested_of_explicit hne, List.map_map, List.map_map]
  exact List.map_congr_left fun sel _ => rfl

theorem canonicalFields_wildcard (hnil : ir.projection = []) {first : MatchingSource}
    {rest : List MatchingSource} (hmatching : planner.matching ir = first :: rest) :
    (planner.projectionOf ir logicalModelId).canonicalFields.map (·.name) =
      (first.ownFields.filter (isShared planner.env.py (planner.matching ir))).map (·.name) := by
  have hwildcard : (extractLogicalContext planner.env.py ir logicalModelId).isWildcard = true := by
    simp [extractLogicalContext, AltrQueryIR.isWildcardProjection, hnil]
  have hfields : (planner.projectionOf ir logicalModelId).canonicalFields =
      first.ownFields.filterMap (sharedField planner.env.py (planner.matching ir)) := by
    unfold projectionOf synthesizeEphemeralProjection
    dsimp only
    rw [if_pos hwildcard, hmatching]
    rfl
  rw [hfields]
  induction first.ownFields with
  | nil => rfl
  | cons f fields ih =>
    by_cases hall : isShared planner.env.py (planner.matching ir) f = true
    · simpa [sharedField, hall] using ih
    · simpa [sharedField, hall] using ih

/-- The projection over discovered sources surveys the active sources: all of them are told of, those
take part that have what is asked for, and every field has its column in each of them. -/
theorem surveys_projectionOf (planner : QueryPlanner) (ir : AltrQueryIR)
    (logicalModelId : Option String) :
    planner.Surveys ir logicalModelId (planner.projectionOf ir logicalModelId) where
  nothingLost := perm_activeSources
  participates _ hsrc := mem_participatingSources hsrc
  columns efp hefp m hm := by
    obtain ⟨f, hf, -, hname, hlower⟩ := canonical_column hefp hm
    exact ⟨f, hf, hname, hlower⟩
  explicit hne hsources := by
    refine canonicalFields_explicit hne fun hnil => hsources ?_
    rw [participatingSources_eq, hnil]
    rfl
  wildcard hnil _ _ hmatching := canonicalFields_wildcard hnil hmatching

/-! ### The plan -/

section
variable (planner : QueryPlanner) (ir : AltrQueryIR) (logicalModelId : Option String)

/-- The query is compiled to this for a source, through the mapping that it is given. -/
def CompilesFor (m : MatchingSource) (compiled : AltrQueryIR × BoundAltrQueryIR × Lowered) : Prop :=
  planner.compile (federatedPlanIr ir) (ephemeralMapping ir logicalModelId
    (planner.projectionOf ir logicalModelId) m) m.schema m.source.type = .ok compiled

/-- The plan is that of a source. -/
structure PlanFor (m : MatchingSource) (p : PhysicalQueryPlan) : Prop where
  source : p.selectedSourceId = m.source.id
  mapping : p.selectedMappingId = (ephemeralMapping ir logicalModelId
    (planner.projectionOf ir logicalModelId) m).id
  type : p.selectedSourceType = m.source.type
  entity : p.physicalEntityName = m.entity.name
  classification : p.classification = classifyQuery p.boundIr
  compiled : planner.CompilesFor ir logicalModelId m (p.resolvedIr, p.boundIr, p.physicalQuery)

/-- What a plan over discovered sources says of the active sources. -/
structure PlansTaking (plan : FederatedQueryPlan) : Prop where
  ephemeral : plan.isEphemeral = true
  /-- Each source that takes part has one plan, in the order of the sources. -/
  ordered : plan.physicalPlans.Pairwise fun p q => p.selectedSourceId < q.selectedSourceId
  compiled : ∀ p ∈ plan.physicalPlans, ∃ m ∈ planner.taking ir logicalModelId,
    planner.PlanFor ir logicalModelId m p
  /-- Every active source is planned or excluded, and not both. -/
  nothingLost : (plan.physicalPlans.map (·.selectedSourceId) ++
    plan.excludedSources.map (·.sourceId)).Perm
      ((activeSources planner.sources.rows).map (·.id))

end

/-- The sources that are planned are those that take part. -/
theorem filter_participating : (planner.matching ir).filter
    (fun m => m.source.id ∈ (planner.projectionOf ir logicalModelId).participatingSources) =
      planner.taking ir logicalModelId := by
  have hmem : ∀ m ∈ planner.matching ir,
      m.source.id ∈ (planner.projectionOf ir logicalModelId).participatingSources ↔
        m ∈ planner.taking ir logicalModelId := by
    intro m hm
    rw [participatingSources_eq, List.mem_map]
    constructor
    · rintro ⟨m', hm', hid⟩
      obtain rfl := apart_matching m' (mem_taking.1 hm').1 m hm hid
      exact hm'
    · exact fun h => ⟨m, h, rfl⟩
  by_cases hwildcard : ir.isWildcardProjection = true
  · have hall : planner.taking ir logicalModelId = planner.matching ir := if_pos hwildcard
    rw [hall]
    refine List.filter_eq_self.2 fun m hm => ?_
    rw [decide_eq_true_iff, hmem m hm, hall]
    exact hm
  · have hne : ir.projection ≠ [] := by simpa [AltrQueryIR.isWildcardProjection] using hwildcard
    refine (successes_eq_filter fun m hm m' => ?_).symm.trans (if_neg hwildcard).symm
    rw [decide_eq_true_iff, hmem m hm, checkFields_eq_ok, requested_of_explicit hne, mem_taking,
      List.forall_mem_map]
    exact and_congr_right fun _ => (and_iff_right hm).symm

/-- The plan of a source compiles the query for it. -/
theorem planMatching_settles (m : MatchingSource) :
    Settles (planner.planMatching ir logicalModelId (planner.projectionOf ir logicalModelId) m)
      (∃ compiled, planner.CompilesFor ir logicalModelId m compiled)
      (planner.PlanFor ir logicalModelId m) :=
  (Settles.refl _).bind_ok fun _ hcompiled => .ok ⟨rfl, rfl, rfl, rfl, rfl, hcompiled⟩

theorem plansTaking_of_planned {plan : FederatedQueryPlan} (hephemeral : plan.isEphemeral = true)
    (hexcluded : plan.excludedSources = (planner.projectionOf ir logicalModelId).excludedSources)
    (hplanned : List.Forall₂ (planner.PlanFor ir logicalModelId)
      (sortedBy (·.source.id) (planner.taking ir logicalModelId)) plan.physicalPlans) :
    planner.PlansTaking ir logicalModelId plan where
  ephemeral := hephemeral
  ordered := by
    have hids : (sortedBy (·.source.id) (planner.taking ir logicalModelId)).map (·.source.id) =
        plan.physicalPlans.map (·.selectedSourceId) :=
      map_eq_of_forall₂ hplanned fun m p h => h.source.symm
    have hnodup : ((planner.taking ir logicalModelId).map (·.source.id)).Nodup := by
      have hactive : ((activeSources planner.sources.rows).map (·.id)).Nodup :=
        planner.sources.nodup.sublist (List.filter_sublist.map _)
      rw [← participatingSources_eq]
      exact (perm_activeSources.nodup_iff.2 hactive).of_append_left
    have hstrict : (sortedBy (·.source.id) (planner.taking ir logicalModelId)).Pairwise
        fun a b => a.source.id < b.source.id := by
      have hsorted := List.pairwise_insertionSort (KeyLE (·.source.id))
        (planner.taking ir logicalModelId)
      have hperm : (sortedBy (·.source.id) (planner.taking ir logicalModelId)).Perm
          (planner.taking ir logicalModelId) := sortedBy_perm _
      have hne := List.pairwise_map.1 ((hperm.map (·.source.id)).nodup_iff.2 hnodup)
      exact (hsorted.and hne).imp fun h => lt_of_le_of_ne h.1 h.2
    exact List.pairwise_map.1 (hids ▸ List.pairwise_map.2 hstrict)
  compiled p hp := by
    obtain ⟨m, hm, hplan⟩ := forall₂_mem_right hplanned hp
    exact ⟨m, mem_sortedBy.1 hm, hplan⟩
  nothingLost := by
    have hids : (sortedBy (·.source.id) (planner.taking ir logicalModelId)).map (·.source.id) =
        plan.physicalPlans.map (·.selectedSourceId) :=
      map_eq_of_forall₂ hplanned fun m p h => h.source.symm
    rw [← hids, hexcluded]
    refine List.Perm.trans ?_ (@perm_activeSources planner ir logicalModelId)
    rw [participatingSources_eq]
    exact ((sortedBy_perm _).map _).append_right _

/-- Path B plans exactly if the projection has sources and fields and the query compiles for each of
the sources. -/
theorem planDiscovered_settles : Settles (planner.planDiscovered ir logicalModelId)
    (planner.taking ir logicalModelId ≠ [] ∧
      (planner.projectionOf ir logicalModelId).canonicalFields ≠ [] ∧
      ∀ m ∈ planner.taking ir logicalModelId,
        ∃ compiled, planner.CompilesFor ir logicalModelId m compiled)
    (planner.PlansTaking ir logicalModelId) := by
  set sorted := sortedBy (·.source.id) (planner.taking ir logicalModelId) with hsorted
  set projection := planner.projectionOf ir logicalModelId with hprojection
  have hempty : projection.participatingSources = [] ↔ planner.taking ir logicalModelId = [] := by
    rw [hprojection, participatingSources_eq, List.map_eq_nil_iff]
  have hsettles : Settles (planner.planDiscovered ir logicalModelId)
      (¬ (planner.matching ir = [] ∧ (findSourcesWithPhysicalEntity planner.env.py
          planner.sources.rows planner.latestSchema ir.entity).2 ≠ []) ∧
        ¬ planner.matching ir = [] ∧
        ¬ ((projection.participatingSources = [] ∨ projection.canonicalFields = []) ∧
          (extractLogicalContext planner.env.py ir logicalModelId).projectedFields ≠ []) ∧
        ¬ (projection.participatingSources = [] ∨ projection.canonicalFields = []) ∧
        (∀ m ∈ sorted, ∃ compiled, planner.CompilesFor ir logicalModelId m compiled) ∧
        ¬ sorted = [])
      (planner.PlansTaking ir logicalModelId) := by
    refine (Settles.raiseIf _ _).bind fun _ _ => (Settles.raiseIf _ _).bind fun _ _ =>
      (Settles.raiseIf _ _).bind fun _ _ => (Settles.raiseIf _ _).bind fun _ _ => ?_
    have hfiltered : sortedBy (·.source.id) ((planner.matching ir).filter fun m =>
        m.source.id ∈ projection.participatingSources) = sorted :=
      congrArg (sortedBy (·.source.id)) filter_participating
    have hplans : Settles ((sortedBy (·.source.id) ((planner.matching ir).filter fun m =>
        m.source.id ∈ projection.participatingSources)).mapM
          (planner.planMatching ir logicalModelId projection))
        (∀ m ∈ sorted, ∃ compiled, planner.CompilesFor ir logicalModelId m compiled)
        (List.Forall₂ (planner.PlanFor ir logicalModelId) sorted) := by
      rw [hfiltered]
      exact Settles.mapM fun m _ => planMatching_settles m
    refine hplans.bind fun plans hplans => ?_
    refine ((Settles.raiseIf _ _).bind_ok fun _ _ => .ok ?_).congr ?_
    · exact plansTaking_of_planned rfl rfl hplans
    · rw [List.isEmpty_iff_length_eq_zero, ← hplans.length_eq, List.length_eq_zero_iff]
  refine hsettles.congr ?_
  have hmem : ∀ m, m ∈ sorted ↔ m ∈ planner.taking ir logicalModelId := fun m => mem_sortedBy
  have hnil : sorted = [] ↔ planner.taking ir logicalModelId = [] := by
    simp only [List.eq_nil_iff_forall_not_mem, hmem]
  have hmatching : planner.matching ir = [] → planner.taking ir logicalModelId = [] := by
    intro h
    refine List.eq_nil_iff_forall_not_mem.2 fun m hm => ?_
    have := (mem_taking.1 hm).1
    rw [h] at this
    cases this
  simp only [hempty, hnil, hmem]
  constructor
  · rintro ⟨-, -, -, hfields, hall, hne⟩
    exact ⟨hne, fun h => hfields (.inr h), hall⟩
  · rintro ⟨hne, hfields, hall⟩
    exact ⟨fun h => hne (hmatching h.1), mt hmatching hne, fun h => h.1.elim hne hfields,
      fun h => h.elim hne hfields, hall, hne⟩

/-- Without candidates in the registry a plan is made exactly if the projection over the active
sources has sources and fields and the query compiles for each of these sources, so that one of them
can fail the query for all; a plan that is made tells of every active source. -/
theorem createFederatedPlan_discovered (planner : QueryPlanner) (ir : AltrQueryIR)
    (logicalModelId : Option String)
    (h : planner.registeredCandidates logicalModelId ir.entity = []) :
    ((∃ plan, planner.createFederatedPlan ir logicalModelId = .ok plan) ↔
      planner.taking ir logicalModelId ≠ [] ∧
      (planner.projectionOf ir logicalModelId).canonicalFields ≠ [] ∧
      ∀ m ∈ planner.taking ir logicalModelId,
        ∃ compiled, planner.CompilesFor ir logicalModelId m compiled) ∧
    ∀ plan, planner.createFederatedPlan ir logicalModelId = .ok plan →
      planner.PlansTaking ir logicalModelId plan := by
  have hpath : planner.createFederatedPlan ir logicalModelId =
      planner.planDiscovered ir logicalModelId := if_neg (not_not.2 h)
  rw [hpath]
  exact ⟨planDiscovered_settles.returns_iff, fun _ hplan => (planDiscovered_settles.of_eq_ok hplan).2⟩

/-- `GET CUSTOMERS { EMAIL }` -/
def customersEmails : AltrQueryIR where
  entity := "CUSTOMERS"
  projection := [⟨⟨"EMAIL", []⟩, none⟩]

theorem createFederatedPlan_customers :
    ∃ plan, shopPlanner.createFederatedPlan customersEmails none = .ok plan ∧
      shopPlanner.PlansTaking customersEmails none plan := by
  obtain ⟨-, htakes⟩ := createFederatedPlan_discovered shopPlanner customersEmails none rfl
  have hplan : (shopPlanner.createFederatedPlan customersEmails none).toOption.isSome = true := by
    decide +kernel
  obtain ⟨plan, hplan⟩ := Option.isSome_iff_exists.1 hplan
  have hplan := toOption_eq_some.1 hplan
  exact ⟨plan, hplan, htakes plan hplan⟩

end QueryPlanner

end AltrStream.Planning
