import AltrStream.Planning.Planner
import AltrStream.Registry.EarnedModels

/-! # What becomes of the candidates

Path A of `create_federated_plan`. Every candidate of the registry is planned, or is
excluded with the fields that it does not map, or belongs to a source without a
snapshot; the plans are in the order of their sources and mappings, whatever the
order of the candidates.
-/
namespace AltrStream.Planning
open Foundations Python QueryEngine Domain Registry Application Semantics

namespace QueryPlanner

section
variable (planner : QueryPlanner) (ir : AltrQueryIR) (logicalModelId : Option String)

/-- `is_eligible` of a candidate's evaluation. -/
def Eligible (c : ResolvedSourceCandidate) : Prop :=
  (evaluateCandidate planner.env.py (extractLogicalContext planner.env.py ir logicalModelId)
    c).isEligible = true

instance (c : ResolvedSourceCandidate) : Decidable (planner.Eligible ir logicalModelId c) :=
  inferInstanceAs (Decidable (_ = true))

/-- A schema of the candidate's source has been discovered. -/
def HasSnapshot (c : ResolvedSourceCandidate) : Prop := (planner.latestSchema c.sourceId).isSome

instance (c : ResolvedSourceCandidate) : Decidable (planner.HasSnapshot c) :=
  inferInstanceAs (Decidable (_ = true))

/-- The query is compiled to this through the candidate's own mapping and its source's snapshot. -/
def CompilesTo (c : ResolvedSourceCandidate) (compiled : AltrQueryIR × BoundAltrQueryIR × Lowered) :
    Prop :=
  ∃ mapping schema, getSourceMapping planner.registry c.mappingId = .ok mapping ∧
    planner.latestSchema c.sourceId = some schema ∧
    planner.compile (federatedPlanIr ir) mapping schema c.sourceType = .ok compiled

/-- The plan is the candidate's. -/
structure PlanOf (c : ResolvedSourceCandidate) (p : PhysicalQueryPlan) : Prop where
  source : p.selectedSourceId = c.sourceId
  mapping : p.selectedMappingId = c.mappingId
  type : p.selectedSourceType = c.sourceType
  entity : p.physicalEntityName = c.physicalEntityName
  classification : p.classification = classifyQuery p.boundIr
  compiled : planner.CompilesTo ir c (p.resolvedIr, p.boundIr, p.physicalQuery)

/-- What a plan over the registry says of the candidates. -/
structure AccountsFor (candidates : List ResolvedSourceCandidate) (plan : FederatedQueryPlan) :
    Prop where
  /-- The plans are in the order of sources and mappings, and no mapping has two. -/
  ordered : plan.physicalPlans.Pairwise fun p q =>
    toLex (p.selectedSourceId, p.selectedMappingId) < toLex (q.selectedSourceId, q.selectedMappingId)
  /-- Every plan is that of an eligible candidate whose source has a snapshot. -/
  sound : ∀ p ∈ plan.physicalPlans, ∃ c ∈ candidates,
    planner.Eligible ir logicalModelId c ∧ planner.PlanOf ir c p
  /-- Every such candidate has a plan. -/
  complete : ∀ c ∈ candidates, planner.Eligible ir logicalModelId c → planner.HasSnapshot c →
    ∃ p ∈ plan.physicalPlans, planner.PlanOf ir c p
  /-- The other candidates are excluded for the fields they do not map, in their own order. -/
  excluded : List.Forall₂ (fun c info => info.sourceId = c.sourceId ∧
      info.reasonCode = .incompleteFieldMapping)
    (candidates.filter fun c => ¬ planner.Eligible ir logicalModelId c) plan.excludedSources
  /-- No candidate is lost but those of sources without a snapshot, and none is told of twice. -/
  nothingLost : ((plan.physicalPlans.map (·.selectedSourceId) ++
    plan.excludedSources.map (·.sourceId)) ++
      (candidates.filter fun c => planner.Eligible ir logicalModelId c ∧ ¬ planner.HasSnapshot c).map
        (·.sourceId)).Perm (candidates.map (·.sourceId))

end

variable {planner : QueryPlanner} {ir : AltrQueryIR} {logicalModelId : Option String}

/-! ### The candidates of the registry -/

theorem registeredCandidates_eq {entity : String} :
    planner.registeredCandidates logicalModelId entity = [] ∨
      ∃ modelId target, planner.registeredCandidates logicalModelId entity =
        (activeMappings planner.registry modelId).filterMap
          (candidateOf? planner.env planner.latestSchema target) := by
  unfold registeredCandidates
  cases given logicalModelId with
  | none => exact .inl rfl
  | some modelId =>
    cases hresult : resolveLogicalEntity planner.env planner.latestSchema planner.registry modelId
        entity with
    | error e =>
      left
      simp only [hresult]
    | ok result =>
      obtain ⟨model, target, -, -, rfl⟩ := resolveLogicalEntity_eq_ok.1 hresult
      right
      refine ⟨model.id, target, ?_⟩
      simp only [hresult]
      rfl

/-- A candidate belongs to an active mapping and to a registered source. -/
theorem mapping_of_registered {entity : String} {c : ResolvedSourceCandidate}
    (hc : c ∈ planner.registeredCandidates logicalModelId entity) :
    ∃ mapping, getSourceMapping planner.registry c.mappingId = .ok mapping ∧
      mapping.status = .active ∧ ∃ source, planner.env.source? c.sourceId = some source := by
  rcases @registeredCandidates_eq planner logicalModelId entity with h | ⟨modelId, target, h⟩
  · rw [h] at hc
    cases hc
  · rw [h] at hc
    obtain ⟨mapping, hmapping, hsome⟩ := List.mem_filterMap.1 hc
    obtain ⟨em, -, source, hsource, rfl⟩ := candidateOf?_eq_some.1 hsome
    refine ⟨mapping, getSourceMapping_of_active hmapping, ?_, source, ?_⟩
    · simpa using (List.mem_filter.1 hmapping).2
    · have hid : source.id = mapping.sourceId := by
        rw [planner.source?_eq] at hsource
        exact (Table.find?_eq_some.1 hsource).2
      show planner.env.source? source.id = some source
      rw [hid]
      exact hsource

theorem mappingId_of_candidateOf? {env : Environment} {snapshots : String → Option SourceSchema}
    {target : LogicalEntity} {mapping : SourceMapping} {c : ResolvedSourceCandidate}
    (h : candidateOf? env snapshots target mapping = some c) : c.mappingId = mapping.id := by
  obtain ⟨em, -, source, -, rfl⟩ := candidateOf?_eq_some.1 h
  rfl

theorem nodup_activeMappings (r : Repository) (modelId : String) :
    ((activeMappings r modelId).map (·.id)).Nodup := by
  have hrows : ((sortedBy (fun m => OrderDual.toDual m.updatedAt) r.mappings.rows).map
      Keyed.key).Nodup := ((sortedBy_perm _).map _).nodup_iff.2 r.mappings.nodup
  have hlisted : ((r.listSourceMappings (some modelId) none).map (·.id)).Nodup := by
    rw [Repository.listSourceMappings, List.map_map]
    exact hrows.sublist (List.filter_sublist.map _)
  exact hlisted.sublist (List.filter_sublist.map _)

/-- A mapping yields one candidate. -/
theorem nodup_mappingIds (entity : String) :
    ((planner.registeredCandidates logicalModelId entity).map (·.mappingId)).Nodup := by
  rcases @registeredCandidates_eq planner logicalModelId entity with h | ⟨modelId, target, h⟩
  · rw [h]
    exact List.nodup_nil
  · rw [h]
    refine (nodup_activeMappings planner.registry modelId).sublist ?_
    induction activeMappings planner.registry modelId with
    | nil => exact List.Sublist.refl _
    | cons mapping rest ih =>
      cases hc : candidateOf? planner.env planner.latestSchema target mapping with
      | none =>
        rw [List.filterMap_cons_none hc, List.map_cons]
        exact ih.cons _
      | some c =>
        rw [List.filterMap_cons_some hc, List.map_cons, List.map_cons, mappingId_of_candidateOf? hc]
        exact ih.cons_cons _

/-! ### The plan of a candidate -/

/-- A candidate is skipped exactly if its source has no snapshot, and else is compiled. -/
theorem planCandidate_settles {entity modelId : String} {evaluations : List CandidateEvaluation}
    {c : ResolvedSourceCandidate} (hc : c ∈ planner.registeredCandidates logicalModelId entity) :
    Settles (planner.planCandidate ir modelId evaluations c)
      (planner.HasSnapshot c → ∃ compiled, planner.CompilesTo ir c compiled)
      fun plan => (planner.HasSnapshot c ↔ plan.isSome) ∧ ∀ p ∈ plan, planner.PlanOf ir c p := by
  obtain ⟨mapping, hget, hactive, source, hsource⟩ := mapping_of_registered hc
  have hlatest : planner.getLatestSchema c.sourceId = .ok (planner.latestSchema c.sourceId) := by
    rw [getLatestSchema, hsource]
  cases hschema : planner.latestSchema c.sourceId with
  | none =>
    have hstep : planner.planCandidate ir modelId evaluations c = .ok none := by
      unfold planCandidate
      rw [hget, hlatest, hschema]
      exact if_neg (not_not.2 hactive)
    have hnone : ¬ planner.HasSnapshot c := by simp [HasSnapshot, hschema]
    rw [hstep]
    exact ⟨fun h => absurd h hnone, by simp [hnone], by simp⟩
  | some schema =>
    have hstep : planner.planCandidate ir modelId evaluations c =
        (planner.compile (federatedPlanIr ir) mapping schema c.sourceType >>= fun compiled =>
          .ok (some (planOfCandidate ir modelId evaluations c compiled))) := by
      unfold planCandidate
      rw [hget, hlatest, hschema]
      exact if_neg (not_not.2 hactive)
    rw [hstep]
    have hsome : planner.HasSnapshot c := by simp [HasSnapshot, hschema]
    have hcompiles : (∃ compiled, planner.compile (federatedPlanIr ir) mapping schema c.sourceType =
        .ok compiled) ↔ (planner.HasSnapshot c → ∃ compiled, planner.CompilesTo ir c compiled) := by
      constructor
      · rintro ⟨compiled, h⟩ -
        exact ⟨compiled, mapping, schema, hget, hschema, h⟩
      · intro h
        obtain ⟨compiled, mapping', schema', hget', hschema', hcompile⟩ := h hsome
        obtain rfl := Except.ok.inj (hget.symm.trans hget')
        obtain rfl := Option.some.inj (hschema.symm.trans hschema')
        exact ⟨compiled, hcompile⟩
    refine (Settles.bind_ok (Settles.refl _) fun compiled hcompile => .ok ⟨by simp [hsome], ?_⟩).congr
      hcompiles
    rintro p ⟨⟩
    exact ⟨rfl, rfl, rfl, rfl, rfl, mapping, schema, hget, hschema, hcompile⟩

/-! ### The plan -/

theorem evaluateCandidate_labels (py : Casing) (context : LogicalPlanContext)
    (c : ResolvedSourceCandidate) : (evaluateCandidate py context c).sourceId = c.sourceId ∧
      (evaluateCandidate py context c).unmappedFields = unmappedFields py context c := by
  unfold evaluateCandidate
  dsimp only
  split_ifs with hunmapped hmissing
  · exact ⟨rfl, rfl⟩
  · exact ⟨rfl, (not_not.1 hunmapped).symm⟩
  · exact ⟨rfl, (not_not.1 hunmapped).symm⟩

/-- A candidate that is not eligible leaves a field unmapped. -/
theorem exclusionOf_labels {c : ResolvedSourceCandidate}
    (h : ¬ planner.Eligible ir logicalModelId c) :
    let ev := evaluateCandidate planner.env.py
      (extractLogicalContext planner.env.py ir logicalModelId) c
    (exclusionOf ev).sourceId = c.sourceId ∧ (exclusionOf ev).reasonCode = .incompleteFieldMapping := by
  obtain ⟨hid, hfields⟩ := evaluateCandidate_labels planner.env.py
    (extractLogicalContext planner.env.py ir logicalModelId) c
  refine ⟨hid, if_pos ?_⟩
  rw [hfields]
  exact mt isEligible_iff.2 h

theorem selectAllEligibleSources_settles {py : Casing} {context : LogicalPlanContext}
    {candidates : List ResolvedSourceCandidate} :
    Settles (selectAllEligibleSources py context candidates)
      (∃ c ∈ candidates, (evaluateCandidate py context c).isEligible = true)
      (· = (sortedBy candidateKey (evaluateCandidates py context candidates).1,
        (evaluateCandidates py context candidates).2)) := by
  have hany : (evaluateCandidates py context candidates).1 ≠ [] ↔
      ∃ c ∈ candidates, (evaluateCandidate py context c).isEligible = true := by
    rw [evaluateCandidates, Ne, List.filter_eq_nil_iff]
    push Not
    rfl
  unfold selectAllEligibleSources
  dsimp only
  split_ifs with hnil heligible hunmapped hmissing
  · subst hnil
    exact (Settles.error _).congr (by simp)
  · exact ⟨hany.1 heligible, rfl⟩
  all_goals exact (Settles.error _).congr (iff_of_false id (mt hany.2 heligible))

/-- The plans that there are belong to the candidates with a snapshot, in their order. -/
theorem forall₂_reduceOption {cs : List ResolvedSourceCandidate}
    {plans : List (Option PhysicalQueryPlan)}
    (h : List.Forall₂ (fun c plan => (planner.HasSnapshot c ↔ plan.isSome) ∧
      ∀ p ∈ plan, planner.PlanOf ir c p) cs plans) :
    List.Forall₂ (planner.PlanOf ir) (cs.filter fun c => planner.HasSnapshot c) plans.reduceOption := by
  induction h with
  | nil => exact .nil
  | @cons c plan cs plans h _ ih =>
    obtain ⟨hsnapshot, hplan⟩ := h
    cases plan with
    | none =>
      have hnone : ¬ planner.HasSnapshot c := by simp [hsnapshot]
      rw [List.filter_cons_of_neg (by simpa using hnone), List.reduceOption_cons_of_none]
      exact ih
    | some p =>
      have hsome : planner.HasSnapshot c := by simp [hsnapshot]
      rw [List.filter_cons_of_pos (by simpa using hsome), List.reduceOption_cons_of_some]
      exact .cons (hplan p rfl) ih

/-- Keys that differ and are in order are strictly in order. -/
theorem pairwise_lt_of_forall₂ {cs : List ResolvedSourceCandidate} {plans : List PhysicalQueryPlan}
    (h : List.Forall₂ (planner.PlanOf ir) cs plans) (hsorted : cs.Pairwise (KeyLE candidateKey))
    (hnodup : (cs.map (·.mappingId)).Nodup) : plans.Pairwise fun p q =>
      toLex (p.selectedSourceId, p.selectedMappingId) <
        toLex (q.selectedSourceId, q.selectedMappingId) := by
  have hkeys : cs.map candidateKey =
      plans.map fun p => toLex (p.selectedSourceId, p.selectedMappingId) :=
    map_eq_of_forall₂ h fun c p hp => by rw [hp.source, hp.mapping, candidateKey]
  have hstrict : cs.Pairwise fun a b => candidateKey a < candidateKey b := by
    refine (hsorted.and (List.pairwise_map.1 hnodup)).imp fun {a b} hab => ?_
    refine lt_of_le_of_ne hab.1 fun heq => hab.2 ?_
    exact (Prod.mk.inj (toLex.injective heq)).2
  have := List.pairwise_map.2 hstrict
  rw [hkeys] at this
  exact List.pairwise_map.1 this

section
variable (planner : QueryPlanner) (ir : AltrQueryIR) (logicalModelId : Option String)
  (candidates : List ResolvedSourceCandidate)

/-- The eligible candidates, in the order in which they are planned. -/
def eligibleCandidates : List ResolvedSourceCandidate :=
  sortedBy candidateKey (candidates.filter fun c => planner.Eligible ir logicalModelId c)

theorem evaluateCandidates_eligible : (evaluateCandidates planner.env.py
    (extractLogicalContext planner.env.py ir logicalModelId) candidates).1 =
      candidates.filter fun c => planner.Eligible ir logicalModelId c := by
  refine List.filter_congr fun c _ => ?_
  rw [Bool.eq_iff_iff, decide_eq_true_iff, Eligible]

theorem forall₂_excluded : List.Forall₂ (fun c info => info.sourceId = c.sourceId ∧
      info.reasonCode = .incompleteFieldMapping)
    (candidates.filter fun c => ¬ planner.Eligible ir logicalModelId c)
    (((evaluateCandidates planner.env.py
      (extractLogicalContext planner.env.py ir logicalModelId) candidates).2.filter
        fun ev => !ev.isEligible).map exclusionOf) := by
  have hfilter : (evaluateCandidates planner.env.py
      (extractLogicalContext planner.env.py ir logicalModelId) candidates).2.filter
        (fun ev => !ev.isEligible) =
      (candidates.filter fun c => ¬ planner.Eligible ir logicalModelId c).map
        (evaluateCandidate planner.env.py
          (extractLogicalContext planner.env.py ir logicalModelId)) := by
    rw [evaluateCandidates, List.filter_map]
    congr 1
    refine List.filter_congr fun c _ => ?_
    simp [Eligible]
  rw [hfilter, List.map_map, List.forall₂_map_right_iff, List.forall₂_same]
  intro c hc
  exact exclusionOf_labels (of_decide_eq_true (List.mem_filter.1 hc).2)

end

theorem mem_eligibleCandidates {candidates : List ResolvedSourceCandidate}
    {c : ResolvedSourceCandidate} : c ∈ planner.eligibleCandidates ir logicalModelId candidates ↔
      c ∈ candidates ∧ planner.Eligible ir logicalModelId c := by
  rw [eligibleCandidates, mem_sortedBy, List.mem_filter, decide_eq_true_iff]

/-- What is left of the candidates after the planned and the excluded ones. -/
theorem perm_candidates (candidates : List ResolvedSourceCandidate) :
    (((planner.eligibleCandidates ir logicalModelId candidates).filter
        fun c => planner.HasSnapshot c) ++
      (candidates.filter fun c => ¬ planner.Eligible ir logicalModelId c) ++
      (candidates.filter fun c => planner.Eligible ir logicalModelId c ∧
        ¬ planner.HasSnapshot c)).Perm candidates := by
  have hplanned : ((planner.eligibleCandidates ir logicalModelId candidates).filter
      fun c => planner.HasSnapshot c).Perm
        ((candidates.filter fun c => planner.Eligible ir logicalModelId c).filter
          fun c => planner.HasSnapshot c) := (sortedBy_perm _).filter _
  have hskipped : candidates.filter (fun c => planner.Eligible ir logicalModelId c ∧
      ¬ planner.HasSnapshot c) =
        (candidates.filter fun c => planner.Eligible ir logicalModelId c).filter
          fun c => !decide (planner.HasSnapshot c) := by
    rw [List.filter_filter]
    refine List.filter_congr fun c _ => ?_
    rw [Bool.eq_iff_iff]
    simp [and_comm]
  have hrest : candidates.filter (fun c => ¬ planner.Eligible ir logicalModelId c) =
      candidates.filter fun c => !decide (planner.Eligible ir logicalModelId c) :=
    List.filter_congr fun c _ => by simp
  rw [hskipped, hrest, List.append_assoc]
  refine (hplanned.append List.perm_append_comm).trans ?_
  rw [← List.append_assoc]
  exact ((List.filter_append_perm _ _).append_right _).trans (List.filter_append_perm _ _)

/-- The plans of the eligible candidates with a snapshot account for all candidates. -/
theorem accountsFor_of_planned {entity : String} {plan : FederatedQueryPlan}
    (hplanned : List.Forall₂ (planner.PlanOf ir)
      ((planner.eligibleCandidates ir logicalModelId
        (planner.registeredCandidates logicalModelId entity)).filter
          fun c => planner.HasSnapshot c) plan.physicalPlans)
    (hexcluded : List.Forall₂ (fun c info => info.sourceId = c.sourceId ∧
        info.reasonCode = .incompleteFieldMapping)
      ((planner.registeredCandidates logicalModelId entity).filter
        fun c => ¬ planner.Eligible ir logicalModelId c) plan.excludedSources) :
    planner.AccountsFor ir logicalModelId (planner.registeredCandidates logicalModelId entity)
      plan := by
  set candidates := planner.registeredCandidates logicalModelId entity with hcandidates
  have hmem : ∀ c, c ∈ (planner.eligibleCandidates ir logicalModelId candidates).filter
      (fun c => planner.HasSnapshot c) ↔
        (c ∈ candidates ∧ planner.Eligible ir logicalModelId c) ∧ planner.HasSnapshot c := by
    intro c
    rw [List.mem_filter, mem_eligibleCandidates, decide_eq_true_iff]
  constructor
  case ordered =>
    refine pairwise_lt_of_forall₂ hplanned ?_ ?_
    · exact (List.pairwise_insertionSort _ _).filter _
    · have hnodup : ((planner.eligibleCandidates ir logicalModelId candidates).map
          (·.mappingId)).Nodup := by
        refine ((sortedBy_perm _).map _).nodup_iff.2 ?_
        exact (nodup_mappingIds entity).sublist (List.filter_sublist.map _)
      exact hnodup.sublist (List.filter_sublist.map _)
  case sound =>
    intro p hp
    obtain ⟨c, hc, hplan⟩ := forall₂_mem_right hplanned hp
    exact ⟨c, ((hmem c).1 hc).1.1, ((hmem c).1 hc).1.2, hplan⟩
  case complete =>
    intro c hc heligible hsnapshot
    obtain ⟨p, hp, hplan⟩ := forall₂_mem_right hplanned.flip ((hmem c).2 ⟨⟨hc, heligible⟩, hsnapshot⟩)
    exact ⟨p, hp, hplan⟩
  case excluded => exact hexcluded
  case nothingLost =>
    have hids : plan.physicalPlans.map (·.selectedSourceId) =
        ((planner.eligibleCandidates ir logicalModelId candidates).filter
          fun c => planner.HasSnapshot c).map (·.sourceId) :=
      (map_eq_of_forall₂ hplanned fun c p h => h.source.symm).symm
    have hexcludedIds : plan.excludedSources.map (·.sourceId) =
        (candidates.filter fun c => ¬ planner.Eligible ir logicalModelId c).map (·.sourceId) :=
      (map_eq_of_forall₂ hexcluded fun c info h => h.1.symm).symm
    rw [hids, hexcludedIds, ← List.map_append, ← List.map_append]
    exact (perm_candidates candidates).map _

/-- Path A plans exactly if some eligible candidate has a snapshot and each such candidate compiles;
the plan then accounts for every candidate. -/
theorem planRegistered_settles {entity : String} :
    Settles (planner.planRegistered ir logicalModelId
        (planner.registeredCandidates logicalModelId entity))
      ((∃ c ∈ planner.registeredCandidates logicalModelId entity,
          planner.Eligible ir logicalModelId c ∧ planner.HasSnapshot c) ∧
        ∀ c ∈ planner.registeredCandidates logicalModelId entity,
          planner.Eligible ir logicalModelId c → planner.HasSnapshot c →
            ∃ compiled, planner.CompilesTo ir c compiled)
      (planner.AccountsFor ir logicalModelId
        (planner.registeredCandidates logicalModelId entity)) := by
  set candidates := planner.registeredCandidates logicalModelId entity with hcandidates
  set eligible := planner.eligibleCandidates ir logicalModelId candidates with heligible
  have hmem : ∀ c, c ∈ eligible ↔ c ∈ candidates ∧ planner.Eligible ir logicalModelId c :=
    fun c => mem_eligibleCandidates
  have hsettles : Settles (planner.planRegistered ir logicalModelId candidates)
      ((∃ c ∈ candidates, planner.Eligible ir logicalModelId c) ∧
        (∀ c ∈ eligible, planner.HasSnapshot c → ∃ compiled, planner.CompilesTo ir c compiled) ∧
          (eligible.filter fun c => planner.HasSnapshot c) ≠ [])
      (planner.AccountsFor ir logicalModelId candidates) := by
    refine Settles.bind selectAllEligibleSources_settles fun selected hselected => ?_
    subst hselected
    rw [evaluateCandidates_eligible]
    refine Settles.bind (Settles.mapM fun c hc => planCandidate_settles ((hmem c).1 hc).1)
      fun plans hplans => ?_
    have hplanned := forall₂_reduceOption hplans
    have hnil : eligible.filter (fun c => planner.HasSnapshot c) ≠ [] ↔
        ¬ plans.reduceOption.isEmpty = true := by
      rw [List.isEmpty_iff_length_eq_zero, ← hplanned.length_eq, List.length_eq_zero_iff]
      rfl
    refine ((Settles.raiseIf _ _).bind_ok fun _ _ => Settles.ok ?_).congr hnil.symm
    exact accountsFor_of_planned hplanned (forall₂_excluded planner ir logicalModelId candidates)
  refine hsettles.congr ?_
  have hsome : (eligible.filter fun c => planner.HasSnapshot c) ≠ [] ↔
      ∃ c ∈ candidates, planner.Eligible ir logicalModelId c ∧ planner.HasSnapshot c := by
    rw [Ne, List.filter_eq_nil_iff]
    push Not
    simp [hmem, and_assoc]
  constructor
  · rintro ⟨-, hall, hfilter⟩
    exact ⟨hsome.1 hfilter, fun c hc he hs => hall c ((hmem c).2 ⟨hc, he⟩) hs⟩
  · rintro ⟨⟨c, hc, he, hs⟩, hall⟩
    exact ⟨⟨c, hc, he⟩, fun c hc hs => hall c ((hmem c).1 hc).1 ((hmem c).1 hc).2 hs,
      hsome.2 ⟨c, hc, he, hs⟩⟩

/-- With candidates in the registry a plan is made exactly if some eligible candidate has a snapshot
and each such candidate compiles, so that one candidate can fail the query for all; a plan that is
made accounts for every candidate. -/
theorem createFederatedPlan_registered (planner : QueryPlanner) (ir : AltrQueryIR)
    (logicalModelId : Option String)
    (h : planner.registeredCandidates logicalModelId ir.entity ≠ []) :
    ((∃ plan, planner.createFederatedPlan ir logicalModelId = .ok plan) ↔
      (∃ c ∈ planner.registeredCandidates logicalModelId ir.entity,
        planner.Eligible ir logicalModelId c ∧ planner.HasSnapshot c) ∧
      ∀ c ∈ planner.registeredCandidates logicalModelId ir.entity,
        planner.Eligible ir logicalModelId c → planner.HasSnapshot c →
          ∃ compiled, planner.CompilesTo ir c compiled) ∧
    ∀ plan, planner.createFederatedPlan ir logicalModelId = .ok plan →
      planner.AccountsFor ir logicalModelId
        (planner.registeredCandidates logicalModelId ir.entity) plan := by
  have hpath : planner.createFederatedPlan ir logicalModelId =
      planner.planRegistered ir logicalModelId
        (planner.registeredCandidates logicalModelId ir.entity) := if_pos h
  rw [hpath]
  exact ⟨planRegistered_settles.returns_iff, fun _ hplan => (planRegistered_settles.of_eq_ok hplan).2⟩

/-- The planner over the registry of the shop. -/
def shopPlanner : QueryPlanner where
  env := { shopSource with
    source? := (Table.mk [⟨"db", "db", .sqlite, .active⟩] (by decide) : Table Source).find? }
  registry := earnedShop
  sources := ⟨[⟨"db", "db", .sqlite, .active⟩], by decide⟩
  source?_eq := rfl
  latestSchema id := if id = "db" then (shopSource.physicalSchema id).toOption else none
  clock := .newYear

/-- `GET Customer { mail }` -/
def customerMails : AltrQueryIR where
  entity := "Customer"
  projection := [⟨⟨"mail", []⟩, none⟩]

theorem createFederatedPlan_shop :
    shopPlanner.registeredCandidates (some "shop") customerMails.entity ≠ [] ∧
    ∃ plan, shopPlanner.createFederatedPlan customerMails (some "shop") = .ok plan ∧
      shopPlanner.AccountsFor customerMails (some "shop")
        (shopPlanner.registeredCandidates (some "shop") customerMails.entity) plan := by
  have hcandidates : shopPlanner.registeredCandidates (some "shop") customerMails.entity ≠ [] := by
    decide
  obtain ⟨-, haccounts⟩ :=
    createFederatedPlan_registered shopPlanner customerMails (some "shop") hcandidates
  have hplan : ∃ plan, shopPlanner.createFederatedPlan customerMails (some "shop") = .ok plan :=
    ⟨_, rfl⟩
  obtain ⟨plan, hplan⟩ := hplan
  exact ⟨hcandidates, plan, hplan, haccounts plan hplan⟩

end QueryPlanner

end AltrStream.Planning
