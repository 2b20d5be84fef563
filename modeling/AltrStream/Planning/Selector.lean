import AltrStream.Registry.Candidates
import Mathlib.Data.List.Dedup

/-! # Which candidates a query can be run on

`planning/selector.py`: the fields that a query refers to, and the candidates
that map all of them. A field counts as mapped under its logical or its physical
name, whatever the case and a final `s`.
-/
namespace AltrStream.Planning
open Foundations Python QueryEngine Domain Registry

structure LogicalPlanContext where
  logicalModelId : Option String := none
  targetEntity : String := ""
  operation : QueryOperation := .read
  isWildcard : Bool := true
  projectedFields : List String := []
  filterFields : List String := []
  mutationFields : List String := []
  sortFields : List String := []

/-- `all_referenced_fields` -/
def LogicalPlanContext.allReferencedFields (context : LogicalPlanContext) : List String :=
  (context.projectedFields ++ context.filterFields ++ context.mutationFields ++
    context.sortFields).dedup

structure CandidateEvaluation where
  sourceId : String
  sourceName : String
  sourceType : SourceType
  mappingId : String
  physicalEntityName : String
  isEligible : Bool
  rejectionReason : Option String := none
  unmappedFields : List String := []
  missingCapabilities : List String := []

/-- `custom_query` of a source's static capabilities. -/
def hasCustomQuery : SourceType → Bool
  | .postgresql | .mysql | .sqlite | .mongodb => true

section
variable (py : Casing)

/-- `alias_to_canonical` -/
def aliasToCanonical (projection : List FieldSelection) : Dict String String :=
  .ofEntries <| projection.filterMap fun sel =>
    (sel.alias_.filter (· ≠ "")).map fun alias_ => (py.lower alias_, sel.path.root)

/-- `extract_logical_context` -/
def extractLogicalContext (ir : AltrQueryIR) (logicalModelId : Option String) :
    LogicalPlanContext where
  logicalModelId := logicalModelId
  targetEntity := ir.entity
  operation := ir.operation
  isWildcard := ir.isWildcardProjection
  projectedFields := if ir.isWildcardProjection then [] else ir.projection.map (·.path.root)
  filterFields := (ir.where_.elim [] Formula.atoms).map (·.field.root)
  mutationFields := ir.assignments.map (·.field.root) ++
    ir.records.flatMap fun rec => rec.assignments.map (·.field.root)
  sortFields := (ir.sort.map (·.field.root) ++ ir.ranking.toList.map (·.field.root)).map
    fun root => ((aliasToCanonical py ir.projection).get? (py.lower root)).getD root

/-- `mapped_fields` -/
def mappedFields (candidate : ResolvedSourceCandidate) : List String :=
  ((candidate.fieldMappings.map (·.logicalFieldName)).filter (· ≠ "")).map py.lower ++
    ((candidate.fieldMappings.map (·.physicalFieldName)).filter (· ≠ "")).map py.lower

/-- `unmapped` -/
def unmappedFields (context : LogicalPlanContext) (candidate : ResolvedSourceCandidate) :
    List String :=
  let mapped := mappedFields py candidate
  (context.allReferencedFields.map py.lower).dedup.filter fun f =>
    f ∉ mapped && rstrip 's' f ∉ mapped.map (rstrip 's')

def missingCapabilities (context : LogicalPlanContext) (candidate : ResolvedSourceCandidate) :
    List String :=
  if context.operation ≠ .read ∧ hasCustomQuery candidate.sourceType = false then ["custom_query"]
  else []

/-- The body of the loop over the candidates. -/
def evaluateCandidate (context : LogicalPlanContext) (candidate : ResolvedSourceCandidate) :
    CandidateEvaluation :=
  let evaluation : CandidateEvaluation :=
    { sourceId := candidate.sourceId, sourceName := candidate.sourceName
      sourceType := candidate.sourceType, mappingId := candidate.mappingId
      physicalEntityName := candidate.physicalEntityName, isEligible := false }
  let unmapped := unmappedFields py context candidate
  let missing := missingCapabilities context candidate
  if unmapped ≠ [] then
    let fields := String.intercalate ", " unmapped
    { evaluation with
      rejectionReason := some s!"Candidate does not map required logical field(s): {fields}"
      unmappedFields := unmapped }
  else if missing ≠ [] then
    let capabilities := String.intercalate ", " missing
    { evaluation with
      rejectionReason := some s!"Candidate lacks required capabilities: {capabilities}"
      missingCapabilities := missing }
  else { evaluation with isEligible := true }

/-- `evaluate_candidates` -/
def evaluateCandidates (context : LogicalPlanContext) (candidates : List ResolvedSourceCandidate) :
    List ResolvedSourceCandidate × List CandidateEvaluation :=
  (candidates.filter fun c => (evaluateCandidate py context c).isEligible,
    candidates.map (evaluateCandidate py context))

end

variable {py : Casing}

/-- A candidate is eligible exactly if it leaves no field unmapped. -/
theorem isEligible_iff {context : LogicalPlanContext} {candidate : ResolvedSourceCandidate} :
    (evaluateCandidate py context candidate).isEligible = true ↔
      unmappedFields py context candidate = [] := by
  have hmissing : missingCapabilities context candidate = [] := by
    refine if_neg fun h => ?_
    cases htype : candidate.sourceType <;> simp [htype, hasCustomQuery] at h
  unfold evaluateCandidate
  by_cases hunmapped : unmappedFields py context candidate = [] <;> simp [hunmapped, hmissing]

theorem root_of_aliasToCanonical {projection : List FieldSelection} {alias_ root : String}
    (h : (aliasToCanonical py projection).get? alias_ = some root) :
    ∃ sel ∈ projection, sel.path.root = root := by
  rcases Dict.get?_update_cases h with h | h
  · cases h
  · obtain ⟨sel, hsel, hentry⟩ := List.mem_filterMap.1 h
    obtain ⟨_, -, heq⟩ := Option.map_eq_some_iff.1 hentry
    exact ⟨sel, hsel, (Prod.mk.inj heq).2⟩

/-- Every field in the context of a query is the root of one of its field paths. -/
theorem mem_allReferencedFields {ir : AltrQueryIR} {modelId : Option String} {f : String}
    (h : f ∈ (extractLogicalContext py ir modelId).allReferencedFields) :
    ∃ path ∈ ir.references, path.root = f := by
  have hprojected {sel : FieldSelection} (hsel : sel ∈ ir.projection) :
      sel.path ∈ ir.references := by
    simp only [AltrQueryIR.references, List.mem_append]
    exact .inl <| .inl <| .inl <| .inl <| .inl <| List.mem_map_of_mem hsel
  simp only [LogicalPlanContext.allReferencedFields, extractLogicalContext, List.mem_dedup,
    List.mem_append] at h
  rcases h with ((h | h) | h | h) | h
  · split_ifs at h
    · cases h
    · obtain ⟨sel, hsel, rfl⟩ := List.mem_map.1 h
      exact ⟨sel.path, hprojected hsel, rfl⟩
  · obtain ⟨e, he, rfl⟩ := List.mem_map.1 h
    refine ⟨e.field, ?_, rfl⟩
    simp only [AltrQueryIR.references, List.mem_append]
    exact .inl <| .inl <| .inl <| .inl <| .inr <| List.mem_map_of_mem he
  · obtain ⟨a, ha, rfl⟩ := List.mem_map.1 h
    refine ⟨a.field, ?_, rfl⟩
    simp only [AltrQueryIR.references, List.mem_append]
    exact .inl <| .inl <| .inl <| .inr <| List.mem_map_of_mem ha
  · obtain ⟨rec, hrec, h⟩ := List.mem_flatMap.1 h
    obtain ⟨a, ha, rfl⟩ := List.mem_map.1 h
    refine ⟨a.field, ?_, rfl⟩
    simp only [AltrQueryIR.references, List.mem_append]
    exact .inl <| .inl <| .inr <| List.mem_flatMap.2 ⟨rec, hrec, List.mem_map_of_mem ha⟩
  · obtain ⟨root, hroot, rfl⟩ := List.mem_map.1 h
    cases halias : (aliasToCanonical py ir.projection).get? (py.lower root) with
    | some canonical =>
      obtain ⟨sel, hsel, rfl⟩ := root_of_aliasToCanonical halias
      exact ⟨sel.path, hprojected hsel, rfl⟩
    | none =>
      rw [Option.getD_none]
      rcases List.mem_append.1 hroot with h | h
      · obtain ⟨s, hs, rfl⟩ := List.mem_map.1 h
        refine ⟨s.field, ?_, rfl⟩
        simp only [AltrQueryIR.references, List.mem_append]
        exact .inl <| .inr <| List.mem_map_of_mem hs
      · obtain ⟨ranking, hranking, rfl⟩ := List.mem_map.1 h
        refine ⟨ranking.field, ?_, rfl⟩
        simp only [AltrQueryIR.references, List.mem_append]
        exact .inr <| List.mem_map_of_mem hranking

/-- A candidate whose field mappings have the names of all fields is eligible. -/
theorem mem_evaluateCandidates {context : LogicalPlanContext}
    {candidates : List ResolvedSourceCandidate} {c : ResolvedSourceCandidate}
    (hc : c ∈ candidates) (h : ∀ f ∈ context.allReferencedFields, f ≠ "" ∧
      ∃ fm ∈ c.fieldMappings, fm.logicalFieldName = f) :
    c ∈ (evaluateCandidates py context candidates).1 := by
  refine List.mem_filter.2 ⟨hc, isEligible_iff.2 (List.filter_eq_nil_iff.2 fun f' hf' => ?_)⟩
  obtain ⟨f, hf, rfl⟩ := List.mem_map.1 (List.mem_dedup.1 hf')
  obtain ⟨hne, fm, hfm, rfl⟩ := h f hf
  have hmapped : py.lower fm.logicalFieldName ∈ mappedFields py c :=
    List.mem_append_left _ (List.mem_map_of_mem
      (List.mem_filter.2 ⟨List.mem_map_of_mem hfm, by simpa using hne⟩))
  simp [hmapped]

end AltrStream.Planning
