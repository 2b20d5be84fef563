import AltrStream.Foundations.Reached
import AltrStream.Registry.Steps

/-! # One active mapping for a model and a source

Activation demotes the other active mappings of the pair, and every other
operation but one leaves no mapping ACTIVE that was not: a direct write of the
status of a VALIDATED mapping demotes nothing.
-/
namespace AltrStream.Registry
open Foundations Python QueryEngine Domain Repository

/-- `logical_model_id` and `source_id`. -/
def SamePair (m m' : SourceMappingRow) : Prop :=
  m.logicalModelId = m'.logicalModelId ∧ m.sourceId = m'.sourceId

/-- At most one mapping of a pair is ACTIVE. -/
def SingleActive (r : Repository) : Prop :=
  ∀ m ∈ r.mappings, ∀ m' ∈ r.mappings, m.status = .active → m'.status = .active →
    SamePair m m' → m = m'

instance (m m' : SourceMappingRow) : Decidable (SamePair m m') :=
  inferInstanceAs (Decidable (_ ∧ _))

instance (r : Repository) : Decidable (SingleActive r) :=
  inferInstanceAs (Decidable (∀ m ∈ r.mappings, ∀ m' ∈ r.mappings, m.status = .active →
    m'.status = .active → SamePair m m' → m = m'))

/-- No mapping is made ACTIVE by a direct write while another of its pair is. -/
def Operation.ActivatesAlone (r : Repository) : Operation → Prop
  | .updateSourceMapping _ mappingId _ (some .active) _ _ none =>
    ∀ m ∈ r.mappings, m.id = mappingId → ∀ other ∈ r.mappings, other.id ≠ mappingId →
      SamePair other m → other.status ≠ .active
  | _ => True

variable {env : Environment} {r r' : Repository}

/-- Whoever is active now was active under the same pair. -/
theorem SingleActive.of_active (h : SingleActive r)
    (hactive : ∀ m' ∈ r'.mappings, m'.status = .active →
      ∃ m ∈ r.mappings, m.id = m'.id ∧ SamePair m m' ∧ m.status = .active) : SingleActive r' := by
  intro m₁ h₁ m₂ h₂ hs₁ hs₂ hpair
  obtain ⟨n₁, hn₁, hid₁, hp₁, ha₁⟩ := hactive m₁ h₁ hs₁
  obtain ⟨n₂, hn₂, hid₂, hp₂, ha₂⟩ := hactive m₂ h₂ hs₂
  have hsame : SamePair n₁ n₂ :=
    ⟨hp₁.1.trans (hpair.1.trans hp₂.1.symm), hp₁.2.trans (hpair.2.trans hp₂.2.symm)⟩
  have heq : n₁ = n₂ := h n₁ hn₁ n₂ hn₂ ha₁ ha₂ hsame
  exact Table.eq_of_key_eq h₁ h₂ (hid₁.symm.trans (congrArg _ heq |>.trans hid₂))

theorem SingleActive.of_sameMappings (h : SingleActive r) (hsame : r'.mappings = r.mappings) :
    SingleActive r' := by
  unfold SingleActive
  rwa [hsame]

/-- A status other than ACTIVE is written. -/
theorem SingleActive.write {now : ℕ} {mapping : SourceMapping} (h : SingleActive r)
    (hstatus : mapping.status ≠ .active) : SingleActive (r.writeMapping now mapping) := by
  apply h.of_active
  intro m' hm' hactive
  rcases mem_writeMapping.1 hm' with ⟨hmem, -⟩ | ⟨m, -, -, rfl⟩
  · exact ⟨m', hmem, rfl, ⟨rfl, rfl⟩, hactive⟩
  · exact absurd hactive hstatus

theorem SingleActive.create {mapping : SourceMapping} (h : SingleActive r)
    (hstatus : mapping.status ≠ .active) (hcreate : r.createSourceMapping mapping = .ok r') :
    SingleActive r' := by
  obtain ⟨mappings, hmappings, hinserted⟩ := Repository.createSourceMapping_ok hcreate
  obtain ⟨_, _, -, -, rfl⟩ := insertEntityMappings_ok hinserted
  apply h.of_active
  intro m' hm' hactive
  rcases (Table.mem_of_insert? hmappings).1 hm' with hmem | rfl
  · exact ⟨m', hmem, rfl, ⟨rfl, rfl⟩, hactive⟩
  · exact absurd hactive hstatus

/-! ### Activation -/

/-- Another active mapping of the source. -/
def Rivals (mapping other : SourceMapping) : Prop :=
  other.id ≠ mapping.id ∧ other.sourceId = mapping.sourceId ∧ other.status = .active

/-- Every row that the demotion leaves is one that has no rival among the listed mappings, or was
rewritten as VALIDATED from one of them. -/
theorem mem_demoteOthers {now : ℕ} {mapping : SourceMapping} {others : List SourceMapping}
    (h : demoteOthers now mapping others r = .ok r') {m' : SourceMappingRow}
    (hm' : m' ∈ r'.mappings) : ∃ m ∈ r.mappings,
      (m' = m ∧ ∀ other ∈ others, other.id = m.id → ¬ Rivals mapping other) ∨
      ∃ other ∈ others, Rivals mapping other ∧ other.id = m.id ∧
        m' = written now { other with status := .validated } m := by
  induction others generalizing r with
  | nil =>
    cases h
    exact ⟨m', hm', .inl ⟨rfl, fun _ h => absurd h List.not_mem_nil⟩⟩
  | cons other others ih =>
    simp only [demoteOthers, bind_eq_ok] at h
    obtain ⟨r₁, h₁, h⟩ := h
    obtain ⟨m₁, hm₁, hlast⟩ := ih h
    unfold demoteOther at h₁
    split at h₁
    · next hrival =>
      rw [Repository.updateSourceMapping_ok h₁] at hm₁
      rcases mem_writeMapping.1 hm₁ with ⟨hmem, hid⟩ | ⟨m, hmem, hid, rfl⟩
      · refine ⟨m₁, hmem, ?_⟩
        rcases hlast with ⟨rfl, hnone⟩ | ⟨o, ho, hrest⟩
        · exact .inl ⟨rfl, List.forall_mem_cons.2 ⟨fun heq => absurd heq.symm hid, hnone⟩⟩
        · exact .inr ⟨o, List.mem_cons_of_mem _ ho, hrest⟩
      · refine ⟨m, hmem, .inr ?_⟩
        rcases hlast with ⟨rfl, -⟩ | ⟨o, ho, hr, hoid, rfl⟩
        · exact ⟨other, List.mem_cons_self, hrival, hid.symm, rfl⟩
        · exact ⟨o, List.mem_cons_of_mem _ ho, hr, hoid, rfl⟩
    · next hrival =>
      cases h₁
      refine ⟨m₁, hm₁, ?_⟩
      rcases hlast with ⟨rfl, hnone⟩ | ⟨o, ho, hrest⟩
      · exact .inl ⟨rfl, List.forall_mem_cons.2 ⟨fun _ => hrival, hnone⟩⟩
      · exact .inr ⟨o, List.mem_cons_of_mem _ ho, hrest⟩

theorem activateSourceMapping_ok {now : ℕ} {mappingId : String}
    (h : activateSourceMapping r now mappingId = .ok r') : ∃ mapping demoted,
      getSourceMapping r mappingId = .ok mapping ∧ mapping.status = .validated ∧
      demoteOthers now mapping (r.listSourceMappings (some mapping.logicalModelId) none) r =
        .ok demoted ∧
      r' = demoted.writeMapping now { mapping with status := .active, errorMessage := none } := by
  simp only [activateSourceMapping, bind_eq_ok, raiseIf_eq_ok, not_not] at h
  obtain ⟨mapping, hmapping, _, hstatus, demoted, hdemoted, h⟩ := h
  exact ⟨mapping, demoted, hmapping, hstatus, hdemoted, Repository.updateSourceMapping_ok h⟩

theorem mem_listSourceMappings {modelId : String} {m : SourceMappingRow} (hm : m ∈ r.mappings)
    (hmodel : m.logicalModelId = modelId) :
    r.sourceMappingToDomain m ∈ r.listSourceMappings (some modelId) none := by
  refine List.mem_map_of_mem (List.mem_filter.2 ⟨mem_sortedBy.2 hm, ?_⟩)
  simp [hmodel]

theorem listed_mem {modelId sourceId : Option String} {m : SourceMapping}
    (h : m ∈ r.listSourceMappings modelId sourceId) : m.toSourceMappingRow ∈ r.mappings := by
  obtain ⟨row, hrow, rfl⟩ := List.mem_map.1 h
  exact mem_sortedBy.1 (List.mem_filter.1 hrow).1

/-- The demotion leaves the mapping itself alone. -/
theorem eq_of_demoted {now : ℕ} {mapping : SourceMapping} {others : List SourceMapping}
    (hmapping : mapping.toSourceMappingRow ∈ r.mappings)
    (h : demoteOthers now mapping others r = .ok r') {m : SourceMappingRow} (hm : m ∈ r'.mappings)
    (hid : m.id = mapping.id) : m = mapping.toSourceMappingRow := by
  obtain ⟨n, hn, ⟨rfl, -⟩ | ⟨other, -, hrival, hother, rfl⟩⟩ := mem_demoteOthers h hm
  · exact Table.eq_of_key_eq hn hmapping hid
  · exact absurd (hother.trans hid) hrival.1

/-- No mapping that is still active after the demotion rivals the one to be activated. -/
theorem not_active_of_demoted {now : ℕ} {mapping : SourceMapping} {demoted : Repository}
    (h : demoteOthers now mapping (r.listSourceMappings (some mapping.logicalModelId) none) r =
      .ok demoted) {m : SourceMappingRow} (hm : m ∈ demoted.mappings) (hid : m.id ≠ mapping.id)
    (hpair : SamePair m mapping.toSourceMappingRow) : m.status ≠ .active := by
  intro hactive
  obtain ⟨n, hn, ⟨rfl, hnone⟩ | ⟨_, -, -, -, rfl⟩⟩ := mem_demoteOthers h hm
  · exact hnone _ (mem_listSourceMappings hn hpair.1) rfl ⟨hid, hpair.2, hactive⟩
  · cases hactive

theorem SingleActive.activate {now : ℕ} {mappingId : String} (h : SingleActive r)
    (hactivate : activateSourceMapping r now mappingId = .ok r') : SingleActive r' := by
  obtain ⟨mapping, demoted, hmapping, -, hdemoted, rfl⟩ := activateSourceMapping_ok hactivate
  have hsingle : SingleActive demoted := by
    apply h.of_active
    intro m' hm' hactive
    obtain ⟨m, hm, ⟨rfl, -⟩ | ⟨_, -, -, -, rfl⟩⟩ := mem_demoteOthers hdemoted hm'
    · exact ⟨_, hm, rfl, ⟨rfl, rfl⟩, hactive⟩
    · cases hactive
  -- the row that is written is the mapping's own
  have hrow : ∀ m ∈ demoted.mappings, m.id = mapping.id → SamePair m mapping.toSourceMappingRow := by
    intro m hm hid
    rw [eq_of_demoted (mem_of_getSourceMapping hmapping).1 hdemoted hm hid]
    exact ⟨rfl, rfl⟩
  intro m₁ h₁ m₂ h₂ hs₁ hs₂ hpair
  have hmem₁ := h₁
  have hmem₂ := h₂
  rcases mem_writeMapping.1 h₁ with ⟨h₁, hid₁⟩ | ⟨n₁, hn₁, hid₁, rfl⟩
  · rcases mem_writeMapping.1 h₂ with ⟨h₂, -⟩ | ⟨n₂, hn₂, hid₂, rfl⟩
    · exact hsingle m₁ h₁ m₂ h₂ hs₁ hs₂ hpair
    · have hn := hrow n₂ hn₂ hid₂
      exact absurd hs₁ (not_active_of_demoted hdemoted h₁ hid₁
        ⟨hpair.1.trans hn.1, hpair.2.trans hn.2⟩)
  · rcases mem_writeMapping.1 h₂ with ⟨h₂, hid₂⟩ | ⟨n₂, hn₂, hid₂, rfl⟩
    · have hn := hrow n₁ hn₁ hid₁
      exact absurd hs₂ (not_active_of_demoted hdemoted h₂ hid₂
        ⟨hpair.1.symm.trans hn.1, hpair.2.symm.trans hn.2⟩)
    · exact Table.eq_of_key_eq hmem₁ hmem₂ (hid₁.trans hid₂.symm)

/-! ### Runs -/

/-- A direct write of ACTIVE keeps the pair single if nothing else of it is active. -/
theorem SingleActive.writeActive {now : ℕ} {mapping : SourceMapping} (h : SingleActive r)
    (halone : ∀ m ∈ r.mappings, m.id = mapping.id → ∀ other ∈ r.mappings, other.id ≠ mapping.id →
      SamePair other m → other.status ≠ .active) : SingleActive (r.writeMapping now mapping) := by
  intro m₁ h₁ m₂ h₂ hs₁ hs₂ hpair
  have hmem₁ := h₁
  have hmem₂ := h₂
  rcases mem_writeMapping.1 h₁ with ⟨h₁, hid₁⟩ | ⟨n₁, hn₁, hid₁, rfl⟩
  · rcases mem_writeMapping.1 h₂ with ⟨h₂, -⟩ | ⟨n₂, hn₂, hid₂, rfl⟩
    · exact h m₁ h₁ m₂ h₂ hs₁ hs₂ hpair
    · exact absurd hs₁ (halone n₂ hn₂ hid₂ m₁ h₁ hid₁ hpair)
  · rcases mem_writeMapping.1 h₂ with ⟨h₂, hid₂⟩ | ⟨n₂, -, hid₂, rfl⟩
    · exact absurd hs₂ (halone n₁ hn₁ hid₁ m₂ h₂ hid₂ ⟨hpair.1.symm, hpair.2.symm⟩)
    · exact Table.eq_of_key_eq hmem₁ hmem₂ (hid₁.trans hid₂.symm)

/-- A written status that is not newly ACTIVE. -/
theorem SingleActive.rewrite {now : ℕ} {mapping written : SourceMapping} (h : SingleActive r)
    (hmapping : mapping.toSourceMappingRow ∈ r.mappings) (hid : written.id = mapping.id)
    (hstatus : written.status = .active → mapping.status = .active) :
    SingleActive (r.writeMapping now written) := by
  apply h.of_active
  intro m' hm' hactive
  rcases mem_writeMapping.1 hm' with ⟨hmem, -⟩ | ⟨m, hm, hmid, rfl⟩
  · exact ⟨m', hmem, rfl, ⟨rfl, rfl⟩, hactive⟩
  · have heq : m = mapping.toSourceMappingRow :=
      Table.eq_of_key_eq hm hmapping (hmid.trans hid)
    exact ⟨m, hm, rfl, ⟨rfl, rfl⟩, heq ▸ hstatus hactive⟩

theorem singleActive_apply {o : Operation} (h : SingleActive r) (halone : o.ActivatesAlone r)
    (happly : o.apply env r = .ok r') : SingleActive r' := by
  cases ho : o.onModels with
  | true => exact h.of_sameMappings (sameMappings_of_onModels ho happly).mappings
  | false =>
    cases o with
    | createSourceMapping id now logicalModelId sourceId version status provenance ems =>
      obtain ⟨_, -, -, hcreate⟩ := createSourceMapping_ok happly
      refine h.create ?_ hcreate
      show (if status = .active then MappingStatus.draft else status) ≠ .active
      split_ifs with hstatus
      · decide
      · exact hstatus
    | ingestAlignSuggestions id now modelId sourceId version ems =>
      obtain ⟨_, -, hcreate⟩ := ingestAlignSuggestions_ok happly
      exact h.create (fun hactive => by cases hactive) hcreate
    | updateSourceMapping now mappingId version status provenance errorMessage ems =>
      rw [Operation.apply] at happly
      cases ems with
      | some ems =>
        obtain ⟨_, _, -, rfl, _, -, hinserted⟩ := replaceEntityMappings_ok happly
        obtain ⟨_, _, -, -, rfl⟩ := insertEntityMappings_ok hinserted
        exact h.write fun hactive => by cases hactive
      | none =>
        obtain ⟨mapping, hmapping, -, rfl⟩ := updateSourceMapping_ok happly
        obtain ⟨hmem, hid, -⟩ := mem_of_getSourceMapping hmapping
        cases status with
        | none => exact h.rewrite hmem rfl fun hactive => hactive
        | some status =>
          cases status with
          | active =>
            subst hid
            exact h.writeActive halone
          | _ => exact h.write fun hactive => by cases hactive
    | deleteSourceMapping mappingId =>
      cases happly
      apply h.of_active
      intro m' hm' hactive
      exact ⟨m', (Table.mem_filter.1 hm').1, rfl, ⟨rfl, rfl⟩, hactive⟩
    | addEntityMapping id now sourceMappingId logicalEntityId physicalEntityName
        physicalNamespace fms =>
      obtain ⟨_, -, _, _, _, -, -, -, _, hinserted, rfl⟩ := addEntityMapping_ok happly
      obtain ⟨_, _, -, -, rfl⟩ := insertEntityMappings_ok hinserted
      exact SingleActive.write (h.of_sameMappings rfl) fun hactive => by cases hactive
    | deleteEntityMapping entityMappingId =>
      cases happly
      exact h.of_sameMappings rfl
    | addFieldMapping id entityMappingId logicalFieldId physicalFieldName transformationRule =>
      simp only [Operation.apply, addFieldMapping, Repository.addFieldMapping, bind_eq_ok,
        pure_eq_ok] at happly
      obtain ⟨_, -, _, -, rfl⟩ := happly
      exact h.of_sameMappings rfl
    | deleteFieldMapping fieldMappingId =>
      cases happly
      exact h.of_sameMappings rfl
    | validateSourceMapping now mappingId =>
      obtain ⟨⟨_, _⟩, hvalidated, rfl⟩ := map_eq_ok.1 happly
      obtain ⟨_, _, -, -, ⟨-, -, rfl⟩ | ⟨status, _, hverdict, -, rfl⟩⟩ :=
        validateSourceMapping_ok hvalidated
      · exact h.write fun hactive => by cases hactive
      · exact h.write (status_of_verdict hverdict).1
    | activateSourceMapping now mappingId => exact h.activate happly
    | _ => cases ho

/-- No run makes two mappings of a pair ACTIVE whose direct writes of ACTIVE find the pair free. -/
theorem singleActive_of_reached (hrun : Reached (Operation.apply env) Operation.ActivatesAlone
    Repository.empty r) : SingleActive r := by
  refine hrun.invariant ?_ fun _ _ _ h halone happly => singleActive_apply h halone happly
  exact fun m hm => absurd hm Table.not_mem_empty

/-- A registry with one source, whose schema is not asked for. -/
def oneSource : Environment where
  py := .ascii
  source? id := if id = "db" then some { id := "db", name := "db", type := .sqlite } else none
  physicalSchema _ := .error "unreachable"

/-- Two versions of a mapping of one model to one source. -/
def twoVersions : List Operation :=
  [.createModel "shop" 0 "Shop" "1.0.0" none [],
    .createSourceMapping "m1" 1 "shop" "db" "1.0.0" .validated .user [],
    .createSourceMapping "m2" 2 "shop" "db" "2.0.0" .validated .user []]

def activations : List Operation :=
  twoVersions ++ [.activateSourceMapping 3 "m1", .activateSourceMapping 4 "m2"]

def directWrites : List Operation :=
  twoVersions ++ [.updateSourceMapping 3 "m1" none (some .active) none none none,
    .updateSourceMapping 4 "m2" none (some .active) none none none]

theorem singleActive_activated : SingleActive
    (activations.foldl (attempt (Operation.apply oneSource)) Repository.empty) := by
  apply @singleActive_of_reached oneSource
  apply Reached.start.foldl
  simp [activations, twoVersions, Operation.ActivatesAlone]

/-- Both versions are VALIDATED and then written ACTIVE. -/
theorem not_singleActive_of_direct_writes : ¬ ∀ env r,
    Reached (Operation.apply env) (fun _ _ => True) Repository.empty r → SingleActive r := by
  intro h
  have hrun : Reached (Operation.apply oneSource) (fun _ _ => True) Repository.empty
      (directWrites.foldl (attempt (Operation.apply oneSource)) Repository.empty) :=
    Reached.start.foldl fun _ _ _ => trivial
  exact absurd (h oneSource _ hrun) (by decide)

end AltrStream.Registry
