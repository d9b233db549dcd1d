import ContentStore.Proofs.Catalog.Loading
import ContentStore.Proofs.Catalog.Targets
import ContentStore.Store.Items

/-!
# Packages are closed

Whoever reads or writes items of a stored model needs the schemas of the model,
those of all groups embedded in them, and those that references in any of these
point into.  All of them are stored, so the package of the model is there, and it
is closed: nothing that its fields name is missing in it (`exists_package`).  The
other end of a two-way reference is found in the schema that the reference points
into, for the package of the model and for that of its metadata items
(`Closed.findsMirrors`).
-/

namespace ContentStore

/-- The other end of each two-way field of items is found in the package. -/
def Package.FindsMirrors (p : Package) : Prop :=
  ∀ F ∈ p.schema.fields, ∀ g, F.corresponding? = some g →
    ∃ T G, Write.targetSchema p F = some T ∧ T.field? g = some G

namespace Tables

variable {n : Nat} {t : Tables} {p q : Package}

/-- The package holds its model's schemas as they are stored, just the groups embedded in
these at some depth, and whatever its references point into. -/
structure Closed (t : Tables) (p : Package) : Prop where
  schema : t.schema? p.model.schema = some p.schema
  metadata : p.metadataSchema.map Schema.id = p.model.metadataSchema
  metadata_stored : ∀ S, p.metadataSchema = some S → t.schema? S.id = some S
  groups_distinct : (p.groups.map fun g => g.1.id).Nodup
  groups_embedded : ∀ g, g ∈ p.groups.map (fun g => g.1.id) ↔
    t.Embedded (p.schema :: p.metadataSchema.toList) g
  groups_stored : ∀ g ∈ p.groups, t.group? g.1.id = some g.1 ∧ t.schema? g.1.schema = some g.2
  targets : ∀ S ∈ p.itemSchemas, ∀ F ∈ S.fields, ∀ m s, F.target? = some (m, s) →
    ∃ T, p.referencedSchema? s = some T ∧ t.schema? s = some T ∧
      ∀ g, F.corresponding? = some g → ∃ G, T.field? g = some G ∧ G.corresponding? = some F.id

/-! ## The package of a model -/

/-- A schema in use is found. -/
theorem Wired.exists_schema? (hw : Wired n t) {s : SchemaId} (hs : s ∈ t.used) :
    ∃ S, t.schema? s = some S := by
  obtain ⟨S, hS, rfl⟩ := hw.used_stored s hs
  exact ⟨S, hw.schema?_of_mem hS⟩

theorem mem_referenceTargets {S : Schema} {s : SchemaId} :
    s ∈ referenceTargets S ↔ ∃ F ∈ S.fields, ∃ m, F.target? = some (m, s) := by
  simp only [referenceTargets, List.mem_filterMap, Schema.mem_referenceFields,
    Option.map_eq_some_iff, Prod.exists]
  constructor
  · rintro ⟨F, ⟨hF, -⟩, m, _, htarget, rfl⟩
    exact ⟨F, hF, m, htarget⟩
  · rintro ⟨F, hF, m, htarget⟩
    exact ⟨F, ⟨hF, Field.kind_of_target? htarget⟩, m, s, htarget, rfl⟩

/-- The metadata schema is found, if the model has one. -/
theorem exists_metadataSchema (hw : Wired n t) {M : Model} (hM : M ∈ t.models) :
    ∃ metadata, M.metadataSchema.mapM t.schema = .ok metadata ∧
      metadata.map Schema.id = M.metadataSchema ∧
      ∀ S, metadata = some S → t.schema? S.id = some S := by
  cases hmetadata : M.metadataSchema with
  | none => exact ⟨none, rfl, rfl, fun _ h => nomatch h⟩
  | some s =>
    have hown : s ∈ M.schemas := by
      rw [Model.schemas, hmetadata]
      exact List.mem_cons_of_mem _ List.mem_cons_self
    obtain ⟨S, hS⟩ := hw.exists_schema? (mem_used.mpr (.inl ⟨M, hM, hown⟩))
    have hid : S.id = s := (mem_of_schema (schema_eq_ok.mpr hS)).2
    refine ⟨some S, ?_, congrArg some hid, ?_⟩
    · change (t.schema s).map some = _
      rw [schema_eq_ok.mpr hS]
      rfl
    · rintro _ ⟨⟩
      exact hid ▸ hS

/-- A reference of a stored schema points into a stored schema, in which the other end of the
reference is found if it has one. -/
theorem exists_target (hw : Wired n t) (ht : t.Targeted) {S : Schema} (hS : S ∈ t.schemas)
    {F : Field} (hF : F ∈ S.fields) {m : ModelId} {s : SchemaId}
    (htarget : F.target? = some (m, s)) :
    ∃ T, t.schema? s = some T ∧
      ∀ g, F.corresponding? = some g → ∃ G, T.field? g = some G ∧ G.corresponding? = some F.id := by
  obtain ⟨M, hM, -, rfl⟩ := ht S hS F hF m s htarget
  obtain ⟨T, hT⟩ := hw.exists_schema? (mem_used.mpr (.inl ⟨M, hM, List.mem_cons_self⟩))
  obtain ⟨hmem, hid⟩ := mem_of_schema (schema_eq_ok.mpr hT)
  refine ⟨T, hT, fun g hg => ?_⟩
  obtain ⟨T', hT', G, hG, rfl, hinto, hback, -, -⟩ := hw.wellPaired.mirrored S hS F hF g hg
  rw [Field.into?, htarget] at hinto
  obtain rfl : T' = T := hw.schema_eq hT' hmem ((Option.some.inj hinto).symm.trans hid.symm)
  exact ⟨G, hw.wellPaired.field?_of_mem hT' hG, hback⟩

/-- **Every stored model has a package, and it is closed.** -/
theorem exists_package (hw : Wired n t) (hn : Nested n t) (ht : t.Targeted) {M : Model}
    (hM : M ∈ t.models) : ∃ p, t.package M.id = .ok p ∧ p.model = M ∧ t.Closed p := by
  have hmodel : t.model M.id = .ok M := by
    rw [model, hw.model?_of_mem hM]
  obtain ⟨S, hS⟩ := hw.exists_schema? (mem_used.mpr (.inl ⟨M, hM, List.mem_cons_self⟩))
  obtain ⟨metadata, hmetadata, hmetadataId, hmetadataStored⟩ := exists_metadataSchema hw hM
  have hown : ∀ T ∈ S :: metadata.toList, T ∈ t.schemas := by
    intro T hT
    rcases List.mem_cons.mp hT with rfl | hT
    · exact (mem_of_schema (schema_eq_ok.mpr hS)).1
    · exact (mem_of_schema (schema_eq_ok.mpr (hmetadataStored T (by simpa using hT)))).1
  obtain ⟨groups, hgroups, hdistinct, hembedded⟩ := exists_embeddedGroups hn hw hown
  have hstored := mem_of_loadGroups (fun _ hg => (List.not_mem_nil hg).elim) hgroups
  have hall : ∀ T ∈ (S :: metadata.toList) ++ groups.map Prod.snd, T ∈ t.schemas := by
    intro T hT
    rcases List.mem_append.mp hT with hT | hT
    · exact hown T hT
    · obtain ⟨g, hg, rfl⟩ := List.mem_map.mp hT
      exact (hstored g hg).2.1
  have htargets : ∀ s ∈ ((S :: metadata.toList) ++ groups.map Prod.snd).flatMap referenceTargets,
      ∃ T, t.schema? s = some T := by
    intro s hs
    obtain ⟨T, hT, hs⟩ := List.mem_flatMap.mp hs
    obtain ⟨F, hF, m, htarget⟩ := mem_referenceTargets.mp hs
    obtain ⟨T', hT', -⟩ := exists_target hw ht (hall T hT) hF htarget
    exact ⟨T', hT'⟩
  obtain ⟨referenced, hreferenced, hfound, -, hloaded⟩ := exists_loadReferenced
    (hw.schema?_of_mem (hown S List.mem_cons_self)) htargets fun _ hT => (List.not_mem_nil hT).elim
  refine ⟨⟨M, S, metadata, groups, referenced⟩, ?_, rfl, ?closed⟩
  · simp only [package, hmodel, schema_eq_ok.mpr hS, hmetadata, hgroups, hreferenced, bind,
      Except.bind, pure, Except.pure]
  case closed =>
    refine ⟨hS, hmetadataId, hmetadataStored, hdistinct, hembedded, fun g hg => ?_, ?_⟩
    · obtain ⟨hG, hT, hid⟩ := hstored g hg
      exact ⟨hn.group?_of_mem hG, hid ▸ hw.schema?_of_mem hT⟩
    · intro T hT F hF m s htarget
      obtain ⟨T', hT', hmirror⟩ := exists_target hw ht (hall T hT) hF htarget
      obtain ⟨R, hR, hid⟩ := hloaded s (List.mem_flatMap.mpr
        ⟨T, hT, mem_referenceTargets.mpr ⟨F, hF, m, htarget⟩⟩)
      have hsome : (referenced.find? fun R => R.id == s).isSome :=
        List.find?_isSome.mpr ⟨R, hR, beq_iff_eq.mpr hid⟩
      obtain ⟨R', hR'⟩ := Option.isSome_iff_exists.mp hsome
      have hid' : R'.id = s := by simpa using List.find?_some hR'
      have hR'T := hfound R' (List.mem_of_find?_eq_some hR')
      rw [hid', hT'] at hR'T
      exact ⟨T', hR'.trans hR'T.symm, hT', hmirror⟩

/-! ## The other ends -/

/-- A closed package has the other ends of two-way fields, and so has that of the metadata
items. -/
theorem Closed.findsMirrors (h : t.Closed p) (hq : q = p ∨ metadataPackage p = .ok q) :
    q.FindsMirrors := by
  intro F hF g hg
  obtain ⟨e, he, rfl⟩ := Field.farEnd?_of_corresponding? hg
  have htarget := (Field.farEnd?_eq_some.mp he).2
  -- metadata items are read with the same schemas
  have hsame : q.schema ∈ p.itemSchemas ∧ q.referenced = p.referenced := by
    rcases hq with rfl | hq
    · exact ⟨List.mem_cons_self, rfl⟩
    · obtain ⟨S, hS, rfl⟩ := metadataPackage_eq_ok hq
      refine ⟨List.mem_append_left _ (List.mem_cons_of_mem _ ?_), rfl⟩
      simp [hS]
  obtain ⟨T, hT, -, hmirror⟩ := h.targets q.schema hsame.1 F hF e.model e.schema htarget
  obtain ⟨G, hG, -⟩ := hmirror e.field hg
  refine ⟨T, G, ?_, hG⟩
  rw [Write.targetSchema, htarget, Option.bind_some, Package.referencedSchema?, hsame.2]
  exact hT

end Tables

end ContentStore
