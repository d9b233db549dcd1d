import ContentStore.Proofs.Catalog.Models
import ContentStore.Storage.Packages

/-!
# Packages come from the tables

All that a package says about schemas, groups and the model is stored
(`Tables.Packed`).  Its item schema is one of the two schemas of its model; which
of them it is, the item that is written decides.
-/

namespace ContentStore

/-- Fields of the package that have one id are the same. -/
def Package.FieldsApart (p : Package) : Prop :=
  ∀ S ∈ p.itemSchemas, ∀ F ∈ S.fields, ∀ T ∈ p.itemSchemas, ∀ G ∈ T.fields, F.id = G.id → F = G

instance (p : Package) : Decidable p.FieldsApart :=
  inferInstanceAs (Decidable (∀ S ∈ p.itemSchemas, ∀ F ∈ S.fields, ∀ T ∈ p.itemSchemas,
    ∀ G ∈ T.fields, F.id = G.id → F = G))

/-- A field of the package is found by its id. -/
theorem Package.FieldsApart.field?_eq {p : Package} (h : p.FieldsApart) {S : Schema} {F : Field}
    (hS : S ∈ p.itemSchemas) (hF : F ∈ S.fields) : p.field? F.id = some F := by
  have hfound : (S.field? F.id).isSome :=
    List.find?_isSome.mpr ⟨F, hF, beq_self_eq_true F.id⟩
  have hsome : (p.field? F.id).isSome := List.findSome?_isSome_iff.mpr ⟨S, hS, hfound⟩
  obtain ⟨G, hG⟩ := Option.isSome_iff_exists.mp hsome
  obtain ⟨T, hT, hGT⟩ := List.exists_of_findSome?_eq_some hG
  obtain ⟨hmem, hid⟩ := Schema.mem_of_field? hGT
  rw [hG, h T hT G hmem S hS F hF hid]

namespace Tables

variable {t : Tables} {p q : Package}

/-- The rows of a package are stored, and its item schema belongs to its
model. -/
structure Packed (t : Tables) (p : Package) : Prop where
  model : p.model ∈ t.models
  schema : p.schema ∈ t.schemas
  own : p.schema.id ∈ p.model.schemas
  metadata : ∀ s, p.metadataSchema = some s → s ∈ t.schemas ∧ p.model.metadataSchema = some s.id
  groups : ∀ g ∈ p.groups, g.1 ∈ t.groups ∧ g.2 ∈ t.schemas ∧ g.2.id = g.1.schema

theorem mem_of_group {id : GroupId} {g : Group} (h : t.group id = .ok g) :
    g ∈ t.groups ∧ g.id = id := by
  unfold group group? at h
  split at h
  · rename_i g' hg'
    cases h
    exact ⟨List.mem_of_find?_eq_some hg', by simpa using List.find?_some hg'⟩
  · cases h

theorem mem_of_loadGroups {fuel : Nat} {stack : List GroupId}
    {loaded groups : List (Group × Schema)}
    (hloaded : ∀ g ∈ loaded, g.1 ∈ t.groups ∧ g.2 ∈ t.schemas ∧ g.2.id = g.1.schema)
    (h : t.loadGroups fuel stack loaded = .ok groups) :
    ∀ g ∈ groups, g.1 ∈ t.groups ∧ g.2 ∈ t.schemas ∧ g.2.id = g.1.schema := by
  induction fuel generalizing stack loaded with
  | zero =>
    cases h
    exact hloaded
  | succ fuel ih =>
    cases stack with
    | nil =>
      cases h
      exact hloaded
    | cons id stack =>
      rw [loadGroups] at h
      split at h
      · exact ih hloaded h
      · obtain ⟨g, hg, h⟩ := bind_eq_ok.mp h
        obtain ⟨s, hs, h⟩ := bind_eq_ok.mp h
        obtain ⟨hmem, hid⟩ := mem_of_schema hs
        refine ih (fun e he => ?_) h
        rcases List.mem_append.mp he with he | he
        · exact hloaded e he
        · rw [List.mem_singleton.mp he]
          exact ⟨(mem_of_group hg).1, hmem, hid⟩

/-- The package of a model. -/
theorem packed_package {id : ModelId} (h : t.package id = .ok p) :
    Packed t p ∧ p.model.id = id ∧ p.schema.id = p.model.schema := by
  unfold package at h
  obtain ⟨M, hM, h⟩ := bind_eq_ok.mp h
  obtain ⟨S, hS, h⟩ := bind_eq_ok.mp h
  obtain ⟨metadata, hmetadata, h⟩ := bind_eq_ok.mp h
  obtain ⟨groups, hgroups, h⟩ := bind_eq_ok.mp h
  obtain ⟨referenced, -, h⟩ := bind_eq_ok.mp h
  cases h
  obtain ⟨hmodel, hid⟩ := mem_of_model hM
  obtain ⟨hschema, hsid⟩ := mem_of_schema hS
  refine ⟨⟨hmodel, hschema, ?_, ?_, ?_⟩, hid, hsid⟩
  · rw [hsid]
    exact List.mem_cons_self
  · intro s heq
    subst heq
    cases hm : M.metadataSchema with
    | none =>
      rw [hm] at hmetadata
      cases hmetadata
    | some sid =>
      rw [hm] at hmetadata
      change (t.schema sid).map some = _ at hmetadata
      obtain ⟨s', hs', heq⟩ := map_eq_ok.mp hmetadata
      cases heq
      obtain ⟨hmem, heq⟩ := mem_of_schema hs'
      exact ⟨hmem, by rw [heq]⟩
  · exact mem_of_loadGroups (fun _ hg => (List.not_mem_nil hg).elim) hgroups

/-- The package of metadata items is that of their model with their own schema. -/
theorem metadataPackage_eq_ok (h : metadataPackage q = .ok p) :
    ∃ S, q.metadataSchema = some S ∧ p = { q with schema := S, metadataSchema := none } := by
  unfold metadataPackage Package.metadata? at h
  cases hm : q.metadataSchema with
  | none =>
    rw [hm] at h
    cases h
  | some S =>
    rw [hm] at h
    cases h
    exact ⟨S, rfl, rfl⟩

theorem packed_metadataPackage (hq : Packed t q) (h : metadataPackage q = .ok p) :
    Packed t p ∧ p.model = q.model ∧ p.model.metadataSchema = some p.schema.id := by
  obtain ⟨S, hS, rfl⟩ := metadataPackage_eq_ok h
  obtain ⟨hmem, hs⟩ := hq.metadata S hS
  refine ⟨⟨hq.model, hmem, ?_, (fun _ h => nomatch h), hq.groups⟩, rfl, hs⟩
  show S.id ∈ q.model.schema :: q.model.metadataSchema.toList
  rw [hs]
  exact List.mem_cons_of_mem _ List.mem_cons_self

/-- The package by which an item is written is that of its model, or of the metadata items of
the model. -/
theorem itemPackage_eq_ok {it : Item} (h : t.itemPackage it = .ok p) :
    ∃ q, t.package it.model = .ok q ∧
      (q.schema.id = it.schema ∧ q = p ∨ q.schema.id ≠ it.schema ∧ metadataPackage q = .ok p) := by
  unfold itemPackage at h
  obtain ⟨q, hq, h⟩ := bind_eq_ok.mp h
  split at h
  · rename_i hsame
    cases h
    exact ⟨p, hq, .inl ⟨hsame, rfl⟩⟩
  · rename_i hother
    exact ⟨q, hq, .inr ⟨hother, h⟩⟩

/-- It follows the schema of the item. -/
theorem packed_itemPackage {it : Item} (h : t.itemPackage it = .ok p) :
    Packed t p ∧ p.model.id = it.model ∧
      ((∃ M ∈ t.models, M.id = it.model ∧ it.schema ∈ M.schemas) →
        (t.models.map Model.id).Nodup → p.schema.id = it.schema) := by
  obtain ⟨q, hq, hcases⟩ := itemPackage_eq_ok h
  obtain ⟨hpacked, hmodel, hschema⟩ := packed_package hq
  rcases hcases with ⟨hsame, rfl⟩ | ⟨hother, hmetadata⟩
  · exact ⟨hpacked, hmodel, fun _ _ => hsame⟩
  · obtain ⟨hpacked', hmodel', hmeta⟩ := packed_metadataPackage hpacked hmetadata
    refine ⟨hpacked', by rw [hmodel', hmodel], ?_⟩
    intro hex hdistinct
    obtain ⟨M, hM, hid, hown⟩ := hex
    -- the schema is one of two, and not that of items
    obtain rfl := List.inj_on_of_nodup_map hdistinct hM hpacked.model (hid.trans hmodel.symm)
    rw [hmodel'] at hmeta
    unfold Model.schemas at hown
    rw [hmeta, ← hschema] at hown
    rcases List.mem_cons.mp hown with heq | hown
    · exact (hother heq.symm).elim
    · exact (List.mem_singleton.mp hown).symm

/-- The metadata items of an item follow another schema than the item does. -/
theorem metadata_ne_of_itemPackage {n : Nat} {it : Item} (hw : Wired n t)
    (h : t.itemPackage it = .ok p) {S : Schema} (hS : p.metadataSchema = some S) :
    it.schema ≠ S.id := by
  obtain ⟨q, hq, ⟨hsame, rfl⟩ | ⟨-, hmetadata⟩⟩ := itemPackage_eq_ok h
  · obtain ⟨hpacked, -, hschema⟩ := packed_package hq
    have hnodup := hw.schemas_nodup hpacked.model
    unfold Model.schemas at hnodup
    rw [(hpacked.metadata S hS).2, Option.toList_some, List.nodup_cons, List.mem_singleton,
      ← hschema, hsame] at hnodup
    exact hnodup.1
  · obtain ⟨T, -, rfl⟩ := metadataPackage_eq_ok hmetadata
    cases hS

/-! ## Fields of a package -/

/-- The schemas of fields that items may hold are stored. -/
theorem Packed.itemSchemas (hp : Packed t p) : ∀ s ∈ p.itemSchemas, s ∈ t.schemas := by
  intro s hs
  unfold Package.itemSchemas at hs
  rcases List.mem_cons.mp hs with rfl | hs
  · exact hp.schema
  · rcases List.mem_append.mp hs with hs | hs
    · exact (hp.metadata s (by simpa using hs)).1
    · obtain ⟨g, hg, rfl⟩ := List.mem_map.mp hs
      exact (hp.groups g hg).2.1

/-- The fields of a package differ in their ids. -/
theorem Packed.fieldsApart {n : Nat} (hp : Packed t p) (hw : Wired n t) : p.FieldsApart :=
  fun S hS _ hF T hT _ hG hid =>
    (hw.wellPaired.field_eq (hp.itemSchemas S hS) (hp.itemSchemas T hT) hF hG hid).2

theorem Packed.field?_eq {n : Nat} (hp : Packed t p) (hw : Wired n t) {S : Schema} {F : Field}
    (hS : S ∈ p.itemSchemas) (hF : F ∈ S.fields) : p.field? F.id = some F :=
  (hp.fieldsApart hw).field?_eq hS hF

end Tables

end ContentStore
