import ContentStore.Proofs.Pairing.Edges
import ContentStore.Schema.Basic
import Mathlib.Data.List.Nodup

/-!
# Well paired schemas

Schemas are well paired if no two fields have one id and every two-way field
has its mirror on the schema it points into.  Then fields are known by their
ids, and the ids of the two ends of a pair (`Mates`) form a symmetric,
one-to-one relation (`WellPaired.mirrored`).
-/

namespace ContentStore

/-- The schema that a reference field points into. -/
def Field.into? (f : Field) : Option SchemaId := f.target?.map Prod.snd

/-- A two-way field is a reference. -/
theorem Field.kind_of_corresponding? {f : Field} {g : FieldId} (h : f.corresponding? = some g) :
    f.kind = .reference := by
  unfold corresponding? at h
  unfold kind
  split at h
  · rename_i htype
    rw [htype]
    rfl
  · cases h

/-- A field that points somewhere is a reference. -/
theorem Field.kind_of_target? {f : Field} {e : ModelId × SchemaId} (h : f.target? = some e) :
    f.kind = .reference := by
  unfold target? at h
  unfold kind
  split at h
  · rename_i htype
    rw [htype]
    rfl
  · cases h

theorem Schema.mem_referenceFields {s : Schema} {f : Field} :
    f ∈ s.referenceFields ↔ f ∈ s.fields ∧ f.kind = .reference := by
  simp [referenceFields, fieldsOfKind]

theorem Schema.mem_of_field? {s : Schema} {id : FieldId} {f : Field} (h : s.field? id = some f) :
    f ∈ s.fields ∧ f.id = id :=
  ⟨List.mem_of_find?_eq_some h, by simpa using List.find?_some h⟩

namespace Pairing

/-- Field ids are distinct, and two-way fields come in pairs. -/
structure WellPaired (schemas : List Schema) : Prop where
  schemas_distinct : (schemas.map Schema.id).Nodup
  fields_distinct : ∀ S ∈ schemas, (S.fields.map Field.id).Nodup
  fields_apart : ∀ S ∈ schemas, ∀ T ∈ schemas, ∀ F ∈ S.fields, ∀ G ∈ T.fields,
    F.id = G.id → S = T
  mirrored : ∀ S ∈ schemas, ∀ F ∈ S.fields, ∀ g, F.corresponding? = some g →
    ∃ T ∈ schemas, ∃ G ∈ T.fields, G.id = g ∧ F.into? = some T.id ∧
      G.corresponding? = some F.id ∧ G.into? = some S.id ∧ g ≠ F.id

/-- Two fields are the ends of one two-way reference. -/
def Mates (schemas : List Schema) (f g : FieldId) : Prop :=
  ∃ S ∈ schemas, ∃ F ∈ S.fields, F.id = f ∧ F.corresponding? = some g

namespace WellPaired

variable {schemas : List Schema}

/-- There is one schema of an id. -/
theorem schema_eq (h : WellPaired schemas) {S T : Schema} (hS : S ∈ schemas) (hT : T ∈ schemas)
    (hid : S.id = T.id) : S = T :=
  List.inj_on_of_nodup_map h.schemas_distinct hS hT hid

/-- A field is known by its id. -/
theorem field_eq (h : WellPaired schemas) {S T : Schema} {F G : Field} (hS : S ∈ schemas)
    (hT : T ∈ schemas) (hF : F ∈ S.fields) (hG : G ∈ T.fields) (hid : F.id = G.id) :
    S = T ∧ F = G := by
  obtain rfl := h.fields_apart S hS T hT F hF G hG hid
  exact ⟨rfl, List.inj_on_of_nodup_map (h.fields_distinct S hS) hF hG hid⟩

/-- A field of a schema is found by its id. -/
theorem field?_of_mem (h : WellPaired schemas) {S : Schema} {F : Field} (hS : S ∈ schemas)
    (hF : F ∈ S.fields) : S.field? F.id = some F := by
  have hsome : (S.field? F.id).isSome := by
    rw [Schema.field?, List.find?_isSome]
    exact ⟨F, hF, beq_self_eq_true F.id⟩
  obtain ⟨G, hG⟩ := Option.isSome_iff_exists.mp hsome
  obtain ⟨hmem, hid⟩ := Schema.mem_of_field? hG
  rw [hG, (h.field_eq hS hS hmem hF hid).2]

theorem referenceFields_distinct (h : WellPaired schemas) {S : Schema} (hS : S ∈ schemas) :
    (S.referenceFields.map Field.id).Nodup :=
  (h.fields_distinct S hS).sublist (List.filter_sublist.map _)

/-- The ends of two-way references match one to one. -/
theorem mirrored_mates (h : WellPaired schemas) : Mirrored (Mates schemas) where
  symm := by
    intro _ g hex
    obtain ⟨S, hS, F, hF, rfl, hg⟩ := hex
    obtain ⟨T, hT, G, hG, hid, -, hback, -, -⟩ := h.mirrored S hS F hF g hg
    exact ⟨T, hT, G, hG, hid, hback⟩
  unique := by
    intro _ g k hex hex'
    obtain ⟨S, hS, F, hF, rfl, hg⟩ := hex
    obtain ⟨T, hT, G, hG, hid, hk⟩ := hex'
    obtain ⟨-, rfl⟩ := h.field_eq hS hT hF hG hid.symm
    exact Option.some.inj (hg.symm.trans hk)
  ne := by
    intro _ g hex
    obtain ⟨S, hS, F, hF, rfl, hg⟩ := hex
    obtain ⟨-, -, -, -, -, -, -, -, hne⟩ := h.mirrored S hS F hF g hg
    exact hne.symm

end WellPaired

theorem mem_fields_of_mates {schemas : List Schema} (h : WellPaired schemas) {S : Schema}
    (hS : S ∈ schemas) {f g : FieldId} (hfg : Mates schemas f g) {F : Field} (hF : F ∈ S.fields)
    (hid : F.id = f) : F ∈ S.referenceFields ∧ F.corresponding? = some g := by
  obtain ⟨T, hT, G, hG, hGid, hg⟩ := hfg
  obtain ⟨rfl, rfl⟩ := h.field_eq hT hS hG hF (hGid.trans hid.symm)
  exact ⟨Schema.mem_referenceFields.mpr ⟨hG, Field.kind_of_corresponding? hg⟩, hg⟩

end Pairing

end ContentStore
