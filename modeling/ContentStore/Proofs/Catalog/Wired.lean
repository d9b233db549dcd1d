import ContentStore.Proofs.Catalog.Ties
import ContentStore.Proofs.Identifiers
import ContentStore.Storage.Tables

/-!
# Wired catalogs

What the catalog operations keep true of the stored schemas, models and groups:
schemas and fields have ids of their own, no schema is used twice by models and
groups, and two-way fields come in pairs between item schemas of models
(`Tables.Wired`).  It is stated by the ties that stored schemas declare
(`Declares`), so that changes that leave the ties alone keep it at once
(`Wired.of_alike`).
-/

namespace ContentStore

/-- The schemas of a model. -/
def Model.schemas (m : Model) : List SchemaId := m.schema :: m.metadataSchema.toList

namespace Tables

/-- A stored schema declares the field with the other end, or with none. -/
def Declares (t : Tables) (s : SchemaId) (f : FieldId) (e : Option FarEnd) : Prop :=
  ∃ S ∈ t.schemas, S.id = s ∧ (f, e) ∈ S.ties

/-- The items of a stored model follow the schema. -/
def Hosts (t : Tables) (m : ModelId) (s : SchemaId) : Prop :=
  ∃ M ∈ t.models, M.id = m ∧ M.schema = s

/-- The schemas that models and groups use. -/
def used (t : Tables) : List SchemaId :=
  t.models.flatMap Model.schemas ++ t.groups.map Group.schema

/-- Ids are distinct and were made from numbers below `n`, and two-way fields
come in pairs. -/
structure Wired (n : Nat) (t : Tables) : Prop where
  schemas_distinct : (t.schemas.map Schema.id).Nodup
  schemas_given : ∀ S ∈ t.schemas, S.id.Given n
  fields_distinct : ∀ S ∈ t.schemas, (S.fields.map Field.id).Nodup
  fields_apart : ∀ {s s' f e e'}, t.Declares s f e → t.Declares s' f e' → s = s'
  fields_given : ∀ {s f e}, t.Declares s f e → f.Given n
  mated : ∀ {s f e}, t.Declares s f (some e) → e.field ≠ f ∧ t.Hosts e.model e.schema ∧
    ∃ e', t.Declares e.schema e.field (some e') ∧ e'.schema = s ∧ e'.field = f
  models_distinct : (t.models.map Model.id).Nodup
  models_given : ∀ M ∈ t.models, M.id.Given n
  used_distinct : t.used.Nodup
  used_stored : ∀ s ∈ t.used, ∃ S ∈ t.schemas, S.id = s

/-- Without tables there is nothing to be wired. -/
theorem wired_empty (n : Nat) : Wired n empty where
  schemas_distinct := List.nodup_nil
  schemas_given := fun _ h => (List.not_mem_nil h).elim
  fields_distinct := fun _ h => (List.not_mem_nil h).elim
  fields_apart := fun ⟨_, h, _⟩ => (List.not_mem_nil h).elim
  fields_given := fun ⟨_, h, _⟩ => (List.not_mem_nil h).elim
  mated := fun ⟨_, h, _⟩ => (List.not_mem_nil h).elim
  models_distinct := List.nodup_nil
  models_given := fun _ h => (List.not_mem_nil h).elim
  used_distinct := List.nodup_nil
  used_stored := fun _ h => (List.not_mem_nil h).elim

/-! ## Stored rows -/

/-- Saving a schema puts it in the place of the one with its id. -/
theorem mem_saveSchema {t : Tables} {S S' : Schema} :
    S' ∈ (t.saveSchema S).schemas ↔ S' = S ∨ S' ∈ t.schemas ∧ S'.id ≠ S.id := by
  simp only [saveSchema, saveRow, List.mem_append, List.mem_filter, List.mem_singleton]
  constructor
  · intro hcase
    rcases hcase with ⟨hmem, hne⟩ | heq
    · exact .inr ⟨hmem, fun h => by simp [h] at hne⟩
    · exact .inl heq
  · intro hcase
    rcases hcase with heq | ⟨hmem, hne⟩
    · exact .inr heq
    · exact .inl ⟨hmem, by simpa using fun h : S.id = S'.id => hne h.symm⟩

/-- What a saved schema declares is declared, and what the others declare. -/
theorem declares_saveSchema {t : Tables} {S : Schema} {s : SchemaId} {f : FieldId}
    {e : Option FarEnd} :
    (t.saveSchema S).Declares s f e ↔
      s = S.id ∧ (f, e) ∈ S.ties ∨ s ≠ S.id ∧ t.Declares s f e := by
  unfold Declares
  constructor
  · intro hex
    obtain ⟨S', hS', rfl, htie⟩ := hex
    rcases mem_saveSchema.mp hS' with rfl | ⟨hmem, hne⟩
    · exact .inl ⟨rfl, htie⟩
    · exact .inr ⟨hne, S', hmem, rfl, htie⟩
  · intro hcase
    rcases hcase with ⟨rfl, htie⟩ | ⟨hne, S', hmem, rfl, htie⟩
    · exact ⟨S, mem_saveSchema.mpr (.inl rfl), rfl, htie⟩
    · exact ⟨S', mem_saveSchema.mpr (.inr ⟨hmem, hne⟩), rfl, htie⟩

/-- Saving a schema doubles no id. -/
theorem schemas_distinct_saveSchema {t : Tables} (h : (t.schemas.map Schema.id).Nodup)
    (S : Schema) : ((t.saveSchema S).schemas.map Schema.id).Nodup := by
  simp only [saveSchema, saveRow, List.map_append, List.map_cons, List.map_nil]
  rw [List.nodup_append]
  refine ⟨h.sublist (List.filter_sublist.map _), by simp, ?_⟩
  intro a ha b hb
  obtain ⟨S', hS', rfl⟩ := List.mem_map.mp ha
  rw [List.mem_singleton.mp hb]
  intro heq
  have hne := (List.mem_filter.mp hS').2
  simp [heq] at hne

/-- A schema that is found is stored under this id. -/
theorem mem_of_schema {t : Tables} {s : SchemaId} {S : Schema} (h : t.schema s = .ok S) :
    S ∈ t.schemas ∧ S.id = s := by
  unfold schema schema? at h
  split at h
  · rename_i S' hS'
    cases h
    exact ⟨List.mem_of_find?_eq_some hS', by simpa using List.find?_some hS'⟩
  · cases h

/-- A model that is found is stored under this id. -/
theorem mem_of_model {t : Tables} {m : ModelId} {M : Model} (h : t.model m = .ok M) :
    M ∈ t.models ∧ M.id = m := by
  unfold model model? at h
  split at h
  · rename_i M' hM'
    cases h
    exact ⟨List.mem_of_find?_eq_some hM', by simpa using List.find?_some hM'⟩
  · cases h

/-! ## What the invariant says -/

namespace Wired

variable {n m : Nat} {t u : Tables}

/-- Wired tables stay so when more numbers are given out. -/
theorem mono (h : Wired n t) (hle : n ≤ m) : Wired m t :=
  { h with
    schemas_given := fun S hS => (h.schemas_given S hS).mono hle
    fields_given := fun hd => (h.fields_given hd).mono hle
    models_given := fun M hM => (h.models_given M hM).mono hle }

/-- Tables of the same catalog are wired together. -/
theorem congr (h : Wired n t) (hle : n ≤ m) (hschemas : u.schemas = t.schemas)
    (hmodels : u.models = t.models) (hgroups : u.groups = t.groups) : Wired m u := by
  cases t
  cases u
  subst hschemas hmodels hgroups
  exact { h.mono hle with mated := (h.mono hle).mated }

/-- There is one schema of an id. -/
theorem schema_eq (h : Wired n t) {S T : Schema} (hS : S ∈ t.schemas) (hT : T ∈ t.schemas)
    (hid : S.id = T.id) : S = T :=
  List.inj_on_of_nodup_map h.schemas_distinct hS hT hid

/-- A stored schema is found under its id. -/
theorem schema?_of_mem (h : Wired n t) {S : Schema} (hS : S ∈ t.schemas) :
    t.schema? S.id = some S :=
  find?_of_nodup h.schemas_distinct hS

/-- A stored model is found by its id. -/
theorem model?_of_mem (h : Wired n t) {M : Model} (hM : M ∈ t.models) :
    t.model? M.id = some M :=
  find?_of_nodup h.models_distinct hM

/-- What a stored schema declares is what is tied in it. -/
theorem declares_iff (h : Wired n t) {S : Schema} (hS : S ∈ t.schemas) {f : FieldId}
    {e : Option FarEnd} : t.Declares S.id f e ↔ (f, e) ∈ S.ties := by
  constructor
  · intro hex
    obtain ⟨S', hS', hid, htie⟩ := hex
    rwa [h.schema_eq hS' hS hid] at htie
  · intro htie
    exact ⟨S, hS, rfl, htie⟩

/-- A field has one tie. -/
theorem tie_eq (h : Wired n t) {s s' : SchemaId} {f : FieldId} {e e' : Option FarEnd}
    (hd : t.Declares s f e) (hd' : t.Declares s' f e') : s = s' ∧ e = e' := by
  obtain rfl := h.fields_apart hd hd'
  obtain ⟨S, hS, rfl, htie⟩ := hd
  rw [h.declares_iff hS] at hd'
  have hdistinct : (S.ties.map Prod.fst).Nodup := by
    rw [Schema.map_fst_ties]
    exact h.fields_distinct S hS
  have := List.inj_on_of_nodup_map hdistinct htie hd' rfl
  exact ⟨rfl, congrArg Prod.snd this⟩

/-- A field of a stored schema is declared with its other end. -/
theorem declares_of_mem {S : Schema} {F : Field} (hS : S ∈ t.schemas) (hF : F ∈ S.fields) :
    t.Declares S.id F.id F.farEnd? :=
  ⟨S, hS, rfl, Schema.mem_ties.mpr ⟨F, hF, rfl, rfl⟩⟩

/-- Stored schemas are well paired. -/
theorem wellPaired (h : Wired n t) : Pairing.WellPaired t.schemas where
  schemas_distinct := h.schemas_distinct
  fields_distinct := h.fields_distinct
  fields_apart := by
    intro S hS T hT F hF G hG hid
    have hd := declares_of_mem hS hF
    rw [hid] at hd
    exact h.schema_eq hS hT (h.fields_apart hd (declares_of_mem hT hG))
  mirrored := by
    intro S hS F hF g hg
    obtain ⟨e, he, rfl⟩ := Field.farEnd?_of_corresponding? hg
    have hd := declares_of_mem hS hF
    rw [he] at hd
    obtain ⟨hne, -, e', ⟨T, hT, hTid, htie⟩, hschema, hfield⟩ := h.mated hd
    obtain ⟨G, hG, hGid, hGe⟩ := Schema.mem_ties.mp htie
    obtain ⟨hGg, hGt⟩ := Field.farEnd?_eq_some.mp hGe
    refine ⟨T, hT, G, hG, hGid, ?_, by rw [hGg, hfield], ?_, hne⟩
    · rw [Field.into?, (Field.farEnd?_eq_some.mp he).2, hTid]
      rfl
    · rw [Field.into?, hGt, ← hschema]
      rfl

end Wired

/-! ## Changes that leave the ties alone -/

/-- Stored schemas differ in nothing that counts for pairing, and nothing else
differs. -/
structure Alike (t u : Tables) : Prop where
  rest : u = { t with schemas := u.schemas }
  distinct : (t.schemas.map Schema.id).Nodup → (u.schemas.map Schema.id).Nodup
  forth : ∀ S ∈ t.schemas, ∃ S' ∈ u.schemas, S.Alike S'
  back : ∀ S' ∈ u.schemas, ∃ S ∈ t.schemas, S.Alike S'

namespace Alike

variable {t u v : Tables}

/-- Tables are like themselves. -/
theorem refl (t : Tables) : t.Alike t :=
  ⟨rfl, id, fun S hS => ⟨S, hS, .refl S⟩, fun S hS => ⟨S, hS, .refl S⟩⟩

/-- What is like the like is alike. -/
theorem trans (h : t.Alike u) (h' : u.Alike v) : t.Alike v where
  rest := by rw [h'.rest, h.rest]
  distinct := fun hd => h'.distinct (h.distinct hd)
  forth := fun S hS => by
    obtain ⟨S', hS', ha⟩ := h.forth S hS
    obtain ⟨S'', hS'', ha'⟩ := h'.forth S' hS'
    exact ⟨S'', hS'', ha.trans ha'⟩
  back := fun S hS => by
    obtain ⟨S', hS', ha⟩ := h'.back S hS
    obtain ⟨S'', hS'', ha'⟩ := h.back S' hS'
    exact ⟨S'', hS'', ha'.trans ha⟩

/-- Saving a stored schema after a change that leaves its ties alone. -/
theorem saveSchema (hd : (t.schemas.map Schema.id).Nodup) {S S' : Schema} (hS : S ∈ t.schemas)
    (ha : S.Alike S') : t.Alike (t.saveSchema S') where
  rest := rfl
  distinct := fun hd => schemas_distinct_saveSchema hd S'
  forth := fun T hT => by
    by_cases hid : T.id = S'.id
    · rw [List.inj_on_of_nodup_map hd hT hS (hid.trans ha.id)]
      exact ⟨S', mem_saveSchema.mpr (.inl rfl), ha⟩
    · exact ⟨T, mem_saveSchema.mpr (.inr ⟨hT, hid⟩), .refl T⟩
  back := fun T hT => by
    rcases mem_saveSchema.mp hT with rfl | ⟨hmem, -⟩
    · exact ⟨S, hS, ha⟩
    · exact ⟨T, hmem, .refl T⟩

/-- Tables that are alike declare the same. -/
theorem declares_iff (h : t.Alike u) {s : SchemaId} {f : FieldId} {e : Option FarEnd} :
    u.Declares s f e ↔ t.Declares s f e := by
  constructor
  · intro hex
    obtain ⟨S', hS', rfl, htie⟩ := hex
    obtain ⟨S, hS, ha⟩ := h.back S' hS'
    exact ⟨S, hS, ha.id.symm, ha.ties.subset htie⟩
  · intro hex
    obtain ⟨S, hS, rfl, htie⟩ := hex
    obtain ⟨S', hS', ha⟩ := h.forth S hS
    exact ⟨S', hS', ha.id, ha.ties.symm.subset htie⟩

end Alike

/-- **A catalog stays wired if its ties stay.** -/
theorem Wired.of_alike {n : Nat} {t u : Tables} (h : Wired n t) (ha : t.Alike u) : Wired n u := by
  have hmodels : u.models = t.models := by rw [ha.rest]
  have hused : u.used = t.used := by rw [ha.rest]; rfl
  constructor
  case schemas_distinct => exact ha.distinct h.schemas_distinct
  case schemas_given =>
    intro S' hS'
    obtain ⟨S, hS, hSS'⟩ := ha.back S' hS'
    rw [hSS'.id]
    exact h.schemas_given S hS
  case fields_distinct =>
    intro S' hS'
    obtain ⟨S, hS, hSS'⟩ := ha.back S' hS'
    have hd := h.fields_distinct S hS
    rw [← Schema.map_fst_ties] at hd ⊢
    exact (hSS'.ties.map Prod.fst).nodup_iff.mpr hd
  case fields_apart =>
    intro s s' f e e' hd hd'
    exact h.fields_apart (ha.declares_iff.mp hd) (ha.declares_iff.mp hd')
  case fields_given =>
    intro s f e hd
    exact h.fields_given (ha.declares_iff.mp hd)
  case mated =>
    intro s f e hd
    obtain ⟨hne, hhost, e', hd', hback⟩ := h.mated (ha.declares_iff.mp hd)
    exact ⟨hne, by rw [Hosts, hmodels]; exact hhost, e', ha.declares_iff.mpr hd', hback⟩
  case models_distinct =>
    rw [hmodels]
    exact h.models_distinct
  case models_given =>
    rw [hmodels]
    exact h.models_given
  case used_distinct =>
    rw [hused]
    exact h.used_distinct
  case used_stored =>
    intro s hs
    rw [hused] at hs
    obtain ⟨S, hS, rfl⟩ := h.used_stored s hs
    obtain ⟨S', hS', hSS'⟩ := ha.forth S hS
    exact ⟨S', hS', hSS'.id⟩

end Tables

end ContentStore
