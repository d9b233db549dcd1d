import ContentStore.Proofs.Catalog.Rewriting
import ContentStore.Proofs.Catalog.Zones

/-!
# References point at stored models

When a reference field is created, and whenever the type of one is changed, the
model it points at is looked up, and the schema has to be that of the model's
items.  Nothing removes a model or gives it another schema.  So in every
reachable store all references, be they one-way or two-way and of items or of
groups, point at a stored model and the schema of its items
(`Tables.lasting_targeted`).
-/

namespace ContentStore

namespace Tables

variable {t u : Tables} {S S' : Schema}

/-- All reference fields point at stored models. -/
def Targeted (t : Tables) : Prop := ∀ S ∈ t.schemas, ∀ F ∈ S.fields, t.Aims F

theorem Aims.congr {f g : Field} (h : t.Aims f) (htarget : g.target? = f.target?) : t.Aims g :=
  fun m s hg => h m s (htarget ▸ hg)

/-- Where a field points is part of its shape. -/
theorem Aims.of_shape {f g : Field} (h : t.Aims f) (hshape : f.shape = g.shape) : t.Aims g := by
  refine h.congr ?_
  unfold Field.target?
  rw [show g.type = f.type from (congrArg Shape.type hshape).symm]

theorem Aims.mono {f : Field} (h : t.Aims f) (hmodels : ∀ M ∈ t.models, M ∈ u.models) :
    u.Aims f := by
  intro m s hf
  obtain ⟨M, hM, hid, hschema⟩ := h m s hf
  exact ⟨M, hmodels M hM, hid, hschema⟩

theorem aims_kept (h : S.Kept S') (hS : ∀ F ∈ S.fields, t.Aims F) : ∀ F ∈ S'.fields, t.Aims F := by
  intro F hF
  obtain ⟨F₀, hF₀, hshape⟩ := h.mem_fields hF
  exact (hS F₀ hF₀).of_shape hshape

theorem aims_addField {f : Field} (hS : ∀ F ∈ S.fields, t.Aims F) (hf : t.Aims f)
    (h : S.addField f = .ok S') : ∀ F ∈ S'.fields, t.Aims F := by
  obtain ⟨rfl, -⟩ := Schema.addField_eq h
  intro F hF
  rcases List.mem_append.mp hF with hF | hF
  · exact hS F hF
  · rw [List.mem_singleton.mp hF]
    exact hf.congr rfl

theorem aims_removeField {id : FieldId} {f : Field} (hS : ∀ F ∈ S.fields, t.Aims F)
    (h : S.removeField id = .ok (f, S')) : ∀ F ∈ S'.fields, t.Aims F := by
  obtain ⟨-, -, -, before, after, hfields, hfields'⟩ := Schema.removeField_eq h
  have hsub : S'.fields.Sublist S.fields := by
    rw [hfields, hfields']
    exact (List.sublist_cons_self f after).append_left before
  exact fun F hF => hS F (hsub.subset hF)

/-- A new type points where the one before did, or at a model that was looked up. -/
theorem aims_newType {current : Field} {wanted : Option FieldType} {type : FieldType}
    (h : t.newType S current wanted = .ok type) (hcurrent : t.Aims current) :
    t.Aims { current with type } := by
  intro m s htarget
  cases wanted with
  | none =>
    cases h
    exact hcurrent m s htarget
  | some wanted =>
    simp only [newType] at h
    split at h
    · cases h
    · rename_i hsame
      have hkind : wanted.kind = current.type.kind := Decidable.not_not.mp hsame
      split at h
      · split at h
        · cases h
        · split at h
          · cases h
          · obtain ⟨_, hcheck, rfl⟩ := map_eq_ok.mp h
            cases htarget
            exact checkReference_eq_ok hcheck
      · split at h
        · cases h
          cases htarget
        · obtain ⟨_, -, rfl⟩ := map_eq_ok.mp h
          cases htarget
      · rename_i hnot _
        cases h
        -- only a reference becomes a reference
        cases type with
        | reference model schema mirror =>
          obtain ⟨model', schema', mirror', hreference⟩ := reference_of_kind hkind.symm
          exact (hnot _ _ _ _ _ _ hreference rfl).elim
        | _ => cases htarget

/-- A changed field still points at a stored model. -/
theorem aims_edited {edit : FieldEdit} {g : Field} (hS : ∀ F ∈ S.fields, t.Aims F)
    (h : t.Edited S edit g S') : ∀ F ∈ S'.fields, t.Aims F := by
  obtain ⟨current, f, hcurrent, hf, hshape, hkept⟩ := h.shapes
  obtain ⟨-, htype, -⟩ := editField_eq_ok hf
  refine aims_kept hkept fun F hF => ?_
  rcases mem_updateFirst hF with hF | ⟨-, -, -, rfl⟩
  · exact hS F hF
  · have hnew := aims_newType htype (hS current (Schema.mem_of_field? hcurrent).1)
    exact (hnew.congr (g := f) rfl).of_shape hshape.symm

/-- **References point at stored models.** -/
theorem lasting_targeted : Lasting fun _ t => t.Targeted where
  empty := fun _ _ hS => (List.not_mem_nil hS).elim
  same := by
    intro n m t u _ hsame h S hS F hF
    rw [hsame.schemas] at hS
    exact (h S hS F hF).mono fun M hM => hsame.models ▸ hM
  step := by
    intro o n t m u hw h hreshapes
    suffices hall : ∀ S ∈ u.schemas, ∀ F ∈ S.fields, t.Aims F from
      fun S hS F hF => (hall S hS F hF).mono fun M hM => hreshapes.mem_models hw hM
    have hnew : ∀ {project workspace k}, ∀ S ∈ (t.withSchemas project workspace n k).schemas,
        ∀ F ∈ S.fields, t.Aims F := by
      intro project workspace k S hS
      rcases mem_withSchemas hS with hS | ⟨_, -, rfl⟩
      · exact h S hS
      · exact fun _ hF => (List.not_mem_nil hF).elim
    cases hreshapes with
    | createsModel => exact hnew
    | createsGroup => exact hnew
    | changesGroup => exact h
    | createsField _ _ hcreate =>
      exact keeps_createField (fun hS _ hf hadd => aims_addField hS hf hadd)
        (fun hS htitle => aims_kept (Schema.kept_setTitle htitle) hS) hcreate h
    | updatesFields _ _ hupdate =>
      have hdescribe : ∀ {S id m S'}, (∀ F ∈ S.fields, t.Aims F) →
          describeMirror S id m = .ok S' → ∀ F ∈ S'.fields, t.Aims F :=
        fun hS h => aims_kept (kept_describeMirror h) hS
      refine keeps_updateFields (Q := fun S => ∀ F ∈ S.fields, t.Aims F) ?_ hdescribe hdescribe
        id (fun hS => ?_) hupdate rfl h
      · intro t' S edit g S' hmodels _ hS hedited
        have hsame : ∀ {f}, t'.Aims f ↔ t.Aims f := by
          intro f
          unfold Aims Hosts
          rw [hmodels]
        simp only [← hsame] at hS ⊢
        exact aims_edited hS hedited
      · split
        · exact aims_kept (Schema.kept_normalizeOrder _) hS
        · exact hS
    | deletesField _ _ hdelete =>
      exact keeps_deleteField aims_removeField
        (fun hS => aims_kept (Schema.kept_normalizeOrder _) hS) hdelete h

end Tables

end ContentStore
