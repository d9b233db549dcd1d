import ContentStore.Proofs.Catalog.Fields
import ContentStore.Proofs.Items.Input

/-!
# What writes of fields keep

A write of fields makes few kinds of steps, each on a single schema: a field is
added, removed or exchanged, a mirror is described, a title is set, and the fields
are put into order.  So a property of single schemas that these steps keep holds
of all stored schemas after the write if it did before (`keeps_createField`,
`keeps_updateFields`, `keeps_deleteField`).  While several changes are made, the
schema they are made in may have a property of its own.
-/

namespace ContentStore

namespace Field

variable {f g : Field}

/-- What a field accepts depends on its kind, its limits and its flags. -/
theorem check_congr (hkind : g.kind = f.kind)
    (hlimits : g.type.checkElement = f.type.checkElement) (hmultiple : g.multiple = f.multiple)
    (hrequired : g.required = f.required) : g.check = f.check := by
  funext vs
  unfold check
  rw [hkind, hlimits, hmultiple, hrequired]

theorem checkDefault_eq_ok : f.checkDefault = .ok () ↔
    ∀ vs, f.default = some vs → ({ f with required := false } : Field).check vs = .ok () := by
  unfold checkDefault
  cases f.default with
  | none => simp
  | some vs => simp [liftValue_eq_ok]

/-- Names, flags of presence and numbers do not matter for the default. -/
theorem checkDefault_congr (hkind : g.kind = f.kind)
    (hlimits : g.type.checkElement = f.type.checkElement) (hmultiple : g.multiple = f.multiple)
    (hdefault : g.default = f.default) (h : f.checkDefault = .ok ()) : g.checkDefault = .ok () := by
  rw [checkDefault_eq_ok] at h ⊢
  intro vs hvs
  have hcheck : ({ g with required := false } : Field).check =
      ({ f with required := false } : Field).check := check_congr hkind hlimits hmultiple rfl
  rw [hcheck]
  exact h vs (hdefault ▸ hvs)

theorem checkDefault_withCorresponding (id : Option FieldId) (h : f.checkDefault = .ok ()) :
    (f.withCorresponding id).checkDefault = .ok () := by
  unfold withCorresponding
  split
  · rename_i model schema mirror htype
    refine checkDefault_congr (f := f) ?_ ?_ rfl rfl h
    · rw [kind, kind, htype]
      rfl
    · rw [htype]
      funext v
      simp [FieldType.checkElement]
  · exact h

end Field

namespace Tables

variable {t u : Tables} {P : Schema → Prop}

theorem forall_saveSchema (hP : ∀ S ∈ t.schemas, P S) {S : Schema} (hS : P S) :
    ∀ S' ∈ (t.saveSchema S).schemas, P S' := by
  intro S' hS'
  rcases mem_saveSchema.mp hS' with rfl | ⟨hmem, -⟩
  · exact hS
  · exact hP S' hmem

/-! ## Creating a field -/

/-- The default of a new field has been checked. -/
theorem checkDefault_newField {param : NewField} {id : FieldId} {f : Field}
    (h : newField param id = .ok f) : f.checkDefault = .ok () := by
  unfold newField at h
  obtain ⟨default, -, h⟩ := bind_eq_ok.mp h
  obtain ⟨_, hcheck, h⟩ := bind_eq_ok.mp h
  cases h
  exact Field.checkDefault_withCorresponding none hcheck

/-- A mirror has no default. -/
theorem checkDefault_newMirror {s : Schema} {f f' : Field} {param : NewField} {id : FieldId}
    {mirror : Option (SchemaId × Field)} (h : t.newMirror s f param id = .ok (f', mirror))
    (hf : f.checkDefault = .ok ()) :
    f'.checkDefault = .ok () ∧ ∀ m, mirror = some m → m.2.checkDefault = .ok () := by
  unfold newMirror at h
  split at h
  · cases h
    exact ⟨hf, fun _ h => nomatch h⟩
  · cases h
  · obtain ⟨_, -, h⟩ := bind_eq_ok.mp h
    split at h
    · cases h
      exact ⟨hf, fun _ h => nomatch h⟩
    · dsimp only at h
      split at h
      · cases h
      · split at h
        · cases h
          exact ⟨Field.checkDefault_withCorresponding _ hf, fun _ h => by cases h; rfl⟩
        · cases h

/-- If the field is a reference, it points at a stored model and the schema of its items. -/
def Aims (t : Tables) (f : Field) : Prop := ∀ m s, f.target? = some (m, s) → t.Hosts m s

/-- Targets have been checked, and a mirror points back at a model. -/
theorem aims_newMirror {s : Schema} {f f' : Field} {param : NewField} {id : FieldId}
    {mirror : Option (SchemaId × Field)} (h : t.newMirror s f param id = .ok (f', mirror)) :
    t.Aims f' ∧ ∀ m, mirror = some m → t.Aims m.2 := by
  unfold newMirror at h
  split at h
  · rename_i hnone _
    cases h
    refine ⟨fun m s htarget => ?_, fun _ h => nomatch h⟩
    cases hnone.symm.trans htarget
  · cases h
  · rename_i model target htarget
    obtain ⟨_, hcheck, h⟩ := bind_eq_ok.mp h
    have hown : t.Aims f := fun m s hf => by
      cases htarget.symm.trans hf
      exact checkReference_eq_ok hcheck
    split at h
    · cases h
      exact ⟨hown, fun _ h => nomatch h⟩
    · dsimp only at h
      split at h
      · cases h
      · split at h
        · rename_i host hhost
          cases h
          refine ⟨fun m s hf => hown m s ((f.target?_withCorresponding _).symm.trans hf), ?_⟩
          rintro _ ⟨⟩ m s ⟨⟩
          exact ⟨host, List.mem_of_find?_eq_some hhost, rfl,
            by simpa using List.find?_some hhost⟩
        · cases h

/-- **Creating a field** adds fields whose defaults and targets have been checked, and may
set a title. -/
theorem keeps_createField
    (hadd : ∀ {S f S'}, P S → f.checkDefault = .ok () → t.Aims f → S.addField f = .ok S' → P S')
    (htitle : ∀ {S id S'}, P S → S.setTitle (some id) = .ok S' → P S') {param : NewField}
    {id mirrorId : FieldId} {f : Field} (h : t.createField param id mirrorId = .ok (u, f))
    (hP : ∀ S ∈ t.schemas, P S) : ∀ S ∈ u.schemas, P S := by
  obtain ⟨S, f₀, mirror, S₁, t₁, S₂, S₃, hS, hnew, -, hmirror, hadded, hsave, htitled, rfl⟩ :=
    createField_steps h
  obtain ⟨hf, hg⟩ := checkDefault_newMirror hmirror (checkDefault_newField hnew)
  obtain ⟨haims, haims'⟩ := aims_newMirror hmirror
  have hS₁ : P S₁ := hadd (hP S (mem_of_schema hS).1) hf haims hadded
  have hsaved : P S₂ ∧ ∀ S ∈ t₁.schemas, P S := by
    cases mirror with
    | none =>
      cases hsave
      exact ⟨hS₁, hP⟩
    | some m =>
      obtain ⟨target, g⟩ := m
      have hg := hg _ rfl
      have haims' := haims' _ rfl
      rcases saveMirror_some hsave with
        ⟨-, hadded, rfl⟩ | ⟨-, rfl, other, other', hother, hadded, rfl⟩
      · exact ⟨hadd hS₁ hg haims' hadded, hP⟩
      · have hother := (mem_of_schema hother).1
        exact ⟨hS₁, forall_saveSchema hP (hadd (hP other hother) hg haims' hadded)⟩
  refine forall_saveSchema hsaved.2 ?_
  rcases htitled with rfl | htitled
  · exact hsaved.1
  · exact htitle hsaved.1 htitled

/-! ## Changing fields -/

section Changing

variable {Q : Schema → Prop} {edits : List FieldEdit} {models : List Model}
  (hedit : ∀ {t S edit g S'}, t.models = models → edit ∈ edits → Q S → Edited t S edit g S' →
    Q S')
  (hown : ∀ {S id m S'}, Q S → describeMirror S id m = .ok S' → Q S')
  (hother : ∀ {S id m S'}, P S → describeMirror S id m = .ok S' → P S')

include hedit hown hother

/-- Changes are made in one schema; in others mirrors are described. -/
theorem keeps_applyEdits {s s' : Schema} (h : t.applyEdits s edits = .ok (u, s'))
    (hmodels : t.models = models) (hs : Q s) (hP : ∀ S ∈ t.schemas, P S) :
    Q s' ∧ ∀ S ∈ u.schemas, P S := by
  induction edits generalizing t s with
  | nil =>
    cases h
    exact ⟨hs, hP⟩
  | cons edit edits ih =>
    unfold applyEdits at h
    obtain ⟨⟨t₁, s₁⟩, hfirst, hrest⟩ := bind_eq_ok.mp h
    obtain ⟨g, s₂, hedited, hmirror⟩ := applyEdit_steps hfirst
    have hs₂ : Q s₂ := hedit hmodels List.mem_cons_self hs hedited
    have hstep : t₁.models = models ∧ Q s₁ ∧ ∀ S ∈ t₁.schemas, P S := by
      rcases editMirror_steps hmirror with ⟨rfl, rfl | ⟨id, m, hdescribe⟩⟩ |
        ⟨rfl, m, far, other, other', -, -, hschema, hdescribe, rfl⟩
      · exact ⟨hmodels, hs₂, hP⟩
      · exact ⟨hmodels, hown hs₂ hdescribe, hP⟩
      · have hschema := (mem_of_schema hschema).1
        exact ⟨hmodels, hs₂, forall_saveSchema hP (hother (hP other hschema) hdescribe)⟩
    obtain ⟨hmodels₁, hs₁, hP₁⟩ := hstep
    exact ih (fun hmodels hmem => hedit hmodels (List.mem_cons_of_mem _ hmem)) hrest hmodels₁ hs₁
      hP₁

/-- **Changing fields** exchanges fields of one schema, describes mirrors there and
in others, and may put the fields of the schema into order. -/
theorem keeps_updateFields (hfirst : ∀ {S}, P S → Q S)
    (hlast : ∀ {S}, Q S →
      P (if edits.any fun e => e.order.isSome then S.normalizeOrder else S))
    {id : SchemaId} {fields : List Field} (h : t.updateFields id edits = .ok (u, fields))
    (hmodels : t.models = models) (hP : ∀ S ∈ t.schemas, P S) : ∀ S ∈ u.schemas, P S := by
  unfold updateFields at h
  obtain ⟨s, hs, h⟩ := bind_eq_ok.mp h
  obtain ⟨⟨t₁, s₁⟩, hedits, h⟩ := bind_eq_ok.mp h
  obtain ⟨fields', -, h⟩ := bind_eq_ok.mp h
  cases h
  obtain ⟨hs₁, hP₁⟩ := keeps_applyEdits hedit hown hother hedits hmodels
    (hfirst (hP s (mem_of_schema hs).1)) hP
  exact forall_saveSchema hP₁ (hlast hs₁)

end Changing

/-! ## Deleting a field -/

/-- **Deleting a field** removes fields and puts those that are left into order. -/
theorem keeps_deleteField (hremove : ∀ {S id f S'}, P S → S.removeField id = .ok (f, S') → P S')
    (horder : ∀ {S}, P S → P S.normalizeOrder) {id : SchemaId} {field : FieldId}
    (h : t.deleteField id field = .ok u) (hP : ∀ S ∈ t.schemas, P S) : ∀ S ∈ u.schemas, P S := by
  obtain ⟨S, removed, S₁, t₁, S₂, hS, hremoved, hmirror, rfl⟩ := deleteField_steps h
  have hS₁ : P S₁ := hremove (hP S (mem_of_schema hS).1) hremoved
  have hrest : P S₂ ∧ ∀ S ∈ t₁.schemas, P S := by
    rcases deleteMirror_steps hmirror with ⟨-, rfl, rfl⟩ | ⟨far, -, hcases⟩
    · exact ⟨hS₁, hP⟩
    · rcases hcases with ⟨-, ⟨mirror, hremoved'⟩, rfl⟩ | ⟨-, rfl, other, hother, hcases⟩
      · exact ⟨hremove hS₁ hremoved', hP⟩
      · rcases hcases with ⟨mirror, other', hremoved', rfl⟩ | ⟨-, rfl⟩
        · exact ⟨hS₁, forall_saveSchema hP (hremove (hP other (mem_of_schema hother).1) hremoved')⟩
        · exact ⟨hS₁, hP⟩
  exact forall_saveSchema hrest.2 (horder hrest.1)

end Tables

end ContentStore
