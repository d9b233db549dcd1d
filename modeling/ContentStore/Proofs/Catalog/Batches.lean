import ContentStore.Proofs.Catalog.Loading
import ContentStore.Proofs.Catalog.Redrawn

/-!
# Many changes at once

Several changes of the fields of a schema are made on a copy of it, which is saved at the
end; meanwhile mirrors in other schemas are saved at once, and groups are checked for
cycles in what is stored.  Changes made one by one save the schema after each of them.
It comes to the same.  A change asks what is stored about models, about other schemas
and, of the schema itself, only whether a group leads back to it
(`checkAcyclic_saveSchema`); so it does the same whether or not the copy has been saved
(`applyEdit_saveSchema`).  From this it follows for one change after the other
(`foldlM_changeField`).
-/

namespace ContentStore

namespace Tables

variable {t t' : Tables} {s s' s₀ : Schema} {edits : List FieldEdit}

/-- The tables once the copy is saved. -/
def settled (r : Tables × Schema) : Tables := r.1.saveSchema r.2

/-! ## What is stored of the schema itself -/

/-- A saved schema is the one that is loaded. -/
theorem schema_saveSchema_self (t : Tables) (s : Schema) : (t.saveSchema s).schema s.id = .ok s :=
  schema_eq_ok.mpr (t.schema?_saveSchema_self s)

/-- Other schemas are loaded as before. -/
theorem schema_saveSchema {id : SchemaId} (h : id ≠ s.id) :
    (t.saveSchema s).schema id = t.schema id := by
  rw [schema, schema?_saveSchema h, schema]

/-- **The check for cycles never looks into the schema itself.** -/
theorem checkAcyclic_saveSchema (hs : t.schema s.id = .ok s₀) (g : GroupId) :
    (t.saveSchema s).checkAcyclic s.id g = t.checkAcyclic s.id g := by
  have hload : ∀ id, (t.saveSchema s).knownGroups.load id = t.knownGroups.load id ∨
      ∃ r r', t.knownGroups.load id = .ok r ∧ (t.saveSchema s).knownGroups.load id = .ok r' ∧
        r.id = s.id ∧ r'.id = s.id := by
    intro id
    have hgroup : (t.saveSchema s).group id = t.group id := rfl
    rw [load_knownGroups, load_knownGroups, hgroup]
    cases t.group id with
    | error e => exact .inl rfl
    | ok G =>
      by_cases hG : G.schema = s.id
      · refine .inr ⟨s₀, s, ?_, ?_, (mem_of_schema hs).2, rfl⟩
        · rw [← hs, ← hG]
          rfl
        · rw [← schema_saveSchema_self t s, ← hG]
          rfl
      · exact .inl (schema_saveSchema hG)
  rw [checkAcyclic, Embedding.ensureAcyclic_congr hload, checkAcyclic]

/-- The new type of a field does not depend on whether the copy of its schema has been
saved. -/
theorem newType_saveSchema (hs : t.schema s.id = .ok s₀) (current : Field)
    (wanted : Option FieldType) :
    (t.saveSchema s).newType s current wanted = t.newType s current wanted := by
  unfold newType
  simp only [checkAcyclic_saveSchema hs]
  rfl

/-- Nor does the changed field. -/
theorem editField_saveSchema (hs : t.schema s.id = .ok s₀) (current : Field) (edit : FieldEdit) :
    (t.saveSchema s).editField s current edit = t.editField s current edit := by
  rw [editField, newType_saveSchema hs, editField]

/-- A mirror in another schema is found there as before. -/
theorem editMirror_saveSchema {s₁ : Schema} (hid : s₁.id = s.id) (f : Field)
    (mirror : Option Mirror) :
    ((t.saveSchema s).editMirror s₁ f mirror).map settled =
      (t.editMirror s₁ f mirror).map settled := by
  unfold editMirror
  split
  · rename_i m id model target _ _
    split
    · cases hdescribe : describeMirror s₁ id m with
      | error e => rfl
      | ok s₂ =>
        have hid₂ : s₂.id = s.id := (kept_describeMirror hdescribe).id.trans hid
        exact congrArg Except.ok (saveSchema_saveSchema hid₂)
    · rename_i htarget
      rw [schema_saveSchema (hid ▸ htarget), map_bind_except, map_bind_except]
      refine bind_congr_ok fun other _ => ?_
      rw [map_bind_except, map_bind_except]
      exact bind_congr_ok fun other' _ => congrArg Except.ok (saveSchema_between hid)
  · exact congrArg Except.ok (saveSchema_saveSchema hid)

/-! ## One change -/

/-- **A change does the same whether or not the copy has been saved.** -/
theorem applyEdit_saveSchema (hs : t.schema s.id = .ok s₀) (edit : FieldEdit) :
    ((t.saveSchema s).applyEdit s edit).map settled = (t.applyEdit s edit).map settled := by
  -- once the field has been changed and perhaps renamed
  have hlast : ∀ (f : Field) (s₁ : Schema), s₁.id = s.id →
      (editTitle s₁ f edit.isTitle >>= fun s₂ =>
        (t.saveSchema s).editMirror s₂ f edit.mirror).map settled =
      (editTitle s₁ f edit.isTitle >>= fun s₂ => t.editMirror s₂ f edit.mirror).map settled := by
    intro f s₁ hid
    rw [map_bind_except, map_bind_except]
    refine bind_congr_ok fun s₂ htitle => editMirror_saveSchema ?_ _ _
    exact (kept_editTitle htitle).id.trans hid
  unfold applyEdit
  split
  · rename_i current _
    rw [editField_saveSchema hs, map_bind_except, map_bind_except]
    refine bind_congr_ok fun f _ => ?_
    dsimp only
    split
    · exact hlast f _ rfl
    · rename_i key _
      cases hkey : s.setKey f.id key with
      | error e => rfl
      | ok s₁ =>
        obtain ⟨-, -, g, -, rfl⟩ := Schema.setKey_eq_ok hkey
        exact hlast { f with key } _ rfl
  · rfl

/-- What a change leaves as it is: what the schema is, the ids of its fields, and that it is
stored. -/
structure Continues (t : Tables) (s : Schema) (t' : Tables) (s' : Schema) : Prop where
  id : s'.id = s.id
  workspace : s'.workspace = s.workspace
  fields : ∀ id, (s'.field? id).isSome ↔ (s.field? id).isSome
  stored : t'.schema s.id = t.schema s.id

/-- A change that does nothing continues its schema. -/
theorem Continues.refl (t : Tables) (s : Schema) : t.Continues s t s :=
  ⟨rfl, rfl, fun _ => Iff.rfl, rfl⟩

/-- Changes that continue a schema do so one after the other. -/
theorem Continues.trans {t'' : Tables} {s'' : Schema} (h : t.Continues s t' s')
    (h' : t'.Continues s' t'' s'') : t.Continues s t'' s'' where
  id := h'.id.trans h.id
  workspace := h'.workspace.trans h.workspace
  fields := fun id => (h'.fields id).trans (h.fields id)
  stored := by rw [← h.stored, ← h.id, h'.stored]

/-- A field that is changed is there, and stays. -/
theorem continues_of_applyEdit {edit : FieldEdit} (h : t.applyEdit s edit = .ok (t', s')) :
    t.Continues s t' s' ∧ (s.field? edit.field).isSome := by
  obtain ⟨g, s₁, hedited, hmirror⟩ := applyEdit_steps h
  obtain ⟨current, f, hcurrent, -, -, hkept⟩ := hedited.shapes
  obtain ⟨hkept', hcases⟩ := editMirror_eq_ok hmirror
  have hthere : (s.field? edit.field).isSome := by
    rw [hcurrent]
    rfl
  have hset := Schema.isSome_field?_setField (hedited.id_eq ▸ hthere)
  refine ⟨?_, hthere⟩
  constructor
  case id => exact hkept'.id.trans hkept.id
  case workspace => exact hkept'.workspace.trans hkept.workspace
  case fields =>
    intro id
    rw [hkept'.isSome_field?, hkept.isSome_field?, hset]
  case stored =>
    rcases hcases with rfl | ⟨-, far, other, other', -, hother, hne, hkept'', -, rfl⟩
    · rfl
    · apply schema_saveSchema
      rw [hkept''.id, (mem_of_schema hother).2]
      exact fun heq => hne (heq.symm.trans hkept.id.symm)

/-- All changes of a batch continue the schema, and each finds its field. -/
theorem continues_of_applyEdits (h : t.applyEdits s edits = .ok (t', s')) :
    t.Continues s t' s' ∧ ∀ e ∈ edits, (s.field? e.field).isSome := by
  induction edits generalizing t s with
  | nil =>
    cases h
    exact ⟨.refl _ _, fun _ he => (List.not_mem_nil he).elim⟩
  | cons e es ih =>
    unfold applyEdits at h
    obtain ⟨⟨t₁, s₁⟩, hfirst, hrest⟩ := bind_eq_ok.mp h
    obtain ⟨hstep, hthere⟩ := continues_of_applyEdit hfirst
    obtain ⟨hsteps, hall⟩ := ih hrest
    refine ⟨hstep.trans hsteps, fun e' he => ?_⟩
    rcases List.mem_cons.mp he with rfl | he
    · exact hthere
    · exact (hstep.fields _).mp (hall e' he)

/-! ## Several changes -/

/-- Changes one field of a stored schema, as somebody who has to maintain it, and saves it. -/
def changeField (o : Operator) (id : SchemaId) (t : Tables) (edit : FieldEdit) :
    Except Error Tables := do
  let s ← t.schema id
  o.checkMaintain s.workspace
  (t.applyEdit s edit).map settled

section Steps

variable {o : Operator} {id : SchemaId}

/-- Changing a field of a stored schema, by its maintainer, is one change with the copy
saved. -/
theorem changeField_of_stored (hs : t.schema id = .ok s)
    (hmay : o.checkMaintain s.workspace = .ok ()) (edit : FieldEdit) :
    t.changeField o id edit = (t.applyEdit s edit).map settled := by
  rw [changeField, hs]
  change (o.checkMaintain s.workspace >>= fun _ => _) = _
  rw [hmay]
  rfl

/-- The schema stays, and so does who maintains it. -/
theorem stored_of_changeField {edit : FieldEdit} (hs : t.schema id = .ok s)
    (hmay : o.checkMaintain s.workspace = .ok ()) (h : t.changeField o id edit = .ok t') :
    ∃ s', t'.schema id = .ok s' ∧ o.checkMaintain s'.workspace = .ok () := by
  rw [changeField_of_stored hs hmay] at h
  obtain ⟨⟨t₁, s₁⟩, happly, rfl⟩ := map_eq_ok.mp h
  obtain ⟨hstep, -⟩ := continues_of_applyEdit happly
  have hid : s₁.id = id := hstep.id.trans (mem_of_schema hs).2
  exact ⟨s₁, hid ▸ t₁.schema_saveSchema_self s₁, by rw [hstep.workspace, hmay]⟩

/-- **Changing fields one by one settles what changing them on a copy leaves.** -/
theorem foldlM_changeField (hid : s.id = id) (hs : t.schema id = .ok s₀)
    (hmay : o.checkMaintain s.workspace = .ok ()) (edits : List FieldEdit) :
    edits.foldlM (changeField o id) (t.saveSchema s) = (t.applyEdits s edits).map settled := by
  induction edits generalizing t s s₀ with
  | nil => rfl
  | cons e es ih =>
    subst hid
    have hfirst : (t.saveSchema s).changeField o s.id e = (t.applyEdit s e).map settled := by
      rw [changeField_of_stored (t.schema_saveSchema_self s) hmay, applyEdit_saveSchema hs]
    rw [List.foldlM_cons, hfirst, applyEdits, map_bind_except]
    cases happly : t.applyEdit s e with
    | error e => rfl
    | ok r =>
      obtain ⟨t₁, s₁⟩ := r
      obtain ⟨hstep, -⟩ := continues_of_applyEdit happly
      exact ih hstep.id (hstep.stored.trans hs) (by rw [hstep.workspace, hmay])

/-- From the stored schema on, if there is a change at all. -/
theorem foldlM_changeField_of_stored (hs : t.schema id = .ok s)
    (hmay : o.checkMaintain s.workspace = .ok ()) (hne : edits ≠ []) :
    edits.foldlM (changeField o id) t = (t.applyEdits s edits).map settled := by
  obtain ⟨e, es, rfl⟩ := List.exists_cons_of_ne_nil hne
  obtain rfl := (mem_of_schema hs).2
  have hfirst : t.changeField o s.id e = (t.saveSchema s).changeField o s.id e := by
    rw [changeField_of_stored hs hmay, changeField_of_stored (t.schema_saveSchema_self s) hmay,
      applyEdit_saveSchema hs]
  rw [List.foldlM_cons, hfirst, ← List.foldlM_cons]
  exact foldlM_changeField rfl hs hmay (e :: es)

/-- Fields that are there are found. -/
theorem exists_fieldsOf {ids : List FieldId} (h : ∀ id ∈ ids, (s.field? id).isSome) :
    ∃ fields, fieldsOf s ids = .ok fields := by
  induction ids with
  | nil => exact ⟨[], rfl⟩
  | cons id ids ih =>
    obtain ⟨f, hf⟩ := Option.isSome_iff_exists.mp (h id List.mem_cons_self)
    obtain ⟨fs, hfs⟩ := ih fun id hid => h id (List.mem_cons_of_mem _ hid)
    refine ⟨f :: fs, ?_⟩
    unfold fieldsOf at hfs ⊢
    rw [List.mapM_cons, hf, hfs]
    rfl

/-- **Fields of a stored schema are changed as if one by one**, if none of them is moved. -/
theorem updateFields_eq_foldlM (hs : t.schema id = .ok s)
    (hmay : o.checkMaintain s.workspace = .ok ()) (hne : edits ≠ [])
    (horder : ∀ e ∈ edits, e.order = none) :
    (t.updateFields id edits).map Prod.fst = edits.foldlM (changeField o id) t := by
  have hstay : (edits.any fun e => e.order.isSome) = false := by
    rw [List.any_eq_false]
    intro e he
    rw [horder e he]
    decide
  have hupdate : t.updateFields id edits = t.applyEdits s edits >>= fun r =>
      fieldsOf r.2 (edits.map FieldEdit.field) >>= fun fields => .ok (settled r, fields) := by
    rw [updateFields, hs, hstay]
    rfl
  rw [foldlM_changeField_of_stored hs hmay hne, hupdate]
  cases happly : t.applyEdits s edits with
  | error e => rfl
  | ok r =>
    obtain ⟨hstep, hthere⟩ := continues_of_applyEdits happly
    have hfound : ∀ id ∈ edits.map FieldEdit.field, (r.2.field? id).isSome := by
      intro id hid
      obtain ⟨e, he, rfl⟩ := List.mem_map.mp hid
      exact (hstep.fields _).mpr (hthere e he)
    obtain ⟨fields, hfields⟩ := exists_fieldsOf hfound
    change (fieldsOf r.2 (edits.map FieldEdit.field) >>= fun fields =>
      .ok (settled r, fields)).map Prod.fst = _
    rw [hfields]
    rfl

end Steps

end Tables

end ContentStore
