import ContentStore.Proofs.Catalog.Wired
import ContentStore.Store.Fields

/-!
# Changed fields keep their ties

Changing fields never makes a reference one-way or two-way, and never moves a
two-way one.  So however many changes a call makes, in its schema and through
mirrors in others, all ties stay (`alike_of_updateFields`).
-/

namespace ContentStore

/-- The field with the key and the description of a mirror. -/
def Mirror.applied (m : Mirror) (f : Field) : Field :=
  { f with
    key := m.key
    name := m.name.getD f.name
    description := m.description
    required := m.required }

/-- Only references have another end. -/
theorem Field.farEnd?_of_kind {f : Field} (h : f.kind ≠ .reference) : f.farEnd? = none := by
  unfold farEnd?
  split
  · rename_i htype
    rw [kind, htype] at h
    exact (h rfl).elim
  · rfl

namespace Tables

variable {t t' : Tables} {s s' : Schema}

theorem reference_of_kind {type : FieldType} (h : type.kind = .reference) :
    ∃ model schema mirror, type = .reference model schema mirror := by
  cases type with
  | reference model schema mirror => exact ⟨model, schema, mirror, rfl⟩
  | _ => cases h

/-- A new type keeps the other end. -/
theorem farEnd?_of_newType {current : Field} {wanted : Option FieldType} {type : FieldType}
    (h : t.newType s current wanted = .ok type) :
    ({ current with type } : Field).farEnd? = current.farEnd? := by
  cases wanted with
  | none =>
    cases h
    rfl
  | some wanted =>
    simp only [newType] at h
    split at h
    · cases h
    · rename_i hsame
      have hkind : wanted.kind = current.kind := Decidable.not_not.mp hsame
      by_cases hreference : current.kind = .reference
      · obtain ⟨model, schema, mirror, hcurrent⟩ := reference_of_kind hreference
        obtain ⟨model', schema', mirror', rfl⟩ := reference_of_kind (hkind.trans hreference)
        simp only [hcurrent] at h
        split at h
        · cases h
        · split at h
          · cases h
          · rename_i hsame
            obtain ⟨_, -, rfl⟩ := map_eq_ok.mp h
            unfold Field.farEnd?
            rw [hcurrent]
            cases mirror with
            | none => rfl
            | some g =>
              simp only [Option.isSome_some, true_and, not_or, Decidable.not_not] at hsame
              rw [hsame.1, hsame.2]
      · have htype : type = wanted := by
          split at h
          · exact (hreference hkind.symm).elim
          · split at h
            · cases h
              rfl
            · obtain ⟨_, -, rfl⟩ := map_eq_ok.mp h
              rfl
          · cases h
            rfl
        rw [Field.farEnd?_of_kind hreference, Field.farEnd?_of_kind]
        rw [htype]
        exact fun h => hreference (hkind.symm.trans h)

/-- A new type embeds the group from before, or one that has been checked. -/
theorem group_of_newType {current : Field} {wanted : Option FieldType} {g : GroupId}
    (h : t.newType s current wanted = .ok (.group g)) :
    current.type = .group g ∨ t.checkAcyclic s.id g = .ok () := by
  cases wanted with
  | none => exact .inl (Except.ok.inj h)
  | some wanted =>
    simp only [newType] at h
    split at h
    · cases h
    · rename_i hsame
      have hkind : wanted.kind = current.type.kind := Decidable.not_not.mp hsame
      split at h
      · split at h
        · cases h
        · split at h
          · cases h
          · obtain ⟨_, -, htype⟩ := map_eq_ok.mp h
            cases htype
      · rename_i g₀ g₁ hcurrent
        split at h
        · rename_i heq
          cases h
          exact .inl (hcurrent.trans (congrArg _ heq))
        · obtain ⟨_, hcheck, htype⟩ := map_eq_ok.mp h
          cases htype
          exact .inr hcheck
      · rename_i hnot
        cases h
        -- only a group field becomes a group field
        cases hcurrent : current.type with
        | group g₀ => exact (hnot g₀ g hcurrent rfl).elim
        | _ =>
          rw [hcurrent] at hkind
          cases hkind

/-- A changed field keeps its id, and becomes multiple only if it is not two-way. -/
theorem editField_eq_ok {current f : Field} {edit : FieldEdit}
    (h : t.editField s current edit = .ok f) :
    f.id = current.id ∧ t.newType s current edit.type = .ok f.type ∧
      (f.multiple = current.multiple ∨ (f.multiple && f.isTwoWay) = false) := by
  unfold editField at h
  obtain ⟨type, htype, h⟩ := bind_eq_ok.mp h
  split at h
  · cases h
  · obtain ⟨multiple, hmultiple, h⟩ := bind_eq_ok.mp h
    obtain ⟨default, -, h⟩ := bind_eq_ok.mp h
    obtain ⟨_, -, h⟩ := bind_eq_ok.mp h
    cases h
    refine ⟨rfl, htype, ?_⟩
    unfold newMultiple at hmultiple
    split at hmultiple
    · cases hmultiple
      exact .inl rfl
    · split at hmultiple
      · cases hmultiple
      · rename_i hsingle
        cases hmultiple
        exact .inr (Bool.eq_false_iff.mpr hsingle)

/-- A changed field keeps its key at first and gets the number that is asked for;
its default has been checked. -/
theorem checked_editField {current f : Field} {edit : FieldEdit}
    (h : t.editField s current edit = .ok f) :
    f.key = current.key ∧ f.order = edit.order.getD current.order ∧ f.checkDefault = .ok () := by
  unfold editField at h
  obtain ⟨type, -, h⟩ := bind_eq_ok.mp h
  split at h
  · cases h
  · obtain ⟨multiple, -, h⟩ := bind_eq_ok.mp h
    obtain ⟨default, -, h⟩ := bind_eq_ok.mp h
    obtain ⟨_, hcheck, h⟩ := bind_eq_ok.mp h
    cases h
    exact ⟨rfl, rfl, hcheck⟩

/-- No edit of a field moves its other end. -/
theorem tie_of_editField {current f : Field} {edit : FieldEdit}
    (h : t.editField s current edit = .ok f) : f.tie = current.tie := by
  obtain ⟨hid, htype, -⟩ := editField_eq_ok h
  have hfar : f.farEnd? = current.farEnd? := farEnd?_of_newType htype
  rw [Field.tie, hid, hfar]
  rfl

/-- A change may set or clear the title of the schema. -/
theorem editTitle_eq {f : Field} {title : Option Bool} (h : editTitle s f title = .ok s') :
    ∃ title, s' = { s with title } := by
  unfold editTitle at h
  split at h
  · exact ⟨_, Schema.setTitle_eq (liftSchema_eq_ok.mp h)⟩
  · split at h
    · exact ⟨_, Schema.setTitle_eq (liftSchema_eq_ok.mp h)⟩
    · cases h
      exact ⟨s.title, rfl⟩
  · split at h
    · cases h
    · cases h
      exact ⟨s.title, rfl⟩

theorem kept_editTitle {f : Field} {title : Option Bool} (h : editTitle s f title = .ok s') :
    s.Kept s' := by
  obtain ⟨title, rfl⟩ := editTitle_eq h
  exact ⟨rfl, rfl, .refl _⟩

/-- A mirror is described in its place; a new key is valid, and free in the
schema. -/
theorem describeMirror_eq_ok {id : FieldId} {m : Mirror} (h : describeMirror s id m = .ok s') :
    ∃ current, s.field? id = some current ∧
      (m.key = current.key ∨ s.hasKey m.key = false ∧ isValidKey m.key = true) ∧
      s' = s.setField id (m.applied current) := by
  unfold describeMirror at h
  split at h
  · rename_i current hcurrent
    refine ⟨current, hcurrent, ?_⟩
    dsimp only at h
    split at h
    · rename_i hsame
      cases h
      exact ⟨.inl hsame, rfl⟩
    · split at h
      · cases h
      · rename_i hfree
        obtain ⟨s₁, hs₁, h⟩ := bind_eq_ok.mp h
        cases h
        obtain ⟨hvalid, -, f, hf, rfl⟩ := Schema.setKey_eq_ok (liftSchema_eq_ok.mp hs₁)
        have hid : ({ f with key := m.key } : Field).id = id := (Schema.mem_of_field? hf).2
        exact ⟨.inr ⟨Bool.eq_false_iff.mpr hfree, hvalid⟩, Schema.setField_setField hid _⟩
  · cases h

theorem kept_describeMirror {id : FieldId} {m : Mirror} (h : describeMirror s id m = .ok s') :
    s.Kept s' := by
  obtain ⟨current, hcurrent, -, rfl⟩ := describeMirror_eq_ok h
  exact (Schema.same_setField (by rw [hcurrent]; rfl)).kept

theorem onlyAt_describeMirror {id : FieldId} {m : Mirror} (h : describeMirror s id m = .ok s') :
    s.OnlyAt id s' := by
  obtain ⟨current, hcurrent, -, rfl⟩ := describeMirror_eq_ok h
  exact Schema.onlyAt_setField (Schema.mem_of_field? hcurrent).2

/-- The other end of a field is described in the schema of the field or in
another one. -/
theorem editMirror_steps {f : Field} {mirror : Option Mirror}
    (h : t.editMirror s f mirror = .ok (t', s')) :
    t' = t ∧ (s' = s ∨ ∃ id m, describeMirror s id m = .ok s') ∨
      s' = s ∧ ∃ m far other other', f.farEnd? = some far ∧ far.schema ≠ s.id ∧
        t.schema far.schema = .ok other ∧ describeMirror other far.field m = .ok other' ∧
        t' = t.saveSchema other' := by
  unfold editMirror at h
  split at h
  · rename_i m id model target hmirror htarget
    split at h
    · obtain ⟨s₁, hs₁, heq⟩ := map_eq_ok.mp h
      cases heq
      exact .inl ⟨rfl, .inr ⟨id, m, hs₁⟩⟩
    · rename_i hother
      obtain ⟨other, hschema, h⟩ := bind_eq_ok.mp h
      obtain ⟨other', hdescribe, h⟩ := bind_eq_ok.mp h
      cases h
      exact .inr ⟨rfl, m, ⟨model, target, id⟩, other, other',
        Field.farEnd?_eq_some.mpr ⟨hmirror, htarget⟩, hother, hschema, hdescribe, rfl⟩
  · cases h
    exact .inl ⟨rfl, .inl rfl⟩

/-- Describing the other end of a field changes the schema of that end and no
other, and leaves its shapes and its other fields. -/
theorem editMirror_eq_ok {f : Field} {mirror : Option Mirror}
    (h : t.editMirror s f mirror = .ok (t', s')) :
    s.Kept s' ∧ (t' = t ∨ s' = s ∧ ∃ far other other', f.farEnd? = some far ∧
      t.schema far.schema = .ok other ∧ far.schema ≠ s.id ∧ other.Kept other' ∧
      other.OnlyAt far.field other' ∧ t' = t.saveSchema other') := by
  rcases editMirror_steps h with ⟨rfl, rfl | ⟨id, m, hdescribe⟩⟩ |
    ⟨rfl, m, far, other, other', hfar, hother, hschema, hdescribe, rfl⟩
  · exact ⟨.refl s', .inl rfl⟩
  · exact ⟨kept_describeMirror hdescribe, .inl rfl⟩
  · exact ⟨.refl s', .inr ⟨rfl, far, other, other', hfar, hschema, hother,
      kept_describeMirror hdescribe, onlyAt_describeMirror hdescribe, rfl⟩⟩

/-- What one change makes of its own schema: the field is exchanged for the
changed one, whose new key is valid and no other field's, and becomes the title or
stops to be it. -/
inductive Edited (t : Tables) (s : Schema) (edit : FieldEdit) : Field → Schema → Prop
  | mk {current f g : Field} {s' : Schema} (hcurrent : s.field? edit.field = some current)
      (hf : t.editField s current edit = .ok f)
      (hkey : g = f ∨ ∃ key, isValidKey key = true ∧ (∀ x ∈ s.fields, x.key = key → x.id = f.id) ∧
        g = { f with key })
      (htitle : editTitle (s.setField g.id g) g edit.isTitle = .ok s') : Edited t s edit g s'

/-- **The steps of one change**: the changed field takes its place, and then the
other end is described. -/
theorem applyEdit_steps {edit : FieldEdit} (h : t.applyEdit s edit = .ok (t', s')) :
    ∃ g s₁, t.Edited s edit g s₁ ∧ t.editMirror s₁ g edit.mirror = .ok (t', s') := by
  unfold applyEdit at h
  split at h
  · rename_i current hcurrent
    obtain ⟨f, hf, h⟩ := bind_eq_ok.mp h
    dsimp only at h
    split at h
    · change (editTitle (s.setField f.id f) f edit.isTitle >>= fun s₁ =>
        t.editMirror s₁ f edit.mirror) = _ at h
      obtain ⟨s₁, htitle, hmirror⟩ := bind_eq_ok.mp h
      exact ⟨f, s₁, ⟨hcurrent, hf, .inl rfl, htitle⟩, hmirror⟩
    · rename_i key _
      obtain ⟨⟨g, s₂⟩, hkey, h⟩ := bind_eq_ok.mp h
      obtain ⟨s₃, hs₃, heq⟩ := map_eq_ok.mp hkey
      cases heq
      obtain ⟨s₁, htitle, hmirror⟩ := bind_eq_ok.mp h
      obtain ⟨hvalid, hothers, f₀, hf₀, rfl⟩ := Schema.setKey_eq_ok (liftSchema_eq_ok.mp hs₃)
      have hid : ({ f₀ with key } : Field).id = f.id := (Schema.mem_of_field? hf₀).2
      dsimp only at htitle hmirror
      rw [Schema.setField_setField hid] at htitle
      exact ⟨{ f with key }, s₁, ⟨hcurrent, hf, .inr ⟨key, hvalid, hothers, rfl⟩, htitle⟩, hmirror⟩
  · cases h

/-- The changed field keeps its id. -/
theorem Edited.id_eq {edit : FieldEdit} {g : Field} (h : t.Edited s edit g s') :
    g.id = edit.field := by
  obtain @⟨current, f, g, s', hcurrent, hf, hkey, -⟩ := h
  have hid : f.id = edit.field :=
    (editField_eq_ok hf).1.trans (Schema.mem_of_field? hcurrent).2
  rcases hkey with rfl | ⟨key, -, -, rfl⟩
  · exact hid
  · exact hid

/-- Up to shapes, the changed field takes the place of the one before. -/
theorem Edited.shapes {edit : FieldEdit} {g : Field} (h : t.Edited s edit g s') :
    ∃ current f, s.field? edit.field = some current ∧ t.editField s current edit = .ok f ∧
      g.shape = f.shape ∧ (s.setField g.id g).Kept s' := by
  obtain @⟨current, f, g, s', hcurrent, hf, hkey, htitle⟩ := h
  refine ⟨current, f, hcurrent, hf, ?_, kept_editTitle htitle⟩
  rcases hkey with rfl | ⟨key, -, -, rfl⟩
  · rfl
  · rfl

/-- **One change leaves all ties alone**, those of the schema being changed and
those of the stored ones. -/
theorem alike_of_applyEdit (hd : (t.schemas.map Schema.id).Nodup) {edit : FieldEdit}
    (h : t.applyEdit s edit = .ok (t', s')) : t.Alike t' ∧ s.Alike s' := by
  obtain ⟨g, s₁, hedited, hmirror⟩ := applyEdit_steps h
  obtain ⟨current, f, hcurrent, hf, hshape, hs₁⟩ := hedited.shapes
  obtain ⟨hs', ht'⟩ := editMirror_eq_ok hmirror
  have htie : g.tie = current.tie := (Field.tie_of_shape hshape).trans (tie_of_editField hf)
  have hfield : g.id = edit.field :=
    (congrArg Prod.fst htie).trans (Schema.mem_of_field? hcurrent).2
  have hset : s.Alike (s.setField g.id g) := by
    refine .of_eq rfl (Schema.map_setField Field.tie ?_)
    rw [hfield, hcurrent, htie]
    rfl
  refine ⟨?_, hset.trans (hs₁.trans hs').alike⟩
  rcases ht' with heq | ⟨-, far, other, other', -, hother, -, hkept, -, rfl⟩
  · rw [heq]
    exact .refl t
  · exact .saveSchema hd (mem_of_schema hother).1 hkept.alike

/-- **A batch of edits leaves all ties.** -/
theorem alike_of_applyEdits (hd : (t.schemas.map Schema.id).Nodup) {edits : List FieldEdit}
    (h : t.applyEdits s edits = .ok (t', s')) : t.Alike t' ∧ s.Alike s' := by
  induction edits generalizing t s with
  | nil =>
    cases h
    exact ⟨.refl _, .refl _⟩
  | cons edit edits ih =>
    unfold applyEdits at h
    obtain ⟨⟨t₁, s₁⟩, hfirst, hrest⟩ := bind_eq_ok.mp h
    obtain ⟨ht₁, hs₁⟩ := alike_of_applyEdit hd hfirst
    obtain ⟨ht, hs⟩ := ih (ht₁.distinct hd) hrest
    exact ⟨ht₁.trans ht, hs₁.trans hs⟩

/-- **Changing fields leaves all ties alone.** -/
theorem alike_of_updateFields (hd : (t.schemas.map Schema.id).Nodup) {id : SchemaId}
    {edits : List FieldEdit} {fields : List Field}
    (h : t.updateFields id edits = .ok (t', fields)) : t.Alike t' := by
  unfold updateFields at h
  obtain ⟨s, hs, h⟩ := bind_eq_ok.mp h
  obtain ⟨⟨t₁, s₁⟩, hedits, h⟩ := bind_eq_ok.mp h
  obtain ⟨fields', -, h⟩ := bind_eq_ok.mp h
  cases h
  obtain ⟨ht, hs₁⟩ := alike_of_applyEdits hd hedits
  obtain ⟨S, hS, hsS⟩ := ht.forth s (mem_of_schema hs).1
  refine ht.trans (.saveSchema (ht.distinct hd) hS (hsS.symm.trans (hs₁.trans ?_)))
  split
  · exact (Schema.kept_normalizeOrder s₁).alike
  · exact .refl s₁

end Tables

end ContentStore
