import ContentStore.Error
import ContentStore.Proofs.Pairing.Fields

/-!
# Shapes of schemas

Other parts of the catalog rely on little of a field: which field it is, its
type, and whether it is multiple (`Shape`).  Renaming, describing and reordering
fields, and choosing a title, leave all shapes of a schema as they are
(`Schema.Kept`).  What adding and removing a field does to the list of fields is
said here as well.
-/

namespace ContentStore

/-- What counts of a field for the rest of the catalog. -/
structure Shape where
  id : FieldId
  type : FieldType
  multiple : Bool

/-- The shape of a field. -/
def Field.shape (f : Field) : Shape := ⟨f.id, f.type, f.multiple⟩

/-- A change of a schema succeeds as a write just as it does by itself. -/
theorem liftSchema_eq_ok {α : Type} {x : Except SchemaDefect α} {a : α} :
    liftSchema x = .ok a ↔ x = .ok a := by
  cases x <;> simp [liftSchema]

namespace Schema

variable {s s' : Schema}

/-- Exchanging a field for one that looks the same. -/
theorem map_setField {α : Type} (look : Field → α) {id : FieldId} {g : Field}
    (hg : (s.field? id).map look = some (look g)) :
    (s.setField id g).fields.map look = s.fields.map look := by
  obtain ⟨f, hf, hlook⟩ := Option.map_eq_some_iff.mp hg
  unfold field? at hf
  unfold setField
  dsimp only
  generalize s.fields = fields at hf
  induction fields with
  | nil => cases hf
  | cons h hs ih =>
    unfold updateFirst
    rw [List.find?_cons] at hf
    cases hh : h.id == id with
    | true =>
      rw [hh] at hf
      cases hf
      rw [if_pos rfl, List.map_cons, List.map_cons, hlook]
    | false =>
      rw [hh] at hf
      rw [if_neg (by simp), List.map_cons, List.map_cons, ih hf]

/-- A field that is exchanged stands where the one before stood. -/
theorem setField_split {id : FieldId} {f : Field} (h : s.field? id = some f) :
    ∃ before after, s.fields = before ++ f :: after ∧
      ∀ g, (s.setField id g).fields = before ++ g :: after := by
  unfold field? at h
  unfold setField
  dsimp only
  generalize s.fields = fields at h
  induction fields with
  | nil => cases h
  | cons x xs ih =>
    rw [List.find?_cons] at h
    cases hx : x.id == id with
    | true =>
      rw [hx] at h
      cases h
      exact ⟨[], xs, rfl, fun g => by simp [updateFirst, hx]⟩
    | false =>
      rw [hx] at h
      obtain ⟨before, after, hxs, hset⟩ := ih h
      exact ⟨x :: before, after, by rw [hxs]; rfl, fun g => by simp [updateFirst, hx, hset g]⟩

/-- Exchanging a field twice. -/
theorem setField_setField {id : FieldId} {f : Field} (hf : f.id = id) (g : Field) :
    (s.setField id f).setField id g = s.setField id g := by
  unfold setField
  dsimp only
  congr 1
  induction s.fields with
  | nil => rfl
  | cons h hs ih =>
    cases hh : h.id == id with
    | true => simp [updateFirst, hh, hf]
    | false => simp [updateFirst, hh, ih]

/-- Field by field the two have the same shapes. -/
structure Same (s s' : Schema) : Prop where
  id : s'.id = s.id
  workspace : s'.workspace = s.workspace
  shapes : s'.fields.map Field.shape = s.fields.map Field.shape

/-- A schema has the shapes of itself. -/
theorem Same.refl (s : Schema) : s.Same s := ⟨rfl, rfl, rfl⟩

/-- Exchanging a field for one of the same shape. -/
theorem same_setField {id : FieldId} {g : Field}
    (hg : (s.field? id).map Field.shape = some g.shape) : s.Same (s.setField id g) :=
  ⟨rfl, rfl, map_setField Field.shape hg⟩

/-- A field is renamed to a valid key that no other field has. -/
theorem setKey_eq_ok {id : FieldId} {key : String} (h : s.setKey id key = .ok s') :
    isValidKey key = true ∧ (∀ g ∈ s.fields, g.key = key → g.id = id) ∧
      ∃ f, s.field? id = some f ∧ s' = s.setField id { f with key } := by
  unfold setKey at h
  split at h
  · cases h
  · rename_i hvalid
    split at h
    · cases h
    · rename_i hothers
      split at h
      · cases h
      · rename_i f hf
        cases h
        refine ⟨by simpa using hvalid, fun g hg hkey => ?_, f, hf, rfl⟩
        by_contra hid
        refine hothers (List.any_eq_true.mpr ⟨g, hg, ?_⟩)
        simp [hkey, hid]

/-- The two have the same shapes, in whatever order. -/
structure Kept (s s' : Schema) : Prop where
  id : s'.id = s.id
  workspace : s'.workspace = s.workspace
  shapes : (s'.fields.map Field.shape).Perm (s.fields.map Field.shape)

/-- Where shapes agree field by field, they are kept. -/
theorem Same.kept (h : s.Same s') : s.Kept s' := ⟨h.id, h.workspace, h.shapes ▸ .refl _⟩

/-- A schema keeps its own shapes. -/
theorem Kept.refl (s : Schema) : s.Kept s := (Same.refl s).kept

/-- What keeps the kept keeps the first. -/
theorem Kept.trans {a b c : Schema} (hab : a.Kept b) (hbc : b.Kept c) : a.Kept c :=
  ⟨hbc.id.trans hab.id, hbc.workspace.trans hab.workspace, hbc.shapes.trans hab.shapes⟩

/-- Every field has the shape of a field from before. -/
theorem Kept.mem_fields (h : s.Kept s') {F : Field} (hF : F ∈ s'.fields) :
    ∃ F₀ ∈ s.fields, F₀.shape = F.shape :=
  List.mem_map.mp (h.shapes.subset (List.mem_map_of_mem hF))

/-- A field is found just if its id is one of theirs. -/
theorem isSome_field? {id : FieldId} : (s.field? id).isSome ↔ id ∈ s.fields.map Field.id := by
  simp [field?, List.find?_isSome]

/-- Where the shapes stay, so do the ids. -/
theorem Kept.isSome_field? (h : s.Kept s') (id : FieldId) :
    (s'.field? id).isSome ↔ (s.field? id).isSome := by
  have hids := h.shapes.map Shape.id
  rw [List.map_map, List.map_map] at hids
  rw [Schema.isSome_field?, Schema.isSome_field?]
  exact hids.mem_iff

/-- A field that is exchanged gives way to one of the same id. -/
theorem isSome_field?_setField {g : Field} (hg : (s.field? g.id).isSome) (id : FieldId) :
    ((s.setField g.id g).field? id).isSome ↔ (s.field? id).isSome := by
  obtain ⟨f, hf⟩ := Option.isSome_iff_exists.mp hg
  have hids : (s.setField g.id g).fields.map Field.id = s.fields.map Field.id := by
    apply map_setField
    rw [hf, Option.map_some, (mem_of_field? hf).2]
  rw [isSome_field?, isSome_field?, hids]

/-- Setting the title changes nothing else. -/
theorem setTitle_eq {id : Option FieldId} (h : s.setTitle id = .ok s') :
    s' = { s with title := id } := by
  unfold setTitle at h
  split at h
  · cases h
    rfl
  · split at h
    · split at h
      · cases h
      · cases h
        rfl
    · cases h

/-- Marking another field as the title keeps all shapes. -/
theorem kept_setTitle {id : Option FieldId} (h : s.setTitle id = .ok s') : s.Kept s' := by
  rw [setTitle_eq h]
  exact ⟨rfl, rfl, .refl _⟩

/-- What does not show the number of a field is the same after renumbering. -/
theorem map_renumber {α : Type} {look : Field → α}
    (hlook : ∀ (f : Field) (n : Int), look { f with order := n } = look f) (n : Nat)
    (fields : List Field) : (renumber n fields).map look = fields.map look := by
  induction fields generalizing n with
  | nil => rfl
  | cons f fs ih => rw [renumber, List.map_cons, List.map_cons, ih, hlook]

/-- What is seen of fields apart from their places is the same after renumbering, in another
order. -/
theorem map_normalizeOrder {α : Type} {look : Field → α}
    (hlook : ∀ (f : Field) (n : Int), look { f with order := n } = look f) (s : Schema) :
    (s.normalizeOrder.fields.map look).Perm (s.fields.map look) := by
  unfold normalizeOrder
  dsimp only
  rw [map_renumber hlook]
  exact (sortBy_perm _ _).map look

/-- Renumbering the fields keeps all shapes. -/
theorem kept_normalizeOrder (s : Schema) : s.Kept s.normalizeOrder :=
  ⟨rfl, rfl, map_normalizeOrder (fun _ _ => rfl) s⟩

/-- The two differ in one field at most. -/
def OnlyAt (id : FieldId) (s s' : Schema) : Prop :=
  ∀ F : Field, F.id ≠ id → (F ∈ s'.fields ↔ F ∈ s.fields)

/-- Exchanging a field changes this one only. -/
theorem onlyAt_setField {id : FieldId} {g : Field} (hg : g.id = id) :
    OnlyAt id s (s.setField id g) := by
  intro F hF
  unfold setField
  dsimp only
  induction s.fields with
  | nil => rfl
  | cons h hs ih =>
    unfold updateFirst
    split
    · rename_i hh
      have hFh : F ≠ h := fun heq => hF (heq ▸ beq_iff_eq.mp hh)
      have hFg : F ≠ g := fun heq => hF (heq ▸ hg)
      rw [List.mem_cons, List.mem_cons, or_iff_right hFh, or_iff_right hFg]
    · rw [List.mem_cons, List.mem_cons, ih]

/-- A field is only added under a valid key that is new to the schema. -/
theorem key_of_addField {f : Field} (h : s.addField f = .ok s') :
    isValidKey f.key = true ∧ ∀ g ∈ s.fields, g.key ≠ f.key := by
  unfold addField at h
  split at h
  · cases h
  · rename_i hvalid
    split at h
    · cases h
    · rename_i hfree
      refine ⟨by simpa using hvalid, fun g hg hkey => hfree ?_⟩
      rw [hasKey, fieldByKey?, List.find?_isSome]
      exact ⟨g, hg, beq_iff_eq.mpr hkey⟩

/-- A field is added at the end, under a new id. -/
theorem addField_eq {f : Field} (h : s.addField f = .ok s') :
    s' = { s with fields := s.fields ++ [{ f with order := s.fields.length }] } ∧
      s.field? f.id = none := by
  unfold addField at h
  split at h
  · cases h
  · split at h
    · cases h
    · split at h
      · cases h
      · rename_i hnew
        cases h
        exact ⟨rfl, Option.not_isSome_iff_eq_none.mp hnew⟩

/-- Adding a field changes this one only. -/
theorem onlyAt_addField {f : Field} (h : s.addField f = .ok s') : OnlyAt f.id s s' := by
  obtain ⟨rfl, -⟩ := addField_eq h
  intro F hF
  rw [List.mem_append, List.mem_singleton, or_iff_left]
  intro heq
  exact hF (by rw [heq])

/-- The field removed is the first one of its id. -/
theorem removeField_eq {id : FieldId} {f : Field} (h : s.removeField id = .ok (f, s')) :
    f.id = id ∧ s'.id = s.id ∧ s'.workspace = s.workspace ∧
      ∃ before after, s.fields = before ++ f :: after ∧ s'.fields = before ++ after := by
  unfold removeField at h
  split at h
  · cases h
  · rename_i f' hf
    cases h
    refine ⟨(mem_of_field? hf).2, rfl, rfl, ?_⟩
    unfold field? at hf
    obtain ⟨hp, before, after, hfields, hbefore⟩ := List.find?_eq_some_iff_append.mp hf
    refine ⟨before, after, hfields, ?_⟩
    dsimp only
    rw [hfields, List.eraseP_append_right _ (fun g hg => by simpa using hbefore g hg),
      List.eraseP_cons_of_pos (p := fun g : Field => g.id == id) hp]

/-- So does removing one. -/
theorem onlyAt_removeField {id : FieldId} {f : Field} (h : s.removeField id = .ok (f, s')) :
    OnlyAt id s s' := by
  obtain ⟨hid, -, -, before, after, hfields, hfields'⟩ := removeField_eq h
  intro F hF
  have hFf : F ≠ f := fun heq => hF (heq ▸ hid)
  rw [hfields, hfields', List.mem_append, List.mem_append, List.mem_cons, or_iff_right hFf]

end Schema

end ContentStore
