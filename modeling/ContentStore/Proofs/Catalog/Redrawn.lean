import ContentStore.Proofs.Catalog.Fields
import ContentStore.Proofs.Embedding.Search
import ContentStore.Proofs.Items.Slots
import ContentStore.Storage.Packages
import Mathlib.Logic.Relation

/-!
# Schemas are redrawn one at a time

Whatever is done to fields, it is done to the schema named in the call and, when
a mirror is concerned, to the schema at the other end of a two-way field.  One
such step redraws the named schema (`Tables.Redraws`): it may embed further
groups, if that closes no cycle (`Tables.Clear`), while the schema at the other
end embeds nothing new, and only mirrors differ in it (`Tables.Mirrors`); both
stay in their workspaces.

Changing several fields redraws the schema several times.  Between two changes
it is not saved yet; the tables that count are those in which it would be saved
now.
-/

namespace ContentStore

open Relation

/-- One end of a two-way reference holds a single reference. -/
def Field.Single (f : Field) : Prop := f.isTwoWay = true → f.multiple = false

namespace Field

/-- A field is two-way just if it has another end. -/
theorem isTwoWay_iff {f : Field} : f.isTwoWay = true ↔ ∃ far, f.farEnd? = some far := by
  rw [← Option.isSome_iff_exists]
  cases hfar : f.farEnd? with
  | none =>
    rw [isTwoWay, farEnd?_eq_none.mp hfar]
    exact Iff.rfl
  | some far =>
    rw [isTwoWay, (farEnd?_eq_some.mp hfar).1]
    exact Iff.rfl

/-- Whether a field holds a single reference is a matter of its shape. -/
theorem single_of_shape {f g : Field} (h : f.shape = g.shape) (hf : f.Single) : g.Single := by
  unfold Single isTwoWay corresponding? at hf ⊢
  rwa [show g.type = f.type from (congrArg Shape.type h).symm,
    show g.multiple = f.multiple from (congrArg Shape.multiple h).symm]

/-- So is the group that it embeds. -/
theorem group?_of_shape {f g : Field} (h : f.shape = g.shape) : f.group? = g.group? := by
  unfold group?
  rw [show f.type = g.type from congrArg Shape.type h]

/-- A two-way field embeds no group. -/
theorem group?_of_farEnd? {f : Field} {far : FarEnd} (h : f.farEnd? = some far) :
    f.group? = none := by
  unfold farEnd? at h
  unfold group?
  split at h
  · rename_i htype
    rw [htype]
  · cases h

/-- A group is embedded by a field of a type that says so. -/
theorem group?_eq_some {f : Field} {g : GroupId} : f.group? = some g ↔ f.type = .group g := by
  unfold group?
  cases f.type <;> simp

/-- Fields that embed a group are those of the kind of groups. -/
theorem kind_eq_group {f : Field} : f.kind = .group ↔ ∃ g, f.group? = some g := by
  unfold kind FieldType.kind group?
  cases f.type <;> simp

/-- A field that embeds a group is of the kind for groups. -/
theorem kind_of_group? {f : Field} {g : GroupId} (h : f.group? = some g) : f.kind = .group :=
  kind_eq_group.mpr ⟨g, h⟩

end Field

namespace Schema

variable {s s' : Schema}

/-- The group fields are the fields that embed a group. -/
theorem mem_groupFields {F : Field} :
    F ∈ s.groupFields ↔ F ∈ s.fields ∧ ∃ g, F.group? = some g := by
  rw [groupFields, fieldsOfKind, List.mem_filter, beq_iff_eq, Field.kind_eq_group]

/-- The embedded groups are those of the fields. -/
theorem mem_embedded {g : GroupId} : g ∈ s.embedded ↔ ∃ F ∈ s.fields, F.group? = some g := by
  simp only [embedded, List.mem_filterMap, mem_groupFields]
  constructor
  · rintro ⟨F, ⟨hF, -⟩, hg⟩
    exact ⟨F, hF, hg⟩
  · rintro ⟨F, hF, hg⟩
    exact ⟨F, ⟨hF, g, hg⟩, hg⟩

/-- A schema after a change of fields: two-way fields still hold single
references, and no groups are embedded besides those from before and those that
may be. -/
structure Redrawn (may : GroupId → Prop) (s s' : Schema) : Prop where
  id : s'.id = s.id
  workspace : s'.workspace = s.workspace
  single : (∀ F ∈ s.fields, F.Single) → ∀ F ∈ s'.fields, F.Single
  embedded : ∀ g ∈ s'.embedded, g ∈ s.embedded ∨ may g

namespace Redrawn

variable {may : GroupId → Prop}

/-- What two changes leave, they leave together. -/
theorem trans {a b c : Schema} (hab : a.Redrawn may b) (hbc : b.Redrawn may c) :
    a.Redrawn may c where
  id := hbc.id.trans hab.id
  workspace := hbc.workspace.trans hab.workspace
  single := fun ha => hbc.single (hab.single ha)
  embedded := fun g hg => by
    rcases hbc.embedded g hg with hg | hmay
    · exact hab.embedded g hg
    · exact .inr hmay

/-- A schema redrawn under a condition is redrawn under a weaker one. -/
theorem mono {may' : GroupId → Prop} (h : s.Redrawn may s') (hmay : ∀ g, may g → may' g) :
    s.Redrawn may' s' :=
  { h with embedded := fun g hg => (h.embedded g hg).imp_right (hmay g) }

/-- A schema whose fields come from before, or are as they have to be. -/
theorem of_fields (hid : s'.id = s.id) (hworkspace : s'.workspace = s.workspace)
    (hfields : ∀ F ∈ s'.fields, (∃ F₀ ∈ s.fields, F₀.shape = F.shape) ∨
      (∀ g, F.group? = some g → g ∈ s.embedded ∨ may g) ∧
        (F.Single ∨ ∃ F₀ ∈ s.fields, F₀.Single → F.Single)) :
    s.Redrawn may s' where
  id := hid
  workspace := hworkspace
  single := fun hs F hF => by
    rcases hfields F hF with ⟨F₀, hF₀, hshape⟩ | ⟨-, hsingle | ⟨F₀, hF₀, hsingle⟩⟩
    · exact Field.single_of_shape hshape (hs F₀ hF₀)
    · exact hsingle
    · exact hsingle (hs F₀ hF₀)
  embedded := fun g hg => by
    obtain ⟨F, hF, hFg⟩ := mem_embedded.mp hg
    rcases hfields F hF with ⟨F₀, hF₀, hshape⟩ | ⟨hgroup, -⟩
    · exact .inl (mem_embedded.mpr ⟨F₀, hF₀, (Field.group?_of_shape hshape).trans hFg⟩)
    · exact hgroup g hFg

end Redrawn

variable {may : GroupId → Prop}

/-- A schema whose shapes are kept is redrawn without any new group. -/
theorem Kept.redrawn (h : s.Kept s') : s.Redrawn may s' :=
  .of_fields h.id h.workspace fun _ hF => .inl (h.mem_fields hF)

/-- A field may be added that is single if it is two-way, and embeds what may be embedded.
-/
theorem redrawn_addField {f : Field} (h : s.addField f = .ok s') (hsingle : f.Single)
    (hgroup : ∀ g, f.group? = some g → may g) : s.Redrawn may s' := by
  obtain ⟨rfl, -⟩ := addField_eq h
  refine .of_fields rfl rfl fun F hF => ?_
  rcases List.mem_append.mp hF with hF | hF
  · exact .inl ⟨F, hF, rfl⟩
  · rw [List.mem_singleton.mp hF]
    exact .inr ⟨fun g hg => .inr (hgroup g hg), .inl hsingle⟩

/-- Removing a field adds nothing. -/
theorem redrawn_removeField {id : FieldId} {f : Field} (h : s.removeField id = .ok (f, s')) :
    s.Redrawn may s' := by
  obtain ⟨-, hid, hworkspace, before, after, hfields, hfields'⟩ := removeField_eq h
  refine .of_fields hid hworkspace fun F hF => .inl ⟨F, ?_, rfl⟩
  rw [hfields'] at hF
  rw [hfields]
  rcases List.mem_append.mp hF with hF | hF
  · exact List.mem_append_left _ hF
  · exact List.mem_append_right _ (List.mem_cons_of_mem _ hF)

end Schema

namespace Tables

variable {t u : Tables} {host : SchemaId}

/-! ## Groups that close no cycle -/

/-- The groups embedded by a group, at any depth, are stored with their schemas,
and none of these is the schema. -/
def Clear (t : Tables) (host : SchemaId) (g : GroupId) : Prop :=
  ∃ ids : List GroupId, g ∈ ids ∧ ∀ x ∈ ids, ∃ G S, t.group? x = some G ∧
    t.schema? G.schema = some S ∧ S.id ≠ host ∧ ∀ y ∈ S.embedded, y ∈ ids

/-- The groups that are known are the stored ones, each with its schema. -/
theorem lookup_knownGroups (t : Tables) (id : GroupId) :
    t.knownGroups.known.lookup id = (t.group? id).map fun G => t.schema G.schema := by
  unfold knownGroups group?
  dsimp only
  induction t.groups with
  | nil => rfl
  | cons G Gs ih =>
    rw [List.map_cons, List.lookup_cons, List.find?_cons, ih]
    by_cases hid : id = G.id
    · subst hid
      simp
    · have hne : (id == G.id) = false := by simpa using hid
      have hne' : (G.id == id) = false := by simpa using fun h : G.id = id => hid h.symm
      rw [hne, hne']

/-- Saving a schema takes no other away. -/
theorem exists_mem_saveSchema {R S : Schema} (hS : S ∈ t.schemas) :
    ∃ S' ∈ (t.saveSchema R).schemas, S'.id = S.id := by
  by_cases hid : S.id = R.id
  · exact ⟨R, mem_saveSchema.mpr (.inl rfl), hid.symm⟩
  · exact ⟨S, mem_saveSchema.mpr (.inr ⟨hS, hid⟩), rfl⟩

/-- A schema that is found is one that is stored. -/
theorem schema_eq_ok {id : SchemaId} {S : Schema} :
    t.schema id = .ok S ↔ t.schema? id = some S := by
  unfold schema
  cases t.schema? id <;> simp

/-- The check lets only such groups pass. -/
theorem clear_of_checkAcyclic {g : GroupId} (h : t.checkAcyclic host g = .ok ()) :
    t.Clear host g := by
  obtain ⟨ids, hids, -⟩ := map_eq_ok.mp h
  obtain ⟨hsettled, hmem⟩ := Embedding.settled_of_ensureAcyclic hids
  refine ⟨ids, hmem, fun x hx => ?_⟩
  obtain ⟨S, hload, hne, hembedded⟩ := hsettled x hx
  unfold Embedding.Groups.load at hload
  rw [lookup_knownGroups] at hload
  cases hG : t.group? x with
  | none =>
    rw [hG] at hload
    cases hload
  | some G =>
    rw [hG] at hload
    exact ⟨G, S, rfl, schema_eq_ok.mp hload, hne,
      fun y hy => (hembedded y hy).resolve_right List.not_mem_nil⟩

/-- Saving a schema leaves the others. -/
theorem schema?_saveSchema {S : Schema} {id : SchemaId} (h : id ≠ S.id) :
    (t.saveSchema S).schema? id = t.schema? id := by
  unfold schema? saveSchema saveRow
  dsimp only
  have hfilter : (t.schemas.filter fun r => !(S.id == r.id)).find? (fun r => r.id == id) =
      t.schemas.find? fun r => r.id == id := by
    rw [List.find?_filter]
    congr 1
    funext r
    by_cases hr : r.id = id
    · simp [hr, h.symm]
    · simp [hr]
  rw [List.find?_append, hfilter, List.find?_cons_of_neg (by simpa using h.symm), List.find?_nil,
    Option.or_none]

/-- A saved schema is found afterwards. -/
theorem schema?_saveSchema_self (t : Tables) (s : Schema) :
    (t.saveSchema s).schema? s.id = some s := by
  have hnone :
      (t.schemas.filter fun r => !(s.id == r.id)).find? (fun r => r.id == s.id) = none := by
    rw [List.find?_eq_none]
    intro r hr heq
    have hne := (List.mem_filter.mp hr).2
    rw [beq_iff_eq.mp heq, beq_self_eq_true] at hne
    exact absurd hne (by decide)
  unfold schema? saveSchema saveRow
  rw [List.find?_append, hnone]
  simp

/-- The schema itself does not matter for what it may embed. -/
theorem Clear.saveSchema {S : Schema} {g : GroupId} (h : t.Clear S.id g) :
    (t.saveSchema S).Clear S.id g := by
  obtain ⟨ids, hmem, hids⟩ := h
  refine ⟨ids, hmem, fun x hx => ?_⟩
  obtain ⟨G, T, hG, hT, hne, hembedded⟩ := hids x hx
  have hid : G.schema ≠ S.id := by
    rw [← (mem_of_schema (schema_eq_ok.mpr hT)).2]
    exact hne
  exact ⟨G, T, hG, (schema?_saveSchema hid).trans hT, hne, hembedded⟩

/-! ## One step -/

/-- A field of the other schema is the other end of a two-way field of the
schema. -/
def Faces (t : Tables) (host other : SchemaId) (g : FieldId) : Prop :=
  ∃ f far, t.Declares host f (some far) ∧ far.schema = other ∧ far.field = g

/-- The schema faces the other one, and in that one only such fields differ, be
it before or after. -/
structure Mirrors (t u : Tables) (host : SchemaId) (S S' : Schema) : Prop where
  faces : ∃ g, t.Faces host S.id g ∨ u.Faces host S.id g
  fields : ∀ F : Field, (F ∈ S'.fields ↔ F ∈ S.fields) ∨ t.Faces host S.id F.id ∨
    u.Faces host S.id F.id

/-- A schema that differs in one field mirrors the change if this field faces the host. -/
theorem mirrors_of_onlyAt {g : FieldId} {S S' : Schema} (h : S.OnlyAt g S')
    (hfaces : t.Faces host S.id g ∨ u.Faces host S.id g) : t.Mirrors u host S S' where
  faces := ⟨g, hfaces⟩
  fields := fun F => by
    by_cases hF : F.id = g
    · exact .inr (hF ▸ hfaces)
    · exact .inl (h F hF)

/-- One schema is redrawn, and with it a schema that it faces. -/
structure Redraws (host : SchemaId) (t u : Tables) : Prop where
  rest : u = { t with schemas := u.schemas }
  forth : ∀ S ∈ t.schemas, ∃ S' ∈ u.schemas, S'.id = S.id
  back : ∀ S' ∈ u.schemas, ∃ S ∈ t.schemas,
    S.Redrawn (fun g => S.id = host ∧ t.Clear host g) S' ∧
      (S' = S ∨ S.id = host ∨ t.Mirrors u host S S')

namespace Redraws

variable {S S' T T' : Schema}

/-- Saving the schema itself. -/
theorem one (hS : S ∈ t.schemas) (hid : S.id = host) (h : S.Redrawn (t.Clear host) S') :
    t.Redraws host (t.saveSchema S') where
  rest := rfl
  forth := fun _ => exists_mem_saveSchema
  back := fun R hR => by
    rcases mem_saveSchema.mp hR with rfl | ⟨hmem, -⟩
    · exact ⟨S, hS, h.mono fun g hg => ⟨hid, hg⟩, .inr (.inl hid)⟩
    · exact ⟨R, hmem, (Schema.Kept.refl R).redrawn, .inl rfl⟩

/-- Saving another schema, and then the schema itself. -/
theorem two (hS : S ∈ t.schemas) (hid : S.id = host) (h : S.Redrawn (t.Clear host) S')
    (hT : T ∈ t.schemas) (hT' : T.Redrawn (fun _ => False) T')
    (hmirrors : t.Mirrors ((t.saveSchema T').saveSchema S') host T T') :
    t.Redraws host ((t.saveSchema T').saveSchema S') where
  rest := rfl
  forth := fun R hR => by
    obtain ⟨R', hR', hid'⟩ := exists_mem_saveSchema (R := T') hR
    obtain ⟨R'', hR'', hid''⟩ := exists_mem_saveSchema (R := S') hR'
    exact ⟨R'', hR'', hid''.trans hid'⟩
  back := fun R hR => by
    rcases mem_saveSchema.mp hR with rfl | ⟨hmem, -⟩
    · exact ⟨S, hS, h.mono fun g hg => ⟨hid, hg⟩, .inr (.inl hid)⟩
    · rcases mem_saveSchema.mp hmem with rfl | ⟨hmem, -⟩
      · exact ⟨T, hT, hT'.mono fun _ hfalse => hfalse.elim, .inr (.inr hmirrors)⟩
      · exact ⟨R, hmem, (Schema.Kept.refl R).redrawn, .inl rfl⟩

end Redraws

/-- A two-way field of a stored schema faces the schema of its other end. -/
theorem faces_of_mem {S : Schema} {F : Field} {far : FarEnd} (hS : S ∈ t.schemas)
    (hF : F.tie ∈ S.ties) (hfar : F.farEnd? = some far) :
    t.Faces S.id far.schema far.field := by
  refine ⟨F.id, far, ⟨S, hS, rfl, ?_⟩, rfl, rfl⟩
  rwa [Field.tie, hfar] at hF

/-! ## Creating and deleting fields -/

/-- A field without another end may hold as many references as it likes. -/
theorem single_of_farEnd? {f : Field} (h : f.farEnd? = none) : f.Single := by
  intro htwo
  obtain ⟨far, hfar⟩ := Field.isTwoWay_iff.mp htwo
  rw [h] at hfar
  cases hfar

/-- **Creating a field redraws its schema.** -/
theorem redraws_createField {param : NewField} {id mirrorId : FieldId} {f : Field}
    (h : t.createField param id mirrorId = .ok (u, f)) : t.Redraws param.schema u := by
  obtain ⟨S, f₀, mirror, S₁, t₁, S₂, S₃, hS, hnew, hacyclic, hmirror, hadd, hsave, htitle, rfl⟩ :=
    createField_steps h
  have hkept := kept_newTitle htitle
  obtain ⟨hmem, hSid⟩ := mem_of_schema hS
  obtain ⟨hf₀, hfar₀⟩ := newField_eq_ok hnew
  obtain ⟨hid, hcases⟩ := newMirror_eq_ok hmirror
  rw [← hSid]
  rcases hcases with ⟨rfl, rfl⟩ | ⟨far, host, g, hfar, hmultiple, hfield, -, -, rfl, htie, hsingle⟩
  · cases hsave
    refine .one hmem rfl ((Schema.redrawn_addField hadd (single_of_farEnd? hfar₀) ?_).trans
      hkept.redrawn)
    exact fun g hg => clear_of_checkAcyclic (hacyclic g hg)
  · have hown : S.Redrawn (t.Clear S.id) S₁ := by
      refine Schema.redrawn_addField hadd (fun _ => hmultiple) fun g hg => ?_
      rw [Field.group?_of_farEnd? hfar] at hg
      cases hg
    have hgfar : g.farEnd? = some ⟨host, S.id, f₀.id⟩ := congrArg Prod.snd htie
    have hmirrored : ∀ {may : GroupId → Prop} {R R' : Schema}, R.addField g = .ok R' →
        R.Redrawn may R' := by
      intro may R R' hR
      refine Schema.redrawn_addField hR (fun _ => hsingle) fun g' hg' => ?_
      rw [Field.group?_of_farEnd? hgfar] at hg'
      cases hg'
    rcases saveMirror_some hsave with ⟨-, hadd', rfl⟩ | ⟨-, rfl, other, other', hother, hadd', rfl⟩
    · exact .one hmem rfl (hown.trans ((hmirrored hadd').trans hkept.redrawn))
    · obtain ⟨hmem', hid'⟩ := mem_of_schema hother
      refine .two hmem rfl (hown.trans hkept.redrawn) hmem' (hmirrored hadd')
        (mirrors_of_onlyAt (Schema.onlyAt_addField hadd') (.inr ?_))
      have hgid : g.id = far.field := (congrArg Prod.fst htie).trans hfield.symm
      have hS₃ : S₃.id = S.id := hkept.id.trans hown.id
      rw [hid', hgid, ← hS₃]
      refine faces_of_mem (mem_saveSchema.mpr (.inl rfl)) (hkept.alike.ties.symm.subset ?_) hfar
      rw [(Schema.addField_eq_ok hadd).2]
      exact List.mem_append_right _ (List.mem_singleton_self _)

/-- **Deleting a field redraws its schema.** -/
theorem redraws_deleteField {id : SchemaId} {field : FieldId} (h : t.deleteField id field = .ok u) :
    t.Redraws id u := by
  obtain ⟨S, removed, S₁, t₁, S₂, hS, hremove, hmirror, rfl⟩ := deleteField_steps h
  obtain ⟨hmem, rfl⟩ := mem_of_schema hS
  have hown : ∀ {R R'}, S.Redrawn (t.Clear S.id) R → R.Kept R' → S.Redrawn (t.Clear S.id) R' :=
    fun hR hR' => hR.trans hR'.redrawn
  have hremoved : S.Redrawn (t.Clear S.id) S₁ := Schema.redrawn_removeField hremove
  have hlast := Schema.kept_normalizeOrder S₂
  rcases deleteMirror_steps hmirror with ⟨-, rfl, rfl⟩ | ⟨far, hfar, hcases⟩
  · exact .one hmem rfl (hown hremoved hlast)
  · rcases hcases with ⟨-, ⟨mirror, hremove'⟩, rfl⟩ | ⟨-, rfl, other, hother, hremoval⟩
    · exact .one hmem rfl (hown (hremoved.trans (Schema.redrawn_removeField hremove')) hlast)
    · rcases hremoval with ⟨mirror, other', hremove', rfl⟩ | ⟨-, rfl⟩
      · obtain ⟨hmem', hid'⟩ := mem_of_schema hother
        refine .two hmem rfl (hown hremoved hlast) hmem' (Schema.redrawn_removeField hremove')
          (mirrors_of_onlyAt (Schema.onlyAt_removeField hremove') (.inl ?_))
        obtain ⟨-, -, before, after, hties, -⟩ := Schema.removeField_eq_ok hremove
        rw [hid']
        refine faces_of_mem hmem ?_ hfar
        rw [hties]
        exact List.mem_append_right _ List.mem_cons_self
      · exact .one hmem rfl (hown hremoved hlast)

/-! ## Changing fields -/

/-- Saving a schema once more. -/
theorem saveSchema_saveSchema {s s' : Schema} (hid : s'.id = s.id) :
    (t.saveSchema s).saveSchema s' = t.saveSchema s' := by
  unfold saveSchema saveRow
  simp only [List.filter_append, List.filter_filter, hid, Bool.and_self]
  simp

/-- Saving a schema once more, with another one in between. -/
theorem saveSchema_between {s s' r : Schema} (hid : s'.id = s.id) :
    ((t.saveSchema s).saveSchema r).saveSchema s' = (t.saveSchema r).saveSchema s' := by
  have hfilter : (t.schemas.filter fun q => !(s.id == q.id) && (!(r.id == q.id) && !(s.id == q.id)))
      = t.schemas.filter fun q => !(s.id == q.id) && !(r.id == q.id) := by
    apply List.filter_congr
    intro q _
    cases s.id == q.id <;> simp
  unfold saveSchema saveRow
  simp only [List.filter_append, List.filter_filter, hid, hfilter]
  simp

/-- A changed field takes its place among the fields of the schema. -/
theorem redrawn_applyEdit {s : Schema} {edit : FieldEdit} {current f f₁ : Field}
    (hcurrent : s.field? edit.field = some current) (hf : t.editField s current edit = .ok f)
    (hshape : f₁.shape = f.shape) : s.Redrawn (t.Clear s.id) (s.setField f₁.id f₁) := by
  obtain ⟨hid, htype, hmultiple⟩ := editField_eq_ok hf
  have hmem := (Schema.mem_of_field? hcurrent).1
  refine .of_fields rfl rfl fun F hF => ?_
  rcases mem_updateFirst hF with hF | ⟨-, -, -, rfl⟩
  · exact .inl ⟨F, hF, rfl⟩
  · refine .inr ⟨fun g hg => ?_, .inr ⟨current, hmem, fun hsingle => ?_⟩⟩
    · have hgroup : f.type = .group g := by
        rw [Field.group?_of_shape hshape] at hg
        unfold Field.group? at hg
        split at hg
        · rename_i g' htype
          rw [htype, Option.some.inj hg]
        · cases hg
      rw [hgroup] at htype
      rcases group_of_newType htype with hold | hcheck
      · exact .inl (Schema.mem_embedded.mpr ⟨current, hmem, by rw [Field.group?, hold]⟩)
      · exact .inr (clear_of_checkAcyclic hcheck)
    · refine Field.single_of_shape hshape.symm fun htwo => ?_
      rcases hmultiple with heq | hnot
      · rw [heq]
        obtain ⟨far, hfar⟩ := Field.isTwoWay_iff.mp htwo
        have htie : f.farEnd? = current.farEnd? := congrArg Prod.snd (tie_of_editField hf)
        exact hsingle (Field.isTwoWay_iff.mpr ⟨far, htie.symm.trans hfar⟩)
      · rwa [htwo, Bool.and_true] at hnot

/-- The schema is redrawn, and all ties stay. -/
def Retouches (host : SchemaId) (t u : Tables) : Prop := t.Redraws host u ∧ t.Alike u

/-- Saving a redrawn schema of the same ties. -/
theorem Retouches.one (hd : (t.schemas.map Schema.id).Nodup) {S S' : Schema} (hS : S ∈ t.schemas)
    (h : S.Redrawn (t.Clear S.id) S') (halike : S.Alike S') :
    t.Retouches S.id (t.saveSchema S') :=
  ⟨.one hS rfl h, .saveSchema hd hS halike⟩

/-- **One change redraws the schema**, in the tables in which it would be saved. -/
theorem retouches_applyEdit {t' : Tables} {s s' : Schema} {edit : FieldEdit}
    (hd : (t.schemas.map Schema.id).Nodup) (h : t.applyEdit s edit = .ok (t', s')) :
    (t.saveSchema s).Retouches s.id (t'.saveSchema s') := by
  obtain ⟨-, halike⟩ := alike_of_applyEdit hd h
  obtain ⟨f₁, s₁, hedited, hmirror⟩ := applyEdit_steps h
  obtain ⟨current, f, hcurrent, hf, hshape, hs₁⟩ := hedited.shapes
  obtain ⟨hs', hcases⟩ := editMirror_eq_ok hmirror
  have hredrawn : s.Redrawn ((t.saveSchema s).Clear s.id) s' :=
    ((redrawn_applyEdit hcurrent hf hshape).trans (hs₁.trans hs').redrawn).mono
      fun g hg => hg.saveSchema
  have hd' := schemas_distinct_saveSchema hd s
  have hmem : s ∈ (t.saveSchema s).schemas := mem_saveSchema.mpr (.inl rfl)
  have hid : s'.id = s.id := halike.id
  rcases hcases with heq | ⟨rfl, far, other, other', hfar, hother, hne, hkept, honly, rfl⟩
  · rw [heq, ← saveSchema_saveSchema hid]
    exact .one hd' hmem hredrawn halike
  · obtain ⟨hmem', hid'⟩ := mem_of_schema hother
    have hne' : other.id ≠ s.id := by
      rw [hid', ← hid]
      exact hne
    have hmem' : other ∈ (t.saveSchema s).schemas := mem_saveSchema.mpr (.inr ⟨hmem', hne'⟩)
    have halike' := Alike.saveSchema hd' hmem' hkept.alike
    have hmem₂ : s ∈ ((t.saveSchema s).saveSchema other').schemas :=
      mem_saveSchema.mpr (.inr ⟨hmem, by rw [hkept.id]; exact hne'.symm⟩)
    rw [← saveSchema_between hid]
    refine ⟨.two hmem rfl hredrawn hmem' hkept.redrawn (mirrors_of_onlyAt honly (.inl ?_)),
      halike'.trans (.saveSchema (halike'.distinct hd') hmem₂ halike)⟩
    have htie : f₁.tie = current.tie := (Field.tie_of_shape hshape).trans (tie_of_editField hf)
    have hfar' : f₁.farEnd? = current.farEnd? := congrArg Prod.snd htie
    rw [hid']
    exact faces_of_mem hmem (List.mem_map_of_mem (Schema.mem_of_field? hcurrent).1)
      (hfar'.symm.trans hfar)

/-- Several changes redraw the schema one after the other. -/
theorem retouches_applyEdits {t' : Tables} {s s' : Schema} {edits : List FieldEdit}
    (hd : (t.schemas.map Schema.id).Nodup) (h : t.applyEdits s edits = .ok (t', s')) :
    ReflTransGen (Retouches s.id) (t.saveSchema s) (t'.saveSchema s') := by
  induction edits generalizing t s with
  | nil =>
    cases h
    exact .refl
  | cons edit edits ih =>
    unfold applyEdits at h
    obtain ⟨⟨t₁, s₁⟩, hfirst, hrest⟩ := bind_eq_ok.mp h
    obtain ⟨ht₁, hs₁⟩ := alike_of_applyEdit hd hfirst
    have hlast := ih (ht₁.distinct hd) hrest
    rw [hs₁.id] at hlast
    exact .head (retouches_applyEdit hd hfirst) hlast

/-- **Changing fields redraws their schema**, perhaps several times. -/
theorem retouches_updateFields {id : SchemaId} {edits : List FieldEdit} {fields : List Field}
    (hd : (t.schemas.map Schema.id).Nodup) (h : t.updateFields id edits = .ok (u, fields)) :
    ReflTransGen (Retouches id) t u := by
  unfold updateFields at h
  obtain ⟨s, hs, h⟩ := bind_eq_ok.mp h
  obtain ⟨⟨t₁, s₁⟩, hedits, h⟩ := bind_eq_ok.mp h
  obtain ⟨fields', -, h⟩ := bind_eq_ok.mp h
  cases h
  obtain ⟨hmem, rfl⟩ := mem_of_schema hs
  obtain ⟨ht₁, hs₁⟩ := alike_of_applyEdits hd hedits
  have hfirst : t.Retouches s.id (t.saveSchema s) :=
    .one hd hmem (Schema.Kept.refl s).redrawn (.refl s)
  have hkept : s₁.Kept (if edits.any fun e => e.order.isSome then s₁.normalizeOrder else s₁) := by
    split
    · exact Schema.kept_normalizeOrder s₁
    · exact .refl s₁
  have hlast := Retouches.one (schemas_distinct_saveSchema (ht₁.distinct hd) s₁)
    (mem_saveSchema.mpr (.inl rfl)) hkept.redrawn hkept.alike
  rw [saveSchema_saveSchema hkept.id, hs₁.id] at hlast
  exact .head hfirst ((retouches_applyEdits hd hedits).tail hlast)

/-- However often the schema is retouched, every schema is redrawn from one that was there.
-/
theorem redrawn_of_retouches (h : ReflTransGen (Retouches host) t u) :
    ∀ S' ∈ u.schemas, ∃ S ∈ t.schemas, S.Redrawn (fun _ => True) S' := by
  induction h with
  | refl => exact fun S hS => ⟨S, hS, (Schema.Kept.refl S).redrawn⟩
  | tail _ hstep ih =>
    intro S'' hS''
    obtain ⟨S', hS', hredrawn', -⟩ := hstep.1.back S'' hS''
    obtain ⟨S, hS, hredrawn⟩ := ih S' hS'
    exact ⟨S, hS, hredrawn.trans (hredrawn'.mono fun _ _ => trivial)⟩

/-- What a schema faces is up to ties. -/
theorem Alike.faces (h : t.Alike u) {other : SchemaId} {g : FieldId} :
    u.Faces host other g ↔ t.Faces host other g := by
  simp only [Faces, h.declares_iff]

/-- As long as ties stay, it does not matter when the schema faces the other. -/
theorem Mirrors.of_alike {v : Tables} {S S' : Schema} (htu : t.Alike u) (htv : t.Alike v)
    (h : u.Mirrors v host S S') : t.Mirrors t host S S' := by
  obtain ⟨hfaces, hfields⟩ := h
  simp only [htu.faces, htv.faces] at hfaces hfields
  exact ⟨hfaces, hfields⟩

/-- What mirrors a change before it mirrors it afterwards, too. -/
theorem Mirrors.mono {S S' : Schema} (h : t.Mirrors t host S S') (u : Tables) :
    t.Mirrors u host S S' where
  faces := h.faces.imp fun _ hg => .inl (hg.elim id id)
  fields := fun F => (h.fields F).imp_right fun hF => .inl (hF.elim id id)

/-- Two changes of mirrors, one after the other, are a change of mirrors. -/
theorem Mirrors.trans {R S T : Schema} (hid : S.id = R.id) (h : t.Mirrors t host R S)
    (h' : t.Mirrors t host S T) : t.Mirrors t host R T where
  faces := h.faces
  fields := fun F => by
    rcases h.fields F with hsame | hfaces
    · rcases h'.fields F with hsame' | hfaces
      · exact .inl (hsame'.trans hsame)
      · exact .inr (hid ▸ hfaces)
    · exact .inr hfaces

/-- However often a schema is redrawn, of the others only the far ends of its
fields change. -/
theorem back_of_retouches (h : ReflTransGen (Retouches host) t u) :
    t.Alike u ∧ ∀ S' ∈ u.schemas, ∃ S ∈ t.schemas, S'.id = S.id ∧ S'.workspace = S.workspace ∧
      (S' = S ∨ S.id = host ∨ t.Mirrors t host S S') := by
  induction h with
  | refl => exact ⟨.refl t, fun S hS => ⟨S, hS, rfl, rfl, .inl rfl⟩⟩
  | @tail v w _ hstep ih =>
    obtain ⟨hredraws, halike⟩ := hstep
    obtain ⟨hv, hback⟩ := ih
    refine ⟨hv.trans halike, fun S'' hS'' => ?_⟩
    obtain ⟨S', hS', hredrawn, hlast⟩ := hredraws.back S'' hS''
    obtain ⟨S, hS, hid, hworkspace, hbefore⟩ := hback S' hS'
    refine ⟨S, hS, hredrawn.id.trans hid, hredrawn.workspace.trans hworkspace, ?_⟩
    rcases hlast with rfl | hhost | hmirrors
    · exact hbefore
    · exact .inr (.inl (hid ▸ hhost))
    · have hmirrors := hmirrors.of_alike hv (hv.trans halike)
      rcases hbefore with rfl | hhost | hmirrors'
      · exact .inr (.inr hmirrors)
      · exact .inr (.inl hhost)
      · exact .inr (.inr (hmirrors'.trans hid hmirrors))

end Tables

end ContentStore
