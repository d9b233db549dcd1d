import ContentStore.Proofs.Catalog.Nesting
import ContentStore.Proofs.Catalog.Rewriting
import ContentStore.Proofs.Catalog.Zones

/-!
# Schemas are well formed

In a well-formed schema fields are told apart by their ids and by their keys, all
keys are valid, every default may stand in its field, and the title is a field
that holds one value (`Schema.WellFormed`).  Changing a field breaks the last of
these for a moment, when the title becomes multiple, so that the rest is kept on
its own (`Schema.Tidy`) and the title is looked at after it has been set.

Models and groups are told apart by project and key, and they stay: nothing
removes or changes one, but for changes of the group that a call names
(`Store.wellFormed_of_reachable`).
-/

namespace ContentStore

open Tables

namespace Schema

/-- Fields are told apart by ids and by keys, which are valid, and their defaults
may stand in them. -/
structure Tidy (s : Schema) : Prop where
  ids_distinct : (s.fields.map Field.id).Nodup
  keys_distinct : (s.fields.map Field.key).Nodup
  keys_valid : ∀ f ∈ s.fields, isValidKey f.key = true
  defaults_checked : ∀ f ∈ s.fields, f.checkDefault = .ok ()

/-- The schema is tidy, and its title is a field that holds one value. -/
structure WellFormed (s : Schema) : Prop extends s.Tidy where
  title_single : ∀ id, s.title = some id → ∃ f ∈ s.fields, f.id = id ∧ f.multiple = false

variable {s s' : Schema}

theorem wellFormed_empty (id : SchemaId) (project : ProjectId) (workspace : WorkspaceId) :
    (Schema.empty id project workspace).WellFormed where
  ids_distinct := List.nodup_nil
  keys_distinct := List.nodup_nil
  keys_valid := fun _ h => (List.not_mem_nil h).elim
  defaults_checked := fun _ h => (List.not_mem_nil h).elim
  title_single := fun _ h => nomatch h

/-! ## Adding, removing and ordering fields -/

/-- A field whose default has been checked may be added. -/
theorem wellFormed_addField {f : Field} (hs : s.WellFormed) (hf : f.checkDefault = .ok ())
    (h : s.addField f = .ok s') : s'.WellFormed := by
  obtain ⟨hvalid, hkeys⟩ := key_of_addField h
  obtain ⟨rfl, hnew⟩ := addField_eq h
  have hids : ∀ g ∈ s.fields, g.id ≠ f.id := by
    intro g hg
    simpa using List.find?_eq_none.mp hnew g hg
  -- the new field differs from the one given in its number only
  have hmem : ∀ g ∈ s.fields ++ [{ f with order := s.fields.length }],
      g ∈ s.fields ∨ g = { f with order := s.fields.length } := by
    intro g hg
    rwa [List.mem_append, List.mem_singleton] at hg
  have hnodup : ∀ {α : Type} (look : Field → α), (s.fields.map look).Nodup →
      look { f with order := s.fields.length } = look f → (∀ g ∈ s.fields, look g ≠ look f) →
      ((s.fields ++ [{ f with order := s.fields.length }]).map look).Nodup := by
    intro α look hold hsame happart
    rw [List.map_append, List.map_singleton, hsame, List.nodup_append]
    refine ⟨hold, List.nodup_singleton _, fun a ha b hb => ?_⟩
    obtain ⟨g, hg, rfl⟩ := List.mem_map.mp ha
    rw [List.mem_singleton.mp hb]
    exact happart g hg
  refine ⟨⟨?ids_distinct, ?keys_distinct, ?keys_valid, ?defaults_checked⟩, ?title_single⟩
  case ids_distinct => exact hnodup Field.id hs.ids_distinct rfl hids
  case keys_distinct => exact hnodup Field.key hs.keys_distinct rfl hkeys
  case keys_valid =>
    intro g hg
    rcases hmem g hg with hg | rfl
    · exact hs.keys_valid g hg
    · exact hvalid
  case defaults_checked =>
    intro g hg
    rcases hmem g hg with hg | rfl
    · exact hs.defaults_checked g hg
    · exact Field.checkDefault_congr (f := f) rfl rfl rfl rfl hf
  case title_single =>
    intro id hid
    obtain ⟨g, hg, hgid⟩ := hs.title_single id hid
    exact ⟨g, List.mem_append_left _ hg, hgid⟩

/-- A removed field is not the title any more. -/
theorem wellFormed_removeField {id : FieldId} {f : Field} (hs : s.WellFormed)
    (h : s.removeField id = .ok (f, s')) : s'.WellFormed := by
  have hothers := onlyAt_removeField h
  have htitle : s'.title = if s.title = some id then none else s.title := by
    unfold removeField at h
    split at h
    · cases h
    · cases h
      rfl
  obtain ⟨-, -, -, before, after, hfields, hfields'⟩ := removeField_eq h
  have hsub : s'.fields.Sublist s.fields := by
    rw [hfields, hfields']
    exact (List.sublist_cons_self f after).append_left before
  refine ⟨⟨?ids_distinct, ?keys_distinct, ?keys_valid, ?defaults_checked⟩, ?title_single⟩
  case ids_distinct => exact hs.ids_distinct.sublist (hsub.map _)
  case keys_distinct => exact hs.keys_distinct.sublist (hsub.map _)
  case keys_valid => exact fun g hg => hs.keys_valid g (hsub.subset hg)
  case defaults_checked => exact fun g hg => hs.defaults_checked g (hsub.subset hg)
  case title_single =>
    intro id' hid'
    rw [htitle] at hid'
    split at hid'
    · cases hid'
    · rename_i hne
      obtain ⟨g, hg, rfl, hsingle⟩ := hs.title_single id' hid'
      have hgid : g.id ≠ id := fun heq => hne (heq ▸ hid')
      exact ⟨g, (hothers g hgid).mpr hg, rfl, hsingle⟩

/-- The fields in order are the fields from before, up to their numbers. -/
theorem mem_normalizeOrder (f : Field) :
    (∃ n, { f with order := n } ∈ s.normalizeOrder.fields) ↔
      ∃ n, { f with order := n } ∈ s.fields := by
  have hmem : ∀ fields : List Field, (∃ n, { f with order := n } ∈ fields) ↔
      { f with order := 0 } ∈ fields.map fun g => { g with order := 0 } := by
    intro fields
    rw [List.mem_map]
    constructor
    · intro hex
      obtain ⟨n, hf⟩ := hex
      exact ⟨_, hf, rfl⟩
    · intro hex
      obtain ⟨g, hg, heq⟩ := hex
      have hfg : ({ f with order := g.order } : Field) = g :=
        congrArg (fun x : Field => { x with order := g.order }) heq.symm
      exact ⟨g.order, hfg ▸ hg⟩
  rw [hmem, hmem, (map_normalizeOrder (fun _ _ => rfl) s).mem_iff]

theorem wellFormed_normalizeOrder (hs : s.WellFormed) : s.normalizeOrder.WellFormed := by
  have hback : ∀ f ∈ s.normalizeOrder.fields, ∃ n, { f with order := n } ∈ s.fields :=
    fun f hf => (mem_normalizeOrder f).mp ⟨f.order, hf⟩
  refine ⟨⟨?ids_distinct, ?keys_distinct, ?keys_valid, ?defaults_checked⟩, ?title_single⟩
  case ids_distinct => exact (map_normalizeOrder (fun _ _ => rfl) s).nodup_iff.mpr hs.ids_distinct
  case keys_distinct => exact (map_normalizeOrder (fun _ _ => rfl) s).nodup_iff.mpr hs.keys_distinct
  case keys_valid =>
    intro f hf
    obtain ⟨n, hg⟩ := hback f hf
    exact hs.keys_valid { f with order := n } hg
  case defaults_checked =>
    intro f hf
    obtain ⟨n, hg⟩ := hback f hf
    exact Field.checkDefault_congr (f := { f with order := n }) rfl rfl rfl rfl
      (hs.defaults_checked _ hg)
  case title_single =>
    intro id hid
    obtain ⟨g, hg, hgid, hsingle⟩ := hs.title_single id hid
    obtain ⟨n, hf⟩ := (mem_normalizeOrder g).mpr ⟨g.order, hg⟩
    exact ⟨_, hf, hgid, hsingle⟩

/-! ## Exchanging fields and setting the title -/

/-- A field may be exchanged for one of the same id, if its key is valid and no
other field's, and its default has been checked. -/
theorem Tidy.setField {id : FieldId} {f g : Field} (hs : s.Tidy) (hf : s.field? id = some f)
    (hid : g.id = id) (hvalid : isValidKey g.key = true)
    (hothers : ∀ x ∈ s.fields, x.key = g.key → x.id = id) (hg : g.checkDefault = .ok ()) :
    (s.setField id g).Tidy := by
  have hfid := (mem_of_field? hf).2
  obtain ⟨before, after, hfields, hset⟩ := setField_split hf
  have hids := hs.ids_distinct
  have hkeys := hs.keys_distinct
  rw [hfields, List.map_append, List.map_cons, List.nodup_middle, List.nodup_cons] at hids hkeys
  have hmem : ∀ x ∈ (s.setField id g).fields, x = g ∨ x ∈ s.fields := by
    intro x hx
    rw [hset, List.mem_append, List.mem_cons] at hx
    rw [hfields, List.mem_append, List.mem_cons]
    grind
  constructor
  case ids_distinct =>
    rw [hset, List.map_append, List.map_cons, List.nodup_middle, List.nodup_cons, hid, ← hfid]
    exact hids
  case keys_distinct =>
    rw [hset, List.map_append, List.map_cons, List.nodup_middle, List.nodup_cons]
    refine ⟨fun hclash => hids.1 ?_, hkeys.2⟩
    -- a field of the new key would have the id of the exchanged field
    rw [← List.map_append] at hclash ⊢
    obtain ⟨x, hx, hxkey⟩ := List.mem_map.mp hclash
    have hxs : x ∈ s.fields := by
      rw [hfields, List.mem_append, List.mem_cons]
      rcases List.mem_append.mp hx with hx | hx
      · exact .inl hx
      · exact .inr (.inr hx)
    exact List.mem_map.mpr ⟨x, hx, (hothers x hxs hxkey).trans hfid.symm⟩
  case keys_valid =>
    intro x hx
    rcases hmem x hx with rfl | hx
    · exact hvalid
    · exact hs.keys_valid x hx
  case defaults_checked =>
    intro x hx
    rcases hmem x hx with rfl | hx
    · exact hg
    · exact hs.defaults_checked x hx

/-- After an exchange the title still is a field, and one that holds one value
unless it is the new field. -/
theorem WellFormed.title_setField {id : FieldId} {f g : Field} (hs : s.WellFormed)
    (hf : s.field? id = some f) (hid : g.id = id) {id' : FieldId} (htitle : s.title = some id') :
    ∃ x ∈ (s.setField id g).fields, x.id = id' ∧ (x.multiple = false ∨ x = g) := by
  by_cases heq : id' = id
  · obtain ⟨before, after, -, hset⟩ := setField_split hf
    refine ⟨g, ?_, hid.trans heq.symm, .inr rfl⟩
    rw [hset]
    exact List.mem_append_right _ List.mem_cons_self
  · obtain ⟨x, hx, rfl, hsingle⟩ := hs.title_single id' htitle
    exact ⟨x, (onlyAt_setField hid x heq).mpr hx, rfl, .inl hsingle⟩

/-- Setting the title is refused unless it is a field that holds one value. -/
theorem Tidy.setTitle {id : Option FieldId} (hs : s.Tidy) (h : s.setTitle id = .ok s') :
    s'.WellFormed := by
  unfold Schema.setTitle at h
  split at h
  · cases h
    exact { hs with title_single := fun _ h => nomatch h }
  · rename_i id
    split at h
    · rename_i f hf
      split at h
      · cases h
      · rename_i hsingle
        cases h
        obtain ⟨hmem, hid⟩ := mem_of_field? hf
        refine { hs with title_single := fun id' hid' => ?_ }
        cases hid'
        exact ⟨f, hmem, hid, Bool.eq_false_iff.mpr hsingle⟩
    · cases h

end Schema

/-! ## Changing fields -/

section Changing

variable {t : Tables} {s s' : Schema}

/-- A mirror has a valid key and no default of its own to break. -/
theorem wellFormed_describeMirror {id : FieldId} {m : Mirror} (hs : s.WellFormed)
    (h : describeMirror s id m = .ok s') : s'.WellFormed := by
  obtain ⟨current, hcurrent, hkey, rfl⟩ := describeMirror_eq_ok h
  obtain ⟨hmem, hid⟩ := Schema.mem_of_field? hcurrent
  have hset : (s.setField id (m.applied current)).Tidy := by
    refine hs.setField hcurrent hid ?_ ?_
      (Field.checkDefault_congr (f := current) rfl rfl rfl rfl (hs.defaults_checked current hmem))
    · rcases hkey with hsame | ⟨-, hvalid⟩
      · rw [Mirror.applied, hsame]
        exact hs.keys_valid current hmem
      · exact hvalid
    · intro x hx hxkey
      have hxkey : x.key = m.key := hxkey
      rcases hkey with hsame | ⟨hfree, -⟩
      · rw [List.inj_on_of_nodup_map hs.keys_distinct hx hmem (hxkey.trans hsame)]
        exact hid
      · rw [Schema.hasKey, Schema.fieldByKey?, Option.isSome_eq_false_iff,
          Option.isNone_iff_eq_none] at hfree
        have hno := List.find?_eq_none.mp hfree x hx
        exact (hno (beq_iff_eq.mpr hxkey)).elim
  refine { hset with title_single := fun id' htitle => ?_ }
  obtain ⟨x, hx, rfl, hsingle⟩ := hs.title_single id' htitle
  obtain ⟨y, hy, hyid, hcases⟩ := hs.title_setField (g := m.applied current) hcurrent hid htitle
  refine ⟨y, hy, hyid, ?_⟩
  rcases hcases with hsingle | rfl
  · exact hsingle
  · -- the title is the mirror, which stays single
    rw [List.inj_on_of_nodup_map hs.ids_distinct hx hmem hyid.symm] at hsingle
    exact hsingle

/-- **A change leaves its schema well formed.**  A title that would become multiple
is refused. -/
theorem wellFormed_edited {edit : FieldEdit} {g : Field} (hs : s.WellFormed)
    (h : t.Edited s edit g s') : s'.WellFormed := by
  have hgid := h.id_eq
  obtain @⟨current, f, g, s', hcurrent, hf, hkey, htitle⟩ := h
  obtain ⟨hmem, hid⟩ := Schema.mem_of_field? hcurrent
  obtain ⟨hsame, -, hcheck⟩ := checked_editField hf
  rw [hgid] at htitle
  have hset : (s.setField edit.field g).Tidy := by
    rcases hkey with rfl | ⟨key, hvalid, hothers, rfl⟩
    · refine hs.setField hcurrent hgid ?_ (fun x hx hxkey => ?_) hcheck
      · rw [hsame]
        exact hs.keys_valid current hmem
      · rw [List.inj_on_of_nodup_map hs.keys_distinct hx hmem (hxkey.trans hsame)]
        exact hid
    · exact hs.setField hcurrent hgid hvalid
        (fun x hx hxkey => (hothers x hx hxkey).trans hgid)
        (Field.checkDefault_congr (f := f) rfl rfl rfl rfl hcheck)
  -- what is left to see when the title is not set
  have hstays : (s.title = some g.id → g.multiple = false) →
      (s.setField edit.field g).WellFormed := by
    intro hg
    refine { hset with title_single := fun id' hid' => ?_ }
    obtain ⟨x, hx, rfl, hcases⟩ := hs.title_setField hcurrent hgid hid'
    refine ⟨x, hx, rfl, ?_⟩
    rcases hcases with hsingle | rfl
    · exact hsingle
    · exact hg hid'
  unfold editTitle at htitle
  split at htitle
  · exact hset.setTitle (liftSchema_eq_ok.mp htitle)
  · split at htitle
    · exact hset.setTitle (liftSchema_eq_ok.mp htitle)
    · rename_i hother
      cases htitle
      exact hstays fun htitled => (hother htitled).elim
  · split at htitle
    · cases htitle
    · rename_i hmultiple
      cases htitle
      refine hstays fun htitled => Bool.eq_false_iff.mpr fun hg => hmultiple ⟨htitled, hg⟩

end Changing

/-! ## Every write -/

namespace Tables

/-- **Every write of the catalog leaves all schemas well formed.** -/
theorem lasting_wellFormed : Lasting fun _ t => ∀ S ∈ t.schemas, S.WellFormed where
  empty := fun _ _ hS => (List.not_mem_nil hS).elim
  same := fun _ hsame h => by rwa [hsame.schemas]
  step := by
    intro o n t m u hw h hreshapes
    have hnew : ∀ {project workspace k}, ∀ S ∈ (t.withSchemas project workspace n k).schemas,
        S.WellFormed := by
      intro project workspace k S hS
      rcases mem_withSchemas hS with hS | ⟨_, -, rfl⟩
      · exact h S hS
      · exact Schema.wellFormed_empty _ _ _
    cases hreshapes with
    | createsModel => exact hnew
    | createsGroup => exact hnew
    | changesGroup => exact h
    | createsField _ _ hcreate =>
      exact keeps_createField (fun hS hf _ hadd => Schema.wellFormed_addField hS hf hadd)
        (fun hS => hS.toTidy.setTitle) hcreate h
    | updatesFields _ _ hupdate =>
      refine keeps_updateFields (Q := Schema.WellFormed) (fun _ _ hS => wellFormed_edited hS)
        wellFormed_describeMirror wellFormed_describeMirror id (fun hS => ?_) hupdate rfl h
      split
      · exact Schema.wellFormed_normalizeOrder hS
      · exact hS
    | deletesField _ _ hdelete =>
      exact keeps_deleteField Schema.wellFormed_removeField Schema.wellFormed_normalizeOrder
        hdelete h

/-! ## Models and groups -/

/-- Models are told apart by project and key. -/
def ModelsApart (t : Tables) : Prop := (t.models.map fun M => (M.project, M.key)).Nodup

/-- A model is only created under a free key. -/
theorem lasting_modelsApart : Lasting fun _ t => t.ModelsApart where
  empty := fun _ => List.nodup_nil
  same := fun _ hsame h => by rwa [ModelsApart, hsame.models]
  step := by
    intro o n t m u hw h hreshapes
    unfold ModelsApart at h ⊢
    rcases hreshapes.models hw with hmodels | ⟨param, hfree, hmodels, -⟩
    · rwa [hmodels]
    · rw [hmodels, List.map_append, List.map_singleton, List.nodup_append]
      refine ⟨h, List.nodup_singleton _, fun a ha b hb hab => ?_⟩
      obtain ⟨M, hM, rfl⟩ := List.mem_map.mp ha
      rw [List.mem_singleton.mp hb, NewModel.made, Prod.mk.injEq] at hab
      have hno := List.find?_eq_none.mp hfree M hM
      simp [hab] at hno

end Tables

namespace Store

variable {s t : Store} {ctx : Context}

/-- **No call removes a group, or changes one that it does not name.** -/
theorem mem_groups_after (hs : s.Reachable) (ctx : Context) {c : Call} (hc : ¬ c.Opens) {G : Group}
    (hG : G ∈ s.tables.groups) : ∃ G' ∈ (c.after ctx s).tables.groups, G'.id = G.id ∧
      ((∀ edit, c ≠ .updateGroup G.id edit) → G' = G) := by
  have hnested := Tables.lasting_nested.reachable hs
  have hsame : ∀ t : Store, t.tables.groups = s.tables.groups → ∃ G' ∈ t.tables.groups,
      G'.id = G.id ∧ ((∀ edit, c ≠ .updateGroup G.id edit) → G' = G) :=
    fun t ht => ⟨G, ht ▸ hG, rfl, fun _ => rfl⟩
  have hrests : ∀ t : Store, s.Rests t → ∃ G' ∈ t.tables.groups,
      G'.id = G.id ∧ ((∀ edit, c ≠ .updateGroup G.id edit) → G' = G) :=
    fun t ht => hsame t (congrArg Tables.groups ht.1)
  have hitems : c.OfItems → ∃ G' ∈ (c.after ctx s).tables.groups,
      G'.id = G.id ∧ ((∀ edit, c ≠ .updateGroup G.id edit) → G' = G) := fun hitems =>
    hsame _ (sameCatalog_of_outcome (outcome_after hs.sane ctx c) hitems).1.groups
  cases c with
  | createModel param =>
    refine (reaches_newModel param).after hrests fun _ t h => hsame t ?_
    obtain ⟨-, -, -, -, htables, -⟩ := h
    have hrest :=
      rest_withSchemas s.tables param.project param.workspace s.supply.next param.schemas
    rw [htables, hrest]
    rfl
  | createGroup param =>
    refine (reaches_newGroup param).after hrests fun _ t h => ⟨G, ?_, rfl, fun _ => rfl⟩
    obtain ⟨-, -, hfree, -, htables, rfl⟩ := h
    rw [htables, hnested.groups_made hfree]
    exact List.mem_append_left _ hG
  | updateGroup id edit =>
    refine (reaches_changedGroup id edit).after hrests fun _ t h => ?_
    obtain ⟨g, S, key, hg, -, -, hkey, -, htables⟩ := h
    obtain ⟨hgmem, rfl⟩ := mem_of_group hg
    have hid : (edit.applied g key).id = g.id := rfl
    have hmem : ∀ {H}, H ∈ t.tables.groups ↔
        H ∈ s.tables.groups ∧ H ≠ g ∨ H = edit.applied g key := by
      rw [htables]
      exact hnested.mem_changed hgmem hid rfl (key_of_newGroupKey hkey)
    by_cases hGg : G = g
    · subst hGg
      exact ⟨edit.applied G key, hmem.mpr (.inr rfl), rfl, fun hother => (hother edit rfl).elim⟩
    · exact ⟨G, hmem.mpr (.inl ⟨hG, hGg⟩), rfl, fun _ => rfl⟩
  | createField param =>
    refine (reaches_newField param).after hrests fun _ t h => hsame t ?_
    obtain ⟨S, -, -, hcreate, -⟩ := h
    rw [(redraws_createField hcreate).rest]
  | updateField schema edit =>
    rw [Call.after, after_updateField]
    refine (reaches_changedFields schema [edit]).after hrests fun _ t h => hsame t ?_
    obtain ⟨S, -, -, hupdate, -⟩ := h
    rw [(alike_of_updateFields hs.sane.wired.schemas_distinct hupdate).rest]
  | updateFields schema edits =>
    refine (reaches_changedFields schema edits).after hrests fun _ t h => hsame t ?_
    obtain ⟨S, -, -, hupdate, -⟩ := h
    rw [(alike_of_updateFields hs.sane.wired.schemas_distinct hupdate).rest]
  | deleteField schema field =>
    refine (reaches_deletedField schema field).after hrests fun _ t h => hsame t ?_
    obtain ⟨S, -, -, hdelete, -⟩ := h
    rw [(redraws_deleteField hdelete).rest]
  | openWith => exact (hc trivial).elim
  | _ => exact hitems trivial

/-- Calls that add to the catalog leave all groups as they are. -/
theorem mem_groups_of_extending (hs : s.Reachable) (h : Run Call.Extending s t) {G : Group}
    (hG : G ∈ s.tables.groups) : G ∈ t.tables.groups := by
  refine hs.extending h (P := fun u => G ∈ u.tables.groups) (fun hrests hG => by rwa [hrests.1])
    (fun {u ctx c} hu hc hG => ?_) hG
  obtain ⟨G', hG', -, hsame⟩ := mem_groups_after hu ctx hc.not_opens hG
  refine hsame (fun edit heq => ?_) ▸ hG'
  subst heq
  exact hc

/-- All models and groups of the one store are stored in the other, the models as
they are and the groups as well where they are fixed. -/
structure Preserves (s : Store) (fixed : GroupId → Prop) (t : Store) : Prop where
  models : ∀ M ∈ s.tables.models, t.tables.model? M.id = some M
  groups : ∀ G ∈ s.tables.groups, ∃ G', t.tables.group? G.id = some G' ∧ (fixed G.id → G' = G)

/-- Where all rows are found in the tables, they are found under their ids. -/
theorem preserves_of_mem {fixed : GroupId → Prop} (ht : t.Reachable)
    (hmodels : ∀ M ∈ s.tables.models, M ∈ t.tables.models)
    (hgroups : ∀ G ∈ s.tables.groups, ∃ G' ∈ t.tables.groups, G'.id = G.id ∧
      (fixed G.id → G' = G)) : s.Preserves fixed t where
  models := fun M hM => ht.sane.wired.model?_of_mem (hmodels M hM)
  groups := fun G hG => by
    obtain ⟨G', hG', hid, hsame⟩ := hgroups G hG
    exact ⟨G', hid ▸ (Tables.lasting_nested.reachable ht).group?_of_mem hG', hsame⟩

/-- Applying a declaration preserves all models and groups. -/
theorem preserves_declare (hs : s.Reachable) (d : Declaration) :
    s.Preserves (fun _ => True) (declare d s).2 :=
  preserves_of_mem (hs.evolves (.single (.declare d)))
    (fun _ hM => (reshaping_declare d s).mem_models hs.sane.wired hM)
    fun G hG => ⟨G, mem_groups_of_extending hs (run_declare d s) hG, rfl, fun _ => rfl⟩

/-- **A call preserves all models**, and all groups but for the one that it
changes. -/
theorem preserves_after (hs : s.Reachable) (ctx : Context) (c : Call) :
    s.Preserves (fun id => ∀ edit, c ≠ .updateGroup id edit) (c.after ctx s) := by
  refine preserves_of_mem (hs.evolves (.single (.call ctx c))) (fun M hM => ?_) fun G hG => ?_
  · by_cases hitems : c.OfItems
    · have hsame := (sameCatalog_of_outcome (outcome_after hs.sane ctx c) hitems).1
      rwa [hsame.models]
    · cases outcome_after hs.sane ctx c with
      | rests h => rwa [h.1]
      | reshapes _ h => exact h.mem_models hs.sane.wired hM
      | declares _ h => exact h.mem_models hs.sane.wired hM
      | creates h => exact (hitems h.1).elim
      | updates h => exact (hitems h.1).elim
      | removes h => exact (hitems h.1).elim
      | publishes h => exact (hitems h.ofItems).elim
  · by_cases hopens : c.Opens
    · cases c with
      | openWith config catalog =>
        have hrun := run_openWith config catalog s
        exact ⟨G, mem_groups_of_extending hs hrun hG, rfl, fun _ => rfl⟩
      | _ => exact hopens.elim
    · exact mem_groups_after hs ctx hopens hG

/-- **In a reachable store all schemas are well formed**, models and groups are told
apart by project and key, and whatever happens next removes and changes none of
them, but for a group that is changed by its id. -/
theorem wellFormed_of_reachable (hs : s.Reachable) :
    (∀ S ∈ s.tables.schemas, S.WellFormed) ∧
      (s.tables.models.map fun M => (M.project, M.key)).Nodup ∧
      (s.tables.groups.map fun G => (G.project, G.key)).Nodup ∧
      (∀ (ctx : Context) (c : Call),
        s.Preserves (fun id => ∀ edit, c ≠ .updateGroup id edit) (c.after ctx s)) ∧
      ∀ d, s.Preserves (fun _ => True) (declare d s).2 := by
  have hnested := Tables.lasting_nested.reachable hs
  have hgroups : (s.tables.groups.map fun G => (G.project, G.key)).Nodup := by
    refine List.Nodup.map_on (fun G hG H hH hGH => ?_) hnested.groups_distinct.of_map
    obtain ⟨hproject, hkey⟩ := Prod.mk.injEq .. ▸ hGH
    exact hnested.keys_apart G hG H hH hproject hkey
  exact ⟨Tables.lasting_wellFormed.reachable hs, Tables.lasting_modelsApart.reachable hs, hgroups,
    preserves_after hs, preserves_declare hs⟩

section Shelf

/-- Books with a title that has a default, and a group for their sizes. -/
def shelf : List Call := [
  .createModel (.ofKey ⟨"project"⟩ ⟨"library"⟩ "book"),
  .createField { NewField.ofKey (.ofSerial 0) "title" (.text none) with
    isTitle := true, default := some (.string "untitled") },
  .createGroup (.ofKey ⟨"project"⟩ ⟨"library"⟩ "size")]

/-- The title of books is a single field, and renaming the group leaves the model
of books as it is. -/
theorem wellFormed_of_shelf : ∃ s : Store, s.Reachable ∧
    (∃ S ∈ s.tables.schemas, S.title = some (.ofSerial 2) ∧ S.WellFormed) ∧
    ∃ M ∈ s.tables.models, ((Call.updateGroup (.ofSerial 5) ⟨some "format", none, none⟩).after
      (.maintainer ⟨"library"⟩) s).tables.model? M.id = some M := by
  have hreach : (Call.afterAll (.maintainer ⟨"library"⟩) shelf
      (blank .standard ⟨⟨0, 0⟩, 1⟩ ⟨0⟩ .silent)).Reachable :=
    (reachable_blank _ _ _ _).evolves (evolves_afterAll _ _ _)
  have hschema : ∃ S ∈ (Call.afterAll (.maintainer ⟨"library"⟩) shelf
      (blank .standard ⟨⟨0, 0⟩, 1⟩ ⟨0⟩ .silent)).tables.schemas, S.title = some (.ofSerial 2) := by
    decide +kernel
  have hmodel : ∃ M ∈ (Call.afterAll (.maintainer ⟨"library"⟩) shelf
      (blank .standard ⟨⟨0, 0⟩, 1⟩ ⟨0⟩ .silent)).tables.models, M.key = "book" := by
    decide +kernel
  obtain ⟨hwellFormed, -, -, hpreserves, -⟩ := wellFormed_of_reachable hreach
  obtain ⟨S, hS, htitle⟩ := hschema
  obtain ⟨M, hM, -⟩ := hmodel
  exact ⟨_, hreach, ⟨S, hS, htitle, hwellFormed S hS⟩, M, hM, (hpreserves _ _).models M hM⟩

end Shelf

end Store

end ContentStore
