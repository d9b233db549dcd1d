import ContentStore.Proofs.Catalog.Changes

/-!
# Fields come and go in pairs

A field created with a mirror gets its other end in the same step, and a field
deleted takes its other end with it.  What the stored schemas declare grows by
one tie or by the two ties of a pair (`createField_eq_ok`), and shrinks by the
same (`deleteField_eq_ok`), so the catalog stays wired.
-/

namespace ContentStore

namespace Schema

/-- The ids of the fields are distinct. -/
def Clean (s : Schema) : Prop := (s.ties.map Prod.fst).Nodup

/-- A schema is clean if its fields have distinct ids. -/
theorem clean_iff {s : Schema} : s.Clean ↔ (s.fields.map Field.id).Nodup := by
  rw [Clean, map_fst_ties]

/-- What is like a clean schema is clean. -/
theorem Alike.clean {s s' : Schema} (h : s.Alike s') (hs : s.Clean) : s'.Clean :=
  (h.ties.map Prod.fst).nodup_iff.mpr hs

/-- A field is only added under a new id. -/
theorem clean_addField {s s' : Schema} {f : Field} (h : s.addField f = .ok s') (hs : s.Clean) :
    s'.Clean := by
  obtain ⟨-, hnew⟩ := addField_eq h
  unfold Clean
  rw [(addField_eq_ok h).2, List.map_append, List.nodup_append]
  refine ⟨hs, by simp, ?_⟩
  intro a ha b hb heq
  subst heq
  have hid : a = f.id := by simpa [Field.tie] using hb
  rw [map_fst_ties] at ha
  obtain ⟨g, hg, hgid⟩ := List.mem_map.mp ha
  have hne := List.find?_eq_none.mp hnew g hg
  exact hne (beq_iff_eq.mpr (hgid.trans hid))

/-- What is left when a field has been removed. -/
theorem mem_ties_removeField {s s' : Schema} {id : FieldId} {f : Field} (hs : s.Clean)
    (h : s.removeField id = .ok (f, s')) :
    s'.Clean ∧ ∀ g e, (g, e) ∈ s'.ties ↔ (g, e) ∈ s.ties ∧ g ≠ id := by
  obtain ⟨-, rfl, before, after, hties, hties'⟩ := removeField_eq_ok h
  have hnodup : ((before ++ f.tie :: after).map Prod.fst).Nodup := hties ▸ hs
  have hsub : (before ++ after).Sublist (before ++ f.tie :: after) :=
    (List.Sublist.refl before).append (List.sublist_cons_self ..)
  refine ⟨?_, fun g e => ?_⟩
  · unfold Clean
    rw [hties']
    exact hnodup.sublist (hsub.map _)
  · rw [hties, hties']
    constructor
    · intro hmem
      refine ⟨hsub.subset hmem, ?_⟩
      intro heq
      subst heq
      rw [List.map_append, List.map_cons, List.nodup_append, List.nodup_cons] at hnodup
      obtain ⟨-, ⟨hafter, -⟩, hdisjoint⟩ := hnodup
      rcases List.mem_append.mp hmem with hmem | hmem
      · exact hdisjoint _ (List.mem_map_of_mem hmem) _ List.mem_cons_self rfl
      · have hid : f.id ∈ after.map Prod.fst := List.mem_map_of_mem hmem
        exact hafter hid
    · intro hboth
      obtain ⟨hmem, hne⟩ := hboth
      rcases List.mem_append.mp hmem with hmem | hmem
      · exact List.mem_append_left _ hmem
      · rcases List.mem_cons.mp hmem with heq | hmem
        · exact (hne (congrArg Prod.fst heq)).elim
        · exact List.mem_append_right _ hmem

/-- A field that is there can be removed. -/
theorem exists_removeField {s : Schema} {f : FieldId} {e : Option FarEnd} (h : (f, e) ∈ s.ties) :
    ∃ removed, s.removeField f = .ok removed := by
  obtain ⟨F, hF, hid, -⟩ := mem_ties.mp h
  have hsome : (s.field? f).isSome := by
    rw [field?, List.find?_isSome]
    exact ⟨F, hF, beq_iff_eq.mpr hid⟩
  obtain ⟨G, hG⟩ := Option.isSome_iff_exists.mp hsome
  unfold removeField
  rw [hG]
  exact ⟨_, rfl⟩

end Schema

namespace Tables

variable {n m : Nat} {t u : Tables}

/-- Nothing but schemas differs, and no schema is lost or made. -/
structure SchemasOnly (t u : Tables) : Prop where
  rest : u = { t with schemas := u.schemas }
  distinct : (t.schemas.map Schema.id).Nodup → (u.schemas.map Schema.id).Nodup
  ids : ∀ s, (∃ S ∈ u.schemas, S.id = s) ↔ ∃ S ∈ t.schemas, S.id = s
  clean : (∀ S ∈ t.schemas, S.Clean) → ∀ S ∈ u.schemas, S.Clean

/-- Changes of schemas follow each other. -/
theorem SchemasOnly.trans {v : Tables} (h : t.SchemasOnly u) (h' : u.SchemasOnly v) :
    t.SchemasOnly v :=
  ⟨by rw [h'.rest, h.rest], fun hd => h'.distinct (h.distinct hd),
    fun s => (h'.ids s).trans (h.ids s), fun hc => h'.clean (h.clean hc)⟩

/-- Saving a stored schema after a change that keeps its id and its ids of
fields distinct. -/
theorem SchemasOnly.saveSchema {S S' : Schema} (hS : S ∈ t.schemas) (hid : S'.id = S.id)
    (hclean : S.Clean → S'.Clean) : t.SchemasOnly (t.saveSchema S') where
  rest := rfl
  distinct := fun hd => schemas_distinct_saveSchema hd S'
  ids := fun s => by
    constructor
    · intro hex
      obtain ⟨T, hT, rfl⟩ := hex
      rcases mem_saveSchema.mp hT with rfl | ⟨hmem, -⟩
      · exact ⟨S, hS, hid.symm⟩
      · exact ⟨T, hmem, rfl⟩
    · intro hex
      obtain ⟨T, hT, rfl⟩ := hex
      by_cases hTS : T.id = S'.id
      · exact ⟨S', mem_saveSchema.mpr (.inl rfl), hTS.symm⟩
      · exact ⟨T, mem_saveSchema.mpr (.inr ⟨hT, hTS⟩), rfl⟩
  clean := fun hc T hT => by
    rcases mem_saveSchema.mp hT with rfl | ⟨hmem, -⟩
    · exact hclean (hc S hS)
    · exact hc T hmem

/-- A stored schema declares its ties and no others. -/
theorem declares_of_distinct (hd : (t.schemas.map Schema.id).Nodup) {S : Schema}
    (hS : S ∈ t.schemas) {f : FieldId} {e : Option FarEnd} :
    t.Declares S.id f e ↔ (f, e) ∈ S.ties := by
  constructor
  · intro hex
    obtain ⟨S', hS', hid, htie⟩ := hex
    rwa [List.inj_on_of_nodup_map hd hS' hS hid] at htie
  · intro htie
    exact ⟨S, hS, rfl, htie⟩

/-- Saving a stored schema with more ties. -/
theorem declares_extended (hd : (t.schemas.map Schema.id).Nodup) {S S' : Schema}
    (hS : S ∈ t.schemas) (hid : S'.id = S.id) (more : List (FieldId × Option FarEnd))
    (hties : S'.ties.Perm (S.ties ++ more)) {s : SchemaId} {f : FieldId} {e : Option FarEnd} :
    (t.saveSchema S').Declares s f e ↔ t.Declares s f e ∨ s = S.id ∧ (f, e) ∈ more := by
  rw [declares_saveSchema, hties.mem_iff, List.mem_append, hid]
  by_cases hs : s = S.id
  · subst hs
    rw [declares_of_distinct hd hS]
    simp
  · simp [hs]

/-- Saving a stored schema with fewer ties. -/
theorem declares_restricted (hd : (t.schemas.map Schema.id).Nodup) {S S' : Schema}
    (hS : S ∈ t.schemas) (hid : S'.id = S.id) (kept : FieldId → Prop)
    (hties : ∀ f e, (f, e) ∈ S'.ties ↔ (f, e) ∈ S.ties ∧ kept f) {s : SchemaId} {f : FieldId}
    {e : Option FarEnd} :
    (t.saveSchema S').Declares s f e ↔ t.Declares s f e ∧ (s = S.id → kept f) := by
  rw [declares_saveSchema, hties, hid]
  by_cases hs : s = S.id
  · subst hs
    rw [declares_of_distinct hd hS]
    simp
  · simp [hs]

/-! ## Creating a field -/

/-- A new field has the id that it was given, and no other end yet. -/
theorem newField_eq_ok {param : NewField} {id : FieldId} {f : Field}
    (h : newField param id = .ok f) : f.id = id ∧ f.farEnd? = none := by
  unfold newField at h
  obtain ⟨default, -, h⟩ := bind_eq_ok.mp h
  obtain ⟨_, -, h⟩ := bind_eq_ok.mp h
  cases h
  unfold Field.withCorresponding
  split
  · exact ⟨rfl, rfl⟩
  · rename_i hnone
    refine ⟨rfl, ?_⟩
    unfold Field.farEnd?
    split
    · rename_i model schema mirror htype
      exact (hnone _ _ _ htype).elim
    · rfl

/-- A reference that passes its check points at a stored model, with a schema of this model.
-/
theorem checkReference_eq_ok {model : ModelId} {schema : SchemaId} {a : Unit}
    (h : t.checkReference model schema = .ok a) : t.Hosts model schema := by
  unfold checkReference at h
  obtain ⟨M, hM, h⟩ := bind_eq_ok.mp h
  obtain ⟨hmem, hid⟩ := mem_of_model hM
  split at h
  · cases h
  · rename_i hschema
    exact ⟨M, hmem, hid, Decidable.not_not.mp hschema⟩

/-- A new field stays as it is, or it and its mirror are the ends of a pair, each
of which holds a single reference. -/
theorem newMirror_eq_ok {s : Schema} {f f' : Field} {param : NewField} {id : FieldId}
    {mirror : Option (SchemaId × Field)} (h : t.newMirror s f param id = .ok (f', mirror)) :
    f'.id = f.id ∧
      (f' = f ∧ mirror = none ∨
        ∃ e host g, f'.farEnd? = some e ∧ f'.multiple = false ∧ e.field = id ∧
          t.Hosts e.model e.schema ∧ t.Hosts host s.id ∧ mirror = some (e.schema, g) ∧
          g.tie = (id, some ⟨host, s.id, f.id⟩) ∧ g.multiple = false) := by
  unfold newMirror at h
  split at h
  · cases h
    exact ⟨rfl, .inl ⟨rfl, rfl⟩⟩
  · cases h
  · rename_i model target htarget
    obtain ⟨_, hcheck, h⟩ := bind_eq_ok.mp h
    have hhosts := checkReference_eq_ok hcheck
    split at h
    · cases h
      exact ⟨rfl, .inl ⟨rfl, rfl⟩⟩
    · dsimp only at h
      by_cases hmultiple : f.multiple = true
      · rw [if_pos hmultiple] at h
        cases h
      · rw [if_neg hmultiple] at h
        have hsingle : f.multiple = false := Bool.eq_false_iff.mpr hmultiple
        split at h
        · rename_i host hhost
          cases h
          unfold modelOfSchema? at hhost
          have hmem := List.mem_of_find?_eq_some hhost
          have hschema : host.schema = s.id := by simpa using List.find?_some hhost
          unfold Field.target? at htarget
          split at htarget
          · rename_i corresponding htype
            cases htarget
            unfold Field.withCorresponding
            rw [htype]
            exact ⟨rfl, .inr ⟨⟨model, target, id⟩, host.id, _, rfl, hsingle, rfl, hhosts,
              ⟨host, hmem, rfl, hschema⟩, rfl, rfl, rfl⟩⟩
          · cases htarget
        · cases h

/-- A mirror is added like any other field. -/
theorem addMirror_eq_ok {s s' : Schema} {g : Field} (h : addMirror s g = .ok s') :
    s.addField g = .ok s' := by
  unfold addMirror at h
  split at h
  · cases h
  · exact liftSchema_eq_ok.mp h

/-- A mirror goes to the schema being changed, or to another stored one. -/
theorem saveMirror_some {S S' : Schema} {target : SchemaId} {g : Field}
    (h : t.saveMirror S (some (target, g)) = .ok (u, S')) :
    target = S.id ∧ S.addField g = .ok S' ∧ u = t ∨
      target ≠ S.id ∧ S' = S ∧ ∃ other other', t.schema target = .ok other ∧
        other.addField g = .ok other' ∧ u = t.saveSchema other' := by
  unfold saveMirror at h
  dsimp only at h
  split at h
  · rename_i htarget
    obtain ⟨S₁, hadd, heq⟩ := map_eq_ok.mp h
    cases heq
    exact .inl ⟨htarget, addMirror_eq_ok hadd, rfl⟩
  · rename_i htarget
    obtain ⟨other, hother, h⟩ := bind_eq_ok.mp h
    obtain ⟨other', hadd, h⟩ := bind_eq_ok.mp h
    cases h
    exact .inr ⟨htarget, rfl, other, other', hother, addMirror_eq_ok hadd, rfl⟩

/-- Saving a mirror with the schema it belongs to, and then the schema that is
being changed. -/
theorem saveMirror_eq_ok (hd : (t.schemas.map Schema.id).Nodup) {S S' S'' : Schema}
    (hS : S ∈ t.schemas) (hid : S'.id = S.id) (hclean : S.Clean → S'.Clean)
    {own : FieldId × Option FarEnd} (hties : S'.ties = S.ties ++ [own]) {target : SchemaId}
    {g : Field} (h : t.saveMirror S' (some (target, g)) = .ok (u, S'')) :
    ∀ T, S''.Alike T → t.SchemasOnly (u.saveSchema T) ∧
      ∀ s f e, (u.saveSchema T).Declares s f e ↔
        t.Declares s f e ∨ s = S.id ∧ (f, e) = own ∨ s = target ∧ (f, e) = g.tie := by
  intro T hT
  rcases saveMirror_some h with
    ⟨htarget, hadd, rfl⟩ | ⟨htarget, rfl, other, other', hother, hadd, rfl⟩
  · obtain ⟨hid₁, hties₁⟩ := Schema.addField_eq_ok hadd
    refine ⟨.saveSchema hS (hT.id.trans (hid₁.trans hid)) fun hc =>
      hT.clean (Schema.clean_addField hadd (hclean hc)), fun s f e => ?_⟩
    rw [declares_extended hd hS (hT.id.trans (hid₁.trans hid)) [own, g.tie]]
    · rw [htarget, hid]
      simp only [List.mem_cons, List.not_mem_nil, or_false]
      grind
    · refine hT.ties.trans ?_
      rw [hties₁, hties, List.append_assoc]
      exact .refl _
  · obtain ⟨hmem, rfl⟩ := mem_of_schema hother
    obtain ⟨hid₁, hties₁⟩ := Schema.addField_eq_ok hadd
    have hfirst : t.SchemasOnly (t.saveSchema other') :=
      .saveSchema hmem hid₁ (Schema.clean_addField hadd)
    have hS₁ : S ∈ (t.saveSchema other').schemas := by
      refine mem_saveSchema.mpr (.inr ⟨hS, fun h => htarget ?_⟩)
      rw [hid, h, hid₁]
    refine ⟨hfirst.trans (.saveSchema hS₁ (hT.id.trans hid) fun hc => hT.clean (hclean hc)),
      fun s f e => ?_⟩
    rw [declares_extended (hfirst.distinct hd) hS₁ (hT.id.trans hid) [own]
      (hties ▸ hT.ties), declares_extended hd hmem hid₁ [g.tie] (hties₁ ▸ .refl _)]
    simp only [List.mem_singleton]
    grind

/-- The steps of creating a field. -/
theorem createField_steps {param : NewField} {id mirrorId : FieldId} {f : Field}
    (h : t.createField param id mirrorId = .ok (u, f)) :
    ∃ S f₀ mirror S₁ t₁ S₂ S₃, t.schema param.schema = .ok S ∧ newField param id = .ok f₀ ∧
      (∀ g, f₀.group? = some g → t.checkAcyclic S.id g = .ok ()) ∧
      t.newMirror S f₀ param mirrorId = .ok (f, mirror) ∧ S.addField f = .ok S₁ ∧
      t.saveMirror S₁ mirror = .ok (t₁, S₂) ∧
      (S₃ = S₂ ∨ S₂.setTitle (some f.id) = .ok S₃) ∧ u = t₁.saveSchema S₃ := by
  unfold createField at h
  obtain ⟨S, hS, h⟩ := bind_eq_ok.mp h
  obtain ⟨f₀, hnew, h⟩ := bind_eq_ok.mp h
  have hacyclic : ∀ g, f₀.group? = some g → t.checkAcyclic S.id g = .ok () := by
    intro g hgroup
    rw [hgroup] at h
    obtain ⟨_, hacyclic, -⟩ := bind_eq_ok.mp h
    exact hacyclic
  -- whether there is a group to check or not, the rest is the same
  have hrest : ∃ mirror S₁ t₁ S₂ S₃, t.newMirror S f₀ param mirrorId = .ok (f, mirror) ∧
      S.addField f = .ok S₁ ∧ t.saveMirror S₁ mirror = .ok (t₁, S₂) ∧
      (S₃ = S₂ ∨ S₂.setTitle (some f.id) = .ok S₃) ∧ u = t₁.saveSchema S₃ := by
    cases hgroup : f₀.group?
    all_goals rw [hgroup] at h
    case' some => obtain ⟨_, -, h⟩ := bind_eq_ok.mp h
    all_goals
      obtain ⟨⟨f₁, mirror⟩, hmirror, h⟩ := bind_eq_ok.mp h
      obtain ⟨S₁, hadd, h⟩ := bind_eq_ok.mp h
      obtain ⟨⟨t₁, S₂⟩, hsave, h⟩ := bind_eq_ok.mp h
      have hlast : ∃ S₃, (S₃ = S₂ ∨ S₂.setTitle (some f₁.id) = .ok S₃) ∧ u = t₁.saveSchema S₃ ∧
          f = f₁ := by
        dsimp only at h
        split at h
        · obtain ⟨S₃, htitle, h⟩ := bind_eq_ok.mp h
          cases h
          exact ⟨S₃, .inr (liftSchema_eq_ok.mp htitle), rfl, rfl⟩
        · cases h
          exact ⟨S₂, .inl rfl, rfl, rfl⟩
      obtain ⟨S₃, htitle, hu, rfl⟩ := hlast
      exact ⟨mirror, S₁, t₁, S₂, S₃, hmirror, liftSchema_eq_ok.mp hadd, hsave, htitle, hu⟩
  obtain ⟨mirror, S₁, t₁, S₂, S₃, hrest⟩ := hrest
  exact ⟨S, f₀, mirror, S₁, t₁, S₂, S₃, hS, hnew, hacyclic, hrest⟩

/-- A new field may become the title; that leaves all shapes alone. -/
theorem kept_newTitle {S S' : Schema} {id : FieldId} (h : S' = S ∨ S.setTitle (some id) = .ok S') :
    S.Kept S' := by
  rcases h with rfl | h
  · exact .refl S'
  · exact Schema.kept_setTitle h

/-- **What creating a field adds**: one tie, or the two ties of a pair. -/
theorem createField_eq_ok (hd : (t.schemas.map Schema.id).Nodup) {param : NewField}
    {id mirrorId : FieldId} {f : Field} (h : t.createField param id mirrorId = .ok (u, f)) :
    t.SchemasOnly u ∧ (∃ S ∈ t.schemas, S.id = param.schema) ∧
      ((∀ s g e, u.Declares s g e ↔ t.Declares s g e ∨ s = param.schema ∧ g = id ∧ e = none) ∨
        ∃ e host, e.field = mirrorId ∧ t.Hosts e.model e.schema ∧ t.Hosts host param.schema ∧
          ∀ s g e', u.Declares s g e' ↔ t.Declares s g e' ∨
            s = param.schema ∧ g = id ∧ e' = some e ∨
            s = e.schema ∧ g = mirrorId ∧ e' = some ⟨host, param.schema, id⟩) := by
  obtain ⟨S, f₀, mirror, S₁, t₁, S₂, S₃, hS, hnew, -, hmirror, hadd, hsave, htitle, rfl⟩ :=
    createField_steps h
  obtain ⟨hmem, hSid⟩ := mem_of_schema hS
  obtain ⟨hf₀, hfar₀⟩ := newField_eq_ok hnew
  have halike := (kept_newTitle htitle).alike
  obtain ⟨hid, hcases⟩ := newMirror_eq_ok hmirror
  obtain ⟨hS₁, hties₁⟩ := Schema.addField_eq_ok hadd
  have hclean := Schema.clean_addField hadd
  have hfid : f.id = id := hid.trans hf₀
  rcases hcases with ⟨rfl, rfl⟩ | ⟨e, host, g, hfar, -, hfield, hhosts, hhost, rfl, htie, -⟩
  · cases hsave
    refine ⟨.saveSchema hmem (halike.id.trans hS₁) fun hc => halike.clean (hclean hc),
      ⟨S, hmem, hSid⟩, .inl fun s g e => ?_⟩
    rw [declares_extended hd hmem (halike.id.trans hS₁) [f.tie] (hties₁ ▸ halike.ties), hSid]
    simp [Field.tie, hfar₀, hfid]
  · obtain ⟨honly, hdeclares⟩ := saveMirror_eq_ok hd hmem hS₁ hclean hties₁ hsave S₃ halike
    refine ⟨honly, ⟨S, hmem, hSid⟩, .inr ⟨e, host, hfield, hhosts, hSid ▸ hhost,
      fun s g' e' => ?_⟩⟩
    rw [hdeclares, htie, hSid, hf₀]
    simp [Field.tie, hfar, hfid]

/-! ## Deleting a field -/

/-- Only schemas differ, and what they declare is what was declared of the fields
that are kept. -/
structure Restricts (t u : Tables) (kept : FieldId → Prop) : Prop where
  only : t.SchemasOnly u
  declares : ∀ s f e, u.Declares s f e ↔ t.Declares s f e ∧ kept f

/-- Only which fields are kept counts. -/
theorem Restricts.congr {K L : FieldId → Prop} (h : t.Restricts u K) (hKL : ∀ f, K f ↔ L f) :
    t.Restricts u L :=
  ⟨h.only, fun s f e => by rw [h.declares, hKL]⟩

/-- What two restrictions keep is kept by them together. -/
theorem Restricts.trans {v : Tables} {K L : FieldId → Prop} (h : t.Restricts u K)
    (h' : u.Restricts v L) : t.Restricts v fun f => K f ∧ L f :=
  ⟨h.only.trans h'.only, fun s f e => by rw [h'.declares, h.declares, and_assoc]⟩

/-- Saving a schema without some fields that no other schema has. -/
theorem Restricts.saveSchema (hd : (t.schemas.map Schema.id).Nodup) {S S' : Schema}
    (hS : S ∈ t.schemas) (hid : S'.id = S.id) (hclean : S'.Clean) {K : FieldId → Prop}
    (hties : ∀ f e, (f, e) ∈ S'.ties ↔ (f, e) ∈ S.ties ∧ K f)
    (hown : ∀ {s f e}, t.Declares s f e → ¬ K f → s = S.id) :
    t.Restricts (t.saveSchema S') K where
  only := .saveSchema hS hid fun _ => hclean
  declares := fun s f e => by
    rw [declares_restricted hd hS hid K hties]
    refine and_congr_right fun hdeclares => ⟨fun hkept => ?_, fun hkept _ => hkept⟩
    by_contra hlost
    exact hlost (hkept (hown hdeclares hlost))

/-- The other end of a removed field is looked for in the schema being changed, or
in another stored one. -/
theorem deleteMirror_steps {S S' : Schema} {removed : Field}
    (h : t.deleteMirror S removed = .ok (u, S')) :
    removed.farEnd? = none ∧ u = t ∧ S' = S ∨
      ∃ far, removed.farEnd? = some far ∧
        (far.schema = S.id ∧ (∃ mirror, S.removeField far.field = .ok (mirror, S')) ∧ u = t ∨
          far.schema ≠ S.id ∧ S' = S ∧ ∃ other, t.schema far.schema = .ok other ∧
            ((∃ mirror other', other.removeField far.field = .ok (mirror, other') ∧
                u = t.saveSchema other') ∨
              (∃ d, other.removeField far.field = .error d) ∧ u = t)) := by
  unfold deleteMirror at h
  cases hfar : removed.farEnd? with
  | none =>
    rw [Field.farEnd?_eq_none.mp hfar] at h
    cases h
    exact .inl ⟨rfl, rfl, rfl⟩
  | some far =>
    obtain ⟨hmirror, htarget⟩ := Field.farEnd?_eq_some.mp hfar
    refine .inr ⟨far, rfl, ?_⟩
    rw [hmirror, htarget] at h
    dsimp only at h
    split at h
    · rename_i hsame
      obtain ⟨⟨mirror, S₁⟩, hremove, heq⟩ := map_eq_ok.mp h
      cases heq
      exact .inl ⟨hsame, ⟨mirror, liftSchema_eq_ok.mp hremove⟩, rfl⟩
    · rename_i hother
      obtain ⟨other, hschema, h⟩ := bind_eq_ok.mp h
      cases hremove : other.removeField far.field with
      | error d =>
        rw [hremove] at h
        cases h
        exact .inr ⟨hother, rfl, other, hschema, .inr ⟨⟨d, hremove⟩, rfl⟩⟩
      | ok removal =>
        rw [hremove] at h
        cases h
        exact .inr ⟨hother, rfl, other, hschema, .inl ⟨removal.1, removal.2, hremove, rfl⟩⟩

/-- The steps of deleting a field. -/
theorem deleteField_steps {id : SchemaId} {field : FieldId} (h : t.deleteField id field = .ok u) :
    ∃ S removed S₁ t₁ S₂, t.schema id = .ok S ∧ S.removeField field = .ok (removed, S₁) ∧
      t.deleteMirror S₁ removed = .ok (t₁, S₂) ∧ u = t₁.saveSchema S₂.normalizeOrder := by
  unfold deleteField at h
  obtain ⟨S, hS, h⟩ := bind_eq_ok.mp h
  obtain ⟨⟨removed, S₁⟩, hremove, h⟩ := bind_eq_ok.mp h
  obtain ⟨⟨t₁, S₂⟩, hmirror, h⟩ := bind_eq_ok.mp h
  cases h
  exact ⟨S, removed, S₁, t₁, S₂, hS, liftSchema_eq_ok.mp hremove, hmirror, rfl⟩

/-- The other end of a field to be deleted goes with it, in the schema itself or
in another one. -/
theorem deleteMirror_eq_ok (hw : Wired n t) {S S₁ S₂ : Schema} {removed : Field}
    (hS : S ∈ t.schemas) (hremove : S.removeField removed.id = .ok (removed, S₁))
    (hdeclared : t.Declares S.id removed.id removed.farEnd?)
    (h : t.deleteMirror S₁ removed = .ok (u, S₂)) :
    ∀ T, S₂.Alike T → t.Restricts (u.saveSchema T) fun f =>
      f ≠ removed.id ∧ ∀ far, removed.farEnd? = some far → f ≠ far.field := by
  intro T hT
  have hd := hw.schemas_distinct
  have hclean : ∀ S ∈ t.schemas, S.Clean :=
    fun S hS => Schema.clean_iff.mpr (hw.fields_distinct S hS)
  obtain ⟨hS₁, -⟩ := Schema.removeField_eq_ok hremove
  obtain ⟨hclean₁, hties₁⟩ := Schema.mem_ties_removeField (hclean S hS) hremove
  have hown : ∀ {s s' f g e e'}, t.Declares s g e → t.Declares s' f e' → ¬ f ≠ g → s' = s := by
    intro s s' f g e e' hg hf heq
    rw [not_not.mp heq] at hf
    exact hw.fields_apart hf hg
  rcases deleteMirror_steps h with ⟨hfar, rfl, rfl⟩ | ⟨far, hfar, hcases⟩
  · have halone : u.Restricts (u.saveSchema T) fun f => f ≠ removed.id :=
      .saveSchema hd hS (hT.id.trans hS₁) (hT.clean hclean₁)
        (fun f e => hT.ties.mem_iff.trans (hties₁ f e)) (hown hdeclared)
    exact halone.congr fun f => by simp [hfar]
  · obtain ⟨-, -, e', hmate, -⟩ := hw.mated (hfar ▸ hdeclared)
    suffices hboth : t.Restricts (u.saveSchema T) fun f => f ≠ far.field ∧ f ≠ removed.id from
      hboth.congr fun f => by simp [hfar, and_comm]
    rcases hcases with ⟨hsame, ⟨mirror, hremove'⟩, rfl⟩ | ⟨hother, rfl, other, hschema, hremoval⟩
    · -- both ends belong to one schema
      obtain ⟨hS₂, -⟩ := Schema.removeField_eq_ok hremove'
      obtain ⟨hclean₂, hties₂⟩ := Schema.mem_ties_removeField hclean₁ hremove'
      refine .saveSchema hd hS (hT.id.trans (hS₂.trans hS₁)) (hT.clean hclean₂) ?_ ?_
      · intro f e
        rw [hT.ties.mem_iff, hties₂, hties₁, and_assoc, and_comm (a := f ≠ removed.id)]
      · intro s f e hf hlost
        rcases not_and_or.mp hlost with hlost | hlost
        · rw [hown hmate hf hlost, hsame, hS₁]
        · exact hown hdeclared hf hlost
    · obtain ⟨hmem, hid⟩ := mem_of_schema hschema
      rw [← hid] at hmate hother
      -- the other end is there to be removed
      obtain ⟨mirror, other', hremove', rfl⟩ : ∃ mirror other',
          other.removeField far.field = .ok (mirror, other') ∧ u = t.saveSchema other' := by
        rcases hremoval with hremoval | ⟨⟨d, hfails⟩, -⟩
        · exact hremoval
        · obtain ⟨_, hsucceeds⟩ :=
            Schema.exists_removeField ((declares_of_distinct hd hmem).mp hmate)
          cases hfails.symm.trans hsucceeds
      obtain ⟨hid', -⟩ := Schema.removeField_eq_ok hremove'
      obtain ⟨hclean₂, hties₂⟩ := Schema.mem_ties_removeField (hclean other hmem) hremove'
      have hfirst : t.Restricts (t.saveSchema other') fun f => f ≠ far.field :=
        .saveSchema hd hmem hid' hclean₂ hties₂ (hown hmate)
      have hS' : S ∈ (t.saveSchema other').schemas := by
        refine mem_saveSchema.mpr (.inr ⟨hS, fun heq => hother ?_⟩)
        rw [hS₁, heq, hid']
      refine hfirst.trans (.saveSchema (hfirst.only.distinct hd) hS' (hT.id.trans hS₁)
        (hT.clean hclean₁) (fun f e => hT.ties.mem_iff.trans (hties₁ f e)) ?_)
      intro s f e hf hlost
      exact hown hdeclared ((hfirst.declares s f e).mp hf).1 hlost

/-- **What deleting a field takes away**: its tie, and that of its other end. -/
theorem deleteField_eq_ok (hw : Wired n t) {id : SchemaId} {field : FieldId}
    (h : t.deleteField id field = .ok u) :
    ∃ e, t.Declares id field e ∧
      t.Restricts u fun f => f ≠ field ∧ ∀ far, e = some far → f ≠ far.field := by
  obtain ⟨S, removed, S₁, t₁, S₂, hS, hremove, hmirror, rfl⟩ := deleteField_steps h
  obtain ⟨hmem, rfl⟩ := mem_of_schema hS
  obtain ⟨-, rfl, before, after, hties, -⟩ := Schema.removeField_eq_ok hremove
  have hdeclared : t.Declares S.id removed.id removed.farEnd? := by
    refine ⟨S, hmem, rfl, ?_⟩
    rw [hties]
    exact List.mem_append_right _ List.mem_cons_self
  exact ⟨_, hdeclared, deleteMirror_eq_ok hw hmem hremove hdeclared hmirror S₂.normalizeOrder
    (Schema.kept_normalizeOrder S₂).alike⟩

/-! ## The catalog stays wired -/

/-- What is left to see after a change of schemas. -/
theorem Wired.of_schemasOnly (hw : Wired n t) (h : t.SchemasOnly u) (hle : n ≤ m)
    (happart : ∀ {s s' f e e'}, u.Declares s f e → u.Declares s' f e' → s = s')
    (hgiven : ∀ {s f e}, u.Declares s f e → f.Given m)
    (hmated : ∀ {s f e}, u.Declares s f (some e) → e.field ≠ f ∧ t.Hosts e.model e.schema ∧
      ∃ e', u.Declares e.schema e.field (some e') ∧ e'.schema = s ∧ e'.field = f) :
    Wired m u := by
  have hmodels : u.models = t.models := by rw [h.rest]
  have hused : u.used = t.used := by rw [h.rest]; rfl
  constructor
  case schemas_distinct => exact h.distinct hw.schemas_distinct
  case schemas_given =>
    intro S hS
    obtain ⟨S', hS', hid⟩ := (h.ids S.id).mp ⟨S, hS, rfl⟩
    rw [← hid]
    exact (hw.mono hle).schemas_given S' hS'
  case fields_distinct =>
    intro S hS
    exact Schema.clean_iff.mp
      (h.clean (fun S hS => Schema.clean_iff.mpr (hw.fields_distinct S hS)) S hS)
  case fields_apart => exact happart
  case fields_given => exact hgiven
  case mated =>
    intro s f e hd
    obtain ⟨hne, hhosts, hmate⟩ := hmated hd
    exact ⟨hne, by rw [Hosts, hmodels]; exact hhosts, hmate⟩
  case models_distinct =>
    rw [hmodels]
    exact hw.models_distinct
  case models_given =>
    rw [hmodels]
    exact (hw.mono hle).models_given
  case used_distinct =>
    rw [hused]
    exact hw.used_distinct
  case used_stored =>
    intro s hs
    rw [hused] at hs
    exact (h.ids s).mpr (hw.used_stored s hs)

/-- Creating a field under new ids. -/
theorem wired_createField (hw : Wired n t) {param : NewField} {f : Field}
    (h : t.createField param (.ofSerial n) (.ofSerial (n + 1)) = .ok (u, f)) :
    t.SchemasOnly u ∧ Wired (n + 2) u := by
  obtain ⟨honly, -, hcases⟩ := createField_eq_ok hw.schemas_distinct h
  refine ⟨honly, hw.of_schemasOnly honly (by omega) ?_ ?_ ?_⟩
  all_goals
    have hfresh : ∀ {s f e}, t.Declares s f e → f ≠ .ofSerial n ∧ f ≠ .ofSerial (n + 1) := by
      intro s f e hd
      have hgiven := hw.fields_given hd
      exact ⟨hgiven.ne_ofSerial (Nat.le_refl n), hgiven.ne_ofSerial (Nat.le_succ n)⟩
    have hne : (Id.ofSerial n : FieldId) ≠ .ofSerial (n + 1) := by
      intro heq
      have := Id.ofSerial_inj heq
      omega
  case refine_1 =>
    intro s s' f e e' hd hd'
    rcases hcases with hdeclares | ⟨far, host, -, -, -, hdeclares⟩
    · rw [hdeclares] at hd hd'
      have := @hw.fields_apart
      grind
    · rw [hdeclares] at hd hd'
      have := @hw.fields_apart
      grind
  case refine_2 =>
    intro s f e hd
    have hlt : n < n + 2 ∧ n + 1 < n + 2 := by omega
    have hgiven := @(hw.mono (m := n + 2) (by omega)).fields_given
    rcases hcases with hdeclares | ⟨far, host, -, -, -, hdeclares⟩
    · rcases (hdeclares ..).mp hd with hd | ⟨-, rfl, -⟩
      · exact hgiven hd
      · exact ⟨n, hlt.1, rfl⟩
    · rcases (hdeclares ..).mp hd with hd | ⟨-, rfl, -⟩ | ⟨-, rfl, -⟩
      · exact hgiven hd
      · exact ⟨n, hlt.1, rfl⟩
      · exact ⟨n + 1, hlt.2, rfl⟩
  case refine_3 =>
    intro s f e hd
    have hold : ∀ {s f e}, t.Declares s f (some e) → _ := @hw.mated
    rcases hcases with hdeclares | ⟨far, host, hfield, hhosts, hhost, hdeclares⟩
    · rcases (hdeclares ..).mp hd with hd | ⟨-, -, heq⟩
      · obtain ⟨hne, hhosts, e', hmate, hback⟩ := hold hd
        exact ⟨hne, hhosts, e', (hdeclares ..).mpr (.inl hmate), hback⟩
      · cases heq
    · rcases (hdeclares ..).mp hd with hd | ⟨rfl, rfl, heq⟩ | ⟨rfl, rfl, heq⟩
      · obtain ⟨hne, hhosts, e', hmate, hback⟩ := hold hd
        exact ⟨hne, hhosts, e', (hdeclares ..).mpr (.inl hmate), hback⟩
      · cases heq
        rw [hfield]
        exact ⟨hne.symm, hhosts, _, (hdeclares ..).mpr (.inr (.inr ⟨rfl, rfl, rfl⟩)), rfl, rfl⟩
      · cases heq
        exact ⟨hne, hhost, far, (hdeclares ..).mpr (.inr (.inl ⟨rfl, rfl, rfl⟩)), rfl, hfield⟩

/-- Deleting a field. -/
theorem wired_deleteField (hw : Wired n t) {id : SchemaId} {field : FieldId}
    (h : t.deleteField id field = .ok u) : t.SchemasOnly u ∧ Wired n u := by
  obtain ⟨e, hdeclared, honly, hdeclares⟩ := deleteField_eq_ok hw h
  refine ⟨honly, hw.of_schemasOnly honly (Nat.le_refl n) ?_ ?_ ?_⟩
  · intro s s' f e e' hd hd'
    exact hw.fields_apart ((hdeclares ..).mp hd).1 ((hdeclares ..).mp hd').1
  · intro s f e hd
    exact hw.fields_given ((hdeclares ..).mp hd).1
  · intro s f far hd
    obtain ⟨hold, hne, hmirror⟩ := (hdeclares ..).mp hd
    obtain ⟨hfar, hhosts, far', hmate, hschema, hfield⟩ := hw.mated hold
    refine ⟨hfar, hhosts, far', (hdeclares ..).mpr ⟨hmate, ?_, ?_⟩, hschema, hfield⟩
    · -- the other end of the deleted field is gone, so this is none
      intro heq
      subst heq
      have he := (hw.tie_eq hmate hdeclared).2
      exact hmirror far' he.symm hfield.symm
    · intro far'' heq hsame
      subst heq
      obtain ⟨-, -, far₃, hmate', -, hfield'⟩ := hw.mated hdeclared
      rw [← hsame] at hmate'
      have heq := Option.some.inj (hw.tie_eq hmate hmate').2
      rw [heq] at hfield
      exact hne (hfield.symm.trans hfield')

end Tables

end ContentStore
