import ContentStore.Proofs.Catalog.Wired

/-!
# Models and groups come with schemas of their own

A new schema has no fields, and its id is new, so it ties nothing and nothing
uses it.  A new model or group then uses such schemas and no others.  Changing a
group leaves it the schema it has.
-/

namespace ContentStore.Tables

variable {n : Nat} {t : Tables}

/-- A schema that is stored and used by no model or group. -/
def Unused (t : Tables) (s : SchemaId) : Prop := s ∉ t.used ∧ ∃ S ∈ t.schemas, S.id = s

theorem mem_used {t : Tables} {s : SchemaId} :
    s ∈ t.used ↔ (∃ M ∈ t.models, s ∈ M.schemas) ∨ ∃ G ∈ t.groups, G.schema = s := by
  simp [used, List.mem_flatMap]

/-- The schemas of a model are told apart. -/
theorem Wired.schemas_nodup (hw : Wired n t) {M : Model} (hM : M ∈ t.models) : M.schemas.Nodup := by
  have hdistinct := hw.used_distinct
  unfold used at hdistinct
  rw [List.nodup_append, List.nodup_flatMap] at hdistinct
  exact hdistinct.1.1 M hM

/-- A new schema declares nothing. -/
theorem declares_newSchema {S' : Schema} (hempty : S'.ties = [])
    (hnew : ∀ S ∈ t.schemas, S.id ≠ S'.id) {s : SchemaId} {f : FieldId} {e : Option FarEnd} :
    (t.saveSchema S').Declares s f e ↔ t.Declares s f e := by
  rw [declares_saveSchema, hempty]
  constructor
  · intro hcase
    rcases hcase with ⟨-, htie⟩ | ⟨-, hd⟩
    · exact (List.not_mem_nil htie).elim
    · exact hd
  · intro hex
    obtain ⟨S, hS, rfl, htie⟩ := hex
    exact .inr ⟨hnew S hS, S, hS, rfl, htie⟩

/-- A new schema without fields. -/
theorem wired_newSchema (hw : Wired n t) (project : ProjectId) (workspace : WorkspaceId) :
    Wired (n + 1) (t.saveSchema (.empty (.ofSerial n) project workspace)) ∧
      Unused (t.saveSchema (.empty (.ofSerial n) project workspace)) (.ofSerial n) ∧
      ∀ s, t.Unused s → Unused (t.saveSchema (.empty (.ofSerial n) project workspace)) s := by
  have hnew : ∀ S ∈ t.schemas, S.id ≠ .ofSerial n := by
    intro S hS
    exact (hw.schemas_given S hS).ne_ofSerial (Nat.le_refl n)
  have hstays : ∀ {s}, (∃ S ∈ t.schemas, S.id = s) →
      ∃ S ∈ (t.saveSchema (.empty (.ofSerial n) project workspace)).schemas, S.id = s := by
    intro s hex
    obtain ⟨S, hS, rfl⟩ := hex
    exact ⟨S, mem_saveSchema.mpr (.inr ⟨hS, hnew S hS⟩), rfl⟩
  have hdeclares : ∀ {s f e},
      (t.saveSchema (.empty (.ofSerial n) project workspace)).Declares s f e ↔
        t.Declares s f e := declares_newSchema rfl hnew
  have hunused : Id.ofSerial n ∉ t.used := by
    intro hmem
    obtain ⟨S, hS, hid⟩ := hw.used_stored _ hmem
    exact hnew S hS hid
  refine ⟨?_, ⟨hunused, _, mem_saveSchema.mpr (.inl rfl), rfl⟩,
    fun s hs => ⟨hs.1, hstays hs.2⟩⟩
  have hw' := hw.mono (Nat.le_succ n)
  constructor
  case schemas_distinct => exact schemas_distinct_saveSchema hw.schemas_distinct _
  case schemas_given =>
    intro S hS
    rcases mem_saveSchema.mp hS with rfl | ⟨hmem, -⟩
    · exact ⟨n, Nat.lt_succ_self n, rfl⟩
    · exact hw'.schemas_given S hmem
  case fields_distinct =>
    intro S hS
    rcases mem_saveSchema.mp hS with rfl | ⟨hmem, -⟩
    · exact List.nodup_nil
    · exact hw.fields_distinct S hmem
  case fields_apart => exact fun hd hd' => hw.fields_apart (hdeclares.mp hd) (hdeclares.mp hd')
  case fields_given => exact fun hd => hw'.fields_given (hdeclares.mp hd)
  case mated =>
    intro s f e hd
    obtain ⟨hne, hhosts, e', hmate, hback⟩ := hw.mated (hdeclares.mp hd)
    exact ⟨hne, hhosts, e', hdeclares.mpr hmate, hback⟩
  case models_distinct => exact hw.models_distinct
  case models_given => exact hw'.models_given
  case used_distinct => exact hw.used_distinct
  case used_stored => exact fun s hs => hstays (hw.used_stored s hs)

/-- A model under a new id and a new key replaces no model. -/
theorem models_saveModel {M : Model} (hnew : ∀ M' ∈ t.models, M'.id ≠ M.id)
    (hkey : t.modelByKey? M.project M.key = none) :
    (t.saveModel M).models = t.models ++ [M] := by
  simp only [saveModel, saveRow]
  rw [List.filter_eq_self.mpr]
  intro M' hM'
  unfold modelByKey? at hkey
  have hfree := List.find?_eq_none.mp hkey M' hM'
  have hclash : modelsClash M M' = false := by
    unfold modelsClash
    rw [Bool.or_eq_false_iff]
    refine ⟨beq_false_of_ne (hnew M' hM').symm, ?_⟩
    rw [Bool.eq_false_iff]
    intro hsame
    refine hfree ?_
    simp only [Bool.and_eq_true, beq_iff_eq] at hsame ⊢
    exact ⟨hsame.1.symm, hsame.2.symm⟩
  rw [hclash]
  rfl

/-- A new model. -/
theorem wired_saveModel (hw : Wired n t) {M : Model} (hid : M.id = .ofSerial n)
    (hkey : t.modelByKey? M.project M.key = none) (hdistinct : M.schemas.Nodup)
    (hunused : ∀ s ∈ M.schemas, t.Unused s) : Wired (n + 1) (t.saveModel M) := by
  have hw' := hw.mono (Nat.le_succ n)
  have hnew : ∀ M' ∈ t.models, M'.id ≠ M.id := by
    intro M' hM'
    rw [hid]
    exact (hw.models_given M' hM').ne_ofSerial (Nat.le_refl n)
  have hmodels := models_saveModel hnew hkey
  have hhosts : ∀ {m s}, t.Hosts m s → (t.saveModel M).Hosts m s := by
    intro m s hex
    obtain ⟨M', hM', rfl, rfl⟩ := hex
    exact ⟨M', by rw [hmodels]; exact List.mem_append_left _ hM', rfl, rfl⟩
  have hmem : ∀ M' ∈ (t.saveModel M).models, M' ∈ t.models ∨ M' = M := by
    intro M' hM'
    rw [hmodels, List.mem_append, List.mem_singleton] at hM'
    exact hM'
  have hused : (t.saveModel M).used.Perm (t.used ++ M.schemas) := by
    unfold used
    rw [hmodels, List.flatMap_append, List.append_assoc, List.append_assoc]
    refine List.Perm.append_left _ ?_
    rw [List.flatMap_singleton]
    exact List.perm_append_comm
  constructor
  case schemas_distinct => exact hw.schemas_distinct
  case schemas_given => exact hw'.schemas_given
  case fields_distinct => exact hw.fields_distinct
  case fields_apart => exact hw.fields_apart
  case fields_given => exact hw'.fields_given
  case mated =>
    intro s f e hd
    obtain ⟨hne, hhost, hmate⟩ := hw.mated hd
    exact ⟨hne, hhosts hhost, hmate⟩
  case models_distinct =>
    rw [hmodels, List.map_append, List.nodup_append]
    refine ⟨hw.models_distinct, by simp, ?_⟩
    intro a ha b hb
    obtain ⟨M', hM', rfl⟩ := List.mem_map.mp ha
    rw [List.map_singleton, List.mem_singleton] at hb
    rw [hb]
    exact hnew M' hM'
  case models_given =>
    intro M' hM'
    rcases hmem M' hM' with hM' | rfl
    · exact hw'.models_given M' hM'
    · exact ⟨n, Nat.lt_succ_self n, hid⟩
  case used_distinct =>
    rw [hused.nodup_iff, List.nodup_append]
    refine ⟨hw.used_distinct, hdistinct, ?_⟩
    intro s hs s' hs' heq
    subst heq
    exact (hunused s hs').1 hs
  case used_stored =>
    intro s hs
    rcases List.mem_append.mp (hused.mem_iff.mp hs) with hs | hs
    · exact hw.used_stored s hs
    · exact (hunused s hs).2

/-- A group in the place of others, with a schema that nothing else uses. -/
theorem wired_saveGroup (hw : Wired n t) {G : Group}
    (hunused : ∀ G' ∈ t.groups, !groupsClash G G' → G'.schema ≠ G.schema)
    (hmodels : ∀ M ∈ t.models, G.schema ∉ M.schemas)
    (hstored : ∃ S ∈ t.schemas, S.id = G.schema) : Wired n (t.saveGroup G) := by
  have hgroups : (t.saveGroup G).groups = t.groups.filter (fun r => !groupsClash G r) ++ [G] := rfl
  refine { hw with mated := hw.mated, used_distinct := ?_, used_stored := ?_ }
  · have hkept := hw.used_distinct
    unfold used at hkept ⊢
    rw [List.nodup_append] at hkept
    rw [hgroups, List.map_append, ← List.append_assoc, List.nodup_append, List.nodup_append]
    obtain ⟨hkept, hrest, hapart⟩ := hkept
    have hsub : ((t.groups.filter fun r => !groupsClash G r).map Group.schema).Sublist
        (t.groups.map Group.schema) := List.filter_sublist.map _
    refine ⟨⟨hkept, hrest.sublist hsub, fun a ha b hb => hapart a ha b (hsub.subset hb)⟩,
      by simp, ?_⟩
    intro a ha b hb
    rw [List.map_singleton, List.mem_singleton] at hb
    subst hb
    rcases List.mem_append.mp ha with ha | ha
    · obtain ⟨M, hM, hs⟩ := List.mem_flatMap.mp ha
      intro heq
      subst heq
      exact hmodels M hM hs
    · obtain ⟨G', hG', rfl⟩ := List.mem_map.mp ha
      obtain ⟨hmem, hclash⟩ := List.mem_filter.mp hG'
      exact hunused G' hmem hclash
  · intro s hs
    rcases mem_used.mp hs with hs | ⟨G', hG', rfl⟩
    · exact hw.used_stored s (mem_used.mpr (.inl hs))
    · rw [hgroups, List.mem_append, List.mem_singleton] at hG'
      rcases hG' with hG' | rfl
      · exact hw.used_stored _ (mem_used.mpr (.inr ⟨G', (List.mem_filter.mp hG').1, rfl⟩))
      · exact hstored

/-- A new group. -/
theorem wired_newGroup (hw : Wired n t) {G : Group} (hunused : t.Unused G.schema) :
    Wired n (t.saveGroup G) := by
  refine wired_saveGroup hw ?_ ?_ hunused.2
  · intro G' hG' _ heq
    exact hunused.1 (mem_used.mpr (.inr ⟨G', hG', heq⟩))
  · intro M hM hs
    exact hunused.1 (mem_used.mpr (.inl ⟨M, hM, hs⟩))

/-- A stored group with other properties, but with its schema. -/
theorem wired_changedGroup (hw : Wired n t) {G G' : Group} (hG : G ∈ t.groups)
    (hid : G'.id = G.id) (hschema : G'.schema = G.schema) : Wired n (t.saveGroup G') := by
  have hdistinct := hw.used_distinct
  unfold used at hdistinct
  rw [List.nodup_append] at hdistinct
  obtain ⟨-, hgroups, hapart⟩ := hdistinct
  refine wired_saveGroup hw ?_ ?_ ?_
  · intro H hH hclash heq
    -- another group of that schema would be the group itself, which clashes
    have hsame := List.inj_on_of_nodup_map hgroups hH hG (heq.trans hschema)
    rw [hsame] at hclash
    simp [groupsClash, hid] at hclash
  · intro M hM hs
    rw [hschema] at hs
    exact hapart _ (List.mem_flatMap.mpr ⟨M, hM, hs⟩) _ (List.mem_map_of_mem hG) rfl
  · rw [hschema]
    exact hw.used_stored _ (mem_used.mpr (.inr ⟨G, hG, rfl⟩))

end ContentStore.Tables
