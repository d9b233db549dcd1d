import ContentStore.Proofs.Reachable

/-!
# Schemas and their workspaces

A schema stays in the workspace for which it was made, so that all schemas of a
model lie in one workspace (`Tables.Zoned`).

A write of the catalog is checked once, for the workspace of the schema that it
is about.  It makes schemas there, or redraws that schema; whatever else it
redraws is at the other end of a two-way field of it, and may lie elsewhere
(`Write.Stems`).
-/

namespace ContentStore

open Relation

namespace Tables

/-- The schema lies where the operator maintains, or it differs in nothing but
mirrors of one that does. -/
def SchemaInReach (t u : Tables) (o : Operator) (id : SchemaId) : Prop :=
  ∃ S', u.schema? id = some S' ∧ (o.canMaintain S'.workspace = true ∨
    ∃ H S, t.schema? H.id = some H ∧ o.canMaintain H.workspace = true ∧
      t.schema? id = some S ∧ t.Mirrors u H.id S S')

end Tables

namespace Write

open Tables

variable {o : Operator} {n m : Nat} {t u : Tables}

/-- Where a schema comes from that is there after a write of the catalog by an
operator. -/
inductive Stems (o : Operator) (n : Nat) (t u : Tables) (S' : Schema) : Prop
  | kept (h : S' ∈ t.schemas)
  | made {i : Nat} (hi : n ≤ i) (hid : S'.id = .ofSerial i)
      (hmay : o.canMaintain S'.workspace = true)
  | redrawn {S H : Schema} (hS : S ∈ t.schemas) (hid : S'.id = S.id)
      (hworkspace : S'.workspace = S.workspace) (hH : H ∈ t.schemas)
      (hmay : o.canMaintain H.workspace = true)
      (hreach : S = H ∨ t.Mirrors u H.id S S')

/-- A schema that is not new was there before, in its workspace. -/
theorem Stems.before {S' : Schema} (h : Stems o n t u S') (hgiven : S'.id.Given n) :
    ∃ S ∈ t.schemas, S.id = S'.id ∧ S.workspace = S'.workspace := by
  cases h with
  | kept h => exact ⟨S', h, rfl, rfl⟩
  | made hi hid => exact (hgiven.ne_ofSerial hi hid).elim
  | redrawn hS hid hworkspace => exact ⟨_, hS, hid.symm, hworkspace.symm⟩

/-- New schemas belong to the workspace for which they are made. -/
theorem stems_withSchemas {project : ProjectId} {workspace : WorkspaceId} {k : Nat} {S' : Schema}
    (hmay : o.canMaintain workspace = true)
    (hS' : S' ∈ (t.withSchemas project workspace n k).schemas) : Stems o n t u S' := by
  rcases mem_withSchemas hS' with hS' | ⟨i, hi, rfl⟩
  · exact .kept hS'
  · exact .made hi rfl hmay

theorem stems_redraws (hw : Wired n t) {S S' : Schema} {host : SchemaId}
    (hS : t.schema host = .ok S) (hmay : o.canMaintain S.workspace = true)
    (h : t.Redraws host u) (hS' : S' ∈ u.schemas) : Stems o n t u S' := by
  obtain ⟨hmem, rfl⟩ := mem_of_schema hS
  obtain ⟨T, hT, hredrawn, hcases⟩ := h.back S' hS'
  rcases hcases with rfl | hhost | hmirrors
  · exact .kept hT
  · obtain rfl := hw.schema_eq hT hmem hhost
    exact .redrawn hT hredrawn.id hredrawn.workspace hT hmay (.inl rfl)
  · exact .redrawn hT hredrawn.id hredrawn.workspace hmem hmay (.inr hmirrors)

/-- **Where schemas come from.** -/
theorem Reshapes.stems (hw : Wired n t) (h : Reshapes o n t m u) {S' : Schema}
    (hS' : S' ∈ u.schemas) : Stems o n t u S' := by
  cases h with
  | createsModel hmay => exact stems_withSchemas hmay hS'
  | createsGroup hmay => exact stems_withSchemas hmay hS'
  | changesGroup => exact .kept hS'
  | createsField hS hmay h => exact stems_redraws hw hS hmay (redraws_createField h) hS'
  | deletesField hS hmay h => exact stems_redraws hw hS hmay (redraws_deleteField h) hS'
  | updatesFields hS hmay h =>
    obtain ⟨hmem, rfl⟩ := mem_of_schema hS
    obtain ⟨halike, hback⟩ := back_of_retouches (retouches_updateFields hw.schemas_distinct h)
    obtain ⟨T, hT, hid, hworkspace, hcases⟩ := hback S' hS'
    rcases hcases with rfl | hhost | hmirrors
    · exact .kept hT
    · obtain rfl := hw.schema_eq hT hmem hhost
      exact .redrawn hT hid hworkspace hT hmay (.inl rfl)
    · exact .redrawn hT hid hworkspace hmem hmay (.inr (hmirrors.mono u))

/-- **No schema goes.** -/
theorem Reshapes.exists_schema (hw : Wired n t) (h : Reshapes o n t m u) {S : Schema}
    (hS : S ∈ t.schemas) : ∃ S' ∈ u.schemas, S'.id = S.id := by
  cases h with
  | createsModel => exact exists_mem_withSchemas hS
  | createsGroup => exact exists_mem_withSchemas hS
  | changesGroup => exact ⟨S, hS, rfl⟩
  | createsField _ _ h => exact (redraws_createField h).forth S hS
  | deletesField _ _ h => exact (redraws_deleteField h).forth S hS
  | updatesFields _ _ h =>
    obtain ⟨S', hS', halike⟩ := (alike_of_updateFields hw.schemas_distinct h).forth S hS
    exact ⟨S', hS', halike.id⟩

/-- **No model goes**, and a new one comes with new schemas only. -/
theorem Reshapes.models (hw : Wired n t) (h : Reshapes o n t m u) : u.models = t.models ∨
    ∃ param : NewModel, t.modelByKey? param.project param.key = none ∧
      u.models = t.models ++ [param.made n] ∧
      u.schemas = (t.withSchemas param.project param.workspace n param.schemas).schemas := by
  cases h with
  | @createsModel param _ _ hfree =>
    exact .inr ⟨param, hfree, models_made hw hfree, rfl⟩
  | @createsGroup param =>
    have hrest := rest_withSchemas t param.project param.workspace n 1
    have hmodels := congrArg Tables.models hrest
    exact .inl hmodels
  | changesGroup => exact .inl rfl
  | createsField _ _ h => exact .inl (by rw [(redraws_createField h).rest])
  | deletesField _ _ h => exact .inl (by rw [(redraws_deleteField h).rest])
  | updatesFields _ _ h =>
    exact .inl (by rw [(alike_of_updateFields hw.schemas_distinct h).rest])

theorem Reshapes.mem_models (hw : Wired n t) (h : Reshapes o n t m u) {M : Model}
    (hM : M ∈ t.models) : M ∈ u.models := by
  rcases h.models hw with hmodels | ⟨_, -, hmodels, -⟩
  · rwa [hmodels]
  · rw [hmodels]
    exact List.mem_append_left _ hM

/-- **How far a write of the catalog reaches.** -/
theorem Reshapes.reach (hw : Wired n t) (h : Reshapes o n t m u) {id : SchemaId}
    (hne : u.schema? id ≠ t.schema? id) : t.SchemaInReach u o id := by
  have hw' := (h.rewires hw).wired
  cases hS' : u.schema? id with
  | none =>
    -- then there was none before
    cases hS : t.schema? id with
    | none => exact (hne (hS'.trans hS.symm)).elim
    | some S =>
      obtain ⟨hmem, rfl⟩ := mem_of_schema (schema_eq_ok.mpr hS)
      obtain ⟨S', hmem', hid⟩ := h.exists_schema hw hmem
      rw [← hid, hw'.schema?_of_mem hmem'] at hS'
      cases hS'
  | some S' =>
    obtain ⟨hmem', rfl⟩ := mem_of_schema (schema_eq_ok.mpr hS')
    refine ⟨S', hS', ?_⟩
    cases h.stems hw hmem' with
    | kept hmem =>
      rw [hw'.schema?_of_mem hmem', hw.schema?_of_mem hmem] at hne
      exact (hne rfl).elim
    | made _ _ hmay => exact .inl hmay
    | @redrawn S H hS hid hworkspace hH hmay hreach =>
      rcases hreach with rfl | hmirrors
      · exact .inl (hworkspace ▸ hmay)
      · rw [hid]
        exact .inr ⟨H, S, hw.schema?_of_mem hH, hmay, hw.schema?_of_mem hS, hmirrors⟩

end Write

/-- Models stay however often the catalog is written. -/
theorem Store.Reshaped.mem_models {o : Operator} {s t : Store} (h : s.Reshaped o t)
    (hw : Tables.Wired s.supply.next s.tables) {M : Model} (hM : M ∈ s.tables.models) :
    M ∈ t.tables.models := by
  induction h with
  | refl => exact hM
  | tail hrun hstep ih =>
    rcases hstep with hrests | hstep
    · rwa [hrests.1]
    · exact hstep.mem_models (Store.Reshaped.rewires hrun hw).wired ih

namespace Tables

variable {n : Nat} {t : Tables}

/-- All schemas of a model lie in one workspace. -/
def Zoned (t : Tables) : Prop :=
  ∀ M ∈ t.models, ∀ S ∈ t.schemas, ∀ T ∈ t.schemas, S.id ∈ M.schemas → T.id ∈ M.schemas →
    S.workspace = T.workspace

/-- The schemas of a model are stored under ids made before. -/
theorem Wired.given_of_mem_schemas (hw : Wired n t) {M : Model} (hM : M ∈ t.models) {s : SchemaId}
    (hs : s ∈ M.schemas) : s.Given n := by
  obtain ⟨S, hS, rfl⟩ := hw.used_stored s (mem_used.mpr (.inl ⟨M, hM, hs⟩))
  exact hw.schemas_given S hS

/-- A new schema lies in the workspace for which it was made. -/
theorem workspace_of_new (hw : Wired n t) {project : ProjectId} {workspace : WorkspaceId}
    {k i : Nat} {S : Schema} (hS : S ∈ (t.withSchemas project workspace n k).schemas) (hi : n ≤ i)
    (hid : S.id = .ofSerial i) : S.workspace = workspace := by
  rcases mem_withSchemas hS with hS | ⟨_, -, rfl⟩
  · exact ((hw.schemas_given S hS).ne_ofSerial hi hid).elim
  · rfl

/-- **A write of the catalog keeps the schemas of a model together.** -/
theorem Zoned.step {o : Operator} {m : Nat} {u : Tables} (hz : t.Zoned) (hw : Wired n t)
    (h : Write.Reshapes o n t m u) : u.Zoned := by
  have hold : ∀ M ∈ t.models, ∀ S ∈ u.schemas, ∀ T ∈ u.schemas, S.id ∈ M.schemas →
      T.id ∈ M.schemas → S.workspace = T.workspace := by
    intro M hM S hS T hT hSM hTM
    obtain ⟨S₀, hS₀, hSid, hSw⟩ := (h.stems hw hS).before (hw.given_of_mem_schemas hM hSM)
    obtain ⟨T₀, hT₀, hTid, hTw⟩ := (h.stems hw hT).before (hw.given_of_mem_schemas hM hTM)
    rw [← hSw, ← hTw]
    exact hz M hM S₀ hS₀ T₀ hT₀ (hSid ▸ hSM) (hTid ▸ hTM)
  rcases h.models hw with hmodels | ⟨param, -, hmodels, hschemas⟩
  · unfold Zoned
    rwa [hmodels]
  · intro M hM S hS T hT hSM hTM
    rw [hmodels, List.mem_append, List.mem_singleton] at hM
    rcases hM with hM | rfl
    · exact hold M hM S hS T hT hSM hTM
    · have hnew : ∀ R ∈ u.schemas, R.id ∈ (param.made n).schemas →
          R.workspace = param.workspace := by
        intro R hR hRM
        rw [hschemas] at hR
        rw [NewModel.schemas_made] at hRM
        obtain ⟨i, hi, hid⟩ := List.mem_map.mp hRM
        exact workspace_of_new hw hR (List.mem_range'_1.mp hi).1 hid.symm
      exact (hnew S hS hSM).trans (hnew T hT hTM).symm

theorem lasting_zoned : Lasting fun _ t => t.Zoned where
  empty := fun _ _ h => (List.not_mem_nil h).elim
  same := fun _ hcatalog hz => by
    unfold Zoned
    rw [hcatalog.models, hcatalog.schemas]
    exact hz
  step := fun hw hz h => hz.step hw h

end Tables

end ContentStore
