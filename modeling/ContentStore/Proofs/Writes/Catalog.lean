import ContentStore.Proofs.Catalog.Models
import ContentStore.Proofs.Catalog.Packages
import ContentStore.Proofs.Catalog.Redrawn
import ContentStore.Proofs.Histories.Sound
import ContentStore.Store.Models
import Mathlib.Data.List.Nodup

/-!
# What writes of the catalog do

What one write of the catalog can do is said once, with all that has been checked
before (`Reshapes`): it adds a model or a group with schemas of its own, changes
a group, or creates, changes or deletes fields.  All ids that it needs are made
from the supply, so that they are new.

Whichever it is, versions and refs are left alone, and the catalog stays wired
(`Reshapes.rewires`).
-/

namespace ContentStore

namespace NewModel

/-- Number of schemas of the model. -/
def schemas (param : NewModel) : Nat := if param.metadata then 2 else 1

/-- The model that is made when `n` is the next serial number.  Its schemas come
first. -/
def made (param : NewModel) (n : Nat) : Model where
  id := .ofSerial (n + param.schemas)
  project := param.project
  key := param.key
  name := param.name.getD param.key
  description := param.description
  schema := .ofSerial n
  metadataSchema := if param.metadata then some (.ofSerial (n + 1)) else none

/-- The schemas of a new model have the next serial numbers. -/
theorem schemas_made (param : NewModel) (n : Nat) :
    (param.made n).schemas = (List.range' n param.schemas).map .ofSerial := by
  unfold Model.schemas made schemas
  cases param.metadata <;> rfl

end NewModel

/-- The group that is made when `n` is the next serial number.  Its schema comes
first. -/
def NewGroup.made (param : NewGroup) (n : Nat) : Group where
  id := .ofSerial (n + 1)
  project := param.project
  key := param.key
  name := param.name.getD param.key
  description := param.description
  schema := .ofSerial n

/-- The group with the key and the other changes. -/
def GroupEdit.applied (edit : GroupEdit) (g : Group) (key : String) : Group :=
  { g with
    key
    name := edit.name.getD g.name
    description := edit.description.getD g.description }

namespace Tables

/-- The tables with new schemas without fields, under the ids from `n` on. -/
def withSchemas (t : Tables) (project : ProjectId) (workspace : WorkspaceId) : Nat → Nat → Tables
  | _, 0 => t
  | n, k + 1 => (t.saveSchema (.empty (.ofSerial n) project workspace)).withSchemas project
      workspace (n + 1) k

variable {n : Nat} {t : Tables} {project : ProjectId} {workspace : WorkspaceId}

/-- New schemas change nothing else. -/
theorem rest_withSchemas (t : Tables) (project : ProjectId) (workspace : WorkspaceId) (n k : Nat) :
    t.withSchemas project workspace n k =
      { t with schemas := (t.withSchemas project workspace n k).schemas } := by
  induction k generalizing t n with
  | zero => rfl
  | succ k ih =>
    rw [withSchemas, ih]
    rfl

/-- New schemas have no fields, and their ids are made from `n` on. -/
theorem mem_withSchemas {k : Nat} {S : Schema}
    (hS : S ∈ (t.withSchemas project workspace n k).schemas) :
    S ∈ t.schemas ∨ ∃ i, n ≤ i ∧ S = .empty (.ofSerial i) project workspace := by
  induction k generalizing t n with
  | zero => exact .inl hS
  | succ k ih =>
    rcases ih hS with hS | ⟨i, hi, rfl⟩
    · rcases mem_saveSchema.mp hS with rfl | ⟨hS, -⟩
      · exact .inr ⟨n, Nat.le_refl n, rfl⟩
      · exact .inl hS
    · exact .inr ⟨i, by omega, rfl⟩

/-- No schema is lost by them. -/
theorem exists_mem_withSchemas {k : Nat} {S : Schema} (hS : S ∈ t.schemas) :
    ∃ S' ∈ (t.withSchemas project workspace n k).schemas, S'.id = S.id := by
  induction k generalizing t n S with
  | zero => exact ⟨S, hS, rfl⟩
  | succ k ih =>
    obtain ⟨S', hS', hid'⟩ := exists_mem_saveSchema hS
    obtain ⟨S'', hS'', hid''⟩ := ih hS'
    exact ⟨S'', hS'', hid''.trans hid'⟩

/-- New schemas are used by nothing. -/
theorem wired_withSchemas (hw : Wired n t) (project : ProjectId) (workspace : WorkspaceId)
    (k : Nat) :
    Wired (n + k) (t.withSchemas project workspace n k) ∧
      (∀ s, t.Unused s → (t.withSchemas project workspace n k).Unused s) ∧
      ∀ s ∈ (List.range' n k).map Id.ofSerial,
        (t.withSchemas project workspace n k).Unused s := by
  induction k generalizing t n with
  | zero => exact ⟨hw, fun _ hs => hs, fun _ hs => (List.not_mem_nil hs).elim⟩
  | succ k ih =>
    obtain ⟨hfirst, hown, hkept⟩ := wired_newSchema hw project workspace
    obtain ⟨hrest, hkept', hnew⟩ := ih hfirst
    refine ⟨?_, fun s hs => hkept' s (hkept s hs), fun s hs => ?_⟩
    · rw [← Nat.add_assoc, Nat.add_right_comm]
      exact hrest
    · rw [List.range'_succ, List.map_cons, List.mem_cons] at hs
      rcases hs with rfl | hs
      · exact hkept' _ hown
      · exact hnew s hs

/-- A model that is made stands last, and no other makes room for it. -/
theorem models_made (hw : Wired n t) {param : NewModel}
    (hfree : t.modelByKey? param.project param.key = none) :
    ((t.withSchemas param.project param.workspace n param.schemas).saveModel
      (param.made n)).models = t.models ++ [param.made n] := by
  have hrest := rest_withSchemas t param.project param.workspace n param.schemas
  have hmodels := congrArg Tables.models hrest
  rw [models_saveModel, hmodels]
  · intro M hM
    rw [hmodels] at hM
    exact (hw.models_given M hM).ne_ofSerial (Nat.le_add_right n param.schemas)
  · rw [hrest]
    exact hfree

/-- Serial numbers in a row make distinct ids. -/
theorem nodup_ofSerial {k : IdKind} (n m : Nat) :
    ((List.range' n m).map fun i => (.ofSerial i : Id k)).Nodup :=
  List.Nodup.map (fun _ _ h => Id.ofSerial_inj h) List.nodup_range'

end Tables

namespace Write

open Tables

/-- What an operator can do to the catalog with one write.  The numbers are the
next serial numbers before and after. -/
inductive Reshapes (o : Operator) (n : Nat) (t : Tables) : Nat → Tables → Prop
  | createsModel {param : NewModel} (hmay : o.canMaintain param.workspace = true)
      (hvalid : isValidKey param.key = true)
      (hfree : t.modelByKey? param.project param.key = none) :
      Reshapes o n t (n + param.schemas + 1)
        ((t.withSchemas param.project param.workspace n param.schemas).saveModel (param.made n))
  | createsGroup {param : NewGroup} (hmay : o.canMaintain param.workspace = true)
      (hvalid : isValidKey param.key = true)
      (hfree : t.groupByKey? param.project param.key = none) :
      Reshapes o n t (n + 2)
        ((t.withSchemas param.project param.workspace n 1).saveGroup (param.made n))
  | changesGroup {id : GroupId} {g : Group} {S : Schema} {edit : GroupEdit} {key : String}
      (hg : t.group id = .ok g) (hS : t.schema g.schema = .ok S)
      (hmay : o.canMaintain S.workspace = true) (hkey : newGroupKey t g edit.key = .ok key) :
      Reshapes o n t n (t.saveGroup (edit.applied g key))
  | createsField {param : NewField} {S : Schema} {f : Field} {u : Tables}
      (hS : t.schema param.schema = .ok S) (hmay : o.canMaintain S.workspace = true)
      (h : t.createField param (.ofSerial n) (.ofSerial (n + 1)) = .ok (u, f)) :
      Reshapes o n t (n + 2) u
  | updatesFields {id : SchemaId} {edits : List FieldEdit} {S : Schema} {fields : List Field}
      {u : Tables} (hS : t.schema id = .ok S) (hmay : o.canMaintain S.workspace = true)
      (h : t.updateFields id edits = .ok (u, fields)) :
      Reshapes o n t n u
  | deletesField {id : SchemaId} {field : FieldId} {S : Schema} {u : Tables}
      (hS : t.schema id = .ok S) (hmay : o.canMaintain S.workspace = true)
      (h : t.deleteField id field = .ok u) :
      Reshapes o n t n u

/-! ## The bodies -/

section Bodies

variable {w w' : Work}

/-- A new schema is saved without fields, under the next serial number. -/
theorem gives_newSchema {project : ProjectId} {workspace : WorkspaceId} {s : Schema}
    (h : Gives (newSchema project workspace) w s w') :
    s = .empty (.ofSerial w.supply.next) project workspace ∧
      w'.supply.next = w.supply.next + 1 ∧ w'.tables = w.tables.saveSchema s := by
  unfold newSchema at h
  simp only [gives_bind, gives_change, gives_pure] at h
  obtain ⟨id, w₁, hid, _, _, rfl, rfl, rfl⟩ := h
  obtain ⟨rfl, htables, hsupply⟩ := gives_freshId hid
  exact ⟨rfl, by rw [hsupply], by rw [htables]⟩

/-- Saving something under a fresh id. -/
theorem gives_saveFresh {k : IdKind} {α : Type} (save : Tables → α → Tables) {make : Id k → α}
    {a : α}
    (h : Gives (do
      let id ← freshId
      change fun t => save t (make id)
      pure (make id)) w a w') :
    a = make (.ofSerial w.supply.next) ∧ w'.supply.next = w.supply.next + 1 ∧
      w'.tables = save w.tables a := by
  simp only [gives_bind, gives_change, gives_pure] at h
  obtain ⟨id, w₁, hid, _, _, rfl, rfl, rfl⟩ := h
  obtain ⟨rfl, htables, hsupply⟩ := gives_freshId hid
  exact ⟨rfl, by rw [hsupply], by rw [htables]⟩

/-- **What creating a model does.** -/
theorem gives_createModel {param : NewModel} {M : Model} (h : Gives (createModel param) w M w') :
    w.tables.modelByKey? param.project param.key = none ∧
      w'.supply.next = w.supply.next + param.schemas + 1 ∧
      w'.tables = (w.tables.withSchemas param.project param.workspace w.supply.next
        param.schemas).saveModel M ∧ M = param.made w.supply.next := by
  unfold createModel at h
  simp only [gives_bind, gives_tables] at h
  obtain ⟨_, _, ⟨rfl, rfl⟩, h⟩ := h
  split at h
  · simp only [gives_bind] at h
    obtain ⟨_, _, hthrow, -⟩ := h
    exact (gives_throw hthrow).elim
  · rename_i hfree
    refine ⟨by simpa using hfree, ?_⟩
    rw [gives_bind] at h
    obtain ⟨s, w₁, hschema, h⟩ := h
    obtain ⟨rfl, hsupply₁, htables₁⟩ := gives_newSchema hschema
    unfold NewModel.made NewModel.schemas
    cases hmetadata : param.metadata with
    | true =>
      rw [hmetadata, if_pos rfl, gives_bind] at h
      obtain ⟨metadata, w₂, hsecond, h⟩ := h
      rw [map_eq_pure_bind, gives_bind] at hsecond
      obtain ⟨s', _, hschema', hsecond⟩ := hsecond
      obtain ⟨rfl, rfl⟩ := gives_pure.mp hsecond
      obtain ⟨rfl, hsupply₂, htables₂⟩ := gives_newSchema hschema'
      obtain ⟨rfl, hsupply, htables⟩ := gives_saveFresh Tables.saveModel h
      rw [hsupply, htables, hsupply₂, htables₂, hsupply₁, htables₁]
      exact ⟨rfl, rfl, rfl⟩
    | false =>
      rw [hmetadata, if_neg (by simp), gives_bind] at h
      obtain ⟨metadata, _, hsecond, h⟩ := h
      obtain ⟨rfl, rfl⟩ := gives_pure.mp hsecond
      obtain ⟨rfl, hsupply, htables⟩ := gives_saveFresh Tables.saveModel h
      rw [hsupply, htables, hsupply₁, htables₁]
      exact ⟨rfl, rfl, rfl⟩

/-- **What creating a group does.** -/
theorem gives_createGroup {param : NewGroup} {G : Group} (h : Gives (createGroup param) w G w') :
    w.tables.groupByKey? param.project param.key = none ∧
      w'.supply.next = w.supply.next + 2 ∧
      w'.tables = (w.tables.withSchemas param.project param.workspace w.supply.next
        1).saveGroup G ∧ G = param.made w.supply.next := by
  unfold createGroup at h
  simp only [gives_bind, gives_tables] at h
  obtain ⟨_, _, ⟨rfl, rfl⟩, h⟩ := h
  split at h
  · simp only [gives_bind] at h
    obtain ⟨_, _, hthrow, -⟩ := h
    exact (gives_throw hthrow).elim
  · rename_i hfree
    refine ⟨by simpa using hfree, ?_⟩
    rw [gives_bind] at h
    obtain ⟨s, w₁, hschema, h⟩ := h
    obtain ⟨rfl, hsupply₁, htables₁⟩ := gives_newSchema hschema
    obtain ⟨rfl, hsupply, htables⟩ := gives_saveFresh Tables.saveGroup h
    rw [hsupply, htables, hsupply₁, htables₁]
    exact ⟨rfl, rfl, rfl⟩

/-- **What changing a group does.** -/
theorem gives_updateGroup {g G : Group} {edit : GroupEdit}
    (h : Gives (updateGroup g edit) w G w') :
    ∃ key, newGroupKey w.tables g edit.key = .ok key ∧ w'.supply = w.supply ∧
      w'.tables = w.tables.saveGroup (edit.applied g key) := by
  unfold updateGroup at h
  simp only [gives_bind, gives_tables, gives_lift, gives_change, gives_pure] at h
  obtain ⟨_, _, ⟨rfl, rfl⟩, key, _, ⟨hkey, rfl⟩, _, _, rfl, rfl, rfl⟩ := h
  exact ⟨key, hkey, rfl, rfl⟩

/-- A change of the tables at one go succeeds as the change does. -/
theorem gives_step {α : Type} {f : Tables → Except Error (Tables × α)} {a : α}
    (h : Gives (step f) w a w') :
    f w.tables = .ok (w'.tables, a) ∧ w'.supply = w.supply := by
  unfold step at h
  simp only [gives_bind, gives_tables, gives_lift, gives_change, gives_pure] at h
  obtain ⟨_, _, ⟨rfl, rfl⟩, ⟨t, b⟩, _, ⟨hf, rfl⟩, _, _, rfl, rfl, rfl⟩ := h
  exact ⟨hf, rfl⟩

/-- **What creating a field does.** The field and its mirror get new ids. -/
theorem gives_createField {param : NewField} {f : Field}
    (h : Gives (do
      let id ← freshId
      let mirrorId ← freshId
      step fun t => t.createField param id mirrorId) w f w') :
    w.tables.createField param (.ofSerial w.supply.next) (.ofSerial (w.supply.next + 1)) =
        .ok (w'.tables, f) ∧
      w'.supply.next = w.supply.next + 2 := by
  simp only [gives_bind] at h
  obtain ⟨id, w₁, hid, mirrorId, w₂, hmirrorId, hstep⟩ := h
  obtain ⟨rfl, htables₁, hsupply₁⟩ := gives_freshId hid
  obtain ⟨rfl, htables₂, hsupply₂⟩ := gives_freshId hmirrorId
  obtain ⟨hcreate, hsupply⟩ := gives_step hstep
  rw [htables₂, htables₁, hsupply₁] at hcreate
  exact ⟨hcreate, by rw [hsupply, hsupply₂, hsupply₁]⟩

/-- **What deleting a field does.** -/
theorem gives_deleteField {id : SchemaId} {field : FieldId} {a : Unit}
    (h : Gives (step fun t => (t.deleteField id field).map fun t => (t, ())) w a w') :
    w.tables.deleteField id field = .ok w'.tables ∧ w'.supply = w.supply := by
  obtain ⟨hdelete, hsupply⟩ := gives_step h
  obtain ⟨u, hdeleted, heq⟩ := map_eq_ok.mp hdelete
  cases heq
  exact ⟨hdeleted, hsupply⟩

end Bodies

/-! ## The catalog stays wired -/

/-- Nothing but the catalog differs, and it is wired. -/
structure Rewires (n : Nat) (t : Tables) (m : Nat) (u : Tables) : Prop where
  versions : u.versions = t.versions
  refs : u.refs = t.refs
  supply : n ≤ m
  wired : Wired m u

namespace Rewires

variable {n m k : Nat} {t u v : Tables}

/-- Writes of the catalog follow each other. -/
theorem trans (h : Rewires n t m u) (h' : Rewires m u k v) : Rewires n t k v :=
  ⟨h'.versions.trans h.versions, h'.refs.trans h.refs, Nat.le_trans h.supply h'.supply, h'.wired⟩

/-- Histories stay sound when the catalog changes. -/
theorem sound (h : Rewires n t m u) (hs : Sound n t) : Sound m u :=
  (hs.mono h.supply).congr h.versions h.refs

/-- The catalog has no versions to change. -/
theorem versionsOf (h : Rewires n t m u) (x : ItemId) : u.versionsOf x = t.versionsOf x := by
  rw [Tables.versionsOf, h.versions]
  rfl

/-- A change of schemas alone. -/
theorem of_schemas (hrest : u = { t with schemas := u.schemas }) (hle : n ≤ m) (hw : Wired m u) :
    Rewires n t m u :=
  ⟨by rw [hrest], by rw [hrest], hle, hw⟩

end Rewires

variable {o : Operator} {n m : Nat} {t u : Tables}

/-- **A write of the catalog leaves it wired.** -/
theorem Reshapes.rewires (hw : Wired n t) (h : Reshapes o n t m u) : Rewires n t m u := by
  cases h with
  | @createsModel param _ _ hfree =>
    obtain ⟨hw', -, hnew⟩ := wired_withSchemas hw param.project param.workspace param.schemas
    have hrest := rest_withSchemas t param.project param.workspace n param.schemas
    refine ⟨by rw [hrest]; rfl, by rw [hrest]; rfl, by omega, wired_saveModel hw' rfl ?_ ?_ ?_⟩
    · rw [hrest]
      exact hfree
    · rw [param.schemas_made]
      exact nodup_ofSerial n _
    · rw [param.schemas_made]
      exact hnew
  | @createsGroup param _ _ _ =>
    obtain ⟨hw', -, hnew⟩ := wired_withSchemas hw param.project param.workspace 1
    have hgroup := wired_newGroup (G := param.made n) hw' (hnew _ (List.mem_singleton_self _))
    exact ⟨rfl, rfl, by omega, hgroup.mono (by omega)⟩
  | changesGroup hg _ _ _ =>
    exact ⟨rfl, rfl, Nat.le_refl _, wired_changedGroup hw (mem_of_group hg).1 rfl rfl⟩
  | createsField _ _ h =>
    obtain ⟨honly, hw'⟩ := wired_createField hw h
    exact .of_schemas honly.rest (by omega) hw'
  | updatesFields _ _ h =>
    have halike := alike_of_updateFields hw.schemas_distinct h
    exact .of_schemas halike.rest (Nat.le_refl _) (hw.of_alike halike)
  | deletesField _ _ h =>
    obtain ⟨honly, hw'⟩ := wired_deleteField hw h
    exact .of_schemas honly.rest (Nat.le_refl _) hw'

/-- **After a write of the catalog** every schema is a new one without fields, or
comes from one before. -/
theorem Reshapes.back (hw : Wired n t) (h : Reshapes o n t m u) :
    ∀ S' ∈ u.schemas, S'.fields = [] ∨ ∃ S ∈ t.schemas, S.Redrawn (fun _ => True) S' := by
  have hsame : ∀ S ∈ t.schemas, S.fields = [] ∨ ∃ R ∈ t.schemas, R.Redrawn (fun _ => True) S :=
    fun S hS => .inr ⟨S, hS, (Schema.Kept.refl S).redrawn⟩
  have hredraws : ∀ {host}, t.Redraws host u → ∀ S' ∈ u.schemas, S'.fields = [] ∨
      ∃ S ∈ t.schemas, S.Redrawn (fun _ => True) S' := by
    intro host hu S' hS'
    obtain ⟨S, hS, hredrawn, -⟩ := hu.back S' hS'
    exact .inr ⟨S, hS, hredrawn.mono fun _ _ => trivial⟩
  have hnew : ∀ {project workspace k}, ∀ S' ∈ (t.withSchemas project workspace n k).schemas,
      S'.fields = [] ∨ ∃ S ∈ t.schemas, S.Redrawn (fun _ => True) S' := by
    intro project workspace k S' hS'
    rcases mem_withSchemas hS' with hS' | ⟨_, -, rfl⟩
    · exact hsame S' hS'
    · exact .inl rfl
  cases h with
  | createsModel _ _ _ => exact hnew
  | createsGroup _ _ _ => exact hnew
  | changesGroup _ _ _ _ => exact hsame
  | createsField _ _ h => exact hredraws (redraws_createField h)
  | updatesFields _ _ h =>
    exact fun S' hS' => .inr (redrawn_of_retouches (retouches_updateFields hw.schemas_distinct h)
      S' hS')
  | deletesField _ _ h => exact hredraws (redraws_deleteField h)

end Write

end ContentStore
