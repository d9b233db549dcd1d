import ContentStore.Proofs.Writes.Catalog
import ContentStore.Proofs.Writes.Supply
import ContentStore.Store.Opening
import Mathlib.Logic.Relation

/-!
# Calls about the catalog

A call about the catalog makes one write of it, by an operator who has been
checked before, or leaves the tables alone.  What each call writes is said exactly
(`reaches_newModel` and so on), and that it is some write of the catalog
(`Store.Reshapes`).

Applying a declared catalog creates models, groups and fields one after the other
(`Store.leads_declare`), as the operator that the declaration stands for
(`Store.reshaped_openWith`).  So what every write of the catalog preserves is
preserved by all of them (`Store.Reshaped`).
-/

namespace ContentStore.Store

open Tables

/-- One write of the catalog by an operator. -/
abbrev Reshapes (o : Operator) (s t : Store) : Prop :=
  Write.Reshapes o s.supply.next s.tables t.supply.next t.tables

/-- Writes of the catalog by an operator, one after the other. -/
abbrev Reshaped (o : Operator) : Store → Store → Prop :=
  Relation.ReflTransGen fun s t => s.Rests t ∨ s.Reshapes o t

variable {s t : Store} {ctx : Context} {o : Operator}

/-! ## Single calls -/

/-- A key is accepted just if it is valid. -/
theorem ensureKey_eq_ok {key : String} : ensureKey key = .ok () ↔ isValidKey key = true := by
  unfold ensureKey
  split <;> simp [*]

/-- **A model is added**, with schemas of its own, under a valid key that is free. -/
theorem reaches_newModel (param : NewModel) : Reaches (createModel ctx param) s fun M t =>
    ctx.operator.canMaintain param.workspace = true ∧ isValidKey param.key = true ∧
      s.tables.modelByKey? param.project param.key = none ∧
      t.supply.next = s.supply.next + param.schemas + 1 ∧
      t.tables = (s.tables.withSchemas param.project param.workspace s.supply.next
        param.schemas).saveModel M ∧ M = param.made s.supply.next := by
  refine reaches_lift_bind fun _ hmay => reaches_lift_bind fun _ hkey => ?_
  refine (reaches_transact (Write.quiet_createModel _).grows s).mono fun M t hcommits => ?_
  have hmade := hcommits.elim (R := fun n u m u' => u.modelByKey? param.project param.key = none ∧
    m = n + param.schemas + 1 ∧ u' = (u.withSchemas param.project param.workspace n
      param.schemas).saveModel M ∧ M = param.made n) Write.gives_createModel
  exact ⟨Operator.checkMaintain_eq_ok.mp hmay, ensureKey_eq_ok.mp hkey, hmade⟩

/-- **A group is added**, with a schema of its own, under a valid key that is free. -/
theorem reaches_newGroup (param : NewGroup) : Reaches (createGroup ctx param) s fun G t =>
    ctx.operator.canMaintain param.workspace = true ∧ isValidKey param.key = true ∧
      s.tables.groupByKey? param.project param.key = none ∧
      t.supply.next = s.supply.next + 2 ∧
      t.tables = (s.tables.withSchemas param.project param.workspace s.supply.next
        1).saveGroup G ∧ G = param.made s.supply.next := by
  refine reaches_lift_bind fun _ hmay => reaches_lift_bind fun _ hkey => ?_
  refine (reaches_transact (Write.quiet_createGroup _).grows s).mono fun G t hcommits => ?_
  have hmade := hcommits.elim (R := fun n u m u' => u.groupByKey? param.project param.key = none ∧
    m = n + 2 ∧ u' = (u.withSchemas param.project param.workspace n 1).saveGroup G ∧
    G = param.made n) Write.gives_createGroup
  exact ⟨Operator.checkMaintain_eq_ok.mp hmay, ensureKey_eq_ok.mp hkey, hmade⟩

/-- **A group is changed**, and no other. -/
theorem reaches_changedGroup (id : GroupId) (edit : GroupEdit) :
    Reaches (updateGroup ctx id edit) s fun _ t => ∃ g S key, s.tables.group id = .ok g ∧
      s.tables.schema g.schema = .ok S ∧ ctx.operator.canMaintain S.workspace = true ∧
      Write.newGroupKey s.tables g edit.key = .ok key ∧ t.supply.next = s.supply.next ∧
      t.tables = s.tables.saveGroup (edit.applied g key) := by
  refine reaches_get_bind (reaches_lift_bind fun g hg => reaches_lift_bind fun S hS =>
    reaches_lift_bind fun _ hmay => ?_)
  refine (reaches_transact (Write.quiet_updateGroup _ _).grows s).mono fun G t hcommits => ?_
  obtain ⟨key, hkey, hsupply, htables⟩ := hcommits.elim (R := fun n u m u' =>
    ∃ key, Write.newGroupKey u g edit.key = .ok key ∧ m = n ∧
      u' = u.saveGroup (edit.applied g key)) fun hgives => by
    obtain ⟨key, hkey, hsupply, htables⟩ := Write.gives_updateGroup hgives
    exact ⟨key, hkey, by rw [hsupply], htables⟩
  exact ⟨g, S, key, hg, hS, Operator.checkMaintain_eq_ok.mp hmay, hkey, hsupply, htables⟩

/-- A write of the fields of a schema, by somebody who maintains it. -/
theorem reaches_maintaining {α : Type} {schema : SchemaId} {body : Write α} (hg : Grows body)
    {R : α → Nat → Tables → Nat → Tables → Prop} (hbody : ∀ {w w' : Work} {a : α},
      Gives body w a w' → R a w.supply.next w.tables w'.supply.next w'.tables) :
    Reaches (maintaining ctx schema body) s fun a t => ∃ S, s.tables.schema schema = .ok S ∧
      ctx.operator.canMaintain S.workspace = true ∧
      R a s.supply.next s.tables t.supply.next t.tables := by
  refine reaches_get_bind (reaches_lift_bind fun S hS => reaches_lift_bind fun _ hmay => ?_)
  exact (reaches_transact hg s).mono fun a t hcommits =>
    ⟨S, hS, Operator.checkMaintain_eq_ok.mp hmay, hcommits.elim hbody⟩

/-- **A field is created**, under a new id. -/
theorem reaches_newField (param : NewField) : Reaches (createField ctx param) s fun f t =>
    ∃ S, s.tables.schema param.schema = .ok S ∧ ctx.operator.canMaintain S.workspace = true ∧
      s.tables.createField param (.ofSerial s.supply.next) (.ofSerial (s.supply.next + 1)) =
        .ok (t.tables, f) ∧ t.supply.next = s.supply.next + 2 :=
  reaches_maintaining (R := fun f n u m u' =>
    u.createField param (.ofSerial n) (.ofSerial (n + 1)) = .ok (u', f) ∧ m = n + 2)
    (Write.quiet_freshStep fun id mirrorId t => t.createField param id mirrorId).grows
    Write.gives_createField

/-- **Fields are changed.** -/
theorem reaches_changedFields (schema : SchemaId) (edits : List FieldEdit) :
    Reaches (updateFields ctx schema edits) s fun fields t =>
      ∃ S, s.tables.schema schema = .ok S ∧ ctx.operator.canMaintain S.workspace = true ∧
        s.tables.updateFields schema edits = .ok (t.tables, fields) ∧
        t.supply.next = s.supply.next := by
  refine reaches_maintaining (R := fun fields n u m u' =>
    u.updateFields schema edits = .ok (u', fields) ∧ m = n) (Write.quiet_step _).grows
    fun hgives => ?_
  obtain ⟨hupdate, hsupply⟩ := Write.gives_step hgives
  exact ⟨hupdate, by rw [hsupply]⟩

/-- **A field is deleted.** -/
theorem reaches_deletedField (schema : SchemaId) (field : FieldId) :
    Reaches (deleteField ctx schema field) s fun _ t =>
      ∃ S, s.tables.schema schema = .ok S ∧ ctx.operator.canMaintain S.workspace = true ∧
        s.tables.deleteField schema field = .ok t.tables ∧ t.supply.next = s.supply.next := by
  refine reaches_maintaining (R := fun _ n u m u' =>
    u.deleteField schema field = .ok u' ∧ m = n) (Write.quiet_step _).grows fun hgives => ?_
  obtain ⟨hdelete, hsupply⟩ := Write.gives_deleteField hgives
  exact ⟨hdelete, by rw [hsupply]⟩

/-! All of these are writes of the catalog. -/

/-- Creating a model is one write of the catalog. -/
theorem reaches_createModel (param : NewModel) :
    Reaches (createModel ctx param) s fun _ t => s.Reshapes ctx.operator t := by
  refine (reaches_newModel param).mono fun _ t h => ?_
  obtain ⟨hmay, hvalid, hfree, hsupply, htables, rfl⟩ := h
  rw [Reshapes, hsupply, htables]
  exact .createsModel hmay hvalid hfree

/-- So is creating a group. -/
theorem reaches_createGroup (param : NewGroup) :
    Reaches (createGroup ctx param) s fun _ t => s.Reshapes ctx.operator t := by
  refine (reaches_newGroup param).mono fun _ t h => ?_
  obtain ⟨hmay, hvalid, hfree, hsupply, htables, rfl⟩ := h
  rw [Reshapes, hsupply, htables]
  exact .createsGroup hmay hvalid hfree

/-- So is updating a group. -/
theorem reaches_updateGroup (id : GroupId) (edit : GroupEdit) :
    Reaches (updateGroup ctx id edit) s fun _ t => s.Reshapes ctx.operator t := by
  refine (reaches_changedGroup id edit).mono fun _ t h => ?_
  obtain ⟨g, S, key, hg, hS, hmay, hkey, hsupply, htables⟩ := h
  rw [Reshapes, hsupply, htables]
  exact .changesGroup hg hS hmay hkey

/-- So is creating a field, with its mirror if it has one. -/
theorem reaches_createField (param : NewField) :
    Reaches (createField ctx param) s fun _ t => s.Reshapes ctx.operator t := by
  refine (reaches_newField param).mono fun _ t h => ?_
  obtain ⟨S, hS, hmay, hcreate, hsupply⟩ := h
  rw [Reshapes, hsupply]
  exact .createsField hS hmay hcreate

/-- So is updating fields, all of them together. -/
theorem reaches_updateFields (schema : SchemaId) (edits : List FieldEdit) :
    Reaches (updateFields ctx schema edits) s fun _ t => s.Reshapes ctx.operator t := by
  refine (reaches_changedFields schema edits).mono fun _ t h => ?_
  obtain ⟨S, hS, hmay, hupdate, hsupply⟩ := h
  rw [Reshapes, hsupply]
  exact .updatesFields hS hmay hupdate

/-- So is deleting a field. -/
theorem reaches_deleteField (schema : SchemaId) (field : FieldId) :
    Reaches (deleteField ctx schema field) s fun _ t => s.Reshapes ctx.operator t := by
  refine (reaches_deletedField schema field).mono fun _ t h => ?_
  obtain ⟨S, hS, hmay, hdelete, hsupply⟩ := h
  rw [Reshapes, hsupply]
  exact .deletesField hS hmay hdelete

/-- Changing one field is changing a list of one. -/
theorem after_updateField (schema : SchemaId) (edit : FieldEdit) (s : Store) :
    (updateField ctx schema edit s).2 = (updateFields ctx schema [edit] s).2 := by
  unfold updateField
  rw [run_bind]
  rcases updateFields ctx schema [edit] s with ⟨e | fields, u⟩
  · rfl
  · dsimp only
    cases fields.getLast? <;> rfl

/-! ## Many calls -/

section Leads

variable {α β : Type} {R : Store → Store → Prop}

/-- Whether it succeeds or not, the operation leads along the relation. -/
def Leads (R : Store → Store → Prop) (op : Operation α) : Prop :=
  ∀ s, Relation.ReflTransGen R s (op s).2

/-- Two operations lead along a transitive relation if each does. -/
theorem leads_bind {op : Operation α} {f : α → Operation β} (hop : Leads R op)
    (hf : ∀ a, Leads R (f a)) : Leads R (op >>= f) := by
  intro s
  have h := hop s
  rw [run_bind]
  rcases hr : op s with ⟨e | a, u⟩
  · rw [hr] at h
    exact h
  · rw [hr] at h
    exact h.trans (hf a u)

/-- Doing nothing leads along a reflexive one. -/
theorem leads_pure (a : α) : Leads R (pure a) := fun _ => .refl

/-- So does failing at once. -/
theorem leads_throw (e : Error) : Leads R (throw e : Operation α) := fun _ => .refl

/-- So does looking at the store. -/
theorem leads_get : Leads R get := fun _ => .refl

/-- So does a computation without the store. -/
theorem leads_lift (x : Except Error α) : Leads R (liftM x : Operation α) := by
  intro s
  cases x <;> exact .refl

/-- A loop leads along the relation if its rounds do. -/
theorem leads_forM {f : α → Operation PUnit} (hf : ∀ a, Leads R (f a)) (xs : List α) :
    Leads R (xs.forM f) := by
  induction xs with
  | nil => exact leads_pure _
  | cons x xs ih => exact leads_bind (hf x) fun _ => ih

/-- A traversal leads along it if its steps do. -/
theorem leads_mapM {f : α → Operation β} (hf : ∀ a, Leads R (f a)) (xs : List α) :
    Leads R (xs.mapM f) := by
  induction xs with
  | nil =>
    rw [List.mapM_nil]
    exact leads_pure _
  | cons x xs ih =>
    rw [List.mapM_cons]
    exact leads_bind (hf x) fun _ => leads_bind ih fun _ => leads_pure _

end Leads

section Declared

variable {R : Store → Store → Prop} (hrests : ∀ {s t : Store}, s.Rests t → R s t)

include hrests

/-- Taking a serial number leads along any relation that resting is part of. -/
theorem leads_freshSerial : Leads R freshSerial :=
  fun s => .single (hrests ⟨rfl, Nat.le_succ s.supply.next⟩)

/-- Making the type of a declared field takes serial numbers at most. -/
theorem leads_declaredType (project : ProjectId) (f : Declaration.Field) :
    Leads R (declaredType project f) := by
  unfold declaredType
  cases f.kind with
  | tag =>
    refine leads_bind (leads_mapM (fun _ => ?_) _) fun _ => leads_pure _
    exact leads_bind (leads_freshSerial hrests) fun _ => leads_pure _
  | reference =>
    dsimp only
    split
    · exact leads_bind leads_get fun _ => leads_bind (leads_lift _) fun _ => leads_pure _
    · exact leads_throw _
  | group =>
    dsimp only
    split
    · exact leads_bind leads_get fun _ => leads_bind (leads_lift _) fun _ => leads_pure _
    · exact leads_throw _
  | _ => exact leads_pure _

variable (d : Declaration) (hmodel : ∀ s param, R s (createModel d.context param s).2)
  (hgroup : ∀ s param, R s (createGroup d.context param s).2)
  (hfield : ∀ s param, R s (createField d.context param s).2)

include hfield

/-- Declaring a field creates it, at most. -/
theorem leads_declareField (schema : SchemaId) (f : Declaration.Field) :
    Leads R (declareField d schema f) :=
  leads_bind (leads_declaredType hrests _ _) fun _ =>
    leads_bind (fun s => .single (hfield s _)) fun _ => leads_pure _

include hmodel hgroup

/-- **Applying a declared catalog is creating models, groups and fields**, one after
the other, and nothing else. -/
theorem leads_declare : Leads R (declare d) := by
  have hfields : ∀ schema f, Leads R (declareField d schema f) := leads_declareField hrests d hfield
  refine leads_bind (leads_forM (fun g => ?_) _) fun _ =>
    leads_bind (leads_mapM (fun m => ?_) _) fun _ => leads_forM (fun created => ?_) _
  · refine leads_bind leads_get fun s => ?_
    split
    · exact leads_pure _
    · exact leads_bind (fun s => .single (hgroup s _)) fun _ => leads_forM (hfields _) _
  · refine leads_bind leads_get fun s => ?_
    split
    · exact leads_pure _
    · exact leads_bind (fun s => .single (hmodel s _)) fun _ => leads_pure _
  · refine leads_bind (leads_forM (hfields _) _) fun _ => ?_
    split
    · exact leads_forM (hfields _) _
    · exact leads_pure _

end Declared

/-- A call that reaches a write of the catalog makes it or rests. -/
theorem reshaped_of_reaches {α : Type} {op : Operation α}
    (h : Reaches op s fun _ t => s.Reshapes o t) : s.Rests (op s).2 ∨ s.Reshapes o (op s).2 := by
  rcases h with ⟨a, -, h⟩ | ⟨-, h⟩
  · exact .inr h
  · exact .inl h

/-- **A declaration is a run of writes of the catalog**, whether it succeeds or not. -/
theorem reshaping_declare (d : Declaration) (s : Store) :
    s.Reshaped d.context.operator (declare d s).2 :=
  leads_declare .inl d (fun _ param => reshaped_of_reaches (reaches_createModel param))
    (fun _ param => reshaped_of_reaches (reaches_createGroup param))
    (fun _ param => reshaped_of_reaches (reaches_createField param)) s

/-- Opening a store applies the declaration beside it, if there is one. -/
theorem openWith_cases (config : Option Config) (catalog : Option String) (s : Store) :
    s.Rests (openWith config catalog s).2 ∨ ∃ d, catalog.mapM Declaration.parse = .ok (some d) ∧
      (declare d s).2.Rests (openWith config catalog s).2 := by
  unfold openWith
  rw [run_bind]
  cases catalog.mapM Declaration.parse with
  | error e => exact .inl (Rests.refl s)
  | ok d =>
    cases d with
    | none => exact .inl ⟨rfl, Nat.le_refl _⟩
    | some d =>
      refine .inr ⟨d, rfl, ?_⟩
      change (declare d s).2.Rests ((declare d >>= fun _ => modify fun s => { s with
        config := config.getD (d.config.getD Config.standard) } : Operation Unit) s).2
      rw [run_bind]
      rcases declare d s with ⟨e | _, t⟩
      · exact Rests.refl t
      · exact ⟨rfl, Nat.le_refl _⟩

/-- **Opening a store writes the catalog** as the declaration beside it may. -/
theorem reshaped_openWith (config : Option Config) (catalog : Option String) (s : Store) :
    s.Rests (openWith config catalog s).2 ∨
      ∃ d, catalog.mapM Declaration.parse = .ok (some d) ∧
        s.Reshaped d.context.operator (openWith config catalog s).2 := by
  rcases openWith_cases config catalog s with h | ⟨d, hd, h⟩
  · exact .inl h
  · exact .inr ⟨d, hd, (reshaping_declare d s).tail (.inl h)⟩

/-! ## Wired catalogs -/

/-- A store that rests keeps all its schemas, with more serial numbers given out. -/
theorem rewires_of_rests (h : s.Rests t) (hw : Wired s.supply.next s.tables) :
    Write.Rewires s.supply.next s.tables t.supply.next t.tables := by
  obtain ⟨htables, hsupply⟩ := h
  rw [htables]
  exact ⟨rfl, rfl, hsupply, hw.mono hsupply⟩

/-- **Writes of the catalog leave it wired.** -/
theorem Reshaped.rewires (h : s.Reshaped o t) (hw : Wired s.supply.next s.tables) :
    Write.Rewires s.supply.next s.tables t.supply.next t.tables := by
  induction h with
  | refl => exact rewires_of_rests (Rests.refl _) hw
  | tail _ hstep ih =>
    rcases hstep with h | h
    · exact ih.trans (rewires_of_rests h ih.wired)
    · exact ih.trans (h.rewires ih.wired)

end ContentStore.Store
