import ContentStore.Proofs.Catalog.Nesting
import ContentStore.Proofs.Declarations.Fields

/-!
# Entries, one after the other

Each entry of a declared catalog is one write of the catalog (`Enters`).  Writes
one after the other, with serial numbers that get lost in between, make a run
(`Entered`).  A run adds groups and models at the end and keeps those that are
there, so that a key stays with the group or the model that has it
(`Entered.grows`).
-/

namespace ContentStore

open Declaration (Entry Owner)

/-- What is declared of a group or a model, its schemas apart, is the heading of its row. -/
theorem Declaration.heading_newGroup (d : Declaration) (g : Declaration.Group) (n : Nat) :
    Entry.group? d (.group g) = some ((d.newGroup g).made n).heading := rfl

/-- A model made for its entry stands under the heading of the entry. -/
theorem Declaration.heading_newModel (d : Declaration) (m : Declaration.Model) (n : Nat) :
    Entry.model? d (.model m) = some ((d.newModel m).made n).heading := by
  have hmetadata : ((d.newModel m).made n).metadataSchema.isSome = !m.metadata.isEmpty := by
    unfold NewModel.made newModel
    cases m.metadata.isEmpty <;> rfl
  rw [Model.heading, hmetadata]
  rfl

/-- A declaration is made by a maintainer of its workspace. -/
theorem Declaration.canMaintain_context (d : Declaration) :
    d.context.operator.canMaintain d.workspaceId = true := by
  simp [Declaration.context, Context.steady, Operator.canMaintain]

namespace Tables

/-! ## Rows that are added -/

/-- Rows are added at the end under these headings, each with schemas of its own. -/
def Appends {ρ : Type} (heading : ρ → Heading) (schemas : ρ → List SchemaId) (t : Tables)
    (rows : List ρ) (said : List Heading) (rows' : List ρ) : Prop :=
  ∃ new, rows' = rows ++ new ∧ new.map heading = said ∧
    ∀ r ∈ new, ∀ S ∈ t.schemas, S.id ∉ schemas r

namespace Appends

variable {ρ : Type} {heading : ρ → Heading} {schemas : ρ → List SchemaId} {t u : Tables}
  {rows rows' rows'' : List ρ} {said said' : List Heading} {p : ρ → Bool} {r : ρ}

/-- Rows that stay are rows to which nothing is added. -/
theorem none (h : rows' = rows) : Appends heading schemas t rows [] rows' :=
  ⟨[], by rw [h, List.append_nil], rfl, fun _ hr => (List.not_mem_nil hr).elim⟩

/-- A single row may be added, with schemas that nobody has yet. -/
theorem one (h : rows' = rows ++ [r]) (hown : ∀ S ∈ t.schemas, S.id ∉ schemas r) :
    Appends heading schemas t rows [heading r] rows' :=
  ⟨[r], h, rfl, fun _ hr => List.mem_singleton.mp hr ▸ hown⟩

/-- What is added first and what is added then are added together. -/
theorem trans (h : Appends heading schemas t rows said rows')
    (hstays : ∀ S ∈ t.schemas, ∃ S' ∈ u.schemas, S'.id = S.id)
    (h' : Appends heading schemas u rows' said' rows'') :
    Appends heading schemas t rows (said ++ said') rows'' := by
  obtain ⟨new, rfl, rfl, hown⟩ := h
  obtain ⟨new', rfl, rfl, hown'⟩ := h'
  refine ⟨new ++ new', List.append_assoc .., List.map_append, fun r hr S hS => ?_⟩
  rcases List.mem_append.mp hr with hr | hr
  · exact hown r hr S hS
  · obtain ⟨S', hS', hid⟩ := hstays S hS
    exact hid ▸ hown' r hr S' hS'

/-- Rows that were there stay. -/
theorem mem (h : Appends heading schemas t rows said rows') (hr : r ∈ rows) : r ∈ rows' := by
  obtain ⟨new, rfl, -⟩ := h
  exact List.mem_append_left _ hr

/-- The headings added are the ones that were said. -/
theorem map_heading (h : Appends heading schemas t rows said rows') :
    rows'.map heading = rows.map heading ++ said := by
  obtain ⟨new, rfl, rfl, -⟩ := h
  exact List.map_append

/-- A row that is found stays the one that is found. -/
theorem find? (h : Appends heading schemas t rows said rows') (hr : rows.find? p = some r) :
    rows'.find? p = some r := by
  obtain ⟨new, rfl, -⟩ := h
  rw [List.find?_append, hr]
  rfl

/-- A row that was not found before is new, and so are its schemas. -/
theorem fresh (h : Appends heading schemas t rows said rows') (hnone : rows.find? p = .none)
    (hr : rows'.find? p = some r) {S : Schema} (hS : S ∈ t.schemas) : S.id ∉ schemas r := by
  obtain ⟨new, rfl, -, hown⟩ := h
  rw [List.find?_append, hnone, Option.none_or] at hr
  exact hown r (List.mem_of_find?_eq_some hr) S hS

/-- What is found by its heading was found before, or is among the new headings. -/
theorem isSome_find? (h : Appends heading schemas t rows said rows') (q : Heading → Bool) :
    (rows'.find? fun r => q (heading r)).isSome =
      ((rows.find? fun r => q (heading r)).isSome || said.any q) := by
  obtain ⟨new, rfl, rfl, -⟩ := h
  rw [List.isSome_find?, List.isSome_find?, List.any_append, List.any_map]
  rfl

end Appends

/-- Groups and models are added as the entries say, and no schema is lost. -/
structure Grows (d : Declaration) (t : Tables) (es : List Entry) (u : Tables) : Prop where
  groups : Appends Group.heading (fun G => [G.schema]) t t.groups
    (es.filterMap (Entry.group? d)) u.groups
  models : Appends Model.heading Model.schemas t t.models
    (es.filterMap (Entry.model? d)) u.models
  schemas : ∀ S ∈ t.schemas, ∃ S' ∈ u.schemas, S'.id = S.id

namespace Grows

variable {d : Declaration} {t u v : Tables} {es es' : List Entry}

/-- Without entries nothing is added. -/
theorem refl (d : Declaration) (t : Tables) : Grows d t [] t :=
  ⟨.none rfl, .none rfl, fun S hS => ⟨S, hS, rfl⟩⟩

/-- What some entries add and what others add then is what all of them add. -/
theorem trans (h : Grows d t es u) (h' : Grows d u es' v) : Grows d t (es ++ es') v where
  groups := by
    rw [List.filterMap_append]
    exact h.groups.trans h.schemas h'.groups
  models := by
    rw [List.filterMap_append]
    exact h.models.trans h.schemas h'.models
  schemas := fun S hS => by
    obtain ⟨S', hS', hid⟩ := h.schemas S hS
    obtain ⟨S'', hS'', hid'⟩ := h'.schemas S' hS'
    exact ⟨S'', hS'', hid'.trans hid⟩

/-- A group found by its key stays the one that is found. -/
theorem groupByKey? (h : Grows d t es u) {project : ProjectId} {key : String} {G : Group}
    (hG : t.groupByKey? project key = some G) : u.groupByKey? project key = some G :=
  h.groups.find? hG

/-- A model that is found by its key is found so afterwards. -/
theorem modelByKey? (h : Grows d t es u) {project : ProjectId} {key : String} {M : Model}
    (hM : t.modelByKey? project key = some M) : u.modelByKey? project key = some M :=
  h.models.find? hM

/-- The schema of an owner stays its schema. -/
theorem schema? (h : Grows d t es u) {owner : Owner} {s : SchemaId}
    (hs : owner.schema? d t = some s) : owner.schema? d u = some s := by
  cases owner with
  | group key =>
    obtain ⟨G, hG, rfl⟩ := Option.map_eq_some_iff.mp hs
    exact Option.map_eq_some_iff.mpr ⟨G, h.groupByKey? hG, rfl⟩
  | model key =>
    obtain ⟨M, hM, rfl⟩ := Option.map_eq_some_iff.mp hs
    exact Option.map_eq_some_iff.mpr ⟨M, h.modelByKey? hM, rfl⟩
  | metadata key =>
    obtain ⟨M, hM, hmetadata⟩ := Option.bind_eq_some_iff.mp hs
    exact Option.bind_eq_some_iff.mpr ⟨M, h.modelByKey? hM, hmetadata⟩

/-- **The keys that are taken** are those from before and those of the entries. -/
theorem taken (h : Grows d t es u) (owner : Owner) :
    owner.taken d u = (owner.taken d t || es.any (Entry.opens owner)) := by
  have hmodel : ∀ key, (u.modelByKey? d.projectId key).isSome =
      ((t.modelByKey? d.projectId key).isSome || es.any (Entry.opens (.model key))) := by
    intro key
    refine (h.models.isSome_find? fun m => m.project == d.projectId && m.key == key).trans ?_
    rw [List.any_filterMap]
    congr 2
    funext e
    cases e <;> simp [Entry.model?, Entry.opens]
  cases owner with
  | group key =>
    refine (h.groups.isSome_find? fun g => g.project == d.projectId && g.key == key).trans ?_
    rw [List.any_filterMap]
    congr 2
    funext e
    cases e <;> simp [Entry.group?, Entry.opens]
  | model key => exact hmodel key
  | metadata key =>
    refine (hmodel key).trans ?_
    congr 2
    funext e
    cases e <;> rfl

end Grows

end Tables

namespace Store

variable {d : Declaration} {s t u : Store} {e : Entry} {es es' : List Entry}

/-! ## Writes of entries -/

/-- The type that a declared field gets.  A reference points at the model declared. -/
structure TypedAs (d : Declaration) (t : Tables) (f : Declaration.Field) (type : FieldType) :
    Prop where
  kind : type.kind = f.kind
  target : ∀ {model schema mirror}, type = .reference model schema mirror →
    ∃ key M, f.model = some key ∧ t.modelByKey? d.projectId key = some M ∧ M.schema = schema

/-- What the write of an entry does, with all that has been checked before. -/
inductive Enters (d : Declaration) (s : Store) : Entry → Store → Prop
  | group {g : Declaration.Group} {t : Store} (hvalid : isValidKey g.key = true)
      (hfree : s.tables.groupByKey? d.projectId g.key = none)
      (hsupply : t.supply.next = s.supply.next + 2)
      (htables : t.tables = (s.tables.withSchemas d.projectId d.workspaceId s.supply.next
        1).saveGroup ((d.newGroup g).made s.supply.next)) :
      Enters d s (.group g) t
  | model {m : Declaration.Model} {t : Store} (hvalid : isValidKey m.key = true)
      (hfree : s.tables.modelByKey? d.projectId m.key = none)
      (hsupply : t.supply.next = s.supply.next + (d.newModel m).schemas + 1)
      (htables : t.tables = (s.tables.withSchemas d.projectId d.workspaceId s.supply.next
        (d.newModel m).schemas).saveModel ((d.newModel m).made s.supply.next)) :
      Enters d s (.model m) t
  | field {owner : Owner} {f : Declaration.Field} {schema : SchemaId} {type : FieldType}
      {S : Schema} {F : Field} {t : Store} (howner : owner.schema? d s.tables = some schema)
      (htype : TypedAs d s.tables f type) (hS : s.tables.schema schema = .ok S)
      (hmay : d.context.operator.canMaintain S.workspace = true)
      (hcreate : s.tables.createField (f.input schema type) (.ofSerial s.supply.next)
        (.ofSerial (s.supply.next + 1)) = .ok (t.tables, F))
      (hsupply : t.supply.next = s.supply.next + 2) :
      Enters d s (.field owner f) t

/-- Every entry is a write of the catalog. -/
theorem Enters.reshapes (h : Enters d s e t) : s.Reshapes d.context.operator t := by
  unfold Reshapes
  cases h with
  | group hvalid hfree hsupply htables =>
    rw [hsupply, htables]
    exact @Write.Reshapes.createsGroup _ _ _ (d.newGroup _) d.canMaintain_context hvalid hfree
  | model hvalid hfree hsupply htables =>
    rw [hsupply, htables]
    exact @Write.Reshapes.createsModel _ _ _ (d.newModel _) d.canMaintain_context hvalid hfree
  | field _ _ hS hmay hcreate hsupply =>
    rw [hsupply]
    exact .createsField hS hmay hcreate

/-- Entries one after the other.  Serial numbers may get lost in between. -/
inductive Entered (d : Declaration) : Store → List Entry → Store → Prop
  | nil (s : Store) : Entered d s [] s
  | rest {s t u : Store} {es : List Entry} (h : s.Rests t) (hrun : Entered d t es u) :
      Entered d s es u
  | cons {s t u : Store} {e : Entry} {es : List Entry} (h : Enters d s e t)
      (hrun : Entered d t es u) : Entered d s (e :: es) u

/-- One entry is a run of entries. -/
theorem Enters.entered (h : Enters d s e t) : Entered d s [e] t := .cons h (.nil t)

/-- A store that rests has entered nothing. -/
theorem Entered.of_rests (h : s.Rests t) : Entered d s [] t := .rest h (.nil t)

/-- Entries follow each other. -/
theorem Entered.trans (h : Entered d s es t) (h' : Entered d t es' u) :
    Entered d s (es ++ es') u := by
  induction h with
  | nil => exact h'
  | rest hrests _ ih => exact .rest hrests (ih h')
  | cons henters _ ih => exact .cons henters (ih h')

/-- A run of entries is a run of writes of the catalog. -/
theorem Entered.reshaped (h : Entered d s es t) : s.Reshaped d.context.operator t := by
  induction h with
  | nil => exact .refl
  | rest hrests _ ih => exact .head (.inl hrests) ih
  | cons henters _ ih => exact .head (.inr henters.reshapes) ih

/-- What all stores have that a run can start from. -/
structure Ready (s : Store) : Prop where
  sane : s.Sane
  nested : Tables.Nested s.supply.next s.tables

/-- A run can start from every reachable store. -/
theorem Reachable.ready (hs : s.Reachable) : s.Ready :=
  ⟨hs.sane, Tables.lasting_nested.reachable hs⟩

/-- Writes of the catalog leave a store from which a run can start. -/
theorem Ready.reshaped {o : Operator} (hs : s.Ready) (h : s.Reshaped o t) : t.Ready :=
  ⟨h.sane hs.sane, Tables.lasting_nested.reshaped h hs.sane hs.nested⟩

/-- So does the write of an entry. -/
theorem Ready.enters (hs : s.Ready) (h : Enters d s e t) : t.Ready :=
  hs.reshaped (.single (.inr h.reshapes))

/-- So does a call that fails. -/
theorem Ready.rests (hs : s.Ready) (h : s.Rests t) : t.Ready :=
  ⟨h.sane hs.sane, Tables.lasting_nested.same h.2 h.sameCatalog hs.nested⟩

/-- So do entries one after the other. -/
theorem Ready.entered (hs : s.Ready) (h : Entered d s es t) : t.Ready := hs.reshaped h.reshaped

/-- An id yet to be made is the id of no stored schema. -/
theorem Ready.fresh (hs : s.Ready) {S : Schema} (hS : S ∈ s.tables.schemas) {n : Nat}
    (hle : s.supply.next ≤ n) : S.id ≠ .ofSerial n :=
  (hs.sane.wired.schemas_given S hS).ne_ofSerial hle

/-- **What one entry adds.** -/
theorem Enters.grows (hs : s.Ready) (h : Enters d s e t) : s.tables.Grows d [e] t.tables := by
  cases h with
  | @group g _ _ hfree _ htables =>
    rw [htables]
    refine ⟨?_, .none rfl, fun S hS => Tables.exists_mem_withSchemas hS⟩
    rw [List.filterMap_cons, d.heading_newGroup g s.supply.next]
    refine .one (hs.nested.groups_made hfree) fun S hS hmem => ?_
    exact hs.fresh hS (Nat.le_refl _) (List.mem_singleton.mp hmem)
  | @model m _ _ hfree _ htables =>
    rw [htables]
    have hrest := Tables.rest_withSchemas s.tables d.projectId d.workspaceId s.supply.next
      (d.newModel m).schemas
    have hgroups := congrArg Tables.groups hrest
    refine ⟨.none hgroups, ?_, fun S hS => Tables.exists_mem_withSchemas hS⟩
    rw [List.filterMap_cons, d.heading_newModel m s.supply.next]
    refine .one (Tables.models_made hs.sane.wired hfree) fun S hS hmem => ?_
    rw [NewModel.schemas_made] at hmem
    obtain ⟨i, hi, heq⟩ := List.mem_map.mp hmem
    exact hs.fresh hS (List.mem_range'_1.mp hi).1 heq.symm
  | field _ _ _ _ hcreate _ =>
    obtain ⟨honly, -⟩ := Tables.createField_eq_ok hs.sane.wired.schemas_distinct hcreate
    have hgroups := congrArg Tables.groups honly.rest
    have hmodels := congrArg Tables.models honly.rest
    exact ⟨.none hgroups, .none hmodels, fun S hS => (honly.ids S.id).mpr ⟨S, hS, rfl⟩⟩

/-- **What a run adds.** -/
theorem Entered.grows (hs : s.Ready) (h : Entered d s es t) : s.tables.Grows d es t.tables := by
  induction h with
  | nil s => exact .refl d s.tables
  | @rest s t u es hrests _ ih =>
    rw [← hrests.1]
    exact ih (hs.rests hrests)
  | cons henters _ ih => exact (henters.grows hs).trans (ih (hs.enters henters))

end Store

end ContentStore
