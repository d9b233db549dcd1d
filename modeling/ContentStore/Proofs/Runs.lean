import ContentStore.Proofs.Catalog.Packages
import ContentStore.Proofs.Writes.Items
import ContentStore.Proofs.Writes.Publishing
import ContentStore.Proofs.Writes.Reshaping
import ContentStore.Store.Reading

/-!
# Runs of the store

A run is any sequence of calls, by any operators, each of which may fail or be
given up.  What one call can do to the tables is said once (`Outcome`): it
leaves them alone, or it has one of the effects of the bodies of writes.  Two
invariants hold in every state that a run from an empty store reaches: histories
are sound and the catalog is wired (`Store.sane_of_run`).
-/

namespace ContentStore

open Tables

/-- A call of a public operation that may change the store. -/
inductive Call where
  | createItem (param : CreateItem)
  | createMetadataItem (param : CreateItem)
  | updateItem (param : UpdateItem)
  | deleteItem (id : ItemId)
  | publish (ids : List ItemId)
  | unpublish (ids : List ItemId)
  | search (p : Package) (q : Query) (pagination : Query.Pagination)
  | createModel (param : NewModel)
  | createGroup (param : NewGroup)
  | updateGroup (id : GroupId) (edit : GroupEdit)
  | createField (param : NewField)
  | updateField (schema : SchemaId) (edit : FieldEdit)
  | updateFields (schema : SchemaId) (edits : List FieldEdit)
  | deleteField (schema : SchemaId) (field : FieldId)
  | openWith (config : Option Config) (catalog : Option String)

namespace Call

/-- The store that a call leaves behind, whether it succeeds or not. -/
def after (c : Call) (ctx : Context) (s : Store) : Store :=
  match c with
  | createItem param => (Store.createItem ctx param s).2
  | createMetadataItem param => (Store.createMetadataItem ctx param s).2
  | updateItem param => (Store.updateItem ctx param s).2
  | deleteItem id => (Store.deleteItem ctx id s).2
  | publish ids => (Store.publish ctx ids s).2
  | unpublish ids => (Store.unpublish ctx ids s).2
  | search p q pagination => (Store.search ctx p q pagination s).2
  | createModel param => (Store.createModel ctx param s).2
  | createGroup param => (Store.createGroup ctx param s).2
  | updateGroup id edit => (Store.updateGroup ctx id edit s).2
  | createField param => (Store.createField ctx param s).2
  | updateField schema edit => (Store.updateField ctx schema edit s).2
  | updateFields schema edits => (Store.updateFields ctx schema edits s).2
  | deleteField schema field => (Store.deleteField ctx schema field s).2
  | openWith config catalog => (Store.openWith config catalog s).2

/-- The call is about items and not about the catalog. -/
def OfItems : Call → Prop
  | createItem _ | createMetadataItem _ | updateItem _ | deleteItem _ => True
  | publish _ | unpublish _ | search .. => True
  | _ => False

/-- The call moves `public` refs of items. -/
def Publishes : Call → Prop
  | publish _ | unpublish _ => True
  | _ => False

/-- The call opens a store, on behalf of no operator. -/
def Opens : Call → Prop
  | openWith .. => True
  | _ => False

/-- The call adds a model, a group or a field to the catalog. -/
def Extends : Call → Prop
  | createModel _ | createGroup _ | createField _ => True
  | _ => False

/-- The call writes or removes items. -/
def Edits (c : Call) : Prop := c.OfItems ∧ ¬ c.Publishes

/-- Publishing is a matter of items. -/
theorem Publishes.ofItems {c : Call} (h : c.Publishes) : c.OfItems := by
  cases c <;> trivial

/-- Whoever adds to the catalog is opening no store. -/
theorem Extends.not_opens {c : Call} (h : c.Extends) : ¬ c.Opens := by
  intro hopens
  cases c with
  | openWith => exact h
  | _ => exact hopens

instance : DecidablePred OfItems
  | createItem _ | createMetadataItem _ | updateItem _ | deleteItem _ => isTrue trivial
  | publish _ | unpublish _ | search .. => isTrue trivial
  | createModel _ | createGroup _ | updateGroup .. => isFalse id
  | createField _ | updateField .. | updateFields .. | deleteField .. => isFalse id
  | openWith .. => isFalse id

/-- The call deletes the item, by itself or as the metadata item of another. -/
def Deletes (c : Call) (ctx : Context) (s : Store) (x : ItemId) : Prop :=
  ∃ id, c = deleteItem id ∧ (Store.deleteItem ctx id s).1 = .ok () ∧
    (x = id ∨ ∃ it, Write.latestItem s.tables id = some it ∧ it.metadataItem = some x)

end Call

/-- One step of a run: a call that may be made, or something that leaves the
tables alone, such as a read. -/
inductive Store.Step (may : Store → Context → Call → Prop) : Store → Store → Prop
  | call {s : Store} {ctx : Context} {c : Call} (h : may s ctx c) : Step may s (c.after ctx s)
  | rest {s t : Store} (h : s.Rests t) : Step may s t

/-- A run of calls that may be made. -/
abbrev Store.Run (may : Store → Context → Call → Prop) : Store → Store → Prop :=
  Relation.ReflTransGen (Store.Step may)

namespace Call

/-- Any call. -/
def Any : Store → Context → Call → Prop := fun _ _ _ => True

/-- Calls about items. -/
def OnItems : Store → Context → Call → Prop := fun _ _ c => c.OfItems

/-- Calls that add to the catalog. -/
def Extending : Store → Context → Call → Prop := fun _ _ c => c.Extends

/-- Calls about the catalog. -/
def OnCatalog : Store → Context → Call → Prop := fun _ _ c => ¬ c.OfItems

/-- Calls that leave an item where it is. -/
def Sparing (x : ItemId) : Store → Context → Call → Prop := fun s ctx c => ¬ c.Deletes ctx s x

end Call

/-- The store after several calls of one context. -/
def Call.afterAll (ctx : Context) (cs : List Call) (s : Store) : Store :=
  cs.foldl (fun s c => c.after ctx s) s

/-- Calls that may be made anywhere are a run. -/
theorem Call.run_afterAll {may : Store → Context → Call → Prop} {ctx : Context} {cs : List Call}
    (h : ∀ s, ∀ c ∈ cs, may s ctx c) (s : Store) : Store.Run may s (afterAll ctx cs s) := by
  induction cs generalizing s with
  | nil => exact .refl
  | cons c cs ih =>
    refine .head (.call (h s c List.mem_cons_self)) (ih ?_ _)
    exact fun s c hc => h s c (List.mem_cons_of_mem _ hc)

/-- Somebody who maintains a workspace. -/
def Context.maintainer (workspace : WorkspaceId) : Context :=
  .steady ⟨.user ⟨"maintainer"⟩, [], [workspace]⟩

/-! ## What one call does -/

/-- The package by which an item of a model is written. -/
def Tables.Writes (t : Tables) (p : Package) : Prop :=
  t.package p.model.id = .ok p ∨
    ∃ q, t.package p.model.id = .ok q ∧ metadataPackage q = .ok p

/-- What a call can do, and what has been checked before. -/
inductive Outcome (s : Store) (ctx : Context) (c : Call) (t : Store) : Prop
  | rests (h : s.Rests t)
  | creates {p : Package} {param : CreateItem} {it : Item} {values : List ItemField}
      (hedits : c.Edits) (hmay : ctx.operator.canWrite p.schema.workspace = true)
      (hp : s.tables.Writes p)
      (hit : Write.Created p param s.supply.next s.tables it values)
      (hputs : Write.Puts ctx.operator p none it s.supply.next s.tables t.supply.next t.tables)
  | updates {p : Package} {param : UpdateItem} {old it : Item} {values : List ItemField}
      (hedits : c.Edits) (hmay : ctx.operator.canWrite p.schema.workspace = true)
      (hp : s.tables.itemPackage old = .ok p)
      (hit : Write.Updated p param s.tables old it values)
      (hputs : Write.Puts ctx.operator p (some old) it s.supply.next s.tables t.supply.next
        t.tables)
  | removes {p : Package} {it : Item} (hedits : c.Edits)
      (hmay : ctx.operator.canWrite p.schema.workspace = true)
      (hp : s.tables.itemPackage it = .ok p)
      (hdeletes : ∀ x, x = it.id ∨ it.metadataItem = some x → c.Deletes ctx s x)
      (h : Write.Removes ctx.operator p it s.supply.next s.tables t.supply.next t.tables)
  | publishes (hpublishes : c.Publishes)
      (hmay : ∀ x r, t.tables.rowsOf x r ≠ s.tables.rowsOf x r →
        Write.Maintained ctx.operator s.tables x)
      (h : Write.MovesRefs s.supply.next s.tables t.supply.next t.tables)
  | reshapes (hcatalog : ¬ c.OfItems) (h : s.Reshapes ctx.operator t)
  | declares {config : Option Config} {catalog : Option String} {d : Declaration}
      (hc : c = .openWith config catalog) (h : s.Reshaped d.context.operator t)

/-- Histories are sound and the catalog is wired. -/
structure Store.Sane (s : Store) : Prop where
  sound : Sound s.supply.next s.tables
  wired : Wired s.supply.next s.tables

namespace Store

variable {s t : Store} {ctx : Context}

/-- A store that rests stays sane. -/
theorem Rests.sane (h : s.Rests t) (hs : s.Sane) : t.Sane := by
  obtain ⟨htables, hsupply⟩ := h
  constructor
  · rw [htables]
    exact hs.sound.mono hsupply
  · rw [htables]
    exact hs.wired.mono hsupply

/-! ### Calls about items -/

/-- An item is created with a package of its model, if there is one. -/
def Creates (ctx : Context) (package : Except Error Package) (param : CreateItem) (s : Store)
    (v : Version) (t : Store) : Prop :=
  ∃ p, package = .ok p ∧ ctx.operator.canWrite p.schema.workspace = true ∧ s.tables.Writes p ∧
    Commits (Write.createItem ctx.operator p param) s v t

/-- An item is updated with the package that belongs to its latest snapshot. -/
def Updates (ctx : Context) (param : UpdateItem) (s : Store) (v : Version) (t : Store) : Prop :=
  ∃ p old, ctx.operator.canWrite p.schema.workspace = true ∧
    Write.latestItem s.tables param.item = some old ∧ s.tables.itemPackage old = .ok p ∧
    Commits (Write.updateItem ctx.operator p param) s v t

/-- An item is removed with the package that belongs to its latest snapshot. -/
def Drops (ctx : Context) (id : ItemId) (s t : Store) : Prop :=
  ∃ p old, ctx.operator.canWrite p.schema.workspace = true ∧
    Write.latestItem s.tables id = some old ∧ s.tables.itemPackage old = .ok p ∧
    Commits (Write.deleteItem ctx.operator p id) s () t

/-- Creating an item takes the package of its model. -/
theorem reaches_createItem (param : CreateItem) : Reaches (createItem ctx param) s
    (Creates ctx (s.tables.package param.model) param s) := by
  refine reaches_get_bind (reaches_lift_bind fun p hp => reaches_lift_bind fun _ hmay => ?_)
  refine (reaches_transact (Write.grows_createItem _ _ _) s).mono fun _ _ h =>
    ⟨p, hp, Operator.checkWrite_eq_ok.mp hmay, .inl ?_, h⟩
  rw [(packed_package hp).2.1, hp]

/-- Creating a metadata item takes the package for metadata of that model. -/
theorem reaches_createMetadataItem (param : CreateItem) : Reaches (createMetadataItem ctx param) s
    (Creates ctx (s.tables.package param.model >>= metadataPackage) param s) := by
  refine reaches_get_bind (reaches_lift_bind fun q hq => reaches_lift_bind fun p hp => ?_)
  dsimp only
  split
  · exact reaches_throw_bind _ _
  · refine reaches_lift_bind fun _ hmay => ?_
    refine (reaches_transact (Write.grows_createItem _ _ _) s).mono fun _ _ h =>
      ⟨p, bind_eq_ok.mpr ⟨q, hq, hp⟩, Operator.checkWrite_eq_ok.mp hmay, .inr ⟨q, ?_, hp⟩, h⟩
    obtain ⟨hpacked, hmodel, -⟩ := packed_package hq
    rw [(packed_metadataPackage hpacked hp).2.1, hmodel, hq]

/-- An item is written with the package that belongs to its latest snapshot. -/
theorem writtenPackage_eq_ok {id : ItemId} {p : Package} (h : s.writtenPackage ctx id = .ok p) :
    ∃ it, Write.latestItem s.tables id = some it ∧ s.tables.itemPackage it = .ok p ∧
      ctx.operator.canWrite p.schema.workspace = true := by
  unfold writtenPackage find at h
  obtain ⟨v, hv, h⟩ := bind_eq_ok.mp h
  obtain ⟨q, hq, h⟩ := bind_eq_ok.mp h
  obtain ⟨_, hmay, h⟩ := bind_eq_ok.mp h
  cases h
  obtain ⟨_, -, hv⟩ := bind_eq_ok.mp hv
  split at hv
  · rename_i v' hlatest
    cases hv
    exact ⟨v.item, by rw [Write.latestItem, hlatest]; rfl, hq, Operator.checkWrite_eq_ok.mp hmay⟩
  · cases hv

/-- Updating an item takes the package of the snapshot that it updates. -/
theorem reaches_updateItem (param : UpdateItem) :
    Reaches (updateItem ctx param) s (Updates ctx param s) := by
  unfold updateItem
  dsimp only
  split
  · exact reaches_throw_bind _ _
  · refine reaches_get_bind (reaches_lift_bind fun p hp => reaches_polled_bind ?_)
    obtain ⟨old, hold, hpackage, hmay⟩ := writtenPackage_eq_ok hp
    exact (reaches_transact (Write.grows_updateItem _ _ _) s.polled).mono
      fun _ _ h => ⟨p, old, hmay, hold, hpackage, h⟩

/-- So does deleting it. -/
theorem reaches_deleteItem (id : ItemId) :
    Reaches (deleteItem ctx id) s fun _ t => Drops ctx id s t := by
  refine reaches_get_bind (reaches_lift_bind fun p hp => reaches_polled_bind ?_)
  obtain ⟨old, hold, hpackage, hmay⟩ := writtenPackage_eq_ok hp
  exact (reaches_transact (Write.grows_deleteItem _ _ _) s.polled).mono
    fun _ _ h => ⟨p, old, hmay, hold, hpackage, h⟩

/-- What has been written when an item was created. -/
theorem Creates.written {package : Except Error Package} {param : CreateItem} {v : Version}
    (h : Creates ctx package param s v t) (hs : s.Sane) : ∃ p values, package = .ok p ∧
      ctx.operator.canWrite p.schema.workspace = true ∧ s.tables.Writes p ∧
      Write.Created p param s.supply.next s.tables v.item values ∧
      Write.Puts ctx.operator p none v.item s.supply.next s.tables t.supply.next t.tables ∧
      Write.PutsNamed ctx.operator p none param.metadata v.item s.tables t.supply.next t.tables := by
  obtain ⟨p, hpackage, hmay, hp, hcommits⟩ := h
  obtain ⟨it, values, rfl, hit, hputs, hnamed⟩ := hcommits.elim (R := fun n u m u' => Sound n u →
    ∃ it values, v.item = it ∧ Write.Created p param n u it values ∧
      Write.Puts ctx.operator p none it n u m u' ∧
      Write.PutsNamed ctx.operator p none param.metadata it u m u')
    (fun hgives hsound => Write.gives_createItem hsound hgives) hs.sound
  exact ⟨p, values, hpackage, hmay, hp, hit, hputs, hnamed⟩

/-- What has been written when an item was updated. -/
theorem Updates.written {param : UpdateItem} {v : Version} (h : Updates ctx param s v t)
    (hs : s.Sane) : ∃ p old values, ctx.operator.canWrite p.schema.workspace = true ∧
      s.tables.itemPackage old = .ok p ∧ Write.Updated p param s.tables old v.item values ∧
      Write.Puts ctx.operator p (some old) v.item s.supply.next s.tables t.supply.next t.tables ∧
      Write.PutsNamed ctx.operator p (some old) param.metadata v.item s.tables t.supply.next
        t.tables := by
  obtain ⟨p, old', hmay, hold', hpackage, hcommits⟩ := h
  obtain ⟨old, it, values, rfl, hit, hputs, hnamed⟩ := hcommits.elim
    (R := fun n u m u' => Sound n u → ∃ old it values, v.item = it ∧
      Write.Updated p param u old it values ∧ Write.Puts ctx.operator p (some old) it n u m u' ∧
      Write.PutsNamed ctx.operator p (some old) param.metadata it u m u')
    (fun hgives hsound => Write.gives_updateItem hsound hgives) hs.sound
  have hstored := hit.stored
  rw [hit.id] at hstored
  obtain rfl := Option.some.inj (hstored.symm.trans hold')
  exact ⟨p, old, values, hmay, hpackage, hit, hputs, hnamed⟩

/-- What has been written when an item was removed. -/
theorem Drops.written {id : ItemId} (h : Drops ctx id s t) (hs : s.Sane) :
    ∃ p it, it.id = id ∧ ctx.operator.canWrite p.schema.workspace = true ∧
      s.tables.itemPackage it = .ok p ∧
      Write.Removes ctx.operator p it s.supply.next s.tables t.supply.next t.tables := by
  obtain ⟨p, it', hmay, hit', hpackage, hcommits⟩ := h
  obtain ⟨it, hid, hremoves⟩ := hcommits.elim (R := fun n u m u' => Sound n u →
    ∃ it, it.id = id ∧ Write.Removes ctx.operator p it n u m u')
    (fun hgives hsound => Write.gives_deleteItem hsound hgives) hs.sound
  have hstored : Write.latestItem s.tables id = some it := hid ▸ hremoves.stored
  obtain rfl := Option.some.inj (hstored.symm.trans hit')
  exact ⟨p, it, hid, hmay, hpackage, hremoves⟩

/-- A call has its outcome if it has when it succeeds: otherwise the store rests. -/
theorem outcome_of_reaches {α : Type} {op : Operation α} {c : Call} {Q : α → Store → Prop}
    (h : Reaches op s Q) (hQ : ∀ a, (op s).1 = .ok a → Q a (op s).2 → Outcome s ctx c (op s).2) :
    Outcome s ctx c (op s).2 := by
  rcases h with ⟨a, ha, h⟩ | ⟨-, h⟩
  · exact hQ a ha h
  · exact .rests h

/-- An item that was created has been put into the store. -/
theorem outcome_of_creates {c : Call} {package : Except Error Package} {param : CreateItem}
    {v : Version} (hs : s.Sane) (hedits : c.Edits) (h : Creates ctx package param s v t) :
    Outcome s ctx c t := by
  obtain ⟨p, values, -, hmay, hp, hit, hputs, -⟩ := h.written hs
  exact .creates hedits hmay hp hit hputs

/-- An item that was updated has been put there again. -/
theorem outcome_updateItem (hs : s.Sane) (param : UpdateItem) :
    Outcome s ctx (.updateItem param) (updateItem ctx param s).2 := by
  refine outcome_of_reaches (reaches_updateItem param) fun v _ h => ?_
  obtain ⟨p, old, values, hmay, hpackage, hit, hputs, -⟩ := h.written hs
  exact .updates ⟨trivial, id⟩ hmay hpackage hit hputs

/-- An item that was deleted has been removed. -/
theorem outcome_deleteItem (hs : s.Sane) (id : ItemId) :
    Outcome s ctx (.deleteItem id) (deleteItem ctx id s).2 := by
  refine outcome_of_reaches (reaches_deleteItem id) fun a ha h => ?_
  obtain ⟨p, it, hid, hmay, hpackage, hremoves⟩ := h.written hs
  refine .removes ⟨trivial, fun hfalse => hfalse⟩ hmay hpackage (fun x hx => ⟨id, rfl, ha, ?_⟩)
    hremoves
  rcases hx with rfl | hx
  · exact .inl hid
  · exact .inr ⟨it, hid ▸ hremoves.stored, hx⟩

/-- Items that were published or withdrawn have their refs moved. -/
theorem outcome_moveAllPublic {c : Call} (hs : s.Sane) (hpublishes : c.Publishes)
    (how : Publication) (ids : List ItemId) :
    Outcome s ctx c (transact ctx (Write.moveAllPublic ctx.operator how ids) s).2 := by
  refine outcome_of_reaches (reaches_transact (Write.grows_moveAllPublic _ _ _) s)
    fun vs _ hcommits => ?_
  obtain ⟨hmoves, hmay⟩ := hcommits.elim (R := fun n u m u' => Sound n u →
    Write.MovesRefs n u m u' ∧ ∀ x r, u'.rowsOf x r ≠ u.rowsOf x r →
      Write.Maintained ctx.operator u x) (fun hgives hsound => by
    obtain ⟨hmoved, hmaintained⟩ := Write.gives_moveAllPublic hsound hgives
    refine ⟨hmoved.refs, fun x r hne => Classical.byContradiction fun hnot => hne ?_⟩
    exact hmoved.others x r (.inl fun hx => hnot (hmaintained x hx))) hs.sound
  exact .publishes hpublishes hmay hmoves

/-- Searching reads the clock and nothing else. -/
theorem rests_search (p : Package) (q : Query) (pagination : Query.Pagination) :
    s.Rests (search ctx p q pagination s).2 := by
  have hset : ∀ (x : Except Error Query.Page) (u : Store), s.Rests u →
      Reaches (do set u; liftM x : Operation Query.Page) s fun _ t => s.Rests t := by
    intro x u hu
    cases x with
    | error e => exact .inr ⟨⟨e, rfl⟩, hu⟩
    | ok page => exact .inl ⟨page, rfl, hu⟩
  have h : Reaches (search ctx p q pagination) s fun _ t => s.Rests t :=
    reaches_get_bind (reaches_lift_bind fun _ _ => reaches_lift_bind fun _ _ =>
      hset _ _ ⟨rfl, Nat.le_refl _⟩)
  rcases h with ⟨_, -, h⟩ | ⟨-, h⟩ <;> exact h

/-! ## Every call, every run -/

/-- **What a call can do.** -/
theorem outcome_after (hs : s.Sane) (ctx : Context) (c : Call) :
    Outcome s ctx c (c.after ctx s) := by
  cases c with
  | createItem param =>
    exact outcome_of_reaches (reaches_createItem param) fun _ _ h =>
      outcome_of_creates hs ⟨trivial, id⟩ h
  | createMetadataItem param =>
    exact outcome_of_reaches (reaches_createMetadataItem param) fun _ _ h =>
      outcome_of_creates hs ⟨trivial, id⟩ h
  | updateItem param => exact outcome_updateItem hs param
  | deleteItem id => exact outcome_deleteItem hs id
  | publish ids => exact outcome_moveAllPublic (c := .publish ids) hs trivial .publish ids
  | unpublish ids => exact outcome_moveAllPublic (c := .unpublish ids) hs trivial .withdraw ids
  | search p q pagination => exact .rests (rests_search p q pagination)
  | createModel param =>
    exact outcome_of_reaches (reaches_createModel param) fun _ _ => .reshapes id
  | createGroup param =>
    exact outcome_of_reaches (reaches_createGroup param) fun _ _ => .reshapes id
  | updateGroup id' edit =>
    exact outcome_of_reaches (reaches_updateGroup id' edit) fun _ _ => .reshapes id
  | createField param =>
    exact outcome_of_reaches (reaches_createField param) fun _ _ => .reshapes id
  | updateField schema edit =>
    rw [Call.after, after_updateField]
    exact outcome_of_reaches (reaches_updateFields schema [edit]) fun _ _ => .reshapes id
  | updateFields schema edits =>
    exact outcome_of_reaches (reaches_updateFields schema edits) fun _ _ => .reshapes id
  | deleteField schema field =>
    exact outcome_of_reaches (reaches_deleteField schema field) fun _ _ => .reshapes id
  | openWith config catalog =>
    rcases reshaped_openWith config catalog s with h | ⟨d, -, h⟩
    · exact .rests h
    · exact .declares rfl h

/-- Applying a declared catalog is a run of calls that add to the catalog. -/
theorem run_declare (d : Declaration) (s : Store) : Run Call.Extending s (declare d s).2 :=
  leads_declare .rest d (fun _ param => .call (c := .createModel param) trivial)
    (fun _ param => .call (c := .createGroup param) trivial)
    (fun _ param => .call (c := .createField param) trivial) s

/-- So is opening a store. -/
theorem run_openWith (config : Option Config) (catalog : Option String) (s : Store) :
    Run Call.Extending s (openWith config catalog s).2 := by
  rcases openWith_cases config catalog s with h | ⟨d, -, h⟩
  · exact .single (.rest h)
  · exact (run_declare d s).tail (.rest h)

/-- After a removal, too, histories are sound. -/
theorem sound_removes {o : Operator} {p : Package} {it : Item} {n m : Nat} {t u : Tables}
    (h : Write.Removes o p it n t m u) (hs : Sound n t) :
    Sound m u ∧ u.schemas = t.schemas ∧ u.models = t.models ∧ u.groups = t.groups ∧ n ≤ m := by
  obtain ⟨its, v, hsaves, rfl⟩ := h.saves
  obtain ⟨hschemas, hmodels, hgroups⟩ := hsaves.catalog
  have hv := hsaves.sound hs
  cases it.metadataItem with
  | none => exact ⟨hv.deleteItem it.id, hschemas, hmodels, hgroups, hsaves.le⟩
  | some x => exact ⟨(hv.deleteItem x).deleteItem it.id, hschemas, hmodels, hgroups, hsaves.le⟩

/-- **Every call leaves a sane store sane.** -/
theorem sane_of_outcome {c : Call} (h : Outcome s ctx c t) (hs : s.Sane) : t.Sane := by
  have hput : ∀ {p old it}, Write.Puts ctx.operator p old it s.supply.next s.tables
      t.supply.next t.tables → t.Sane := by
    intro p old it hputs
    obtain ⟨its, hsaves⟩ := hputs.saves
    obtain ⟨hschemas, hmodels, hgroups⟩ := hsaves.catalog
    exact ⟨hsaves.sound hs.sound, hs.wired.congr hsaves.le hschemas hmodels hgroups⟩
  have hrewires : Write.Rewires s.supply.next s.tables t.supply.next t.tables → t.Sane :=
    fun h => ⟨h.sound hs.sound, h.wired⟩
  cases h with
  | rests h => exact h.sane hs
  | creates _ _ _ _ hputs => exact hput hputs
  | updates _ _ _ _ hputs => exact hput hputs
  | removes _ _ _ _ h =>
    obtain ⟨hsound, hschemas, hmodels, hgroups, hle⟩ := sound_removes h hs.sound
    exact ⟨hsound, hs.wired.congr hle hschemas hmodels hgroups⟩
  | publishes _ _ h =>
    obtain ⟨⟨refs, htables⟩, hle, hsound⟩ := h
    exact ⟨hsound, hs.wired.congr hle (by rw [htables]) (by rw [htables]) (by rw [htables])⟩
  | reshapes _ h => exact hrewires (h.rewires hs.wired)
  | declares _ h => exact hrewires (h.rewires hs.wired)

/-- An empty store is sane. -/
theorem sane_blank (config : Config) (clock : Time.Clock) (supply : Supply) (emitter : Emitter) :
    (blank config clock supply emitter).Sane :=
  ⟨sound_empty _, wired_empty _⟩

variable {may : Store → Context → Call → Prop}

/-- So is what a step of a run leaves. -/
theorem sane_of_step (h : Step may s t) (hs : s.Sane) : t.Sane := by
  cases h with
  | call _ => exact sane_of_outcome (outcome_after hs _ _) hs
  | rest h => exact h.sane hs

/-- **Histories stay sound and the catalog stays wired** along every run. -/
theorem sane_of_run (h : Run may s t) (hs : s.Sane) : t.Sane := by
  induction h with
  | refl => exact hs
  | tail _ hstep ih => exact sane_of_step hstep ih

end Store

end ContentStore
