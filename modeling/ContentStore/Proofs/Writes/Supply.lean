import ContentStore.Proofs.Effects
import ContentStore.Store.Fields
import ContentStore.Store.Items
import ContentStore.Store.Models
import ContentStore.Store.Publishing

/-!
# No body takes a serial number back

Bodies take serial numbers from the supply and do nothing else with it.  So the
number of the next id only grows, also when a write fails half-way.  Up to where
a write of an item announces itself, none of its parts queues an event, and
writes of the catalog queue none at all.
-/

namespace ContentStore.Write

/-! ## Items -/

/-- Appending a version announces nothing. -/
theorem quiet_append (it : Item) (expected : Option VersionId) : Quiet (append it expected) :=
  along_bind along_tables fun _ => along_bind quiet_now fun _ => along_bind quiet_fresh fun _ =>
    along_bind (along_lift _) fun _ => along_bind along_tables fun _ =>
    along_bind (along_lift _) fun _ => along_bind (quiet_change _) fun _ => along_pure _

/-- An item that follows a write is saved without an event. -/
theorem quiet_saveFollower (o : Operator) (it : Item) : Quiet (saveFollower o it) :=
  along_bind (quiet_append _ _) fun _ => along_pure _

/-- So are all of them. -/
theorem quiet_saveFollowers (o : Operator) (its : List Item) : Quiet (saveFollowers o its) :=
  along_forM (quiet_saveFollower o) its

/-- The check of unique values only looks. -/
theorem quiet_checkUnique (p : Package) (id : ItemId) (old : Option Item)
    (values : List ItemField) : Quiet (checkUnique p id old values) :=
  along_bind along_tables fun _ => along_lift _

/-- So does the check of references. -/
theorem quiet_checkAllTargets (p : Package) (id : ItemId) (values : List ItemField) :
    Quiet (checkAllTargets p id values) :=
  along_bind along_tables fun _ => along_lift _

/-- Linking a metadata item announces nothing. -/
theorem quiet_linkNamed (o : Operator) (p : Package) (it : Item) (named : Option ItemId) :
    Quiet (linkNamed o p it named) := by
  cases named with
  | none => exact along_pure _
  | some id =>
    refine along_bind along_tables fun _ => along_bind (along_lift _) fun m => ?_
    dsimp only
    split
    · exact along_bind (quiet_saveFollower _ _) fun _ => along_pure _
    · exact along_pure _

/-- Nor does the repair of partners. -/
theorem quiet_repairPartners (o : Operator) (p : Package) (it : Item) (old : Option Item) :
    Quiet (repairPartners o p it old) :=
  along_bind along_tables fun _ => along_bind (along_lift _) fun _ => quiet_saveFollowers _ _

/-- Collecting what an item refers to only looks. -/
theorem quiet_referenced (it : Item) : Quiet (referenced it) :=
  along_bind along_tables fun _ => along_pure _

/-- A new item takes fresh ids and announces nothing. -/
theorem quiet_newItem (p : Package) (o : Operator) (createdAt : Time.Instant) :
    Quiet (newItem p o createdAt) :=
  along_bind quiet_freshId fun _ => along_bind quiet_freshId fun _ => along_pure _

/-- Creating an item leaves its transaction open, wherever it may fail. -/
theorem grows_createItem (o : Operator) (p : Package) (param : CreateItem) :
    Grows (createItem o p param) :=
  along_bind quiet_now.grows fun _ => along_bind (quiet_newItem _ _ _).grows fun _ =>
    along_bind (along_lift _) fun _ => along_bind (along_lift _) fun _ =>
    along_bind (quiet_checkUnique _ _ _ _).grows fun _ =>
    along_bind (quiet_checkAllTargets _ _ _).grows fun _ =>
    along_bind (quiet_linkNamed _ _ _ _).grows fun _ =>
    along_bind (quiet_append _ _).grows fun _ =>
    along_bind (quiet_repairPartners _ _ _ _).grows fun _ =>
    along_bind (quiet_referenced _).grows fun _ =>
    along_bind (grows_queue _) fun _ => along_pure _

/-- So does updating one. -/
theorem grows_updateItem (o : Operator) (p : Package) (param : UpdateItem) :
    Grows (updateItem o p param) := by
  refine along_bind quiet_now.grows fun _ => along_bind along_tables fun t => ?_
  cases hold : latestItem t param.item with
  | none =>
    simp only
    exact along_throw _
  | some old =>
    simp only
    exact along_bind (along_lift _) fun _ => along_bind (quiet_checkUnique _ _ _ _).grows fun _ =>
      along_bind (quiet_checkAllTargets _ _ _).grows fun _ => along_bind (along_lift _) fun _ =>
      along_bind (quiet_linkNamed _ _ _ _).grows fun _ =>
      along_bind (quiet_append _ _).grows fun _ =>
      along_bind (quiet_repairPartners _ _ _ _).grows fun _ =>
      along_bind (quiet_referenced _).grows fun _ =>
      along_bind (grows_queue _) fun _ => along_pure _

/-- So does deleting one. -/
theorem grows_deleteItem (o : Operator) (p : Package) (id : ItemId) :
    Grows (deleteItem o p id) := by
  refine along_bind quiet_now.grows fun _ => along_bind along_tables fun t => ?_
  cases hlast : t.latest? id with
  | none =>
    simp only
    exact along_throw _
  | some last =>
    simp only
    refine along_bind along_tables fun _ => along_bind (quiet_saveFollowers _ _).grows fun _ => ?_
    split
    · exact along_bind (quiet_change _).grows fun _ => along_bind (quiet_change _).grows fun _ =>
        grows_queue _
    · exact along_bind (quiet_change _).grows fun _ => grows_queue _

/-! ## Publishing -/

/-- Announcing a version changes nothing but the queue. -/
theorem grows_announce (latest : Option Version) (e : Version → Event) (missing : Error) :
    Grows (match latest with
      | some v => do
        queue (e v)
        pure v
      | _ => throw missing : Write Version) := by
  split
  · exact along_bind (grows_queue _) fun _ => along_pure _
  · exact along_throw _

/-- Moving the ref of one item leaves the transaction open. -/
theorem grows_movePublic (o : Operator) (how : Publication) (start : Time.Instant) (h : History) :
    Grows (movePublic o how start h) := by
  unfold movePublic
  cases how with
  | withdraw =>
    exact along_bind (along_lift _) fun _ => along_bind (quiet_change _).grows fun _ =>
      grows_announce _ (fun v => ⟨_, v, o, [], [], start⟩) _
  | publish =>
    cases hlatest : h.latest with
    | none => exact along_throw_bind _ _
    | some latest =>
      exact along_bind (along_lift _) fun _ => along_bind (quiet_change _).grows fun _ =>
        grows_announce _ (fun v => ⟨_, v, o, [], [], start⟩) _

/-- So does publishing or withdrawing any number of them. -/
theorem grows_moveAllPublic (o : Operator) (how : Publication) (ids : List ItemId) :
    Grows (moveAllPublic o how ids) := by
  refine along_bind along_tables fun t => along_bind (along_lift _) fun histories => ?_
  dsimp only
  split
  · exact along_throw_bind _ _
  · exact along_bind (along_lift _) fun _ => along_bind quiet_now.grows fun _ =>
      along_mapM (grows_movePublic o how _) histories

/-! ## The catalog -/

/-- A new schema takes a fresh id and announces nothing. -/
theorem quiet_newSchema (project : ProjectId) (workspace : WorkspaceId) :
    Quiet (newSchema project workspace) :=
  along_bind quiet_freshId fun _ => along_bind (quiet_change _) fun _ => along_pure _

/-- Creating a model announces nothing. -/
theorem quiet_createModel (param : NewModel) : Quiet (createModel param) := by
  refine along_bind along_tables fun t => ?_
  dsimp only
  split
  · exact along_throw_bind _ _
  · refine along_bind (quiet_newSchema _ _) fun schema => ?_
    split
    · exact along_bind (along_bind (quiet_newSchema _ _) fun _ => along_pure _) fun _ =>
        along_bind quiet_freshId fun _ => along_bind (quiet_change _) fun _ => along_pure _
    · exact along_bind (along_pure _) fun _ =>
        along_bind quiet_freshId fun _ => along_bind (quiet_change _) fun _ => along_pure _

/-- Nor does creating a group. -/
theorem quiet_createGroup (param : NewGroup) : Quiet (createGroup param) := by
  refine along_bind along_tables fun t => ?_
  dsimp only
  split
  · exact along_throw_bind _ _
  · exact along_bind (quiet_newSchema _ _) fun _ => along_bind quiet_freshId fun _ =>
      along_bind (quiet_change _) fun _ => along_pure _

/-- Nor does updating one. -/
theorem quiet_updateGroup (g : Group) (edit : GroupEdit) : Quiet (updateGroup g edit) :=
  along_bind along_tables fun _ => along_bind (along_lift _) fun _ =>
    along_bind (quiet_change _) fun _ => along_pure _

/-- A change of the tables at one go announces nothing, whether it succeeds or not. -/
theorem quiet_step {α : Type} (f : Tables → Except Error (Tables × α)) : Quiet (step f) :=
  along_bind along_tables fun _ => along_bind (along_lift _) fun _ =>
    along_bind (quiet_change _) fun _ => along_pure _

/-- A step that takes two new ids. -/
theorem quiet_freshStep {k k' : IdKind} {α : Type}
    (f : Id k → Id k' → Tables → Except Error (Tables × α)) : Quiet (do
      let id ← freshId
      let id' ← freshId
      step (f id id')) :=
  along_bind quiet_freshId fun _ => along_bind quiet_freshId fun _ => quiet_step _

end ContentStore.Write
