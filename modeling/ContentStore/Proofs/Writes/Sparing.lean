import ContentStore.Proofs.Catalog.Closed
import ContentStore.Proofs.Effects
import ContentStore.Proofs.Embedding.Known
import ContentStore.Proofs.Pairing.Repairs

/-!
# Writes of items spare the schemas

The catalog is a matter of its own: whatever is wrong with the input of a write of
an item, the schemas are not to blame.  Reading the input, completing it, and
checking it against other items fail for reasons of their own (`Spares`).  Only the
repair of two-way references looks a field of a schema up and would fail without
it, and in a closed package it is there.
-/

namespace ContentStore

section Spares

variable {α β : Type}

/-- If the computation fails, then not for a defect of a schema. -/
def Spares (x : Except Error α) : Prop := ∀ d, x ≠ .error (.schema d)

namespace Spares

/-- What succeeds blames nobody. -/
theorem ok (a : α) : Spares (.ok a) := fun _ h => nomatch h

/-- An error may be passed on. -/
theorem pass {x : Except Error α} {e : Error} (h : Spares x) (hx : x = .error e) :
    Spares (.error e : Except Error β) := by
  rintro d ⟨⟩
  exact h d hx

/-- Two steps spare the schemas if each does. -/
theorem bind {x : Except Error α} {f : α → Except Error β} (hx : Spares x)
    (hf : ∀ a, Spares (f a)) : Spares (x >>= f) := by
  cases x with
  | error e => exact hx.pass rfl
  | ok a => exact hf a

/-- A change of the result changes no error. -/
theorem map {x : Except Error α} (hx : Spares x) (f : α → β) : Spares (x.map f) := by
  cases x with
  | error e => exact hx.pass rfl
  | ok a => exact .ok _

/-- A traversal fails only as one of its steps does. -/
theorem mapM {f : α → Except Error β} (hf : ∀ a, Spares (f a)) (xs : List α) :
    Spares (xs.mapM f) := by
  induction xs with
  | nil => exact .ok []
  | cons x xs ih =>
    rw [List.mapM_cons]
    exact (hf x).bind fun _ => ih.bind fun _ => .ok _

/-- A check of all elements fails only as the check of one of them does. -/
theorem forM {f : α → Except Error PUnit} (hf : ∀ a, Spares (f a)) (xs : List α) :
    Spares (xs.forM f) := by
  induction xs with
  | nil => exact .ok _
  | cons x xs ih => exact (hf x).bind fun _ => ih

/-- A defect of a value is told as one of the field, not of its schema. -/
theorem liftValue (key : String) (x : Except ValueDefect α) : Spares (liftValue key x) := by
  cases x with
  | error e => exact fun _ h => nomatch h
  | ok a => exact .ok a

end Spares

variable {σ : Type}

/-- From whatever state, the computation does not fail for a defect of a schema. -/
def Sparing (x : ExceptT Error (StateM σ) α) : Prop := ∀ s, Spares (x s).1

namespace Sparing

/-- What succeeds from every state blames nobody. -/
theorem of_ok {x : ExceptT Error (StateM σ) α} (h : ∀ s, ∃ a, (x s).1 = .ok a) : Sparing x := by
  intro s d hfails
  obtain ⟨a, ha⟩ := h s
  cases ha.symm.trans hfails

/-- A result blames nobody. -/
theorem pure (a : α) : Sparing (pure a : ExceptT Error (StateM σ) α) := .of_ok fun _ => ⟨a, rfl⟩

/-- A computation without a state spares the schemas in any state. -/
theorem lift {x : Except Error α} (h : Spares x) :
    Sparing (liftM x : ExceptT Error (StateM σ) α) := by
  cases x with
  | error e => exact fun _ => h.pass rfl
  | ok a => exact .pure a

/-- Two steps with a state spare the schemas if each does. -/
theorem bind {x : ExceptT Error (StateM σ) α} {f : α → ExceptT Error (StateM σ) β}
    (hx : Sparing x) (hf : ∀ a, Sparing (f a)) : Sparing (x >>= f) := by
  intro s
  have h := hx s
  rw [run_bind]
  rcases hr : x s with ⟨e | a, u⟩
  · rw [hr] at h
    exact h.pass rfl
  · exact hf a u

/-- A loop fails only as one of its rounds does. -/
theorem forM {f : α → ExceptT Error (StateM σ) PUnit} (hf : ∀ a, Sparing (f a)) (xs : List α) :
    Sparing (xs.forM f) := by
  induction xs with
  | nil => exact .pure _
  | cons x xs ih => exact (hf x).bind fun _ => ih

end Sparing

/-- The clock never fails. -/
theorem sparing_now : Sparing Write.now := .of_ok fun _ => ⟨_, rfl⟩

/-- Nor does the supply of serial numbers. -/
theorem sparing_fresh : Sparing Write.fresh := .of_ok fun _ => ⟨_, rfl⟩

/-- Looking at the tables never fails. -/
theorem sparing_tables : Sparing Write.tables := .of_ok fun _ => ⟨_, rfl⟩

/-- Nor does changing them. -/
theorem sparing_change (f : Tables → Tables) : Sparing (Write.change f) := .of_ok fun _ => ⟨_, rfl⟩

/-- An event is queued whatever it says. -/
theorem sparing_queue (e : Event) : Sparing (Write.queue e) := .of_ok fun _ => ⟨_, rfl⟩

end Spares

/-! ## Reading input -/

namespace Embedding

variable {p : Package} {values stored : List ItemField}

/-- A raw value that does not fit its field is a defect of the value. -/
theorem spares_prepare (f : Field) (raw : Json) : Spares (f.prepare raw) :=
  (Spares.liftValue _ _).bind fun _ => (Spares.liftValue _ _).bind fun _ => .ok _

/-- A field that the input names and the schema lacks is the fault of the input. -/
theorem spares_valueOf (s : Schema) (raw : RawField) : Spares (valueOf s raw) := by
  refine Spares.bind ?_ fun f => (spares_prepare f _).bind fun _ => .ok _
  unfold fieldOf
  split
  · exact .ok _
  · exact fun _ h => nomatch h

/-- A host that is no group is refused as such, and a missing group is not found. -/
theorem spares_groupSchema (p : Package) (f : Field) : Spares (groupSchema p f) := by
  unfold groupSchema
  split
  · exact fun _ h => nomatch h
  · split
    · exact .ok _
    · exact fun _ h => nomatch h

/-- A visit fails for a host that is no group or has none, and for nothing else. -/
theorem spares_visitHosts (owner : Option InstanceId) (hosts : List Field) (found : Found)
    (pending : List Visit) : Spares (visitHosts p values stored owner hosts found pending) := by
  intro d h
  obtain ⟨F, -, hfails⟩ := exists_of_visitHosts_error h
  exact spares_groupSchema p F d hfails

/-- The visits of all instances fail as one of them does. -/
theorem spares_visitAll (fuel : Nat) (found : Found) (pending : List Visit) :
    Spares (visitAll p values stored fuel found pending) := by
  fun_induction visitAll with
  | case1 => exact .ok _
  | case2 => exact .ok _
  | case3 _ _ _ _ _ _ hvisit => exact (spares_visitHosts _ _ _ _).pass hvisit
  | case4 _ _ _ _ _ _ _ _ ih => exact ih

/-- A round reads each input with the schema that governs it, and leaves the others for the
next round. -/
theorem spares_resolveRound (found : Found) (input : List RawField) :
    Spares (resolveRound found input) := by
  fun_induction resolveRound with
  | case1 => exact .ok _
  | case2 _ _ _ ih => exact ih.map _
  | case3 _ _ _ _ _ hvalue => exact (spares_valueOf _ _).pass hvalue
  | case4 _ _ _ _ _ _ ih => exact ih.map _

/-- The rounds fail as one of them does, or for input that no instance claims. -/
theorem spares_resolveRounds (fuel : Nat) (values : List ItemField) (input : List RawField) :
    Spares (resolveRounds p stored fuel values input) := by
  induction fuel generalizing values input with
  | zero => cases input <;> exact .ok _
  | succ fuel ih =>
    cases input with
    | nil => exact .ok _
    | cons raw rest =>
      refine (spares_visitAll _ _ _).bind fun found => (spares_resolveRound _ _).bind ?_
      rintro ⟨new, left⟩
      dsimp only
      split
      · exact fun _ h => nomatch h
      · exact ih _ _

/-- **Reading input spares the schemas**: if it fails, the input is at fault. -/
theorem spares_valuesOfRaw (p : Package) (input : List RawField) (stored : List ItemField) :
    Spares (valuesOfRaw p input stored) :=
  (Spares.mapM (spares_valueOf p.schema) _).bind fun _ => spares_resolveRounds _ _ _

/-! ## Completing -/

/-- A required field without value and default is told as a defect of the value. -/
theorem spares_fillDefaults (owner : Option InstanceId) (fs : List Field)
    (values : List ItemField) : Spares (fillDefaults owner fs values).2 := by
  fun_induction fillDefaults with
  | case1 => exact .ok _
  | case2 _ _ _ _ ih => exact ih
  | case3 _ _ _ _ _ hprepare => exact (spares_prepare _ _).pass hprepare
  | case4 _ _ _ _ _ _ _ ih => exact ih
  | case5 _ _ _ _ _ _ _ ih => exact ih

/-- Listing the instances that are still to be completed fails for a host without a group
only. -/
theorem spares_pendingHosts (owner : Option InstanceId) (hosts : List Field)
    (seen : List InstanceId) (pending : List Visit) :
    Spares (pendingHosts p owner values hosts seen pending) := by
  fun_induction pendingHosts with
  | case1 => exact .ok _
  | case2 _ _ _ _ _ _ ih => exact ih
  | case3 _ _ _ _ _ _ _ hgroup => exact (spares_groupSchema _ _).pass hgroup
  | case4 _ _ _ _ _ _ _ _ _ ih => exact ih

/-- Completing one instance after the other fails as completing one does. -/
theorem spares_completeAll (fuel : Nat) (seen : List InstanceId) (pending : List Visit)
    (values : List ItemField) : Spares (completeAll p fuel seen pending values).2 := by
  fun_induction completeAll with
  | case1 => exact .ok _
  | case2 => exact .ok _
  | case3 _ _ _ _ _ _ _ _ hfill =>
    exact (spares_fillDefaults _ _ _).pass (congrArg Prod.snd hfill)
  | case4 _ _ _ _ _ _ _ _ _ hpending => exact (spares_pendingHosts _ _ _ _).pass hpending
  | case5 _ _ _ _ _ _ _ _ _ _ _ ih => exact ih

/-- **Completing an item spares the schemas.** -/
theorem spares_completed (p : Package) (values : List ItemField) : Spares (completed p values) := by
  have h : Spares (complete p values).2 := spares_completeAll _ _ _ _
  unfold completed
  split
  · exact .ok _
  · rename_i hcomplete
    exact h.pass (congrArg Prod.snd hcomplete)

end Embedding

/-! ## Other items -/

namespace Write

variable {p : Package}

/-- The check of unique values fails for a value that another item holds or that has no
field. -/
theorem spares_check (index : Uniqueness.Lookup → Option ItemId) (item : ItemId)
    (old : Option Item) (values : List ItemField) :
    Spares (Uniqueness.check index p item old values).2 := by
  fun_induction Uniqueness.check with
  | case1 => exact .ok _
  | case2 _ _ _ ih => exact ih
  | case3 => exact fun _ h => nomatch h
  | case4 _ _ _ _ _ _ ih => exact ih
  | case5 => exact fun _ h => nomatch h
  | case6 _ _ _ _ _ _ _ _ _ _ hrest ih =>
    rw [hrest] at ih
    exact ih

/-- A reference to the item itself, to no item, or to one of another model is the fault of
the value. -/
theorem spares_checkTargets (t : Tables) (item : ItemId) (v : ItemField) :
    Spares (checkTargets t p item v) := by
  have hone : ∀ f model key target, Spares (checkTarget t item f model key target) := by
    intro f model key target
    unfold checkTarget
    split
    · exact fun _ h => nomatch h
    · split
      · exact fun _ h => nomatch h
      · split
        · exact .ok _
        · exact fun _ h => nomatch h
  unfold checkTargets
  split
  · exact .ok _
  · split
    · exact .ok _
    · exact .forM (hone _ _ _) _

/-- A metadata item that cannot be linked is the fault of whoever names it. -/
theorem spares_metadataItem (t : Tables) (it : Item) (id : ItemId) :
    Spares (metadataItem t p it id) := by
  unfold metadataItem
  split
  · exact fun _ h => nomatch h
  · split
    · exact .ok _
    · exact fun _ h => nomatch h

/-- A version that is there already is no matter of schemas. -/
theorem spares_insertVersion (t : Tables) (v : Version) : Spares (t.insertVersion v) := by
  unfold Tables.insertVersion
  split
  · exact fun _ h => nomatch h
  · exact .ok _

/-- A history refuses an item that is not its own, and an expected version that is not the
latest. -/
theorem spares_historyAppend (h : History) (it : Item) (timestamp : Time.Instant)
    (expected : Option VersionId) (fresh : VersionId) :
    Spares (h.append it timestamp expected fresh) := by
  intro d hfails
  unfold History.append at hfails
  simp only [bind, Except.bind, pure, Except.pure, throw, throwThe, MonadExceptOf.throw] at hfails
  repeat' split at hfails
  all_goals simp_all

/-- Appending a version fails for a conflict or for an id that is taken. -/
theorem sparing_append (it : Item) (expected : Option VersionId) : Sparing (append it expected) :=
  sparing_tables.bind fun _ => sparing_now.bind fun _ => sparing_fresh.bind fun _ =>
    (Sparing.lift (spares_historyAppend _ _ _ _ _)).bind fun _ => sparing_tables.bind fun _ =>
    (Sparing.lift (spares_insertVersion _ _)).bind fun _ => (sparing_change _).bind fun _ =>
    .pure _

/-- An item that follows a write is appended like any other. -/
theorem sparing_saveFollower (o : Operator) (it : Item) : Sparing (saveFollower o it) :=
  (sparing_append _ _).bind fun _ => .pure _

/-- So are all of them. -/
theorem sparing_saveFollowers (o : Operator) (its : List Item) : Sparing (saveFollowers o its) :=
  .forM (sparing_saveFollower o) its

/-- The check of unique values looks at values only. -/
theorem sparing_checkUnique (p : Package) (id : ItemId) (old : Option Item)
    (values : List ItemField) : Sparing (checkUnique p id old values) :=
  sparing_tables.bind fun _ => .lift (spares_check _ _ _ _)

/-- The check of references looks at items only. -/
theorem sparing_checkAllTargets (p : Package) (id : ItemId) (values : List ItemField) :
    Sparing (checkAllTargets p id values) :=
  sparing_tables.bind fun _ => .lift (.forM (spares_checkTargets _ _) _)

/-- Linking a metadata item looks at items and models only. -/
theorem sparing_linkNamed (o : Operator) (p : Package) (it : Item) (named : Option ItemId) :
    Sparing (linkNamed o p it named) := by
  cases named with
  | none => exact .pure _
  | some id =>
    refine sparing_tables.bind fun _ => (Sparing.lift (spares_metadataItem _ _ _)).bind fun m => ?_
    dsimp only
    split
    · exact (sparing_saveFollower _ _).bind fun _ => .pure _
    · exact .pure _

/-- **No repair fails** where the other ends are found. -/
theorem exists_repairs (hp : p.FindsMirrors) (latest : ItemId → Option Item) (it : Item)
    (old : Option Item) :
    ∃ followers, Pairing.repairs latest p.schema (targetSchema p) it old = .ok followers := by
  have hmirror : ∀ F ∈ p.schema.referenceFields, ∀ g, F.corresponding? = some g →
      ∃ m, ((targetSchema p F).bind fun s => s.field? g) = some m := by
    intro F hF g hg
    obtain ⟨T, G, hT, hG⟩ := hp F (Schema.mem_referenceFields.mp hF).1 g hg
    exact ⟨G, by rw [hT, Option.bind_some, hG]⟩
  obtain ⟨edits, hedits⟩ : ∃ edits, p.schema.referenceFields.foldlM
      (Pairing.repairField latest (targetSchema p) it old) [] = .ok edits :=
    Pairing.repairs_succeed hmirror []
  exact ⟨_, map_eq_ok.mpr ⟨edits, hedits, rfl⟩⟩

/-- **Repairs spare the schemas** if the package finds all mirrors: what they look up is
there. -/
theorem sparing_repairPartners (hp : p.FindsMirrors) (o : Operator) (it : Item)
    (old : Option Item) : Sparing (repairPartners o p it old) := by
  refine sparing_tables.bind fun t => ?_
  obtain ⟨followers, hfollowers⟩ := exists_repairs hp (latestItem t) it old
  rw [hfollowers]
  exact (Sparing.pure _).bind fun _ => sparing_saveFollowers o _

/-- Collecting what an item refers to leaves out what is not found. -/
theorem sparing_referenced (it : Item) : Sparing (referenced it) :=
  sparing_tables.bind fun _ => .pure _

/-- A new item takes fresh ids, and there is always another one. -/
theorem sparing_newItem (p : Package) (o : Operator) (createdAt : Time.Instant) :
    Sparing (newItem p o createdAt) :=
  (sparing_fresh.bind fun _ => .pure _).bind fun _ =>
    (sparing_fresh.bind fun _ => .pure _).bind fun _ => .pure _

/-! ## Whole writes -/

/-- The body that creates an item spares the schemas. -/
theorem sparing_createItem (hp : p.FindsMirrors) (o : Operator) (param : CreateItem) :
    Sparing (createItem o p param) :=
  sparing_now.bind fun _ => (sparing_newItem _ _ _).bind fun _ =>
    (Sparing.lift (Embedding.spares_valuesOfRaw _ _ _)).bind fun _ =>
    (Sparing.lift (Embedding.spares_completed _ _)).bind fun _ =>
    (sparing_checkUnique _ _ _ _).bind fun _ => (sparing_checkAllTargets _ _ _).bind fun _ =>
    (sparing_linkNamed _ _ _ _).bind fun _ => (sparing_append _ _).bind fun _ =>
    (sparing_repairPartners hp _ _ _).bind fun _ => (sparing_referenced _).bind fun _ =>
    (sparing_queue _).bind fun _ => .pure _

/-- The body that updates an item spares the schemas. -/
theorem sparing_updateItem (hp : p.FindsMirrors) (o : Operator) (param : UpdateItem) :
    Sparing (updateItem o p param) := by
  refine sparing_now.bind fun _ => sparing_tables.bind fun t => ?_
  cases hold : latestItem t param.item with
  | none => exact .lift (x := .error _) fun _ h => nomatch h
  | some old =>
    exact (Sparing.lift (Embedding.spares_valuesOfRaw _ _ _)).bind fun _ =>
      (sparing_checkUnique _ _ _ _).bind fun _ => (sparing_checkAllTargets _ _ _).bind fun _ =>
      (Sparing.lift (Embedding.spares_completed _ _)).bind fun _ =>
      (sparing_linkNamed _ _ _ _).bind fun _ => (sparing_append _ _).bind fun _ =>
      (sparing_repairPartners hp _ _ _).bind fun _ => (sparing_referenced _).bind fun _ =>
      (sparing_queue _).bind fun _ => .pure _

/-- The body that deletes an item fails for an item that is not there, or for a follower
that cannot be appended. -/
theorem sparing_deleteItem (o : Operator) (p : Package) (id : ItemId) :
    Sparing (deleteItem o p id) := by
  refine sparing_now.bind fun _ => sparing_tables.bind fun t => ?_
  cases hlast : t.latest? id with
  | none => exact .lift (x := .error _) fun _ h => nomatch h
  | some last =>
    refine sparing_tables.bind fun _ => (sparing_saveFollowers _ _).bind fun _ => ?_
    dsimp only
    split
    · exact (sparing_change _).bind fun _ => (sparing_change _).bind fun _ => sparing_queue _
    · exact (sparing_change _).bind fun _ => sparing_queue _

end Write

namespace Store

open Tables

/-- A call that was given up is told as such. -/
theorem spares_ensureActive (ctx : Context) (p : Progress) : Spares (ctx.ensureActive p) := by
  unfold Context.ensureActive
  split
  · exact fun _ h => nomatch h
  · exact .ok _

/-- A transaction fails as its body does, or because it was given up. -/
theorem sparing_transact {α : Type} (ctx : Context) {body : Write α} (hg : Grows body)
    (h : Sparing body) : Sparing (transact ctx body) := by
  intro s
  rw [transact_eq hg]
  split
  · rename_i he
    exact (spares_ensureActive _ _).pass he
  · have hbody := h s.polled.opened
    split
    · rename_i he
      rw [he] at hbody
      exact hbody.pass rfl
    · split
      · rename_i he
        exact (spares_ensureActive _ _).pass he
      · exact .ok _

/-- A step that may fail, and then the rest. -/
theorem spares_lift_bind {α β : Type} {x : Except Error α} {f : α → Operation β} {s : Store}
    (hx : Spares x) (hf : ∀ a, x = .ok a → Spares (f a s).1) :
    Spares ((liftM x >>= f : Operation β) s).1 := by
  cases x with
  | error e => exact hx.pass rfl
  | ok a => exact hf a rfl

/-- An operator without access is told so. -/
theorem spares_checkWrite (o : Operator) (w : WorkspaceId) : Spares (o.checkWrite w) := by
  unfold Operator.checkWrite
  split
  · exact .ok _
  · exact fun _ h => nomatch h

/-- An item that is not there is not found. -/
theorem spares_find (s : Store) (ctx : Context) (id : ItemId) : Spares (s.find ctx id) := by
  unfold find
  refine (spares_ensureActive _ _).bind fun _ => ?_
  split
  · exact .ok _
  · exact fun _ h => nomatch h

/-- A model without metadata items has no package for them. -/
theorem spares_metadataPackage (p : Package) : Spares (metadataPackage p) := by
  unfold metadataPackage
  split
  · exact .ok _
  · exact fun _ h => nomatch h

section Reachable

variable {s : Store} (hs : s.Reachable)

include hs

/-- Every stored model of a reachable store has a package that is closed. -/
theorem exists_closed {M : Model} (hM : M ∈ s.tables.models) :
    ∃ p, s.tables.package M.id = .ok p ∧ p.model = M ∧ s.tables.Closed p :=
  exists_package hs.sane.wired (lasting_nested.reachable hs) (lasting_targeted.reachable hs) hM

/-- Whatever package is loaded from a reachable store is closed. -/
theorem closed_package {id : ModelId} {p : Package} (h : s.tables.package id = .ok p) :
    s.tables.Closed p := by
  obtain ⟨hpacked, rfl, -⟩ := packed_package h
  obtain ⟨q, hq, -, hclosed⟩ := exists_closed hs hpacked.model
  obtain rfl : q = p := Except.ok.inj (hq.symm.trans h)
  exact hclosed

/-- A package is refused only if there is no model. -/
theorem spares_package (id : ModelId) : Spares (s.tables.package id) := by
  intro d h
  cases hM : s.tables.model? id with
  | none =>
    unfold package Tables.model at h
    rw [hM] at h
    cases h
  | some M =>
    obtain ⟨hmem, rfl⟩ := mem_of_model (t := s.tables) (by rw [Tables.model, hM])
    obtain ⟨p, hp, -⟩ := exists_closed hs hmem
    cases hp.symm.trans h

/-- In the package of an item, or of its metadata item, every mirror is found. -/
theorem findsMirrors_itemPackage {it : Item} {p : Package} (h : s.tables.itemPackage it = .ok p) :
    p.FindsMirrors := by
  obtain ⟨q, hq, ⟨-, rfl⟩ | ⟨-, hmetadata⟩⟩ := itemPackage_eq_ok h
  · exact (closed_package hs hq).findsMirrors (.inl rfl)
  · exact (closed_package hs hq).findsMirrors (.inr hmetadata)

/-- The package that an item is written with is found, or the item is not. -/
theorem spares_writtenPackage (ctx : Context) (id : ItemId) : Spares (s.writtenPackage ctx id) := by
  refine (spares_find s ctx id).bind fun current => Spares.bind ?_ fun _ =>
    (spares_checkWrite _ _).bind fun _ => .ok _
  refine (spares_package hs _).bind fun p => ?_
  split
  · exact .ok _
  · exact spares_metadataPackage _

/-- Creating an item spares the schemas. -/
theorem spares_createItem (ctx : Context) (param : CreateItem) :
    Spares (createItem ctx param s).1 := by
  refine spares_lift_bind (x := s.tables.package param.model) (spares_package hs _) fun p hp => ?_
  refine spares_lift_bind (spares_checkWrite _ _) fun _ _ => ?_
  exact sparing_transact ctx (Write.grows_createItem _ _ _)
    (Write.sparing_createItem ((closed_package hs hp).findsMirrors (.inl rfl)) _ _) s

/-- Creating a metadata item spares the schemas. -/
theorem spares_createMetadataItem (ctx : Context) (param : CreateItem) :
    Spares (createMetadataItem ctx param s).1 := by
  refine spares_lift_bind (x := s.tables.package param.model) (spares_package hs _) fun q hq => ?_
  refine spares_lift_bind (spares_metadataPackage _) fun p hp => ?_
  dsimp only
  split
  · exact fun _ h => nomatch h
  · refine spares_lift_bind (spares_checkWrite _ _) fun _ _ => ?_
    exact sparing_transact ctx (Write.grows_createItem _ _ _)
      (Write.sparing_createItem ((closed_package hs hq).findsMirrors (.inr hp)) _ _) s

/-- Updating an item spares the schemas. -/
theorem spares_updateItem (ctx : Context) (param : UpdateItem) :
    Spares (updateItem ctx param s).1 := by
  unfold updateItem
  split
  · exact fun _ h => nomatch h
  · refine spares_lift_bind (x := s.writtenPackage ctx param.item) (spares_writtenPackage hs _ _)
      fun p hp => ?_
    obtain ⟨current, -, hp⟩ := bind_eq_ok.mp hp
    obtain ⟨q, hq, hp⟩ := bind_eq_ok.mp hp
    obtain ⟨_, -, hp⟩ := bind_eq_ok.mp hp
    cases hp
    exact sparing_transact ctx (Write.grows_updateItem _ _ _)
      (Write.sparing_updateItem (findsMirrors_itemPackage hs hq) _ _) s.polled

/-- Deleting an item spares the schemas. -/
theorem spares_deleteItem (ctx : Context) (id : ItemId) : Spares (deleteItem ctx id s).1 := by
  refine spares_lift_bind (x := s.writtenPackage ctx id) (spares_writtenPackage hs _ _)
    fun p _ => ?_
  exact sparing_transact ctx (Write.grows_deleteItem _ _ _) (Write.sparing_deleteItem _ p id)
    s.polled

/-- **Packages are closed, and no write of an item fails for a schema's sake.**  Every stored
model has a package that holds its schemas, just the groups embedded in them, and the targets of
all references with the other ends of two-way ones.  By it, repairs find all that they look up,
and no error of creating, updating or deleting an item is about a schema. -/
theorem closed_of_reachable :
    (∀ M ∈ s.tables.models, ∃ p, s.tables.package M.id = .ok p ∧ p.model = M ∧
      s.tables.Closed p ∧ ∀ q, q = p ∨ metadataPackage p = .ok q →
        ∀ latest it old, ∃ followers,
          Pairing.repairs latest q.schema (Write.targetSchema q) it old = .ok followers) ∧
    ∀ ctx, (∀ param, Spares (createItem ctx param s).1 ∧
        Spares (createMetadataItem ctx param s).1) ∧
      (∀ param, Spares (updateItem ctx param s).1) ∧ ∀ id, Spares (deleteItem ctx id s).1 := by
  refine ⟨fun M hM => ?packages, fun ctx => ⟨fun param => ⟨spares_createItem hs ctx param,
    spares_createMetadataItem hs ctx param⟩, spares_updateItem hs ctx, spares_deleteItem hs ctx⟩⟩
  obtain ⟨p, hp, hmodel, hclosed⟩ := exists_closed hs hM
  exact ⟨p, hp, hmodel, hclosed, fun q hq => Write.exists_repairs (hclosed.findsMirrors hq)⟩

end Reachable

section Almanac

/-- Books with chapters that have notes.  A book has a writer, whose main work it is, and a note
may name a source. -/
def almanac : List Call := [
  .createModel (.ofKey ⟨"project"⟩ ⟨"library"⟩ "person"),
  .createModel (NewModel.ofKey ⟨"project"⟩ ⟨"library"⟩ "book").withMetadata,
  .createGroup (.ofKey ⟨"project"⟩ ⟨"library"⟩ "chapter"),
  .createGroup (.ofKey ⟨"project"⟩ ⟨"library"⟩ "note"),
  .createField (.ofKey (.ofSerial 5) "notes" (.group (.ofSerial 8))),
  .createField (.ofKey (.ofSerial 2) "chapters" (.group (.ofSerial 6))),
  .createField (.ofKey (.ofSerial 7) "source" (.reference (.ofSerial 1) (.ofSerial 0) none)),
  .createField { NewField.ofKey (.ofSerial 2) "writer"
    (.reference (.ofSerial 1) (.ofSerial 0) none) with mirror := some (.ofKey "work") }]

/-- The package of books has both groups and the schema of persons, with their main works. -/
theorem closed_of_almanac : ∃ s : Store, s.Reachable ∧ ∃ M ∈ s.tables.models, ∃ p,
    s.tables.package M.id = .ok p ∧ p.groups.map (fun g => g.1.key) = ["chapter", "note"] ∧
      ∃ F ∈ p.schema.fields, ∃ T G, F.key = "writer" ∧
        p.referencedSchema? (.ofSerial 0) = some T ∧ T.field? (.ofSerial 16) = some G ∧
          G.corresponding? = some F.id := by
  have hreach : (Call.afterAll (.maintainer ⟨"library"⟩) almanac
      (blank .standard ⟨⟨0, 0⟩, 1⟩ ⟨0⟩ .silent)).Reachable :=
    (reachable_blank _ _ _ _).evolves (evolves_afterAll _ _ _)
  have hmodel : ∃ M ∈ (Call.afterAll (.maintainer ⟨"library"⟩) almanac
      (blank .standard ⟨⟨0, 0⟩, 1⟩ ⟨0⟩ .silent)).tables.models,
      ∃ p ∈ ((Call.afterAll (.maintainer ⟨"library"⟩) almanac
        (blank .standard ⟨⟨0, 0⟩, 1⟩ ⟨0⟩ .silent)).tables.package M.id).toOption,
        p.groups.map (fun g => g.1.key) = ["chapter", "note"] ∧ ∃ F ∈ p.schema.fields,
          F.key = "writer" ∧ F.target? = some (.ofSerial 1, .ofSerial 0) ∧
            F.corresponding? = some (.ofSerial 16) := by
    decide +kernel
  obtain ⟨M, hM, q, hq, hgroups, F, hF, hkey, htarget, hmirror⟩ := hmodel
  obtain ⟨p, hp, -, hclosed, -⟩ := (closed_of_reachable hreach).1 M hM
  obtain rfl : q = p := Except.ok.inj ((ok_of_mem_toOption hq).symm.trans hp)
  obtain ⟨T, hT, -, hback⟩ := hclosed.targets q.schema List.mem_cons_self F hF _ _ htarget
  obtain ⟨G, hG, hGF⟩ := hback _ hmirror
  exact ⟨_, hreach, M, hM, q, hp, hgroups, F, hF, T, G, hkey, hT, hG, hGF⟩

end Almanac

end Store

end ContentStore
