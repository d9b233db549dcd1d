import ContentStore.Proofs.Announcements
import ContentStore.Proofs.Histories.Calls
import ContentStore.Proofs.Histories.Conflicts
import ContentStore.Proofs.Reads

/-!
# What a write returns

A write has its result in hand before it is done: a version that is created is
captured before the partners of its item follow, and when items are published all
histories are read before the first ref moves.  Still the result is what is found
afterwards, in full (`Store.returned_of_reachable`).

The partners that follow are other items, even where a schema refers to itself, and
an item that is not saved is found as it was (`Tables.Saves.latest?_other`).  Moving
`public` once more moves it to the same place, so an item that is listed twice is
left as its history says that it is left by the first move
(`Write.MovesPublic.shown_eq`).
-/

namespace ContentStore

namespace Tables

variable {n m : Nat} {t u : Tables} {x : ItemId} {v : Version}

/-! ## Reads that do not change -/

/-- The latest version of an item is read from its versions and refs alone. -/
theorem Sound.latest?_congr (hs : Sound n t) (hu : Sound m u)
    (hversions : u.versionsOf x = t.versionsOf x) (hrows : ∀ r, u.rowsOf x r = t.rowsOf x r) :
    u.latest? x = t.latest? x := by
  have htarget : u.target? x = t.target? x := by
    funext r
    rw [target?_eq_head?_rowsOf, hrows, ← target?_eq_head?_rowsOf]
  have hshow : u.withRefsOf x = t.withRefsOf x := by
    funext v
    rw [withRefsOf, refsOf, htarget]
    rfl
  rw [hu.latest?_eq, hs.latest?_eq, hversions, hshow]

/-- **An item that is not saved is found as it was.** -/
theorem Saves.latest?_other {its : List Item} (h : Saves n t its m u) (hs : Sound n t)
    (hx : ∀ it ∈ its, it.id ≠ x) : u.latest? x = t.latest? x :=
  hs.latest?_congr (h.sound hs) (h.versionsOf_other hx) (h.rowsOf_other hx)

/-! ## A version just appended -/

/-- An appended version is the latest of its item, and its other refs stay. -/
theorem target?_appended (t : Tables) (v : Version) (r : Ref) :
    (t.appended v).target? v.item.id r =
      if r = .latest then some v.id else t.target? v.item.id r := by
  rw [target?_eq_head?_rowsOf, rowsOf_appended, target?_eq_head?_rowsOf]
  by_cases hr : r = .latest
  · rw [if_pos ⟨rfl, hr⟩, if_pos hr]
    rfl
  · rw [if_neg fun hboth => hr hboth.2, if_neg hr]

/-- It is found with the refs that point at it. -/
theorem Sound.latest?_appended (hs : Sound m (t.appended v)) :
    (t.appended v).latest? v.item.id =
      some { v with refs := Ref.all.filter fun r =>
        (t.appended v).target? v.item.id r == some v.id } := by
  rw [hs.latest?_eq, versionsOf_appended, if_pos rfl, List.getLast?_concat, Option.map_some,
    withRefsOf, refsOf, filter_refs]

end Tables

/-- After refs have moved, the lists of refs made anew before are of no account. -/
theorem History.syncRefs_setTarget_syncRefs (h : History) (r : Ref) (target : Option VersionId) :
    (h.syncRefs.setTarget r target).syncRefs = (h.setTarget r target).syncRefs := by
  have hversions : ∀ f : VersionId → List Ref,
      (h.syncRefs.versions.map fun v : Version => { v with refs := f v.id }) =
        h.versions.map fun v => { v with refs := f v.id } := by
    intro f
    rw [syncRefs, List.map_map]
    rfl
  cases r <;> exact congrArg (fun versions => History.mk _ versions _ _) (hversions _)

namespace Write

open Tables Pairing

variable {w w₁ w' : Work} {o : Operator} {p : Package} {v : Version}

/-! ## Creating and updating -/

/-- **What is appended is what is found**, with the refs that name it. -/
theorem latest?_of_append {it : Item} {expected : Option VersionId}
    (hs : Sound w.supply.next w.tables)
    (hkin : ∀ a ∈ w.tables.versionsOf it.id, a.item.origin = it.origin)
    (hitem : it.id.Given w.supply.next) (h : Gives (append it expected) w v w') :
    w'.tables.latest? it.id = some v := by
  obtain ⟨h', timestamp, happend, -⟩ := append_steps hs h
  obtain ⟨rfl, hput, htables, -⟩ := gives_append hs hkin hitem h
  obtain ⟨hid, -⟩ := History.append_eq_ok happend
  have hrefs : v.refs = Ref.all.filter fun r =>
      (w.tables.appended v).target? v.item.id r == some v.id := by
    rw [History.refs_of_append happend]
    simp only [target?_shown, target?_appended, hid]
  have hs' := hput.sound hs
  rw [htables] at hs' ⊢
  rw [hs'.latest?_appended, ← hrefs]

/-- The version is what is found of its item, and all that was added to the history. -/
structure Leaves (t : Tables) (v : Version) (u : Tables) : Prop where
  found : u.latest? v.item.id = some v
  once : u.versionsOf v.item.id = t.versionsOf v.item.id ++ [v.bare]

/-- **The partners of an item leave it alone** once it has been appended. -/
theorem leaves_of_append {it : Item} {old : Option Item} {expected : Option VersionId} {a : Unit}
    (hs : Sound w.supply.next w.tables)
    (hkin : ∀ b ∈ w.tables.versionsOf it.id, b.item.origin = it.origin)
    (hitem : it.id.Given w.supply.next) (happend : Gives (append it expected) w v w₁)
    (hrepair : Gives (repairPartners o p v.item old) w₁ a w') : Leaves w.tables v w'.tables := by
  have hfound := latest?_of_append hs hkin hitem happend
  obtain ⟨rfl, hput, htables, -⟩ := gives_append hs hkin hitem happend
  have hs₁ := hput.sound hs
  obtain ⟨edits, hedits, hfollow⟩ := gives_repairPartners hs₁ hrepair
  have htidy : Edits.Tidy (fun _ _ => True) (latestItem w₁.tables) v.item.id edits :=
    Edits.Tidy.nil.repairs (fun _ _ _ _ _ _ _ => trivial) hedits
  have hothers : ∀ f ∈ (edits.map Prod.snd).map (stamp o), f.id ≠ v.item.id :=
    fun f hf => ne_of_tidy htidy (keyed_latestItem hs₁) hf
  constructor
  case found => rw [hfollow.latest?_other hs₁ hothers, hfound]
  case once =>
    rw [hfollow.versionsOf_other hothers, htables, versionsOf_appended, if_pos rfl]
    rfl

/-- The body that creates an item leaves the version that it returns. -/
theorem leaves_of_createItem {param : CreateItem} (hs : Sound w.supply.next w.tables)
    (h : Gives (createItem o p param) w v w') : Leaves w.tables v w'.tables := by
  obtain ⟨it, values, links, w₁, w₂, w₃, a, hreadied, happend, hrepair, htables, -⟩ :=
    createItem_steps hs h
  have hs₁ := hreadied.linked.sound hs
  have hleaves := leaves_of_append hs₁ hreadied.kin hreadied.given happend hrepair
  obtain ⟨rfl, -⟩ := gives_append hs₁ hreadied.kin hreadied.given happend
  have habsent : w.tables.versionsOf v.item.id = [] := by
    have hprefix := hreadied.linked.prefix_versionsOf v.item.id
    rw [hreadied.absent] at hprefix
    exact List.prefix_nil.mp hprefix
  rw [htables]
  exact ⟨hleaves.found, by rw [hleaves.once, hreadied.absent, habsent]⟩

/-- So does the body that updates one, even if repairs come back to the item. -/
theorem leaves_of_updateItem {param : UpdateItem} (hs : Sound w.supply.next w.tables)
    (hw : Wired w.supply.next w.tables)
    (hp : ∀ old, latestItem w.tables param.item = some old → w.tables.itemPackage old = .ok p)
    (h : Gives (updateItem o p param) w v w') :
    v.item.id = param.item ∧ Leaves w.tables v w'.tables := by
  obtain ⟨old, it, values, links, w₁, w₂, w₃, a, hprepared, happend, hrepair, htables, -⟩ :=
    updateItem_steps hs h
  have hs₁ := hprepared.linked.sound hs
  have hleaves := leaves_of_append hs₁ hprepared.kin hprepared.given happend hrepair
  obtain ⟨rfl, -⟩ := gives_append hs₁ hprepared.kin hprepared.given happend
  have hid := hprepared.updated.id
  have hothers := hprepared.ne_of_mem hw (hp old (hid ▸ hprepared.updated.stored))
  rw [htables]
  exact ⟨hid, hleaves.found, by rw [hleaves.once, hprepared.linked.versionsOf_other hothers]⟩

/-! ## Publishing and withdrawing -/

section Publishing

variable {how : Publication} {ids : List ItemId} {vs : List Version}

/-- **However often an item is listed, it is left as by one move.** -/
theorem MovesPublic.shown_eq {x : ItemId} (hs : Sound w.supply.next w.tables)
    (hmoves : MovesPublic o how ids vs w w') (hx : x ∈ ids) :
    w'.tables.shown x = repointed how (w.tables.shown x) := by
  have hversions := hmoves.refs.versionsOf x
  have hlatest : w'.tables.target? x .latest = w.tables.target? x .latest := by
    rw [hmoves.refs.sound.target?_latest, hversions, hs.target?_latest]
  obtain ⟨last, hlast, hrows⟩ := hmoves.listed x hx
  have hpublished : w'.tables.target? x .published =
      (publicRows how x last.id).head?.map RefRow.version := by
    rw [target?_eq_head?_rowsOf, hrows]
  rw [shown, hversions, hlatest, hpublished]
  cases how with
  | publish =>
    have hlastid : (w.tables.shown x).latest = some last.id := by
      show w.tables.target? x .latest = _
      rw [hs.target?_latest, hlast]
      rfl
    rw [repointed, hlastid, shown, History.syncRefs_setTarget_syncRefs]
    rfl
  | withdraw =>
    rw [repointed, shown, History.syncRefs_setTarget_syncRefs]
    rfl

/-- **What publishing and withdrawing return is what is found.** -/
theorem latest?_of_moveAllPublic (hs : Sound w.supply.next w.tables)
    (h : Gives (moveAllPublic o how ids) w vs w') :
    ∀ v ∈ vs, w'.tables.latest? v.item.id = some v := by
  obtain ⟨hmoves, -⟩ := gives_moveAllPublic hs h
  obtain ⟨histories, start, w₁, hhistories, -, -, -, -, hmapM⟩ := moveAllPublic_steps h
  intro v hv
  obtain ⟨h, hh, u, u', hmove⟩ := exists_of_gives_mapM hmapM v hv
  obtain ⟨x, hx, hread⟩ := mem_of_mapM hhistories h hh
  obtain ⟨hshown, -⟩ := movePublic_steps hmove
  obtain ⟨hne, rfl⟩ := history?_eq_some_iff.mp (history_eq_ok.mp hread)
  have hsound := hmoves.refs.sound
  have hfound : w'.tables.latest? x = some v := by
    rw [latest?, hsound.findByRef?_eq_history, history?_eq, hmoves.refs.versionsOf, if_neg hne,
      Option.bind_some, hmoves.shown_eq hs hx]
    exact hshown
  rwa [hsound.id_of_findByRef? hfound]

end Publishing

end Write

/-! ## Calls -/

namespace Store

open Tables

variable {s t : Store} {ctx : Context}

/-- The call tells, of the versions that it returns, that this has happened to them, and
whoever looks for one of the items right afterwards finds just the version returned. -/
structure Returned {α : Type} (ctx : Context) (op : Operation α) (k : EventKind) (s : Store)
    (vs : List Version) : Prop where
  found : ∀ v ∈ vs, ∀ reader : Context,
    (op s).2.find reader v.item.id = (reader.ensureActive (op s).2.progress).map fun _ => v
  announced : ∃ es, Hands op s es ∧ Reports k ctx.operator vs es

/-- The call returns a version, and this one only was added to the history of the item. -/
structure Wrote (ctx : Context) (op : Operation Version) (k : EventKind) (s : Store)
    (v : Version) : Prop extends Returned ctx op k s [v] where
  once : (op s).2.tables.versionsOf v.item.id = s.tables.versionsOf v.item.id ++ [v.bare]

/-- The call returns versions of the items listed, in this order, and no version was made. -/
structure Turned (ctx : Context) (op : Operation (List Version)) (k : EventKind) (s : Store)
    (ids : List ItemId) (vs : List Version) : Prop extends Returned ctx op k s vs where
  listed : vs.map (fun v => v.item.id) = ids
  kept : (op s).2.tables.versions = s.tables.versions

/-- What the tables have as the latest version is what a reader finds, unless the call is
given up. -/
theorem find_of_latest? {x : ItemId} {v : Version} (h : t.tables.latest? x = some v)
    (reader : Context) : t.find reader x = (reader.ensureActive t.progress).map fun _ => v := by
  unfold find
  rw [h]
  cases reader.ensureActive t.progress <;> rfl

/-- What a call announces that succeeds. -/
theorem AllOrNothing.of_ok {α : Type} {op : Operation α} {Q : α → List Event → Prop} {a : α}
    (h : AllOrNothing op s Q) (ha : (op s).1 = .ok a) : ∃ es, Hands op s es ∧ Q a es := by
  obtain ⟨es, hhands, hresult⟩ := h
  rw [ha] at hresult
  exact ⟨es, hhands, hresult⟩

/-- A call that leaves its version and announces it writes it. -/
theorem wrote_of_leaves {op : Operation Version} {k : EventKind} {v : Version}
    (hannounces : AllOrNothing op s fun v es => Reports k ctx.operator [v] es)
    (hok : (op s).1 = .ok v) (h : Write.Leaves s.tables v (op s).2.tables) :
    Wrote ctx op k s v where
  found := fun w hw => by
    rw [List.mem_singleton.mp hw]
    exact find_of_latest? h.found
  announced := hannounces.of_ok hok
  once := h.once

/-- A created item is left as it was returned. -/
theorem Creates.leaves {package : Except Error Package} {param : CreateItem} {v : Version}
    (h : Creates ctx package param s v t) (hs : s.Sane) : Write.Leaves s.tables v t.tables := by
  obtain ⟨p, -, -, -, hcommits⟩ := h
  exact hcommits.elim (R := fun n u _ u' => Sound n u → Write.Leaves u v u')
    (fun hgives hsound => Write.leaves_of_createItem hsound hgives) hs.sound

/-- So is an updated one. -/
theorem Updates.leaves {param : UpdateItem} {v : Version} (h : Updates ctx param s v t)
    (hs : s.Sane) : v.item.id = param.item ∧ Write.Leaves s.tables v t.tables := by
  obtain ⟨p, old, -, hold, hpackage, hcommits⟩ := h
  refine hcommits.elim (R := fun n u _ u' => Sound n u → Wired n u →
    (∀ a, Write.latestItem u param.item = some a → u.itemPackage a = .ok p) →
      v.item.id = param.item ∧ Write.Leaves u v u')
    (fun hgives hsound hwired hp => Write.leaves_of_updateItem hsound hwired hp hgives)
    hs.sound hs.wired fun a ha => ?_
  obtain rfl := Option.some.inj (hold.symm.trans ha)
  exact hpackage

/-- Publishing and withdrawing return what is found of the listed items afterwards. -/
theorem turned_of_ok (hs : s.Sane) (how : Publication) {ids : List ItemId} {vs : List Version}
    (hok : (transact ctx (Write.moveAllPublic ctx.operator how ids) s).1 = .ok vs) :
    Turned ctx (transact ctx (Write.moveAllPublic ctx.operator how ids)) how.event s ids vs := by
  obtain ⟨es, hhands, hlisted, hreports⟩ := (allOrNothing_moveAllPublic hs how ids).of_ok hok
  obtain ⟨-, w, hgives, hkeep⟩ := transact_eq_ok (Write.grows_moveAllPublic _ _ _) hok
  obtain ⟨hmoves, -⟩ := Write.gives_moveAllPublic hs.sound hgives
  obtain ⟨refs, htables⟩ := hmoves.refs.tables
  have hfound := Write.latest?_of_moveAllPublic hs.sound hgives
  refine ⟨⟨fun v hv => ?_, es, hhands, hreports⟩, hlisted, ?_⟩
  · rw [hkeep]
    exact find_of_latest? (hfound v hv)
  · rw [hkeep]
    show w.tables.versions = s.tables.versions
    rw [htables]
    rfl

/-- A new item is announced once. -/
theorem allOrNothing_createItem (param : CreateItem) : AllOrNothing (createItem ctx param) s
    fun v es => Reports .create ctx.operator [v] es :=
  allOrNothing_get_bind (fun _ => rfl) (allOrNothing_lift_bind fun _ _ =>
    allOrNothing_lift_bind fun _ _ =>
    allOrNothing_transact (Write.grows_createItem _ _ _) Write.tells_createItem)

/-- **Writes return what is stored.**  Whoever creates or updates an item of a reachable store
gets, and lets others know, just what is found of the item right afterwards, and nothing that
follows the write writes the item again; and whoever publishes or withdraws items gets of each
of them what is found then, however often it was listed. -/
theorem returned_of_reachable (hs : s.Reachable) (ctx : Context) :
    (∀ param v, (createItem ctx param s).1 = .ok v →
      Wrote ctx (createItem ctx param) .create s v) ∧
    (∀ param v, (createMetadataItem ctx param s).1 = .ok v →
      Wrote ctx (createMetadataItem ctx param) .create s v) ∧
    (∀ param v, (updateItem ctx param s).1 = .ok v →
      v.item.id = param.item ∧ Wrote ctx (updateItem ctx param) .update s v) ∧
    (∀ ids vs, (publish ctx ids s).1 = .ok vs → Turned ctx (publish ctx ids) .publish s ids vs) ∧
    ∀ ids vs, (unpublish ctx ids s).1 = .ok vs →
      Turned ctx (unpublish ctx ids) .unpublish s ids vs := by
  have hsane := hs.sane
  refine ⟨fun param v hok => ?_, fun param v hok => ?_, fun param v hok => ?_,
    fun ids vs hok => turned_of_ok hsane .publish hok,
    fun ids vs hok => turned_of_ok hsane .withdraw hok⟩
  · have hcreates := (reaches_createItem param).of_ok hok
    exact wrote_of_leaves (allOrNothing_createItem param) hok (hcreates.leaves hsane)
  · have hcreates := (reaches_createMetadataItem param).of_ok hok
    exact wrote_of_leaves (allOrNothing_createMetadataItem param) hok (hcreates.leaves hsane)
  · have hupdates := (reaches_updateItem param).of_ok hok
    obtain ⟨hid, hleaves⟩ := hupdates.leaves hsane
    exact ⟨hid, wrote_of_leaves (allOrNothing_updateItem param) hok hleaves⟩

section Guild

/-- Members of a guild, each with one apprentice at most.  The second one is the apprentice of
the first. -/
def guild : List Call := [
  .createModel (NewModel.ofKey ⟨"project"⟩ ⟨"guild"⟩ "member").withMetadata,
  .createField { NewField.ofKey (.ofSerial 0) "master"
    (.reference (.ofSerial 2) (.ofSerial 0) none) with mirror := some (.ofKey "apprentice") },
  .createItem ⟨.ofSerial 2, [], none⟩,
  .createItem ⟨.ofSerial 2, [.byKey "master" (.string (Id.ofSerial 5 : ItemId).text)], none⟩]

/-- The store of the guild, which somebody watches. -/
def guildStore : Store :=
  Call.afterAll (.maintainer ⟨"guild"⟩) guild (blank .standard ⟨⟨0, 0⟩, 1⟩ ⟨0⟩ (.channel []))

/-- Somebody becomes the apprentice of the first member, in place of the second one. -/
def supplants : CreateItem :=
  ⟨.ofSerial 2, [.byKey "master" (.string (Id.ofSerial 5 : ItemId).text)], none⟩

/-- The first member becomes the apprentice of the second one, who is his own. -/
def reverses : UpdateItem :=
  ⟨.ofSerial 5, none, [.byKey "master" (.string (Id.ofSerial 8 : ItemId).text)], none⟩

/-- Who keeps the books of the guild. -/
def warden : Context := .maintainer ⟨"guild"⟩

/-- What writes of the guild return is found afterwards, where a repair comes back to the item
that is written, too, and for a member that is listed twice. -/
theorem returned_of_guild :
    (∃ v, (createItem warden supplants guildStore).1 = .ok v ∧
      Wrote warden (createItem warden supplants) .create guildStore v) ∧
    (∃ v, (createMetadataItem warden ⟨.ofSerial 2, [], none⟩ guildStore).1 = .ok v ∧
      Wrote warden (createMetadataItem warden ⟨.ofSerial 2, [], none⟩) .create guildStore v) ∧
    (∃ v, (updateItem warden reverses guildStore).1 = .ok v ∧
      Wrote warden (updateItem warden reverses) .update guildStore v) ∧
    (∃ vs, (publish warden [.ofSerial 5, .ofSerial 8, .ofSerial 5] guildStore).1 = .ok vs ∧
      Turned warden (publish warden [.ofSerial 5, .ofSerial 8, .ofSerial 5]) .publish guildStore
        [.ofSerial 5, .ofSerial 8, .ofSerial 5] vs) ∧
    ∃ vs, (unpublish warden [.ofSerial 5, .ofSerial 5] guildStore).1 = .ok vs ∧
      Turned warden (unpublish warden [.ofSerial 5, .ofSerial 5]) .unpublish guildStore
        [.ofSerial 5, .ofSerial 5] vs := by
  have hreach : guildStore.Reachable := (reachable_blank _ _ _ _).evolves (evolves_afterAll _ _ _)
  obtain ⟨hcreate, hmetadata, hupdate, hpublish, hunpublish⟩ :=
    returned_of_reachable hreach warden
  refine ⟨?created, ?metadata, ?updated, ?published, ?withdrawn⟩
  case created =>
    obtain ⟨v, hv⟩ := exists_ok (x := (createItem warden supplants guildStore).1)
      (by decide +kernel)
    exact ⟨v, hv, hcreate _ v hv⟩
  case metadata =>
    obtain ⟨v, hv⟩ := exists_ok
      (x := (createMetadataItem warden ⟨.ofSerial 2, [], none⟩ guildStore).1) (by decide +kernel)
    exact ⟨v, hv, hmetadata _ v hv⟩
  case updated =>
    obtain ⟨v, hv⟩ := exists_ok (x := (updateItem warden reverses guildStore).1) (by decide +kernel)
    exact ⟨v, hv, (hupdate _ v hv).2⟩
  case published =>
    obtain ⟨vs, hvs⟩ := exists_ok
      (x := (publish warden [.ofSerial 5, .ofSerial 8, .ofSerial 5] guildStore).1)
      (by decide +kernel)
    exact ⟨vs, hvs, hpublish _ vs hvs⟩
  case withdrawn =>
    obtain ⟨vs, hvs⟩ := exists_ok (x := (unpublish warden [.ofSerial 5, .ofSerial 5] guildStore).1)
      (by decide +kernel)
    exact ⟨vs, hvs, hunpublish _ vs hvs⟩

end Guild

end Store

end ContentStore
