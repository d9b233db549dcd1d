import ContentStore.Proofs.Catalog.Zones
import ContentStore.Proofs.Writes.Frames

/-!
# How far a call reaches

Rights are checked once in a call, for the workspace of the one schema that it is
about.  In a reachable store that workspace is also the one of the metadata item
which is written or removed along with an item: the two belong to one model
(`Tables.Housed`), and the schemas of a model lie together (`Tables.Zoned`).

Two-way references lead further.  A change of one schema changes the mirrors of
its fields, and a write of one item repairs its partners, in whatever workspace
these are; for them no right is asked for.  Publishing has no such effect, and
every item that it moves is checked.  That is all (`Store.confined_of_reachable`),
and it does happen (`Store.mirror_abroad`).
-/

namespace ContentStore

open Tables

namespace Tables

variable {n m : Nat} {t u : Tables}

/-- The item is stored and follows the schema. -/
def Under (t : Tables) (x : ItemId) (S : Schema) : Prop :=
  ∃ it, Write.latestItem t x = some it ∧ t.schema? it.schema = some S

/-- The item lies where the operator can write, or it is paired with one that
does. -/
def ItemInReach (t u : Tables) (o : Operator) (x : ItemId) : Prop :=
  ∃ y S, (t.Under y S ∨ u.Under y S) ∧ o.canWrite S.workspace = true ∧
    (y = x ∨ t.Meets u S y x)

/-- Every stored item follows a schema of its model, and its metadata item, as
long as that is stored, is of the same model. -/
structure Housed (n : Nat) (t : Tables) : Prop where
  placed : ∀ x it, Write.latestItem t x = some it →
    ∃ M ∈ t.models, M.id = it.model ∧ it.schema ∈ M.schemas
  linked : ∀ x it y, Write.latestItem t x = some it → it.metadataItem = some y →
    y.Given n ∧ ∀ a, Write.latestItem t y = some a → a.model = it.model

namespace Housed

/-- **Items stay housed** where nothing else about them counts. -/
theorem of_trails (h : Housed n t) (hle : n ≤ m) (hmodels : ∀ M ∈ t.models, M ∈ u.models)
    (htrails : ∀ z Z, Write.latestItem u z = some Z →
      ∃ Y, Write.latestItem t z = some Y ∧ Y.Trails (fun _ => True) Z) : Housed m u where
  placed := by
    intro z Z hZ
    obtain ⟨Y, hY, hYZ⟩ := htrails z Z hZ
    obtain ⟨M, hM, hid, hown⟩ := h.placed z Y hY
    exact ⟨M, hmodels M hM, hid.trans hYZ.model.symm, hYZ.schema ▸ hown⟩
  linked := by
    intro z Z y hZ hy
    obtain ⟨Y, hY, hYZ⟩ := htrails z Z hZ
    obtain ⟨hgiven, hmodel⟩ := h.linked z Y y hY (hYZ.metadata.symm.trans hy)
    refine ⟨hgiven.mono hle, fun a ha => ?_⟩
    obtain ⟨b, hb, hba⟩ := htrails y a ha
    rw [hba.model, hYZ.model]
    exact hmodel b hb

/-- **Items stay housed when one is written** in its place. -/
theorem puts {o : Operator} {p : Package} {old : Option Item} {it : Item} (h : Housed n t)
    (hs : Sound n t) (hputs : Write.Puts o p old it n t m u)
    (hplaced : ∃ M ∈ t.models, M.id = it.model ∧ it.schema ∈ M.schemas)
    (hmetadata : ∀ y, it.metadataItem = some y →
      y.Given n ∧ ∀ a, Write.latestItem t y = some a → a.model = it.model)
    (hmodel : it.id.Given n → ∃ a, Write.latestItem t it.id = some a ∧ a.model = it.model) :
    Housed m u := by
  obtain ⟨hself, hothers⟩ := hputs.back hs
  have hcatalog := hputs.sameCatalog
  have hle : n ≤ m := by
    obtain ⟨its, hsaves⟩ := hputs.saves
    exact hsaves.le
  -- whoever has been named before is of the model it was of
  have hkept : ∀ {y k}, y.Given n → (∀ a, Write.latestItem t y = some a → a.model = k) →
      ∀ a, Write.latestItem u y = some a → a.model = k := by
    intro y k hgiven hk a ha
    by_cases hy : y = it.id
    · subst hy
      obtain rfl := Option.some.inj (hself.symm.trans ha)
      obtain ⟨b, hb, hbmodel⟩ := hmodel hgiven
      exact hbmodel.symm.trans (hk b hb)
    · obtain ⟨b, hb, hba⟩ := hothers y hy a ha
      rw [hba.model]
      exact hk b hb
  constructor
  · intro z Z hZ
    rw [hcatalog.models]
    by_cases hz : z = it.id
    · subst hz
      obtain rfl := Option.some.inj (hself.symm.trans hZ)
      exact hplaced
    · obtain ⟨Y, hY, hYZ⟩ := hothers z hz Z hZ
      rw [hYZ.model, hYZ.schema]
      exact h.placed z Y hY
  · intro z Z y hZ hy
    by_cases hz : z = it.id
    · subst hz
      obtain rfl := Option.some.inj (hself.symm.trans hZ)
      obtain ⟨hgiven, hsame⟩ := hmetadata y hy
      exact ⟨hgiven.mono hle, hkept hgiven hsame⟩
    · obtain ⟨Y, hY, hYZ⟩ := hothers z hz Z hZ
      obtain ⟨hgiven, hsame⟩ := h.linked z Y y hY (hYZ.metadata.symm.trans hy)
      exact ⟨hgiven.mono hle, hkept hgiven (hYZ.model ▸ hsame)⟩

/-- The schema of a package belongs to the items that are written with it. -/
theorem under_itemPackage (h : Housed n t) (hw : Wired n t) {p : Package} {x : ItemId} {it : Item}
    (hit : Write.latestItem t x = some it) (hp : t.itemPackage it = .ok p) :
    Packed t p ∧ p.model.id = it.model ∧ p.schema.id = it.schema ∧ t.Under x p.schema := by
  obtain ⟨hpacked, hmodel, hschema⟩ := packed_itemPackage hp
  have hschema := hschema (h.placed x it hit) hw.models_distinct
  exact ⟨hpacked, hmodel, hschema, it, hit, hschema ▸ hw.schema?_of_mem hpacked.schema⟩

end Housed

end Tables

namespace Store

variable {s t : Store} {ctx : Context} {c : Call}

/-! ## Items stay housed -/

/-- A write of the catalog leaves all items. -/
theorem latestItem_of_rewires {n m : Nat} {t u : Tables} (h : Write.Rewires n t m u)
    (hs : Sound n t) : Write.latestItem u = Write.latestItem t := by
  funext x
  rw [(h.sound hs).latestItem_eq, hs.latestItem_eq, h.versionsOf]

/-- A store that rests leaves every item where it is. -/
theorem Rests.housed (h : s.Rests t) (hh : Housed s.supply.next s.tables) :
    Housed t.supply.next t.tables := by
  refine hh.of_trails h.2 (fun M hM => by rwa [h.1]) fun z Z hZ => ?_
  rw [h.1] at hZ
  exact ⟨Z, hZ, .refl Z⟩

/-- Writes of the catalog leave no item without its schema. -/
theorem Reshaped.housed {o : Operator} (h : s.Reshaped o t) (hs : s.Sane)
    (hh : Housed s.supply.next s.tables) : Housed t.supply.next t.tables := by
  have hrewires := h.rewires hs.wired
  refine hh.of_trails hrewires.supply (fun _ => h.mem_models hs.wired) fun z Z hZ => ?_
  rw [latestItem_of_rewires hrewires hs.sound] at hZ
  exact ⟨Z, hZ, .refl Z⟩

/-- The metadata item of a written item was named in the call or before. -/
theorem linked_of_named {n : Nat} {t : Tables} {p : Package} {it : Item}
    {given before : Option ItemId} (hs : Sound n t) (hp : Packed t p)
    (h : Write.Named t p it given before)
    (hbefore : ∀ y, before = some y →
      y.Given n ∧ ∀ a, Write.latestItem t y = some a → a.model = it.model) {y : ItemId}
    (hy : it.metadataItem = some y) :
    y.Given n ∧ ∀ a, Write.latestItem t y = some a → a.model = it.model := by
  rcases h.metadata hp hy with hy | ⟨a, ha, hmodel, -⟩
  · exact hbefore y hy
  · refine ⟨hs.item_given ha, fun b hb => ?_⟩
    rw [← Option.some.inj (ha.symm.trans hb)]
    exact hmodel

/-- **Items stay housed in a call.** -/
theorem housed_of_outcome (h : Outcome s ctx c t) (hs : s.Sane)
    (hh : Housed s.supply.next s.tables) : Housed t.supply.next t.tables := by
  cases h with
  | rests h => exact h.housed hh
  | creates _ _ hp hit hputs =>
    have hpacked := packed_of_writes hp
    refine hh.puts hs.sound hputs ⟨_, hpacked.model, hit.model.symm, ?_⟩ ?_ ?_
    · rw [hit.schema]
      exact hpacked.own
    · exact fun y => linked_of_named hs.sound hpacked hit.metadata fun _ hnone => nomatch hnone
    · intro hgiven
      obtain ⟨k, hk, hid⟩ := hit.id
      exact (hgiven.ne_ofSerial hk hid).elim
  | updates _ _ hp hit hputs =>
    obtain ⟨hpacked, -⟩ := packed_itemPackage hp
    have hmodel := Write.model_of_updated hit
    refine hh.puts hs.sound hputs ?_ ?_ fun _ => ⟨_, hit.stored, hmodel.symm⟩
    · rw [hmodel, Write.schema_of_updated hit]
      exact hh.placed _ _ hit.stored
    · refine fun y => linked_of_named hs.sound hpacked hit.metadata fun z hz => ?_
      obtain ⟨hgiven, hsame⟩ := hh.linked _ _ z hit.stored hz
      exact ⟨hgiven, fun a ha => (hsame a ha).trans hmodel.symm⟩
  | removes _ _ _ _ h =>
    obtain ⟨its, v, hsaves, -⟩ := h.saves
    refine hh.of_trails hsaves.le (fun M hM => h.sameCatalog.models ▸ hM) fun z Z hZ => ?_
    obtain ⟨-, -, Y, hY, htrails⟩ := (Write.removes_after hs.sound h).1 z Z hZ
    exact ⟨Y, hY, htrails.mono fun _ _ => trivial⟩
  | publishes _ _ h =>
    have hlatest := h.latestItem hs.sound
    obtain ⟨⟨refs, htables⟩, hle, -⟩ := h
    refine hh.of_trails hle (fun M hM => by rw [htables]; exact hM) fun z Z hZ => ?_
    rw [hlatest] at hZ
    exact ⟨Z, hZ, .refl Z⟩
  | reshapes _ h => exact Reshaped.housed (.single (.inr h)) hs hh
  | declares _ h => exact h.housed hs hh

/-- **Stored items are housed in every reachable store.** -/
theorem Reachable.housed (hs : s.Reachable) : Housed s.supply.next s.tables := by
  obtain ⟨config, clock, supply, emitter, h⟩ := hs
  induction h with
  | refl => exact ⟨fun _ _ h => (nomatch h), fun _ _ _ h => nomatch h⟩
  | tail hrun hmove ih =>
    have hs := Evolves.sane hrun (sane_blank config clock supply emitter)
    cases hmove with
    | call ctx c => exact housed_of_outcome (outcome_after hs ctx c) hs ih
    | declare d => exact (reshaping_declare d _).housed hs ih
    | rest h => exact h.housed ih

/-! ## What a call may reach -/

/-- A metadata item that belongs to an item lies in the same workspace. -/
theorem under_metadata {n : Nat} {t : Tables} (hw : Wired n t) (hz : t.Zoned)
    (hh : Housed n t) {p : Package} (hp : Packed t p) {x : ItemId} {a : Item}
    (ha : Write.latestItem t x = some a) (hmodel : a.model = p.model.id) :
    ∃ S, t.Under x S ∧ S.workspace = p.schema.workspace := by
  obtain ⟨M, hM, hid, hown⟩ := hh.placed x a ha
  obtain rfl := List.inj_on_of_nodup_map hw.models_distinct hM hp.model (hid.trans hmodel)
  obtain ⟨S, hS, hSid⟩ := hw.used_stored a.schema (mem_used.mpr (.inl ⟨_, hM, hown⟩))
  refine ⟨S, ⟨a, ha, hSid ▸ hw.schema?_of_mem hS⟩, ?_⟩
  exact hz _ hM S hS p.schema hp.schema (hSid ▸ hown) hp.own

/-- **Whoever is altered by a write** is the item, its metadata item in the same
workspace, or one that the item meets. -/
theorem reach_puts {o : Operator} {p : Package} {old : Option Item} {it : Item} {n m : Nat}
    {t u : Tables} (hs : Sound n t) (hw : Wired n t) (hz : t.Zoned) (hh : Housed n t)
    (hp : Packed t p) (hmodel : it.model = p.model.id) (hschema : it.schema = p.schema.id)
    (hold : ∀ f, Pairing.held old f = Pairing.edges (Write.latestItem t) it.id f)
    (hputs : Write.Puts o p old it n t m u) (hmay : o.canWrite p.schema.workspace = true)
    {x : ItemId} (hx : t.Alters u x) : t.ItemInReach u o x := by
  have hthere : u.Under it.id p.schema := by
    refine ⟨it, (hputs.back hs).1, ?_⟩
    rw [schema?, hputs.sameCatalog.schemas, hschema]
    exact hw.schema?_of_mem hp.schema
  rcases hputs.alters hs hold hx with rfl | ⟨l, ⟨a, ha, -, hamodel, -⟩, rfl⟩ | hmeets
  · exact ⟨it.id, p.schema, .inr hthere, hmay, .inl rfl⟩
  · obtain ⟨S, hunder, hworkspace⟩ := under_metadata hw hz hh hp ha (hamodel.trans hmodel)
    exact ⟨l.id, S, .inl hunder, hworkspace ▸ hmay, .inl rfl⟩
  · exact ⟨it.id, p.schema, .inr hthere, hmay, .inr hmeets⟩

/-- **Whoever is altered by a removal.** -/
theorem reach_removes {o : Operator} {p : Package} {it : Item} {n m : Nat} {t u : Tables}
    (hs : Sound n t) (hw : Wired n t) (hz : t.Zoned) (hh : Housed n t)
    (hp : t.itemPackage it = .ok p) (h : Write.Removes o p it n t m u)
    (hmay : o.canWrite p.schema.workspace = true) {x : ItemId} (hx : t.Alters u x) :
    t.ItemInReach u o x := by
  obtain ⟨hpacked, hmodel, -, hthere⟩ := hh.under_itemPackage hw h.stored hp
  rcases h.alters hs hx with rfl | hmeta | hmeets
  · exact ⟨it.id, p.schema, .inl hthere, hmay, .inl rfl⟩
  · obtain ⟨hgone, -⟩ := Write.removes_after hs h
    have hthere' : (Write.latestItem t x).isSome := by
      refine (hs.stored_of_alters (sound_removes h hs).1 hx).resolve_right fun hsome => ?_
      obtain ⟨X, hX⟩ := Option.isSome_iff_exists.mp hsome
      exact (hgone x X hX).2.1 hmeta
    obtain ⟨a, ha⟩ := Option.isSome_iff_exists.mp hthere'
    have hamodel := (hh.linked it.id it x h.stored hmeta).2 a ha
    obtain ⟨S, hunder, hworkspace⟩ := under_metadata hw hz hh hpacked ha (hamodel.trans hmodel.symm)
    exact ⟨x, S, .inl hunder, hworkspace ▸ hmay, .inl rfl⟩
  · exact ⟨it.id, p.schema, .inl hthere, hmay, .inr hmeets⟩

/-- How far a call of an operator reaches.  Schemas and items that differ
afterwards are in workspaces where the operator has the right, or a two-way
reference leads to them from there.  The latter is not so in publishing. -/
structure Confined (o : Operator) (c : Call) (s t : Store) : Prop where
  schemas : ∀ id, t.tables.schema? id ≠ s.tables.schema? id →
    s.tables.SchemaInReach t.tables o id
  items : ¬ c.Publishes → ∀ x, s.tables.Alters t.tables x → s.tables.ItemInReach t.tables o x
  published : c.Publishes → ∀ x, s.tables.Alters t.tables x →
    ∃ S, s.tables.Under x S ∧ o.canMaintain S.workspace = true

/-- No item is altered where versions and refs stay. -/
theorem not_alters {t u : Tables} (hversions : u.versions = t.versions) (hrefs : u.refs = t.refs)
    {x : ItemId} : ¬ t.Alters u x := by
  intro hx
  rcases hx with hne | ⟨r, hne⟩
  · rw [versionsOf, hversions] at hne
    exact hne rfl
  · rw [rowsOf, hrefs] at hne
    exact hne rfl

section Outcomes

variable (hs : s.Sane) (hz : s.tables.Zoned) (hh : Housed s.supply.next s.tables)

include hs in
/-- A schema that a call changes is in reach of its operator. -/
theorem schemas_of_outcome (h : Outcome s ctx c t) (hopens : ¬ c.Opens) {id : SchemaId}
    (hne : t.tables.schema? id ≠ s.tables.schema? id) :
    s.tables.SchemaInReach t.tables ctx.operator id := by
  have hitems : ¬ c.OfItems := by
    intro hitems
    rw [schema?, (sameCatalog_of_outcome h hitems).1.schemas] at hne
    exact hne rfl
  cases h with
  | rests h =>
    rw [h.1] at hne
    exact (hne rfl).elim
  | creates hedits => exact (hitems hedits.1).elim
  | updates hedits => exact (hitems hedits.1).elim
  | removes hedits => exact (hitems hedits.1).elim
  | publishes hpublishes => exact (hitems hpublishes.ofItems).elim
  | reshapes _ h => exact h.reach hs.wired hne
  | declares hc _ =>
    subst hc
    exact (hopens trivial).elim

include hs hz hh in
/-- So is an item that a call writes or removes. -/
theorem items_of_outcome (h : Outcome s ctx c t) (hopens : ¬ c.Opens) (hpublishes : ¬ c.Publishes)
    {x : ItemId} (hx : s.tables.Alters t.tables x) :
    s.tables.ItemInReach t.tables ctx.operator x := by
  have hsound := hs.sound
  have hwired := hs.wired
  cases h with
  | rests h => exact (not_alters (by rw [h.1]) (by rw [h.1]) hx).elim
  | @creates p param it _ _ hmay hp hit hputs =>
    have hnone : Write.latestItem s.tables it.id = none := by
      obtain ⟨k, hk, hid⟩ := hit.id
      rw [hid]
      exact hsound.latestItem_fresh hk
    refine reach_puts hsound hwired hz hh (packed_of_writes hp) hit.model hit.schema ?_ hputs hmay
      hx
    exact fun f => (Pairing.edges_of_none hnone f).symm
  | updates _ hmay hp hit hputs =>
    obtain ⟨hpacked, hmodel, hschema, -⟩ := hh.under_itemPackage hwired hit.stored hp
    refine reach_puts hsound hwired hz hh hpacked ((Write.model_of_updated hit).trans hmodel.symm)
      ((Write.schema_of_updated hit).trans hschema.symm) ?_ hputs hmay hx
    exact fun f => (Pairing.edges_of_some hit.stored f).symm
  | removes _ hmay hp _ h => exact reach_removes hsound hwired hz hh hp h hmay hx
  | publishes h => exact (hpublishes h).elim
  | reshapes _ h =>
    have hrewires := h.rewires hwired
    exact (not_alters hrewires.versions hrewires.refs hx).elim
  | declares hc _ =>
    subst hc
    exact (hopens trivial).elim

include hs hh in
/-- An item that a call publishes or withdraws lies where the operator maintains. -/
theorem published_of_outcome (h : Outcome s ctx c t) (hpublishes : c.Publishes) {x : ItemId}
    (hx : s.tables.Alters t.tables x) :
    ∃ S, s.tables.Under x S ∧ ctx.operator.canMaintain S.workspace = true := by
  cases h with
  | rests h => exact (not_alters (by rw [h.1]) (by rw [h.1]) hx).elim
  | creates hedits => exact (hedits.2 hpublishes).elim
  | updates hedits => exact (hedits.2 hpublishes).elim
  | removes hedits => exact (hedits.2 hpublishes).elim
  | publishes _ hmay h =>
    obtain ⟨refs, htables⟩ := h.tables
    have hmoved : ∃ r, t.tables.rowsOf x r ≠ s.tables.rowsOf x r := by
      refine hx.resolve_left fun hne => hne ?_
      rw [htables]
      rfl
    obtain ⟨r, hne⟩ := hmoved
    obtain ⟨it, p, hit, hp, hmay⟩ := hmay x r hne
    obtain ⟨-, -, -, hunder⟩ := hh.under_itemPackage hs.wired hit hp
    exact ⟨p.schema, hunder, hmay⟩
  | reshapes hcatalog _ => exact (hcatalog hpublishes.ofItems).elim
  | declares hc _ =>
    subst hc
    exact hpublishes.elim

end Outcomes

/-- **Calls of reachable stores are confined.** -/
theorem confined_of_reachable (hs : s.Reachable) (ctx : Context) (hopens : ¬ c.Opens) :
    Confined ctx.operator c s (c.after ctx s) := by
  have houtcome := outcome_after hs.sane ctx c
  have hzoned := lasting_zoned.reachable hs
  constructor
  case schemas => exact fun id => schemas_of_outcome hs.sane houtcome hopens
  case items => exact fun hnot x => items_of_outcome hs.sane hzoned hs.housed houtcome hopens hnot
  case published => exact fun hpublishes x =>
    published_of_outcome hs.sane hs.housed houtcome hpublishes

section Borders

/-- Notes in one workspace and posts in another. -/
def borders : Store :=
  Call.afterAll (.maintainer ⟨"home"⟩) [.createModel (.ofKey ⟨"project"⟩ ⟨"home"⟩ "post")]
    (Call.afterAll (.maintainer ⟨"abroad"⟩)
      [.createModel (.ofKey ⟨"project"⟩ ⟨"abroad"⟩ "note")]
      (blank .standard ⟨⟨0, 0⟩, 1⟩ ⟨0⟩ .silent))

/-- A post may be about a note, and then the note names the post. -/
def crossing : Call :=
  .createField { NewField.ofKey (.ofSerial 2) "note"
    (.reference (.ofSerial 1) (.ofSerial 0) none) with mirror := some (.ofKey "post") }

/-- A note abroad that no post is about. -/
def foreignNote : Store :=
  Call.afterAll (.maintainer ⟨"abroad"⟩) [.createItem ⟨.ofSerial 1, [], none⟩]
    (crossing.after (.maintainer ⟨"home"⟩) borders)

/-- A post about that note. -/
def posting : Call :=
  .createItem ⟨.ofSerial 3, [.byKey "note" (.string (Id.ofSerial 6 : ItemId).text)], none⟩

/-- The store with two workspaces is made by calls. -/
theorem reachable_borders : borders.Reachable :=
  ((reachable_blank _ _ _ _).evolves (evolves_afterAll _ _ _)).evolves (evolves_afterAll _ _ _)

/-- So is the one with a note abroad. -/
theorem reachable_foreignNote : foreignNote.Reachable :=
  (reachable_borders.evolves (.single (.call _ crossing))).evolves (evolves_afterAll _ _ _)

/-- Somebody at home writes a post, and the note abroad gets a version. -/
theorem confined_of_posting :
    Confined (Context.maintainer ⟨"home"⟩).operator posting foreignNote
        (posting.after (.maintainer ⟨"home"⟩) foreignNote) ∧
      foreignNote.tables.Alters (posting.after (.maintainer ⟨"home"⟩) foreignNote).tables
        (.ofSerial 6) := by
  refine ⟨confined_of_reachable reachable_foreignNote _ id, .inl ?_⟩
  decide +kernel

/-- **A mirror gets into a workspace where the operator has no rights.** -/
theorem mirror_abroad : ∃ (s : Store) (ctx : Context) (c : Call), s.Reachable ∧ ¬ c.Opens ∧
    ∃ S ∈ s.tables.schema? (.ofSerial 0), ∃ S' ∈ (c.after ctx s).tables.schema? (.ofSerial 0),
      S'.fields ≠ S.fields ∧ ctx.operator.canWrite S'.workspace = false := by
  refine ⟨borders, .maintainer ⟨"home"⟩, crossing, reachable_borders, id, ?_⟩
  decide +kernel

end Borders

end Store

end ContentStore
