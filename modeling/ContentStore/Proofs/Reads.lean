import ContentStore.Proofs.Histories.Published
import ContentStore.Proofs.Workspaces
import ContentStore.Store.Reading
import Mathlib.Data.Set.Card

/-!
# Reads agree

There are five ways to what is stored: the version that a ref names, the whole
history of an item, the listing of a model under a ref, the refs of all items of
a model, and the number of its items.  Each of them joins the tables of versions
and refs in its own way and looks at other columns.  That they agree rests on
the histories: every item has one row for a ref at most, what the row names is a
version of the very item, and all versions of an item are of one model
(`Tables.Sound`), to which its schema belongs (`Tables.Housed`).

A search looks at the listing of its model (`Tables.Sound.mem_listByModel`), and
from this follows what it finds (`Store.reads_of_reachable`).
-/

namespace ContentStore

open Tables

/-- Sorting by distinct ids puts them in strict order. -/
theorem pairwise_sortBy_compare {α : Type} {kind : IdKind} (key : α → Id kind) {xs : List α}
    (h : (xs.map key).Nodup) :
    (sortBy (fun a b => (key a).compare (key b) == .lt) xs).Pairwise
      fun a b => (key a).compare (key b) = .lt := by
  have hirrefl : ∀ a, ¬(key a).compare (key a) = .lt := by
    intro a hlt
    rw [Id.compare_eq_iff.mpr rfl] at hlt
    cases hlt
  have htotal : ∀ a ∈ xs, ∀ b ∈ xs,
      (key a).compare (key b) = .lt ∨ a = b ∨ (key b).compare (key a) = .lt := by
    intro a ha b hb
    cases hcompare : (key a).compare (key b) with
    | lt => exact .inl rfl
    | eq => exact .inr (.inl (List.inj_on_of_nodup_map h ha hb (Id.compare_eq_iff.mp hcompare)))
    | gt => exact .inr (.inr (Std.OrientedCmp.lt_of_gt hcompare))
  exact ((eq_sortBy_iff hirrefl Std.TransCmp.lt_trans htotal (fun _ _ _ _ => beq_iff_eq)
    (List.Nodup.of_map _ h) _).mp rfl).2.2

namespace Tables

variable {n : Nat} {t : Tables} {x : ItemId} {r : Ref} {v w : Version} {m : ModelId}

/-! ## Refs of one item -/

/-- The refs that name a version, out of all refs and what they name. -/
theorem filter_refs (f : Ref → Option VersionId) (v : VersionId) (rs : List Ref) :
    ((rs.filterMap fun r => (f r).map fun w => (r, w)).filter fun e => e.2 == v).map Prod.fst =
      rs.filter fun r => f r == some v := by
  induction rs with
  | nil => rfl
  | cons r rs ih =>
    cases hr : f r with
    | none => simpa [hr] using ih
    | some w => by_cases hw : w = v <;> simp [hr, hw, ih]

theorem lookup_refsOf (t : Tables) (x : ItemId) (r : Ref) :
    (t.refsOf x).lookup r = t.target? x r := by
  have hne : (Ref.latest == Ref.published) = false ∧ (Ref.published == Ref.latest) = false :=
    ⟨rfl, rfl⟩
  unfold refsOf Ref.all
  cases r <;> cases hl : t.target? x .latest <;> cases hp : t.target? x .published <;>
    simp [hl, hp, List.lookup_cons, hne]

/-! ## Single reads -/

/-- A read by a ref finds the version that the ref names. -/
theorem Sound.findByRef?_eq_some (hs : Sound n t) :
    t.findByRef? x r = some v ↔
      ∃ w ∈ t.versionsOf x, t.target? x r = some w.id ∧ t.withRefsOf x w = v := by
  unfold findByRef?
  constructor
  · intro h
    obtain ⟨u, hu, rfl⟩ := Option.map_eq_some_iff.mp h
    obtain ⟨id, hid, hu⟩ := Option.bind_eq_some_iff.mp hu
    obtain ⟨w, hw, rfl⟩ := hs.exists_of_target? hid
    rw [hs.version?_of_mem (mem_versionsOf.mp hw).1] at hu
    obtain rfl := Option.some.inj hu
    exact ⟨w, hw, hid, rfl⟩
  · intro hex
    obtain ⟨w, hw, hid, rfl⟩ := hex
    rw [hid, Option.bind_some, hs.version?_of_mem (mem_versionsOf.mp hw).1, Option.map_some]

/-- What is found belongs to the item that was asked for. -/
theorem Sound.id_of_findByRef? (hs : Sound n t) (h : t.findByRef? x r = some v) :
    v.item.id = x := by
  obtain ⟨w, hw, -, rfl⟩ := hs.findByRef?_eq_some.mp h
  exact (mem_versionsOf.mp hw).2

/-- All versions of an item come from where the one that is found comes from. -/
theorem Sound.origin_of_findByRef? (hs : Sound n t) (h : t.findByRef? x r = some v)
    (hw : w ∈ t.versionsOf x) : v.item.origin = w.item.origin := by
  obtain ⟨u, hu, -, rfl⟩ := hs.findByRef?_eq_some.mp h
  obtain ⟨hu, hux⟩ := mem_versionsOf.mp hu
  obtain ⟨hw, hwx⟩ := mem_versionsOf.mp hw
  exact hs.one_origin u hu w hw (hux.trans hwx.symm)

/-- A history that is made from the tables names what they name. -/
theorem target?_made (t : Tables) (x : ItemId) (vs : List Version) (r : Ref) :
    (History.mk x vs (t.target? x .latest) (t.target? x .published)).target? r = t.target? x r := by
  cases r <;> rfl

/-- It shows its versions with the refs that the tables have for them. -/
theorem version?_made (t : Tables) (x : ItemId) (vs : List Version) (id : VersionId) :
    (History.mk x vs (t.target? x .latest) (t.target? x .published)).syncRefs.version? id =
      (vs.find? fun v => v.id == id).map (t.withRefsOf x) := by
  set h := History.mk x vs (t.target? x .latest) (t.target? x .published)
  have hshow : (fun v : Version => { v with refs := h.refsOf v.id }) = t.withRefsOf x := by
    funext v
    rw [withRefsOf, refsOf, filter_refs, History.refsOf, funext (target?_made t x vs)]
  show (vs.map fun v => { v with refs := h.refsOf v.id }).find? _ = _
  rw [hshow, List.find?_map]
  rfl

/-- **A read by a ref finds what the history shows under the ref**, with the same
refs. -/
theorem Sound.findByRef?_eq_history (hs : Sound n t) (x : ItemId) (r : Ref) :
    t.findByRef? x r = (t.history? x).bind fun h => h.findByRef? r := by
  unfold history?
  dsimp only
  split
  · rename_i hempty
    rw [findByRef?, target?_eq_head?_rowsOf, hs.rowsOf_of_absent (List.isEmpty_iff.mp hempty)]
    rfl
  · have hsync : ∀ h : History, h.syncRefs.target? r = h.target? r := fun _ => by cases r <;> rfl
    rw [ofParts_eq, Option.bind_some, History.findByRef?, hsync, target?_made, findByRef?]
    cases hid : t.target? x r with
    | none => rfl
    | some id =>
      obtain ⟨v, hv, rfl⟩ := hs.exists_of_target? hid
      have hnodup : ((t.versionsOf x).map Version.id).Nodup :=
        hs.ids_distinct.sublist (List.filter_sublist.map _)
      rw [Option.bind_some, Option.bind_some, version?_made, find?_of_nodup hnodup hv,
        hs.version?_of_mem (mem_versionsOf.mp hv).1]

/-! ## Reads of a model -/

theorem mem_itemsOf : x ∈ t.itemsOf m ↔ ∃ v ∈ t.versions, v.item.model = m ∧ v.item.id = x := by
  simp [itemsOf, and_assoc]

/-- The refs listed for a model are those of its items. -/
theorem lookup_refsByModel (h : x ∈ t.itemsOf m) :
    (t.refsByModel m).lookup x = if (t.refsOf x).isEmpty then none else some (t.refsOf x) := by
  unfold refsByModel
  generalize t.itemsOf m = ids at h
  induction ids with
  | nil => exact (List.not_mem_nil h).elim
  | cons y ids ih =>
    by_cases hxy : x = y
    · subst hxy
      by_cases hempty : (t.refsOf x).isEmpty
      · rw [if_pos hempty]
        rw [List.map_cons, List.filter_cons_of_neg (by simpa using hempty)]
        by_cases hx : x ∈ ids
        · rw [ih hx, if_pos hempty]
        · rw [List.lookup_eq_none_iff]
          intro e he
          obtain ⟨z, hz, rfl⟩ := List.mem_map.mp (List.mem_filter.mp he).1
          exact bne_iff_ne.mpr fun hxz => hx (hxz ▸ hz)
      · rw [if_neg hempty, List.map_cons, List.filter_cons_of_pos (by simpa using hempty),
          List.lookup_cons_self]
    · have hx := (List.mem_cons.mp h).resolve_left hxy
      have hne : (x == y) = false := beq_eq_false_iff_ne.mpr hxy
      rw [List.map_cons, List.filter_cons]
      split
      · rw [List.lookup_cons, hne]
        exact ih hx
      · exact ih hx

/-- With the refs listed for its model a version is shown as with those of its
item. -/
theorem withListed_eq (h : v ∈ t.versions) :
    withListed (t.refsByModel v.item.model) v = t.withRefsOf v.item.id v := by
  have hrefs : ((t.refsByModel v.item.model).lookup v.item.id).getD [] = t.refsOf v.item.id := by
    rw [lookup_refsByModel (mem_itemsOf.mpr ⟨v, h, rfl, rfl⟩)]
    split
    · rename_i hempty
      exact (List.isEmpty_iff.mp hempty).symm
    · rfl
  rw [withListed, hrefs, withRefsOf]

/-- A listing joins the rows of the ref with single reads. -/
theorem Sound.listByModel_eq (hs : Sound n t) (m : ModelId) (r : Ref) :
    t.listByModel m r =
      (sortBy (fun a b => a.item.compare b.item == .lt)
        (t.refs.filter fun row => row.ref == r)).filterMap
        fun row => (t.findByRef? row.item r).filter fun v => v.item.model == m := by
  refine List.filterMap_congr fun row hrow => ?_
  obtain ⟨hmem, href⟩ := List.mem_filter.mp ((sortBy_perm _ _).mem_iff.mp hrow)
  obtain rfl := beq_iff_eq.mp href
  have htarget := hs.target?_of_mem hmem
  obtain ⟨w, hw, hid⟩ := hs.exists_of_target? htarget
  obtain ⟨hw, hitem⟩ := mem_versionsOf.mp hw
  have hfind : t.findByRef? row.item row.ref = some (t.withRefsOf row.item w) :=
    hs.findByRef?_eq_some.mpr ⟨w, mem_versionsOf.mpr ⟨hw, hitem⟩, hid ▸ htarget, rfl⟩
  rw [hfind, ← hid, hs.version?_of_mem hw]
  by_cases hm : w.item.model = m
  · subst hm
    simp [Option.filter, withListed_eq hw, hitem, withRefsOf]
  · simp [Option.filter, hm, withRefsOf]

/-- **A listing holds just the versions of its model that single reads find.** -/
theorem Sound.mem_listByModel (hs : Sound n t) :
    v ∈ t.listByModel m r ↔ t.findByRef? v.item.id r = some v ∧ v.item.model = m := by
  rw [hs.listByModel_eq, List.mem_filterMap]
  constructor
  · intro hex
    obtain ⟨row, -, hrow⟩ := hex
    obtain ⟨hfind, hm⟩ := Option.filter_eq_some_iff.mp hrow
    rw [hs.id_of_findByRef? hfind]
    exact ⟨hfind, beq_iff_eq.mp hm⟩
  · intro hboth
    obtain ⟨hfind, hm⟩ := hboth
    obtain ⟨w, -, htarget, -⟩ := hs.findByRef?_eq_some.mp hfind
    obtain ⟨row, hrow, -⟩ := Option.map_eq_some_iff.mp htarget
    have hnamed := List.find?_some hrow
    simp only [Bool.and_eq_true, beq_iff_eq] at hnamed
    refine ⟨row, (sortBy_perm _ _).mem_iff.mpr (List.mem_filter.mpr
      ⟨List.mem_of_find?_eq_some hrow, beq_iff_eq.mpr hnamed.2⟩), ?_⟩
    rw [hnamed.1, hfind]
    exact Option.filter_eq_some_iff.mpr ⟨rfl, beq_iff_eq.mpr hm⟩

/-- A listing is in the order of the ids, each of which stands in it once. -/
theorem Sound.pairwise_listByModel (hs : Sound n t) (m : ModelId) (r : Ref) :
    (t.listByModel m r).Pairwise fun v w => v.item.id.compare w.item.id = .lt := by
  rw [hs.listByModel_eq, List.pairwise_filterMap]
  refine (pairwise_sortBy_compare RefRow.item (hs.items_distinct r)).imp fun hrows v hv w hw => ?_
  obtain ⟨hv, -⟩ := Option.filter_eq_some_iff.mp hv
  obtain ⟨hw, -⟩ := Option.filter_eq_some_iff.mp hw
  rw [hs.id_of_findByRef? hv, hs.id_of_findByRef? hw]
  exact hrows

/-- The items counted under a model are those with a latest version in it. -/
theorem Sound.mem_itemsOf_iff (hs : Sound n t) :
    x ∈ t.itemsOf m ↔ ∃ v, t.latest? x = some v ∧ v.item.model = m := by
  rw [mem_itemsOf]
  constructor
  · intro hex
    obtain ⟨v, hv, rfl, rfl⟩ := hex
    have hmem : v ∈ t.versionsOf v.item.id := mem_versionsOf.mpr ⟨hv, rfl⟩
    cases hlast : (t.versionsOf v.item.id).getLast? with
    | none =>
      rw [List.getLast?_eq_none_iff.mp hlast] at hmem
      exact (List.not_mem_nil hmem).elim
    | some last =>
      have hlatest : t.latest? v.item.id = some (t.withRefsOf v.item.id last) := by
        rw [hs.latest?_eq, hlast]
        rfl
      exact ⟨_, hlatest, congrArg Origin.model (hs.origin_of_findByRef? hlatest hmem)⟩
  · intro hex
    obtain ⟨v, hv, rfl⟩ := hex
    obtain ⟨w, hw, -, rfl⟩ := hs.findByRef?_eq_some.mp hv
    obtain ⟨hw, hwx⟩ := mem_versionsOf.mp hw
    exact ⟨w, hw, rfl, hwx⟩

end Tables

/-! ## Searches -/

/-- The query asks for everything of one schema of a model that a ref names. -/
structure Query.AsksAll (q : Query) (p : Package) (M : Model) (S : SchemaId) (r : Ref) : Prop where
  project : q.project = M.project
  model : q.model = M.id
  schema : q.schema.getD p.schema.id = S
  reference : q.reference = r
  keyword : q.keyword = none
  filter : q.filter = none
  sort : q.sort = none

/-- The package of a model has its metadata schema. -/
theorem Tables.metadataSchema_of_package {t : Tables} {id : ModelId} {p : Package} {s : SchemaId}
    (h : t.package id = .ok p) (hs : p.model.metadataSchema = some s) :
    ∃ S, p.metadataSchema = some S ∧ S.id = s := by
  unfold package at h
  obtain ⟨M, -, h⟩ := bind_eq_ok.mp h
  obtain ⟨schema, -, h⟩ := bind_eq_ok.mp h
  obtain ⟨metadata, hmetadata, h⟩ := bind_eq_ok.mp h
  obtain ⟨groups, -, h⟩ := bind_eq_ok.mp h
  obtain ⟨referenced, -, h⟩ := bind_eq_ok.mp h
  cases h
  rw [show M.metadataSchema = some s from hs] at hmetadata
  change (t.schema s).map some = _ at hmetadata
  obtain ⟨S, hS, rfl⟩ := map_eq_ok.mp hmetadata
  exact ⟨S, rfl, (mem_of_schema hS).2⟩

/-- A query for everything of a schema fits the package of its model. -/
theorem Query.check_of_asksAll {n : Nat} {t : Tables} {q : Query} {p : Package} {M : Model}
    {S : SchemaId} {r : Ref} (hw : Wired n t) (hM : M ∈ t.models) (hS : S ∈ M.schemas)
    (hp : t.package M.id = .ok p) (hq : q.AsksAll p M S r) : q.check p = .ok () := by
  obtain ⟨hpacked, hid, hschema⟩ := packed_package hp
  have hmodel : p.model = M := List.inj_on_of_nodup_map hw.models_distinct hpacked.model hM hid
  have hsearched : ∃ p', q.searched p = .ok p' := by
    unfold searched
    cases hqs : q.schema with
    | none => exact ⟨p, rfl⟩
    | some s =>
      obtain rfl : s = S := by
        have hget := hq.schema
        rwa [hqs] at hget
      by_cases hown : s = p.schema.id
      · exact ⟨p, if_pos hown⟩
      · -- the other schema of the model is that of its metadata items
        have hmeta : p.model.metadataSchema = some s := by
          rw [hschema] at hown
          rw [← hmodel] at hS
          have hother := (List.mem_cons.mp hS).resolve_left hown
          exact Option.mem_toList.mp hother
        obtain ⟨T, hT, rfl⟩ := metadataSchema_of_package hp hmeta
        refine ⟨{ p with schema := T, metadataSchema := none }, ?_⟩
        simp [hown, hT]
  obtain ⟨p', hp'⟩ := hsearched
  unfold check
  rw [if_neg (by rw [hid, hq.model]; exact fun h => h rfl),
    if_neg (by rw [hmodel, hq.project]; exact fun h => h rfl), hp', hq.filter, hq.sort]
  rfl

namespace Store

variable {s : Store} {S : SchemaId} {r : Ref}

/-- The candidates are the items of a schema that a ref names a version of, each
once and in the order of their ids, with this version and with the status of the
item. -/
structure Lists (s : Store) (S : SchemaId) (r : Ref) (cs : List Query.Candidate) : Prop where
  ordered : cs.Pairwise fun a b => a.id.compare b.id = .lt
  all : ∀ x v, s.tables.findByRef? x r = some v → v.item.schema = S →
    ∃ c ∈ cs, c.id = x ∧ c.version = v
  only : ∀ c ∈ cs, s.tables.findByRef? c.id r = some c.version ∧ c.version.item.schema = S ∧
    statusOf s.tables c.id = .ok (c.id, c.status) ∧
    c.metadata = c.version.item.metadataItem.bind fun y => (s.tables.latest? y).map Version.item

/-- The status by the refs of the model is that of the item. -/
theorem listedStatus_eq {t : Tables} {m : ModelId} {x : ItemId} (h : x ∈ t.itemsOf m) :
    listedStatus (t.refsByModel m) x = t.status x := by
  unfold listedStatus Tables.status
  rw [lookup_refsByModel h, ← lookup_refsOf, ← lookup_refsOf]
  split
  · rename_i hempty
    rw [List.isEmpty_iff.mp hempty]
    rfl
  · rfl

/-- An item that is found has a status. -/
theorem statusOf_of_findByRef? {n : Nat} {t : Tables} {x : ItemId} {v : Version} (hs : Sound n t)
    (h : t.findByRef? x r = some v) : statusOf t x = .ok (x, t.status x) := by
  obtain ⟨w, -, htarget, -⟩ := hs.findByRef?_eq_some.mp h
  have hrefs : t.refsOf x ≠ [] := by
    intro hnil
    rw [← lookup_refsOf, hnil] at htarget
    cases htarget
  unfold statusOf
  rw [if_neg (by rwa [List.isEmpty_iff])]

/-- The schema of a version that is found says which model it is of. -/
theorem model_of_findByRef? {n : Nat} {t : Tables} {x : ItemId} {v : Version} (hs : Sound n t)
    (hw : Wired n t) (hh : Housed n t) {M : Model} (hM : M ∈ t.models) (hS : S ∈ M.schemas)
    (hfind : t.findByRef? x r = some v) (hschema : v.item.schema = S) : v.item.model = M.id := by
  obtain ⟨w, hwx, -, -⟩ := hs.findByRef?_eq_some.mp hfind
  have hsome : (Write.latestItem t x).isSome := by
    rw [Option.isSome_iff_ne_none, Ne, hs.latestItem_eq_none_iff]
    exact List.ne_nil_of_mem hwx
  obtain ⟨it, hit⟩ := Option.isSome_iff_exists.mp hsome
  have horigin : v.item.origin = it.origin :=
    (hs.origin_of_findByRef? hfind hwx).trans (hs.origin_of_latestItem hit w hwx)
  obtain ⟨N, hN, hid, hown⟩ := hh.placed _ it hit
  have hschema' : it.schema = S := (congrArg Origin.schema horigin).symm.trans hschema
  rw [hw.model_eq hM hN hS (hschema' ▸ hown), hid]
  exact congrArg Origin.model horigin

/-- A search looks at versions in the order of their items. -/
theorem pairwise_candidates {n : Nat} {t : Tables} (hs : Sound n t) (q : Query) (S : SchemaId) :
    (candidates t q S).Pairwise fun a b => a.id.compare b.id = .lt := by
  unfold candidates
  rw [List.pairwise_map]
  exact (hs.pairwise_listByModel q.model q.reference).filter _

/-- What a search looks at are the items of the schema. -/
theorem lists_candidates {n : Nat} (hs : Sound n s.tables) (hw : Wired n s.tables)
    (hh : Housed n s.tables) {M : Model} (hM : M ∈ s.tables.models) (hS : S ∈ M.schemas) {q : Query}
    (hmodel : q.model = M.id) (href : q.reference = r) :
    s.Lists S r (candidates s.tables q S) := by
  have hmem : ∀ {v}, v ∈ s.tables.listByModel M.id r ↔
      s.tables.findByRef? v.item.id r = some v ∧ v.item.model = M.id :=
    fun {v} => hs.mem_listByModel
  refine ⟨pairwise_candidates hs q S, ?all, ?only⟩ <;> unfold candidates <;> rw [hmodel, href]
  case all =>
    intro x v hfind hschema
    obtain rfl := hs.id_of_findByRef? hfind
    have hmodel := model_of_findByRef? hs hw hh hM hS hfind hschema
    refine ⟨candidate s.tables (s.tables.refsByModel M.id) v, ?_, rfl, rfl⟩
    exact List.mem_map_of_mem
      (List.mem_filter.mpr ⟨hmem.mpr ⟨hfind, hmodel⟩, beq_iff_eq.mpr hschema⟩)
  case only =>
    intro c hc
    obtain ⟨v, hv, rfl⟩ := List.mem_map.mp hc
    obtain ⟨hv, hschema⟩ := List.mem_filter.mp hv
    obtain ⟨hfind, hvmodel⟩ := hmem.mp hv
    obtain ⟨w, hw', -, hvw⟩ := hs.findByRef?_eq_some.mp hfind
    have hitem : v.item.id ∈ s.tables.itemsOf M.id := by
      obtain ⟨hw', hid⟩ := mem_versionsOf.mp hw'
      refine mem_itemsOf.mpr ⟨w, hw', ?_, hid⟩
      rw [← hvmodel, ← hvw]
      rfl
    refine ⟨hfind, beq_iff_eq.mp hschema, ?_, rfl⟩
    show statusOf s.tables v.item.id =
      .ok (v.item.id, listedStatus (s.tables.refsByModel M.id) v.item.id)
    rw [listedStatus_eq hitem]
    exact statusOf_of_findByRef? hs hfind

/-- **A search pages through what its query selects** of what it looks at. -/
theorem search_eq {ctx : Context} {p : Package} {q : Query}
    (hactive : ctx.ensureActive s.progress = .ok ()) (hcheck : q.check p = .ok ())
    (pagination : Query.Pagination) :
    (search ctx p q pagination s).1 = Query.paginate s.config.maxPageSize
      (Query.select { q with schema := some (q.schema.getD p.schema.id) } s.clock.read.1
        (candidates s.tables q (q.schema.getD p.schema.id))) pagination := by
  have hlift : ∀ {x : Except Error Unit} (f : Unit → Operation Query.Page), x = .ok () →
      ((liftM x : Operation Unit) >>= f) = f () := by
    intro x f hx
    rw [hx]
    rfl
  have hsteps : search ctx p q pagination s =
      ((liftM (ctx.ensureActive s.progress) : Operation Unit) >>= fun _ =>
        (liftM (q.check p) : Operation Unit) >>= fun _ => _) s := rfl
  rw [hsteps, hlift _ hactive, hlift _ hcheck]
  rfl

/-- A query for everything of a schema selects all that it looks at, in its order. -/
theorem select_of_asksAll {n : Nat} {t : Tables} (hs : Sound n t) {p : Package} {q : Query}
    {M : Model} (hq : q.AsksAll p M S r) (now : Time.Instant) :
    Query.select { q with schema := some S } now (candidates t q S) = candidates t q S := by
  have hall : ∀ c ∈ candidates t q S, Query.selects { q with schema := some S } now c = true := by
    intro c hc
    obtain ⟨v, hv, rfl⟩ := List.mem_map.mp hc
    obtain ⟨hv, hschema⟩ := List.mem_filter.mp hv
    have hmodel := (hs.mem_listByModel.mp hv).2
    simp [Query.selects, Query.searchedKeyword?, candidate, hmodel, beq_iff_eq.mp hschema,
      hq.keyword, hq.filter]
  have hordered : (candidates t q S).Pairwise fun a b =>
      (Query.compare q.sort b a == .lt) = false := by
    rw [hq.sort]
    refine (pairwise_candidates hs q S).imp fun {a b} hab => ?_
    show (b.id.compare a.id == .lt) = false
    have hswap : b.id.compare a.id = (a.id.compare b.id).swap := Std.OrientedCmp.eq_swap
    rw [hswap, hab]
    rfl
  rw [Query.select, List.filter_eq_self.mpr hall]
  exact sortBy_eq_self hordered

/-- The ways to what is stored agree. -/
structure ReadsAgree (s : Store) : Prop where
  /-- A read by a ref finds what the history shows under it, with the same refs. -/
  found : ∀ x r, s.tables.findByRef? x r = (s.tables.history? x).bind fun h => h.findByRef? r
  /-- A query for everything of a schema fits the package of its model. -/
  accepted : ∀ M ∈ s.tables.models, ∀ S ∈ M.schemas, ∀ (r : Ref) (p : Package) (q : Query),
    s.tables.package M.id = .ok p → q.AsksAll p M S r → q.check p = .ok ()
  /-- A search for everything of a schema pages through the items that reads by the
  ref find. -/
  searched : ∀ M ∈ s.tables.models, ∀ S ∈ M.schemas, ∀ r, ∃ cs, s.Lists S r cs ∧
    ∀ (ctx : Context) (p : Package) (q : Query) (pagination : Query.Pagination),
      ctx.ensureActive s.progress = .ok () → q.AsksAll p M S r → q.check p = .ok () →
      (search ctx p q pagination s).1 = Query.paginate s.config.maxPageSize cs pagination
  /-- The items counted are those whose latest version is of the model. -/
  counted : ∀ (ctx : Context) (m : ModelId), ctx.ensureActive s.progress = .ok () →
    s.count ctx m = .ok {x | ∃ v, s.tables.latest? x = some v ∧ v.item.model = m}.ncard

/-- **All reads agree in every reachable store.** -/
theorem reads_of_reachable (h : s.Reachable) : ReadsAgree s := by
  have hs := h.sane.sound
  have hw := h.sane.wired
  constructor
  case found => exact hs.findByRef?_eq_history
  case accepted => exact fun M hM S hS r p q hp hq => Query.check_of_asksAll hw hM hS hp hq
  case searched =>
    intro M hM S hS r
    let all : Query := { Query.ofModel M.project M.id with reference := r }
    refine ⟨candidates s.tables all S, lists_candidates hs hw h.housed hM hS rfl rfl, ?_⟩
    intro ctx p q pagination hactive hq hcheck
    have hsame : candidates s.tables q S = candidates s.tables all S := by
      unfold candidates
      rw [hq.model, hq.reference]
      rfl
    rw [search_eq hactive hcheck, hq.schema, select_of_asksAll hs hq, hsame]
  case counted =>
    intro ctx m hactive
    have hset : {x | ∃ v, s.tables.latest? x = some v ∧ v.item.model = m} =
        ((s.tables.itemsOf m).toFinset : Set ItemId) := by
      ext x
      rw [Finset.mem_coe, List.mem_toFinset, hs.mem_itemsOf_iff]
      rfl
    have hnodup : (s.tables.itemsOf m).Nodup := nodup_distinct _
    rw [hset, Set.ncard_coe_finset, List.toFinset_card_of_nodup hnodup]
    unfold count
    rw [hactive]
    rfl

/-- What a search for all published notes finds. -/
def publishedNotes (s : Store) : Except Error (List (ItemId × Status)) := do
  let p ← s.tables.package (.ofSerial 1)
  let q : Query := { Query.ofModel ⟨"project"⟩ (.ofSerial 1) with reference := .published }
  let page ← (search (.maintainer ⟨"notes"⟩) p q s.defaultPagination s).1
  return page.items.map fun c => (c.id, c.status)

/-- The note that has been rewritten since it was published is found, and the one that
has been withdrawn is not. -/
theorem reads_of_drafts : draftStore.Reachable ∧ ReadsAgree draftStore ∧
    (publishedNotes draftStore).toOption = some [(.ofSerial 4, .changed)] := by
  have hreachable : draftStore.Reachable :=
    (reachable_blank _ _ _ _).evolves (evolves_afterAll _ _ _)
  exact ⟨hreachable, reads_of_reachable hreachable, by decide +kernel⟩

end Store

end ContentStore
