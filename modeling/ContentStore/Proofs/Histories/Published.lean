import ContentStore.Proofs.Announcements
import ContentStore.Proofs.Records

/-!
# What is published stays as it was

The calls that publish and withdraw an item are all that moves its ref `public`.
So the last of them that went through decides what is published: nothing after a
withdrawal, and after a publication the version that was the latest one then,
however often the item has been written since (`Store.published_of_run`).

An id is given to one item only.  So whatever calls went through with it were
made since this very item was created: they found a history that the present one
continues (`Store.Traced.since`).
-/

namespace ContentStore

open Tables

/-- What a call that went through did to `public` of an item. -/
def Entry.publication? (e : Entry) (x : ItemId) : Option Publication :=
  match e.call with
  | .publish ids =>
    if x ∈ ids ∧ (Store.publish e.ctx ids e.before).1.isOk then some .publish else none
  | .unpublish ids =>
    if x ∈ ids ∧ (Store.unpublish e.ctx ids e.before).1.isOk then some .withdraw else none
  | _ => none

/-- The last call that went through and published or withdrew the item, with the
store that it found. -/
def lastPublication (x : ItemId) (log : List Entry) : Option (Publication × Store) :=
  (log.filterMap fun e => (e.publication? x).map fun how => (how, e.before)).getLast?

/-- A publication that comes last is the last one. -/
theorem lastPublication_concat (x : ItemId) (log : List Entry) (e : Entry) :
    lastPublication x (log ++ [e]) =
      ((e.publication? x).map fun how => (how, e.before)).or (lastPublication x log) :=
  lastOf_concat _ log e

/-- The latest version is the last one, with its refs. -/
theorem Tables.Sound.latest?_eq {n : Nat} {t : Tables} (hs : Sound n t) (x : ItemId) :
    t.latest? x = (t.versionsOf x).getLast?.map (t.withRefsOf x) := by
  unfold latest? findByRef?
  rw [hs.target?_latest]
  cases hl : (t.versionsOf x).getLast? with
  | none => rfl
  | some v =>
    have hv := (mem_versionsOf.mp (List.mem_of_getLast? hl)).1
    rw [Option.map_some, Option.bind_some, hs.version?_of_mem hv]

/-- The last publication is one of the record. -/
theorem exists_of_lastPublication {x : ItemId} {log : List Entry}
    (h : (lastPublication x log).isSome) : ∃ e ∈ log, (e.publication? x).isSome := by
  obtain ⟨last, hlast⟩ := Option.isSome_iff_exists.mp h
  obtain ⟨e, he, hmap⟩ := List.mem_filterMap.mp (List.mem_of_getLast? hlast)
  obtain ⟨how, hhow, -⟩ := Option.map_eq_some_iff.mp hmap
  exact ⟨e, he, by rw [hhow]; rfl⟩

namespace Store

variable {s t u : Store} {log : List Entry} {ctx : Context} {x : ItemId}

/-- What is published of an item that is stored, by the last call that moved it. -/
def PublishedSince (t : Store) (x : ItemId) : Option (Publication × Store) → Prop
  | some (.publish, u) => ∃ last, (u.tables.versionsOf x).getLast? = some last ∧
      u.tables.latest? x = some (u.tables.withRefsOf x last) ∧
      t.tables.rowsOf x .published = [⟨x, .published, last.id⟩] ∧
      u.tables.versionsOf x <+: t.tables.versionsOf x
  | _ => t.tables.rowsOf x .published = []

/-- The published versions are those that the record of the run tells of. -/
structure Traced (log : List Entry) (t : Store) : Prop where
  sane : t.Sane
  since : ∀ e ∈ log, ∀ x, (e.publication? x).isSome → x.Given t.supply.next ∧
    e.before.tables.versionsOf x ≠ [] ∧
    (t.tables.versionsOf x ≠ [] → e.before.tables.versionsOf x <+: t.tables.versionsOf x)
  published : ∀ x, t.tables.versionsOf x ≠ [] → t.PublishedSince x (lastPublication x log)

/-- What is published of an item stays where nothing disturbs it. -/
theorem PublishedSince.undisturbed {last : Option (Publication × Store)}
    (h : s.PublishedSince x last) (hs : s.Undisturbed t x) (ht : t.tables.versionsOf x ≠ []) :
    t.PublishedSince x last := by
  have hrows := hs.published ht
  have hprefix := hs.prolonged ht
  unfold PublishedSince at h ⊢
  split at h
  · obtain ⟨l, hl, hlatest, hpublished, hpast⟩ := h
    exact ⟨l, hl, hlatest, hrows.trans hpublished, hpast.trans hprefix⟩
  · exact hrows.trans h

/-- A trace goes on through calls that disturb nothing. -/
theorem Traced.undisturbed (h : Traced log s) (hs : ∀ x, s.Undisturbed t x) (ht : t.Sane) :
    Traced log t := by
  refine ⟨ht, fun e he x hx => ?_, fun x hstored => ?_⟩
  · obtain ⟨hgiven, hbefore, hpast⟩ := h.since e he x hx
    refine ⟨hgiven.mono (hs x).supply, hbefore, fun hstored => ?_⟩
    exact (hpast ((hs x).stored hgiven hstored)).trans ((hs x).prolonged hstored)
  · by_cases hbefore : s.tables.versionsOf x = []
    · -- a new item, of which the record knows nothing
      have hnone : lastPublication x log = none := by
        refine Option.not_isSome_iff_eq_none.mp fun hsome => ?_
        obtain ⟨e, he, hx⟩ := exists_of_lastPublication hsome
        exact (hs x).stored (h.since e he x hx).1 hstored hbefore
      rw [hnone]
      show t.tables.rowsOf x .published = []
      rw [(hs x).published hstored, h.sane.sound.rowsOf_of_absent hbefore]
    · exact (h.published x hbefore).undisturbed (hs x) hstored

/-- A call that moves nothing of any item may be left out. -/
theorem Traced.skip (h : Traced log s) {e : Entry} (he : ∀ x, e.publication? x = none) :
    Traced (log ++ [e]) s := by
  refine ⟨h.sane, fun e' he' x hx => ?_, fun x hstored => ?_⟩
  · rcases List.mem_append.mp he' with he' | he'
    · exact h.since e' he' x hx
    · rw [List.mem_singleton.mp he', he x] at hx
      cases hx
  · rw [lastPublication_concat, he x]
    exact h.published x hstored

/-- What a call has done that published or withdrew items. -/
structure Moved (how : Publication) (ids : List ItemId) (s t : Store) : Prop where
  sane : t.Sane
  supply : s.supply.next ≤ t.supply.next
  versions : ∀ x, t.tables.versionsOf x = s.tables.versionsOf x
  listed : ∀ x ∈ ids, ∃ last, (s.tables.versionsOf x).getLast? = some last ∧
    t.tables.rowsOf x .published = Write.publicRows how x last.id
  others : ∀ x, x ∉ ids → t.tables.rowsOf x .published = s.tables.rowsOf x .published

/-- Publishing and withdrawing move the refs of the listed items to their last versions, or
away. -/
theorem moved_of_publish {how : Publication} {ids : List ItemId} {vs : List Version} (hs : s.Sane)
    (h : (transact ctx (Write.moveAllPublic ctx.operator how ids) s).1 = .ok vs) :
    Moved how ids s (transact ctx (Write.moveAllPublic ctx.operator how ids) s).2 := by
  obtain ⟨-, w, hgives, hkeep⟩ := transact_eq_ok (Write.grows_moveAllPublic _ _ _) h
  obtain ⟨⟨⟨refs, htables⟩, hle, hsound⟩, -, hlisted, hothers, -⟩ :=
    (Write.gives_moveAllPublic hs.sound hgives).1
  rw [hkeep]
  have hafter : (s.committed w).tables = { s.tables with refs := refs } := htables
  have hversions : ∀ x, (s.committed w).tables.versionsOf x = s.tables.versionsOf x := by
    intro x
    rw [hafter]
    rfl
  have hwired : Wired (s.committed w).supply.next (s.committed w).tables :=
    hs.wired.congr hle (by rw [hafter]) (by rw [hafter]) (by rw [hafter])
  exact ⟨⟨hsound, hwired⟩, hle, hversions, hlisted, fun x hx => hothers x .published (.inl hx)⟩

/-- An item that was listed has been stored. -/
theorem Moved.stored {how : Publication} {ids : List ItemId} (h : Moved how ids s t)
    (hs : s.Sane) (hx : x ∈ ids) : x.Given s.supply.next ∧ s.tables.versionsOf x ≠ [] := by
  obtain ⟨last, hlast, -⟩ := h.listed x hx
  obtain ⟨hmem, hitem⟩ := mem_versionsOf.mp (List.mem_of_getLast? hlast)
  refine ⟨hitem ▸ hs.sound.items_given last hmem, fun hnil => ?_⟩
  rw [hnil] at hlast
  cases hlast

/-- What is published of a listed item from now on is what was stored of it. -/
theorem Moved.published {how : Publication} {ids : List ItemId} (h : Moved how ids s t)
    (hs : s.Sane) (hx : x ∈ ids) : t.PublishedSince x (some (how, s)) := by
  obtain ⟨last, hlast, hrows⟩ := h.listed x hx
  cases how with
  | withdraw => exact hrows
  | publish =>
    have hlatest : s.tables.latest? x = some (s.tables.withRefsOf x last) := by
      rw [hs.sound.latest?_eq, hlast]
      rfl
    exact ⟨last, hlast, hlatest, hrows, h.versions x ▸ List.prefix_rfl⟩

theorem Moved.undisturbed {how : Publication} {ids : List ItemId} (h : Moved how ids s t)
    (hx : x ∉ ids) : s.Undisturbed t x :=
  ⟨continues_of_eq (h.versions x) h.supply, fun _ => h.others x hx⟩

/-- **Publishing or withdrawing items is traced.** -/
theorem Traced.moved (h : Traced log s) {how : Publication} {ids : List ItemId} {e : Entry}
    (hbefore : e.before = s) (hmoved : Moved how ids s t)
    (he : ∀ x, e.publication? x = if x ∈ ids then some how else none) :
    Traced (log ++ [e]) t := by
  refine ⟨hmoved.sane, fun e' he' x hx => ?_, fun x hstored => ?_⟩
  · rcases List.mem_append.mp he' with he' | he'
    · obtain ⟨hgiven, hbefore, hpast⟩ := h.since e' he' x hx
      refine ⟨hgiven.mono hmoved.supply, hbefore, fun hstored => ?_⟩
      rw [hmoved.versions x] at hstored ⊢
      exact hpast hstored
    · obtain rfl := List.mem_singleton.mp he'
      rw [he x] at hx
      split at hx
      · rename_i hlist
        obtain ⟨hgiven, hne⟩ := hmoved.stored h.sane hlist
        rw [hbefore, hmoved.versions x]
        exact ⟨hgiven.mono hmoved.supply, hne, fun _ => List.prefix_rfl⟩
      · cases hx
  · rw [lastPublication_concat, he x]
    split
    · rename_i hlist
      rw [hbefore]
      exact hmoved.published h.sane hlist
    · rename_i hlist
      have hstored' : s.tables.versionsOf x ≠ [] := by rwa [← hmoved.versions]
      exact (h.published x hstored').undisturbed (hmoved.undisturbed hlist) hstored

/-- **A call that publishes or withdraws items is traced.** -/
theorem Traced.move (h : Traced log s) {how : Publication} {ids : List ItemId} {e : Entry}
    (hbefore : e.before = s)
    (he : ∀ x, e.publication? x = if x ∈ ids ∧
      (transact ctx (Write.moveAllPublic ctx.operator how ids) s).1.isOk then some how else none) :
    Traced (log ++ [e]) (transact ctx (Write.moveAllPublic ctx.operator how ids) s).2 := by
  cases hresult : (transact ctx (Write.moveAllPublic ctx.operator how ids) s).1 with
  | error err =>
    have hrests := (reaches_transact (Write.grows_moveAllPublic _ _ _) s).of_error hresult
    refine (h.undisturbed hrests.undisturbed (hrests.sane h.sane)).skip fun x => ?_
    rw [he x, hresult]
    exact if_neg fun hboth => nomatch hboth.2
  | ok vs =>
    refine h.moved hbefore (moved_of_publish h.sane hresult) fun x => ?_
    have hok : (Except.ok vs : Except Error (List Version)).isOk = true := rfl
    simp only [he x, hresult, hok, and_true]

/-- **The record tells what is published** after every run from an empty store. -/
theorem traced_of_recorded {config : Config} {clock : Time.Clock} {supply : Supply}
    {emitter : Emitter} (h : Recorded (blank config clock supply emitter) log s) :
    Traced log s := by
  induction h with
  | start => exact ⟨sane_blank _ _ _ _, fun _ h => (nomatch h), fun _ h => (h rfl).elim⟩
  | @call log t _ ctx c ih =>
    by_cases hc : c.Publishes
    · cases c with
      | publish ids =>
        show Traced _ (transact ctx (Write.moveAllPublic ctx.operator .publish ids) t).2
        exact ih.move rfl fun _ => rfl
      | unpublish ids =>
        show Traced _ (transact ctx (Write.moveAllPublic ctx.operator .withdraw ids) t).2
        exact ih.move rfl fun _ => rfl
      | _ => exact hc.elim
    · have houtcome := outcome_after ih.sane ctx c
      refine (ih.undisturbed (undisturbed_of_outcome houtcome ih.sane hc)
        (sane_of_outcome houtcome ih.sane)).skip fun x => ?_
      cases c <;> first | rfl | exact (hc trivial).elim
  | @declare log t _ d ih =>
    have hrewires := (reshaping_declare d t).rewires ih.sane.wired
    exact ih.undisturbed
      (fun _ => undisturbed_of_eq hrewires.versions hrewires.refs hrewires.supply)
      (Moves.sane (.declare d) ih.sane)
  | rest _ hrest ih => exact ih.undisturbed hrest.undisturbed (hrest.sane ih.sane)

/-! ## What is found -/

/-- What there is to see of a stored item of some status, by the record of the
run. -/
structure SeenAs (log : List Entry) (t : Store) (ctx : Context) (x : ItemId) (σ : Status) :
    Prop where
  /-- What was published or withdrawn was this item, as it was then. -/
  since : ∀ e ∈ log, (e.publication? x).isSome → e.before.tables.versionsOf x ≠ [] ∧
    e.before.tables.versionsOf x <+: t.tables.versionsOf x
  /-- Something is found just if the item was published last. -/
  found : (∃ v, t.findPublic ctx x = .ok v) ↔ ∃ u, lastPublication x log = some (.publish, u)
  /-- It is the version that was the latest one then. -/
  frozen : ∀ u v, lastPublication x log = some (.publish, u) → t.findPublic ctx x = .ok v →
    ∃ w, u.tables.latest? x = some w ∧ v.id = w.id ∧ v.parents = w.parents ∧
      v.timestamp = w.timestamp ∧ v.item = w.item
  /-- A draft is an item of which nothing is found. -/
  draft : σ = .draft ↔ ¬ ∃ v, t.findPublic ctx x = .ok v
  /-- Of an item published as it is there are no later versions. -/
  current : σ = .published ↔ ∃ u, lastPublication x log = some (.publish, u) ∧
    t.tables.versionsOf x = u.tables.versionsOf x

theorem findPublic_eq (hactive : ctx.ensureActive t.progress = .ok ()) (x : ItemId) :
    t.findPublic ctx x = match t.tables.findByRef? x .published with
      | some v => .ok v
      | none => .error (.notFound .publicItem x.text) := by
  unfold findPublic
  rw [hactive]
  cases t.tables.findByRef? x .published <;> rfl

/-- Of stored items there is a status. -/
theorem status_eq (hactive : ctx.ensureActive t.progress = .ok ()) {ids : List ItemId}
    (hstored : ∀ x ∈ ids, (t.tables.target? x .latest).isSome) :
    t.status ctx ids = .ok (ids.map fun x => (x, t.tables.status x)) := by
  unfold status
  rw [hactive]
  show ids.mapM (statusOf t.tables) = _
  induction ids with
  | nil => rfl
  | cons x ids ih =>
    obtain ⟨l, hl⟩ := Option.isSome_iff_exists.mp (hstored x List.mem_cons_self)
    have hrefs : (t.tables.refsOf x).isEmpty = false := by
      unfold refsOf Ref.all
      rw [List.filterMap_cons, hl]
      rfl
    have hx : statusOf t.tables x = .ok (x, t.tables.status x) := by
      unfold statusOf
      rw [hrefs]
      rfl
    rw [List.mapM_cons, hx, ih fun y hy => hstored y (List.mem_cons_of_mem _ hy)]
    rfl

/-- Of two histories of an item, one of which goes on from the other, the last
versions are the same just if nothing has been appended. -/
theorem last_eq_iff {n : Nat} {T U : Tables} {l last : Version} (hs : Sound n T)
    (hpast : U.versionsOf x <+: T.versionsOf x) (hl : (T.versionsOf x).getLast? = some l)
    (hlast : (U.versionsOf x).getLast? = some last) :
    l.id = last.id ↔ T.versionsOf x = U.versionsOf x := by
  obtain ⟨more, hmore⟩ := hpast
  have hnodup : ((T.versionsOf x).map Version.id).Nodup :=
    hs.ids_distinct.sublist (List.filter_sublist.map _)
  constructor
  · intro hid
    cases hlastmore : more.getLast? with
    | none =>
      rw [List.getLast?_eq_none_iff.mp hlastmore, List.append_nil] at hmore
      exact hmore.symm
    | some r =>
      -- the last version would stand in two places
      rw [← hmore, List.getLast?_append, hlastmore, Option.some_or] at hl
      cases hl
      rw [← hmore, List.map_append, List.nodup_append] at hnodup
      exact (hnodup.2.2 _ (List.mem_map_of_mem (List.mem_of_getLast? hlast)) _
        (List.mem_map_of_mem (List.mem_of_getLast? hlastmore)) hid.symm).elim
  · intro heq
    rw [heq, hlast] at hl
    rw [Option.some.inj hl]

section Seen

variable (htraced : Traced log t) {l : Version} (hl : (t.tables.versionsOf x).getLast? = some l)
  (hactive : ctx.ensureActive t.progress = .ok ())

include htraced hl in
theorem since_of_traced : ∀ e ∈ log, (e.publication? x).isSome →
    e.before.tables.versionsOf x ≠ [] ∧ e.before.tables.versionsOf x <+: t.tables.versionsOf x := by
  intro e he hx
  obtain ⟨-, hbefore, hpast⟩ := htraced.since e he x hx
  refine ⟨hbefore, hpast fun hnil => ?_⟩
  rw [hnil] at hl
  cases hl

include htraced hl in
/-- The status of an item is derived from its latest version and the published one. -/
theorem status_of_traced : t.tables.status x =
    .derive (some l.id) ((t.tables.rowsOf x .published).head?.map RefRow.version) := by
  rw [Tables.status, htraced.sane.sound.target?_latest, hl, target?_eq_head?_rowsOf]
  rfl

include htraced hl hactive in
/-- An item that was published last. -/
theorem seenAs_published {last : Version} (hlog : lastPublication x log = some (.publish, u))
    (hlast : (u.tables.versionsOf x).getLast? = some last)
    (hthen : u.tables.latest? x = some (u.tables.withRefsOf x last))
    (hrows : t.tables.rowsOf x .published = [⟨x, .published, last.id⟩])
    (hpast : u.tables.versionsOf x <+: t.tables.versionsOf x) :
    SeenAs log t ctx x (t.tables.status x) := by
  have hsound := htraced.sane.sound
  have hmem := hpast.subset (List.mem_of_getLast? hlast)
  have hfind : t.findPublic ctx x = .ok (t.tables.withRefsOf x last) := by
    rw [findPublic_eq hactive, findByRef?, target?_eq_head?_rowsOf, hrows]
    simp only [List.head?_cons, Option.map_some, Option.bind_some]
    rw [hsound.version?_of_mem (mem_versionsOf.mp hmem).1]
    rfl
  have hunique : ∀ u', lastPublication x log = some (.publish, u') → u' = u := by
    intro u' hu'
    rw [hlog] at hu'
    cases hu'
    rfl
  have hderive : Status.derive (some l.id) (some last.id) =
      if l.id = last.id then .published else .changed := rfl
  rw [status_of_traced htraced hl, hrows, List.head?_cons, Option.map_some, hderive]
  constructor
  case since => exact since_of_traced htraced hl
  case found => exact ⟨fun _ => ⟨u, hlog⟩, fun _ => ⟨_, hfind⟩⟩
  case frozen =>
    intro u' v hu' hv
    rw [hfind] at hv
    cases hv
    obtain rfl := hunique u' hu'
    exact ⟨_, hthen, rfl, rfl, rfl, rfl⟩
  case draft =>
    refine ⟨fun hdraft => ?_, fun hnot => (hnot ⟨_, hfind⟩).elim⟩
    split at hdraft <;> cases hdraft
  case current =>
    have hpublished : (if l.id = last.id then Status.published else .changed) = .published ↔
        l.id = last.id := by
      split <;> simp [*]
    rw [hpublished, last_eq_iff hsound hpast hl hlast]
    refine ⟨fun hsame => ⟨u, hlog, hsame⟩, fun hex => ?_⟩
    obtain ⟨u', hu', hsame⟩ := hex
    obtain rfl := hunique u' hu'
    exact hsame

include htraced hl hactive in
/-- An item that was withdrawn last, or never published. -/
theorem seenAs_withdrawn (hlog : ∀ u, lastPublication x log ≠ some (.publish, u))
    (hrows : t.tables.rowsOf x .published = []) : SeenAs log t ctx x (t.tables.status x) := by
  have hnone : ¬ ∃ u, lastPublication x log = some (.publish, u) := by
    intro hex
    obtain ⟨u, hu⟩ := hex
    exact hlog u hu
  have hfind : ¬ ∃ v, t.findPublic ctx x = .ok v := by
    intro hex
    obtain ⟨v, hv⟩ := hex
    rw [findPublic_eq hactive, findByRef?, target?_eq_head?_rowsOf, hrows] at hv
    cases hv
  rw [status_of_traced htraced hl, hrows]
  constructor
  case since => exact since_of_traced htraced hl
  case found => exact ⟨fun hex => (hfind hex).elim, fun hex => (hnone hex).elim⟩
  case frozen => exact fun u _ hu => (hlog u hu).elim
  case draft => exact ⟨fun _ => hfind, fun _ => rfl⟩
  case current =>
    refine ⟨fun hpub => (nomatch hpub), fun hex => ?_⟩
    obtain ⟨u, hu, -⟩ := hex
    exact (hlog u hu).elim

end Seen

/-- **What is published is the version that was the latest one when the item was
published last**, after every run from an empty store, and nothing is if it has been
withdrawn since or never been published. -/
theorem published_of_run {config : Config} {clock : Time.Clock} {supply : Supply}
    {emitter : Emitter} (h : Recorded (blank config clock supply emitter) log t)
    (hactive : ctx.ensureActive t.progress = .ok ()) {ids : List ItemId}
    (hids : ∀ x ∈ ids, (Write.latestItem t.tables x).isSome) :
    t.status ctx ids = .ok (ids.map fun x => (x, t.tables.status x)) ∧
      ∀ x ∈ ids, SeenAs log t ctx x (t.tables.status x) := by
  have htraced := traced_of_recorded h
  have hsound := htraced.sane.sound
  have hlast : ∀ x ∈ ids, ∃ l, (t.tables.versionsOf x).getLast? = some l := by
    intro x hx
    have hsome := hids x hx
    rwa [hsound.latestItem_eq, Option.isSome_map, Option.isSome_iff_exists] at hsome
  refine ⟨status_eq hactive fun x hx => ?_, fun x hx => ?_⟩
  · obtain ⟨l, hl⟩ := hlast x hx
    rw [hsound.target?_latest, hl]
    rfl
  · obtain ⟨l, hl⟩ := hlast x hx
    have hpublished := htraced.published x fun hnil => by
      rw [hnil] at hl
      cases hl
    unfold PublishedSince at hpublished
    split at hpublished
    · rename_i u hlog
      obtain ⟨last, hlast, hthen, hrows, hprefix⟩ := hpublished
      exact seenAs_published htraced hl hactive hlog hlast hthen hrows hprefix
    · rename_i hlog
      exact seenAs_withdrawn htraced hl hactive hlog hpublished

section Drafts

/-- A note that is published and then rewritten, and another one that is
published and withdrawn. -/
def drafts : List Call := [
  .createModel (.ofKey ⟨"project"⟩ ⟨"notes"⟩ "note"),
  .createField (.ofKey (.ofSerial 0) "text" (.text none)),
  .createItem ⟨.ofSerial 1, [.byKey "text" (.string "first")], none⟩,
  .createItem ⟨.ofSerial 1, [.byKey "text" (.string "second")], none⟩,
  .publish [.ofSerial 4, .ofSerial 7],
  .updateItem ⟨.ofSerial 4, none, [.byKey "text" (.string "changed")], none⟩,
  .unpublish [.ofSerial 7]]

/-- The notes after all that. -/
def draftStore : Store :=
  Call.afterAll (.maintainer ⟨"notes"⟩) drafts (blank .standard ⟨⟨0, 0⟩, 1⟩ ⟨0⟩ .silent)

/-- The rewritten note is seen as it was published, the other one not at all. -/
theorem published_of_drafts : ∃ log,
    Recorded (blank .standard ⟨⟨0, 0⟩, 1⟩ ⟨0⟩ .silent) log draftStore ∧
      draftStore.status (.maintainer ⟨"notes"⟩) [.ofSerial 4, .ofSerial 7] =
        .ok [(.ofSerial 4, .changed), (.ofSerial 7, .draft)] ∧
      SeenAs log draftStore (.maintainer ⟨"notes"⟩) (.ofSerial 4) .changed ∧
      SeenAs log draftStore (.maintainer ⟨"notes"⟩) (.ofSerial 7) .draft := by
  have hrun : Recorded (blank .standard ⟨⟨0, 0⟩, 1⟩ ⟨0⟩ .silent) _ draftStore :=
    Recorded.start.afterAll (.maintainer ⟨"notes"⟩) drafts
  have hchanged : draftStore.tables.status (.ofSerial 4) = .changed := by decide +kernel
  have hdraft : draftStore.tables.status (.ofSerial 7) = .draft := by decide +kernel
  have hactive : (Context.maintainer ⟨"notes"⟩).ensureActive draftStore.progress = .ok () := rfl
  have hstored : ∀ x ∈ ([.ofSerial 4, .ofSerial 7] : List ItemId),
      (Write.latestItem draftStore.tables x).isSome := by decide +kernel
  obtain ⟨hstatus, hseen⟩ := published_of_run hrun hactive hstored
  have hfirst := hseen (.ofSerial 4) (by decide)
  have hsecond := hseen (.ofSerial 7) (by decide)
  rw [List.map_cons, List.map_cons, List.map_nil, hchanged, hdraft] at hstatus
  rw [hchanged] at hfirst
  rw [hdraft] at hsecond
  exact ⟨_, hrun, hstatus, hfirst, hsecond⟩

end Drafts

end Store

end ContentStore
