import ContentStore.Proofs.Declarations.Additions
import ContentStore.Proofs.Declarations.Applying

/-!
# What a catalog does to what is there

Declared keys that are taken are passed over, but the fields of a new model may
still reach into a model that is there: a two-way reference puts its other end
at the end of the schema of the model it points at.  That is all that happens to
what was stored before.  Groups, models, schemas of groups and schemas of metadata
stay as they are, and the schema of a model's items keeps its fields, their order
and its title (`Store.declare_spares`).
-/

namespace ContentStore

open Declaration (Entry Owner)

/-! ## New owners and old schemas -/

/-- Mirrors only ever go to schemas of items. -/
theorem landing_mirrors_eq_nil {d : Declaration} {t : Tables} {id : SchemaId} (es : List Entry)
    (h : ∀ M ∈ t.models, M.schema ≠ id) :
    landing id (es.filterMap (Entry.mirrorEnd? d t)) = [] := by
  refine landing_eq_nil fun a ha heq => ?_
  obtain ⟨e, -, hend⟩ := List.mem_filterMap.mp ha
  cases e with
  | field owner f =>
    obtain ⟨M, hM, hschema⟩ := Declaration.Field.model_of_mirrorEnd? hend
    exact h M hM (hschema.trans heq)
  | _ => cases hend

namespace Tables.Grows

variable {d : Declaration} {t u : Tables} {es : List Entry} {S : Schema}

/-- An owner whose key was free has no schema that was there before. -/
theorem owner_fresh (h : Tables.Grows d t es u) {owner : Owner}
    (hfree : owner.taken d t = false) (hS : S ∈ t.schemas) :
    owner.schema? d u ≠ some S.id := by
  intro howner
  cases owner with
  | group key =>
    obtain ⟨G, hG, hschema⟩ := Option.map_eq_some_iff.mp howner
    have hnone := Option.not_isSome_iff_eq_none.mp (Bool.eq_false_iff.mp hfree)
    exact h.groups.fresh hnone hG hS (List.mem_singleton.mpr hschema.symm)
  | model key =>
    obtain ⟨M, hM, hschema⟩ := Option.map_eq_some_iff.mp howner
    have hnone := Option.not_isSome_iff_eq_none.mp (Bool.eq_false_iff.mp hfree)
    refine h.models.fresh hnone hM hS ?_
    rw [← hschema]
    exact List.mem_cons_self
  | metadata key =>
    obtain ⟨M, hM, hschema⟩ := Option.bind_eq_some_iff.mp howner
    have hnone := Option.not_isSome_iff_eq_none.mp (Bool.eq_false_iff.mp hfree)
    refine h.models.fresh hnone hM hS (List.mem_cons_of_mem _ ?_)
    rw [hschema]
    exact List.mem_cons_self

/-- A mirror that goes to a schema from before goes there because its model was stored. -/
theorem mirrorEnd?_of_stored (h : Tables.Grows d t es u) {f : Declaration.Field} {o : Outline}
    (hS : S ∈ t.schemas) (ho : f.mirrorEnd? d u = some (S.id, o)) :
    f.mirrorEnd? d t = some (S.id, o) := by
  unfold Declaration.Field.mirrorEnd? at ho ⊢
  obtain ⟨m, hm, ho⟩ := Option.bind_eq_some_iff.mp ho
  obtain ⟨key, hkey, ho⟩ := Option.bind_eq_some_iff.mp ho
  obtain ⟨M, hM, ho⟩ := Option.bind_eq_some_iff.mp ho
  have hfound : t.modelByKey? d.projectId key = some M := by
    cases hbefore : t.modelByKey? d.projectId key with
    | none =>
      have hschema : M.schema = S.id := congrArg Prod.fst (Option.some.inj ho)
      refine (h.models.fresh hbefore hM hS ?_).elim
      rw [← hschema]
      exact List.mem_cons_self
    | some M' => exact (h.modelByKey? hbefore).symm.trans hM
  exact Option.bind_eq_some_iff.mpr ⟨m, hm, Option.bind_eq_some_iff.mpr ⟨key, hkey,
    Option.bind_eq_some_iff.mpr ⟨M, hfound, ho⟩⟩⟩

/-- So it can be told before the run which mirrors a schema will get. -/
theorem landing_mirrorEnd? (h : Tables.Grows d t es u) (f : Declaration.Field)
    (hS : S ∈ t.schemas) :
    landing S.id (f.mirrorEnd? d u).toList = landing S.id (f.mirrorEnd? d t).toList := by
  cases hbefore : f.mirrorEnd? d t with
  | some a => rw [Declaration.Field.mirrorEnd?_of_grows h hbefore]
  | none =>
    refine landing_eq_nil fun a ha hsame => ?_
    obtain ⟨s, o⟩ := a
    cases hsame
    rw [h.mirrorEnd?_of_stored hS (Option.mem_toList.mp ha)] at hbefore
    cases hbefore

/-- All that new owners bring to a schema from before are their mirrors. -/
theorem landing_additions (h : Tables.Grows d t es u) {done : List Entry}
    (hfree : ∀ owner f, .field owner f ∈ done → owner.taken d t = false) (hS : S ∈ t.schemas) :
    landing S.id (done.flatMap (Entry.additions d u)) =
      landing S.id (done.filterMap (Entry.mirrorEnd? d t)) := by
  rw [List.filterMap_eq_flatMap_toList, landing_flatMap, landing_flatMap]
  refine List.flatMap_congr fun e he => ?_
  cases e with
  | group g => rfl
  | model m => rfl
  | field owner f =>
    have hown : landing S.id ((owner.schema? d u).map fun s => (s, f.outline)).toList = [] := by
      refine landing_eq_nil fun a ha hsame => ?_
      obtain ⟨s, hs, rfl⟩ := Option.map_eq_some_iff.mp (Option.mem_toList.mp ha)
      exact h.owner_fresh (hfree owner f he) hS (hs.trans (congrArg some hsame))
    rw [Entry.additions_field, landing_append, hown, List.nil_append]
    exact h.landing_mirrorEnd? f hS

end Tables.Grows

namespace Store

variable {d : Declaration} {s t : Store} {es : List Entry}

/-- Schemas from before are left with their fields and their title, and get mirrors. -/
theorem Entered.kept (hs : s.Ready) (h : Entered d s es t)
    (hfree : ∀ owner f, .field owner f ∈ es → owner.taken d s.tables = false) {S : Schema}
    (hS : S ∈ s.tables.schemas) :
    ∃ more, { S with fields := S.fields ++ more } ∈ t.tables.schemas ∧
      more.map Field.outline = landing S.id (es.filterMap (Entry.mirrorEnd? d s.tables)) := by
  have hgrows := h.grows hs
  obtain ⟨S', hS', more, title, rfl, hmore, htitle⟩ := h.extends hs S hS
  have hsame : title = S.title := by
    refine htitle fun hex => ?_
    obtain ⟨e, he, hhost⟩ := hex
    cases e with
    | field owner f => exact hgrows.owner_fresh (hfree owner f he) hS hhost
    | _ => cases hhost
  rw [hgrows.landing_additions hfree hS] at hmore
  exact ⟨more, hsame ▸ hS', hmore⟩

/-- What has become of what was stored when the entries `done` have been made. -/
structure Spared (d : Declaration) (s t : Tables) (done : List Entry) : Prop where
  /-- Groups are as they were, and so are their schemas. -/
  groups : ∀ G ∈ s.groups, G ∈ t.groups ∧ t.schema? G.schema = s.schema? G.schema
  /-- Models are as they were, and so are the schemas of their metadata. -/
  models : ∀ M ∈ s.models, M ∈ t.models ∧
    ∀ id, M.metadataSchema = some id → t.schema? id = s.schema? id
  /-- After the fields that a schema of items had it has mirrors, one for each two-way
  reference of a new model to this one. -/
  items : ∀ M ∈ s.models, ∃ S more, s.schema? M.schema = some S ∧
    t.schema? M.schema = some { S with fields := S.fields ++ more } ∧
    more.map Field.outline = landing M.schema (done.filterMap (Entry.mirrorEnd? d s))
  /-- So it is as it was just if there is no such reference. -/
  same : ∀ M ∈ s.models, t.schema? M.schema = s.schema? M.schema ↔
    landing M.schema (done.filterMap (Entry.mirrorEnd? d s)) = []

theorem Entered.spared (hs : s.Ready) (h : Entered d s es t)
    (hfree : ∀ owner f, .field owner f ∈ es → owner.taken d s.tables = false) :
    Spared d s.tables t.tables es := by
  have hgrows := h.grows hs
  have hw := hs.sane.wired
  have hwt := (hs.entered h).sane.wired
  have hfound : ∀ id ∈ s.tables.used, ∃ S more, s.tables.schema? id = some S ∧
      t.tables.schema? id = some { S with fields := S.fields ++ more } ∧
      more.map Field.outline = landing id (es.filterMap (Entry.mirrorEnd? d s.tables)) := by
    intro id hid
    obtain ⟨S, hS, rfl⟩ := hw.used_stored id hid
    obtain ⟨more, hmore, houtlines⟩ := h.kept hs hfree hS
    exact ⟨S, more, hw.schema?_of_mem hS, hwt.schema?_of_mem hmore, houtlines⟩
  have hsame : ∀ id ∈ s.tables.used, (t.tables.schema? id = s.tables.schema? id ↔
      landing id (es.filterMap (Entry.mirrorEnd? d s.tables)) = []) := by
    intro id hid
    obtain ⟨S, more, hbefore, hafter, houtlines⟩ := hfound id hid
    rw [hbefore, hafter, ← houtlines, List.map_eq_nil_iff, Option.some_inj]
    constructor
    · intro heq
      exact List.self_eq_append_right.mp (congrArg Schema.fields heq).symm
    · intro hnil
      rw [hnil, List.append_nil]
  constructor
  case groups =>
    intro G hG
    have hused : G.schema ∈ s.tables.used := Tables.mem_used.mpr (.inr ⟨G, hG, rfl⟩)
    exact ⟨hgrows.groups.mem hG,
      (hsame _ hused).mpr (landing_mirrors_eq_nil es fun M hM => hw.item_ne_group hM hG)⟩
  case models =>
    intro M hM
    refine ⟨hgrows.models.mem hM, fun id hid => ?_⟩
    have hown : id ∈ M.schemas := by
      unfold Model.schemas
      rw [hid]
      exact List.mem_cons_of_mem _ List.mem_cons_self
    have hused : id ∈ s.tables.used := Tables.mem_used.mpr (.inl ⟨M, hM, hown⟩)
    exact (hsame _ hused).mpr
      (landing_mirrors_eq_nil es fun M' hM' => hw.item_ne_metadata hM' hM hid)
  case items =>
    exact fun M hM => hfound _ (Tables.mem_used.mpr (.inl ⟨M, hM, List.mem_cons_self⟩))
  case same =>
    exact fun M hM => hsame _ (Tables.mem_used.mpr (.inl ⟨M, hM, List.mem_cons_self⟩))

/-- **Applying a catalog changes nothing that is stored but for mirrors.**  Of the entries
that are pending some first ones are made, all of them just if the call succeeds, and
what was stored is as it was except for the mirrors that these entries bring. -/
theorem declare_spares (hs : s.Reachable) (d : Declaration) :
    ∃ done rest, d.pending s.tables = done ++ rest ∧
      ((declare d s).1 = .ok () ↔ rest = []) ∧
      Spared d s.tables (declare d s).2.tables done := by
  obtain ⟨done, rest, hpending, hok, hrun⟩ := declare_enters d hs.ready
  refine ⟨done, rest, hpending, hok, hrun.spared hs.ready fun owner f hf => ?_⟩
  exact Declaration.free_of_pending (hpending ▸ List.mem_append_left _ hf)

section Articles

/-- Writers with a name. -/
def writers : Declaration := ⟨some "project", some "press", none, [],
  [⟨"writer", none, none, [.ofKey "name" .text], []⟩]⟩

/-- Articles that refer to a writer, who refers back to an article. -/
def articles : Declaration := ⟨some "project", some "press", none, [],
  [⟨"article", none, none, [{ Declaration.Field.ofKey "writer" .reference with
    model := some "writer", mirror := some ⟨"article", none, none, false⟩ }], []⟩]⟩

/-- A store to which writers have been declared. -/
def staffed : Store := (declare writers (blank .standard ⟨⟨0, 0⟩, 1⟩ ⟨0⟩ .silent)).2

theorem reachable_staffed : staffed.Reachable :=
  (reachable_blank _ _ _ _).evolves (.single (.declare writers))

/-- The writers are stored when articles are declared, and get another field. -/
theorem declare_adds_mirror : ∃ s : Store, s.Reachable ∧ (declare articles s).1 = .ok () ∧
    ∃ M ∈ s.tables.models, M.key = "writer" ∧
      (s.tables.schema? M.schema).map (fun S => S.fields.map Field.key) = some ["name"] ∧
      ((declare articles s).2.tables.schema? M.schema).map (fun S => S.fields.map Field.key) =
        some ["name", "article"] :=
  ⟨staffed, reachable_staffed, by decide +kernel⟩

/-- All of the articles is made, and one of its entries is a mirror for writers. -/
theorem declare_spares_of_articles : ∃ s : Store, s.Reachable ∧ ∃ done,
    articles.pending s.tables = done ∧
    Spared articles s.tables (declare articles s).2.tables done ∧
    ∃ M ∈ s.tables.models, M ∈ (declare articles s).2.tables.models ∧
      landing M.schema (done.filterMap (Entry.mirrorEnd? articles s.tables)) ≠ [] := by
  obtain ⟨done, rest, hpending, hok, hspared⟩ := declare_spares reachable_staffed articles
  obtain rfl := hok.mp (by decide +kernel)
  have hchanged : ∃ M ∈ staffed.tables.models,
      (declare articles staffed).2.tables.schema? M.schema ≠ staffed.tables.schema? M.schema := by
    decide +kernel
  obtain ⟨M, hM, hchanged⟩ := hchanged
  exact ⟨staffed, reachable_staffed, done, hpending.trans (List.append_nil done), hspared, M, hM,
    (hspared.models M hM).1, fun hnil => hchanged ((hspared.same M hM).mpr hnil)⟩

end Articles

end Store

end ContentStore
