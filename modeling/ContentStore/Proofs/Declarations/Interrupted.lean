import ContentStore.Proofs.Declarations.Additions
import ContentStore.Proofs.Declarations.Applying

/-!
# How far a catalog gets

Applying a catalog that fails leaves behind all that was made before the failure.
Nothing has changed only if the very first of the pending entries has failed, and
a group or a model that was made before one of its fields has failed keeps its
key: whatever is declared afterwards, it is passed over and the rest of its
fields never follows (`Store.declare_reaches`, `Store.declare_left_behind`).
-/

namespace ContentStore

open Declaration (Entry Owner)

namespace Store

variable {d : Declaration} {s t : Store} {e : Entry} {es : List Entry}

/-- The owner of a field that was made is found by its key. -/
theorem Entered.owned (hs : s.Ready) (h : Entered d s es t) {owner : Owner}
    {f : Declaration.Field} (hf : .field owner f ∈ es) :
    ∃ schema, owner.schema? d t.tables = some schema := by
  induction h with
  | nil s => exact (List.not_mem_nil hf).elim
  | rest hrests _ ih => exact ih (hs.rests hrests) hf
  | cons henters hrun ih =>
    have hgrows := (Entered.cons henters hrun).grows hs
    rcases List.mem_cons.mp hf with rfl | hf
    · cases henters with
      | field howner => exact ⟨_, hgrows.schema? howner⟩
    · exact ih (hs.enters henters) hf

/-- A run without entries leaves the tables alone. -/
theorem Entered.rests_of_nil (h : Entered d s es t) (hes : es = []) : s.Rests t := by
  induction h with
  | nil s => exact .refl s
  | rest hrests _ ih => exact hrests.trans (ih hes)
  | cons => cases hes

/-- What has come of a catalog when the entries `done` have been made. -/
structure Reached (d : Declaration) (s t : Tables) (done : List Entry) : Prop where
  /-- The catalog of the store is as before just if none has been made. -/
  unchanged : t.schemas = s.schemas ∧ t.models = s.models ∧ t.groups = s.groups ↔ done = []
  groups : t.groups.map Group.heading =
    s.groups.map Group.heading ++ done.filterMap (Entry.group? d)
  models : t.models.map Model.heading =
    s.models.map Model.heading ++ done.filterMap (Entry.model? d)
  /-- Each schema has the fields that it had, and then those of the entries. -/
  fields : ∀ id, t.outlines id = s.outlines id ++ landing id (done.flatMap (Entry.additions d t))
  /-- Each declared field that was made is a field of its owner. -/
  made : ∀ owner f, .field owner f ∈ done →
    ∃ schema, owner.schema? d t = some schema ∧ f.outline ∈ t.outlines schema
  taken : ∀ owner : Owner, owner.taken d t = (owner.taken d s || done.any (Entry.opens owner))
  /-- An owner that was made gets no declared field from any later declaration. -/
  passed : ∀ d' : Declaration, d'.projectId = d.projectId → ∀ owner f,
    .field owner f ∈ d'.pending t → done.any (Entry.opens owner) = false

theorem Entered.reached (hs : s.Ready) (h : Entered d s es t) {rest : List Entry}
    (hpending : d.pending s.tables = es ++ rest) : Reached d s.tables t.tables es := by
  have hgrows := h.grows hs
  have hgroups := hgrows.groups.map_heading
  have hmodels := hgrows.models.map_heading
  refine ⟨⟨fun hsame => ?_, fun hnil => ?_⟩, hgroups, hmodels, h.outlines hs,
    fun owner f hf => ?_, hgrows.taken, fun d' hproject owner f hf => ?_⟩
  · -- the first entry would have left a row
    rw [hsame.2.2, List.self_eq_append_right, List.filterMap_eq_nil_iff] at hgroups
    rw [hsame.2.1, List.self_eq_append_right, List.filterMap_eq_nil_iff] at hmodels
    cases es with
    | nil => rfl
    | cons e es =>
      rcases Declaration.opens_of_pending hpending with hgroup | hmodel
      · rw [hgroups e List.mem_cons_self] at hgroup
        cases hgroup
      · rw [hmodels e List.mem_cons_self] at hmodel
        cases hmodel
  · rw [(h.rests_of_nil hnil).1]
    exact ⟨rfl, rfl, rfl⟩
  · obtain ⟨schema, howner⟩ := h.owned hs hf
    refine ⟨schema, howner, ?_⟩
    rw [h.outlines hs, landing]
    refine List.mem_append_right _ (List.mem_map.mpr ⟨(schema, f.outline), ?_, rfl⟩)
    refine List.mem_filter.mpr ⟨List.mem_flatMap.mpr ⟨_, hf, ?_⟩, beq_self_eq_true schema⟩
    rw [Entry.additions_field, howner]
    exact List.mem_append_left _ List.mem_cons_self
  · have hfree := Declaration.free_of_pending hf
    have hkeys : owner.taken d' t.tables = owner.taken d t.tables := by
      cases owner <;> simp only [Declaration.Owner.taken, hproject]
    rw [hkeys, hgrows.taken, Bool.or_eq_false_iff] at hfree
    exact hfree.2

/-- **A catalog is applied as far as it goes.**  Of the entries that are pending some
first ones are made, all of them just if the call succeeds; those that were made
stay made, and nothing else is done. -/
theorem declare_reaches (hs : s.Reachable) (d : Declaration) :
    ∃ done rest, d.pending s.tables = done ++ rest ∧
      ((declare d s).1 = .ok () ↔ rest = []) ∧
      Reached d s.tables (declare d s).2.tables done := by
  obtain ⟨done, rest, hpending, hok, hrun⟩ := declare_enters d hs.ready
  exact ⟨done, rest, hpending, hok, hrun.reached hs.ready hpending⟩

section Draft

/-- Posts with a title and an author, who is declared nowhere. -/
def draft : Declaration := ⟨some "project", some "press", none, [],
  [⟨"post", none, none, [.ofKey "title" .text,
    { Declaration.Field.ofKey "author" .reference with model := some "author" }], []⟩]⟩

/-- The same with authors. -/
def corrected : Declaration :=
  { draft with models := draft.models ++ [⟨"author", none, none, [], []⟩] }

/-- The draft fails at the author of posts, and posts stay behind with their title.  The
corrected catalog succeeds, but its posts have no author. -/
theorem declare_left_behind : ∃ s : Store, s.Reachable ∧ s.tables.models = [] ∧
    (declare draft s).1 = .error (.notFound .model "author") ∧
    (declare draft s).2.tables.models.map Model.key = ["post"] ∧
    (declare corrected (declare draft s).2).1 = .ok () ∧
    (declare corrected (declare draft s).2).2.tables.models.map Model.key = ["post", "author"] ∧
    (declare corrected (declare draft s).2).2.tables.schemas.map
      (fun S => S.fields.map Field.key) = [["title"], []] := by
  refine ⟨blank .standard ⟨⟨0, 0⟩, 1⟩ ⟨0⟩ .silent, reachable_blank _ _ _ _, rfl, ?_⟩
  decide +kernel

/-- Of the draft something is made and something is not. -/
theorem declare_reaches_of_draft : ∃ s : Store, s.Reachable ∧ ∃ done rest,
    draft.pending s.tables = done ++ rest ∧ done ≠ [] ∧ rest ≠ [] ∧
    Reached draft s.tables (declare draft s).2.tables done := by
  have hs := reachable_blank .standard ⟨⟨0, 0⟩, 1⟩ ⟨0⟩ .silent
  have hfails : (declare draft (blank .standard ⟨⟨0, 0⟩, 1⟩ ⟨0⟩ .silent)).1 ≠ .ok () := by
    decide +kernel
  have hleaves :
      (declare draft (blank .standard ⟨⟨0, 0⟩, 1⟩ ⟨0⟩ .silent)).2.tables.models ≠ [] := by
    decide +kernel
  obtain ⟨done, rest, hpending, hok, hreached⟩ := declare_reaches hs draft
  refine ⟨_, hs, done, rest, hpending, fun hnil => hleaves ?_, fun hnil => hfails (hok.mpr hnil),
    hreached⟩
  exact (hreached.unchanged.mpr hnil).2.1

end Draft

end Store

end ContentStore
