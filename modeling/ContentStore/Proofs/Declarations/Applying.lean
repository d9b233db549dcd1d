import ContentStore.Proofs.Declarations.Runs

/-!
# Applying a catalog is a run of its entries

An operation that makes some entries makes them in their order.  It succeeds once
it has made the last of them; if it fails, it has made a few of the first and not
all (`Store.Makes`).  Of operations one after the other, each makes its part
(`Store.makes_bind`), and so applying a catalog makes all the entries that are
pending (`Store.makes_declare`).
-/

namespace ContentStore.Store

open Declaration (Entry Owner)

variable {α β : Type} {d : Declaration} {s t : Store} {es es' : List Entry}
  {Q : α → Store → Prop} {Q' : β → Store → Prop}

/-! ## Operations that make entries -/

/-- Called on `s` the operation makes all the entries and succeeds as `Q` says, or it
fails before the last of them. -/
def Makes (d : Declaration) (op : Operation α) (s : Store) (es : List Entry)
    (Q : α → Store → Prop) : Prop :=
  (∃ a, (op s).1 = .ok a ∧ Entered d s es (op s).2 ∧ Q a (op s).2) ∨
    (∃ e, (op s).1 = .error e) ∧
      ∃ done rest, es = done ++ rest ∧ rest ≠ [] ∧ Entered d s done (op s).2

/-- A result makes no entry. -/
theorem makes_pure {a : α} (h : Q a s) : Makes d (pure a) s [] Q := .inl ⟨a, rfl, .nil s, h⟩

/-- Two operations make the entries of the first and then those of the second. -/
theorem makes_bind {op : Operation α} {f : α → Operation β} (hop : Makes d op s es Q)
    (hf : ∀ a t, Entered d s es t → Q a t → Makes d (f a) t es' Q') :
    Makes d (op >>= f) s (es ++ es') Q' := by
  unfold Makes at hop ⊢
  rw [run_bind]
  rcases hr : op s with ⟨e | a, t⟩
  · rw [hr] at hop
    rcases hop with ⟨a, ha, -⟩ | ⟨-, done, rest, rfl, hrest, hdone⟩
    · cases ha
    · refine .inr ⟨⟨e, rfl⟩, done, rest ++ es', List.append_assoc .., ?_, hdone⟩
      exact fun hnil => hrest (List.append_eq_nil_iff.mp hnil).1
  · rw [hr] at hop
    rcases hop with ⟨b, hb, hes, hQ⟩ | ⟨⟨e, he⟩, -⟩
    · cases hb
      rcases hf a t hes hQ with ⟨b, hb, hes', hQ'⟩ | ⟨hfail, done, rest, rfl, hrest, hdone⟩
      · exact .inl ⟨b, hb, hes.trans hes', hQ'⟩
      · exact .inr ⟨hfail, es ++ done, rest, (List.append_assoc ..).symm, hrest,
          hes.trans hdone⟩
    · cases he

/-- An operation that has nothing to do gives way to the next. -/
theorem makes_of_run {op : Operation α} {f : α → Operation β} {a : α} (hop : op s = (.ok a, s))
    (h : Makes d (f a) s es Q') : Makes d (op >>= f) s es Q' := by
  unfold Makes
  rw [run_bind, hop]
  exact h

/-- Looking at the store makes no entry. -/
theorem makes_get_bind {f : Store → Operation α} (h : Makes d (f s) s es Q) :
    Makes d (get >>= f) s es Q := h

/-- A call that makes one entry or leaves the tables alone. -/
theorem makes_of_reaches {op : Operation α} {e : Entry} (h : Reaches op s Q)
    (hQ : ∀ a t, Q a t → Entered d s [e] t) : Makes d op s [e] Q := by
  rcases h with ⟨a, ha, h⟩ | ⟨hfail, h⟩
  · exact .inl ⟨a, ha, hQ a _ h, h⟩
  · exact .inr ⟨hfail, [], [e], rfl, List.cons_ne_nil _ _, .of_rests h⟩

/-- What follows after the entries have been made holds when they have. -/
theorem Makes.mono {Q'' : α → Store → Prop} {op : Operation α} (h : Makes d op s es Q)
    (hQ : ∀ a t, Entered d s es t → Q a t → Q'' a t) : Makes d op s es Q'' := by
  rcases h with ⟨a, ha, hes, h⟩ | h
  · exact .inl ⟨a, ha, hes, hQ a _ hes h⟩
  · exact .inr h

/-! ## Declared types -/

/-- A store that rests twice rests. -/
theorem Rests.trans {u : Store} (h : s.Rests t) (h' : t.Rests u) : s.Rests u :=
  ⟨h'.1.trans h.1, Nat.le_trans h.2 h'.2⟩

/-- A result leaves the store as it is. -/
theorem reaches_pure {a : α} (h : Q a s) : Reaches (pure a) s Q := .inl ⟨a, rfl, h⟩

/-- So does an error. -/
theorem reaches_throw (e : Error) : Reaches (throw e : Operation α) s Q :=
  .inr ⟨⟨e, rfl⟩, .refl s⟩

/-- Of calls one after the other, either all succeed or the tables are left alone. -/
theorem reaches_bind {op : Operation α} {f : α → Operation β}
    (h : Reaches op s fun a t => (∃ b, (f a t).1 = .ok b ∧ Q' b (f a t).2) ∨
      (∃ e, (f a t).1 = .error e) ∧ s.Rests (f a t).2) : Reaches (op >>= f) s Q' := by
  unfold Reaches at h ⊢
  rw [run_bind]
  rcases hr : op s with ⟨e | a, t⟩
  · rw [hr] at h
    rcases h with ⟨_, hok, -⟩ | ⟨-, hrests⟩
    · cases hok
    · exact .inr ⟨⟨e, rfl⟩, hrests⟩
  · rw [hr] at h
    rcases h with ⟨_, hok, hnext⟩ | ⟨⟨_, herror⟩, -⟩
    · cases hok
      exact hnext
    · cases herror

/-- What leaves the tables alone may come before. -/
theorem reaches_rests_bind {op : Operation α} {f : α → Operation β}
    (h : Reaches op s fun a t => s.Rests t ∧ Reaches (f a) t Q') : Reaches (op >>= f) s Q' := by
  refine reaches_bind (h.mono fun a t hnext => ?_)
  obtain ⟨hrests, hok | ⟨hfail, hrests'⟩⟩ := hnext
  · exact .inl hok
  · exact .inr ⟨hfail, hrests.trans hrests'⟩

/-- The result of a call may be dropped. -/
theorem reaches_discard {op : Operation α} {P : Store → Prop} (h : Reaches op s fun _ t => P t) :
    Reaches (op >>= fun _ => pure ()) s fun _ t => P t :=
  reaches_bind (h.mono fun _ _ hP => .inl ⟨(), rfl, hP⟩)

/-- Tags take serial numbers and nothing else. -/
theorem reaches_declaredTags (names : List String) (s : Store) :
    Reaches (names.mapM declaredTag) s fun _ t => s.Rests t := by
  induction names generalizing s with
  | nil =>
    rw [List.mapM_nil]
    exact reaches_pure (.refl s)
  | cons name names ih =>
    rw [List.mapM_cons]
    have hone : s.Rests (declaredTag name s).2 := ⟨rfl, Nat.le_succ _⟩
    refine reaches_rests_bind (.inl ⟨_, rfl, hone, reaches_rests_bind ?_⟩)
    exact (ih _).mono fun tags t ht => ⟨ht, reaches_pure (hone.trans ht)⟩

/-- **The type of a declared field** is settled without a write. -/
theorem reaches_declaredType (d : Declaration) (f : Declaration.Field) (s : Store) :
    Reaches (declaredType d.projectId f) s fun type t =>
      s.Rests t ∧ TypedAs d s.tables f type := by
  have hplain : ∀ type : FieldType, type.kind = f.kind → f.kind ≠ .reference →
      TypedAs d s.tables f type := by
    intro type hkind hne
    refine ⟨hkind, fun htype => (hne ?_).elim⟩
    rw [← hkind, htype]
    rfl
  unfold declaredType
  cases hkind : f.kind with
  | tag =>
    refine reaches_rests_bind ((reaches_declaredTags f.tags s).mono fun tags t ht => ⟨ht, ?_⟩)
    exact reaches_pure ⟨ht, hplain _ hkind.symm (by rw [hkind]; decide)⟩
  | reference =>
    dsimp only
    split
    · rename_i key hkey
      refine reaches_get_bind (reaches_lift_bind fun M hM => reaches_pure ⟨.refl s, ?_⟩)
      refine ⟨hkind.symm, fun htype => ?_⟩
      cases htype
      unfold modelByKey at hM
      split at hM
      · rename_i M' hM'
        cases hM
        exact ⟨key, M, hkey, hM', rfl⟩
      · cases hM
    · exact reaches_throw _
  | group =>
    dsimp only
    split
    · refine reaches_get_bind (reaches_lift_bind fun G _ => reaches_pure ⟨.refl s, ?_⟩)
      exact hplain _ hkind.symm (by rw [hkind]; decide)
    · exact reaches_throw _
  | _ => exact reaches_pure ⟨.refl s, hplain _ hkind.symm (by rw [hkind]; decide)⟩

/-! ## Declared fields, groups and models -/

/-- **A declared field is one entry.** -/
theorem makes_declareField {owner : Owner} {schema : SchemaId}
    (howner : owner.schema? d s.tables = some schema) (f : Declaration.Field) :
    Makes d (declareField d schema f) s [.field owner f] fun _ _ => True := by
  have hreaches : Reaches (declareField d schema f) s fun _ t =>
      ∃ u, s.Rests u ∧ Enters d u (.field owner f) t := by
    refine reaches_rests_bind ((reaches_declaredType d f s).mono fun type u hu => ?_)
    obtain ⟨hrests, htype⟩ := hu
    refine ⟨hrests, reaches_discard ((reaches_newField (f.input schema type)).mono ?_)⟩
    intro F t hnew
    obtain ⟨S, hS, hmay, hcreate, hsupply⟩ := hnew
    rw [← hrests.1] at howner htype
    exact ⟨u, hrests, .field howner htype hS hmay hcreate hsupply⟩
  refine (makes_of_reaches hreaches fun _ t ht => ?_).mono fun _ _ _ _ => trivial
  obtain ⟨u, hrests, henters⟩ := ht
  exact .rest hrests henters.entered

/-- Fields of one owner, one after the other. -/
theorem makes_declaredFields {owner : Owner} {schema : SchemaId} (fs : List Declaration.Field)
    (hs : s.Ready) (howner : owner.schema? d s.tables = some schema) :
    Makes d (fs.forM (declareField d schema)) s (fs.map (.field owner)) fun _ _ => True := by
  induction fs generalizing s with
  | nil => exact makes_pure trivial
  | cons f fs ih =>
    show Makes d (declareField d schema f >>= fun _ => fs.forM (declareField d schema)) s
      ([Entry.field owner f] ++ fs.map (.field owner)) _
    refine makes_bind (makes_declareField howner f) fun _ t hone _ => ?_
    exact ih (hs.entered hone) ((hone.grows hs).schema? howner)

/-- A group whose key is taken is passed over. -/
theorem declareGroup_of_taken {g : Declaration.Group}
    (h : (s.tables.groupByKey? d.projectId g.key).isSome = true) :
    declareGroup d g s = (.ok (), s) := by
  show (if (s.tables.groupByKey? d.projectId g.key).isSome = true then pure ()
    else _ : Operation Unit) s = _
  rw [if_pos h]
  rfl

/-- A declared group whose key is free is made, with its fields. -/
theorem makes_declareGroup {g : Declaration.Group} (hs : s.Ready)
    (h : (s.tables.groupByKey? d.projectId g.key).isSome = false) :
    Makes d (declareGroup d g) s g.entries fun _ _ => True := by
  have hfree := Option.not_isSome_iff_eq_none.mp (Bool.eq_false_iff.mp h)
  refine makes_get_bind ?_
  rw [if_neg (Bool.eq_false_iff.mp h)]
  show Makes d _ s ([Entry.group g] ++ g.fields.map (.field (.group g.key))) _
  refine makes_bind (makes_of_reaches (reaches_newGroup (d.newGroup g)) ?_) ?_
  · intro G t hnew
    obtain ⟨-, hvalid, -, hsupply, htables, rfl⟩ := hnew
    exact (Enters.group hvalid hfree hsupply htables).entered
  · intro G t hone hnew
    obtain ⟨-, -, -, -, htables, rfl⟩ := hnew
    refine makes_declaredFields g.fields (hs.entered hone) ?_
    refine Option.map_eq_some_iff.mpr ⟨(d.newGroup g).made s.supply.next, ?_, rfl⟩
    have hgroups := @Tables.Nested.groups_made _ _ hs.nested (d.newGroup g) hfree
    unfold Tables.groupByKey? at hfree ⊢
    rw [htables, hgroups, List.find?_append, hfree]
    simp [NewGroup.made, Declaration.newGroup]

/-- A model whose key is taken is passed over. -/
theorem declareModel_of_taken {m : Declaration.Model}
    (h : (s.tables.modelByKey? d.projectId m.key).isSome = true) :
    declareModel d m s = (.ok none, s) := by
  show (if (s.tables.modelByKey? d.projectId m.key).isSome = true then pure none
    else _ : Operation (Option (Model × Declaration.Model))) s = _
  rw [if_pos h]
  rfl

/-- The model is stored under the key declared, with a schema for metadata if there are
metadata fields. -/
def Stands (d : Declaration) (t : Tables) (p : Model × Declaration.Model) : Prop :=
  t.modelByKey? d.projectId p.2.key = some p.1 ∧
    (p.1.metadataSchema = none → p.2.metadata = [])

/-- A model that stands is not moved by further entries. -/
theorem Stands.entered {p : Model × Declaration.Model} (h : Stands d s.tables p) (hs : s.Ready)
    (hes : Entered d s es t) : Stands d t.tables p :=
  ⟨(hes.grows hs).modelByKey? h.1, h.2⟩

/-- A declared model whose key is free is made, and stands then. -/
theorem makes_declareModel {m : Declaration.Model} (hs : s.Ready)
    (h : (s.tables.modelByKey? d.projectId m.key).isSome = false) :
    Makes d (declareModel d m) s [.model m] fun created t =>
      ∃ M, created = some (M, m) ∧ Stands d t.tables (M, m) := by
  have hfree := Option.not_isSome_iff_eq_none.mp (Bool.eq_false_iff.mp h)
  refine makes_get_bind ?_
  rw [if_neg (Bool.eq_false_iff.mp h)]
  show Makes d _ s ([Entry.model m] ++ []) _
  refine makes_bind (makes_of_reaches (reaches_newModel (d.newModel m)) ?_) ?_
  · intro M t hnew
    obtain ⟨-, hvalid, -, hsupply, htables, rfl⟩ := hnew
    exact (Enters.model hvalid hfree hsupply htables).entered
  · intro M t hone hnew
    obtain ⟨-, -, -, -, htables, rfl⟩ := hnew
    refine makes_pure ⟨_, rfl, ?_, fun hnone => ?_⟩
    · have hmodels := @Tables.models_made _ _ hs.sane.wired (d.newModel m) hfree
      unfold Tables.modelByKey? at hfree ⊢
      rw [htables, hmodels, List.find?_append, hfree]
      simp [NewModel.made, Declaration.newModel]
    · by_contra hsome
      simp [NewModel.made, Declaration.newModel, hsome] at hnone

/-! ## Whole declarations -/

/-- Fields make no owner. -/
theorem opens_fields (owner owner' : Owner) (fs : List Declaration.Field) :
    (fs.map (Entry.field owner)).any (Entry.opens owner') = false := by
  rw [List.any_map, List.any_eq_false]
  intro f _
  cases owner' <;> simp [Entry.opens]

/-- Groups and their fields make no model. -/
theorem opens_groups (key : String) (gs : List Declaration.Group) :
    (gs.flatMap Declaration.Group.entries).any (Entry.opens (.model key)) = false := by
  rw [List.any_flatMap, List.any_eq_false]
  intro g _
  rw [Declaration.Group.entries, List.any_cons, opens_fields]
  simp [Entry.opens]

/-- **The declared groups**, those that are not passed over. -/
theorem makes_declaredGroups (gs : List Declaration.Group) (hs : s.Ready) :
    Makes d (gs.forM (declareGroup d)) s
      ((firsts Declaration.Group.key (fun k => (s.tables.groupByKey? d.projectId k).isSome)
        gs).flatMap Declaration.Group.entries) fun _ _ => True := by
  induction gs generalizing s with
  | nil => exact makes_pure trivial
  | cons g gs ih =>
    show Makes d (declareGroup d g >>= fun _ => gs.forM (declareGroup d)) s _ _
    unfold firsts
    split
    · rename_i htaken
      exact makes_of_run (declareGroup_of_taken htaken) (ih hs)
    · rename_i hfree
      rw [List.flatMap_cons]
      refine makes_bind (makes_declareGroup hs (Bool.eq_false_iff.mpr hfree)) fun _ t hone _ => ?_
      -- from now on the key of the group is taken, too
      have htaken : (fun k => (s.tables.groupByKey? d.projectId k).isSome || g.key == k) =
          fun k => (t.tables.groupByKey? d.projectId k).isSome := by
        funext k
        refine Eq.trans ?_ ((hone.grows hs).taken (.group k)).symm
        rw [Declaration.Group.entries, List.any_cons, opens_fields, Bool.or_false]
        rfl
      rw [htaken]
      exact ih (hs.entered hone)

/-- **The declared models**, without their fields. -/
theorem makes_declaredModels (ms : List Declaration.Model) (hs : s.Ready) :
    Makes d (ms.mapM (declareModel d)) s
      ((firsts Declaration.Model.key (fun k => (s.tables.modelByKey? d.projectId k).isSome)
        ms).map .model) fun created t =>
      (created.filterMap id).map Prod.snd = firsts Declaration.Model.key
          (fun k => (s.tables.modelByKey? d.projectId k).isSome) ms ∧
        ∀ p ∈ created.filterMap id, Stands d t.tables p := by
  induction ms generalizing s with
  | nil =>
    rw [List.mapM_nil]
    exact makes_pure ⟨rfl, fun _ h => (List.not_mem_nil h).elim⟩
  | cons m ms ih =>
    rw [List.mapM_cons]
    unfold firsts
    split
    · rename_i htaken
      refine makes_of_run (declareModel_of_taken htaken) ?_
      rw [← List.append_nil (List.map _ _)]
      exact makes_bind (ih hs) fun created t _ hrest => makes_pure hrest
    · rename_i hfree
      show Makes d _ s ([Entry.model m] ++ List.map .model _) _
      refine makes_bind (makes_declareModel hs (Bool.eq_false_iff.mpr hfree))
        fun created t hone hcreated => ?_
      obtain ⟨M, rfl, hM⟩ := hcreated
      have htaken : (fun k => (s.tables.modelByKey? d.projectId k).isSome || m.key == k) =
          fun k => (t.tables.modelByKey? d.projectId k).isSome := by
        funext k
        refine Eq.trans ?_ ((hone.grows hs).taken (.model k)).symm
        rw [List.any_cons, List.any_nil, Bool.or_false]
        rfl
      rw [htaken, ← List.append_nil (List.map _ _)]
      refine makes_bind (ih (hs.entered hone)) fun rest u hrun hrest => makes_pure ?_
      refine ⟨congrArg (m :: ·) hrest.1, fun p hp => ?_⟩
      rcases List.mem_cons.mp hp with rfl | hp
      · exact hM.entered (hs.entered hone) hrun
      · exact hrest.2 p hp

/-- The fields of a model that stands are made one by one. -/
theorem makes_declareFields {p : Model × Declaration.Model} (hs : s.Ready)
    (hp : Stands d s.tables p) :
    Makes d (declareFields d p) s p.2.entries fun _ _ => True := by
  obtain ⟨hM, hmetadata⟩ := hp
  have hmodel : (Owner.model p.2.key).schema? d s.tables = some p.1.schema :=
    Option.map_eq_some_iff.mpr ⟨p.1, hM, rfl⟩
  refine makes_bind (makes_declaredFields p.2.fields hs hmodel) fun _ t hone _ => ?_
  cases hschema : p.1.metadataSchema with
  | none =>
    rw [hmetadata hschema]
    exact makes_pure trivial
  | some schema =>
    refine makes_declaredFields p.2.metadata (hs.entered hone) ?_
    exact Option.bind_eq_some_iff.mpr ⟨p.1, (hone.grows hs).modelByKey? hM, hschema⟩

/-- The fields of models that are stored. -/
theorem makes_fieldsOfModels (ps : List (Model × Declaration.Model)) (hs : s.Ready)
    (hps : ∀ p ∈ ps, Stands d s.tables p) :
    Makes d (ps.forM (declareFields d)) s
      ((ps.map Prod.snd).flatMap Declaration.Model.entries) fun _ _ => True := by
  induction ps generalizing s with
  | nil => exact makes_pure trivial
  | cons p ps ih =>
    show Makes d (declareFields d p >>= fun _ => ps.forM (declareFields d)) s
      (p.2.entries ++ (ps.map Prod.snd).flatMap Declaration.Model.entries) _
    refine makes_bind (makes_declareFields hs (hps p List.mem_cons_self)) fun _ t hone _ => ?_
    exact ih (hs.entered hone) fun q hq =>
      (hps q (List.mem_cons_of_mem _ hq)).entered hs hone

/-- **Applying a catalog makes all that is pending**, or fails on the way. -/
theorem makes_declare (d : Declaration) (hs : s.Ready) :
    Makes d (declare d) s (d.pending s.tables) fun _ _ => True := by
  refine makes_bind (makes_declaredGroups d.groups hs) fun _ t hgroups _ => ?_
  have hkeys : (fun k => (s.tables.modelByKey? d.projectId k).isSome) =
      fun k => (t.tables.modelByKey? d.projectId k).isSome := by
    funext k
    refine Eq.trans ?_ ((hgroups.grows hs).taken (.model k)).symm
    rw [opens_groups, Bool.or_false]
    rfl
  unfold Declaration.newModels
  rw [hkeys]
  have ht := hs.entered hgroups
  refine makes_bind (makes_declaredModels d.models ht) fun created u hmodels hcreated => ?_
  rw [← hcreated.1]
  exact makes_fieldsOfModels _ (ht.entered hmodels) hcreated.2

/-- The entries that were made, and those that were not: none just if the call succeeds. -/
theorem declare_enters (d : Declaration) (hs : s.Ready) : ∃ done rest,
    d.pending s.tables = done ++ rest ∧ ((declare d s).1 = .ok () ↔ rest = []) ∧
      Entered d s done (declare d s).2 := by
  rcases makes_declare d hs with
    ⟨_, hok, hrun, -⟩ | ⟨⟨e, he⟩, done, rest, hpending, hrest, hrun⟩
  · exact ⟨_, [], (List.append_nil _).symm, ⟨fun _ => rfl, fun _ => hok⟩, hrun⟩
  · refine ⟨done, rest, hpending, ⟨fun hok => ?_, fun hnil => (hrest hnil).elim⟩, hrun⟩
    rw [he] at hok
    cases hok

/-! ## Nothing left to do -/

/-- Steps that change nothing change nothing together. -/
theorem forM_of_still {f : α → Operation PUnit} {xs : List α}
    (h : ∀ x ∈ xs, f x s = (.ok ⟨⟩, s)) : xs.forM f s = (.ok ⟨⟩, s) := by
  induction xs with
  | nil => rfl
  | cons x xs ih =>
    show (f x >>= fun _ => xs.forM f) s = _
    rw [run_bind, h x List.mem_cons_self]
    exact ih fun y hy => h y (List.mem_cons_of_mem _ hy)

/-- A traversal whose steps leave the store alone leaves it alone. -/
theorem mapM_of_still {f : α → Operation β} {b : β} {xs : List α}
    (h : ∀ x ∈ xs, f x s = (.ok b, s)) : xs.mapM f s = (.ok (xs.map fun _ => b), s) := by
  induction xs with
  | nil => rfl
  | cons x xs ih =>
    rw [List.mapM_cons, run_bind, h x List.mem_cons_self]
    dsimp only
    rw [run_bind, ih fun y hy => h y (List.mem_cons_of_mem _ hy)]
    rfl

/-- **A catalog whose keys are all taken is applied by doing nothing.** -/
theorem declare_of_taken
    (hgroups : ∀ g ∈ d.groups, (s.tables.groupByKey? d.projectId g.key).isSome = true)
    (hmodels : ∀ m ∈ d.models, (s.tables.modelByKey? d.projectId m.key).isSome = true) :
    declare d s = (.ok (), s) := by
  have hnone : (d.models.map fun _ => (none : Option (Model × Declaration.Model))).filterMap id =
      [] := by
    rw [List.filterMap_map]
    exact List.filterMap_eq_nil_iff.mpr fun _ _ => rfl
  unfold declare
  rw [run_bind, forM_of_still fun g hg => declareGroup_of_taken (hgroups g hg)]
  dsimp only
  rw [run_bind, mapM_of_still fun m hm => declareModel_of_taken (hmodels m hm)]
  dsimp only
  rw [hnone]
  rfl

end ContentStore.Store
