import ContentStore.Proofs.Declarations.Runs

/-!
# What a run of entries adds to schemas

An entry of a field adds it to the schema of its owner, and a mirror to the
schema of the model pointed at; both were stored, so that later entries change
nothing about where they went (`Enters.additions_eq`).  So the fields of a schema
after a run are those from before and then, in order, those that the entries
have sent there (`Entered.outlines`).

A schema that is there before the run only gets mirrors, those of new fields
that point at its model, and gets no other title (`Entered.kept`).
-/

namespace ContentStore

open Declaration (Entry Owner)

namespace Tables

variable {n : Nat} {t : Tables}

/-- The fields of a schema, as far as outlines show them; a schema that is not stored has
none. -/
def outlines (t : Tables) (s : SchemaId) : List Outline :=
  ((t.schema? s).map fun S => S.fields.map Field.outline).getD []

theorem outlines_of_mem (hd : (t.schemas.map Schema.id).Nodup) {S : Schema} (hS : S ∈ t.schemas) :
    t.outlines S.id = S.fields.map Field.outline := by
  rw [outlines, schema?, find?_of_nodup hd hS]
  rfl

/-- If it is stored nowhere, or without fields, there is nothing to see. -/
theorem outlines_eq_nil {s : SchemaId} (h : ∀ S ∈ t.schemas, S.id = s → S.fields = []) :
    t.outlines s = [] := by
  unfold outlines
  cases hS : t.schema? s with
  | none => rfl
  | some S =>
    have hid : S.id = s := by simpa using List.find?_some hS
    rw [Option.map_some, h S (List.mem_of_find?_eq_some hS) hid]
    rfl

/-- Making room for a model or a group leaves the schemas as they are. -/
theorem mem_withSchemas_of_mem (hgiven : ∀ S ∈ t.schemas, S.id.Given n) {project : ProjectId}
    {workspace : WorkspaceId} {k : Nat} {S : Schema} (hS : S ∈ t.schemas) :
    S ∈ (t.withSchemas project workspace n k).schemas := by
  induction k generalizing t n with
  | zero => exact hS
  | succ k ih =>
    refine ih (fun R hR => ?_) (mem_saveSchema.mpr (.inr ⟨hS, ?_⟩))
    · rcases mem_saveSchema.mp hR with rfl | ⟨hR, -⟩
      · exact ⟨n, Nat.lt_succ_self n, rfl⟩
      · exact (hgiven R hR).mono (Nat.le_succ n)
    · exact (hgiven S hS).ne_ofSerial (Nat.le_refl n)

end Tables

/-! ## Where additions go -/

namespace Declaration

variable {d : Declaration} {t u : Tables} {es : List Entry}

/-- The other end of a reference is the one that its input asks for. -/
theorem Field.mirrorEnd?_eq {f : Field} (schema : SchemaId) {type : FieldType}
    (htype : Store.TypedAs d t f type)
    (href : f.mirror.isSome = true → ∃ model target mirror, type = .reference model target mirror) :
    f.mirrorEnd? d t = (f.input schema type).mirrorEnd? := by
  cases hmirror : f.mirror with
  | none =>
    have hinput : (f.input schema type).mirror = none := by
      rw [Field.input, hmirror]
      rfl
    rw [Field.mirrorEnd?_of_none d t hmirror, NewField.mirrorEnd?_of_none hinput]
  | some m =>
    obtain ⟨model, target, mirror, rfl⟩ := href (by rw [hmirror]; rfl)
    obtain ⟨key, M, hkey, hM, rfl⟩ := htype.target rfl
    simp [Field.mirrorEnd?, NewField.mirrorEnd?, Field.input, hmirror, hkey, hM]

/-- Once the model pointed at is stored, the other end goes to its schema for good. -/
theorem Field.mirrorEnd?_of_grows {f : Field} {a : SchemaId × Outline} (h : t.Grows d es u)
    (ha : f.mirrorEnd? d t = some a) : f.mirrorEnd? d u = some a := by
  unfold Field.mirrorEnd? at ha ⊢
  obtain ⟨m, hm, ha⟩ := Option.bind_eq_some_iff.mp ha
  obtain ⟨key, hkey, ha⟩ := Option.bind_eq_some_iff.mp ha
  obtain ⟨M, hM, ha⟩ := Option.bind_eq_some_iff.mp ha
  exact Option.bind_eq_some_iff.mpr ⟨m, hm, Option.bind_eq_some_iff.mpr ⟨key, hkey,
    Option.bind_eq_some_iff.mpr ⟨M, h.modelByKey? hM, ha⟩⟩⟩

/-- It goes to the schema of a stored model. -/
theorem Field.model_of_mirrorEnd? {f : Field} {a : SchemaId × Outline}
    (h : f.mirrorEnd? d t = some a) : ∃ M ∈ t.models, M.schema = a.1 := by
  obtain ⟨m, -, h⟩ := Option.bind_eq_some_iff.mp h
  obtain ⟨key, -, h⟩ := Option.bind_eq_some_iff.mp h
  obtain ⟨M, hM, h⟩ := Option.bind_eq_some_iff.mp h
  cases h
  exact ⟨M, List.mem_of_find?_eq_some hM, rfl⟩

end Declaration

theorem landing_flatMap (s : SchemaId) (es : List Entry)
    (f : Entry → List (SchemaId × Outline)) :
    landing s (es.flatMap f) = es.flatMap fun e => landing s (f e) := by
  induction es with
  | nil => rfl
  | cons e es ih => rw [List.flatMap_cons, List.flatMap_cons, landing_append, ih]

/-- Nothing lands where nothing was sent. -/
theorem landing_eq_nil {s : SchemaId} {adds : List (SchemaId × Outline)}
    (h : ∀ a ∈ adds, a.1 ≠ s) : landing s adds = [] := by
  rw [landing, List.filter_eq_nil_iff.mpr, List.map_nil]
  exact fun a ha hsame => h a ha (beq_iff_eq.mp hsame)

namespace Store

variable {d : Declaration} {s t u : Store} {e : Entry} {es : List Entry}

/-! ## One entry -/

/-- What an entry adds, and where, is settled when it is made. -/
theorem Enters.additions_eq (h : Enters d s e t) {v : Tables} (hv : s.tables.Grows d es v) :
    e.additions d v = e.additions d s.tables := by
  cases h with
  | group => rfl
  | model => rfl
  | @field owner f schema type S F t howner htype hS hmay hcreate hsupply =>
    have href : f.mirror.isSome = true →
        ∃ model target mirror, type = .reference model target mirror :=
      fun hsome => Tables.reference_of_createField hcreate (Option.isSome_map.trans hsome)
    have hends : f.mirrorEnd? d v = f.mirrorEnd? d s.tables := by
      cases hmirror : f.mirror with
      | none =>
        rw [Declaration.Field.mirrorEnd?_of_none d v hmirror,
          Declaration.Field.mirrorEnd?_of_none d s.tables hmirror]
      | some m =>
        obtain ⟨model, target, mirror, rfl⟩ := href (by rw [hmirror]; rfl)
        obtain ⟨key, M, hkey, hM, rfl⟩ := htype.target rfl
        simp [Declaration.Field.mirrorEnd?, hmirror, hkey, hM, hv.modelByKey? hM]
    rw [Entry.additions_field, Entry.additions_field, hends, howner, hv.schema? howner]

/-- It goes to stored schemas. -/
theorem Enters.stored (hs : s.Ready) (h : Enters d s e t) :
    ∀ a ∈ e.additions d s.tables, ∃ S ∈ s.tables.schemas, S.id = a.1 := by
  intro a ha
  cases h with
  | group => exact (List.not_mem_nil ha).elim
  | model => exact (List.not_mem_nil ha).elim
  | @field owner f schema type S F t howner htype hS hmay hcreate hsupply =>
    rw [Entry.additions_field, howner] at ha
    rcases List.mem_append.mp ha with hown | hother
    · obtain rfl := Option.some.inj (Option.mem_toList.mp hown)
      exact ⟨S, Tables.mem_of_schema hS⟩
    · obtain ⟨M, hM, hschema⟩ := Declaration.Field.model_of_mirrorEnd? (Option.mem_toList.mp hother)
      rw [← hschema]
      exact hs.sane.wired.used_stored _ (Tables.mem_used.mpr (.inl ⟨M, hM, List.mem_cons_self⟩))

/-- **What one entry does to the schemas that are there.** -/
theorem Enters.extends (hs : s.Ready) (h : Enters d s e t) :
    ∀ R ∈ s.tables.schemas, ∃ R' ∈ t.tables.schemas,
      R.Extended (landing R.id (e.additions d s.tables)) (e.host? d s.tables = some R.id) R' := by
  intro R hR
  cases h with
  | group _ _ _ htables =>
    rw [htables]
    exact ⟨R, Tables.mem_withSchemas_of_mem hs.sane.wired.schemas_given hR,
      (Schema.Extended.refl R).mono False.elim⟩
  | model _ _ _ htables =>
    rw [htables]
    exact ⟨R, Tables.mem_withSchemas_of_mem hs.sane.wired.schemas_given hR,
      (Schema.Extended.refl R).mono False.elim⟩
  | @field owner f schema type S F t howner htype hS hmay hcreate hsupply =>
    obtain ⟨R', hR', hgrown⟩ :=
      Tables.extended_createField hs.sane.wired.schemas_distinct hcreate R hR
    have hends := Declaration.Field.mirrorEnd?_eq schema htype fun hsome =>
      Tables.reference_of_createField hcreate (Option.isSome_map.trans hsome)
    have hlook : (f.input schema type).outline = f.outline := by
      unfold NewField.outline Declaration.Field.input Declaration.Field.outline
      simp [htype.kind]
    have hadds : (Entry.field owner f).additions d s.tables =
        (f.input schema type).additions := by
      rw [Entry.additions_field, howner, hends, NewField.additions, hlook]
      rfl
    refine ⟨R', hR', ?_⟩
    rw [hadds]
    exact hgrown.mono fun heq => howner.trans (congrArg some heq.symm)

/-- Schemas that come with an entry are empty. -/
theorem Enters.back (hs : s.Ready) (h : Enters d s e t) : ∀ R' ∈ t.tables.schemas,
    (∃ R ∈ s.tables.schemas, R.id = R'.id) ∨ R'.fields = [] := by
  intro R' hR'
  cases h with
  | group _ _ _ htables =>
    rw [htables] at hR'
    rcases Tables.mem_withSchemas hR' with hR' | ⟨_, -, rfl⟩
    · exact .inl ⟨R', hR', rfl⟩
    · exact .inr rfl
  | model _ _ _ htables =>
    rw [htables] at hR'
    rcases Tables.mem_withSchemas hR' with hR' | ⟨_, -, rfl⟩
    · exact .inl ⟨R', hR', rfl⟩
    · exact .inr rfl
  | field _ _ _ _ hcreate _ =>
    obtain ⟨honly, -⟩ := Tables.createField_eq_ok hs.sane.wired.schemas_distinct hcreate
    exact .inl ((honly.ids R'.id).mp ⟨R', hR', rfl⟩)

/-- **The fields after one entry**, of any schema. -/
theorem Enters.outlines (hs : s.Ready) (h : Enters d s e t) (id : SchemaId) :
    t.tables.outlines id =
      s.tables.outlines id ++ landing id (e.additions d s.tables) := by
  have ht := (hs.enters h).sane.wired
  by_cases hstored : ∃ R ∈ s.tables.schemas, R.id = id
  · obtain ⟨R, hR, rfl⟩ := hstored
    obtain ⟨R', hR', hgrown⟩ := h.extends hs R hR
    rw [Tables.outlines_of_mem hs.sane.wired.schemas_distinct hR, ← hgrown.id,
      Tables.outlines_of_mem ht.schemas_distinct hR', hgrown.outlines, hgrown.id]
  · have hbefore : s.tables.outlines id = [] :=
      Tables.outlines_eq_nil fun S hS hid => (hstored ⟨S, hS, hid⟩).elim
    have hafter : t.tables.outlines id = [] := by
      refine Tables.outlines_eq_nil fun R' hR' hid => ?_
      exact (h.back hs R' hR').resolve_left fun hex => hstored (hid ▸ hex)
    have hnone : landing id (e.additions d s.tables) = [] := by
      refine landing_eq_nil fun a ha heq => hstored ?_
      rw [← heq]
      exact h.stored hs a ha
    rw [hbefore, hafter, hnone]
    rfl

/-! ## Runs -/

/-- **The fields after a run**: those from before, and then what the entries have added. -/
theorem Entered.outlines (hs : s.Ready) (h : Entered d s es t) (id : SchemaId) :
    t.tables.outlines id =
      s.tables.outlines id ++ landing id (es.flatMap (Entry.additions d t.tables)) := by
  induction h with
  | nil s => exact (List.append_nil _).symm
  | @rest s t u es hrests _ ih =>
    rw [ih (hs.rests hrests), hrests.1]
  | @cons s t u e es henters hrun ih =>
    have hgrows := (Entered.cons henters hrun).grows hs
    rw [ih (hs.enters henters), henters.outlines hs, List.flatMap_cons,
      henters.additions_eq hgrows, landing_append, List.append_assoc]

/-- A schema that is there before the run is there after it, with more fields. -/
theorem Entered.extends (hs : s.Ready) (h : Entered d s es t) :
    ∀ R ∈ s.tables.schemas, ∃ R' ∈ t.tables.schemas,
      R.Extended (landing R.id (es.flatMap (Entry.additions d t.tables)))
        (∃ e ∈ es, e.host? d t.tables = some R.id) R' := by
  induction h with
  | nil s => exact fun R hR => ⟨R, hR, (Schema.Extended.refl R).mono False.elim⟩
  | @rest s t u es hrests _ ih =>
    rw [← hrests.1]
    exact ih (hs.rests hrests)
  | @cons s t u e es henters hrun ih =>
    intro R hR
    have hgrows := (Entered.cons henters hrun).grows hs
    obtain ⟨R₁, hR₁, hfirst⟩ := henters.extends hs R hR
    obtain ⟨R', hR', hrest⟩ := ih (hs.enters henters) R₁ hR₁
    refine ⟨R', hR', ?_⟩
    rw [hfirst.id] at hrest
    rw [List.flatMap_cons, henters.additions_eq hgrows, landing_append]
    refine (hfirst.trans hrest).mono fun hcase => ?_
    rcases hcase with hhost | ⟨e', he', hhost⟩
    · refine ⟨e, List.mem_cons_self, ?_⟩
      cases e with
      | field owner f => exact hgrows.schema? hhost
      | _ => cases hhost
    · exact ⟨e', List.mem_cons_of_mem _ he', hhost⟩

end Store

end ContentStore
