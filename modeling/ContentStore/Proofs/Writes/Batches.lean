import ContentStore.Proofs.Catalog.Batches
import ContentStore.Proofs.Writes.Reshaping

/-!
# A batch of changes

Several fields of a schema are changed by one call, or by one call for each of them
(`Store.updateEach`).  A call that changes fields comes to tables or to an error
(`Store.outcome`): it asks who may change the schema, looks twice whether it is given up,
and for the rest does what the changes do (`Store.outcome_updateFields`).  Single calls
look more often, and a batch goes through that is given up later on.  But if none of the
single calls is given up, then the batch is not either, and all of them come to the same
(`Store.outcome_updateFields_eq`).
-/

namespace ContentStore

/-- A step either changes the tables alone or nothing. -/
theorem Write.run_step {α : Type} (f : Tables → Except Error (Tables × α)) (w : Work) :
    Write.step f w = match f w.tables with
      | .error e => (.error e, w)
      | .ok (t, a) => (.ok a, { w with tables := t }) := by
  change (liftM (f w.tables) >>= fun r =>
    Write.change (fun _ => r.1) >>= fun _ => pure r.2 : Write α) w = _
  cases f w.tables <;> rfl

/-- There is one field for every change. -/
theorem Tables.length_of_updateFields {t u : Tables} {id : SchemaId} {edits : List FieldEdit}
    {fields : List Field} (h : t.updateFields id edits = .ok (u, fields)) :
    fields.length = edits.length := by
  obtain ⟨s, -, h⟩ := bind_eq_ok.mp h
  obtain ⟨r, -, h⟩ := bind_eq_ok.mp h
  obtain ⟨fields', hfields, h⟩ := bind_eq_ok.mp h
  cases h
  rw [← (forall₂_of_mapM hfields).length_eq, List.length_map]

namespace Store

open Tables

variable {α : Type} {ctx : Context} {id : SchemaId} {s : Store} {e : FieldEdit}
  {edits : List FieldEdit}

/-- What a call comes to: the tables it leaves behind, or why it fails. -/
def outcome (r : Except Error α × Store) : Except Error Tables := r.1.map fun _ => r.2.tables

/-- A write comes to what its body does, unless it is given up. -/
theorem outcome_transact {body : Write α} (hg : Grows body) :
    outcome (transact ctx body s) = ctx.ensureActive s.progress >>= fun _ =>
      match body s.polled.opened with
      | (.error x, _) => .error x
      | (.ok _, w) => (ctx.ensureActive w.progress).map fun _ => w.tables := by
  rw [transact_eq hg]
  cases ctx.ensureActive s.progress with
  | error x => rfl
  | ok _ =>
    dsimp only
    rcases body s.polled.opened with ⟨x | a, w⟩
    · rfl
    · dsimp only
      cases ctx.ensureActive w.progress <;> rfl

theorem outcome_eq_ok {r : Except Error α × Store} {t : Tables} :
    outcome r = .ok t ↔ ∃ a, r.1 = .ok a ∧ r.2.tables = t := map_eq_ok

theorem outcome_eq_error {r : Except Error α × Store} {x : Error} :
    outcome r = .error x ↔ r.1 = .error x := by
  unfold outcome
  cases r.1 <;> simp [Except.map]

/-- A change of the tables fails because it may not be made, for its own reasons, or because
it is given up, before or after. -/
theorem outcome_maintaining (f : Tables → Except Error (Tables × α)) :
    outcome (maintaining ctx id (Write.step f) s) = (do
      let S ← s.tables.schema id
      ctx.operator.checkMaintain S.workspace
      ctx.ensureActive s.progress
      let t ← (f s.tables).map Prod.fst
      ctx.ensureActive s.polled.progress
      return t) := by
  unfold maintaining
  rw [run_bind]
  change outcome ((liftM (s.tables.schema id) >>= _ : Operation α) s) = _
  cases s.tables.schema id with
  | error x => rfl
  | ok S =>
    change outcome ((liftM (ctx.operator.checkMaintain S.workspace) >>= _ : Operation α) s) =
      ctx.operator.checkMaintain S.workspace >>= _
    cases ctx.operator.checkMaintain S.workspace with
    | error x => rfl
    | ok _ =>
      have htables : s.polled.opened.tables = s.tables := rfl
      change outcome (transact ctx (Write.step f) s) = ctx.ensureActive s.progress >>= _
      rw [outcome_transact (Write.quiet_step f).grows, Write.run_step, htables]
      cases f s.tables <;> rfl

/-- Changes fields of a schema one by one, up to the first change that fails. -/
def updateEach (ctx : Context) (id : SchemaId) : List FieldEdit → Operation Unit
  | [] => return ()
  | e :: es => do
    let _ ← updateField ctx id e
    updateEach ctx id es

/-- Changing one field is changing a list of one. -/
theorem outcome_updateField (ctx : Context) (id : SchemaId) (e : FieldEdit) (s : Store) :
    outcome (updateField ctx id e s) = outcome (updateFields ctx id [e] s) := by
  unfold updateField
  rw [run_bind]
  rcases hrun : updateFields ctx id [e] s with ⟨x | fields, u⟩
  · rfl
  · dsimp only
    obtain ⟨-, -, -, hupdate, -⟩ := (reaches_changedFields id [e]).of_ok (congrArg Prod.fst hrun)
    have hlength : fields.length = 1 := length_of_updateFields hupdate
    obtain ⟨f, rfl⟩ := List.length_eq_one_iff.mp hlength
    rfl

/-- What changing fields comes to for somebody who may change them. -/
theorem outcome_updateFields {S : Schema} (hs : s.tables.schema id = .ok S)
    (hmay : ctx.operator.checkMaintain S.workspace = .ok ()) (hne : edits ≠ [])
    (horder : ∀ e ∈ edits, e.order = none) :
    outcome (updateFields ctx id edits s) = (do
      ctx.ensureActive s.progress
      let t ← edits.foldlM (changeField ctx.operator id) s.tables
      ctx.ensureActive s.polled.progress
      return t) := by
  rw [updateFields, outcome_maintaining, updateFields_eq_foldlM hs hmay hne horder, hs]
  change (ctx.operator.checkMaintain S.workspace >>= _) = _
  rw [hmay]
  rfl

theorem outcome_updateEach_cons (e : FieldEdit) (edits : List FieldEdit) (s : Store) :
    outcome (updateEach ctx id (e :: edits) s) = outcome (updateField ctx id e s) >>= fun _ =>
      outcome (updateEach ctx id edits (updateField ctx id e s).2) := by
  rw [updateEach, run_bind]
  rcases updateField ctx id e s with ⟨x | f, u⟩ <;> rfl

theorem ensureActive_cases (ctx : Context) (p : Progress) :
    ctx.ensureActive p = .ok () ∨ ctx.ensureActive p = .error .cancelled := by
  unfold Context.ensureActive
  split
  · exact .inr rfl
  · exact .inl rfl

/-- **The first of several calls**, if none of them is given up: it fails and so do they, or it
changes its field and the others go on from there. -/
theorem step_of_updateEach {S : Schema} (hs : s.tables.schema id = .ok S)
    (hmay : ctx.operator.checkMaintain S.workspace = .ok ()) (horder : e.order = none)
    (hactive : outcome (updateEach ctx id (e :: edits) s) ≠ .error .cancelled) :
    ctx.ensureActive s.progress = .ok () ∧
      ((∃ x, s.tables.changeField ctx.operator id e = .error x ∧
          outcome (updateEach ctx id (e :: edits) s) = .error x) ∨
        ctx.ensureActive s.polled.progress = .ok () ∧ ∃ u : Store,
          s.tables.changeField ctx.operator id e = .ok u.tables ∧
            outcome (updateEach ctx id (e :: edits) s) = outcome (updateEach ctx id edits u)) := by
  have hfirst := outcome_updateField ctx id e s
  rw [outcome_updateFields hs hmay (List.cons_ne_nil e [])
    (List.forall_mem_singleton.mpr horder)] at hfirst
  have hone : [e].foldlM (changeField ctx.operator id) s.tables =
      s.tables.changeField ctx.operator id e := by
    rw [List.foldlM_cons]
    cases s.tables.changeField ctx.operator id e <;> rfl
  rw [outcome_updateEach_cons] at hactive ⊢
  rw [hone] at hfirst
  rcases ensureActive_cases ctx s.progress with hbefore | hbefore
  · rw [hbefore] at hfirst
    refine ⟨hbefore, ?_⟩
    cases hchange : s.tables.changeField ctx.operator id e with
    | error x =>
      rw [hchange] at hfirst
      exact .inl ⟨x, rfl, by rw [hfirst]; rfl⟩
    | ok t =>
      rw [hchange] at hfirst
      rcases ensureActive_cases ctx s.polled.progress with hafter | hafter
      · rw [hafter] at hfirst
        obtain ⟨f, -, ht⟩ := outcome_eq_ok.mp hfirst
        exact .inr ⟨hafter, _, by rw [ht], by rw [hfirst]; rfl⟩
      · rw [hafter] at hfirst
        exact (hactive (by rw [hfirst]; rfl)).elim
  · rw [hbefore] at hfirst
    exact (hactive (by rw [hfirst]; rfl)).elim

/-- Calls one by one change one field after the other, unless one of them is given up. -/
theorem outcome_updateEach {S : Schema} (hs : s.tables.schema id = .ok S)
    (hmay : ctx.operator.checkMaintain S.workspace = .ok ()) (horder : ∀ e ∈ edits, e.order = none)
    (hactive : outcome (updateEach ctx id edits s) ≠ .error .cancelled) :
    outcome (updateEach ctx id edits s) =
      edits.foldlM (changeField ctx.operator id) s.tables := by
  induction edits generalizing s S with
  | nil => rfl
  | cons e es ih =>
    obtain ⟨hfirst, horder⟩ := List.forall_mem_cons.mp horder
    rw [List.foldlM_cons]
    rcases (step_of_updateEach hs hmay hfirst hactive).2 with
      ⟨x, hchange, heach⟩ | ⟨-, u, hchange, heach⟩
    · rw [heach, hchange]
      rfl
    · rw [heach] at hactive
      obtain ⟨S', hs', hmay'⟩ := stored_of_changeField hs hmay hchange
      rw [heach, hchange, ih hs' hmay' horder hactive]
      rfl

/-- Who may not change the schema, may not do so in one way or the other. -/
theorem outcome_updateFields_of_refused {x : Error}
    (h : (s.tables.schema id >>= fun S => ctx.operator.checkMaintain S.workspace) = .error x)
    (edits : List FieldEdit) : outcome (updateFields ctx id edits s) = .error x := by
  rw [updateFields, outcome_maintaining]
  cases hs : s.tables.schema id with
  | error y =>
    rw [hs] at h
    cases h
    rfl
  | ok S =>
    rw [hs] at h
    change ctx.operator.checkMaintain S.workspace = .error x at h
    change ctx.operator.checkMaintain S.workspace >>= _ = _
    rw [h]
    rfl

/-- **Many changes in one call come to what they come to one by one.** -/
theorem outcome_updateFields_eq (hne : edits ≠ []) (horder : ∀ e ∈ edits, e.order = none)
    (hactive : outcome (updateEach ctx id edits s) ≠ .error .cancelled) :
    outcome (updateFields ctx id edits s) = outcome (updateEach ctx id edits s) := by
  obtain ⟨e, es, rfl⟩ := List.exists_cons_of_ne_nil hne
  cases hgate : s.tables.schema id >>= fun S => ctx.operator.checkMaintain S.workspace with
  | error x =>
    have hrefused := outcome_updateFields_of_refused hgate
    rw [hrefused, outcome_updateEach_cons, outcome_updateField, hrefused]
    rfl
  | ok _ =>
    obtain ⟨S, hs, hmay⟩ := bind_eq_ok.mp hgate
    obtain ⟨horder₁, -⟩ := List.forall_mem_cons.mp horder
    obtain ⟨hbefore, hfirst⟩ := step_of_updateEach hs hmay horder₁ hactive
    rw [outcome_updateFields hs hmay hne horder, ← outcome_updateEach hs hmay horder hactive,
      hbefore]
    rcases hfirst with ⟨x, -, heach⟩ | ⟨hafter, -⟩
    · rw [heach]
      rfl
    · rw [hafter]
      cases outcome (updateEach ctx id (e :: es) s) <;> rfl

/-- **A batch of changes is the changes one by one.**  Unless one of the single calls is given
up, the batch succeeds just if all of them do, and is refused for the reason for which the
first of them is; and if they succeed, they leave behind the same tables. -/
theorem updateFields_eq_updateEach (hne : edits ≠ []) (horder : ∀ e ∈ edits, e.order = none)
    (hactive : (updateEach ctx id edits s).1 ≠ .error .cancelled) :
    ((∃ fields, (updateFields ctx id edits s).1 = .ok fields) ↔
      (updateEach ctx id edits s).1 = .ok ()) ∧
    (∀ x, (updateFields ctx id edits s).1 = .error x ↔
      (updateEach ctx id edits s).1 = .error x) ∧
    ((updateEach ctx id edits s).1 = .ok () →
      (updateFields ctx id edits s).2.tables = (updateEach ctx id edits s).2.tables) := by
  have houtcome := outcome_updateFields_eq hne horder (mt outcome_eq_error.mp hactive)
  have hsuccess : (updateEach ctx id edits s).1 = .ok () ↔
      outcome (updateEach ctx id edits s) = .ok (updateEach ctx id edits s).2.tables := by
    rw [outcome_eq_ok]
    exact ⟨fun h => ⟨(), h, rfl⟩, fun ⟨_, h, _⟩ => h⟩
  refine ⟨⟨fun ⟨fields, h⟩ => ?_, fun h => ?_⟩, fun x => ?_, fun h => ?_⟩
  · have hbatch := outcome_eq_ok.mpr ⟨fields, h, rfl⟩
    rw [houtcome] at hbatch
    obtain ⟨_, heach, -⟩ := outcome_eq_ok.mp hbatch
    exact heach
  · rw [hsuccess, ← houtcome] at h
    obtain ⟨fields, hbatch, -⟩ := outcome_eq_ok.mp h
    exact ⟨fields, hbatch⟩
  · rw [← outcome_eq_error, houtcome, outcome_eq_error]
  · rw [hsuccess, ← houtcome] at h
    obtain ⟨-, -, htables⟩ := outcome_eq_ok.mp h
    exact htables

section Courses

/-- Courses have a teacher and meetings, and there are two kinds of meetings. -/
def courses : Store := Call.afterAll (.maintainer ⟨"school"⟩) [
  .createModel (.ofKey ⟨"project"⟩ ⟨"school"⟩ "teacher"),
  .createModel (.ofKey ⟨"project"⟩ ⟨"school"⟩ "course"),
  .createGroup (.ofKey ⟨"project"⟩ ⟨"school"⟩ "lesson"),
  .createGroup (.ofKey ⟨"project"⟩ ⟨"school"⟩ "exam"),
  .createField { NewField.ofKey (.ofSerial 2) "teacher"
    (.reference (.ofSerial 1) (.ofSerial 0) none) with mirror := some (.ofKey "course") },
  .createField (.ofKey (.ofSerial 2) "meetings" (.group (.ofSerial 5)))]
  (blank .standard ⟨⟨0, 0⟩, 1⟩ ⟨0⟩ .silent)

/-- The teacher is renamed at both ends, meetings become exams, and the name of the
teacher, now free, is given back. -/
def revisions : List FieldEdit := [
  { FieldEdit.ofField (.ofSerial 8) with
    key := some "held_by", mirror := some (.ofKey "holds") },
  { FieldEdit.ofField (.ofSerial 10) with
    key := some "exams", type := some (.group (.ofSerial 7)) },
  { FieldEdit.ofField (.ofSerial 8) with key := some "teacher" }]

/-- The courses are revised at once as they are one by one. -/
theorem revisions_of_courses : revisions ≠ [] ∧ (∀ e ∈ revisions, e.order = none) ∧
    (updateEach (.maintainer ⟨"school"⟩) (.ofSerial 2) revisions courses).1 ≠ .error .cancelled ∧
    ((∃ fields, (updateFields (.maintainer ⟨"school"⟩) (.ofSerial 2) revisions courses).1 =
        .ok fields) ↔
      (updateEach (.maintainer ⟨"school"⟩) (.ofSerial 2) revisions courses).1 = .ok ()) ∧
    (updateFields (.maintainer ⟨"school"⟩) (.ofSerial 2) revisions courses).2.tables =
      (updateEach (.maintainer ⟨"school"⟩) (.ofSerial 2) revisions courses).2.tables := by
  have horder : ∀ e ∈ revisions, e.order = none := by decide
  have heach : (updateEach (.maintainer ⟨"school"⟩) (.ofSerial 2) revisions courses).1 =
      .ok () := by
    decide +kernel
  have hactive : (updateEach (.maintainer ⟨"school"⟩) (.ofSerial 2) revisions courses).1 ≠
      .error .cancelled := by
    rw [heach]
    decide
  obtain ⟨hiff, -, htables⟩ := updateFields_eq_updateEach (by decide) horder hactive
  exact ⟨by decide, horder, hactive, hiff, htables heach⟩

end Courses

end Store

end ContentStore
