import ContentStore.Proofs.Reachable

/-!
# All or nothing

A write that fails, for whatever reason and however late, leaves schemas, models,
groups, versions and refs as they were, and nobody hears of it.  A write of an
item that succeeds announces just the versions it was asked to make, remove,
publish or withdraw, in the order in which they were asked for; items that merely
follow are not announced, and neither are writes of the catalog.  Whether the
emitter takes the events is of no consequence for the call.

What it means that events are handed over is said of each kind of emitter
(`Emitter.Handed`).  The rest is shown along the steps of a call: the checks before
a transaction, which change nothing, and the transaction itself, whose body queues
what is announced and leaves it to the transaction to undo what it did
(`allOrNothing_transact`).
-/

namespace ContentStore

namespace Emitter

variable {e e₁ e₂ : Emitter} {es es' : List Event}

/-- The events have been handed over, in order, and the emitter is now the second
one.  In a channel they wait behind those that wait there already; a receiver of the
caller's own has been handed them behind its earlier ones, those that it refuses
included. -/
inductive Handed (es : List Event) : Emitter → Emitter → Prop
  | silent : Handed es silent silent
  | closed : Handed es closed closed
  | channel (waiting : List Event) : Handed es (channel waiting) (channel (waiting ++ es))
  | custom (handed : List Event) (refusals : List (Option EmitError)) :
      Handed es (custom handed refusals) (custom (handed ++ es) (refusals.drop es.length))

/-- An emitter that is handed nothing stays as it is. -/
theorem handed_nil (e : Emitter) : e.Handed [] e := by
  cases e with
  | silent => exact .silent
  | closed => exact .closed
  | channel waiting =>
    have h : Handed [] (channel waiting) (channel (waiting ++ [])) := .channel waiting
    rw [List.append_nil] at h
    exact h
  | custom handed refusals =>
    have h : Handed [] (custom handed refusals) (custom (handed ++ []) (refusals.drop 0)) :=
      .custom handed refusals
    rw [List.append_nil, List.drop_zero] at h
    exact h

/-- An event is handed over even if it is refused. -/
theorem handed_emit (event : Event) (e : Emitter) : e.Handed [event] (emit event e).2 := by
  cases e with
  | silent => exact .silent
  | closed => exact .closed
  | channel waiting => exact .channel waiting
  | custom handed refusals =>
    have h : Handed [event] (custom handed refusals)
      (custom (handed ++ [event]) (refusals.drop 1)) := .custom handed refusals
    rw [List.drop_one] at h
    exact h

/-- Events that are handed over one after the other are handed over together. -/
theorem Handed.trans (h : e.Handed es e₁) (h' : e₁.Handed es' e₂) : e.Handed (es ++ es') e₂ := by
  cases h with
  | silent =>
    cases h'
    exact .silent
  | closed =>
    cases h'
    exact .closed
  | channel waiting =>
    cases h'
    rw [List.append_assoc]
    exact .channel waiting
  | custom handed refusals =>
    cases h'
    rw [List.append_assoc, List.drop_drop, ← List.length_append]
    exact .custom handed refusals

/-- After an event that is refused the next one has its turn, as after one that is
taken. -/
theorem dispatch_cons (event : Event) (es : List Event) (e : Emitter) :
    dispatch (event :: es) e = dispatch es (emit event e).2 := by
  rw [dispatch]
  rcases emit event e with ⟨_ | _, e'⟩ <;> rfl

/-- **Events are handed over one by one**, whatever the emitter does with each. -/
theorem handed_dispatch (es : List Event) (e : Emitter) : e.Handed es (dispatch es e) := by
  induction es generalizing e with
  | nil => exact handed_nil e
  | cons event es ih =>
    rw [dispatch_cons]
    exact (handed_emit event e).trans (ih (emit event e).2)

end Emitter

namespace Store

section AllOrNothing

variable {α β : Type} {s : Store} {ctx : Context} {Q : α → List Event → Prop}

/-- The store with another emitter. -/
def toldTo (s : Store) (e : Emitter) : Store := { s with emitter := e }

/-- The call hands these events to the emitter, whichever it is and whatever it
refuses; neither the result nor anything else that is left behind depends on it. -/
def Hands (op : Operation α) (s : Store) (es : List Event) : Prop :=
  ∀ e, ∃ e', e.Handed es e' ∧ op (s.toldTo e) = ((op s).1, (op s).2.toldTo e')

/-- The call succeeds and announces what `Q` says, or it fails, announces
nothing and leaves the tables as they are. -/
def AllOrNothing (op : Operation α) (s : Store) (Q : α → List Event → Prop) : Prop :=
  ∃ es, Hands op s es ∧ match (op s).1 with
    | .ok a => Q a es
    | .error _ => (op s).2.tables = s.tables ∧ es = []

/-- A call that fails, with the emitter and the tables as they were, has done nothing. -/
theorem allOrNothing_of_fails {op : Operation α} {x : Error} {t : Store}
    (hrun : ∀ e, op (s.toldTo e) = (.error x, t.toldTo e)) (htables : t.tables = s.tables) :
    AllOrNothing op s Q := by
  have hown : op s = (.error x, t.toldTo s.emitter) := hrun s.emitter
  refine ⟨[], fun e => ⟨e, Emitter.handed_nil e, ?_⟩, ?_⟩
  · rw [hown]
    exact hrun e
  · rw [hown]
    exact ⟨htables, rfl⟩

/-- A call that fails at once has done nothing. -/
theorem allOrNothing_throw_bind (e : Error) (f : β → Operation α) :
    AllOrNothing (throw e >>= f) s Q :=
  allOrNothing_of_fails (t := s) (fun _ => rfl) rfl

/-- A call begins by looking at the store, but not at the emitter. -/
theorem allOrNothing_get_bind {f : Store → Operation α} (hf : ∀ e, f (s.toldTo e) = f s)
    (h : AllOrNothing (f s) s Q) : AllOrNothing (get >>= f) s Q := by
  obtain ⟨es, hhands, hresult⟩ := h
  refine ⟨es, fun e => ?_, hresult⟩
  obtain ⟨e', hhanded, hrun⟩ := hhands e
  refine ⟨e', hhanded, ?_⟩
  calc (get >>= f) (s.toldTo e) = f (s.toldTo e) (s.toldTo e) := rfl
    _ = f s (s.toldTo e) := by rw [hf]
    _ = _ := hrun

/-- A check that fails before a transaction has done nothing, either. -/
theorem allOrNothing_lift_bind {x : Except Error β} {f : β → Operation α}
    (h : ∀ b, x = .ok b → AllOrNothing (f b) s Q) : AllOrNothing (liftM x >>= f) s Q := by
  cases x with
  | error e => exact allOrNothing_of_fails (t := s) (fun _ => rfl) rfl
  | ok b => exact h b rfl

/-- Looking once more whether a call is given up changes no tables. -/
theorem allOrNothing_polled_bind {f : PUnit → Operation α}
    (h : AllOrNothing (f ⟨⟩) s.polled Q) : AllOrNothing (modify polled >>= f) s Q := h

/-- What comes after a call and cannot fail makes nothing undone. -/
theorem AllOrNothing.bind {x : Operation β} {f : β → Operation α} {P : β → List Event → Prop}
    (h : AllOrNothing x s P) (hf : ∀ b es, P b es → ∃ a, f b = pure a ∧ Q a es) :
    AllOrNothing (x >>= f) s Q := by
  obtain ⟨es, hhands, hresult⟩ := h
  refine ⟨es, fun e => ?_, ?_⟩
  · obtain ⟨e', hhanded, hrun⟩ := hhands e
    refine ⟨e', hhanded, ?_⟩
    rw [run_bind, run_bind, hrun]
    rcases hx : x s with ⟨e | b, t⟩
    · rfl
    · rw [hx] at hresult
      obtain ⟨a, ha, -⟩ := hf b es hresult
      dsimp only
      rw [ha]
      rfl
  · rw [run_bind]
    rcases hx : x s with ⟨e | b, t⟩
    · rw [hx] at hresult
      exact hresult
    · rw [hx] at hresult
      obtain ⟨a, ha, hQ⟩ := hf b es hresult
      dsimp only
      rw [ha]
      exact hQ

/-- **A transaction is all or nothing.**  It announces what its body queues. -/
theorem allOrNothing_transact {body : Write α} (hg : Grows body)
    (h : Write.Tells body s.polled.opened Q) : AllOrNothing (transact ctx body) s Q := by
  -- the body does not see the emitter, so it is one run for all emitters
  have hopened : ∀ e, (s.toldTo e).polled.opened = s.polled.opened := fun _ => rfl
  have hprogress : ∀ e, (s.toldTo e).progress = s.progress := fun _ => rfl
  have hrun := fun e => transact_eq hg ctx (s.toldTo e)
  simp only [hopened, hprogress] at hrun
  cases hactive : ctx.ensureActive s.progress with
  | error x =>
    simp only [hactive] at hrun
    exact allOrNothing_of_fails (t := s.polled) hrun rfl
  | ok _ =>
    simp only [hactive] at hrun
    rcases hbody : body s.polled.opened with ⟨x | a, w⟩
    · simp only [hbody] at hrun
      exact allOrNothing_of_fails (t := s.spend w) hrun rfl
    · obtain ⟨es, hevents, hQ⟩ := h a w hbody
      simp only [hbody] at hrun
      cases hlate : ctx.ensureActive w.progress with
      | error x =>
        simp only [hlate] at hrun
        exact allOrNothing_of_fails (t := (s.spend w).polled) hrun rfl
      | ok _ =>
        simp only [hlate] at hrun
        have hown : transact ctx body s = (.ok a, s.committed w) := hrun s.emitter
        refine ⟨w.events, fun e => ⟨_, Emitter.handed_dispatch w.events e, ?_⟩, ?_⟩
        · rw [hrun, hown]
          rfl
        · rw [hown, hevents]
          exact hQ

/-- A change of a schema is checked first, and is then a transaction. -/
theorem allOrNothing_maintaining {schema : SchemaId} {body : Write α} (hg : Grows body)
    (h : Write.Tells body s.polled.opened Q) : AllOrNothing (maintaining ctx schema body) s Q :=
  allOrNothing_get_bind (fun _ => rfl) (allOrNothing_lift_bind fun _ _ =>
    allOrNothing_lift_bind fun _ _ => allOrNothing_transact hg h)

/-- A write of the catalog announces nothing. -/
theorem allOrNothing_quiet {body : Write α} (hbody : Quiet body) :
    AllOrNothing (transact ctx body) s fun _ es => es = [] :=
  allOrNothing_transact hbody.grows (Write.tells_quiet hbody fun _ _ _ => rfl)

/-- A change of a schema announces nothing. -/
theorem allOrNothing_maintaining_quiet {schema : SchemaId} {body : Write α} (hbody : Quiet body) :
    AllOrNothing (maintaining ctx schema body) s fun _ es => es = [] :=
  allOrNothing_maintaining hbody.grows (Write.tells_quiet hbody fun _ _ _ => rfl)

end AllOrNothing

/-! ## Every write -/

/-- The writes of a store, each with the events that it announces if it
succeeds. -/
inductive Announces (ctx : Context) (s : Store) :
    {α : Type} → Operation α → (α → List Event → Prop) → Prop
  | createItem (param : CreateItem) : Announces ctx s (createItem ctx param) fun v es =>
      Reports .create ctx.operator [v] es
  | createMetadataItem (param : CreateItem) : Announces ctx s (createMetadataItem ctx param)
      fun v es => Reports .create ctx.operator [v] es
  | updateItem (param : UpdateItem) : Announces ctx s (updateItem ctx param) fun v es =>
      Reports .update ctx.operator [v] es
  | deleteItem (id : ItemId) : Announces ctx s (deleteItem ctx id) fun _ es =>
      ∃ last, s.tables.latest? id = some last ∧ Reports .delete ctx.operator [last] es
  | publish (ids : List ItemId) : Announces ctx s (publish ctx ids) fun vs es =>
      vs.map (fun v => v.item.id) = ids ∧ Reports .publish ctx.operator vs es
  | unpublish (ids : List ItemId) : Announces ctx s (unpublish ctx ids) fun vs es =>
      vs.map (fun v => v.item.id) = ids ∧ Reports .unpublish ctx.operator vs es
  | createModel (param : NewModel) : Announces ctx s (createModel ctx param) fun _ es => es = []
  | createGroup (param : NewGroup) : Announces ctx s (createGroup ctx param) fun _ es => es = []
  | updateGroup (id : GroupId) (edit : GroupEdit) :
      Announces ctx s (updateGroup ctx id edit) fun _ es => es = []
  | createField (param : NewField) : Announces ctx s (createField ctx param) fun _ es => es = []
  | updateField (schema : SchemaId) (edit : FieldEdit) :
      Announces ctx s (updateField ctx schema edit) fun _ es => es = []
  | updateFields (schema : SchemaId) (edits : List FieldEdit) :
      Announces ctx s (updateFields ctx schema edits) fun _ es => es = []
  | deleteField (schema : SchemaId) (field : FieldId) :
      Announces ctx s (deleteField ctx schema field) fun _ es => es = []

section Writes

variable {s : Store} {ctx : Context}

/-- An update of an item is announced once. -/
theorem allOrNothing_updateItem (param : UpdateItem) : AllOrNothing (updateItem ctx param) s
    fun v es => Reports .update ctx.operator [v] es := by
  unfold updateItem
  dsimp only
  split
  · exact allOrNothing_throw_bind _ _
  · exact allOrNothing_get_bind (fun _ => rfl) (allOrNothing_lift_bind fun _ _ =>
      allOrNothing_polled_bind
        (allOrNothing_transact (Write.grows_updateItem _ _ _) Write.tells_updateItem))

/-- A new metadata item is announced like any other item. -/
theorem allOrNothing_createMetadataItem (param : CreateItem) :
    AllOrNothing (createMetadataItem ctx param) s
      fun v es => Reports .create ctx.operator [v] es := by
  refine allOrNothing_get_bind (fun _ => rfl) (allOrNothing_lift_bind fun _ _ =>
    allOrNothing_lift_bind fun _ _ => ?_)
  dsimp only
  split
  · exact allOrNothing_throw_bind _ _
  · exact allOrNothing_lift_bind fun _ _ =>
      allOrNothing_transact (Write.grows_createItem _ _ _) Write.tells_createItem

/-- Every item that is listed is announced, in the order of the list and as often as it is
listed. -/
theorem allOrNothing_moveAllPublic (hs : s.Sane) (how : Publication) (ids : List ItemId) :
    AllOrNothing (transact ctx (Write.moveAllPublic ctx.operator how ids)) s fun vs es =>
      vs.map (fun v => v.item.id) = ids ∧ Reports how.event ctx.operator vs es := by
  refine allOrNothing_transact (Write.grows_moveAllPublic _ _ _) fun vs w' hgives => ?_
  obtain ⟨hmoved, -⟩ := Write.gives_moveAllPublic hs.sound hgives
  obtain ⟨es, hes, hreports⟩ := hmoved.events
  exact ⟨es, hes, hmoved.items, hreports⟩

/-- As many fields are returned as were to be changed. -/
theorem allOrNothing_updateFields (schema : SchemaId) (edits : List FieldEdit) :
    AllOrNothing (updateFields ctx schema edits) s fun fields es =>
      fields.length = edits.length ∧ es = [] := by
  refine allOrNothing_maintaining (Write.quiet_step _).grows
    (Write.tells_quiet (Write.quiet_step _) fun fields w' hgives => ?_)
  obtain ⟨hupdate, -⟩ := Write.gives_step hgives
  obtain ⟨S, -, hupdate⟩ := bind_eq_ok.mp hupdate
  obtain ⟨⟨t, S'⟩, -, hupdate⟩ := bind_eq_ok.mp hupdate
  obtain ⟨fields', hfields, hupdate⟩ := bind_eq_ok.mp hupdate
  obtain rfl := (Prod.mk.inj (Except.ok.inj hupdate)).2
  have hlength := (forall₂_of_mapM hfields).length_eq
  rw [List.length_map] at hlength
  exact ⟨hlength.symm, rfl⟩

/-- Nor does the change of one field announce anything. -/
theorem allOrNothing_updateField (schema : SchemaId) (edit : FieldEdit) :
    AllOrNothing (updateField ctx schema edit) s fun _ es => es = [] := by
  refine (allOrNothing_updateFields schema [edit]).bind fun fields es hboth => ?_
  obtain ⟨hlength, rfl⟩ := hboth
  obtain ⟨f, rfl⟩ := List.length_eq_one_iff.mp hlength
  exact ⟨f, rfl, rfl⟩

/-- What follows from what a call announces holds when it succeeds. -/
theorem AllOrNothing.mono {α : Type} {op : Operation α} {P Q : α → List Event → Prop}
    (h : AllOrNothing op s P) (hPQ : ∀ a es, P a es → Q a es) : AllOrNothing op s Q := by
  obtain ⟨es, hhands, hresult⟩ := h
  refine ⟨es, hhands, ?_⟩
  split
  · rename_i a ha
    rw [ha] at hresult
    exact hPQ a es hresult
  · rename_i e he
    rw [he] at hresult
    exact hresult

/-- **Writes are all or nothing**, whenever a call is given up and whatever
becomes of its events. -/
theorem allOrNothing_of_reachable {α : Type} {op : Operation α} {Q : α → List Event → Prop}
    (hs : s.Reachable) (h : Announces ctx s op Q) : AllOrNothing op s Q := by
  cases h with
  | createItem param =>
    exact allOrNothing_get_bind (fun _ => rfl) (allOrNothing_lift_bind fun _ _ =>
      allOrNothing_lift_bind fun _ _ =>
      allOrNothing_transact (Write.grows_createItem _ _ _) Write.tells_createItem)
  | createMetadataItem param => exact allOrNothing_createMetadataItem param
  | updateItem param => exact allOrNothing_updateItem param
  | deleteItem id =>
    exact allOrNothing_get_bind (fun _ => rfl) (allOrNothing_lift_bind fun _ _ =>
      allOrNothing_polled_bind
        (allOrNothing_transact (Write.grows_deleteItem _ _ _) Write.tells_deleteItem))
  | publish ids => exact allOrNothing_moveAllPublic hs.sane .publish ids
  | unpublish ids => exact allOrNothing_moveAllPublic hs.sane .withdraw ids
  | createModel param =>
    exact allOrNothing_lift_bind fun _ _ => allOrNothing_lift_bind fun _ _ =>
      allOrNothing_quiet (Write.quiet_createModel _)
  | createGroup param =>
    exact allOrNothing_lift_bind fun _ _ => allOrNothing_lift_bind fun _ _ =>
      allOrNothing_quiet (Write.quiet_createGroup _)
  | updateGroup id edit =>
    exact allOrNothing_get_bind (fun _ => rfl) (allOrNothing_lift_bind fun _ _ =>
      allOrNothing_lift_bind fun _ _ => allOrNothing_lift_bind fun _ _ =>
      allOrNothing_quiet (Write.quiet_updateGroup _ _))
  | createField param =>
    exact allOrNothing_maintaining_quiet (Write.quiet_freshStep fun id mirrorId t =>
      t.createField param id mirrorId)
  | updateField schema edit => exact allOrNothing_updateField schema edit
  | updateFields schema edits =>
    exact (allOrNothing_updateFields schema edits).mono fun _ _ h => h.2
  | deleteField schema field => exact allOrNothing_maintaining_quiet (Write.quiet_step _)

end Writes

section Notes

/-- Two notes, in a store whose events nobody receives any more. -/
def twoNotes : Store := Call.afterAll (.maintainer ⟨"notes"⟩) [
  .createModel (.ofKey ⟨"project"⟩ ⟨"notes"⟩ "note"),
  .createField (.ofKey (.ofSerial 0) "text" (.text none)),
  .createItem ⟨.ofSerial 1, [.byKey "text" (.string "first")], none⟩,
  .createItem ⟨.ofSerial 1, [.byKey "text" (.string "second")], none⟩]
  (blank .standard ⟨⟨0, 0⟩, 1⟩ ⟨0⟩ .closed)

/-- The maintainer gives up after a call on the notes has begun. -/
def hesitant : Context :=
  { Context.maintainer ⟨"notes"⟩ with cancelled := fun p => twoNotes.progress.polls < p.polls }

/-- The notes are published and announced together, or neither of them is. -/
theorem publish_twoNotes :
    AllOrNothing (publish (.maintainer ⟨"notes"⟩) [.ofSerial 4, .ofSerial 7]) twoNotes
      (fun vs es => vs.map (fun v => v.item.id) = [.ofSerial 4, .ofSerial 7] ∧
        Reports .publish (Context.maintainer ⟨"notes"⟩).operator vs es) ∧
    AllOrNothing (publish hesitant [.ofSerial 4, .ofSerial 7]) twoNotes
      (fun vs es => vs.map (fun v => v.item.id) = [.ofSerial 4, .ofSerial 7] ∧
        Reports .publish hesitant.operator vs es) ∧
    (publish (.maintainer ⟨"notes"⟩) [.ofSerial 4, .ofSerial 7] twoNotes).1.toOption.isSome ∧
    (publish hesitant [.ofSerial 4, .ofSerial 7] twoNotes).1 = .error .cancelled := by
  have hs : twoNotes.Reachable := (reachable_blank _ _ _ _).evolves (evolves_afterAll _ _ _)
  exact ⟨allOrNothing_of_reachable hs (.publish _), allOrNothing_of_reachable hs (.publish _),
    by decide +kernel, by decide +kernel⟩

end Notes

end Store

end ContentStore
