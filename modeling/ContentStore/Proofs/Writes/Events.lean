import ContentStore.Proofs.Writes.Supply

/-!
# What bodies announce

A body that creates, updates or deletes an item queues a single event at its end,
about the version it made or removed.  Everything before that is quiet, so the
queue at the end is the one at the beginning with the event behind it.
-/

namespace ContentStore

/-- The events tell, one by one, what happened to the versions and by whom. -/
def Reports (k : EventKind) (o : Operator) (vs : List Version) (es : List Event) : Prop :=
  es.map (fun e => (e.kind, e.operator, e.version)) = vs.map fun v => (k, o, v)

namespace Write

section Tells

variable {α β : Type} {w : Work} {Q : α → List Event → Prop}

/-- Run from `w`, the body queues events as `Q` says if it succeeds. -/
def Tells (x : Write α) (w : Work) (Q : α → List Event → Prop) : Prop :=
  ∀ a w', Gives x w a w' → ∃ es, w'.events = w.events ++ es ∧ Q a es

/-- What comes after a quiet step tells the whole. -/
theorem tells_bind {x : Write β} {f : β → Write α} (hx : Quiet x)
    (hf : ∀ b u, Gives x w b u → Tells (f b) u Q) : Tells (x >>= f) w Q := by
  intro a w' h
  obtain ⟨b, u, hb, ha⟩ := gives_bind.mp h
  have hevents : u.events = w.events := by
    have hsilent := (hx w).2
    rw [hb] at hsilent
    exact hsilent
  rw [← hevents]
  exact hf b u hb a w' ha

theorem tells_quiet {x : Write α} (hx : Quiet x) (hQ : ∀ a w', Gives x w a w' → Q a []) :
    Tells x w Q := by
  intro a w' h
  have hsilent := (hx w).2
  rw [h] at hsilent
  exact ⟨[], by rw [List.append_nil]; exact hsilent, hQ a w' h⟩

theorem tells_throw (e : Error) : Tells (throw e : Write α) w Q :=
  fun _ _ h => (gives_throw h).elim

theorem tells_queue {e : Event} {Q : Unit → List Event → Prop} (hQ : Q () [e]) :
    Tells (queue e) w Q := by
  intro a w' h
  cases h
  exact ⟨[e], rfl, hQ⟩

/-- A body that ends by queueing an event. -/
theorem tells_queue_bind {e : Event} {a : α} (hQ : Q a [e]) :
    Tells (do queue e; return a) w Q := by
  intro b w' h
  obtain ⟨_, _, hqueue, hb⟩ := gives_bind.mp h
  obtain ⟨rfl, rfl⟩ := gives_pure.mp hb
  exact tells_queue (Q := fun _ es => Q a es) hQ _ _ hqueue

end Tells

variable {w : Work} {o : Operator} {p : Package}

theorem tells_createItem {param : CreateItem} :
    Tells (createItem o p param) w fun v es => Reports .create o [v] es :=
  tells_bind quiet_now fun _ _ _ => tells_bind (quiet_newItem _ _ _) fun _ _ _ =>
    tells_bind (along_lift _) fun _ _ _ => tells_bind (along_lift _) fun _ _ _ =>
    tells_bind (quiet_checkUnique _ _ _ _) fun _ _ _ =>
    tells_bind (quiet_checkAllTargets _ _ _) fun _ _ _ =>
    tells_bind (quiet_linkNamed _ _ _ _) fun _ _ _ => tells_bind (quiet_append _ _) fun _ _ _ =>
    tells_bind (quiet_repairPartners _ _ _ _) fun _ _ _ =>
    tells_bind (quiet_referenced _) fun _ _ _ => tells_queue_bind rfl

theorem tells_updateItem {param : UpdateItem} :
    Tells (updateItem o p param) w fun v es => Reports .update o [v] es := by
  refine tells_bind quiet_now fun _ _ _ => tells_bind along_tables fun t _ _ => ?_
  cases hold : latestItem t param.item with
  | none =>
    simp only
    exact tells_throw _
  | some old =>
    simp only
    exact tells_bind (along_lift _) fun _ _ _ =>
      tells_bind (quiet_checkUnique _ _ _ _) fun _ _ _ =>
      tells_bind (quiet_checkAllTargets _ _ _) fun _ _ _ => tells_bind (along_lift _) fun _ _ _ =>
      tells_bind (quiet_linkNamed _ _ _ _) fun _ _ _ => tells_bind (quiet_append _ _) fun _ _ _ =>
      tells_bind (quiet_repairPartners _ _ _ _) fun _ _ _ =>
      tells_bind (quiet_referenced _) fun _ _ _ => tells_queue_bind rfl

/-- The version told of is the last one of the item before it is removed. -/
theorem tells_deleteItem {id : ItemId} : Tells (deleteItem o p id) w fun _ es =>
    ∃ last, w.tables.latest? id = some last ∧ Reports .delete o [last] es := by
  refine tells_bind quiet_now fun _ w₁ hnow => tells_bind along_tables fun t _ htables => ?_
  obtain ⟨rfl, rfl⟩ := gives_tables.mp htables
  rw [(gives_now hnow).1]
  cases hlast : w.tables.latest? id with
  | none =>
    simp only
    exact tells_throw _
  | some last =>
    simp only
    refine tells_bind along_tables fun _ _ _ => tells_bind (quiet_saveFollowers _ _) fun _ _ _ => ?_
    split
    · exact tells_bind (quiet_change _) fun _ _ _ => tells_bind (quiet_change _) fun _ _ _ =>
        tells_queue ⟨last, rfl, rfl⟩
    · exact tells_bind (quiet_change _) fun _ _ _ => tells_queue ⟨last, rfl, rfl⟩

end Write

end ContentStore
