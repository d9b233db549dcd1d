import ContentStore.Proofs.Runs

/-!
# Histories of a run

Whatever is called in whatever order, the history of an item is a line of
versions of one origin, `latest` names the last of them, and `public` names one
of them or nothing.  As long as the item is not deleted its history only grows
at the end, so versions never change (`Store.history_of_run`).
-/

namespace ContentStore

open Tables

namespace Store

variable {s t : Store} {ctx : Context} {x : ItemId}

/-- A removal of other items leaves the history of an item, or prolongs it. -/
theorem prefix_removes {o : Operator} {p : Package} {it : Item} {n m : Nat} {t u : Tables}
    (h : Write.Removes o p it n t m u) (hx : x ≠ it.id) (hmeta : it.metadataItem ≠ some x) :
    t.versionsOf x <+: u.versionsOf x := by
  obtain ⟨its, v, hsaves, rfl⟩ := h.saves
  have hprefix := hsaves.prefix_versionsOf x
  rw [versionsOf_deleteItem, if_neg hx]
  cases hm : it.metadataItem with
  | none => exact hprefix
  | some y =>
    have hxy : x ≠ y := fun h => hmeta (hm.trans (congrArg some h.symm))
    rw [Option.elim_some, versionsOf_deleteItem, if_neg hxy]
    exact hprefix

/-- **A call that does not delete an item only prolongs its history.** -/
theorem prefix_after {c : Call} (hs : s.Sane) (hc : ¬ c.Deletes ctx s x) :
    s.tables.versionsOf x <+: (c.after ctx s).tables.versionsOf x := by
  have hput : ∀ {p old it n m t u}, Write.Puts ctx.operator p old it n t m u →
      t.versionsOf x <+: u.versionsOf x := by
    intro p old it n m t u hputs
    obtain ⟨its, hsaves⟩ := hputs.saves
    exact hsaves.prefix_versionsOf x
  have hrewires : ∀ {m u}, Write.Rewires s.supply.next s.tables m u →
      s.tables.versionsOf x <+: u.versionsOf x :=
    fun h => ⟨[], by rw [List.append_nil, h.versionsOf]⟩
  cases outcome_after hs ctx c with
  | rests h => exact ⟨[], by rw [List.append_nil, h.1]⟩
  | creates _ _ _ _ hputs => exact hput hputs
  | updates _ _ _ _ hputs => exact hput hputs
  | removes _ _ _ hdeletes h =>
    exact prefix_removes h (fun hx => hc (hdeletes x (.inl hx)))
      fun hmeta => hc (hdeletes x (.inr hmeta))
  | publishes _ _ h =>
    obtain ⟨refs, htables⟩ := h.tables
    exact ⟨[], by rw [List.append_nil, htables]; rfl⟩
  | reshapes _ h => exact hrewires (h.rewires hs.wired)
  | declares _ h => exact hrewires (h.rewires hs.wired)

theorem prefix_run (hs : s.Sane) (h : Run (Call.Sparing x) s t) :
    s.tables.versionsOf x <+: t.tables.versionsOf x := by
  induction h with
  | refl => exact List.prefix_rfl
  | tail hrun hstep ih =>
    refine ih.trans ?_
    cases hstep with
    | call hspares => exact prefix_after (sane_of_run hrun hs) hspares
    | rest h => exact ⟨[], by rw [List.append_nil, h.1]⟩

/-- What is stored of an item: `latest` is one row, for the last version, and
`public` at most one, for a version of the item; the versions form a line, have
ids of their own and agree on where the item comes from; an item without
versions has no refs. -/
structure HistoryOf (t : Tables) (x : ItemId) : Prop where
  latest : ∀ v, (t.versionsOf x).getLast? = some v → t.rowsOf x .latest = [⟨x, .latest, v.id⟩]
  published : t.rowsOf x .published = [] ∨
    ∃ v ∈ t.versionsOf x, t.rowsOf x .published = [⟨x, .published, v.id⟩]
  linear : Linear none (t.versionsOf x)
  ids : ((t.versionsOf x).map Version.id).Nodup
  origin : ∀ v ∈ t.versionsOf x, ∀ w ∈ t.versionsOf x, v.item.origin = w.item.origin
  absent : t.versionsOf x = [] → ∀ row ∈ t.refs, row.item ≠ x

theorem historyOf_of_sound {n : Nat} {t : Tables} (hs : Sound n t) (x : ItemId) :
    HistoryOf t x := by
  have hrow : ∀ {r row}, row ∈ t.rowsOf x r → row = ⟨x, r, row.version⟩ := by
    intro r row h
    obtain ⟨-, rfl, rfl⟩ := mem_rowsOf.mp h
    rfl
  have hlatest := hs.latest_last x
  constructor
  case latest =>
    intro v hv
    rw [hv] at hlatest
    obtain ⟨row, hrows, hversion⟩ := List.map_eq_singleton_iff.mp hlatest
    rw [hrows, ← hversion, ← hrow (hrows ▸ List.mem_singleton_self row)]
  case published =>
    cases hrows : t.rowsOf x .published with
    | nil => exact .inl rfl
    | cons row rows =>
      have hmem : row ∈ t.rowsOf x .published := hrows ▸ List.mem_cons_self
      have honce := hs.published_once x
      rw [hrows, List.length_cons] at honce
      have hnil : rows = [] := List.eq_nil_of_length_eq_zero (by omega)
      obtain ⟨v, hv, hversion⟩ := hs.published_own x row hmem
      exact .inr ⟨v, hv, by rw [hnil, hversion, ← hrow hmem]⟩
  case linear => exact hs.linear x
  case ids => exact hs.ids_distinct.sublist (List.filter_sublist.map _)
  case origin =>
    intro v hv w hw
    obtain ⟨hv, hvx⟩ := mem_versionsOf.mp hv
    obtain ⟨hw, hwx⟩ := mem_versionsOf.mp hw
    exact hs.one_origin v hv w hw (hvx.trans hwx.symm)
  case absent =>
    intro hnil row hrow' hrowx
    cases hr : row.ref with
    | latest =>
      rw [hnil] at hlatest
      have hmem := List.mem_map_of_mem (f := RefRow.version) (mem_rowsOf.mpr ⟨hrow', hrowx, hr⟩)
      rw [hlatest] at hmem
      exact List.not_mem_nil hmem
    | published =>
      obtain ⟨v, hv, -⟩ := hs.published_own x row (mem_rowsOf.mpr ⟨hrow', hrowx, hr⟩)
      rw [hnil] at hv
      exact List.not_mem_nil hv

/-- **The history of every item is in order in every state of a run from an
empty store**, and only grows at its end until the item is deleted. -/
theorem history_of_run {config : Config} {clock : Time.Clock} {supply : Supply} {emitter : Emitter}
    (h : Run Call.Any (blank config clock supply emitter) s) (x : ItemId) :
    HistoryOf s.tables x ∧
      ∀ t, Run (Call.Sparing x) s t → s.tables.versionsOf x <+: t.tables.versionsOf x := by
  have hs := sane_of_run h (sane_blank config clock supply emitter)
  exact ⟨historyOf_of_sound hs.sound x, fun t hrun => prefix_run hs hrun⟩

section Note

/-- A model of notes with a text, and a note that is published. -/
def notes : List Call := [
  .createModel (.ofKey ⟨"project"⟩ ⟨"notes"⟩ "note"),
  .createField (.ofKey (.ofSerial 0) "text" (.text none)),
  .createItem ⟨.ofSerial 1, [.byKey "text" (.string "first")], none⟩,
  .publish [.ofSerial 4]]

/-- The text of the note is changed. -/
def rewriting : List Call :=
  [.updateItem ⟨.ofSerial 4, none, [.byKey "text" (.string "second")], none⟩]

/-- The history of a note that is published and then changed. -/
theorem history_of_note : ∃ s t,
    Run Call.Any (blank .standard ⟨⟨0, 0⟩, 1⟩ ⟨0⟩ .silent) s ∧
      Run (Call.Sparing (.ofSerial 4)) s t ∧ HistoryOf t.tables (.ofSerial 4) ∧
      s.tables.versionsOf (.ofSerial 4) <+: t.tables.versionsOf (.ofSerial 4) ∧
      (s.tables.versionsOf (.ofSerial 4)).length = 1 ∧
      (t.tables.versionsOf (.ofSerial 4)).length = 2 ∧
      t.tables.rowsOf (.ofSerial 4) .published = [⟨.ofSerial 4, .published, ⟨6⟩⟩] := by
  have hany : ∀ cs s, Run Call.Any s (Call.afterAll (.maintainer ⟨"notes"⟩) cs s) :=
    fun cs s => Call.run_afterAll (fun _ _ _ => trivial) s
  have hspares : ∀ s, ∀ c ∈ rewriting, Call.Sparing (.ofSerial 4) s (.maintainer ⟨"notes"⟩) c := by
    intro s c hc
    rw [List.mem_singleton.mp hc]
    intro hboth
    obtain ⟨_, hdelete, -⟩ := hboth
    cases hdelete
  refine ⟨_, _, hany notes _, Call.run_afterAll hspares _, ?_, ?_, by decide +kernel,
    by decide +kernel, by decide +kernel⟩
  · exact (history_of_run ((hany notes _).trans (hany rewriting _)) _).1
  · exact (history_of_run (hany notes _) _).2 _ (Call.run_afterAll hspares _)

end Note

end Store

end ContentStore
