import ContentStore.Proofs.Declarations.Applying

/-!
# Applying a catalog again

A catalog that has been applied once has all of its keys taken, also where it
repeats a key, since nothing that it makes later takes a key away.  So when it is
applied again there is nothing left to do, and the store stays as it is down to
its serial numbers (`Store.declare_again`).
-/

namespace ContentStore.Store

open Declaration (Entry Owner)

variable {d : Declaration} {s : Store}

/-- Once a catalog has been applied, the key of every owner it declares is taken. -/
theorem taken_of_declared (hs : s.Reachable) (h : (declare d s).1 = .ok ()) {owner : Owner}
    (howner : owner.taken d s.tables = true ∨
      (d.pending s.tables).any (Entry.opens owner) = true) :
    owner.taken d (declare d s).2.tables = true := by
  obtain ⟨done, rest, hpending, hok, hrun⟩ := declare_enters d hs.ready
  obtain rfl := hok.mp h
  rw [List.append_nil] at hpending
  rw [(hrun.grows hs.ready).taken, ← hpending]
  exact Bool.or_eq_true_iff.mpr howner

/-- **A catalog that has been applied is applied again by doing nothing.**  All keys that
it declares are found, and the store is the same after the second time. -/
theorem declare_again (hs : s.Reachable) (h : (declare d s).1 = .ok ()) :
    (∀ g ∈ d.groups,
      ((declare d s).2.tables.groupByKey? d.projectId g.key).isSome = true) ∧
    (∀ m ∈ d.models,
      ((declare d s).2.tables.modelByKey? d.projectId m.key).isSome = true) ∧
    declare d (declare d s).2 = (.ok (), (declare d s).2) := by
  have hgroups : ∀ g ∈ d.groups,
      ((declare d s).2.tables.groupByKey? d.projectId g.key).isSome = true :=
    fun g hg => taken_of_declared hs h (Declaration.taken_or_pending_group hg)
  have hmodels : ∀ m ∈ d.models,
      ((declare d s).2.tables.modelByKey? d.projectId m.key).isSome = true :=
    fun m hm => taken_of_declared hs h (Declaration.taken_or_pending_model hm)
  exact ⟨hgroups, hmodels, declare_of_taken hgroups hmodels⟩

section Echoes

/-- Two groups of one key and two models of another, which refer to each other. -/
def echoes : Declaration := ⟨some "project", some "press", none,
  [⟨"link", none, none, [.ofKey "label" .text]⟩, ⟨"link", none, none, [.ofKey "label" .text]⟩],
  [⟨"post", none, none, [{ Declaration.Field.ofKey "reply" .reference with
      model := some "post", mirror := some ⟨"question", none, none, false⟩ },
    { Declaration.Field.ofKey "links" .group with group := some "link", multiple := true }],
    [.ofKey "checked" .checkbox]⟩,
  ⟨"post", none, none, [.ofKey "title" .text], []⟩]⟩

/-- The first of each is made, and the second time none. -/
theorem declare_again_of_echoes : ∃ s : Store, s.Reachable ∧ (declare echoes s).1 = .ok () ∧
    (declare echoes s).2.tables.models.map Model.key = ["post"] ∧
    (declare echoes s).2.tables.groups.map Group.key = ["link"] ∧
    declare echoes (declare echoes s).2 = (.ok (), (declare echoes s).2) := by
  have hs := reachable_blank .standard ⟨⟨0, 0⟩, 1⟩ ⟨0⟩ .silent
  have hok : (declare echoes (blank .standard ⟨⟨0, 0⟩, 1⟩ ⟨0⟩ .silent)).1 = .ok () := by
    decide +kernel
  exact ⟨_, hs, hok, by decide +kernel, by decide +kernel, (declare_again hs hok).2.2⟩

end Echoes

end ContentStore.Store
