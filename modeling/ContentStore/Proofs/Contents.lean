import ContentStore.Proofs.Runs
import ContentStore.Proofs.Writes.Followers

/-!
# Runs about items

While calls are about items only, the catalog stays (`sameCatalog_of_run`).  What
such a call does to a store whose items suit the catalog (`Stocked`) is said once,
in terms of the snapshot that it writes (`Touches`), so that an invariant of the
items is proved by going through these cases.  That the items suit the catalog is
the first of them (`stocked_of_run`).
-/

namespace ContentStore.Store

open Tables

variable {s s' t : Store}

/-- Every stored item suits the catalog of a sane store. -/
structure Stocked (s : Store) : Prop where
  sane : s.Sane
  suits : ∀ x it, Write.latestItem s.tables x = some it → s.tables.Suits it

/-- What a call about items can do: nothing, write a snapshot, remove an item or
move refs. -/
inductive Touches (s t : Store) : Prop
  | rests (h : s.Rests t)
  | puts {o : Operator} {p : Package} {old : Option Item} {it : Item} {values : List ItemField}
      (h : Write.Snapshot s.supply.next s.tables p old it values)
      (hputs : Write.Puts o p old it s.supply.next s.tables t.supply.next t.tables)
  | removes {o : Operator} {p : Package} {it : Item} (hp : Packed s.tables p)
      (hmodel : p.model.id = it.model) (hschema : p.schema.id = it.schema)
      (h : Write.Removes o p it s.supply.next s.tables t.supply.next t.tables)
  | publishes (h : Write.MovesRefs s.supply.next s.tables t.supply.next t.tables)

/-! ## The catalog stays -/

theorem Rests.sameCatalog (h : s.Rests t) : SameCatalog s.tables t.tables := by
  rw [h.1]
  exact ⟨rfl, rfl, rfl⟩

/-- A call about items leaves the catalog as it is, and takes no serial number
back. -/
theorem sameCatalog_of_outcome {ctx : Context} {c : Call} (h : Outcome s ctx c t)
    (hitems : c.OfItems) :
    SameCatalog s.tables t.tables ∧ s.supply.next ≤ t.supply.next := by
  have hput : ∀ {p old it n m t u}, Write.Puts ctx.operator p old it n t m u →
      SameCatalog t u ∧ n ≤ m := by
    intro p old it n m t u hputs
    obtain ⟨its, hsaves⟩ := hputs.saves
    exact ⟨hputs.sameCatalog, hsaves.le⟩
  cases h with
  | rests h => exact ⟨h.sameCatalog, h.2⟩
  | creates _ _ _ _ hputs => exact hput hputs
  | updates _ _ _ _ hputs => exact hput hputs
  | removes _ _ _ _ h =>
    obtain ⟨its, u, hsaves, -⟩ := h.saves
    exact ⟨h.sameCatalog, hsaves.le⟩
  | publishes _ _ h =>
    obtain ⟨⟨refs, htables⟩, hle, -⟩ := h
    rw [htables]
    exact ⟨⟨rfl, rfl, rfl⟩, hle⟩
  | reshapes hcatalog _ => exact (hcatalog hitems).elim
  | declares hc _ =>
    subst hc
    exact hitems.elim

/-- A call about items leaves the catalog. -/
theorem sameCatalog_of_step (hs : s.Sane) (h : Step Call.OnItems s t) :
    SameCatalog s.tables t.tables ∧ s.supply.next ≤ t.supply.next := by
  cases h with
  | rest h => exact ⟨h.sameCatalog, h.2⟩
  | call hitems => exact sameCatalog_of_outcome (outcome_after hs _ _) hitems

/-! ## A store without items -/

/-- No items are stored, whatever the catalog. -/
def Unstocked (s : Store) : Prop := s.tables.versions = []

theorem Unstocked.latestItem {s : Store} (h : s.Unstocked) (hs : s.Sane) (x : ItemId) :
    Write.latestItem s.tables x = none := by
  rw [hs.sound.latestItem_eq_none_iff, versionsOf, h]
  rfl

theorem Unstocked.stocked (h : s.Unstocked) (hs : s.Sane) : s.Stocked :=
  ⟨hs, fun x _ hit => nomatch (h.latestItem hs x).symm.trans hit⟩

/-! ## One step -/

/-- The package that a model is written with. -/
theorem packed_of_writes {t : Tables} {p : Package} (h : t.Writes p) : Packed t p := by
  rcases h with hp | ⟨q, hq, hp⟩
  · exact (packed_package hp).1
  · exact (packed_metadataPackage (packed_package hq).1 hp).1

/-- **What a step about items does** to a stocked store. -/
theorem touches_of_step (hs : s.Stocked) (h : Step Call.OnItems s t) : Touches s t := by
  have hsound := hs.sane.sound
  have hwired := hs.sane.wired
  cases h with
  | rest h => exact .rests h
  | @call ctx c hitems =>
    cases outcome_after hs.sane ctx c with
    | rests h => exact .rests h
    | creates _ _ hp hit hputs =>
      exact .puts (Write.snapshot_of_created hsound hwired (packed_of_writes hp) hit) hputs
    | updates _ _ hp hit hputs =>
      have hold := hs.suits _ _ hit.stored
      obtain ⟨hpacked, hmodel, hschema⟩ := packed_itemPackage hp
      have hschema := hschema hold.placed hwired.models_distinct
      exact .puts (Write.snapshot_of_updated hwired hpacked hmodel hschema hold hit) hputs
    | removes _ _ hp _ h =>
      have hold := hs.suits _ _ h.stored
      obtain ⟨hpacked, hmodel, hschema⟩ := packed_itemPackage hp
      exact .removes hpacked hmodel (hschema hold.placed hwired.models_distinct) h
    | publishes _ _ h => exact .publishes h
    | reshapes hcatalog _ => exact (hcatalog hitems).elim
    | declares hc _ =>
      subst hc
      exact hitems.elim

/-- **Items suit the catalog after a step** about items. -/
theorem stocked_of_step (hs : s.Stocked) (h : Step Call.OnItems s t) : t.Stocked := by
  refine ⟨sane_of_step h hs.sane, ?_⟩
  obtain ⟨hcatalog, -⟩ := sameCatalog_of_step hs.sane h
  cases touches_of_step hs h with
  | rests h =>
    rw [h.1]
    exact hs.suits
  | puts h hputs => exact Write.suits_after hs.sane.sound hs.sane.wired h hputs hs.suits
  | removes _ _ _ h =>
    intro z Z hZ
    obtain ⟨-, -, Y, hY, htrails⟩ := (Write.removes_after hs.sane.sound h).1 z Z hZ
    refine h.sameCatalog.suits ((hs.suits z Y hY).trails (htrails.mono ?_))
    exact fun _ hfalse => hfalse.elim
  | publishes h =>
    intro z Z hZ
    rw [h.latestItem hs.sane.sound] at hZ
    exact hcatalog.suits (hs.suits z Z hZ)

/-- **Every item suits the catalog** as long as only items are written. -/
theorem stocked_of_run (hs : s.Stocked) (h : Run Call.OnItems s t) : t.Stocked := by
  induction h with
  | refl => exact hs
  | tail _ hstep ih => exact stocked_of_step ih hstep

/-- Calls about items leave the catalog as it is. -/
theorem sameCatalog_of_run (hs : s.Stocked) (h : Run Call.OnItems s t) :
    SameCatalog s.tables t.tables := by
  induction h with
  | refl => exact ⟨rfl, rfl, rfl⟩
  | tail hrun hstep ih =>
    obtain ⟨hlast, -⟩ := sameCatalog_of_step (stocked_of_run hs hrun).sane hstep
    exact ⟨hlast.schemas.trans ih.schemas, hlast.models.trans ih.models,
      hlast.groups.trans ih.groups⟩

end ContentStore.Store
