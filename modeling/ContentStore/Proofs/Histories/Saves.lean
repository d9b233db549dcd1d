import ContentStore.Proofs.Effects
import ContentStore.Proofs.Histories.Sound
import ContentStore.Proofs.Items.Maps

/-!
# Snapshots saved in a row

There is one way in which versions come into being: a snapshot is appended under
a new id, after the last version of its item, and is of the same origin as all
versions before it.  A write does this several times, for the item it is about
and for those that follow (`Tables.Saves`).  Whatever is saved, histories stay
sound and only grow at their ends, the catalog stays as it is, and the latest
snapshots are those saved, in front of those from before.
-/

namespace ContentStore

namespace Tables

/-- Snapshots are appended one after the other.  The numbers bound the serial
numbers given out before and after. -/
inductive Saves : Nat → Tables → List Item → Nat → Tables → Prop
  | done {n m : Nat} {t : Tables} (hle : n ≤ m) : Saves n t [] m t
  | next {n m k : Nat} {t u : Tables} {v : Version} {its : List Item} (hnew : n ≤ v.id.number)
      (hid : v.id.number < m)
      (hparents : v.parents = ((t.versionsOf v.item.id).getLast?.map Version.id).toList)
      (horigin : ∀ w ∈ t.versionsOf v.item.id, w.item.origin = v.item.origin)
      (hitem : v.item.id.Given m) (hrest : Saves m (t.appended v) its k u) :
      Saves n t (v.item :: its) k u

namespace Saves

variable {n m k : Nat} {t u w : Tables} {its more : List Item}

/-- No serial number is taken back. -/
theorem le (h : Saves n t its m u) : n ≤ m := by
  induction h with
  | done hle => exact hle
  | next hnew hid _ _ _ _ ih => omega

/-- Saves follow each other. -/
theorem append (h : Saves n t its m u) (h' : Saves m u more k w) : Saves n t (its ++ more) k w := by
  induction h with
  | done hle =>
    cases h' with
    | done hle' => exact .done (Nat.le_trans hle hle')
    | next hnew hid hparents horigin hitem hrest =>
      exact .next (Nat.le_trans hle hnew) hid hparents horigin hitem hrest
  | next hnew hid hparents horigin hitem _ ih =>
    exact .next hnew hid hparents horigin hitem (ih h')

/-- Saves leave tables sound. -/
theorem sound (h : Saves n t its m u) (hs : Sound n t) : Sound m u := by
  induction h with
  | done hle => exact hs.mono hle
  | next hnew hid hparents horigin hitem _ ih =>
    exact ih (hs.appended hnew hid hparents horigin hitem)

/-- Histories only grow, and only at their ends. -/
theorem prefix_versionsOf (h : Saves n t its m u) (x : ItemId) :
    t.versionsOf x <+: u.versionsOf x := by
  induction h with
  | done => exact List.prefix_rfl
  | next _ _ _ _ _ _ ih =>
    refine List.IsPrefix.trans ?_ ih
    rw [versionsOf_appended]
    exact List.prefix_append _ _

/-- Items that are not saved keep their versions. -/
theorem versionsOf_other (h : Saves n t its m u) {x : ItemId} (hx : ∀ it ∈ its, it.id ≠ x) :
    u.versionsOf x = t.versionsOf x := by
  induction h with
  | done => rfl
  | next _ _ _ _ _ _ ih =>
    rw [ih fun it hit => hx it (List.mem_cons_of_mem _ hit), versionsOf_appended,
      if_neg (hx _ List.mem_cons_self), List.append_nil]

/-- Items that are not saved keep their refs. -/
theorem rowsOf_other (h : Saves n t its m u) {x : ItemId} (hx : ∀ it ∈ its, it.id ≠ x) (r : Ref) :
    u.rowsOf x r = t.rowsOf x r := by
  induction h with
  | done => rfl
  | next _ _ _ _ _ _ ih =>
    rw [ih fun it hit => hx it (List.mem_cons_of_mem _ hit), rowsOf_appended,
      if_neg fun hboth => hx _ List.mem_cons_self hboth.1.symm]

/-- Only items that are saved differ. -/
theorem alters (h : Saves n t its m u) {x : ItemId} (hx : t.Alters u x) :
    ∃ it ∈ its, it.id = x := by
  refine Classical.byContradiction fun hnot => ?_
  have hother : ∀ it ∈ its, it.id ≠ x := fun it hit heq => hnot ⟨it, hit, heq⟩
  rcases hx with hne | ⟨r, hne⟩
  · exact hne (h.versionsOf_other hother)
  · exact hne (h.rowsOf_other hother r)

/-- Of the catalog nothing changes. -/
theorem catalog (h : Saves n t its m u) :
    u.schemas = t.schemas ∧ u.models = t.models ∧ u.groups = t.groups := by
  induction h with
  | done => exact ⟨rfl, rfl, rfl⟩
  | next _ _ _ _ _ _ ih => exact ih

end Saves

/-- A snapshot appended is the latest of its item. -/
theorem latestItem_appended {n m : Nat} {t : Tables} {v : Version} (hs : Sound n t)
    (hs' : Sound m (t.appended v)) :
    Write.latestItem (t.appended v) = put (Write.latestItem t) v.item := by
  funext x
  rw [hs'.latestItem_eq, versionsOf_appended, put, hs.latestItem_eq]
  by_cases hx : x = v.item.id
  · subst hx
    simp
  · have hne : ¬ v.item.id = x := fun h => hx h.symm
    simp [hx, hne]

/-- The latest snapshots are those saved, in front of those from before. -/
theorem Saves.latestItem {n m : Nat} {t u : Tables} {its : List Item} (h : Saves n t its m u)
    (hs : Sound n t) : Write.latestItem u = putAll (Write.latestItem t) its := by
  induction h with
  | done => rfl
  | next hnew hid hparents horigin hitem _ ih =>
    have hs' := hs.appended hnew hid hparents horigin hitem
    rw [ih hs', latestItem_appended hs hs', putAll_cons]

end Tables

/-! ## Histories read from the tables -/

namespace Tables

/-- A history is put together from the versions and refs of its item. -/
theorem ofParts_eq (t : Tables) (x : ItemId) (versions : List Version) :
    History.ofParts x versions (t.refsOf x) =
      ({ item := x, versions, latest := t.target? x .latest,
         published := t.target? x .published } : History).syncRefs := by
  unfold History.ofParts refsOf Ref.all
  cases hl : t.target? x .latest <;> cases hp : t.target? x .published <;>
    simp [hl, hp, History.setTarget, History.empty]

/-- What the tables have of an item, as a history. -/
def shown (t : Tables) (x : ItemId) : History :=
  ({ item := x, versions := t.versionsOf x, latest := t.target? x .latest,
     published := t.target? x .published } : History).syncRefs

/-- An item has a history if it has versions. -/
theorem history?_eq (t : Tables) (x : ItemId) :
    t.history? x = if t.versionsOf x = [] then none else some (t.shown x) := by
  unfold history? shown
  simp only [List.isEmpty_iff, ofParts_eq]

/-- An item has a history just if it has versions. -/
theorem history?_eq_some_iff {t : Tables} {x : ItemId} {h : History} :
    t.history? x = some h ↔ t.versionsOf x ≠ [] ∧ t.shown x = h := by
  rw [history?_eq]
  split <;> simp [*]

/-- The history of an item is made of its versions and its refs. -/
theorem history?_eq_some {t : Tables} {x : ItemId} {h : History} (hh : t.history? x = some h) :
    t.versionsOf x ≠ [] ∧ h.item = x ∧ h.latest = t.target? x .latest ∧
      h.versions.map (fun v => (v.id, v.item)) =
        (t.versionsOf x).map fun v => (v.id, v.item) := by
  obtain ⟨hne, rfl⟩ := history?_eq_some_iff.mp hh
  refine ⟨hne, rfl, rfl, ?_⟩
  simp [shown, History.syncRefs]

/-- The history that a write continues is that of its item, be it empty. -/
theorem Sound.continued {n : Nat} {t : Tables} (hs : Sound n t) (x : ItemId) :
    (t.history? x).getD (.empty x) = t.shown x := by
  rw [history?_eq]
  split
  · rename_i hnil
    have htarget : ∀ r, t.target? x r = none := by
      intro r
      rw [target?_eq_head?_rowsOf, hs.rowsOf_of_absent hnil]
      rfl
    rw [shown, hnil, htarget, htarget]
    rfl
  · rfl

/-- The history that a save continues is that of its item, and ends with the last version.
-/
theorem Sound.history_continued {n : Nat} {t : Tables} (hs : Sound n t) (x : ItemId) :
    ((t.history? x).getD (.empty x)).item = x ∧
      ((t.history? x).getD (.empty x)).latest = (t.versionsOf x).getLast?.map Version.id := by
  rw [hs.continued]
  exact ⟨rfl, hs.target?_latest x⟩

/-- Refs point in the history where they point in the tables. -/
theorem target?_shown (t : Tables) (x : ItemId) (r : Ref) :
    (t.shown x).target? r = t.target? x r := by
  cases r <;> rfl

end Tables

/-- Appending makes a version after the latest one, and only after the one
expected. -/
theorem History.append_eq_ok {h h' : History} {it : Item} {timestamp : Time.Instant}
    {expected : Option VersionId} {fresh : VersionId} {v : Version}
    (happend : h.append it timestamp expected fresh = .ok (h', v)) :
    v.id = fresh ∧ v.parents = h.latest.toList ∧ v.item = it ∧
      ∀ e, expected = some e → h.latest = some e := by
  unfold History.append at happend
  simp only [bind, Except.bind, pure, Except.pure, throw, throwThe, MonadExceptOf.throw] at happend
  repeat' split at happend
  all_goals cases happend
  all_goals refine ⟨rfl, rfl, rfl, ?_⟩
  all_goals simp_all

/-- The version made lists the refs that name it, `latest` among them. -/
theorem History.refs_of_append {h h' : History} {it : Item} {timestamp : Time.Instant}
    {expected : Option VersionId} {fresh : VersionId} {v : Version}
    (happend : h.append it timestamp expected fresh = .ok (h', v)) :
    v.refs = Ref.all.filter fun r =>
      (if r = .latest then some fresh else h.target? r) == some fresh := by
  have hrefs : v.refs = ({ h with latest := some fresh } : History).refsOf fresh := by
    unfold History.append at happend
    simp only [bind, Except.bind, pure, Except.pure, throw, throwThe, MonadExceptOf.throw]
      at happend
    repeat' split at happend
    all_goals cases happend
    all_goals rfl
  rw [hrefs, History.refsOf]
  refine List.filter_congr fun r _ => ?_
  cases r <;> rfl

namespace Write

open Tables

/-- An expected version that is not the latest one is a conflict. -/
theorem append_conflict {w : Work} {it : Item} {e actual : VersionId}
    (hs : Sound w.supply.next w.tables)
    (hlast : (w.tables.versionsOf it.id).getLast?.map Version.id = some actual)
    (hne : actual ≠ e) : Fails (append it (some e)) w (.conflict it.id e actual) := by
  obtain ⟨hhistory, hlatest⟩ := hs.history_continued it.id
  rw [hlast] at hlatest
  have hconflict : ∀ timestamp fresh,
      ((w.tables.history? it.id).getD (.empty it.id)).append it timestamp (some e) fresh =
        .error (.conflict it.id e actual) := by
    intro timestamp fresh
    unfold History.append
    rw [hlatest, hhistory, if_neg (by simp)]
    dsimp only
    rw [if_pos hne]
    rfl
  unfold append
  refine fails_bind (gives_tables.mpr ⟨rfl, rfl⟩) (fails_bind rfl (fails_bind rfl ?_))
  rw [hconflict]
  exact fails_first ⟨_, rfl⟩ _

/-- **The steps of appending.**  The history of the item is prolonged, and then stored. -/
theorem append_steps {w w' : Work} {it : Item} {expected : Option VersionId} {v : Version}
    (hs : Sound w.supply.next w.tables) (h : Gives (append it expected) w v w') :
    ∃ h' timestamp,
      (w.tables.shown it.id).append it timestamp expected ⟨w.supply.next⟩ = .ok (h', v) ∧
        w'.tables = w.tables.appended v ∧ w'.supply.next = w.supply.next + 1 := by
  unfold append at h
  simp only [gives_bind, gives_tables, gives_lift, gives_change, gives_pure] at h
  obtain ⟨_, _, ⟨rfl, rfl⟩, timestamp, w₁, hnow, n, w₂, hfresh, ⟨h', v'⟩, _, ⟨happend, rfl⟩, _, _,
    ⟨rfl, rfl⟩, t, _, ⟨hinsert, rfl⟩, _, _, rfl, rfl, rfl⟩ := h
  obtain ⟨htables₁, hsupply₁⟩ := gives_now hnow
  obtain ⟨rfl, htables₂, hsupply₂⟩ := gives_fresh hfresh
  obtain ⟨-, -, rfl, -⟩ := History.append_eq_ok happend
  rw [hs.continued, hsupply₁] at happend
  rw [htables₂, htables₁] at hinsert
  unfold insertVersion at hinsert
  split at hinsert
  · cases hinsert
  · cases hinsert
    exact ⟨h', timestamp, happend, rfl, by rw [hsupply₂, hsupply₁]⟩

/-- Appending a snapshot saves it.  The version expected, if there is one, was
the last. -/
theorem gives_append {w w' : Work} {it : Item} {expected : Option VersionId} {v : Version}
    (hs : Sound w.supply.next w.tables)
    (horigin : ∀ a ∈ w.tables.versionsOf it.id, a.item.origin = it.origin)
    (hitem : it.id.Given w.supply.next)
    (h : Gives (append it expected) w v w') :
    v.item = it ∧ Saves w.supply.next w.tables [it] w'.supply.next w'.tables ∧
      w'.tables = w.tables.appended v ∧ v.id.number = w.supply.next ∧
      w'.supply.next = w.supply.next + 1 ∧
      v.parents = ((w.tables.versionsOf it.id).getLast?.map Version.id).toList ∧
      ∀ e, expected = some e → (w.tables.versionsOf it.id).getLast?.map Version.id = some e := by
  obtain ⟨h', timestamp, happend, htables, hsupply⟩ := append_steps hs h
  obtain ⟨hid, hparents, rfl, hexpected⟩ := History.append_eq_ok happend
  rw [show (w.tables.shown v.item.id).latest = _ from hs.target?_latest v.item.id]
    at hparents hexpected
  rw [htables, hsupply]
  refine ⟨rfl, ?_, rfl, by rw [hid], rfl, hparents, hexpected⟩
  refine .next (Nat.le_of_eq (by rw [hid])) (by rw [hid]; exact Nat.lt_succ_self _)
    hparents horigin ?_ (.done (Nat.le_refl _))
  exact hitem.mono (Nat.le_succ _)

/-! ## Followers -/

/-- A snapshot with its last editor. -/
def stamp (o : Operator) (it : Item) : Item := { it with updatedBy := some o.principal }

/-- A stored item of the same origin. -/
def Follows (t : Tables) (it : Item) : Prop :=
  ∃ old, latestItem t it.id = some old ∧ it.origin = old.origin

/-- Saving a follower leaves the others followers. -/
theorem Follows.put {o : Operator} {t u : Tables} {it other : Item} (h : Follows t it)
    (hother : Follows t other) (hu : latestItem u = put (latestItem t) (stamp o other)) :
    Follows u it := by
  obtain ⟨old, hold, horigin⟩ := h
  unfold Follows
  rw [hu]
  by_cases hid : it.id = other.id
  · obtain ⟨old', hold', horigin'⟩ := hother
    rw [← hid, hold] at hold'
    cases hold'
    exact ⟨stamp o other, by rw [hid]; exact put_self _ (stamp o other),
      horigin.trans horigin'.symm⟩
  · have hother : it.id ≠ (stamp o other).id := hid
    exact ⟨old, (put_other _ hother).trans hold, horigin⟩

/-- A follower is saved as the next snapshot of its item, with its editor. -/
theorem gives_saveFollower {o : Operator} {it : Item} {w w' : Work} {a : Unit}
    (hs : Sound w.supply.next w.tables) (hit : Follows w.tables it)
    (h : Gives (saveFollower o it) w a w') :
    Saves w.supply.next w.tables [stamp o it] w'.supply.next w'.tables := by
  obtain ⟨old, hold, horigin⟩ := hit
  unfold saveFollower at h
  simp only [gives_bind, gives_pure] at h
  obtain ⟨v, _, happend, -, rfl⟩ := h
  change Gives (append (stamp o it) none) w v _ at happend
  have hid : (stamp o it).id = it.id := rfl
  have hstamp : (stamp o it).origin = it.origin := rfl
  have hkin : ∀ b ∈ w.tables.versionsOf (stamp o it).id, b.item.origin = (stamp o it).origin := by
    intro b hb
    rw [hstamp, horigin]
    exact hs.origin_of_latestItem hold b hb
  have hgiven : (stamp o it).id.Given w.supply.next := hs.item_given hold
  exact (gives_append hs hkin hgiven happend).2.1

/-- So are all followers, in their order. -/
theorem gives_saveFollowers {o : Operator} {its : List Item} {w w' : Work} {a : Unit}
    (hs : Sound w.supply.next w.tables) (hits : ∀ it ∈ its, Follows w.tables it)
    (h : Gives (saveFollowers o its) w a w') :
    Saves w.supply.next w.tables (its.map (stamp o)) w'.supply.next w'.tables := by
  unfold saveFollowers at h
  induction its generalizing w with
  | nil =>
    rw [gives_forM_nil] at h
    subst h
    exact .done (Nat.le_refl _)
  | cons it its ih =>
    rw [gives_forM_cons] at h
    obtain ⟨u, hfirst, hrest⟩ := h
    have hit := hits it List.mem_cons_self
    have hsaved := gives_saveFollower hs hit hfirst
    have hu : latestItem u.tables = ContentStore.put (latestItem w.tables) (stamp o it) :=
      hsaved.latestItem hs
    refine hsaved.append (ih (hsaved.sound hs) ?_ hrest)
    intro other hother
    exact (hits other (List.mem_cons_of_mem _ hother)).put hit hu

end Write

end ContentStore
