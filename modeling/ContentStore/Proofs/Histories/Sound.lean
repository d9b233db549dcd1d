import ContentStore.Proofs.Histories.Rows
import ContentStore.Proofs.Identifiers
import ContentStore.Proofs.Items.Trails
import ContentStore.Store.Items
import Mathlib.Data.List.Nodup

/-!
# Sound histories

What the two tables of versions and refs say together about every item, as one
invariant: versions have ids of their own, those of one item form a line in
which each is the only parent of the next, they agree on what never changes
about an item, `latest` is one row that names the last of them, and `public`
is at most one row and names one of them.  The number `n` bounds the serial
numbers given out, so that an id made from `n` or more is new.

The tables change in four ways: a version is appended, an item is removed, and
`public` is set or removed.  Each keeps the invariant (`Sound.appended`,
`Sound.deleteItem`, `Sound.setPublished`, `Sound.deletePublished`).
-/

namespace ContentStore

/-- The first version has `before` as its only parent, or no parent if there is
no version before it; every other one has the version directly before it as its
only parent. -/
def Linear : Option VersionId → List Version → Prop
  | _, [] => True
  | before, v :: vs => v.parents = before.toList ∧ Linear (some v.id) vs

theorem linear_concat {before : Option VersionId} {vs : List Version} {v : Version}
    (hvs : Linear before vs) (hv : v.parents = ((vs.getLast?.map Version.id).or before).toList) :
    Linear before (vs ++ [v]) := by
  induction vs generalizing before with
  | nil => exact ⟨by simpa using hv, trivial⟩
  | cons w ws ih =>
    refine ⟨hvs.1, ih hvs.2 ?_⟩
    rw [hv, List.getLast?_cons]
    cases ws.getLast? <;> rfl

/-- Every history is in order, and all ids were made from numbers below `n`. -/
structure Tables.Sound (n : Nat) (t : Tables) : Prop where
  ids_distinct : (t.versions.map Version.id).Nodup
  ids_given : ∀ v ∈ t.versions, v.id.number < n
  items_given : ∀ v ∈ t.versions, v.item.id.Given n
  one_origin : ∀ v ∈ t.versions, ∀ w ∈ t.versions,
    v.item.id = w.item.id → v.item.origin = w.item.origin
  linear : ∀ x, Linear none (t.versionsOf x)
  latest_last : ∀ x, (t.rowsOf x .latest).map RefRow.version =
    ((t.versionsOf x).getLast?.map Version.id).toList
  published_once : ∀ x, (t.rowsOf x .published).length ≤ 1
  published_own : ∀ x, ∀ row ∈ t.rowsOf x .published, ∃ v ∈ t.versionsOf x, v.id = row.version

namespace Tables

/-- Empty tables are sound. -/
theorem sound_empty (n : Nat) : Sound n empty where
  ids_distinct := List.nodup_nil
  ids_given := by simp [empty]
  items_given := by simp [empty]
  one_origin := by simp [empty]
  linear := fun _ => trivial
  latest_last := fun _ => rfl
  published_once := fun _ => Nat.zero_le 1
  published_own := by simp [empty, rowsOf]

namespace Sound

variable {n m : Nat} {t : Tables}

theorem mono (hs : Sound n t) (h : n ≤ m) : Sound m t :=
  { hs with
    ids_given := fun v hv => Nat.lt_of_lt_of_le (hs.ids_given v hv) h
    items_given := fun v hv => (hs.items_given v hv).mono h }

/-- Tables that agree on versions and refs are sound together. -/
theorem congr {u : Tables} (hs : Sound n t) (hv : u.versions = t.versions)
    (hr : u.refs = t.refs) : Sound n u := by
  cases t
  cases u
  subst hv hr
  exact ⟨hs.1, hs.2, hs.3, hs.4, hs.5, hs.6, hs.7, hs.8⟩

/-! ## What the invariant says about reads -/

/-- `latest` points at the last version. -/
theorem target?_latest (hs : Sound n t) (x : ItemId) :
    t.target? x .latest = (t.versionsOf x).getLast?.map Version.id := by
  have h := hs.latest_last x
  rw [target?_eq_head?_rowsOf, ← List.head?_map, h]
  cases (t.versionsOf x).getLast? <;> rfl

/-- A version is found by its id. -/
theorem version?_of_mem (hs : Sound n t) {v : Version} (hv : v ∈ t.versions) :
    t.version? v.id = some v :=
  find?_of_nodup hs.ids_distinct hv

/-- Every item has one row for a ref at most. -/
theorem rowsOf_once (hs : Sound n t) (x : ItemId) (r : Ref) : (t.rowsOf x r).length ≤ 1 := by
  cases r with
  | published => exact hs.published_once x
  | latest =>
    have hlength := congrArg List.length (hs.latest_last x)
    rw [List.length_map] at hlength
    rw [hlength, Option.length_toList]
    split <;> omega

/-- Under one ref every item is listed once. -/
theorem items_distinct (hs : Sound n t) (r : Ref) :
    ((t.refs.filter fun row => row.ref == r).map RefRow.item).Nodup := by
  rw [List.nodup_iff_count_le_one]
  intro x
  have hcount : ((t.refs.filter fun row => row.ref == r).map RefRow.item).count x =
      (t.rowsOf x r).length := by
    rw [List.count, List.countP_map, List.countP_eq_length_filter, List.filter_filter]
    rfl
  rw [hcount]
  exact hs.rowsOf_once x r

/-- A stored row says where its ref points. -/
theorem target?_of_mem (hs : Sound n t) {row : RefRow} (h : row ∈ t.refs) :
    t.target? row.item row.ref = some row.version :=
  target?_of_nodup (hs.items_distinct row.ref) h rfl

/-- What a ref names is a version of the item. -/
theorem exists_of_target? (hs : Sound n t) {x : ItemId} {r : Ref} {id : VersionId}
    (h : t.target? x r = some id) : ∃ v ∈ t.versionsOf x, v.id = id := by
  cases r with
  | latest =>
    rw [hs.target?_latest] at h
    obtain ⟨v, hv, hid⟩ := Option.map_eq_some_iff.mp h
    exact ⟨v, List.mem_of_getLast? hv, hid⟩
  | published =>
    rw [target?_eq_head?_rowsOf] at h
    obtain ⟨row, hrow, rfl⟩ := Option.map_eq_some_iff.mp h
    exact hs.published_own x row (List.mem_of_head? hrow)

/-- The latest snapshot of an item is that of its last version. -/
theorem latestItem_eq (hs : Sound n t) (x : ItemId) :
    Write.latestItem t x = (t.versionsOf x).getLast?.map Version.item := by
  unfold Write.latestItem latest? findByRef?
  rw [hs.target?_latest]
  cases hl : (t.versionsOf x).getLast? with
  | none => rfl
  | some v =>
    have hv := (mem_versionsOf.mp (List.mem_of_getLast? hl)).1
    simp [hs.version?_of_mem hv, withRefsOf]

/-- An item without versions has no refs. -/
theorem rowsOf_of_absent (hs : Sound n t) {x : ItemId} (h : t.versionsOf x = []) (r : Ref) :
    t.rowsOf x r = [] := by
  cases r with
  | latest =>
    have hlatest := hs.latest_last x
    rw [h] at hlatest
    exact List.map_eq_nil_iff.mp hlatest
  | published =>
    rw [List.eq_nil_iff_forall_not_mem]
    intro row hrow
    obtain ⟨v, hv, -⟩ := hs.published_own x row hrow
    rw [h] at hv
    exact List.not_mem_nil hv

theorem id_of_latestItem (hs : Sound n t) {x : ItemId} {it : Item}
    (h : Write.latestItem t x = some it) : it.id = x := by
  rw [hs.latestItem_eq] at h
  obtain ⟨v, hl, rfl⟩ := Option.map_eq_some_iff.mp h
  exact (mem_versionsOf.mp (List.mem_of_getLast? hl)).2

theorem latestItem_eq_none_iff (hs : Sound n t) (x : ItemId) :
    Write.latestItem t x = none ↔ t.versionsOf x = [] := by
  rw [hs.latestItem_eq, Option.map_eq_none_iff, List.getLast?_eq_none_iff]

/-- An item that differs is stored before or afterwards. -/
theorem stored_of_alters {u : Tables} (hs : Sound n t) (hu : Sound m u) {x : ItemId}
    (h : t.Alters u x) : (Write.latestItem t x).isSome ∨ (Write.latestItem u x).isSome := by
  rw [Option.isSome_iff_ne_none, Option.isSome_iff_ne_none, Ne, Ne, hs.latestItem_eq_none_iff,
    hu.latestItem_eq_none_iff]
  by_cases ht : t.versionsOf x = []
  · refine .inr fun hu' => ?_
    rcases h with hne | ⟨r, hne⟩
    · exact hne (hu'.trans ht.symm)
    · exact hne ((hu.rowsOf_of_absent hu' r).trans (hs.rowsOf_of_absent ht r).symm)
  · exact .inl ht

/-- Every version of an item has the origin of its latest snapshot. -/
theorem origin_of_latestItem (hs : Sound n t) {x : ItemId} {it : Item}
    (h : Write.latestItem t x = some it) : ∀ v ∈ t.versionsOf x, v.item.origin = it.origin := by
  intro v hv
  rw [hs.latestItem_eq] at h
  obtain ⟨w, hl, rfl⟩ := Option.map_eq_some_iff.mp h
  have hw := mem_versionsOf.mp (List.mem_of_getLast? hl)
  have hv' := mem_versionsOf.mp hv
  exact hs.one_origin v hv'.1 w hw.1 (hv'.2.trans hw.2.symm)

/-- A stored item was made from a number below `n`. -/
theorem item_given (hs : Sound n t) {x : ItemId} {it : Item}
    (h : Write.latestItem t x = some it) : x.Given n := by
  rw [hs.latestItem_eq] at h
  obtain ⟨v, hl, rfl⟩ := Option.map_eq_some_iff.mp h
  have hv := mem_versionsOf.mp (List.mem_of_getLast? hl)
  obtain ⟨k, hk, hid⟩ := hs.items_given v hv.1
  exact ⟨k, hk, hv.2.symm.trans hid⟩

/-- Nothing is stored under an id yet to be made. -/
theorem latestItem_fresh (hs : Sound n t) {k : Nat} (hk : n ≤ k) :
    Write.latestItem t (.ofSerial k) = none := by
  cases h : Write.latestItem t (.ofSerial k) with
  | none => rfl
  | some it => exact ((hs.item_given h).ne_ofSerial hk rfl).elim

/-! ## Changes -/

/-- Appending a version keeps histories in order if its id is new, the last
version of its item is its parent, and it has the origin of those before. -/
theorem appended (hs : Sound n t) {v : Version} (hnew : n ≤ v.id.number) (hid : v.id.number < m)
    (hparents : v.parents = ((t.versionsOf v.item.id).getLast?.map Version.id).toList)
    (horigin : ∀ w ∈ t.versionsOf v.item.id, w.item.origin = v.item.origin)
    (hitem : v.item.id.Given m) : Sound m (t.appended v) := by
  have hnm : n ≤ m := by omega
  have hmem : ∀ w ∈ (t.appended v).versions, w ∈ t.versions ∨ w = { v with refs := [] } := by
    intro w hw
    simpa [versions_appended] using hw
  have horigins : ∀ w ∈ t.versions, w.item.id = v.item.id → w.item.origin = v.item.origin :=
    fun w hw hwv => horigin w (mem_versionsOf.mpr ⟨hw, hwv⟩)
  constructor
  case ids_distinct =>
    rw [versions_appended, List.map_append, List.nodup_append]
    refine ⟨hs.ids_distinct, by simp, ?_⟩
    intro a ha b hb
    obtain ⟨w, hw, rfl⟩ := List.mem_map.mp ha
    have hlt := hs.ids_given w hw
    have hb' : b = v.id := by simpa using hb
    intro heq
    subst heq
    rw [hb'] at hlt
    omega
  case ids_given =>
    intro w hw
    rcases hmem w hw with hw | rfl
    · exact Nat.lt_of_lt_of_le (hs.ids_given w hw) hnm
    · exact hid
  case items_given =>
    intro w hw
    rcases hmem w hw with hw | rfl
    · exact (hs.mono hnm).items_given w hw
    · exact hitem
  case one_origin =>
    intro a ha b hb hab
    rcases hmem a ha with ha | rfl <;> rcases hmem b hb with hb | rfl
    · exact hs.one_origin a ha b hb hab
    · exact horigins a ha hab
    · exact (horigins b hb hab.symm).symm
    · rfl
  case linear =>
    intro x
    rw [versionsOf_appended]
    by_cases hx : v.item.id = x
    · subst hx
      rw [if_pos rfl]
      exact linear_concat (hs.linear _) (by simpa using hparents)
    · simpa [hx] using hs.linear x
  case latest_last =>
    intro x
    rw [versionsOf_appended, rowsOf_appended]
    by_cases hx : v.item.id = x
    · subst hx
      simp
    · have hx' : x ≠ v.item.id := fun h => hx h.symm
      simpa [hx, hx'] using hs.latest_last x
  case published_once =>
    intro x
    rw [rowsOf_appended, if_neg (by simp)]
    exact hs.published_once x
  case published_own =>
    intro x row hrow
    rw [rowsOf_appended, if_neg (by simp)] at hrow
    obtain ⟨w, hw, hwr⟩ := hs.published_own x row hrow
    exact ⟨w, by rw [versionsOf_appended]; exact List.mem_append_left _ hw, hwr⟩

/-- Removing an item removes its history and its refs together. -/
theorem deleteItem (hs : Sound n t) (item : ItemId) : Sound n (t.deleteItem item) := by
  have hmem : ∀ v ∈ (t.deleteItem item).versions, v ∈ t.versions := by
    intro v hv
    exact (List.mem_filter.mp hv).1
  constructor
  case ids_distinct => exact hs.ids_distinct.sublist (List.filter_sublist.map _)
  case ids_given => exact fun v hv => hs.ids_given v (hmem v hv)
  case items_given => exact fun v hv => hs.items_given v (hmem v hv)
  case one_origin => exact fun v hv w hw => hs.one_origin v (hmem v hv) w (hmem w hw)
  case linear =>
    intro x
    rw [versionsOf_deleteItem]
    split
    · trivial
    · exact hs.linear x
  case latest_last =>
    intro x
    rw [versionsOf_deleteItem, rowsOf_deleteItem]
    split
    · rfl
    · exact hs.latest_last x
  case published_once =>
    intro x
    rw [rowsOf_deleteItem]
    split
    · exact Nat.zero_le 1
    · exact hs.published_once x
  case published_own =>
    intro x row hrow
    rw [rowsOf_deleteItem] at hrow
    rw [versionsOf_deleteItem]
    split at hrow
    · cases hrow
    · rename_i hx
      rw [if_neg hx]
      exact hs.published_own x row hrow

/-- Publishing one of the versions of an item. -/
theorem setPublished (hs : Sound n t) {x : ItemId} {v : Version} (hv : v ∈ t.versionsOf x) :
    Sound n (t.setRef x .published v.id) := by
  refine ⟨hs.1, hs.2, hs.3, hs.4, hs.5, ?latest, ?once, ?own⟩
  case latest =>
    intro y
    rw [rowsOf_setRef, if_neg (by simp)]
    exact hs.latest_last y
  case once =>
    intro y
    rw [rowsOf_setRef]
    split
    · exact Nat.le_refl 1
    · exact hs.published_once y
  case own =>
    intro y row hrow
    rw [rowsOf_setRef] at hrow
    split at hrow
    · rename_i h
      rw [List.mem_singleton] at hrow
      exact ⟨v, h.1 ▸ hv, hrow ▸ rfl⟩
    · exact hs.published_own y row hrow

/-- Withdrawing an item. -/
theorem deletePublished (hs : Sound n t) (x : ItemId) : Sound n (t.deleteRef x .published) := by
  refine ⟨hs.1, hs.2, hs.3, hs.4, hs.5, ?latest, ?once, ?own⟩
  case latest =>
    intro y
    rw [rowsOf_deleteRef, if_neg (by simp)]
    exact hs.latest_last y
  case once =>
    intro y
    rw [rowsOf_deleteRef]
    split
    · exact Nat.zero_le 1
    · exact hs.published_once y
  case own =>
    intro y row hrow
    rw [rowsOf_deleteRef] at hrow
    split at hrow
    · cases hrow
    · exact hs.published_own y row hrow

end Sound

end Tables

end ContentStore
