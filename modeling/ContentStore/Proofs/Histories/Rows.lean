import ContentStore.Storage.Tables

/-!
# Rows of one item

Versions and refs of all items lie in two tables.  What belongs to one item is
cut out of them: its versions (`versionsOf`) and, for each ref, the rows that
say what the ref names (`rowsOf`).  Here stands how every change of the tables
changes these cuts; nothing else about the two tables is used later on.
-/

namespace ContentStore.Tables

/-- The rows of one ref of an item. -/
def rowsOf (t : Tables) (item : ItemId) (r : Ref) : List RefRow :=
  t.refs.filter fun row => row.item == item && row.ref == r

/-- A ref points where its first row says. -/
theorem target?_eq_head?_rowsOf (t : Tables) (item : ItemId) (r : Ref) :
    t.target? item r = (t.rowsOf item r).head?.map RefRow.version := by
  rw [rowsOf, List.head?_filter, target?]

/-- Where every item has one row of a ref at most, each row says what its ref names. -/
theorem target?_of_nodup {t : Tables} {r : Ref}
    (h : ((t.refs.filter fun row => row.ref == r).map RefRow.item).Nodup) {row : RefRow}
    (hmem : row ∈ t.refs) (hr : row.ref = r) : t.target? row.item r = some row.version := by
  have hrow : row ∈ t.refs.filter fun row => row.ref == r :=
    List.mem_filter.mpr ⟨hmem, beq_iff_eq.mpr hr⟩
  have hsame : (fun row' : RefRow => row'.item == row.item && row'.ref == r) =
      fun row' => decide ((row'.ref == r) = true ∧ (row'.item == row.item) = true) := by
    funext row'
    rw [Bool.and_comm, Bool.decide_and, Bool.decide_eq_true, Bool.decide_eq_true]
  rw [target?, hsame, ← List.find?_filter, find?_of_nodup h hrow, Option.map_some]

/-- `latest` names the latest version. -/
theorem target?_of_latest? {t : Tables} {item : ItemId} {v : Version}
    (h : t.latest? item = some v) : t.target? item .latest = some v.id := by
  unfold latest? findByRef? at h
  obtain ⟨w, hw, rfl⟩ := Option.map_eq_some_iff.mp h
  obtain ⟨id, hid, hw⟩ := Option.bind_eq_some_iff.mp hw
  have hwid : w.id = id := by simpa using List.find?_some hw
  rw [hid, ← hwid]
  rfl

/-- The rows of a ref are the stored ones that name it and the item. -/
theorem mem_rowsOf {t : Tables} {item : ItemId} {r : Ref} {row : RefRow} :
    row ∈ t.rowsOf item r ↔ row ∈ t.refs ∧ row.item = item ∧ row.ref = r := by
  simp [rowsOf]

/-- The versions of an item are the stored ones of this item. -/
theorem mem_versionsOf {t : Tables} {item : ItemId} {v : Version} :
    v ∈ t.versionsOf item ↔ v ∈ t.versions ∧ v.item.id = item := by
  simp [versionsOf]

/-- The versions of an item, or what its refs name, differ. -/
def Alters (t u : Tables) (item : ItemId) : Prop :=
  u.versionsOf item ≠ t.versionsOf item ∨ ∃ r, u.rowsOf item r ≠ t.rowsOf item r

/-- What differs after two changes differs after one of them. -/
theorem Alters.cases {t v : Tables} (u : Tables) {x : ItemId} (h : t.Alters v x) :
    t.Alters u x ∨ u.Alters v x := by
  rcases h with hne | ⟨r, hne⟩
  · by_cases hu : u.versionsOf x = t.versionsOf x
    · exact .inr (.inl (hu ▸ hne))
    · exact .inl (.inl hu)
  · by_cases hu : u.rowsOf x r = t.rowsOf x r
    · exact .inr (.inr ⟨r, hu ▸ hne⟩)
    · exact .inl (.inr ⟨r, hu⟩)

/-- The tables with one more version, as a snapshot is stored: without refs of
its own, and named by `latest`. -/
def appended (t : Tables) (v : Version) : Tables :=
  ({ t with versions := t.versions ++ [{ v with refs := [] }] } : Tables).setRef v.item.id .latest
    v.id

/-! ## Changes of refs -/

/-- The row saved takes the place of those for the same ref of the item. -/
theorem rowsOf_setRef (t : Tables) (item x : ItemId) (r q : Ref) (v : VersionId) :
    (t.setRef item r v).rowsOf x q =
      if x = item ∧ q = r then [⟨item, r, v⟩] else t.rowsOf x q := by
  simp only [rowsOf, setRef, saveRow, List.filter_append, List.filter_filter]
  by_cases h : x = item ∧ q = r
  · obtain ⟨rfl, rfl⟩ := h
    have hold : t.refs.filter (fun row => (row.item == x && row.ref == q) &&
        !(x == row.item && q == row.ref)) = [] := by
      rw [List.filter_eq_nil_iff]
      grind
    rw [hold, if_pos ⟨rfl, rfl⟩]
    simp
  · have hnew : [(⟨item, r, v⟩ : RefRow)].filter
        (fun row => row.item == x && row.ref == q) = [] := by
      grind
    have hold : t.refs.filter (fun row => (row.item == x && row.ref == q) &&
        !(item == row.item && r == row.ref)) =
        t.refs.filter (fun row => row.item == x && row.ref == q) := by
      apply List.filter_congr
      grind
    rw [hold, hnew, if_neg h, List.append_nil]

/-- Deleting a ref deletes its rows and no others. -/
theorem rowsOf_deleteRef (t : Tables) (item x : ItemId) (r q : Ref) :
    (t.deleteRef item r).rowsOf x q = if x = item ∧ q = r then [] else t.rowsOf x q := by
  simp only [rowsOf, deleteRef, List.filter_filter]
  by_cases h : x = item ∧ q = r
  · obtain ⟨rfl, rfl⟩ := h
    rw [if_pos ⟨rfl, rfl⟩, List.filter_eq_nil_iff]
    grind
  · rw [if_neg h]
    apply List.filter_congr
    grind

/-! ## One more version -/

/-- An appended version comes last, without refs of its own. -/
theorem versions_appended (t : Tables) (v : Version) :
    (t.appended v).versions = t.versions ++ [{ v with refs := [] }] := rfl

/-- It is the last one of its item, and other items have the versions from before. -/
theorem versionsOf_appended (t : Tables) (v : Version) (x : ItemId) :
    (t.appended v).versionsOf x =
      t.versionsOf x ++ if v.item.id = x then [{ v with refs := [] }] else [] := by
  simp only [versionsOf, versions_appended, List.filter_append]
  by_cases h : v.item.id = x <;> simp [h]

/-- It gets the only row of `latest`, and all other rows stay. -/
theorem rowsOf_appended (t : Tables) (v : Version) (x : ItemId) (q : Ref) :
    (t.appended v).rowsOf x q =
      if x = v.item.id ∧ q = .latest then [⟨v.item.id, .latest, v.id⟩] else t.rowsOf x q := by
  rw [appended, rowsOf_setRef]
  rfl

/-! ## An item removed -/

/-- A deleted item has no versions, and the others have theirs. -/
theorem versionsOf_deleteItem (t : Tables) (item x : ItemId) :
    (t.deleteItem item).versionsOf x = if x = item then [] else t.versionsOf x := by
  simp only [versionsOf, deleteItem, List.filter_filter]
  by_cases h : x = item
  · subst h
    rw [if_pos rfl, List.filter_eq_nil_iff]
    grind
  · rw [if_neg h]
    apply List.filter_congr
    grind

/-- Nor has it any rows. -/
theorem rowsOf_deleteItem (t : Tables) (item x : ItemId) (q : Ref) :
    (t.deleteItem item).rowsOf x q = if x = item then [] else t.rowsOf x q := by
  simp only [rowsOf, deleteItem, List.filter_filter]
  by_cases h : x = item
  · subst h
    rw [if_pos rfl, List.filter_eq_nil_iff]
    grind
  · rw [if_neg h]
    apply List.filter_congr
    grind

end ContentStore.Tables
