import ContentStore.Proofs.Histories.Sound
import ContentStore.Proofs.Items.Slots
import ContentStore.Store.Items

/-!
# Lookups for unique fields

A check goes over values in order.  About each one that changes, is not empty, and
belongs to a unique field it asks the index (`Uniqueness.question?`), and it ends at
the first one that the index finds with another item.  So it passes just if every
value is settled (`Uniqueness.check_eq_ok_iff`), and it asks nothing else
(`Uniqueness.lookups_isPrefix`).

The index goes over the latest versions of a model.  If each item has one at most,
and it is its own, the index finds a value just if another item holds it
(`Tables.LatestOwned.itemWithValue?_eq_none_iff`).  Both together say what the check
decides (`Uniqueness.check_decides`).
-/

namespace ContentStore

namespace Uniqueness

variable {index : Lookup → Option ItemId} {p : Package} {item : ItemId} {old : Option Item}
  {f : ItemField}

/-- The item held the same values in the same slot, at top level or in the same
instance. -/
def HeldBefore (old : Option Item) (f : ItemField) : Prop :=
  ∃ o ∈ old, ∃ e ∈ valueAt? o.fields f.slot, e.value = f.value

theorem unchanged_iff : unchanged old f = true ↔ HeldBefore old f := by
  unfold unchanged HeldBefore
  rw [Option.any_eq_true]
  constructor
  · rintro ⟨e, he, hvalue⟩
    obtain ⟨o, ho, he⟩ := Option.bind_eq_some_iff.mp he
    exact ⟨o, ho, e, he, beq_iff_eq.mp hvalue⟩
  · rintro ⟨o, ho, e, he, hvalue⟩
    exact ⟨e, Option.bind_eq_some_iff.mpr ⟨o, ho, he⟩, beq_iff_eq.mpr hvalue⟩

/-- An unchanged value was held before. -/
theorem exists_of_unchanged (h : unchanged old f = true) :
    ∃ o, old = some o ∧ ∃ e ∈ o.fields, e.field = f.field ∧ e.value = f.value := by
  obtain ⟨o, ho, e, he, hvalue⟩ := unchanged_iff.mp h
  exact ⟨o, ho, e, mem_of_valueAt? he, congrArg Slot.field (slot_of_valueAt? he), hvalue⟩

/-- The question that a value raises if it changes, its field is unique, and it is not
empty. -/
def question? (p : Package) (item : ItemId) (old : Option Item) (f : ItemField) :
    Option Lookup :=
  if unchanged old f then none
  else (p.field? f.field).bind fun d =>
    if !d.unique || f.value.isEmpty then none else some ⟨p.model.id, f.field, f.value, item⟩

theorem question?_eq_some_iff {q : Lookup} :
    question? p item old f = some q ↔
      ¬ HeldBefore old f ∧ (∃ d ∈ p.field? f.field, d.unique = true) ∧ f.value.isEmpty = false ∧
        q = ⟨p.model.id, f.field, f.value, item⟩ := by
  unfold question?
  by_cases hunchanged : unchanged old f = true
  · rw [if_pos hunchanged]
    exact iff_of_false nofun fun h => h.1 (unchanged_iff.mp hunchanged)
  · have hchanged : ¬ HeldBefore old f := mt unchanged_iff.mpr hunchanged
    rw [if_neg hunchanged, Option.bind_eq_some_iff, and_iff_right hchanged]
    constructor
    · rintro ⟨d, hd, h⟩
      split at h
      · cases h
      · rename_i hasks
        rw [Bool.or_eq_true, not_or] at hasks
        exact ⟨⟨d, hd, by simpa using hasks.1⟩, by simpa using hasks.2, (Option.some.inj h).symm⟩
    · rintro ⟨⟨d, hd, hunique⟩, hempty, rfl⟩
      refine ⟨d, hd, ?_⟩
      rw [hunique, hempty]
      rfl

/-- Why a value passes the check: it was there before, or its field is known, and
is not unique, has no value now, or no other item with it. -/
inductive Settled (index : Lookup → Option ItemId) (p : Package) (item : ItemId)
    (old : Option Item) (f : ItemField) : Prop
  | unchanged (h : unchanged old f = true)
  | plain {d : Field} (hd : p.field? f.field = some d) (h : d.unique = false)
  | empty {d : Field} (hd : p.field? f.field = some d) (h : f.value.isEmpty = true)
  | unheld {d : Field} (hd : p.field? f.field = some d)
      (h : index ⟨p.model.id, f.field, f.value, item⟩ = none)

/-! ## One value -/

/-- After a settled value, and its question if it raises one, the check goes on. -/
theorem check_cons_of_settled (h : Settled index p item old f) (fs : List ItemField) :
    check index p item old (f :: fs) =
      ((question? p item old f).toList ++ (check index p item old fs).1,
        (check index p item old fs).2) := by
  rw [check, question?]
  by_cases hunchanged : Uniqueness.unchanged old f = true
  · rw [if_pos hunchanged, if_pos hunchanged]
    rfl
  · rw [if_neg hunchanged, if_neg hunchanged]
    -- the reasons overlap, so they are put in the order in which the check looks at them
    obtain ⟨d, hd, hskip⟩ : ∃ d, p.field? f.field = some d ∧
        ((!d.unique || f.value.isEmpty) = true ∨
          index ⟨p.model.id, f.field, f.value, item⟩ = none) := by
      cases h with
      | unchanged hsame => exact absurd hsame hunchanged
      | plain hd hplain => exact ⟨_, hd, .inl (by rw [hplain]; rfl)⟩
      | empty hd hempty => exact ⟨_, hd, .inl (by rw [hempty, Bool.or_true])⟩
      | unheld hd hnone => exact ⟨_, hd, .inr hnone⟩
    rw [hd, Option.bind_some]
    dsimp only
    by_cases hplain : (!d.unique || f.value.isEmpty) = true
    · rw [if_pos hplain, if_pos hplain]
      rfl
    · rw [if_neg hplain, if_neg hplain, hskip.resolve_left hplain]
      rfl

/-- At a value that is not settled the check ends, with its question if its field is
known. -/
theorem check_cons_of_not_settled (h : ¬ Settled index p item old f) (fs : List ItemField) :
    (check index p item old (f :: fs)).1 = (question? p item old f).toList ∧
      ((p.field? f.field = none ∧
          (check index p item old (f :: fs)).2 = .error (.misuse (.unknownField f.field.text))) ∨
        ∃ d, p.field? f.field = some d ∧
          (check index p item old (f :: fs)).2 = .error (.duplicateValue d.key)) := by
  have hchanged : ¬ Uniqueness.unchanged old f = true := fun hsame => h (.unchanged hsame)
  rw [check, question?, if_neg hchanged, if_neg hchanged]
  cases hd : p.field? f.field with
  | none => exact ⟨rfl, .inl ⟨rfl, rfl⟩⟩
  | some d =>
    have hasks : ¬ (!d.unique || f.value.isEmpty) = true := by
      intro hskip
      rcases Bool.or_eq_true_iff.mp hskip with hplain | hempty
      · exact h (.plain hd (by simpa using hplain))
      · exact h (.empty hd hempty)
    have hfound : index ⟨p.model.id, f.field, f.value, item⟩ ≠ none :=
      fun hnone => h (.unheld hd hnone)
    obtain ⟨other, hother⟩ := Option.ne_none_iff_exists'.mp hfound
    rw [Option.bind_some]
    dsimp only
    rw [if_neg hasks, if_neg hasks, hother]
    exact ⟨rfl, .inr ⟨d, rfl, rfl⟩⟩

/-! ## All values -/

/-- **A check succeeds just if every value is settled.** -/
theorem check_eq_ok_iff {fs : List ItemField} :
    (check index p item old fs).2 = .ok () ↔ ∀ f ∈ fs, Settled index p item old f := by
  induction fs with
  | nil => simp [check]
  | cons f fs ih =>
    rw [List.forall_mem_cons]
    by_cases hf : Settled index p item old f
    · rw [check_cons_of_settled hf, ih]
      exact (and_iff_right hf).symm
    · refine iff_of_false (fun hok => ?_) fun hall => hf hall.1
      rcases (check_cons_of_not_settled hf fs).2 with ⟨-, herror⟩ | ⟨d, -, herror⟩
      · exact nomatch hok.symm.trans herror
      · exact nomatch hok.symm.trans herror

/-- **A check that fails names the first value that is not settled**, if all fields are
known. -/
theorem exists_first_of_check {fs : List ItemField} (hknown : ∀ f ∈ fs, (p.field? f.field).isSome)
    (h : (check index p item old fs).2 ≠ .ok ()) :
    ∃ before f after d, fs = before ++ f :: after ∧ (∀ g ∈ before, Settled index p item old g) ∧
      ¬ Settled index p item old f ∧ p.field? f.field = some d ∧
      (check index p item old fs).2 = .error (.duplicateValue d.key) := by
  induction fs with
  | nil => exact absurd rfl h
  | cons f fs ih =>
    obtain ⟨hf, hfs⟩ := List.forall_mem_cons.mp hknown
    by_cases hsettled : Settled index p item old f
    · rw [check_cons_of_settled hsettled] at h ⊢
      obtain ⟨before, g, after, d, rfl, hbefore, hg, hd, herror⟩ := ih hfs h
      exact ⟨f :: before, g, after, d, rfl, List.forall_mem_cons.mpr ⟨hsettled, hbefore⟩, hg, hd,
        herror⟩
    · rcases (check_cons_of_not_settled hsettled fs).2 with ⟨hnone, -⟩ | ⟨d, hd, herror⟩
      · rw [hnone] at hf
        cases hf
      · exact ⟨[], f, fs, d, rfl, fun _ hg => (List.not_mem_nil hg).elim, hsettled, hd, herror⟩

/-- **The lookups are the questions that the values raise**, in order, up to where the
check ends. -/
theorem lookups_isPrefix (fs : List ItemField) :
    (check index p item old fs).1 <+: fs.filterMap (question? p item old) := by
  induction fs with
  | nil => exact List.nil_prefix
  | cons f fs ih =>
    have hquestions : (f :: fs).filterMap (question? p item old) =
        (question? p item old f).toList ++ fs.filterMap (question? p item old) := by
      rw [List.filterMap_cons]
      cases question? p item old f <;> rfl
    rw [hquestions]
    by_cases hf : Settled index p item old f
    · rw [check_cons_of_settled hf]
      exact (List.prefix_append_right_inj _).mpr ih
    · rw [(check_cons_of_not_settled hf fs).1]
      exact List.prefix_append _ _

end Uniqueness

namespace Tables

variable {n : Nat} {t : Tables}

/-! ## The index -/

/-- The item is stored, belongs to the model, and holds the values in some slot of
the field. -/
def Holding (t : Tables) (m : ModelId) (f : FieldId) (vs : Values) (x : ItemId) : Prop :=
  ∃ it ∈ Write.latestItem t x, it.model = m ∧ ∃ e ∈ it.fields, e.field = f ∧ e.value = vs

instance {t : Tables} {m : ModelId} {f : FieldId} {vs : Values} {x : ItemId} :
    Decidable (t.Holding m f vs x) :=
  inferInstanceAs (Decidable (∃ it ∈ Write.latestItem t x, it.model = m ∧ ∃ e ∈ it.fields,
    e.field = f ∧ e.value = vs))

/-- Every item has one latest version at most, and it is a version of the item. -/
structure LatestOwned (t : Tables) : Prop where
  once : ((t.refs.filter fun row => row.ref == .latest).map RefRow.item).Nodup
  own : ∀ row ∈ t.refs, row.ref = .latest → ∃ v ∈ t.version? row.version, v.item.id = row.item

/-- Sound histories have one latest version each. -/
theorem Sound.latestOwned (hs : Sound n t) : t.LatestOwned where
  once := hs.items_distinct .latest
  own := by
    intro row hrow hlatest
    obtain ⟨v, hv, hid⟩ := hs.exists_of_target? (hs.target?_of_mem hrow)
    obtain ⟨hv, hitem⟩ := mem_versionsOf.mp hv
    exact ⟨v, hid ▸ hs.version?_of_mem hv, hitem⟩

/-- An item's latest version is what its row names. -/
theorem exists_row_of_latestItem {y : ItemId} {Y : Item} (h : Write.latestItem t y = some Y) :
    ∃ row ∈ t.refs, row.item = y ∧ row.ref = .latest ∧
      ∃ v, t.version? row.version = some v ∧ v.item = Y := by
  unfold Write.latestItem latest? findByRef? at h
  obtain ⟨v, hv, rfl⟩ := Option.map_eq_some_iff.mp h
  obtain ⟨w, hw, rfl⟩ := Option.map_eq_some_iff.mp hv
  obtain ⟨id, hid, hw⟩ := Option.bind_eq_some_iff.mp hw
  obtain ⟨row, hrow, rfl⟩ := Option.map_eq_some_iff.mp hid
  have hnamed := List.find?_some hrow
  simp only [Bool.and_eq_true, beq_iff_eq] at hnamed
  exact ⟨row, List.mem_of_find?_eq_some hrow, hnamed.1, hnamed.2, w, hw, rfl⟩

/-- A listing shows, for each row of the ref, the version that it names. -/
theorem exists_mem_listByModel {m : ModelId} {r : Ref} {Y : Item} :
    (∃ v ∈ t.listByModel m r, v.item = Y) ↔
      ∃ row ∈ t.refs, row.ref = r ∧ ∃ v, t.version? row.version = some v ∧ v.item = Y ∧
        Y.model = m := by
  unfold listByModel
  constructor
  · rintro ⟨v, hv, rfl⟩
    obtain ⟨row, hrow, hv⟩ := List.mem_filterMap.mp hv
    obtain ⟨hrow, href⟩ := List.mem_filter.mp ((sortBy_perm _ _).mem_iff.mp hrow)
    obtain ⟨w, hw, rfl⟩ := Option.map_eq_some_iff.mp hv
    obtain ⟨hw, hm⟩ := Option.filter_eq_some_iff.mp hw
    exact ⟨row, hrow, beq_iff_eq.mp href, w, hw, rfl, beq_iff_eq.mp hm⟩
  · rintro ⟨row, hrow, href, v, hv, rfl, hm⟩
    refine ⟨withListed (t.refsByModel m) v, List.mem_filterMap.mpr ⟨row, ?_, ?_⟩, rfl⟩
    · exact (sortBy_perm _ _).mem_iff.mpr (List.mem_filter.mpr ⟨hrow, beq_iff_eq.mpr href⟩)
    · have hkept : (some v).filter (fun w => w.item.model == m) = some v :=
        Option.filter_eq_some_iff.mpr ⟨rfl, beq_iff_eq.mpr hm⟩
      rw [hv, hkept, Option.map_some]

namespace LatestOwned

/-- The version that a row of `latest` names belongs to the row's item. -/
theorem id_of_mem (ht : t.LatestOwned) {row : RefRow} (hrow : row ∈ t.refs)
    (hlatest : row.ref = .latest) {v : Version} (hv : t.version? row.version = some v) :
    v.item.id = row.item := by
  obtain ⟨w, hw, hitem⟩ := ht.own row hrow hlatest
  obtain rfl := Option.some.inj (hv.symm.trans hw)
  exact hitem

/-- It is the latest one of the item. -/
theorem latestItem_of_mem (ht : t.LatestOwned) {row : RefRow} (hrow : row ∈ t.refs)
    (hlatest : row.ref = .latest) {v : Version} (hv : t.version? row.version = some v) :
    Write.latestItem t v.item.id = some v.item := by
  unfold Write.latestItem latest? findByRef?
  rw [ht.id_of_mem hrow hlatest hv, target?_of_nodup ht.once hrow hlatest, Option.bind_some, hv]
  rfl

theorem id_of_latestItem (ht : t.LatestOwned) {y : ItemId} {Y : Item}
    (h : Write.latestItem t y = some Y) : Y.id = y := by
  obtain ⟨row, hrow, rfl, hlatest, v, hv, rfl⟩ := exists_row_of_latestItem h
  exact ht.id_of_mem hrow hlatest hv

/-- The listing of the latest versions of a model shows just its stored items. -/
theorem exists_mem_listByModel_iff (ht : t.LatestOwned) {m : ModelId} {Y : Item} :
    (∃ v ∈ t.listByModel m .latest, v.item = Y) ↔
      Write.latestItem t Y.id = some Y ∧ Y.model = m := by
  rw [exists_mem_listByModel]
  constructor
  · rintro ⟨row, hrow, hlatest, v, hv, rfl, hm⟩
    exact ⟨ht.latestItem_of_mem hrow hlatest hv, hm⟩
  · rintro ⟨hY, hm⟩
    obtain ⟨row, hrow, -, hlatest, v, hv, hitem⟩ := exists_row_of_latestItem hY
    exact ⟨row, hrow, hlatest, v, hv, hitem, hm⟩

/-- **The index finds nothing just if no other item of the model holds the values.** -/
theorem itemWithValue?_eq_none_iff (ht : t.LatestOwned) {q : Uniqueness.Lookup} :
    t.itemWithValue? q = none ↔
      ∀ y, y ≠ q.exclude → ¬ t.Holding q.model q.field q.value y := by
  unfold itemWithValue?
  rw [Option.map_eq_none_iff, List.find?_eq_none]
  simp only [Bool.and_eq_true, bne_iff_ne, List.any_eq_true, beq_iff_eq]
  constructor
  · rintro h y hne ⟨Y, hY, hm, hholds⟩
    obtain rfl := ht.id_of_latestItem hY
    obtain ⟨v, hv, rfl⟩ := ht.exists_mem_listByModel_iff.mpr ⟨hY, hm⟩
    exact h v hv ⟨hne, hholds⟩
  · rintro h v hv ⟨hne, hholds⟩
    obtain ⟨hitem, hm⟩ := ht.exists_mem_listByModel_iff.mp ⟨v, hv, rfl⟩
    exact h v.item.id hne ⟨v.item, hitem, hm, hholds⟩

end LatestOwned

end Tables

/-! ## The rule -/

/-- The rule for unique fields: the value stood in its slot before, its field is not
unique, it is empty, or no other item of the model holds it in any slot of the field. -/
def Tables.Admits (t : Tables) (p : Package) (item : ItemId) (old : Option Item)
    (f : ItemField) : Prop :=
  Uniqueness.HeldBefore old f ∨ (∃ d ∈ p.field? f.field, d.unique = false) ∨
    f.value.isEmpty = true ∨ ∀ y, y ≠ item → ¬ t.Holding p.model.id f.field f.value y

namespace Uniqueness

/-- With the stored values for an index, values of known fields are settled by the
rule. -/
theorem settled_iff_admits {t : Tables} (ht : t.LatestOwned) {p : Package} {item : ItemId}
    {old : Option Item} {f : ItemField} (hknown : (p.field? f.field).isSome) :
    Settled t.itemWithValue? p item old f ↔ t.Admits p item old f := by
  obtain ⟨d, hd⟩ := Option.isSome_iff_exists.mp hknown
  constructor
  · intro h
    cases h with
    | unchanged hsame => exact .inl (unchanged_iff.mp hsame)
    | plain hd hplain => exact .inr (.inl ⟨_, hd, hplain⟩)
    | empty _ hempty => exact .inr (.inr (.inl hempty))
    | unheld _ hnone => exact .inr (.inr (.inr (ht.itemWithValue?_eq_none_iff.mp hnone)))
  · rintro (hsame | ⟨d', hd', hplain⟩ | hempty | hunheld)
    · exact .unchanged (unchanged_iff.mpr hsame)
    · exact .plain hd' hplain
    · exact .empty hd hempty
    · exact .unheld hd (ht.itemWithValue?_eq_none_iff.mpr hunheld)

/-- **The check decides the rule.**  It passes just if the rule admits every value, and
else names the field of the first one that it does not admit.  It looks up values only
that change, are not empty, and belong to a unique field. -/
theorem check_decides {t : Tables} (ht : t.LatestOwned) {p : Package} {item : ItemId}
    {old : Option Item} {fs : List ItemField} (hknown : ∀ f ∈ fs, (p.field? f.field).isSome) :
    ((check t.itemWithValue? p item old fs).2 = .ok () ↔ ∀ f ∈ fs, t.Admits p item old f) ∧
    ((¬ ∀ f ∈ fs, t.Admits p item old f) →
      ∃ before f after d, fs = before ++ f :: after ∧ (∀ g ∈ before, t.Admits p item old g) ∧
        ¬ t.Admits p item old f ∧ p.field? f.field = some d ∧
        (check t.itemWithValue? p item old fs).2 = .error (.duplicateValue d.key)) ∧
    ∀ q ∈ (check t.itemWithValue? p item old fs).1, ∃ f ∈ fs, ¬ HeldBefore old f ∧
      (∃ d ∈ p.field? f.field, d.unique = true) ∧ f.value.isEmpty = false ∧
      q = ⟨p.model.id, f.field, f.value, item⟩ := by
  have hok : (check t.itemWithValue? p item old fs).2 = .ok () ↔
      ∀ f ∈ fs, t.Admits p item old f := by
    rw [check_eq_ok_iff]
    exact forall₂_congr fun f hf => settled_iff_admits ht (hknown f hf)
  refine ⟨hok, fun hnot => ?_, fun q hq => ?_⟩
  · obtain ⟨before, f, after, d, rfl, hbefore, hf, hd, herror⟩ :=
      exists_first_of_check hknown (mt hok.mp hnot)
    refine ⟨before, f, after, d, rfl, fun g hg => ?_, fun hadmits => hf ?_, hd, herror⟩
    · exact (settled_iff_admits ht (hknown g (List.mem_append_left _ hg))).mp (hbefore g hg)
    · exact (settled_iff_admits ht (Option.isSome_of_mem hd)).mpr hadmits
  · obtain ⟨f, hf, hquestion⟩ := List.mem_filterMap.mp ((lookups_isPrefix fs).subset hq)
    exact ⟨f, hf, question?_eq_some_iff.mp hquestion⟩

section Site

/-- Pages with a slug, a body and links, which are a group with a label.  Slugs and
labels are unique. -/
def site : Package where
  model := ⟨⟨"page"⟩, ⟨"project"⟩, "page", "page", "", ⟨"page"⟩, none⟩
  schema := { Schema.empty ⟨"page"⟩ ⟨"project"⟩ ⟨"site"⟩ with
    fields := [{ Field.named ⟨"slug"⟩ "slug" (.text none) with unique := true },
      Field.named ⟨"body"⟩ "body" (.text none),
      { Field.named ⟨"links"⟩ "links" (.group ⟨"link"⟩) with multiple := true }] }
  metadataSchema := none
  groups := [(⟨⟨"link"⟩, ⟨"project"⟩, "link", "link", "", ⟨"link"⟩⟩,
    { Schema.empty ⟨"link"⟩ ⟨"project"⟩ ⟨"site"⟩ with
      fields := [{ Field.named ⟨"label"⟩ "label" (.text none) with unique := true }] })]
  referenced := []

/-- A page, at top level with a slug and a body, and a link with its label. -/
def page (id slug body link label : String) : Item :=
  ⟨⟨id⟩, ⟨"project"⟩, ⟨"page"⟩, ⟨"page"⟩, ⟨id⟩,
    [⟨⟨"slug"⟩, "slug", .single (.text slug), none⟩,
      ⟨⟨"body"⟩, "body", .single (.text body), none⟩,
      ⟨⟨"links"⟩, "links", .single (.group ⟨link⟩), none⟩,
      ⟨⟨"label"⟩, "label", .single (.text label), some ⟨link⟩⟩],
    none, none, .user ⟨"editor"⟩, none, ⟨0, 0⟩⟩

/-- The second page. -/
def about : Item := page "about" "about" "We" "first" "Back"

/-- The pages, the second one changed once. -/
def pages : Tables := { Tables.empty with
  versions := [⟨⟨0⟩, [], [], ⟨0, 0⟩, page "home" "start" "Welcome" "first" "About"⟩,
    ⟨⟨1⟩, [], [], ⟨0, 0⟩, page "about" "start" "We" "first" "Back"⟩,
    ⟨⟨2⟩, [⟨1⟩], [], ⟨1, 0⟩, about⟩]
  refs := [⟨⟨"home"⟩, .latest, ⟨0⟩⟩, ⟨⟨"about"⟩, .latest, ⟨2⟩⟩] }

/-- The second page keeps its slug and takes over the body of the first one and, for
another link, its label. -/
def revised : List ItemField := (page "about" "about" "Welcome" "second" "About").fields

/-- Only the label is looked up, and not admitted. -/
theorem check_revised : pages.LatestOwned ∧ (∀ f ∈ revised, (site.field? f.field).isSome) ∧
    (¬ ∀ f ∈ revised, pages.Admits site about.id (some about) f) ∧
    check pages.itemWithValue? site about.id (some about) revised =
      ([⟨⟨"page"⟩, ⟨"label"⟩, .single (.text "About"), about.id⟩],
        .error (.duplicateValue "label")) := by
  have hlatest : pages.LatestOwned := ⟨by decide, by decide⟩
  have hknown : ∀ f ∈ revised, (site.field? f.field).isSome := by decide
  have hcheck : check pages.itemWithValue? site about.id (some about) revised =
      ([⟨⟨"page"⟩, ⟨"label"⟩, .single (.text "About"), about.id⟩],
        .error (.duplicateValue "label")) := by
    decide +kernel
  refine ⟨hlatest, hknown, fun hadmits => ?_, hcheck⟩
  have hok := (check_decides hlatest hknown).1.mpr hadmits
  rw [hcheck] at hok
  cases hok

end Site

end Uniqueness

end ContentStore
