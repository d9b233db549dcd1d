import ContentStore.Proofs.Embedding.Rounds
import ContentStore.Proofs.Items.Completion
import ContentStore.Proofs.Items.Live
import Mathlib.Logic.Relation

/-!
# What becomes of accepted input

While input is read, a stored value counts until the new value of its slot is in.
Merging drops what belongs to instances that are not live when all of it is in.  In
between, the input can take back a list of instances that stood in an instance, and
values that came with it for one of these have been accepted already.  They are lost
(`accepted_lost`), and this is the only way in which accepted values are lost
(`kept_or_lost`).
-/

namespace ContentStore

namespace Embedding

variable {p : Package} {stored values : List ItemField}

/-- The stored value of the slot lists the instance, and after a merge the slot does
not list it any more. -/
inductive Unlists (stored values : List ItemField) (s : Slot) (i : InstanceId) : Prop
  /-- In an instance, a new value takes the place of the stored one. -/
  | replaced {e : ItemField} (howner : s.owner.isSome) (hstored : Lists stored s i)
      (he : valueAt? values s = some e) (hnot : i ∉ e.value.groups)
  /-- The value stays, but is not of kind group. -/
  | misfiled {e : ItemField} (hkept : valueAt? values s = none) (he : valueAt? stored s = some e)
      (hi : i ∈ e.value.groups) (hkind : e.value.kind ≠ .group)

/-- The second instance is listed in the first one, by a stored value or a new
one. -/
def ListedIn (stored values : List ItemField) (i j : InstanceId) : Prop :=
  ∃ f, Lists stored ⟨f, some i⟩ j ∨ Lists values ⟨f, some i⟩ j

/-- The instance is one that the new values take back, or lies in one. -/
def Withdrawn (stored values : List ItemField) (i : InstanceId) : Prop :=
  ∃ s j, Unlists stored values s j ∧ Relation.ReflTransGen (ListedIn stored values) j i

/-- Values that were read list instances as groups. -/
theorem mem_listed_of_stands {e : ItemField} {i : InstanceId} (h : Stands p Fits e)
    (hi : i ∈ e.value.groups) : i ∈ e.listed := by
  obtain ⟨S, -, raw, f, -, -, hprepare⟩ := h.exists_fits
  obtain ⟨hkind, helements, -⟩ := Field.check_eq_ok (Field.check_of_prepare hprepare)
  obtain ⟨v, hv, hvi⟩ := List.mem_filterMap.mp hi
  have hgroup : f.kind = .group := (helements v hv).symm.trans (Value.kind_of_group? hvi)
  rw [ItemField.listed, if_pos (hkind.trans hgroup)]
  exact hi

section Merge

variable (hslots : (values.map ItemField.slot).Nodup)

include hslots in
/-- After a merge a slot has its new value, or else the stored one. -/
theorem valueAt?_merged (s : Slot) :
    valueAt? (values.foldl putValue stored) s = listing? values stored s := by
  rw [valueAt?_foldl_putValue, listing?, valueAt?_perm values.reverse_perm.symm hslots]

variable (hstands : ∀ e ∈ values, Stands p Fits e) {before : List ItemField}
  (hbefore : before <+: values) (htop : ∀ e ∈ values, e.group = none → e ∈ before)

include hslots hstands hbefore htop in
/-- **One list** makes its instances live, or the merge takes them back. -/
theorem live_or_unlists {s : Slot} {i : InstanceId}
    (howner : ∀ j, s.owner = some j → Live (values.foldl putValue stored) j)
    (hi : ListsOver before stored s i) :
    Live (values.foldl putValue stored) i ∨ Unlists stored values s i := by
  have hlive : ∀ {e : ItemField}, listing? values stored s = some e → i ∈ e.listed →
      Live (values.foldl putValue stored) i := by
    intro e he hie
    rw [← valueAt?_merged hslots] at he
    obtain rfl := slot_of_valueAt? he
    exact .of_listed (mem_of_valueAt? he) howner hie
  have hnew : ∀ {e : ItemField}, valueAt? values s = some e → i ∈ e.value.groups →
      Live (values.foldl putValue stored) i := by
    intro e he hie
    refine hlive (by rw [listing?, he, Option.some_or]) ?_
    exact mem_listed_of_stands (hstands e (mem_of_valueAt? he)) hie
  obtain ⟨e, he, hie⟩ := hi
  -- a new list stays as it is, and a stored one counts until a new one comes in its place
  rcases Option.or_eq_some_iff.mp he with he | ⟨hnone, he⟩
  · obtain ⟨more, rfl⟩ := hbefore
    exact .inl (hnew (by rw [valueAt?_append, he, Option.some_or]) hie)
  · cases hvalue : valueAt? values s with
    | none =>
      by_cases hkind : e.value.kind = .group
      · refine .inl (hlive (by rw [listing?, hvalue, he, Option.none_or]) ?_)
        rw [ItemField.listed, if_pos hkind]
        exact hie
      · exact .inr (.misfiled hvalue he hie hkind)
    | some e' =>
      by_cases hie' : i ∈ e'.value.groups
      · exact .inl (hnew hvalue hie')
      · refine .inr (.replaced ?_ ⟨e, he, hie⟩ hvalue hie')
        -- a new value at top level would have been in already
        by_contra howner
        have he' := htop e' (mem_of_valueAt? hvalue)
          ((congrArg Slot.owner (slot_of_valueAt? hvalue)).trans (by simpa using howner))
        exact valueAt?_eq_none.mp hnone e' he' (slot_of_valueAt? hvalue)

include hslots hstands hbefore htop in
/-- **An instance known to a round** is live after the merge, unless it is
withdrawn. -/
theorem live_or_withdrawn {S : Schema} {owner : Option InstanceId}
    (h : Governs p (ListsOver before stored) S owner) {i : InstanceId} (hi : owner = some i) :
    Live (values.foldl putValue stored) i ∨ Withdrawn stored values i := by
  induction h generalizing i with
  | top => cases hi
  | @inner S G owner F j _ _ _ hj ih =>
    obtain rfl := Option.some.inj hi
    -- from the outside in, the first instance that is not live is one taken back
    by_cases howner : ∀ k, owner = some k → Live (values.foldl putValue stored) k
    · rcases live_or_unlists hslots hstands hbefore htop howner hj with hlive | hunlists
      · exact .inl hlive
      · exact .inr ⟨_, j, hunlists, .refl⟩
    · obtain ⟨k, rfl, hdead⟩ : ∃ k, owner = some k ∧ ¬ Live (values.foldl putValue stored) k := by
        simpa using howner
      obtain ⟨s, k', hunlists, hpath⟩ := (ih rfl).resolve_left hdead
      refine .inr ⟨s, k', hunlists, hpath.tail ⟨F.id, ?_⟩⟩
      obtain ⟨e, he, hje⟩ := hj
      rcases Option.or_eq_some_iff.mp he with he | ⟨-, he⟩
      · obtain ⟨more, rfl⟩ := hbefore
        exact .inr ⟨e, by rw [valueAt?_append, he, Option.some_or]; rfl, hje⟩
      · exact .inl ⟨e, he, hje⟩

end Merge

/-- The instance of an accepted value is live after the merge, unless it is
withdrawn. -/
theorem live_or_withdrawn_of_read {input : List RawField}
    (h : valuesOfRaw p input stored = .ok values) (hslots : (values.map ItemField.slot).Nodup)
    {e : ItemField} (he : e ∈ values) {i : InstanceId} (hi : e.group = some i) :
    Live (values.foldl putValue stored) i ∨ Withdrawn stored values i := by
  obtain ⟨top, htops, hrounds⟩ := valuesOfRaw_eq_ok.mp h
  rcases hrounds.mem he with hmem | ⟨before, j, S, hsub, hbefore, hj, hgoverns, -⟩
  · cases (fits_of_top htops e hmem).1.symm.trans hi
  · obtain rfl := Option.some.inj (hi.symm.trans hj)
    have htop : ∀ e ∈ values, e.group = none → e ∈ before :=
      fun e he hnone => hsub.subset (hrounds.mem_of_top he hnone)
    exact live_or_withdrawn hslots (stands_of_valuesOfRaw h) hbefore htop hgoverns rfl

/-- **An accepted value is kept** if its instance is live after the merge.  Otherwise
its slot is empty then, and the instance has been withdrawn. -/
theorem kept_or_lost {input : List RawField} (h : valuesOfRaw p input stored = .ok values)
    (hslots : (values.map ItemField.slot).Nodup) {e : ItemField} (he : e ∈ values) :
    (∀ i, e.group = some i → Live (values.foldl putValue stored) i) ∧
        valueAt? (mergeValues stored values) e.slot = some e ∨
      (∃ i, e.group = some i ∧ ¬ Live (values.foldl putValue stored) i ∧
        Withdrawn stored values i) ∧ valueAt? (mergeValues stored values) e.slot = none := by
  by_cases hlive : ∀ i, e.group = some i → Live (values.foldl putValue stored) i
  · refine .inl ⟨hlive, ?_⟩
    rw [mergeValues, valueAt?_dropDead_of_live (all_liveInstances_iff.mpr hlive),
      valueAt?_merged hslots, listing?, (valueAt?_eq_some_iff hslots).mpr ⟨he, rfl⟩,
      Option.some_or]
  · obtain ⟨i, hi, hdead⟩ : ∃ i, e.group = some i ∧ ¬ Live (values.foldl putValue stored) i := by
      simpa using hlive
    have hwithdrawn := (live_or_withdrawn_of_read h hslots he hi).resolve_left hdead
    refine .inr ⟨⟨i, hi, hdead, hwithdrawn⟩, valueAt?_eq_none.mpr fun e' he' hslot => ?_⟩
    exact hdead ((mem_dropDead.mp he').2 i ((congrArg Slot.owner hslot).trans hi))

/-- Nothing can be taken back from a new item. -/
theorem not_withdrawn_nil (i : InstanceId) : ¬ Withdrawn [] values i := by
  rintro ⟨s, j, hunlists, -⟩
  cases hunlists with
  | replaced _ hstored _ _ =>
    obtain ⟨e, he, -⟩ := hstored
    cases he
  | misfiled _ he _ _ => cases he

/-- A new book has all its values. -/
theorem kept_of_chapterAndSection : ∃ values,
    valuesOfRaw books chapterAndSection [] = .ok values ∧ values.length = 3 ∧
      ∀ e ∈ values, valueAt? (mergeValues [] values) e.slot = some e := by
  have hread : ∃ values ∈ (valuesOfRaw books chapterAndSection []).toOption,
      values.length = 3 ∧ (values.map ItemField.slot).Nodup := by
    decide +kernel
  obtain ⟨values, hvalues, hlength, hslots⟩ := hread
  have hvalues := ok_of_mem_toOption hvalues
  refine ⟨values, hvalues, hlength, fun e he => ?_⟩
  rcases kept_or_lost hvalues hslots he with ⟨-, hkept⟩ | ⟨⟨i, -, -, hwithdrawn⟩, -⟩
  · exact hkept
  · exact (not_withdrawn_nil i hwithdrawn).elim

/-- A new heading for the section of the book, and another section in its place. -/
def reheaded : List RawField := [
  .inGroup (.byKey "heading" (.string "Begin")) ⟨"start"⟩,
  .inGroup (.byKey "sections" (.array [.string "other"])) ⟨"first"⟩]

/-- **An accepted value may be lost.**  The heading is accepted, because the stored
book lists the section, and dropped, because the new one does not. -/
theorem accepted_lost : ∃ p input stored values, valuesOfRaw p input stored = .ok values ∧
    (stored.map ItemField.slot).Nodup ∧ (values.map ItemField.slot).Nodup ∧
    ∃ e ∈ values, valueAt? (mergeValues stored values) e.slot ≠ some e := by
  have hread : ∃ stored ∈ (valuesOfRaw books chapterAndSection []).toOption,
      ∃ values ∈ (valuesOfRaw books reheaded stored).toOption,
      (stored.map ItemField.slot).Nodup ∧ (values.map ItemField.slot).Nodup ∧
      ∃ e ∈ values, valueAt? (mergeValues stored values) e.slot ≠ some e := by
    decide +kernel
  obtain ⟨stored, -, values, hvalues, hlost⟩ := hread
  exact ⟨books, reheaded, stored, values, ok_of_mem_toOption hvalues, hlost⟩

end Embedding

end ContentStore
