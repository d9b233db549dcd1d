import ContentStore.Item.Basic
import ContentStore.Proofs.Loops
import Mathlib.Data.List.Perm.Subperm

/-!
# What stands in a slot

Merging, clearing and dropping change the list of an item's values; what they
do is said here by what is then found in each slot.  A slot of an instance is
kept as long as its instance is live, and an instance is live that is listed at
top level or in a live one (`mem_liveInstances`).  A slot at top level is never
dropped, so there a merge finds the last incoming value, or else what was there
(`valueAt?_mergeValues`).
-/

namespace ContentStore

/-- The value found in a slot stands there. -/
theorem slot_of_valueAt? {fields : List ItemField} {s : Slot} {e : ItemField}
    (h : valueAt? fields s = some e) : e.slot = s := by
  simpa using List.find?_some h

/-- It is one of the values. -/
theorem mem_of_valueAt? {fields : List ItemField} {s : Slot} {e : ItemField}
    (h : valueAt? fields s = some e) : e ∈ fields :=
  List.mem_of_find?_eq_some h

/-- Nothing is found in a slot in which no value stands. -/
theorem valueAt?_eq_none {fields : List ItemField} {s : Slot} :
    valueAt? fields s = none ↔ ∀ e ∈ fields, e.slot ≠ s := by
  simp [valueAt?, List.find?_eq_none]

/-- If there is one value for each slot, each is found in its own. -/
theorem valueAt?_eq_some_iff {fields : List ItemField} (h : (fields.map ItemField.slot).Nodup)
    {s : Slot} {e : ItemField} : valueAt? fields s = some e ↔ e ∈ fields ∧ e.slot = s := by
  constructor
  · exact fun he => ⟨mem_of_valueAt? he, slot_of_valueAt? he⟩
  · rintro ⟨he, rfl⟩
    exact find?_of_nodup h he

/-- Of values in a row the earlier ones are found first. -/
theorem valueAt?_append (fields more : List ItemField) (s : Slot) :
    valueAt? (fields ++ more) s = (valueAt? fields s).or (valueAt? more s) := by
  rw [valueAt?, List.find?_append]
  rfl

/-- Changing the first value of a slot, within the slot. -/
theorem valueAt?_updateFirst {h : ItemField → ItemField} {s : Slot}
    (hs : ∀ e : ItemField, e.slot = s → (h e).slot = s) (fields : List ItemField) (s' : Slot) :
    valueAt? (updateFirst (fun e => e.slot == s) h fields) s' =
      if s' = s then (valueAt? fields s).map h else valueAt? fields s' := by
  induction fields with
  | nil => simp [updateFirst, valueAt?]
  | cons e es ih =>
    unfold updateFirst
    by_cases he : e.slot = s
    · rw [if_pos (by simpa using he)]
      by_cases hs' : s' = s
      · simp [valueAt?, hs', hs e he, he]
      · have hne : s ≠ s' := fun h => hs' h.symm
        simp [valueAt?, hs', hs e he, he, hne]
    · rw [if_neg (by simpa using he)]
      by_cases hs' : s' = s
      · subst hs'
        simpa [valueAt?, he] using ih
      · by_cases hes : e.slot = s'
        · simp [valueAt?, hes, hs']
        · rw [if_neg hs'] at ih ⊢
          simpa [valueAt?, hes] using ih

/-- A value put into its slot is found there; other slots stay as they are. -/
theorem valueAt?_putValue (fields : List ItemField) (f : ItemField) (s : Slot) :
    valueAt? (putValue fields f) s = if s = f.slot then some f else valueAt? fields s := by
  unfold putValue
  split
  · rename_i hsome
    obtain ⟨e, he⟩ := Option.isSome_iff_exists.mp hsome
    rw [valueAt?_updateFirst fun _ _ => rfl]
    simp [he]
  · rename_i hnone
    have hf : valueAt? fields f.slot = none := by simpa using hnone
    rw [valueAt?_append]
    by_cases hs : s = f.slot
    · subst hs
      rw [hf, if_pos rfl]
      simp [valueAt?]
    · have hne : f.slot ≠ s := fun h => hs h.symm
      simp [hs, valueAt?, hne]

/-- Of several values for one slot the last one stays. -/
theorem valueAt?_foldl_putValue (fields incoming : List ItemField) (s : Slot) :
    valueAt? (incoming.foldl putValue fields) s =
      (valueAt? incoming.reverse s).or (valueAt? fields s) := by
  induction incoming generalizing fields with
  | nil => rfl
  | cons f fs ih =>
    rw [List.foldl_cons, ih, valueAt?_putValue, List.reverse_cons, valueAt?_append]
    by_cases hs : s = f.slot
    · subst hs
      cases valueAt? fs.reverse f.slot <;> simp [valueAt?]
    · have hne : f.slot ≠ s := fun h => hs h.symm
      cases valueAt? fs.reverse s <;> simp [valueAt?, hs, hne]

/-! ### Live instances -/

/-- An instance is listed from outside if a value lists it that stands at top level or in a
live instance. -/
theorem mem_listedBy {fields : List ItemField} {live : List InstanceId} {i : InstanceId} :
    i ∈ listedBy fields live ↔
      ∃ e ∈ fields, e.group.all live.contains = true ∧ i ∈ e.listed := by
  simp only [listedBy, mem_distinct, List.mem_flatMap, List.mem_filter, and_assoc]

/-- The more instances are live, the more are listed. -/
theorem listedBy_mono {fields : List ItemField} {live live' : List InstanceId} (h : live ⊆ live') :
    listedBy fields live ⊆ listedBy fields live' := by
  intro i hi
  obtain ⟨e, he, hlive, hi⟩ := mem_listedBy.mp hi
  refine mem_listedBy.mpr ⟨e, he, ?_, hi⟩
  cases hgroup : e.group with
  | none => rfl
  | some j =>
    rw [hgroup] at hlive
    exact List.contains_iff_mem.mpr (h (List.contains_iff_mem.mp hlive))

/-- Each instance is listed once, however often values name it. -/
theorem nodup_listedBy (fields : List ItemField) (live : List InstanceId) :
    (listedBy fields live).Nodup := nodup_distinct _

/-- So there are no more of them than names in all values. -/
theorem length_listedBy_le (fields : List ItemField) (live : List InstanceId) :
    (listedBy fields live).length ≤ (fields.flatMap ItemField.listed).length := by
  refine (List.subperm_of_subset (nodup_listedBy fields live) fun i hi => ?_).length_le
  obtain ⟨e, he, -, hi⟩ := mem_listedBy.mp hi
  exact List.mem_flatMap.mpr ⟨e, he, hi⟩

/-- One round: it is the last one if it finds no more instances. -/
def liveBody (fields : List ItemField) (live : List InstanceId) :
    List InstanceId ⊕ List InstanceId :=
  if (listedBy fields live).length = live.length then .inl live else .inr (listedBy fields live)

/-- A round that is not the last one goes on with the listed instances, whose number has
changed. -/
theorem liveBody_eq_inr {fields : List ItemField} {live live' : List InstanceId}
    (h : liveBody fields live = .inr live') :
    (listedBy fields live).length ≠ live.length ∧ live' = listedBy fields live := by
  unfold liveBody at h
  split at h
  · cases h
  · rename_i hlength
    exact ⟨hlength, (Sum.inr.inj h).symm⟩

/-- Instances found so far are listed, each once. -/
structure FoundLive (fields : List ItemField) (live : List InstanceId) : Prop where
  nodup : live.Nodup
  listed : live ⊆ listedBy fields live

namespace FoundLive

variable {fields : List ItemField} {live : List InstanceId}

/-- To begin with, no instance is found. -/
theorem nil : FoundLive fields [] := ⟨List.nodup_nil, List.nil_subset _⟩

/-- What a round adds to the instances found is listed. -/
theorem next (h : FoundLive fields live) : FoundLive fields (listedBy fields live) :=
  ⟨nodup_listedBy fields live, listedBy_mono h.listed⟩

/-- A round loses none of the instances found. -/
theorem subperm (h : FoundLive fields live) : live.Subperm (listedBy fields live) :=
  List.subperm_of_subset h.nodup h.listed

end FoundLive

/-- **The rounds end**: each but the last one finds more instances, and no more than are
listed. -/
theorem ends_liveInstances (fields : List ItemField) :
    Ends (liveBody fields) [] (liveInstances fields) := by
  let Enough (fuel : Nat) (live : List InstanceId) : Prop :=
    FoundLive fields live ∧ (fields.flatMap ItemField.listed).length < fuel + live.length
  have hstart : Enough ((fields.flatMap ItemField.listed).length + 1) [] :=
    ⟨.nil, Nat.lt_succ_self _⟩
  refine ends_of_fuel (liveFrom fields) Enough (fun fuel live => ?run) ?zero ?round hstart
  case run =>
    rw [liveFrom, liveBody]
    split <;> rfl
  case zero =>
    rintro live ⟨hfound, hfuel⟩
    have hle := hfound.subperm.length_le
    have hbound := length_listedBy_le fields live
    omega
  case round =>
    rintro fuel live live' ⟨hfound, hfuel⟩ hbody
    obtain ⟨hmore, rfl⟩ := liveBody_eq_inr hbody
    have hle := hfound.subperm.length_le
    exact ⟨hfound.next, by omega⟩

/-- What holds of no instances, and from one round to the next, holds of the live ones,
and a further round finds no more. -/
theorem liveInstances_induct {fields : List ItemField} {P : List InstanceId → Prop} (hnil : P [])
    (hnext : ∀ live, P live → P (listedBy fields live)) :
    P (liveInstances fields) ∧ listedBy fields (liveInstances fields) ⊆ liveInstances fields := by
  have hround : ∀ live live', FoundLive fields live ∧ P live → liveBody fields live = .inr live' →
      FoundLive fields live' ∧ P live' := by
    rintro live live' ⟨hfound, hP⟩ hbody
    obtain ⟨-, rfl⟩ := liveBody_eq_inr hbody
    exact ⟨hfound.next, hnext live hP⟩
  obtain ⟨live, ⟨hfound, hP⟩, hlast⟩ := (ends_liveInstances fields).last hround ⟨.nil, hnil⟩
  unfold liveBody at hlast
  split at hlast
  · rename_i hlength
    rw [← Sum.inl.inj hlast]
    exact ⟨hP, (hfound.subperm.perm_of_length_le (Nat.le_of_eq hlength)).symm.subset⟩
  · cases hlast

/-- **What is listed at top level or in a live instance is live.** -/
theorem mem_liveInstances {fields : List ItemField} {e : ItemField} {i : InstanceId}
    (he : e ∈ fields) (hlive : e.group.all (liveInstances fields).contains = true)
    (hi : i ∈ e.listed) : i ∈ liveInstances fields :=
  (liveInstances_induct (P := fun _ => True) trivial fun _ _ => trivial).2
    (mem_listedBy.mpr ⟨e, he, hlive, hi⟩)

/-- Values at top level and of live instances are not dropped. -/
theorem valueAt?_dropDead_of_live {fields : List ItemField} {s : Slot}
    (hlive : s.owner.all (liveInstances fields).contains = true) :
    valueAt? (dropDead fields) s = valueAt? fields s := by
  unfold valueAt? dropDead
  rw [List.find?_filter]
  congr 1
  funext e
  by_cases hslot : e.slot = s
  · subst hslot
    simp [show e.group.all (liveInstances fields).contains = true from hlive]
  · simp [hslot]

/-- Values at top level are never dropped. -/
theorem valueAt?_dropDead (fields : List ItemField) (id : FieldId) :
    valueAt? (dropDead fields) ⟨id, none⟩ = valueAt? fields ⟨id, none⟩ :=
  valueAt?_dropDead_of_live rfl

/-- At top level a merge leaves the last incoming value of a slot, or else what
was there. -/
theorem valueAt?_mergeValues (fields incoming : List ItemField) (id : FieldId) :
    valueAt? (mergeValues fields incoming) ⟨id, none⟩ =
      (valueAt? incoming.reverse ⟨id, none⟩).or (valueAt? fields ⟨id, none⟩) := by
  rw [mergeValues, valueAt?_dropDead, valueAt?_foldl_putValue]

/-- After one element is changed there are the elements from before and the changed one. -/
theorem mem_updateFirst {α : Type} {p : α → Bool} {f : α → α} {xs : List α} {y : α}
    (h : y ∈ updateFirst p f xs) : y ∈ xs ∨ ∃ x ∈ xs, p x = true ∧ y = f x := by
  induction xs with
  | nil => cases h
  | cons x xs ih =>
    unfold updateFirst at h
    split at h
    · rename_i hp
      rcases List.mem_cons.mp h with rfl | h
      · exact .inr ⟨x, List.mem_cons_self, hp, rfl⟩
      · exact .inl (List.mem_cons_of_mem _ h)
    · rcases List.mem_cons.mp h with rfl | h
      · exact .inl List.mem_cons_self
      · rcases ih h with h | ⟨z, hz, hp, rfl⟩
        · exact .inl (List.mem_cons_of_mem _ h)
        · exact .inr ⟨z, List.mem_cons_of_mem _ hz, hp, rfl⟩

/-- After a value is put in there are the values from before and this one. -/
theorem mem_putValue {fields : List ItemField} {f e : ItemField} (h : e ∈ putValue fields f) :
    e = f ∨ e ∈ fields := by
  unfold putValue at h
  split at h
  · rcases mem_updateFirst h with h | ⟨_, _, _, rfl⟩
    · exact .inr h
    · exact .inl rfl
  · rcases List.mem_append.mp h with h | h
    · exact .inr h
    · exact .inl (List.mem_singleton.mp h)

/-- A merge makes no values of its own. -/
theorem mem_mergeValues {fields incoming : List ItemField} {e : ItemField}
    (h : e ∈ mergeValues fields incoming) : e ∈ incoming ∨ e ∈ fields := by
  have hput : e ∈ incoming.foldl putValue fields := (List.mem_filter.mp h).1
  clear h
  induction incoming generalizing fields with
  | nil => exact .inr hput
  | cons f fs ih =>
    rcases ih hput with h | h
    · exact .inl (List.mem_cons_of_mem _ h)
    · rcases mem_putValue h with rfl | h
      · exact .inl List.mem_cons_self
      · exact .inr h

/-! ## References held at top level -/

namespace Item

/-- **What was merged last wins**: a field of an updated item has its last incoming value,
or else the one from before. -/
theorem field?_update (it : Item) (incoming : List ItemField) (id : FieldId) :
    (it.update incoming).field? id =
      (valueAt? incoming.reverse ⟨id, none⟩).or (it.field? id) :=
  valueAt?_mergeValues it.fields incoming id

/-- What an item refers to in a field is a matter of this field. -/
theorem reference?_congr {a b : Item} {id : FieldId} (h : a.field? id = b.field? id) :
    a.reference? id = b.reference? id := by
  rw [reference?, reference?, h]

/-- Clearing a field that holds a reference empties it and leaves the others. -/
theorem reference?_clear? {it : Item} {id : FieldId} {y : ItemId}
    (h : it.reference? id = some y) :
    ∃ it', it.clear? id = some it' ∧ it' = { it with fields := it'.fields } ∧
      ∀ g, it'.reference? g = if g = id then none else it.reference? g := by
  unfold reference? at h
  obtain ⟨v, hv, hy⟩ := Option.bind_eq_some_iff.mp h
  obtain ⟨e, he, hfirst⟩ := Option.bind_eq_some_iff.mp hv
  have hne : e.value.elements.isEmpty = false := by
    cases hel : e.value.elements with
    | nil => simp [Values.first?, hel] at hfirst
    | cons => rfl
  refine ⟨_, by rw [clear?, he]; exact if_neg (by simp [hne]), rfl, fun g => ?_⟩
  have hslot : ∀ f : ItemField, f.slot = ⟨id, none⟩ → (cleared f).slot = ⟨id, none⟩ :=
    fun _ hf => hf
  simp only [reference?, field?]
  rw [valueAt?_updateFirst hslot]
  by_cases hg : g = id
  · subst hg
    rw [field?] at he
    simp [he, cleared, Values.first?]
  · rw [if_neg (by simpa using hg), if_neg hg]

end Item

end ContentStore
