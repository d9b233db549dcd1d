import ContentStore.Proofs.Items.Live
import Mathlib.Data.List.Nodup

/-!
# What a merge comes to

New values are put in one after the other.  All of them together have a plain
outcome (`merged`): a stored value gives way to the last new value of its slot, and
further slots follow in the order in which they come first.  Of these values an item
keeps those at top level and those of live instances, where live is the least set
of instances that contains what is listed at top level and in its own instances.
What a merge drops does not come back when it is made again, since nothing that is
kept lists it.
-/

namespace ContentStore

variable {fields incoming : List ItemField}

/-! ## One value for each slot -/

/-- The slots of new values that no stored value has, in the order in which they
come first. -/
def newSlots (fields incoming : List ItemField) : List Slot :=
  (distinct (incoming.map ItemField.slot)).filter fun s => (valueAt? fields s).isNone

/-- Stored values with new ones merged in: each is replaced by the last new value of
its slot, and the last values of new slots follow. -/
def merged (fields incoming : List ItemField) : List ItemField :=
  fields.map (fun e => (valueAt? incoming.reverse e.slot).getD e) ++
    (newSlots fields incoming).filterMap (valueAt? incoming.reverse)

theorem map_slot_updateFirst (f : ItemField) (fields : List ItemField) :
    (updateFirst (fun e => e.slot == f.slot) (fun _ => f) fields).map ItemField.slot =
      fields.map ItemField.slot := by
  induction fields with
  | nil => rfl
  | cons e es ih =>
    unfold updateFirst
    split
    · rename_i he
      rw [List.map_cons, List.map_cons, beq_iff_eq.mp he]
    · rw [List.map_cons, List.map_cons, ih]

theorem newSlots_cons (f : ItemField) :
    newSlots fields (f :: incoming) =
      (if (valueAt? fields f.slot).isNone then [f.slot] else []) ++
        newSlots (putValue fields f) incoming := by
  have hrest : newSlots (putValue fields f) incoming =
      ((distinct (incoming.map ItemField.slot)).filter fun s => s ≠ f.slot).filter
        fun s => (valueAt? fields s).isNone := by
    rw [newSlots, List.filter_filter]
    refine List.filter_congr fun s _ => ?_
    rw [valueAt?_putValue]
    by_cases hs : s = f.slot <;> simp [hs]
  rw [hrest, newSlots, List.map_cons, distinct, List.filter_cons]
  split <;> rfl

/-- Slots stay where they are, and new ones follow. -/
theorem map_slot_foldl_putValue (fields incoming : List ItemField) :
    (incoming.foldl putValue fields).map ItemField.slot =
      fields.map ItemField.slot ++ newSlots fields incoming := by
  induction incoming generalizing fields with
  | nil => simp [newSlots, distinct]
  | cons f fs ih =>
    rw [List.foldl_cons, ih, newSlots_cons, ← List.append_assoc]
    congr 1
    unfold putValue
    cases valueAt? fields f.slot with
    | none => simp
    | some e => simp [map_slot_updateFirst]

theorem valueAt?_of_mem_newSlots {s : Slot} (hs : s ∈ newSlots fields incoming) :
    valueAt? fields s = none := by
  simpa using (List.mem_filter.mp hs).2

theorem nodup_slots_foldl_putValue (h : (fields.map ItemField.slot).Nodup)
    (incoming : List ItemField) :
    ((incoming.foldl putValue fields).map ItemField.slot).Nodup := by
  rw [map_slot_foldl_putValue, List.nodup_append]
  refine ⟨h, (nodup_distinct _).filter _, fun s hs s' hs' heq => ?_⟩
  obtain ⟨e, he, rfl⟩ := List.mem_map.mp hs
  exact valueAt?_eq_none.mp (valueAt?_of_mem_newSlots hs') e he heq

/-- Merging doubles no slot. -/
theorem nodup_slots_mergeValues (h : (fields.map ItemField.slot).Nodup)
    (incoming : List ItemField) : ((mergeValues fields incoming).map ItemField.slot).Nodup :=
  (nodup_slots_foldl_putValue h incoming).sublist (List.filter_sublist.map _)

/-- With one value for each slot, the values are those found in their slots. -/
theorem filterMap_valueAt? (h : (fields.map ItemField.slot).Nodup) :
    (fields.map ItemField.slot).filterMap (valueAt? fields) = fields := by
  have hself : ∀ e ∈ fields, (valueAt? fields ∘ ItemField.slot) e = some e :=
    fun e he => (valueAt?_eq_some_iff h).mpr ⟨he, rfl⟩
  rw [List.filterMap_map, List.filterMap_congr hself, List.filterMap_some]

/-- **New values put in one after the other** come to the plain outcome. -/
theorem foldl_putValue (h : (fields.map ItemField.slot).Nodup) (incoming : List ItemField) :
    incoming.foldl putValue fields = merged fields incoming := by
  have hstored : ∀ e ∈ fields, (valueAt? (incoming.foldl putValue fields) ∘ ItemField.slot) e =
      some ((valueAt? incoming.reverse e.slot).getD e) := by
    intro e he
    rw [Function.comp_apply, valueAt?_foldl_putValue, (valueAt?_eq_some_iff h).mpr ⟨he, rfl⟩]
    cases valueAt? incoming.reverse e.slot <;> rfl
  have hnew : ∀ s ∈ newSlots fields incoming, valueAt? (incoming.foldl putValue fields) s =
      valueAt? incoming.reverse s := by
    intro s hs
    rw [valueAt?_foldl_putValue, valueAt?_of_mem_newSlots hs, Option.or_none]
  calc incoming.foldl putValue fields
      = (fields.map ItemField.slot ++ newSlots fields incoming).filterMap
          (valueAt? (incoming.foldl putValue fields)) := by
        rw [← map_slot_foldl_putValue, filterMap_valueAt? (nodup_slots_foldl_putValue h incoming)]
    _ = merged fields incoming := by
        rw [List.filterMap_append, List.filterMap_map, List.filterMap_congr hstored,
          List.filterMap_congr hnew, List.filterMap_eq_map', merged]

/-! ## Live instances -/

/-- The set contains whatever is listed at top level and in its own instances. -/
def ListsWithin (fields : List ItemField) (X : InstanceId → Prop) : Prop :=
  ∀ e ∈ fields, (∀ i ∈ e.group, X i) → ∀ i ∈ e.listed, X i

instance (fields : List ItemField) (i : InstanceId) : Decidable (Live fields i) :=
  decidable_of_iff _ mem_liveInstances_iff

/-- The live instances are the least set of this kind. -/
theorem live_least (fields : List ItemField) : ListsWithin fields (Live fields) ∧
    ∀ X, ListsWithin fields X → ∀ i, Live fields i → X i := by
  refine ⟨fun e he howner i hi => .of_listed he howner hi, fun X hX i hi => ?_⟩
  induction hi with
  | top he htop hi => exact hX _ he (fun j hj => nomatch htop.symm.trans hj) _ hi
  | inner _ he howner hi ih =>
    refine hX _ he (fun j hj => ?_) _ hi
    obtain rfl := Option.some.inj (howner.symm.trans hj)
    exact ih

/-- Instances stay live as long as the values that list any stay. -/
theorem Live.of_listing {more : List ItemField} (h : ∀ e ∈ fields, ∀ i ∈ e.listed, e ∈ more)
    {i : InstanceId} (hi : Live fields i) : Live more i :=
  (live_least fields).2 (Live more)
    (fun e he howner j hj => .of_listed (h e he j hj) howner hj) i hi

theorem Live.mono {more : List ItemField} (h : fields ⊆ more) {i : InstanceId}
    (hi : Live fields i) : Live more i :=
  hi.of_listing fun _ he _ _ => h he

/-- Only kept values make instances live. -/
theorem live_dropDead {i : InstanceId} (hi : Live fields i) : Live (dropDead fields) i := by
  refine ((live_least fields).2 (fun i => Live fields i ∧ Live (dropDead fields) i)
    (fun e he howner j hj => ⟨?_, ?_⟩) i hi).2
  · exact .of_listed he (fun k hk => (howner k hk).1) hj
  · exact .of_listed (mem_dropDead.mpr ⟨he, fun k hk => (howner k hk).1⟩)
      (fun k hk => (howner k hk).2) hj

/-- What stays is what stands at top level or in a live instance. -/
theorem dropDead_eq (fields : List ItemField) :
    dropDead fields = fields.filter fun e => ∀ i ∈ e.group, Live fields i := by
  refine List.filter_congr fun e _ => ?_
  rw [Bool.eq_iff_iff, all_liveInstances_iff]
  simp

/-! ## Merging again -/

/-- Values that have been dropped are dropped again when they come back. -/
theorem dropDead_append {dead : List ItemField}
    (hdead : ∀ e ∈ dead, e ∈ fields ∧ e ∉ dropDead fields) :
    dropDead (dropDead fields ++ dead) = dropDead fields := by
  have hsub : dropDead fields ++ dead ⊆ fields := by
    intro e he
    rcases List.mem_append.mp he with he | he
    · exact (mem_dropDead.mp he).1
    · exact (hdead e he).1
  have hkept : ∀ e ∈ dropDead fields, ∀ i ∈ e.group, Live (dropDead fields ++ dead) i := by
    intro e he i hi
    exact (live_dropDead ((mem_dropDead.mp he).2 i hi)).mono (List.subset_append_left _ _)
  have hlost : ∀ e ∈ dead, ¬ ∀ i ∈ e.group, Live (dropDead fields ++ dead) i := by
    intro e he hlive
    exact (hdead e he).2 (mem_dropDead.mpr ⟨(hdead e he).1, fun i hi => (hlive i hi).mono hsub⟩)
  rw [dropDead_eq (dropDead fields ++ dead), List.filter_append,
    List.filter_eq_self.mpr fun e he => decide_eq_true (hkept e he),
    List.filter_eq_nil_iff.mpr fun e he => by simpa using hlost e he, List.append_nil]

/-- **A merge made again** puts back what it dropped, and nothing else. -/
theorem foldl_putValue_dropDead (h : (fields.map ItemField.slot).Nodup)
    (incoming : List ItemField) :
    ∃ dead, incoming.foldl putValue (mergeValues fields incoming) =
        mergeValues fields incoming ++ dead ∧
      ∀ e ∈ dead, e ∈ incoming.foldl putValue fields ∧ e ∉ mergeValues fields incoming := by
  have hslots := nodup_slots_foldl_putValue h incoming
  have hvalue : ∀ s e, valueAt? incoming.reverse s = some e →
      valueAt? (incoming.foldl putValue fields) s = some e := by
    intro s e he
    rw [valueAt?_foldl_putValue, he, Option.some_or]
  rw [foldl_putValue (nodup_slots_mergeValues h incoming), merged]
  refine ⟨_, congrArg (· ++ _) ?_, fun e he => ?_⟩
  · refine (List.map_congr_left fun e he => ?_).trans (List.map_id' _)
    have hself := (valueAt?_eq_some_iff hslots).mpr ⟨(mem_dropDead.mp he).1, rfl⟩
    cases hlast : valueAt? incoming.reverse e.slot with
    | none => rfl
    | some e' => exact Option.some.inj ((hvalue _ _ hlast).symm.trans hself)
  · obtain ⟨s, hs, hes⟩ := List.mem_filterMap.mp he
    refine ⟨mem_of_valueAt? (hvalue s e hes), fun hmem => ?_⟩
    exact valueAt?_eq_none.mp (valueAt?_of_mem_newSlots hs) e hmem (slot_of_valueAt? hes)

/-- **An update** keeps of the merged values those at top level and those of live
instances, one for each slot.  To make it again, or to merge in nothing, changes
nothing. -/
theorem Item.update_eq (it : Item) (h : (it.fields.map ItemField.slot).Nodup)
    (incoming : List ItemField) :
    it.update incoming = { it with
        fields := (merged it.fields incoming).filter fun e =>
          ∀ i ∈ e.group, Live (merged it.fields incoming) i } ∧
      (ListsWithin (merged it.fields incoming) (Live (merged it.fields incoming)) ∧
        ∀ X, ListsWithin (merged it.fields incoming) X →
          ∀ i, Live (merged it.fields incoming) i → X i) ∧
      ((it.update incoming).fields.map ItemField.slot).Nodup ∧
      (it.update incoming).update incoming = it.update incoming ∧
      (it.update incoming).update [] = it.update incoming := by
  have hfold := foldl_putValue h incoming
  obtain ⟨dead, hagain, hdead⟩ := foldl_putValue_dropDead h incoming
  have hsame : ∀ more, mergeValues (mergeValues it.fields incoming) more =
      mergeValues it.fields incoming → (it.update incoming).update more = it.update incoming :=
    fun more hmore => congrArg (fun fields => { it with fields }) hmore
  refine ⟨?_, live_least _, nodup_slots_mergeValues h incoming, hsame _ ?_, hsame _ ?_⟩
  · rw [← hfold, ← dropDead_eq]
    rfl
  · rw [mergeValues, hagain]
    exact dropDead_append hdead
  · have hnone : ∀ e ∈ ([] : List ItemField), e ∈ incoming.foldl putValue it.fields ∧
        e ∉ dropDead (incoming.foldl putValue it.fields) := fun _ he => (List.not_mem_nil he).elim
    have hempty := dropDead_append hnone
    rwa [List.append_nil] at hempty

section Ring

/-- A value that lists instances. -/
def instancesIn (field : FieldId) (owner : Option InstanceId) (is : List InstanceId) : ItemField :=
  ⟨field, field.text, ⟨.group, is.map .group⟩, owner⟩

/-- An item whose two instances list each other, the first one listed at top level,
too. -/
def ring : Item :=
  { id := ⟨"ring"⟩, project := ⟨"project"⟩, model := ⟨"model"⟩, schema := ⟨"schema"⟩,
    thread := ⟨"thread"⟩,
    fields := [instancesIn ⟨"parts"⟩ none [⟨"first"⟩],
      instancesIn ⟨"next"⟩ (some ⟨"first"⟩) [⟨"second"⟩],
      instancesIn ⟨"next"⟩ (some ⟨"second"⟩) [⟨"first"⟩]],
    metadataItem := none, metadataOf := none, createdBy := .user ⟨"user"⟩, updatedBy := none,
    createdAt := ⟨0, 0⟩ }

/-- Other parts, given twice, and what comes next to the last of them. -/
def otherParts : List ItemField := [
  instancesIn ⟨"parts"⟩ none [⟨"third"⟩],
  instancesIn ⟨"next"⟩ (some ⟨"fourth"⟩) [⟨"fifth"⟩],
  instancesIn ⟨"parts"⟩ none [⟨"fourth"⟩]]

/-- Once nothing else lists them, both instances of the ring go. -/
theorem update_ring : (ring.fields.map ItemField.slot).Nodup ∧
    (ring.update otherParts).fields = [instancesIn ⟨"parts"⟩ none [⟨"fourth"⟩],
      instancesIn ⟨"next"⟩ (some ⟨"fourth"⟩) [⟨"fifth"⟩]] ∧
    (ring.update otherParts).update otherParts = ring.update otherParts := by
  have hslots : (ring.fields.map ItemField.slot).Nodup := by decide
  obtain ⟨-, -, -, hagain, -⟩ := ring.update_eq hslots otherParts
  exact ⟨hslots, by decide, hagain⟩

end Ring

end ContentStore
