import ContentStore.Proofs.Embedding.Assembling
import ContentStore.Proofs.Embedding.Rounds
import ContentStore.Proofs.Items.Merging

/-!
# The traversals agree

Three traversals go through the instances of an item: reading input looks for the schema
of each (`instanceSchemas`), assembling shows them (`assemble`), and cleaning up keeps
the values of those that are live (`dropDead`).  They visit instances in different
orders, but each of them comes to those whose values follow a schema, as long as group
fields that list the same instance embed the same group (`traversals_agree`).
-/

namespace ContentStore.Embedding

variable {p : Package} {fields stored : List ItemField}

/-- What values follow belongs to live instances, if values hold elements of their own
kind. -/
theorem live_of_governs (hkinds : ∀ e ∈ fields, ∀ v ∈ e.value.elements, v.kind = e.value.kind)
    {S : Schema} {owner : Option InstanceId} (h : Governs p (Lists fields) S owner) :
    ∀ i ∈ owner, Live fields i := by
  induction h with
  | top => exact fun _ hi => nomatch hi
  | inner _ _ _ hi ih =>
    obtain ⟨e, he, hi⟩ := hi
    have hmem := mem_of_valueAt? he
    obtain ⟨v, hv, hvi⟩ := List.mem_filterMap.mp hi
    have hkind : e.value.kind = .group := (hkinds e hmem v hv).symm.trans (Value.kind_of_group? hvi)
    have howner : e.group = _ := congrArg Slot.owner (slot_of_valueAt? he)
    rintro _ ⟨⟩
    refine .of_listed hmem (fun j hj => ih j (howner.symm.trans hj)) ?_
    rw [ItemField.listed, if_pos hkind]
    exact hi

/-- **Instances that are shown** are those whose values follow a schema. -/
theorem mem_shown_iff (hagree : GroupsAgree p (Lists fields)) {i : InstanceId} :
    i ∈ (blockEntries (assemble p fields)).map Entry.id ↔
      ∃ S, Governs p (Lists fields) S (some i) := by
  obtain ⟨shown, hassembles, rfl, -⟩ := assembles_assemble p fields
  obtain ⟨hroot, hclosed⟩ := hassembles.closed
  have hfaithful := hassembles.faithful .top fun _ hF => hF
  constructor
  · intro hi
    obtain ⟨s, hs, rfl⟩ := List.mem_map.mp hi
    obtain ⟨S, -, hS, -⟩ := hfaithful s hs
    exact ⟨S, hS⟩
  · rintro ⟨S, hS⟩
    -- whatever follows a schema is at top level, or it is shown in a block of that schema
    suffices hshows : ∀ S owner, Governs p (Lists fields) S owner → ShowsAll p fields owner
        S.groupFields ((blockEntries (assemble p fields)).map Entry.id).reverse by
      cases hS with
      | inner hhost hF hG hi => exact List.mem_reverse.mp (hshows _ _ hhost _ hF _ hG i hi)
    intro S owner hS
    induction hS with
    | top => exact hroot
    | inner hhost hF hG hi ih =>
      have hmem := ih _ hF _ hG _ hi
      obtain ⟨s, hs, rfl⟩ := List.mem_map.mp (List.mem_reverse.mp hmem)
      obtain ⟨T, hT, hgoverns, -⟩ := hfaithful s hs
      obtain rfl := hagree.schema_eq hgoverns (.inner hhost hF hG hi)
      exact hclosed s hs T hT

/-- Input for one instance is read with the schema under which it is known. -/
theorem valuesOfRaw_singleton {found : Found} (hfound : instanceSchemas p [] stored = .ok found)
    {raw : RawField} {i : InstanceId} (hraw : raw.group = some i) :
    valuesOfRaw p [raw] stored = match found.lookup i with
      | some S => (valueOf S raw).map fun v => [v]
      | none => .error (.misuse (.instanceNotListed i.text)) := by
  have hschema : schemaOf? found raw = found.lookup i := by
    rw [schemaOf?, hraw, Option.bind_some]
  have htop : [raw].filter (fun r => r.group.isNone) = [] := by simp [hraw]
  have hinner : [raw].filter (fun r => r.group.isSome) = [raw] := by simp [hraw]
  have hfound : instanceSchemas p [] stored = pure found := hfound
  simp only [valuesOfRaw, htop, hinner, List.mapM_nil, List.length_singleton, resolveRounds, hfound,
    pure_bind]
  cases hi : found.lookup i with
  | none =>
    rw [resolveRound_of_none (hschema.trans hi), hraw]
    rfl
  | some S =>
    rw [resolveRound_of_some (hschema.trans hi)]
    dsimp only
    cases valueOf S raw <;> rfl

/-- **The traversals agree.**  In a package with the schemas of its groups, an item may
have one value for each slot, with elements of its own kind, and group fields that list
the same instance embed the same group.  Then the instances that are shown are those
known to input, each is shown once and under the schema its input is read with, all its
values are kept, and those for fields that are no groups are shown in declared order.
Input for other instances is refused. -/
theorem traversals_agree {it : Item} (hgroups : p.HoldsGroups)
    (hslots : (it.fields.map ItemField.slot).Nodup)
    (hkinds : ∀ e ∈ it.fields, ∀ v ∈ e.value.elements, v.kind = e.value.kind)
    (hagree : GroupsAgree p (Lists it.fields)) :
    ∃ found, instanceSchemas p [] it.fields = .ok found ∧
      ((blockEntries (assemble p it.fields)).map Entry.id).Nodup ∧
      (∀ i, i ∈ (blockEntries (assemble p it.fields)).map Entry.id ↔
        (found.lookup i).isSome) ∧
      (∀ raw : RawField, ∀ i ∈ raw.group, found.lookup i = none →
        valuesOfRaw p [raw] it.fields = .error (.misuse (.instanceNotListed i.text))) ∧
      ∀ s ∈ blockEntries (assemble p it.fields), ∃ S,
        p.groupSchema? s.group = some S ∧ found.lookup s.id = some S ∧
        (∀ raw : RawField, raw.group = some s.id →
          valuesOfRaw p [raw] it.fields = (valueOf S raw).map fun v => [v]) ∧
        (∀ e ∈ it.fields, e.group = some s.id → e ∈ dropDead it.fields) ∧
        s.fields = (S.fields.filter fun F => F.group?.isNone).filterMap
          (fun F => it.groupField? F.id s.id) ∧
        ∀ e, e ∈ s.fields ↔ e ∈ it.fields ∧ e.group = some s.id ∧
          ∃ F ∈ S.fields, F.group? = none ∧ F.id = e.field := by
  obtain ⟨found, hfound, hlookup⟩ := lookup_instanceSchemas (listsOver_nil ▸ hagree) hgroups
  obtain ⟨shown, hassembles, -, hapart⟩ := assembles_assemble p it.fields
  refine ⟨found, hfound, hapart.nodup, fun i => ?_, fun raw i hraw hnone => ?_, fun s hs => ?_⟩
  · rw [mem_shown_iff hagree, Option.isSome_iff_exists]
    exact exists_congr fun S => (hlookup i S).symm
  · rw [valuesOfRaw_singleton hfound hraw, hnone]
  · obtain ⟨S, hS, hgoverns, hfields⟩ := hassembles.faithful .top (fun _ hF => hF) s hs
    have hknown : found.lookup s.id = some S := (hlookup s.id S).mpr hgoverns
    refine ⟨S, hS, hknown, fun raw hraw => ?_, fun e he howner => ?_, hfields, fun e => ?_⟩
    · rw [valuesOfRaw_singleton hfound hraw, hknown]
    · refine mem_dropDead.mpr ⟨he, fun i hi => ?_⟩
      exact live_of_governs hkinds hgoverns i (howner.symm.trans hi)
    · rw [hfields, instanceValues]
      simp only [List.mem_filterMap, List.mem_filter, valueAt?_eq_some_iff hslots, ItemField.slot,
        Slot.mk.injEq, Option.isNone_iff_eq_none]
      constructor
      · rintro ⟨F, ⟨hF, hnone⟩, he, hid, howner⟩
        exact ⟨he, howner, F, hF, hnone, hid.symm⟩
      · rintro ⟨he, howner, F, hF, hnone, hid⟩
        exact ⟨F, ⟨hF, hnone⟩, he, hid.symm, howner⟩

section Rings

/-- A package whose parts embed parts, each with a label. -/
def parts : Package where
  model := ⟨⟨"model"⟩, ⟨"project"⟩, "ring", "ring", "", ⟨"schema"⟩, none⟩
  schema := shelf "schema"
    { Field.named ⟨"parts"⟩ "parts" (.group ⟨"part"⟩) with multiple := true }
  metadataSchema := none
  groups := [(⟨⟨"part"⟩, ⟨"project"⟩, "part", "part", "", ⟨"part"⟩⟩, { shelf "part"
    (Field.named ⟨"label"⟩ "label" (.text none)) with
      fields := [Field.named ⟨"next"⟩ "next" (.group ⟨"part"⟩),
        Field.named ⟨"label"⟩ "label" (.text none)] })]
  referenced := []

/-- The label of the second part. -/
def label : ItemField := ⟨⟨"label"⟩, "label", .single (.text "end"), some ⟨"second"⟩⟩

/-- The ring with a label. -/
def labelledRing : Item := { ring with fields := ring.fields ++ [label] }

/-- Both parts of the ring are shown, the second one with its label, and input is read
for them. -/
theorem traversals_agree_of_ring : parts.HoldsGroups ∧
    (labelledRing.fields.map ItemField.slot).Nodup ∧
    (∀ e ∈ labelledRing.fields, ∀ v ∈ e.value.elements, v.kind = e.value.kind) ∧
    GroupsAgree parts (Lists labelledRing.fields) ∧
    blockEntries (assemble parts labelledRing.fields) =
      [⟨⟨"first"⟩, ⟨"part"⟩, []⟩, ⟨⟨"second"⟩, ⟨"part"⟩, [label]⟩] ∧
    ∃ found, instanceSchemas parts [] labelledRing.fields = .ok found ∧
      (found.lookup ⟨"second"⟩).isSome := by
  have hgroups : parts.HoldsGroups := by decide
  have hslots : (labelledRing.fields.map ItemField.slot).Nodup := by decide
  have hkinds : ∀ e ∈ labelledRing.fields, ∀ v ∈ e.value.elements, v.kind = e.value.kind := by
    decide
  have hapart : parts.FieldsApart := by decide
  have hone : ListedByOneGroup parts labelledRing.fields := by decide
  have hagree := groupsAgree_of_listedByOneGroup hapart hone
  have hshown : blockEntries (assemble parts labelledRing.fields) =
      [⟨⟨"first"⟩, ⟨"part"⟩, []⟩, ⟨⟨"second"⟩, ⟨"part"⟩, [label]⟩] := by
    decide +kernel
  obtain ⟨found, hfound, -, hknown, -⟩ := traversals_agree hgroups hslots hkinds hagree
  refine ⟨hgroups, hslots, hkinds, hagree, hshown, found, hfound, (hknown _).mp ?_⟩
  rw [hshown]
  decide

end Rings

end ContentStore.Embedding
