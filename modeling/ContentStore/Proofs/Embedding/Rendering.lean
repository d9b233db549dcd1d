import ContentStore.Proofs.Catalog.Redrawn
import ContentStore.Proofs.Embedding.Assembling
import Mathlib.Data.String.Basic

/-!
# What rendering shows

Every object of a rendering is built in the same way: an id, then values by their keys, then
the blocks of groups, and what comes later takes the place of what has the same key
(`member?_objectMembers`).  The keys of blocks are those of the group fields, and so are
apart from one another and from those of other fields.  So every instance that assembling
shows has an object, in its place (`Assembles.drawn`).

At top level values stand under the keys that the schema declares now.  In an instance they
stand under the keys that they were written with (`Holds.stored`), and if two have been
written with one key, by fields that have been renamed meanwhile, the earlier one is
missing (`caption_missing`).  If no field of an instance has been renamed since, all of its
values stand under the keys of the schema (`Holds.current`).
-/

namespace ContentStore

/-- In the schemas of items and of groups, fields are told apart by their keys. -/
def Package.KeysApart (p : Package) : Prop :=
  ∀ S ∈ p.schema :: p.groups.map Prod.snd, (S.fields.map Field.key).Nodup

instance (p : Package) : Decidable p.KeysApart :=
  inferInstanceAs (Decidable (∀ S ∈ p.schema :: p.groups.map Prod.snd,
    (S.fields.map Field.key).Nodup))

/-! ## Members of objects -/

namespace Json

variable {name key : String} {value : Json} {members : List (String × Json)}

/-- Members in the order of their names, each name once. -/
def Sorted (members : List (String × Json)) : Prop := members.Pairwise fun a b => a.1 < b.1

/-- Sorted members have distinct names. -/
theorem Sorted.nodup (h : Sorted members) : (members.map Prod.fst).Nodup :=
  (List.pairwise_map.mpr h).imp fun hlt => ne_of_lt hlt

/-- A member that is inserted is found under its name, and hides no member of another name.
-/
theorem lookup_insertMember :
    (insertMember name value members).lookup key =
      if key = name then some value else members.lookup key := by
  induction members with
  | nil => rw [insertMember, lookup_cons]
  | cons m rest ih =>
    obtain ⟨n, v⟩ := m
    unfold insertMember
    split
    · rw [lookup_cons]
    · split
      · rename_i hsame
        subst hsame
        rw [lookup_cons, lookup_cons]
        split <;> rfl
      · rename_i hne
        rw [lookup_cons, ih, lookup_cons]
        by_cases hkey : key = n
        · subst hkey
          rw [if_pos rfl, if_pos rfl, if_neg (Ne.symm hne)]
        · rw [if_neg hkey, if_neg hkey]

/-- Nothing comes in but the member that is inserted. -/
theorem mem_insertMember {m : String × Json} (hm : m ∈ insertMember name value members) :
    m = (name, value) ∨ m ∈ members := by
  induction members with
  | nil => exact .inl (List.mem_singleton.mp hm)
  | cons m' rest ih =>
    obtain ⟨n, v⟩ := m'
    unfold insertMember at hm
    split at hm
    · exact List.mem_cons.mp hm
    · split at hm
      · exact (List.mem_cons.mp hm).imp_right (List.mem_cons_of_mem _)
      · rcases List.mem_cons.mp hm with rfl | hm
        · exact .inr List.mem_cons_self
        · exact (ih hm).imp_right (List.mem_cons_of_mem _)

/-- Members stay sorted when another one is inserted. -/
theorem Sorted.insertMember (h : Sorted members) : Sorted (insertMember name value members) := by
  induction members with
  | nil => exact List.pairwise_singleton _ _
  | cons m rest ih =>
    obtain ⟨n, v⟩ := m
    obtain ⟨hfirst, hrest⟩ := List.pairwise_cons.mp h
    unfold Json.insertMember
    split
    · rename_i hlt
      refine List.pairwise_cons.mpr ⟨fun m hm => ?_, h⟩
      rcases List.mem_cons.mp hm with rfl | hm
      · exact hlt
      · exact lt_trans hlt (hfirst m hm)
    · rename_i hnot
      split
      · rename_i hsame
        subst hsame
        exact List.pairwise_cons.mpr ⟨hfirst, hrest⟩
      · rename_i hne
        refine List.pairwise_cons.mpr ⟨fun m hm => ?_, ih hrest⟩
        rcases mem_insertMember hm with rfl | hm
        · exact lt_of_le_of_ne (not_lt.mp hnot) (Ne.symm hne)
        · exact hfirst m hm

/-- Where no name is repeated, the first member of a name is the last one. -/
theorem member?_eq_lookup (h : (members.map Prod.fst).Nodup) :
    member? key members = members.lookup key := by
  have hreverse : (members.reverse.map Prod.fst).Nodup := by
    rw [List.map_reverse]
    exact List.nodup_reverse.mpr h
  unfold member?
  cases hlookup : members.lookup key with
  | some v => exact lookup_of_mem hreverse (List.mem_reverse.mpr (mem_of_lookup hlookup))
  | none =>
    rw [List.lookup_eq_none_iff] at hlookup ⊢
    exact fun m hm => hlookup m (List.mem_reverse.mp hm)

/-- Among distinct names every member is found. -/
theorem member?_of_mem (h : (members.map Prod.fst).Nodup) (hm : (key, value) ∈ members) :
    member? key members = some value :=
  (member?_eq_lookup h).trans (lookup_of_mem h hm)

/-- A name that nobody has is not found. -/
theorem member?_eq_none (h : ∀ m ∈ members, m.1 ≠ key) : member? key members = none := by
  unfold member?
  rw [List.lookup_eq_none_iff]
  intro m hm
  exact bne_iff_ne.mpr (Ne.symm (h m (List.mem_reverse.mp hm)))

end Json

namespace Embedding

open Json (Sorted member?)

variable {key : String}

/-- Of the members that are put in, the last one of a name is found. -/
theorem lookup_putMembers (members new : List (String × Json)) :
    (putMembers members new).lookup key = (member? key new).or (members.lookup key) := by
  induction new generalizing members with
  | nil => rfl
  | cons m new ih =>
    have hlast : member? key (m :: new) =
        (member? key new).or (if key = m.1 then some m.2 else none) := by
      unfold member?
      rw [List.reverse_cons, List.lookup_append, lookup_cons, List.lookup_nil]
    have hstep := ih (Json.insertMember m.1 m.2 members)
    rw [Json.lookup_insertMember] at hstep
    rw [hlast, Option.or_assoc]
    refine hstep.trans ?_
    split <;> rfl

/-- Members stay sorted when others are put in. -/
theorem sorted_putMembers {members : List (String × Json)} (h : Sorted members)
    (new : List (String × Json)) : Sorted (putMembers members new) := by
  induction new generalizing members with
  | nil => exact h
  | cons m new ih => exact ih h.insertMember

/-- The members of an object: an id, values by their keys, and blocks. -/
def objectMembers (id : String) (values blocks : List (String × Json)) : List (String × Json) :=
  putMembers (putMembers [("id", .string id)] values) blocks

/-- **Blocks come before values, and values before the id.** -/
theorem member?_objectMembers (id : String) (values blocks : List (String × Json)) :
    member? key (objectMembers id values blocks) = (member? key blocks).or
      ((member? key values).or (if key = "id" then some (.string id) else none)) := by
  have hid : Sorted [("id", Json.string id)] := List.pairwise_singleton _ _
  have hsorted := sorted_putMembers (sorted_putMembers hid values) blocks
  rw [objectMembers, Json.member?_eq_lookup hsorted.nodup, lookup_putMembers, lookup_putMembers,
    lookup_cons, List.lookup_nil]

/-! ## Values of an instance -/

/-- The value that was written last under a key, among the values of an instance. -/
def lastUnder? (key : String) (values : List ItemField) : Option ItemField :=
  values.reverse.find? fun v => v.key == key

/-- The plain form of a value: an array if the schema makes its field multiple. -/
def renderAs (S : Schema) (v : ItemField) : Json :=
  v.value.render (((S.field? v.field).map Field.multiple).getD false)

/-- Under a key stands the value that was written last under it. -/
theorem member?_renderFields (S : Schema) (values : List ItemField) :
    member? key (renderFields S values) = (lastUnder? key values).map (renderAs S) := by
  have hlookup : ∀ vs : List ItemField, (vs.map fun v => (v.key, renderAs S v)).lookup key =
      (vs.find? fun v => v.key == key).map (renderAs S) := by
    intro vs
    induction vs with
    | nil => rfl
    | cons v vs ih =>
      rw [List.map_cons, lookup_cons, ih, List.find?_cons]
      by_cases hv : key = v.key
      · rw [if_pos hv, beq_iff_eq.mpr hv.symm]
        rfl
      · rw [if_neg hv, beq_eq_false_iff_ne.mpr (Ne.symm hv)]
  unfold member? lastUnder?
  rw [← hlookup, List.map_reverse]
  rfl

/-- No field of the instance has been renamed since its value was written. -/
def Entry.Current (S : Schema) (e : Entry) : Prop :=
  ∀ v ∈ e.fields, ∀ f ∈ S.field? v.field, v.key = f.key

instance (S : Schema) (e : Entry) : Decidable (e.Current S) :=
  inferInstanceAs (Decidable (∀ v ∈ e.fields, ∀ f ∈ S.field? v.field, v.key = f.key))

section Values

variable {fields : List ItemField} {S : Schema} {i : InstanceId} {v w : ItemField}

/-- The values of an instance stand in its slots of fields that are no group fields. -/
theorem mem_instanceValues (hv : v ∈ instanceValues fields S i) :
    (∃ f ∈ S.fields, f.group? = none ∧ f.id = v.field) ∧
      valueAt? fields ⟨v.field, some i⟩ = some v := by
  obtain ⟨f, hf, hvalue⟩ := List.mem_filterMap.mp hv
  obtain ⟨hmem, hnone⟩ := List.mem_filter.mp hf
  have hid : v.field = f.id := congrArg Slot.field (slot_of_valueAt? hvalue)
  exact ⟨⟨f, hmem, Option.isNone_iff_eq_none.mp hnone, hid.symm⟩, hid ▸ hvalue⟩

/-- The field of a value is declared. -/
theorem exists_field?_of_mem (hv : v ∈ instanceValues fields S i) :
    ∃ f ∈ S.fields, S.field? v.field = some f ∧ f.id = v.field := by
  obtain ⟨⟨f, hf, -, hid⟩, -⟩ := mem_instanceValues hv
  have hsome : (S.field? v.field).isSome :=
    List.find?_isSome.mpr ⟨f, hf, beq_iff_eq.mpr hid⟩
  obtain ⟨g, hg⟩ := Option.isSome_iff_exists.mp hsome
  exact ⟨g, (Schema.mem_of_field? hg).1, hg, (Schema.mem_of_field? hg).2⟩

/-- Under the keys of now there is one value for each. -/
theorem eq_of_current (hkeys : (S.fields.map Field.key).Nodup) {e : Entry}
    (he : e.fields = instanceValues fields S i) (hcurrent : e.Current S) (hv : v ∈ e.fields)
    (hw : w ∈ e.fields) (hkey : v.key = w.key) : v = w := by
  obtain ⟨f, hf, hfv, hfid⟩ := exists_field?_of_mem (he ▸ hv)
  obtain ⟨g, hg, hgw, hgid⟩ := exists_field?_of_mem (he ▸ hw)
  have hfg : f.key = g.key := by rw [← hcurrent v hv f hfv, hkey, hcurrent w hw g hgw]
  obtain rfl := List.inj_on_of_nodup_map hkeys hf hg hfg
  have hfield : v.field = w.field := hfid.symm.trans hgid
  have hvalue := (mem_instanceValues (he ▸ hv)).2
  rw [hfield, (mem_instanceValues (he ▸ hw)).2] at hvalue
  exact (Option.some.inj hvalue).symm

end Values

/-! ## Objects of instances -/

/-- What stands in the object of an instance whose values follow the schema. -/
structure Holds (S : Schema) (e : Entry) (object : List (String × Json)) : Prop where
  /-- Under a key that no group field has, the last value that was written with it. -/
  stored : ∀ key, (∀ F ∈ S.groupFields, F.key ≠ key) → member? key object =
    ((lastUnder? key e.fields).map (renderAs S)).or
      (if key = "id" then some (.string e.id.text) else none)
  /-- If no field has been renamed since, every value stands under the key of its field. -/
  current : e.Current S → ∀ v ∈ e.fields, ∃ f, S.field? v.field = some f ∧
    (f.group? = none → member? f.key object = some (v.value.render f.multiple))
  /-- And then no two values have one key. -/
  apart : e.Current S → ∀ v ∈ e.fields, ∀ w ∈ e.fields, v.key = w.key → v = w

/-- The object of an instance holds its values, if no block stands under the key of a plain
field. -/
theorem holds_objectMembers {S : Schema} (hkeys : (S.fields.map Field.key).Nodup) {e : Entry}
    {fields : List ItemField} (he : e.fields = instanceValues fields S e.id)
    {blocks : List (String × Json)} (hblocks : ∀ m ∈ blocks, ∃ F ∈ S.groupFields, F.key = m.1) :
    Holds S e (objectMembers e.id.text (renderFields S e.fields) blocks) := by
  have hstored : ∀ key, (∀ F ∈ S.groupFields, F.key ≠ key) →
      member? key (objectMembers e.id.text (renderFields S e.fields) blocks) =
        ((lastUnder? key e.fields).map (renderAs S)).or
          (if key = "id" then some (.string e.id.text) else none) := by
    intro key hfree
    have hnone : member? key blocks = none := by
      refine Json.member?_eq_none fun m hm heq => ?_
      obtain ⟨F, hF, hFm⟩ := hblocks m hm
      exact hfree F hF (hFm.trans heq)
    rw [member?_objectMembers, hnone, Option.none_or, member?_renderFields]
  refine ⟨hstored, fun hcurrent v hv => ?_, fun hcurrent v hv w hw => ?_⟩
  · obtain ⟨f, hf, hfv, -⟩ := exists_field?_of_mem (he ▸ hv)
    refine ⟨f, hfv, fun hvalue => ?_⟩
    have hfree : ∀ F ∈ S.groupFields, F.key ≠ f.key := by
      intro F hF hkey
      obtain ⟨hmem, g, hg⟩ := Schema.mem_groupFields.mp hF
      obtain rfl := List.inj_on_of_nodup_map hkeys hmem hf hkey
      rw [hvalue] at hg
      cases hg
    have hkey : v.key = f.key := hcurrent v hv f hfv
    have hlast : lastUnder? f.key e.fields = some v := by
      have hsome : (lastUnder? f.key e.fields).isSome :=
        List.find?_isSome.mpr ⟨v, List.mem_reverse.mpr hv, beq_iff_eq.mpr hkey⟩
      obtain ⟨w, hw⟩ := Option.isSome_iff_exists.mp hsome
      have hmem : w ∈ e.fields := List.mem_reverse.mp (List.mem_of_find?_eq_some hw)
      have hwkey : w.key = f.key := by simpa using List.find?_some hw
      rw [hw, eq_of_current hkeys he hcurrent hv hmem (hkey.trans hwkey.symm)]
    rw [hstored f.key hfree, hlast, Option.map_some, Option.some_or, renderAs, hfv]
    rfl
  · exact eq_of_current hkeys he hcurrent hv hw

/-- The object of an instance in a rendering: it stands in the array under the key of its
block, as the instance stands in the block. -/
inductive Placed : List Block → List (String × Json) → Entry → List (String × Json) → Prop
  | here {bs : List Block} {members : List (String × Json)} {field : FieldId} {key : String}
      {group : GroupId} {is : List Instance} {js : List Json} {id : InstanceId}
      {values : List ItemField} {nested : List Block} {object : List (String × Json)}
      (hblock : .mk field key group is ∈ bs) (hkey : member? key members = some (.array js))
      (hi : (Instance.mk id values nested, Json.object object) ∈ is.zip js) :
      Placed bs members ⟨id, group, values⟩ object
  | inside {bs : List Block} {members : List (String × Json)} {field : FieldId} {key : String}
      {group : GroupId} {is : List Instance} {js : List Json} {id : InstanceId}
      {values : List ItemField} {nested : List Block} {outer object : List (String × Json)}
      {e : Entry} (hblock : .mk field key group is ∈ bs)
      (hkey : member? key members = some (.array js))
      (hi : (Instance.mk id values nested, Json.object outer) ∈ is.zip js)
      (hnested : Placed nested outer e object) : Placed bs members e object

/-- An object keeps its place when other blocks come in around its own. -/
theorem Placed.mono {bs bs' : List Block} {members object : List (String × Json)} {e : Entry}
    (h : Placed bs members e object) (hsub : bs ⊆ bs') : Placed bs' members e object := by
  cases h with
  | here hblock hkey hi => exact .here (hsub hblock) hkey hi
  | inside hblock hkey hi hnested => exact .inside (hsub hblock) hkey hi hnested

/-- The object of an instance is in its place, and holds its values. -/
def Drawn (p : Package) (bs : List Block) (members : List (String × Json)) (e : Entry) : Prop :=
  ∃ S object, p.groupSchema? e.group = some S ∧ Placed bs members e object ∧ Holds S e object

/-- Each block has its array among the members. -/
def Carries (p : Package) (bs : List Block) (members : List (String × Json)) : Prop :=
  ∀ field key group is, .mk field key group is ∈ bs → ∃ S, p.groupSchema? group = some S ∧
    member? key members = some (.array (renderInstances p S is))

section Drawing

variable {p : Package} {fields : List ItemField}

/-- The schema of a group is one of the package. -/
theorem mem_schemas_of_groupSchema? {g : GroupId} {S : Schema} (h : p.groupSchema? g = some S) :
    S ∈ p.schema :: p.groups.map Prod.snd := by
  obtain ⟨r, hr, rfl⟩ := Option.map_eq_some_iff.mp h
  exact List.mem_cons_of_mem _ (List.mem_map_of_mem (List.mem_of_find?_eq_some hr))

/-- The object of an instance, before those of the instances after it. -/
theorem zip_renderInstances (S : Schema) (id : InstanceId) (values : List ItemField)
    (nested : List Block) (is : List Instance) :
    (Instance.mk id values nested :: is).zip
        (renderInstances p S (Instance.mk id values nested :: is)) =
      (Instance.mk id values nested, Json.object (objectMembers id.text (renderFields S values)
        (renderBlocks p nested))) :: is.zip (renderInstances p S is) := by
  rw [renderInstances, renderInstance]
  rfl

/-- An object that is made with its blocks has an array for each of them. -/
theorem Assembles.carries {owner : Option InstanceId} {S : Schema} {shown shown' : List InstanceId}
    {bs : List Block} (h : Assembles p fields owner S.groupFields shown bs shown')
    (hkeys : (S.fields.map Field.key).Nodup) (id : String) (values : List (String × Json)) :
    Carries p bs (objectMembers id values (renderBlocks p bs)) := by
  intro field key group is hmem
  obtain ⟨T, hT, hrendered⟩ := h.mem_renderBlocks hmem
  have hnodup : ((renderBlocks p bs).map Prod.fst).Nodup :=
    hkeys.sublist (h.keys.trans (List.filter_sublist.map _))
  refine ⟨T, hT, ?_⟩
  rw [member?_objectMembers, Json.member?_of_mem hnodup hrendered, Option.some_or]

mutual

/-- **The object of every instance is in its place.** -/
theorem Assembles.drawn (hp : p.KeysApart) {owner : Option InstanceId} {hosts : List Field}
    {shown shown' : List InstanceId} {bs : List Block} {members : List (String × Json)} :
    Assembles p fields owner hosts shown bs shown' → Carries p bs members →
      ∀ e ∈ blockEntries bs, Drawn p bs members e
  | .done, _ => fun _ he => (List.not_mem_nil he).elim
  | .pass _ hrest, hcarries => hrest.drawn hp hcarries
  | .block _ _ hinner hshows hrest, hcarries => by
    intro e he
    rw [blockEntries, List.mem_append] at he
    rcases he with he | he
    · obtain ⟨S, hS, hkey⟩ := hcarries _ _ _ _ List.mem_cons_self
      obtain rfl := Option.some.inj (hinner.symm.trans hS)
      obtain ⟨id, values, nested, outer, hi, hcases⟩ := hshows.drawn hp hinner e he
      rcases hcases with ⟨rfl, hholds⟩ | ⟨T, object, hT, hplaced, hholds⟩
      · exact ⟨_, outer, hS, .here List.mem_cons_self hkey hi, hholds⟩
      · exact ⟨T, object, hT, .inside List.mem_cons_self hkey hi hplaced, hholds⟩
    · have hlater : Carries p _ members := fun field key group is hmem =>
        hcarries field key group is (List.mem_cons_of_mem _ hmem)
      obtain ⟨S, object, hS, hplaced, hholds⟩ := hrest.drawn hp hlater e he
      exact ⟨S, object, hS, hplaced.mono (List.subset_cons_self _ _), hholds⟩

/-- So is every instance in the block of one field, and every instance nested in it. -/
theorem Shows.drawn (hp : p.KeysApart) {inner : Schema} {g : GroupId}
    {is shown shown' : List InstanceId} {ns : List Instance} :
    Shows p fields inner is shown ns shown' → p.groupSchema? g = some inner →
      ∀ e ∈ instanceEntries g ns, ∃ id values nested outer,
        (Instance.mk id values nested, Json.object outer) ∈ ns.zip (renderInstances p inner ns) ∧
        (e = ⟨id, g, values⟩ ∧ Holds inner e outer ∨ Drawn p nested outer e)
  | .done, _ => fun _ he => (List.not_mem_nil he).elim
  | .again _ hrest, hinner => hrest.drawn hp hinner
  | .first _ hnested hrest, hinner => by
    have hkeys := hp inner (mem_schemas_of_groupSchema? hinner)
    intro e he
    rw [zip_renderInstances]
    rw [instanceEntries, Instance.entries, List.cons_append, List.mem_cons, List.mem_append] at he
    rcases he with rfl | he | he
    · refine ⟨_, _, _, _, List.mem_cons_self, .inl ⟨rfl, ?_⟩⟩
      refine holds_objectMembers hkeys rfl fun m hm => ?_
      exact List.mem_map.mp (hnested.keys.subset (List.mem_map_of_mem hm))
    · refine ⟨_, _, _, _, List.mem_cons_self, .inr ?_⟩
      exact hnested.drawn hp (hnested.carries hkeys _ _) e he
    · obtain ⟨id, values, nested, outer, hi, hcases⟩ := hrest.drawn hp hinner e he
      exact ⟨id, values, nested, outer, List.mem_cons_of_mem _ hi, hcases⟩

end

end Drawing

/-! ## Items -/

/-- The rendering of an item is an object like those of its instances. -/
theorem render_eq (p : Package) (it : Item) : render p it =
    objectMembers it.id.text (renderTop p it) (renderBlocks p (assemble p it.fields)) := rfl

/-- Values at top level stand under keys that the item schema declares, in its order. -/
theorem keys_renderTop (p : Package) (it : Item) :
    ((renderTop p it).map Prod.fst).Sublist (p.schema.fields.map Field.key) := by
  unfold renderTop
  induction p.schema.fields with
  | nil => exact .slnil
  | cons f fs ih =>
    rw [List.filterMap_cons, List.map_cons]
    cases it.field? f.id with
    | none => exact ih.cons _
    | some v =>
      dsimp only
      by_cases hf : f.group?.isNone = true
      · rw [if_pos hf]
        exact ih.cons_cons _
      · rw [if_neg hf]
        exact ih.cons _

/-- At top level every value stands under the key of its field. -/
theorem member?_render {p : Package} (hp : p.KeysApart) {it : Item} {f : Field} {v : ItemField}
    (hf : f ∈ p.schema.fields) (hgroup : f.group? = none) (hv : it.field? f.id = some v) :
    member? f.key (render p it) = some (v.value.render f.multiple) := by
  have hkeys := hp p.schema List.mem_cons_self
  obtain ⟨_, hassembles, -⟩ := assembles_assemble p it.fields
  have hblocks : member? f.key (renderBlocks p (assemble p it.fields)) = none := by
    refine Json.member?_eq_none fun m hm heq => ?_
    obtain ⟨F, hF, hkey⟩ := List.mem_map.mp (hassembles.keys.subset (List.mem_map_of_mem hm))
    obtain ⟨hmem, g, hg⟩ := Schema.mem_groupFields.mp hF
    obtain rfl := List.inj_on_of_nodup_map hkeys hmem hf (hkey.trans heq)
    rw [hgroup] at hg
    cases hg
  have hmem : (f.key, v.value.render f.multiple) ∈ renderTop p it := by
    refine List.mem_filterMap.mpr ⟨f, hf, ?_⟩
    rw [hv]
    exact if_pos (Option.isNone_iff_eq_none.mpr hgroup)
  rw [render_eq, member?_objectMembers, hblocks, Option.none_or,
    Json.member?_of_mem (hkeys.sublist (keys_renderTop p it)) hmem, Option.some_or]

/-- What the rendering of an item shows: its values under the keys that the item schema
declares, and an object for every instance that assembling shows. -/
structure Renders (p : Package) (it : Item) : Prop where
  top : ∀ f ∈ p.schema.fields, f.group? = none → ∀ v, it.field? f.id = some v →
    member? f.key (render p it) = some (v.value.render f.multiple)
  instances : ∀ e ∈ blockEntries (assemble p it.fields),
    Drawn p (assemble p it.fields) (render p it) e

/-- **Every instance has its object**, and the values in it stand under the keys that they
were written with: under the keys of now, if no field has been renamed since. -/
theorem renders_of_keysApart {p : Package} (hp : p.KeysApart) (it : Item) : Renders p it where
  top := fun _ hf hgroup _ hv => member?_render hp hf hgroup hv
  instances := by
    obtain ⟨_, hassembles, -⟩ := assembles_assemble p it.fields
    exact hassembles.drawn hp (hassembles.carries (hp p.schema List.mem_cons_self) _ _)

/-- The fields of pictures.  What is the caption now was the label once. -/
def captions : Schema where
  id := ⟨"captions"⟩
  project := ⟨"project"⟩
  workspace := ⟨"workspace"⟩
  fields := [.named ⟨"first"⟩ "caption" (.text none), .named ⟨"second"⟩ "label" (.text none)]
  title := none

/-- Albums have pictures. -/
def album : Package where
  model := ⟨⟨"albums"⟩, ⟨"project"⟩, "album", "album", "", ⟨"albums"⟩, none⟩
  schema := ⟨⟨"albums"⟩, ⟨"project"⟩, ⟨"workspace"⟩,
    [{ Field.named ⟨"pictures"⟩ "pictures" (.group ⟨"picture"⟩) with multiple := true }], none⟩
  metadataSchema := none
  groups := [(⟨⟨"picture"⟩, ⟨"project"⟩, "picture", "picture", "", ⟨"captions"⟩⟩, captions)]
  referenced := []

/-- An album of one picture, whose caption was written under the key given. -/
def summer (key : String) : Item where
  id := ⟨"summer"⟩
  project := ⟨"project"⟩
  model := ⟨"albums"⟩
  schema := ⟨"albums"⟩
  thread := ⟨"thread"⟩
  fields := [⟨⟨"pictures"⟩, "pictures", ⟨.group, [.group ⟨"beach"⟩]⟩, none⟩,
    ⟨⟨"first"⟩, key, ⟨.text, [.text "At the beach"]⟩, some ⟨"beach"⟩⟩,
    ⟨⟨"second"⟩, "label", ⟨.text, [.text "No. 1"]⟩, some ⟨"beach"⟩⟩]
  metadataItem := none
  metadataOf := none
  createdBy := .user ⟨"someone"⟩
  updatedBy := none
  createdAt := ⟨0, 0⟩

/-- The picture in the album. -/
def beach (key : String) : Entry :=
  ⟨⟨"beach"⟩, ⟨"picture"⟩, [⟨⟨"first"⟩, key, ⟨.text, [.text "At the beach"]⟩, some ⟨"beach"⟩⟩,
    ⟨⟨"second"⟩, "label", ⟨.text, [.text "No. 1"]⟩, some ⟨"beach"⟩⟩]⟩

/-- A caption that was written as a caption is shown as one. -/
theorem renders_caption : album.KeysApart ∧ (beach "caption").Current captions ∧ ∃ o,
    Placed (assemble album (summer "caption").fields) (render album (summer "caption"))
      (beach "caption") o ∧ member? "caption" o = some (.string "At the beach") := by
  have hkeys : album.KeysApart := by decide
  have hcurrent : (beach "caption").Current captions := by decide
  obtain ⟨S, o, hS, hplaced, hholds⟩ := (renders_of_keysApart hkeys (summer "caption")).instances
    (beach "caption") (by decide +kernel)
  obtain rfl : captions = S := Option.some.inj hS
  obtain ⟨f, hf, hshown⟩ := hholds.current hcurrent _ List.mem_cons_self
  obtain rfl : Field.named ⟨"first"⟩ "caption" (.text none) = f := Option.some.inj hf
  exact ⟨hkeys, hcurrent, o, hplaced, hshown rfl⟩

/-- **A caption that was written as a label is missing**, since there is another label. -/
theorem caption_missing : album.KeysApart ∧ ((summer "label").fields.map ItemField.slot).Nodup ∧
    (captions.field? ⟨"first"⟩).map Field.key = some "caption" ∧
    blockEntries (assemble album (summer "label").fields) = [beach "label"] ∧
    render album (summer "label") = [("id", .string "summer"), ("pictures",
      .array [.object [("id", .string "beach"), ("label", .string "No. 1")]])] :=
  ⟨by decide, by decide, by decide, by decide +kernel, rfl⟩

end Embedding

end ContentStore
