import ContentStore.Proofs.Catalog.Nesting
import ContentStore.Proofs.Items.Completion

/-!
# What a new item has to carry

Completing goes through the values as they were given, where the first one of a
slot counts, and comes to each instance once, with the schema of one group.  The
new item keeps the last value of each slot.  So its required values are there at
top level, and in every instance that the first value of its slot lists, too, and
that fields of one group only list (`Store.required_of_reachable`).  An instance
that only a later value of the slot lists is not looked at
(`Store.required_missing`).
-/

namespace ContentStore

open Tables ContentStore.Embedding

namespace Tables

/-- The field embeds the group whose schema this is. -/
def Embeds (t : Tables) (F : Field) (G : Schema) : Prop :=
  G ∈ t.schemas ∧ ∃ g ∈ t.groups, F.group? = some g.id ∧ g.schema = G.id

instance (t : Tables) (F : Field) (G : Schema) : Decidable (t.Embeds F G) :=
  inferInstanceAs (Decidable (G ∈ t.schemas ∧
    ∃ g ∈ t.groups, F.group? = some g.id ∧ g.schema = G.id))

/-- The schemas that the values of an item follow: the item schema at top level,
and in an instance the schema of the group whose field lists it, at top level or
in another instance. -/
inductive Follows (t : Tables) (top : Schema) (lists : Slot → InstanceId → Prop) :
    Schema → Option InstanceId → Prop
  | top : Follows t top lists top none
  | inner {S G : Schema} {owner : Option InstanceId} {F : Field} {i : InstanceId}
      (h : Follows t top lists S owner) (hF : F ∈ S.fields) (hG : t.Embeds F G)
      (hi : lists ⟨F.id, owner⟩ i) : Follows t top lists G (some i)

end Tables

/-- Every required field of the schema has a value that is not empty. -/
def Satisfied (S : Schema) (owner : Option InstanceId) (values : List ItemField) : Prop :=
  ∀ F ∈ S.fields, F.required = true →
    ∃ e ∈ valueAt? values ⟨F.id, owner⟩, e.value.isEmpty = false

instance (S : Schema) (owner : Option InstanceId) (values : List ItemField) :
    Decidable (Satisfied S owner values) :=
  inferInstanceAs (Decidable (∀ F ∈ S.fields, F.required = true →
    ∃ e ∈ valueAt? values ⟨F.id, owner⟩, e.value.isEmpty = false))

/-- The first value of the slot lists the instance, and wherever else a first
value does so it is in a field of the same group. -/
structure ListsPlainly (p : Package) (values : List ItemField) (s : Slot) (i : InstanceId) :
    Prop where
  first : Lists values s i
  alone : ∀ s', Lists values s' i →
    (p.field? s'.field).bind Field.group? = (p.field? s.field).bind Field.group?

theorem listsPlainly_iff {p : Package} {values : List ItemField} {s : Slot} {i : InstanceId} :
    ListsPlainly p values s i ↔ Lists values s i ∧ ∀ e ∈ values, Lists values e.slot i →
      (p.field? e.field).bind Field.group? = (p.field? s.field).bind Field.group? := by
  refine ⟨fun h => ⟨h.first, fun e _ => h.alone e.slot⟩, fun h => ⟨h.1, fun s' hs' => ?_⟩⟩
  obtain ⟨e, he, hi⟩ := hs'
  obtain rfl := slot_of_valueAt? he
  exact h.2 e (mem_of_valueAt? he) ⟨e, he, hi⟩

instance (p : Package) (values : List ItemField) (s : Slot) (i : InstanceId) :
    Decidable (ListsPlainly p values s i) := decidable_of_iff' _ listsPlainly_iff

/-- A required field has a value by itself, or none is filled in without an
error. -/
theorem Embedding.Complete.isSome {S : Schema} {owner : Option InstanceId}
    {values : List ItemField} (h : Complete S owner values) {F : Field} (hF : F ∈ S.fields)
    (hrequired : F.required = true) : (valueAt? values ⟨F.id, owner⟩).isSome := by
  refine (h F hF).resolve_right fun hex => ?_
  obtain ⟨vs, hvs, hempty⟩ := hex
  have hne := (Field.check_eq_ok (Field.check_of_prepare hvs)).2.2 hrequired
  rw [Values.isEmpty, hempty] at hne
  cases hne

theorem Embedding.Visitable.mem {p : Package} {S : Schema} {owner : Option InstanceId}
    (h : Visitable p (S, owner)) : S ∈ p.itemSchemas := by
  rcases List.mem_cons.mp h.mem_schemas with rfl | hgroup
  · exact List.mem_cons_self
  · exact List.mem_cons_of_mem _ (List.mem_append_right _ hgroup)

/-- The last value of a slot is kept while its instance is live. -/
theorem exists_valueAt?_mergeValues {values : List ItemField} {s : Slot}
    (hlive : s.owner.all (liveInstances (values.foldl putValue [])).contains = true)
    (hsome : (valueAt? values s).isSome) :
    ∃ e ∈ values, e.slot = s ∧ valueAt? (mergeValues [] values) s = some e := by
  obtain ⟨e₀, he₀⟩ := Option.isSome_iff_exists.mp hsome
  have hlast : (valueAt? values.reverse s).isSome := by
    rw [Option.isSome_iff_ne_none, Ne, valueAt?_eq_none]
    exact fun h => h e₀ (List.mem_reverse.mpr (mem_of_valueAt? he₀)) (slot_of_valueAt? he₀)
  obtain ⟨e, he⟩ := Option.isSome_iff_exists.mp hlast
  refine ⟨e, List.mem_reverse.mp (mem_of_valueAt? he), slot_of_valueAt? he, ?_⟩
  rw [mergeValues, valueAt?_dropDead_of_live hlive, valueAt?_foldl_putValue, he]
  rfl

section Values

variable {n : Nat} {t : Tables} {p : Package} {values : List ItemField}
  {visited : List Visit} {seen : List InstanceId} {S : Schema} {owner : Option InstanceId}

variable (hw : Wired n t) (hp : Packed t p) (hstands : ∀ e ∈ values, Stands p Fits e)

include hw hp hstands in
/-- A visited owner has its required values, as long as its values are kept. -/
theorem satisfied_of_visited (hvisits : Visits p visited [] seen values)
    (hvisited : (S, owner) ∈ visited)
    (hlive : owner.all (liveInstances (values.foldl putValue [])).contains = true) :
    Satisfied S owner (mergeValues [] values) := by
  intro F hF hrequired
  have hS : S ∈ t.schemas :=
    hp.itemSchemas S (hvisits.visitable _ (List.mem_append_left _ hvisited)).mem
  have hsome := Complete.isSome (hvisits.complete _ hvisited) hF hrequired
  obtain ⟨e, he, hslot, hkept⟩ := exists_valueAt?_mergeValues hlive hsome
  obtain ⟨-, raw, hprepare⟩ :=
    Write.prepared_of_stands hw hp (hstands e he) hS hF (congrArg Slot.field hslot)
  exact ⟨e, hkept, (Field.check_eq_ok (Field.check_of_prepare hprepare)).2.2 hrequired⟩

include hw hp hstands in
/-- An instance is live if it is listed in a group field of the item as stored. -/
theorem mem_live_of_lists {F : Field} {g : GroupId} {i : InstanceId} (hS : S ∈ p.itemSchemas)
    (hF : F ∈ S.fields) (hg : F.group? = some g)
    (hi : Lists (mergeValues [] values) ⟨F.id, owner⟩ i) :
    i ∈ liveInstances (values.foldl putValue []) := by
  obtain ⟨e, he, hie⟩ := hi
  have hstored := List.mem_filter.mp (mem_of_valueAt? he)
  have hmem : e ∈ values := (mem_mergeValues (mem_of_valueAt? he)).resolve_right List.not_mem_nil
  obtain ⟨-, raw, hprepare⟩ := Write.prepared_of_stands hw hp (hstands e hmem)
    (hp.itemSchemas S hS) hF (congrArg Slot.field (slot_of_valueAt? he))
  have hkind := (Field.check_eq_ok (Field.check_of_prepare hprepare)).1
  have hlisted : i ∈ e.listed := by
    rw [ItemField.listed, if_pos (hkind.trans (Field.kind_of_group? hg))]
    exact hie
  exact mem_liveInstances hstored.1 hstored.2 hlisted

variable (hn : Nested n t)

include hw hp hn in
/-- The group of a field is the same for the package and in the tables. -/
theorem groupSchema_of_embeds {F : Field} {G inner : Schema} (hG : t.Embeds F G)
    (hinner : groupSchema p F = .ok inner) : inner = G := by
  obtain ⟨hmem, g, hg, hgroup, hschema⟩ := hG
  obtain ⟨e, he, hgroup', rfl⟩ := groupSchema_eq_ok hinner
  obtain ⟨hstored, hinner, hid⟩ := hp.groups e he
  have hsame := hn.group_eq hstored hg (Option.some.inj (hgroup'.symm.trans hgroup))
  exact hw.schema_eq hinner hmem (by rw [hid, hsame, hschema])

include hw hp hn in
/-- An instance that a visited owner lists plainly has been visited, too. -/
theorem visited_of_plain {F : Field} {G : Schema} {i : InstanceId}
    (hvisits : Visits p visited [] seen values) (hvisited : (S, owner) ∈ visited)
    (hF : F ∈ S.fields) (hG : t.Embeds F G) (hplain : ListsPlainly p values ⟨F.id, owner⟩ i) :
    (G, some i) ∈ visited := by
  have hfield : ∀ {v : Visit} {F' : Field}, v ∈ visited → F' ∈ v.1.fields →
      p.field? F'.id = some F' := fun hv hF' =>
    hp.field?_eq hw (hvisits.visitable _ (List.mem_append_left _ hv)).mem hF'
  obtain ⟨g, -, hFg, -⟩ := hG.2
  have hFS := Schema.mem_groupFields.mpr ⟨hF, _, hFg⟩
  obtain ⟨T, hT, hmem⟩ := visited_of_listed hvisits hvisited hFS hplain.first
    fun v hv F' hF' hlists => by
      have hsame := hplain.alone _ hlists
      rwa [hfield hv (List.mem_filter.mp hF').1, hfield hvisited hF, Option.bind_some,
        Option.bind_some] at hsame
  exact groupSchema_of_embeds hw hp hn hG hT ▸ hmem

include hw hp hn hstands in
/-- **Instances that are listed plainly have been visited**, with the schema that
their values follow, and are live. -/
theorem visited_of_follows (hvisits : Visits p visited [] seen values)
    (h : t.Follows p.schema (fun s i => Lists (mergeValues [] values) s i ∧
      ListsPlainly p values s i) S owner) :
    (S, owner) ∈ visited ∧
      owner.all (liveInstances (values.foldl putValue [])).contains = true := by
  induction h with
  | top =>
    have hroot := hvisits.root
    rw [List.append_nil] at hroot
    exact ⟨hroot, rfl⟩
  | inner _ hF hG hi ih =>
    obtain ⟨hvisited, -⟩ := ih
    obtain ⟨hkept, hplain⟩ := hi
    obtain ⟨g, -, hFg, -⟩ := hG.2
    have hS := (hvisits.visitable _ (List.mem_append_left _ hvisited)).mem
    exact ⟨visited_of_plain hw hp hn hvisits hvisited hF hG hplain,
      List.contains_iff_mem.mpr (mem_live_of_lists hw hp hstands hS hF hFg hkept)⟩

end Values

namespace Store

variable {s : Store} {ctx : Context} {param : CreateItem}

/-- The operations that create items, each with the package that it writes
with. -/
inductive Creating (s : Store) (ctx : Context) (param : CreateItem) :
    Operation Version → Package → Prop
  | item {p : Package} (hp : s.tables.package param.model = .ok p) :
      Creating s ctx param (createItem ctx param) p
  | metadata {p q : Package} (hq : s.tables.package param.model = .ok q)
      (hp : metadataPackage q = .ok p) : Creating s ctx param (createMetadataItem ctx param) p

theorem Creating.reaches {op : Operation Version} {p : Package} (h : Creating s ctx param op p) :
    Reaches op s (Creates ctx (.ok p) param s) := by
  cases h with
  | item hp =>
    rw [← hp]
    exact reaches_createItem param
  | metadata hq hp =>
    have hpackage : (s.tables.package param.model >>= metadataPackage) = .ok p :=
      bind_eq_ok.mpr ⟨_, hq, hp⟩
    rw [← hpackage]
    exact reaches_createMetadataItem param

/-- **A created item has its required values** at top level, and in every instance
that is listed plainly, at any depth. -/
theorem required_of_reachable (hs : s.Reachable) {op : Operation Version} {p : Package}
    {v : Version} (hop : Creating s ctx param op p) (hv : (op s).1 = .ok v) :
    v.item.schema = p.schema.id ∧ ∃ raw values,
      valuesOfRaw p param.fields [] = .ok raw ∧ completed p raw = .ok values ∧
        ∀ S owner, s.tables.Follows p.schema (fun slot i => Lists v.item.fields slot i ∧
          ListsPlainly p values slot i) S owner → Satisfied S owner v.item.fields := by
  have hsane := hs.sane
  obtain ⟨p', values, hpp', -, hwrites, hit, -⟩ := (hop.reaches.of_ok hv).written hsane
  obtain rfl := Except.ok.inj hpp'
  have hp := packed_of_writes hwrites
  have hstands := (Write.stands_of_created hit).1
  obtain ⟨raw, hraw, hcompleted⟩ := hit.read
  obtain ⟨visited, seen, hvisits⟩ := visits_of_completed hcompleted
  refine ⟨hit.schema, raw, values, hraw, hcompleted, fun S owner h => ?_⟩
  rw [hit.fields] at h ⊢
  obtain ⟨hvisited, hlive⟩ := visited_of_follows hsane.wired hp hstands
    (lasting_nested.reachable hs) hvisits h
  exact satisfied_of_visited hsane.wired hp hstands hvisits hvisited hlive

section Posts

/-- Posts with links, each of which has to have a label. -/
def posts : List Call := [
  .createGroup (.ofKey ⟨"project"⟩ ⟨"blog"⟩ "link"),
  .createField { NewField.ofKey (.ofSerial 0) "label" (.text none) with required := true },
  .createModel (.ofKey ⟨"project"⟩ ⟨"blog"⟩ "post"),
  .createField
    { NewField.ofKey (.ofSerial 4) "links" (.group (.ofSerial 1)) with multiple := true }]

/-- The blog without posts. -/
def blog : Store :=
  Call.afterAll (.maintainer ⟨"blog"⟩) posts (blank .standard ⟨⟨0, 0⟩, 1⟩ ⟨0⟩ .silent)

theorem reachable_blog : blog.Reachable :=
  (reachable_blank _ _ _ _).evolves (evolves_afterAll _ _ _)

/-- A post with a link that has a label. -/
def linked : CreateItem := ⟨.ofSerial 5, [.byKey "links" (.array [.string "first"]),
  .inGroup (.byKey "label" (.string "here")) ⟨"first"⟩], none⟩

/-- The same with another list of links behind it. -/
def relinked : CreateItem :=
  { linked with fields := linked.fields ++ [.byKey "links" (.array [.string "second"])] }

/-- The link of the post has its label. -/
theorem required_of_linked : ∃ (p : Package) (v : Version),
    (createItem (.maintainer ⟨"blog"⟩) linked blog).1 = .ok v ∧
    ∃ F ∈ p.schema.fields, ∃ G, blog.tables.Embeds F G ∧
      Lists v.item.fields ⟨F.id, none⟩ ⟨"first"⟩ ∧
      Satisfied p.schema none v.item.fields ∧ Satisfied G (some ⟨"first"⟩) v.item.fields := by
  have hlinks : ∃ v ∈ (createItem (.maintainer ⟨"blog"⟩) linked blog).1.toOption,
      ∃ p ∈ (blog.tables.package linked.model).toOption,
      ∃ values ∈ (valuesOfRaw p linked.fields [] >>= completed p).toOption,
      ∃ F ∈ p.schema.fields, ∃ G ∈ blog.tables.schemas, blog.tables.Embeds F G ∧
        Lists v.item.fields ⟨F.id, none⟩ ⟨"first"⟩ ∧
        ListsPlainly p values ⟨F.id, none⟩ ⟨"first"⟩ := by
    decide +kernel
  obtain ⟨v, hv, p, hp, values, hvalues, F, hF, G, -, hG, hkept, hplain⟩ := hlinks
  have hv := ok_of_mem_toOption hv
  obtain ⟨-, raw', values', hraw', hvalues', hall⟩ :=
    required_of_reachable reachable_blog (.item (ok_of_mem_toOption hp)) hv
  have hread := ok_of_mem_toOption hvalues
  rw [bind_eq_ok.mpr ⟨raw', hraw', hvalues'⟩] at hread
  obtain rfl := Except.ok.inj hread
  exact ⟨p, v, hv, F, hF, G, hG, hkept, hall _ _ .top,
    hall _ _ (.inner .top hF hG ⟨hkept, hplain⟩)⟩

/-- **A required value may be missing.**  The new post lists the second link, which
has no label. -/
theorem required_missing : ∃ s ctx param op p v G i, s.Reachable ∧ Creating s ctx param op p ∧
    (op s).1 = .ok v ∧ s.tables.Follows p.schema (Lists v.item.fields) G (some i) ∧
    ¬ Satisfied G (some i) v.item.fields := by
  have hlinks : ∃ v ∈ (createItem (.maintainer ⟨"blog"⟩) relinked blog).1.toOption,
      ∃ p ∈ (blog.tables.package relinked.model).toOption, ∃ F ∈ p.schema.fields,
      ∃ G ∈ blog.tables.schemas, blog.tables.Embeds F G ∧
        Lists v.item.fields ⟨F.id, none⟩ ⟨"second"⟩ ∧
        ¬ Satisfied G (some ⟨"second"⟩) v.item.fields := by
    decide +kernel
  obtain ⟨v, hv, p, hp, F, hF, G, -, hG, hlists, hmissing⟩ := hlinks
  exact ⟨blog, _, relinked, _, p, v, G, _, reachable_blog, .item (ok_of_mem_toOption hp),
    ok_of_mem_toOption hv, .inner .top hF hG hlists, hmissing⟩

end Posts

end Store

end ContentStore
