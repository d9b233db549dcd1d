import ContentStore.Proofs.Catalog.Packages
import ContentStore.Proofs.Embedding.Rounds
import ContentStore.Proofs.Writes.Latest

/-!
# What stored items hold

An item suits the catalog (`Tables.Suits`): it belongs to a schema of its model,
its values stand where their fields are declared, the defaults at its top level
are filled in, and what it holds in paired fields are references.  Writing an
item keeps this (`suits_of_created`, `suits_of_updated`), and so does following
the write of another (`Suits.trails`).

What an update finds at top level is then a value of its input or what was there
(`field?_of_updated`): no default is missing, so none is filled in there.
-/

namespace ContentStore

open Tables

namespace Tables

/-- The field is one end of a two-way reference of the items of a model. -/
def Pairs (t : Tables) (m : ModelId) (f : FieldId) : Prop :=
  ∃ s e, t.Hosts m s ∧ t.Declares s f (some e)

/-- The item holds what the catalog allows it to hold. -/
structure Suits (t : Tables) (it : Item) : Prop where
  placed : ∃ M ∈ t.models, M.id = it.model ∧ it.schema ∈ M.schemas
  top : ∀ e ∈ it.fields, e.group = none →
    (∃ k, t.Declares it.schema e.field k) ∨ t.Pairs it.model e.field
  inner : ∀ e ∈ it.fields, e.group.isSome → ∃ G ∈ t.groups, ∃ k, t.Declares G.schema e.field k
  filled : ∀ S ∈ t.schemas, S.id = it.schema → Embedding.Complete S none it.fields
  references : ∀ e ∈ it.fields, ∀ s far, t.Declares s e.field (some far) →
    ∀ v ∈ e.value.elements, ∃ y, v = .reference y

/-- The catalogs of two stores are the same. -/
structure SameCatalog (t u : Tables) : Prop where
  schemas : u.schemas = t.schemas
  models : u.models = t.models
  groups : u.groups = t.groups

namespace SameCatalog

variable {t u : Tables}

/-- The same catalog declares the same fields. -/
theorem declares (h : SameCatalog t u) {s : SchemaId} {f : FieldId} {e : Option FarEnd} :
    u.Declares s f e ↔ t.Declares s f e := by
  rw [Declares, Declares, h.schemas]

/-- The same catalog pairs the same fields. -/
theorem pairs (h : SameCatalog t u) {m : ModelId} {f : FieldId} : u.Pairs m f ↔ t.Pairs m f := by
  simp only [Pairs, Hosts, h.models, h.declares]

/-- What suits a catalog suits the same one. -/
theorem suits (h : SameCatalog t u) {it : Item} (hit : t.Suits it) : u.Suits it where
  placed := by
    rw [h.models]
    exact hit.placed
  top := fun e he htop => by
    simp only [h.declares, h.pairs]
    exact hit.top e he htop
  inner := fun e he hinner => by
    simp only [h.declares, h.groups]
    exact hit.inner e he hinner
  filled := by
    rw [h.schemas]
    exact hit.filled
  references := fun e he s far hd => hit.references e he s far (h.declares.mp hd)

end SameCatalog

/-- Following the write of another item. -/
theorem Suits.trails {t : Tables} {old new : Item} (hold : t.Suits old)
    (h : old.Trails (t.Pairs old.model) new) : t.Suits new where
  placed := by
    rw [h.model, h.schema]
    exact hold.placed
  top := fun e he htop => by
    rw [h.model, h.schema]
    rcases h.kept e he with he | ⟨-, hpaired, -⟩ | ⟨he', hslot, -⟩
    · exact hold.top e he htop
    · exact .inr hpaired
    · have hfield : e.field = _ := congrArg Slot.field hslot
      rw [hfield]
      exact hold.top _ he' ((congrArg Slot.owner hslot).symm.trans htop)
  inner := fun e he hinner => by
    rcases h.kept e he with he | ⟨htop, -, -⟩ | ⟨he', hslot, -⟩
    · exact hold.inner e he hinner
    · rw [htop] at hinner
      cases hinner
    · have hfield : e.field = _ := congrArg Slot.field hslot
      have hgroup : e.group = _ := congrArg Slot.owner hslot
      rw [hgroup] at hinner
      rw [hfield]
      exact hold.inner _ he' hinner
  filled := fun S hS hid F hF => by
    rcases hold.filled S hS (hid.trans h.schema) F hF with hsome | hnone
    · exact .inl (h.filled F.id hsome)
    · exact .inr hnone
  references := fun e he s far hd v hv => by
    rcases h.kept e he with he | ⟨-, -, hvalue⟩ | ⟨-, -, hvalue⟩
    · exact hold.references e he s far hd v hv
    · exact hvalue v hv
    · rw [hvalue] at hv
      exact (List.not_mem_nil hv).elim

end Tables

namespace Write

open ContentStore.Embedding Pairing

variable {n : Nat} {t : Tables} {p : Package} {it old : Item} {values : List ItemField}

/-! ## Values of a package -/

/-- A value that fits a stored schema stands for a declared field, with elements of its
kind. -/
theorem Fits.declares {S : Schema} {e : ItemField} (hS : S ∈ t.schemas) (h : Fits S e) :
    ∃ F ∈ S.fields, F.id = e.field ∧ t.Declares S.id e.field F.farEnd? ∧
      ∀ v ∈ e.value.elements, v.kind = F.kind := by
  obtain ⟨raw, F, hF, hid, hprepare⟩ := h
  exact ⟨F, hF, hid, hid ▸ Wired.declares_of_mem hS hF, Field.kind_of_prepare hprepare⟩

/-- A value of a package was prepared for the field that it is a value of. -/
theorem prepared_of_stands (hw : Wired n t) (hp : Packed t p) {e : ItemField}
    (h : Stands p Fits e) {S : Schema} (hS : S ∈ t.schemas) {F : Field} (hF : F ∈ S.fields)
    (hid : e.field = F.id) : S ∈ p.itemSchemas ∧ ∃ raw, F.prepare raw = .ok e.value := by
  have hfits : ∀ T ∈ p.itemSchemas, Fits T e →
      S ∈ p.itemSchemas ∧ ∃ raw, F.prepare raw = .ok e.value := by
    intro T hT hex
    obtain ⟨raw, G, hG, hGe, hprepare⟩ := hex
    obtain ⟨rfl, rfl⟩ :=
      hw.wellPaired.field_eq (hp.itemSchemas T hT) hS hG hF (hGe.trans hid)
    exact ⟨hT, raw, hprepare⟩
  cases hgroup : e.group with
  | none => exact hfits p.schema List.mem_cons_self (h.top hgroup)
  | some i =>
    obtain ⟨g, hg, hfitsg⟩ := h.inner (by rw [hgroup]; rfl)
    refine hfits g.2 (List.mem_cons_of_mem _ (List.mem_append_right _ ?_)) hfitsg
    exact List.mem_map_of_mem hg

/-- A value of a package suits the catalog at the place where it stands. -/
theorem suits_value (hw : Wired n t) (hp : Packed t p) {e : ItemField} (h : Stands p Fits e) :
    (e.group = none → ∃ k, t.Declares p.schema.id e.field k) ∧
      (e.group.isSome → ∃ G ∈ t.groups, ∃ k, t.Declares G.schema e.field k) ∧
      ∀ s far, t.Declares s e.field (some far) → ∀ v ∈ e.value.elements, ∃ y, v = .reference y := by
  have hreference : ∀ {S : Schema}, S ∈ t.schemas → Fits S e → ∀ s far,
      t.Declares s e.field (some far) → ∀ v ∈ e.value.elements, ∃ y, v = .reference y := by
    intro S hS hfits s far hd v hv
    obtain ⟨F, hF, -, hdF, hkind⟩ := Fits.declares hS hfits
    -- the field is a reference, so its elements are
    have hfar := (hw.tie_eq hdF hd).2
    have hkindF := Field.kind_of_corresponding? (Field.farEnd?_eq_some.mp hfar).1
    have hkindv := (hkind v hv).trans hkindF
    cases v <;> first | exact ⟨_, rfl⟩ | cases hkindv
  refine ⟨fun htop => ?_, fun hinner => ?_, ?_⟩
  · obtain ⟨F, -, -, hd, -⟩ := Fits.declares hp.schema (h.top htop)
    exact ⟨_, hd⟩
  · obtain ⟨g, hg, hfits⟩ := h.inner hinner
    obtain ⟨hG, hS, hid⟩ := hp.groups g hg
    obtain ⟨F, -, -, hd, -⟩ := Fits.declares hS hfits
    exact ⟨g.1, hG, _, hid ▸ hd⟩
  · cases hgroup : e.group with
    | none => exact hreference hp.schema (h.top hgroup)
    | some i =>
      obtain ⟨g, hg, hfits⟩ := h.inner (by rw [hgroup]; rfl)
      exact hreference (hp.groups g hg).2.1 hfits

/-! ## Created items -/

/-- The values of a created item fit the schemas that govern them, and the top level is
complete. -/
theorem stands_of_created {param : CreateItem} (h : Created p param n t it values) :
    (∀ v ∈ values, Stands p Fits v) ∧ Complete p.schema none values := by
  obtain ⟨raw, hraw, hcompleted⟩ := h.read
  obtain ⟨⟨more, rfl, hmore⟩, hall⟩ := completed_eq_ok hcompleted
  refine ⟨fun v hv => ?_, hall⟩
  rcases List.mem_append.mp hv with hv | hv
  · exact stands_of_valuesOfRaw hraw v hv
  · exact (hmore v hv).stands.mono fun s hs => ⟨_, hs⟩

/-- A created item holds no other values. -/
theorem mem_of_created {param : CreateItem} (h : Created p param n t it values) {e : ItemField}
    (he : e ∈ it.fields) : e ∈ values := by
  rw [h.fields] at he
  rcases mem_mergeValues he with he | he
  · exact he
  · exact (List.not_mem_nil he).elim

/-- **A new item suits the catalog.** -/
theorem suits_of_created (hw : Wired n t) (hp : Packed t p) {param : CreateItem}
    (h : Created p param n t it values) : t.Suits it := by
  obtain ⟨hstands, hall⟩ := stands_of_created h
  have hvalue : ∀ e ∈ it.fields, _ :=
    fun e he => suits_value hw hp (hstands e (mem_of_created h he))
  constructor
  case placed => exact ⟨p.model, hp.model, h.model.symm, h.schema ▸ hp.own⟩
  case top =>
    intro e he htop
    rw [h.schema]
    exact .inl ((hvalue e he).1 htop)
  case inner => exact fun e he => (hvalue e he).2.1
  case filled =>
    intro S hS hid F hF
    obtain rfl := hw.schema_eq hS hp.schema (hid.trans h.schema)
    rcases hall F hF with hsome | hnone
    · refine .inl ?_
      rw [h.fields, valueAt?_mergeValues, Option.isSome_or]
      obtain ⟨e, he⟩ := Option.isSome_iff_exists.mp hsome
      have hrev : (valueAt? values.reverse ⟨F.id, none⟩).isSome := by
        rw [valueAt?, List.find?_isSome]
        exact ⟨e, List.mem_reverse.mpr (mem_of_valueAt? he), by simpa using slot_of_valueAt? he⟩
      rw [hrev, Bool.true_or]
    · exact .inr hnone
  case references => exact fun e he => (hvalue e he).2.2

/-! ## Updated items -/

section Updated

variable {param : UpdateItem}

/-- Where the values of an updated item come from: the input, the item as it was,
or the defaults. -/
theorem mem_of_updated (h : Updated p param t old it values) {e : ItemField}
    (he : e ∈ it.fields) :
    e ∈ values ∨ e ∈ old.fields ∨ Filled p (mergeValues old.fields values) e := by
  obtain ⟨⟨more, hfields, hmore⟩, -⟩ := completed_eq_ok h.fields
  rw [hfields] at he
  rcases List.mem_append.mp he with he | he
  · rcases mem_mergeValues he with he | he
    · exact .inl he
    · exact .inr (.inl he)
  · exact .inr (.inr (hmore e he))

/-- An update moves an item to no other model. -/
theorem model_of_updated (h : Updated p param t old it values) : it.model = old.model :=
  congrArg Origin.model h.origin

/-- Nor to another schema. -/
theorem schema_of_updated (h : Updated p param t old it values) : it.schema = old.schema :=
  congrArg Origin.schema h.origin

/-- **An updated item suits the catalog.** -/
theorem suits_of_updated (hw : Wired n t) (hp : Packed t p) (hschema : p.schema.id = old.schema)
    (hold : t.Suits old) (h : Updated p param t old it values) : t.Suits it := by
  have hnew : ∀ e, Stands p Fits e → _ := fun e he => suits_value hw hp he
  have hmem : ∀ e ∈ it.fields, Stands p Fits e ∨ e ∈ old.fields := by
    intro e he
    rcases mem_of_updated h he with he | he | he
    · exact .inl (stands_of_valuesOfRaw h.read e he)
    · exact .inr he
    · exact .inl (he.stands.mono fun s hs => ⟨_, hs⟩)
  constructor
  case placed =>
    rw [model_of_updated h, schema_of_updated h]
    exact hold.placed
  case top =>
    intro e he htop
    rw [model_of_updated h, schema_of_updated h]
    rcases hmem e he with hstands | he
    · exact .inl (hschema ▸ (hnew e hstands).1 htop)
    · exact hold.top e he htop
  case inner =>
    intro e he hinner
    rcases hmem e he with hstands | he
    · exact (hnew e hstands).2.1 hinner
    · exact hold.inner e he hinner
  case filled =>
    intro S hS hid
    obtain rfl := hw.schema_eq hS hp.schema (hid.trans ((schema_of_updated h).trans hschema.symm))
    exact (completed_eq_ok h.fields).2
  case references =>
    intro e he
    rcases hmem e he with hstands | he
    · exact (hnew e hstands).2.2
    · exact hold.references e he

/-- No default is filled in at top level. -/
theorem isSome_of_filled (hp : Packed t p) (hschema : p.schema.id = old.schema)
    (hold : t.Suits old) {e : ItemField} (he : Filled p (mergeValues old.fields values) e) :
    e.group.isSome := by
  cases hgroup : e.group with
  | some i => rfl
  | none =>
    obtain ⟨F, hF, hid, hprepare⟩ := he.stands.top hgroup
    have hslot : e.slot = ⟨F.id, none⟩ := by rw [hid, ← hgroup]; rfl
    have habsent := he.absent
    rw [hslot, valueAt?_mergeValues, Option.or_eq_none_iff] at habsent
    rcases hold.filled p.schema hp.schema hschema F hF with hsome | ⟨vs, hvs, hempty⟩
    · rw [habsent.2] at hsome
      cases hsome
    · rw [hprepare] at hvs
      cases hvs
      exact (he.nonempty hempty).elim

/-- **What an update leaves at top level** is a value of its input, or what was
there. -/
theorem field?_of_updated (hp : Packed t p) (hschema : p.schema.id = old.schema)
    (hold : t.Suits old) (h : Updated p param t old it values) (f : FieldId) :
    it.field? f = (valueAt? values.reverse ⟨f, none⟩).or (old.field? f) := by
  obtain ⟨⟨more, hfields, hmore⟩, -⟩ := completed_eq_ok h.fields
  have hnone : valueAt? more ⟨f, none⟩ = none := by
    rw [valueAt?_eq_none]
    intro e he hslot
    have hsome := isSome_of_filled hp hschema hold (hmore e he)
    rw [show e.group = none from congrArg Slot.owner hslot] at hsome
    cases hsome
  rw [Item.field?, hfields, valueAt?_append, hnone, Option.or_none, valueAt?_mergeValues]
  rfl

end Updated

/-! ## Both at once -/

/-- A snapshot of a new or a stored item that is about to be appended: where its
values come from, and that it suits the catalog. -/
structure Snapshot (n : Nat) (t : Tables) (p : Package) (old : Option Item) (it : Item)
    (values : List ItemField) : Prop where
  packed : Packed t p
  model : p.model.id = it.model
  schema : p.schema.id = it.schema
  stored : latestItem t it.id = old
  fresh : old = none → ∃ k, n ≤ k ∧ it.id = .ofSerial k
  origin : ∀ o, old = some o → it.origin = o.origin
  stands : ∀ v ∈ values, Stands p Fits v
  checked : Checked t p it old values
  mem : ∀ e ∈ it.fields, e ∈ values ∨ (∃ o, old = some o ∧ e ∈ o.fields) ∨
    old.isSome ∧ e.group.isSome ∧ e.value.elements ≠ [] ∧ Stands p (FitsAs .null) e
  field? : ∀ f, it.field? f =
    (valueAt? values.reverse ⟨f, none⟩).or (old.bind fun o => o.field? f)
  metadata : ∀ x, it.metadataItem = some x → (∃ o, old = some o ∧ o.metadataItem = some x) ∨
    ∃ a, latestItem t x = some a ∧ a.model = it.model ∧ p.model.metadataSchema = some a.schema
  suits : t.Suits it

/-- The metadata item of a written item is the one from before, or a stored one of the
metadata schema. -/
theorem Named.metadata {given before : Option ItemId} (hp : Packed t p)
    (h : Named t p it given before) {x : ItemId} (hx : it.metadataItem = some x) :
    before = some x ∨ ∃ a, latestItem t x = some a ∧ a.model = it.model ∧
      p.model.metadataSchema = some a.schema := by
  rw [h.item] at hx
  cases hgiven : given with
  | none =>
    rw [hgiven, Option.none_or] at hx
    exact .inl hx
  | some y =>
    rw [hgiven, Option.some_or] at hx
    cases hx
    obtain ⟨a, ha, hmodel, s, hs, hschema⟩ := h.stored x hgiven
    exact .inr ⟨a, ha, hmodel, by rw [hschema, (hp.metadata s hs).2]⟩

/-- The first snapshot of an item suits the catalog. -/
theorem snapshot_of_created (hs : Sound n t) (hw : Wired n t) (hp : Packed t p)
    {param : CreateItem} (h : Created p param n t it values) :
    Snapshot n t p none it values where
  packed := hp
  model := h.model.symm
  schema := h.schema.symm
  stored := by
    obtain ⟨k, hk, hid⟩ := h.id
    rw [hid]
    exact hs.latestItem_fresh hk
  fresh := fun _ => h.id
  origin := fun _ ho => nomatch ho
  stands := (stands_of_created h).1
  checked := h.checked
  mem := fun e he => .inl (mem_of_created h he)
  field? := fun f => by
    rw [Item.field?, h.fields, valueAt?_mergeValues]
    rfl
  metadata := fun x hx => by
    rcases h.metadata.metadata hp hx with hnone | hnamed
    · cases hnone
    · exact .inr hnamed
  suits := suits_of_created hw hp h

/-- So does the snapshot of an update, if the one before did. -/
theorem snapshot_of_updated (hw : Wired n t) (hp : Packed t p) (hmodel : p.model.id = old.model)
    (hschema : p.schema.id = old.schema) (hold : t.Suits old) {param : UpdateItem}
    (h : Updated p param t old it values) : Snapshot n t p (some old) it values where
  packed := hp
  model := hmodel.trans (model_of_updated h).symm
  schema := hschema.trans (schema_of_updated h).symm
  stored := h.stored
  fresh := fun hnone => nomatch hnone
  origin := fun o ho => Option.some.inj ho ▸ h.origin
  stands := stands_of_valuesOfRaw h.read
  checked := h.checked
  mem := fun e he => by
    rcases mem_of_updated h he with he | he | he
    · exact .inl he
    · exact .inr (.inl ⟨old, rfl, he⟩)
    · exact .inr (.inr ⟨rfl, isSome_of_filled hp hschema hold he, he.nonempty, he.stands⟩)
  field? := field?_of_updated hp hschema hold h
  metadata := fun x hx => by
    rcases h.metadata.metadata hp hx with hbefore | hnamed
    · exact .inl ⟨old, rfl, hbefore⟩
    · exact .inr hnamed
  suits := suits_of_updated hw hp hschema hold h

/-! ## References of a snapshot -/

namespace Snapshot

variable {o? : Option Item}

/-- What an item refers to in a field is among the references of its value. -/
theorem mem_references {it : Item} {f : FieldId} {y : ItemId} {e : ItemField}
    (he : it.field? f = some e) (hy : it.reference? f = some y) : y ∈ e.value.references := by
  unfold Item.reference? at hy
  rw [he, Option.bind_some] at hy
  obtain ⟨v, hv, hvy⟩ := Option.bind_eq_some_iff.mp hy
  exact List.mem_filterMap.mpr ⟨v, List.mem_of_mem_head? hv, hvy⟩

/-- In a field that the item schema does not have, the item holds what it
held. -/
theorem reference?_eq (h : Snapshot n t p o? it values) {f : FieldId}
    (hf : ∀ F ∈ p.schema.fields, F.id ≠ f) : it.reference? f = held o? f := by
  have hnone : valueAt? values.reverse ⟨f, none⟩ = none := by
    rw [valueAt?_eq_none]
    intro e he hslot
    have htop := (h.stands e (List.mem_reverse.mp he)).top (congrArg Slot.owner hslot)
    obtain ⟨raw, F, hF, hid, -⟩ := htop
    exact hf F hF (hid.trans (congrArg Slot.field hslot))
  have hfield := h.field? f
  rw [hnone, Option.none_or] at hfield
  unfold Item.reference? held
  rw [hfield]
  cases o? <;> rfl

/-- **A partner that the item did not have before** is another stored item of the
model that the field points at. -/
theorem partner (hw : Wired n t) (h : Snapshot n t p o? it values) {F : Field}
    (hF : F ∈ p.schema.fields) {far : FarEnd} (hfar : F.farEnd? = some far) {y : ItemId}
    (hy : it.reference? F.id = some y) (hchanged : held o? F.id ≠ some y) :
    y ≠ it.id ∧ ∃ Y, latestItem t y = some Y ∧ Y.model = far.model := by
  obtain ⟨hmirror, htarget⟩ := Field.farEnd?_eq_some.mp hfar
  have hfield := h.field? F.id
  cases hvalue : valueAt? values.reverse ⟨F.id, none⟩ with
  | none =>
    -- nothing was given for the field, so the partner is the former one
    rw [hvalue, Option.none_or] at hfield
    refine (hchanged ?_).elim
    unfold Item.reference? at hy
    rw [hfield] at hy
    unfold held Item.reference?
    cases ho : o? with
    | none =>
      rw [ho] at hy
      cases hy
    | some o =>
      rw [ho] at hy
      exact hy
  | some e =>
    rw [hvalue, Option.some_or] at hfield
    have hmem := List.mem_reverse.mp (mem_of_valueAt? hvalue)
    have hid : e.field = F.id := congrArg Slot.field (slot_of_valueAt? hvalue)
    have hcheck := h.checked.targets e hmem
    unfold checkTargets at hcheck
    rw [hid, h.packed.field?_eq hw List.mem_cons_self hF] at hcheck
    dsimp only at hcheck
    rw [htarget] at hcheck
    have hy' := ok_of_forM hcheck y (mem_references hfield hy)
    unfold checkTarget at hy'
    have htwo : F.isTwoWay = true := by rw [Field.isTwoWay, hmirror]; rfl
    split at hy'
    · cases hy'
    · rename_i hself
      split at hy'
      · cases hy'
      · rename_i Y hY
        split at hy'
        · rename_i hmodel
          exact ⟨fun heq => hself ⟨heq, htwo⟩, Y, hY, hmodel⟩
        · cases hy'

end Snapshot

end Write

end ContentStore
