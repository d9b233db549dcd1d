import ContentStore.Proofs.Items.Slots

/-!
# Items that merely follow

Most snapshots are saved because another item is written.  Such a snapshot
trails the one before it: the item stays what it is, no value goes from its top
level, and only paired fields get new ones, which are references (`Trails`).
-/

namespace ContentStore

/-- What never changes about an item. -/
structure Origin where
  id : ItemId
  project : ProjectId
  model : ModelId
  schema : SchemaId
  thread : ThreadId
  createdBy : Principal
  createdAt : Time.Instant
  deriving DecidableEq

/-- Where an item comes from. -/
def Item.origin (it : Item) : Origin :=
  ⟨it.id, it.project, it.model, it.schema, it.thread, it.createdBy, it.createdAt⟩

/-- The two differ in bookkeeping only. -/
structure Item.SameContent (old new : Item) : Prop where
  origin : new.origin = old.origin
  metadata : new.metadataItem = old.metadataItem
  fields : new.fields = old.fields

/-- Where a value of a follower comes from: it was there before, it is a new
value of a paired field, or what was in its slot has been emptied. -/
inductive Descends (paired : FieldId → Prop) (fields : List ItemField) (e : ItemField) : Prop
  | same (h : e ∈ fields)
  | paired (htop : e.group = none) (hpaired : paired e.field)
      (hvalue : ∀ v ∈ e.value.elements, ∃ y, v = .reference y)
  | emptied {e' : ItemField} (h : e' ∈ fields) (hslot : e.slot = e'.slot)
      (hvalue : e.value.elements = [])

/-- `new` is `old` with other values in paired fields at top level.  Values of
instances may be gone. -/
structure Item.Trails (paired : FieldId → Prop) (old new : Item) : Prop where
  origin : new.origin = old.origin
  metadata : new.metadataItem = old.metadataItem
  kept : ∀ e ∈ new.fields, Descends paired old.fields e
  filled : ∀ id, (old.field? id).isSome → (new.field? id).isSome

/-- Nor does a metadata item get another item to belong to. -/
structure Item.Shadows (paired : FieldId → Prop) (old new : Item) : Prop
    extends Trails paired old new where
  owner : new.metadataOf = old.metadataOf

namespace Item

variable {paired : FieldId → Prop}

/-- An item trails itself. -/
theorem Trails.refl (it : Item) : it.Trails paired it :=
  ⟨rfl, rfl, fun _ he => .same he, fun _ h => h⟩

/-- What trails an item that trails another trails that one. -/
theorem Trails.trans {a b c : Item} (hab : a.Trails paired b) (hbc : b.Trails paired c) :
    a.Trails paired c where
  origin := hbc.origin.trans hab.origin
  metadata := hbc.metadata.trans hab.metadata
  kept := fun e he => by
    rcases hbc.kept e he with he | ⟨htop, hpaired, hvalue⟩ | ⟨he', hslot, hvalue⟩
    · exact hab.kept e he
    · exact .paired htop hpaired hvalue
    · rcases hab.kept _ he' with he | ⟨htop, hpaired, -⟩ | ⟨he, hslot', -⟩
      · exact .emptied he hslot hvalue
      · have hfield : e.field = _ := congrArg Slot.field hslot
        have hgroup : e.group = _ := congrArg Slot.owner hslot
        refine .paired (hgroup.trans htop) (by rw [hfield]; exact hpaired) fun v hv => ?_
        rw [hvalue] at hv
        exact (List.not_mem_nil hv).elim
      · exact .emptied he (hslot.trans hslot') hvalue
  filled := fun id h => hbc.filled id (hab.filled id h)

/-- An item that trails with some paired fields does so with more. -/
theorem Trails.mono {paired' : FieldId → Prop} {a b : Item} (h : a.Trails paired b)
    (hpaired : ∀ f, paired f → paired' f) : a.Trails paired' b where
  origin := h.origin
  metadata := h.metadata
  kept := fun e he => by
    rcases h.kept e he with he | ⟨htop, hp, hvalue⟩ | ⟨he', hslot, hvalue⟩
    · exact .same he
    · exact .paired htop (hpaired _ hp) hvalue
    · exact .emptied he' hslot hvalue
  filled := h.filled

/-- A snapshot that trails another is of the same item. -/
theorem Trails.id {a b : Item} (h : a.Trails paired b) : b.id = a.id :=
  congrArg Origin.id h.origin

/-- It is of the same model. -/
theorem Trails.model {a b : Item} (h : a.Trails paired b) : b.model = a.model :=
  congrArg Origin.model h.origin

/-- It follows the same schema. -/
theorem Trails.schema {a b : Item} (h : a.Trails paired b) : b.schema = a.schema :=
  congrArg Origin.schema h.origin

/-- An item shadows itself. -/
theorem Shadows.refl (it : Item) : it.Shadows paired it := ⟨.refl it, rfl⟩

/-- What shadows a shadow shadows the item. -/
theorem Shadows.trans {a b c : Item} (hab : a.Shadows paired b) (hbc : b.Shadows paired c) :
    a.Shadows paired c :=
  ⟨hab.toTrails.trans hbc.toTrails, hbc.owner.trans hab.owner⟩

/-- An item that differs in bookkeeping only. -/
theorem SameContent.trails {a b : Item} (h : a.SameContent b) : a.Trails paired b where
  origin := h.origin
  metadata := h.metadata
  kept := fun e he => .same (h.fields ▸ he)
  filled := fun id hid => by
    rw [field?, h.fields]
    exact hid

/-- An item has its own content. -/
theorem SameContent.refl (it : Item) : it.SameContent it := ⟨rfl, rfl, rfl⟩

/-- Items of the same content refer to the same items. -/
theorem SameContent.reference? {a b : Item} (h : a.SameContent b) (f : FieldId) :
    b.reference? f = a.reference? f :=
  reference?_congr (by rw [field?, field?, h.fields])

/-- Clearing a field changes nothing else. -/
theorem shadows_clear? {it it' : Item} {id : FieldId} (h : it.clear? id = some it') :
    it.Shadows paired it' := by
  unfold clear? at h
  split at h
  · split at h
    · cases h
    · cases h
      refine ⟨⟨rfl, rfl, fun e he => ?_, fun g hg => ?_⟩, rfl⟩
      · rcases mem_updateFirst he with he | ⟨e', he', -, rfl⟩
        · exact .same he
        · exact .emptied he' rfl rfl
      · have hslot : ∀ e : ItemField, e.slot = ⟨id, none⟩ → (cleared e).slot = ⟨id, none⟩ :=
          fun _ h => h
        unfold field? at hg ⊢
        rw [valueAt?_updateFirst hslot]
        split
        · rename_i heq
          rw [Option.isSome_map, ← heq]
          exact hg
        · exact hg
  · cases h

/-- Merging a reference into a paired field changes nothing else at top level. -/
theorem shadows_update {it : Item} {f : ItemField} (hf : paired f.field) (htop : f.group = none)
    (hvalue : ∀ v ∈ f.value.elements, ∃ y, v = .reference y) :
    it.Shadows paired (it.update [f]) := by
  refine ⟨⟨rfl, rfl, fun e he => ?_, fun g hg => ?_⟩, rfl⟩
  · rcases mem_mergeValues he with he | he
    · rw [List.mem_singleton] at he
      subst he
      exact .paired htop hf hvalue
    · exact .same he
  · rw [field?_update, Option.isSome_or, hg, Bool.or_true]

end Item

end ContentStore
