import ContentStore.Proofs.Histories.Saves
import ContentStore.Proofs.Pairing.Repairs

/-!
# What writes of items do

The bodies that create, update and delete items, each said once.  Creating and
updating save snapshots in three parts: the metadata item that is linked, the
item itself, and the partners that follow (`Puts`).  What the input and the
checks say about the new snapshot stands beside it (`Created`, `Updated`).
Deleting saves the partners that let go, and then removes the item and its
metadata item (`Removes`).
-/

namespace ContentStore.Write

open Tables Pairing

/-- A snapshot of a metadata item for items like the one written, with the
content that it had before. -/
def Links (t : Tables) (p : Package) (it l : Item) : Prop :=
  ∃ a, latestItem t l.id = some a ∧ a.SameContent l ∧ a.model = it.model ∧
    ∃ s, p.metadataSchema = some s ∧ a.schema = s.id

/-- The effect of appending an item over `old`, with its partners behind it. -/
inductive Appends (o : Operator) (p : Package) (old : Option Item) (it : Item) (n : Nat)
    (t : Tables) (m : Nat) (u : Tables) : Prop
  | intro {n₁ : Nat} {t₁ : Tables} {edits : Edits} (hput : Saves n t [it] n₁ t₁)
      (hrepairs : p.schema.referenceFields.foldlM
        (repairField (latestItem t₁) (targetSchema p) it old) [] = .ok edits)
      (hfollow : Saves n₁ t₁ ((edits.map Prod.snd).map (stamp o)) m u) :
      Appends o p old it n t m u

/-- The effect of writing an item over `old`. -/
inductive Puts (o : Operator) (p : Package) (old : Option Item) (it : Item) (n : Nat) (t : Tables)
    (m : Nat) (u : Tables) : Prop
  | intro {n₁ : Nat} {t₁ : Tables} {links : List Item} (hlinks : ∀ l ∈ links, Links t p it l)
      (hlinked : Saves n t links n₁ t₁) (happends : Appends o p old it n₁ t₁ m u) :
      Puts o p old it n t m u

/-- The metadata item that a write names belongs to the item now, and other items
are what they were. -/
structure Binds (given : Option ItemId) (it : Item) (t u : Tables) : Prop where
  named : ∀ y, given = some y → ∃ a, latestItem u y = some a ∧ a.metadataOf = some it.id
  others : ∀ z, given ≠ some z → latestItem u z = latestItem t z

/-- A write names a metadata item, which is bound to the item before the item is
appended.  If that is a metadata item itself, it belongs to whom it belonged to. -/
inductive PutsNamed (o : Operator) (p : Package) (old : Option Item) (given : Option ItemId)
    (it : Item) (t : Tables) (m : Nat) (u : Tables) : Prop
  | intro {n₁ : Nat} {t₁ : Tables} (howner : it.metadataOf = old.bind Item.metadataOf)
      (hs : Sound n₁ t₁) (hbinds : Binds given it t t₁)
      (happends : Appends o p old it n₁ t₁ m u) : PutsNamed o p old given it t m u

theorem PutsNamed.owner {o : Operator} {p : Package} {old : Option Item} {given : Option ItemId}
    {it : Item} {t u : Tables} {m : Nat} (h : PutsNamed o p old given it t m u) :
    it.metadataOf = old.bind Item.metadataOf := by
  cases h with
  | intro howner => exact howner

/-- The values that a write was given have passed all checks against the
tables. -/
structure Checked (t : Tables) (p : Package) (it : Item) (old : Option Item)
    (values : List ItemField) : Prop where
  unique : (Uniqueness.check t.itemWithValue? p it.id old values).2 = .ok ()
  targets : ∀ v ∈ values, checkTargets t p it.id v = .ok ()

/-- The metadata item that a write names, if it names one, takes the place of
the one before. -/
structure Named (t : Tables) (p : Package) (it : Item) (given before : Option ItemId) : Prop where
  item : it.metadataItem = given.or before
  stored : ∀ id, given = some id → ∃ a, latestItem t id = some a ∧ a.model = it.model ∧
    ∃ s, p.metadataSchema = some s ∧ a.schema = s.id

/-- A new item. -/
structure Created (p : Package) (param : CreateItem) (n : Nat) (t : Tables) (it : Item)
    (values : List ItemField) : Prop where
  id : ∃ k, n ≤ k ∧ it.id = .ofSerial k
  model : it.model = p.model.id
  schema : it.schema = p.schema.id
  read : ∃ raw, Embedding.valuesOfRaw p param.fields [] = .ok raw ∧
    Embedding.completed p raw = .ok values
  fields : it.fields = mergeValues [] values
  checked : Checked t p it none values
  metadata : Named t p it param.metadata none

/-- A new snapshot of a stored item. -/
structure Updated (p : Package) (param : UpdateItem) (t : Tables) (old it : Item)
    (values : List ItemField) : Prop where
  id : it.id = param.item
  stored : latestItem t it.id = some old
  origin : it.origin = old.origin
  read : Embedding.valuesOfRaw p param.fields old.fields = .ok values
  fields : Embedding.completed p (mergeValues old.fields values) = .ok it.fields
  checked : Checked t p it (some old) values
  metadata : Named t p it param.metadata old.metadataItem

/-- The effect of deleting an item. -/
inductive Removes (o : Operator) (p : Package) (it : Item) (n : Nat) (t : Tables) (m : Nat) :
    Tables → Prop
  | intro {u : Tables} (hstored : latestItem t it.id = some it)
      (hfollow : Saves n t (((p.schema.referenceFields.foldl (detachField (latestItem t) it)
        []).map Prod.snd).map (stamp o)) m u) :
      Removes o p it n t m ((it.metadataItem.elim u u.deleteItem).deleteItem it.id)

theorem Removes.stored {o : Operator} {p : Package} {it : Item} {n m : Nat} {t u : Tables}
    (h : Removes o p it n t m u) : latestItem t it.id = some it := by
  cases h
  assumption

/-- A write saves snapshots. -/
theorem Puts.saves {o : Operator} {p : Package} {old : Option Item} {it : Item} {n m : Nat}
    {t u : Tables} (h : Puts o p old it n t m u) : ∃ its, Saves n t its m u := by
  obtain ⟨_, hlinked, hput, _, hfollow⟩ := h
  exact ⟨_, (hlinked.append hput).append hfollow⟩

/-- A removal saves snapshots before. -/
theorem Removes.saves {o : Operator} {p : Package} {it : Item} {n m : Nat} {t u : Tables}
    (h : Removes o p it n t m u) :
    ∃ its v, Saves n t its m v ∧ u = (it.metadataItem.elim v v.deleteItem).deleteItem it.id := by
  cases h with
  | intro _ hfollow => exact ⟨_, _, hfollow, rfl⟩

/-! ## Parts of the bodies -/

section Parts

variable {w w' : Work} {o : Operator} {p : Package} {it : Item}

theorem gives_checkUnique {id : ItemId} {old : Option Item} {values : List ItemField} {a : Unit}
    (h : Gives (checkUnique p id old values) w a w') :
    (Uniqueness.check w.tables.itemWithValue? p id old values).2 = .ok () ∧ w = w' := by
  unfold checkUnique at h
  simp only [gives_bind, gives_tables, gives_lift] at h
  obtain ⟨_, _, ⟨rfl, rfl⟩, hok, rfl⟩ := h
  exact ⟨hok, rfl⟩

theorem gives_checkAllTargets {id : ItemId} {values : List ItemField} {a : Unit}
    (h : Gives (checkAllTargets p id values) w a w') :
    (∀ v ∈ values, checkTargets w.tables p id v = .ok ()) ∧ w = w' := by
  unfold checkAllTargets at h
  simp only [gives_bind, gives_tables, gives_lift] at h
  obtain ⟨_, _, ⟨rfl, rfl⟩, hok, rfl⟩ := h
  exact ⟨ok_of_forM hok, rfl⟩

/-- A metadata item that may be linked is a stored one of the same model, by its metadata
schema. -/
theorem metadataItem_eq_ok {t : Tables} {id : ItemId} {a : Item}
    (h : metadataItem t p it id = .ok a) :
    latestItem t id = some a ∧ a.model = it.model ∧
      ∃ s, p.metadataSchema = some s ∧ a.schema = s.id := by
  unfold metadataItem at h
  split at h
  · cases h
  · rename_i m hm
    split at h
    · rename_i hok
      cases h
      obtain ⟨hschema, hmodel⟩ := hok
      cases hs : p.metadataSchema with
      | none =>
        rw [hs] at hschema
        cases hschema
      | some s =>
        rw [hs] at hschema
        exact ⟨hm, hmodel, s, rfl, (beq_iff_eq.mp hschema).symm⟩
    · cases h

/-- Linking saves the metadata item if need be, and changes nothing else of the
item. -/
theorem gives_linkNamed {named : Option ItemId} {it' : Item}
    (hs : Sound w.supply.next w.tables) (h : Gives (linkNamed o p it named) w it' w') :
    Named w.tables p it' named it.metadataItem ∧
      it' = { it with metadataItem := named.or it.metadataItem } ∧
      Binds named it' w.tables w'.tables ∧
      ∃ links : List Item, (∀ l ∈ links, Links w.tables p it' l) ∧
        Saves w.supply.next w.tables links w'.supply.next w'.tables := by
  cases named with
  | none =>
    unfold linkNamed at h
    obtain ⟨rfl, rfl⟩ := gives_pure.mp h
    exact ⟨⟨rfl, fun _ h => (nomatch h)⟩, rfl, ⟨fun _ h => (nomatch h), fun _ _ => rfl⟩, [],
      fun _ hl => (List.not_mem_nil hl).elim, .done (Nat.le_refl _)⟩
  | some id =>
    simp only [linkNamed, linkMetadata, gives_bind, gives_tables, gives_lift] at h
    obtain ⟨_, _, ⟨rfl, rfl⟩, a, _, ⟨hmeta, rfl⟩, h⟩ := h
    obtain ⟨hstored, hmodel, hschema⟩ := metadataItem_eq_ok hmeta
    have hstored' : latestItem w.tables a.id = some a := hs.id_of_latestItem hstored ▸ hstored
    have hnamed : Named w.tables p { it with metadataItem := some id } (some id)
        it.metadataItem := by
      refine ⟨rfl, fun _ heq => ?_⟩
      cases heq
      exact ⟨a, hstored, hmodel, hschema⟩
    split at h
    · simp only [gives_bind, gives_pure] at h
      obtain ⟨_, _, hsave, rfl, rfl⟩ := h
      have hfollows : Follows w.tables { a with metadataOf := some it.id } := ⟨a, hstored', rfl⟩
      have hsaved := gives_saveFollower hs hfollows hsave
      have hid : a.id = id := hs.id_of_latestItem hstored
      have hlatest : latestItem _ = put (latestItem w.tables)
          (stamp o { a with metadataOf := some it.id }) := hsaved.latestItem hs
      refine ⟨hnamed, rfl, ⟨fun y hy => ?_, fun z hz => ?_⟩,
        [stamp o { a with metadataOf := some it.id }], ?_, hsaved⟩
      · cases hy
        refine ⟨stamp o { a with metadataOf := some it.id }, ?_, rfl⟩
        rw [hlatest, ← hid]
        exact put_self _ (stamp o { a with metadataOf := some it.id })
      · rw [hlatest]
        refine put_other _ fun heq => hz ?_
        rw [heq, ← hid]
        rfl
      intro l hl
      rw [List.mem_singleton.mp hl]
      exact ⟨a, hstored', ⟨rfl, rfl, rfl⟩, hmodel, hschema⟩
    · rename_i howner
      obtain ⟨rfl, rfl⟩ := gives_pure.mp h
      refine ⟨hnamed, rfl, ⟨fun y hy => ?_, fun _ _ => rfl⟩, [],
        fun _ hl => (List.not_mem_nil hl).elim, .done (Nat.le_refl _)⟩
      cases hy
      exact ⟨a, hstored, Classical.not_not.mp howner⟩

/-- Edits of the latest snapshots are followers. -/
theorem follows_of_tidy {n : Nat} {t : Tables} {paired : ItemId → FieldId → Prop}
    {x : ItemId} {edits : Edits} (hs : Sound n t) (h : Edits.Tidy paired (latestItem t) x edits) :
    ∀ f ∈ edits.map Prod.snd, Follows t f := by
  intro f hf
  obtain ⟨e, he, rfl⟩ := List.mem_map.mp hf
  obtain ⟨-, old, hold, htrails⟩ := h.trails e he
  have hid : e.2.id = e.1 := htrails.id.trans (hs.id_of_latestItem hold)
  exact ⟨old, by rw [hid]; exact hold, htrails.origin⟩

/-- The repairs of a written item are saved as the next snapshots of its partners. -/
theorem gives_repairPartners {old : Option Item} {a : Unit} (hs : Sound w.supply.next w.tables)
    (h : Gives (repairPartners o p it old) w a w') :
    ∃ edits, p.schema.referenceFields.foldlM
      (repairField (latestItem w.tables) (targetSchema p) it old) [] = .ok edits ∧
      Saves w.supply.next w.tables ((edits.map Prod.snd).map (stamp o)) w'.supply.next
        w'.tables := by
  unfold repairPartners at h
  simp only [gives_bind, gives_tables, gives_lift] at h
  obtain ⟨_, _, ⟨rfl, rfl⟩, followers, _, ⟨hrepairs, rfl⟩, hsave⟩ := h
  obtain ⟨edits, hedits, rfl⟩ := edits_of_repairs hrepairs
  have htidy : Edits.Tidy (fun _ _ => True) (latestItem w.tables) it.id edits :=
    Edits.Tidy.nil.repairs (fun _ _ _ _ _ _ _ => trivial) hedits
  exact ⟨edits, hedits, gives_saveFollowers hs (follows_of_tidy hs htidy) hsave⟩

theorem gives_referenced {vs : List Version} (h : Gives (referenced it) w vs w') : w = w' := by
  unfold referenced at h
  simp only [gives_bind, gives_tables, gives_pure] at h
  obtain ⟨_, _, ⟨-, rfl⟩, -, rfl⟩ := h
  rfl

/-- Appending an item and letting its partners follow. -/
theorem gives_appends {old : Option Item} {expected : Option VersionId} {v : Version} {w₁ : Work}
    {a : Unit} (hs : Sound w.supply.next w.tables)
    (horigin : ∀ b ∈ w.tables.versionsOf it.id, b.item.origin = it.origin)
    (hitem : it.id.Given w.supply.next)
    (happend : Gives (append it expected) w v w₁)
    (hrepair : Gives (repairPartners o p v.item old) w₁ a w') :
    v.item = it ∧ Appends o p old it w.supply.next w.tables w'.supply.next w'.tables := by
  obtain ⟨rfl, hput, -⟩ := gives_append hs horigin hitem happend
  obtain ⟨edits, hedits, hfollow⟩ := gives_repairPartners (hput.sound hs) hrepair
  exact ⟨rfl, .intro hput hedits hfollow⟩

end Parts

/-! ## The bodies -/

section Bodies

variable {w w' : Work} {o : Operator} {p : Package}

/-- A creation has come to the point where the new item is to be appended, with
everything before that done in `w₁`. -/
structure Readied (p : Package) (param : CreateItem) (w : Work) (it : Item)
    (values : List ItemField) (links : List Item) (w₁ : Work) : Prop where
  created : Created p param w.supply.next w.tables it values
  named : ∀ l ∈ links, Links w.tables p it l
  linked : Saves w.supply.next w.tables links w₁.supply.next w₁.tables
  binds : Binds param.metadata it w.tables w₁.tables
  owner : it.metadataOf = none
  absent : w₁.tables.versionsOf it.id = []
  given : it.id.Given w₁.supply.next

/-- There are no versions that the item would have to agree with. -/
theorem Readied.kin {param : CreateItem} {it : Item} {values : List ItemField} {links : List Item}
    {w₁ : Work} (h : Readied p param w it values links w₁) :
    ∀ b ∈ w₁.tables.versionsOf it.id, b.item.origin = it.origin := by
  rw [h.absent]
  exact fun _ hb => (List.not_mem_nil hb).elim

/-- **The steps of a creation.** -/
theorem createItem_steps {param : CreateItem} {v : Version} (hs : Sound w.supply.next w.tables)
    (h : Gives (createItem o p param) w v w') :
    ∃ it values links w₁ w₂ w₃ a, Readied p param w it values links w₁ ∧
      Gives (append it none) w₁ v w₂ ∧ Gives (repairPartners o p v.item none) w₂ a w₃ ∧
      w'.tables = w₃.tables ∧ w'.supply = w₃.supply := by
  unfold createItem newItem at h
  simp only [gives_bind, gives_lift, gives_pure] at h
  obtain ⟨start, w₁, hnow, _, _, ⟨id, w₂, hid, thread, w₃, hthread, rfl, rfl⟩, raw, _, ⟨hraw, rfl⟩,
    values, _, ⟨hvalues, rfl⟩, _, _, hunique, _, _, htargets, it, w₄, hlink, created, w₅, happend,
    _, w₆, hrepair, _, _, hreferenced, _, w₇, hqueue, rfl, rfl⟩ := h
  obtain rfl := gives_referenced hreferenced
  obtain ⟨htables₁, hsupply₁⟩ := gives_now hnow
  obtain ⟨hidEq, htables₂, hsupply₂⟩ := gives_freshId hid
  obtain ⟨-, htables₃, hsupply₃⟩ := gives_freshId hthread
  obtain ⟨huniqueOk, rfl⟩ := gives_checkUnique hunique
  obtain ⟨htargetsOk, rfl⟩ := gives_checkAllTargets htargets
  have htables : w₃.tables = w.tables := by rw [htables₃, htables₂, htables₁]
  have hsupply : w₃.supply.next = w.supply.next + 2 := by
    rw [hsupply₃, hsupply₂, hsupply₁]
  have hle : w.supply.next ≤ w₃.supply.next := by omega
  rw [hsupply₁] at hidEq
  have hs₃ : Sound w₃.supply.next w₃.tables := htables ▸ hs.mono hle
  obtain ⟨hnamed, hit, hbinds, links, hlinks, hlinked⟩ := gives_linkNamed hs₃ hlink
  rw [htables] at huniqueOk htargetsOk hnamed hbinds hlinks hlinked
  have hid : it.id = .ofSerial w.supply.next := by rw [hit]; exact hidEq
  have hlinked' : Saves w.supply.next w.tables links w₄.supply.next w₄.tables :=
    (Saves.done hle).append hlinked
  -- the id is new, so nothing is stored under it
  have hfresh : w₄.tables.versionsOf it.id = [] := by
    have hnone := hs.latestItem_fresh (Nat.le_refl _)
    rw [← hid] at hnone
    rw [← (hlinked'.sound hs).latestItem_eq_none_iff, hlinked'.latestItem hs, putAll_other]
    · exact hnone
    · intro l hl heq
      obtain ⟨a, ha, -⟩ := hlinks l hl
      rw [heq, hnone] at ha
      cases ha
  have hgiven : it.id.Given w₄.supply.next :=
    ⟨w.supply.next, by have := hlinked.le; omega, hid⟩
  have howner : it.metadataOf = none := by rw [hit]; rfl
  refine ⟨it, values, links, w₄, w₅, w₆, _,
    ⟨?_, hlinks, hlinked', hbinds, howner, hfresh, hgiven⟩, happend, hrepair, gives_queue hqueue⟩
  refine ⟨⟨_, Nat.le_refl _, hid⟩, ?_, ?_, ⟨raw, hraw, hvalues⟩, ?_, ?_, hnamed⟩
  · rw [hit]; rfl
  · rw [hit]; rfl
  · rw [hit]; rfl
  · have hid' : it.id = id := hid.trans hidEq.symm
    constructor
    · rw [hid']
      exact huniqueOk
    · rw [hid']
      exact htargetsOk

/-- **What creating an item does.** -/
theorem gives_createItem {param : CreateItem} {v : Version} (hs : Sound w.supply.next w.tables)
    (h : Gives (createItem o p param) w v w') :
    ∃ it values, v.item = it ∧ Created p param w.supply.next w.tables it values ∧
      Puts o p none it w.supply.next w.tables w'.supply.next w'.tables ∧
      PutsNamed o p none param.metadata it w.tables w'.supply.next w'.tables := by
  obtain ⟨it, values, links, w₁, w₂, w₃, a, hreadied, happend, hrepair, htables, hsupply⟩ :=
    createItem_steps hs h
  have hs₁ := hreadied.linked.sound hs
  obtain ⟨hv, happends⟩ := gives_appends hs₁ hreadied.kin hreadied.given happend hrepair
  rw [htables, hsupply]
  exact ⟨it, values, hv, hreadied.created, .intro hreadied.named hreadied.linked happends,
    .intro hreadied.owner hs₁ hreadied.binds happends⟩

/-- An update has come to the point where the new snapshot is to be appended,
with everything before that done in `w₁`.  Up to here the version that the input
names plays no part. -/
structure Prepared (o : Operator) (p : Package) (param : UpdateItem) (w : Work) (old it : Item)
    (values : List ItemField) (links : List Item) (w₁ : Work) : Prop where
  updated : Updated p param w.tables old it values
  named : ∀ l ∈ links, Links w.tables p it l
  linked : Saves w.supply.next w.tables links w₁.supply.next w₁.tables
  binds : Binds param.metadata it w.tables w₁.tables
  owner : it.metadataOf = old.metadataOf
  kin : ∀ b ∈ w₁.tables.versionsOf it.id, b.item.origin = it.origin
  given : it.id.Given w₁.supply.next
  fails : ∀ version e, Fails (append it version) w₁ e →
    Fails (updateItem o p { param with version }) w e

/-- **The steps of an update.** -/
theorem updateItem_steps {param : UpdateItem} {v : Version} (hs : Sound w.supply.next w.tables)
    (h : Gives (updateItem o p param) w v w') :
    ∃ old it values links w₁ w₂ w₃ a, Prepared o p param w old it values links w₁ ∧
      Gives (append it param.version) w₁ v w₂ ∧
      Gives (repairPartners o p v.item (some old)) w₂ a w₃ ∧
      w'.tables = w₃.tables ∧ w'.supply = w₃.supply := by
  unfold updateItem at h
  simp only [gives_bind, gives_tables] at h
  obtain ⟨start, w₁, hnow, t, _, ⟨rfl, rfl⟩, h⟩ := h
  obtain ⟨htables₁, hsupply₁⟩ := gives_now hnow
  cases hold : latestItem w₁.tables param.item with
  | none =>
    rw [hold] at h
    exact (gives_throw h).elim
  | some old =>
    rw [hold] at h
    simp only [gives_bind, gives_lift, gives_pure] at h
    obtain ⟨values, _, ⟨hvalues, rfl⟩, _, _, hunique, _, _, htargets, merged, _, ⟨hmerged, rfl⟩, it,
      w₂, hlink, updated, w₃, happend, _, w₄, hrepair, _, _, hreferenced, _, w₅, hqueue, rfl,
      rfl⟩ := h
    obtain ⟨huniqueOk, rfl⟩ := gives_checkUnique hunique
    obtain ⟨htargetsOk, rfl⟩ := gives_checkAllTargets htargets
    have hfails : ∀ version e, Fails (append it version) w₂ e →
        Fails (updateItem o p { param with version }) w e := by
      intro version e hfails
      refine fails_bind hnow (fails_bind (gives_tables.mpr ⟨rfl, rfl⟩) ?_)
      dsimp only
      rw [hold]
      refine fails_bind (gives_lift.mpr ⟨hvalues, rfl⟩) (fails_bind hunique (fails_bind htargets
        (fails_bind (gives_lift.mpr ⟨hmerged, rfl⟩) (fails_bind hlink ?_))))
      exact fails_first hfails _
    obtain rfl := gives_referenced hreferenced
    have hs₁ : Sound w₁.supply.next w₁.tables := by rw [htables₁, hsupply₁]; exact hs
    obtain ⟨hnamed, hit, hbinds, links, hlinks, hlinked⟩ := gives_linkNamed hs₁ hlink
    rw [htables₁] at huniqueOk htargetsOk hnamed hbinds hlinks hlinked hold
    rw [hsupply₁] at hlinked
    have holdid := hs.id_of_latestItem hold
    have hid : it.id = old.id := by rw [hit]
    have horigin : it.origin = old.origin := by rw [hit]; rfl
    have hstored : latestItem w.tables it.id = some old := by rw [hid, holdid, hold]
    refine ⟨old, it, values, links, w₂, w₃, w₄, _,
      ⟨?_, hlinks, hlinked, hbinds, by rw [hit], ?_, ?_, hfails⟩, happend,
      hrepair, gives_queue hqueue⟩
    · refine ⟨hid.trans holdid, hstored, horigin, hvalues, ?_, ?_, hnamed⟩
      · rw [hit]
        exact hmerged
      · rw [← hid] at huniqueOk htargetsOk
        exact ⟨huniqueOk, htargetsOk⟩
    · -- linking may have saved the item itself, but leaves its origin
      intro b hb
      have hs₂ := hlinked.sound hs
      have hversions : w.tables.versionsOf it.id ≠ [] := by
        rw [Ne, ← hs.latestItem_eq_none_iff, hstored]
        exact Option.some_ne_none old
      obtain ⟨a, ha⟩ := List.exists_mem_of_ne_nil _ hversions
      have ha₂ := (hlinked.prefix_versionsOf it.id).subset ha
      have hab := hs₂.one_origin b (mem_versionsOf.mp hb).1 a (mem_versionsOf.mp ha₂).1
        ((mem_versionsOf.mp hb).2.trans (mem_versionsOf.mp ha₂).2.symm)
      rw [hab, hs.origin_of_latestItem hstored a ha, horigin]
    · exact (hs.item_given hstored).mono hlinked.le

/-- **What updating an item does.** -/
theorem gives_updateItem {param : UpdateItem} {v : Version} (hs : Sound w.supply.next w.tables)
    (h : Gives (updateItem o p param) w v w') :
    ∃ old it values, v.item = it ∧ Updated p param w.tables old it values ∧
      Puts o p (some old) it w.supply.next w.tables w'.supply.next w'.tables ∧
      PutsNamed o p (some old) param.metadata it w.tables w'.supply.next w'.tables := by
  obtain ⟨old, it, values, links, w₁, w₂, w₃, a, hprepared, happend, hrepair, htables, hsupply⟩ :=
    updateItem_steps hs h
  have hs₁ := hprepared.linked.sound hs
  obtain ⟨hv, happends⟩ := gives_appends hs₁ hprepared.kin hprepared.given happend hrepair
  rw [htables, hsupply]
  exact ⟨old, it, values, hv, hprepared.updated, .intro hprepared.named hprepared.linked happends,
    .intro hprepared.owner hs₁ hprepared.binds happends⟩

/-- **What deleting an item does.** -/
theorem gives_deleteItem {id : ItemId} {a : Unit} (hs : Sound w.supply.next w.tables)
    (h : Gives (deleteItem o p id) w a w') :
    ∃ it, it.id = id ∧ Removes o p it w.supply.next w.tables w'.supply.next w'.tables := by
  unfold deleteItem at h
  simp only [gives_bind, gives_tables] at h
  obtain ⟨start, w₁, hnow, t, _, ⟨rfl, rfl⟩, h⟩ := h
  obtain ⟨htables₁, hsupply₁⟩ := gives_now hnow
  have hs₁ : Sound w₁.supply.next w₁.tables := by rw [htables₁, hsupply₁]; exact hs
  cases hlast : w₁.tables.latest? id with
  | none =>
    rw [hlast] at h
    exact (gives_throw h).elim
  | some last =>
    have hstored : latestItem w₁.tables id = some last.item := by rw [latestItem, hlast]; rfl
    have hid := hs₁.id_of_latestItem hstored
    rw [← hid] at hstored
    rw [hlast] at h
    simp only [gives_bind, gives_tables] at h
    obtain ⟨_, _, ⟨rfl, rfl⟩, _, w₂, hsave, hrest⟩ := h
    have htidy : Edits.Tidy (fun _ _ => True) (latestItem w₁.tables) last.item.id
        (p.schema.referenceFields.foldl (detachField (latestItem w₁.tables) last.item) []) :=
      Edits.Tidy.nil.detachments _
    have hsaved := gives_saveFollowers hs₁ (follows_of_tidy hs₁ htidy) hsave
    have hremoved : w'.tables =
          (last.item.metadataItem.elim w₂.tables w₂.tables.deleteItem).deleteItem id ∧
        w'.supply = w₂.supply := by
      cases hm : last.item.metadataItem with
      | none =>
        rw [hm] at hrest
        simp only [gives_bind, gives_change] at hrest
        obtain ⟨_, _, rfl, hqueue⟩ := hrest
        exact gives_queue hqueue
      | some m =>
        rw [hm] at hrest
        simp only [gives_bind, gives_change] at hrest
        obtain ⟨_, _, rfl, _, _, rfl, hqueue⟩ := hrest
        exact gives_queue hqueue
    rw [htables₁, hsupply₁] at hsaved
    rw [htables₁] at hstored
    refine ⟨last.item, hid, ?_⟩
    rw [hremoved.1, hremoved.2, ← hid]
    exact .intro hstored hsaved

end Bodies

end ContentStore.Write
