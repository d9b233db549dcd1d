import ContentStore.Proofs.Writes.Content
import Mathlib.Data.List.Pairwise

/-!
# Who follows a write

The two ends of a pair are declared by main schemas of models, never by those of
metadata items or groups.  So the partners of a written item are items of a model
whose items have the mirror, be they its metadata items, and what a repair puts
into them suits the catalog (`puts_after`).
-/

namespace ContentStore

namespace Tables

variable {n : Nat} {t : Tables}

theorem mates_iff {f g : FieldId} :
    Pairing.Mates t.schemas f g ↔ ∃ s e, t.Declares s f (some e) ∧ e.field = g := by
  constructor
  · intro hex
    obtain ⟨S, hS, F, hF, rfl, hg⟩ := hex
    obtain ⟨e, he, rfl⟩ := Field.farEnd?_of_corresponding? hg
    exact ⟨S.id, e, he ▸ Wired.declares_of_mem hS hF, rfl⟩
  · intro hex
    obtain ⟨s, e, ⟨S, hS, -, htie⟩, rfl⟩ := hex
    obtain ⟨F, hF, hid, he⟩ := Schema.mem_ties.mp htie
    exact ⟨S, hS, F, hF, hid, (Field.farEnd?_eq_some.mp he).1⟩

/-- No two models share a schema. -/
theorem Wired.model_eq (hw : Wired n t) {M N : Model} (hM : M ∈ t.models) (hN : N ∈ t.models)
    {s : SchemaId} (hs : s ∈ M.schemas) (hs' : s ∈ N.schemas) : M = N := by
  have hdistinct := hw.used_distinct
  unfold used at hdistinct
  rw [List.nodup_append, List.nodup_flatMap] at hdistinct
  obtain ⟨⟨-, hpairwise⟩, -⟩ := hdistinct
  have hsymm : Std.Symm (Function.onFun List.Disjoint Model.schemas) :=
    ⟨fun _ _ h => fun _ ha hb => h hb ha⟩
  by_contra hne
  exact hpairwise.forall hM hN hne hs hs'

/-- The items of a model do not share their schema with a group. -/
theorem Wired.item_ne_group (hw : Wired n t) {M : Model} (hM : M ∈ t.models) {G : Group}
    (hG : G ∈ t.groups) : M.schema ≠ G.schema := by
  have hdistinct := hw.used_distinct
  unfold used at hdistinct
  rw [List.nodup_append] at hdistinct
  have hitem : M.schema ∈ t.models.flatMap Model.schemas :=
    List.mem_flatMap.mpr ⟨M, hM, List.mem_cons_self⟩
  exact hdistinct.2.2 _ hitem _ (List.mem_map_of_mem hG)

/-- Nor do they with metadata, of their own model or of another. -/
theorem Wired.item_ne_metadata (hw : Wired n t) {M N : Model} (hM : M ∈ t.models)
    (hN : N ∈ t.models) {s : SchemaId} (hs : N.metadataSchema = some s) : M.schema ≠ s := by
  rintro rfl
  have hschemas : N.schemas = [N.schema, M.schema] := by
    unfold Model.schemas
    rw [hs]
    rfl
  have hown : M.schema ∈ N.schemas := hschemas ▸ List.mem_cons_of_mem _ List.mem_cons_self
  obtain rfl := hw.model_eq hM hN List.mem_cons_self hown
  have hnodup := hw.schemas_nodup hM
  rw [hschemas] at hnodup
  exact (List.nodup_cons.mp hnodup).1 List.mem_cons_self

/-- A model hosts one schema. -/
theorem Wired.hosts_eq (hw : Wired n t) {m : ModelId} {s s' : SchemaId} (h : t.Hosts m s)
    (h' : t.Hosts m s') : s = s' := by
  obtain ⟨M, hM, rfl, rfl⟩ := h
  obtain ⟨N, hN, hid, rfl⟩ := h'
  rw [List.inj_on_of_nodup_map hw.models_distinct hN hM hid]

/-- A schema with a paired field is the main one of its model. -/
theorem Wired.hosts_of_declares (hw : Wired n t) {M : Model} (hM : M ∈ t.models) {s : SchemaId}
    (hs : s ∈ M.schemas) {f : FieldId} {far : FarEnd} (hd : t.Declares s f (some far)) :
    t.Hosts M.id s := by
  obtain ⟨-, -, back, hback, rfl, -⟩ := hw.mated hd
  obtain ⟨-, ⟨N, hN, -, hschema⟩, -⟩ := hw.mated hback
  obtain rfl := hw.model_eq hM hN hs (hschema ▸ List.mem_cons_self)
  exact ⟨M, hM, rfl, hschema⟩

/-- Groups have no paired fields. -/
theorem Wired.not_group (hw : Wired n t) {s : SchemaId} {f : FieldId} {far : FarEnd}
    (hd : t.Declares s f (some far)) : ∀ G ∈ t.groups, G.schema ≠ s := by
  intro G hG heq
  subst heq
  obtain ⟨-, -, back, hback, hschema, -⟩ := hw.mated hd
  obtain ⟨-, ⟨M, hM, -, hMs⟩, -⟩ := hw.mated hback
  exact hw.item_ne_group hM hG (hMs.trans hschema)

/-- Values of paired fields stand at top level, and in paired fields of the model. -/
theorem Suits.pairs (hw : Wired n t) {it : Item} (hit : t.Suits it) {e : ItemField}
    (he : e ∈ it.fields) {s : SchemaId} {far : FarEnd} (hd : t.Declares s e.field (some far)) :
    e.group = none ∧ t.Pairs it.model e.field := by
  have htop : e.group = none := by
    by_contra hgroup
    obtain ⟨G, hG, k, hd'⟩ := hit.inner e he (Option.isSome_iff_ne_none.mpr hgroup)
    exact hw.not_group hd G hG (hw.tie_eq hd' hd).1
  refine ⟨htop, ?_⟩
  rcases hit.top e he htop with ⟨k, hd'⟩ | hpairs
  · obtain ⟨M, hM, hid, hown⟩ := hit.placed
    rw [(hw.tie_eq hd' hd).1] at hown
    exact ⟨s, far, hid ▸ hw.hosts_of_declares hM hown hd, hd⟩
  · exact hpairs

/-- The paired fields of a package are those of its model. -/
theorem Packed.pairs (hw : Wired n t) {p : Package} (hp : Packed t p) {F : Field}
    (hF : F ∈ p.schema.fields) {far : FarEnd} (hfar : F.farEnd? = some far) :
    Pairing.Mates t.schemas F.id far.field ∧ t.Pairs p.model.id F.id ∧
      t.Pairs far.model far.field := by
  have hd : t.Declares p.schema.id F.id (some far) := hfar ▸ Wired.declares_of_mem hp.schema hF
  obtain ⟨-, hfarHosts, back, hback, -, -⟩ := hw.mated hd
  have hhosts := hw.hosts_of_declares hp.model hp.own hd
  exact ⟨mates_iff.mpr ⟨_, far, hd, rfl⟩, ⟨_, far, hhosts, hd⟩, ⟨_, back, hfarHosts, hback⟩⟩

end Tables

namespace Write

open Tables Pairing

variable {n m : Nat} {t u : Tables} {p : Package} {old : Option Item} {it : Item}
  {values : List ItemField} {o : Operator}

/-- The paired fields of a snapshot are those of its model. -/
theorem Snapshot.pairs (hw : Wired n t) (h : Snapshot n t p old it values) {F : Field}
    (hF : F ∈ p.schema.fields) {far : FarEnd} (hfar : F.farEnd? = some far) :
    Mates t.schemas F.id far.field ∧ t.Pairs it.model F.id ∧ t.Pairs far.model far.field := by
  rw [← h.model]
  exact h.packed.pairs hw hF hfar

/-- **After a write** the item is as it was written, and every other item trails
itself. -/
theorem puts_after (hs : Sound n t) (hw : Wired n t) (h : Snapshot n t p old it values)
    (hputs : Puts o p old it n t m u) :
    latestItem u it.id = some it ∧
      (∀ z, z ≠ it.id → ∀ Z, latestItem u z = some Z →
        ∃ Y, latestItem t z = some Y ∧ Y.Trails (t.Pairs Y.model) Z) ∧
      (∀ z, (latestItem t z).isSome → (latestItem u z).isSome) ∧
      ∃ L edits, PutInto (latestItem t) it L ∧
        p.schema.referenceFields.foldlM (repairField L (targetSchema p) it old) [] = .ok edits ∧
        current L edits it.id = some it ∧
        edges (latestItem u) = edges (current L edits) := by
  obtain ⟨L, edits, hL, hrepairs, hoverlay, -⟩ := hputs.overlay hs
  have htidy : Edits.Tidy (fun z f => ∀ Y, latestItem t z = some Y → t.Pairs Y.model f) L it.id
      edits := by
    refine Edits.Tidy.nil.repairs ?_ hrepairs
    intro F hF g hg y hy hchanged Y hY
    obtain ⟨hF, -⟩ := Schema.mem_referenceFields.mp hF
    obtain ⟨far, hfar, rfl⟩ := Field.farEnd?_of_corresponding? hg
    obtain ⟨-, Y', hY', hmodel⟩ := h.partner hw hF hfar hy hchanged
    obtain rfl := Option.some.inj (hY.symm.trans hY')
    rw [hmodel]
    exact (h.pairs hw hF hfar).2.2
  refine ⟨by rw [self_overlay hoverlay htidy, hL.self], ?_, ?_, L, edits, hL, hrepairs,
    by rw [htidy.current_self, hL.self], edges_overlay hoverlay⟩
  · intro z hz Z hZ
    obtain ⟨Y, hY, hshadows⟩ := shadows_overlay hoverlay htidy hZ
    obtain ⟨X, hX, hsame⟩ := hL.back z hz Y hY
    exact ⟨X, hX, hsame.trails.trans (hshadows.mono fun f hf => hf X hX)⟩
  · intro z hz
    exact isSome_overlay hoverlay (hL.forth z hz)

/-- Before and after a write an item is of one origin. -/
theorem origin_after (hs : Sound n t) (hw : Wired n t) (h : Snapshot n t p old it values)
    (hputs : Puts o p old it n t m u) {z : ItemId} {Y Z : Item} (hY : latestItem t z = some Y)
    (hZ : latestItem u z = some Z) : Z.origin = Y.origin := by
  obtain ⟨hself, htrails, -⟩ := puts_after hs hw h hputs
  by_cases hz : z = it.id
  · subst hz
    obtain rfl := Option.some.inj (hself.symm.trans hZ)
    exact h.origin Y (h.stored.symm.trans hY)
  · obtain ⟨Y', hY', htrails⟩ := htrails z hz Z hZ
    obtain rfl := Option.some.inj (hY.symm.trans hY')
    exact htrails.origin

/-- Writes leave the catalog as it is. -/
theorem Puts.sameCatalog (h : Puts o p old it n t m u) : SameCatalog t u := by
  obtain ⟨its, hsaves⟩ := h.saves
  obtain ⟨hschemas, hmodels, hgroups⟩ := hsaves.catalog
  exact ⟨hschemas, hmodels, hgroups⟩

/-- **A write leaves items that suit the catalog.** -/
theorem suits_after (hs : Sound n t) (hw : Wired n t) (h : Snapshot n t p old it values)
    (hputs : Puts o p old it n t m u) (ht : ∀ z Z, latestItem t z = some Z → t.Suits Z) :
    ∀ z Z, latestItem u z = some Z → u.Suits Z := by
  obtain ⟨hself, htrails, -⟩ := puts_after hs hw h hputs
  intro z Z hZ
  refine hputs.sameCatalog.suits ?_
  by_cases hz : z = it.id
  · subst hz
    obtain rfl := Option.some.inj (hself.symm.trans hZ)
    exact h.suits
  · obtain ⟨Y, hY, htrails⟩ := htrails z hz Z hZ
    exact (ht z Y hY).trails htrails

/-! ## After a removal -/

/-- The items that are left shadow themselves, and hold nothing new. -/
theorem removes_after (hs : Sound n t) (h : Removes o p it n t m u) :
    (∀ z Z, latestItem u z = some Z → z ≠ it.id ∧ it.metadataItem ≠ some z ∧
      ∃ Y, latestItem t z = some Y ∧ Y.Shadows (fun _ => False) Z) ∧
      ∀ z, z ≠ it.id → it.metadataItem ≠ some z → (latestItem t z).isSome →
        (latestItem u z).isSome := by
  obtain ⟨L', edits, rfl, hoverlay, hremoved⟩ := h.latestItem_eq hs
  have htidy : Edits.Tidy (fun _ _ => False) (latestItem t) it.id
      (p.schema.referenceFields.foldl (detachField (latestItem t) it) []) :=
    Edits.Tidy.nil.detachments _
  constructor
  · intro z Z hZ
    rw [hremoved] at hZ
    split at hZ
    · cases hZ
    · rename_i hz
      rw [not_or] at hz
      exact ⟨hz.1, hz.2, shadows_overlay hoverlay htidy hZ⟩
  · intro z hz hmeta hsome
    rw [hremoved, if_neg (by rw [not_or]; exact ⟨hz, hmeta⟩)]
    exact isSome_overlay hoverlay hsome

theorem Removes.sameCatalog (h : Removes o p it n t m u) : SameCatalog t u := by
  obtain ⟨its, v, hsaves, rfl⟩ := h.saves
  obtain ⟨hschemas, hmodels, hgroups⟩ := hsaves.catalog
  cases it.metadataItem <;> exact ⟨hschemas, hmodels, hgroups⟩

end Write

end ContentStore
