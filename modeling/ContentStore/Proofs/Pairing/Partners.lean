import ContentStore.Proofs.Contents

/-!
# Partners of stored items

The edges between stored items are linked in every state that calls about items
reach, except that an item may hold one that is gone (`Tables.Partnered`).  How
it can come to that is said by a step: an item that goes while it is held is a
metadata item (`OnlyMetadataLost`).  Its own schema lacks the mirror, so when it
goes nobody is told, although it is a legal partner by its model.
-/

namespace ContentStore

open Tables Pairing Write

namespace Tables

/-- The item is stored and the field is an end of a pair for its model. -/
def Paired (t : Tables) (x : ItemId) (f : FieldId) : Prop :=
  ∃ it, latestItem t x = some it ∧ t.Pairs it.model f

theorem Paired.mates {t : Tables} {x : ItemId} {f : FieldId} (h : t.Paired x f) :
    ∃ g, Mates t.schemas f g := by
  obtain ⟨it, -, s, far, -, hd⟩ := h
  exact ⟨far.field, mates_iff.mpr ⟨s, far, hd, rfl⟩⟩

/-- The item follows the metadata schema of its model. -/
def IsMetadata (t : Tables) (it : Item) : Prop :=
  ∃ M ∈ t.models, M.id = it.model ∧ M.metadataSchema = some it.schema

/-- Pairs of stored items are linked, what is held in them was stored at some
time, and so was every linked metadata item. -/
structure Partnered (n : Nat) (t : Tables) : Prop where
  linked : Linked (Mates t.schemas) t.Paired (fun y => latestItem t y = none)
    (edges (latestItem t))
  given : ∀ {x f y}, t.Paired x f → edges (latestItem t) x f = some y → y.Given n
  metadata : ∀ x it, latestItem t x = some it → ∀ y, it.metadataItem = some y →
    y.Given n ∧ ∀ a, latestItem t y = some a → t.IsMetadata a

/-- What is held but not stored after a change was held before, and was not
stored either or was a metadata item. -/
def OnlyMetadataLost (t u : Tables) : Prop :=
  ∀ {x y f g}, Mates t.schemas f g → u.Paired x f → edges (latestItem u) x f = some y →
    latestItem u y = none → t.Paired x f ∧ edges (latestItem t) x f = some y ∧
      (latestItem t y = none ∨ ∃ a, latestItem t y = some a ∧ t.IsMetadata a)

variable {n m : Nat} {t u : Tables}

theorem partnered_of_empty (h : ∀ x, latestItem t x = none) : Partnered n t := by
  have hpaired : ∀ {x f}, ¬ t.Paired x f := by
    intro x f hex
    obtain ⟨it, hit, -⟩ := hex
    rw [h x] at hit
    cases hit
  constructor
  case linked => exact ⟨fun _ hx => (hpaired hx).elim, fun _ hx => (hpaired hx).elim⟩
  case given => exact fun hx => (hpaired hx).elim
  case metadata => exact fun x _ hit => nomatch (h x).symm.trans hit

theorem SameCatalog.isMetadata (h : SameCatalog t u) {a b : Item} (hab : b.origin = a.origin)
    (ha : t.IsMetadata a) : u.IsMetadata b := by
  obtain ⟨M, hM, hid, hschema⟩ := ha
  have hmodel : b.model = a.model := congrArg Origin.model hab
  have hschema' : b.schema = a.schema := congrArg Origin.schema hab
  exact ⟨M, h.models ▸ hM, hmodel ▸ hid, hschema' ▸ hschema⟩

end Tables

namespace Write

variable {n m : Nat} {t u : Tables} {p : Package} {old : Option Item} {it : Item}
  {values : List ItemField} {o : Operator} {L : ItemId → Option Item}

/-! ## After a write -/

namespace Snapshot

/-- What an item held before it was written. -/
theorem edges_stored (h : Snapshot n t p old it values) (f : FieldId) :
    edges (latestItem t) it.id f = held old f := by
  rw [edges, h.stored]
  rfl

/-- While all repairs are still to come, paired fields are read as they were
before the write. -/
theorem pending_eq (hw : Wired n t) (h : Snapshot n t p old it values) {f g : FieldId}
    (hfg : Mates t.schemas f g) : pending p.schema.referenceFields it old f = held old f := by
  unfold pending
  split
  · rfl
  · rename_i hf
    refine h.reference?_eq fun F hF hid => hf ?_
    obtain ⟨hmem, hg⟩ := mem_fields_of_mates hw.wellPaired h.packed.schema hfg hF hid
    rw [← hid]
    exact List.mem_map_of_mem (List.mem_filter.mpr ⟨hmem, by rw [Field.isTwoWay, hg]; rfl⟩)

section Puts

variable (hs : Sound n t) (hw : Wired n t) (h : Snapshot n t p old it values)
  (hputs : Puts o p old it n t m u)

include hs hw h hputs

/-- The written item has the paired fields of its model. -/
theorem paired_self {f : FieldId} : u.Paired it.id f ↔ t.Pairs it.model f := by
  have hself := (puts_after hs hw h hputs).1
  constructor
  · intro hex
    obtain ⟨Z, hZ, hpairs⟩ := hex
    obtain rfl := Option.some.inj (hself.symm.trans hZ)
    exact hputs.sameCatalog.pairs.mp hpairs
  · intro hpairs
    exact ⟨it, hself, hputs.sameCatalog.pairs.mpr hpairs⟩

/-- Other items have the paired fields that they had. -/
theorem paired_other {z : ItemId} {f : FieldId} (hz : z ≠ it.id) :
    u.Paired z f ↔ t.Paired z f := by
  obtain ⟨-, htrails, hforth, -⟩ := puts_after hs hw h hputs
  constructor
  · intro hex
    obtain ⟨Z, hZ, hpairs⟩ := hex
    obtain ⟨Y, hY, hYZ⟩ := htrails z hz Z hZ
    rw [hYZ.model] at hpairs
    exact ⟨Y, hY, hputs.sameCatalog.pairs.mp hpairs⟩
  · intro hex
    obtain ⟨Y, hY, hpairs⟩ := hex
    obtain ⟨Z, hZ⟩ := Option.isSome_iff_exists.mp (hforth z (by rw [hY]; rfl))
    obtain ⟨Y', hY', hYZ⟩ := htrails z hz Z hZ
    obtain rfl := Option.some.inj (hY.symm.trans hY')
    rw [← hYZ.model] at hpairs
    exact ⟨Z, hZ, hputs.sameCatalog.pairs.mpr hpairs⟩

/-- What was stored at some time and is stored no more does not come back. -/
theorem gone_after {y : ItemId} (hgiven : y.Given n)
    (hy : latestItem t y = none) : latestItem u y = none := by
  cases hZ : latestItem u y with
  | none => rfl
  | some Z =>
    by_cases hyit : y = it.id
    · obtain ⟨k, hk, hid⟩ := h.fresh (by rw [← h.stored, ← hyit, hy])
      exact (hgiven.ne_ofSerial hk (hyit.trans hid)).elim
    · obtain ⟨Y, hY, -⟩ := (puts_after hs hw h hputs).2.1 y hyit Z hZ
      rw [hy] at hY
      cases hY

/-- Where an edge after a write comes from: it was there before, or it points at
an item that is stored. -/
theorem edge_after {x y : ItemId} {f g : FieldId} (hfg : Mates t.schemas f g)
    (hx : u.Paired x f) (hxy : edges (latestItem u) x f = some y) :
    t.Paired x f ∧ edges (latestItem t) x f = some y ∨ (latestItem u y).isSome := by
  obtain ⟨hself, -, hforth, L, edits, hL, hrepairs, -, hedges⟩ := puts_after hs hw h hputs
  rw [hedges] at hxy
  rcases edges_of_repairs_fold hrepairs hxy with hxy | rfl
  · have hxy : edges L x f = some y := hxy
    by_cases hxit : x = it.id
    · subst hxit
      rw [edges_of_some hL.self] at hxy
      by_cases hheld : held old f = some y
      · -- the item was there, since it held something
        refine .inl ⟨?_, (h.edges_stored f).trans hheld⟩
        obtain ⟨b, hb, -⟩ := Option.bind_eq_some_iff.mp hheld
        have hmodel : it.model = b.model := congrArg Origin.model (h.origin b hb)
        exact ⟨b, h.stored.trans hb, hmodel ▸ (h.paired_self hs hw hputs).mp hx⟩
      · have hmem : ∃ F ∈ p.schema.fields, F.id = f := by
          by_contra hnone
          rw [not_exists] at hnone
          exact hheld ((h.reference?_eq fun F hF hid => hnone F ⟨hF, hid⟩).symm.trans hxy)
        obtain ⟨F, hF, rfl⟩ := hmem
        obtain ⟨-, hg⟩ := mem_fields_of_mates hw.wellPaired h.packed.schema hfg hF rfl
        obtain ⟨far, hfar, -⟩ := Field.farEnd?_of_corresponding? hg
        obtain ⟨-, Y, hY, -⟩ := h.partner hw hF hfar hxy hheld
        exact .inr (hforth y (by rw [hY]; rfl))
    · rw [hL.edges_eq hxit] at hxy
      exact .inl ⟨(h.paired_other hs hw hputs hxit).mp hx, hxy⟩
  · exact .inr (by rw [hself]; rfl)

/-- Read with the paired fields of the written item as they were before, stored
items are linked before any repair. -/
theorem linked_before (hP : Partnered n t) (hL : PutInto (latestItem t) it L) :
    Linked (Mates t.schemas) u.Paired (fun y => latestItem u y = none)
      ((edges (current L [])).withRow it.id (pending p.schema.referenceFields it old)) := by
  refine Linked.congr hw.wellPaired.mirrored_mates hP.linked ?_ ?_
  · intro x y f g hfg
    by_cases hx : x = it.id
    · subst hx
      rw [withRow_self, h.pending_eq hw hfg, ← h.edges_stored, h.paired_self hs hw hputs]
      refine and_congr_left fun hxy => ?_
      rw [h.edges_stored] at hxy
      obtain ⟨b, hb, -⟩ := Option.bind_eq_some_iff.mp hxy
      have hmodel : it.model = b.model := congrArg Origin.model (h.origin b hb)
      have hstored := h.stored.trans hb
      constructor
      · intro hpairs
        exact ⟨b, hstored, hmodel ▸ hpairs⟩
      · intro hex
        obtain ⟨b', hb', hpairs⟩ := hex
        obtain rfl := Option.some.inj (hstored.symm.trans hb')
        exact hmodel ▸ hpairs
    · have hcurrent : edges (current L []) x f = edges L x f := rfl
      rw [withRow_other hx, hcurrent, hL.edges_eq hx, h.paired_other hs hw hputs hx]
  · intro x y f g _ hx hxy hy
    exact h.gone_after hs hw hputs (hP.given hx hxy) hy

/-- **After a write** pairs of stored items are linked. -/
theorem linked_after (hP : Partnered n t) :
    Linked (Mates t.schemas) u.Paired (fun y => latestItem u y = none) (edges (latestItem u)) := by
  obtain ⟨hself, -, hforth, L, edits, hL, hrepairs, hcurrent, hedges⟩ := puts_after hs hw h hputs
  have hm := hw.wellPaired.mirrored_mates
  have hends : ∀ F ∈ p.schema.referenceFields, ∀ g, F.corresponding? = some g →
      Mates t.schemas F.id g ∧ u.Paired it.id F.id := by
    intro F hF g hg
    obtain ⟨hF, -⟩ := Schema.mem_referenceFields.mp hF
    obtain ⟨far, hfar, rfl⟩ := Field.farEnd?_of_corresponding? hg
    obtain ⟨hmates, hpairs, -⟩ := h.pairs hw hF hfar
    exact ⟨hmates, (h.paired_self hs hw hputs).mpr hpairs⟩
  have hnew : ∀ F ∈ p.schema.referenceFields, ∀ g, F.corresponding? = some g → ∀ y,
      it.reference? F.id = some y → held old F.id ≠ some y →
      y ≠ it.id ∧ ¬ latestItem u y = none ∧ u.Paired y g ∧ (L y).isSome := by
    intro F hF g hg y hy hchanged
    obtain ⟨hF, -⟩ := Schema.mem_referenceFields.mp hF
    obtain ⟨far, hfar, rfl⟩ := Field.farEnd?_of_corresponding? hg
    obtain ⟨hne, Y, hY, hmodel⟩ := h.partner hw hF hfar hy hchanged
    have hsome : (latestItem t y).isSome := by rw [hY]; rfl
    refine ⟨hne, ?_, (h.paired_other hs hw hputs hne).mpr ⟨Y, hY, ?_⟩, hL.forth y hsome⟩
    · obtain ⟨Z, hZ⟩ := Option.isSome_iff_exists.mp (hforth y hsome)
      rw [hZ]
      exact Option.some_ne_none Z
    · rw [hmodel]
      exact (h.pairs hw hF hfar).2.2
  have hafter := linked_repairs hm (by rw [hself]; exact Option.some_ne_none it)
    (hw.wellPaired.referenceFields_distinct h.packed.schema) hends hnew
    (h.linked_before hs hw hputs hP hL) hrepairs
  -- the row of the written item is its own by now
  have hrow : (edges (current L edits)).withRow it.id it.reference? = edges (current L edits) := by
    funext z f
    by_cases hz : z = it.id
    · subst hz
      rw [withRow_self, edges_of_some hcurrent]
    · exact withRow_other hz
  rwa [hrow, ← hedges] at hafter

/-- The linked metadata items are what they were. -/
theorem metadata_after (hP : Partnered n t) {z y : ItemId} {Z : Item}
    (hZ : latestItem u z = some Z) (hy : Z.metadataItem = some y) :
    y.Given n ∧ ∀ a, latestItem u y = some a → u.IsMetadata a := by
  obtain ⟨hself, htrails, -⟩ := puts_after hs hw h hputs
  have hbefore : y.Given n ∧ ∀ a, latestItem t y = some a →
      t.IsMetadata a := by
    by_cases hz : z = it.id
    · subst hz
      obtain rfl := Option.some.inj (hself.symm.trans hZ)
      rcases h.metadata y hy with ⟨b, hb, hby⟩ | ⟨a, ha, hmodel, hschema⟩
      · exact hP.metadata _ b (h.stored.trans hb) y hby
      · refine ⟨hs.item_given ha, fun a' ha' => ?_⟩
        obtain rfl := Option.some.inj (ha.symm.trans ha')
        exact ⟨p.model, h.packed.model, h.model.trans hmodel.symm, hschema⟩
    · obtain ⟨Y, hY, hYZ⟩ := htrails z hz Z hZ
      exact hP.metadata z Y hY y (hYZ.metadata.symm.trans hy)
  refine ⟨hbefore.1, fun a ha => ?_⟩
  cases hb : latestItem t y with
  | none => exact nomatch (h.gone_after hs hw hputs hbefore.1 hb).symm.trans ha
  | some b =>
    exact hputs.sameCatalog.isMetadata (origin_after hs hw h hputs hb ha) (hbefore.2 b hb)

end Puts

end Snapshot

/-- **A write leaves stored items partnered**, and nothing goes. -/
theorem partnered_puts (hs : Sound n t) (hw : Wired n t) (hP : Partnered n t)
    (h : Snapshot n t p old it values) (hputs : Puts o p old it n t m u) :
    Partnered m u ∧ OnlyMetadataLost t u := by
  obtain ⟨its, hsaves⟩ := hputs.saves
  have hlinked := h.linked_after hs hw hputs hP
  rw [← hputs.sameCatalog.schemas] at hlinked
  refine ⟨⟨hlinked, ?_, ?_⟩, ?_⟩
  · intro x f y hx hxy
    obtain ⟨g, hfg⟩ := hx.mates
    rw [hputs.sameCatalog.schemas] at hfg
    rcases h.edge_after hs hw hputs hfg hx hxy with ⟨hx', hxy'⟩ | hsome
    · exact (hP.given hx' hxy').mono hsaves.le
    · obtain ⟨Y, hY⟩ := Option.isSome_iff_exists.mp hsome
      exact (hsaves.sound hs).item_given hY
  · intro z Z hZ y hy
    obtain ⟨hgiven, hmetadata⟩ := h.metadata_after hs hw hputs hP hZ hy
    exact ⟨hgiven.mono hsaves.le, hmetadata⟩
  · intro x y f g hfg hx hxy hgone
    rcases h.edge_after hs hw hputs hfg hx hxy with ⟨hx', hxy'⟩ | hsome
    · refine ⟨hx', hxy', .inl ?_⟩
      cases hy : latestItem t y with
      | none => rfl
      | some Y =>
        have hsome := (puts_after hs hw h hputs).2.2.1 y (by rw [hy]; rfl)
        rw [hgone] at hsome
        cases hsome
    · rw [hgone] at hsome
      cases hsome

/-! ## After a removal -/

section Removes

variable (hs : Sound n t) (h : Removes o p it n t m u)

include hs h

/-- The items that are left hold what they held after the detachments. -/
theorem Removes.edges_eq {z : ItemId} {f : FieldId} (hz : u.Paired z f) :
    z ≠ it.id ∧ t.Paired z f ∧ edges (latestItem u) z f = edges (current (latestItem t)
      (p.schema.referenceFields.foldl (detachField (latestItem t) it) [])) z f := by
  obtain ⟨L', edits, rfl, hoverlay, hremoved⟩ := h.latestItem_eq hs
  obtain ⟨Z, hZ, hpairs⟩ := hz
  obtain ⟨hz, hmeta, Y, hY, htrails⟩ := (removes_after hs h).1 z Z hZ
  rw [htrails.model] at hpairs
  refine ⟨hz, ⟨Y, hY, h.sameCatalog.pairs.mp hpairs⟩, ?_⟩
  have hkept : latestItem u z = L' z := by
    rw [hremoved, if_neg (by rw [not_or]; exact ⟨hz, hmeta⟩)]
  rw [← edges_overlay hoverlay, edges, edges, hkept]

/-- A removal stores no item that was not stored. -/
theorem Removes.gone {y : ItemId} (hy : latestItem t y = none) : latestItem u y = none := by
  cases hZ : latestItem u y with
  | none => rfl
  | some Z =>
    obtain ⟨-, -, Y, hY, -⟩ := (removes_after hs h).1 y Z hZ
    exact nomatch hy.symm.trans hY

/-- An item that stays keeps its paired fields. -/
theorem Removes.paired {z : ItemId} {f : FieldId} (hz : t.Paired z f) :
    u.Paired z f ∨ latestItem u z = none := by
  obtain ⟨Y, hY, hpairs⟩ := hz
  cases hZ : latestItem u z with
  | none => exact .inr rfl
  | some Z =>
    obtain ⟨-, -, Y', hY', htrails⟩ := (removes_after hs h).1 z Z hZ
    obtain rfl := Option.some.inj (hY.symm.trans hY')
    rw [← htrails.model] at hpairs
    exact .inl ⟨Z, hZ, h.sameCatalog.pairs.mpr hpairs⟩

end Removes

section Detached

variable (hw : Wired n t) (hP : Partnered n t) (hp : Packed t p) (hmodel : p.model.id = it.model)
  (hschema : p.schema.id = it.schema) (hstored : latestItem t it.id = some it)

include hw hP hp hmodel hschema hstored

/-- After the detachments pairs are linked, and only a metadata item may still be
held. -/
theorem linked_detached : ∃ row, Linked (Mates t.schemas) t.Paired (fun y => latestItem t y = none)
      ((edges (current (latestItem t) (p.schema.referenceFields.foldl
        (detachField (latestItem t) it) []))).withRow it.id row) ∧
    ∀ {z f g}, Mates t.schemas f g → t.Paired z f → z ≠ it.id →
      edges (current (latestItem t) (p.schema.referenceFields.foldl
        (detachField (latestItem t) it) [])) z f = some it.id → t.IsMetadata it := by
  have hm := hw.wellPaired.mirrored_mates
  have hends : ∀ F ∈ p.schema.referenceFields, ∀ g, F.corresponding? = some g →
      Mates t.schemas F.id g ∧ t.Paired it.id F.id := by
    intro F hF g hg
    obtain ⟨hF, -⟩ := Schema.mem_referenceFields.mp hF
    obtain ⟨far, hfar, rfl⟩ := Field.farEnd?_of_corresponding? hg
    obtain ⟨hmates, hpairs, -⟩ := hp.pairs hw hF hfar
    exact ⟨hmates, it, hstored, hmodel ▸ hpairs⟩
  have hbefore : (edges (current (latestItem t) [])).withRow it.id it.reference? =
      edges (latestItem t) := by
    funext z f
    by_cases hz : z = it.id
    · subst hz
      rw [withRow_self, edges_of_some hstored]
    · exact withRow_other hz
  obtain ⟨row, hrow, -, hafter⟩ := linked_detachments hm
    (hw.wellPaired.referenceFields_distinct hp.schema) hends (fun _ _ => rfl)
    (by rw [hbefore]; exact hP.linked)
  refine ⟨row, hafter, ?_⟩
  intro z f g hfg hz hne hheld
  have hown := hp.own
  unfold Model.schemas at hown
  rcases List.mem_cons.mp hown with hmain | hmeta
  · -- an item of the main schema holds nothing any more, hence it is not held
    refine (hafter.not_held (by rw [hstored]; exact Option.some_ne_none it) hfg ?_ hz
      ((withRow_other hne).trans hheld)).elim
    intro hex
    obtain ⟨it', hit', s, far, hhosts, S, hS, rfl, htie⟩ := hex
    obtain rfl := Option.some.inj (hstored.symm.trans hit')
    have hid := hw.hosts_eq hhosts ⟨p.model, hp.model, hmodel, hmain.symm⟩
    obtain rfl := hw.schema_eq hS hp.schema hid
    obtain ⟨F, hF, rfl, -⟩ := Schema.mem_ties.mp htie
    obtain ⟨hmem, hg⟩ := mem_fields_of_mates hw.wellPaired hp.schema (hm.symm hfg) hF rfl
    rw [withRow_self]
    exact hrow F hmem (by rw [Field.isTwoWay, hg]; rfl)
  · exact ⟨p.model, hp.model, hmodel, by rw [← hschema]; simpa using hmeta⟩

end Detached

/-- **A removal leaves stored items partnered**, and loses metadata items only. -/
theorem partnered_removes (hs : Sound n t) (hw : Wired n t) (hP : Partnered n t)
    (hp : Packed t p) (hmodel : p.model.id = it.model) (hschema : p.schema.id = it.schema)
    (h : Removes o p it n t m u) : Partnered m u ∧ OnlyMetadataLost t u := by
  obtain ⟨row, hlinked, hheld⟩ := linked_detached hw hP hp hmodel hschema h.stored
  obtain ⟨hback, hforth⟩ := removes_after hs h
  have hcatalog := h.sameCatalog
  have hle : n ≤ m := by
    obtain ⟨its, v, hsaves, -⟩ := h.saves
    exact hsaves.le
  have hkept : ∀ {x f y}, u.Paired x f → edges (latestItem u) x f = some y →
      t.Paired x f ∧ edges (latestItem t) x f = some y := by
    intro x f y hx hxy
    obtain ⟨-, hx', heq⟩ := h.edges_eq hs hx
    exact ⟨hx', edges_of_detachments (heq.symm.trans hxy)⟩
  refine ⟨⟨?linked, ?given, ?metadata⟩, ?lost⟩
  case linked =>
    rw [hcatalog.schemas]
    refine hlinked.shrink ?_ (h.gone hs) fun _ _ _ hy => h.paired hs hy
    intro x f hx
    obtain ⟨hne, hx', heq⟩ := h.edges_eq hs hx
    exact ⟨hx', heq.trans (withRow_other hne).symm⟩
  case given =>
    intro x f y hx hxy
    obtain ⟨hx', hxy'⟩ := hkept hx hxy
    exact (hP.given hx' hxy').mono hle
  case metadata =>
    intro z Z hZ y hy
    obtain ⟨-, -, Y, hY, htrails⟩ := hback z Z hZ
    obtain ⟨hgiven, hmetadata⟩ := hP.metadata z Y hY y (htrails.metadata.symm.trans hy)
    refine ⟨hgiven.mono hle, fun a ha => ?_⟩
    obtain ⟨-, -, b, hb, htrails⟩ := hback y a ha
    exact hcatalog.isMetadata htrails.origin (hmetadata b hb)
  case lost =>
    intro x y f g hfg hx hxy hy
    obtain ⟨hx', hxy'⟩ := hkept hx hxy
    refine ⟨hx', hxy', ?_⟩
    cases hY : latestItem t y with
    | none => exact .inl rfl
    | some Y =>
      refine .inr ⟨Y, rfl, ?_⟩
      by_cases hyit : y = it.id
      · -- the removed item itself
        subst hyit
        obtain rfl := Option.some.inj (h.stored.symm.trans hY)
        obtain ⟨hne, -, heq⟩ := h.edges_eq hs hx
        exact hheld hfg hx' hne (heq.symm.trans hxy)
      · by_cases hmeta : it.metadataItem = some y
        · exact (hP.metadata _ it h.stored y hmeta).2 Y hY
        · have hsome := hforth y hyit hmeta (by rw [hY]; rfl)
          rw [hy] at hsome
          cases hsome

end Write

end ContentStore
