import ContentStore.Proofs.Writes.Items

/-!
# Latest snapshots after a write

Seen through the latest snapshots alone, a write puts one item into the map and
lays the repaired partners over it (`Puts.overlay`).  So every other item trails
itself, and holds what it held after the repairs.  A removal lays the partners
that let go over the map and takes the item and its metadata item out
(`Removes.latestItem_eq`).
-/

namespace ContentStore.Write

open Tables Pairing

variable {o : Operator} {p : Package} {old : Option Item} {it : Item} {n m : Nat} {t u : Tables}

/-! ## Putting -/

/-- The map into which an item has just been put: other items differ in
bookkeeping only. -/
structure PutInto (L : ItemId → Option Item) (it : Item) (L' : ItemId → Option Item) : Prop where
  keyed : Keyed L'
  self : L' it.id = some it
  back : ∀ z, z ≠ it.id → ∀ Z, L' z = some Z → ∃ Y, L z = some Y ∧ Y.SameContent Z
  forth : ∀ z, (L z).isSome → (L' z).isSome

/-- Other items hold what they held before. -/
theorem PutInto.edges_eq {M : ItemId → Option Item} (hL : PutInto M it L) {z : ItemId}
    (hz : z ≠ it.id) (f : FieldId) : edges L z f = edges M z f := by
  cases hM : M z with
  | none =>
    rw [edges_of_none hM]
    cases hLz : L z with
    | none => exact edges_of_none hLz f
    | some Z =>
      obtain ⟨Y, hY, -⟩ := hL.back z hz Z hLz
      rw [hM] at hY
      cases hY
  | some Y =>
    obtain ⟨Z, hZ⟩ := Option.isSome_iff_exists.mp (hL.forth z (by rw [hM]; rfl))
    obtain ⟨Y', hY', hsame⟩ := hL.back z hz Z hZ
    obtain rfl := Option.some.inj (hM.symm.trans hY')
    rw [edges_of_some hZ, edges_of_some hM, hsame.reference?]

theorem keyed_latestItem (hs : Sound n t) : Keyed (latestItem t) :=
  fun _ _ h => hs.id_of_latestItem h

/-- Linked metadata items keep their content. -/
theorem putAll_links {L : ItemId → Option Item} {links : List Item} (hL : Keyed L)
    (hlinks : ∀ l ∈ links, ∃ a, L l.id = some a ∧ a.SameContent l) :
    Keyed (putAll L links) ∧
      (∀ z Z, putAll L links z = some Z → ∃ Y, L z = some Y ∧ Y.SameContent Z) ∧
      ∀ z, (L z).isSome → (putAll L links z).isSome := by
  have hgeneral : ∀ {M : ItemId → Option Item}, Keyed M →
      (∀ z Z, M z = some Z → ∃ Y, L z = some Y ∧ Y.SameContent Z) →
      (∀ z, (L z).isSome → (M z).isSome) →
      Keyed (putAll M links) ∧
        (∀ z Z, putAll M links z = some Z → ∃ Y, L z = some Y ∧ Y.SameContent Z) ∧
        ∀ z, (L z).isSome → (putAll M links z).isSome := by
    induction links with
    | nil => exact fun hM hback hforth => ⟨hM, hback, hforth⟩
    | cons l ls ih =>
      intro M hM hback hforth
      refine ih (fun l hl => hlinks l (List.mem_cons_of_mem _ hl)) (keyed_put hM l) ?_
        fun z hz => isSome_put l (hforth z hz)
      intro z Z hZ
      unfold put at hZ
      split at hZ
      · rename_i hz
        cases hZ
        obtain ⟨a, ha, hsame⟩ := hlinks l List.mem_cons_self
        exact ⟨a, by rw [hz, ha], hsame⟩
      · exact hback z Z hZ
  exact hgeneral hL (fun z Z hZ => ⟨Z, hZ, .refl Z⟩) fun _ h => h

/-- A stamp changes no content. -/
theorem sameContent_stamp (o : Operator) (a : Item) : a.SameContent (stamp o a) := ⟨rfl, rfl, rfl⟩

theorem id_stamp (o : Operator) (a : Item) : (stamp o a).id = a.id := rfl

/-- What is saved of tidy edits are the items edited. -/
theorem mem_keys_of_tidy {L : ItemId → Option Item} {paired : ItemId → FieldId → Prop} {x : ItemId}
    {edits : Edits} (h : Edits.Tidy paired L x edits) (hL : Keyed L) {a : Item}
    (ha : a ∈ (edits.map Prod.snd).map (stamp o)) : a.id ∈ edits.map Prod.fst := by
  obtain ⟨b, hb, rfl⟩ := List.mem_map.mp ha
  obtain ⟨e, he, rfl⟩ := List.mem_map.mp hb
  obtain ⟨-, Y, hY, htrails⟩ := h.trails e he
  have hid : e.2.id = e.1 := htrails.id.trans (hL _ _ hY)
  rw [id_stamp, hid]
  exact List.mem_map_of_mem he

/-- They are other items than the one written. -/
theorem ne_of_tidy {L : ItemId → Option Item} {paired : ItemId → FieldId → Prop} {x : ItemId}
    {edits : Edits} (h : Edits.Tidy paired L x edits) (hL : Keyed L) {a : Item}
    (ha : a ∈ (edits.map Prod.snd).map (stamp o)) : a.id ≠ x := by
  obtain ⟨e, he, heq⟩ := List.mem_map.mp (mem_keys_of_tidy h hL ha)
  rw [← heq]
  exact (h.trails e he).1

/-- **The partners of an item lie over the map into which it is put.**  No others
are saved, but for the item itself. -/
theorem Appends.overlay (h : Appends o p old it n t m u) (hs : Sound n t) :
    ∃ edits, Keyed (put (latestItem t) it) ∧
      p.schema.referenceFields.foldlM
        (repairField (put (latestItem t) it) (targetSchema p) it old) [] = .ok edits ∧
      (∀ z, latestItem u z = ((edits.lookup z).map (stamp o)).or (put (latestItem t) it z)) ∧
      ∀ z, t.Alters u z → z = it.id ∨ z ∈ edits.map Prod.fst := by
  obtain ⟨hput, hrepairs, hfollow⟩ := h
  rename_i n₁ t₁ edits
  have hs₁ := hput.sound hs
  have hL : latestItem t₁ = put (latestItem t) it := hput.latestItem hs
  have hkeyed := keyed_latestItem hs₁
  rw [hL] at hrepairs hkeyed
  have htidy : Edits.Tidy (fun _ _ => True) (put (latestItem t) it) it.id edits :=
    Edits.Tidy.nil.repairs (fun _ _ _ _ _ _ _ => trivial) hrepairs
  refine ⟨edits, hkeyed, hrepairs, fun z => ?_, fun z hz => ?_⟩
  · rw [hfollow.latestItem hs₁, hL]
    exact htidy.putAll_eq hkeyed (id_stamp o) z
  · obtain ⟨a, ha, rfl⟩ := (hput.append hfollow).alters hz
    rcases List.mem_append.mp ha with ha | ha
    · rw [List.mem_singleton.mp ha]
      exact .inl rfl
    · exact .inr (mem_keys_of_tidy htidy hkeyed ha)

/-- **The partners of a written item lie over the map into which it was put.**  No
others are saved, but for the item itself and a metadata item that is linked. -/
theorem Puts.overlay (h : Puts o p old it n t m u) (hs : Sound n t) :
    ∃ L edits, PutInto (latestItem t) it L ∧
      p.schema.referenceFields.foldlM (repairField L (targetSchema p) it old) [] = .ok edits ∧
      (∀ z, latestItem u z = ((edits.lookup z).map (stamp o)).or (L z)) ∧
      ∀ z, t.Alters u z → z = it.id ∨ (∃ l, Links t p it l ∧ l.id = z) ∨
        z ∈ edits.map Prod.fst := by
  obtain ⟨hlinks, hlinked, happends⟩ := h
  rename_i n₁ t₁ links
  obtain ⟨edits, hkeyed, hrepairs, hoverlay, halters⟩ := happends.overlay (hlinked.sound hs)
  have hL : latestItem t₁ = putAll (latestItem t) links := hlinked.latestItem hs
  obtain ⟨-, hback, hforth⟩ := putAll_links (keyed_latestItem hs) fun l hl => by
    obtain ⟨a, ha, hsame, -⟩ := hlinks l hl
    exact ⟨a, ha, hsame⟩
  rw [← hL] at hback hforth
  refine ⟨_, edits, ⟨hkeyed, put_self _ it, ?_, ?_⟩, hrepairs, hoverlay, fun z hz => ?_⟩
  · intro z hz Z hZ
    rw [put_other _ hz] at hZ
    exact hback z Z hZ
  · exact fun z hz => isSome_put it (hforth z hz)
  · rcases Alters.cases t₁ hz with hz | hz
    · obtain ⟨a, ha, rfl⟩ := hlinked.alters hz
      exact .inr (.inl ⟨a, hlinks a ha, rfl⟩)
    · exact (halters z hz).imp_right .inr

section Overlay

variable {L L' : ItemId → Option Item} {edits : Edits}

/-- What lies over a map, stamped, is what the edits make of it. -/
theorem overlay_eq (hL' : ∀ z, L' z = ((edits.lookup z).map (stamp o)).or (L z)) (z : ItemId) :
    (∀ Z, L' z = some Z →
      ∃ Y, current L edits z = some Y ∧ Y.SameContent Z ∧ Z.metadataOf = Y.metadataOf) ∧
      ((current L edits z).isSome → (L' z).isSome) := by
  rw [hL', current]
  cases edits.lookup z with
  | none =>
    rw [Option.map_none, Option.none_or]
    exact ⟨fun Z hZ => ⟨Z, hZ, .refl Z, rfl⟩, fun h => h⟩
  | some a =>
    rw [Option.map_some, Option.some_or, Option.some_or]
    refine ⟨fun Z hZ => ?_, fun _ => rfl⟩
    cases hZ
    exact ⟨a, rfl, sameContent_stamp o a, rfl⟩

/-- Stamping the edited items with their editor changes no edge. -/
theorem edges_overlay (hL' : ∀ z, L' z = ((edits.lookup z).map (stamp o)).or (L z)) :
    edges L' = edges (current L edits) := by
  funext z f
  obtain ⟨hback, hforth⟩ := overlay_eq hL' z
  cases hc : current L edits z with
  | none =>
    have hnone : L' z = none := by
      cases hz : L' z with
      | none => rfl
      | some Z =>
        obtain ⟨Y, hY, -⟩ := hback Z hz
        rw [hc] at hY
        cases hY
    rw [edges_of_none hnone, edges_of_none hc]
  | some Y =>
    obtain ⟨Z, hZ⟩ := Option.isSome_iff_exists.mp (hforth (by rw [hc]; rfl))
    obtain ⟨Y', hY', hsame, -⟩ := hback Z hZ
    rw [hc] at hY'
    cases hY'
    rw [edges_of_some hZ, edges_of_some hc, hsame.reference?]

/-- Every other item shadows itself. -/
theorem shadows_overlay {paired : ItemId → FieldId → Prop} {x : ItemId}
    (hL' : ∀ z, L' z = ((edits.lookup z).map (stamp o)).or (L z))
    (htidy : Edits.Tidy paired L x edits) {z : ItemId} {Z : Item} (hZ : L' z = some Z) :
    ∃ Y, L z = some Y ∧ Y.Shadows (paired z) Z := by
  obtain ⟨Y, hY, hsame, howner⟩ := (overlay_eq hL' z).1 Z hZ
  obtain ⟨Y', hY', hshadows⟩ := htidy.current hY
  exact ⟨Y', hY', hshadows.trans ⟨hsame.trails, howner⟩⟩

theorem isSome_overlay (hL' : ∀ z, L' z = ((edits.lookup z).map (stamp o)).or (L z)) {z : ItemId}
    (hz : (L z).isSome) : (L' z).isSome := by
  rw [hL', Option.isSome_or, hz, Bool.or_true]

theorem self_overlay {paired : ItemId → FieldId → Prop} {x : ItemId}
    (hL' : ∀ z, L' z = ((edits.lookup z).map (stamp o)).or (L z))
    (htidy : Edits.Tidy paired L x edits) : L' x = L x := by
  have hx : edits.lookup x = none := by
    cases hl : edits.lookup x with
    | none => rfl
    | some a => exact ((htidy.trails _ (mem_of_lookup hl)).1 rfl).elim
  rw [hL', hx, Option.map_none, Option.none_or]

end Overlay

/-- After a write the item is as it was written, and every other item trails
itself. -/
theorem Puts.back (h : Puts o p old it n t m u) (hs : Sound n t) :
    latestItem u it.id = some it ∧ ∀ z, z ≠ it.id → ∀ Z, latestItem u z = some Z →
      ∃ Y, latestItem t z = some Y ∧ Y.Trails (fun _ => True) Z := by
  obtain ⟨L, edits, hL, hrepairs, hoverlay, -⟩ := h.overlay hs
  have htidy : Edits.Tidy (fun _ _ => True) L it.id edits :=
    Edits.Tidy.nil.repairs (fun _ _ _ _ _ _ _ => trivial) hrepairs
  refine ⟨by rw [self_overlay hoverlay htidy, hL.self], fun z hz Z hZ => ?_⟩
  obtain ⟨Y, hY, hshadows⟩ := shadows_overlay hoverlay htidy hZ
  obtain ⟨X, hX, hsame⟩ := hL.back z hz Y hY
  exact ⟨X, hX, hsame.trails.trans hshadows.toTrails⟩

/-- After an item has been appended it is as it was written, and every other item
shadows itself. -/
theorem Appends.back (h : Appends o p old it n t m u) (hs : Sound n t) :
    latestItem u it.id = some it ∧
      (∀ z, z ≠ it.id → ∀ Z, latestItem u z = some Z →
        ∃ Y, latestItem t z = some Y ∧ Y.Shadows (fun _ => True) Z) ∧
      ∀ z, (latestItem t z).isSome → (latestItem u z).isSome := by
  obtain ⟨edits, -, hrepairs, hoverlay, -⟩ := h.overlay hs
  have htidy : Edits.Tidy (fun _ _ => True) (put (latestItem t) it) it.id edits :=
    Edits.Tidy.nil.repairs (fun _ _ _ _ _ _ _ => trivial) hrepairs
  refine ⟨by rw [self_overlay hoverlay htidy, put_self], fun z hz Z hZ => ?_,
    fun z hz => isSome_overlay hoverlay (isSome_put it hz)⟩
  obtain ⟨Y, hY, hshadows⟩ := shadows_overlay hoverlay htidy hZ
  rw [put_other _ hz] at hY
  exact ⟨Y, hY, hshadows⟩

/-! ## Removing -/

/-- A deleted item has no snapshot, and the others have theirs. -/
theorem latestItem_deleteItem (hs : Sound n t) (x z : ItemId) :
    latestItem (t.deleteItem x) z = if z = x then none else latestItem t z := by
  rw [(hs.deleteItem x).latestItem_eq, hs.latestItem_eq, versionsOf_deleteItem]
  split <;> rfl

/-- **A removal takes out the item and its metadata item**, after their partners
have been laid over the map. -/
theorem Removes.latestItem_eq (h : Removes o p it n t m u) (hs : Sound n t) :
    ∃ (L' : ItemId → Option Item) (edits : Edits),
      edits = p.schema.referenceFields.foldl (detachField (latestItem t) it) [] ∧
      (∀ z, L' z = ((edits.lookup z).map (stamp o)).or (latestItem t z)) ∧
      ∀ z, latestItem u z = if z = it.id ∨ it.metadataItem = some z then none else L' z := by
  cases h with
  | intro hstored hfollow =>
    rename_i v
    have hv := hfollow.sound hs
    refine ⟨latestItem v, _, rfl, fun z => ?_, fun z => ?_⟩
    · have htidy : Edits.Tidy (fun _ _ => True) (latestItem t) it.id
          (p.schema.referenceFields.foldl (detachField (latestItem t) it) []) :=
        Edits.Tidy.nil.detachments _
      rw [hfollow.latestItem hs]
      exact htidy.putAll_eq (keyed_latestItem hs) (id_stamp o) z
    · cases hm : it.metadataItem with
      | none =>
        rw [Option.elim_none, latestItem_deleteItem hv]
        by_cases hz : z = it.id <;> simp [hz]
      | some x =>
        rw [Option.elim_some, latestItem_deleteItem (hv.deleteItem x), latestItem_deleteItem hv]
        by_cases hz : z = it.id
        · simp [hz]
        · by_cases hzx : z = x
          · simp [hzx]
          · have hxz : x ≠ z := fun h => hzx h.symm
            simp [hz, hzx, hxz]

end ContentStore.Write
