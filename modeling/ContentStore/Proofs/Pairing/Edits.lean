import ContentStore.Pairing
import ContentStore.Proofs.Items.Maps
import ContentStore.Proofs.Items.Trails
import ContentStore.Proofs.Pairing.Edges

/-!
# Edits as changes of edges

Edits that are not saved yet lie in front of the stored items.  What an edit
does is said twice.  To the edges it is a single change: clearing a field drops
an edge, pointing sets one (`edges_clearIf`, `edges_point`).  The edited item
trails the stored one, so the items to be saved are the stored ones with other
values in paired fields, each once (`Edits.Tidy`).
-/

namespace ContentStore

namespace Pairing

variable {L : ItemId → Option Item} {edits : Edits}

/-- The edges that items hold at top level. -/
def edges (L : ItemId → Option Item) : Edges := fun x f => (L x).bind fun it => it.reference? f

/-- A stored item holds what it refers to. -/
theorem edges_of_some {x : ItemId} {it : Item} (h : L x = some it) (f : FieldId) :
    edges L x f = it.reference? f := by
  rw [edges, h]
  rfl

/-- An item that is not there holds nothing. -/
theorem edges_of_none {x : ItemId} (h : L x = none) (f : FieldId) : edges L x f = none := by
  rw [edges, h]
  rfl

/-! ## Recording an edit -/

/-- An edit recorded is found; the others stay. -/
theorem lookup_record (edits : Edits) (id : ItemId) (it : Item) (z : ItemId) :
    (record edits id it).lookup z = if z = id then some it else edits.lookup z :=
  lookup_upsert edits id it z

/-- An item that was edited is the edited one now, and the others are as before. -/
theorem current_record (edits : Edits) (id : ItemId) (it : Item) (z : ItemId) :
    current L (record edits id it) z = if z = id then some it else current L edits z := by
  unfold current
  rw [lookup_record]
  by_cases hz : z = id <;> simp [hz]

/-- Clearing a field that holds `y` drops the edge to `y`. -/
theorem edges_clearIf (edits : Edits) (id : ItemId) (f : FieldId) (y : ItemId) :
    edges (current L (clearIf L edits id f y)) = (edges (current L edits)).drop id f y := by
  unfold clearIf Edges.drop
  cases hc : current L edits id with
  | none => simp [edges_of_none hc]
  | some it =>
    rw [edges_of_some hc]
    dsimp only
    by_cases hf : it.reference? f = some y
    · obtain ⟨it', hclear, -, href⟩ := Item.reference?_clear? hf
      rw [if_pos hf, if_pos hf, hclear]
      funext z g
      by_cases hz : z = id
      · subst hz
        simp [edges, current_record, href, Edges.set, hc]
      · simp [edges, current_record, Edges.set, hz]
    · rw [if_neg hf, if_neg hf]

/-- Pointing a field of a stored item sets its edge. -/
theorem edges_point {id : ItemId} {it : Item} (hc : current L edits id = some it) (f : Field)
    (y : ItemId) :
    edges (current L (point L edits id f y)) =
      (edges (current L edits)).set id f.id (some y) := by
  unfold point
  rw [hc]
  dsimp only
  split
  · rename_i href
    funext z g
    by_cases hz : z = id ∧ g = f.id
    · obtain ⟨rfl, rfl⟩ := hz
      rw [Edges.set_self, edges_of_some hc, href]
    · rw [Edges.set_other _ _ hz]
  · funext z g
    by_cases hz : z = id
    · subst hz
      simp only [edges, current_record, if_pos, Option.bind_some, Edges.set, true_and, hc]
      unfold Item.reference?
      rw [Item.field?_update]
      by_cases hg : g = f.id
      · simp [hg, valueAt?, referenceValue, ItemField.slot, Values.single, Values.first?,
          Value.reference?]
      · have hne : ¬ f.id = g := fun h => hg h.symm
        simp [hg, hne, valueAt?, referenceValue, ItemField.slot]
    · simp [edges, current_record, Edges.set, hz]

/-- Pointing leaves the other edges as they are. -/
theorem edges_point_other {id z : ItemId} {f : Field} {g : FieldId}
    (h : ¬ (z = id ∧ g = f.id)) (y : ItemId) :
    edges (current L (point L edits id f y)) z g = edges (current L edits) z g := by
  cases hc : current L edits id with
  | none => rw [point, hc]
  | some it => rw [edges_point hc, Edges.set_other _ _ h]

/-! ## Items to be saved -/

/-- Edits of stored items other than `x`, each once. -/
structure Edits.Tidy (paired : ItemId → FieldId → Prop) (L : ItemId → Option Item) (x : ItemId)
    (edits : Edits) : Prop where
  once : (edits.map Prod.fst).Nodup
  trails : ∀ e ∈ edits, e.1 ≠ x ∧ ∃ old, L e.1 = some old ∧ old.Shadows (paired e.1) e.2

namespace Edits.Tidy

variable {paired : ItemId → FieldId → Prop} {x : ItemId}

/-- Without edits all is tidy. -/
theorem nil : Edits.Tidy paired L x [] := ⟨List.nodup_nil, fun _ he => (List.not_mem_nil he).elim⟩

/-- An item has been edited just if an edit of it is found. -/
theorem mem_keys_iff (edits : Edits) (id : ItemId) :
    id ∈ edits.map Prod.fst ↔ (edits.lookup id).isSome := by
  induction edits with
  | nil => simp
  | cons e es ih =>
    obtain ⟨k, o⟩ := e
    rw [List.map_cons, List.mem_cons, lookup_cons, ih]
    by_cases hk : id = k <;> simp [hk]

/-- An edited item keeps its place among the edits, and a new one comes last. -/
theorem keys_record (edits : Edits) (id : ItemId) (it : Item) :
    (record edits id it).map Prod.fst =
      if (edits.lookup id).isSome then edits.map Prod.fst else edits.map Prod.fst ++ [id] := by
  unfold record
  split
  · rename_i h
    clear h
    induction edits with
    | nil => rfl
    | cons e es ih =>
      unfold updateFirst
      split
      · rename_i he
        simpa using (beq_iff_eq.mp he).symm
      · rw [List.map_cons, List.map_cons, ih]
  · rw [List.map_append]
    rfl

/-- An item with the edits so far still trails the stored one. -/
theorem current (h : Edits.Tidy paired L x edits) {id : ItemId} {it : Item}
    (hc : Pairing.current L edits id = some it) :
    ∃ old, L id = some old ∧ old.Shadows (paired id) it := by
  unfold Pairing.current at hc
  cases hl : edits.lookup id with
  | none =>
    rw [hl, Option.none_or] at hc
    exact ⟨it, hc, .refl it⟩
  | some o =>
    rw [hl, Option.some_or] at hc
    cases hc
    exact (h.trails _ (mem_of_lookup hl)).2

/-- Repairs leave the written item itself alone. -/
theorem current_self (h : Edits.Tidy paired L x edits) : Pairing.current L edits x = L x := by
  have hx : edits.lookup x = none := by
    cases hl : edits.lookup x with
    | none => rfl
    | some o => exact ((h.trails _ (mem_of_lookup hl)).1 rfl).elim
  rw [Pairing.current, hx, Option.none_or]

/-- A stored item other than the written one may be edited, in fields that are paired. -/
theorem record (h : Edits.Tidy paired L x edits) {id : ItemId} {it old : Item} (hx : id ≠ x)
    (hold : L id = some old) (ht : old.Shadows (paired id) it) :
    Edits.Tidy paired L x (record edits id it) where
  once := by
    rw [keys_record]
    split
    · exact h.once
    · rename_i hnew
      rw [← mem_keys_iff] at hnew
      rw [List.nodup_append]
      refine ⟨h.once, by simp, ?_⟩
      intro a ha b hb
      rw [List.mem_singleton.mp hb]
      intro heq
      subst heq
      exact hnew ha
  trails := by
    intro e he
    unfold Pairing.record at he
    split at he
    · rcases mem_updateFirst he with he | ⟨_, _, _, rfl⟩
      · exact h.trails e he
      · exact ⟨hx, old, hold, ht⟩
    · rcases List.mem_append.mp he with he | he
      · exact h.trails e he
      · rw [List.mem_singleton.mp he]
        exact ⟨hx, old, hold, ht⟩

/-- It may let go of something. -/
theorem clearIf (h : Edits.Tidy paired L x edits) {id : ItemId} (f : FieldId) (hx : id ≠ x)
    (y : ItemId) : Edits.Tidy paired L x (clearIf L edits id f y) := by
  unfold Pairing.clearIf
  cases hc : Pairing.current L edits id with
  | none => exact h
  | some it =>
    obtain ⟨old, hold, ht⟩ := h.current hc
    dsimp only
    split
    · cases hclear : it.clear? f with
      | none => exact h
      | some it' => exact h.record hx hold (ht.trans (Item.shadows_clear? hclear))
    · exact h

/-- It may be pointed at something in a paired field. -/
theorem point (h : Edits.Tidy paired L x edits) {id : ItemId} {f : Field} (hx : id ≠ x)
    (hf : paired id f.id) (y : ItemId) : Edits.Tidy paired L x (point L edits id f y) := by
  unfold Pairing.point
  cases hc : Pairing.current L edits id with
  | none => exact h
  | some it =>
    obtain ⟨old, hold, ht⟩ := h.current hc
    dsimp only
    split
    · exact h
    · refine h.record hx hold (ht.trans (Item.shadows_update hf rfl fun v hv => ⟨y, ?_⟩))
      exact List.mem_singleton.mp hv

/-- Edited items keep their ids. -/
theorem id_eq (h : Edits.Tidy paired L x edits) (hL : Keyed L) {e : ItemId × Item}
    (he : e ∈ edits) : e.2.id = e.1 := by
  obtain ⟨-, old, hold, ht⟩ := h.trails e he
  exact ht.id.trans (hL _ _ hold)

/-- The edits stand under the ids of the edited items. -/
theorem map_id (h : Edits.Tidy paired L x edits) (hL : Keyed L) :
    (edits.map Prod.snd).map Item.id = edits.map Prod.fst := by
  rw [List.map_map]
  exact List.map_congr_left fun e he => h.id_eq hL he

/-- Saving the edited items, each with a stamp of some kind, leaves them in the
place of the stored ones. -/
theorem putAll_eq (h : Edits.Tidy paired L x edits) (hL : Keyed L)
    {stamp : Item → Item} (hstamp : ∀ it, (stamp it).id = it.id) (z : ItemId) :
    putAll L ((edits.map Prod.snd).map stamp) z = ((edits.lookup z).map stamp).or (L z) := by
  have hid : ∀ e ∈ edits, (stamp e.2).id = e.1 :=
    fun e he => (hstamp e.2).trans (h.id_eq hL he)
  have hids : (((edits.map Prod.snd).map stamp).map Item.id) = edits.map Prod.fst := by
    rw [List.map_map, List.map_map]
    exact List.map_congr_left hid
  cases hl : edits.lookup z with
  | none =>
    have hz : z ∉ edits.map Prod.fst := by
      rw [mem_keys_iff, hl]
      simp
    refine putAll_other fun it hit heq => hz ?_
    rw [← hids, ← heq]
    exact List.mem_map_of_mem hit
  | some it =>
    have hmem := mem_of_lookup hl
    have hz : (stamp it).id = z := hid _ hmem
    rw [← hz]
    refine putAll_of_mem (hids ▸ h.once) ?_
    exact List.mem_map_of_mem (List.mem_map_of_mem hmem)

end Edits.Tidy

end Pairing

end ContentStore
