import ContentStore.Proofs.Pairing.Repairs

/-!
# Whom repairs touch

Repairs edit only items that have to do with a paired field of the written item:
the partner that it held, the partner that it holds now, and the item that held
the latter before (`keys_of_repairs`).  Before a removal only those are edited
whom the item holds (`keys_of_detachments`).
-/

namespace ContentStore.Pairing

variable {L : ItemId → Option Item} {target : Field → Option Schema} {it : Item}
  {old : Option Item} {edits edits' : Edits} {z : ItemId}

/-- An item has to do with a paired field of another one: it was the partner, it
is the partner, or it held the partner. -/
def Involved (L : ItemId → Option Item) (it : Item) (old : Option Item) (F : Field) (z : ItemId) :
    Prop :=
  ∃ g, F.corresponding? = some g ∧ (held old F.id = some z ∨ it.reference? F.id = some z ∨
    ∃ b, b ≠ it.id ∧ it.reference? F.id = some b ∧ edges L b g = some z)

theorem keys_record_subset {id : ItemId} {a : Item} (hz : z ∈ (record edits id a).map Prod.fst) :
    z ∈ edits.map Prod.fst ∨ z = id := by
  rw [Edits.Tidy.keys_record] at hz
  split at hz
  · exact .inl hz
  · rcases List.mem_append.mp hz with hz | hz
    · exact .inl hz
    · exact .inr (List.mem_singleton.mp hz)

theorem keys_clearIf {id y : ItemId} {f : FieldId}
    (hz : z ∈ (clearIf L edits id f y).map Prod.fst) : z ∈ edits.map Prod.fst ∨ z = id := by
  unfold clearIf at hz
  split at hz
  · exact .inl hz
  · split at hz
    · split at hz
      · exact keys_record_subset hz
      · exact .inl hz
    · exact .inl hz

theorem keys_point {id y : ItemId} {f : Field} (hz : z ∈ (point L edits id f y).map Prod.fst) :
    z ∈ edits.map Prod.fst ∨ z = id := by
  unfold point at hz
  split at hz
  · exact .inl hz
  · split at hz
    · exact .inl hz
    · exact keys_record_subset hz

/-- Leaving a partner touches this partner, at most. -/
theorem keys_leave {x : ItemId} {g : FieldId} {b : Option ItemId}
    (hz : z ∈ (leave L edits x g b).map Prod.fst) : z ∈ edits.map Prod.fst ∨ b = some z := by
  unfold leave at hz
  split at hz
  · split at hz
    · exact .inl hz
    · rcases keys_clearIf hz with hz | rfl
      · exact .inl hz
      · exact .inr rfl
  · exact .inl hz

/-- The release of a partner touches whom it held. -/
theorem keys_release {x b : ItemId} {f g : FieldId}
    (hz : z ∈ (release L edits x f g b).map Prod.fst) :
    z ∈ edits.map Prod.fst ∨ z ≠ x ∧ edges (current L edits) b g = some z := by
  unfold release at hz
  cases hc : (current L edits b).bind fun o => o.reference? g with
  | none =>
    rw [hc] at hz
    exact .inl hz
  | some c =>
    rw [hc] at hz
    dsimp only at hz
    split at hz
    · exact .inl hz
    · rename_i hcx
      rcases keys_clearIf hz with hz | rfl
      · exact .inl hz
      · exact .inr ⟨hcx, hc⟩

/-- The repair of one field edits those who have to do with it, as long as the
edits so far let items hold nothing new but the written item. -/
theorem keys_of_repairField {F : Field}
    (hedits : ∀ b g c, edges (current L edits) b g = some c → edges L b g = some c ∨ c = it.id)
    (h : repairField L target it old edits F = .ok edits') (hz : z ∈ edits'.map Prod.fst) :
    z ∈ edits.map Prod.fst ∨ Involved L it old F z := by
  unfold repairField at h
  cases hg : F.corresponding? with
  | none =>
    rw [hg] at h
    cases h
    exact .inl hz
  | some g =>
    rw [hg] at h
    dsimp only at h
    have hleave : z ∈ (leave L edits it.id g (held old F.id)).map Prod.fst →
        z ∈ edits.map Prod.fst ∨ Involved L it old F z := by
      intro hz
      rcases keys_leave hz with hz | hb
      · exact .inl hz
      · exact .inr ⟨g, hg, .inl hb⟩
    split at h
    · cases h
      exact .inl hz
    · split at h
      · cases h
        exact hleave hz
      · rename_i b hb
        split at h
        · cases h
          exact hleave hz
        · rename_i hbx
          obtain ⟨mirror, rfl, rfl⟩ := eq_point_of_join h
          rcases keys_point hz with hz | rfl
          · rcases keys_release hz with hz | ⟨hzx, hheld⟩
            · exact hleave hz
            · rcases hedits _ _ _ (edges_of_leave hheld) with hheld | rfl
              · exact .inr ⟨_, hg, .inr (.inr ⟨b, hbx, hb, hheld⟩)⟩
              · exact (hzx rfl).elim
          · exact .inr ⟨_, hg, .inr (.inl hb)⟩

/-- **Repairs touch only the items involved.** -/
theorem keys_of_repairs_fold {fields : List Field}
    (hedits : ∀ b g c, edges (current L edits) b g = some c → edges L b g = some c ∨ c = it.id)
    (h : fields.foldlM (repairField L target it old) edits = .ok edits')
    (hz : z ∈ edits'.map Prod.fst) :
    z ∈ edits.map Prod.fst ∨ ∃ F ∈ fields, Involved L it old F z := by
  induction fields generalizing edits with
  | nil =>
    cases h
    exact .inl hz
  | cons F fields ih =>
    rw [List.foldlM_cons] at h
    cases hfirst : repairField L target it old edits F with
    | error e =>
      rw [hfirst] at h
      cases h
    | ok edits₁ =>
      rw [hfirst] at h
      have hedits₁ : ∀ b g c, edges (current L edits₁) b g = some c →
          edges L b g = some c ∨ c = it.id := by
        intro b g c hc
        rcases edges_of_repairField hfirst hc with hc | hc
        · exact hedits b g c hc
        · exact .inr hc
      rcases ih hedits₁ h with hz | ⟨G, hG, hinvolved⟩
      · rcases keys_of_repairField hedits hfirst hz with hz | hinvolved
        · exact .inl hz
        · exact .inr ⟨F, List.mem_cons_self, hinvolved⟩
      · exact .inr ⟨G, List.mem_cons_of_mem _ hG, hinvolved⟩

/-- **Repairs edit those who have to do with a paired field.** -/
theorem keys_of_repairs {fields : List Field}
    (h : fields.foldlM (repairField L target it old) [] = .ok edits)
    (hz : z ∈ edits.map Prod.fst) : ∃ F ∈ fields, Involved L it old F z := by
  have hnone : current L [] = L := by
    funext x
    rfl
  rcases keys_of_repairs_fold (by rw [hnone]; exact fun _ _ _ hc => .inl hc) h hz with hz | hex
  · exact (List.not_mem_nil hz).elim
  · exact hex

/-- **Before a removal those are edited whom the item holds.** -/
theorem keys_of_detachments {fields : List Field}
    (hz : z ∈ (fields.foldl (detachField L it) edits).map Prod.fst) :
    z ∈ edits.map Prod.fst ∨ ∃ F ∈ fields, ∃ g, F.corresponding? = some g ∧
      it.reference? F.id = some z := by
  induction fields generalizing edits with
  | nil => exact .inl hz
  | cons F fields ih =>
    rw [List.foldl_cons] at hz
    rcases ih hz with hz | ⟨G, hG, hheld⟩
    · unfold detachField at hz
      cases hg : F.corresponding? with
      | none =>
        rw [hg] at hz
        exact .inl hz
      | some g =>
        rw [hg] at hz
        rcases keys_leave hz with hz | hb
        · exact .inl hz
        · exact .inr ⟨F, List.mem_cons_self, g, hg, hb⟩
    · exact .inr ⟨G, List.mem_cons_of_mem _ hG, hheld⟩

end ContentStore.Pairing
