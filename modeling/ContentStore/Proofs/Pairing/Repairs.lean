import ContentStore.Proofs.Pairing.Edits

/-!
# Repairs relink

The repairs after a write go over the paired fields of the written item, one by
one.  The item is written already, so its row in the graph is new at once, while
its partners follow field by field.  Between two fields the graph is therefore
linked only if the fields still to come are read as they were before the write
(`pending`).  Read so, the repair of one field is one `relink`
(`edges_repairField`), and the whole run keeps the graph linked
(`linked_repairs`).

Before an item is removed its partners let go of it, likewise field by field,
and afterwards nobody holds it any more (`linked_detachments`).
-/

namespace ContentStore.Pairing

/-- The graph with the row of one item exchanged. -/
def Edges.withRow (E : Edges) (x : ItemId) (row : FieldId → Option ItemId) : Edges := fun z f =>
  if z = x then row f else E z f

/-- A row with one field exchanged. -/
def rowSet (row : FieldId → Option ItemId) (f : FieldId) (y : Option ItemId) :
    FieldId → Option ItemId := fun h => if h = f then y else row h

section Rows

variable {E : Edges} {x y z : ItemId} {row : FieldId → Option ItemId} {f g : FieldId}

/-- The row that was put in is the row of the item. -/
theorem withRow_self (E : Edges) (x : ItemId) (row : FieldId → Option ItemId) (f : FieldId) :
    E.withRow x row x f = row f := if_pos rfl

/-- The rows of other items stay. -/
theorem withRow_other (h : z ≠ x) : E.withRow x row z f = E z f := if_neg h

/-- A field of the item is set in its row. -/
theorem set_withRow_self (y : Option ItemId) :
    (E.withRow x row).set x f y = E.withRow x (rowSet row f y) := by
  funext z h
  by_cases hz : z = x <;> simp [Edges.set, Edges.withRow, rowSet, hz]

/-- A field of another item is set beside it. -/
theorem set_withRow_other (hz : z ≠ x) (y : Option ItemId) :
    (E.withRow x row).set z f y = (E.set z f y).withRow x row := by
  funext w h
  by_cases hw : w = x
  · subst hw
    have hne : w ≠ z := fun h => hz h.symm
    simp [Edges.set, Edges.withRow, hne]
  · simp [Edges.set, Edges.withRow, hw]

/-- Letting another item go of something does not concern the row, either. -/
theorem drop_withRow_other (hz : z ≠ x) :
    (E.withRow x row).drop z f y = (E.drop z f y).withRow x row := by
  unfold Edges.drop
  rw [withRow_other hz]
  split
  · exact set_withRow_other hz none
  · rfl

/-- Who does not hold an item need not let go of it. -/
theorem drop_eq_self (h : E x f ≠ some y) : E.drop x f y = E := if_neg h

/-- A field that holds what it should is left. -/
theorem set_eq_self {a : Option ItemId} (h : E x f = a) : E.set x f a = E := by
  funext z g
  by_cases hz : z = x ∧ g = f
  · obtain ⟨rfl, rfl⟩ := hz
    rw [Edges.set_self, h]
  · exact Edges.set_other E a hz

/-- Of two changes of one field the second counts. -/
theorem set_set (a b : Option ItemId) : (E.set x f a).set x f b = E.set x f b := by
  funext z g
  by_cases hz : z = x ∧ g = f <;> simp [Edges.set, hz]

/-- Fields of different items are set in any order. -/
theorem set_comm (hxy : x ≠ y) (a b : Option ItemId) :
    (E.set x f a).set y g b = (E.set y g b).set x f a := by
  funext z h
  by_cases hz : z = x
  · subst hz
    simp [Edges.set, hxy]
  · simp [Edges.set, hz]

end Rows

variable {L : ItemId → Option Item} {edits edits' : Edits} {it : Item} {old : Option Item}
  {target : Field → Option Schema}

/-- The partner that an item held, if there was one. -/
def held (old : Option Item) (f : FieldId) : Option ItemId := old.bind fun o => o.reference? f

/-- A stored item is there with its edits, too. -/
theorem isSome_current {z : ItemId} (edits : Edits) (h : (L z).isSome) :
    ∃ o, current L edits z = some o := by
  unfold current
  rw [← Option.isSome_iff_exists, Option.isSome_or, h, Bool.or_true]

/-! ## One field -/

/-- Leaving the former partner parts the two. -/
theorem edges_leave {x : ItemId} {row : FieldId → Option ItemId} {f : FieldId} (g : FieldId)
    (hself : row f ≠ some x) :
    (edges (current L (leave L edits x g (row f)))).withRow x (rowSet row f none) =
      ((edges (current L edits)).withRow x row).part x f g := by
  unfold Edges.part
  rw [withRow_self]
  cases hb : row f with
  | none =>
    rw [← set_withRow_self]
    exact set_eq_self ((withRow_self _ x row f).trans hb)
  | some b =>
    have hbx : b ≠ x := fun h => hself (hb.trans (congrArg some h))
    simp only [leave, if_neg hbx]
    rw [edges_clearIf, drop_withRow_other hbx, set_withRow_self]

/-- The new partner's former partner lets go of it. -/
def release (L : ItemId → Option Item) (edits : Edits) (x : ItemId) (f g : FieldId) (b : ItemId) :
    Edits :=
  match (current L edits b).bind fun o => o.reference? g with
  | some c => if c = x then edits else clearIf L edits c f b
  | none => edits

/-- Joining is releasing, and then pointing with the mirror. -/
theorem eq_point_of_join {x b : ItemId} {F : Field} {g : FieldId}
    (h : join L target edits x F g b = .ok edits') :
    ∃ mirror : Field, mirror.id = g ∧
      edits' = point L (release L edits x F.id g b) b mirror x := by
  unfold join at h
  dsimp only at h
  split at h
  · rename_i mirror hmirror
    obtain ⟨s, -, hs⟩ := Option.bind_eq_some_iff.mp hmirror
    cases h
    exact ⟨mirror, by simpa using List.find?_some hs, rfl⟩
  · cases h

/-- Joining a stored partner parts it from its former one and joins the two. -/
theorem edges_join (row : FieldId → Option ItemId) {x b : ItemId} {F : Field} {g : FieldId}
    (hbx : b ≠ x) (hb : (L b).isSome) (hrow : row F.id = none)
    (h : join L target edits x F g b = .ok edits') :
    (edges (current L edits')).withRow x (rowSet row F.id (some b)) =
      ((((edges (current L edits)).withRow x row).part b g F.id).set x F.id (some b)).set b g
        (some x) := by
  have hxb : x ≠ b := fun h => hbx h.symm
  obtain ⟨mirror, rfl, rfl⟩ := eq_point_of_join h
  obtain ⟨o, ho⟩ := isSome_current (release L edits x F.id mirror.id b) hb
  rw [edges_point ho, ← set_withRow_other hbx, ← set_withRow_self]
  -- the former partner of the new one
  have hheld : ((current L edits b).bind fun o => o.reference? mirror.id) =
      ((edges (current L edits)).withRow x row) b mirror.id := by
    rw [withRow_other hbx]
    rfl
  unfold release
  rw [hheld]
  unfold Edges.part
  cases hc : ((edges (current L edits)).withRow x row) b mirror.id with
  | none => rfl
  | some c =>
    dsimp only
    rw [set_comm hbx, set_comm hxb, set_set]
    by_cases hcx : c = x
    · rw [if_pos hcx, hcx, drop_eq_self]
      · rw [set_comm hxb]
      · rw [withRow_self, hrow]
        simp
    · rw [if_neg hcx, edges_clearIf, drop_withRow_other hcx, set_comm hxb]

/-- **The repair of one field moves one end of an edge.** -/
theorem edges_repairField {F : Field} {g : FieldId} {row : FieldId → Option ItemId}
    (hF : F.corresponding? = some g) (hrow : row F.id = held old F.id)
    (hself : held old F.id ≠ some it.id)
    (hnew : ∀ y, it.reference? F.id = some y → held old F.id ≠ some y → y ≠ it.id ∧ (L y).isSome)
    (h : repairField L target it old edits F = .ok edits') :
    (edges (current L edits')).withRow it.id (rowSet row F.id (it.reference? F.id)) =
      ((edges (current L edits)).withRow it.id row).relink it.id F.id g (it.reference? F.id) := by
  unfold repairField at h
  rw [hF] at h
  dsimp only at h
  unfold Edges.relink
  rw [withRow_self, hrow]
  change (if held old F.id = it.reference? F.id then _ else _) = _ at h
  split at h
  · rename_i hsame
    cases h
    rw [if_pos hsame, ← set_withRow_self, ← hsame, ← hrow]
    exact set_eq_self (withRow_self ..)
  · rename_i hchanged
    rw [if_neg hchanged]
    have hpart : (edges (current L (leave L edits it.id g (held old F.id)))).withRow it.id
        (rowSet row F.id none) =
          ((edges (current L edits)).withRow it.id row).part it.id F.id g := by
      rw [← hrow] at hself ⊢
      exact edges_leave g hself
    cases hafter : it.reference? F.id with
    | none =>
      rw [hafter] at h
      cases h
      exact hpart
    | some b =>
      obtain ⟨hbx, hb⟩ := hnew b hafter (hafter ▸ hchanged)
      rw [hafter] at h
      simp only [if_neg hbx] at h
      have hjoin := edges_join (rowSet row F.id none) hbx hb (if_pos rfl) h
      refine Eq.trans ?_ (hjoin.trans (by rw [← hpart]; rfl))
      congr 1
      funext k
      by_cases hk : k = F.id <;> simp [rowSet, hk]

/-! ## All fields -/

/-- The row of a written item while some fields are still to come: these are
read as they were before the write. -/
def pending (fields : List Field) (it : Item) (old : Option Item) : FieldId → Option ItemId :=
  fun f => if f ∈ (fields.filter Field.isTwoWay).map Field.id then held old f else it.reference? f

/-- While a two-way field is still to come, it reads as it was held before the write. -/
theorem pending_head {F : Field} {g : FieldId} (hF : F.corresponding? = some g)
    (fields : List Field) (it : Item) (old : Option Item) :
    pending (F :: fields) it old F.id = held old F.id := by
  have htwo : F.isTwoWay = true := by rw [Field.isTwoWay, hF]; rfl
  rw [pending, if_pos]
  simp [htwo]

/-- A field of its own id is settled by giving it the value after the write. -/
theorem pending_tail {F : Field} {g : FieldId} (hF : F.corresponding? = some g)
    {fields : List Field} (hid : F.id ∉ fields.map Field.id) (it : Item) (old : Option Item) :
    pending fields it old = rowSet (pending (F :: fields) it old) F.id (it.reference? F.id) := by
  have htwo : F.isTwoWay = true := by rw [Field.isTwoWay, hF]; rfl
  funext h
  unfold pending rowSet
  by_cases hh : h = F.id
  · subst hh
    rw [if_pos rfl, if_neg]
    exact fun hmem => hid ((List.filter_sublist.map _).subset hmem)
  · rw [if_neg hh, List.filter_cons_of_pos htwo, List.map_cons]
    simp only [List.mem_cons, hh, false_or]

/-- A one-way field waits for nothing. -/
theorem pending_oneWay {F : Field} (hF : F.corresponding? = none) (fields : List Field)
    (it : Item) (old : Option Item) : pending (F :: fields) it old = pending fields it old := by
  have hone : F.isTwoWay = false := by rw [Field.isTwoWay, hF]; rfl
  unfold pending
  rw [List.filter_cons_of_neg (by simp [hone])]

section Linked

variable {mirror : FieldId → FieldId → Prop} {own : ItemId → FieldId → Prop}
  {gone : ItemId → Prop} {fields : List Field}

/-- **Repairing all paired fields of a written item keeps the graph linked.** -/
theorem linked_repairs (hm : Mirrored mirror) (hx : ¬ gone it.id)
    (hids : (fields.map Field.id).Nodup)
    (hends : ∀ F ∈ fields, ∀ g, F.corresponding? = some g → mirror F.id g ∧ own it.id F.id)
    (hnew : ∀ F ∈ fields, ∀ g, F.corresponding? = some g → ∀ y, it.reference? F.id = some y →
      held old F.id ≠ some y → y ≠ it.id ∧ ¬ gone y ∧ own y g ∧ (L y).isSome)
    (hE : Linked mirror own gone ((edges (current L edits)).withRow it.id (pending fields it old)))
    (h : fields.foldlM (repairField L target it old) edits = .ok edits') :
    Linked mirror own gone ((edges (current L edits')).withRow it.id it.reference?) := by
  induction fields generalizing edits with
  | nil =>
    cases h
    exact hE
  | cons F fields ih =>
    rw [List.map_cons, List.nodup_cons] at hids
    rw [List.foldlM_cons] at h
    cases hfirst : repairField L target it old edits F with
    | error e =>
      rw [hfirst] at h
      cases h
    | ok edits₁ =>
      rw [hfirst] at h
      refine ih hids.2 (fun G hG => hends G (List.mem_cons_of_mem _ hG))
        (fun G hG => hnew G (List.mem_cons_of_mem _ hG)) ?_ h
      cases hF : F.corresponding? with
      | none =>
        unfold repairField at hfirst
        rw [hF] at hfirst
        cases hfirst
        rwa [pending_oneWay hF] at hE
      | some g =>
        obtain ⟨hfg, hown⟩ := hends F List.mem_cons_self g hF
        have hnewF := hnew F List.mem_cons_self g hF
        have hrow := pending_head hF fields it old
        have hself : held old F.id ≠ some it.id := by
          intro hheld
          refine (hE.back hfg hown (y := it.id) ?_).1 rfl
          rw [withRow_self, hrow, hheld]
        have hrelink := edges_repairField hF hrow hself
          (fun y hy hchanged => ⟨(hnewF y hy hchanged).1, (hnewF y hy hchanged).2.2.2⟩) hfirst
        rw [pending_tail hF hids.1, hrelink]
        by_cases hsame : held old F.id = it.reference? F.id
        · unfold Edges.relink
          rwa [if_pos (by rw [withRow_self, hrow, hsame])]
        · refine hE.relink hm hfg hown hx fun y hy => ?_
          obtain ⟨hyx, hgone, hy', -⟩ := hnewF y hy fun hheld => hsame (hheld.trans hy.symm)
          exact ⟨hyx, hgone, hy'⟩

/-- The mirrors of the fields are found, so no repair fails. -/
theorem repairs_succeed
    (hmirror : ∀ F ∈ fields, ∀ g, F.corresponding? = some g →
      ∃ m, ((target F).bind fun s => s.field? g) = some m) (edits : Edits) :
    ∃ edits', fields.foldlM (repairField L target it old) edits = .ok edits' := by
  induction fields generalizing edits with
  | nil => exact ⟨edits, rfl⟩
  | cons F fields ih =>
    have hone : ∃ edits₁, repairField L target it old edits F = .ok edits₁ := by
      unfold repairField
      cases hF : F.corresponding? with
      | none => exact ⟨_, rfl⟩
      | some g =>
        obtain ⟨m, hm⟩ := hmirror F List.mem_cons_self g hF
        dsimp only
        split
        · exact ⟨_, rfl⟩
        · split
          · exact ⟨_, rfl⟩
          · split
            · exact ⟨_, rfl⟩
            · unfold join
              rw [hm]
              exact ⟨_, rfl⟩
    obtain ⟨edits₁, hedits₁⟩ := hone
    obtain ⟨edits', hedits'⟩ :=
      ih (fun G hG => hmirror G (List.mem_cons_of_mem _ hG)) edits₁
    exact ⟨edits', by rw [List.foldlM_cons, hedits₁]; exact hedits'⟩

end Linked

/-! ## Where edges come from -/

section Origin

variable {z w : ItemId} {g : FieldId}

/-- Emptying a field makes nobody hold anything new. -/
theorem edges_of_clearIf {id y : ItemId} {f : FieldId}
    (h : edges (current L (clearIf L edits id f y)) z g = some w) :
    edges (current L edits) z g = some w := by
  rw [edges_clearIf] at h
  exact (Edges.eq_of_drop h).1

/-- Nor does letting go of a former partner. -/
theorem edges_of_leave {x : ItemId} {f : FieldId} {b : Option ItemId}
    (h : edges (current L (leave L edits x f b)) z g = some w) :
    edges (current L edits) z g = some w := by
  unfold leave at h
  split at h
  · split at h
    · exact h
    · exact edges_of_clearIf h
  · exact h

/-- Nor does the release of the new one. -/
theorem edges_of_release {x b : ItemId} {f k : FieldId}
    (h : edges (current L (release L edits x f k b)) z g = some w) :
    edges (current L edits) z g = some w := by
  unfold release at h
  split at h
  · split at h
    · exact h
    · exact edges_of_clearIf h
  · exact h

/-- Pointing a field at an item makes this the only thing newly held. -/
theorem edges_of_point {id y : ItemId} {f : Field}
    (h : edges (current L (point L edits id f y)) z g = some w) :
    edges (current L edits) z g = some w ∨ w = y := by
  cases hc : current L edits id with
  | none =>
    unfold point at h
    rw [hc] at h
    exact .inl h
  | some o =>
    rw [edges_point hc, Edges.set] at h
    split at h
    · exact .inr (Option.some.inj h).symm
    · exact .inl h

/-- A repair lets items hold the written item, and nothing else that is new. -/
theorem edges_of_repairField {F : Field}
    (h : repairField L target it old edits F = .ok edits')
    (hw : edges (current L edits') z g = some w) :
    edges (current L edits) z g = some w ∨ w = it.id := by
  unfold repairField at h
  split at h
  · cases h
    exact .inl hw
  · dsimp only at h
    split at h
    · cases h
      exact .inl hw
    · split at h
      · cases h
        exact .inl (edges_of_leave hw)
      · split at h
        · cases h
          exact .inl (edges_of_leave hw)
        · obtain ⟨mirror, -, rfl⟩ := eq_point_of_join h
          rcases edges_of_point hw with hw | rfl
          · exact .inl (edges_of_leave (edges_of_release hw))
          · exact .inr rfl

/-- All that repairs make anybody hold is the written item. -/
theorem edges_of_repairs_fold {fields : List Field}
    (h : fields.foldlM (repairField L target it old) edits = .ok edits')
    (hw : edges (current L edits') z g = some w) :
    edges (current L edits) z g = some w ∨ w = it.id := by
  induction fields generalizing edits with
  | nil =>
    cases h
    exact .inl hw
  | cons F fields ih =>
    rw [List.foldlM_cons] at h
    cases hfirst : repairField L target it old edits F with
    | error e =>
      rw [hfirst] at h
      cases h
    | ok edits₁ =>
      rw [hfirst] at h
      rcases ih h with hw | hw
      · exact edges_of_repairField hfirst hw
      · exact .inr hw

end Origin

/-! ## Items to be saved after repairs -/

/-- The followers of a write are the items that its repairs edit. -/
theorem edits_of_repairs {s : Schema} {followers : List Item}
    (h : repairs L s target it old = .ok followers) :
    ∃ edits, s.referenceFields.foldlM (repairField L target it old) [] = .ok edits ∧
      followers = edits.map Prod.snd := by
  unfold repairs at h
  cases hfold : s.referenceFields.foldlM (repairField L target it old) [] with
  | error e =>
    rw [hfold] at h
    cases h
  | ok edits =>
    rw [hfold] at h
    exact ⟨edits, rfl, (Except.ok.inj h).symm⟩

namespace Edits.Tidy

variable {paired : ItemId → FieldId → Prop} {x : ItemId}

/-- Edits stay tidy when a former partner lets go. -/
theorem leave (h : Edits.Tidy paired L x edits) (g : FieldId) (b : Option ItemId) :
    Edits.Tidy paired L x (leave L edits x g b) := by
  unfold Pairing.leave
  cases b with
  | none => exact h
  | some b =>
    dsimp only
    split
    · exact h
    · rename_i hbx
      exact h.clearIf g hbx x

/-- Edits stay tidy when a new partner joins, which is another item. -/
theorem join (h : Edits.Tidy paired L x edits) {F : Field} {g : FieldId} {b : ItemId}
    (hg : paired b g) (hbx : b ≠ x) (hjoin : join L target edits x F g b = .ok edits') :
    Edits.Tidy paired L x edits' := by
  obtain ⟨mirror, rfl, rfl⟩ := eq_point_of_join hjoin
  have hrelease : Edits.Tidy paired L x (release L edits x F.id mirror.id b) := by
    unfold release
    split
    · split
      · exact h
      · rename_i hcx
        exact h.clearIf F.id hcx b
    · exact h
  exact hrelease.point hbx hg x

/-- Edits stay tidy through the repair of a field whose partners are paired with it. -/
theorem repairField (h : Edits.Tidy paired L it.id edits) {F : Field}
    (hF : ∀ g, F.corresponding? = some g → ∀ y, it.reference? F.id = some y →
      held old F.id ≠ some y → paired y g)
    (hrepair : repairField L target it old edits F = .ok edits') :
    Edits.Tidy paired L it.id edits' := by
  unfold Pairing.repairField at hrepair
  cases hg : F.corresponding? with
  | none =>
    rw [hg] at hrepair
    cases hrepair
    exact h
  | some g =>
    rw [hg] at hrepair
    dsimp only at hrepair
    split at hrepair
    · cases hrepair
      exact h
    · rename_i hchanged
      have hleave := h.leave g (old.bind fun o => o.reference? F.id)
      split at hrepair
      · cases hrepair
        exact hleave
      · rename_i b hb
        split at hrepair
        · cases hrepair
          exact hleave
        · rename_i hbx
          exact hleave.join (hF g hg b hb fun hheld => hchanged (hheld.trans hb.symm)) hbx hrepair

/-- What is to be saved after the repairs of all fields are other stored items
with other partners, each once. -/
theorem repairs {fields : List Field} (h : Edits.Tidy paired L it.id edits)
    (hfields : ∀ F ∈ fields, ∀ g, F.corresponding? = some g → ∀ y, it.reference? F.id = some y →
      held old F.id ≠ some y → paired y g)
    (hrepairs : fields.foldlM (Pairing.repairField L target it old) edits = .ok edits') :
    Edits.Tidy paired L it.id edits' := by
  induction fields generalizing edits with
  | nil =>
    cases hrepairs
    exact h
  | cons F fields ih =>
    rw [List.foldlM_cons] at hrepairs
    cases hfirst : Pairing.repairField L target it old edits F with
    | error e =>
      rw [hfirst] at hrepairs
      cases hrepairs
    | ok edits₁ =>
      rw [hfirst] at hrepairs
      exact ih (h.repairField (hfields F List.mem_cons_self) hfirst)
        (fun G hG => hfields G (List.mem_cons_of_mem _ hG)) hrepairs

end Edits.Tidy

/-! ## Removing an item -/

/-- The partner of one field lets go of an item that is about to be removed. -/
def detachField (L : ItemId → Option Item) (it : Item) (edits : Edits) (field : Field) : Edits :=
  match field.corresponding? with
  | some corresponding => leave L edits it.id corresponding (it.reference? field.id)
  | none => edits

/-- Detachments take the reference fields one by one. -/
theorem detachments_eq (L : ItemId → Option Item) (s : Schema) (it : Item) :
    detachments L s it = (s.referenceFields.foldl (detachField L it) []).map Prod.snd := rfl

/-- Edits stay tidy when all partners of an item let go of it. -/
theorem Edits.Tidy.detachments {paired : ItemId → FieldId → Prop}
    (h : Edits.Tidy paired L it.id edits) (fields : List Field) :
    Edits.Tidy paired L it.id (fields.foldl (detachField L it) edits) := by
  induction fields generalizing edits with
  | nil => exact h
  | cons F fields ih =>
    refine ih ?_
    unfold detachField
    cases F.corresponding? with
    | none => exact h
    | some g => exact h.leave g _

/-- Detaching lets no item hold anything new. -/
theorem edges_of_detachments {fields : List Field} {z w : ItemId} {g : FieldId}
    (hw : edges (current L (fields.foldl (detachField L it) edits)) z g = some w) :
    edges (current L edits) z g = some w := by
  induction fields generalizing edits with
  | nil => exact hw
  | cons F fields ih =>
    have hfirst := ih hw
    unfold detachField at hfirst
    split at hfirst
    · exact edges_of_leave hfirst
    · exact hfirst

/-- **Detaching all paired fields of an item keeps the graph linked** if it is
read as holding nothing in them any more. -/
theorem linked_detachments {mirror : FieldId → FieldId → Prop} {own : ItemId → FieldId → Prop}
    {gone : ItemId → Prop} {fields : List Field} {row : FieldId → Option ItemId}
    (hm : Mirrored mirror) (hids : (fields.map Field.id).Nodup)
    (hends : ∀ F ∈ fields, ∀ g, F.corresponding? = some g → mirror F.id g ∧ own it.id F.id)
    (hrow : ∀ F ∈ fields, row F.id = it.reference? F.id)
    (hE : Linked mirror own gone ((edges (current L edits)).withRow it.id row)) :
    ∃ row', (∀ F ∈ fields, F.isTwoWay = true → row' F.id = none) ∧
      (∀ f, f ∉ fields.map Field.id → row' f = row f) ∧
      Linked mirror own gone
        ((edges (current L (fields.foldl (detachField L it) edits))).withRow it.id row') := by
  induction fields generalizing edits row with
  | nil => exact ⟨row, fun _ hF => (List.not_mem_nil hF).elim, fun _ _ => rfl, hE⟩
  | cons F fields ih =>
    rw [List.map_cons, List.nodup_cons] at hids
    have hne : ∀ G ∈ fields, G.id ≠ F.id := fun G hG h => hids.1 (h ▸ List.mem_map_of_mem hG)
    cases hF : F.corresponding? with
    | none =>
      have hone : F.isTwoWay = false := by rw [Field.isTwoWay, hF]; rfl
      have hskip : detachField L it edits F = edits := by rw [detachField, hF]
      obtain ⟨row', hnone, hrest, hlinked⟩ := ih hids.2
        (fun G hG => hends G (List.mem_cons_of_mem _ hG))
        (fun G hG => hrow G (List.mem_cons_of_mem _ hG)) hE
      refine ⟨row', fun G hG htwo => ?_, fun f hf => ?_, ?_⟩
      · rcases List.mem_cons.mp hG with rfl | hG
        · rw [hone] at htwo
          cases htwo
        · exact hnone G hG htwo
      · exact hrest f fun h => hf (List.mem_cons_of_mem _ h)
      · rwa [List.foldl_cons, hskip]
    | some g =>
      obtain ⟨hfg, hown⟩ := hends F List.mem_cons_self g hF
      have hrowF := hrow F List.mem_cons_self
      have hself : row F.id ≠ some it.id := by
        intro hheld
        exact (hE.back hfg hown ((withRow_self ..).trans hheld)).1 rfl
      have hfirst : detachField L it edits F = leave L edits it.id g (row F.id) := by
        rw [detachField, hF, hrowF]
      have hpart := hE.part hm hfg (x := it.id)
      rw [← edges_leave g hself, ← hfirst] at hpart
      obtain ⟨row', hnone, hrest, hlinked⟩ := ih hids.2
        (fun G hG => hends G (List.mem_cons_of_mem _ hG))
        (fun G hG => by
          rw [rowSet, if_neg (hne G hG)]
          exact hrow G (List.mem_cons_of_mem _ hG)) hpart
      refine ⟨row', fun G hG htwo => ?_, fun f hf => ?_, hlinked⟩
      · rcases List.mem_cons.mp hG with rfl | hG
        · rw [hrest _ hids.1, rowSet, if_pos rfl]
        · exact hnone G hG htwo
      · rw [List.map_cons, List.mem_cons, not_or] at hf
        rw [hrest f hf.2, rowSet, if_neg hf.1]

end ContentStore.Pairing
