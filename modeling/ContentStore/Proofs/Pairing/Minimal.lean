import ContentStore.Proofs.Effects
import ContentStore.Proofs.Items.Besides
import ContentStore.Proofs.Pairing.Consistency
import ContentStore.Proofs.Pairing.Touched

/-!
# Repairs are minimal

Only two-way fields whose partner changed are repaired (`changed`).  The repairs of one
field are a few edits (`Edit`): its former partner lets go, the former partner of the new
one does, and the new one points back.  Each of them changes one of the two ends of the
field in an item that has to do with it (`Mild.edit`), and none undoes what the repairs of
another field have brought about (`Edit.held_iff`).  So all fields stay settled, and
repairs made again find nothing to do (`repairs_minimal`).
-/

namespace ContentStore.Pairing

variable {L : ItemId → Option Item} {target : Field → Option Schema} {it : Item}
  {old : Option Item} {edits edits' : Edits} {F : Field} {g : FieldId}

/-! ## Fields that changed -/

/-- The item has another partner in a two-way field than before. -/
def Changed (it : Item) (old : Option Item) (F : Field) : Prop :=
  F.isTwoWay ∧ held old F.id ≠ it.reference? F.id

instance (it : Item) (old : Option Item) (F : Field) : Decidable (Changed it old F) :=
  inferInstanceAs (Decidable (_ ∧ _))

/-- The two-way fields of a schema in which the item has another partner than before. -/
def changed (S : Schema) (it : Item) (old : Option Item) : List Field :=
  S.referenceFields.filter fun F => Changed it old F

/-- The ids of fields and of those that correspond to them. -/
def ends (fields : List Field) : List FieldId :=
  fields.flatMap fun F => F.id :: F.corresponding?.toList

/-- The ends of a two-way field are its own id and that of its mirror. -/
theorem mem_ends {fields : List Field} (hF : F ∈ fields) (hg : F.corresponding? = some g) :
    F.id ∈ ends fields ∧ g ∈ ends fields := by
  refine ⟨List.mem_flatMap.mpr ⟨F, hF, List.mem_cons_self⟩, List.mem_flatMap.mpr ⟨F, hF, ?_⟩⟩
  rw [hg]
  exact List.mem_cons_of_mem _ (List.mem_singleton_self g)

/-- A changed field is a reference field in which the partner is another one. -/
theorem mem_changed {S : Schema} :
    F ∈ changed S it old ↔ F ∈ S.referenceFields ∧ Changed it old F := by
  rw [changed, List.mem_filter, decide_eq_true_iff]

/-- Only ends of two-way fields may be changed. -/
theorem ends_changed_subset (S : Schema) (it : Item) (old : Option Item) :
    ends (changed S it old) ⊆ ends (S.referenceFields.filter Field.isTwoWay) := by
  intro f hf
  obtain ⟨F, hF, hf⟩ := List.mem_flatMap.mp hf
  obtain ⟨hmem, htwo, -⟩ := mem_changed.mp hF
  exact List.mem_flatMap.mpr ⟨F, List.mem_filter.mpr ⟨hmem, htwo⟩, hf⟩

/-- The repair of a two-way field by cases: nothing where the partner has stayed, else the
former partner is left and the new one, if it is another item, is joined. -/
theorem repairField_eq (hg : F.corresponding? = some g) (edits : Edits) :
    repairField L target it old edits F =
      if held old F.id = it.reference? F.id then .ok edits
      else match it.reference? F.id with
        | none => .ok (leave L edits it.id g (held old F.id))
        | some b =>
          if b = it.id then .ok (leave L edits it.id g (held old F.id))
          else join L target (leave L edits it.id g (held old F.id)) it.id F g b := by
  unfold repairField
  rw [hg]
  rfl

/-- A field that has not changed is not repaired. -/
theorem repairField_of_not_changed (h : ¬ Changed it old F) :
    repairField L target it old edits F = .ok edits := by
  cases hg : F.corresponding? with
  | none =>
    unfold repairField
    rw [hg]
  | some g =>
    have htwo : F.isTwoWay := by rw [Field.isTwoWay, hg]; rfl
    have hsame : held old F.id = it.reference? F.id := by_contra fun hne => h ⟨htwo, hne⟩
    rw [repairField_eq hg, if_pos hsame]

/-- Other fields are passed over. -/
theorem foldlM_repairField (fields : List Field) (edits : Edits) :
    fields.foldlM (repairField L target it old) edits =
      (fields.filter fun F => Changed it old F).foldlM (repairField L target it old) edits := by
  induction fields generalizing edits with
  | nil => rfl
  | cons F fields ih =>
    by_cases hF : Changed it old F
    · rw [List.filter_cons, if_pos (decide_eq_true hF), List.foldlM_cons, List.foldlM_cons]
      exact bind_congr ih
    · rw [List.filter_cons, if_neg (by simpa using hF), List.foldlM_cons,
        repairField_of_not_changed hF]
      exact ih edits

/-- Where the mirror is found, joining a partner cannot fail. -/
theorem join_of_mirror {x b : ItemId} {mirror : Field}
    (h : ((target F).bind fun s => s.field? g) = some mirror) :
    join L target edits x F g b = .ok (point L (release L edits x F.id g b) b mirror x) := by
  unfold join
  dsimp only
  rw [h]
  rfl

/-- The former partner of a changed field lets go, and unless there is no new one, it
joins. -/
theorem repairField_of_changed (hg : F.corresponding? = some g)
    (hchanged : held old F.id ≠ it.reference? F.id)
    (h : repairField L target it old edits F = .ok edits') :
    (edits' = leave L edits it.id g (held old F.id) ∧
        ∀ b, it.reference? F.id = some b → b = it.id) ∨
      ∃ b mirror, it.reference? F.id = some b ∧ b ≠ it.id ∧ mirror.id = g ∧
        ((target F).bind fun s => s.field? g) = some mirror ∧
        edits' = point L (release L (leave L edits it.id g (held old F.id)) it.id F.id g b)
          b mirror it.id := by
  rw [repairField_eq hg, if_neg hchanged] at h
  cases hb : it.reference? F.id with
  | none =>
    rw [hb] at h
    cases h
    exact .inl ⟨rfl, fun _ hb => nomatch hb⟩
  | some b =>
    rw [hb] at h
    dsimp only at h
    by_cases hbx : b = it.id
    · rw [if_pos hbx] at h
      cases h
      exact .inl ⟨rfl, fun _ hb => (Option.some.inj hb) ▸ hbx⟩
    · rw [if_neg hbx] at h
      cases hm : (target F).bind fun s => s.field? g with
      | none =>
        unfold join at h
        dsimp only at h
        rw [hm] at h
        cases h
      | some mirror =>
        rw [join_of_mirror hm] at h
        obtain ⟨s, -, hs⟩ := Option.bind_eq_some_iff.mp hm
        exact .inr ⟨b, mirror, rfl, hbx, (Schema.mem_of_field? hs).2, rfl, (Except.ok.inj h).symm⟩

/-! ## Repairs as edits -/

/-- One edit in the repairs of a field and the field that corresponds to it. -/
inductive Edit (L : ItemId → Option Item) (it : Item) (old : Option Item) (F : Field)
    (g : FieldId) (edits : Edits) : Edits → Prop
  | leave {b : ItemId} (hb : held old F.id = some b) (hbx : b ≠ it.id) :
      Edit L it old F g edits (clearIf L edits b g it.id)
  | release {b c : ItemId} (hb : it.reference? F.id = some b) (hbx : b ≠ it.id) (hcx : c ≠ it.id)
      (hc : edges (current L edits) b g = some c) :
      Edit L it old F g edits (clearIf L edits c F.id b)
  | point {b : ItemId} {mirror : Field} (hb : it.reference? F.id = some b) (hbx : b ≠ it.id)
      (hmirror : mirror.id = g) : Edit L it old F g edits (point L edits b mirror it.id)

/-- Leaving the former partner is a run of edits of the field. -/
theorem edits_of_leave :
    Relation.ReflTransGen (Edit L it old F g) edits (leave L edits it.id g (held old F.id)) := by
  unfold leave
  cases hb : held old F.id with
  | none => exact .refl
  | some b =>
    dsimp only
    split
    · exact .refl
    · rename_i hbx
      exact .single (.leave hb hbx)

/-- So is the release of the new partner. -/
theorem edits_of_release {b : ItemId} (hb : it.reference? F.id = some b) (hbx : b ≠ it.id) :
    Relation.ReflTransGen (Edit L it old F g) edits (release L edits it.id F.id g b) := by
  unfold release
  split
  · rename_i hc
    split
    · exact .refl
    · rename_i hcx
      exact .single (.release hb hbx hcx hc)
  · exact .refl

/-- **The repairs of a field** are edits of its own. -/
theorem edits_of_repairField (hg : F.corresponding? = some g)
    (h : repairField L target it old edits F = .ok edits') :
    Relation.ReflTransGen (Edit L it old F g) edits edits' := by
  by_cases hchanged : Changed it old F
  · rcases repairField_of_changed hg hchanged.2 h with
      ⟨rfl, -⟩ | ⟨b, mirror, hb, hbx, hmirror, -, rfl⟩
    · exact edits_of_leave
    · exact (edits_of_leave.trans (edits_of_release hb hbx)).tail (.point hb hbx hmirror)
  · rw [repairField_of_not_changed hchanged] at h
    cases h
    exact .refl

/-! ## What edits leave alone -/

/-- Edited items are the stored ones besides some fields. -/
def Mild (ids : List FieldId) (L : ItemId → Option Item) (edits : Edits) : Prop :=
  ∀ z o, current L edits z = some o → ∃ before, L z = some before ∧
    o.besides ids = before.besides ids ∧ Referring ids o

namespace Mild

variable {ids : List FieldId}

/-- A mild edit may be recorded. -/
theorem record (h : Mild ids L edits) {z : ItemId} {o o' : Item} (ho : current L edits z = some o)
    (ho' : o'.besides ids = o.besides ids ∧ Referring ids o') : Mild ids L (record edits z o') := by
  intro w a ha
  rw [current_record] at ha
  split at ha
  · rename_i hw
    subst hw
    obtain rfl := Option.some.inj ha
    obtain ⟨before, hbefore, hbesides, -⟩ := h w o ho
    exact ⟨before, hbefore, ho'.1.trans hbesides, ho'.2⟩
  · exact h w a ha

/-- Emptying one of the fields is mild. -/
theorem clearIf (h : Mild ids L edits) {f : FieldId} (hf : f ∈ ids) (z y : ItemId) :
    Mild ids L (clearIf L edits z f y) := by
  unfold Pairing.clearIf
  split
  · exact h
  · rename_i o ho
    obtain ⟨-, -, -, hrefers⟩ := h z o ho
    split
    · split
      · rename_i hclear
        exact h.record ho (hrefers.clear? hf hclear)
      · exact h
    · exact h

/-- So is pointing one of them somewhere. -/
theorem point (h : Mild ids L edits) {mirror : Field} (hmirror : mirror.id ∈ ids) (z y : ItemId) :
    Mild ids L (point L edits z mirror y) := by
  unfold Pairing.point
  split
  · exact h
  · rename_i o ho
    obtain ⟨-, -, -, hrefers⟩ := h z o ho
    split
    · exact h
    · exact h.record ho (hrefers.update rfl hmirror fun v hv => List.mem_singleton.mp hv ▸ rfl)

/-- **Edits** change nothing besides the two ends of the field. -/
theorem edit (h : Mild ids L edits) (hF : F.id ∈ ids) (hg : g ∈ ids)
    (hedit : Edit L it old F g edits edits') : Mild ids L edits' := by
  cases hedit with
  | leave => exact h.clearIf hg _ _
  | release => exact h.clearIf hF _ _
  | point _ _ hmirror => exact h.point (hmirror ▸ hg) _ _

/-- **Repairs** change nothing besides the ends of the fields. -/
theorem repairs (h : Mild ids L edits) {fields : List Field}
    (hids : ∀ F ∈ fields, ∀ g, F.corresponding? = some g → F.id ∈ ids ∧ g ∈ ids)
    (hrepairs : fields.foldlM (repairField L target it old) edits = .ok edits') :
    Mild ids L edits' := by
  induction fields generalizing edits with
  | nil =>
    cases hrepairs
    exact h
  | cons F fields ih =>
    rw [List.foldlM_cons] at hrepairs
    obtain ⟨edits₁, hfirst, hrest⟩ := bind_eq_ok.mp hrepairs
    refine ih ?_ (fun G hG => hids G (List.mem_cons_of_mem _ hG)) hrest
    cases hg : F.corresponding? with
    | none =>
      have hnot : ¬ Changed it old F := by simp [Changed, Field.isTwoWay, hg]
      rw [repairField_of_not_changed hnot] at hfirst
      cases hfirst
      exact h
    | some g =>
      obtain ⟨hF, hgids⟩ := hids F List.mem_cons_self g hg
      have hpath := edits_of_repairField hg hfirst
      clear hfirst hrest ih
      induction hpath with
      | refl => exact h
      | tail _ hedit ih => exact ih.edit hF hgids hedit

end Mild

/-! ## Settled fields -/

/-- The former partner does not hold the item, and the new one does. -/
structure Settled (L : ItemId → Option Item) (target : Field → Option Schema) (it : Item)
    (old : Option Item) (F : Field) (g : FieldId) (edits : Edits) : Prop where
  left : ∀ b, held old F.id = some b → b ≠ it.id → edges (current L edits) b g ≠ some it.id
  joined : ∀ b, it.reference? F.id = some b → b ≠ it.id → (L b).isSome →
    edges (current L edits) b g = some it.id
  mirror : ∀ b, it.reference? F.id = some b → b ≠ it.id →
    ∃ mirror, ((target F).bind fun s => s.field? g) = some mirror

/-- **A repair settles its field.** -/
theorem settled_of_repairField (hg : F.corresponding? = some g)
    (hchanged : held old F.id ≠ it.reference? F.id)
    (h : repairField L target it old edits F = .ok edits') :
    Settled L target it old F g edits' := by
  have hleft : ∀ b, held old F.id = some b → b ≠ it.id →
      edges (current L (leave L edits it.id g (held old F.id))) b g ≠ some it.id := by
    intro b hb hbx hholds
    simp only [hb, leave, if_neg hbx] at hholds
    rw [edges_clearIf] at hholds
    exact (Edges.eq_of_drop hholds).2 ⟨rfl, rfl, rfl⟩
  rcases repairField_of_changed hg hchanged h with
    ⟨rfl, hnone⟩ | ⟨b, mirror, hb, hbx, rfl, hmirror, rfl⟩
  · exact ⟨hleft, fun b hb hbx => (hbx (hnone b hb)).elim, fun b hb hbx => (hbx (hnone b hb)).elim⟩
  · refine ⟨fun c hc hcx hholds => ?_, fun c hc _ hsome => ?_, fun c hc _ => ⟨mirror, hmirror⟩⟩
    · have hcb : ¬ (c = b ∧ mirror.id = mirror.id) := by
        rintro ⟨rfl, -⟩
        exact hchanged (hc.trans hb.symm)
      -- only the new partner points back, and it is not the former one
      rw [edges_point_other hcb] at hholds
      exact hleft c hc hcx (edges_of_release hholds)
    · obtain rfl := Option.some.inj (hb.symm.trans hc)
      obtain ⟨o, ho⟩ := isSome_current _ hsome
      rw [edges_point ho, Edges.set_self]

/-- **Edits for another field** do not change who holds the item. -/
theorem Edit.held_iff {k : FieldId} (h : Edit L it old F k edits edits') (hk : k ≠ g)
    (z : ItemId) : edges (current L edits') z g = some it.id ↔
      edges (current L edits) z g = some it.id := by
  cases h with
  | leave _ _ =>
    rw [edges_clearIf]
    exact ⟨fun h => (Edges.eq_of_drop h).1, fun h => Edges.drop_eq h fun heq => hk heq.2.1.symm⟩
  | release hb hbx hcx hc =>
    rw [edges_clearIf]
    exact ⟨fun h => (Edges.eq_of_drop h).1, fun h => Edges.drop_eq h fun heq => hbx heq.2.2.symm⟩
  | point _ _ hmirror => rw [edges_point_other fun heq => hk (hmirror ▸ heq.2.symm)]

/-- The repair of one field does not concern who holds the item in the mirror of another. -/
theorem held_iff_of_repairField (hg : F.corresponding? ≠ some g)
    (h : repairField L target it old edits F = .ok edits') (z : ItemId) :
    edges (current L edits') z g = some it.id ↔ edges (current L edits) z g = some it.id := by
  cases hk : F.corresponding? with
  | none =>
    have hnot : ¬ Changed it old F := by simp [Changed, Field.isTwoWay, hk]
    rw [repairField_of_not_changed hnot] at h
    cases h
    rfl
  | some k =>
    have hpath := edits_of_repairField hk h
    clear h
    induction hpath with
    | refl => rfl
    | tail _ hedit ih =>
      have hkg : k ≠ g := fun heq => hg (hk.trans (congrArg some heq))
      exact (hedit.held_iff hkg z).trans ih

/-- A field is settled by who holds the item in its mirror, and by nothing else. -/
theorem Settled.congr (h : Settled L target it old F g edits)
    (hsame : ∀ z, edges (current L edits') z g = some it.id ↔
      edges (current L edits) z g = some it.id) : Settled L target it old F g edits' where
  left := fun b hb hbx hholds => h.left b hb hbx ((hsame b).mp hholds)
  joined := fun b hb hbx hsome => (hsame b).mpr (h.joined b hb hbx hsome)
  mirror := h.mirror

/-- Nor do the repairs of any number of other fields concern it. -/
theorem held_iff_of_repairs {fields : List Field}
    (hg : ∀ F ∈ fields, F.corresponding? ≠ some g)
    (h : fields.foldlM (repairField L target it old) edits = .ok edits') (z : ItemId) :
    edges (current L edits') z g = some it.id ↔ edges (current L edits) z g = some it.id := by
  induction fields generalizing edits with
  | nil =>
    cases h
    rfl
  | cons F fields ih =>
    rw [List.foldlM_cons] at h
    obtain ⟨edits₁, hfirst, hrest⟩ := bind_eq_ok.mp h
    exact (ih (fun G hG => hg G (List.mem_cons_of_mem _ hG)) hrest).trans
      (held_iff_of_repairField (hg F List.mem_cons_self) hfirst z)

/-- **Repairs settle all fields**, if no two of them correspond to the same one. -/
theorem settled_of_repairs {fields : List Field}
    (hdistinct : (fields.filterMap Field.corresponding?).Nodup)
    (h : fields.foldlM (repairField L target it old) edits = .ok edits') :
    ∀ F ∈ fields, ∀ g, F.corresponding? = some g → held old F.id ≠ it.reference? F.id →
      Settled L target it old F g edits' := by
  induction fields generalizing edits with
  | nil => exact fun _ hF => (List.not_mem_nil hF).elim
  | cons G fields ih =>
    rw [List.foldlM_cons] at h
    obtain ⟨edits₁, hfirst, hrest⟩ := bind_eq_ok.mp h
    intro F hF g hg hchanged
    rcases List.mem_cons.mp hF with rfl | hF
    · rw [List.filterMap_cons_some hg, List.nodup_cons] at hdistinct
      have hother : ∀ H ∈ fields, H.corresponding? ≠ some g :=
        fun H hH heq => hdistinct.1 (List.mem_filterMap.mpr ⟨H, hH, heq⟩)
      exact (settled_of_repairField hg hchanged hfirst).congr (held_iff_of_repairs hother hrest)
    · exact ih (hdistinct.sublist ((List.sublist_cons_self G fields).filterMap _)) hrest F hF g hg
        hchanged

/-! ## Repairs made again -/

/-- A field that does not hold the item is not emptied. -/
theorem clearIf_eq_self {z y : ItemId} {f : FieldId}
    (h : edges (current L edits) z f ≠ some y) : clearIf L edits z f y = edits := by
  unfold clearIf
  split
  · rfl
  · rename_i o ho
    rw [edges_of_some ho] at h
    exact if_neg h

/-- A field that holds the item already is not pointed at it again. -/
theorem point_eq_self {z y : ItemId} {mirror : Field}
    (h : (current L edits z).isSome → edges (current L edits) z mirror.id = some y) :
    point L edits z mirror y = edits := by
  unfold point
  split
  · rfl
  · rename_i o ho
    rw [ho, edges_of_some ho] at h
    exact if_pos (h rfl)

/-- A partner that holds the item already has nobody else to be released from. -/
theorem release_eq_self {b : ItemId} {f : FieldId}
    (h : (current L edits b).isSome → edges (current L edits) b g = some it.id) :
    release L edits it.id f g b = edits := by
  unfold release
  split
  · rename_i c hc
    obtain ⟨o, ho, -⟩ := Option.bind_eq_some_iff.mp hc
    have hheld := h (by rw [ho]; rfl)
    exact if_pos (Option.some.inj (hc.symm.trans hheld))
  · rfl

/-- What is to be saved are other stored items, each once. -/
theorem tidy_of_repairs {fields : List Field}
    (h : fields.foldlM (repairField L target it old) [] = .ok edits) :
    Edits.Tidy (fun _ _ => True) L it.id edits :=
  Edits.Tidy.nil.repairs (fun _ _ _ _ _ _ _ => trivial) h

/-- **A settled field** needs no repair. -/
theorem Settled.repairField (h : Settled L target it old F g edits)
    (hstored : ∀ z o, current L edits z = some o → (L z).isSome)
    (hg : F.corresponding? = some g) :
    repairField (current L edits) target it old [] F = .ok [] := by
  have hleave : leave (current L edits) [] it.id g (held old F.id) = [] := by
    unfold leave
    split
    · split
      · rfl
      · rename_i b hb hbx
        exact clearIf_eq_self (h.left b hb hbx)
    · rfl
  by_cases hchanged : held old F.id = it.reference? F.id
  · exact repairField_of_not_changed fun hne => hne.2 hchanged
  · rw [repairField_eq hg, if_neg hchanged, hleave]
    cases hb : it.reference? F.id with
    | none => rfl
    | some b =>
      dsimp only
      by_cases hbx : b = it.id
      · rw [if_pos hbx]
      · obtain ⟨mirror, hmirror⟩ := h.mirror b hb hbx
        obtain ⟨s, -, hs⟩ := Option.bind_eq_some_iff.mp hmirror
        obtain ⟨-, rfl⟩ := Schema.mem_of_field? hs
        have hheld : (current (current L edits) [] b).isSome →
            edges (current (current L edits) []) b mirror.id = some it.id := by
          intro hsome
          obtain ⟨o, ho⟩ := Option.isSome_iff_exists.mp hsome
          exact h.joined b hb hbx (hstored b o ho)
        rw [if_neg hbx, join_of_mirror hmirror, release_eq_self hheld, point_eq_self hheld]

/-- **Repairs made again** save nothing. -/
theorem repairs_again {S : Schema} (hkeyed : Keyed L)
    (hdistinct : (S.referenceFields.filterMap Field.corresponding?).Nodup)
    (hedits : S.referenceFields.foldlM (repairField L target it old) [] = .ok edits) :
    repairs (putAll L (edits.map Prod.snd)) S target it old = .ok [] := by
  have htidy := tidy_of_repairs hedits
  have hsettled := settled_of_repairs hdistinct hedits
  have hstored : ∀ z o, current L edits z = some o → (L z).isSome := by
    intro z o ho
    obtain ⟨before, hbefore, -⟩ := htidy.current ho
    rw [hbefore]
    rfl
  have hone : ∀ F ∈ S.referenceFields,
      repairField (current L edits) target it old [] F = .ok [] := by
    intro F hF
    by_cases hchanged : Changed it old F
    · obtain ⟨g, hg⟩ := Option.isSome_iff_exists.mp hchanged.1
      exact (hsettled F hF g hg hchanged.2).repairField hstored hg
    · exact repairField_of_not_changed hchanged
  have hall : ∀ fields ⊆ S.referenceFields,
      fields.foldlM (repairField (current L edits) target it old) [] = .ok [] := by
    intro fields hfields
    induction fields with
    | nil => rfl
    | cons F fields ih =>
      obtain ⟨hF, hrest⟩ := List.cons_subset.mp hfields
      rw [List.foldlM_cons, hone F hF]
      exact ih hrest
  rw [repairs, putAll_tidy hkeyed htidy, hall _ (List.Subset.refl _)]
  rfl

/-- **Repairs are minimal.**  All values of the stored items are at top level or in live
instances, the ends of two-way fields hold references only, and no two of the fields
correspond to the same one.  Then each item is saved once, and the written one is not.
Whoever is saved was the partner in a field that changed, is the partner, or was held by
the partner, and it stays as it was besides the ends of these fields.  Repairs made again
save nothing. -/
theorem repairs_minimal {S : Schema} {saved : List Item} (hkeyed : Keyed L)
    (hrefers : ∀ z o, L z = some o → Referring (ends (S.referenceFields.filter Field.isTwoWay)) o)
    (hdistinct : (S.referenceFields.filterMap Field.corresponding?).Nodup)
    (h : repairs L S target it old = .ok saved) :
    (saved.map Item.id).Nodup ∧ it.id ∉ saved.map Item.id ∧
      (∀ a ∈ saved, ∃ F ∈ S.referenceFields, ∃ g, F.corresponding? = some g ∧
        held old F.id ≠ it.reference? F.id ∧
        (held old F.id = some a.id ∨ it.reference? F.id = some a.id ∨
          ∃ b, it.reference? F.id = some b ∧ edges L b g = some a.id)) ∧
      (∀ a ∈ saved, ∃ before, L a.id = some before ∧
        a.besides (ends (changed S it old)) = before.besides (ends (changed S it old))) ∧
      repairs (putAll L saved) S target it old = .ok [] := by
  obtain ⟨edits, hedits, rfl⟩ := edits_of_repairs h
  have htidy := tidy_of_repairs hedits
  have hids := htidy.map_id hkeyed
  have hchanged := hedits
  rw [foldlM_repairField] at hchanged
  have hstart : Mild (ends (changed S it old)) L [] :=
    fun z o ho => ⟨o, ho, rfl, (hrefers z o ho).mono (ends_changed_subset S it old)⟩
  have hmild := hstart.repairs (fun F hF g hg => mem_ends hF hg) hchanged
  have hentry : ∀ a ∈ edits.map Prod.snd, (a.id, a) ∈ edits := by
    intro a ha
    obtain ⟨e, he, rfl⟩ := List.mem_map.mp ha
    rwa [htidy.id_eq hkeyed he]
  refine ⟨hids ▸ htidy.once, fun hx => ?_, fun a ha => ?_, fun a ha => ?_,
    repairs_again hkeyed hdistinct hedits⟩
  · rw [hids] at hx
    obtain ⟨e, he, hex⟩ := List.mem_map.mp hx
    exact (htidy.trails e he).1 hex
  · have hkey : a.id ∈ edits.map Prod.fst := List.mem_map.mpr ⟨_, hentry a ha, rfl⟩
    obtain ⟨F, hF, g, hg, hinvolved⟩ := keys_of_repairs hchanged hkey
    obtain ⟨hmem, -, hdiffers⟩ := mem_changed.mp hF
    refine ⟨F, hmem, g, hg, hdiffers, ?_⟩
    exact hinvolved.imp_right (Or.imp_right fun hheld => hheld.imp fun b hb => hb.2)
  · have hcurrent : current L edits a.id = some a := by
      rw [current, lookup_of_mem htidy.once (hentry a ha), Option.some_or]
    obtain ⟨before, hbefore, hbesides, -⟩ := hmild a.id a hcurrent
    exact ⟨before, hbefore, hbesides⟩

section Moved

/-- Items as a map. -/
def storedIn (its : List Item) : ItemId → Option Item := fun z => its.find? fun o => o.id == z

/-- Bob, with a mentor. -/
def bobUnder (mentor : ItemId) : Item := (person ⟨"bob"⟩).update [toPerson ⟨"mentor"⟩ mentor]

/-- Ann is the mentor of Bob, and Cat that of Dan. -/
def couples : List Item := [
  (person ⟨"ann"⟩).update [toPerson ⟨"pupil"⟩ ⟨"bob"⟩], bobUnder ⟨"ann"⟩,
  (person ⟨"cat"⟩).update [toPerson ⟨"pupil"⟩ ⟨"dan"⟩],
  (person ⟨"dan"⟩).update [toPerson ⟨"mentor"⟩ ⟨"cat"⟩]]

/-- When Bob moves to Cat, the other three follow. -/
theorem repairs_minimal_of_move :
    Keyed (storedIn couples) ∧
    (∀ z o, storedIn couples z = some o →
      Referring (ends (people.referenceFields.filter Field.isTwoWay)) o) ∧
    (people.referenceFields.filterMap Field.corresponding?).Nodup ∧
    ∃ saved, repairs (storedIn couples) people (schemaOf [people]) (bobUnder ⟨"cat"⟩)
        (some (bobUnder ⟨"ann"⟩)) = .ok saved ∧
      saved.map Item.id = [⟨"ann"⟩, ⟨"dan"⟩, ⟨"cat"⟩] ∧
      repairs (putAll (storedIn couples) saved) people (schemaOf [people]) (bobUnder ⟨"cat"⟩)
        (some (bobUnder ⟨"ann"⟩)) = .ok [] := by
  have hkeyed : Keyed (storedIn couples) :=
    fun z o ho => by simpa using List.find?_some ho
  have hall : ∀ o ∈ couples, Referring (ends (people.referenceFields.filter Field.isTwoWay)) o := by
    decide
  have hrefers : ∀ z o, storedIn couples z = some o →
      Referring (ends (people.referenceFields.filter Field.isTwoWay)) o :=
    fun z o ho => hall o (List.mem_of_find?_eq_some ho)
  have hdistinct : (people.referenceFields.filterMap Field.corresponding?).Nodup := by decide
  have hrun : ∃ saved ∈ (repairs (storedIn couples) people (schemaOf [people])
      (bobUnder ⟨"cat"⟩) (some (bobUnder ⟨"ann"⟩))).toOption,
      saved.map Item.id = [⟨"ann"⟩, ⟨"dan"⟩, ⟨"cat"⟩] := by
    decide
  obtain ⟨saved, hsaved, hids⟩ := hrun
  have hrepairs := ok_of_mem_toOption hsaved
  obtain ⟨-, -, -, -, hagain⟩ := repairs_minimal hkeyed hrefers hdistinct hrepairs
  exact ⟨hkeyed, hrefers, hdistinct, saved, hrepairs, hids, hagain⟩

end Moved

end ContentStore.Pairing
