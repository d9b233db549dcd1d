import ContentStore.Proofs.Items.Merging

/-!
# Items besides some fields

Edits to the top level of an item can reach further: a value that lists instances takes
their values with it.  As long as no value belongs to an instance that is not live, and
the edited fields hold references only, what stands outside them at top level stays as it
is (`Referring.clear?`, `Referring.update`).
-/

namespace ContentStore

/-- The item without what some fields hold at top level. -/
def Item.besides (ids : List FieldId) (it : Item) : Item :=
  { it with fields := it.fields.filter fun e => !(e.group.isNone && ids.contains e.field) }

/-- All values are at top level or in live instances, and some fields hold references
only. -/
structure Referring (ids : List FieldId) (it : Item) : Prop where
  owned : ∀ e ∈ it.fields, ∀ i ∈ e.group, Live it.fields i
  references : ∀ e ∈ it.fields, e.group = none → e.field ∈ ids →
    ∀ v ∈ e.value.elements, v.kind = .reference

instance (ids : List FieldId) (it : Item) : Decidable (Referring ids it) :=
  decidable_of_iff ((∀ e ∈ it.fields, ∀ i ∈ e.group, Live it.fields i) ∧
      ∀ e ∈ it.fields, e.group = none → ids.contains e.field →
        ∀ v ∈ e.value.elements, v.kind = .reference)
    ⟨fun h => ⟨h.1, fun e he htop hfield =>
        h.2 e he htop (List.contains_iff_mem.mpr hfield)⟩,
      fun h => ⟨h.owned, fun e he htop hfield =>
        h.references e he htop (List.contains_iff_mem.mp hfield)⟩⟩

/-- Values that belong to live instances are not dropped. -/
theorem dropDead_eq_self {fields : List ItemField}
    (howned : ∀ e ∈ fields, ∀ i ∈ e.group, Live fields i) : dropDead fields = fields := by
  rw [dropDead_eq, List.filter_eq_self]
  exact fun e he => decide_eq_true (howned e he)

namespace Referring

variable {ids : List FieldId} {it it' : Item}

/-- References list no instances. -/
theorem listed (h : Referring ids it) {e : ItemField} (he : e ∈ it.fields) (htop : e.group = none)
    (hfield : e.field ∈ ids) (i : InstanceId) : i ∉ e.listed := by
  intro hi
  have hgroups : i ∈ e.value.groups := by
    unfold ItemField.listed at hi
    split at hi
    · exact hi
    · cases hi
  obtain ⟨v, hv, hvi⟩ := List.mem_filterMap.mp hgroups
  cases (h.references e he htop hfield v hv).symm.trans (Value.kind_of_group? hvi)

/-- References at top level come and go without an effect on instances. -/
theorem of_fields (h : Referring ids it) {fields : List ItemField}
    (hnew : ∀ e ∈ fields, e ∈ it.fields ∨
      e.group = none ∧ ∀ v ∈ e.value.elements, v.kind = .reference)
    (hkept : ∀ e ∈ it.fields, e ∈ fields ∨ e.group = none ∧ e.field ∈ ids) :
    Referring ids { it with fields := fields } where
  owned := by
    intro e he i hi
    rcases hnew e he with he | ⟨htop, -⟩
    · refine (h.owned e he i hi).of_listing fun e' he' j hj => ?_
      refine (hkept e' he').resolve_right fun ⟨htop, hfield⟩ => ?_
      exact h.listed he' htop hfield j hj
    · cases htop.symm.trans hi
  references := by
    intro e he htop hfield
    rcases hnew e he with he | ⟨-, hvalue⟩
    · exact h.references e he htop hfield
    · exact hvalue

theorem mono {ids' : List FieldId} (h : Referring ids it) (hids : ids' ⊆ ids) : Referring ids' it :=
  ⟨h.owned, fun e he htop hfield => h.references e he htop (hids hfield)⟩

/-- Emptying one of the fields changes nothing besides. -/
theorem clear? (h : Referring ids it) {f : FieldId} (hf : f ∈ ids)
    (hclear : it.clear? f = some it') :
    it'.besides ids = it.besides ids ∧ Referring ids it' := by
  unfold Item.clear? at hclear
  split at hclear
  · split at hclear
    · cases hclear
    · cases hclear
      refine ⟨?_, h.of_fields (fun e he => ?_) fun e he => ?_⟩
      · unfold Item.besides
        congr 1
        refine filter_updateFirst (fun e he => ?_) _
        obtain ⟨rfl, htop⟩ := Slot.mk.inj (beq_iff_eq.mp he)
        simp [Item.cleared, htop, hf]
      · rcases mem_updateFirst he with he | ⟨e', he', hslot, rfl⟩
        · exact .inl he
        · exact .inr ⟨(Slot.mk.inj (beq_iff_eq.mp hslot)).2, fun _ hv => (List.not_mem_nil hv).elim⟩
      · by_cases hslot : e.slot = ⟨f, none⟩
        · obtain ⟨rfl, htop⟩ := Slot.mk.inj hslot
          exact .inr ⟨htop, hf⟩
        · exact .inl (mem_updateFirst_of_not he (by simpa using hslot))
  · cases hclear

/-- Putting references into one of the fields changes nothing besides. -/
theorem update (h : Referring ids it) {v : ItemField} (htop : v.group = none)
    (hfield : v.field ∈ ids) (hvalue : ∀ x ∈ v.value.elements, x.kind = .reference) :
    (it.update [v]).besides ids = it.besides ids ∧ Referring ids (it.update [v]) := by
  have hrefers : Referring ids { it with fields := putValue it.fields v } := by
    refine h.of_fields (fun e he => ?_) fun e he => ?_
    · rcases mem_putValue he with rfl | he
      · exact .inr ⟨htop, hvalue⟩
      · exact .inl he
    · by_cases hslot : e.slot = v.slot
      · obtain ⟨hsame, hgroup⟩ := Slot.mk.inj hslot
        exact .inr ⟨hgroup.trans htop, hsame ▸ hfield⟩
      · refine .inl ?_
        unfold putValue
        split
        · exact mem_updateFirst_of_not he (by simpa using hslot)
        · exact List.mem_append_left _ he
  have hupdate : it.update [v] = { it with fields := putValue it.fields v } :=
    congrArg (fun fields => { it with fields }) (dropDead_eq_self hrefers.owned)
  rw [hupdate]
  refine ⟨?_, hrefers⟩
  unfold Item.besides
  congr 1
  unfold putValue
  split
  · refine filter_updateFirst (fun e he => ?_) _
    obtain ⟨hsame, hgroup⟩ := Slot.mk.inj (beq_iff_eq.mp he)
    simp [hsame, hgroup, htop, hfield]
  · simp [List.filter_append, htop, hfield]

end Referring

end ContentStore
