import ContentStore.Embedding.Completion
import ContentStore.Proofs.Effects
import ContentStore.Proofs.Items.Slots

/-!
# Where values come from

The values that a write stores were prepared for a field, by the input or as its
default.  At top level that is a field of the item schema, and in an instance a
field of a group of the package (`Stands`).  Completing only adds values, and
only in slots that are empty (`completed_eq_ok`).
-/

namespace ContentStore

/-- A value succeeds as part of a write just as it does by itself. -/
theorem liftValue_eq_ok {α : Type} {key : String} {x : Except ValueDefect α} {a : α} :
    liftValue key x = .ok a ↔ x = .ok a := by
  cases x <;> simp [liftValue]

namespace Field

/-- What is prepared from nothing is the default, or nothing. -/
theorem prepare_null {f : Field} {vs : Values} (h : f.prepare .null = .ok vs) :
    vs = f.default.getD (.empty f.kind) := by
  unfold prepare at h
  obtain ⟨given, hgiven, h⟩ := bind_eq_ok.mp h
  obtain ⟨_, -, h⟩ := bind_eq_ok.mp h
  cases liftValue_eq_ok.mp hgiven
  cases h
  rfl

/-- What has been prepared may stand in the field. -/
theorem check_of_prepare {f : Field} {raw : Json} {vs : Values} (h : f.prepare raw = .ok vs) :
    f.check vs = .ok () := by
  unfold prepare at h
  obtain ⟨given, -, h⟩ := bind_eq_ok.mp h
  obtain ⟨_, hcheck, h⟩ := bind_eq_ok.mp h
  cases h
  exact liftValue_eq_ok.mp hcheck

/-- What may stand in a field is of its kind, and not empty if the field is
required. -/
theorem check_eq_ok {f : Field} {vs : Values} (h : f.check vs = .ok ()) :
    vs.kind = f.kind ∧ (∀ e ∈ vs.elements, e.kind = f.kind) ∧
      (f.required = true → vs.isEmpty = false) := by
  unfold check at h
  dsimp only at h
  by_cases hkind : vs.kind ≠ f.kind
  · rw [if_pos hkind] at h
    cases h
  · rw [if_neg hkind] at h
    cases hfind : vs.elements.find? fun v => v.kind != f.kind with
    | some v =>
      rw [hfind] at h
      cases h
    | none =>
      rw [hfind] at h
      refine ⟨Classical.not_not.mp hkind, fun e he => ?_, fun hrequired => ?_⟩
      · simpa using List.find?_eq_none.mp hfind e he
      · by_contra hempty
        rw [Bool.not_eq_false] at hempty
        by_cases hsingle : (!f.multiple) = true ∧ 1 < vs.size
        · rw [if_pos hsingle] at h
          cases h
        · rw [if_neg hsingle, if_pos ⟨hrequired, hempty⟩] at h
          cases h

/-- Prepared elements are of the kind of the field. -/
theorem kind_of_prepare {f : Field} {raw : Json} {vs : Values} (h : f.prepare raw = .ok vs) :
    ∀ e ∈ vs.elements, e.kind = f.kind := (check_eq_ok (check_of_prepare h)).2.1

end Field

namespace Embedding

/-- The raw input, prepared for a field of the schema, gives the value. -/
def FitsAs (raw : Json) (s : Schema) (v : ItemField) : Prop :=
  ∃ f ∈ s.fields, f.id = v.field ∧ f.prepare raw = .ok v.value

/-- The value was prepared for a field of the schema. -/
def Fits (s : Schema) (v : ItemField) : Prop := ∃ raw, FitsAs raw s v

/-- At top level the value fits the item schema, and in an instance the schema
of a group. -/
structure Stands (p : Package) (fits : Schema → ItemField → Prop) (v : ItemField) : Prop where
  top : v.group = none → fits p.schema v
  inner : v.group.isSome → ∃ g ∈ p.groups, fits g.2 v

/-- A value that fits its schema fits it in every wider sense. -/
theorem Stands.mono {p : Package} {fits fits' : Schema → ItemField → Prop} {v : ItemField}
    (h : Stands p fits v) (hfits : ∀ s, fits s v → fits' s v) : Stands p fits' v where
  top := fun hv => hfits _ (h.top hv)
  inner := fun hv => by
    obtain ⟨g, hg, hgv⟩ := h.inner hv
    exact ⟨g, hg, hfits _ hgv⟩

/-- Wherever the value stands, it fits a schema of the package. -/
theorem Stands.exists_fits {p : Package} {fits : Schema → ItemField → Prop} {v : ItemField}
    (h : Stands p fits v) : ∃ S ∈ p.itemSchemas, fits S v := by
  cases hgroup : v.group with
  | none => exact ⟨p.schema, List.mem_cons_self, h.top hgroup⟩
  | some i =>
    obtain ⟨g, hg, hfits⟩ := h.inner (by rw [hgroup]; rfl)
    exact ⟨g.2, List.mem_cons_of_mem _ (List.mem_append_right _ (List.mem_map_of_mem hg)), hfits⟩

variable {p : Package}

/-- The schema of a host is that of the group that it embeds, which is one of the package.
-/
theorem groupSchema_eq_ok {host : Field} {s : Schema} (h : groupSchema p host = .ok s) :
    ∃ g ∈ p.groups, host.group? = some g.1.id ∧ g.2 = s := by
  unfold groupSchema Package.groupSchema? at h
  split at h
  · cases h
  · rename_i id hid
    split at h
    · rename_i s' hs'
      cases h
      obtain ⟨g, hg, rfl⟩ := Option.map_eq_some_iff.mp hs'
      have hgid : g.1.id = id := by simpa using List.find?_some hg
      exact ⟨g, List.mem_of_find?_eq_some hg, hgid ▸ hid, rfl⟩
    · cases h

/-- Fields of one group embed one schema. -/
theorem groupSchema_congr {F F' : Field} {s : Schema} (hgroup : F.group? = F'.group?)
    (h : groupSchema p F = .ok s) : groupSchema p F' = .ok s := by
  obtain ⟨g, -, hg, -⟩ := groupSchema_eq_ok h
  unfold groupSchema at h ⊢
  rw [← hgroup, hg]
  rwa [hg] at h

/-- So it is one of the package. -/
theorem mem_of_groupSchema {host : Field} {s : Schema} (h : groupSchema p host = .ok s) :
    ∃ g ∈ p.groups, g.2 = s := by
  obtain ⟨g, hg, -, hs⟩ := groupSchema_eq_ok h
  exact ⟨g, hg, hs⟩

/-! ## Input -/

/-- The field that input names is one of the schema. -/
theorem mem_of_fieldOf {s : Schema} {raw : RawField} {f : Field} (h : fieldOf s raw = .ok f) :
    f ∈ s.fields := by
  unfold fieldOf at h
  split at h
  · rename_i f' hf'
    cases h
    unfold Schema.fieldNamed? at hf'
    split at hf'
    · exact List.mem_of_find?_eq_some hf'
    · exact List.mem_of_find?_eq_some hf'
    · cases hf'
  · cases h

/-- The value of an input fits the schema and stands in the instance that the input names.
-/
theorem fits_of_valueOf {s : Schema} {raw : RawField} {v : ItemField}
    (h : valueOf s raw = .ok v) : Fits s v ∧ v.group = raw.group := by
  unfold valueOf at h
  obtain ⟨f, hf, h⟩ := bind_eq_ok.mp h
  obtain ⟨vs, hvs, h⟩ := bind_eq_ok.mp h
  cases h
  exact ⟨⟨raw.value, f, mem_of_fieldOf hf, rfl, hvs⟩, rfl⟩

/-! ## Defaults -/

/-- A value that was filled in: the default of its field, in a slot that was
empty. -/
structure Filled (p : Package) (values : List ItemField) (v : ItemField) : Prop where
  stands : Stands p (FitsAs .null) v
  absent : valueAt? values v.slot = none
  nonempty : v.value.elements ≠ []

/-- A slot that is empty among many values is empty among fewer. -/
theorem Filled.of_append {values more : List ItemField} {v : ItemField}
    (h : Filled p (values ++ more) v) : Filled p values v := by
  have habsent := h.absent
  rw [valueAt?_append, Option.or_eq_none_iff] at habsent
  exact { h with absent := habsent.1 }

/-- Every field of the schema has a value, or none to be filled in. -/
def Complete (s : Schema) (owner : Option InstanceId) (values : List ItemField) : Prop :=
  ∀ f ∈ s.fields, (valueAt? values ⟨f.id, owner⟩).isSome ∨
    ∃ vs, f.prepare .null = .ok vs ∧ vs.elements = []

/-- **Filling in defaults** adds values to empty slots of the owner, as the fields prepare
them from nothing, until every field has a value or none to be filled in. -/
theorem fillDefaults_eq_ok {owner : Option InstanceId} {fields : List Field}
    {values values' : List ItemField} (h : fillDefaults owner fields values = (values', .ok ())) :
    ∃ more, values' = values ++ more ∧
      (∀ v ∈ more, v.group = owner ∧ (∃ f ∈ fields, f.id = v.field ∧
        f.prepare .null = .ok v.value) ∧ valueAt? values v.slot = none ∧ v.value.elements ≠ []) ∧
      ∀ f ∈ fields, (valueAt? values' ⟨f.id, owner⟩).isSome ∨
        ∃ vs, f.prepare .null = .ok vs ∧ vs.elements = [] := by
  induction fields generalizing values with
  | nil =>
    cases h
    exact ⟨[], (List.append_nil _).symm, fun _ hv => (List.not_mem_nil hv).elim,
      fun _ hf => (List.not_mem_nil hf).elim⟩
  | cons f fs ih =>
    -- what is there stays there
    have hstays : ∀ {more : List ItemField} {slot : Slot}, (valueAt? values slot).isSome →
        (valueAt? (values ++ more) slot).isSome := by
      intro more slot hsome
      rw [valueAt?_append, Option.isSome_or, hsome, Bool.true_or]
    have hlater : ∀ v : ItemField, (∃ g ∈ fs, g.id = v.field ∧ g.prepare .null = .ok v.value) →
        ∃ g ∈ f :: fs, g.id = v.field ∧ g.prepare .null = .ok v.value :=
      fun v ⟨g, hg, hgv⟩ => ⟨g, List.mem_cons_of_mem _ hg, hgv⟩
    unfold fillDefaults at h
    split at h
    · rename_i hsome
      obtain ⟨more, rfl, hmore, hall⟩ := ih h
      refine ⟨more, rfl, fun v hv => ⟨(hmore v hv).1, hlater v (hmore v hv).2.1, (hmore v hv).2.2⟩,
        fun g hg => ?_⟩
      rcases List.mem_cons.mp hg with rfl | hg
      · exact .inl (hstays hsome)
      · exact hall g hg
    · rename_i hnone
      have habsent : valueAt? values ⟨f.id, owner⟩ = none := by simpa using hnone
      split at h
      · cases h
      · rename_i vs hvs
        split at h
        · rename_i hempty
          obtain ⟨more, rfl, hmore, hall⟩ := ih h
          refine ⟨more, rfl, fun v hv => ⟨(hmore v hv).1, hlater v (hmore v hv).2.1,
            (hmore v hv).2.2⟩, fun g hg => ?_⟩
          rcases List.mem_cons.mp hg with rfl | hg
          · exact .inr ⟨vs, hvs, List.isEmpty_iff.mp hempty⟩
          · exact hall g hg
        · rename_i hnonempty
          obtain ⟨more, rfl, hmore, hall⟩ := ih h
          refine ⟨⟨f.id, f.key, vs, owner⟩ :: more, by simp, fun v hv => ?_, fun g hg => ?_⟩
          · rcases List.mem_cons.mp hv with rfl | hv
            · exact ⟨rfl, ⟨f, List.mem_cons_self, rfl, hvs⟩, habsent,
                fun h => hnonempty (List.isEmpty_iff.mpr h)⟩
            · obtain ⟨hgroup, hfield, habsent, hne⟩ := hmore v hv
              rw [valueAt?_append, Option.or_eq_none_iff] at habsent
              exact ⟨hgroup, hlater v hfield, habsent.1, hne⟩
          · rcases List.mem_cons.mp hg with rfl | hg
            · refine .inl ?_
              rw [valueAt?_append, valueAt?_append]
              simp [valueAt?, ItemField.slot]
            · exact hall g hg

/-- A schema to be visited is the item schema, or that of a group with one of its
instances. -/
def Visitable (p : Package) (v : Visit) : Prop :=
  v = (p.schema, none) ∨ v.2.isSome ∧ ∃ g ∈ p.groups, g.2 = v.1

/-- A schema that is visited is one of the package. -/
theorem Visitable.mem_schemas {s : Schema} {owner : Option InstanceId}
    (h : Visitable p (s, owner)) : s ∈ p.schema :: p.groups.map Prod.snd := by
  rcases h with heq | ⟨-, g, hg, rfl⟩
  · rw [(Prod.mk.inj heq).1]
    exact List.mem_cons_self
  · exact List.mem_cons_of_mem _ (List.mem_map_of_mem hg)

/-- What is still to be visited stays so when instances are added. -/
theorem visitable_pendingHosts {owner : Option InstanceId} {values : List ItemField}
    {hosts : List Field} {seen seen' : List InstanceId} {pending pending' : List Visit}
    (hpending : ∀ v ∈ pending, Visitable p v)
    (h : pendingHosts p owner values hosts seen pending = .ok (seen', pending')) :
    ∀ v ∈ pending', Visitable p v := by
  induction hosts generalizing seen pending with
  | nil =>
    cases h
    exact hpending
  | cons host hosts ih =>
    unfold pendingHosts at h
    dsimp only at h
    split at h
    · exact ih hpending h
    · split at h
      · cases h
      · rename_i inner hinner
        refine ih (fun v hv => ?_) h
        rcases List.mem_append.mp hv with hv | hv
        · obtain ⟨i, -, rfl⟩ := List.mem_map.mp hv
          exact .inr ⟨rfl, mem_of_groupSchema hinner⟩
        · exact hpending v hv

/-- What a visit fills in is the default of a field in an empty slot. -/
theorem filled_of_visit {s : Schema} {owner : Option InstanceId} {values : List ItemField}
    {v : ItemField} (hvisit : Visitable p (s, owner)) (hgroup : v.group = owner)
    (hfits : FitsAs .null s v) (habsent : valueAt? values v.slot = none)
    (hne : v.value.elements ≠ []) : Filled p values v := by
  refine ⟨⟨fun hnone => ?_, fun hsome => ?_⟩, habsent, hne⟩
  · rcases hvisit with heq | ⟨hsome, -⟩
    · rw [← (Prod.mk.inj heq).1]
      exact hfits
    · rw [← hgroup, hnone] at hsome
      cases hsome
  · rcases hvisit with heq | ⟨-, g, hg, rfl⟩
    · rw [hgroup, (Prod.mk.inj heq).2] at hsome
      cases hsome
    · exact ⟨g, hg, hfits⟩

/-- All visits together add nothing but such defaults. -/
theorem completeAll_eq_ok {fuel : Nat} {seen : List InstanceId} {pending : List Visit}
    {values values' : List ItemField} (hpending : ∀ v ∈ pending, Visitable p v)
    (h : completeAll p fuel seen pending values = (values', .ok ())) :
    ∃ more, values' = values ++ more ∧ ∀ v ∈ more, Filled p values v := by
  induction fuel generalizing seen pending values with
  | zero =>
    cases h
    exact ⟨[], (List.append_nil _).symm, fun _ hv => (List.not_mem_nil hv).elim⟩
  | succ fuel ih =>
    rcases pending with _ | ⟨⟨s, owner⟩, pending⟩
    · cases h
      exact ⟨[], (List.append_nil _).symm, fun _ hv => (List.not_mem_nil hv).elim⟩
    · rw [completeAll] at h
      split at h
      · cases h
      · rename_i values₁ hfill
        split at h
        · cases h
        · rename_i seen' pending' hhosts
          obtain ⟨first, rfl, hfirst, -⟩ := fillDefaults_eq_ok hfill
          have hpending' := visitable_pendingHosts
            (fun v hv => hpending v (List.mem_cons_of_mem _ hv)) hhosts
          obtain ⟨more, rfl, hmore⟩ := ih hpending' h
          refine ⟨first ++ more, List.append_assoc .., fun v hv => ?_⟩
          rcases List.mem_append.mp hv with hv | hv
          · obtain ⟨hgroup, ⟨f, hf, hid, hprepare⟩, habsent, hne⟩ := hfirst v hv
            exact filled_of_visit (hpending _ List.mem_cons_self) hgroup ⟨f, hf, hid, hprepare⟩
              habsent hne
          · exact (hmore v hv).of_append

/-- **Completing only fills in defaults**, and at top level all of them. -/
theorem completed_eq_ok {values values' : List ItemField} (h : completed p values = .ok values') :
    (∃ more, values' = values ++ more ∧ ∀ v ∈ more, Filled p values v) ∧
      Complete p.schema none values' := by
  unfold completed at h
  split at h
  · rename_i values₁ hcomplete
    cases h
    unfold complete at hcomplete
    refine ⟨completeAll_eq_ok (fun v hv => .inl (List.mem_singleton.mp hv)) hcomplete, ?_⟩
    rw [completeAll] at hcomplete
    split at hcomplete
    · cases hcomplete
    · rename_i values₁ hfill
      split at hcomplete
      · cases hcomplete
      · rename_i seen' pending' hhosts
        obtain ⟨-, -, -, hall⟩ := fillDefaults_eq_ok hfill
        have hpending' := visitable_pendingHosts (p := p)
          (fun v hv => (List.not_mem_nil hv).elim) hhosts
        obtain ⟨more, rfl, -⟩ := completeAll_eq_ok hpending' hcomplete
        intro f hf
        rcases hall f hf with hsome | hnone
        · exact .inl (by rw [valueAt?_append, Option.isSome_or, hsome, Bool.true_or])
        · exact .inr hnone
  · cases h

end Embedding

end ContentStore
