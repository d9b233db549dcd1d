import ContentStore.Proofs.Catalog.Redrawn
import ContentStore.Proofs.Declarations.Entries

/-!
# What a new field adds

A field is created at the end of its schema and its mirror at the end of the
schema at the other end.  Nothing else that is stored changes, except that the
schema of the field may get a title (`Tables.extended_createField`).  Outlines are
enough to tell which fields were added, and their order.
-/

namespace ContentStore

/-! ## Outlines of new fields -/

/-- Only references have another end. -/
theorem Field.outline_withCorresponding (f : Field) (c : Option FieldId) :
    (f.withCorresponding c).outline =
      { f.outline with twoWay := f.target?.isSome && c.isSome } := by
  unfold Field.withCorresponding Field.target?
  split
  · rename_i htype
    simp [Field.outline, Field.kind, Field.isTwoWay, Field.corresponding?, htype, FieldType.kind]
  · rename_i hnone
    have hone : f.corresponding? = none := by
      unfold Field.corresponding?
      split
      · rename_i htype
        exact (hnone _ _ _ htype).elim
      · rfl
    simp [Field.outline, Field.isTwoWay, hone]

namespace Tables

variable {t u : Tables}

/-- A new field gets the default that its declaration says. -/
theorem default_of_newDefault {f : Field} {raw : Option Json} {default : Option Values}
    (hf : f.default = none) (h : newDefault f raw = .ok default) :
    default = defaultFor f.kind raw := by
  cases raw with
  | none =>
    cases h
    exact hf
  | some j =>
    unfold defaultFor
    change defaultOf f j = _ at h
    unfold defaultOf at h
    split at h
    · rename_i hnull
      cases h
      rw [Option.filter_some, hnull]
      rfl
    · rename_i hvalue
      obtain ⟨v, hv, rfl⟩ := map_eq_ok.mp h
      unfold liftValue at hv
      split at hv
      · rename_i w hw
        cases hv
        rw [Option.filter_some, Bool.eq_false_iff.mpr hvalue, Bool.not_false, if_pos rfl,
          Option.bind_some, hw]
        rfl
      · cases hv

/-- A new field looks as it was asked for, but for its other end. -/
theorem outline_newField {param : NewField} {id : FieldId} {f : Field}
    (h : newField param id = .ok f) :
    f.outline = { param.outline with twoWay := false } ∧
      f.target? = (match param.type with
        | .reference model schema _ => some (model, schema)
        | _ => none) := by
  unfold newField at h
  obtain ⟨default, hdefault, h⟩ := bind_eq_ok.mp h
  obtain ⟨_, -, h⟩ := bind_eq_ok.mp h
  cases h
  have hvalue := default_of_newDefault rfl hdefault
  refine ⟨?_, ?_⟩
  · rw [Field.outline_withCorresponding]
    simp only [Option.isSome_none, Bool.and_false]
    unfold NewField.outline Field.outline
    rw [hvalue]
    rfl
  · rw [Field.target?_withCorresponding]
    rfl

/-- With its mirror it looks as it was asked for, and so does the mirror. -/
theorem outline_newMirror {S : Schema} {param : NewField} {id mirrorId : FieldId} {f₀ f : Field}
    {mirror : Option (SchemaId × Field)} (hnew : newField param id = .ok f₀)
    (h : t.newMirror S f₀ param mirrorId = .ok (f, mirror)) :
    f.outline = param.outline ∧
      mirror.map (fun m => (m.1, m.2.outline)) = param.mirrorEnd? := by
  obtain ⟨hf₀, htarget₀⟩ := outline_newField hnew
  have hone : param.mirror = none → f₀.outline = param.outline := by
    intro hnone
    rw [hf₀, NewField.outline, hnone]
    rfl
  unfold newMirror at h
  split at h
  · rename_i hnone
    cases h
    exact ⟨hone hnone, (NewField.mirrorEnd?_of_none hnone).symm⟩
  · cases h
  · rename_i model target htarget
    obtain ⟨_, -, h⟩ := bind_eq_ok.mp h
    split at h
    · rename_i hnone
      cases h
      exact ⟨hone hnone, (NewField.mirrorEnd?_of_none hnone).symm⟩
    · rename_i m hmirror
      dsimp only at h
      split at h
      · cases h
      · split at h
        · cases h
          refine ⟨?_, ?_⟩
          · rw [Field.outline_withCorresponding, htarget, hf₀]
            unfold NewField.outline
            rw [hmirror]
            rfl
          · rw [htarget] at htarget₀
            unfold NewField.mirrorEnd?
            rw [hmirror]
            split at htarget₀
            · rename_i htype
              cases htarget₀
              rw [htype]
              rfl
            · cases htarget₀
        · cases h

/-- **A created field looks as it was asked for**, so that only a reference gets another end. -/
theorem outline_createField {param : NewField} {id mirrorId : FieldId} {f : Field}
    (h : t.createField param id mirrorId = .ok (u, f)) : f.outline = param.outline := by
  obtain ⟨_, f₀, _, _, _, _, _, -, hnew, -, hmirror, -, -, -, -⟩ := createField_steps h
  exact (outline_newMirror hnew hmirror).1

/-- Only a reference can be created with a mirror. -/
theorem reference_of_createField {param : NewField} {id mirrorId : FieldId} {f : Field}
    (h : t.createField param id mirrorId = .ok (u, f)) (hmirror : param.mirror.isSome = true) :
    ∃ model schema mirror, param.type = .reference model schema mirror := by
  have hf := outline_createField h
  have htwoWay : f.isTwoWay = true := (congrArg Outline.twoWay hf).trans hmirror
  obtain ⟨far, hfar⟩ := Field.isTwoWay_iff.mp htwoWay
  refine reference_of_kind ((congrArg Outline.kind hf).symm.trans ?_)
  by_contra hkind
  rw [Field.farEnd?_of_kind hkind] at hfar
  cases hfar

end Tables

/-! ## Schemas that grow -/

/-- Fields of these outlines have been added at the end.  The title may have been
set if `titled` holds. -/
def Schema.Extended (s : Schema) (added : List Outline) (titled : Prop) (s' : Schema) : Prop :=
  ∃ more title, s' = { s with fields := s.fields ++ more, title } ∧
    more.map Field.outline = added ∧ (¬ titled → title = s.title)

namespace Schema

variable {s s' s'' : Schema} {added added' : List Outline} {titled titled' : Prop}

/-- Without new fields a schema is as it was. -/
theorem Extended.refl (s : Schema) : s.Extended [] False s :=
  ⟨[], s.title, by rw [List.append_nil], rfl, fun _ => rfl⟩

/-- An extended schema keeps its id. -/
theorem Extended.id (h : s.Extended added titled s') : s'.id = s.id := by
  obtain ⟨_, _, rfl, -, -⟩ := h
  rfl

/-- The new fields stand behind the ones from before. -/
theorem Extended.outlines (h : s.Extended added titled s') :
    s'.fields.map Field.outline = s.fields.map Field.outline ++ added := by
  obtain ⟨more, _, rfl, hmore, -⟩ := h
  rw [← hmore, ← List.map_append]

/-- Where the title may have been set under a condition, it may have under a weaker one. -/
theorem Extended.mono (h : s.Extended added titled s') (himp : titled → titled') :
    s.Extended added titled' s' := by
  obtain ⟨more, title, hs', hmore, htitle⟩ := h
  exact ⟨more, title, hs', hmore, fun hno => htitle fun hyes => hno (himp hyes)⟩

/-- Extensions follow each other. -/
theorem Extended.trans (h : s.Extended added titled s') (h' : s'.Extended added' titled' s'') :
    s.Extended (added ++ added') (titled ∨ titled') s'' := by
  obtain ⟨more, title, rfl, hmore, htitle⟩ := h
  obtain ⟨more', title', rfl, hmore', htitle'⟩ := h'
  refine ⟨more ++ more', title', by rw [List.append_assoc], ?_, fun hno => ?_⟩
  · rw [List.map_append, hmore, hmore']
  · rw [not_or] at hno
    exact (htitle' hno.2).trans (htitle hno.1)

/-- Adding a field extends the schema by it. -/
theorem extended_addField {f : Field} (h : s.addField f = .ok s') :
    s.Extended [f.outline] False s' := by
  obtain ⟨rfl, -⟩ := addField_eq h
  exact ⟨_, s.title, rfl, rfl, fun _ => rfl⟩

/-- Marking a new field as the title adds nothing. -/
theorem extended_newTitle {id : FieldId} (h : s' = s ∨ s.setTitle (some id) = .ok s') :
    s.Extended [] True s' := by
  rcases h with rfl | h
  · exact (Extended.refl s').mono False.elim
  · rw [Schema.setTitle_eq h]
    exact ⟨[], some id, by rw [List.append_nil], rfl, fun hno => (hno trivial).elim⟩

end Schema

/-- The fields that come with a new one, each with the schema it goes to. -/
def NewField.additions (param : NewField) : List (SchemaId × Outline) :=
  (param.schema, param.outline) :: param.mirrorEnd?.toList

namespace Tables

variable {t u : Tables}

/-- Only one schema is saved, and it has grown. -/
theorem extended_saveSchema (hd : (t.schemas.map Schema.id).Nodup) {S S' : Schema}
    {added : List Outline} {titled : Prop} (hS : S ∈ t.schemas)
    (h : S.Extended added titled S') : ∀ R ∈ t.schemas, ∃ R' ∈ (t.saveSchema S').schemas,
      R.Extended (if R.id = S.id then added else []) (R.id = S.id ∧ titled) R' := by
  intro R hR
  by_cases hsame : R.id = S.id
  · obtain rfl := List.inj_on_of_nodup_map hd hR hS hsame
    refine ⟨S', mem_saveSchema.mpr (.inl rfl), ?_⟩
    rw [if_pos rfl]
    exact h.mono fun htitled => ⟨rfl, htitled⟩
  · refine ⟨R, mem_saveSchema.mpr (.inr ⟨hR, fun heq => hsame (heq.trans h.id)⟩), ?_⟩
    rw [if_neg hsame]
    exact (Schema.Extended.refl R).mono False.elim

/-- **What creating a field does to the stored schemas**: its own gets the field, the one at
the other end gets the mirror, and no other is touched. -/
theorem extended_createField (hd : (t.schemas.map Schema.id).Nodup) {param : NewField}
    {id mirrorId : FieldId} {f : Field} (h : t.createField param id mirrorId = .ok (u, f)) :
    ∀ R ∈ t.schemas, ∃ R' ∈ u.schemas,
      R.Extended (landing R.id param.additions) (R.id = param.schema) R' := by
  obtain ⟨S, f₀, mirror, S₁, t₁, S₂, S₃, hS, hnew, -, hmirror, hadd, hsave, htitle, rfl⟩ :=
    createField_steps h
  obtain ⟨hmem, hSid⟩ := mem_of_schema hS
  obtain ⟨hf, hother⟩ := outline_newMirror hnew hmirror
  have hown : S.Extended [param.outline] False S₁ := hf ▸ Schema.extended_addField hadd
  have htitled : S₂.Extended [] True S₃ := Schema.extended_newTitle htitle
  intro R hR
  unfold NewField.additions
  rw [← hother, ← hSid]
  cases mirror with
  | none =>
    cases hsave
    obtain ⟨R', hR', hgrown⟩ := extended_saveSchema hd hmem (hown.trans htitled) R hR
    refine ⟨R', hR', ?_⟩
    by_cases hsame : R.id = S.id
    · rw [if_pos hsame] at hgrown
      simpa [landing, hsame] using hgrown
    · rw [if_neg hsame] at hgrown
      simpa [landing, hsame, Ne.symm hsame] using hgrown
  | some m =>
    obtain ⟨target, g⟩ := m
    rcases saveMirror_some hsave with
      ⟨htarget, haddm, rfl⟩ | ⟨htarget, rfl, other, other', hfound, haddm, rfl⟩
    · -- both ends are in one schema
      have hboth := (hown.trans (Schema.extended_addField haddm)).trans htitled
      obtain ⟨R', hR', hgrown⟩ := extended_saveSchema hd hmem hboth R hR
      refine ⟨R', hR', ?_⟩
      rw [htarget, hown.id]
      by_cases hsame : R.id = S.id
      · rw [if_pos hsame] at hgrown
        simpa [landing, hsame] using hgrown
      · rw [if_neg hsame] at hgrown
        simpa [landing, hsame, Ne.symm hsame] using hgrown
    · obtain ⟨hmemo, rfl⟩ := mem_of_schema hfound
      have hne : other.id ≠ S.id := fun heq => htarget (heq.trans hown.id.symm)
      have hfar : other.Extended [g.outline] False other' := Schema.extended_addField haddm
      have hmem₁ : S ∈ (t.saveSchema other').schemas :=
        mem_saveSchema.mpr (.inr ⟨hmem, fun heq => hne (heq.trans hfar.id).symm⟩)
      obtain ⟨R₁, hR₁, hfirst⟩ := extended_saveSchema hd hmemo hfar R hR
      obtain ⟨R', hR', hsecond⟩ := extended_saveSchema (schemas_distinct_saveSchema hd other')
        hmem₁ (hown.trans htitled) R₁ hR₁
      rw [hfirst.id] at hsecond
      refine ⟨R', hR', ?_⟩
      have hgrown := hfirst.trans hsecond
      by_cases hsame : R.id = S.id
      · rw [hsame, if_neg hne.symm, if_pos rfl] at hgrown
        simpa [landing, hsame, hne, hne.symm] using hgrown
      · by_cases hfars : R.id = other.id
        · rw [hfars, if_pos rfl, if_neg hne] at hgrown
          simpa [landing, hfars, hne, hne.symm] using hgrown
        · rw [if_neg hfars, if_neg hsame] at hgrown
          simpa [landing, hfars, hsame, Ne.symm hfars, Ne.symm hsame] using hgrown

end Tables

end ContentStore
