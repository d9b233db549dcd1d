import ContentStore.Proofs.Catalog.Shapes
import ContentStore.Proofs.Effects

/-!
# Ties of schemas

Of a field only two things count for pairing: its id, and the other end of the
two-way reference that it is one end of, if it is.  Both together are its tie.
Most changes of a schema leave the ties as they are, up to their order
(`Schema.Alike`); adding and removing a field adds and removes one tie.
-/

namespace ContentStore

/-- The other end of a two-way reference: a field of a schema, and the model
whose items follow that schema. -/
structure FarEnd where
  model : ModelId
  schema : SchemaId
  field : FieldId
  deriving DecidableEq

namespace Field

/-- The other end of a two-way field. -/
def farEnd? (f : Field) : Option FarEnd :=
  match f.type with
  | .reference model schema (some mirror) => some ⟨model, schema, mirror⟩
  | _ => none

/-- What counts of a field for pairing. -/
def tie (f : Field) : FieldId × Option FarEnd := (f.id, f.farEnd?)

/-- The other end of a field is the field that corresponds to it, in the schema it points
at. -/
theorem farEnd?_eq_some {f : Field} {e : FarEnd} :
    f.farEnd? = some e ↔
      f.corresponding? = some e.field ∧ f.target? = some (e.model, e.schema) := by
  unfold farEnd? corresponding? target?
  obtain ⟨model, schema, field⟩ := e
  cases f.type with
  | reference m s mirror =>
    cases mirror with
    | none => simp
    | some g =>
      simp only [Option.some.injEq, FarEnd.mk.injEq, Prod.mk.injEq]
      exact ⟨fun ⟨hm, hs, hg⟩ => ⟨hg, hm, hs⟩, fun ⟨hg, hm, hs⟩ => ⟨hm, hs, hg⟩⟩
  | _ => simp

/-- The far end is part of the type. -/
theorem farEnd?_iff_type {f : Field} {e : FarEnd} :
    f.farEnd? = some e ↔ f.type = .reference e.model e.schema (some e.field) := by
  obtain ⟨model, schema, field⟩ := e
  unfold farEnd?
  cases f.type with
  | reference m s mirror => cases mirror <;> simp
  | _ => simp

/-- Which other end a reference has does not matter for where it points. -/
theorem target?_withCorresponding (f : Field) (c : Option FieldId) :
    (f.withCorresponding c).target? = f.target? := by
  unfold withCorresponding
  split
  · rename_i htype
    simp [target?, htype]
  · rfl

/-- Just a field that nothing corresponds to has no other end. -/
theorem farEnd?_eq_none {f : Field} : f.farEnd? = none ↔ f.corresponding? = none := by
  unfold farEnd? corresponding?
  cases f.type with
  | reference m s mirror => cases mirror <;> simp
  | _ => simp

/-- A two-way field has another end. -/
theorem farEnd?_of_corresponding? {f : Field} {g : FieldId} (h : f.corresponding? = some g) :
    ∃ e, f.farEnd? = some e ∧ e.field = g := by
  cases he : f.farEnd? with
  | none =>
    rw [farEnd?_eq_none.mp he] at h
    cases h
  | some e =>
    rw [(farEnd?_eq_some.mp he).1] at h
    exact ⟨e, rfl, Option.some.inj h⟩

/-- The tie of a field is part of its shape. -/
theorem tie_of_shape {f g : Field} (h : f.shape = g.shape) : f.tie = g.tie := by
  rw [tie, tie, farEnd?, farEnd?, show f.id = g.id from congrArg Shape.id h,
    show f.type = g.type from congrArg Shape.type h]

end Field

namespace Schema

/-- The ties of all fields. -/
def ties (s : Schema) : List (FieldId × Option FarEnd) := s.fields.map Field.tie

/-- The ties of a schema are those of its fields. -/
theorem mem_ties {s : Schema} {f : FieldId} {e : Option FarEnd} :
    (f, e) ∈ s.ties ↔ ∃ F ∈ s.fields, F.id = f ∧ F.farEnd? = e := by
  simp [ties, Field.tie]

/-- There is one tie for every field. -/
theorem map_fst_ties (s : Schema) : s.ties.map Prod.fst = s.fields.map Field.id := by
  simp [ties, Field.tie, Function.comp_def]

/-- The same schema as far as pairing is concerned. -/
structure Alike (s s' : Schema) : Prop where
  id : s'.id = s.id
  ties : s'.ties.Perm s.ties

/-- A schema is like itself. -/
theorem Alike.refl (s : Schema) : s.Alike s := ⟨rfl, .refl _⟩

/-- What is like the like is alike. -/
theorem Alike.trans {a b c : Schema} (hab : a.Alike b) (hbc : b.Alike c) : a.Alike c :=
  ⟨hbc.id.trans hab.id, hbc.ties.trans hab.ties⟩

/-- Schemas of one id and the same ties are alike. -/
theorem Alike.of_eq {s s' : Schema} (hid : s'.id = s.id) (h : s'.ties = s.ties) : s.Alike s' :=
  ⟨hid, h ▸ .refl _⟩

/-- If one schema is like another, so is that one like the first. -/
theorem Alike.symm {a b : Schema} (h : a.Alike b) : b.Alike a := ⟨h.id.symm, h.ties.symm⟩

/-- The ties of a schema can be read off its shapes. -/
theorem ties_eq (s : Schema) :
    s.ties = (s.fields.map Field.shape).map fun a => (Field.named a.id "" a.type).tie := by
  rw [List.map_map]
  rfl

/-- A schema whose shapes are kept is alike, for ties are a matter of shape. -/
theorem Kept.alike {s s' : Schema} (h : s.Kept s') : s.Alike s' := by
  refine ⟨h.id, ?_⟩
  rw [ties_eq, ties_eq]
  exact h.shapes.map _

/-- A field added adds its tie; its id is new to the schema. -/
theorem addField_eq_ok {s s' : Schema} {f : Field} (h : s.addField f = .ok s') :
    s'.id = s.id ∧ s'.ties = s.ties ++ [f.tie] := by
  obtain ⟨rfl, -⟩ := addField_eq h
  refine ⟨rfl, ?_⟩
  unfold ties
  rw [List.map_append]
  rfl

/-- A field removed takes its tie away. -/
theorem removeField_eq_ok {s s' : Schema} {id : FieldId} {f : Field}
    (h : s.removeField id = .ok (f, s')) :
    s'.id = s.id ∧ f.id = id ∧ ∃ before after, s.ties = before ++ f.tie :: after ∧
      s'.ties = before ++ after := by
  obtain ⟨hid, hsid, -, before, after, hfields, hfields'⟩ := removeField_eq h
  refine ⟨hsid, hid, before.map Field.tie, after.map Field.tie, ?_, ?_⟩
  · rw [ties, hfields, List.map_append, List.map_cons]
  · rw [ties, hfields', List.map_append]

end Schema

end ContentStore
