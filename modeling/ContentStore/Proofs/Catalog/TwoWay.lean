import ContentStore.Proofs.Reachable

/-!
# Two-way references in a reachable catalog

The two ends of a two-way reference name each other, each with the schema and
the model that the other one belongs to, and each holds a single reference.
That ends name each other is part of being wired; that they are single is kept
by every write of the catalog on its own, since a field never turns from one-way
to two-way (`Tables.lasting_single`).
-/

namespace ContentStore

namespace Tables

/-- The ends of two-way references hold single references. -/
def Single (t : Tables) : Prop := ∀ S ∈ t.schemas, ∀ F ∈ S.fields, F.Single

/-- **Every write of the catalog leaves the ends of two-way references single.** -/
theorem lasting_single : Lasting fun _ t => t.Single where
  empty := fun _ _ hS => (List.not_mem_nil hS).elim
  same := fun _ hsame h => by
    rw [Single, hsame.schemas]
    exact h
  step := by
    intro o n t m u hw h hreshapes S' hS'
    rcases hreshapes.back hw S' hS' with hempty | ⟨S, hS, hredrawn⟩
    · rw [hempty]
      exact fun _ hF => (List.not_mem_nil hF).elim
    · exact hredrawn.single (h S hS)

/-- The one model of a schema is found by it. -/
theorem Wired.modelOfSchema?_of_mem {n : Nat} {t : Tables} (hw : Wired n t) {M : Model}
    (hM : M ∈ t.models) : t.modelOfSchema? M.schema = some M := by
  cases hfound : t.modelOfSchema? M.schema with
  | none =>
    have hall := List.find?_eq_none.mp hfound M hM
    simp at hall
  | some N =>
    have hschema : N.schema = M.schema := by simpa using List.find?_some hfound
    have hown : M.schema ∈ N.schemas := hschema ▸ List.mem_cons_self
    rw [hw.model_eq (List.mem_of_find?_eq_some hfound) hM hown List.mem_cons_self]

end Tables

namespace Store

/-- **Both ends of every two-way reference of a reachable store name each
other.**  The target is stored and is the item schema of the target model; it has
one field of the id, which is another field and refers back to the model of the
schema and to the schema; both are single. -/
theorem ends_of_reachable {s : Store} (hs : s.Reachable) {S : Schema} (hS : S ∈ s.tables.schemas)
    {F : Field} (hF : F ∈ S.fields) {model : ModelId} {schema : SchemaId} {g : FieldId}
    (htype : F.type = .reference model schema (some g)) :
    ∃ M N T G, s.tables.model? model = some M ∧ M.schema = schema ∧
      s.tables.schema? schema = some T ∧ T.fields.filter (fun f => f.id == g) = [G] ∧
      G.id ≠ F.id ∧ s.tables.modelOfSchema? S.id = some N ∧
      G.type = .reference N.id S.id (some F.id) ∧ F.multiple = false ∧ G.multiple = false := by
  have hw := hs.sane.wired
  have hsingle := Tables.lasting_single.reachable hs
  have hfar : F.farEnd? = some ⟨model, schema, g⟩ := by rw [Field.farEnd?, htype]
  have hd := Tables.Wired.declares_of_mem hS hF
  rw [hfar] at hd
  obtain ⟨hne, ⟨M, hM, rfl, rfl⟩, back, hback, hbackSchema, hbackField⟩ := hw.mated hd
  obtain ⟨-, ⟨N, hN, hNid, hNschema⟩, -⟩ := hw.mated hback
  obtain ⟨T, hT, hTid, htie⟩ := hback
  obtain ⟨G, hG, rfl, hGfar⟩ := Schema.mem_ties.mp htie
  have hT' : s.tables.schema? M.schema = some T := by
    rw [← hw.schema?_of_mem hT, hTid]
  have hGtype : G.type = .reference N.id S.id (some F.id) := by
    rw [← hbackField, ← hbackSchema, hNid]
    exact Field.farEnd?_iff_type.mp hGfar
  refine ⟨M, N, T, G, hw.model?_of_mem hM, rfl, hT',
    filter_of_nodup (hw.fields_distinct T hT) hG, hne, ?_, hGtype,
    hsingle S hS F hF (Field.isTwoWay_iff.mpr ⟨_, hfar⟩),
    hsingle T hT G hG (Field.isTwoWay_iff.mpr ⟨_, hGfar⟩)⟩
  rw [← hbackSchema, ← hNschema]
  exact hw.modelOfSchema?_of_mem hN

section Mentors

/-- People and their mentors, each with one pupil. -/
def mentors : List Call := [
  .createModel (.ofKey ⟨"project"⟩ ⟨"school"⟩ "person"),
  .createField { NewField.ofKey (.ofSerial 0) "mentor"
    (.reference (.ofSerial 1) (.ofSerial 0) none) with mirror := some (.ofKey "pupil") }]

/-- Mentor and pupil are two fields of one schema. -/
theorem ends_of_mentors : ∃ s : Store, s.Reachable ∧ ∃ S ∈ s.tables.schemas, ∃ F ∈ S.fields,
    F.type = .reference (.ofSerial 1) (.ofSerial 0) (some (.ofSerial 3)) ∧
    ∃ T G, s.tables.schema? (.ofSerial 0) = some T ∧
      T.fields.filter (fun f => f.id == .ofSerial 3) = [G] ∧ G.id ≠ F.id ∧
      F.multiple = false ∧ G.multiple = false := by
  have hreach : (Call.afterAll (.maintainer ⟨"school"⟩) mentors
      (blank .standard ⟨⟨0, 0⟩, 1⟩ ⟨0⟩ .silent)).Reachable :=
    (reachable_blank _ _ _ _).evolves (evolves_afterAll _ _ _)
  have hfield : ∃ S ∈ (Call.afterAll (.maintainer ⟨"school"⟩) mentors
      (blank .standard ⟨⟨0, 0⟩, 1⟩ ⟨0⟩ .silent)).tables.schemas, ∃ F ∈ S.fields,
      F.type = .reference (.ofSerial 1) (.ofSerial 0) (some (.ofSerial 3)) := by
    decide +kernel
  obtain ⟨S, hS, F, hF, htype⟩ := hfield
  obtain ⟨M, N, T, G, -, -, hT, hG, hne, -, -, hFm, hGm⟩ := ends_of_reachable hreach hS hF htype
  exact ⟨_, hreach, S, hS, F, hF, htype, T, G, hT, hG, hne, hFm, hGm⟩

end Mentors

end Store

end ContentStore
