import ContentStore.Proofs.Catalog.Rewriting
import ContentStore.Proofs.Catalog.Redrawn
import ContentStore.Proofs.Reachable

/-!
# The order of fields

The fields of a schema are in order if each one bears the number of its place
(`Schema.Ordered`).  A field is added with the next number, changes that give no
number leave all numbers alone, and changes that give one, like deleting a field,
end with numbering the fields anew.

Only one write takes a field away and leaves the numbers of the others as they
are: deleting a two-way field removes its other end, and the schema of that is not
numbered anew unless it is the one the call is about.  If the other end was not
the last of its fields, they are out of order until the next call that numbers
them (`Store.order_of_run`).
-/

namespace ContentStore

open Relation

namespace Schema

variable {s s' : Schema}

/-- Every field bears the number of its place. -/
def Ordered (s : Schema) : Prop := ∀ (i : Nat) (f : Field), s.fields[i]? = some f → f.order = i

/-- The order of fields can be seen from their numbers. -/
theorem Ordered.congr (hs : s.Ordered)
    (h : s'.fields.map Field.order = s.fields.map Field.order) : s'.Ordered := by
  intro i f hf
  have hnumber : (s.fields.map Field.order)[i]? = some f.order := by
    rw [← h, List.getElem?_map, hf]
    rfl
  rw [List.getElem?_map, Option.map_eq_some_iff] at hnumber
  obtain ⟨g, hg, horder⟩ := hnumber
  rw [← horder]
  exact hs i g hg

theorem ordered_empty (h : s.fields = []) : s.Ordered := by
  intro i f hf
  rw [h] at hf
  cases hf

/-- A field is added with the next number. -/
theorem ordered_addField {f : Field} (hs : s.Ordered) (h : s.addField f = .ok s') : s'.Ordered := by
  obtain ⟨rfl, -⟩ := addField_eq h
  intro i g hg
  by_cases hi : i < s.fields.length
  · rw [List.getElem?_append_left hi] at hg
    exact hs i g hg
  · have hlast : i = s.fields.length := by
      have hlt := (List.getElem?_eq_some_iff.mp hg).1
      rw [List.length_append, List.length_singleton] at hlt
      omega
    subst hlast
    rw [List.getElem?_concat_length] at hg
    cases hg
    rfl

theorem order_renumber {n i : Nat} {fields : List Field} {f : Field}
    (h : (renumber n fields)[i]? = some f) : f.order = (n + i : Nat) := by
  induction fields generalizing n i with
  | nil => cases h
  | cons g gs ih =>
    cases i with
    | zero =>
      cases h
      rfl
    | succ i =>
      rw [ih h]
      omega

/-- Fields that have been put into order are in order. -/
theorem ordered_normalizeOrder (s : Schema) : s.normalizeOrder.Ordered := by
  intro i f hf
  rw [order_renumber hf, Nat.zero_add]

/-- Numbering in order what is in order changes nothing. -/
theorem renumber_of_ordered {n : Nat} {fields : List Field}
    (h : ∀ (i : Nat) (f : Field), fields[i]? = some f → f.order = (n + i : Nat)) :
    renumber n fields = fields := by
  induction fields generalizing n with
  | nil => rfl
  | cons f fs ih =>
    have hf : f.order = n := h 0 f rfl
    rw [renumber, ih, ← hf]
    intro i g hg
    rw [h (i + 1) g hg]
    omega

/-- **Where fields are in order, putting them into order changes nothing.** -/
theorem normalizeOrder_of_ordered (hs : s.Ordered) : s.normalizeOrder = s := by
  have hsorted : s.fields.Pairwise fun f g => decide (g.order < f.order) = false := by
    rw [List.pairwise_iff_getElem]
    intro i j hi hj hij
    have hfi := hs i _ (List.getElem?_eq_getElem hi)
    have hfj := hs j _ (List.getElem?_eq_getElem hj)
    simp only [decide_eq_false_iff_not]
    omega
  unfold normalizeOrder
  rw [sortBy_eq_self hsorted, renumber_of_ordered]
  intro i f hf
  rw [hs i f hf, Nat.zero_add]

/-- **Fields stay in order without one of them if it was the last.** -/
theorem ordered_removeField_iff {id : FieldId} {f : Field} (hs : s.Ordered)
    (hd : (s.fields.map Field.id).Nodup) (h : s.removeField id = .ok (f, s')) :
    s'.Ordered ↔ ∀ g ∈ s.fields.dropLast, g.id ≠ id := by
  obtain ⟨rfl, -, -, before, after, hfields, hfields'⟩ := removeField_eq h
  rw [hfields, List.map_append, List.map_cons, List.nodup_middle, List.nodup_cons] at hd
  cases after with
  | nil =>
    rw [hfields, List.dropLast_concat]
    constructor
    · intro _ g hg hid
      exact hd.1 (List.mem_append_left _ (hid ▸ List.mem_map_of_mem hg))
    · intro _ i g hg
      rw [hfields', List.append_nil] at hg
      refine hs i g ?_
      rw [hfields, List.getElem?_append_left (List.getElem?_eq_some_iff.mp hg).1]
      exact hg
  | cons g gs =>
    -- the field behind the removed one keeps its number
    have hgap : ¬ s'.Ordered := by
      intro hs'
      have hbehind : s.fields[before.length + 1]? = some g := by
        rw [hfields, List.getElem?_append_right (Nat.le_succ _)]
        simp
      have hmoved : s'.fields[before.length]? = some g := by
        rw [hfields', List.getElem?_append_right (Nat.le_refl _)]
        simp
      have := hs _ g hbehind
      have := hs' _ g hmoved
      omega
    refine iff_of_false hgap fun hall => hall f ?_ rfl
    rw [hfields, List.dropLast_append_of_ne_nil (by simp), List.dropLast_cons_of_ne_nil (by simp)]
    exact List.mem_append_right _ List.mem_cons_self

end Schema

namespace Tables

variable {n : Nat} {t u : Tables} {x : SchemaId}

/-- Wherever the schema is stored, its fields are in order. -/
def InOrder (t : Tables) (x : SchemaId) : Prop := ∀ S ∈ t.schemas, S.id = x → S.Ordered

/-- The field of the host is a two-way reference whose other end is a field of
another schema, and not the last one there. -/
def OpensGap (t : Tables) (host : SchemaId) (field : FieldId) (x : SchemaId) : Prop :=
  host ≠ x ∧ ∃ H ∈ t.schemas, H.id = host ∧ ∃ F ∈ H.fields, F.id = field ∧
    ∃ T ∈ t.schemas, T.id = x ∧ ∃ G ∈ T.fields.dropLast, ∃ model,
      F.type = .reference model x (some G.id)

/-- A field without another end leaves no gap. -/
theorem not_opensGap (hw : Wired n t) {H : Schema} (hH : H ∈ t.schemas) {F : Field}
    (hF : F ∈ H.fields) (hfar : F.farEnd? = none) : ¬ t.OpensGap H.id F.id x := by
  intro h
  obtain ⟨-, H', hH', hHid, F', hF', hFid, -, -, -, G, -, model, htype⟩ := h
  obtain rfl := hw.schema_eq hH' hH hHid
  obtain rfl := List.inj_on_of_nodup_map (hw.fields_distinct H' hH) hF' hF hFid
  have hsome : F'.farEnd? = some ⟨model, x, G.id⟩ := Field.farEnd?_iff_type.mpr htype
  cases hfar.symm.trans hsome

/-- Whether a field leaves a gap is seen in the schema of its other end. -/
theorem opensGap_iff (hw : Wired n t) {H : Schema} (hH : H ∈ t.schemas) {F : Field}
    (hF : F ∈ H.fields) {far : FarEnd} (hfar : F.farEnd? = some far) {T : Schema}
    (hT : T ∈ t.schemas) (hid : T.id = far.schema) : t.OpensGap H.id F.id x ↔
      H.id ≠ x ∧ T.id = x ∧ ∃ G ∈ T.fields.dropLast, G.id = far.field := by
  constructor
  · intro h
    obtain ⟨hne, H', hH', hHid, F', hF', hFid, T', hT', hTid, G, hG, model, htype⟩ := h
    obtain rfl := hw.schema_eq hH' hH hHid
    obtain rfl := List.inj_on_of_nodup_map (hw.fields_distinct H' hH) hF' hF hFid
    have hsome : F'.farEnd? = some ⟨model, x, G.id⟩ := Field.farEnd?_iff_type.mpr htype
    obtain rfl := Option.some.inj (hfar.symm.trans hsome)
    obtain rfl := hw.schema_eq hT' hT (hTid.trans hid.symm)
    exact ⟨hne, hTid, G, hG, rfl⟩
  · intro h
    obtain ⟨hne, rfl, G, hG, hGid⟩ := h
    refine ⟨hne, H, hH, rfl, F, hF, rfl, T, hT, rfl, G, hG, far.model, ?_⟩
    rw [hid, hGid]
    exact Field.farEnd?_iff_type.mp hfar

/-- Saving a schema in order leaves the order of others alone. -/
theorem inOrder_saveSchema {S : Schema} (hS : S.Ordered) (h : t.InOrder x) :
    (t.saveSchema S).InOrder x :=
  forall_saveSchema h fun _ => hS

/-- When two schemas are saved, it is the one out of order that matters. -/
theorem inOrder_saveBoth_iff {S S' : Schema} (h : t.InOrder x) (hS : S.Ordered)
    (hne : S'.id ≠ S.id) :
    ((t.saveSchema S').saveSchema S).InOrder x ↔ (S'.id = x → S'.Ordered) := by
  constructor
  · intro hall hid
    exact hall S' (mem_saveSchema.mpr (.inr ⟨mem_saveSchema.mpr (.inl rfl), hne⟩)) hid
  · intro hS'
    exact inOrder_saveSchema hS (forall_saveSchema h hS')

/-- **Deleting a field leaves a schema in order** unless it takes out of it the
other end of the field, and that is not the last field. -/
theorem inOrder_deleteField_iff (hw : Wired n t) {host : SchemaId} {field : FieldId}
    (h : t.deleteField host field = .ok u) (hin : t.InOrder x) :
    u.InOrder x ↔ ¬ t.OpensGap host field x := by
  obtain ⟨S, removed, S₁, t₁, S₂, hS, hremove, hmirror, rfl⟩ := deleteField_steps h
  obtain ⟨hmem, rfl⟩ := mem_of_schema hS
  obtain ⟨rfl, hS₁, -, before, after, hfields, -⟩ := Schema.removeField_eq hremove
  have hremoved : removed ∈ S.fields := hfields ▸ List.mem_append_right _ List.mem_cons_self
  have hlast := Schema.ordered_normalizeOrder S₂
  rcases deleteMirror_steps hmirror with ⟨hfar, rfl, rfl⟩ | ⟨far, hfar, hcases⟩
  · exact iff_of_true (inOrder_saveSchema hlast hin) (not_opensGap hw hmem hremoved hfar)
  · rcases hcases with ⟨hsame, -, rfl⟩ | ⟨hother, rfl, other, hschema, hremoval⟩
    · -- both ends are in one schema, which is numbered anew
      have hgap := opensGap_iff (x := x) hw hmem hremoved hfar hmem (hS₁.symm.trans hsame.symm)
      refine iff_of_true (inOrder_saveSchema hlast hin) fun h => ?_
      obtain ⟨hne, heq, -⟩ := hgap.mp h
      exact hne heq
    · obtain ⟨hmem', hid'⟩ := mem_of_schema hschema
      have hapart : other.id ≠ S₂.id := fun heq => hother (hid'.symm.trans heq)
      rw [opensGap_iff hw hmem hremoved hfar hmem' hid']
      rcases hremoval with ⟨mirror, other', hremove', rfl⟩ | ⟨⟨d, hfails⟩, rfl⟩
      · obtain ⟨-, hother', -⟩ := Schema.removeField_eq hremove'
        rw [inOrder_saveBoth_iff hin hlast (hother' ▸ hapart), hother']
        constructor
        · intro hordered hgap
          obtain ⟨-, hx, G, hG, hGid⟩ := hgap
          have hiff := Schema.ordered_removeField_iff (hin other hmem' hx)
            (hw.fields_distinct other hmem') hremove'
          exact hiff.mp (hordered hx) G hG hGid
        · intro hnone hx
          have hiff := Schema.ordered_removeField_iff (hin other hmem' hx)
            (hw.fields_distinct other hmem') hremove'
          have hne : S.id ≠ x := fun heq => hapart (hx.trans (heq.symm.trans hS₁.symm))
          exact hiff.mpr fun G hG hGid => hnone ⟨hne, hx, G, hG, hGid⟩
      · refine iff_of_true (inOrder_saveSchema hlast hin) fun hgap => ?_
        -- a field that is there can be removed
        obtain ⟨-, -, G, hG, hGid⟩ := hgap
        have htie : (far.field, G.farEnd?) ∈ other.ties :=
          Schema.mem_ties.mpr ⟨G, List.dropLast_subset _ hG, hGid, rfl⟩
        obtain ⟨_, hsucceeds⟩ := Schema.exists_removeField htie
        cases hfails.symm.trans hsucceeds

/-! ## Other writes -/

/-- Creating a field leaves all schemas in order. -/
theorem inOrder_createField {param : NewField} {id mirrorId : FieldId} {f : Field}
    (h : t.createField param id mirrorId = .ok (u, f)) (hin : t.InOrder x) : u.InOrder x := by
  refine keeps_createField (P := fun S => S.id = x → S.Ordered) ?_ ?_ h hin
  · intro S f S' hS _ _ hadd hid
    have hid' := (Schema.addField_eq_ok hadd).1
    exact Schema.ordered_addField (hS (hid'.symm.trans hid)) hadd
  · intro S id S' hS htitle hid
    rw [Schema.setTitle_eq htitle] at hid ⊢
    exact (hS hid).congr rfl

theorem inOrder_describeMirror {S S' : Schema} {id : FieldId} {m : Mirror}
    (hS : S.id = x → S.Ordered) (h : describeMirror S id m = .ok S') : S'.id = x → S'.Ordered := by
  obtain ⟨current, hcurrent, -, rfl⟩ := describeMirror_eq_ok h
  intro hid
  refine (hS hid).congr (Schema.map_setField Field.order ?_)
  rw [hcurrent]
  rfl

/-- A change that gives no number leaves all numbers alone. -/
theorem inOrder_edited {S S' : Schema} {edit : FieldEdit} {g : Field} (horder : edit.order = none)
    (hS : S.id = x → S.Ordered) (h : t.Edited S edit g S') : S'.id = x → S'.Ordered := by
  have hgid := h.id_eq
  obtain @⟨current, f, g, S', hcurrent, hf, hkey, htitle⟩ := h
  obtain ⟨title, rfl⟩ := editTitle_eq htitle
  intro hid
  have hnumber : g.order = current.order := by
    have hf : f.order = current.order := by
      rw [(checked_editField hf).2.1, horder]
      rfl
    rcases hkey with rfl | ⟨key, -, -, rfl⟩
    · exact hf
    · exact hf
  refine (hS hid).congr (Schema.map_setField Field.order ?_)
  rw [hgid, hcurrent, hnumber]
  rfl

/-- Changing fields leaves all schemas in order, whether numbers are given or not. -/
theorem inOrder_updateFields {id : SchemaId} {edits : List FieldEdit} {fields : List Field}
    (h : t.updateFields id edits = .ok (u, fields)) (hin : t.InOrder x) : u.InOrder x := by
  by_cases hgiven : (edits.any fun e => e.order.isSome) = true
  · -- the schema is numbered anew, whatever has been done to it
    refine keeps_updateFields (P := fun S => S.id = x → S.Ordered) (Q := fun _ => True)
      (fun _ _ _ _ => trivial) (fun _ _ => trivial) inOrder_describeMirror (fun _ => trivial) ?_ h
      rfl hin
    intro S _ _
    rw [if_pos hgiven]
    exact Schema.ordered_normalizeOrder S
  · refine keeps_updateFields (P := fun S => S.id = x → S.Ordered)
      (Q := fun S => S.id = x → S.Ordered) ?_ inOrder_describeMirror inOrder_describeMirror
      (fun hS => hS) ?_ h rfl hin
    · intro t S edit g S' _ hedit hS hedited
      refine inOrder_edited ?_ hS hedited
      by_contra hsome
      exact hgiven (List.any_eq_true.mpr ⟨edit, hedit, Option.isSome_iff_ne_none.mpr hsome⟩)
    · intro S hS
      rw [if_neg hgiven]
      exact hS

end Tables

namespace Store

variable {s t u : Store} {x : SchemaId}

/-- What a call that creates a model or a group adds to the schemas is in order. -/
theorem inOrder_withSchemas {t : Tables} {project : ProjectId} {workspace : WorkspaceId} {n k : Nat}
    (hin : t.InOrder x) : (t.withSchemas project workspace n k).InOrder x := by
  intro S hS hid
  rcases Tables.mem_withSchemas hS with hS | ⟨_, -, rfl⟩
  · exact hin S hS hid
  · exact Schema.ordered_empty rfl

/-- **A call leaves a schema in order** unless it deletes a field of another schema
whose other end is in this one, and not the last field. -/
theorem inOrder_after (hs : s.Reachable) (ctx : Context) {c : Call} (hc : ¬ c.Opens)
    (hin : s.tables.InOrder x) : (c.after ctx s).tables.InOrder x ∨
      ∃ host field, c = .deleteField host field ∧ (deleteField ctx host field s).1 = .ok () ∧
        s.tables.OpensGap host field x := by
  have hw := hs.sane.wired
  have hrests : ∀ t : Store, s.Rests t → t.tables.InOrder x := fun t ht => by rwa [ht.1]
  have hitems : c.OfItems → (c.after ctx s).tables.InOrder x := by
    intro hitems
    have hsame := (sameCatalog_of_outcome (outcome_after hs.sane ctx c) hitems).1
    rwa [Tables.InOrder, hsame.schemas]
  cases c with
  | createModel param =>
    refine .inl ((reaches_newModel param).after hrests fun _ t h => ?_)
    obtain ⟨-, -, -, -, htables, -⟩ := h
    rw [htables]
    exact inOrder_withSchemas hin
  | createGroup param =>
    refine .inl ((reaches_newGroup param).after hrests fun _ t h => ?_)
    obtain ⟨-, -, -, -, htables, -⟩ := h
    rw [htables]
    exact inOrder_withSchemas hin
  | updateGroup id edit =>
    refine .inl ((reaches_changedGroup id edit).after hrests fun _ t h => ?_)
    obtain ⟨g, S, key, -, -, -, -, -, htables⟩ := h
    rw [htables]
    exact hin
  | createField param =>
    refine .inl ((reaches_newField param).after hrests fun _ t h => ?_)
    obtain ⟨S, -, -, hcreate, -⟩ := h
    exact Tables.inOrder_createField hcreate hin
  | updateField schema edit =>
    rw [Call.after, after_updateField]
    refine .inl ((reaches_changedFields schema [edit]).after hrests fun _ t h => ?_)
    obtain ⟨S, -, -, hupdate, -⟩ := h
    exact Tables.inOrder_updateFields hupdate hin
  | updateFields schema edits =>
    refine .inl ((reaches_changedFields schema edits).after hrests fun _ t h => ?_)
    obtain ⟨S, -, -, hupdate, -⟩ := h
    exact Tables.inOrder_updateFields hupdate hin
  | deleteField host field =>
    have hreaches := @reaches_deletedField s ctx host field
    rcases hreaches with ⟨a, ha, h⟩ | ⟨-, h⟩
    · obtain ⟨S, -, -, hdelete, -⟩ := h
      by_cases hgap : s.tables.OpensGap host field x
      · exact .inr ⟨host, field, rfl, ha, hgap⟩
      · exact .inl ((Tables.inOrder_deleteField_iff hw hdelete hin).mpr hgap)
    · exact .inl (hrests _ h)
  | openWith => exact (hc trivial).elim
  | _ => exact .inl (hitems trivial)

/-- Calls that add to the catalog leave all schemas in order. -/
theorem inOrder_of_extending (hs : s.Reachable) (h : Run Call.Extending s t)
    (hin : s.tables.InOrder x) : t.tables.InOrder x := by
  refine hs.extending h (P := fun u => u.tables.InOrder x)
    (fun hrests hin => by rwa [hrests.1]) (fun {u ctx c} hu hc hin => ?_) hin
  rcases inOrder_after hu ctx hc.not_opens hin with hin | ⟨host, field, rfl, -⟩
  · exact hin
  · exact hc.elim

/-- A field has been deleted whose other end was a field of the schema, and not the
last one there. -/
def Unravels (x : SchemaId) (s t : Store) : Prop :=
  ∃ ctx host field, t = (Call.deleteField host field).after ctx s ∧
    (deleteField ctx host field s).1 = .ok () ∧ s.tables.OpensGap host field x

/-- Whatever else happens to a store leaves the schema in order. -/
theorem inOrder_of_moves (hs : s.Reachable) (h : s.Moves t) (hin : s.tables.InOrder x) :
    t.tables.InOrder x ∨ Unravels x s t := by
  cases h with
  | rest h => exact .inl (by rwa [h.1])
  | declare d => exact .inl (inOrder_of_extending hs (run_declare d s) hin)
  | call ctx c =>
    by_cases hopens : c.Opens
    · cases c with
      | openWith config catalog => exact .inl (inOrder_of_extending hs (run_openWith ..) hin)
      | _ => exact hopens.elim
    · rcases inOrder_after hs ctx hopens hin with hin | ⟨host, field, rfl, hok, hgap⟩
      · exact .inl hin
      · exact .inr ⟨ctx, host, field, rfl, hok, hgap⟩

/-- Such a deletion does leave the schema out of order. -/
theorem Unravels.not_inOrder (h : Unravels x s t) (hs : s.Reachable) (hin : s.tables.InOrder x) :
    ¬ t.tables.InOrder x := by
  obtain ⟨ctx, host, field, rfl, hok, hgap⟩ := h
  obtain ⟨S, -, -, hdelete, -⟩ := (reaches_deletedField host field).of_ok hok
  intro hafter
  exact (Tables.inOrder_deleteField_iff hs.sane.wired hdelete hin).mp hafter hgap

/-- A schema that is out of order has been so ever since such a deletion. -/
theorem unravelled_of_evolves (hs : s.Reachable) (h : s.Evolves t) (hin : s.tables.InOrder x)
    (hnot : ¬ t.tables.InOrder x) : ∃ u v, s.Evolves u ∧ u.tables.InOrder x ∧ Unravels x u v ∧
      ReflTransGen (fun v w => v.Moves w ∧ ¬ w.tables.InOrder x) v t := by
  induction h with
  | refl => exact (hnot hin).elim
  | @tail r t hrun hmove ih =>
    by_cases hr : r.tables.InOrder x
    · rcases inOrder_of_moves (hs.evolves hrun) hmove hr with ht | hunravels
      · exact (hnot ht).elim
      · exact ⟨r, t, hrun, hr, hunravels, .refl⟩
    · obtain ⟨u, v, hu, huin, hunravels, hrest⟩ := ih hr
      exact ⟨u, v, hu, huin, hunravels, hrest.tail ⟨hmove, hnot⟩⟩

/-- **The fields of a schema are in order unless a deletion has left a gap.**  In
every state that a run reaches, a schema is out of order if and only if a field of
another schema has been deleted whose other end was in this schema, and not its
last field, and the fields have not been numbered anew since.  In a schema in order
a new field gets the next number, and putting its fields into order changes nothing. -/
theorem order_of_run {config : Config} {clock : Time.Clock} {supply : Supply} {emitter : Emitter}
    (h : (blank config clock supply emitter).Evolves s) {S : Schema}
    (hS : S ∈ s.tables.schemas) :
    (¬ S.Ordered ↔ ∃ u v, (blank config clock supply emitter).Evolves u ∧
      u.tables.InOrder S.id ∧ Unravels S.id u v ∧
      ReflTransGen (fun v w => v.Moves w ∧ ¬ w.tables.InOrder S.id) v s) ∧
    (S.Ordered → S.normalizeOrder = S ∧ ∀ f S', S.addField f = .ok S' → S'.Ordered) := by
  have hblank := reachable_blank config clock supply emitter
  have hw := (hblank.evolves h).sane.wired
  have hin : s.tables.InOrder S.id ↔ S.Ordered := by
    constructor
    · exact fun hin => hin S hS rfl
    · intro hordered T hT hid
      rwa [hw.schema_eq hT hS hid]
  refine ⟨⟨fun hnot => ?_, fun hex => ?_⟩, fun hordered =>
    ⟨Schema.normalizeOrder_of_ordered hordered, fun _ _ => Schema.ordered_addField hordered⟩⟩
  · refine unravelled_of_evolves hblank h (fun _ hT => (List.not_mem_nil hT).elim) ?_
    rwa [hin]
  · obtain ⟨u, v, hu, huin, hunravels, hrest⟩ := hex
    rw [← hin]
    rcases ReflTransGen.cases_tail hrest with rfl | ⟨w, -, -, hnot⟩
    · exact hunravels.not_inOrder (hblank.evolves hu) huin
    · exact hnot

section Bylines

/-- Posts refer to authors, whose first field is the way back.  When the reference
has been deleted authors get another field. -/
def bylines : List Call := [
  .createModel (.ofKey ⟨"project"⟩ ⟨"press"⟩ "author"),
  .createModel (.ofKey ⟨"project"⟩ ⟨"press"⟩ "post"),
  .createField { NewField.ofKey (.ofSerial 2) "author"
    (.reference (.ofSerial 1) (.ofSerial 0) none) with mirror := some (.ofKey "post") },
  .createField (.ofKey (.ofSerial 0) "name" (.text none)),
  .deleteField (.ofSerial 2) (.ofSerial 4),
  .createField (.ofKey (.ofSerial 0) "born" .dateTime)]

/-- The schema of authors has two fields of one number, and none has the number of
the first place. -/
theorem order_lost : ∃ s : Store, s.Reachable ∧ ∃ S ∈ s.tables.schemas,
    S.fields.map (fun f => (f.key, f.order)) = [("name", 1), ("born", 1)] ∧ ¬ S.Ordered := by
  have hreach : (Call.afterAll (.maintainer ⟨"press"⟩) bylines
      (blank .standard ⟨⟨0, 0⟩, 1⟩ ⟨0⟩ .silent)).Reachable :=
    (reachable_blank _ _ _ _).evolves (evolves_afterAll _ _ _)
  have hschema : ∃ S ∈ (Call.afterAll (.maintainer ⟨"press"⟩) bylines
      (blank .standard ⟨⟨0, 0⟩, 1⟩ ⟨0⟩ .silent)).tables.schemas,
      S.fields.map (fun f => (f.key, f.order)) = [("name", 1), ("born", 1)] := by
    decide +kernel
  obtain ⟨S, hS, hfields⟩ := hschema
  refine ⟨_, hreach, S, hS, hfields, fun hordered => ?_⟩
  obtain ⟨f, hf, hnumber⟩ : ∃ f, S.fields[0]? = some f ∧ (f.key, f.order) = ("name", 1) := by
    rw [← Option.map_eq_some_iff, ← List.getElem?_map, hfields]
    rfl
  have hone : f.order = 1 := congrArg Prod.snd hnumber
  have hzero := hordered 0 f hf
  omega

/-- The schema of authors is out of order since the reference has been deleted. -/
theorem order_of_bylines : ∃ s : Store, ∃ S ∈ s.tables.schemas, ¬ S.Ordered ∧
    ∃ u v, u.tables.InOrder S.id ∧ Unravels S.id u v ∧
      ReflTransGen (fun v w => v.Moves w ∧ ¬ w.tables.InOrder S.id) v s := by
  have hrun := evolves_afterAll (.maintainer ⟨"press"⟩) bylines
    (blank .standard ⟨⟨0, 0⟩, 1⟩ ⟨0⟩ .silent)
  have hschema : ∃ S ∈ (Call.afterAll (.maintainer ⟨"press"⟩) bylines
      (blank .standard ⟨⟨0, 0⟩, 1⟩ ⟨0⟩ .silent)).tables.schemas,
      ∃ f ∈ S.fields[0]?, f.order = 1 := by
    decide +kernel
  obtain ⟨S, hS, f, hf, hone⟩ := hschema
  have hnot : ¬ S.Ordered := by
    intro hordered
    have hzero := hordered 0 f hf
    omega
  obtain ⟨u, v, -, huin, hunravels, hrest⟩ := (order_of_run hrun hS).1.mp hnot
  exact ⟨_, S, hS, hnot, u, v, huin, hunravels, hrest⟩

end Bylines

end Store

end ContentStore
